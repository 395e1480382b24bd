import SimpleOS.Properties.LineEditing

/-!
# The cooldown of Enter

After a line has been returned Enter is ignored for a while.  A stopwatch that
counts the polls since then says exactly when it ends a line again.
-/

namespace SimpleOS

open Library.ByteMemory Library.GuardedRun

/-! ## A poll counts down by one -/

theorem Poll.eraseChar_cooldown (p : Poll) :
    p.eraseChar.keyboard.enterCooldown = p.keyboard.enterCooldown := by
  unfold eraseChar
  split <;> rfl

theorem Poll.tabLoop_cooldown (left : Nat) (p : Poll) :
    (p.tabLoop left).keyboard.enterCooldown = p.keyboard.enterCooldown := by
  induction left generalizing p with
  | zero => rfl
  | succ left ih =>
      rw [tabLoop]
      split
      · exact ih (p.typeChar (charByte ' '))
      · rfl

namespace KeyboardState

variable (s : KeyboardState)

theorem updateModifiers_cooldown (code : Byte) (released : Bool) :
    (s.updateModifiers code released).enterCooldown = s.enterCooldown := by
  unfold updateModifiers
  repeat' split
  all_goals rfl

theorem release_cooldown (code : Byte) : (s.release code).enterCooldown = s.enterCooldown := by
  have modifiers := s.updateModifiers_cooldown code true
  unfold release
  dsimp only
  split <;> exact modifiers

theorem repeatKey_cooldown : s.repeatKey.keyboard.enterCooldown = s.enterCooldown := by
  unfold repeatKey
  dsimp only
  split
  · exact Poll.eraseChar_cooldown (Poll.hideCursor { keyboard := s })
  · split <;> rfl

theorem hold_cooldown : s.hold.keyboard.enterCooldown = s.enterCooldown := by
  unfold hold
  dsimp only
  split
  · rfl
  · split
    · exact repeatKey_cooldown _
    · rfl

theorem idle_cooldown : s.idle.keyboard.enterCooldown = s.enterCooldown := by
  unfold idle
  split
  · dsimp only
    split
    · rfl
    · exact repeatKey_cooldown _
  · rfl

theorem press_cooldown (code : Byte) :
    (s.press code).keyboard.enterCooldown = s.enterCooldown := by
  by_cases modifier : IsModifier code
  · have modifiers := updateModifiers_cooldown { s with lastScancode := code } code false
    unfold press
    dsimp only
    rw [if_pos modifier]
    exact modifiers
  · generalize taken : s.press code = pressed
    cases taken ▸ s.press_keyPress modifier with
    | accepted _ _ => rfl
    | ignored _ _ => rfl
    | backspace _ _ => exact (s.keyRound code).eraseChar_cooldown
    | tab _ _ _ => exact (s.keyRound code).tabLoop_cooldown 4
    | char _ _ _ =>
        unfold pressChar
        dsimp only
        split <;> rfl

/-- Nothing but the decrement at its beginning changes the cooldown in a round. -/
theorem poll_cooldown (scancode : Byte) :
    (s.poll scancode).keyboard.enterCooldown = s.cool.enterCooldown := by
  generalize taken : s.poll scancode = round
  cases taken ▸ s.poll_round scancode with
  | release _ _ => exact s.cool.release_cooldown _
  | hold _ _ _ _ => exact s.cool.hold_cooldown
  | press _ _ => exact s.cool.press_cooldown scancode
  | seen _ _ => rfl
  | idle _ _ => exact s.cool.idle_cooldown

/-- The decrement stops at zero. -/
theorem cool_cooldown : s.cool.enterCooldown =
    if s.enterCooldown > 0 then s.enterCooldown - 1 else s.enterCooldown := by
  unfold cool
  split <;> rfl

/-- A round ends the line if it sees Enter go down when the cooldown is over. -/
theorem poll_entered_iff (scancode : Byte) :
    (s.poll scancode).entered = true ↔
      scancode = enterScancode ∧ s.Presses scancode ∧ s.cool.enterCooldown = 0 := by
  generalize taken : s.poll scancode = round
  cases taken ▸ s.poll_round scancode with
  | release other _ => exact iff_of_false Bool.false_ne_true fun enters => other enters.2.1
  | hold other _ _ _ =>
      rw [s.cool.hold_entered]
      exact iff_of_false Bool.false_ne_true fun enters => other enters.2.1
  | seen other _ => exact iff_of_false Bool.false_ne_true fun enters => other enters.2.1
  | idle other _ =>
      rw [s.cool.idle_entered]
      exact iff_of_false Bool.false_ne_true fun enters => other enters.2.1
  | press presses _ =>
      constructor
      · intro entered
        obtain ⟨rfl, _⟩ := s.cool.press_ends entered
        generalize struck : s.cool.press enterScancode = press at entered
        cases struck ▸ s.cool.press_keyPress (by decide : ¬ IsModifier enterScancode) with
        | accepted _ elapsed => exact ⟨rfl, presses, elapsed⟩
        | ignored _ _ => cases entered
        | backspace notEnter _ => exact absurd rfl notEnter
        | tab notEnter _ _ => exact absurd rfl notEnter
        | char notEnter _ _ => exact absurd rfl notEnter
      · rintro ⟨rfl, _, elapsed⟩
        generalize struck : s.cool.press enterScancode = press
        cases struck ▸ s.cool.press_keyPress (by decide : ¬ IsModifier enterScancode) with
        | accepted _ _ => rfl
        | ignored _ cooling => exact absurd elapsed cooling
        | backspace notEnter _ => exact absurd rfl notEnter
        | tab notEnter _ _ => exact absurd rfl notEnter
        | char notEnter _ _ => exact absurd rfl notEnter

end KeyboardState

/-! ## The stopwatch -/

/-- A session with the number of polls since a line was last returned, if one was. -/
structure Stopwatch where
  session : Session
  polls : Option Nat

namespace Stopwatch

def step (w : Stopwatch) (event : Session.Event) : Stopwatch where
  session := w.session.step event
  polls :=
    match w.session.phase, event with
    | .polling, .byte _ => w.polls.map (· + 1)
    | .draining 0, .byte _ => some 0
    | _, _ => w.polls

/-- After `keyboard_init`. -/
def init (s : KeyboardState) : Stopwatch := ⟨Session.init s, none⟩

/-- What is left of the cooldown. -/
def remaining : Option Nat → Int
  | none => 0
  | some polls => max 0 (enterCooldownCycles - polls)

/-- The cooldown is what the stopwatch says. -/
def Measured (w : Stopwatch) : Prop := w.session.keyboard.enterCooldown = remaining w.polls

/-- The next poll is the 5000th since a line was returned, or a later one. -/
def Elapsed (w : Stopwatch) : Prop := ∀ polls ∈ w.polls, enterCooldownCycles ≤ polls + 1

/-- Enter ends a line exactly if it goes down when the time has elapsed. -/
def Debounced (w : Stopwatch) : Prop :=
  w.session.phase = .polling → ∀ scancode,
    ((w.session.keyboard.poll scancode).entered = true ↔
      scancode = enterScancode ∧ w.session.keyboard.Presses scancode ∧ w.Elapsed)

variable {w : Stopwatch}

theorem Measured.cool (measured : w.Measured) :
    w.session.keyboard.cool.enterCooldown = remaining (w.polls.map (· + 1)) := by
  rw [KeyboardState.cool_cooldown, measured]
  cases w.polls with
  | none => rfl
  | some polls =>
      simp only [remaining, Option.map_some, enterCooldownCycles]
      omega

theorem step_measured (w : Stopwatch) (event : Session.Event) (measured : w.Measured) :
    (w.step event).Measured := by
  cases event with
  | call =>
      have same : w.session.call.keyboard.enterCooldown = w.session.keyboard.enterCooldown := by
        unfold Session.call
        split <;> rfl
      have polls : (w.step .call).polls = w.polls := by
        unfold step
        dsimp only
        split
        · next taken => cases taken
        · next taken => cases taken
        · rfl
      rw [Measured, polls]
      exact same.trans measured
  | byte byte =>
      cases phase : w.session.phase with
      | polling =>
          have fed : (w.session.feed byte).keyboard = (w.session.keyboard.poll byte).keyboard := by
            simp only [Session.feed, phase]
          simp only [Measured, step, Session.step, phase, fed]
          exact (KeyboardState.poll_cooldown _ byte).trans measured.cool
      | draining left =>
          cases left with
          | zero =>
              simp only [Measured, step, Session.step, Session.feed, phase]
              rfl
          | succ left =>
              simp only [Measured, step, Session.step, Session.feed, phase]
              exact measured
      | returned =>
          simp only [Measured, step, Session.step, Session.feed, phase]
          exact measured

theorem Measured.debounced (measured : w.Measured) : w.Debounced := by
  intro _ scancode
  have elapsed : remaining (w.polls.map (· + 1)) = 0 ↔ w.Elapsed := by
    unfold Elapsed
    cases w.polls with
    | none => exact iff_of_true rfl fun _ member => nomatch member
    | some polls =>
        simp only [remaining, Option.map_some, Option.mem_some_iff, forall_eq']
        omega
  rw [KeyboardState.poll_entered_iff, measured.cool, elapsed]

/-- Over any run of calls and bytes, Enter ends a line exactly when it goes down at the 5000th poll
after the return of the line before, or later; for the first line, whenever it goes down. -/
theorem enter_debounced (s : KeyboardState) (events : List Session.Event) :
    Always step Debounced (init s) events := by
  have always := always_of_invariant step_measured (show (init s).Measured from rfl) events
  rw [always_iff_prefixes] at always ⊢
  exact fun taken rest split => (always taken rest split).debounced

end Stopwatch

end SimpleOS
