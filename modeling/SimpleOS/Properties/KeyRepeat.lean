import SimpleOS.Properties.LineEditing

/-!
# What auto-repeat inserts

A repeat appends `held_key_char`.  Every key that becomes the held one sets it,
to the character it appended or to one that is not repeated, except for an
Enter in its cooldown: that one is held with the character of the key before.
-/

namespace SimpleOS

open Library.ByteMemory Library.GuardedRun

namespace KeyboardState

/-- The characters that the next state has behind the text of this one. -/
def appended (s t : KeyboardState) : List Byte := t.text.drop s.text.length

/-- The table has a character for the key, under some modifiers. -/
def Mapped (scancode : Byte) : Prop := ∃ s : KeyboardState, s.scancodeToAscii scancode ≠ 0

/-- A repeat that is due and appends a character. -/
def Due (s : KeyboardState) : Prop :=
  s.heldKey ≠ 0 ∧ s.heldKey ≠ backspaceScancode ∧ s.heldKeyChar ≠ 0 ∧
    s.heldKeyChar ≠ backspaceChar ∧ s.repeatDelay ≤ 0 ∧ s.bufferPos < 255

instance (s : KeyboardState) : Decidable s.Due :=
  inferInstanceAs (Decidable (_ ∧ _ ∧ _ ∧ _ ∧ _ ∧ _))

/-- A new Enter is ignored, in its cooldown, while a character is left to repeat. -/
def IgnoresEnter (s : KeyboardState) (scancode : Byte) : Prop :=
  s.Presses scancode ∧ scancode = enterScancode ∧ s.cool.enterCooldown ≠ 0 ∧
    s.heldKeyChar ≠ 0 ∧ s.heldKeyChar ≠ backspaceChar

/-- What the held key appended when its press was processed, after one more round. -/
def typedAfter (s : KeyboardState) (scancode : Byte) (typed : List Byte) : List Byte :=
  if s.Presses scancode ∧ ¬ IsModifier scancode then s.appended (s.poll scancode).keyboard
  else typed

end KeyboardState

/-- A session with what the held key appended when its press was processed. -/
structure Typist where
  session : Session
  typed : List Byte

namespace Typist

def step (t : Typist) (event : Session.Event) : Typist where
  session := t.session.step event
  typed :=
    match t.session.phase, event with
    | .polling, .byte scancode => t.session.keyboard.typedAfter scancode t.typed
    | _, _ => t.typed

/-- After `keyboard_init`. -/
def init (s : KeyboardState) : Typist := ⟨Session.init s, []⟩

/-- What a repeat appends is what the held key itself appended, and that key is none of those
that never insert by repeat. -/
def RepeatsHeld (t : Typist) : Session.Event → Prop
  | .call => True
  | .byte scancode =>
      t.session.phase = .polling → t.session.keyboard.Repeats scancode →
        ∀ char ∈ t.session.keyboard.appended (t.session.keyboard.poll scancode).keyboard,
          t.typed = [char] ∧ t.session.keyboard.heldKey ≠ enterScancode ∧
            t.session.keyboard.heldKey ≠ tabScancode ∧
            KeyboardState.Mapped t.session.keyboard.heldKey

/-- A repeat is due while Enter is the held key. -/
def RepeatsEnter (t : Typist) : Session.Event → Prop
  | .call => False
  | .byte scancode =>
      t.session.phase = .polling ∧ t.session.keyboard.Repeats scancode ∧
        t.session.keyboard.heldKey = enterScancode ∧ t.session.keyboard.Due

/-- An Enter is ignored that will be held with the character of another key. -/
def IgnoresEnter (t : Typist) : Session.Event → Prop
  | .call => False
  | .byte scancode => t.session.phase = .polling ∧ t.session.keyboard.IgnoresEnter scancode

end Typist

/-! ## What a round appends -/

namespace KeyboardState

section Appended

variable {s : KeyboardState}

theorem appended_of_text {t : KeyboardState} (same : t.text = s.text) : s.appended t = [] := by
  rw [appended, same, List.drop_length]

theorem appended_of_append {t : KeyboardState} {chars : List Byte}
    (more : t.text = s.text ++ chars) : s.appended t = chars := by
  rw [appended, more, List.drop_left]

theorem appended_of_dropLast {t : KeyboardState} (fewer : t.text = s.text.dropLast) :
    s.appended t = [] := by
  rw [appended, fewer, List.drop_eq_nil_of_le]
  rw [List.length_dropLast]
  exact Nat.sub_le _ _

theorem text_of_same {t : KeyboardState} (pos : t.bufferPos = s.bufferPos)
    (buffer : t.inputBuffer = s.inputBuffer) : t.text = s.text := by
  rw [text, text, pos, buffer]

theorem cool_text (s : KeyboardState) : s.cool.text = s.text := text_of_line s.cool_line

/-- The edit of a repeat, without the cursor that is shown behind it. -/
def repeatEdit (s : KeyboardState) : Poll :=
  let p := Poll.hideCursor { keyboard := s }
  if s.heldKey = backspaceScancode then p.eraseChar
  else if s.heldKeyChar ≠ backspaceChar ∧ s.bufferPos < 255 then p.typeChar s.heldKeyChar
  else p

theorem repeatKey_text : s.repeatKey.keyboard.text = s.repeatEdit.keyboard.text := rfl

theorem repeatKey_keys :
    s.repeatKey.keyboard.heldKey = s.heldKey ∧
      s.repeatKey.keyboard.heldKeyChar = s.heldKeyChar := by
  have kept : s.repeatEdit.keyboard.heldKey = s.heldKey ∧
      s.repeatEdit.keyboard.heldKeyChar = s.heldKeyChar := by
    unfold repeatEdit Poll.eraseChar
    dsimp only
    split
    · split <;> exact ⟨rfl, rfl⟩
    · split <;> exact ⟨rfl, rfl⟩
  exact kept

variable (lower : 0 ≤ s.bufferPos)

include lower

/-- A repeat that is due appends the character of the held key, and no other repeat appends. -/
theorem repeatKey_appended (held : s.heldKey ≠ 0) (char : s.heldKeyChar ≠ 0)
    (delay : s.repeatDelay ≤ 0) :
    s.appended s.repeatKey.keyboard = if s.Due then [s.heldKeyChar] else [] := by
  rw [appended, repeatKey_text, ← appended]
  unfold repeatEdit
  dsimp only
  split
  · next backspace =>
    have notDue : ¬ s.Due := fun due => due.2.1 backspace
    rw [if_neg notDue]
    exact appended_of_dropLast (eraseChar_text (p := Poll.hideCursor { keyboard := s }) lower)
  · next notBackspace =>
    split
    · next types =>
      have due : s.Due := ⟨held, notBackspace, char, types.1, delay, types.2⟩
      rw [if_pos due]
      exact appended_of_append (typeChar_text (p := Poll.hideCursor { keyboard := s }) lower _)
    · next stays =>
      have notDue : ¬ s.Due := fun due => stays ⟨due.2.2.2.1, due.2.2.2.2.2⟩
      rw [if_neg notDue]
      exact appended_of_text rfl

/-- What the two branches with a repeat append. -/
theorem hold_appended (held : s.heldKey ≠ 0) :
    s.appended s.hold.keyboard = if s.Due then [s.heldKeyChar] else [] := by
  unfold hold
  dsimp only
  split
  · next delayed =>
    rw [if_neg fun due : s.Due => absurd due.2.2.2.2.1 (Int.not_le.mpr delayed)]
    exact appended_of_text rfl
  · next elapsed =>
    split
    · next char =>
      exact repeatKey_appended (s := { s with keyHoldTime := s.keyHoldTime + 1 }) lower held char
        (Int.not_lt.mp elapsed)
    · next none =>
      rw [if_neg fun due : s.Due => none due.2.2.1]
      exact appended_of_text rfl

theorem idle_appended : s.appended s.idle.keyboard = if s.Due then [s.heldKeyChar] else [] := by
  unfold idle
  dsimp only
  split
  · next holding =>
    split
    · next delayed =>
      rw [if_neg fun due : s.Due => absurd due.2.2.2.2.1 (Int.not_le.mpr delayed)]
      exact appended_of_text rfl
    · next elapsed =>
      exact repeatKey_appended (s := { s with keyHoldTime := s.keyHoldTime + 1 }) lower holding.1
        holding.2 (Int.not_lt.mp elapsed)
  · next resting =>
    rw [if_neg fun due : s.Due => resting ⟨due.1, due.2.2.1⟩]
    exact appended_of_text rfl

/-- What auto-repeat appends. -/
theorem poll_appended {scancode : Byte} (repeats : s.Repeats scancode) :
    s.appended (s.poll scancode).keyboard = if s.Due then [s.heldKeyChar] else [] := by
  obtain ⟨held, char, _, delay⟩ := s.cool_keys
  have cooled : 0 ≤ s.cool.bufferPos := s.cool_same.1 ▸ lower
  have due : s.cool.Due ↔ s.Due := by
    rw [Due, Due, held, char, delay, s.cool_same.1]
  have same (t : KeyboardState) : s.cool.appended t = s.appended t := by
    rw [appended, appended, s.cool_text]
  generalize taken : s.poll scancode = round
  cases taken ▸ s.poll_round scancode with
  | release _ notRepeats => exact absurd repeats notRepeats
  | hold _ _ _ nonzero =>
      have appends := hold_appended cooled (held.symm ▸ nonzero)
      simpa only [same, due, char] using appends
  | press _ notRepeats => exact absurd repeats notRepeats
  | seen _ notRepeats => exact absurd repeats notRepeats
  | idle _ _ =>
      have appends := idle_appended cooled
      simpa only [same, due, char] using appends

end Appended

/-! ## What a round does to the held key -/

section Held

variable (s : KeyboardState)

theorem hold_keys : s.hold.keyboard.heldKey = s.heldKey ∧
    s.hold.keyboard.heldKeyChar = s.heldKeyChar := by
  unfold hold
  dsimp only
  split
  · exact ⟨rfl, rfl⟩
  · split
    · exact repeatKey_keys (s := { s with keyHoldTime := s.keyHoldTime + 1 })
    · exact ⟨rfl, rfl⟩

theorem idle_keys : s.idle.keyboard.heldKey = s.heldKey ∧
    s.idle.keyboard.heldKeyChar = s.heldKeyChar := by
  unfold idle
  dsimp only
  split
  · split
    · exact ⟨rfl, rfl⟩
    · exact repeatKey_keys (s := { s with keyHoldTime := s.keyHoldTime + 1 })
  · exact ⟨rfl, rfl⟩

/-- A modifier does not become the held key. -/
theorem press_modifier {scancode : Byte} (modifier : IsModifier scancode) :
    (s.press scancode).keyboard.heldKey = s.heldKey ∧
      (s.press scancode).keyboard.heldKeyChar = s.heldKeyChar := by
  obtain ⟨_, _, held, char, _⟩ :=
    updateModifiers_pressed { s with lastScancode := scancode } scancode
  rw [press]
  dsimp only
  rw [if_pos modifier]
  exact ⟨held, char⟩

/-- The round of a character key. -/
theorem pressChar_keys (p : Poll) (lower : 0 ≤ p.keyboard.bufferPos) (scancode : Byte)
    (char : (pressChar p scancode).keyboard.heldKeyChar ≠ 0) :
    p.keyboard.scancodeToAscii scancode ≠ 0 ∧
      p.keyboard.appended (pressChar p scancode).keyboard =
        [(pressChar p scancode).keyboard.heldKeyChar] := by
  unfold pressChar at char ⊢
  dsimp only at char ⊢
  split at char
  · next types =>
    rw [if_pos types]
    exact ⟨types.1, appended_of_append (typeChar_text lower _)⟩
  · exact absurd rfl char

/-- Any other key becomes the held one, with the character it appends if one is to be repeated. -/
theorem press_key (lower : 0 ≤ s.bufferPos) {scancode : Byte} (key : ¬ IsModifier scancode) :
    (s.press scancode).keyboard.heldKey = scancode ∧
      (scancode ≠ enterScancode → scancode ≠ backspaceScancode →
        (s.press scancode).keyboard.heldKeyChar ≠ 0 →
          s.appended (s.press scancode).keyboard = [(s.press scancode).keyboard.heldKeyChar] ∧
            scancode ≠ tabScancode ∧ Mapped scancode) := by
  generalize taken : s.press scancode = round
  cases taken ▸ s.press_keyPress key with
  | accepted enter _ => exact ⟨rfl, fun notEnter => absurd enter notEnter⟩
  | ignored enter _ => exact ⟨rfl, fun notEnter => absurd enter notEnter⟩
  | backspace _ backspace =>
      exact ⟨(eraseChar_keys _).heldKey, fun _ notBackspace => absurd backspace notBackspace⟩
  | tab _ _ _ => exact ⟨(tabLoop_keys 4 _).heldKey, fun _ _ char => absurd rfl char⟩
  | char _ _ notTab =>
      refine ⟨?_, fun _ _ char => ?_⟩
      · unfold pressChar
        dsimp only
        split <;> rfl
      · obtain ⟨mapped, appends⟩ := pressChar_keys (s.keyRound scancode) lower scancode char
        exact ⟨appends, notTab, _, mapped⟩

end Held

/-- The held key and the character to repeat belong together, unless the key is Enter. -/
def Pairs (s : KeyboardState) (typed : List Byte) : Prop :=
  s.heldKey ≠ 0 → s.heldKey ≠ enterScancode → s.heldKey ≠ backspaceScancode → s.heldKeyChar ≠ 0 →
    typed = [s.heldKeyChar] ∧ s.heldKey ≠ tabScancode ∧ Mapped s.heldKey

section Pairs

variable {s t : KeyboardState} {typed : List Byte} (pairs : s.Pairs typed)

include pairs

theorem Pairs.congr (held : t.heldKey = s.heldKey) (char : t.heldKeyChar = s.heldKeyChar) :
    t.Pairs typed := by
  rw [Pairs, held, char]
  exact pairs

/-- A release forgets the held key or keeps it. -/
theorem Pairs.release (releasedKey : Byte) : (s.release releasedKey).Pairs typed := by
  intro nonzero
  obtain ⟨held, char⟩ := release_held s releasedKey
  have other : ¬ releasedKey = s.heldKey := by
    intro same
    rw [held, if_pos same] at nonzero
    exact nonzero rfl
  rw [if_neg other] at held char
  exact pairs.congr held char nonzero

/-- Every round keeps the pair together. -/
theorem Pairs.poll (lower : 0 ≤ s.bufferPos) (scancode : Byte) :
    (s.poll scancode).keyboard.Pairs (s.typedAfter scancode typed) := by
  obtain ⟨held, char, _, _⟩ := s.cool_keys
  have cooled := pairs.congr held char
  have kept (presses : ¬ (s.Presses scancode ∧ ¬ IsModifier scancode)) :
      s.typedAfter scancode typed = typed := if_neg presses
  generalize after : s.typedAfter scancode typed = typed' at kept ⊢
  generalize taken : s.poll scancode = round
  cases taken ▸ s.poll_round scancode with
  | release presses _ =>
      rw [kept fun both => presses both.1]
      exact cooled.release (scancode - 0x80)
  | hold presses _ _ _ =>
      rw [kept fun both => presses both.1]
      exact cooled.congr s.cool.hold_keys.1 s.cool.hold_keys.2
  | press presses _ =>
      by_cases modifier : IsModifier scancode
      · have same := s.cool.press_modifier modifier
        rw [kept fun both => both.2 modifier]
        exact cooled.congr same.1 same.2
      · obtain ⟨key, appends⟩ := s.cool.press_key (s.cool_same.1 ▸ lower) modifier
        have new : s.appended (s.cool.press scancode).keyboard = typed' := by
          rw [← after, typedAfter, if_pos ⟨presses, modifier⟩, taken]
        intro _ notEnter notBackspace nonzero
        rw [key] at notEnter notBackspace ⊢
        have typedHere := appends notEnter notBackspace nonzero
        rw [appended, s.cool_text, ← appended, new] at typedHere
        exact typedHere
  | seen presses _ =>
      rw [kept fun both => presses both.1]
      exact cooled
  | idle presses _ =>
      rw [kept fun both => presses both.1]
      exact cooled.congr s.cool.idle_keys.1 s.cool.idle_keys.2

end Pairs

/-- Enter is not held with a character of another key. -/
def Rests (s : KeyboardState) : Prop :=
  s.heldKey = enterScancode → s.heldKeyChar = 0 ∨ s.heldKeyChar = backspaceChar

theorem press_enter_cases (s : KeyboardState) :
    (s.press enterScancode).entered = true ∨
      s.enterCooldown ≠ 0 ∧ (s.press enterScancode).keyboard.heldKeyChar = s.heldKeyChar := by
  have key : ¬ IsModifier enterScancode := by decide
  generalize taken : s.press enterScancode = round
  cases taken ▸ s.press_keyPress key with
  | accepted _ _ => exact Or.inl rfl
  | ignored _ cooling => exact Or.inr ⟨cooling, rfl⟩
  | backspace notEnter _ => exact absurd rfl notEnter
  | tab notEnter _ _ => exact absurd rfl notEnter
  | char notEnter _ _ => exact absurd rfl notEnter

/-- It only gets one when it is ignored while there is one. -/
theorem Rests.poll {s : KeyboardState} (rests : s.Rests) (lower : 0 ≤ s.bufferPos)
    {scancode : Byte} (heeds : ¬ s.IgnoresEnter scancode)
    (goesOn : (s.poll scancode).entered = false) : (s.poll scancode).keyboard.Rests := by
  obtain ⟨held, char, _, _⟩ := s.cool_keys
  have kept {u : KeyboardState} (sameKey : u.heldKey = s.cool.heldKey)
      (sameChar : u.heldKeyChar = s.cool.heldKeyChar) : u.Rests := by
    rw [Rests, sameKey, sameChar, held, char]
    exact rests
  generalize taken : s.poll scancode = round at goesOn ⊢
  cases taken ▸ s.poll_round scancode with
  | release _ _ =>
      obtain ⟨sameKey, sameChar⟩ := release_held s.cool (scancode - 0x80)
      by_cases same : scancode - 0x80 = s.cool.heldKey
      · rw [if_pos same] at sameChar
        exact fun _ => Or.inl sameChar
      · rw [if_neg same] at sameKey sameChar
        exact kept sameKey sameChar
  | hold _ _ _ _ => exact kept s.cool.hold_keys.1 s.cool.hold_keys.2
  | press presses _ =>
      by_cases modifier : IsModifier scancode
      · have same := s.cool.press_modifier modifier
        exact kept same.1 same.2
      · have key := (s.cool.press_key (s.cool_same.1 ▸ lower) modifier).1
        intro enter
        have isEnter := key.symm.trans enter
        subst isEnter
        cases s.cool.press_enter_cases with
        | inl entered =>
            rw [entered] at goesOn
            cases goesOn
        | inr ignored =>
            rw [ignored.2, char]
            by_contra left
            exact heeds ⟨presses, rfl, ignored.1, not_or.mp left⟩
  | seen _ _ => exact kept rfl rfl
  | idle _ _ => exact kept s.cool.idle_keys.1 s.cool.idle_keys.2

end KeyboardState

/-! ## Runs -/

namespace Typist

/-- The invariant of every run. -/
structure Paired (t : Typist) : Prop where
  safe : t.session.Safe
  pairs : t.session.keyboard.Pairs t.typed

theorem init_paired (s : KeyboardState) : (init s).Paired :=
  ⟨Session.init_safe s, fun held => absurd rfl held⟩

theorem step_paired (t : Typist) (event : Session.Event) (paired : t.Paired) :
    (t.step event).Paired := by
  refine ⟨Session.step_safe t.session event paired.safe, ?_⟩
  have pairs := paired.pairs
  cases event with
  | call =>
      unfold step Session.step Session.call
      cases phase : t.session.phase with
      | returned => exact pairs
      | polling => exact pairs
      | draining left => exact pairs
  | byte scancode =>
      unfold step Session.step Session.feed
      cases phase : t.session.phase with
      | polling => exact pairs.poll paired.safe.line.lower scancode
      | returned => exact pairs
      | draining left =>
          cases left with
          | zero => exact fun held => absurd rfl held
          | succ left => exact pairs

/-- One step repeats what the held key typed exactly when no repeat is due for a held Enter. -/
theorem repeatsHeld_iff {t : Typist} (paired : t.Paired) (event : Session.Event) :
    t.RepeatsHeld event ↔ ¬ t.RepeatsEnter event := by
  cases event with
  | call => exact ⟨fun _ enters => enters, fun _ => trivial⟩
  | byte scancode =>
      have pairs := paired.pairs
      constructor
      · rintro holds ⟨polling, repeats, enter, due⟩
        have appends := KeyboardState.poll_appended paired.safe.line.lower repeats
        rw [if_pos due] at appends
        have member := appends ▸ List.mem_singleton_self t.session.keyboard.heldKeyChar
        exact (holds polling repeats _ member).2.1 enter
      · intro noEnter polling repeats char member
        rw [KeyboardState.poll_appended paired.safe.line.lower repeats] at member
        by_cases due : t.session.keyboard.Due
        · rw [if_pos due, List.mem_singleton] at member
          have notEnter : t.session.keyboard.heldKey ≠ enterScancode := fun enter =>
            noEnter ⟨polling, repeats, enter, due⟩
          obtain ⟨typed, notTab, mapped⟩ := pairs due.1 notEnter due.2.1 due.2.2.1
          exact ⟨member ▸ typed, notEnter, notTab, mapped⟩
        · rw [if_neg due] at member
          cases member

/-- Outside the drain, a held Enter has nothing to repeat. -/
structure Rested (t : Typist) : Prop where
  paired : t.Paired
  rests : (∀ left, t.session.phase ≠ .draining left) → t.session.keyboard.Rests

theorem init_rested (s : KeyboardState) : (init s).Rested := by
  refine ⟨init_paired s, fun _ held => ?_⟩
  have none : (0 : Byte) = enterScancode := held
  exact absurd none (by decide)

theorem step_rested (t : Typist) (event : Session.Event) (rested : t.Rested)
    (heeds : ¬ t.IgnoresEnter event) : (t.step event).Rested := by
  refine ⟨step_paired t event rested.paired, ?_⟩
  have rests := rested.rests
  cases event with
  | call =>
      change (∀ left, t.session.call.phase ≠ _) → t.session.call.keyboard.Rests
      unfold Session.call
      split
      · next returned =>
        exact fun _ => rests fun left same => by rw [returned] at same; cases same
      · exact rests
  | byte scancode =>
      change (∀ left, (t.session.feed scancode).phase ≠ _) →
        (t.session.feed scancode).keyboard.Rests
      unfold Session.feed
      split
      · next polling =>
        have resting := rests fun left same => by rw [polling] at same; cases same
        cases entered : (t.session.keyboard.poll scancode).entered with
        | true => exact fun quiet => absurd (if_pos entered) (quiet 2)
        | false =>
            exact fun _ => resting.poll rested.paired.safe.line.lower
              (fun ignores => heeds ⟨polling, ignores⟩) entered
      · intro _ held
        have none : (0 : Byte) = enterScancode := held
        exact absurd none (by decide)
      · next left draining => exact fun quiet => absurd rfl (quiet left)
      · exact rests

/--
Auto-repeat only repeats the held key exactly when no repeat is due for a held
Enter, and no repeat is if no Enter is ignored while a character is left.
-/
theorem repeatsHeld_run_iff (s : KeyboardState) (events : List Session.Event) :
    (Along step RepeatsHeld (init s) events ↔
      Along step (fun t event => ¬ t.RepeatsEnter event) (init s) events) ∧
    (Along step (fun t event => ¬ t.IgnoresEnter event) (init s) events →
      Along step RepeatsHeld (init s) events) := by
  constructor
  · have free : ∀ event ∈ events, True := fun _ _ => trivial
    refine along_iff_along ?_ ?_ (init_paired s) free
    · intro t event _ paired _
      exact step_paired t event paired
    · intro t event _ paired
      exact repeatsHeld_iff paired event
  · refine along_of_along step_rested (fun t event rested heeds => ?_) (init_rested s)
    refine (repeatsHeld_iff rested.paired event).mpr fun enters => ?_
    cases event with
    | call => exact enters
    | byte scancode =>
        obtain ⟨polling, _, enter, due⟩ := enters
        have rests := rested.rests fun left same => by
          rw [polling] at same
          cases same
        cases rests enter with
        | inl none => exact due.2.2.1 none
        | inr erases => exact due.2.2.2.1 erases

/-- A held Enter counts down to the repeat of a character. -/
structure Waits (t : Typist) (delay : Nat) : Prop where
  paired : t.Paired
  polling : t.session.phase = .polling
  held : t.session.keyboard.heldKey = enterScancode
  char : t.session.keyboard.heldKeyChar = charByte 'a'
  delay : t.session.keyboard.repeatDelay = delay
  room : t.session.keyboard.bufferPos < 255

theorem Waits.next {t : Typist} {delay : Nat} (waits : t.Waits (delay + 1)) :
    (t.step (.byte enterScancode)).Waits delay := by
  have paired := step_paired t (.byte enterScancode) waits.paired
  obtain ⟨_, polling, held, char, counts, room⟩ := waits
  have again : t.session.keyboard.poll Key.enter.code = t.session.keyboard.cool.hold :=
    poll_held held
  change t.session.keyboard.poll enterScancode = _ at again
  have cooled := cool_delay t.session.keyboard
  obtain ⟨line, counted⟩ := hold_line (s := t.session.keyboard.cool) (by omega)
  have same := line.trans t.session.keyboard.cool_line
  have fed : (t.step (.byte enterScancode)).session.keyboard =
      t.session.keyboard.cool.hold.keyboard := by
    change (t.session.feed enterScancode).keyboard = _
    rw [Session.feed, polling]
    exact congrArg Poll.keyboard again
  have goesOn : (t.step (.byte enterScancode)).session.phase = .polling := by
    change (t.session.feed enterScancode).phase = _
    rw [Session.feed, polling]
    exact if_neg (by rw [again, KeyboardState.hold_entered]; decide)
  refine ⟨paired, goesOn, ?_, ?_, ?_, ?_⟩
  · rw [fed]
    exact (congrArg KeyboardState.Line.heldKey same).trans held
  · rw [fed]
    exact (congrArg KeyboardState.Line.heldKeyChar same).trans char
  · rw [fed, counted, cooled, counts]
    omega
  · rw [fed]
    exact (congrArg KeyboardState.Line.bufferPos same).trans_lt room

theorem Waits.run {t : Typist} {delay : Nat} (waits : t.Waits delay) :
    (Library.GuardedRun.run step t (List.replicate delay (.byte enterScancode))).Waits 0 := by
  induction delay generalizing t with
  | zero => exact waits
  | succ delay ih => exact ih waits.next

/-- The letter typed before a held Enter is inserted again when Enter is in its cooldown. -/
theorem held_enter_repeats_letter :
    ¬ ∀ s events, Along step RepeatsHeld (init s) events := by
  intro repeatsHeld
  have start : ∀ t, t = Library.GuardedRun.run step (init coolingSession.keyboard)
      [.call, .byte enterScancode, .byte 0, .byte 0, .byte 0, .call, .byte 0x1E,
        .byte enterScancode] → t.Waits 10000 := by
    intro t reached
    have paired : t.Paired := by
      rw [reached]
      exact (always_of_invariant step_paired (init_paired _) _).last
    have facts : t.session.phase = .polling ∧ t.session.keyboard.heldKey = enterScancode ∧
        t.session.keyboard.heldKeyChar = charByte 'a' ∧
        t.session.keyboard.repeatDelay = (10000 : Nat) ∧ t.session.keyboard.bufferPos = 1 := by
      rw [reached]
      decide +kernel
    obtain ⟨polling, held, char, delay, position⟩ := facts
    exact ⟨paired, polling, held, char, delay, by omega⟩
  have along := repeatsHeld coolingSession.keyboard
    ([.call, .byte enterScancode, .byte 0, .byte 0, .byte 0, .call, .byte 0x1E,
      .byte enterScancode] ++
        (List.replicate 10000 (.byte enterScancode) ++ [.byte enterScancode]))
  obtain ⟨_, waiting⟩ := (along_append _ _ _).mp along
  obtain ⟨_, due, _⟩ := (along_append _ _ _).mp waiting
  have waits := (start _ rfl).run
  generalize Library.GuardedRun.run step _ (List.replicate 10000 _) = t at waits due
  have heldAgain : t.session.keyboard.Repeats enterScancode :=
    .inr ⟨by decide, waits.held.symm, by rw [waits.held]; decide⟩
  refine (repeatsHeld_iff waits.paired _).mp due ⟨waits.polling, heldAgain, waits.held, ?_⟩
  have delay := waits.delay
  refine ⟨?_, ?_, ?_, ?_, by omega, waits.room⟩
  · rw [waits.held]
    decide
  · rw [waits.held]
    decide
  · rw [waits.char]
    decide
  · rw [waits.char]
    decide

end Typist

end SimpleOS
