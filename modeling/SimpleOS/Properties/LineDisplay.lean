import SimpleOS.Properties.KeyRepeat
import SimpleOS.Properties.ScreenLine

/-!
# The screen shows the edit buffer

Every branch of the loop erases the cursor, edits the line on the screen as it
edits the buffer, and shows the cursor again, except for the one of a new
modifier key: it shows a second cursor behind the first.
-/

namespace SimpleOS

open Library.ByteMemory Library.GuardedRun

/-- No call of a round scrolls. -/
def Vga.Stays (v : Vga) (calls : List Vga.Call) : Prop :=
  Along Vga.step (fun v call => ¬ v.Scrolls call) v calls

instance (v : Vga) (calls : List Vga.Call) : Decidable (v.Stays calls) :=
  inferInstanceAs (Decidable (Along _ _ _ _))

/-! ## One round on the screen -/

namespace Poll

/-- As far as nothing scrolls, the screen holds the text of the round and some more behind it. -/
def Displays (v : Vga) (entry : Nat) (p : Poll) (behind : List Byte) : Prop :=
  v.Stays p.calls → (run Vga.step v p.calls).Holds entry (p.keyboard.text ++ behind)

section Displays

variable {v : Vga} {entry : Nat} {p : Poll} {behind : List Byte}

/-- Further calls work on the screen the round has left. -/
theorem Displays.display (displays : p.Displays v entry behind) {calls : List Vga.Call}
    {after : List Byte}
    (effect : ∀ w : Vga, w.Holds entry (p.keyboard.text ++ behind) → w.Stays calls →
      (run Vga.step w calls).Holds entry (p.keyboard.text ++ after)) :
    (p.display calls).Displays v entry after := by
  intro stays
  obtain ⟨earlier, later⟩ := (along_append v p.calls calls).mp stays
  change (run Vga.step v (p.calls ++ calls)).Holds entry _
  rw [run_append]
  exact effect _ (displays earlier) later

/-- Assignments that keep the text keep what is displayed. -/
theorem Displays.congr {q : Poll} (displays : p.Displays v entry behind)
    (text : q.keyboard.text = p.keyboard.text) (calls : q.calls = p.calls) :
    q.Displays v entry behind := by
  rw [Displays, text, calls]
  exact displays

theorem Displays.hideCursor (displays : p.Displays v entry [charByte '_']) :
    p.hideCursor.Displays v entry [] := by
  apply displays.display
  intro w holds _
  rw [List.append_nil]
  exact holds.back

theorem Displays.showCursor (displays : p.Displays v entry behind) :
    p.showCursor.Displays v entry (behind ++ [charByte '_']) := by
  apply displays.display
  intro w holds stays
  rw [← List.append_assoc]
  exact holds.putchar (by decide) stays.1

/-- Typing puts a character on the screen and into the buffer. -/
theorem Displays.typeChar (displays : p.Displays v entry []) (lower : 0 ≤ p.keyboard.bufferPos)
    {char : Byte} (printed : Vga.Printed char) : (p.typeChar char).Displays v entry [] := by
  have shown : (p.display [.setColor vgaColorLightBrown vgaColorBlack, .putchar char,
      .setColor vgaColorWhite vgaColorBlack]).Displays v entry [char] := by
    apply displays.display
    intro w holds stays
    rw [List.append_nil] at holds
    obtain ⟨_, put, _⟩ := stays
    have colored := holds.setColor vgaColorLightBrown vgaColorBlack
    exact (colored.putchar printed put).setColor vgaColorWhite vgaColorBlack
  intro stays
  have holds := shown stays
  rw [List.append_nil, typeChar_text lower char]
  exact holds

/-- Erasing takes one off both. -/
theorem Displays.eraseChar (displays : p.Displays v entry []) (lower : 0 ≤ p.keyboard.bufferPos) :
    p.eraseChar.Displays v entry [] := by
  have text := eraseChar_text lower
  unfold Poll.eraseChar at text ⊢
  split at text
  · next positive =>
    rw [if_pos positive]
    have length := text_length p.keyboard
    have nonempty : p.keyboard.text ≠ [] := fun empty => by
      rw [empty, List.length_nil] at length
      omega
    have last := List.dropLast_append_getLast nonempty
    intro stays
    obtain ⟨earlier, _⟩ := (along_append v p.calls [.print [backspaceChar, charByte ' '],
      .print [backspaceChar]]).mp stays
    have holds := displays earlier
    rw [List.append_nil, ← last] at holds
    change (run Vga.step v (p.calls ++ [.print [backspaceChar, charByte ' '],
      .print [backspaceChar]])).Holds entry _
    rw [run_append, List.append_nil, text]
    exact holds.blank.back
  · next empty =>
    rw [if_neg empty]
    exact displays

theorem Displays.tabLoop (displays : p.Displays v entry []) (lower : 0 ≤ p.keyboard.bufferPos)
    (left : Nat) : (p.tabLoop left).Displays v entry [] := by
  induction left generalizing p with
  | zero => exact displays
  | succ left ih =>
      rw [Poll.tabLoop]
      split
      · have blank : Vga.Printed (charByte ' ') := by decide
        exact ih (displays.typeChar lower blank) (Int.le_add_one lower)
      · exact displays

end Displays

end Poll

namespace KeyboardState

theorem keyCaps_printed {entry : Nat × KeyCap} (member : entry ∈ keyCaps) {char : Byte}
    (inside : char ∈ entry.2.chars) : Vga.Printed char := by
  have all : ∀ entry ∈ keyCaps, entry.2.chars.all fun char => decide (Vga.Printed char) := by
    decide +kernel
  exact of_decide_eq_true (List.all_eq_true.mp (all entry member) char inside)

/-- Every key but tab gives a character that takes a cell of its own, or none. -/
theorem printed_of_scancode (s : KeyboardState) {code : Byte} (notTab : code ≠ tabScancode) :
    Vga.Printed (s.scancodeToAscii code) := by
  rw [scancodeToAscii_eq s notTab]
  cases found : keyChar? s.capsLockOn s.shiftPressed code with
  | none => decide
  | some char =>
      obtain ⟨entry, member, inside⟩ := keyChar_mem found
      exact keyCaps_printed member inside

section Rounds

variable {s : KeyboardState} {v : Vga} {entry : Nat} (lower : 0 ≤ s.bufferPos)
  (printed : Vga.Printed s.heldKeyChar)
  (holds : v.Holds entry (s.text ++ [charByte '_']))

include holds

/-- A round that only changes other variables. -/
theorem displays_start {t : KeyboardState} (text : t.text = s.text) :
    Poll.Displays v entry { keyboard := t } [charByte '_'] := by
  intro _
  change v.Holds entry (t.text ++ [charByte '_'])
  rw [text]
  exact holds

include lower

/-- The round of a key that is no modifier and ends no line. -/
theorem press_displays {scancode : Byte} (key : ¬ IsModifier scancode)
    (goesOn : (s.press scancode).entered = false) :
    (s.press scancode).Displays v entry [charByte '_'] := by
  have hidden : (s.keyRound scancode).Displays v entry [] := (displays_start holds rfl).hideCursor
  generalize taken : s.press scancode = round at goesOn ⊢
  cases taken ▸ s.press_keyPress key with
  | accepted _ _ => cases goesOn
  | ignored _ _ => exact hidden.showCursor
  | backspace _ _ =>
      have erased := hidden.eraseChar lower
      exact (erased.congr rfl rfl).showCursor
  | tab _ _ _ =>
      have tabbed := hidden.tabLoop lower 4
      exact (tabbed.congr rfl rfl).showCursor
  | char _ _ notTab =>
      unfold pressChar
      dsimp only
      split
      · have char := printed_of_scancode (s.keyRound scancode).keyboard notTab
        exact ((hidden.typeChar lower char).congr rfl rfl).showCursor
      · exact (hidden.congr rfl rfl).showCursor

include printed

theorem repeatKey_displays : s.repeatKey.Displays v entry [charByte '_'] := by
  have hidden := (displays_start holds rfl).hideCursor
  have edited : s.repeatEdit.Displays v entry [] := by
    unfold repeatEdit
    dsimp only
    split
    · exact hidden.eraseChar lower
    · split
      · exact hidden.typeChar lower printed
      · exact hidden
  exact edited.showCursor.congr s.repeatKey_text rfl

theorem hold_displays : s.hold.Displays v entry [charByte '_'] := by
  unfold hold
  dsimp only
  split
  · exact displays_start holds rfl
  · split
    · exact repeatKey_displays (s := { s with keyHoldTime := s.keyHoldTime + 1 }) lower printed
        holds
    · exact displays_start holds rfl

theorem idle_displays : s.idle.Displays v entry [charByte '_'] := by
  unfold idle
  dsimp only
  split
  · split
    · exact displays_start holds rfl
    · exact repeatKey_displays (s := { s with keyHoldTime := s.keyHoldTime + 1 }) lower printed
        holds
  · exact displays_start holds rfl

/-- A poll that neither ends the line nor takes a modifier. -/
theorem poll_displays {scancode : Byte} (key : ¬ (s.Presses scancode ∧ IsModifier scancode))
    (goesOn : (s.poll scancode).entered = false) :
    (s.poll scancode).Displays v entry [charByte '_'] := by
  obtain ⟨_, char, _, _⟩ := s.cool_keys
  have lowerCool : 0 ≤ s.cool.bufferPos := s.cool_same.1 ▸ lower
  have printedCool : Vga.Printed s.cool.heldKeyChar := char ▸ printed
  have holdsCool : v.Holds entry (s.cool.text ++ [charByte '_']) := s.cool_text ▸ holds
  generalize taken : s.poll scancode = round at goesOn ⊢
  cases taken ▸ s.poll_round scancode with
  | release _ _ =>
      obtain ⟨pos, buffer⟩ := s.cool.release_same (scancode - 0x80)
      exact displays_start holdsCool (text_of_same pos buffer)
  | hold _ _ _ _ => exact hold_displays lowerCool printedCool holdsCool
  | press presses _ =>
      have notModifier : ¬ IsModifier scancode := fun modifier => key ⟨presses, modifier⟩
      exact press_displays lowerCool holdsCool notModifier goesOn
  | seen _ _ => exact displays_start holdsCool rfl
  | idle _ _ => exact idle_displays lowerCool printedCool holdsCool

end Rounds

section Characters

variable {s : KeyboardState} (printed : Vga.Printed s.heldKeyChar)

include printed

/-- Whatever key is new, the character to repeat takes a cell of its own. -/
theorem press_printed (scancode : Byte) : Vga.Printed (s.press scancode).keyboard.heldKeyChar := by
  by_cases modifier : IsModifier scancode
  · rw [(s.press_modifier modifier).2]
    exact printed
  · have erases : Vga.Printed backspaceChar := by decide
    have none : Vga.Printed 0 := by decide
    generalize taken : s.press scancode = round
    cases taken ▸ s.press_keyPress modifier with
    | accepted _ _ => exact printed
    | ignored _ _ => exact printed
    | backspace _ _ => exact erases
    | tab _ _ _ => exact none
    | char _ _ notTab =>
        unfold pressChar
        dsimp only
        split
        · exact printed_of_scancode _ notTab
        · exact none

theorem poll_printed (scancode : Byte) : Vga.Printed (s.poll scancode).keyboard.heldKeyChar := by
  have cooled : Vga.Printed s.cool.heldKeyChar := s.cool_keys.2.1 ▸ printed
  generalize taken : s.poll scancode = round
  cases taken ▸ s.poll_round scancode with
  | release _ _ =>
      have none : Vga.Printed 0 := by decide
      rw [(release_held s.cool (scancode - 0x80)).2]
      split
      · exact none
      · exact cooled
  | hold _ _ _ _ => exact s.cool.hold_keys.2 ▸ cooled
  | press _ _ => exact press_printed cooled scancode
  | seen _ _ => exact cooled
  | idle _ _ => exact s.cool.idle_keys.2 ▸ cooled

end Characters

/-- A modifier shows a second cursor behind the first. -/
theorem poll_modifier {s : KeyboardState} {scancode : Byte} (presses : s.Presses scancode)
    (modifier : IsModifier scancode) :
    (s.poll scancode).calls = [.putchar (charByte '_')] ∧
      (s.poll scancode).entered = false ∧ (s.poll scancode).keyboard.text = s.text := by
  have pressed : s.cool.press scancode = Poll.showCursor
      { keyboard := updateModifiers { s.cool with lastScancode := scancode } scancode false } :=
    if_pos modifier
  obtain ⟨pos, buffer⟩ := updateModifiers_same { s.cool with lastScancode := scancode } scancode
    false
  generalize taken : s.poll scancode = round
  cases taken ▸ s.poll_round scancode with
  | press _ _ =>
      rw [pressed]
      exact ⟨rfl, rfl, (text_of_same pos buffer).trans s.cool_text⟩
  | release other _ => exact absurd presses other
  | hold other _ _ _ => exact absurd presses other
  | seen other _ => exact absurd presses other
  | idle other _ => exact absurd presses other

end KeyboardState

/-! ## The driver with its screen -/

/-- The screen calls an event makes. -/
def Session.made (s : Session) (event : Session.Event) : List Vga.Call :=
  (s.step event).calls.drop s.calls.length

/-- A session with the screen it prints on, and where the cursor stood at the entry of the call. -/
structure Display where
  session : Session
  screen : Vga
  entry : Nat

namespace Display

/-- An event of the session, or a screen call of the code between two calls of the driver. -/
inductive Event where
  | input (event : Session.Event)
  | output (call : Vga.Call)

def step (d : Display) : Event → Display
  | .input event =>
      { session := d.session.step event
        screen := run Vga.step d.screen (d.session.made event)
        entry := if d.session.phase = .returned then d.screen.cursor else d.entry }
  | .output call =>
      { d with screen := if d.session.phase = .returned then d.screen.step call else d.screen }

/-- After `vga_init` and `keyboard_init`. -/
def init (s : KeyboardState) (memory : Nat → Cell) : Display where
  session := Session.init s
  screen := Vga.init memory
  entry := 0

/-- While the driver polls, the screen has the text and one cursor behind it from the entry on. -/
def ShowsLine (d : Display) : Prop :=
  d.session.phase = .polling →
    d.entry ≤ d.screen.cursor ∧
      d.screen.lineFrom d.entry = d.session.keyboard.text ++ [charByte '_']

/-- The line goes on without scrolling the screen. -/
def Fits (d : Display) : Event → Prop
  | .input event =>
      (d.session.step event).phase = .polling → d.screen.Stays (d.session.made event)
  | .output _ => True

/-- A modifier is taken as a new key. -/
def TakesModifier (d : Display) : Event → Prop
  | .input (.byte scancode) =>
      d.session.phase = .polling ∧ d.session.keyboard.Presses scancode ∧ IsModifier scancode
  | _ => False

/-! ## Steps -/

/-- The invariant of every run. -/
structure Sound (d : Display) : Prop where
  session : d.session.Safe
  screen : d.screen.Safe
  ready : d.screen.ready = true
  printed : Vga.Printed d.session.keyboard.heldKeyChar

theorem run_sound {v : Vga} (safe : v.Safe) (ready : v.ready = true) (calls : List Vga.Call) :
    (run Vga.step v calls).Safe ∧ (run Vga.step v calls).ready = true := by
  induction calls generalizing v with
  | nil => exact ⟨safe, ready⟩
  | cons call rest ih => exact ih (Vga.step_safe v call safe) ((v.step_ready call).trans ready)

theorem init_sound (s : KeyboardState) (memory : Nat → Cell) : (init s memory).Sound := by
  have none : Vga.Printed 0 := by decide
  exact ⟨Session.init_safe s, Vga.init_safe memory, rfl, none⟩

theorem session_printed (s : Session) (event : Session.Event)
    (printed : Vga.Printed s.keyboard.heldKeyChar) :
    Vga.Printed (s.step event).keyboard.heldKeyChar := by
  cases event with
  | call =>
      change Vga.Printed s.call.keyboard.heldKeyChar
      unfold Session.call
      split <;> exact printed
  | byte scancode =>
      change Vga.Printed (s.feed scancode).keyboard.heldKeyChar
      unfold Session.feed
      split
      · exact KeyboardState.poll_printed printed scancode
      · exact printed
      · exact printed
      · exact printed

/-- The driver polls after an event if it did before, or is called. -/
theorem session_polling {s : Session} {event : Session.Event}
    (polling : (s.step event).phase = .polling) :
    s.phase = .polling ∨ s.phase = .returned ∧ event = .call := by
  cases event with
  | call =>
      change s.call.phase = _ at polling
      unfold Session.call at polling
      split at polling
      · next returned => exact Or.inr ⟨returned, rfl⟩
      · exact Or.inl polling
  | byte scancode =>
      change (s.feed scancode).phase = _ at polling
      unfold Session.feed at polling
      split at polling
      · next before => exact Or.inl before
      · cases polling
      · cases polling
      · exact Or.inl polling

theorem step_sound (d : Display) (event : Event) (sound : d.Sound) : (d.step event).Sound := by
  obtain ⟨session, screen, ready, printed⟩ := sound
  cases event with
  | input event =>
      obtain ⟨safeAfter, readyAfter⟩ := run_sound screen ready (d.session.made event)
      exact ⟨Session.step_safe d.session event session, safeAfter, readyAfter,
        session_printed d.session event printed⟩
  | output call =>
      unfold step
      dsimp only
      split
      · exact ⟨session, Vga.step_safe d.screen call screen, (d.screen.step_ready call).trans ready,
          printed⟩
      · exact ⟨session, screen, ready, printed⟩

/-- A call in progress makes none again. -/
theorem call_again {d : Display} (polling : d.session.phase = .polling) :
    d.step (.input .call) = d := by
  have same : d.session.step .call = d.session := by
    change d.session.call = _
    rw [Session.call, polling]
  have made : d.session.made .call = [] := by
    rw [Session.made, same, List.drop_length]
  unfold step
  dsimp only
  rw [made, same, polling]
  rfl

section Steps

variable {d : Display} (sound : d.Sound)

include sound

/-- The entry of the call puts the cursor on the screen. -/
theorem call_showsLine (returned : d.session.phase = .returned) (fits : d.Fits (.input .call)) :
    (d.step (.input .call)).ShowsLine := by
  intro _
  have empty : d.screen.Holds d.screen.cursor [] :=
    Vga.holds_of_cells sound.screen sound.ready rfl fun _ inside =>
      absurd inside (Nat.not_lt_zero _)
  have called : d.session.step .call =
      { d.session with
        keyboard := { d.session.keyboard with bufferPos := 0 }
        phase := .polling
        calls := d.session.calls ++
          [.setColor vgaColorWhite vgaColorBlack, .putchar (charByte '_')] } := by
    change d.session.call = _
    rw [Session.call, returned]
  have made : d.session.made .call =
      [.setColor vgaColorWhite vgaColorBlack, .putchar (charByte '_')] := by
    rw [Session.made, called]
    exact List.drop_left
  rw [Fits, made, called] at fits
  obtain ⟨_, stays, _⟩ := fits rfl
  have colored := empty.setColor vgaColorWhite vgaColorBlack
  have shown := colored.putchar (by decide) stays
  unfold step
  dsimp only
  rw [made, called, if_pos returned]
  exact ⟨shown.reached, shown.line⟩

/-- A poll shows the line exactly when it takes no modifier. -/
theorem poll_showsLine_iff (shows : d.ShowsLine) (polling : d.session.phase = .polling)
    {scancode : Byte} (fits : d.Fits (.input (.byte scancode))) :
    (d.step (.input (.byte scancode))).ShowsLine ↔
      ¬ d.TakesModifier (.input (.byte scancode)) := by
  obtain ⟨reached, line⟩ := shows polling
  have holds : d.screen.Holds d.entry (d.session.keyboard.text ++ [charByte '_']) :=
    ⟨sound.screen, sound.ready, reached, line⟩
  have notReturned : d.session.phase ≠ .returned := by
    rw [polling]
    intro same
    cases same
  have fed : d.session.step (.byte scancode) =
      { keyboard := (d.session.keyboard.poll scancode).keyboard
        phase := if (d.session.keyboard.poll scancode).entered then .draining 2 else .polling
        writes := d.session.writes ++ (d.session.keyboard.poll scancode).writes
        calls := d.session.calls ++ (d.session.keyboard.poll scancode).calls } := by
    change d.session.feed scancode = _
    rw [Session.feed, polling]
  have made : d.session.made (.byte scancode) = (d.session.keyboard.poll scancode).calls := by
    rw [Session.made, fed]
    exact List.drop_left
  rw [Fits, made, fed] at fits
  unfold ShowsLine step
  dsimp only
  rw [made, fed, if_neg notReturned]
  dsimp only at fits ⊢
  constructor
  · rintro after ⟨_, presses, modifier⟩
    obtain ⟨calls, goesOn, text⟩ := KeyboardState.poll_modifier presses modifier
    rw [goesOn, calls] at fits after
    obtain ⟨stays, _⟩ := fits rfl
    have doubled := holds.putchar (by decide) stays
    have single := (after rfl).2
    rw [text] at single
    have same := congrArg List.length (doubled.line.symm.trans single)
    rw [List.length_append] at same
    exact absurd same (Nat.succ_ne_self _)
  · intro key goesOn
    have notEntered : (d.session.keyboard.poll scancode).entered = false := by
      cases entered : (d.session.keyboard.poll scancode).entered with
      | false => rfl
      | true =>
          rw [entered] at goesOn
          cases goesOn
    have shown := KeyboardState.poll_displays sound.session.line.lower sound.printed holds
      (fun taken => key ⟨polling, taken⟩) notEntered (fits goesOn)
    exact ⟨shown.reached, shown.line⟩

/-- One step shows the line exactly when it takes no modifier. -/
theorem showsLine_iff (shows : d.ShowsLine) {event : Event} (fits : d.Fits event) :
    (d.step event).ShowsLine ↔ ¬ d.TakesModifier event := by
  cases event with
  | output call =>
      refine ⟨fun _ taken => taken, fun _ polling => ?_⟩
      have stillPolling : d.session.phase = .polling := polling
      unfold step
      dsimp only
      rw [stillPolling]
      exact shows polling
  | input event =>
      by_cases polling : d.session.phase = .polling
      · cases event with
        | byte scancode => exact poll_showsLine_iff sound shows polling fits
        | call =>
            rw [call_again polling]
            exact ⟨fun _ taken => taken, fun _ => shows⟩
      · constructor
        · intro _ taken
          cases event with
          | call => exact taken
          | byte scancode => exact polling taken.1
        · intro _ after
          cases session_polling after with
          | inl before => exact absurd before polling
          | inr called =>
              obtain ⟨returned, rfl⟩ := called
              exact call_showsLine sound returned fits after

end Steps

/-! ## Runs -/

/--
As far as the line fits on the screen, the screen shows it after every poll
exactly when no poll takes a modifier as a new key.
-/
theorem showsLine_run_iff (s : KeyboardState) (memory : Nat → Cell) {events : List Event}
    (fits : Along step Fits (init s memory) events) :
    Always step ShowsLine (init s memory) events ↔
      Along step (fun d event => ¬ d.TakesModifier event) (init s memory) events := by
  have start : (init s memory).ShowsLine := by
    intro polling
    cases polling
  refine always_iff_of_along ?_ ?_ (init_sound s memory) start fits
  · intro d event _ sound _ _
    exact step_sound d event sound
  · intro d event fits sound shows
    exact showsLine_iff sound shows fits

instance (d : Display) : Decidable d.ShowsLine :=
  inferInstanceAs (Decidable (_ → _ ∧ _))

instance (d : Display) : DecidablePred d.Fits
  | .input _ => inferInstanceAs (Decidable (_ → Vga.Stays _ _))
  | .output _ => inferInstanceAs (Decidable True)

/-- A prompt, and a letter that is erased again. -/
def sampleLine : List Event :=
  [.output (.print (.ofString "> ")), .input .call, .input (.byte 0x1E),
    .input (.byte backspaceScancode)]

/-- The rule on such a line. -/
theorem showsLine_run_iff_sample :
    Always step ShowsLine (init coolingSession.keyboard fun _ => 0) sampleLine ↔
      Along step (fun d event => ¬ d.TakesModifier event)
        (init coolingSession.keyboard fun _ => 0) sampleLine := by
  apply showsLine_run_iff
  decide +kernel

/-- A press of shift leaves two cursors on the screen. -/
theorem shift_doubles_cursor :
    ¬ ∀ s memory events, Along step Fits (init s memory) events →
      Always step ShowsLine (init s memory) events := by
  intro showsLine
  have fits : Along step Fits (init coolingSession.keyboard fun _ => 0)
      [.input .call, .input (.byte leftShiftScancode)] := by
    decide +kernel
  have doubled : ¬ (Library.GuardedRun.run step (init coolingSession.keyboard fun _ => 0)
      [.input .call, .input (.byte leftShiftScancode)]).ShowsLine := by
    decide +kernel
  exact doubled (showsLine _ _ _ fits).last

end Display

end SimpleOS
