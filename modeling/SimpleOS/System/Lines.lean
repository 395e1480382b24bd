import SimpleOS.Properties.LineEditing
import SimpleOS.System.Shell

/-!
# The lines that can be read

Whatever the port returns, a line holds printable characters only, and at most
255 of them.
-/

namespace SimpleOS

open Library.ByteMemory Library.GuardedRun

/-- A character that some key prints. -/
def IsPrintable (char : Byte) : Prop := 0x20 ≤ char.toNat ∧ char.toNat < 0x7F

instance : DecidablePred IsPrintable :=
  fun _ => inferInstanceAs (Decidable (_ ∧ _))

/-- A line that can be typed. -/
structure Typable (text : List Byte) : Prop where
  room : text.length ≤ 255
  printable : ∀ char ∈ text, IsPrintable char

/-- Both characters of a key are. -/
def KeyCap.InText : KeyCap → Prop
  | .letter upper lower | .symbol upper lower =>
      IsPrintable (charByte upper) ∧ IsPrintable (charByte lower)

instance : DecidablePred KeyCap.InText
  | .letter _ _ => inferInstanceAs (Decidable (_ ∧ _))
  | .symbol _ _ => inferInstanceAs (Decidable (_ ∧ _))

theorem keyCaps_inText : ∀ entry ∈ keyCaps, entry.2.InText := by decide

theorem KeyCap.InText.chars {cap : KeyCap} (inText : cap.InText) {char : Byte}
    (inside : char ∈ cap.chars) : IsPrintable char := by
  cases cap with
  | letter upper lower =>
      rcases List.mem_pair.mp inside with rfl | rfl
      · exact inText.1
      · exact inText.2
  | symbol upper lower =>
      rcases List.mem_pair.mp inside with rfl | rfl
      · exact inText.1
      · exact inText.2

/-- The driver's table holds nothing else, but for the tab. -/
theorem scancodeToAscii_printable (s : KeyboardState) {code : Byte} (notTab : code ≠ tabScancode)
    (nonzero : s.scancodeToAscii code ≠ 0) : IsPrintable (s.scancodeToAscii code) := by
  rw [scancodeToAscii_eq s notTab] at nonzero ⊢
  cases found : keyChar? s.capsLockOn s.shiftPressed code with
  | none =>
      rw [found] at nonzero
      exact absurd rfl nonzero
  | some char =>
      obtain ⟨entry, member, inside⟩ := keyChar_mem found
      exact (keyCaps_inText entry member).chars inside

/-- The text is printable, and so is what a repeat would add to it. -/
structure KeyboardState.Prints (s : KeyboardState) : Prop where
  held : s.heldKeyChar = 0 ∨ s.heldKeyChar = backspaceChar ∨ IsPrintable s.heldKeyChar
  text : ∀ index, 0 ≤ index → index < s.bufferPos → IsPrintable (s.inputBuffer index)

namespace Poll

def Prints (p : Poll) : Prop := p.keyboard.Prints

variable {p : Poll}

theorem store_prints (prints : p.Prints) (char : Byte) : (p.store char).Prints := by
  refine ⟨prints.held, fun index lower below => ?_⟩
  change index < p.keyboard.bufferPos at below
  change IsPrintable (Function.update p.keyboard.inputBuffer p.keyboard.bufferPos char index)
  rw [Function.update_of_ne (Int.ne_of_lt below)]
  exact prints.text index lower below

theorem typeChar_prints (prints : p.Prints) {char : Byte} (printable : IsPrintable char) :
    (p.typeChar char).Prints := by
  refine ⟨prints.held, fun index lower below => ?_⟩
  change index < p.keyboard.bufferPos + 1 at below
  change IsPrintable (Function.update p.keyboard.inputBuffer p.keyboard.bufferPos char index)
  rcases Int.lt_or_eq_of_le (Int.le_of_lt_add_one below) with earlier | last
  · rw [Function.update_of_ne (Int.ne_of_lt earlier)]
    exact prints.text index lower earlier
  · rw [last, Function.update_self]
    exact printable

theorem eraseChar_prints (prints : p.Prints) : p.eraseChar.Prints := by
  unfold eraseChar
  split
  · refine ⟨prints.held, fun index lower below => ?_⟩
    change index < p.keyboard.bufferPos - 1 at below
    exact prints.text index lower (by omega)
  · exact prints

theorem tabLoop_prints (left : Nat) (prints : p.Prints) : (tabLoop left p).Prints := by
  induction left generalizing p with
  | zero => exact prints
  | succ left ih =>
      rw [tabLoop]
      split
      · exact ih (typeChar_prints prints (by decide))
      · exact prints

end Poll

namespace KeyboardState

variable {s : KeyboardState}

/-- The text and the held character are all there is to it. -/
theorem Prints.of_same {t : KeyboardState} (prints : s.Prints) (pos : t.bufferPos = s.bufferPos)
    (buffer : t.inputBuffer = s.inputBuffer)
    (held : t.heldKeyChar = s.heldKeyChar ∨ t.heldKeyChar = 0) : t.Prints := by
  constructor
  · rcases held with same | none
    · exact same ▸ prints.held
    · exact Or.inl none
  · rw [pos, buffer]
    exact prints.text

theorem cool_prints (prints : s.Prints) : s.cool.Prints :=
  prints.of_same s.cool_same.1 s.cool_same.2 (Or.inl s.cool_keys.2.1)

theorem release_prints (prints : s.Prints) (code : Byte) : (s.release code).Prints := by
  have same := s.release_same code
  have held := (release_held s code).2
  refine prints.of_same same.1 same.2 ?_
  rw [held]
  split
  · exact Or.inr rfl
  · exact Or.inl rfl

/-- A repeat adds the held character, which is not that of the backspace key. -/
theorem repeatKey_prints (prints : s.Prints) (char : s.heldKeyChar ≠ 0) : s.repeatKey.Prints := by
  have start : Poll.Prints (Poll.hideCursor { keyboard := s }) := prints
  unfold repeatKey
  dsimp only
  split
  · exact (Poll.eraseChar_prints start).of_same rfl rfl (Or.inl rfl)
  · split
    · next types =>
        have printable : IsPrintable s.heldKeyChar := by
          rcases prints.held with none | erases | printable
          · exact absurd none char
          · exact absurd erases types.1
          · exact printable
        exact (Poll.typeChar_prints start printable).of_same rfl rfl (Or.inl rfl)
    · exact start.of_same rfl rfl (Or.inl rfl)

theorem hold_prints (prints : s.Prints) : s.hold.Prints := by
  have held : Prints { s with keyHoldTime := s.keyHoldTime + 1 } :=
    prints.of_same rfl rfl (Or.inl rfl)
  unfold hold
  dsimp only
  split
  · exact prints.of_same rfl rfl (Or.inl rfl)
  · split
    · next char => exact repeatKey_prints held char
    · exact prints.of_same rfl rfl (Or.inl rfl)

theorem idle_prints (prints : s.Prints) : s.idle.Prints := by
  have held : Prints { s with keyHoldTime := s.keyHoldTime + 1 } :=
    prints.of_same rfl rfl (Or.inl rfl)
  unfold idle
  split
  · next holding =>
      dsimp only
      split
      · exact prints.of_same rfl rfl (Or.inl rfl)
      · exact repeatKey_prints held holding.2
  · exact prints

theorem pressChar_prints {p : Poll} (prints : p.Prints) {code : Byte}
    (notTab : code ≠ tabScancode) : (pressChar p code).Prints := by
  unfold pressChar
  dsimp only
  split
  · next types =>
      have printable := scancodeToAscii_printable p.keyboard notTab types.1
      exact ⟨Or.inr (Or.inr printable), (Poll.typeChar_prints prints printable).text⟩
  · exact prints.of_same rfl rfl (Or.inr rfl)

theorem press_prints (prints : s.Prints) (code : Byte) : (s.press code).Prints := by
  by_cases modifier : IsModifier code
  · have same := updateModifiers_same { s with lastScancode := code } code false
    have held := (updateModifiers_pressed { s with lastScancode := code } code).2.2.2.1
    unfold press
    dsimp only
    rw [if_pos modifier]
    exact prints.of_same same.1 same.2 (Or.inl held)
  · have round : (s.keyRound code).Prints := prints.of_same rfl rfl (Or.inl rfl)
    generalize taken : s.press code = pressed
    cases taken ▸ s.press_keyPress modifier with
    | accepted _ _ => exact Poll.store_prints (p := (s.keyRound code).display _) round 0
    | ignored _ _ => exact round
    | backspace _ _ => exact ⟨Or.inr (Or.inl rfl), (Poll.eraseChar_prints round).text⟩
    | tab _ _ _ => exact (Poll.tabLoop_prints 4 round).of_same rfl rfl (Or.inr rfl)
    | char _ _ notTab => exact pressChar_prints round notTab

theorem poll_prints (prints : s.Prints) (scancode : Byte) : (s.poll scancode).Prints := by
  have cooled := cool_prints prints
  generalize taken : s.poll scancode = round
  cases taken ▸ s.poll_round scancode with
  | release _ _ => exact release_prints cooled _
  | hold _ _ _ _ => exact hold_prints cooled
  | press _ _ => exact press_prints cooled scancode
  | seen _ _ => exact cooled
  | idle _ _ => exact idle_prints cooled

end KeyboardState

namespace Session

variable {s : Session}

theorem feed_prints (prints : s.keyboard.Prints) (byte : Byte) : (s.feed byte).keyboard.Prints := by
  unfold feed
  split
  · exact KeyboardState.poll_prints prints byte
  · exact prints.of_same rfl rfl (Or.inl rfl)
  · exact prints
  · exact prints

theorem call_prints (prints : s.keyboard.Prints) : s.call.keyboard.Prints := by
  unfold call
  split
  · refine ⟨prints.held, fun index lower below => ?_⟩
    change index < 0 at below
    omega
  · exact prints

theorem init_prints (s : KeyboardState) : (init s).keyboard.Prints := by
  refine ⟨Or.inl rfl, fun index lower below => ?_⟩
  change index < 0 at below
  omega

/-- What a driver that is called again and again keeps. -/
structure Reading (s : Session) : Prop where
  safe : s.Safe
  prints : s.keyboard.Prints

theorem read_reading (reading : s.Reading) (byte : Byte) : (s.read byte).Reading := by
  have safe := feed_safe reading.safe byte
  have prints := feed_prints reading.prints byte
  unfold read
  split
  · exact ⟨call_safe safe, call_prints prints⟩
  · exact ⟨safe, prints⟩

theorem init_reading (s : KeyboardState) : (init s).call.Reading :=
  ⟨call_safe (init_safe s), call_prints (init_prints s)⟩

/-- A line that is returned can be typed. -/
theorem line_typable (reading : s.Reading) {byte : Byte} {line : CString}
    (read : s.line? byte = some line) : Typable line := by
  have safe := (feed_safe reading.safe byte).buffer
  have prints := feed_prints reading.prints byte
  unfold line? at read
  split at read
  · next returned =>
      cases read
      have lower := safe.lower
      have upper := safe.upper
      have position := Int.toNat_of_nonneg lower
      have ends : (s.feed byte).keyboard.inputBuffer
          ((s.feed byte).keyboard.bufferPos.toNat : Int) = 0 := by
        rw [position]
        exact safe.terminated returned
      have string := string_of_filled (by omega)
        (fun index below => safe.filled returned index (by omega) (by omega)) ends
      rw [string]
      constructor
      · rw [List.length_map, List.length_range]
        omega
      · intro char member
        obtain ⟨index, inside, rfl⟩ := List.mem_map.mp member
        have below := List.mem_range.mp inside
        exact prints.text index (by omega) (by omega)
  · cases read

theorem linesRead_typable (reading : s.Reading) (inputs : List Input) :
    ∀ entry ∈ linesRead s inputs, Typable entry.2 := by
  induction inputs generalizing s with
  | nil => exact fun _ member => nomatch member
  | cons input rest ih =>
      intro entry member
      rcases List.mem_append.mp member with here | later
      · obtain ⟨line, read, rfl⟩ := Option.map_eq_some_iff.mp (Option.mem_toList.mp here)
        exact line_typable reading read
      · exact ih (read_reading reading input.byte) entry later

end Session

end SimpleOS
