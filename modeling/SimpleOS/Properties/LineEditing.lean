import SimpleOS.Properties.InputBuffer
import SimpleOS.Drivers.LineEditor

/-!
# The keyboard driver as a line editor

A key event is polled any number of times, and the driver does what the line
editor does on the event once: the first poll of a key makes the edit, and the
polls after it only count down.
-/

namespace SimpleOS

open Library.ByteMemory Library.GuardedRun

/-! ## The text in the buffer -/

/-- The characters before the position. -/
def KeyboardState.text (s : KeyboardState) : List Byte :=
  (List.range s.bufferPos.toNat).map fun index : Nat => s.inputBuffer index

section Text

theorem text_length (s : KeyboardState) : s.text.length = s.bufferPos.toNat := by
  rw [KeyboardState.text, List.length_map, List.length_range]

/-- Typing appends to the text. -/
theorem typeChar_text {p : Poll} (lower : 0 ≤ p.keyboard.bufferPos) (char : Byte) :
    (p.typeChar char).keyboard.text = p.keyboard.text ++ [char] := by
  have next : (p.keyboard.bufferPos + 1).toNat = p.keyboard.bufferPos.toNat + 1 := by omega
  have position := Int.toNat_of_nonneg lower
  change (List.range (p.keyboard.bufferPos + 1).toNat).map (fun index : Nat =>
    Function.update p.keyboard.inputBuffer p.keyboard.bufferPos char index) = _
  rw [next, List.range_succ, List.map_append, List.map_singleton, position, Function.update_self]
  congr 1
  refine List.map_congr_left fun index member => ?_
  have below := List.mem_range.mp member
  rw [Function.update_of_ne (by omega)]

/-- Erasing drops the last character, if any. -/
theorem eraseChar_text {p : Poll} (lower : 0 ≤ p.keyboard.bufferPos) :
    p.eraseChar.keyboard.text = p.keyboard.text.dropLast := by
  simp only [Poll.eraseChar]
  split
  · next positive =>
      have count : p.keyboard.bufferPos.toNat = (p.keyboard.bufferPos - 1).toNat + 1 := by omega
      change (List.range (p.keyboard.bufferPos - 1).toNat).map
        (fun index : Nat => p.keyboard.inputBuffer index) = _
      rw [KeyboardState.text, count, List.range_succ, List.map_append, List.map_singleton,
        List.dropLast_concat]
  · next empty =>
      have none : p.keyboard.text = [] := by
        rw [KeyboardState.text, show p.keyboard.bufferPos.toNat = 0 by omega]
        rfl
      rw [none]
      rfl

/-- The tab loop appends spaces up to position 252. -/
theorem tabLoop_text (left : Nat) {p : Poll} (lower : 0 ≤ p.keyboard.bufferPos) :
    (p.tabLoop left).keyboard.text =
      p.keyboard.text ++
        List.replicate (min left (252 - p.keyboard.text.length)) (charByte ' ') := by
  induction left generalizing p with
  | zero => rw [Nat.zero_min, List.replicate_zero, List.append_nil, Poll.tabLoop]
  | succ left ih =>
      have length := text_length p.keyboard
      simp only [Poll.tabLoop]
      split
      · next room =>
          have typed := typeChar_text lower (charByte ' ')
          have count : min (left + 1) (252 - p.keyboard.text.length) =
              min left (252 - (p.keyboard.text.length + 1)) + 1 := by omega
          rw [ih (p := p.typeChar (charByte ' ')) (Int.le_add_one lower), typed, List.length_append,
            List.length_singleton, count, List.replicate_succ, List.append_assoc]
          rfl
      · next full =>
          have none : min (left + 1) (252 - p.keyboard.text.length) = 0 := by omega
          rw [none, List.replicate_zero, List.append_nil]

end Text

/-! ## Characters -/

/-- The driver's table is what is printed on the keys; tab is a character of its own there. -/
theorem scancodeToAscii_eq (s : KeyboardState) {code : Byte} (notTab : code ≠ tabScancode) :
    s.scancodeToAscii code = (keyChar? s.capsLockOn s.shiftPressed code).getD 0 := by
  have other : code.toNat ≠ 0x0F := fun same => notTab (BitVec.eq_of_toNat_eq same)
  have bound := code.isLt
  simp only [KeyboardState.scancodeToAscii, keyChar?, KeyboardState.shifted, KeyboardState.letter]
  -- what is left is a table of 255 codes under two flags
  generalize s.shiftPressed = shift
  generalize s.capsLockOn = caps
  generalize code.toNat = number at other bound
  revert caps shift
  revert other
  revert number
  decide +kernel

/-- Both characters of a key. -/
def KeyCap.chars : KeyCap → List Byte
  | .letter upper lower => [charByte upper, charByte lower]
  | .symbol upper lower => [charByte upper, charByte lower]

/-- The character of a key is one of those printed on it. -/
theorem keyChar_mem {caps shift : Bool} {code char : Byte}
    (found : keyChar? caps shift code = some char) : ∃ entry ∈ keyCaps, char ∈ entry.2.chars := by
  obtain ⟨cap, looked, rfl⟩ := Option.map_eq_some_iff.mp found
  obtain ⟨before, after, split, _⟩ := List.lookup_eq_some_iff.mp looked
  have member : (code.toNat, cap) ∈ keyCaps := by
    rw [split]
    exact List.mem_append_right _ List.mem_cons_self
  refine ⟨_, member, ?_⟩
  cases cap with
  | letter upper lower =>
      simp only
      split
      · exact List.mem_cons_self
      · exact List.mem_cons_of_mem _ List.mem_cons_self
  | symbol upper lower =>
      simp only
      split
      · exact List.mem_cons_self
      · exact List.mem_cons_of_mem _ List.mem_cons_self

/-- Both characters of a key are printable. -/
def KeyCap.Printable : KeyCap → Prop
  | .letter upper lower | .symbol upper lower => charByte upper ≠ 0 ∧ charByte lower ≠ 0

instance : DecidablePred KeyCap.Printable
  | .letter _ _ => inferInstanceAs (Decidable (_ ∧ _))
  | .symbol _ _ => inferInstanceAs (Decidable (_ ∧ _))

theorem keyCaps_printable : ∀ entry ∈ keyCaps, entry.2.Printable := by decide

theorem KeyCap.Printable.chars {cap : KeyCap} (printable : cap.Printable) {char : Byte}
    (inside : char ∈ cap.chars) : char ≠ 0 := by
  cases cap with
  | letter upper lower =>
      rcases List.mem_pair.mp inside with rfl | rfl
      · exact printable.1
      · exact printable.2
  | symbol upper lower =>
      rcases List.mem_pair.mp inside with rfl | rfl
      · exact printable.1
      · exact printable.2

theorem keyChar_ne_zero {caps shift : Bool} {code char : Byte}
    (found : keyChar? caps shift code = some char) : char ≠ 0 := by
  obtain ⟨entry, member, inside⟩ := keyChar_mem found
  exact (keyCaps_printable entry member).chars inside

/-! ## The simulation -/

/-- No key is held that the driver would repeat, and no key is taken for one seen before unless it
is a modifier that is down. -/
structure Quiet (e : Editor) (s : KeyboardState) : Prop where
  heldKey : s.heldKey = 0
  heldKeyChar : s.heldKeyChar = 0
  last : s.lastScancode = 0 ∨ ∃ key ∈ e.held, IsModifier key.code ∧ s.lastScancode = key.code

/-- The driver holds a key that is down. -/
def Holding (e : Editor) (s : KeyboardState) : Prop :=
  ∃ key ∈ e.held, ¬ IsModifier key.code ∧ s.heldKey = key.code

/-- The driver stands where the editor stands. -/
structure Edits (e : Editor) (s : KeyboardState) : Prop where
  safe : LineSafe s []
  text : s.text = e.text
  caps : s.capsLockOn = e.caps
  shift : s.shiftPressed = e.shift
  keys : Quiet e s ∨ Holding e s

/-- What later polls of the same byte leave as it is. -/
structure KeyboardState.Line where
  lastScancode : Byte
  bufferPos : Int
  inputBuffer : Int → Byte
  heldKey : Byte
  heldKeyChar : Byte
  shiftPressed : Bool
  capsLockOn : Bool

def KeyboardState.line (s : KeyboardState) : KeyboardState.Line where
  lastScancode := s.lastScancode
  bufferPos := s.bufferPos
  inputBuffer := s.inputBuffer
  heldKey := s.heldKey
  heldKeyChar := s.heldKeyChar
  shiftPressed := s.shiftPressed
  capsLockOn := s.capsLockOn

theorem text_of_line {s t : KeyboardState} (same : t.line = s.line) : t.text = s.text := by
  have pos := congrArg KeyboardState.Line.bufferPos same
  have buffer := congrArg KeyboardState.Line.inputBuffer same
  simp only [KeyboardState.line] at pos buffer
  rw [KeyboardState.text, pos, buffer]
  rfl

/-- The simulation relation only looks at the line. -/
theorem Edits.of_line {e : Editor} {s t : KeyboardState} (edits : Edits e s)
    (same : t.line = s.line) : Edits e t := by
  have text := text_of_line same
  simp only [KeyboardState.line, KeyboardState.Line.mk.injEq] at same
  obtain ⟨last, pos, buffer, held, heldChar, shift, caps⟩ := same
  refine ⟨KeyboardState.safe_of_same edits.safe pos buffer, text.trans edits.text,
    caps.trans edits.caps, shift.trans edits.shift, ?_⟩
  rcases edits.keys with ⟨heldKey, heldKeyChar, seen⟩ | ⟨key, down, modifier, heldKey⟩
  · exact .inl ⟨held.trans heldKey, heldChar.trans heldKeyChar, last ▸ seen⟩
  · exact .inr ⟨key, down, modifier, held.trans heldKey⟩

theorem KeyboardState.cool_line (s : KeyboardState) : s.cool.line = s.line := by
  simp only [KeyboardState.cool]
  split <;> rfl

theorem KeyboardState.cool_held (s : KeyboardState) : s.cool.heldKey = s.heldKey :=
  s.cool_keys.1

theorem KeyboardState.cool_last (s : KeyboardState) : s.cool.lastScancode = s.lastScancode :=
  s.cool_keys.2.2.1

/-! ## Single polls -/

section Polls

variable {e : Editor} {s : KeyboardState} {key : Key}

/-- The up byte of a key releases it. -/
theorem poll_up (s : KeyboardState) (key : Key) :
    s.poll (KeyEvent.up key).byte = { keyboard := s.cool.release key.code } := by
  simp only [KeyboardState.poll, KeyEvent.byte, if_pos key.released, BitVec.add_sub_cancel]

theorem poll_held (held : s.heldKey = key.code) : s.poll key.code = s.cool.hold := by
  have same : key.code = s.cool.heldKey ∧ s.cool.heldKey ≠ 0 := by
    rw [s.cool_held, held]
    exact ⟨rfl, key.code_ne_zero⟩
  simp only [KeyboardState.poll, if_neg key.not_release, if_pos key.pressed, if_pos same]

theorem poll_fresh (notHeld : s.heldKey ≠ key.code) (notSeen : s.lastScancode ≠ key.code) :
    s.poll key.code = s.cool.press key.code := by
  have other : ¬ (key.code = s.cool.heldKey ∧ s.cool.heldKey ≠ 0) := by
    rw [s.cool_held]
    exact fun same => notHeld same.1.symm
  have fresh : key.code ≠ s.cool.lastScancode := by
    rw [s.cool_last]
    exact Ne.symm notSeen
  simp only [KeyboardState.poll, if_neg key.not_release, if_pos key.pressed, if_neg other,
    if_pos fresh]

theorem poll_seen (notHeld : s.heldKey ≠ key.code) (seen : s.lastScancode = key.code) :
    s.poll key.code = { keyboard := s.cool } := by
  have other : ¬ (key.code = s.cool.heldKey ∧ s.cool.heldKey ≠ 0) := by
    rw [s.cool_held]
    exact fun same => notHeld same.1.symm
  have same : ¬ key.code ≠ s.cool.lastScancode := by
    rw [s.cool_last, seen]
    exact fun different => different rfl
  simp only [KeyboardState.poll, if_neg key.not_release, if_pos key.pressed, if_neg other,
    if_neg same]

/-- A held key that is seen again while its delay lasts only counts down. -/
theorem hold_line (delayed : 0 < s.repeatDelay) :
    s.hold.keyboard.line = s.line ∧ s.hold.keyboard.repeatDelay = s.repeatDelay - 1 := by
  have counted : s.hold =
      { keyboard :=
          { s with keyHoldTime := s.keyHoldTime + 1, repeatDelay := s.repeatDelay - 1 } } :=
    if_pos delayed
  rw [counted]
  exact ⟨rfl, rfl⟩

end Polls

/-! ## Releases -/

section Releases

variable {e : Editor} {s : KeyboardState} {key : Key}

/-- The modifiers after a release, and what stays. -/
theorem updateModifiers_released (s : KeyboardState) (code : Byte) :
    (s.updateModifiers code true).capsLockOn = s.capsLockOn ∧
      (s.updateModifiers code true).shiftPressed =
        (if IsShift code then false else s.shiftPressed) ∧
      (s.updateModifiers code true).heldKey = s.heldKey ∧
      (s.updateModifiers code true).heldKeyChar = s.heldKeyChar := by
  rcases Classical.em (IsShift code) with shift | other
  · have released : s.updateModifiers code true = { s with shiftPressed := false } := if_pos shift
    rw [released, if_pos shift]
    exact ⟨rfl, rfl, rfl, rfl⟩
  · rw [if_neg other]
    rw [IsShift] at other
    simp only [KeyboardState.updateModifiers, if_true, if_neg other]
    repeat' split
    all_goals exact ⟨rfl, rfl, rfl, rfl⟩

/-- The key that is held, and its character, after a release. -/
theorem release_held (s : KeyboardState) (code : Byte) :
    (s.release code).heldKey = (if code = s.heldKey then 0 else s.heldKey) ∧
      (s.release code).heldKeyChar = (if code = s.heldKey then 0 else s.heldKeyChar) := by
  obtain ⟨_, _, held, heldChar⟩ := updateModifiers_released s code
  simp only [KeyboardState.release, held]
  split
  · exact ⟨rfl, rfl⟩
  · exact ⟨held, heldChar⟩

theorem release_modifiers (s : KeyboardState) (code : Byte) :
    (s.release code).capsLockOn = s.capsLockOn ∧
      (s.release code).shiftPressed = (if IsShift code then false else s.shiftPressed) := by
  obtain ⟨caps, shift, _, _⟩ := updateModifiers_released s code
  simp only [KeyboardState.release]
  split <;> exact ⟨caps, shift⟩

/-- Releasing a key, in the editor and in the driver. -/
theorem release_edits (edits : Edits e s) (one : e.OneShift) (down : key ∈ e.held) :
    Edits (e.step (.up key)) (s.release key.code) := by
  obtain ⟨safe, text, caps, shift, keys⟩ := edits
  obtain ⟨pos, buffer⟩ := s.release_same key.code
  obtain ⟨sameCaps, sameShift⟩ := release_modifiers s key.code
  obtain ⟨held, heldChar⟩ := release_held s key.code
  refine ⟨KeyboardState.safe_of_same safe pos buffer, ?_, sameCaps.trans caps, ?_, ?_⟩
  · rw [KeyboardState.text, pos, buffer]
    exact text
  · rw [sameShift]
    split
    · next isShift => exact (Editor.step_up_shift one down isShift).symm
    · next other => exact shift.trans (if_neg other).symm
  · rcases keys with ⟨heldKey, heldKeyChar, _⟩ | ⟨holder, holderDown, modifier, heldKey⟩
    · have other : ¬ key.code = s.heldKey := heldKey ▸ key.code_ne_zero
      rw [if_neg other] at held heldChar
      exact .inl ⟨held.trans heldKey, heldChar.trans heldKeyChar, .inl rfl⟩
    · rcases Classical.em (key = holder) with rfl | different
      · rw [if_pos heldKey.symm] at held heldChar
        exact .inl ⟨held, heldChar, .inl rfl⟩
      · have other : ¬ key.code = s.heldKey := by
          rw [heldKey]
          exact fun same => different (Key.ext same)
        rw [if_neg other] at held
        exact .inr ⟨holder, Finset.mem_erase.mpr ⟨Ne.symm different, holderDown⟩, modifier,
          held.trans heldKey⟩

end Releases

/-! ## Presses -/

section Presses

variable {e : Editor} {s : KeyboardState} {key : Key} {p : Poll}

/-- The modifiers after a press, and what stays. -/
theorem updateModifiers_pressed (s : KeyboardState) (code : Byte) :
    (s.updateModifiers code false).capsLockOn =
        (if code = capsLockScancode then !s.capsLockOn else s.capsLockOn) ∧
      (s.updateModifiers code false).shiftPressed =
        (if IsShift code then true else s.shiftPressed) ∧
      (s.updateModifiers code false).heldKey = s.heldKey ∧
      (s.updateModifiers code false).heldKeyChar = s.heldKeyChar ∧
      (s.updateModifiers code false).lastScancode = s.lastScancode := by
  have notReleased : ¬ (false = true) := by decide
  rcases Classical.em (IsShift code) with shift | other
  · have pressed : s.updateModifiers code false = { s with shiftPressed := true } := if_pos shift
    have notCaps : code ≠ capsLockScancode := by
      rcases shift with rfl | rfl <;> decide
    rw [pressed, if_pos shift, if_neg notCaps]
    exact ⟨rfl, rfl, rfl, rfl, rfl⟩
  · rw [if_neg other]
    rw [IsShift] at other
    simp only [KeyboardState.updateModifiers, if_neg notReleased, if_neg other]
    split
    · next ctrl =>
        have notCaps : code ≠ capsLockScancode := by
          rw [ctrl]
          decide
        rw [if_neg notCaps]
        exact ⟨rfl, rfl, rfl, rfl, rfl⟩
    split
    · next alt =>
        have notCaps : code ≠ capsLockScancode := by
          rw [alt]
          decide
        rw [if_neg notCaps]
        exact ⟨rfl, rfl, rfl, rfl, rfl⟩
    split <;> exact ⟨rfl, rfl, rfl, rfl, rfl⟩

theorem updateModifiers_of_not (s : KeyboardState) {code : Byte} (other : ¬ IsModifier code) :
    s.updateModifiers code false = s := by
  simp only [IsModifier, not_or] at other
  obtain ⟨left, right, ctrl, alt, caps⟩ := other
  have notReleased : ¬ (false = true) := by decide
  have notShift : ¬ (code = leftShiftScancode ∨ code = rightShiftScancode) :=
    not_or.mpr ⟨left, right⟩
  simp only [KeyboardState.updateModifiers, if_neg notReleased, if_neg notShift, if_neg ctrl,
    if_neg alt, if_neg caps]

/-- The state of the keys, which editing the text leaves alone. -/
structure SameKeys (s t : KeyboardState) : Prop where
  caps : t.capsLockOn = s.capsLockOn
  shift : t.shiftPressed = s.shiftPressed
  heldKey : t.heldKey = s.heldKey
  repeatDelay : t.repeatDelay = s.repeatDelay

theorem SameKeys.refl (s : KeyboardState) : SameKeys s s := ⟨rfl, rfl, rfl, rfl⟩

theorem eraseChar_keys (p : Poll) : SameKeys p.keyboard p.eraseChar.keyboard := by
  simp only [Poll.eraseChar]
  split
  · exact ⟨rfl, rfl, rfl, rfl⟩
  · exact .refl _

theorem tabLoop_keys (left : Nat) (p : Poll) : SameKeys p.keyboard (p.tabLoop left).keyboard := by
  induction left generalizing p with
  | zero => exact .refl _
  | succ left ih =>
      simp only [Poll.tabLoop]
      split
      · obtain ⟨caps, shift, heldKey, repeatDelay⟩ := ih (p.typeChar (charByte ' '))
        exact ⟨caps, shift, heldKey, repeatDelay⟩
      · exact .refl _

/-- What a key press does to the text is what the editor does. -/
structure Pressed (e : Editor) (code : Byte) (s : KeyboardState) (p : Poll) : Prop where
  text : p.keyboard.text = e.edit code
  keys : SameKeys s p.keyboard
  entered : p.entered = false

theorem pressChar_pressed (safe : p.Safe) (text : p.keyboard.text = e.text)
    (caps : p.keyboard.capsLockOn = e.caps) (shift : p.keyboard.shiftPressed = e.shift)
    (notEntered : p.entered = false) {code : Byte} (notModifier : ¬ IsModifier code)
    (notEnter : code ≠ enterScancode) (notBackspace : code ≠ backspaceScancode)
    (notTab : code ≠ tabScancode) :
    Pressed e code p.keyboard (KeyboardState.pressChar p code) := by
  have key := scancodeToAscii_eq p.keyboard notTab
  have length := text_length p.keyboard
  have lower := safe.lower
  rw [caps, shift] at key
  rw [text] at length
  have plain : ¬ (IsModifier code ∨ code = enterScancode) := not_or.mpr ⟨notModifier, notEnter⟩
  refine ⟨?_, ?_, (KeyboardState.pressChar_entered p code).trans notEntered⟩
  · simp only [KeyboardState.pressChar, key, Editor.edit, if_neg plain, if_neg notBackspace,
      if_neg notTab]
    cases found : keyChar? e.caps e.shift code with
    | none => exact text
    | some char =>
        have nonzero := keyChar_ne_zero found
        simp only [Option.getD_some]
        split
        · next fits =>
            rw [if_pos (by omega)]
            exact (typeChar_text lower char).trans (congrArg (· ++ [char]) text)
        · next full =>
            have notShort : ¬ e.text.length < 255 := fun short => full ⟨nonzero, by omega⟩
            rw [if_neg notShort]
            exact text
  · simp only [KeyboardState.pressChar]
    split <;> exact ⟨rfl, rfl, rfl, rfl⟩

/-- Only modifiers are down when a key goes down, so the driver holds no key. -/
theorem quiet_of_allowed (edits : Edits e s) (allowed : e.Allowed (.down key)) : Quiet e s := by
  rcases edits.keys with quiet | ⟨holder, down, notModifier, _⟩
  · exact quiet
  · exact absurd (allowed.2.1 holder down) notModifier

/-- Pressing a modifier, in the editor and in the driver. -/
theorem press_modifier_edits (edits : Edits e s) (allowed : e.Allowed (.down key))
    (modifier : IsModifier key.code) :
    Edits (e.step (.down key)) (s.press key.code).keyboard ∧
      (s.press key.code).entered = false ∧
      (s.press key.code).keyboard.heldKey = 0 ∧
      (s.press key.code).keyboard.lastScancode = key.code := by
  have quiet := quiet_of_allowed edits allowed
  have pressed : s.press key.code = Poll.showCursor
      { keyboard := KeyboardState.updateModifiers { s with lastScancode := key.code }
          key.code false } := if_pos modifier
  obtain ⟨pos, buffer⟩ :=
    KeyboardState.updateModifiers_same { s with lastScancode := key.code } key.code false
  obtain ⟨caps, shift, held, heldChar, last⟩ :=
    updateModifiers_pressed { s with lastScancode := key.code } key.code
  have unedited : e.edit key.code = e.text := if_pos (.inl modifier)
  rw [pressed]
  refine ⟨⟨KeyboardState.safe_of_same edits.safe pos buffer, ?_, ?_, ?_, .inl ⟨?_, ?_, .inr ?_⟩⟩,
    rfl, held.trans quiet.heldKey, last⟩
  · refine Eq.trans ?_ (edits.text.trans unedited.symm)
    simp only [KeyboardState.text, Poll.showCursor, Poll.display, pos, buffer]
  · exact caps.trans (by rw [edits.caps]; rfl)
  · exact shift.trans (by rw [edits.shift]; rfl)
  · exact held.trans quiet.heldKey
  · exact heldChar.trans quiet.heldKeyChar
  · exact ⟨key, Finset.mem_insert_self key e.held, modifier, last⟩

/-- The round of a key other than a modifier, once the cursor is hidden. -/
def KeyboardState.keyRound (s : KeyboardState) (code : Byte) : Poll :=
  Poll.hideCursor
    { keyboard :=
        { s with
          lastScancode := code, heldKey := code, keyHoldTime := 0
          repeatDelay := keyRepeatInitialDelay } }

/-- What a new key other than a modifier does, key by key. -/
inductive KeyboardState.KeyPress (s : KeyboardState) (code : Byte) : Poll → Prop where
  | accepted (enter : code = enterScancode) (elapsed : s.enterCooldown = 0) :
      KeyPress s code
        { ((s.keyRound code).display [.print [0x0A]]).store 0 with entered := true }
  | ignored (enter : code = enterScancode) (cooling : s.enterCooldown ≠ 0) :
      KeyPress s code (s.keyRound code).showCursor
  | backspace (notEnter : code ≠ enterScancode) (backspace : code = backspaceScancode) :
      KeyPress s code
        (Poll.showCursor
          { (s.keyRound code).eraseChar with keyboard.heldKeyChar := backspaceChar })
  | tab (notEnter : code ≠ enterScancode) (notBackspace : code ≠ backspaceScancode)
      (tab : code = tabScancode) :
      KeyPress s code
        (Poll.showCursor { (s.keyRound code).tabLoop 4 with keyboard.heldKeyChar := 0 })
  | char (notEnter : code ≠ enterScancode) (notBackspace : code ≠ backspaceScancode)
      (notTab : code ≠ tabScancode) : KeyPress s code (pressChar (s.keyRound code) code)

theorem KeyboardState.press_keyPress (s : KeyboardState) {code : Byte} (key : ¬ IsModifier code) :
    KeyPress s code (s.press code) := by
  have modifiers := updateModifiers_of_not { s with lastScancode := code } key
  rw [press]
  dsimp only
  rw [modifiers, if_neg key, ← keyRound]
  split
  · next enter =>
      unfold pressEnter
      split
      · next elapsed => exact .accepted enter elapsed
      · next cooling => exact .ignored enter cooling
  · next notEnter =>
      split
      · next backspace => exact .backspace notEnter backspace
      · next notBackspace =>
          split
          · next tab => exact .tab notEnter notBackspace tab
          · next notTab => exact .char notEnter notBackspace notTab

theorem keyRound_pressed (edits : Edits e s) {code : Byte} (notModifier : ¬ IsModifier code)
    (cooling : code = enterScancode → s.enterCooldown ≠ 0) :
    Pressed e code (s.keyRound code).keyboard (s.press code) := by
  have safe : (s.keyRound code).Safe := KeyboardState.safe_of_same edits.safe rfl rfl
  have text : (s.keyRound code).keyboard.text = e.text := edits.text
  generalize taken : s.press code = round
  cases taken ▸ s.press_keyPress notModifier with
  | accepted enter elapsed => exact absurd elapsed (cooling enter)
  | ignored enter _ =>
      have unedited : e.edit code = e.text := if_pos (.inr enter)
      exact ⟨text.trans unedited.symm, ⟨rfl, rfl, rfl, rfl⟩, rfl⟩
  | backspace notEnter isBackspace =>
      have plain : ¬ (IsModifier code ∨ code = enterScancode) :=
        not_or.mpr ⟨notModifier, notEnter⟩
      obtain ⟨caps, shift, heldKey, repeatDelay⟩ := eraseChar_keys (s.keyRound code)
      refine ⟨?_, ⟨caps, shift, heldKey, repeatDelay⟩,
        KeyboardState.eraseChar_entered (s.keyRound code)⟩
      rw [Editor.edit, if_neg plain, if_pos isBackspace, ← text]
      exact eraseChar_text safe.lower
  | tab notEnter notBackspace isTab =>
      have plain : ¬ (IsModifier code ∨ code = enterScancode) :=
        not_or.mpr ⟨notModifier, notEnter⟩
      obtain ⟨caps, shift, heldKey, repeatDelay⟩ := tabLoop_keys 4 (s.keyRound code)
      refine ⟨?_, ⟨caps, shift, heldKey, repeatDelay⟩,
        KeyboardState.tabLoop_entered 4 (s.keyRound code)⟩
      rw [Editor.edit, if_neg plain, if_neg notBackspace, if_pos isTab, ← text]
      exact tabLoop_text 4 safe.lower
  | char notEnter notBackspace notTab =>
      exact pressChar_pressed safe text edits.caps edits.shift rfl notModifier notEnter
        notBackspace notTab

/-- Pressing any other key, in the editor and in the driver. -/
theorem press_key_edits (edits : Edits e s) (notModifier : ¬ IsModifier key.code)
    (cooling : key.code = enterScancode → s.enterCooldown ≠ 0) :
    Edits (e.step (.down key)) (s.press key.code).keyboard ∧
      (s.press key.code).entered = false ∧
      (s.press key.code).keyboard.heldKey = key.code ∧
      (s.press key.code).keyboard.repeatDelay = keyRepeatInitialDelay := by
  obtain ⟨text, ⟨caps, shift, heldKey, repeatDelay⟩, entered⟩ :=
    keyRound_pressed edits notModifier cooling
  have notCaps : key.code ≠ capsLockScancode := fun same =>
    notModifier (.inr (.inr (.inr (.inr same))))
  have notShift : ¬ IsShift key.code := by
    rintro (left | right)
    · exact notModifier (.inl left)
    · exact notModifier (.inr (.inl right))
  have sameCaps : (e.step (.down key)).caps = e.caps := if_neg notCaps
  have sameShift : (e.step (.down key)).shift = e.shift := if_neg notShift
  have safe := KeyboardState.press_safe edits.safe key.code
  refine ⟨⟨⟨safe.lower, safe.upper, safe.filled, fun _ member => nomatch member⟩, text,
    caps.trans (edits.caps.trans sameCaps.symm), shift.trans (edits.shift.trans sameShift.symm),
    .inr ⟨key, Finset.mem_insert_self key e.held, notModifier, heldKey⟩⟩, entered, heldKey,
    repeatDelay⟩

end Presses

/-! ## Strokes -/

/-- A key event with the number of times it is polled. -/
structure Stroke where
  event : KeyEvent
  polls : Nat

/-- The bytes the port returns for a stroke. -/
def Stroke.bytes (stroke : Stroke) : List Byte := List.replicate stroke.polls stroke.event.byte

/-- A key that goes down is polled at most 10001 times, up to the end of the repeat delay. -/
def KeyEvent.Bounded (polls : Nat) : KeyEvent → Prop
  | .down _ => polls ≤ 10001
  | .up _ => True

/-- A stroke is polled at least once, and not long enough for a repeat. -/
def Stroke.Polled (stroke : Stroke) : Prop :=
  0 < stroke.polls ∧ stroke.event.Bounded stroke.polls

/-- Enter goes down. -/
def KeyEvent.IsEnter : KeyEvent → Prop
  | .down key => key.code = enterScancode
  | .up _ => False

/-- The poll that comes next finds the Enter cooldown over. -/
def Session.FindsCooldownOver (s : Session) : Prop := s.keyboard.cool.enterCooldown = 0

/-- After the first poll of an event, so many more leave the line alone. -/
def Settled (s : KeyboardState) (left : Nat) : KeyEvent → Prop
  | .down key =>
      (s.heldKey = key.code ∧ (left : Int) ≤ s.repeatDelay) ∨
        (s.heldKey ≠ key.code ∧ s.lastScancode = key.code)
  | .up key =>
      s.heldKey ≠ key.code ∧ s.lastScancode = 0 ∧ (IsShift key.code → s.shiftPressed = false)

section Strokes

variable {e : Editor} {s : KeyboardState} {event : KeyEvent}

theorem cool_delay (s : KeyboardState) : s.cool.repeatDelay = s.repeatDelay :=
  s.cool_keys.2.2.2

/-- Releasing a key once more. -/
theorem release_again {key : Key} (notHeld : s.heldKey ≠ key.code) (last : s.lastScancode = 0)
    (shift : IsShift key.code → s.shiftPressed = false) : (s.release key.code).line = s.line := by
  obtain ⟨pos, buffer⟩ := s.release_same key.code
  obtain ⟨caps, sameShift⟩ := release_modifiers s key.code
  obtain ⟨held, heldChar⟩ := release_held s key.code
  have other : ¬ key.code = s.heldKey := Ne.symm notHeld
  rw [if_neg other] at held heldChar
  have unshifted : (s.release key.code).shiftPressed = s.shiftPressed := by
    rw [sameShift]
    split
    · next isShift => exact (shift isShift).symm
    · rfl
  simp only [KeyboardState.line, pos, buffer, caps, unshifted, held, heldChar, last]
  rfl

/-- A poll of a settled event. -/
theorem settled_poll {left : Nat} (settled : Settled s (left + 1) event) :
    (s.poll event.byte).entered = false ∧ (s.poll event.byte).keyboard.line = s.line ∧
      Settled (s.poll event.byte).keyboard left event := by
  cases event with
  | down key =>
      rcases settled with ⟨held, delay⟩ | ⟨notHeld, seen⟩
      · have delayed : 0 < s.cool.repeatDelay := by
          rw [cool_delay]
          omega
        obtain ⟨line, counted⟩ := hold_line delayed
        have same := line.trans s.cool_line
        simp only [KeyEvent.byte]
        rw [poll_held held]
        refine ⟨KeyboardState.hold_entered _, same, .inl ⟨?_, ?_⟩⟩
        · exact (congrArg KeyboardState.Line.heldKey same).trans held
        · rw [counted, cool_delay]
          omega
      · simp only [KeyEvent.byte]
        rw [poll_seen notHeld seen]
        refine ⟨rfl, s.cool_line, .inr ⟨?_, s.cool_last.trans seen⟩⟩
        rw [s.cool_held]
        exact notHeld
  | up key =>
      obtain ⟨notHeld, last, shift⟩ := settled
      have coolShift : s.cool.shiftPressed = s.shiftPressed :=
        congrArg KeyboardState.Line.shiftPressed s.cool_line
      have again : (s.cool.release key.code).line = s.cool.line := by
        refine release_again ?_ (s.cool_last.trans last) ?_
        · rw [s.cool_held]
          exact notHeld
        · rw [coolShift]
          exact shift
      have same := again.trans s.cool_line
      rw [poll_up]
      refine ⟨rfl, same, ?_, rfl, ?_⟩
      · exact fun held => notHeld ((congrArg KeyboardState.Line.heldKey same).symm.trans held)
      · exact fun isShift => (congrArg KeyboardState.Line.shiftPressed same).trans (shift isShift)

/-- The first poll of an event makes the edit. -/
theorem first_poll (edits : Edits e s) (one : e.OneShift) (allowed : e.Allowed event)
    (ignored : event.IsEnter → s.cool.enterCooldown ≠ 0) {left : Nat}
    (few : event.Bounded (left + 1)) :
    (s.poll event.byte).entered = false ∧ Edits (e.step event) (s.poll event.byte).keyboard ∧
      Settled (s.poll event.byte).keyboard left event := by
  have cooled := edits.of_line s.cool_line
  cases event with
  | down key =>
      have quiet := quiet_of_allowed edits allowed
      have notHeld : s.heldKey ≠ key.code := by
        rw [quiet.heldKey]
        exact Ne.symm key.code_ne_zero
      have notSeen : s.lastScancode ≠ key.code := by
        rcases quiet.last with none | ⟨seen, down, _, last⟩
        · rw [none]
          exact Ne.symm key.code_ne_zero
        · rw [last]
          exact fun same => allowed.1 (Key.ext same ▸ down)
      simp only [KeyEvent.byte]
      rw [poll_fresh notHeld notSeen]
      rcases Classical.em (IsModifier key.code) with modifier | notModifier
      · obtain ⟨edited, entered, held, last⟩ := press_modifier_edits cooled allowed modifier
        refine ⟨entered, edited, .inr ⟨?_, last⟩⟩
        rw [held]
        exact Ne.symm key.code_ne_zero
      · obtain ⟨edited, entered, held, delay⟩ := press_key_edits cooled notModifier ignored
        refine ⟨entered, edited, .inl ⟨held, ?_⟩⟩
        rw [delay, keyRepeatInitialDelay]
        exact Int.ofNat_le.mpr (Nat.le_of_succ_le_succ few)
  | up key =>
      rw [poll_up]
      refine ⟨rfl, release_edits cooled one allowed, ?_, rfl, ?_⟩
      · have held := (release_held s.cool key.code).1
        change (s.cool.release key.code).heldKey ≠ key.code
        rw [held]
        split
        · exact Ne.symm key.code_ne_zero
        · next other => exact Ne.symm other
      · intro isShift
        exact (release_modifiers s.cool key.code).2.trans (if_pos isShift)

end Strokes

/-! ## Runs of strokes -/

section Runs

variable {e : Editor} {s : Session} {event : KeyEvent}

theorem feed_polling (polling : s.phase = .polling) {byte : Byte}
    (goesOn : (s.keyboard.poll byte).entered = false) :
    (s.feed byte).phase = .polling ∧ (s.feed byte).keyboard = (s.keyboard.poll byte).keyboard := by
  have fed : s.feed byte =
      { keyboard := (s.keyboard.poll byte).keyboard
        phase := if (s.keyboard.poll byte).entered then .draining 2 else .polling
        writes := s.writes ++ (s.keyboard.poll byte).writes
        calls := s.calls ++ (s.keyboard.poll byte).calls } := by
    simp only [Session.feed, polling]
  rw [fed, goesOn]
  exact ⟨rfl, rfl⟩

/-- Polling a settled event any number of times within its delay changes nothing. -/
theorem settled_run (polling : s.phase = .polling) (count : Nat)
    (settled : Settled s.keyboard count event) :
    (run Session.feed s (List.replicate count event.byte)).phase = .polling ∧
      (run Session.feed s (List.replicate count event.byte)).keyboard.line = s.keyboard.line := by
  induction count generalizing s with
  | zero => exact ⟨polling, rfl⟩
  | succ count ih =>
      obtain ⟨goesOn, line, later⟩ := settled_poll settled
      obtain ⟨phase, keyboard⟩ := feed_polling polling goesOn
      rw [← keyboard] at line later
      obtain ⟨finalPhase, finalLine⟩ := ih phase later
      rw [List.replicate_succ]
      exact ⟨finalPhase, finalLine.trans line⟩

/-- One stroke is one step of the editor, however often it is polled. -/
theorem stroke_edits {stroke : Stroke} (polling : s.phase = .polling) (edits : Edits e s.keyboard)
    (one : e.OneShift) (allowed : e.Allowed stroke.event) (polled : stroke.Polled)
    (ignored : stroke.event.IsEnter → ¬ s.FindsCooldownOver) :
    (run Session.feed s stroke.bytes).phase = .polling ∧
      Edits (e.step stroke.event) (run Session.feed s stroke.bytes).keyboard := by
  obtain ⟨event, polls⟩ := stroke
  obtain ⟨positive, few⟩ := polled
  obtain ⟨more, rfl⟩ := Nat.exists_eq_succ_of_ne_zero (Nat.ne_of_gt positive)
  obtain ⟨goesOn, edited, settled⟩ := first_poll edits one allowed ignored few
  obtain ⟨phase, keyboard⟩ := feed_polling polling goesOn
  rw [← keyboard] at edited settled
  obtain ⟨finalPhase, finalLine⟩ := settled_run phase more settled
  have bytes : Stroke.bytes ⟨event, more + 1⟩ = event.byte :: List.replicate more event.byte :=
    List.replicate_succ
  rw [bytes]
  exact ⟨finalPhase, edited.of_line finalLine⟩

/-- The editor on a stroke. -/
def Editor.stroke (e : Editor) (stroke : Stroke) : Editor := e.step stroke.event

/-- The driver on a stroke. -/
def Session.stroke (s : Session) (stroke : Stroke) : Session := run Session.feed s stroke.bytes

/-- A stroke of somebody who types. -/
def Editor.Typed (e : Editor) (stroke : Stroke) : Prop :=
  e.Allowed stroke.event ∧ stroke.Polled

/-- A stroke that does not end the line: Enter is only struck while it cools down. -/
def Session.GoesOn (s : Session) (stroke : Stroke) : Prop :=
  stroke.event.IsEnter → ¬ s.FindsCooldownOver

/-- Any number of strokes. -/
theorem strokes_edit (strokes : List Stroke) (polling : s.phase = .polling)
    (edits : Edits e s.keyboard) (one : e.OneShift)
    (typed : Along Editor.stroke Editor.Typed e strokes)
    (goesOn : Along Session.stroke Session.GoesOn s strokes) :
    (run Session.stroke s strokes).phase = .polling ∧
      Edits (run Editor.stroke e strokes) (run Session.stroke s strokes).keyboard := by
  induction strokes generalizing e s with
  | nil => exact ⟨polling, edits⟩
  | cons stroke rest ih =>
      obtain ⟨⟨allowed, polled⟩, typedRest⟩ := typed
      obtain ⟨ignored, goesOnRest⟩ := goesOn
      obtain ⟨phase, edited⟩ := stroke_edits polling edits one allowed polled ignored
      exact ih phase edited (Editor.step_oneShift one allowed) typedRest goesOnRest

/-- The Enter key. -/
def Key.enter : Key := ⟨enterScancode, by decide, by decide⟩

theorem string_eq_text {k : KeyboardState} {writes : List Int} (safe : LineSafe k writes)
    (ended : k.inputBuffer k.bufferPos = 0) : k.string = k.text := by
  have position := Int.toNat_of_nonneg safe.lower
  have upper := safe.upper
  have ends : k.inputBuffer (k.bufferPos.toNat : Int) = 0 := by
    rw [position]
    exact ended
  exact string_of_filled (by omega)
    (fun index below => safe.filled index (by omega) (by omega)) ends

/-- The poll of Enter that ends the line. -/
theorem enter_poll {k : KeyboardState} (edits : Edits e k) (allowed : e.Allowed (.down Key.enter))
    (expired : k.cool.enterCooldown = 0) :
    (k.poll enterScancode).entered = true ∧ (k.poll enterScancode).keyboard.string = e.text := by
  have quiet := quiet_of_allowed edits allowed
  have notHeld : k.heldKey ≠ Key.enter.code := by
    rw [quiet.heldKey]
    decide
  have notSeen : k.lastScancode ≠ Key.enter.code := by
    rcases quiet.last with none | ⟨seen, _, modifier, last⟩
    · rw [none]
      decide
    · rw [last]
      intro same
      rw [same] at modifier
      exact absurd modifier (by decide)
  have notModifier : ¬ IsModifier enterScancode := by decide
  have same := updateModifiers_of_not { k.cool with lastScancode := enterScancode } notModifier
  have pressed : k.poll enterScancode =
      { ((k.cool.keyRound enterScancode).display [.print [0x0A]]).store 0 with
        entered := true } := by
    refine (poll_fresh notHeld notSeen).trans ?_
    simp only [Key.enter, KeyboardState.press, if_neg notModifier, same, if_true]
    exact if_pos expired
  have safe := KeyboardState.poll_safe edits.safe enterScancode
  have entered : (k.poll enterScancode).entered = true := by rw [pressed]
  have ended := k.poll_entered entered
  refine ⟨entered, (string_eq_text safe ended).trans ?_⟩
  have text : k.text = e.text := edits.text
  rw [← text, pressed]
  change (List.range k.cool.bufferPos.toNat).map (fun index : Nat =>
    Function.update k.cool.inputBuffer k.cool.bufferPos 0 index) = _
  rw [k.cool_same.1, k.cool_same.2]
  refine List.map_congr_left fun index member => ?_
  have below := List.mem_range.mp member
  rw [Function.update_of_ne (by omega)]

/-- The drain after Enter reads three bytes and returns. -/
theorem drain_returns (draining : s.phase = .draining 2) {drained : List Byte}
    (three : drained.length = 3) :
    (run Session.feed s drained).phase = .returned ∧
      (run Session.feed s drained).keyboard.inputBuffer = s.keyboard.inputBuffer := by
  match drained, three with
  | [first, second, third], _ =>
      have one : s.feed first = { s with phase := .draining 1 } := by
        simp only [Session.feed, draining]
      simp only [run, one]
      exact ⟨rfl, rfl⟩

/-- An empty line, with the modifiers and the keys as they are when the call begins. -/
def Editor.start (s : KeyboardState) (held : Finset Key) : Editor where
  text := []
  caps := s.capsLockOn
  shift := s.shiftPressed
  held := held

theorem start_edits {k : KeyboardState} (heldKey : k.heldKey = 0) (heldKeyChar : k.heldKeyChar = 0)
    (last : k.lastScancode = 0) (held : Finset Key) :
    Edits (.start k held) { k with bufferPos := 0 } :=
  ⟨lineSafe_start rfl (fun _ member => nomatch member), rfl, rfl, rfl,
    .inl ⟨heldKey, heldKeyChar, .inl last⟩⟩

/-- The line that `keyboard_get_input` returns is the one the editor holds when Enter is struck,
however often the strokes before it were polled. -/
theorem keyboard_refines_editor (returned : s.phase = .returned)
    (heldKey : s.keyboard.heldKey = 0) (heldKeyChar : s.keyboard.heldKeyChar = 0)
    (last : s.keyboard.lastScancode = 0) {held : Finset Key}
    (one : (Editor.start s.keyboard held).OneShift) {strokes : List Stroke}
    (typed : Along Editor.stroke Editor.Typed (.start s.keyboard held) strokes)
    (goesOn : Along Session.stroke Session.GoesOn s.call strokes)
    (allowed : (run Editor.stroke (.start s.keyboard held) strokes).Allowed (.down Key.enter))
    (expired : (run Session.stroke s.call strokes).FindsCooldownOver) {drained : List Byte}
    (three : drained.length = 3) :
    (run Session.feed (run Session.stroke s.call strokes) (enterScancode :: drained)).phase =
        .returned ∧
      (run Session.feed (run Session.stroke s.call strokes)
          (enterScancode :: drained)).keyboard.string =
        (run Editor.stroke (.start s.keyboard held) strokes).text := by
  have called : s.call.phase = .polling ∧ s.call.keyboard = { s.keyboard with bufferPos := 0 } := by
    simp only [Session.call, returned]
    exact ⟨trivial, trivial⟩
  obtain ⟨polling, edits⟩ := strokes_edit strokes called.1
    (called.2 ▸ start_edits heldKey heldKeyChar last held) one typed goesOn
  obtain ⟨entered, line⟩ := enter_poll edits allowed expired
  generalize run Session.stroke s.call strokes = t at polling entered line
  have fed : (t.feed enterScancode).phase = .draining 2 ∧
      (t.feed enterScancode).keyboard = (t.keyboard.poll enterScancode).keyboard := by
    simp only [Session.feed, polling, entered]
    exact ⟨rfl, trivial⟩
  obtain ⟨phase, buffer⟩ := drain_returns fed.1 three
  refine ⟨phase, ?_⟩
  rw [← line, ← fed.2]
  simp only [KeyboardState.string]
  exact congrArg (fun chars : Int → Byte =>
    ((List.range 256).map fun index : Nat => chars index).takeWhile (· ≠ 0)) buffer

end Runs

/-! ## A line with a struck Enter, a shift and a long poll -/

instance : DecidablePred KeyEvent.IsEnter
  | .down key => inferInstanceAs (Decidable (key.code = enterScancode))
  | .up _ => inferInstanceAs (Decidable False)

instance (polls : Nat) : DecidablePred (KeyEvent.Bounded polls)
  | .down _ => inferInstanceAs (Decidable (polls ≤ 10001))
  | .up _ => inferInstanceAs (Decidable True)

instance (e : Editor) (stroke : Stroke) : Decidable (e.Typed stroke) :=
  inferInstanceAs (Decidable (_ ∧ _ ∧ KeyEvent.Bounded _ _))

instance (s : Session) : Decidable s.FindsCooldownOver :=
  inferInstanceAs (Decidable (_ = _))

instance (s : Session) (stroke : Stroke) : Decidable (s.GoesOn stroke) :=
  inferInstanceAs (Decidable (_ → ¬ _))

def Key.leftShift : Key := ⟨leftShiftScancode, by decide, by decide⟩
def Key.letterA : Key := ⟨0x1E, by decide, by decide⟩

/-- A driver that has just returned a line, with a little of the cooldown left. -/
def coolingSession : Session where
  keyboard :=
    { lastScancode := 0, enterCooldown := 3, bufferPos := 0, inputBuffer := fun _ => 0, heldKey := 0
      keyHoldTime := 0, repeatDelay := 0, heldKeyChar := 0, shiftPressed := false
      capsLockOn := false, ctrlPressed := false, altPressed := false }
  phase := .returned
  writes := []
  calls := []

/-- Enter too early, then an upper-case letter. -/
def sampleStrokes : List Stroke :=
  [⟨.down .enter, 1⟩, ⟨.up .enter, 1⟩, ⟨.down .leftShift, 2⟩, ⟨.down .letterA, 40⟩,
    ⟨.up .letterA, 3⟩, ⟨.up .leftShift, 1⟩]

/-- The driver returns `A` for these strokes. -/
theorem keyboard_refines_editor_sample :
    (run Session.feed (run Session.stroke coolingSession.call sampleStrokes)
        (enterScancode :: [0, 0, 0])).phase = .returned ∧
      (run Session.feed (run Session.stroke coolingSession.call sampleStrokes)
          (enterScancode :: [0, 0, 0])).keyboard.string =
        (run Editor.stroke (.start coolingSession.keyboard ∅) sampleStrokes).text := by
  have typed :
      Along Editor.stroke Editor.Typed (.start coolingSession.keyboard ∅) sampleStrokes := by
    decide +kernel
  have goesOn : Along Session.stroke Session.GoesOn coolingSession.call sampleStrokes := by
    decide +kernel
  have allowed : (run Editor.stroke (.start coolingSession.keyboard ∅) sampleStrokes).Allowed
      (.down .enter) := by decide +kernel
  have expired : (run Session.stroke coolingSession.call sampleStrokes).FindsCooldownOver := by
    decide +kernel
  exact keyboard_refines_editor rfl rfl rfl rfl (fun _ none => absurd none (Finset.notMem_empty _))
    typed goesOn allowed expired rfl

end SimpleOS
