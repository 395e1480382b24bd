import SimpleOS.Drivers.Vga

/-!
# The keyboard driver

`keyboard.c`: `keyboard_get_input` polls the data port and edits a line.  One
round of its loop is `poll`, which also lists the places of `input_buffer` it
writes and its calls of the screen driver.  A session is the driver with the
call that is in progress, fed by the bytes the port returns.
-/

namespace SimpleOS

open Library.ByteMemory

def enterScancode : Byte := 0x1C
def backspaceScancode : Byte := 0x0E
def tabScancode : Byte := 0x0F
def capsLockScancode : Byte := 0x3A
def leftShiftScancode : Byte := 0x2A
def rightShiftScancode : Byte := 0x36
def leftCtrlScancode : Byte := 0x1D
def leftAltScancode : Byte := 0x38

def enterCooldownCycles : Int := 5000
def keyRepeatInitialDelay : Int := 10000
def keyRepeatRate : Int := 5000
def keyRepeatFastRate : Int := 5000
def keyRepeatAccelerationThreshold : Int := 20000

/-- A character literal. -/
def charByte (char : Char) : Byte := BitVec.ofNat 8 char.toNat

/-- `'\b'`. -/
def backspaceChar : Byte := 0x08

/--
`keyboard_state_t`; the flags only ever hold 0 and 1.  `key_hold_time` only
chooses between two equal rates, so its overflow does not show.
-/
structure KeyboardState where
  lastScancode : Byte
  enterCooldown : Int
  bufferPos : Int
  inputBuffer : Int → Byte
  heldKey : Byte
  keyHoldTime : Int
  repeatDelay : Int
  heldKeyChar : Byte
  shiftPressed : Bool
  capsLockOn : Bool
  ctrlPressed : Bool
  altPressed : Bool

namespace KeyboardState

/-- `keyboard_init`; what it reads from the port is thrown away. -/
def init (s : KeyboardState) : KeyboardState where
  lastScancode := 0
  enterCooldown := 0
  bufferPos := 0
  inputBuffer index := if 0 ≤ index ∧ index < 256 then 0 else s.inputBuffer index
  heldKey := 0
  keyHoldTime := 0
  repeatDelay := 0
  heldKeyChar := 0
  shiftPressed := false
  capsLockOn := false
  ctrlPressed := false
  altPressed := false

/-- A key that shift gives another character. -/
def shifted (s : KeyboardState) (upper lower : Char) : Byte :=
  charByte (if s.shiftPressed then upper else lower)

/-- A letter key, for which caps lock counts as well. -/
def letter (s : KeyboardState) (upper lower : Char) : Byte :=
  charByte (if s.capsLockOn != s.shiftPressed then upper else lower)

/-- `scancode_to_ascii`. -/
def scancodeToAscii (s : KeyboardState) (scancode : Byte) : Byte :=
  match scancode.toNat with
  | 0x02 => s.shifted '!' '1'
  | 0x03 => s.shifted '@' '2'
  | 0x04 => s.shifted '#' '3'
  | 0x05 => s.shifted '$' '4'
  | 0x06 => s.shifted '%' '5'
  | 0x07 => s.shifted '^' '6'
  | 0x08 => s.shifted '&' '7'
  | 0x09 => s.shifted '*' '8'
  | 0x0A => s.shifted '(' '9'
  | 0x0B => s.shifted ')' '0'
  | 0x10 => s.letter 'Q' 'q'
  | 0x11 => s.letter 'W' 'w'
  | 0x12 => s.letter 'E' 'e'
  | 0x13 => s.letter 'R' 'r'
  | 0x14 => s.letter 'T' 't'
  | 0x15 => s.letter 'Y' 'y'
  | 0x16 => s.letter 'U' 'u'
  | 0x17 => s.letter 'I' 'i'
  | 0x18 => s.letter 'O' 'o'
  | 0x19 => s.letter 'P' 'p'
  | 0x1E => s.letter 'A' 'a'
  | 0x1F => s.letter 'S' 's'
  | 0x20 => s.letter 'D' 'd'
  | 0x21 => s.letter 'F' 'f'
  | 0x22 => s.letter 'G' 'g'
  | 0x23 => s.letter 'H' 'h'
  | 0x24 => s.letter 'J' 'j'
  | 0x25 => s.letter 'K' 'k'
  | 0x26 => s.letter 'L' 'l'
  | 0x2C => s.letter 'Z' 'z'
  | 0x2D => s.letter 'X' 'x'
  | 0x2E => s.letter 'C' 'c'
  | 0x2F => s.letter 'V' 'v'
  | 0x30 => s.letter 'B' 'b'
  | 0x31 => s.letter 'N' 'n'
  | 0x32 => s.letter 'M' 'm'
  | 0x0C => s.shifted '_' '-'
  | 0x0D => s.shifted '+' '='
  -- braces and brackets, then colon, quotes, tilde and backslash, by their codes
  | 0x1A => s.shifted (Char.ofNat 0x7B) (Char.ofNat 0x5B)
  | 0x1B => s.shifted (Char.ofNat 0x7D) (Char.ofNat 0x5D)
  | 0x27 => s.shifted ':' ';'
  | 0x28 => s.shifted (Char.ofNat 0x22) (Char.ofNat 0x27)
  | 0x29 => s.shifted '~' (Char.ofNat 0x60)
  | 0x2B => s.shifted '|' (Char.ofNat 0x5C)
  | 0x33 => s.shifted '<' ','
  | 0x34 => s.shifted '>' '.'
  | 0x35 => s.shifted '?' '/'
  | 0x39 => charByte ' '
  | 0x0F => 0x09
  | _ => 0

/-- `keyboard_update_modifiers`. -/
def updateModifiers (s : KeyboardState) (scancode : Byte) (keyReleased : Bool) : KeyboardState :=
  if keyReleased then
    if scancode = leftShiftScancode ∨ scancode = rightShiftScancode then
      { s with shiftPressed := false }
    else if scancode = leftCtrlScancode then { s with ctrlPressed := false }
    else if scancode = leftAltScancode then { s with altPressed := false }
    else s
  else
    if scancode = leftShiftScancode ∨ scancode = rightShiftScancode then
      { s with shiftPressed := true }
    else if scancode = leftCtrlScancode then { s with ctrlPressed := true }
    else if scancode = leftAltScancode then { s with altPressed := true }
    else if scancode = capsLockScancode then { s with capsLockOn := !s.capsLockOn }
    else s

/-- The decrement of `enter_cooldown` that every round starts with. -/
def cool (s : KeyboardState) : KeyboardState :=
  if s.enterCooldown > 0 then { s with enterCooldown := s.enterCooldown - 1 } else s

end KeyboardState

/-- The keys that are not repeated: shift, ctrl, alt and caps lock. -/
def IsModifier (scancode : Byte) : Prop :=
  scancode = leftShiftScancode ∨ scancode = rightShiftScancode ∨ scancode = leftCtrlScancode ∨
    scancode = leftAltScancode ∨ scancode = capsLockScancode

instance (scancode : Byte) : Decidable (IsModifier scancode) :=
  inferInstanceAs (Decidable (_ ∨ _ ∨ _ ∨ _ ∨ _))

/-- A round in progress: the state, the places of `input_buffer` written, the screen calls, and
whether Enter ended the line. -/
structure Poll where
  keyboard : KeyboardState
  writes : List Int := []
  calls : List Vga.Call := []
  entered : Bool := false

namespace Poll

/-- Call the screen driver. -/
def display (p : Poll) (calls : List Vga.Call) : Poll := { p with calls := p.calls ++ calls }

/-- `input_buffer[buffer_pos] = char`. -/
def store (p : Poll) (char : Byte) : Poll :=
  { p with
    keyboard.inputBuffer :=
      Function.update p.keyboard.inputBuffer p.keyboard.bufferPos char
    writes := p.writes ++ [p.keyboard.bufferPos] }

/-- `input_buffer[buffer_pos++] = char`, and show it. -/
def typeChar (p : Poll) (char : Byte) : Poll :=
  let p := p.store char
  let p := { p with keyboard.bufferPos := p.keyboard.bufferPos + 1 }
  p.display [.setColor vgaColorLightBrown vgaColorBlack, .putchar char,
    .setColor vgaColorWhite vgaColorBlack]

/-- Drop the last character, if any. -/
def eraseChar (p : Poll) : Poll :=
  if p.keyboard.bufferPos > 0 then
    display { p with keyboard.bufferPos := p.keyboard.bufferPos - 1 }
      [.print [backspaceChar, charByte ' '], .print [backspaceChar]]
  else p

/-- The loop of the tab key, with the rounds it has left. -/
def tabLoop : Nat → Poll → Poll
  | 0, p => p
  | left + 1, p =>
      if p.keyboard.bufferPos < 252 then tabLoop left (p.typeChar (charByte ' ')) else p

/-- The cursor. -/
def showCursor (p : Poll) : Poll := p.display [.putchar (charByte '_')]

/-- Remove the cursor. -/
def hideCursor (p : Poll) : Poll := p.display [.print [backspaceChar]]

end Poll

namespace KeyboardState

/-- A repeat of the held key; the loop has it for a key seen again and for an idle port. -/
def repeatKey (s : KeyboardState) : Poll :=
  let p := Poll.hideCursor { keyboard := s }
  let p :=
    if s.heldKey = backspaceScancode then p.eraseChar
    else if s.heldKeyChar ≠ backspaceChar ∧ s.bufferPos < 255 then p.typeChar s.heldKeyChar
    else p
  let p := p.showCursor
  { p with
    keyboard.repeatDelay :=
      if p.keyboard.keyHoldTime > keyRepeatAccelerationThreshold then keyRepeatFastRate
      else keyRepeatRate }

/-- A byte from 0x80 on: a key is released. -/
def release (s : KeyboardState) (releasedKey : Byte) : KeyboardState :=
  let s := s.updateModifiers releasedKey true
  let s :=
    if releasedKey = s.heldKey then
      { s with heldKey := 0, keyHoldTime := 0, repeatDelay := 0, heldKeyChar := 0 }
    else s
  { s with lastScancode := 0 }

/-- The held key is seen again. -/
def hold (s : KeyboardState) : Poll :=
  let s := { s with keyHoldTime := s.keyHoldTime + 1 }
  if s.repeatDelay > 0 then { keyboard := { s with repeatDelay := s.repeatDelay - 1 } }
  else if s.heldKeyChar ≠ 0 then s.repeatKey
  else { keyboard := s }

/-- The port is idle. -/
def idle (s : KeyboardState) : Poll :=
  if s.heldKey ≠ 0 ∧ s.heldKeyChar ≠ 0 then
    let s := { s with keyHoldTime := s.keyHoldTime + 1 }
    if s.repeatDelay > 0 then { keyboard := { s with repeatDelay := s.repeatDelay - 1 } }
    else s.repeatKey
  else { keyboard := s }

/-- The Enter key. -/
def pressEnter (p : Poll) : Poll :=
  if p.keyboard.enterCooldown = 0 then
    let p := p.display [.print [0x0A]]
    { p.store 0 with entered := true }
  else p.showCursor

/-- A character key. -/
def pressChar (p : Poll) (scancode : Byte) : Poll :=
  let key := p.keyboard.scancodeToAscii scancode
  let p :=
    if key ≠ 0 ∧ p.keyboard.bufferPos < 255 then
      let p := p.typeChar key
      { p with keyboard.heldKeyChar := key }
    else { p with keyboard.heldKeyChar := 0 }
  p.showCursor

/-- A new key goes down. -/
def press (s : KeyboardState) (scancode : Byte) : Poll :=
  let s := { s with lastScancode := scancode }
  let s := s.updateModifiers scancode false
  if IsModifier scancode then Poll.showCursor { keyboard := s }
  else
    let s :=
      { s with heldKey := scancode, keyHoldTime := 0, repeatDelay := keyRepeatInitialDelay }
    let p := Poll.hideCursor { keyboard := s }
    if scancode = enterScancode then pressEnter p
    else if scancode = backspaceScancode then
      let p := p.eraseChar
      Poll.showCursor { p with keyboard.heldKeyChar := backspaceChar }
    else if scancode = tabScancode then
      let p := p.tabLoop 4
      Poll.showCursor { p with keyboard.heldKeyChar := 0 }
    else pressChar p scancode

/-- One round of the loop of `keyboard_get_input`, up to the drain after Enter. -/
def poll (s : KeyboardState) (scancode : Byte) : Poll :=
  let s := s.cool
  if scancode ≥ 0x80 then { keyboard := s.release (scancode - 0x80) }
  else if scancode > 0 then
    if scancode = s.heldKey ∧ s.heldKey ≠ 0 then s.hold
    else if scancode ≠ s.lastScancode then s.press scancode
    else { keyboard := s }
  else s.idle

/-- What `keyboard_get_input` does between the drain and its return. -/
def finishEnter (s : KeyboardState) : KeyboardState :=
  { s with enterCooldown := enterCooldownCycles, lastScancode := 0, heldKey := 0 }

end KeyboardState

/-! ## The branches of a round -/

namespace KeyboardState

/-- The branch of a new key. -/
def Presses (s : KeyboardState) (scancode : Byte) : Prop :=
  scancode < 0x80 ∧ 0 < scancode ∧ ¬ (scancode = s.heldKey ∧ s.heldKey ≠ 0) ∧
    scancode ≠ s.lastScancode

/-- The two branches with a repeat: the held key is seen again, or the port is idle. -/
def Repeats (s : KeyboardState) (scancode : Byte) : Prop :=
  scancode = 0 ∨ scancode < 0x80 ∧ scancode = s.heldKey ∧ s.heldKey ≠ 0

instance (s : KeyboardState) (scancode : Byte) : Decidable (s.Presses scancode) :=
  inferInstanceAs (Decidable (_ ∧ _ ∧ ¬ _ ∧ _))

instance (s : KeyboardState) (scancode : Byte) : Decidable (s.Repeats scancode) :=
  inferInstanceAs (Decidable (_ ∨ _ ∧ _ ∧ _))

/-- What a round is, branch by branch. -/
inductive Round (s : KeyboardState) (scancode : Byte) : Poll → Prop where
  | release (presses : ¬ s.Presses scancode) (repeats : ¬ s.Repeats scancode) :
      Round s scancode { keyboard := s.cool.release (scancode - 0x80) }
  | hold (presses : ¬ s.Presses scancode) (repeats : s.Repeats scancode)
      (held : scancode = s.heldKey) (nonzero : s.heldKey ≠ 0) : Round s scancode s.cool.hold
  | press (presses : s.Presses scancode) (repeats : ¬ s.Repeats scancode) :
      Round s scancode (s.cool.press scancode)
  | seen (presses : ¬ s.Presses scancode) (repeats : ¬ s.Repeats scancode) :
      Round s scancode { keyboard := s.cool }
  | idle (presses : ¬ s.Presses scancode) (repeats : s.Repeats scancode) :
      Round s scancode s.cool.idle

theorem cool_keys (s : KeyboardState) :
    s.cool.heldKey = s.heldKey ∧ s.cool.heldKeyChar = s.heldKeyChar ∧
      s.cool.lastScancode = s.lastScancode ∧ s.cool.repeatDelay = s.repeatDelay := by
  unfold cool
  split <;> exact ⟨rfl, rfl, rfl, rfl⟩

/-- Every byte takes one of the branches. -/
theorem poll_round (s : KeyboardState) (scancode : Byte) : Round s scancode (s.poll scancode) := by
  obtain ⟨held, _, last, _⟩ := s.cool_keys
  by_cases released : scancode ≥ 0x80
  · have high : ¬ scancode < 0x80 := BitVec.not_lt.mpr released
    have nonzero : ¬ scancode = 0 := by
      intro zero
      rw [zero] at released
      exact absurd released (by decide)
    rw [poll, if_pos released]
    exact .release (fun presses => high presses.1) fun repeats =>
      repeats.elim nonzero fun again => high again.1
  · have low : scancode < 0x80 := BitVec.not_le.mp released
    by_cases pressed : scancode > 0
    · have nonzero : ¬ scancode = 0 := by
        intro zero
        rw [zero] at pressed
        exact absurd pressed (by decide)
      by_cases again : scancode = s.heldKey ∧ s.heldKey ≠ 0
      · have same : s.poll scancode = s.cool.hold := by
          rw [poll, if_neg released, if_pos pressed, if_pos (held.symm ▸ again)]
        rw [same]
        exact .hold (fun presses => presses.2.2.1 again) (.inr ⟨low, again⟩) again.1 again.2
      · have other : ¬ s.Repeats scancode := fun repeats =>
          repeats.elim nonzero fun holds => again holds.2
        by_cases fresh : scancode ≠ s.lastScancode
        · have same : s.poll scancode = s.cool.press scancode := by
            rw [poll, if_neg released, if_pos pressed, if_neg (held.symm ▸ again),
              if_pos (last.symm ▸ fresh)]
          rw [same]
          exact .press ⟨low, pressed, again, fresh⟩ other
        · have same : s.poll scancode = { keyboard := s.cool } := by
            rw [poll, if_neg released, if_pos pressed, if_neg (held.symm ▸ again),
              if_neg (last.symm ▸ fresh)]
          rw [same]
          exact .seen (fun presses => fresh presses.2.2.2) other
    · have zero : scancode = 0 := by
        have small : ¬ (0 : Byte).toNat < scancode.toNat := pressed
        exact BitVec.eq_of_toNat_eq (Nat.eq_zero_of_not_pos small)
      rw [poll, if_neg released, if_neg pressed]
      exact .idle (fun presses => pressed presses.2.1) (.inl zero)

end KeyboardState

/-! ## Sessions -/

/-- Where `keyboard_get_input` is: polling, in `keyboard_clear_buffer` with so many reads to come
after the next, or not running. -/
inductive Phase where
  | polling
  | draining (left : Nat)
  | returned
  deriving DecidableEq

/-- The driver over time, with all places of `input_buffer` written and all screen calls made. -/
structure Session where
  keyboard : KeyboardState
  phase : Phase
  writes : List Int
  calls : List Vga.Call

namespace Session

/-- After `keyboard_init`. -/
def init (s : KeyboardState) : Session where
  keyboard := s.init
  phase := .returned
  writes := []
  calls := []

/-- `keyboard_get_input` is called; while it runs there is no second call. -/
def call (s : Session) : Session :=
  match s.phase with
  | .returned =>
      { s with
        keyboard := { s.keyboard with bufferPos := 0 }
        phase := .polling
        calls := s.calls ++
          [.setColor vgaColorWhite vgaColorBlack, .putchar (charByte '_')] }
  | _ => s

/-- The port returns a byte to the running call. -/
def feed (s : Session) (byte : Byte) : Session :=
  match s.phase with
  | .polling =>
      let p := s.keyboard.poll byte
      { keyboard := p.keyboard
        phase := if p.entered then .draining 2 else .polling
        writes := s.writes ++ p.writes
        calls := s.calls ++ p.calls }
  | .draining 0 => { s with keyboard := s.keyboard.finishEnter, phase := .returned }
  | .draining (left + 1) => { s with phase := .draining left }
  | .returned => s

/-- A call of the driver, or a byte from the port. -/
inductive Event where
  | call
  | byte (byte : Byte)

def step (s : Session) : Event → Session
  | .call => s.call
  | .byte byte => s.feed byte

end Session

/-- The C string in `input_buffer`. -/
def KeyboardState.string (s : KeyboardState) : CString :=
  ((List.range 256).map fun index : Nat => s.inputBuffer index).takeWhile (· ≠ 0)

end SimpleOS
