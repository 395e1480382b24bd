import Mathlib.Data.Finset.Basic
import SimpleOS.Drivers.Keyboard

/-!
# The line editor behind the keyboard

What the keyboard is for: keys go down and up, and a line of text is edited.
The editor knows no scancode stream, no polling and no repeat; it knows which
keys are down and what is printed on the key caps.
-/

namespace SimpleOS

open Library.ByteMemory

/-- A key, by the byte the port returns while it goes down. -/
structure Key where
  code : Byte
  positive : 0 < code.toNat
  below : code.toNat < 128
  deriving DecidableEq

theorem Key.ext {first second : Key} (same : first.code = second.code) : first = second := by
  cases first
  cases second
  cases same
  rfl

theorem Key.code_ne_zero (key : Key) : key.code ≠ 0 := by
  intro zero
  have positive := key.positive
  rw [zero] at positive
  exact absurd positive (by decide)

theorem Key.not_release (key : Key) : ¬ key.code ≥ 0x80 := by
  have below := key.below
  intro above
  have bound := BitVec.le_def.mp above
  rw [show (0x80 : Byte).toNat = 128 from rfl] at bound
  omega

theorem Key.pressed (key : Key) : key.code > 0 :=
  BitVec.lt_def.mpr key.positive

theorem Key.released (key : Key) : key.code + 0x80 ≥ 0x80 := by
  have below := key.below
  refine BitVec.le_def.mpr ?_
  rw [BitVec.toNat_add, show (0x80 : Byte).toNat = 128 from rfl, Nat.mod_eq_of_lt (by omega)]
  omega

/-- A byte of the port is nothing, a key that goes down, or a release. -/
theorem scancode_cases (scancode : Byte) :
    scancode = 0 ∨ (∃ key : Key, scancode = key.code) ∨ scancode ≥ 0x80 := by
  by_cases zero : scancode = 0
  · exact Or.inl zero
  · by_cases released : scancode ≥ 0x80
    · exact Or.inr (Or.inr released)
    · have bound : (0x80 : Byte).toNat = 128 := rfl
      have positive : scancode.toNat ≠ 0 := fun none => zero (BitVec.eq_of_toNat_eq none)
      have below : ¬ 128 ≤ scancode.toNat := fun above => released (BitVec.le_def.mpr above)
      exact Or.inr (Or.inl ⟨⟨scancode, by omega, by omega⟩, rfl⟩)

/-- What is printed on a key. -/
inductive KeyCap where
  | letter (upper lower : Char)
  | symbol (upper lower : Char)

/-- The caps of keys with consecutive codes. -/
def keyRow (first : Nat) (caps : List KeyCap) : List (Nat × KeyCap) :=
  ((List.range caps.length).map (first + ·)).zip caps

/-- The keys that have a character; quotes, brackets and braces are given by their codes. -/
def keyCaps : List (Nat × KeyCap) :=
  keyRow 0x02 [.symbol '!' '1', .symbol '@' '2', .symbol '#' '3', .symbol '$' '4',
    .symbol '%' '5', .symbol '^' '6', .symbol '&' '7', .symbol '*' '8', .symbol '(' '9',
    .symbol ')' '0', .symbol '_' '-', .symbol '+' '='] ++
  keyRow 0x10 [.letter 'Q' 'q', .letter 'W' 'w', .letter 'E' 'e', .letter 'R' 'r',
    .letter 'T' 't', .letter 'Y' 'y', .letter 'U' 'u', .letter 'I' 'i', .letter 'O' 'o',
    .letter 'P' 'p', .symbol (Char.ofNat 0x7B) (Char.ofNat 0x5B),
    .symbol (Char.ofNat 0x7D) (Char.ofNat 0x5D)] ++
  keyRow 0x1E [.letter 'A' 'a', .letter 'S' 's', .letter 'D' 'd', .letter 'F' 'f',
    .letter 'G' 'g', .letter 'H' 'h', .letter 'J' 'j', .letter 'K' 'k', .letter 'L' 'l',
    .symbol ':' ';', .symbol (Char.ofNat 0x22) (Char.ofNat 0x27),
    .symbol '~' (Char.ofNat 0x60)] ++
  keyRow 0x2B [.symbol '|' (Char.ofNat 0x5C), .letter 'Z' 'z', .letter 'X' 'x',
    .letter 'C' 'c', .letter 'V' 'v', .letter 'B' 'b', .letter 'N' 'n', .letter 'M' 'm',
    .symbol '<' ',', .symbol '>' '.', .symbol '?' '/'] ++
  keyRow 0x39 [.symbol ' ' ' ']

/-- The character of a key: caps lock and shift for a letter, shift for any other key. -/
def keyChar? (caps shift : Bool) (code : Byte) : Option Byte :=
  (keyCaps.lookup code.toNat).map fun
    | .letter upper lower => charByte (if caps != shift then upper else lower)
    | .symbol upper lower => charByte (if shift then upper else lower)

/-- A key goes down or up. -/
inductive KeyEvent where
  | down (key : Key)
  | up (key : Key)

/-- The byte the port returns for an event. -/
def KeyEvent.byte : KeyEvent → Byte
  | .down key => key.code
  | .up key => key.code + 0x80

def IsShift (scancode : Byte) : Prop :=
  scancode = leftShiftScancode ∨ scancode = rightShiftScancode

instance (scancode : Byte) : Decidable (IsShift scancode) :=
  inferInstanceAs (Decidable (_ ∨ _))

/-- The line with the state of the keys. -/
structure Editor where
  text : List Byte
  caps : Bool
  shift : Bool
  held : Finset Key

namespace Editor

/-- What a key does to the text; Enter and the modifiers do nothing. -/
def edit (e : Editor) (code : Byte) : List Byte :=
  if IsModifier code ∨ code = enterScancode then e.text
  else if code = backspaceScancode then e.text.dropLast
  else if code = tabScancode then
    e.text ++ List.replicate (min 4 (252 - e.text.length)) (charByte ' ')
  else
    match keyChar? e.caps e.shift code with
    | some char => if e.text.length < 255 then e.text ++ [char] else e.text
    | none => e.text

/-- One event. -/
def step (e : Editor) : KeyEvent → Editor
  | .down key =>
      { text := e.edit key.code
        caps := if key.code = capsLockScancode then !e.caps else e.caps
        shift := if IsShift key.code then true else e.shift
        held := insert key e.held }
  | .up key =>
      { e with
        shift :=
          if IsShift key.code then decide (∃ other ∈ e.held.erase key, IsShift other.code)
          else e.shift
        held := e.held.erase key }

/-- Keys are released before the next one goes down, apart from modifiers, and only one shift key
is down at a time. -/
def Allowed (e : Editor) : KeyEvent → Prop
  | .down key => key ∉ e.held ∧ (∀ other ∈ e.held, IsModifier other.code) ∧
      (IsShift key.code → ∀ other ∈ e.held, ¬ IsShift other.code)
  | .up key => key ∈ e.held

instance (e : Editor) : DecidablePred e.Allowed
  | .down _ => inferInstanceAs (Decidable (_ ∧ _ ∧ _))
  | .up _ => inferInstanceAs (Decidable (_ ∈ _))

/-- At most one shift key is down. -/
def OneShift (e : Editor) : Prop :=
  ∀ first ∈ e.held, ∀ second ∈ e.held, IsShift first.code → IsShift second.code → first = second

theorem step_oneShift {e : Editor} {event : KeyEvent} (one : e.OneShift)
    (allowed : e.Allowed event) :
    (e.step event).OneShift := by
  cases event with
  | down key =>
      obtain ⟨_, _, others⟩ := allowed
      intro first firstHeld second secondHeld firstShift secondShift
      rcases Finset.mem_insert.mp firstHeld with rfl | firstOld
      · rcases Finset.mem_insert.mp secondHeld with rfl | secondOld
        · rfl
        · exact absurd secondShift (others firstShift second secondOld)
      · rcases Finset.mem_insert.mp secondHeld with rfl | secondOld
        · exact absurd firstShift (others secondShift first firstOld)
        · exact one first firstOld second secondOld firstShift secondShift
  | up key =>
      intro first firstHeld second secondHeld
      exact one first (Finset.mem_of_mem_erase firstHeld) second
        (Finset.mem_of_mem_erase secondHeld)

/-- Releasing the shift key leaves no shift key down. -/
theorem step_up_shift {e : Editor} {key : Key} (one : e.OneShift) (held : key ∈ e.held)
    (isShift : IsShift key.code) : (e.step (.up key)).shift = false := by
  change (if IsShift key.code then decide (∃ other ∈ e.held.erase key, IsShift other.code)
    else e.shift) = false
  rw [if_pos isShift]
  apply decide_eq_false
  rintro ⟨other, member, otherShift⟩
  obtain ⟨different, otherHeld⟩ := Finset.mem_erase.mp member
  exact different (one other otherHeld key held otherShift isShift)

end Editor

end SimpleOS
