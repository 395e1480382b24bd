import SimpleOS.Drivers.LineEditor

/-!
# The keys behind the scancodes

A physical keyboard that the driver polls: which keys are down, which was
pressed last, and what byte each event sends.  Of the driver only the part
that follows the keys matters here: the two scancodes it remembers and the
four modifier flags.
-/

namespace SimpleOS

open Library.ByteMemory

/-! ## The driver's view of the keys -/

inductive Modifier where
  | shift
  | ctrl
  | alt
  | capsLock
  deriving DecidableEq

/-- The modifier whose flag a scancode changes. -/
def modifier? (code : Byte) : Option Modifier :=
  if code = leftShiftScancode ∨ code = rightShiftScancode then some .shift
  else if code = leftCtrlScancode then some .ctrl
  else if code = leftAltScancode then some .alt
  else if code = capsLockScancode then some .capsLock
  else none

/-- The part of the driver's state that follows the keys. -/
structure KeyFlags where
  lastScancode : Byte
  heldKey : Byte
  flag : Modifier → Bool

namespace KeyFlags

/-- The flags after a press of a key with that modifier. -/
def pressFlag (flag : Modifier → Bool) : Option Modifier → Modifier → Bool
  | none => flag
  | some .capsLock => Function.update flag .capsLock (!flag .capsLock)
  | some modifier => Function.update flag modifier true

/-- The flags after its release. -/
def releaseFlag (flag : Modifier → Bool) : Option Modifier → Modifier → Bool
  | none => flag
  | some .capsLock => flag
  | some modifier => Function.update flag modifier false

/-- A scancode that is new to the driver. -/
def press (k : KeyFlags) (code : Byte) : KeyFlags where
  lastScancode := code
  heldKey := if IsModifier code then k.heldKey else code
  flag := pressFlag k.flag (modifier? code)

def release (k : KeyFlags) (code : Byte) : KeyFlags where
  lastScancode := 0
  heldKey := if code = k.heldKey then 0 else k.heldKey
  flag := releaseFlag k.flag (modifier? code)

/-- One round of the loop. -/
def poll (k : KeyFlags) (scancode : Byte) : KeyFlags :=
  if scancode ≥ 0x80 then k.release (scancode - 0x80)
  else if scancode > 0 then
    if scancode = k.heldKey ∧ k.heldKey ≠ 0 then k
    else if scancode ≠ k.lastScancode then k.press scancode
    else k
  else k

section Rules

variable (flag : Modifier → Bool) (k : KeyFlags)

theorem pressFlag_apply (pressed : Option Modifier) (modifier : Modifier) :
    pressFlag flag pressed modifier =
      if pressed = some modifier then
        if modifier = .capsLock then !flag modifier else true
      else flag modifier := by
  cases pressed with
  | none => rfl
  | some pressed => cases pressed <;> cases modifier <;> rfl

theorem releaseFlag_apply (released : Option Modifier) (modifier : Modifier) :
    releaseFlag flag released modifier =
      if released = some modifier ∧ modifier ≠ .capsLock then false else flag modifier := by
  cases released with
  | none => rfl
  | some released => cases released <;> cases modifier <;> rfl

/-- A press leaves the flags alone if it is none, or sets a flag that is set. -/
theorem pressFlag_eq_iff (pressed : Option Modifier) :
    pressFlag flag pressed = flag ↔
      ∀ modifier, pressed = some modifier → modifier ≠ .capsLock ∧ flag modifier = true := by
  constructor
  · rintro same modifier rfl
    have here := congrFun same modifier
    rw [pressFlag_apply, if_pos rfl] at here
    split at here
    · exact absurd here (Bool.not_ne_self _)
    · next other => exact ⟨other, here.symm⟩
  · intro fixed
    funext modifier
    rw [pressFlag_apply]
    split
    · next pressed =>
      obtain ⟨other, set⟩ := fixed modifier pressed
      rw [if_neg other, set]
    · rfl

/-- A release does if it is none, or clears a flag that is clear. -/
theorem releaseFlag_eq_iff (released : Option Modifier) :
    releaseFlag flag released = flag ↔
      ∀ modifier, released = some modifier → modifier ≠ .capsLock → flag modifier = false := by
  constructor
  · rintro same modifier rfl other
    have here := congrFun same modifier
    rw [releaseFlag_apply, if_pos ⟨rfl, other⟩] at here
    exact here.symm
  · intro fixed
    funext modifier
    rw [releaseFlag_apply]
    split
    · next released => exact (fixed modifier released.1 released.2).symm
    · rfl

theorem poll_idle : k.poll 0 = k := by
  simp [poll]

theorem poll_release {scancode : Byte} (released : scancode ≥ 0x80) :
    k.poll scancode = k.release (scancode - 0x80) := if_pos released

theorem poll_escape : k.poll 0xE0 = k.release 0x60 := k.poll_release (by decide)

theorem poll_up (key : Key) : k.poll (key.code + 0x80) = k.release key.code := by
  rw [poll_release k key.released, BitVec.add_sub_cancel]

theorem poll_down (key : Key) :
    k.poll key.code =
      if key.code = k.heldKey ∨ key.code = k.lastScancode then k else k.press key.code := by
  have nonzero := key.code_ne_zero
  rw [poll, if_neg key.not_release, if_pos key.pressed]
  by_cases held : key.code = k.heldKey
  · rw [if_pos ⟨held, held ▸ nonzero⟩, if_pos (Or.inl held)]
  · rw [if_neg fun both => held both.1]
    by_cases seen : key.code = k.lastScancode
    · rw [if_neg (not_not.mpr seen), if_pos (Or.inr seen)]
    · rw [if_pos seen, if_neg (not_or.mpr ⟨held, seen⟩)]

end Rules

end KeyFlags

namespace KeyboardState

def flag (s : KeyboardState) : Modifier → Bool
  | .shift => s.shiftPressed
  | .ctrl => s.ctrlPressed
  | .alt => s.altPressed
  | .capsLock => s.capsLockOn

def keyFlags (s : KeyboardState) : KeyFlags where
  lastScancode := s.lastScancode
  heldKey := s.heldKey
  flag := s.flag

theorem updateModifiers_pressFlag (s : KeyboardState) (code : Byte) :
    (s.updateModifiers code false).flag = KeyFlags.pressFlag s.flag (modifier? code) := by
  have notReleased : ¬ (false = true) := by decide
  funext modifier
  simp only [updateModifiers, if_neg notReleased, modifier?]
  split
  · cases modifier <;> rfl
  · split
    · cases modifier <;> rfl
    · split
      · cases modifier <;> rfl
      · split <;> cases modifier <;> rfl

theorem updateModifiers_releaseFlag (s : KeyboardState) (code : Byte) :
    (s.updateModifiers code true).flag = KeyFlags.releaseFlag s.flag (modifier? code) := by
  funext modifier
  simp only [updateModifiers, if_true, modifier?]
  split
  · cases modifier <;> rfl
  · split
    · cases modifier <;> rfl
    · split
      · cases modifier <;> rfl
      · split <;> cases modifier <;> rfl

/-- The modifiers are no part of what else a key does. -/
theorem updateModifiers_codes (s : KeyboardState) (code : Byte) (released : Bool) :
    (s.updateModifiers code released).lastScancode = s.lastScancode ∧
      (s.updateModifiers code released).heldKey = s.heldKey := by
  unfold updateModifiers
  repeat' split
  all_goals exact ⟨rfl, rfl⟩

@[simp] theorem cool_keyFlags (s : KeyboardState) : s.cool.keyFlags = s.keyFlags := by
  unfold cool
  split <;> rfl

@[simp] theorem eraseChar_keyFlags (p : Poll) :
    p.eraseChar.keyboard.keyFlags = p.keyboard.keyFlags := by
  unfold Poll.eraseChar
  split <;> rfl

@[simp] theorem tabLoop_keyFlags (left : Nat) (p : Poll) :
    (p.tabLoop left).keyboard.keyFlags = p.keyboard.keyFlags := by
  induction left generalizing p with
  | zero => rfl
  | succ left ih =>
      rw [Poll.tabLoop]
      split
      · exact ih (p.typeChar (charByte ' '))
      · rfl

@[simp] theorem repeatKey_keyFlags (s : KeyboardState) :
    s.repeatKey.keyboard.keyFlags = s.keyFlags := by
  unfold repeatKey
  dsimp only
  split
  · exact eraseChar_keyFlags (Poll.hideCursor { keyboard := s })
  · split <;> rfl

@[simp] theorem hold_keyFlags (s : KeyboardState) : s.hold.keyboard.keyFlags = s.keyFlags := by
  unfold hold
  dsimp only
  split
  · rfl
  · split
    · exact repeatKey_keyFlags _
    · rfl

@[simp] theorem idle_keyFlags (s : KeyboardState) : s.idle.keyboard.keyFlags = s.keyFlags := by
  unfold idle
  split
  · dsimp only
    split
    · rfl
    · exact repeatKey_keyFlags _
  · rfl

theorem release_keyFlags (s : KeyboardState) (code : Byte) :
    (s.release code).keyFlags = s.keyFlags.release code := by
  have flags := s.updateModifiers_releaseFlag code
  have held := (s.updateModifiers_codes code true).2
  have released : (s.release code).flag = (s.updateModifiers code true).flag := by
    unfold release
    dsimp only
    split <;> rfl
  have forgotten : (s.release code).heldKey = if code = s.heldKey then 0 else s.heldKey := by
    unfold release
    dsimp only
    rw [held]
    split
    · rfl
    · exact held
  rw [keyFlags, released, flags, forgotten]
  rfl

theorem pressEnter_keyFlags (p : Poll) :
    (pressEnter p).keyboard.keyFlags = p.keyboard.keyFlags := by
  unfold pressEnter
  split <;> rfl

theorem pressChar_keyFlags (p : Poll) (scancode : Byte) :
    (pressChar p scancode).keyboard.keyFlags = p.keyboard.keyFlags := by
  unfold pressChar
  dsimp only
  split <;> rfl

theorem press_keyFlags (s : KeyboardState) (code : Byte) :
    (s.press code).keyboard.keyFlags = s.keyFlags.press code := by
  have flags := updateModifiers_pressFlag { s with lastScancode := code } code
  obtain ⟨last, held⟩ := updateModifiers_codes { s with lastScancode := code } code false
  unfold press
  dsimp only
  generalize updateModifiers { s with lastScancode := code } code false = t at flags last held
  by_cases isModifier : IsModifier code
  · rw [if_pos isModifier]
    change t.keyFlags = _
    rw [keyFlags, last, held, flags, KeyFlags.press, if_pos isModifier]
    rfl
  · have pressed : KeyboardState.keyFlags { t with
        heldKey := code, keyHoldTime := 0, repeatDelay := keyRepeatInitialDelay } =
          s.keyFlags.press code := by
      change KeyFlags.mk t.lastScancode code t.flag = _
      rw [last, flags, KeyFlags.press, if_neg isModifier]
      rfl
    rw [if_neg isModifier]
    split
    · exact (pressEnter_keyFlags _).trans pressed
    · split
      · exact (eraseChar_keyFlags _).trans pressed
      · split
        · exact (tabLoop_keyFlags 4 _).trans pressed
        · exact (pressChar_keyFlags _ code).trans pressed

/-- A round of the loop follows the keys as the flags alone would. -/
theorem poll_keyFlags (s : KeyboardState) (scancode : Byte) :
    (s.poll scancode).keyboard.keyFlags = s.keyFlags.poll scancode := by
  have cooled := s.cool_keyFlags
  have held : s.cool.heldKey = s.heldKey := congrArg KeyFlags.heldKey cooled
  have last : s.cool.lastScancode = s.lastScancode := congrArg KeyFlags.lastScancode cooled
  unfold poll KeyFlags.poll
  dsimp only
  rw [held, last]
  split
  · rw [release_keyFlags, cooled]
  · split
    · change _ = if scancode = s.heldKey ∧ s.heldKey ≠ 0 then _ else _
      split
      · rw [hold_keyFlags, cooled]
      · change _ = if scancode ≠ s.lastScancode then _ else _
        split
        · rw [press_keyFlags, cooled]
        · exact cooled
    · rw [idle_keyFlags, cooled]

end KeyboardState

/-! ## The physical keyboard -/

/-- A key; an extended one sends its code behind an escape byte. -/
structure PhysicalKey where
  key : Key
  extended : Bool
  deriving DecidableEq

namespace PhysicalKey

/-- The key with one byte of its own. -/
def Is (k : PhysicalKey) (code : Byte) : Prop := k.extended = false ∧ k.key.code = code

instance (k : PhysicalKey) (code : Byte) : Decidable (k.Is code) :=
  inferInstanceAs (Decidable (_ ∧ _))

/-- The modifier that the key is; the right Ctrl and Alt keys are extended and no such modifiers. -/
def modifier? (k : PhysicalKey) : Option Modifier :=
  if k.extended then none else SimpleOS.modifier? k.key.code

end PhysicalKey

/-- What can happen between two polls: nothing, when the port returns zero or its last byte once
more, an escape byte, or an event of a key. -/
inductive PhysicalEvent where
  | idle
  | stale
  | escape
  | down (key : PhysicalKey)
  | again (key : PhysicalKey)
  | up (key : PhysicalKey)

def escapeByte : Byte := 0xE0

/-- The keyboard and the driver that polls it; `port` is the last byte read. -/
structure PhysicalKeyboard where
  session : Session
  port : Byte
  held : Finset PhysicalKey
  recent : Option PhysicalKey
  capsPresses : Nat

namespace PhysicalKeyboard

/-- After `keyboard_init`, with no key down. -/
def start (s : KeyboardState) : PhysicalKeyboard where
  session := .init s
  port := 0
  held := ∅
  recent := none
  capsPresses := 0

/-- Keys go down and up in turn; only the key pressed last repeats, while it is down. -/
def Possible (w : PhysicalKeyboard) : PhysicalEvent → Prop
  | .idle => True
  | .stale => True
  | .escape => True
  | .down key => key ∉ w.held
  | .again key => key ∈ w.held ∧ w.recent = some key
  | .up key => key ∈ w.held

instance (w : PhysicalKeyboard) : DecidablePred w.Possible
  | .idle => inferInstanceAs (Decidable True)
  | .stale => inferInstanceAs (Decidable True)
  | .escape => inferInstanceAs (Decidable True)
  | .down _ => inferInstanceAs (Decidable (_ ∉ _))
  | .again _ => inferInstanceAs (Decidable (_ ∧ _))
  | .up _ => inferInstanceAs (Decidable (_ ∈ _))

/-- The keys after an event. -/
def move (w : PhysicalKeyboard) : PhysicalEvent → PhysicalKeyboard
  | .idle => w
  | .stale => w
  | .escape => w
  | .down key =>
      { w with
        held := insert key w.held
        recent := some key
        capsPresses := if key.Is capsLockScancode then w.capsPresses + 1 else w.capsPresses }
  | .again _ => w
  | .up key => { w with held := w.held.erase key }

/-- The byte the next poll returns. -/
def byte (w : PhysicalKeyboard) : PhysicalEvent → Byte
  | .idle => 0
  | .stale => w.port
  | .escape => escapeByte
  | .down key => key.key.code
  | .again key => key.key.code
  | .up key => key.key.code + 0x80

/-- A byte is polled; `keyboard_get_input` is called again when it has returned. -/
def poll (w : PhysicalKeyboard) (byte : Byte) : PhysicalKeyboard :=
  { w with
    session := w.session.call.feed byte
    port := byte }

/-- An event happens, if it can, and its byte is polled. -/
def step (w : PhysicalKeyboard) (event : PhysicalEvent) : PhysicalKeyboard :=
  if w.Possible event then (w.move event).poll (w.byte event) else w

end PhysicalKeyboard

end SimpleOS
