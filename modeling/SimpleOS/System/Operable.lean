import SimpleOS.Properties.EnterCooldown
import SimpleOS.System.Lines
import SimpleOS.System.Typing

/-!
# Everything the shell can do can be typed

For every list of printable lines there are key strokes that have the system
execute exactly these.  With the refinement the other way round, the states
that the system reaches are those that the shell reaches on such lines.
-/

namespace SimpleOS

open Library.ByteMemory Library.GuardedRun

/-! ## Strokes that write -/

namespace Editor

/-- Caps lock is off, and no key is down. -/
def plain (text : List Byte) : Editor := ⟨text, false, false, ∅⟩

/-- Strokes without Enter that take one line to another. -/
structure Writes (before : List Byte) (strokes : List Stroke) (after : List Byte) : Prop where
  typed : Along stroke Typed (plain before) strokes
  result : run stroke (plain before) strokes = plain after
  silent : ∀ stroke ∈ strokes, ¬ stroke.event.IsEnter

variable {before middle after : List Byte} {first second : List Stroke}

theorem Writes.append (writes : Writes before first middle) (rest : Writes middle second after) :
    Writes before (first ++ second) after := by
  refine ⟨?_, ?_, fun stroke member => ?_⟩
  · refine (along_append _ _ _).mpr ⟨writes.typed, ?_⟩
    rw [writes.result]
    exact rest.typed
  · rw [run_append, writes.result]
    exact rest.result
  · rcases List.mem_append.mp member with here | later
    · exact writes.silent stroke here
    · exact rest.silent stroke later

/-- The left shift key goes down, and up again. -/
theorem shift_down (text : List Byte) :
    (plain text).step (.down .leftShift) = ⟨text, false, true, {.leftShift}⟩ := rfl

theorem shift_up (text : List Byte) :
    step ⟨text, false, true, {.leftShift}⟩ (.up .leftShift) = plain text := rfl

theorem shift_allowed (text : List Byte) : (plain text).Allowed (.down .leftShift) :=
  ⟨Finset.notMem_empty _, fun _ none => absurd none (Finset.notMem_empty _),
    fun _ _ none => absurd none (Finset.notMem_empty _)⟩

/-- Shift goes down and up again, and is polled for as long as one likes. -/
def pause (polls : Nat) : List Stroke := [⟨.down .leftShift, 1⟩, ⟨.up .leftShift, polls + 1⟩]

theorem pause_writes (text : List Byte) (polls : Nat) : Writes text (pause polls) text := by
  refine ⟨⟨⟨shift_allowed text, ?_⟩, ⟨?_, ?_⟩, trivial⟩, ?_, ?_⟩
  · exact ⟨Nat.one_pos, show 1 ≤ 10001 by decide⟩
  · exact Finset.mem_insert_self _ _
  · exact ⟨Nat.succ_pos _, trivial⟩
  · change step (step (plain text) (.down .leftShift)) (.up .leftShift) = _
    rw [shift_down, shift_up]
  · intro stroke member
    rcases List.mem_pair.mp member with rfl | rfl
    · exact fun enter => absurd enter (by decide)
    · exact id

end Editor

/-! ## Every printable character has a key -/

/-- A key with a character of its own. -/
structure Key.Plain (key : Key) : Prop where
  notModifier : ¬ IsModifier key.code
  notEnter : key.code ≠ enterScancode
  notBackspace : key.code ≠ backspaceScancode
  notTab : key.code ≠ tabScancode

theorem printable_codes : ∀ number < 0x7F, 0x20 ≤ number → ∃ code < 0x80, 0 < code ∧
    ∃ shift, keyChar? false shift (BitVec.ofNat 8 code) = some (BitVec.ofNat 8 number) := by
  decide +kernel

/-- Keys with a character are plain. -/
theorem plain_of_char {key : Key} {shift : Bool} {char : Byte}
    (found : keyChar? false shift key.code = some char) : key.Plain := by
  have silent : ∀ code ∈ [leftShiftScancode, rightShiftScancode, leftCtrlScancode, leftAltScancode,
      capsLockScancode, enterScancode, backspaceScancode, tabScancode],
      ∀ shift, keyChar? false shift code = none := by decide
  have other : ∀ code ∈ [leftShiftScancode, rightShiftScancode, leftCtrlScancode, leftAltScancode,
      capsLockScancode, enterScancode, backspaceScancode, tabScancode], key.code ≠ code := by
    intro code member same
    rw [same, silent code member shift] at found
    cases found
  simp only [List.forall_mem_cons] at other
  obtain ⟨left, right, ctrl, alt, caps, enter, backspace, tab, _⟩ := other
  refine ⟨?_, enter, backspace, tab⟩
  rintro (same | same | same | same | same)
  · exact left same
  · exact right same
  · exact ctrl same
  · exact alt same
  · exact caps same

theorem key_of_printable {char : Byte} (printable : IsPrintable char) :
    ∃ key : Key, ∃ shift, keyChar? false shift key.code = some char := by
  obtain ⟨code, below, positive, shift, found⟩ :=
    printable_codes char.toNat printable.2 printable.1
  have number : (BitVec.ofNat 8 code).toNat = code := by
    rw [BitVec.toNat_ofNat, Nat.mod_eq_of_lt (by omega)]
  rw [BitVec.ofNat_toNat, BitVec.setWidth_eq] at found
  exact ⟨⟨BitVec.ofNat 8 code, by omega, by omega⟩, shift, found⟩

namespace Editor

/-- A key goes down and up. -/
def strike (key : Key) : List Stroke := [⟨.down key, 1⟩, ⟨.up key, 1⟩]

section Char

variable {key : Key} {char : Byte} {shift : Bool} {held : Finset Key} {text : List Byte}

/-- A plain key under modifiers only. -/
theorem strike_typed (plainKey : key.Plain) (fresh : key ∉ held)
    (modifiers : ∀ other ∈ held, IsModifier other.code)
    (found : keyChar? false shift key.code = some char) (room : text.length < 255) :
    Along stroke Typed ⟨text, false, shift, held⟩ (strike key) ∧
      run stroke ⟨text, false, shift, held⟩ (strike key) =
        ⟨text ++ [char], false, shift, held⟩ := by
  have notShift : ¬ IsShift key.code := by
    rintro (left | right)
    · exact plainKey.notModifier (Or.inl left)
    · exact plainKey.notModifier (Or.inr (Or.inl right))
  have notCaps : key.code ≠ capsLockScancode := fun same =>
    plainKey.notModifier (Or.inr (Or.inr (Or.inr (Or.inr same))))
  have edited : Editor.edit ⟨text, false, shift, held⟩ key.code = text ++ [char] := by
    have plain : ¬ (IsModifier key.code ∨ key.code = enterScancode) :=
      not_or.mpr ⟨plainKey.notModifier, plainKey.notEnter⟩
    simp only [edit, if_neg plain, if_neg plainKey.notBackspace, if_neg plainKey.notTab, found,
      if_pos room]
  have down : Editor.step ⟨text, false, shift, held⟩ (.down key) =
      ⟨text ++ [char], false, shift, insert key held⟩ := by
    simp only [step, edited, if_neg notCaps, if_neg notShift]
  have up : Editor.step ⟨text ++ [char], false, shift, insert key held⟩ (.up key) =
      ⟨text ++ [char], false, shift, held⟩ := by
    simp only [step, if_neg notShift, Finset.erase_insert fresh]
  constructor
  · refine ⟨⟨⟨fresh, modifiers, fun isShift => absurd isShift notShift⟩, Nat.one_pos, ?_⟩, ?_⟩
    · exact show 1 ≤ 10001 by decide
    · change Typed (Editor.step _ (.down key)) _ ∧ True
      rw [down]
      exact ⟨⟨Finset.mem_insert_self key held, Nat.one_pos, trivial⟩, trivial⟩
  · change Editor.step (Editor.step _ (.down key)) (.up key) = _
    rw [down, up]

/-- Every printable character can be added to a line with room. -/
theorem char_written (printable : IsPrintable char) (room : text.length < 255) :
    ∃ strokes, Writes text strokes (text ++ [char]) := by
  obtain ⟨key, shift, found⟩ := key_of_printable printable
  have plainKey := plain_of_char found
  have silent : ∀ stroke ∈ strike key, ¬ stroke.event.IsEnter := by
    intro stroke member
    rcases List.mem_pair.mp member with rfl | rfl
    · exact plainKey.notEnter
    · exact id
  cases shift with
  | false =>
      obtain ⟨typed, result⟩ := strike_typed plainKey (Finset.notMem_empty key)
        (fun _ none => absurd none (Finset.notMem_empty _)) found room
      exact ⟨strike key, typed, result, silent⟩
  | true =>
      have shifted : ∀ other ∈ ({.leftShift} : Finset Key), IsModifier other.code := by
        intro other member
        rw [Finset.mem_singleton.mp member]
        exact Or.inl rfl
      have fresh : key ∉ ({.leftShift} : Finset Key) := by
        intro member
        exact plainKey.notModifier (shifted key member)
      obtain ⟨typed, result⟩ := strike_typed plainKey fresh shifted found room
      refine ⟨⟨.down .leftShift, 1⟩ :: (strike key ++ [⟨.up .leftShift, 1⟩]), ?_, ?_, ?_⟩
      · refine ⟨⟨shift_allowed text, Nat.one_pos, show 1 ≤ 10001 by decide⟩, ?_⟩
        change Along stroke Typed (step (plain text) (.down .leftShift)) _
        rw [shift_down]
        refine (along_append _ _ _).mpr ⟨typed, ?_⟩
        rw [result]
        exact ⟨⟨Finset.mem_singleton_self _, Nat.one_pos, trivial⟩, trivial⟩
      · change run stroke (step (plain text) (.down .leftShift)) _ = _
        rw [shift_down, run_append, result]
        exact shift_up (text ++ [char])
      · intro stroke member
        rcases List.mem_cons.mp member with rfl | later
        · exact fun enter => absurd enter (by decide)
        · rcases List.mem_append.mp later with middle | last
          · exact silent stroke middle
          · rw [List.mem_singleton.mp last]
            exact id

end Char

/-- And so can every line. -/
theorem text_written {text : List Byte} (printable : ∀ char ∈ text, IsPrintable char)
    (before : List Byte) (room : (before ++ text).length ≤ 255) :
    ∃ strokes, Writes before strokes (before ++ text) := by
  induction text generalizing before with
  | nil =>
      rw [List.append_nil]
      exact ⟨[], trivial, rfl, fun _ member => nomatch member⟩
  | cons char rest ih =>
      have count : (before ++ char :: rest).length = before.length + rest.length + 1 := by
        rw [List.length_append, List.length_cons]
        rfl
      obtain ⟨first, writes⟩ :=
        char_written (printable char List.mem_cons_self) (show before.length < 255 by omega)
      have split : before ++ char :: rest = (before ++ [char]) ++ rest := by
        rw [List.append_assoc, List.singleton_append]
      obtain ⟨second, more⟩ :=
        ih (fun other member => printable other (List.mem_cons_of_mem char member))
          (before ++ [char]) (split ▸ room)
      exact ⟨first ++ second, split ▸ writes.append more⟩

end Editor

/-! ## Waiting for Enter -/

namespace Session

variable {s : Session}

/-- While a driver polls, each byte takes one off the cooldown. -/
theorem run_cooldown {bytes : List Byte} (lower : 0 ≤ s.keyboard.enterCooldown)
    (polling : (run feed s bytes).phase = .polling) :
    (run feed s bytes).keyboard.enterCooldown =
      max 0 (s.keyboard.enterCooldown - bytes.length) := by
  induction bytes generalizing s with
  | nil =>
      change s.keyboard.enterCooldown = max 0 (s.keyboard.enterCooldown - (0 : Nat))
      omega
  | cons byte rest ih =>
      have here : s.phase = .polling := by
        by_contra running
        exact run_not_polling running (byte :: rest) polling
      have fed : (s.feed byte).keyboard = (s.keyboard.poll byte).keyboard := by
        simp only [feed, here]
      have cooled : (s.feed byte).keyboard.enterCooldown =
          max 0 (s.keyboard.enterCooldown - 1) := by
        rw [fed, KeyboardState.poll_cooldown, KeyboardState.cool_cooldown]
        split <;> omega
      have later := ih (s := s.feed byte) (by omega) polling
      rw [cooled] at later
      refine later.trans ?_
      rw [List.length_cons]
      omega

/-- After enough bytes Enter is accepted. -/
theorem waited (begun : s.Begun) {bytes : List Byte} (enough : enterCooldownCycles ≤ bytes.length)
    (polling : (run feed s bytes).phase = .polling) : (run feed s bytes).FindsCooldownOver := by
  have cooldown := run_cooldown begun.cooling.1 polling
  have upper := begun.cooling.2
  have zero : (run feed s bytes).keyboard.enterCooldown = 0 := by omega
  rw [FindsCooldownOver, KeyboardState.cool_cooldown, zero]
  rfl

end Session

/-! ## Every line can be typed -/

/-- An entry of the shell, typed with these strokes after the cooldown has been waited out. -/
def typedWith (strokes : List Stroke) (entry : Input × CString) : TypedLine where
  held := ∅
  strokes := Editor.pause 5000 ++ strokes
  first := 0
  second := 0
  third := entry.1.byte
  before := entry.1.before
  saved := entry.1.saved

namespace Session

variable {s : Session} {strokes : List Stroke} {entry : Input × CString}

theorem typedWith_edited (writes : Editor.Writes [] strokes entry.2) :
    (typedWith strokes entry).edited ⟨false, false⟩ = Editor.plain entry.2 :=
  ((Editor.pause_writes [] 5000).append writes).result

theorem typedWith_types (begun : s.Begun) (unlocked : s.keyboard.locks = ⟨false, false⟩)
    (writes : Editor.Writes [] strokes entry.2) : s.Types (typedWith strokes entry) := by
  have all := (Editor.pause_writes [] 5000).append writes
  have caps : s.keyboard.capsLockOn = false := congrArg Locks.caps unlocked
  have shift : s.keyboard.shiftPressed = false := congrArg Locks.shift unlocked
  have start : Editor.start s.keyboard ∅ = Editor.plain [] := by
    rw [Editor.start, caps, shift]
    rfl
  have one : (Editor.start s.keyboard ∅).OneShift :=
    fun _ none => absurd none (Finset.notMem_empty _)
  have typed : Along Editor.stroke Editor.Typed (.start s.keyboard ∅)
      (typedWith strokes entry).strokes := start ▸ all.typed
  have silent : Along stroke (fun _ stroke => ¬ stroke.event.IsEnter) s
      (typedWith strokes entry).strokes := along_of_forall s all.silent
  have goesOn : Along stroke GoesOn s (typedWith strokes entry).strokes :=
    silent.imp fun _ _ other enter => absurd enter other
  refine ⟨one, typed, goesOn, ?_, ?_⟩
  · rw [unlocked, typedWith_edited writes]
    exact ⟨Finset.notMem_empty _, fun _ none => absurd none (Finset.notMem_empty _),
      fun _ _ none => absurd none (Finset.notMem_empty _)⟩
  · have keyboard : ({ s.keyboard with bufferPos := 0 } : KeyboardState) = s.keyboard := by
      rw [← begun.bufferPos]
    obtain ⟨polling, _⟩ := strokes_edit _ begun.phase
      (keyboard ▸ start_edits begun.heldKey begun.heldKeyChar begun.lastScancode ∅) one typed
      goesOn
    rw [run_strokes] at polling ⊢
    refine waited begun ?_ polling
    rw [typedWith, List.flatMap_append, List.length_append]
    have pause : ((Editor.pause 5000).flatMap Stroke.bytes).length = 5002 := by
      simp only [Editor.pause, Stroke.bytes, List.flatMap_cons, List.flatMap_nil,
        List.length_append, List.length_replicate, List.length_nil]
    rw [pause, enterCooldownCycles]
    omega

/-- For every list of entries there are lines that are read as these. -/
theorem entries_typed (begun : s.Begun) (unlocked : s.keyboard.locks = ⟨false, false⟩)
    {entries : List (Input × CString)} (typable : ∀ entry ∈ entries, Typable entry.2) :
    ∃ lines : List TypedLine, linesRead s (lines.flatMap TypedLine.inputs) = entries := by
  induction entries generalizing s with
  | nil => exact ⟨[], rfl⟩
  | cons entry rest ih =>
      obtain ⟨room, printable⟩ := typable entry List.mem_cons_self
      obtain ⟨strokes, writes⟩ := Editor.text_written printable [] room
      obtain ⟨next, locks, read⟩ := type_reads begun (typedWith_types begun unlocked writes)
      rw [unlocked, typedWith_edited writes] at locks
      obtain ⟨lines, later⟩ :=
        ih next locks fun other member => typable other (List.mem_cons_of_mem entry member)
      refine ⟨typedWith strokes entry :: lines, ?_⟩
      have bytes : (typedWith strokes entry).inputs.map Input.byte =
          (typedWith strokes entry).bytes := by
        rw [TypedLine.inputs, List.map_map]
        exact List.map_id _
      rw [List.flatMap_cons, linesRead_append, read, bytes, TypedLine.entry, unlocked,
        typedWith_edited writes]
      exact congrArg (entry :: ·) later

end Session

namespace System

/-- After any entries that leave somebody waiting for a line, any line can be the next. -/
theorem line_awaited (image : Image) (keyboard : KeyboardState)
    {entries : List (Input × CString)} {last : Input × CString}
    (typable : ∀ entry ∈ entries ++ [last], Typable entry.2)
    (waits : (run (Shell.step image) ⟨.boot image, .shell⟩ entries).mode = .shell ∨
      (run (Shell.step image) ⟨.boot image, .shell⟩ entries).mode = .keytest) :
    ∃ inputs, (run (step image) (boot image keyboard) inputs).shell =
        run (Shell.step image) ⟨.boot image, .shell⟩ entries ∧
      (run (step image) (boot image keyboard) inputs).line? last.1 = some last.2 := by
  obtain ⟨lines, read⟩ := Session.entries_typed (Session.init_begun keyboard) rfl typable
  obtain ⟨inputs, others, next⟩ := linesRead_last read
  have shell := run_shell (boot_sound image keyboard) (fun _ => boot_reads image keyboard) inputs
  rw [others] at shell
  have mode : (run (step image) (boot image keyboard) inputs).mode =
      (run (Shell.step image) ⟨.boot image, .shell⟩ entries).mode := congrArg Shell.mode shell
  rw [← mode] at waits
  refine ⟨inputs, shell, ?_⟩
  rw [line?_eq waits
    (run_reads (boot_sound image keyboard) (fun _ => boot_reads image keyboard) inputs waits)]
  exact next

/-- The system reaches exactly what the shell reaches on printable lines of at most 255 characters:
nothing else can be typed, and all of it can. -/
theorem reaches_iff_shell (image : Image) (keyboard : KeyboardState) (target : Shell) :
    (∃ inputs, (run (step image) (boot image keyboard) inputs).shell = target) ↔
      ∃ entries : List (Input × CString), (∀ entry ∈ entries, Typable entry.2) ∧
        run (Shell.step image) ⟨.boot image, .shell⟩ entries = target := by
  have same := run_shell (boot_sound image keyboard) (fun _ => boot_reads image keyboard)
  constructor
  · rintro ⟨inputs, rfl⟩
    exact ⟨_, Session.linesRead_typable (Session.init_reading keyboard) inputs,
      (same inputs).symm⟩
  · rintro ⟨entries, typable, rfl⟩
    obtain ⟨lines, read⟩ := Session.entries_typed (Session.init_begun keyboard) rfl typable
    refine ⟨lines.flatMap TypedLine.inputs, ?_⟩
    rw [same, read]
    rfl

end System

end SimpleOS
