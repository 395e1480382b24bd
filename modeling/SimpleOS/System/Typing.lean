import SimpleOS.Properties.LineEditing
import SimpleOS.System.Shell

/-!
# Typing at the shell

Lines that somebody types, key by key, on top of the shell: what the running
system does to the kernel is what the shell does with the texts the line editor
holds when Enter is struck.
-/

namespace SimpleOS

open Library.ByteMemory Library.GuardedRun

/-- What is typed for a line: the keys that are down before, the strokes, Enter, and the three bytes
the driver drains; and what the command would find on the stack and in the registers. -/
structure TypedLine where
  held : Finset Key
  strokes : List Stroke
  first : Byte
  second : Byte
  third : Byte
  before : ArgumentBuffer → Nat → Byte
  saved : CpuState

/-- The state of caps lock and shift. -/
structure Locks where
  caps : Bool
  shift : Bool
  deriving DecidableEq

def Editor.locks (e : Editor) : Locks := ⟨e.caps, e.shift⟩

def KeyboardState.locks (s : KeyboardState) : Locks := ⟨s.capsLockOn, s.shiftPressed⟩

namespace TypedLine

variable (line : TypedLine)

/-- The bytes of the port. -/
def bytes : List Byte :=
  line.strokes.flatMap Stroke.bytes ++ [enterScancode, line.first, line.second, line.third]

def input (byte : Byte) : Input := ⟨byte, line.before, line.saved⟩

/-- What the system is fed with. -/
def inputs : List Input := line.bytes.map line.input

/-- The editor when Enter is struck. -/
def edited (locks : Locks) : Editor :=
  run Editor.stroke { text := [], caps := locks.caps, shift := locks.shift, held := line.held }
    line.strokes

/-- What the shell is to execute. -/
def entry (locks : Locks) : Input × CString := (line.input line.third, (line.edited locks).text)

end TypedLine

theorem enterCooldownCycles_nonneg : 0 ≤ enterCooldownCycles := by decide

/-- The entries of the shell for lines typed one after the other. -/
def typedEntries : Locks → List TypedLine → List (Input × CString)
  | _, [] => []
  | locks, line :: rest => line.entry locks :: typedEntries (line.edited locks).locks rest

namespace Session

/-- The driver by itself on a line. -/
def type (s : Session) (line : TypedLine) : Session := run read s line.bytes

/-- Somebody types the line as the line editor wants it, and Enter is struck when it has cooled
down. -/
structure Types (s : Session) (line : TypedLine) : Prop where
  one : (Editor.start s.keyboard line.held).OneShift
  typed : Along Editor.stroke Editor.Typed (.start s.keyboard line.held) line.strokes
  goesOn : Along stroke GoesOn s line.strokes
  enter : (line.edited s.keyboard.locks).Allowed (.down Key.enter)
  cooled : (run stroke s line.strokes).FindsCooldownOver

/-- A line has just been begun, no key is taken for one seen before, and Enter has at most the whole
cooldown left. -/
structure Begun (s : Session) : Prop where
  phase : s.phase = .polling
  bufferPos : s.keyboard.bufferPos = 0
  heldKey : s.keyboard.heldKey = 0
  heldKeyChar : s.keyboard.heldKeyChar = 0
  lastScancode : s.keyboard.lastScancode = 0
  cooling : 0 ≤ s.keyboard.enterCooldown ∧ s.keyboard.enterCooldown ≤ enterCooldownCycles

/-! ## While a line is typed the driver does not return -/

theorem feed_not_polling {s : Session} (running : s.phase ≠ .polling) (byte : Byte) :
    (s.feed byte).phase ≠ .polling := by
  unfold feed
  split
  · next polling => exact absurd polling running
  · exact fun same => nomatch same
  · exact fun same => nomatch same
  · exact running

theorem run_not_polling {s : Session} (running : s.phase ≠ .polling) (bytes : List Byte) :
    (run feed s bytes).phase ≠ .polling := by
  induction bytes generalizing s with
  | nil => exact running
  | cons byte rest ih => exact ih (feed_not_polling running byte)

/-- A driver that still polls has returned nothing. -/
theorem read_polling {s : Session} (input : Byte → Input) (same : ∀ byte, (input byte).byte = byte)
    {bytes : List Byte} (polling : (run feed s bytes).phase = .polling) :
    run read s bytes = run feed s bytes ∧ linesRead s (bytes.map input) = [] := by
  induction bytes generalizing s with
  | nil => exact ⟨rfl, rfl⟩
  | cons byte rest ih =>
      have here : (s.feed byte).phase = .polling := by
        by_contra running
        exact run_not_polling running rest polling
      have goesOn : (s.feed byte).phase ≠ .returned := by
        rw [here]
        exact fun same => nomatch same
      obtain ⟨reads, nothing⟩ := ih polling
      have reading : s.read byte = s.feed byte := if_neg goesOn
      refine ⟨?_, ?_⟩
      · rw [run, reading]
        exact reads
      · rw [List.map_cons, linesRead, same, reading, nothing, line?, if_neg goesOn]
        rfl

/-- Strokes are runs of their bytes. -/
theorem run_strokes (s : Session) (strokes : List Stroke) :
    run stroke s strokes = run feed s (strokes.flatMap Stroke.bytes) := by
  induction strokes generalizing s with
  | nil => rfl
  | cons stroke rest ih =>
      rw [List.flatMap_cons, run_append]
      exact ih _

end Session

theorem linesRead_append (s : Session) (first second : List Input) :
    linesRead s (first ++ second) =
      linesRead s first ++
        linesRead (run Session.read s (first.map Input.byte)) second := by
  induction first generalizing s with
  | nil => rfl
  | cons input rest ih =>
      rw [List.cons_append, linesRead, linesRead, ih, List.append_assoc]
      rfl

/-- The last of several lines ends with one input, and the others are read before it. -/
theorem linesRead_last {s : Session} {inputs : List Input} {front : List (Input × CString)}
    {last : Input × CString} (read : linesRead s inputs = front ++ [last]) :
    ∃ before, linesRead s before = front ∧
      (run Session.read s (before.map Input.byte)).line? last.1.byte = some last.2 := by
  induction inputs generalizing s front with
  | nil =>
      have lengths := congrArg List.length read
      rw [List.length_append] at lengths
      exact absurd lengths (Nat.succ_ne_zero _).symm
  | cons input rest ih =>
      rw [linesRead] at read
      cases here : s.line? input.byte with
      | none =>
          rw [here] at read
          obtain ⟨before, lines, next⟩ := ih read
          refine ⟨input :: before, ?_, next⟩
          rw [linesRead, here]
          exact lines
      | some line =>
          rw [here] at read
          cases front with
          | nil =>
              obtain ⟨same, _⟩ := List.cons.inj read
              subst same
              exact ⟨[], rfl, here⟩
          | cons first front =>
              obtain ⟨same, later⟩ := List.cons.inj read
              obtain ⟨before, lines, next⟩ := ih later
              refine ⟨input :: before, ?_, next⟩
              rw [linesRead, here, lines, ← same]
              rfl

/-! ## The end of a line -/

namespace KeyboardState

/-- The Enter that ends a line leaves the character of the held key, caps lock and shift alone. -/
theorem enter_poll_keys {k : KeyboardState} (entered : (k.poll enterScancode).entered = true) :
    (k.poll enterScancode).keyboard.heldKeyChar = k.heldKeyChar ∧
      (k.poll enterScancode).keyboard.locks = k.locks := by
  have cool : k.cool.heldKeyChar = k.heldKeyChar ∧ k.cool.locks = k.locks := by
    unfold cool
    split <;> exact ⟨rfl, rfl⟩
  generalize taken : k.poll enterScancode = round at entered ⊢
  cases taken ▸ k.poll_round enterScancode with
  | release _ _ => cases entered
  | hold _ _ _ _ =>
      rw [hold_entered] at entered
      cases entered
  | press _ _ =>
      have key : ¬ IsModifier enterScancode := by decide
      generalize struck : k.cool.press enterScancode = press at entered ⊢
      cases struck ▸ k.cool.press_keyPress key with
      | accepted _ _ => exact cool
      | ignored _ _ => exact cool
      | backspace notEnter _ => exact absurd rfl notEnter
      | tab notEnter _ _ => exact absurd rfl notEnter
      | char notEnter _ _ => exact absurd rfl notEnter
  | seen _ _ => cases entered
  | idle _ _ =>
      rw [idle_entered] at entered
      cases entered

end KeyboardState

namespace Session

variable {s : Session}

/-- Enter and the three bytes drained: the line is returned, and the next one is begun. -/
theorem enter_read (input : Byte → Input) (same : ∀ byte, (input byte).byte = byte)
    (polling : s.phase = .polling) (entered : (s.keyboard.poll enterScancode).entered = true)
    (first second third : Byte) :
    run read s [enterScancode, first, second, third] =
        { keyboard :=
            { (s.keyboard.poll enterScancode).keyboard.finishEnter with bufferPos := 0 }
          phase := .polling
          writes := s.writes ++ (s.keyboard.poll enterScancode).writes
          calls := s.calls ++ (s.keyboard.poll enterScancode).calls ++
            [.setColor vgaColorWhite vgaColorBlack, .putchar (charByte '_')] } ∧
      linesRead s ([enterScancode, first, second, third].map input) =
        [(input third, (s.keyboard.poll enterScancode).keyboard.string)] := by
  have waits : Phase.draining 2 ≠ .returned := by decide
  have struck : s.feed enterScancode =
      { keyboard := (s.keyboard.poll enterScancode).keyboard
        phase := .draining 2
        writes := s.writes ++ (s.keyboard.poll enterScancode).writes
        calls := s.calls ++ (s.keyboard.poll enterScancode).calls } := by
    simp only [feed, polling, entered, if_true]
  have draining : s.read enterScancode =
      { keyboard := (s.keyboard.poll enterScancode).keyboard
        phase := .draining 2
        writes := s.writes ++ (s.keyboard.poll enterScancode).writes
        calls := s.calls ++ (s.keyboard.poll enterScancode).calls } := by
    rw [read, struck]
    exact if_neg waits
  have silent : s.line? enterScancode = none := by
    rw [line?, struck]
    exact if_neg waits
  constructor
  · rw [run, draining]
    rfl
  · simp only [List.map_cons, List.map_nil, linesRead, same, draining, silent]
    rfl

/-- A typed line is read as the text of the editor, and the next line is begun. -/
theorem type_reads (begun : s.Begun) {line : TypedLine} (types : s.Types line) :
    (s.type line).Begun ∧
      (s.type line).keyboard.locks = (line.edited s.keyboard.locks).locks ∧
      linesRead s line.inputs = [line.entry s.keyboard.locks] := by
  have start : ({ s.keyboard with bufferPos := 0 } : KeyboardState) = s.keyboard := by
    rw [← begun.bufferPos]
  obtain ⟨polling, edits⟩ := strokes_edit line.strokes begun.phase
    (start ▸ start_edits begun.heldKey begun.heldKeyChar begun.lastScancode line.held) types.one
    types.typed types.goesOn
  obtain ⟨entered, text⟩ := enter_poll edits types.enter types.cooled
  have quiet := quiet_of_allowed edits types.enter
  obtain ⟨char, locks⟩ := KeyboardState.enter_poll_keys entered
  have same : ∀ byte, (line.input byte).byte = byte := fun _ => rfl
  rw [run_strokes] at polling edits entered text char locks quiet
  obtain ⟨strokes, silent⟩ := read_polling line.input same polling
  obtain ⟨ended, read⟩ :=
    enter_read line.input same polling entered line.first line.second line.third
  have typed : s.type line =
      run Session.read (run Session.read s (line.strokes.flatMap Stroke.bytes))
        [enterScancode, line.first, line.second, line.third] := run_append ..
  rw [strokes, ended] at typed
  refine ⟨?_, ?_, ?_⟩
  · rw [typed]
    exact ⟨rfl, rfl, rfl, char.trans quiet.heldKeyChar, rfl, enterCooldownCycles_nonneg, le_rfl⟩
  · rw [typed]
    refine Eq.trans (b := (run feed s (line.strokes.flatMap Stroke.bytes)).keyboard.locks) locks ?_
    rw [KeyboardState.locks, edits.caps, edits.shift]
    rfl
  · rw [TypedLine.inputs, TypedLine.bytes, List.map_append, linesRead_append, silent,
      List.nil_append, List.map_map]
    have bytes : (line.strokes.flatMap Stroke.bytes).map (Input.byte ∘ line.input) =
        line.strokes.flatMap Stroke.bytes := List.map_id _
    rw [bytes, strokes, read, text]
    rfl

/-- Any number of typed lines. -/
theorem types_read (begun : s.Begun) {lines : List TypedLine} (types : Along type Types s lines) :
    linesRead s (lines.flatMap TypedLine.inputs) = typedEntries s.keyboard.locks lines := by
  induction lines generalizing s with
  | nil => rfl
  | cons line rest ih =>
      obtain ⟨here, later⟩ := types
      obtain ⟨next, locks, read⟩ := type_reads begun here
      have bytes : line.inputs.map Input.byte = line.bytes := by
        rw [TypedLine.inputs, List.map_map]
        exact List.map_id _
      rw [List.flatMap_cons, linesRead_append, read, bytes, typedEntries]
      refine congrArg (line.entry s.keyboard.locks :: ·) ?_
      exact (ih next later).trans (congrArg (typedEntries · rest) locks)

theorem init_begun (keyboard : KeyboardState) : (init keyboard).call.Begun :=
  ⟨rfl, rfl, rfl, rfl, rfl, le_rfl, enterCooldownCycles_nonneg⟩

end Session

def Key.backspace : Key := ⟨backspaceScancode, by decide, by decide⟩
def Key.letterP : Key := ⟨0x19, by decide, by decide⟩
def Key.letterS : Key := ⟨0x1F, by decide, by decide⟩

/-- `ps`, after a character that is taken back. -/
def sampleLine : TypedLine where
  held := ∅
  strokes :=
    [⟨.down .letterP, 30⟩, ⟨.up .letterP, 2⟩, ⟨.down .letterA, 1⟩, ⟨.up .letterA, 1⟩,
      ⟨.down .backspace, 1⟩, ⟨.up .backspace, 1⟩, ⟨.down .letterS, 5⟩, ⟨.up .letterS, 1⟩]
  first := 0
  second := 0
  third := 0
  before := fun _ _ => 0
  saved := {}

namespace System

/-- What is typed is what is executed: for any number of typed lines, the running system does to the
kernel what the shell does with the texts of the line editor. -/
theorem typed_lines_executed (image : Image) (keyboard : KeyboardState) {lines : List TypedLine}
    (types : Along Session.type Session.Types (Session.init keyboard).call lines) :
    (run (step image) (boot image keyboard) (lines.flatMap TypedLine.inputs)).shell =
      run (Shell.step image) ⟨.boot image, .shell⟩ (typedEntries ⟨false, false⟩ lines) := by
  rw [run_shell (boot_sound image keyboard) (fun _ => boot_reads image keyboard),
    Session.types_read (Session.init_begun keyboard) types]
  rfl

/-- The shell executes the line. -/
theorem typed_lines_executed_sample :
    (run (step .sample) (boot .sample coolingSession.keyboard)
        ([sampleLine].flatMap TypedLine.inputs)).shell =
      run (Shell.step .sample) ⟨.boot .sample, .shell⟩
        (typedEntries ⟨false, false⟩ [sampleLine]) := by
  refine typed_lines_executed .sample coolingSession.keyboard ⟨⟨?_, ?_, ?_, ?_, ?_⟩, trivial⟩
  · exact fun _ none => absurd none (Finset.notMem_empty _)
  · decide +kernel
  · decide +kernel
  · decide +kernel
  · decide +kernel

end System

end SimpleOS
