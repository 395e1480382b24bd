import SimpleOS.Library.TextReader
import SimpleOS.Kernel.Printing
import SimpleOS.Properties.PidText
import SimpleOS.Properties.ProcessTree

/-!
# What the list of processes says

The text `process_list_all` puts on the screen, column by column, and a reader
for it.  In every state of every run the reader finds the processes that
`process_find_by_pid` finds, each of them once, by ascending PID; and the PIDs
as they are shown can be typed in again.
-/

namespace SimpleOS

open Library.ByteMemory Library.ArrayText Library.TextReader Library.Words Library.GuardedRun
open Message

/-! ## What calls put on the screen -/

namespace Vga

/-- The characters of a call. -/
def Call.chars : Call → CString
  | .putchar char => [char]
  | .print data => upTo 0 data
  | .printHex value => upTo 0 (hexString value)
  | _ => []

/-- The characters of some calls. -/
def written (calls : List Call) : CString := calls.flatMap Call.chars

/-- The call only puts characters, none of them a backspace to `vga_print`. -/
def Call.Plain : Call → Prop
  | .putchar _ => True
  | .print data => 0x08 ∉ data
  | _ => False

instance : DecidablePred Call.Plain := fun call =>
  match call with
  | .putchar _ => inferInstanceAs (Decidable True)
  | .print data => inferInstanceAs (Decidable (0x08 ∉ data))
  | .setColor _ _ => inferInstanceAs (Decidable False)
  | .printHex _ => inferInstanceAs (Decidable False)
  | .scroll => inferInstanceAs (Decidable False)
  | .clear => inferInstanceAs (Decidable False)

theorem foldl_printChar {chars : CString} (forward : 0x08 ∉ chars) (v : Vga) :
    chars.foldl printChar v = chars.foldl putchar v := by
  induction chars generalizing v with
  | nil => rfl
  | cons char rest ih =>
      have other : char ≠ 0x08 := fun same => forward (same ▸ List.mem_cons_self)
      have later := ih (fun inside => forward (List.mem_cons_of_mem char inside))
      rw [List.foldl_cons, List.foldl_cons, printChar, if_neg other, later]

theorem step_plain {call : Call} (plain : call.Plain) (v : Vga) :
    v.step call = call.chars.foldl putchar v := by
  cases call with
  | putchar char => rfl
  | print data =>
      have forward : 0x08 ∉ upTo 0 data := fun inside =>
        plain ((List.takeWhile_prefix _).mem inside)
      exact foldl_printChar forward v
  | setColor foreground background => exact absurd plain id
  | printHex value => exact absurd plain id
  | scroll => exact absurd plain id
  | clear => exact absurd plain id

/-- Plain calls put their characters one after the other. -/
theorem run_plain {calls : List Call} (plain : ∀ call ∈ calls, call.Plain) (v : Vga) :
    run step v calls = (written calls).foldl putchar v := by
  induction calls generalizing v with
  | nil => rfl
  | cons call rest ih =>
      have later := ih (fun other inside => plain other (List.mem_cons_of_mem call inside))
      rw [written, List.flatMap_cons, List.foldl_append,
        ← step_plain (plain call List.mem_cons_self)]
      exact later _

theorem written_append (first second : List Call) :
    written (first ++ second) = written first ++ written second := List.flatMap_append

theorem written_cons (call : Call) (rest : List Call) :
    written (call :: rest) = call.chars ++ written rest := List.flatMap_cons

theorem written_putchars (chars : CString) : written (putchars chars) = chars := by
  rw [written, putchars, List.flatMap_map]
  exact List.flatMap_singleton' chars

end Vga

namespace Kernel

/-! ## Rows -/

/-- What a row says. -/
structure ProcessRow where
  pid : Nat
  name : CString
  state : Option ProcessState
  kilobytes : Nat

/-- A state that has a name of its own. -/
def namedState : ProcessState → Option ProcessState
  | .unknown _ _ => none
  | state => some state

/-- The name column, as wide as the truncated name may be. -/
def nameColumn (record : Process) : CString :=
  listedName record ++ List.replicate (12 - (listedName record).length) space

/-- The row of a process. -/
def rowOf (record : Process) : ProcessRow where
  pid := record.pid.toNat
  name := nameColumn record
  state := namedState record.state
  kilobytes := if record.stackBase ≠ 0 then (record.stackSize / 1024).toNat else 0

/-- The texts of the state column. -/
def stateColumns : List (CString × Option ProcessState) :=
  [(.ofString "READY\t\t", some .ready), (.ofString "RUNNING\t\t", some .running),
    (.ofString "BLOCKED\t\t", some .blocked), (.ofString "TERMINATED\t", some .terminated),
    (.ofString "UNKNOWN\t\t", none)]

/-- A row: PID, name, state and size. -/
def readRow : Reader Byte ProcessRow :=
  andThen (upToMark 0x09) fun pid => andThen (column 12) fun name =>
    andThen (expect (CString.ofString "\t")) fun _ => andThen (choice stateColumns) fun state =>
      andThen (upToMark (charByte 'K')) fun kilobytes =>
        andThen (expect (CString.ofString "B\n")) fun _ =>
          found ⟨decimal pid, name, state, decimal kilobytes⟩

def headingText : CString := .ofString
  "Process List:\nPID\tNAME\t\tSTATE\t\tMEMORY\n---\t----\t\t-----\t\t------\n"

/-- The heading and the rows behind it. -/
def readListing (listing : CString) : Option (List ProcessRow) :=
  (expect headingText listing).bind fun heading => readAll readRow heading.2

section Row

variable (record : Process)

theorem nameColumn_length : (nameColumn record).length = 12 := by
  have short : (listedName record).length ≤ 12 := by
    have whole := (List.takeWhile_prefix (l := (List.range 12).map record.name)
      (fun char => decide (char ≠ 0))).length_le
    rwa [List.length_map, List.length_range] at whole
  rw [nameColumn, List.length_append, List.length_replicate]
  omega

theorem stateColumn_member (state : ProcessState) :
    (CString.ofString (stateColumn state), namedState state) ∈ stateColumns := by
  cases state with
  | ready => exact List.mem_cons_self
  | running => exact List.mem_cons_of_mem _ List.mem_cons_self
  | blocked => exact List.mem_cons_of_mem _ (List.mem_cons_of_mem _ List.mem_cons_self)
  | terminated =>
      exact List.mem_cons_of_mem _ (List.mem_cons_of_mem _ (List.mem_cons_of_mem _
        List.mem_cons_self))
  | unknown code other => simp [stateColumns, stateColumn, namedState]

/-- No state column has a NUL or a backspace. -/
theorem stateColumn_chars (state : ProcessState) :
    0 ∉ CString.ofString (stateColumn state) ∧ 0x08 ∉ CString.ofString (stateColumn state) := by
  have all : ∀ entry ∈ stateColumns, 0 ∉ entry.1 ∧ 0x08 ∉ entry.1 := by decide
  exact all _ (stateColumn_member state)

/-- The characters of the memory column before its unit. -/
def sizeText : CString :=
  if record.stackBase ≠ 0 then twoDigits (record.stackSize / 1024) else [charByte '0']

theorem written_text (line : String) (free : 0 ∉ CString.ofString line) :
    Vga.written [text line] = CString.ofString line := by
  rw [Vga.written_cons]
  change upTo 0 (CString.ofString line) ++ [] = _
  rw [upTo_eq_self free, List.append_nil]

/-- The columns of a row, each behind the mark or the width that ends it. -/
theorem written_listRow :
    Vga.written (listRow record) = (twoDigits record.pid ++ [0x09]) ++ (nameColumn record ++
      (CString.ofString "\t" ++ (CString.ofString (stateColumn record.state) ++
        ((sizeText record ++ [charByte 'K']) ++ (CString.ofString "B\n" ++ []))))) := by
  have state : Vga.written [text (stateColumn record.state)] =
      CString.ofString (stateColumn record.state) := written_text _ (stateColumn_chars _).1
  have size : Vga.written (if record.stackBase ≠ 0 then
      putchars (twoDigits (record.stackSize / 1024)) ++ [text "KB"] else [text "0KB"]) =
      sizeText record ++ CString.ofString "KB" := by
    unfold sizeText
    split
    · rw [Vga.written_append, Vga.written_putchars, written_text _ (by decide)]
    · exact written_text _ (by decide)
  have unit : CString.ofString "KB" ++ CString.ofString "\n" =
      [charByte 'K'] ++ CString.ofString "B\n" := by decide
  simp only [listRow, nameColumn, Vga.written_append, Vga.written_putchars, state, size,
    written_text "\t" (by decide), written_text "\n" (by decide),
    List.append_assoc, List.append_nil, unit]
  rfl

theorem digits_unmarked {text : CString} {number : Nat} (denotes : Denotes text number)
    {mark : Byte} (other : isDigit mark = false) : mark ∉ text := by
  intro inside
  have digit := denotes.2.1 mark inside
  rw [other] at digit
  cases digit

variable {record}

/-- Two digits are enough for the PID and the size: the row is read back. -/
theorem listRow_reads (pid : record.pid.toNat < 100)
    (size : (record.stackSize / 1024).toNat < 100) :
    Reads readRow (Vga.written (listRow record)) (rowOf record) := by
  have number := twoDigits_denotes_iff.mpr pid
  have kilobytes : Denotes (sizeText record) (rowOf record).kilobytes := by
    unfold sizeText rowOf
    split
    · exact twoDigits_denotes_iff.mpr size
    · exact ⟨by decide, by decide, rfl⟩
  have width := column_reads (nameColumn record)
  rw [nameColumn_length] at width
  have state := choice_reads (by decide) (stateColumn_member record.state)
  have result : rowOf record =
      ⟨decimal (twoDigits record.pid), nameColumn record, namedState record.state,
        decimal (sizeText record)⟩ := by
    rw [number.2.2, kilobytes.2.2]
    rfl
  rw [written_listRow, result]
  refine (upToMark_reads (digits_unmarked number (by decide))).andThen ?_
  refine width.andThen ((expect_reads _).andThen (state.andThen ?_))
  refine (upToMark_reads (digits_unmarked kilobytes (by decide))).andThen ?_
  exact (expect_reads _).andThen (found_reads _)

theorem written_listRow_ne_nil : Vga.written (listRow record) ≠ [] := by
  rw [written_listRow]
  exact List.append_ne_nil_of_left_ne_nil
    (List.append_ne_nil_of_right_ne_nil _ (List.cons_ne_nil _ _)) _

theorem listRow_plain : ∀ call ∈ listRow record, call.Plain := by
  have put (chars : CString) : ∀ call ∈ putchars chars, call.Plain := by
    intro call member
    obtain ⟨char, _, rfl⟩ := List.mem_map.mp member
    trivial
  have state : (text (stateColumn record.state)).Plain := (stateColumn_chars _).2
  have size : ∀ call ∈ (if record.stackBase ≠ 0 then
      putchars (twoDigits (record.stackSize / 1024)) ++ [text "KB"] else [text "0KB"]),
      call.Plain := by
    split
    · exact List.forall_mem_append.mpr ⟨put _, by decide⟩
    · decide
  simp only [listRow, List.forall_mem_append]
  refine ⟨⟨⟨⟨⟨⟨⟨put _, by decide⟩, put _⟩, put _⟩, by decide⟩, ?_⟩, size⟩, by decide⟩
  exact List.forall_mem_singleton.mpr state

end Row

/-! ## The list -/

/-- The rows are on the screen and say of each process that can be found, once, what it is. -/
structure Lists (s : Kernel) (calls : List Vga.Call) (rows : List ProcessRow) : Prop where
  put : ∀ v, run Vga.step v calls = (Vga.written calls).foldl Vga.putchar v
  reads : readListing (Vga.written calls) = some rows
  ascending : rows.Pairwise fun first second => first.pid < second.pid
  complete : ∀ row, row ∈ rows ↔ ∃ pid : Word, s.processFindByPid pid ≠ null ∧
    row = rowOf (s.process (s.processFindByPid pid)) ∧ row.pid = pid.toNat

section List

variable {image : Image} {s : Kernel}

/-- A table entry that is not NULL is the record of the PID that is its index. -/
theorem listed_record (coherent : s.Coherent image) {entry : Nat} (member : entry ∈ s.listed) :
    (s.process (s.processTable entry)).pid.toNat = entry ∧ entry ≤ 10 ∧
      (s.process (s.processTable entry)).stackSize = 4096 := by
  have nonnull : s.processTable entry ≠ null := of_decide_eq_true (List.mem_filter.mp member).2
  obtain ⟨index, bound, rfl, place, parentPid, _, identity⟩ := coherent.table entry nonnull
  have limit := coherent.count
  have pid : (s.process (image.testSlot index)).pid = BitVec.ofNat 32 (index + 1) :=
    congrArg Process.Identity.pid identity
  have size : (s.process (image.testSlot index)).stackSize = 4096 :=
    congrArg Process.Identity.stackSize identity
  rw [place]
  refine ⟨?_, by omega, size⟩
  rw [pid, BitVec.toNat_ofNat]
  exact Nat.mod_eq_of_lt (by omega)

/-- The records in the order of the table. -/
def listedRecords (s : Kernel) : List Process :=
  s.listed.map fun entry => s.process (s.processTable entry)

/-- The kernel process is always listed. -/
theorem listed_nonempty (coherent : s.Coherent image) : s.listed.length ≠ 0 := by
  have root := coherent.root.2.1
  have kernel : 1 ∈ s.listed := by
    refine List.mem_filter.mpr ⟨List.mem_range.mpr (by decide), decide_eq_true ?_⟩
    rw [root]
    exact Image.testSlot_ne_null (by decide)
  exact fun none => List.not_mem_nil (List.length_eq_zero_iff.mp none ▸ kernel)

theorem listedRecords_bounds (coherent : s.Coherent image) {record : Process}
    (member : record ∈ s.listedRecords) : record.pid.toNat ≤ 10 ∧ record.stackSize = 4096 := by
  obtain ⟨entry, inside, rfl⟩ := List.mem_map.mp member
  obtain ⟨pid, small, size⟩ := listed_record coherent inside
  exact ⟨by omega, size⟩

theorem listedRecords_ascending (coherent : s.Coherent image) :
    s.listedRecords.Pairwise fun first second => first.pid.toNat < second.pid.toNat := by
  have ordered : s.listed.Pairwise (· < ·) := List.Pairwise.filter _ List.pairwise_lt_range
  refine List.pairwise_map.mpr (List.Pairwise.imp_of_mem ?_ ordered)
  intro first second inside later less
  rw [(listed_record coherent inside).1, (listed_record coherent later).1]
  exact less

/-- The records are those of the processes that `process_find_by_pid` finds. -/
theorem mem_listedRecords (coherent : s.Coherent image) (record : Process) :
    record ∈ s.listedRecords ↔ ∃ pid : Word, s.processFindByPid pid ≠ null ∧
      record = s.process (s.processFindByPid pid) ∧ record.pid = pid := by
  constructor
  · intro member
    obtain ⟨entry, inside, rfl⟩ := List.mem_map.mp member
    obtain ⟨pid, small, _⟩ := listed_record coherent inside
    have nonnull := of_decide_eq_true (List.mem_filter.mp inside).2
    have found : s.processFindByPid (s.process (s.processTable entry)).pid =
        s.processTable entry := by
      rw [processFindByPid_of_lt s (by rw [pid, maxProcesses]; omega), pid]
    refine ⟨(s.process (s.processTable entry)).pid, ?_, congrArg s.process found.symm, rfl⟩
    rw [found]
    exact nonnull
  · rintro ⟨pid, nonnull, rfl, _⟩
    have small := s.lt_of_processFindByPid nonnull
    rw [processFindByPid_of_lt s small] at nonnull ⊢
    refine List.mem_map.mpr ⟨pid.toNat, ?_, rfl⟩
    exact List.mem_filter.mpr ⟨List.mem_range.mpr small, decide_eq_true nonnull⟩

/-- The heading, and a row for each record. -/
theorem written_processListAll (coherent : s.Coherent image) :
    Vga.written s.processListAll =
      headingText ++ s.listedRecords.flatMap fun record => Vga.written (listRow record) := by
  have heading : Vga.written [text "Process List:\n", text "PID\tNAME\t\tSTATE\t\tMEMORY\n",
      text "---\t----\t\t-----\t\t------\n"] = headingText := by decide
  have rows : Vga.written (s.listed.flatMap fun entry =>
      listRow (s.process (s.processTable entry))) =
      s.listed.flatMap fun entry => Vga.written (listRow (s.process (s.processTable entry))) :=
    List.flatMap_assoc
  rw [processListAll, if_neg (listed_nonempty coherent), List.append_nil, Vga.written_append,
    heading, rows, listedRecords, List.flatMap_map]

theorem processListAll_plain (coherent : s.Coherent image) :
    ∀ call ∈ s.processListAll, call.Plain := by
  rw [processListAll, if_neg (listed_nonempty coherent), List.append_nil]
  refine List.forall_mem_append.mpr ⟨by decide, fun call member => ?_⟩
  obtain ⟨entry, _, inside⟩ := List.mem_flatMap.mp member
  exact listRow_plain call inside

theorem coherent_lists (coherent : s.Coherent image) :
    ∃ rows, s.Lists s.processListAll rows := by
  refine ⟨s.listedRecords.map rowOf, Vga.run_plain (processListAll_plain coherent), ?_, ?_, ?_⟩
  · rw [written_processListAll coherent, readListing, expect_reads headingText, Option.bind_some]
    refine readAll_reads (fun record member => ?_) fun record _ => written_listRow_ne_nil
    obtain ⟨pid, size⟩ := listedRecords_bounds coherent member
    refine listRow_reads (by omega) ?_
    rw [size]
    decide
  · exact List.pairwise_map.mpr (listedRecords_ascending coherent)
  · intro row
    constructor
    · intro member
      obtain ⟨record, inside, rfl⟩ := List.mem_map.mp member
      obtain ⟨pid, found, place, same⟩ := (mem_listedRecords coherent record).mp inside
      exact ⟨pid, found, congrArg rowOf place, congrArg BitVec.toNat same⟩
    · rintro ⟨pid, found, rfl, same⟩
      have own : (s.process (s.processFindByPid pid)).pid = pid := BitVec.eq_of_toNat_eq same
      exact List.mem_map_of_mem ((mem_listedRecords coherent _).mpr ⟨pid, found, rfl, own⟩)

/-- In every state of every run from the booted state, what `process_list_all` puts on the screen
can be read back: it has one row for each process that `process_find_by_pid` finds and no other row,
by ascending PID, with the name, the state and the size of its process. -/
theorem listing_reads_back (image : Image) {ops : List ProcessOp}
    (outside : ∀ op ∈ ops, op.StatusOutside image) :
    ∃ rows, (run (Kernel.step image) (boot image) ops).Lists
      (run (Kernel.step image) (boot image) ops).processListAll rows :=
  coherent_lists (run_coherent (boot_coherent image) outside)

/-- A terminated process, one that is cleaned up, and the kernel process. -/
theorem listing_reads_back_sample :
    ∃ rows, (run (Kernel.step .sample) (boot .sample)
        [.fork, .fork, .killByPid 2, .kill 3 9, .fork]).Lists
      (run (Kernel.step .sample) (boot .sample)
        [.fork, .fork, .killByPid 2, .kill 3 9, .fork]).processListAll rows := by
  refine listing_reads_back .sample fun op member => ?_
  simp only [List.mem_cons, List.not_mem_nil, or_false] at member
  rcases member with rfl | rfl | rfl | rfl | rfl <;> trivial

/-- The commands that take a PID, with the text they take it from. -/
def pkillLine (pid : CString) : CString := .ofString "pkill " ++ pid
def pstatusLine (pid status : CString) : CString :=
  .ofString "pstatus " ++ pid ++ .ofString " " ++ status
def pchLine (pid : CString) : CString := .ofString "pch " ++ pid

def statusNames : List (CString × ProcessState) :=
  [(.ofString "READY", .ready), (.ofString "PAUSED", .blocked), (.ofString "WAITING", .blocked)]

/-- The lines with a PID of the table are parsed as they are meant. -/
theorem shown_lines_parsed (number : Nat) (small : number < 11) :
    let shown := twoDigits (BitVec.ofNat 32 number)
    (shellCommand (pkillLine shown) = .pkill ∧ shellCommand (pchLine shown) = .pch ∧
        (words isSpace (pkillLine shown)).getD 1 [] = shown ∧ (pchLine shown).drop 4 = shown ∧
        0 ∉ pkillLine shown ∧ 0 ∉ pchLine shown) ∧
      ∀ entry ∈ statusNames, shellCommand (pstatusLine shown entry.1) = .pstatus ∧
        (words isSpace (pstatusLine shown entry.1)).getD 1 [] = shown ∧
        (words isSpace (pstatusLine shown entry.1)).getD 2 [] = entry.1 ∧
        readStatus entry.1 = some entry.2 ∧ 0 ∉ pstatusLine shown entry.1 := by
  revert number
  decide +kernel

/-- In every state of every run from the booted state, the PID of a process as `process_list_all`
shows it can be typed in: `pkill`, `pstatus` with each of its status names and `pch` perform their
operation on the PID of this process. -/
theorem shown_pids_usable (image : Image) {ops : List ProcessOp}
    (outside : ∀ op ∈ ops, op.StatusOutside image) (before : ArgumentBuffer → Nat → Byte)
    (saved : CpuState) (pid : Word)
    (found : (run (Kernel.step image) (boot image) ops).processFindByPid pid ≠ null) :
    let s := run (Kernel.step image) (boot image) ops
    let shown := twoDigits (s.process (s.processFindByPid pid)).pid
    (s.processCommand image before saved (pkillLine shown)).performed = [.killByPid pid] ∧
      (∀ entry ∈ statusNames,
        (s.processCommand image before saved (pstatusLine shown entry.1)).performed =
          [.setStatus pid entry.2]) ∧
      (s.processCommand image before saved (pchLine shown)).performed = [.changeCurrent pid] := by
  have coherent := run_coherent (boot_coherent image) outside
  generalize run (Kernel.step image) (boot image) ops = s at coherent found
  dsimp only
  obtain ⟨index, bound, place, _⟩ := coherent.found found
  have limit := coherent.count
  have small := s.lt_of_processFindByPid found
  have listed : pid.toNat ∈ s.listed := by
    rw [processFindByPid_of_lt s small] at found
    exact List.mem_filter.mpr ⟨List.mem_range.mpr small, decide_eq_true found⟩
  have own : (s.process (s.processFindByPid pid)).pid = pid := by
    rw [processFindByPid_of_lt s small]
    exact BitVec.eq_of_toNat_eq (listed_record coherent listed).1
  have text : BitVec.ofNat 32 pid.toNat = pid := by
    rw [BitVec.ofNat_toNat, BitVec.setWidth_eq]
  have denotes : Denotes (twoDigits pid) pid.toNat := twoDigits_denotes_iff.mpr (by omega)
  have number : BitVec.ofNat 32 (decimal (twoDigits pid)) = pid := by
    rw [denotes.2.2, text]
  have accepted : PidAccepted (twoDigits pid) := by
    refine ⟨denotes.2.1, fun zero => ?_⟩
    rw [number] at zero
    rw [zero] at place
    exact absurd place (Nat.zero_ne_add_one index)
  have parsed := shown_lines_parsed pid.toNat (by omega)
  dsimp only at parsed
  rw [text] at parsed
  obtain ⟨⟨pkill, pch, pkillText, pchText, pkillFree, pchFree⟩, status⟩ := parsed
  rw [own]
  refine ⟨?_, fun entry member => ?_, ?_⟩
  · rw [processCommand, pkill]
    change (s.pkillCommand image before (pkillLine (twoDigits pid))).performed = _
    rw [pkillCommand_performed image before s pkillFree, pkillText, if_pos accepted, number]
  · obtain ⟨pstatus, pidArgument, statusArgument, known, free⟩ := status entry member
    rw [processCommand, pstatus]
    change (s.pstatusCommand before (pstatusLine (twoDigits pid) entry.1)).performed = _
    rw [pstatusCommand_performed before s free, pidArgument, statusArgument, known,
      if_pos accepted, number]
    rfl
  · rw [processCommand, pch]
    change (s.pchCommand (pchLine (twoDigits pid))).performed = _
    rw [pchCommand_performed s pchFree, pchText, if_pos ⟨denotes.1, accepted.1⟩, number]

/-- The PID of a forked process. -/
theorem shown_pids_usable_fork :
    let s := run (Kernel.step .sample) (boot .sample) [.fork]
    let shown := twoDigits (s.process (s.processFindByPid 2)).pid
    (s.processCommand .sample (fun _ _ => 0) {} (pkillLine shown)).performed = [.killByPid 2] ∧
      (∀ entry ∈ statusNames,
        (s.processCommand .sample (fun _ _ => 0) {} (pstatusLine shown entry.1)).performed =
          [.setStatus 2 entry.2]) ∧
      (s.processCommand .sample (fun _ _ => 0) {} (pchLine shown)).performed =
        [.changeCurrent 2] := by
  refine shown_pids_usable .sample (fun op member => ?_) _ {} 2 ?_
  · rw [List.mem_singleton.mp member]
    trivial
  · decide +kernel

end List

end Kernel

end SimpleOS
