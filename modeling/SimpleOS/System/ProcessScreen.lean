import SimpleOS.Properties.LineDisplay
import SimpleOS.Properties.ProcessListing
import SimpleOS.Properties.ScreenRows
import SimpleOS.System.Letters
import SimpleOS.System.Operable

/-!
# The table of the `ps` command

What stands in the screen memory after `ps`: below a heading, a row for each
process that can be found, every column at the same tab stop in all rows.
-/

namespace SimpleOS

open Library.ByteMemory Library.ArrayText Library.TabStops Library.GuardedRun Message

/-! ## The table -/

/-- The colour of what commands print. -/
def shellColor : Byte := vgaEntryColor vgaColorWhite vgaColorBlack

/-- The name of a state. -/
def stateWord : ProcessState → CString
  | .ready => .ofString "READY"
  | .running => .ofString "RUNNING"
  | .blocked => .ofString "BLOCKED"
  | .terminated => .ofString "TERMINATED"
  | .unknown _ _ => .ofString "UNKNOWN"

namespace Vga

/-- A text stands in a row from a column on. -/
def TextAt (v : Vga) (row column : Nat) (text : CString) : Prop :=
  ∀ index char, text[index]? = some char →
    v.screen row (column + index) = vgaEntry char shellColor

/-- A row has the columns of a process. -/
structure ShowsProcess (v : Vga) (row : Nat) (record : Process) : Prop where
  pid : v.TextAt row 0 (twoDigits record.pid)
  name : v.TextAt row 8 (Kernel.listedName record)
  state : v.TextAt row 24 (stateWord record.state)
  memory : v.TextAt row 40 (Kernel.sizeText record ++ .ofString "KB")

/-- Above the cursor there are the heading, a row of dashes, the processes, and a free row. -/
structure ShowsTable (v : Vga) (records : List Process) : Prop where
  room : records.length + 3 ≤ v.row
  pid : v.TextAt (v.row - (records.length + 3)) 0 (.ofString "PID")
  name : v.TextAt (v.row - (records.length + 3)) 8 (.ofString "NAME")
  state : v.TextAt (v.row - (records.length + 3)) 24 (.ofString "STATE")
  memory : v.TextAt (v.row - (records.length + 3)) 40 (.ofString "MEMORY")
  row : ∀ index record, records[index]? = some record →
    v.ShowsProcess (v.row - (records.length + 1 - index)) record

/-- The places of a line on the screen. -/
def HoldsLine (v : Vga) (row : Nat) (line : CString) : Prop :=
  ∀ place ∈ placed tabChar tabWidth 0 line, v.screen row place.1 = vgaEntry place.2 shellColor

section Line

variable {v : Vga} {row column : Nat} {line : CString}

/-- A field of the line. -/
theorem HoldsLine.textAt (holds : v.HoldsLine row line) (before : CString) {field : CString}
    (after : CString) (split : line = before ++ (field ++ after))
    (reached : behind tabChar tabWidth 0 before = column) (plain : tabChar ∉ field) :
    v.TextAt row column field := by
  intro index char found
  obtain ⟨inside, rfl⟩ := List.getElem?_eq_some_iff.mp found
  refine holds (column + index, field[index]) ?_
  rw [split]
  exact placed_field reached plain inside

/-- Behind a text without tabs a tab goes to the next stop. -/
theorem behind_tab {text : CString} (plain : tabChar ∉ text) (start : Nat) :
    behind tabChar tabWidth start (text ++ [0x09]) = 8 * ((start + text.length) / 8 + 1) := by
  rw [behind_append, behind_plain plain]
  change advance tabChar tabWidth (start + text.length) tabChar = _
  rw [advance, if_pos rfl, tabWidth]

end Line

end Vga

namespace Kernel

/-! ## The lines -/

/-- A row of the table, up to its newline. -/
def rowText (record : Process) : CString :=
  twoDigits record.pid ++ ([0x09] ++ (nameColumn record ++ ([0x09] ++
    (CString.ofString (stateColumn record.state) ++ (sizeText record ++ .ofString "KB")))))

def headingLine : CString := .ofString "PID\tNAME\t\tSTATE\t\tMEMORY"

/-- What `process_list_all` and the newline of `process_command` put on the screen. -/
def tableLines (records : List Process) : List CString :=
  [.ofString "Process List:", headingLine, .ofString "---\t----\t\t-----\t\t------"] ++
    (records.map rowText ++ [[]])

theorem written_listRow_line (record : Process) :
    Vga.written (listRow record) = rowText record ++ [0x0A] := by
  have unit : CString.ofString "KB" ++ [0x0A] = [charByte 'K'] ++ CString.ofString "B\n" := by
    decide
  have tab : CString.ofString "\t" = [0x09] := by decide
  simp only [written_listRow, rowText, List.append_assoc, List.append_nil, unit, tab]

theorem tableLines_length (records : List Process) :
    (tableLines records).length = records.length + 4 := by
  simp [tableLines]

theorem written_table {image : Image} {s : Kernel} (coherent : s.Coherent image) :
    Vga.written (s.processListAll ++ [text "\n"]) = Vga.linesText (tableLines s.listedRecords) := by
  have rows : (s.listedRecords.flatMap fun record => Vga.written (listRow record)) =
      Vga.linesText (s.listedRecords.map rowText) := by
    rw [Vga.linesText, List.flatMap_map]
    exact congrArg (s.listedRecords.flatMap ·) (funext written_listRow_line)
  have heading : headingText = Vga.linesText
      [.ofString "Process List:", headingLine, .ofString "---\t----\t\t-----\t\t------"] := by
    decide
  have blank : Vga.written [text "\n"] = Vga.linesText [[]] := by decide
  rw [Vga.written_append, written_processListAll coherent, rows, heading, blank, tableLines]
  simp only [Vga.linesText, List.flatMap_append, List.append_assoc]

section Columns

variable {record : Process}

/-- The words are as wide as two tab stops at most. -/
theorem stateColumn_word (state : ProcessState) :
    ∃ tabs, CString.ofString (stateColumn state) = stateWord state ++ tabs := by
  cases state with
  | ready => exact ⟨[0x09, 0x09], by decide⟩
  | running => exact ⟨[0x09, 0x09], by decide⟩
  | blocked => exact ⟨[0x09, 0x09], by decide⟩
  | terminated => exact ⟨[0x09], by decide⟩
  | unknown code other =>
      have unknown : CString.ofString "UNKNOWN\t\t" =
          CString.ofString "UNKNOWN" ++ [0x09, 0x09] := by decide
      exact ⟨[0x09, 0x09], unknown⟩

theorem stateColumn_behind (state : ProcessState) :
    behind Vga.tabChar Vga.tabWidth 24 (CString.ofString (stateColumn state)) = 40 := by
  have all : ∀ entry ∈ stateColumns, behind Vga.tabChar Vga.tabWidth 24 entry.1 = 40 := by decide
  exact all _ (stateColumn_member state)

theorem stateWord_plain (state : ProcessState) : Vga.tabChar ∉ stateWord state := by
  cases state with
  | unknown code other => exact (by decide : Vga.tabChar ∉ CString.ofString "UNKNOWN")
  | _ => decide

/-- A PID and a size of two digits, a name without control characters. -/
structure Tabular (record : Process) : Prop where
  pid : record.pid.toNat < 100
  size : (record.stackSize / 1024).toNat < 100
  name : ∀ char ∈ record.nameText, IsPrintable char

theorem digit_printable {char : Byte} (digit : isDigit char = true) : IsPrintable char := by
  obtain ⟨lower, upper⟩ := (isDigit_iff char).mp digit
  exact ⟨by omega, by omega⟩

theorem tab_free {text : CString} (printable : ∀ char ∈ text, IsPrintable char) :
    Vga.tabChar ∉ text := fun inside => absurd (printable Vga.tabChar inside) (by decide)

theorem sizeText_length (record : Process) : (sizeText record).length ≤ 2 := by
  unfold sizeText
  split
  · exact twoDigits_length
  · decide

namespace Tabular

theorem pid_printable (tabular : Tabular record) :
    ∀ char ∈ twoDigits record.pid, IsPrintable char := fun char member =>
  digit_printable ((twoDigits_denotes_iff.mpr tabular.pid).2.1 char member)

theorem name_printable (tabular : Tabular record) :
    ∀ char ∈ nameColumn record, IsPrintable char := by
  intro char member
  rcases List.mem_append.mp member with named | padding
  · have first : char ∈ textIn 0 record.name 12 := named
    exact tabular.name char (mem_textIn_of_le (by decide) first)
  · rw [List.eq_of_mem_replicate padding]
    decide

theorem size_printable (tabular : Tabular record) :
    ∀ char ∈ sizeText record ++ CString.ofString "KB", IsPrintable char := by
  refine List.forall_mem_append.mpr ⟨fun char member => ?_, by decide⟩
  unfold sizeText at member
  split at member
  · exact digit_printable ((twoDigits_denotes_iff.mpr tabular.size).2.1 char member)
  · rw [List.mem_singleton.mp member]
    decide

/-- A row has no control characters but its tabs. -/
theorem rowText_chars (tabular : Tabular record) {char : Byte} (member : char ∈ rowText record) :
    IsPrintable char ∨ char = 0x09 := by
  have columns : ∀ entry ∈ stateColumns,
      (entry.1.all fun char => decide (IsPrintable char ∨ char = 0x09)) = true := by decide
  have state := List.all_eq_true.mp (columns _ (stateColumn_member record.state))
  rcases List.mem_append.mp member with pid | member
  · exact Or.inl (tabular.pid_printable char pid)
  rcases List.mem_append.mp member with tab | member
  · exact Or.inr (List.mem_singleton.mp tab)
  rcases List.mem_append.mp member with name | member
  · exact Or.inl (tabular.name_printable char name)
  rcases List.mem_append.mp member with tab | member
  · exact Or.inr (List.mem_singleton.mp tab)
  rcases List.mem_append.mp member with word | size
  · exact of_decide_eq_true (state char word)
  · exact Or.inl (tabular.size_printable char size)

/-- The columns are where the heading says. -/
theorem pid_behind (tabular : Tabular record) :
    behind Vga.tabChar Vga.tabWidth 0 (twoDigits record.pid ++ [0x09]) = 8 := by
  have short : (twoDigits record.pid).length ≤ 2 := twoDigits_length
  rw [Vga.behind_tab (tab_free tabular.pid_printable)]
  omega

theorem name_behind (tabular : Tabular record) :
    behind Vga.tabChar Vga.tabWidth 0
      (twoDigits record.pid ++ [0x09] ++ (nameColumn record ++ [0x09])) = 24 := by
  rw [behind_append, tabular.pid_behind, Vga.behind_tab (tab_free tabular.name_printable),
    nameColumn_length]

theorem state_behind (tabular : Tabular record) :
    behind Vga.tabChar Vga.tabWidth 0
      (twoDigits record.pid ++ [0x09] ++ (nameColumn record ++ [0x09]) ++
        CString.ofString (stateColumn record.state)) = 40 := by
  rw [behind_append, tabular.name_behind, stateColumn_behind]

theorem fits (tabular : Tabular record) : Vga.Fits (rowText record) := by
  constructor
  · have free {mark : Byte} (control : ¬ (IsPrintable mark ∨ mark = 0x09)) :
        mark ∉ rowText record := fun inside => control (tabular.rowText_chars inside)
    exact ⟨free (by decide), free (by decide)⟩
  · have short := sizeText_length record
    have split : rowText record =
        twoDigits record.pid ++ [0x09] ++ (nameColumn record ++ [0x09]) ++
          CString.ofString (stateColumn record.state) ++
          (sizeText record ++ .ofString "KB") := by
      simp only [rowText, List.append_assoc]
    have unit : (CString.ofString "KB").length = 2 := by decide
    rw [split, behind_append, tabular.state_behind, behind_plain (tab_free tabular.size_printable),
      List.length_append, unit, vgaWidth]
    omega

/-- A row that holds the line shows the process. -/
theorem shows (tabular : Tabular record) {v : Vga} {row : Nat}
    (holds : v.HoldsLine row (rowText record)) : v.ShowsProcess row record := by
  have name : Vga.tabChar ∉ listedName record := fun inside =>
    tab_free tabular.name_printable (List.mem_append_left _ inside)
  obtain ⟨tabs, word⟩ := stateColumn_word record.state
  refine ⟨?_, ?_, ?_, ?_⟩
  · exact holds.textAt [] _ rfl rfl (tab_free tabular.pid_printable)
  · refine holds.textAt _ (List.replicate (12 - (listedName record).length) space ++ ([0x09] ++
      (CString.ofString (stateColumn record.state) ++ (sizeText record ++ .ofString "KB")))) ?_
      tabular.pid_behind name
    simp only [rowText, nameColumn, List.append_assoc]
  · refine holds.textAt _ (tabs ++ (sizeText record ++ .ofString "KB")) ?_ tabular.name_behind
      (stateWord_plain record.state)
    simp only [rowText, word, List.append_assoc]
  · refine holds.textAt _ [] ?_ tabular.state_behind (tab_free tabular.size_printable)
    simp only [rowText, List.append_assoc, List.append_nil]

end Tabular

end Columns

theorem tableLines_fit {records : List Process} (tabular : ∀ record ∈ records, Tabular record) :
    ∀ line ∈ tableLines records, Vga.Fits line := by
  intro line member
  rcases List.mem_append.mp member with head | rest
  · simp only [List.mem_cons, List.not_mem_nil, or_false] at head
    rcases head with rfl | rfl | rfl
    · exact ⟨by decide, by decide⟩
    · exact ⟨by decide, by decide⟩
    · exact ⟨by decide, by decide⟩
  · rcases List.mem_append.mp rest with row | blank
    · obtain ⟨record, inside, rfl⟩ := List.mem_map.mp row
      exact (tabular record inside).fits
    · rw [List.mem_singleton.mp blank]
      exact ⟨by decide, by decide⟩

/-- Rows that hold the lines are a table, as long as the heading has not scrolled away. -/
theorem lines_show {records : List Process} (tabular : ∀ record ∈ records, Tabular record) {v : Vga}
    (room : records.length + 3 ≤ v.row)
    (holds : ∀ index line, (tableLines records)[index]? = some line →
      records.length + 4 - index ≤ v.row →
        v.HoldsLine (v.row - (records.length + 4 - index)) line) :
    v.ShowsTable records := by
  have heading : v.HoldsLine (v.row - (records.length + 3)) headingLine :=
    holds 1 headingLine rfl room
  refine ⟨room, ?_, ?_, ?_, ?_, fun index record found => ?_⟩
  · exact heading.textAt [] (.ofString "\tNAME\t\tSTATE\t\tMEMORY") (by decide) rfl (by decide)
  · exact heading.textAt (.ofString "PID\t") (.ofString "\t\tSTATE\t\tMEMORY") (by decide)
      (by decide) (by decide)
  · exact heading.textAt (.ofString "PID\tNAME\t\t") (.ofString "\t\tMEMORY") (by decide)
      (by decide) (by decide)
  · exact heading.textAt (.ofString "PID\tNAME\t\tSTATE\t\t") [] (by decide) (by decide)
      (by decide)
  · obtain ⟨inside, rfl⟩ := List.getElem?_eq_some_iff.mp found
    have line : (tableLines records)[index + 3]? = some (rowText records[index]) := by
      change (records.map rowText ++ [[]])[index]? = _
      rw [List.getElem?_append_left (by rw [List.length_map]; exact inside), List.getElem?_map,
        found, Option.map_some]
    have place : records.length + 4 - (index + 3) = records.length + 1 - index := by omega
    have held := holds (index + 3) _ line (by omega)
    rw [place] at held
    exact (tabular _ (List.getElem_mem inside)).shows held

/-- The records of all processes that can be found, by ascending PID. -/
structure Finds (s : Kernel) (records : List Process) : Prop where
  ascending : records.Pairwise fun first second => first.pid.toNat < second.pid.toNat
  complete : ∀ record, record ∈ records ↔ ∃ pid : Word, s.processFindByPid pid ≠ null ∧
    record = s.process (s.processFindByPid pid) ∧ record.pid = pid

/-- There are not more processes than PIDs. -/
theorem listedRecords_length {image : Image} {s : Kernel} (coherent : s.Coherent image) :
    s.listedRecords.length ≤ 11 := by
  have small : s.listed ⊆ List.range 11 := by
    intro entry member
    obtain ⟨_, bound, _⟩ := listed_record coherent member
    exact List.mem_range.mpr (Nat.lt_succ_of_le bound)
  have different : s.listed.Nodup := List.Nodup.filter _ List.nodup_range
  have counted := (different.subperm small).length_le
  rwa [List.length_range, ← List.length_map] at counted

theorem listedRecords_tabular {image : Image} {s : Kernel} (signed : s.Signed image IsPrintable) :
    ∀ record ∈ s.listedRecords, Tabular record := by
  intro record member
  have coherent := signed.attended.coherent
  obtain ⟨small, size⟩ := listedRecords_bounds coherent member
  obtain ⟨pid, _, same, _⟩ := (mem_listedRecords coherent record).mp member
  refine ⟨by omega, ?_, fun char inside => ?_⟩
  · rw [size]
    decide
  · rw [same] at inside
    exact signed.lettered _ char inside

end Kernel

/-! ## The command -/

/-- What `process_command` prints before the list. -/
def psHeadCalls : List Vga.Call :=
  [.setColor vgaColorWhite vgaColorBlack] ++ coloured vgaColorLightCyan [text "Process List:\n"]

/-- The prompt with the cursor of the driver. -/
def psTailCalls : List Vga.Call :=
  printPromptCalls ++ [.setColor vgaColorWhite vgaColorBlack, .putchar (charByte '_')]

namespace Vga

/-- The cursor stays on its row, and the other rows are as they were. -/
structure SameRow (v w : Vga) : Prop where
  ready : w.ready = true
  row : w.row = v.row
  others : ∀ y x, y < vgaHeight → x < vgaWidth → y ≠ v.row → w.screen y x = v.screen y x

variable {v w t : Vga}

theorem SameRow.trans (first : v.SameRow w) (second : w.SameRow t) : v.SameRow t := by
  refine ⟨second.ready, second.row.trans first.row, fun y x low high other => ?_⟩
  calc t.screen y x = w.screen y x := second.others y x low high fun same =>
          other (same.trans first.row)
    _ = v.screen y x := first.others y x low high other

/-- A text that fits behind the cursor, in some colour. -/
theorem call_stays (ready : v.ready = true) (row : v.row < vgaHeight) {column : Nat}
    (here : v.column = column) (foreground background : Byte) {call : Call} (plain : call.Plain)
    (inLine : InLine call.chars)
    (fits : behind tabChar tabWidth column call.chars < vgaWidth) :
    v.SameRow ((v.setColor foreground background).step call) ∧
      ((v.setColor foreground background).step call).column =
        behind tabChar tabWidth column call.chars := by
  subst here
  have typed := typeset (v := v.setColor foreground background) ready row inLine fits
  rw [step_plain plain]
  refine ⟨⟨typed.ready, typed.row, fun y x low high other => ?_⟩, typed.column⟩
  exact typed.others y x low high (Or.inl other)

/-- The prompt stays on the row of the cursor. -/
theorem prompt_stays (ready : v.ready = true) (row : v.row < vgaHeight) (column : v.column = 0) :
    v.SameRow (run step v psTailCalls) := by
  obtain ⟨name, named⟩ := call_stays ready row column vgaColorLightGreen vgaColorBlack
    (by decide : (Call.print (.ofString "SimpleOS-v1.2.2")).Plain) (by decide) (by decide)
  obtain ⟨sign, signed⟩ := call_stays name.ready (name.row.symm ▸ row) named vgaColorWhite
    vgaColorBlack (by decide : (Call.print (.ofString "> ")).Plain) (by decide) (by decide)
  have both := name.trans sign
  obtain ⟨mark, _⟩ := call_stays both.ready (both.row.symm ▸ row) signed vgaColorWhite
    vgaColorBlack (by decide : (Call.putchar (charByte '_')).Plain) (by decide) (by decide)
  exact both.trans mark

theorem puts_ready (ready : v.ready = true) (chars : CString) :
    (chars.foldl putchar v).ready = true := by
  induction chars generalizing v with
  | nil => exact ready
  | cons char rest ih => exact ih ((v.putchar_ready char).trans ready)

/-- A line that is printed ends in front of a row. -/
theorem line_column (ready : v.ready = true) {call : Call} (plain : call.Plain) {line : CString}
    (chars : call.chars = line ++ [0x0A]) : (v.step call).column = 0 := by
  have newline := putchar_newline (puts_ready ready line)
  rw [step_plain plain, chars, List.foldl_append]
  exact (congrArg column newline).trans (nextRow_column _)

end Vga

namespace System

theorem prompt_output {y : System} (returned : y.session.phase = .returned) :
    y.prompt.output = y.output ++ psTailCalls := by
  have called : ({ y.session with calls := [] } : Session).call.calls =
      [.setColor vgaColorWhite vgaColorBlack, .putchar (charByte '_')] := by
    simp only [Session.call, returned, List.nil_append]
  change y.output ++ printPromptCalls ++ ({ y.session with calls := [] } : Session).call.calls = _
  rw [called, List.append_assoc, psTailCalls]

theorem shellCommand_ps : shellCommand (.ofString "ps") = .ps := by decide +kernel

theorem commandCalls_ps (image : Image) (s : Kernel) (before : ArgumentBuffer → Nat → Byte)
    (saved : CpuState) :
    s.commandCalls image (.ofString "ps")
        (s.processCommand image before saved (.ofString "ps")) =
      psHeadCalls ++ (s.processListAll ++ [text "\n"]) := by
  rw [Kernel.commandCalls, Kernel.processCommand, shellCommand_ps]
  change [.setColor vgaColorWhite vgaColorBlack] ++
    (coloured vgaColorLightCyan [text "Process List:\n"] ++ s.processListAll) ++ [] ++ [] ++
      ([text "\n"] ++ []) = _
  simp only [psHeadCalls, List.append_assoc, List.append_nil]

/-- All calls of the screen in a step that reads `ps`. -/
theorem step_ps (image : Image) {y : System} {input : Input} (shell : y.mode = .shell)
    (reads : y.line? input = some (.ofString "ps")) :
    (y.step image input).output =
      (y.drive (.byte input.byte)).output ++ psHeadCalls ++
        (y.kernel.processListAll ++ [text "\n"]) ++ psTailCalls := by
  obtain ⟨taken, _, ended, _⟩ := step_some image reads
  have fits : ¬ Overruns input.before (.ofString "ps") := fun overruns =>
    absurd overruns.1 (by rw [ParsesArguments, shellCommand_ps]; decide)
  have nonempty : (CString.ofString "ps").length > 0 := by decide
  rw [taken, returned, drive_mode, shell]
  dsimp only
  rw [if_pos nonempty, execute, if_neg fits]
  dsimp only
  rw [shellCommand_ps]
  refine (prompt_output ?_).trans (congrArg (· ++ psTailCalls) ?_)
  · exact ended
  · change (y.drive (.byte input.byte)).output ++ _ = _
    rw [drive_kernel, commandCalls_ps image y.kernel input.before input.saved, List.append_assoc]

/-- The table of a kernel, put on any screen. -/
theorem psCalls_show {image : Image} {s : Kernel} (signed : s.Signed image IsPrintable) {v : Vga}
    (safe : v.Safe) (ready : v.ready = true) :
    (run Vga.step v (psHeadCalls ++ (s.processListAll ++ [text "\n"]) ++ psTailCalls)).ShowsTable
      s.listedRecords := by
  have coherent := signed.attended.coherent
  have tabular := Kernel.listedRecords_tabular signed
  have fit := Kernel.tableLines_fit tabular
  have headColumn : (run Vga.step v psHeadCalls).column = 0 :=
    Vga.line_column
      (v := (v.setColor vgaColorWhite vgaColorBlack).setColor vgaColorLightCyan vgaColorBlack) ready
      (by decide : (text "Process List:\n").Plain)
      (by decide : (text "Process List:\n").chars = CString.ofString "Process List:" ++ [0x0A])
  have headColor : (run Vga.step v psHeadCalls).color = shellColor := rfl
  obtain ⟨headSafe, headReady⟩ := Display.run_sound safe ready psHeadCalls
  have plain : ∀ call ∈ s.processListAll ++ [text "\n"], call.Plain :=
    List.forall_mem_append.mpr ⟨Kernel.processListAll_plain coherent, by decide⟩
  rw [run_append, run_append]
  generalize run Vga.step v psHeadCalls = w at headSafe headColumn headReady headColor
  rw [Vga.run_plain plain, Kernel.written_table coherent]
  have lined := Vga.lined headReady headSafe.row headColumn fit
  generalize (Vga.linesText (Kernel.tableLines s.listedRecords)).foldl Vga.putchar w = t at lined
  have row := lined.row
  have height : vgaHeight = 25 := rfl
  rw [Kernel.tableLines_length] at row
  obtain ⟨_, sameRow, kept⟩ := Vga.prompt_stays lined.ready (by omega) lined.column
  refine Kernel.lines_show tabular ?_ fun index line found inside place member => ?_
  · have few := Kernel.listedRecords_length coherent
    omega
  · rw [sameRow] at inside ⊢
    obtain ⟨below, _⟩ := List.getElem?_eq_some_iff.mp found
    have short := (fit line (List.mem_of_getElem? found)).width
    have written := lined.line index line found
    have bound := (placed_bounds (by decide : 0 < Vga.tabWidth) member).2
    rw [Kernel.tableLines_length] at below written
    refine (kept _ _ ?_ ?_ ?_).trans ?_
    · omega
    · exact Nat.lt_trans bound short
    · omega
    · rw [written inside place member, headColor]

/-- Whatever has been typed before, the line `ps` puts the table of all processes on the screen: the
rows right above the cursor show each process that `process_find_by_pid` finds, by ascending PID,
with its PID, name, state and memory below their headings. -/
theorem ps_shows_table (image : Image) (keyboard : KeyboardState) (memory : Nat → Cell)
    (inputs : List Input) {input : Input}
    (shell : (run (step image) (boot image keyboard) inputs).mode = .shell)
    (reads : (run (step image) (boot image keyboard) inputs).line? input =
      some (.ofString "ps")) :
    let y := run (step image) (boot image keyboard) inputs
    ∃ records, y.kernel.Finds records ∧
      ((y.step image input).screen memory).ShowsTable records := by
  have signed := kernel_signed image keyboard inputs
  have output := step_ps image shell reads
  generalize run (step image) (boot image keyboard) inputs = y at signed output shell reads
  have coherent := signed.attended.coherent
  refine ⟨y.kernel.listedRecords, ⟨Kernel.listedRecords_ascending coherent,
    Kernel.mem_listedRecords coherent⟩, ?_⟩
  obtain ⟨safe, ready⟩ := Display.run_sound (Vga.init_safe memory) rfl
    (y.drive (.byte input.byte)).output
  have shows := psCalls_show signed safe ready
  rw [← run_append, ← List.append_assoc, ← List.append_assoc, ← output] at shows
  exact shows

/-- An entry of the shell with nothing in the buffers before it. -/
def plainEntry (line : String) : Input × CString := (⟨0, fun _ _ => 0, {}⟩, .ofString line)

/-- The table of the kernel process and two processes that were spawned before. -/
theorem ps_shows_table_two_spawned :
    ∃ inputs input,
      let y := run (step .sample) (boot .sample coolingSession.keyboard) inputs
      y.kernel.processFindByPid 2 ≠ null ∧ y.kernel.processFindByPid 3 ≠ null ∧
        ∃ records, y.kernel.Finds records ∧
          ((y.step .sample input).screen fun _ => 0).ShowsTable records := by
  have facts : ∀ h, h = run (Shell.step .sample) ⟨.boot .sample, .shell⟩
        [plainEntry "spawn one", plainEntry "spawn two"] →
      h.mode = .shell ∧ h.kernel.processFindByPid 2 ≠ null ∧
        h.kernel.processFindByPid 3 ≠ null := by
    intro h reached
    rw [reached]
    decide +kernel
  obtain ⟨mode, first, second⟩ := facts _ rfl
  have typable : ∀ entry ∈ [plainEntry "spawn one", plainEntry "spawn two"] ++ [plainEntry "ps"],
      Typable entry.2 := by
    intro entry member
    simp only [List.cons_append, List.nil_append, List.mem_cons, List.not_mem_nil, or_false]
      at member
    rcases member with rfl | rfl | rfl
    · exact ⟨by decide, by decide⟩
    · exact ⟨by decide, by decide⟩
    · exact ⟨by decide, by decide⟩
  obtain ⟨inputs, shell, next⟩ :=
    line_awaited .sample coolingSession.keyboard typable (Or.inl mode)
  rw [← shell] at mode first second
  exact ⟨inputs, (plainEntry "ps").1, first, second,
    ps_shows_table .sample coolingSession.keyboard (fun _ => 0) inputs mode next⟩

end System

end SimpleOS
