import Mathlib.Data.List.GetD
import SimpleOS.Invariant.Lettered
import SimpleOS.System.Lines

/-!
# Names from the keyboard

The characters of a name come from a command line, and those come from the keys:
no byte of the port gets a control character into a name.
-/

namespace SimpleOS

open Library.ByteMemory Library.GuardedRun Library.Words

namespace Kernel

/-- The operations of a command bring in no other characters than those of the line. -/
theorem processCommand_gives {letter : Byte → Prop} (image : Image)
    (before : ArgumentBuffer → Nat → Byte) (saved : CpuState) (s : Kernel) {command : CString}
    (free : 0 ∉ command) (letters : ∀ char ∈ command, letter char) :
    ∀ op ∈ (s.processCommand image before saved command).performed, op.Gives letter := by
  have one {op : ProcessOp} (gives : op.Gives letter) : ∀ other ∈ [op], other.Gives letter :=
    fun other member => List.mem_singleton.mp member ▸ gives
  have none : ∀ other ∈ ([] : List ProcessOp), other.Gives letter := fun _ member =>
    absurd member List.not_mem_nil
  unfold processCommand
  split
  · unfold spawnCommand
    dsimp only
    split
    · exact none
    · refine one fun char member => ?_
      change char ∈ (parseArguments before command).2.string .arg1 at member
      rw [parseArguments_arg1 before free] at member
      rcases Nat.lt_or_ge 1 (words isSpace command).length with named | bare
      · rw [List.getD_eq_getElem _ _ named] at member
        exact letters char (mem_of_mem_words isSpace (List.getElem_mem named) member)
      · rw [List.getD_eq_default _ _ bare] at member
        exact absurd member List.not_mem_nil
  · unfold pkillCommand
    dsimp only
    split
    · exact none
    · split
      · exact none
      · exact one trivial
  · unfold pstatusCommand
    dsimp only
    split
    · exact none
    · split
      · exact none
      · split
        · exact none
        · exact one trivial
  · exact one trivial
  · exact one fun char member => letters char (List.mem_of_mem_drop member)
  · exact none
  · exact one trivial
  · unfold pchCommand
    split
    · exact none
    · split
      · exact one trivial
      · exact none
  all_goals exact none

/-- A kernel that the shell attends to, with nothing but letters in its names. -/
structure Signed (image : Image) (letter : Byte → Prop) (s : Kernel) : Prop where
  attended : s.Attended image
  lettered : s.Lettered letter

namespace Signed

variable {image : Image} {letter : Byte → Prop} {s : Kernel}

theorem step (signed : s.Signed image letter) {op : ProcessOp} (ofShell : op.OfShell)
    (gives : op.Gives letter) : (s.step image op).Signed image letter := by
  refine ⟨signed.attended.step ofShell, signed.lettered.step ?_ gives⟩
  exact signed.attended.coherent.sparesRecords (ofShell.statusOutside image)

theorem run (signed : s.Signed image letter) {ops : List ProcessOp}
    (ofShell : ∀ op ∈ ops, op.OfShell) (gives : ∀ op ∈ ops, op.Gives letter) :
    (Library.GuardedRun.run (Kernel.step image) s ops).Signed image letter := by
  induction ops generalizing s with
  | nil => exact signed
  | cons op rest ih =>
      have here := signed.step (ofShell op List.mem_cons_self) (gives op List.mem_cons_self)
      exact ih here (fun other member => ofShell other (List.mem_cons_of_mem op member))
        fun other member => gives other (List.mem_cons_of_mem op member)

/-- A command line of letters. -/
theorem processCommand (signed : s.Signed image letter) (before : ArgumentBuffer → Nat → Byte)
    (saved : CpuState) {command : CString} (free : 0 ∉ command)
    (letters : ∀ char ∈ command, letter char) :
    (s.processCommand image before saved command).kernel.Signed image letter := by
  rw [s.processCommand_kernel image before saved command]
  exact signed.run (s.processCommand_ofShell image before saved command)
    (s.processCommand_gives image before saved free letters)

/-- The state in which `schedule` hands over. -/
theorem transfer (signed : s.Signed image letter) {saved : CpuState} {transfer : Transfer}
    (transfers : s.transfer? saved = some transfer) : transfer.kernel.Signed image letter := by
  refine ⟨signed.attended.transfer transfers, ?_⟩
  rcases Classical.em (s.readyQueueHead = null) with idle | queued
  · rw [transfer?, if_pos idle] at transfers
    split at transfers
    · cases transfers
      exact signed.lettered.contextSwitch saved s.currentProcess s.kernelProcess
    · cases transfers
  · have same := schedule_eq_afterTransfer s saved
    rw [transfers] at same
    simp only [afterTransfer, if_neg queued] at same
    have scheduled : (s.schedule saved).Lettered letter := signed.lettered.schedule saved
    exact same ▸ scheduled

end Signed

end Kernel

namespace Shell

variable {image : Image} {letter : Byte → Prop} {h : Shell}

theorem execute_signed (signed : h.kernel.Signed image letter) (input : Input) {command : CString}
    (free : 0 ∉ command) (letters : ∀ char ∈ command, letter char) :
    (h.execute image input command).kernel.Signed image letter := by
  unfold execute
  split
  · exact signed
  · split
    · exact signed
    · split
      · next transfers =>
          split at transfers
          · exact signed.transfer transfers
          · cases transfers
      · exact signed.processCommand input.before input.saved free letters

theorem step_signed (signed : h.kernel.Signed image letter) (entry : Input × CString)
    (free : 0 ∉ entry.2) (letters : ∀ char ∈ entry.2, letter char) :
    (h.step image entry).kernel.Signed image letter := by
  unfold step
  split
  · split
    · exact signed
    · exact execute_signed signed entry.1 free letters
  · split
    · exact signed
    · exact signed
  · exact signed
  · exact signed

/-- Lines that can be typed. -/
theorem run_signed (signed : h.kernel.Signed image IsPrintable) {entries : List (Input × CString)}
    (typable : ∀ entry ∈ entries, Typable entry.2) :
    (run (step image) h entries).kernel.Signed image IsPrintable := by
  induction entries generalizing h with
  | nil => exact signed
  | cons entry rest ih =>
      have line := typable entry List.mem_cons_self
      have free : 0 ∉ entry.2 := fun inside => absurd (line.printable 0 inside) (by decide)
      exact ih (step_signed signed entry free line.printable) fun other member =>
        typable other (List.mem_cons_of_mem entry member)

end Shell

namespace System

theorem kernel_signed (image : Image) (keyboard : KeyboardState) (inputs : List Input) :
    (run (step image) (boot image keyboard) inputs).kernel.Signed image IsPrintable := by
  have boots : (Kernel.boot image).Signed image IsPrintable :=
    ⟨Kernel.boot_attended image, Kernel.boot_lettered image (by decide)⟩
  have shell := run_shell (boot_sound image keyboard) (fun _ => boot_reads image keyboard) inputs
  have lines := Session.linesRead_typable (Session.init_reading keyboard) inputs
  have ends := Shell.run_signed (h := (boot image keyboard).shell) boots lines
  rw [← shell] at ends
  exact ends

/--
Whatever bytes arrive, all names in all records are made of printable characters
until control is handed over; `context_switch` then stores registers over a name.
-/
theorem names_printable (image : Image) (keyboard : KeyboardState) (inputs : List Input) :
    Always (step image) (fun y => y.mode ≠ .away → y.kernel.Lettered IsPrintable)
      (boot image keyboard) inputs := by
  rw [always_iff_prefixes]
  exact fun taken _ _ _ => (kernel_signed image keyboard taken).lettered

end System

end SimpleOS
