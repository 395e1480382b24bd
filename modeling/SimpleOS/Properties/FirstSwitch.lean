import SimpleOS.Machine.SwitchToProcess

/-!
# Starting a process from its saved block

`switch_to_process` is how a process is started when nobody is current.  It
passes the process to `context_switch` as the old one too, so the registers of
the caller are saved over the block before anything is restored from it.
-/

namespace SimpleOS.ContextSwitch

open Library.ByteMemory Library.I386

/-- The word saved at an offset of the block. -/
def savedWord (memory : Memory) (process offset : Word) : Word :=
  load memory (process + cpuStateOffset + offset)

/--
The call in `m` reaches the jump of `restore_context` in `u` and goes on in `t`
with the registers and flags that the block held at the call; until the jump it
has written no byte of the block.
-/
structure Restarts (program : AssembledAll) (m : Machine) (process : Word) (count : Nat)
    (u t : Machine) : Prop where
  runs : program.run count m = some u
  jumps : u.eip = program.place restoreJump
  steps : program.step u = some t
  eip : t.eip = savedWord m.memory process eipOffset
  esp : t.register .esp = savedWord m.memory process espOffset
  ebp : t.register .ebp = savedWord m.memory process ebpOffset
  eax : t.register .eax = savedWord m.memory process eaxOffset
  ecx : t.register .ecx = savedWord m.memory process ecxOffset
  edx : t.register .edx = savedWord m.memory process edxOffset
  esi : t.register .esi = savedWord m.memory process esiOffset
  edi : t.register .edi = savedWord m.memory process ediOffset
  eflags : t.eflags = savedWord m.memory process eflagsOffset
  untouched : ∀ range ∈ program.footprint count m, ∀ target, InRange range.1 range.2 target →
    ¬ InRange (process + cpuStateOffset) 64 target

section Start

variable {program : AssembledAll} {m u t : Machine} {process : Word} {count : Nat}

/-- Every run to that jump has written the word of `eax`. -/
theorem Restarts.absurd (restarts : Restarts program m process count u t)
    (starts : Starts program m process) (apart : VariableApart program (m.register .esp))
    (nonnull : process ≠ null) : False := by
  have written := switchToProcess_writes_block starts apart nonnull restarts.runs restarts.jumps
  have inWord : InRange (process + cpuStateOffset + eaxOffset) 4
      (process + cpuStateOffset + eaxOffset) := inRange_start _ (by decide)
  exact restarts.untouched _ written _ inWord (inRange_field (by decide) inWord)

end Start

/-- Whatever the block and the registers hold, `switch_to_process` does not start the process. -/
theorem switchToProcess_never_restarts (program : AssembledAll) (m : Machine) (process : Word)
    (starts : Starts program m process) (apart : VariableApart program (m.register .esp))
    (nonnull : process ≠ null) : ¬ ∃ count u t, Restarts program m process count u t := by
  rintro ⟨count, u, t, restarts⟩
  exact restarts.absurd starts apart nonnull

/-- A machine that has just called `switch_to_process` for a record at 2 MiB. -/
def startingCall : Machine where
  register := Function.update (fun _ => 0) .esp 0x201800
  segment _ := 0
  eip := AssembledAll.sample.place startEntry
  eflags := 0
  memory := store (fun _ => 0) 0x201804 0x200000

theorem startingCall_starts : Starts AssembledAll.sample startingCall 0x200000 :=
  ⟨rfl, load_store_same _ _ _⟩

theorem startingCall_apart :
    VariableApart AssembledAll.sample (startingCall.register .esp) :=
  apart_of_distance (by decide) (by decide)

theorem startingCall_never_restarts :
    ¬ ∃ count u t, Restarts AssembledAll.sample startingCall 0x200000 count u t :=
  switchToProcess_never_restarts AssembledAll.sample startingCall 0x200000 startingCall_starts
    startingCall_apart (by decide)

/-- That call refutes that a process is started from its saved block. -/
theorem startingCall_overwrites_block :
    ¬ ∀ (program : AssembledAll) (m : Machine) (process : Word), Starts program m process →
      VariableApart program (m.register .esp) → process ≠ null →
      ∃ count u t, Restarts program m process count u t := by
  intro always
  obtain ⟨count, u, t, restarts⟩ := always AssembledAll.sample startingCall 0x200000
    startingCall_starts startingCall_apart (by decide)
  exact restarts.absurd startingCall_starts startingCall_apart (by decide)

end SimpleOS.ContextSwitch
