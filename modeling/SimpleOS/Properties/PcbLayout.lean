import SimpleOS.Machine.ContextSwitch

/-!
# The process control block in assembly and in C

The assembly takes the saved registers to lie 20 bytes into `process_t`; in the
C declaration the 64-byte name comes first, and `cpu_state` starts at byte 84.
`save_context` therefore overwrites the name, the state, the priority and the
exit code, and `restore_context` takes registers from there.
-/

namespace SimpleOS.ContextSwitch

open Library.ByteMemory Library.I386

/-- The record that C code reads at an address. -/
def recordAt (memory : Memory) (process : Word) : Process :=
  Process.ofMemory fun offset => memory (process + BitVec.ofNat 32 offset)

/-- The offset of `cpu_state` in `process_t`: two words, the name and three words come first. -/
def cpuStatePlace : Word := 84

/-- The C declaration has the sixteen saved registers from `cpuStatePlace` on. -/
theorem cpuState_place (process : Process) :
    (process.words.drop (cpuStatePlace.toNat / 4)).take 16 =
      [process.cpuState.eax, process.cpuState.ebx, process.cpuState.ecx, process.cpuState.edx,
        process.cpuState.esi, process.cpuState.edi, process.cpuState.esp, process.cpuState.ebp,
        process.cpuState.eip, process.cpuState.eflags, process.cpuState.cs, process.cpuState.ds,
        process.cpuState.es, process.cpuState.fs, process.cpuState.gs, process.cpuState.ss] := rfl

def saveContextSteps : Nat := 39
def restoreContextSteps : Nat := 23

/-- Each general register, with its field. -/
def CpuState.general (state : CpuState) : Register → Word
  | .eax => state.eax
  | .ebx => state.ebx
  | .ecx => state.ecx
  | .edx => state.edx
  | .esi => state.esi
  | .edi => state.edi
  | .esp => state.esp
  | .ebp => state.ebp

/-- Each segment register, with its field. -/
def CpuState.segments (state : CpuState) : Segment → Word
  | .cs => state.cs
  | .ds => state.ds
  | .es => state.es
  | .fs => state.fs
  | .gs => state.gs
  | .ss => state.ss

/-- `save_context(process)`, called in `m`, saves into the `cpu_state` of the C declaration. -/
structure SavesAsDeclared (program : Assembled) (m : Machine) (process : Word) : Prop where
  confined : ∀ range ∈ program.footprint saveContextSteps m, ∀ target,
    InRange range.1 range.2 target → InRange process processSize target →
    InRange (process + cpuStatePlace) 64 target
  general : ∀ t, program.run saveContextSteps m = some t → ∀ register, register ≠ .esp →
    CpuState.general (recordAt t.memory process).cpuState register = m.register register
  stack : ∀ t, program.run saveContextSteps m = some t →
    (recordAt t.memory process).cpuState.esp = m.register .esp + 4
  eip : ∀ t, program.run saveContextSteps m = some t →
    (recordAt t.memory process).cpuState.eip = m.top
  eflags : ∀ t, program.run saveContextSteps m = some t →
    (recordAt t.memory process).cpuState.eflags &&& ~~~ statusMask = m.eflags &&& ~~~ statusMask
  segments : ∀ t, program.run saveContextSteps m = some t → ∀ segment,
    lowHalf (CpuState.segments (recordAt t.memory process).cpuState segment) = m.segment segment

/-- `restore_context(process)`, called in `m`, restores from the `cpu_state` of the C
declaration. -/
structure RestoresAsDeclared (program : Assembled) (m : Machine) (process : Word) : Prop where
  general : ∀ t, program.run restoreContextSteps m = some t → ∀ register,
    t.register register = CpuState.general (recordAt m.memory process).cpuState register
  eip : ∀ t, program.run restoreContextSteps m = some t →
    t.eip = (recordAt m.memory process).cpuState.eip
  eflags : ∀ t, program.run restoreContextSteps m = some t →
    t.eflags = (recordAt m.memory process).cpuState.eflags
  segments : ∀ t, program.run restoreContextSteps m = some t → ∀ segment, segment ≠ .cs →
    t.segment segment =
      lowHalf (CpuState.segments (recordAt m.memory process).cpuState segment)

/-- The assembly and the C declaration agree on one record: when it is saved in `m` and when it
is restored in `r`. -/
def AgreesWithC (program : Assembled) (m r : Machine) (process : Word) : Prop :=
  SavesAsDeclared program m process ∧ RestoresAsDeclared program r process

section Layout

variable {program : Assembled} {m r : Machine} {process : Word}

/-- `save_context` writes the word of `eax` into the name. -/
theorem saveContext_writes_name (here : m.eip = program.place saveEntry)
    (argument : load m.memory (m.register .esp + 4) = process) :
    (process + cpuStateOffset + eaxOffset, 4) ∈ program.footprint saveContextSteps m := by
  have written := Program.footprint_straight 1
    (program.straight saveEntry saveBody (by decide) (by decide)) here
  have pointer := (savePrologue_saving argument).block
  change program.footprint saveContextSteps m = _ at written
  rw [written, saveBody, blockWrites_append, ← pointer]
  apply List.mem_append_left
  apply List.mem_append_right
  exact List.mem_cons_self

/-- No call of `save_context` stays inside the declared `cpu_state`. -/
theorem not_savesAsDeclared (here : m.eip = program.place saveEntry)
    (argument : load m.memory (m.register .esp + 4) = process) :
    ¬ SavesAsDeclared program m process := by
  intro declared
  have start : process + cpuStateOffset + eaxOffset - process = 20 := by
    rw [cpuStateOffset, eaxOffset]
    bv_omega
  have inWord : InRange (process + cpuStateOffset + eaxOffset) 4
      (process + cpuStateOffset + eaxOffset) := by
    rw [InRange, BitVec.sub_self]
    decide
  have inRecord : InRange process processSize (process + cpuStateOffset + eaxOffset) := by
    rw [InRange, start]
    decide
  have inState := declared.confined _ (saveContext_writes_name here argument) _ inWord inRecord
  rw [InRange, cpuStateOffset, eaxOffset, cpuStatePlace] at inState
  bv_omega

/-- The word `restore_context` reads at an offset lies in the name when the C name reaches there. -/
theorem load_field_eq_name (memory : Memory) (process : Word) {offset place : Nat}
    (inName : place + 4 ≤ 64) (same : cpuStateOffset.toNat + offset = 8 + place) :
    load memory (process + cpuStateOffset + BitVec.ofNat 32 offset) =
      ofBytes fun byte => (recordAt memory process).name (place + byte) := by
  apply ofBytes_congr
  intro byte bound
  have address : process + cpuStateOffset + BitVec.ofNat 32 offset + BitVec.ofNat 32 byte =
      process + BitVec.ofNat 32 (8 + (place + byte)) := by
    rw [show cpuStateOffset.toNat = 20 from rfl] at same
    rw [show 8 + (place + byte) = 20 + offset + byte by omega, BitVec.ofNat_add, BitVec.ofNat_add,
      BitVec.add_assoc, BitVec.add_assoc, BitVec.add_assoc]
    rfl
  have inside : place + byte < 64 := by omega
  simp only [recordAt, Process.ofMemory, if_pos inside, address]

/-- `restore_context` jumps to the address that bytes 44 to 47 of the name hold, on the stack
that bytes 36 to 39 hold. -/
theorem restoreContext_reads_name (here : m.eip = program.place restoreEntry)
    (argument : load m.memory (m.register .esp + 4) = process) (apart : PopApart m.memory process) :
    ∃ t, program.run restoreContextSteps m = some t ∧
      t.eip = (ofBytes fun byte => (recordAt m.memory process).name (44 + byte)) ∧
      t.register .esp = (ofBytes fun byte => (recordAt m.memory process).name (36 + byte)) := by
  obtain ⟨t, runs, restored⟩ := restoreContext_run program here argument apart
  refine ⟨t, runs, restored.eip.trans ?_, restored.esp.trans ?_⟩
  · exact load_field_eq_name m.memory process (by decide) rfl
  · exact load_field_eq_name m.memory process (by decide) rfl

/-- Whatever the record and the registers hold, the assembly and the C declaration disagree. -/
theorem agreesWithC_never (saving : m.eip = program.place saveEntry)
    (argument : load m.memory (m.register .esp + 4) = process) :
    ∀ r, ¬ AgreesWithC program m r process := fun _ agrees =>
  not_savesAsDeclared saving argument agrees.1

end Layout

/-- A machine that has just called `save_context` for a record at 2 MiB. -/
def savingCall : Machine where
  register := Function.update (fun _ => 0) .esp 0x201800
  segment _ := 0
  eip := Assembled.sample.place saveEntry
  eflags := 0
  memory := store (fun _ => 0) 0x201804 0x200000

theorem savingCall_argument : load savingCall.memory (savingCall.register .esp + 4) = 0x200000 :=
  load_store_same _ _ _

/-- One call of `save_context`. -/
theorem agreesWithC_never_sample : ¬ AgreesWithC Assembled.sample savingCall savingCall 0x200000 :=
  agreesWithC_never rfl savingCall_argument savingCall

/-- That call refutes the agreement of the two layouts. -/
theorem save_call_writes_name :
    ¬ ∀ (program : Assembled) (m r : Machine) (process : Word),
      m.eip = program.place saveEntry → load m.memory (m.register .esp + 4) = process →
      r.eip = program.place restoreEntry → load r.memory (r.register .esp + 4) = process →
      AgreesWithC program m r process := by
  intro always
  have restoring : load { savingCall with eip := Assembled.sample.place restoreEntry }.memory
      (savingCall.register .esp + 4) = 0x200000 := savingCall_argument
  have agrees := always Assembled.sample savingCall
    { savingCall with eip := Assembled.sample.place restoreEntry } 0x200000 rfl
    savingCall_argument rfl restoring
  exact not_savesAsDeclared rfl savingCall_argument agrees.1

end SimpleOS.ContextSwitch
