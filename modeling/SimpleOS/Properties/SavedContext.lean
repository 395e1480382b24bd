import SimpleOS.Machine.SavedRegisters

/-!
# A save followed by a restore

Every register but `ebx` survives `save_context(process)` and a later
`restore_context(process)`: the stack pointer comes back as it is after the
return of the save, control goes on at its return address.  `ebx` is the base
pointer of `restore_context` up to its jump and is left pointing at the block.
-/

namespace SimpleOS.ContextSwitch

open Library.ByteMemory Library.I386

/-- `u` has the registers of the call of `save_context` in `m`, which returned in `t`. -/
structure BringsBack (m t u : Machine) : Prop where
  general : ∀ register, register ≠ .esp → u.register register = m.register register
  esp : u.register .esp = t.register .esp
  eip : u.eip = m.top
  segments : ∀ segment, segment ≠ .cs → u.segment segment = m.segment segment

/-- A call of `restore_context(process)` with the block as it is in `t`. -/
structure Restoring (program : Assembled) (t r : Machine) (process : Word) : Prop where
  eip : r.eip = program.place restoreEntry
  argument : load r.memory (r.register .esp + 4) = process
  block : ∀ target, InRange (process + cpuStateOffset) 64 target → r.memory target = t.memory target

section RoundTrip

variable {program : Assembled} {m t r : Machine} {process : Word}

/-- A word of the block is the same at the restore. -/
theorem Restoring.word (restoring : Restoring program t r process) {offset : Word}
    (inside : offset.toNat + 4 ≤ 64) :
    load r.memory (process + cpuStateOffset + offset) =
      load t.memory (process + cpuStateOffset + offset) :=
  load_congr fun target hit => restoring.block target (inRange_field inside hit)

theorem Restoring.half (restoring : Restoring program t r process) (segment : Segment) :
    loadHalf r.memory (process + cpuStateOffset + segmentOffset segment) =
      loadHalf t.memory (process + cpuStateOffset + segmentOffset segment) := by
  have bounds := segmentOffset_bounds segment
  refine loadHalf_congr fun target hit => restoring.block target ?_
  rw [InRange] at hit ⊢
  bv_omega

/-- The word `popf` takes lies on the stack of the save, which the block does not reach. -/
theorem Restoring.popApart (restoring : Restoring program t r process)
    (saved : Saved m t process) (apart : BlockApart process (m.register .esp)) :
    PopApart r.memory process := by
  intro target inside hit
  refine apart target inside ?_
  rw [restoring.word (by decide), saved.pointers.esp] at hit
  rw [InRange] at hit ⊢
  bv_omega

/-- What the restore brings back: all of it but `ebx`, which is the address of the block. -/
theorem restored_registers (here : m.eip = program.place saveEntry)
    (argument : load m.memory (m.register .esp + 4) = process)
    (apart : BlockApart process (m.register .esp)) (runs : program.run 39 m = some t)
    (saved : Saved m t process) (restoring : Restoring program t r process) :
    ∃ u, program.run 23 r = some u ∧
      (∀ register, register ≠ .esp → register ≠ .ebx →
        u.register register = m.register register) ∧
      u.register .ebx = process + cpuStateOffset ∧ u.register .esp = t.register .esp ∧
      u.eip = m.top ∧ ∀ segment, segment ≠ .cs → u.segment segment = m.segment segment := by
  have pop := restoring.popApart saved apart
  obtain ⟨general, segments⟩ := saveContext_block program here argument apart runs
  obtain ⟨u, restores, restored⟩ :=
    restoreContext_run program restoring.eip restoring.argument pop
  have rest := restoreContext_rest program restoring.eip restoring.argument pop restores
  refine ⟨u, restores, ?_, restored.ebx, ?_, ?_, ?_⟩
  · intro register notStack notBlock
    cases register with
    | eax => exact rest.eax.trans ((restoring.word (by decide)).trans general.eax)
    | ebx => exact absurd rfl notBlock
    | ecx => exact rest.ecx.trans ((restoring.word (by decide)).trans general.ecx)
    | edx => exact rest.edx.trans ((restoring.word (by decide)).trans general.edx)
    | esi => exact restored.esi.trans ((restoring.word (by decide)).trans general.esi)
    | edi => exact restored.edi.trans ((restoring.word (by decide)).trans general.edi)
    | esp => exact absurd rfl notStack
    | ebp => exact restored.ebp.trans ((restoring.word (by decide)).trans saved.pointers.ebp)
  · rw [saved.register, Function.update_self]
    exact restored.esp.trans ((restoring.word (by decide)).trans saved.pointers.esp)
  · exact restored.eip.trans ((restoring.word (by decide)).trans saved.pointers.eip)
  · intro segment other
    exact (rest.segments segment other).trans ((restoring.half segment).trans (segments segment))

end RoundTrip

/--
A save and a later restore bring back the registers exactly when `ebx` held the
address of the block at the save.
-/
theorem bringsBack_iff (program : Assembled) (m : Machine) (process : Word)
    (here : m.eip = program.place saveEntry)
    (argument : load m.memory (m.register .esp + 4) = process)
    (apart : BlockApart process (m.register .esp)) :
    ∃ t, program.run 39 m = some t ∧ t.eip = m.top ∧
      ∀ r, Restoring program t r process →
        ∃ u, program.run 23 r = some u ∧
          (BringsBack m t u ↔ m.register .ebx = process + cpuStateOffset) := by
  obtain ⟨t, runs, saved⟩ := saveContext_run program here argument apart
  refine ⟨t, runs, saved.eip, fun r restoring => ?_⟩
  obtain ⟨u, restores, general, ebx, esp, eip, segments⟩ :=
    restored_registers here argument apart runs saved restoring
  refine ⟨u, restores, ?_, ?_⟩
  · intro back
    exact (back.general .ebx (by decide)).symm.trans ebx
  · intro onBlock
    refine ⟨fun register notStack => ?_, esp, eip, segments⟩
    by_cases isEbx : register = .ebx
    · rw [isEbx, ebx, onBlock]
    · exact general register notStack isEbx

/-! ## Two calls for a record at 2 MiB -/

/-- A machine that has just called `save_context` with some value in `ebx`. -/
def callingSave (ebx : Word) : Machine where
  register := Function.update (Function.update (fun _ => 0) .esp 0x201800) .ebx ebx
  segment _ := 0x10
  eip := Assembled.sample.place saveEntry
  eflags := 0
  memory := store (fun _ => 0) 0x201804 0x200000

theorem callingSave_argument (ebx : Word) :
    load (callingSave ebx).memory ((callingSave ebx).register .esp + 4) = 0x200000 :=
  load_store_same _ _ _

theorem callingSave_apart (ebx : Word) :
    BlockApart 0x200000 ((callingSave ebx).register .esp) := by
  have esp : (callingSave ebx).register .esp = 0x201800 := rfl
  rw [esp]
  exact apart_of_distance (by decide) (by decide)

/-- The same caller, with the memory the save left, calls `restore_context`. -/
def callingRestore (t : Machine) : Machine where
  register := Function.update (fun _ => 0) .esp 0x201800
  segment _ := 0
  eip := Assembled.sample.place restoreEntry
  eflags := 0
  memory := t.memory

theorem callingRestore_restoring {ebx : Word} {t : Machine}
    (saved : Saved (callingSave ebx) t 0x200000) :
    Restoring Assembled.sample t (callingRestore t) 0x200000 := by
  refine ⟨rfl, (load_congr ?_).trans (callingSave_argument ebx), fun _ _ => rfl⟩
  intro target inside
  have hit : InRange 0x201804 4 target := inside
  apply saved.memory
  · rw [InRange] at hit ⊢
    rw [cpuStateOffset]
    bv_omega
  · change ¬ InRange (0x201800 - 16) 16 target
    rw [InRange] at hit ⊢
    bv_omega

/-- With the address of the block in `ebx`, the round trip is complete. -/
theorem callingSave_brings_back :
    ∃ t u, Assembled.sample.run 39 (callingSave 0x200014) = some t ∧
      Assembled.sample.run 23 (callingRestore t) = some u ∧
      BringsBack (callingSave 0x200014) t u := by
  obtain ⟨t, runs, _, restores⟩ := bringsBack_iff Assembled.sample (callingSave 0x200014) 0x200000
    rfl (callingSave_argument _) (callingSave_apart _)
  obtain ⟨other, again, saved⟩ := saveContext_run Assembled.sample (m := callingSave 0x200014) rfl
    (callingSave_argument _) (callingSave_apart _)
  obtain rfl : t = other := Option.some.inj (runs.symm.trans again)
  obtain ⟨u, ends, back⟩ := restores (callingRestore t) (callingRestore_restoring saved)
  exact ⟨t, u, runs, ends, back.mpr (by decide)⟩

/-- With zero in `ebx`, the caller finds the address of the block there. -/
theorem callingSave_loses_ebx :
    ¬ ∀ (program : Assembled) (m t r u : Machine) (process : Word),
      m.eip = program.place saveEntry → load m.memory (m.register .esp + 4) = process →
      BlockApart process (m.register .esp) → program.run 39 m = some t →
      Restoring program t r process → program.run 23 r = some u → BringsBack m t u := by
  intro always
  obtain ⟨t, runs, saved⟩ := saveContext_run Assembled.sample (m := callingSave 0) rfl
    (callingSave_argument _) (callingSave_apart _)
  have restoring := callingRestore_restoring saved
  obtain ⟨u, restores, _, ebx, _⟩ := restored_registers (m := callingSave 0) rfl
    (callingSave_argument _) (callingSave_apart _) runs saved restoring
  have back := always Assembled.sample (callingSave 0) t (callingRestore t) u 0x200000 rfl
    (callingSave_argument _) (callingSave_apart _) runs restoring restores
  have kept : u.register .ebx = 0 := back.general .ebx (by decide)
  rw [ebx] at kept
  revert kept
  decide

end SimpleOS.ContextSwitch
