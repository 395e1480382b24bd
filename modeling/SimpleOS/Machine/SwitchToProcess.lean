import SimpleOS.Machine.ContextSwitch

/-!
# switch_to_process

The last routine of `context_switch.asm`, behind the three others.  It stores
its argument in `current_process`, reads the variable back as the old process
and calls `context_switch` with the same process twice, so that `save_context`
writes into the block the process was to be started from.
-/

namespace SimpleOS.ContextSwitch

open Library.ByteMemory Library.I386

def startEntry : Nat := 76

/-- The last instruction of `restore_context`. -/
def restoreJump : Nat := 61

/-- `switch_to_process` up to its call; the variable lies at `currentProcess`. -/
def startHead (currentProcess : Word) : List Instruction :=
  [.load .eax .esp 4, .storeAbsolute currentProcess .eax, .push .eax,
    .pushAbsolute currentProcess]

/-- `switch_to_process(new_process)`. -/
def switchToProcess (currentProcess : Word) : List Instruction :=
  startHead currentProcess ++ [.call switchEntry, .addImmediate .esp 8, .ret]

/-- The four routines assembled at some addresses, with the address of `current_process`. -/
structure AssembledAll extends Library.I386.Program where
  currentProcess : Word
  code_eq : toProgram.code = ContextSwitch.code ++ switchToProcess currentProcess

namespace AssembledAll

variable (program : AssembledAll)

theorem straight (index : Nat) (block : List Instruction)
    (stands : ((ContextSwitch.code ++ switchToProcess program.currentProcess).drop index).take
      block.length = block)
    (straight : ∀ instruction ∈ block, instruction.straight = true) :
    program.StraightAt index block := by
  refine ⟨?_, straight⟩
  rw [program.code_eq]
  exact stands

theorem fetched (index : Nat) (instruction : Instruction)
    (stands : (ContextSwitch.code ++ switchToProcess program.currentProcess)[index]? =
      some instruction) : program.code[index]? = some instruction := by
  rw [program.code_eq]
  exact stands

theorem length_eq : program.code.length = 83 := by
  rw [program.code_eq]
  rfl

/-- Different instructions stand at different addresses. -/
theorem place_ne {first second : Nat} (firstBound : first < 83) (secondBound : second < 83)
    (different : first ≠ second) : program.place first ≠ program.place second := fun same =>
  different (program.distinct first (program.length_eq ▸ firstBound) second
    (program.length_eq ▸ secondBound) same)

/-- A block without branches before or behind the last instruction of `restore_context`. -/
theorem bypasses_straight {m : Machine} (index : Nat) (block : List Instruction)
    (stands : ((ContextSwitch.code ++ switchToProcess program.currentProcess).drop index).take
      block.length = block)
    (straight : ∀ instruction ∈ block, instruction.straight = true)
    (here : m.eip = program.place index) (bound : index + block.length ≤ 83)
    (away : index + block.length ≤ restoreJump ∨ restoreJump < index) :
    Program.Bypasses program.toProgram restoreJump block.length m
      { effects m block with eip := program.place (index + block.length) } := by
  refine Program.Bypasses.straight (program.straight index block stands straight) here ?_
  intro offset inside
  have jump : restoreJump = 61 := rfl
  exact program.place_ne (by omega) (by omega) (by omega)

theorem bypasses_one {m : Machine} (index : Nat) (instruction : Instruction)
    (stands : (ContextSwitch.code ++ switchToProcess program.currentProcess)[index]? =
      some instruction)
    (here : m.eip = program.place index) (bound : index < 83) (away : index ≠ restoreJump) :
    Program.Bypasses program.toProgram restoreJump 1 m
      (program.execute m index instruction) :=
  Program.Bypasses.one (program.fetched index instruction stands) here
    (program.place_ne bound (by decide) away)

end AssembledAll

/-- The routines assembled at 1 MiB, one instruction every four bytes. -/
def AssembledAll.sample : AssembledAll where
  code := code ++ switchToProcess 0x180000
  place index := BitVec.ofNat 32 (0x100000 + 4 * index)
  distinct := by
    intro first firstBound second secondBound same
    have values := congrArg BitVec.toNat same
    simp only [BitVec.toNat_ofNat] at values
    change first < 83 at firstBound
    change second < 83 at secondBound
    omega
  currentProcess := 0x180000
  code_eq := rfl

/-! ## The way to the first store of save_context -/

/-- `switch_to_process(process)` has just been called. -/
structure Starts (program : AssembledAll) (m : Machine) (process : Word) : Prop where
  eip : m.eip = program.place startEntry
  argument : load m.memory (m.register .esp + 4) = process

/-- The variable and the word `switch_to_process` pushes first do not overlap. -/
def VariableApart (program : AssembledAll) (stack : Word) : Prop :=
  Apart program.currentProcess 4 (stack - 4) 4

section Way

variable {program : AssembledAll} {m t : Machine} {process : Word}

/-- Control is at `save_context` with the process as its argument. -/
structure SavesItself (program : AssembledAll) (t : Machine) (process : Word) : Prop where
  eip : t.eip = program.place saveEntry
  argument : load t.memory (t.register .esp + 4) = process

theorem startHead_effects (argument : load m.memory (m.register .esp + 4) = process)
    (apart : VariableApart program (m.register .esp)) :
    (effects m (startHead program.currentProcess)).register .esp = m.register .esp - 8 ∧
      load (effects m (startHead program.currentProcess)).memory (m.register .esp - 8) =
        process := by
  have below := sub_sub_word (m.register .esp) 4#32 4#32
  have readBack := load_store_apart
    (store m.memory program.currentProcess process) process apart
  rw [load_store_same] at readBack
  simp only [BitVec.ofNat_eq_ofNat] at argument readBack
  refine ⟨?_, ?_⟩
  · simp [effects, startHead, Instruction.effect, below]
  · simp [effects, startHead, Instruction.effect, argument, below, readBack]

/-- `context_switch` is called with the process as its own successor. -/
theorem switchToProcess_calls (starts : Starts program m process)
    (apart : VariableApart program (m.register .esp)) :
    ∃ t, Program.Bypasses program.toProgram restoreJump 5 m t ∧
      t.eip = program.place switchEntry ∧ load t.memory (t.register .esp + 4) = process := by
  have head := program.bypasses_straight startEntry (startHead program.currentProcess) rfl
    (by simp [startHead, Instruction.straight]) starts.eip
    (show startEntry + 4 ≤ 83 by decide) (.inr (by decide))
  obtain ⟨esp, word⟩ := startHead_effects starts.argument apart
  generalize effects m (startHead program.currentProcess) = u at head esp word
  have call := program.bypasses_one (m := { u with eip := program.place 80 }) 80
    (.call switchEntry) rfl rfl (by decide) (by decide)
  refine ⟨_, head.trans call, rfl, ?_⟩
  have above : Apart (m.register .esp - 8) 4 (m.register .esp - 12) 4 :=
    below_argument_apart (m.register .esp)
  have kept := load_store_apart u.memory (program.place 81) above
  have back : m.register .esp - 12 + 4 = m.register .esp - 8 := pop_twelve (m.register .esp)
  have top := sub_sub_word (m.register .esp) 8#32 4#32
  simp only [BitVec.ofNat_eq_ofNat] at esp word kept back
  simp [Program.execute, esp, top, back, kept, word]

/-- From there `save_context` is called for the process itself. -/
theorem contextSwitch_saves_itself (here : m.eip = program.place switchEntry)
    (argument : load m.memory (m.register .esp + 4) = process) (nonnull : process ≠ null) :
    ∃ t, Program.Bypasses program.toProgram restoreJump 7 m t ∧
      SavesItself program t process := by
  have head := program.bypasses_straight switchEntry switchHead rfl (by decide) here
    (by decide) (.inr (by decide))
  obtain ⟨esp, _, eax, zero, _⟩ := switchHead_effects argument
  generalize effects m switchHead = u at head esp eax zero
  have test := program.bypasses_one (m := { u with eip := program.place 66 }) 66 (.jz noSave)
    rfl rfl (by decide) (by decide)
  have falls : program.execute { u with eip := program.place 66 } 66 (.jz noSave) =
      { u with eip := program.place 67 } := by
    have different : ¬ process = 0#32 := nonnull
    simp [Program.execute, zero, different]
  rw [falls] at test
  have pushed := program.bypasses_one (m := { u with eip := program.place 67 }) 67 (.push .eax)
    rfl rfl (by decide) (by decide)
  have call := program.bypasses_one
    (m := program.execute { u with eip := program.place 67 } 67 (.push .eax)) 68
    (.call saveEntry) rfl rfl (by decide) (by decide)
  refine ⟨_, ((head.trans test).trans pushed).trans call, rfl, ?_⟩
  have below := sub_sub_word (m.register .esp) 4#32 4#32
  have top := sub_sub_word (m.register .esp) 8#32 4#32
  have kept := load_store_apart (store u.memory (m.register .esp - 8#32) process)
    (program.place 69) (below_argument_apart (m.register .esp))
  rw [load_store_same] at kept
  simp [Program.execute, Instruction.effect, esp, eax, below, top, pop_twelve]
  exact kept

/-- The first store of `save_context` goes into the block. -/
theorem saveContext_writes_block (saves : SavesItself program t process) :
    ∃ u, Program.Bypasses program.toProgram restoreJump 6 t u ∧
      u.eip = program.place 6 ∧
      ∀ more, (process + cpuStateOffset + eaxOffset, 4) ∈ program.footprint (more + 1) u := by
  have head := program.bypasses_straight saveEntry savePrologue rfl (by decide) saves.eip
    (by decide) (.inl (by decide))
  have block := (savePrologue_saving saves.argument).block
  generalize effects t savePrologue = u at head block
  refine ⟨_, head, rfl, fun more => ?_⟩
  rw [Program.footprint_at (program.fetched 6 (.store .ebx eaxOffset .eax) rfl) rfl]
  apply List.mem_append_left
  rw [← block]
  exact List.mem_cons_self

/-- No run reaches the end of `restore_context` without having written the block. -/
theorem switchToProcess_writes_block (starts : Starts program m process)
    (apart : VariableApart program (m.register .esp)) (nonnull : process ≠ null) {count : Nat}
    {u : Machine} (runs : program.run count m = some u)
    (jumps : u.eip = program.place restoreJump) :
    (process + cpuStateOffset + eaxOffset, 4) ∈ program.footprint count m := by
  obtain ⟨called, calls, calledAt, argument⟩ := switchToProcess_calls starts apart
  obtain ⟨saving, enters, itself⟩ := contextSwitch_saves_itself calledAt argument nonnull
  obtain ⟨storing, prologue, storingAt, writes⟩ := saveContext_writes_block itself
  have way : Program.Bypasses program.toProgram restoreJump 18 m storing :=
    (calls.trans enters).trans prologue
  have late : 18 < count := by
    rcases Nat.lt_trichotomy count 18 with before | reached | behind
    · exact absurd jumps (way.away count before u runs)
    · rw [reached, way.runs] at runs
      obtain rfl := Option.some.inj runs
      exact absurd (storingAt.symm.trans jumps)
        (program.place_ne (by decide) (by decide) (by decide))
    · exact behind
  obtain ⟨more, rfl⟩ : ∃ more, count = 18 + (more + 1) := ⟨count - 19, by omega⟩
  rw [Program.footprint_add (more + 1) way.runs]
  exact List.mem_append_right _ (writes more)

end Way

end SimpleOS.ContextSwitch
