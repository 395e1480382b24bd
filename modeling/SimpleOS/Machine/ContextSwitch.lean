import SimpleOS.Library.I386
import SimpleOS.Kernel.Record

/-!
# The context switch routines

`save_context`, `restore_context` and `context_switch` of
`context_switch.asm`, in the order and with the offsets of the source, as one
program.  Jump targets are instruction indices: `save_context` starts at 0,
`restore_context` at 39, `context_switch` at 62 and `.no_save` at 70.
-/

namespace SimpleOS.ContextSwitch

open Library.ByteMemory Library.I386

/-- `CPU_STATE_OFFSET`. -/
def cpuStateOffset : Word := 20

def eaxOffset : Word := 0
def ebxOffset : Word := 4
def ecxOffset : Word := 8
def edxOffset : Word := 12
def esiOffset : Word := 16
def ediOffset : Word := 20
def espOffset : Word := 24
def ebpOffset : Word := 28
def eipOffset : Word := 32
def eflagsOffset : Word := 36
def csOffset : Word := 40
def dsOffset : Word := 44
def esOffset : Word := 48
def fsOffset : Word := 52
def gsOffset : Word := 56
def ssOffset : Word := 60

/-! ## The code -/

def savePrologue : List Instruction :=
  [.push .ebp, .mov .ebp .esp, .push .eax, .push .ebx,
    .load .ebx .ebp 8, .addImmediate .ebx cpuStateOffset]

def saveGeneral : List Instruction :=
  [.store .ebx eaxOffset .eax, .load .eax .esp 8, .store .ebx ebxOffset .eax,
    .store .ebx ecxOffset .ecx, .store .ebx edxOffset .edx,
    .store .ebx esiOffset .esi, .store .ebx ediOffset .edi]

def savePointers : List Instruction :=
  [.mov .eax .esp, .addImmediate .eax 16, .store .ebx espOffset .eax,
    .load .eax .ebp 0, .store .ebx ebpOffset .eax,
    .load .eax .ebp 4, .store .ebx eipOffset .eax]

def saveFlags : List Instruction :=
  [.pushf, .pop .eax, .store .ebx eflagsOffset .eax]

def saveSegments : List Instruction :=
  [.movAxSegment .cs, .storeAx .ebx csOffset, .movAxSegment .ds, .storeAx .ebx dsOffset,
    .movAxSegment .es, .storeAx .ebx esOffset, .movAxSegment .fs, .storeAx .ebx fsOffset,
    .movAxSegment .gs, .storeAx .ebx gsOffset, .movAxSegment .ss, .storeAx .ebx ssOffset]

def saveEpilogue : List Instruction :=
  [.pop .ebx, .pop .eax, .pop .ebp]

/-- `save_context` up to its `ret`. -/
def saveBody : List Instruction :=
  savePrologue ++ (saveGeneral ++ (savePointers ++ (saveFlags ++ (saveSegments ++ saveEpilogue))))

/-- `save_context(process)`. -/
def saveContext : List Instruction := saveBody ++ [.ret]

def restoreSegments : List Instruction :=
  [.load .ebx .esp 4, .addImmediate .ebx cpuStateOffset,
    .loadAx .ebx dsOffset, .movSegmentAx .ds, .loadAx .ebx esOffset, .movSegmentAx .es,
    .loadAx .ebx fsOffset, .movSegmentAx .fs, .loadAx .ebx gsOffset, .movSegmentAx .gs,
    .loadAx .ebx ssOffset, .movSegmentAx .ss]

def restoreFlags : List Instruction :=
  [.load .esp .ebx espOffset, .load .eax .ebx eflagsOffset, .push .eax, .popf]

def restoreGeneral : List Instruction :=
  [.load .eax .ebx eaxOffset, .load .ecx .ebx ecxOffset, .load .edx .ebx edxOffset,
    .load .esi .ebx esiOffset, .load .edi .ebx ediOffset, .load .ebp .ebx ebpOffset]

/-- `restore_context` up to its jump. -/
def restoreBody : List Instruction := restoreSegments ++ (restoreFlags ++ restoreGeneral)

/-- `restore_context(process)`. -/
def restoreContext : List Instruction := restoreBody ++ [.jmpMemory .ebx eipOffset]

def saveEntry : Nat := 0
def restoreEntry : Nat := 39
def switchEntry : Nat := 62

def noSave : Nat := 70

/-- `context_switch` up to the test of `old_process`. -/
def switchHead : List Instruction :=
  [.push .ebp, .mov .ebp .esp, .load .eax .ebp 8, .test .eax .eax]

/-- `.no_save` up to the call of `restore_context`. -/
def switchTail : List Instruction :=
  [.addImmediate .esp 4, .load .eax .ebp 12, .push .eax]

/-- `context_switch(old_process, new_process)`. -/
def contextSwitch : List Instruction :=
  switchHead ++ [.jz noSave, .push .eax, .call saveEntry] ++ switchTail ++
    [.call restoreEntry, .addImmediate .esp 4, .pop .ebp, .ret]

/-- The three routines as they follow each other in `.text`. -/
def code : List Instruction := saveContext ++ restoreContext ++ contextSwitch

/-- `context_switch.asm` assembled at some addresses. -/
structure Assembled extends Library.I386.Program where
  code_eq : toProgram.code = ContextSwitch.code

namespace Assembled

variable (program : Assembled)

theorem straight (index : Nat) (block : List Instruction)
    (stands : (ContextSwitch.code.drop index).take block.length = block)
    (straight : ∀ instruction ∈ block, instruction.straight = true) :
    program.StraightAt index block := by
  refine ⟨?_, straight⟩
  rw [program.code_eq]
  exact stands

theorem fetched (index : Nat) (instruction : Instruction)
    (stands : ContextSwitch.code[index]? = some instruction) :
    program.code[index]? = some instruction := by
  rw [program.code_eq]
  exact stands

end Assembled

/-- The routines assembled at 1 MiB, one instruction every four bytes. -/
def Assembled.sample : Assembled where
  code := code
  place index := BitVec.ofNat 32 (0x100000 + 4 * index)
  distinct := by
    intro first firstBound second secondBound same
    have values := congrArg BitVec.toNat same
    simp only [BitVec.toNat_ofNat] at values
    change first < 76 at firstBound
    change second < 76 at secondBound
    omega
  code_eq := rfl

/-! ## Instructions that save -/

/-- The instruction changes no register but `eax`, and stores only into
`[ebx + low, ebx + 64)`. -/
def savesFrom (low : Nat) : Instruction → Bool
  | .store .ebx displacement _ => low ≤ displacement.toNat && displacement.toNat + 4 ≤ 64
  | .storeAx .ebx displacement => low ≤ displacement.toNat && displacement.toNat + 2 ≤ 64
  | .load .eax _ _ | .mov .eax _ | .addImmediate .eax _ | .movAxSegment _ => true
  | _ => false

section SavesFrom

variable {low : Nat} {instruction : Instruction} {block : List Instruction}

theorem savesFrom_register (saves : savesFrom low instruction = true) (m : Machine)
    {register : Register} (other : register ≠ .eax) :
    (instruction.effect m).register register = m.register register := by
  cases instruction with
  | store base displacement source => rfl
  | storeAx base displacement => rfl
  | movAxSegment source => exact Function.update_of_ne other _ _
  | mov target source =>
      cases target with
      | eax => exact Function.update_of_ne other _ _
      | _ => cases saves
  | load target base displacement =>
      cases target with
      | eax => exact Function.update_of_ne other _ _
      | _ => cases saves
  | addImmediate target value =>
      cases target with
      | eax => exact Function.update_of_ne other _ _
      | _ => cases saves
  | _ => cases saves

theorem savesFrom_segment (saves : savesFrom low instruction = true) (m : Machine) :
    (instruction.effect m).segment = m.segment := by
  cases instruction with
  | movSegmentAx target => cases saves
  | _ => rfl

theorem savesFrom_memory (saves : savesFrom low instruction = true) (m : Machine)
    {target : Word} (outside : (target - m.register .ebx).toNat < low ∨
      64 ≤ (target - m.register .ebx).toNat) :
    (instruction.effect m).memory target = m.memory target := by
  apply effect_memory
  intro range member
  cases instruction with
  | store base displacement source =>
      cases base with
      | ebx =>
          obtain rfl := List.mem_singleton.mp member
          simp only [savesFrom, Bool.and_eq_true, decide_eq_true_eq] at saves
          rw [InRange]
          bv_omega
      | _ => cases saves
  | storeAx base displacement =>
      cases base with
      | ebx =>
          obtain rfl := List.mem_singleton.mp member
          simp only [savesFrom, Bool.and_eq_true, decide_eq_true_eq] at saves
          rw [InRange]
          bv_omega
      | _ => cases saves
  | storeAbsolute address source => cases saves
  | push source => cases saves
  | pushAbsolute address => cases saves
  | pushf => cases saves
  | call target => cases saves
  | _ => cases member

/-- What a run of saving instructions leaves unchanged. -/
structure SavedFrom (low : Nat) (m t : Machine) : Prop where
  register : ∀ register, register ≠ .eax → t.register register = m.register register
  segment : t.segment = m.segment
  memory : ∀ target, (target - m.register .ebx).toNat < low ∨
    64 ≤ (target - m.register .ebx).toNat → t.memory target = m.memory target

theorem savesFrom_effects (low : Nat) (block : List Instruction)
    (saves : ∀ instruction ∈ block, savesFrom low instruction = true) (m : Machine) :
    SavedFrom low m (effects m block) := by
  induction block generalizing m with
  | nil => exact ⟨fun _ _ => rfl, rfl, fun _ _ => rfl⟩
  | cons instruction rest ih =>
      have first := saves instruction List.mem_cons_self
      have later := ih (fun other member => saves other (List.mem_cons_of_mem _ member))
        (instruction.effect m)
      have pointer := savesFrom_register first m (show Register.ebx ≠ .eax by decide)
      refine ⟨fun register other => ?_, ?_, fun target outside => ?_⟩
      · exact (later.register register other).trans (savesFrom_register first m other)
      · exact later.segment.trans (savesFrom_segment first m)
      · have kept := later.memory target
        rw [pointer] at kept
        exact (kept outside).trans (savesFrom_memory first m outside)

end SavesFrom

/-! ## Places in a frame -/

section Places

theorem sub_sub_word (base first second : Word) : base - first - second = base - (first + second) :=
  sub_sub base first second

theorem sub_add_word (base down up : Word) : base - down + up = base + (up - down) := by
  rw [sub_add_eq_add_sub, add_sub_assoc]

theorem pop_twelve (stack : Word) : stack - 12#32 + 4#32 = stack - 8#32 := by bv_omega

theorem pop_eight (stack : Word) : stack - 8#32 + 4#32 = stack - 4#32 := by bv_omega

theorem argument_apart (stack : Word) : Apart (stack + 4) 4 (stack - 4) 4 :=
  apart_of_distance (by bv_omega) (by bv_omega)

theorem below_argument_apart (stack : Word) : Apart (stack - 8#32) 4 (stack - 12#32) 4 :=
  apart_of_distance (by bv_omega) (by bv_omega)

/-- Three pushes write the twelve bytes below the stack pointer. -/
theorem not_pushed {stack target : Word} (outside : ¬ InRange (stack - 12) 12 target) :
    ¬ InRange (stack - 12) 4 target ∧ ¬ InRange (stack - 8) 4 target ∧
      ¬ InRange (stack - 4) 4 target := by
  simp only [InRange] at outside ⊢
  bv_omega

/-- A field of the block lies inside it. -/
theorem inRange_field {block target offset : Word} (inside : offset.toNat + 4 ≤ 64)
    (hit : InRange (block + offset) 4 target) : InRange block 64 target := by
  rw [InRange] at hit ⊢
  bv_omega

/-- Two fields of the block do not overlap. -/
theorem fields_apart (block : Word) {first second : Word} (above : 4 ≤ (second - first).toNat)
    (below : 4 ≤ (first - second).toNat) : Apart (block + first) 4 (block + second) 4 := by
  apply apart_of_distance
  · rwa [add_sub_add_left_eq_sub]
  · rwa [add_sub_add_left_eq_sub]

end Places

/-! ## save_context -/

section Save

variable {m t : Machine} {process : Word}

/-- The memory once `save_context` has pushed `ebp`, `eax` and `ebx`. -/
def framed (m : Machine) : Memory :=
  store
    (store (store m.memory (m.register .esp - 4) (m.register .ebp))
      (m.register .esp - 8) (m.register .eax))
    (m.register .esp - 12) (m.register .ebx)

/-- The pushes do not reach the words above them. -/
theorem load_framed_above {address : Word} (m : Machine)
    (above : Apart address 4 (m.register .esp - 12) 12) :
    load (framed m) address = load m.memory address := by
  have overEbx : Apart address 4 (m.register .esp - 12) 4 := fun target inside hit =>
    above target inside (by rw [InRange] at hit ⊢; omega)
  have overEax : Apart address 4 (m.register .esp - 8) 4 := fun target inside hit =>
    above target inside (by rw [InRange] at hit ⊢; bv_omega)
  have overEbp : Apart address 4 (m.register .esp - 4) 4 := fun target inside hit =>
    above target inside (by rw [InRange] at hit ⊢; bv_omega)
  rw [framed, load_store_apart _ _ overEbx, load_store_apart _ _ overEax,
    load_store_apart _ _ overEbp]

theorem load_framed_ebx (m : Machine) :
    load (framed m) (m.register .esp - 12) = m.register .ebx :=
  load_store_same _ _ _

theorem load_framed_eax (m : Machine) :
    load (framed m) (m.register .esp - 8) = m.register .eax := by
  have overEbx : Apart (m.register .esp - 8) 4 (m.register .esp - 12) 4 :=
    apart_of_distance (by bv_omega) (by bv_omega)
  rw [framed, load_store_apart _ _ overEbx, load_store_same]

theorem load_framed_ebp (m : Machine) :
    load (framed m) (m.register .esp - 4) = m.register .ebp := by
  have overEbx : Apart (m.register .esp - 4) 4 (m.register .esp - 12) 4 :=
    apart_of_distance (by bv_omega) (by bv_omega)
  have overEax : Apart (m.register .esp - 4) 4 (m.register .esp - 8) 4 :=
    apart_of_distance (by bv_omega) (by bv_omega)
  rw [framed, load_store_apart _ _ overEbx, load_store_apart _ _ overEax, load_store_same]

theorem load_framed_top (m : Machine) : load (framed m) (m.register .esp) = m.top :=
  load_framed_above m (apart_of_distance (by bv_omega) (by bv_omega))

theorem load_framed_argument (m : Machine) :
    load (framed m) (m.register .esp + 4) = load m.memory (m.register .esp + 4) :=
  load_framed_above m (apart_of_distance (by bv_omega) (by bv_omega))

theorem framed_outside (m : Machine) {target : Word}
    (outside : ¬ InRange (m.register .esp - 12) 12 target) : framed m target = m.memory target := by
  have missed := not_pushed outside
  rw [framed, store_outside _ _ missed.1, store_outside _ _ missed.2.1,
    store_outside _ _ missed.2.2]

/-- The bytes the assembly takes for the saved state lie apart from the frame of the call. -/
def BlockApart (process stack : Word) : Prop :=
  Apart (process + cpuStateOffset) 64 (stack - 16) 24

/-- Control is inside `save_context(process)`, entered in `m`, with its frame built. -/
structure Saving (m t : Machine) (process : Word) : Prop where
  block : t.register .ebx = process + cpuStateOffset
  base : t.register .ebp = m.register .esp - 4
  top : t.register .esp = m.register .esp - 12
  kept : ∀ register ∈ [Register.ecx, .edx, .esi, .edi], t.register register = m.register register
  segment : t.segment = m.segment
  memory : ∀ target, ¬ InRange (process + cpuStateOffset) 64 target →
    ¬ InRange (m.register .esp - 16) 4 target → t.memory target = framed m target

theorem savePrologue_saving (argument : load m.memory (m.register .esp + 4) = process) :
    Saving m (effects m savePrologue) process := by
  have eaxPlace := sub_sub_word (m.register .esp) 4#32 4#32
  have ebxPlace := sub_sub_word (m.register .esp) 8#32 4#32
  have argumentPlace := sub_add_word (m.register .esp) 4#32 8#32
  have pointer := load_framed_argument m
  rw [argument, framed] at pointer
  simp only [BitVec.ofNat_eq_ofNat] at pointer
  refine ⟨?_, ?_, ?_, ?_, ?_, ?_⟩
  · simp [effects, savePrologue, Instruction.effect, eaxPlace, ebxPlace, argumentPlace, pointer]
  · simp [effects, savePrologue, Instruction.effect]
  · simp [effects, savePrologue, Instruction.effect, eaxPlace, ebxPlace]
  · simp [effects, savePrologue, Instruction.effect]
  · simp [effects, savePrologue, Instruction.effect]
  · intro target _ _
    simp [effects, savePrologue, Instruction.effect, eaxPlace, ebxPlace, framed]

theorem Saving.stores (saving : Saving m t process) (low : Nat) (block : List Instruction)
    (saves : ∀ instruction ∈ block, savesFrom low instruction = true) :
    Saving m (effects t block) process := by
  have saved := savesFrom_effects low block saves t
  refine ⟨?_, ?_, ?_, ?_, ?_, ?_⟩
  · exact (saved.register .ebx (by decide)).trans saving.block
  · exact (saved.register .ebp (by decide)).trans saving.base
  · exact (saved.register .esp (by decide)).trans saving.top
  · intro register member
    have other : register ≠ .eax := by
      rintro rfl
      revert member
      decide
    exact (saved.register register other).trans (saving.kept register member)
  · exact saved.segment.trans saving.segment
  · intro target outside above
    have same := saved.memory target (.inr (by
      rw [saving.block]
      exact Nat.le_of_not_lt outside))
    exact same.trans (saving.memory target outside above)

/-- `saveFlags` writes `eflags` and the word below the frame, nothing else. -/
theorem saveFlags_memory (saving : Saving m t process) {target : Word}
    (outside : ¬ InRange (process + cpuStateOffset + eflagsOffset) 4 target)
    (above : ¬ InRange (m.register .esp - 16) 4 target) :
    (effects t saveFlags).memory target = t.memory target := by
  have below := sub_sub_word (m.register .esp) 12#32 4#32
  apply effects_memory
  simpa [blockWrites, saveFlags, Instruction.effect, Instruction.writes, Machine.drop,
    saving.block, saving.top, below] using ⟨above, outside⟩

/-- `saveFlags` uses the word below the frame and leaves every register but `eax` alone. -/
theorem Saving.flags (saving : Saving m t process) : Saving m (effects t saveFlags) process := by
  have balanced := sub_add_cancel (m.register .esp - 12#32) 4#32
  have below := sub_sub_word (m.register .esp) 12#32 4#32
  refine ⟨?_, ?_, ?_, ?_, ?_, ?_⟩
  · simp [effects, saveFlags, Instruction.effect, Machine.drop, saving.block]
  · simp [effects, saveFlags, Instruction.effect, Machine.drop, saving.base]
  · simp [effects, saveFlags, Instruction.effect, Machine.drop, saving.top, balanced]
  · intro register member
    rw [← saving.kept register member]
    simp only [List.mem_cons, List.not_mem_nil, or_false] at member
    rcases member with rfl | rfl | rfl | rfl <;>
      simp [effects, saveFlags, Instruction.effect, Machine.drop]
  · simp [effects, saveFlags, Instruction.effect, Machine.drop, saving.segment]
  · intro target outside above
    rw [← saving.memory target outside above]
    exact saveFlags_memory saving (fun hit => outside (inRange_field (by decide) hit)) above

/-- The words of the frame stay as they were pushed. -/
theorem Saving.word (saving : Saving m t process) (apart : BlockApart process (m.register .esp))
    {address : Word}
    (within : ∀ target, InRange address 4 target → InRange (m.register .esp - 12) 20 target) :
    load t.memory address = load (framed m) address := by
  apply load_congr
  intro target inside
  have above := within target inside
  refine saving.memory target (fun hit => apart target hit ?_) ?_ <;>
    rw [InRange] at above ⊢ <;> bv_omega

/-- Storing a field of the block leaves the words of the frame alone. -/
theorem load_store_field (memory : Memory) (word offset : Word) {stack address : Word}
    (apart : BlockApart process stack) (inside : offset.toNat + 4 ≤ 64)
    (within : ∀ target, InRange address 4 target → InRange (stack - 12) 20 target) :
    load (store memory (process + cpuStateOffset + offset) word) address = load memory address := by
  refine load_store_apart _ _ fun target hit field => apart target (inRange_field inside field) ?_
  have above := within target hit
  rw [InRange] at above ⊢
  bv_omega

/-- The saved words that bring a process back. -/
structure Pointers (memory : Memory) (process esp ebp eip : Word) : Prop where
  esp : load memory (process + cpuStateOffset + espOffset) = esp
  ebp : load memory (process + cpuStateOffset + ebpOffset) = ebp
  eip : load memory (process + cpuStateOffset + eipOffset) = eip

theorem Pointers.congr {memory : Memory} {esp ebp eip : Word}
    (pointers : Pointers memory process esp ebp eip) (other : Memory)
    (same : ∀ target, InRange (process + cpuStateOffset + espOffset) 12 target →
      other target = memory target) : Pointers other process esp ebp eip := by
  have word : ∀ offset : Word, 24 ≤ offset.toNat ∧ offset.toNat ≤ 32 →
      load other (process + cpuStateOffset + offset) =
        load memory (process + cpuStateOffset + offset) := by
    intro offset bounds
    apply load_congr
    intro target inside
    apply same
    rw [InRange] at inside ⊢
    rw [espOffset]
    bv_omega
  exact ⟨(word _ (by decide)).trans pointers.esp, (word _ (by decide)).trans pointers.ebp,
    (word _ (by decide)).trans pointers.eip⟩

theorem savePointers_pointers (saving : Saving m t process)
    (apart : BlockApart process (m.register .esp)) :
    Pointers (effects t savePointers).memory process (m.register .esp + 4) (m.register .ebp)
      m.top := by
  have ebpWithin : ∀ target, InRange (m.register .esp - 4) 4 target →
      InRange (m.register .esp - 12) 20 target := by
    intro target inside
    rw [InRange] at inside ⊢
    bv_omega
  have topWithin : ∀ target, InRange (m.register .esp) 4 target →
      InRange (m.register .esp - 12) 20 target := by
    intro target inside
    rw [InRange] at inside ⊢
    bv_omega
  have ebpWord := (saving.word apart ebpWithin).trans (load_framed_ebp m)
  have topWord := (saving.word apart topWithin).trans (load_framed_top m)
  have espKept : ∀ memory word (offset : Word), offset = ebpOffset ∨ offset = eipOffset →
      load (store memory (process + cpuStateOffset + offset) word)
        (process + cpuStateOffset + espOffset) =
      load memory (process + cpuStateOffset + espOffset) := by
    rintro memory word offset (rfl | rfl) <;>
      exact load_store_apart _ _ (fields_apart _ (by decide) (by decide))
  have ebpKept : ∀ memory word,
      load (store memory (process + cpuStateOffset + eipOffset) word)
        (process + cpuStateOffset + ebpOffset) =
      load memory (process + cpuStateOffset + ebpOffset) := fun memory word =>
    load_store_apart _ _ (fields_apart _ (by decide) (by decide))
  have return_ := sub_add_cancel (m.register .esp) 4#32
  have sum := sub_add_word (m.register .esp) 12#32 16#32
  have ebpPlace := fun memory word => load_store_field memory word espOffset apart
    (by decide) ebpWithin
  have topPlace := fun memory word (offset : Word) (inside : offset.toNat + 4 ≤ 64) =>
    load_store_field memory word offset apart inside topWithin
  simp only [BitVec.ofNat_eq_ofNat] at ebpWord ebpPlace
  refine ⟨?_, ?_, ?_⟩
  · simp [effects, savePointers, Instruction.effect, saving.block, saving.base, saving.top, espKept,
      sum]
  · simp [effects, savePointers, Instruction.effect, saving.block, saving.base, saving.top, ebpKept,
      ebpPlace, ebpWord]
  · simp [effects, savePointers, Instruction.effect, saving.block, saving.base, saving.top,
      topPlace _ _ espOffset (by decide), topPlace _ _ ebpOffset (by decide), topWord]

/-- The frame words `saveEpilogue` and `ret` read. -/
structure FrameWords (m t : Machine) : Prop where
  ebx : load t.memory (m.register .esp - 12) = m.register .ebx
  eax : load t.memory (m.register .esp - 8) = m.register .eax
  ebp : load t.memory (m.register .esp - 4) = m.register .ebp
  top : load t.memory (m.register .esp) = m.top

theorem Saving.frameWords (saving : Saving m t process)
    (apart : BlockApart process (m.register .esp)) : FrameWords m t := by
  refine ⟨(saving.word apart ?_).trans (load_framed_ebx m),
    (saving.word apart ?_).trans (load_framed_eax m),
    (saving.word apart ?_).trans (load_framed_ebp m),
    (saving.word apart ?_).trans (load_framed_top m)⟩ <;>
  · intro target inside
    rw [InRange] at inside ⊢
    bv_omega

/-- `save_context(process)` called in `m` has returned in `t`. -/
structure Saved (m t : Machine) (process : Word) : Prop where
  eip : t.eip = m.top
  register : t.register = Function.update m.register .esp (m.register .esp + 4)
  segment : t.segment = m.segment
  pointers : Pointers t.memory process (m.register .esp + 4) (m.register .ebp) m.top
  memory : ∀ target, ¬ InRange (process + cpuStateOffset) 64 target →
    ¬ InRange (m.register .esp - 16) 16 target → t.memory target = m.memory target

/-- The epilogue pops what the prologue pushed. -/
theorem saveEpilogue_register (saving : Saving m t process)
    (apart : BlockApart process (m.register .esp)) :
    (effects t saveEpilogue).register = m.register := by
  obtain ⟨ebxWord, eaxWord, ebpWord, _⟩ := saving.frameWords apart
  simp only [BitVec.ofNat_eq_ofNat] at ebxWord eaxWord ebpWord
  have others := saving.kept
  simp only [List.mem_cons, List.not_mem_nil, or_false, forall_eq_or_imp, forall_eq] at others
  obtain ⟨ecx, edx, esi, edi⟩ := others
  funext register
  cases register <;>
    simp [effects, saveEpilogue, Instruction.effect, Machine.drop, Machine.top, saving.top,
      pop_twelve, pop_eight, ebxWord, eaxWord, ebpWord, ecx, edx, esi, edi]

/-- The bytes of the three saved words inside the block. -/
theorem pointers_place {target block : Word} (inside : InRange (block + espOffset) 12 target) :
    (target - block).toNat < 36 ∧ ¬ InRange (block + eflagsOffset) 4 target := by
  rw [InRange, espOffset] at inside
  rw [InRange, eflagsOffset]
  bv_omega

/-- What stands behind the block up to the epilogue. -/
theorem saveBody_saving (argument : load m.memory (m.register .esp + 4) = process)
    (apart : BlockApart process (m.register .esp)) :
    ∃ t, Saving m t process ∧
      Pointers t.memory process (m.register .esp + 4) (m.register .ebp) m.top ∧
      effects m saveBody = effects t saveEpilogue := by
  have general := (savePrologue_saving argument).stores 0 saveGeneral (by decide)
  have pointers := savePointers_pointers general apart
  have pointed := general.stores 0 savePointers (by decide)
  have flagged := pointed.flags
  have segmented := flagged.stores 40 saveSegments (by decide)
  refine ⟨_, segmented, pointers.congr _ ?_, ?_⟩
  · intro target inside
    obtain ⟨below, missed⟩ := pointers_place inside
    have saved := savesFrom_effects 40 saveSegments (by decide)
      (effects (effects (effects (effects m savePrologue) saveGeneral) savePointers) saveFlags)
    have field : InRange (process + cpuStateOffset) 64 target := by
      rw [InRange]
      omega
    have above : ¬ InRange (m.register .esp - 16) 4 target := by
      intro hit
      refine apart target field ?_
      rw [InRange] at hit ⊢
      omega
    refine (saved.memory target (.inl ?_)).trans (saveFlags_memory pointed missed above)
    rw [flagged.block]
    omega
  · simp only [saveBody, effects_append]

/-- `save_context` is its straight part and a return. -/
theorem save_steps (program : Assembled) (here : m.eip = program.place saveEntry) :
    program.run 39 m = some (program.execute
      { effects m saveBody with eip := program.place (saveEntry + saveBody.length) }
        (saveEntry + saveBody.length) .ret) :=
  Program.run_then (program.straight saveEntry saveBody (by decide) (by decide))
    (program.fetched 38 .ret rfl) here

/-- `save_context` returns to its caller with the registers as they were. -/
theorem saveContext_run (program : Assembled) (here : m.eip = program.place saveEntry)
    (argument : load m.memory (m.register .esp + 4) = process)
    (apart : BlockApart process (m.register .esp)) :
    ∃ t, program.run 39 m = some t ∧ Saved m t process := by
  obtain ⟨u, saving, pointers, body⟩ := saveBody_saving argument apart
  have steps := save_steps program here
  have registers := saveEpilogue_register saving apart
  have words := saving.frameWords apart
  generalize effects m saveBody = done at steps body
  subst body
  refine ⟨_, steps, ?_, ?_, ?_, ?_, ?_⟩
  · change load u.memory ((effects u saveEpilogue).register .esp) = m.top
    rw [registers, words.top]
  · change Function.update (effects u saveEpilogue).register .esp
      ((effects u saveEpilogue).register .esp + 4) = _
    rw [registers]
  · exact saving.segment
  · exact pointers
  · intro target outside above
    refine (saving.memory target outside ?_).trans (framed_outside m ?_) <;>
    · intro hit
      apply above
      rw [InRange] at hit ⊢
      bv_omega

end Save

/-! ## restore_context -/

section Restore

variable {m t : Machine} {process : Word}

/-- `restore_context(process)` called in `m` has jumped to the saved place in `t`. -/
structure Restored (m t : Machine) (process : Word) : Prop where
  eip : t.eip = load m.memory (process + cpuStateOffset + eipOffset)
  esp : t.register .esp = load m.memory (process + cpuStateOffset + espOffset)
  ebp : t.register .ebp = load m.memory (process + cpuStateOffset + ebpOffset)
  esi : t.register .esi = load m.memory (process + cpuStateOffset + esiOffset)
  edi : t.register .edi = load m.memory (process + cpuStateOffset + ediOffset)
  ebx : t.register .ebx = process + cpuStateOffset
  memory : ∀ target,
    ¬ InRange (load m.memory (process + cpuStateOffset + espOffset) - 4) 4 target →
    t.memory target = m.memory target

/-- The word `popf` takes from the restored stack lies apart from the saved state. -/
def PopApart (memory : Memory) (process : Word) : Prop :=
  Apart (process + cpuStateOffset) 64
    (load memory (process + cpuStateOffset + espOffset) - 4) 4

/-- The saved state is read as before that word was pushed. -/
theorem PopApart.field {memory : Memory} (apart : PopApart memory process) (word offset : Word)
    (inside : offset.toNat + 4 ≤ 64) :
    load (store memory (load memory (process + cpuStateOffset + espOffset) - 4#32) word)
        (process + cpuStateOffset + offset) =
      load memory (process + cpuStateOffset + offset) :=
  load_store_apart _ _ fun target hit => apart target (inRange_field inside hit)

theorem restoreSegments_block (argument : load m.memory (m.register .esp + 4) = process) :
    (effects m restoreSegments).register .ebx = process + cpuStateOffset := by
  simp [effects, restoreSegments, Instruction.effect, ← argument]

theorem restoreSegments_memory (m : Machine) : (effects m restoreSegments).memory = m.memory := rfl

/-- What `restore_context` has loaded before its jump. -/
theorem restoreBody_effects {u : Machine} (block : u.register .ebx = process + cpuStateOffset)
    (apart : PopApart u.memory process) :
    Restored u { effects (effects u restoreFlags) restoreGeneral with
      eip := load (effects (effects u restoreFlags) restoreGeneral).memory
        (process + cpuStateOffset + eipOffset) } process ∧
    (effects (effects u restoreFlags) restoreGeneral).register .ebx = process + cpuStateOffset := by
  refine ⟨⟨?_, ?_, ?_, ?_, ?_, ?_, ?_⟩, ?_⟩
  · simp [effects, restoreFlags, restoreGeneral, Instruction.effect, Machine.drop, block,
      apart.field _ eipOffset (by decide)]
  · simp [effects, restoreFlags, restoreGeneral, Instruction.effect, Machine.drop, block]
  · simp [effects, restoreFlags, restoreGeneral, Instruction.effect, Machine.drop, block,
      apart.field _ ebpOffset (by decide)]
  · simp [effects, restoreFlags, restoreGeneral, Instruction.effect, Machine.drop, block,
      apart.field _ esiOffset (by decide)]
  · simp [effects, restoreFlags, restoreGeneral, Instruction.effect, Machine.drop, block,
      apart.field _ ediOffset (by decide)]
  · simp [effects, restoreFlags, restoreGeneral, Instruction.effect, Machine.drop, block]
  · intro target outside
    simp [effects, restoreFlags, restoreGeneral, Instruction.effect, Machine.drop, block]
    exact if_neg outside
  · simp [effects, restoreFlags, restoreGeneral, Instruction.effect, Machine.drop, block]

/-- `restore_context` is its straight part and a jump. -/
theorem restore_steps (program : Assembled) (here : m.eip = program.place restoreEntry) :
    program.run 23 m = some (program.execute
      { effects m restoreBody with eip := program.place (restoreEntry + restoreBody.length) }
        (restoreEntry + restoreBody.length) (.jmpMemory .ebx eipOffset)) :=
  Program.run_then (program.straight restoreEntry restoreBody (by decide) (by decide))
    (program.fetched 61 (.jmpMemory .ebx eipOffset) rfl) here

theorem restoreBody_parts (m : Machine) :
    effects m restoreBody =
      effects (effects (effects m restoreSegments) restoreFlags) restoreGeneral := by
  simp only [restoreBody, effects_append]

/-- `restore_context` jumps to the saved instruction pointer with the saved stack. -/
theorem restoreContext_run (program : Assembled) (here : m.eip = program.place restoreEntry)
    (argument : load m.memory (m.register .esp + 4) = process)
    (apart : PopApart m.memory process) :
    ∃ t, program.run 23 m = some t ∧ Restored m t process := by
  have steps := restore_steps program here
  have body := restoreBody_parts m
  have memory := restoreSegments_memory m
  have segments := restoreSegments_block argument
  generalize effects m restoreSegments = u at body memory segments
  obtain ⟨restored, block⟩ := restoreBody_effects segments (memory ▸ apart)
  generalize effects m restoreBody = done at steps body
  generalize effects (effects u restoreFlags) restoreGeneral = ended at restored block body
  subst body
  refine ⟨_, steps, ?_⟩
  change Restored m { done with eip := load done.memory (done.register .ebx + eipOffset) } process
  rw [block]
  obtain ⟨eip, esp, ebp, esi, edi, ebx, kept⟩ := restored
  rw [memory] at eip esp ebp esi edi kept
  exact ⟨eip, esp, ebp, esi, edi, ebx, kept⟩

end Restore

/-! ## context_switch -/

section Switch

variable {m t : Machine} {old new : Word}

theorem switchHead_effects (called : load m.memory (m.register .esp + 4) = old) :
    (effects m switchHead).register .esp = m.register .esp - 4 ∧
      (effects m switchHead).register .ebp = m.register .esp - 4 ∧
      (effects m switchHead).register .eax = old ∧
      zeroFlag (effects m switchHead).eflags = (old == 0) ∧
      (effects m switchHead).memory = store m.memory (m.register .esp - 4) (m.register .ebp) := by
  have place : m.register .esp - 4#32 + 8#32 = m.register .esp + 4#32 := sub_add_word _ _ _
  have apart : Apart (m.register .esp + 4) 4 (m.register .esp - 4) 4 :=
    argument_apart (m.register .esp)
  have word := load_store_apart m.memory (m.register .ebp) apart
  rw [called] at word
  simp only [BitVec.ofNat_eq_ofNat] at word
  refine ⟨?_, ?_, ?_, ?_, ?_⟩
  · simp [effects, switchHead, Instruction.effect]
  · simp [effects, switchHead, Instruction.effect]
  · simp [effects, switchHead, Instruction.effect, place, word]
  · simp [effects, switchHead, Instruction.effect, place, word, testFlags]
  · rfl

end Switch

end SimpleOS.ContextSwitch
