import Mathlib.Logic.Function.Basic
import SimpleOS.Library.ByteMemory

/-!
# A small i386 machine

The registers, the flat memory and the instructions that hand-written context
switching code uses.  A program is a list of instructions with the addresses
they are assembled at; control that leaves the list stops the machine.  Every
instruction comes with the range of memory it writes, so that a run comes with
its footprint.
-/

namespace SimpleOS.Library.I386

open ByteMemory

inductive Register where
  | eax
  | ebx
  | ecx
  | edx
  | esi
  | edi
  | esp
  | ebp
  deriving DecidableEq

inductive Segment where
  | cs
  | ds
  | es
  | fs
  | gs
  | ss
  deriving DecidableEq

structure Machine where
  register : Register → Word
  segment : Segment → BitVec 16
  eip : Word
  eflags : Word
  memory : Memory

/-! ## Half words and flags -/

/-- The little-endian half word at an address. -/
def loadHalf (memory : Memory) (address : Word) : BitVec 16 :=
  memory (address + 1) ++ memory address

/-- Write a little-endian half word at an address. -/
def storeHalf (memory : Memory) (address : Word) (half : BitVec 16) : Memory := fun target =>
  if InRange address 2 target then byteOf (half.setWidth 32) (target - address).toNat
  else memory target

/-- The low half of a register. -/
def lowHalf (word : Word) : BitVec 16 := word.setWidth 16

/-- Replace the low half of a register. -/
def withLowHalf (word : Word) (half : BitVec 16) : Word :=
  (word &&& 0xFFFF0000) ||| half.setWidth 32

@[simp] theorem lowHalf_withLowHalf (word : Word) (half : BitVec 16) :
    lowHalf (withLowHalf word half) = half := by
  apply BitVec.eq_of_getLsbD_eq
  intro index bound
  have mask : (0xFFFF0000 : Word).getLsbD index = false := by
    revert index
    decide
  rw [lowHalf, withLowHalf, BitVec.getLsbD_setWidth, BitVec.getLsbD_or, BitVec.getLsbD_and, mask,
    BitVec.getLsbD_setWidth]
  simp [bound, Nat.lt_trans bound (show 16 < 32 by decide)]

theorem loadHalf_congr {first second : Memory} {address : Word}
    (agree : ∀ target, InRange address 2 target → first target = second target) :
    loadHalf first address = loadHalf second address := by
  have low := agree address (inRange_start address (by decide))
  have high := agree (address + 1) (inRange_offset (show 1 < 2 by decide) (by decide))
  rw [loadHalf, loadHalf, low, high]

@[simp] theorem loadHalf_storeHalf_same (memory : Memory) (address : Word) (half : BitVec 16) :
    loadHalf (storeHalf memory address half) address = half := by
  have offset : (address + 1 - address).toNat = 1 :=
    offset_toNat address (show 1 < 2 ^ 32 by decide)
  have low : InRange address 2 address := inRange_start address (by decide)
  have high : InRange address 2 (address + 1) := by
    rw [InRange, offset]
    decide
  have bound := half.isLt
  apply BitVec.eq_of_toNat_eq
  rw [loadHalf, storeHalf, if_pos high, storeHalf, if_pos low, offset, BitVec.sub_self,
    BitVec.toNat_append, ← Nat.shiftLeft_add_eq_or_of_lt (BitVec.isLt _), Nat.shiftLeft_eq]
  simp only [byteOf, BitVec.toNat_ofNat, BitVec.toNat_setWidth, Nat.zero_mod, Nat.pow_zero,
    Nat.pow_one, Nat.div_one]
  omega

/-- A half word stored elsewhere leaves the half words apart from it alone. -/
theorem loadHalf_storeHalf_apart (memory : Memory) {address other : Word} (half : BitVec 16)
    (apart : Apart address 2 other 2) :
    loadHalf (storeHalf memory other half) address = loadHalf memory address :=
  loadHalf_congr fun target inside => if_neg (apart target inside)
/-- CF, PF, AF, ZF, SF and OF in `eflags`. -/
def statusMask : Word := 0x8D5

def flagBit (set : Bool) (bit : Word) : Word := if set then bit else 0

/-- Replace the status flags after an operation with the given result. -/
def withStatus (eflags result : Word) (carry auxiliary overflow : Bool) : Word :=
  (eflags &&& ~~~ statusMask) ||| flagBit carry 0x1 |||
    flagBit (((List.range 8).countP fun bit => result.getLsbD bit) % 2 == 0) 0x4 |||
    flagBit auxiliary 0x10 ||| flagBit (result == 0) 0x40 |||
    flagBit (result.getLsbD 31) 0x80 ||| flagBit overflow 0x800

def addFlags (eflags first second : Word) : Word :=
  let result := first + second
  withStatus eflags result (decide (2 ^ 32 ≤ first.toNat + second.toNat))
    (decide (16 ≤ first.toNat % 16 + second.toNat % 16))
    (first.getLsbD 31 == second.getLsbD 31 && first.getLsbD 31 != result.getLsbD 31)

def testFlags (eflags first second : Word) : Word :=
  withStatus eflags (first &&& second) false false false

def zeroFlag (eflags : Word) : Bool := eflags.getLsbD 6

theorem flagBit_getLsbD (set : Bool) (bit : Word) (index : Nat) :
    (flagBit set bit).getLsbD index = (set && bit.getLsbD index) := by
  cases set <;> simp [flagBit]

@[simp] theorem zeroFlag_withStatus (eflags result : Word) (carry auxiliary overflow : Bool) :
    zeroFlag (withStatus eflags result carry auxiliary overflow) = (result == 0) := by
  simp only [zeroFlag, withStatus, BitVec.getLsbD_or, BitVec.getLsbD_and, flagBit_getLsbD,
    show (~~~ statusMask).getLsbD 6 = false by decide,
    show (0x1 : Word).getLsbD 6 = false by decide,
    show (0x4 : Word).getLsbD 6 = false by decide, show (0x10 : Word).getLsbD 6 = false by decide,
    show (0x40 : Word).getLsbD 6 = true by decide, show (0x80 : Word).getLsbD 6 = false by decide,
    show (0x800 : Word).getLsbD 6 = false by decide, Bool.and_false, Bool.and_true, Bool.false_or,
    Bool.or_false]

/-! ## Instructions -/

/-- Jump and call targets are indices into the program. -/
inductive Instruction where
  | push (source : Register)
  | pop (target : Register)
  | mov (target source : Register)
  | load (target base : Register) (displacement : Word)
  | store (base : Register) (displacement : Word) (source : Register)
  | storeAbsolute (address : Word) (source : Register)
  | pushAbsolute (address : Word)
  | loadAx (base : Register) (displacement : Word)
  | storeAx (base : Register) (displacement : Word)
  | movAxSegment (source : Segment)
  | movSegmentAx (target : Segment)
  | addImmediate (target : Register) (value : Word)
  | test (first second : Register)
  | pushf
  | popf
  | jz (target : Nat)
  | call (target : Nat)
  | ret
  | jmpMemory (base : Register) (displacement : Word)
  deriving DecidableEq

namespace Machine

def setRegister (m : Machine) (target : Register) (value : Word) : Machine :=
  { m with register := Function.update m.register target value }

/-- Push a word. -/
def pushWord (m : Machine) (word : Word) : Machine :=
  { m with
    register := Function.update m.register .esp (m.register .esp - 4)
    memory := ByteMemory.store m.memory (m.register .esp - 4) word }

/-- The word on top of the stack. -/
def top (m : Machine) : Word := ByteMemory.load m.memory (m.register .esp)

/-- Release the word on top of the stack. -/
def drop (m : Machine) : Machine := m.setRegister .esp (m.register .esp + 4)

@[simp] theorem setRegister_register (m : Machine) (target : Register) (value : Word) :
    (m.setRegister target value).register = Function.update m.register target value := rfl
@[simp] theorem setRegister_segment (m : Machine) (target : Register) (value : Word) :
    (m.setRegister target value).segment = m.segment := rfl
@[simp] theorem setRegister_eflags (m : Machine) (target : Register) (value : Word) :
    (m.setRegister target value).eflags = m.eflags := rfl
@[simp] theorem setRegister_memory (m : Machine) (target : Register) (value : Word) :
    (m.setRegister target value).memory = m.memory := rfl

@[simp] theorem pushWord_register (m : Machine) (word : Word) :
    (m.pushWord word).register = Function.update m.register .esp (m.register .esp - 4) := rfl
@[simp] theorem pushWord_segment (m : Machine) (word : Word) :
    (m.pushWord word).segment = m.segment := rfl
@[simp] theorem pushWord_eflags (m : Machine) (word : Word) :
    (m.pushWord word).eflags = m.eflags := rfl
@[simp] theorem pushWord_memory (m : Machine) (word : Word) :
    (m.pushWord word).memory = ByteMemory.store m.memory (m.register .esp - 4) word := rfl

end Machine

namespace Instruction

/-- Whether control goes on with the next instruction. -/
def straight : Instruction → Bool
  | jz _ | call _ | ret | jmpMemory _ _ => false
  | _ => true

/-- What an instruction does, apart from the instruction pointer. -/
def effect (m : Machine) : Instruction → Machine
  | push source => m.pushWord (m.register source)
  | pop target => m.drop.setRegister target m.top
  | mov target source => m.setRegister target (m.register source)
  | load target base displacement =>
      m.setRegister target (ByteMemory.load m.memory (m.register base + displacement))
  | store base displacement source =>
      { m with
        memory := ByteMemory.store m.memory (m.register base + displacement) (m.register source) }
  | storeAbsolute address source =>
      { m with memory := ByteMemory.store m.memory address (m.register source) }
  | pushAbsolute address => m.pushWord (ByteMemory.load m.memory address)
  | loadAx base displacement =>
      m.setRegister .eax
        (withLowHalf (m.register .eax) (loadHalf m.memory (m.register base + displacement)))
  | storeAx base displacement =>
      { m with
        memory := storeHalf m.memory (m.register base + displacement)
          (lowHalf (m.register .eax)) }
  | movAxSegment source =>
      m.setRegister .eax (withLowHalf (m.register .eax) (m.segment source))
  | movSegmentAx target =>
      { m with segment := Function.update m.segment target (lowHalf (m.register .eax)) }
  | addImmediate target value =>
      { m.setRegister target (m.register target + value) with
        eflags := addFlags m.eflags (m.register target) value }
  | test first second =>
      { m with eflags := testFlags m.eflags (m.register first) (m.register second) }
  | pushf => m.pushWord m.eflags
  | popf => { m.drop with eflags := m.top }
  | jz _ | call _ | ret | jmpMemory _ _ => m

/-- The range of memory an instruction writes, if any. -/
def writes (m : Machine) : Instruction → List (Word × Nat)
  | push _ | pushAbsolute _ | pushf | call _ => [(m.register .esp - 4, 4)]
  | store base displacement _ => [(m.register base + displacement, 4)]
  | storeAbsolute address _ => [(address, 4)]
  | storeAx base displacement => [(m.register base + displacement, 2)]
  | pop _ | mov _ _ | load _ _ _ | loadAx _ _ | movAxSegment _ | movSegmentAx _ | addImmediate _ _
  | test _ _ | popf | jz _ | ret | jmpMemory _ _ => []

end Instruction

/-- The effects of a block of instructions in order. -/
def effects (m : Machine) (block : List Instruction) : Machine :=
  block.foldl Instruction.effect m

/-- The ranges a block of instructions writes, in order. -/
def blockWrites : Machine → List Instruction → List (Word × Nat)
  | _, [] => []
  | m, instruction :: rest =>
      instruction.writes m ++ blockWrites (instruction.effect m) rest

/-- An instruction changes no byte outside the range it writes. -/
theorem effect_memory (m : Machine) (instruction : Instruction) {target : Word}
    (outside : ∀ range ∈ instruction.writes m, ¬ InRange range.1 range.2 target) :
    (instruction.effect m).memory target = m.memory target := by
  cases instruction with
  | push source => exact if_neg (outside _ List.mem_cons_self)
  | store base displacement source => exact if_neg (outside _ List.mem_cons_self)
  | storeAbsolute address source => exact if_neg (outside _ List.mem_cons_self)
  | pushAbsolute address => exact if_neg (outside _ List.mem_cons_self)
  | storeAx base displacement => exact if_neg (outside _ List.mem_cons_self)
  | pushf => exact if_neg (outside _ List.mem_cons_self)
  | _ => rfl

/-- A block changes no byte outside the ranges it writes. -/
theorem effects_memory (block : List Instruction) (m : Machine) {target : Word}
    (outside : ∀ range ∈ blockWrites m block, ¬ InRange range.1 range.2 target) :
    (effects m block).memory target = m.memory target := by
  induction block generalizing m with
  | nil => rfl
  | cons instruction rest ih =>
      have later := ih (instruction.effect m) fun range member =>
        outside range (List.mem_append_right _ member)
      have first := effect_memory m instruction fun range member =>
        outside range (List.mem_append_left _ member)
      exact later.trans first

theorem effects_append (first second : List Instruction) (m : Machine) :
    effects m (first ++ second) = effects (effects m first) second :=
  List.foldl_append

theorem blockWrites_append (first second : List Instruction) (m : Machine) :
    blockWrites m (first ++ second) =
      blockWrites m first ++ blockWrites (effects m first) second := by
  induction first generalizing m with
  | nil => rfl
  | cons instruction rest ih =>
      change instruction.writes m ++ blockWrites (instruction.effect m) (rest ++ second) = _
      rw [ih, ← List.append_assoc]
      rfl

/-! ## Programs -/

/-- Assembled code: the instructions with the addresses they start at. -/
structure Program where
  code : List Instruction
  place : Nat → Word
  distinct : ∀ first < code.length, ∀ second < code.length,
    place first = place second → first = second

namespace Program

variable (program : Program)

/-- The instruction that starts at an address. -/
def indexOf? (address : Word) : Option Nat :=
  (List.range program.code.length).find? fun index => decide (program.place index = address)

/-- Execute the instruction at an index. -/
def execute (m : Machine) (index : Nat) : Instruction → Machine
  | .jz target =>
      { m with eip := program.place (if zeroFlag m.eflags then target else index + 1) }
  | .call target =>
      { m.pushWord (program.place (index + 1)) with eip := program.place target }
  | .ret => { m.drop with eip := m.top }
  | .jmpMemory base displacement =>
      { m with eip := ByteMemory.load m.memory (m.register base + displacement) }
  | instruction => { instruction.effect m with eip := program.place (index + 1) }

/-- One step; `none` when control is not at one of the instructions. -/
def step (m : Machine) : Option Machine :=
  match program.indexOf? m.eip with
  | none => none
  | some index => (program.code[index]?).map (program.execute m index)

/-- The state after a number of steps. -/
def run : Nat → Machine → Option Machine
  | 0, m => some m
  | count + 1, m => (program.step m).bind (run count)

/-- The ranges written in a number of steps. -/
def footprint : Nat → Machine → List (Word × Nat)
  | 0, _ => []
  | count + 1, m =>
      match program.indexOf? m.eip with
      | none => []
      | some index =>
          match program.code[index]? with
          | none => []
          | some instruction =>
              instruction.writes m ++ footprint count (program.execute m index instruction)

variable {program} {m t : Machine}

theorem indexOf?_place {index : Nat} (bound : index < program.code.length) :
    program.indexOf? (program.place index) = some index := by
  cases found : program.indexOf? (program.place index) with
  | none =>
      have missed := List.find?_eq_none.mp found index (List.mem_range.mpr bound)
      exact absurd (decide_eq_true rfl) missed
  | some other =>
      have hit : program.place other = program.place index := of_decide_eq_true
        (List.find?_some (p := fun i => decide (program.place i = program.place index)) found)
      have inside := List.mem_range.mp (List.mem_of_find?_eq_some found)
      rw [program.distinct other inside index bound hit]

/-- A step executes the instruction control is at. -/
theorem step_at {index : Nat} {instruction : Instruction}
    (fetched : program.code[index]? = some instruction) (here : m.eip = program.place index) :
    program.step m = some (program.execute m index instruction) := by
  have bound := (List.getElem?_eq_some_iff.mp fetched).1
  rw [step, here, indexOf?_place bound]
  change (program.code[index]?).map (program.execute m index) = _
  rw [fetched]
  rfl

theorem run_add (first second : Nat) (m : Machine) :
    program.run (first + second) m = (program.run first m).bind (program.run second) := by
  induction first generalizing m with
  | zero =>
      rw [Nat.zero_add]
      rfl
  | succ count ih =>
      rw [Nat.succ_add]
      change (program.step m).bind (program.run (count + second)) =
        ((program.step m).bind (program.run count)).bind (program.run second)
      cases program.step m with
      | none => rfl
      | some next => exact ih next

/-- Runs compose. -/
theorem run_trans {first second : Nat} {u : Machine} (head : program.run first m = some t)
    (tail : program.run second t = some u) : program.run (first + second) m = some u := by
  rw [run_add, head]
  exact tail

theorem run_one {index : Nat} {instruction : Instruction}
    (fetched : program.code[index]? = some instruction) (here : m.eip = program.place index) :
    program.run 1 m = some (program.execute m index instruction) := by
  change (program.step m).bind (program.run 0) = _
  rw [step_at fetched here]
  rfl

/-- The effect of an instruction does not depend on where it stands. -/
theorem effect_eip (m : Machine) (eip : Word) (instruction : Instruction) :
    instruction.effect { m with eip := eip } = { instruction.effect m with eip := eip } := by
  cases instruction <;> rfl

theorem writes_eip (m : Machine) (eip : Word) (instruction : Instruction) :
    instruction.writes { m with eip := eip } = instruction.writes m := by
  cases instruction <;> rfl

theorem execute_straight {instruction : Instruction} (straight : instruction.straight = true)
    (m : Machine) (index : Nat) :
    program.execute m index instruction =
      { instruction.effect m with eip := program.place (index + 1) } := by
  cases instruction with
  | jz target => cases straight
  | call target => cases straight
  | ret => cases straight
  | jmpMemory base displacement => cases straight
  | _ => rfl

theorem effects_eip (block : List Instruction) (m : Machine) (eip : Word) :
    effects { m with eip := eip } block = { effects m block with eip := eip } := by
  induction block generalizing m with
  | nil => rfl
  | cons instruction rest ih =>
      change effects (instruction.effect { m with eip := eip }) rest = _
      rw [effect_eip]
      exact ih (instruction.effect m)

theorem blockWrites_eip (block : List Instruction) (m : Machine) (eip : Word) :
    blockWrites { m with eip := eip } block = blockWrites m block := by
  induction block generalizing m with
  | nil => rfl
  | cons instruction rest ih =>
      change instruction.writes { m with eip := eip } ++
        blockWrites (instruction.effect { m with eip := eip }) rest = _
      rw [effect_eip, writes_eip, ih]
      rfl

/-- The block stands in the program from an index on, and none of it branches. -/
def StraightAt (program : Program) (index : Nat) (block : List Instruction) : Prop :=
  (program.code.drop index).take block.length = block ∧ ∀ instruction ∈ block,
    instruction.straight = true

instance (index : Nat) (block : List Instruction) :
    Decidable (program.StraightAt index block) :=
  inferInstanceAs (Decidable (_ ∧ _))

theorem StraightAt.first {index : Nat} {instruction : Instruction} {rest : List Instruction}
    (block : program.StraightAt index (instruction :: rest)) :
    program.code[index]? = some instruction ∧ program.StraightAt (index + 1) rest := by
  obtain ⟨stands, straight⟩ := block
  cases split : program.code.drop index with
  | nil =>
      rw [split] at stands
      cases stands
  | cons head tail =>
      rw [split, List.length_cons, List.take_succ_cons] at stands
      obtain ⟨sameHead, sameTail⟩ := List.cons.inj stands
      have headAt : program.code[index]? = some head := by
        rw [← List.head?_drop, split]
        rfl
      have tailAt : program.code.drop (index + 1) = tail := by
        rw [← List.tail_drop, split]
        rfl
      refine ⟨sameHead ▸ headAt, ?_, fun later member =>
        straight later (List.mem_cons_of_mem instruction member)⟩
      rw [tailAt]
      exact sameTail

/-- A block without branches runs through. -/
theorem run_straight {index : Nat} {block : List Instruction}
    (stands : program.StraightAt index block) (here : m.eip = program.place index) :
    program.run block.length m =
      some { effects m block with eip := program.place (index + block.length) } := by
  induction block generalizing index m with
  | nil =>
      cases m
      simp only at here
      rw [here]
      rfl
  | cons instruction rest ih =>
      obtain ⟨fetched, later⟩ := stands.first
      have straight := stands.2 instruction List.mem_cons_self
      change (program.step m).bind (program.run rest.length) = _
      rw [step_at fetched here, execute_straight straight]
      have tail := ih (m := { instruction.effect m with eip := program.place (index + 1) })
        later rfl
      rw [effects_eip] at tail
      rw [Option.bind_some, tail, List.length_cons, Nat.add_right_comm, Nat.add_assoc]
      rfl

/-- A block without branches and the instruction behind it. -/
theorem run_then {index : Nat} {block : List Instruction} {instruction : Instruction}
    (stands : program.StraightAt index block)
    (fetched : program.code[index + block.length]? = some instruction)
    (here : m.eip = program.place index) :
    program.run (block.length + 1) m =
      some (program.execute { effects m block with eip := program.place (index + block.length) }
        (index + block.length) instruction) :=
  run_trans (run_straight stands here) (run_one fetched rfl)

/-! ## Footprints -/

theorem footprint_at {index count : Nat} {instruction : Instruction}
    (fetched : program.code[index]? = some instruction) (here : m.eip = program.place index) :
    program.footprint (count + 1) m =
      instruction.writes m ++ program.footprint count (program.execute m index instruction) := by
  have bound := (List.getElem?_eq_some_iff.mp fetched).1
  simp only [footprint, here, indexOf?_place bound, fetched]

/-- A block without branches writes its ranges first. -/
theorem footprint_straight {index : Nat} {block : List Instruction} (more : Nat)
    (stands : program.StraightAt index block) (here : m.eip = program.place index) :
    program.footprint (block.length + more) m =
      blockWrites m block ++ program.footprint more
        { effects m block with eip := program.place (index + block.length) } := by
  induction block generalizing index m with
  | nil =>
      cases m
      simp only at here
      rw [here, List.length_nil, Nat.zero_add]
      rfl
  | cons instruction rest ih =>
      obtain ⟨fetched, later⟩ := stands.first
      have straight := stands.2 instruction List.mem_cons_self
      have tail := ih (m := { instruction.effect m with eip := program.place (index + 1) })
        later rfl
      rw [blockWrites_eip, effects_eip] at tail
      rw [List.length_cons, Nat.add_right_comm, footprint_at fetched here,
        execute_straight straight, tail, ← List.append_assoc]
      simp only [blockWrites, effects, List.foldl_cons, Nat.add_assoc, Nat.add_comm 1]

/-- The footprint of a run is that of its parts. -/
theorem footprint_add {first : Nat} (second : Nat) (runs : program.run first m = some t) :
    program.footprint (first + second) m =
      program.footprint first m ++ program.footprint second t := by
  induction first generalizing m with
  | zero =>
      cases runs
      rw [Nat.zero_add]
      rfl
  | succ count ih =>
      obtain ⟨next, steps, later⟩ := Option.bind_eq_some_iff.mp runs
      rw [Nat.succ_add, footprint, footprint]
      rw [step] at steps
      cases located : program.indexOf? m.eip with
      | none =>
          rw [located] at steps
          cases steps
      | some index =>
          rw [located] at steps
          obtain ⟨instruction, fetched, executed⟩ := Option.map_eq_some_iff.mp steps
          simp only [fetched, executed, List.append_assoc]
          rw [ih later]

/-! ## Runs that stay away from an instruction -/

/-- The run arrives, and none of the steps before is at the instruction with the given index. -/
structure Bypasses (program : Program) (index count : Nat) (m t : Machine) : Prop where
  runs : program.run count m = some t
  away : ∀ early < count, ∀ u, program.run early m = some u → u.eip ≠ program.place index

namespace Bypasses

variable {index first second : Nat} {u : Machine}

theorem trans (head : Bypasses program index first m t)
    (tail : Bypasses program index second t u) :
    Bypasses program index (first + second) m u where
  runs := run_trans head.runs tail.runs
  away early before v reached := by
    rcases Nat.lt_or_ge early first with inHead | inTail
    · exact head.away early inHead v reached
    · obtain ⟨later, rfl⟩ := Nat.exists_eq_add_of_le inTail
      rw [run_add, head.runs] at reached
      exact tail.away later (by omega) v reached

/-- One step of another instruction. -/
theorem one {here : Nat} {instruction : Instruction}
    (fetched : program.code[here]? = some instruction) (at_ : m.eip = program.place here)
    (other : program.place here ≠ program.place index) :
    Bypasses program index 1 m (program.execute m here instruction) where
  runs := run_one fetched at_
  away early before v reached := by
    obtain rfl : early = 0 := by omega
    cases reached
    exact at_ ▸ other

/-- A block without branches that does not contain the instruction. -/
theorem straight {start : Nat} {block : List Instruction}
    (stands : program.StraightAt start block) (here : m.eip = program.place start)
    (other : ∀ offset < block.length, program.place (start + offset) ≠ program.place index) :
    Bypasses program index block.length m
      { effects m block with eip := program.place (start + block.length) } := by
  induction block generalizing start m with
  | nil =>
      refine ⟨run_straight stands here, ?_⟩
      intro early before
      exact absurd before (Nat.not_lt_zero early)
  | cons instruction rest ih =>
      obtain ⟨fetched, later⟩ := stands.first
      have first := Bypasses.one fetched here (other 0 (Nat.succ_pos _))
      rw [execute_straight (stands.2 instruction List.mem_cons_self)] at first
      have tail := ih (m := { instruction.effect m with eip := program.place (start + 1) })
        later rfl fun offset bound => by
          rw [Nat.add_right_comm, Nat.add_assoc]
          exact other (offset + 1) (Nat.succ_lt_succ bound)
      rw [effects_eip, Nat.add_assoc, Nat.add_comm 1] at tail
      have whole := first.trans tail
      rw [Nat.add_comm 1] at whole
      exact whole

end Bypasses

end Program

end SimpleOS.Library.I386
