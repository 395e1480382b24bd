import SimpleOS.Library.I386

/-!
# Interrupts on the small i386 machine

Gates in an interrupt descriptor table, the entry of an interrupt without a
change of privilege, and the instructions handlers are written with.  Functions
that a handler calls are parameters; they run from their entry to behind their
return in one step.
-/

namespace SimpleOS.Library.I386

open ByteMemory

/-! ## Words on the stack -/

/-- The words from an address on, the topmost first. -/
def Stacked (memory : Memory) : Word → List Word → Prop
  | _, [] => True
  | address, word :: rest =>
      ByteMemory.load memory address = word ∧ Stacked memory (address + 4) rest

theorem Stacked.congr {first second : Memory} {address : Word} {words : List Word}
    (stacked : Stacked first address words) (small : 4 * words.length ≤ 2 ^ 32)
    (agree : ∀ target, InRange address (4 * words.length) target → second target = first target) :
    Stacked second address words := by
  induction words generalizing address with
  | nil => trivial
  | cons word rest ih =>
      obtain ⟨here, later⟩ := stacked
      rw [List.length_cons] at small agree
      constructor
      · refine (load_congr fun target inside => agree target ?_).trans here
        rw [InRange] at inside ⊢
        omega
      · refine ih later (by omega) fun target inside => agree target ?_
        rw [InRange] at inside ⊢
        bv_omega

theorem Stacked.word {memory : Memory} {address : Word} {words : List Word}
    (stacked : Stacked memory address words) (index : Nat) (bound : index < words.length) :
    ByteMemory.load memory (address + BitVec.ofNat 32 (4 * index)) = words.get ⟨index, bound⟩ := by
  induction words generalizing address index with
  | nil => exact absurd bound (Nat.not_lt_zero _)
  | cons word rest ih =>
      cases index with
      | zero =>
          rw [Nat.mul_zero, BitVec.add_zero]
          exact stacked.1
      | succ index =>
          have later := ih stacked.2 index (Nat.lt_of_succ_lt_succ bound)
          rw [BitVec.add_assoc, show (4 : Word) = BitVec.ofNat 32 4 from rfl, ← BitVec.ofNat_add,
            Nat.add_comm] at later
          exact later

namespace Machine

/-- Machines that agree in all their parts. -/
theorem eq_of_parts {first second : Machine}
    (register : ∀ register, first.register register = second.register register)
    (segment : ∀ segment, first.segment segment = second.segment segment)
    (eip : first.eip = second.eip) (eflags : first.eflags = second.eflags)
    (memory : first.memory = second.memory) : first = second := by
  cases first
  cases second
  obtain rfl := funext register
  obtain rfl := funext segment
  cases eip
  cases eflags
  cases memory
  rfl

/-- Push words in order. -/
def pushes (m : Machine) (words : List Word) : Machine := words.foldl pushWord m

@[simp] theorem pushWord_esp (m : Machine) (word : Word) :
    (m.pushWord word).register .esp = m.register .esp - 4 := by
  rw [pushWord_register, Function.update_self]

/-- What is pushed stands above what was there. -/
theorem pushes_stacked {m : Machine} {words below : List Word}
    (stacked : Stacked m.memory (m.register .esp) below)
    (small : 4 * (words.length + below.length) ≤ 2 ^ 32) :
    Stacked (m.pushes words).memory ((m.pushes words).register .esp) (words.reverse ++ below) := by
  induction words generalizing m below with
  | nil => exact stacked
  | cons word rest ih =>
      rw [List.length_cons] at small
      have pushed : Stacked (m.pushWord word).memory ((m.pushWord word).register .esp)
          (word :: below) := by
        rw [pushWord_esp]
        refine ⟨load_store_same _ _ _, ?_⟩
        rw [BitVec.sub_add_cancel]
        refine stacked.congr (by omega) fun target inside => store_outside _ _ fun hit => ?_
        rw [InRange] at inside hit
        bv_omega
      have later := ih pushed (by rw [List.length_cons]; omega)
      rw [List.reverse_cons, List.append_assoc]
      exact later

@[simp] theorem pushes_esp (m : Machine) (words : List Word) :
    (m.pushes words).register .esp = m.register .esp - BitVec.ofNat 32 (4 * words.length) := by
  induction words generalizing m with
  | nil => exact (BitVec.sub_zero _).symm
  | cons word rest ih =>
      change ((m.pushWord word).pushes rest).register .esp = _
      rw [ih, pushWord_esp, List.length_cons]
      bv_omega

theorem pushes_register (m : Machine) (words : List Word) {register : Register}
    (other : register ≠ .esp) : (m.pushes words).register register = m.register register := by
  induction words generalizing m with
  | nil => rfl
  | cons word rest ih =>
      refine (ih (m.pushWord word)).trans ?_
      rw [pushWord_register, Function.update_of_ne other]

@[simp] theorem pushes_segment (m : Machine) (words : List Word) :
    (m.pushes words).segment = m.segment := by
  induction words generalizing m with
  | nil => rfl
  | cons word rest ih => exact ih (m.pushWord word)

@[simp] theorem pushes_eflags (m : Machine) (words : List Word) :
    (m.pushes words).eflags = m.eflags := by
  induction words generalizing m with
  | nil => rfl
  | cons word rest ih => exact ih (m.pushWord word)

@[simp] theorem pushes_eip (m : Machine) (words : List Word) : (m.pushes words).eip = m.eip := by
  induction words generalizing m with
  | nil => rfl
  | cons word rest ih => exact ih (m.pushWord word)

theorem pushes_moved (m : Machine) (eip : Word) (words : List Word) :
    pushes { m with eip := eip } words = { m.pushes words with eip := eip } := by
  induction words generalizing m with
  | nil => rfl
  | cons word rest ih => exact ih (m.pushWord word)

/-- Pushing changes no byte but those below the stack pointer. -/
theorem pushes_memory (m : Machine) {words : List Word} (small : 4 * words.length ≤ 2 ^ 32)
    {target : Word}
    (outside : ¬ InRange (m.register .esp - BitVec.ofNat 32 (4 * words.length))
      (4 * words.length) target) :
    (m.pushes words).memory target = m.memory target := by
  induction words generalizing m with
  | nil => rfl
  | cons word rest ih =>
      rw [List.length_cons] at small outside
      have later := ih (m.pushWord word) (by omega) (by
        rw [pushWord_esp]
        intro inside
        apply outside
        rw [InRange] at inside ⊢
        bv_omega)
      refine later.trans (store_outside _ _ fun hit => outside ?_)
      rw [InRange] at hit ⊢
      bv_omega

/-- The general registers in the order in which `pusha` pushes them. -/
def generalRegisters (m : Machine) : List Word :=
  [m.register .eax, m.register .ecx, m.register .edx, m.register .ebx, m.register .esp,
    m.register .ebp, m.register .esi, m.register .edi]

/-- Pop the general registers; the word for the stack pointer is skipped. -/
def popGeneral (m : Machine) : Machine :=
  let word (index : Nat) : Word :=
    ByteMemory.load m.memory (m.register .esp + BitVec.ofNat 32 (4 * index))
  { m with
    register := fun
      | .edi => word 0
      | .esi => word 1
      | .ebp => word 2
      | .esp => m.register .esp + 32
      | .ebx => word 4
      | .edx => word 5
      | .ecx => word 6
      | .eax => word 7 }

def lowByte (word : Word) : Byte := word.setWidth 8

def withLowByte (word : Word) (byte : Byte) : Word :=
  (word &&& 0xFFFFFF00) ||| byte.setWidth 32

@[simp] theorem lowByte_withLowByte (word : Word) (byte : Byte) :
    lowByte (withLowByte word byte) = byte := by
  apply BitVec.eq_of_getLsbD_eq
  intro index bound
  have mask : (0xFFFFFF00 : Word).getLsbD index = false := by
    revert index
    decide
  rw [lowByte, withLowByte, BitVec.getLsbD_setWidth, BitVec.getLsbD_or, BitVec.getLsbD_and, mask,
    BitVec.getLsbD_setWidth]
  simp [bound, Nat.lt_trans bound (show 8 < 32 by decide)]

/-- Return from an interrupt of the same privilege. -/
def interruptReturn (m : Machine) : Machine :=
  { m.setRegister .esp (m.register .esp + 12) with
    eip := ByteMemory.load m.memory (m.register .esp)
    segment := Function.update m.segment .cs
      (lowHalf (ByteMemory.load m.memory (m.register .esp + 4)))
    eflags := ByteMemory.load m.memory (m.register .esp + 8) }

end Machine

/-- A segment register on the stack. -/
@[simp] theorem lowHalf_extended (half : BitVec 16) : lowHalf (half.setWidth 32) = half := by
  rw [lowHalf, BitVec.setWidth_setWidth_of_le half (by decide), BitVec.setWidth_eq]

/-! ## Gates -/

/-- The interrupt descriptor table register. -/
structure TableRegister where
  limit : BitVec 16
  base : Word

/-- A machine with its table register and everything it has written to ports. -/
structure Cpu where
  machine : Machine
  idtr : TableRegister
  outputs : List (Byte × Byte)

/-- Where an interrupt gate leads. -/
structure Gate where
  selector : BitVec 16
  offset : Word
  deriving DecidableEq

/-- The attribute byte of a present 32-bit interrupt gate; its privilege level does not matter to
interrupts of the hardware. -/
def IsInterruptGate (attributes : Byte) : Prop := attributes &&& 0x9F = 0x8E

instance (attributes : Byte) : Decidable (IsInterruptGate attributes) :=
  inferInstanceAs (Decidable (_ = _))

/-- The flags that the entry clears: TF, IF, NT, RF and VM. -/
def entryMask : Word := 0x34300

namespace Cpu

/-- The interrupt gate of a vector, if the table has one; gates of other types are not followed. -/
def gate? (c : Cpu) (vector : Byte) : Option Gate :=
  let memory := c.machine.memory
  let entry := c.idtr.base + BitVec.ofNat 32 (8 * vector.toNat)
  if 8 * vector.toNat + 7 ≤ c.idtr.limit.toNat ∧ IsInterruptGate (memory (entry + 5)) then
    some
      { selector := loadHalf memory (entry + 2)
        offset := loadHalf memory (entry + 6) ++ loadHalf memory entry }
  else none

/-- The words the entry of an interrupt pushes. -/
def interruptFrame (m : Machine) : List Word :=
  [m.eflags, (m.segment .cs).setWidth 32, m.eip]

/-- The machine at the first instruction of a handler. -/
def entered (m : Machine) (gate : Gate) : Machine :=
  { m.pushes (interruptFrame m) with
    segment := Function.update m.segment .cs gate.selector
    eip := gate.offset
    eflags := m.eflags &&& ~~~ entryMask }

/-- An interrupt is taken through its interrupt gate, if there is one. -/
def interrupt (c : Cpu) (vector : Byte) : Option Cpu :=
  (c.gate? vector).map fun gate => { c with machine := entered c.machine gate }

end Cpu

/-! ## Handlers -/

/-- An instruction of a handler. -/
inductive HandlerInstruction where
  | plain (instruction : Instruction) (straight : instruction.straight = true)
  | pusha
  | popa
  | pushSegment (source : Segment)
  | popSegment (target : Segment)
  | movAx (value : BitVec 16)
  | movAl (value : Byte)
  | outAl (port : Byte)
  | lidt (base : Register)
  | call
  | ret
  | iret

namespace HandlerInstruction

/-- Whether control goes on with the next instruction. -/
def straight : HandlerInstruction → Bool
  | call | ret | iret => false
  | _ => true

/-- What an instruction does, apart from the instruction pointer. -/
def effect (c : Cpu) : HandlerInstruction → Cpu
  | plain instruction _ => { c with machine := instruction.effect c.machine }
  | pusha => { c with machine := c.machine.pushes c.machine.generalRegisters }
  | popa => { c with machine := c.machine.popGeneral }
  | pushSegment source =>
      { c with machine := c.machine.pushWord ((c.machine.segment source).setWidth 32) }
  | popSegment target =>
      { c with
        machine :=
          { c.machine.drop with
            segment := Function.update c.machine.segment target (lowHalf c.machine.top) } }
  | movAx value =>
      { c with
        machine := c.machine.setRegister .eax (withLowHalf (c.machine.register .eax) value) }
  | movAl value =>
      { c with
        machine :=
          c.machine.setRegister .eax (Machine.withLowByte (c.machine.register .eax) value) }
  | outAl port =>
      { c with outputs := c.outputs ++ [(port, Machine.lowByte (c.machine.register .eax))] }
  | lidt base =>
      { c with
        idtr :=
          { limit := loadHalf c.machine.memory (c.machine.register base)
            base := ByteMemory.load c.machine.memory (c.machine.register base + 2) } }
  | call | ret | iret => c

end HandlerInstruction

/-- The effects of instructions in order. -/
def handlerEffects (c : Cpu) (block : List HandlerInstruction) : Cpu :=
  block.foldl HandlerInstruction.effect c

theorem handlerEffects_cons (c : Cpu) (instruction : HandlerInstruction)
    (rest : List HandlerInstruction) :
    handlerEffects c (instruction :: rest) = handlerEffects (instruction.effect c) rest := rfl

/-- An assembled handler. -/
structure Handler where
  code : List HandlerInstruction
  place : Nat → Word
  distinct : ∀ first < code.length, ∀ second < code.length,
    place first = place second → first = second

namespace Handler

variable (handler : Handler) (callee : Cpu → Cpu)

/-- The instruction pointer moves to an instruction of the handler. -/
def goTo (c : Cpu) (index : Nat) : Cpu :=
  { c with machine.eip := handler.place index }

/-- The machine at the first instruction of the function that is called. -/
def calling (c : Cpu) (index : Nat) : Cpu :=
  { c with machine := c.machine.pushWord (handler.place (index + 1)) }

/-- Execute the instruction at an index. -/
def execute (c : Cpu) (index : Nat) : HandlerInstruction → Cpu
  | .call => callee (handler.calling c index)
  | .ret => { c with machine := { c.machine.drop with eip := c.machine.top } }
  | .iret => { c with machine := c.machine.interruptReturn }
  | instruction => handler.goTo (instruction.effect c) (index + 1)

def indexOf? (address : Word) : Option Nat :=
  (List.range handler.code.length).find? fun index => decide (handler.place index = address)

/-- One step; `none` when control is not in the handler. -/
def step (c : Cpu) : Option Cpu :=
  match handler.indexOf? c.machine.eip with
  | none => none
  | some index => (handler.code[index]?).map (handler.execute callee c index)

/-- A number of steps. -/
def run : Nat → Cpu → Option Cpu
  | 0, c => some c
  | count + 1, c => (handler.step callee c).bind (run count)

variable {handler callee} {c : Cpu}

theorem indexOf?_place {index : Nat} (bound : index < handler.code.length) :
    handler.indexOf? (handler.place index) = some index := by
  cases found : handler.indexOf? (handler.place index) with
  | none =>
      have missed := List.find?_eq_none.mp found index (List.mem_range.mpr bound)
      exact absurd (decide_eq_true rfl) missed
  | some other =>
      have hit : handler.place other = handler.place index := of_decide_eq_true
        (List.find?_some (p := fun i => decide (handler.place i = handler.place index)) found)
      have inside := List.mem_range.mp (List.mem_of_find?_eq_some found)
      rw [handler.distinct other inside index bound hit]

/-- A step executes the instruction control is at. -/
theorem step_at {index : Nat} {instruction : HandlerInstruction}
    (fetched : handler.code[index]? = some instruction)
    (here : c.machine.eip = handler.place index) :
    handler.step callee c = some (handler.execute callee c index instruction) := by
  have bound := (List.getElem?_eq_some_iff.mp fetched).1
  rw [step, here, indexOf?_place bound]
  change (handler.code[index]?).map (handler.execute callee c index) = _
  rw [fetched]
  rfl

theorem effect_goTo (c : Cpu) (index : Nat) (instruction : HandlerInstruction) :
    instruction.effect (handler.goTo c index) = handler.goTo (instruction.effect c) index := by
  cases instruction with
  | plain instruction straight =>
      have moved := Program.effect_eip c.machine (handler.place index) instruction
      exact congrArg (fun machine => ({ c with machine } : Cpu)) moved
  | pusha =>
      have moved := c.machine.pushes_moved (handler.place index) c.machine.generalRegisters
      exact congrArg (fun machine => ({ c with machine } : Cpu)) moved
  | _ => rfl

theorem effects_goTo (c : Cpu) (index : Nat) (block : List HandlerInstruction) :
    handlerEffects (handler.goTo c index) block = handler.goTo (handlerEffects c block) index := by
  induction block generalizing c with
  | nil => rfl
  | cons instruction rest ih =>
      change handlerEffects (instruction.effect (handler.goTo c index)) rest = _
      rw [effect_goTo]
      exact ih (instruction.effect c)

theorem execute_straight {instruction : HandlerInstruction}
    (straight : instruction.straight = true) (c : Cpu) (index : Nat) :
    handler.execute callee c index instruction =
      handler.goTo (instruction.effect c) (index + 1) := by
  cases instruction with
  | call => cases straight
  | ret => cases straight
  | iret => cases straight
  | _ => rfl

theorem run_succ {index count : Nat} {instruction : HandlerInstruction}
    (fetched : handler.code[index]? = some instruction)
    (here : c.machine.eip = handler.place index) :
    handler.run callee (count + 1) c =
      handler.run callee count (handler.execute callee c index instruction) := by
  rw [run, step_at fetched here]
  rfl

/-- A block without branches runs through. -/
theorem run_straight {before block after : List HandlerInstruction}
    (split : handler.code = before ++ (block ++ after))
    (straight : ∀ instruction ∈ block, instruction.straight = true) (more : Nat)
    (here : c.machine.eip = handler.place before.length) :
    handler.run callee (block.length + more) c =
      handler.run callee more
        (handler.goTo (handlerEffects c block) (before.length + block.length)) := by
  induction block generalizing before c with
  | nil =>
      have same : handler.goTo c before.length = c := by
        rw [goTo, ← here]
      rw [List.length_nil, Nat.zero_add, Nat.add_zero]
      exact congrArg (handler.run callee more) same.symm
  | cons instruction rest ih =>
      have fetched : handler.code[before.length]? = some instruction := by
        rw [split, List.getElem?_append_right (Nat.le_refl _), Nat.sub_self]
        rfl
      have moved : handler.code = (before ++ [instruction]) ++ (rest ++ after) := by
        rw [split, List.append_assoc]
        rfl
      have there : (handler.goTo (instruction.effect c) (before.length + 1)).machine.eip =
          handler.place (before ++ [instruction]).length := by
        rw [List.length_append]
        rfl
      have later := ih moved
        (fun other member => straight other (List.mem_cons_of_mem instruction member)) there
      rw [effects_goTo, List.length_append, List.length_singleton] at later
      rw [List.length_cons, Nat.add_right_comm, run_succ fetched here,
        execute_straight (straight instruction List.mem_cons_self), later, Nat.add_assoc,
        Nat.add_comm 1]
      rfl

end Handler

end SimpleOS.Library.I386
