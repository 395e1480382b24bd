import SimpleOS.Machine.InterruptTable

/-!
# The timer interrupt

`timer_interrupt_wrapper` of `interrupts.asm`, from the interrupted instruction
through the descriptor table and `timer_handler` back to that instruction.
`timer_handler` is whatever the compiler made of it; what counts is that it
returns and leaves the words below its return address alone.
-/

namespace SimpleOS

open Library.ByteMemory Library.GuardedRun Library.I386

/-- `timer_interrupt_wrapper` up to the call of `timer_handler`. -/
def wrapperPrologue : List HandlerInstruction :=
  [.pusha, .pushSegment .ds, .pushSegment .es, .pushSegment .fs, .pushSegment .gs, .movAx 0x10,
    .plain (.movSegmentAx .ds) rfl, .plain (.movSegmentAx .es) rfl]

/-- From behind the call up to `iret`. -/
def wrapperEpilogue : List HandlerInstruction :=
  [.movAl 0x20, .outAl 0x20, .popSegment .gs, .popSegment .fs, .popSegment .es, .popSegment .ds,
    .popa]

def timerInterruptWrapperCode : List HandlerInstruction :=
  wrapperPrologue ++ [.call] ++ wrapperEpilogue ++ [.iret]

/-- The wrapper, wherever it is linked. -/
structure TimerWrapper where
  place : Nat → Word
  distinct : ∀ first < timerInterruptWrapperCode.length,
    ∀ second < timerInterruptWrapperCode.length, place first = place second → first = second

namespace TimerWrapper

variable (wrapper : TimerWrapper)

def handler : Handler := ⟨timerInterruptWrapperCode, wrapper.place, wrapper.distinct⟩

/-- `timer_interrupt_wrapper`. -/
def address : Word := wrapper.place 0

end TimerWrapper

/-- The table after `idt_init` and `timer_init`. -/
def Idt.booted (s : Idt) (exceptionHandler table timerInterruptWrapper : Word) : Idt :=
  (s.init exceptionHandler table).timerInit timerInterruptWrapper

/-- A function that is called returns to its caller and keeps the stack segment and so many bytes
below its return address. -/
structure ReturnsKeeping (callee : Cpu → Cpu) (size : Nat) (c : Cpu) : Prop where
  eip : (callee c).machine.eip = c.machine.top
  esp : (callee c).machine.register .esp = c.machine.register .esp + 4
  ss : (callee c).machine.segment .ss = c.machine.segment .ss
  frame : ∀ target, InRange (c.machine.register .esp + 4) size target →
    (callee c).machine.memory target = c.machine.memory target

/-! ## What is on the stack -/

/-- The words that the entry and the prologue push, in order. -/
def savedWords (m : Machine) : List Word :=
  Cpu.interruptFrame m ++
    [m.register .eax, m.register .ecx, m.register .edx, m.register .ebx, m.register .esp - 12,
      m.register .ebp, m.register .esi, m.register .edi] ++
    [(m.segment .ds).setWidth 32, (m.segment .es).setWidth 32, (m.segment .fs).setWidth 32,
      (m.segment .gs).setWidth 32]

/-- They lie on the stack in this order, the last one on top. -/
theorem savedWords_stacked (m : Machine) :
    Stacked (m.pushes (savedWords m)).memory (m.register .esp - 60) (savedWords m).reverse := by
  have small : 4 * ((savedWords m).length + ([] : List Word).length) ≤ 2 ^ 32 :=
    show 4 * (15 + 0) ≤ 2 ^ 32 by decide
  have nothing : Stacked m.memory (m.register .esp) [] := trivial
  have stacked := m.pushes_stacked nothing small
  rw [List.append_nil, Machine.pushes_esp] at stacked
  exact stacked

/-- The entry leaves the general registers alone, but for the stack pointer. -/
theorem generalRegisters_entered (m : Machine) (gate : Gate) :
    (Cpu.entered m gate).generalRegisters =
      [m.register .eax, m.register .ecx, m.register .edx, m.register .ebx, m.register .esp - 12,
        m.register .ebp, m.register .esi, m.register .edi] := by
  have same : ∀ register, register ≠ Register.esp →
      (m.pushes (Cpu.interruptFrame m)).register register = m.register register :=
    fun register other => m.pushes_register _ other
  have top := m.pushes_esp (Cpu.interruptFrame m)
  simp only [Machine.generalRegisters, Cpu.entered]
  rw [same .eax (by decide), same .ecx (by decide), same .edx (by decide), same .ebx (by decide),
    same .ebp (by decide), same .esi (by decide), same .edi (by decide), top]
  rfl

/-! ## The way in -/

section Prologue

variable (c : Cpu) (gate : Gate)

/-- The interrupted processor at the first instruction of a handler. -/
def taken : Cpu := { c with machine := Cpu.entered c.machine gate }

/-- Behind the prologue. -/
def prepared : Cpu := handlerEffects (taken c gate) wrapperPrologue

theorem taken_pusha :
    HandlerInstruction.pusha.effect (taken c gate) =
      { c with
        machine := (Cpu.entered c.machine gate).pushes
          [c.machine.register .eax, c.machine.register .ecx, c.machine.register .edx,
            c.machine.register .ebx, c.machine.register .esp - 12, c.machine.register .ebp,
            c.machine.register .esi, c.machine.register .edi] } := by
  rw [← generalRegisters_entered c.machine gate]
  rfl

theorem prepared_memory :
    (prepared c gate).machine.memory = (c.machine.pushes (savedWords c.machine)).memory := by
  rw [prepared, wrapperPrologue, handlerEffects_cons, taken_pusha]
  rfl

theorem prepared_esp :
    (prepared c gate).machine.register .esp = c.machine.register .esp - 60 := by
  have top := c.machine.pushes_esp (savedWords c.machine)
  rw [prepared, wrapperPrologue, handlerEffects_cons, taken_pusha]
  exact top

theorem prepared_segment (segment : Segment) :
    (prepared c gate).machine.segment segment =
      if segment = .ds ∨ segment = .es then 0x10
      else if segment = .cs then gate.selector else c.machine.segment segment := by
  have kernelData (word : Word) : lowHalf (withLowHalf word 0x10) = 0x10 :=
    lowHalf_withLowHalf word 0x10
  rw [prepared, wrapperPrologue, handlerEffects_cons, taken_pusha]
  cases segment with
  | ds => exact kernelData _
  | es => exact kernelData _
  | _ => rfl

theorem prepared_eflags :
    (prepared c gate).machine.eflags = c.machine.eflags &&& ~~~ entryMask := by
  rw [prepared, wrapperPrologue, handlerEffects_cons, taken_pusha]
  rfl

theorem prepared_outputs : (prepared c gate).outputs = c.outputs := by
  rw [prepared, wrapperPrologue, handlerEffects_cons, taken_pusha]
  rfl

end Prologue

/-! ## The way back -/

section Epilogue

variable {m : Machine} {u : Cpu}

/-- The registers that the epilogue restores. -/
theorem epilogue_registers (esp : u.machine.register .esp = m.register .esp - 60)
    (stacked : Stacked u.machine.memory (m.register .esp - 60) (savedWords m).reverse)
    (register : Register) :
    (handlerEffects u wrapperEpilogue).machine.register register =
      if register = .esp then m.register .esp - 12 else m.register register := by
  have popped (index : Nat) (bound : index < 8) :
      Library.ByteMemory.load u.machine.memory
          (u.machine.register .esp + 4 + 4 + 4 + 4 + BitVec.ofNat 32 (4 * index)) =
        (savedWords m).reverse.get ⟨index + 4, show index + 4 < 15 by omega⟩ := by
    have word := stacked.word (index + 4) (show index + 4 < 15 by omega)
    rw [← word, esp]
    refine congrArg (Library.ByteMemory.load u.machine.memory) ?_
    bv_omega
  cases register with
  | eax => exact popped 7 (by decide)
  | ebx => exact popped 4 (by decide)
  | ecx => exact popped 6 (by decide)
  | edx => exact popped 5 (by decide)
  | esi => exact popped 1 (by decide)
  | edi => exact popped 0 (by decide)
  | ebp => exact popped 2 (by decide)
  | esp =>
      change u.machine.register .esp + 4 + 4 + 4 + 4 + 32 = m.register .esp - 12
      rw [esp]
      bv_omega

/-- The segment registers. -/
theorem epilogue_segments (esp : u.machine.register .esp = m.register .esp - 60)
    (stacked : Stacked u.machine.memory (m.register .esp - 60) (savedWords m).reverse)
    (segment : Segment) :
    (handlerEffects u wrapperEpilogue).machine.segment segment =
      if segment = .cs ∨ segment = .ss then u.machine.segment segment
      else m.segment segment := by
  obtain ⟨gs, fs, es, ds, _⟩ := stacked
  rw [← esp] at gs fs es ds
  cases segment with
  | cs => rfl
  | ss => rfl
  | gs => exact (congrArg lowHalf gs).trans (lowHalf_extended _)
  | fs => exact (congrArg lowHalf fs).trans (lowHalf_extended _)
  | es => exact (congrArg lowHalf es).trans (lowHalf_extended _)
  | ds => exact (congrArg lowHalf ds).trans (lowHalf_extended _)

/-- With the saved words on the stack, the epilogue and `iret` bring the interrupted machine back,
with the memory as it is then. -/
theorem epilogue_restores (esp : u.machine.register .esp = m.register .esp - 60)
    (ss : u.machine.segment .ss = m.segment .ss)
    (stacked : Stacked u.machine.memory (m.register .esp - 60) (savedWords m).reverse)
    (eip : Word) :
    ({ (handlerEffects u wrapperEpilogue).machine with eip := eip } : Machine).interruptReturn =
      { m with memory := u.machine.memory } := by
  have registers := epilogue_registers esp stacked
  have segments := epilogue_segments esp stacked
  have top : (handlerEffects u wrapperEpilogue).machine.register .esp = m.register .esp - 12 :=
    registers .esp
  have frame (index : Nat) (bound : index < 3) :
      Library.ByteMemory.load u.machine.memory
          (m.register .esp - 12 + BitVec.ofNat 32 (4 * index)) =
        (savedWords m).reverse.get ⟨index + 12, show index + 12 < 15 by omega⟩ := by
    have word := stacked.word (index + 12) (show index + 12 < 15 by omega)
    rw [← word]
    refine congrArg (Library.ByteMemory.load u.machine.memory) ?_
    bv_omega
  apply Machine.eq_of_parts
  · intro register
    simp only [Machine.interruptReturn, Machine.setRegister, top]
    rcases Classical.em (register = .esp) with rfl | other
    · rw [Function.update_self, BitVec.sub_add_cancel]
    · rw [Function.update_of_ne other, registers, if_neg other]
  · intro segment
    simp only [Machine.interruptReturn, top]
    rcases Classical.em (segment = .cs) with rfl | other
    · rw [Function.update_self]
      exact (congrArg lowHalf (frame 1 (by decide))).trans (lowHalf_extended _)
    · rw [Function.update_of_ne other, segments]
      rcases Classical.em (segment = .ss) with rfl | others
      · rw [if_pos (Or.inr rfl), ss]
      · rw [if_neg (not_or.mpr ⟨other, others⟩)]
  · simp only [Machine.interruptReturn, top]
    have word := frame 0 (by decide)
    rw [Nat.mul_zero, BitVec.add_zero] at word
    exact word
  · simp only [Machine.interruptReturn, top]
    exact frame 2 (by decide)
  · rfl

end Epilogue

/-! ## There and back -/

namespace TimerWrapper

variable (wrapper : TimerWrapper) (callee : Cpu → Cpu) (c : Cpu)

/-- The processor at the first instruction of `timer_handler`. -/
def atHandler : Cpu :=
  wrapper.handler.calling (wrapper.handler.goTo (prepared c ⟨0x08, wrapper.address⟩) 8) 8

/-- The processor when the interrupted code goes on. -/
def resumed : Cpu :=
  { callee (wrapper.atHandler c) with
    machine := { c.machine with memory := (callee (wrapper.atHandler c)).machine.memory }
    outputs := (callee (wrapper.atHandler c)).outputs ++ [(0x20, 0x20)] }

variable {wrapper callee c}

theorem atHandler_esp (wrapper : TimerWrapper) (c : Cpu) :
    (wrapper.atHandler c).machine.register .esp = c.machine.register .esp - 64 := by
  simp only [atHandler, Handler.calling, Handler.goTo, Machine.pushWord_esp, prepared_esp]
  bv_omega

theorem atHandler_memory (wrapper : TimerWrapper) (c : Cpu) :
    (wrapper.atHandler c).machine.memory =
      store (c.machine.pushes (savedWords c.machine)).memory (c.machine.register .esp - 64)
        (wrapper.place 9) := by
  have top : c.machine.register .esp - 60 - 4 = c.machine.register .esp - 64 := by bv_omega
  simp only [atHandler, Handler.calling, Handler.goTo, Machine.pushWord_memory, prepared_esp,
    prepared_memory, top]
  rfl

theorem atHandler_segment (wrapper : TimerWrapper) (c : Cpu) :
    (wrapper.atHandler c).machine.segment =
      (prepared c ⟨0x08, wrapper.address⟩).machine.segment := by
  simp only [atHandler, Handler.calling, Handler.goTo, Machine.pushWord_segment]

theorem atHandler_eflags (wrapper : TimerWrapper) (c : Cpu) :
    (wrapper.atHandler c).machine.eflags =
      (prepared c ⟨0x08, wrapper.address⟩).machine.eflags := by
  simp only [atHandler, Handler.calling, Handler.goTo, Machine.pushWord_eflags]

/-- How `timer_handler` is entered: in the kernel's segments, with interrupts off, and with nothing
changed but 64 bytes below the stack pointer. -/
structure Entered (c entry : Cpu) : Prop where
  segments : entry.machine.segment .cs = 0x08 ∧ entry.machine.segment .ds = 0x10 ∧
    entry.machine.segment .es = 0x10
  interrupts : entry.machine.eflags.getLsbD 9 = false
  outputs : entry.outputs = c.outputs
  memory : ∀ target, ¬ InRange (c.machine.register .esp - 64) 64 target →
    entry.machine.memory target = c.machine.memory target

theorem atHandler_entered (wrapper : TimerWrapper) (c : Cpu) :
    Entered c (wrapper.atHandler c) := by
  have segment := prepared_segment c ⟨0x08, wrapper.address⟩
  refine ⟨?_, ?_, ?_, fun target outside => ?_⟩
  · rw [atHandler_segment, segment .cs, segment .ds, segment .es]
    exact ⟨rfl, rfl, rfl⟩
  · rw [atHandler_eflags, prepared_eflags, BitVec.getLsbD_and,
      show (~~~ entryMask).getLsbD 9 = false by decide, Bool.and_false]
  · simp only [atHandler, Handler.calling, Handler.goTo, prepared_outputs]
  · have small : 4 * (savedWords c.machine).length ≤ 2 ^ 32 := show 4 * 15 ≤ 2 ^ 32 by decide
    rw [atHandler_memory]
    refine (store_outside _ _ fun hit => outside ?_).trans
      (c.machine.pushes_memory small fun hit => outside ?_)
    · rw [InRange] at hit ⊢
      omega
    · change InRange (c.machine.register .esp - 60) 60 target at hit
      rw [InRange] at hit ⊢
      bv_omega

/-- What `timer_handler` keeps is what the wrapper has saved. -/
theorem returned_stacked (returns : ReturnsKeeping callee 60 (wrapper.atHandler c)) :
    (callee (wrapper.atHandler c)).machine.register .esp = c.machine.register .esp - 60 ∧
      (callee (wrapper.atHandler c)).machine.segment .ss = c.machine.segment .ss ∧
      (callee (wrapper.atHandler c)).machine.eip = wrapper.place 9 ∧
      Stacked (callee (wrapper.atHandler c)).machine.memory (c.machine.register .esp - 60)
        (savedWords c.machine).reverse := by
  have top : (wrapper.atHandler c).machine.register .esp + 4 = c.machine.register .esp - 60 := by
    rw [atHandler_esp]
    bv_omega
  refine ⟨returns.esp.trans top, returns.ss.trans ?_, returns.eip.trans ?_, ?_⟩
  · have segment := prepared_segment c ⟨0x08, wrapper.address⟩ .ss
    rw [if_neg (by decide), if_neg (by decide)] at segment
    rw [atHandler_segment]
    exact segment
  · rw [Machine.top, atHandler_esp, atHandler_memory, load_store_same]
  · refine (savedWords_stacked c.machine).congr (show 4 * 15 ≤ 2 ^ 32 by decide) ?_
    intro target inside
    have kept := returns.frame target (top ▸ inside)
    refine kept.trans ?_
    rw [atHandler_memory]
    refine store_outside _ _ fun hit => ?_
    rw [InRange] at inside hit
    rw [List.length_reverse] at inside
    change _ < 4 * 15 at inside
    bv_omega

/-- The epilogue writes the end-of-interrupt command and nothing else. -/
theorem epilogue_outputs (u : Cpu) :
    (handlerEffects u wrapperEpilogue).outputs = u.outputs ++ [(0x20, 0x20)] := by
  have written : Machine.lowByte (Machine.withLowByte (u.machine.register .eax) 0x20) = 0x20 :=
    Machine.lowByte_withLowByte _ _
  change u.outputs ++ [(0x20, Machine.lowByte (Machine.withLowByte (u.machine.register .eax) 0x20))]
    = _
  rw [written]

/-- The seventeen instructions of the wrapper. -/
theorem wrapper_run (returns : ReturnsKeeping callee 60 (wrapper.atHandler c)) :
    wrapper.handler.run callee 17 (taken c ⟨0x08, wrapper.address⟩) =
      some (wrapper.resumed callee c) := by
  obtain ⟨esp, ss, eip, stacked⟩ := returned_stacked returns
  have restored := epilogue_restores esp ss stacked (wrapper.place 16)
  have outputs := epilogue_outputs (callee (wrapper.atHandler c))
  have first : wrapper.handler.code =
      [] ++ (wrapperPrologue ++ ([.call] ++ wrapperEpilogue ++ [.iret])) := rfl
  have last : wrapper.handler.code =
      (wrapperPrologue ++ [.call]) ++ (wrapperEpilogue ++ [.iret]) := rfl
  have wayIn : wrapper.handler.run callee (8 + 9) (taken c ⟨0x08, wrapper.address⟩) =
      wrapper.handler.run callee 9
        (wrapper.handler.goTo (prepared c ⟨0x08, wrapper.address⟩) 8) :=
    Handler.run_straight first (by decide) 9 rfl
  have call : wrapper.handler.run callee (8 + 1)
      (wrapper.handler.goTo (prepared c ⟨0x08, wrapper.address⟩) 8) =
        wrapper.handler.run callee 8 (callee (wrapper.atHandler c)) :=
    Handler.run_succ (show wrapper.handler.code[8]? = some .call from rfl) rfl
  have wayOut : wrapper.handler.run callee (7 + 1) (callee (wrapper.atHandler c)) =
      wrapper.handler.run callee 1
        (wrapper.handler.goTo
          (handlerEffects (callee (wrapper.atHandler c)) wrapperEpilogue) 16) :=
    Handler.run_straight last (by decide) 1 eip
  refine wayIn.trans (call.trans (wayOut.trans ?_))
  refine (Handler.run_succ (show wrapper.handler.code[16]? = some .iret from rfl) rfl).trans ?_
  exact congrArg some (congrArg₂
    (fun machine outputs => (⟨machine, (callee (wrapper.atHandler c)).idtr, outputs⟩ : Cpu))
    restored outputs)

end TimerWrapper

/-- The timer's vector leads to the wrapper. -/
theorem Idt.booted_gate (s : Idt) (exceptionHandler table : Word) (wrapper : TimerWrapper)
    (m : Machine) (outputs : List (Byte × Byte)) :
    ((s.booted exceptionHandler table wrapper.address).loaded m table outputs).gate? 32 =
      some ⟨0x08, wrapper.address⟩ := by
  have represents := (s.init_represents exceptionHandler table).call
    ⟨32, wrapper.address, 0x08, 0x8E⟩
  have found := gate?_loaded table represents.limit represents.base m outputs 32
  rw [represents.entries, GateMap.call, Function.update_self] at found
  exact found.trans (if_pos (show IsInterruptGate 0x8E by decide))

/--
A timer interrupt is transparent: through the table that `idt_init` and
`timer_init` leave in memory it enters `timer_handler` in the kernel's segments,
and when that returns, the interrupted code goes on with every register, segment
register and flag as it was, one end-of-interrupt command later; of the memory,
only what `timer_handler` wrote and 64 bytes below the stack have changed.
-/
theorem timer_interrupt_transparent (wrapper : TimerWrapper) (timerHandler : Cpu → Cpu) (s : Idt)
    (exceptionHandler table : Word) (m : Machine) (outputs : List (Byte × Byte)) (c : Cpu)
    (running : c = (s.booted exceptionHandler table wrapper.address).loaded m table outputs)
    (returns : ReturnsKeeping timerHandler 60 (wrapper.atHandler c)) :
    TimerWrapper.Entered c (wrapper.atHandler c) ∧
      ∃ entry final, c.interrupt 32 = some entry ∧
        wrapper.handler.run timerHandler 17 entry = some final ∧
        final.machine =
          { c.machine with memory := (timerHandler (wrapper.atHandler c)).machine.memory } ∧
        final.outputs = (timerHandler (wrapper.atHandler c)).outputs ++ [(0x20, 0x20)] := by
  have gate := s.booted_gate exceptionHandler table wrapper m outputs
  rw [← running] at gate
  refine ⟨wrapper.atHandler_entered c, taken c ⟨0x08, wrapper.address⟩, _, ?_,
    TimerWrapper.wrapper_run returns, rfl, rfl⟩
  rw [Cpu.interrupt, gate]
  rfl

/-! ## A tick that only counts -/

/-- `timer_handler` when nobody else is to run: it counts the tick and returns with its result in
EAX. -/
def countingHandler (timerTicks : Word) (c : Cpu) : Cpu :=
  let ticks := load c.machine.memory timerTicks + 1
  { c with
    machine :=
      { c.machine.drop.setRegister .eax ticks with
        eip := c.machine.top
        memory := store c.machine.memory timerTicks ticks } }

/-- It returns as it should if the counter is not on the stack. -/
theorem countingHandler_returns {timerTicks : Word} {c : Cpu}
    (apart : Apart (c.machine.register .esp + 4) 60 timerTicks 4) :
    ReturnsKeeping (countingHandler timerTicks) 60 c := by
  refine ⟨rfl, rfl, rfl, fun target inside => ?_⟩
  exact store_outside _ _ (apart target inside)

def sampleWrapper : TimerWrapper where
  place index := BitVec.ofNat 32 (0x101000 + 2 * index)
  distinct := by decide

/-- The shell's loop, somewhere between two instructions. -/
def sampleInterrupted : Machine where
  register
    | .esp => 0x90000
    | .ebp => 0x90040
    | .ebx => 0x118000
    | _ => 7
  segment
    | .cs => 0x08
    | _ => 0x10
  eip := 0x100500
  eflags := 0x246
  memory := fun _ => 0

/-- It does not notice such a tick. -/
theorem timer_interrupt_transparent_sample :
    let c := (Idt.booted ⟨fun _ => ⟨0, 0, 0, 0, 0⟩, 0, 0⟩ 0x102000 0x118000
      sampleWrapper.address).loaded sampleInterrupted 0x118000 []
    TimerWrapper.Entered c (sampleWrapper.atHandler c) ∧
      ∃ entry final, c.interrupt 32 = some entry ∧
        sampleWrapper.handler.run (countingHandler 0x120000) 17 entry = some final ∧
        final.machine =
          { c.machine with
            memory := (countingHandler 0x120000 (sampleWrapper.atHandler c)).machine.memory } ∧
        final.outputs =
          (countingHandler 0x120000 (sampleWrapper.atHandler c)).outputs ++ [(0x20, 0x20)] := by
  intro c
  refine timer_interrupt_transparent sampleWrapper (countingHandler 0x120000)
    ⟨fun _ => ⟨0, 0, 0, 0, 0⟩, 0, 0⟩ 0x102000 0x118000 sampleInterrupted [] c rfl
    (countingHandler_returns ?_)
  have esp : (sampleWrapper.atHandler c).machine.register .esp = 0x90000 - 64 :=
    sampleWrapper.atHandler_esp c
  rw [esp]
  exact apart_of_distance (by decide) (by decide)

end SimpleOS
