import SimpleOS.Library.GuardedRun
import SimpleOS.Library.Interrupts

/-!
# The interrupt descriptor table

`idt.c` fills a table of packed entries, and the processor reads it back when
an interrupt comes.  What the table is for is a map from vectors to gates.
-/

namespace SimpleOS

open Library.ByteMemory Library.GuardedRun Library.I386

/-! ## The table of idt.c -/

/-- `struct idt_entry`. -/
structure IdtEntry where
  baseLow : BitVec 16
  sel : BitVec 16
  always0 : Byte
  flags : Byte
  baseHigh : BitVec 16

def lowByteOf (half : BitVec 16) : Byte := half.setWidth 8
def highByteOf (half : BitVec 16) : Byte := (half >>> 8).setWidth 8

/-- The bytes of a packed entry. -/
def IdtEntry.bytes (entry : IdtEntry) : Nat → Byte
  | 0 => lowByteOf entry.baseLow
  | 1 => highByteOf entry.baseLow
  | 2 => lowByteOf entry.sel
  | 3 => highByteOf entry.sel
  | 4 => entry.always0
  | 5 => entry.flags
  | 6 => lowByteOf entry.baseHigh
  | _ => highByteOf entry.baseHigh

def idtEntries : Nat := 256

/-- `sizeof(struct idt_entry)`. -/
def idtEntrySize : Nat := 8

/-- `idt_entries`, indexed by a `uint8_t`, and `idt_p`. -/
structure Idt where
  entries : Byte → IdtEntry
  limit : BitVec 16
  base : Word

namespace Idt

/-- `idt_set_gate`. -/
def setGate (s : Idt) (num : Byte) (base : Word) (sel : BitVec 16) (flags : Byte) : Idt :=
  { s with
    entries :=
      Function.update s.entries num
        { baseLow := (base &&& 0xFFFF).setWidth 16
          baseHigh := ((base >>> 16) &&& 0xFFFF).setWidth 16
          sel := sel
          always0 := 0
          flags := flags } }

/-- The loop of `idt_init` that clears the first entries. -/
def clearLoop : Nat → Idt → Idt
  | 0, s => s
  | count + 1, s =>
      { clearLoop count s with
        entries := Function.update (clearLoop count s).entries (BitVec.ofNat 8 count)
          { baseLow := 0, sel := 0, always0 := 0, flags := 0, baseHigh := 0 } }

/-- The eight exceptions that `idt_init` sets gates for. -/
def exceptionVectors : List Byte := [0, 1, 2, 3, 4, 5, 6, 7]

/-- `idt_init`, with the addresses of `exception_handler` and of `idt_entries`. -/
def init (s : Idt) (exceptionHandler table : Word) : Idt :=
  let s := { s with limit := BitVec.ofNat 16 (idtEntrySize * idtEntries - 1), base := table }
  let s := clearLoop idtEntries s
  exceptionVectors.foldl (fun s num => s.setGate num exceptionHandler 0x08 0x8E) s

/-- The gate that `timer_init` sets. -/
def timerInit (s : Idt) (timerInterruptWrapper : Word) : Idt :=
  s.setGate 32 timerInterruptWrapper 0x08 0x8E

/-- The memory with the table in it. -/
def image (s : Idt) (memory : Memory) (table : Word) : Memory := fun target =>
  let offset := (target - table).toNat
  if offset < idtEntrySize * idtEntries then
    (s.entries (BitVec.ofNat 8 (offset / idtEntrySize))).bytes (offset % idtEntrySize)
  else memory target

/-- A processor with the table in memory and `idt_p` in its register. -/
def loaded (s : Idt) (m : Machine) (table : Word) (outputs : List (Byte × Byte)) : Cpu where
  machine := { m with memory := s.image m.memory table }
  idtr := ⟨s.limit, s.base⟩
  outputs := outputs

end Idt

/-- `idt_p` in memory, packed: the limit and then the base. -/
def Idt.pointerImage (s : Idt) (memory : Memory) (pointer : Word) : Memory :=
  store (storeHalf memory pointer s.limit) (pointer + 2) s.base

/-- `idt_flush`. -/
def idtFlushCode : List HandlerInstruction :=
  [.plain (.load .eax .esp 4) rfl, .lidt .eax, .ret]

/-! ## What the table is for -/

/-- The arguments of `idt_set_gate`. -/
structure GateCall where
  num : Byte
  base : Word
  sel : BitVec 16
  flags : Byte

def Idt.call (s : Idt) (call : GateCall) : Idt :=
  s.setGate call.num call.base call.sel call.flags

/-- Vectors and their interrupt gates. -/
abbrev GateMap := Byte → Option Gate

/-- The last call for a vector decides. -/
def GateMap.call (gates : GateMap) (call : GateCall) : GateMap :=
  Function.update gates call.num
    (if IsInterruptGate call.flags then some ⟨call.sel, call.base⟩ else none)

/-- The map after `idt_init`. -/
def GateMap.init (exceptionHandler : Word) : GateMap := fun vector =>
  if vector.toNat < 8 then some ⟨0x08, exceptionHandler⟩ else none

/-! ## Entries -/

theorem half_bytes (half : BitVec 16) : highByteOf half ++ lowByteOf half = half := by
  have bound := half.isLt
  apply BitVec.eq_of_toNat_eq
  rw [BitVec.toNat_append, ← Nat.shiftLeft_add_eq_or_of_lt (BitVec.isLt _), Nat.shiftLeft_eq]
  simp only [highByteOf, lowByteOf, BitVec.toNat_setWidth, BitVec.toNat_ushiftRight,
    Nat.shiftRight_eq_div_pow]
  omega

/-- The halves of a handler's address. -/
theorem word_halves (word : Word) :
    ((word >>> 16) &&& 0xFFFF).setWidth 16 ++ (word &&& 0xFFFF).setWidth 16 = word := by
  have bound := word.isLt
  apply BitVec.eq_of_toNat_eq
  rw [BitVec.toNat_append, ← Nat.shiftLeft_add_eq_or_of_lt (BitVec.isLt _), Nat.shiftLeft_eq]
  have mask : (0xFFFF : Word).toNat = 2 ^ 16 - 1 := rfl
  simp only [BitVec.toNat_setWidth, BitVec.toNat_and, BitVec.toNat_ushiftRight, mask,
    Nat.and_two_pow_sub_one_eq_mod, Nat.shiftRight_eq_div_pow]
  omega

namespace IdtEntry

/-- The gate that the processor makes of an entry. -/
def gate? (entry : IdtEntry) : Option Gate :=
  if IsInterruptGate entry.flags then some ⟨entry.sel, entry.baseHigh ++ entry.baseLow⟩ else none

end IdtEntry

namespace Idt

variable (s : Idt) (memory : Memory) (table : Word)

/-- The byte of an entry in memory. -/
theorem image_byte (num : Byte) (offset : Nat) (bound : offset < 8) :
    s.image memory table (table + BitVec.ofNat 32 (8 * num.toNat) + BitVec.ofNat 32 offset) =
      (s.entries num).bytes offset := by
  have below := num.isLt
  have place : (table + BitVec.ofNat 32 (8 * num.toNat) + BitVec.ofNat 32 offset - table).toNat =
      8 * num.toNat + offset := by
    rw [BitVec.add_assoc, ← BitVec.ofNat_add]
    exact offset_toNat table (by omega)
  have inside : 8 * num.toNat + offset < idtEntrySize * idtEntries := by
    rw [idtEntrySize, idtEntries]
    omega
  have index : (8 * num.toNat + offset) / idtEntrySize = num.toNat := by
    rw [idtEntrySize]
    omega
  have rest : (8 * num.toNat + offset) % idtEntrySize = offset := by
    rw [idtEntrySize]
    omega
  simp only [image, place, if_pos inside, index, rest, BitVec.ofNat_toNat, BitVec.setWidth_eq]

/-- Half words of an entry. -/
theorem image_half (num : Byte) (offset : Nat) (bound : offset + 1 < 8) :
    loadHalf (s.image memory table)
        (table + BitVec.ofNat 32 (8 * num.toNat) + BitVec.ofNat 32 offset) =
      (s.entries num).bytes (offset + 1) ++ (s.entries num).bytes offset := by
  have high := s.image_byte memory table num (offset + 1) bound
  rw [BitVec.ofNat_add, ← BitVec.add_assoc] at high
  rw [loadHalf, s.image_byte memory table num offset (by omega)]
  exact congrArg (· ++ _) high

variable {s}

/-- The processor finds the entry of the vector. -/
theorem gate?_loaded (limit : s.limit = 0x7FF) (base : s.base = table) (m : Machine)
    (outputs : List (Byte × Byte)) (vector : Byte) :
    (s.loaded m table outputs).gate? vector = (s.entries vector).gate? := by
  have below := vector.isLt
  have inside : 8 * vector.toNat + 7 ≤ (0x7FF : BitVec 16).toNat := by
    change 8 * vector.toNat + 7 ≤ 2047
    omega
  have low : loadHalf (s.image m.memory table) (table + BitVec.ofNat 32 (8 * vector.toNat)) =
      (s.entries vector).baseLow := by
    have half := s.image_half m.memory table vector 0 (by decide)
    rw [BitVec.add_zero] at half
    exact half.trans (half_bytes _)
  have selector : loadHalf (s.image m.memory table)
      (table + BitVec.ofNat 32 (8 * vector.toNat) + 2) = (s.entries vector).sel :=
    (s.image_half m.memory table vector 2 (by decide)).trans (half_bytes _)
  have high : loadHalf (s.image m.memory table)
      (table + BitVec.ofNat 32 (8 * vector.toNat) + 6) = (s.entries vector).baseHigh :=
    (s.image_half m.memory table vector 6 (by decide)).trans (half_bytes _)
  have flags : s.image m.memory table (table + BitVec.ofNat 32 (8 * vector.toNat) + 5) =
      (s.entries vector).flags := s.image_byte m.memory table vector 5 (by decide)
  simp only [Cpu.gate?, loaded, limit, base, inside, true_and, flags, selector, low, high,
    IdtEntry.gate?]

/-- `idt_flush(&idt_p)` loads the register and returns. -/
theorem idtFlush_loads {handler : Handler} {callee : Cpu → Cpu} {c : Cpu} {pointer : Word}
    {before : Memory} (code : handler.code = idtFlushCode) (here : c.machine.eip = handler.place 0)
    (argument : load c.machine.memory (c.machine.register .esp + 4) = pointer)
    (written : c.machine.memory = s.pointerImage before pointer) :
    handler.run callee 3 c =
      some
        { c with
          machine :=
            { (c.machine.setRegister .eax pointer).drop with eip := c.machine.top }
          idtr := ⟨s.limit, s.base⟩ } := by
  have apart : Apart pointer 2 (pointer + 2) 4 :=
    apart_of_distance (by bv_omega) (by bv_omega)
  have limit : loadHalf c.machine.memory pointer = s.limit := by
    rw [written, pointerImage]
    refine (loadHalf_congr fun target inside => ?_).trans
      (loadHalf_storeHalf_same before pointer s.limit)
    exact store_outside _ _ (apart target inside)
  have base : load c.machine.memory (pointer + 2) = s.base := by
    rw [written, pointerImage, load_store_same]
  have split : handler.code =
      [] ++ ([.plain (.load .eax .esp 4) rfl, .lidt .eax] ++ [.ret]) := code
  have flushed : handlerEffects c [.plain (.load .eax .esp 4) rfl, .lidt .eax] =
      { c with
        machine := c.machine.setRegister .eax pointer
        idtr := ⟨s.limit, s.base⟩ } := by
    simp only [handlerEffects, List.foldl_cons, List.foldl_nil, HandlerInstruction.effect,
      Instruction.effect, argument, Machine.setRegister_register, Machine.setRegister_memory,
      Function.update_self, limit, base]
  have loads : handler.run callee (2 + 1) c = handler.run callee 1
      (handler.goTo (handlerEffects c [.plain (.load .eax .esp 4) rfl, .lidt .eax]) 2) :=
    Handler.run_straight split (by decide) 1 here
  have last : handler.code[2]? = some .ret := by
    rw [code]
    rfl
  rw [flushed] at loads
  exact loads.trans (Handler.run_succ last rfl)

/-! ## The table and the map -/

/-- The table stands for the map. -/
structure Represents (s : Idt) (table : Word) (gates : GateMap) : Prop where
  limit : s.limit = 0x7FF
  base : s.base = table
  entries : ∀ vector, (s.entries vector).gate? = gates vector

theorem setGate_gate? (s : Idt) (call : GateCall) (vector : Byte) :
    ((s.call call).entries vector).gate? =
      GateMap.call (fun vector => (s.entries vector).gate?) call vector := by
  rcases Classical.em (vector = call.num) with rfl | other
  · simp only [Idt.call, setGate, GateMap.call, Function.update_self, IdtEntry.gate?, word_halves]
  · simp only [Idt.call, setGate, GateMap.call, Function.update_of_ne other]

variable {table} {gates : GateMap}

theorem Represents.call (represents : s.Represents table gates) (call : GateCall) :
    (s.call call).Represents table (gates.call call) := by
  refine ⟨represents.limit, represents.base, fun vector => ?_⟩
  rw [setGate_gate?, funext represents.entries]

theorem Represents.run (represents : s.Represents table gates) (calls : List GateCall) :
    (run Idt.call s calls).Represents table (run GateMap.call gates calls) := by
  induction calls generalizing s gates with
  | nil => exact represents
  | cons call rest ih => exact ih (represents.call call)

/-- The loop clears what it has passed. -/
theorem clearLoop_entries (count : Nat) (s : Idt) :
    (clearLoop count s).limit = s.limit ∧ (clearLoop count s).base = s.base ∧
      ∀ vector : Byte, vector.toNat < count →
        ((clearLoop count s).entries vector).gate? = none := by
  induction count with
  | zero => exact ⟨rfl, rfl, fun vector bound => absurd bound (Nat.not_lt_zero _)⟩
  | succ count ih =>
      obtain ⟨limit, base, cleared⟩ := ih
      refine ⟨limit, base, fun vector bound => ?_⟩
      rcases Classical.em (vector = BitVec.ofNat 8 count) with rfl | other
      · simp only [clearLoop, Function.update_self]
        exact if_neg (by decide)
      · simp only [clearLoop, Function.update_of_ne other]
        apply cleared
        refine Nat.lt_of_le_of_ne (Nat.le_of_lt_succ bound) fun same => other ?_
        rw [← same, BitVec.ofNat_toNat, BitVec.setWidth_eq]

/-- The same gate for a list of vectors. -/
theorem run_call_map (handler : Word) (vectors : List Byte) (gates : GateMap) (vector : Byte) :
    run GateMap.call gates (vectors.map fun num => ⟨num, handler, 0x08, 0x8E⟩) vector =
      if vector ∈ vectors then some ⟨0x08, handler⟩ else gates vector := by
  induction vectors generalizing gates with
  | nil => rfl
  | cons num rest ih =>
      rw [List.map_cons, Library.GuardedRun.run, ih]
      rcases Classical.em (vector ∈ rest) with later | never
      · rw [if_pos later, if_pos (List.mem_cons_of_mem num later)]
      · rw [if_neg never, GateMap.call]
        rcases Classical.em (vector = num) with rfl | other
        · rw [Function.update_self, if_pos List.mem_cons_self]
          exact if_pos (show IsInterruptGate 0x8E by decide)
        · rw [Function.update_of_ne other, if_neg (List.not_mem_cons_of_ne_of_not_mem other never)]

theorem mem_exceptionVectors : ∀ vector : Byte, vector ∈ exceptionVectors ↔ vector.toNat < 8 := by
  decide

/-- `idt_init` sets up a table for the map with the eight exceptions. -/
theorem init_represents (s : Idt) (exceptionHandler table : Word) :
    (s.init exceptionHandler table).Represents table (GateMap.init exceptionHandler) := by
  obtain ⟨limit, base, cleared⟩ := clearLoop_entries idtEntries
    { s with limit := BitVec.ofNat 16 (idtEntrySize * idtEntries - 1), base := table }
  have empty : (clearLoop idtEntries
      { s with limit := BitVec.ofNat 16 (idtEntrySize * idtEntries - 1), base := table }).Represents
        table fun _ => none := ⟨limit, base, fun vector => cleared vector vector.isLt⟩
  have filled := empty.run (exceptionVectors.map fun num => ⟨num, exceptionHandler, 0x08, 0x8E⟩)
  have same : run GateMap.call (fun _ => none)
      (exceptionVectors.map fun num => (⟨num, exceptionHandler, 0x08, 0x8E⟩ : GateCall)) =
        GateMap.init exceptionHandler := by
    funext vector
    rw [run_call_map, GateMap.init]
    simp only [mem_exceptionVectors]
  rw [same] at filled
  exact filled

/--
Whatever calls of `idt_set_gate` follow `idt_init`, the processor finds for each
of the 256 vectors the interrupt gate of the last call, or that of the
exception handler below 8, or none; also after the bytes of the packed entries
and the limit have been through memory.
-/
theorem gates_delivered (s : Idt) (exceptionHandler table : Word) (calls : List GateCall)
    (m : Machine) (outputs : List (Byte × Byte)) (vector : Byte) :
    ((run Idt.call (s.init exceptionHandler table) calls).loaded m table outputs).gate? vector =
      run GateMap.call (GateMap.init exceptionHandler) calls vector := by
  have represents := (s.init_represents exceptionHandler table).run calls
  rw [gate?_loaded table represents.limit represents.base]
  exact represents.entries vector

end Idt

end SimpleOS
