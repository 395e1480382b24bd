import SimpleOS.Machine.ContextSwitch

/-!
# Every field of the saved block

What `save_context` leaves in the sixteen words it takes for the saved state,
and what `restore_context` takes from them.  The word of `ebx` receives the
caller's `ebp`, and no instruction of `restore_context` reads it.
-/

namespace SimpleOS.ContextSwitch

open Library.ByteMemory Library.I386

/-- The offset a selector is saved at. -/
def segmentOffset : Segment → Word
  | .cs => csOffset
  | .ds => dsOffset
  | .es => esOffset
  | .fs => fsOffset
  | .gs => gsOffset
  | .ss => ssOffset

theorem segmentOffset_bounds (segment : Segment) :
    40 ≤ (segmentOffset segment).toNat ∧ (segmentOffset segment).toNat + 2 ≤ 64 := by
  cases segment <;> decide

/-! ## Saving -/

section Save

variable {m t : Machine} {process : Word}

/-- The general registers of the caller in `m`, with `ebp` in the word of `ebx`. -/
structure SavedGeneral (memory : Memory) (m : Machine) (process : Word) : Prop where
  eax : load memory (process + cpuStateOffset + eaxOffset) = m.register .eax
  ebx : load memory (process + cpuStateOffset + ebxOffset) = m.register .ebp
  ecx : load memory (process + cpuStateOffset + ecxOffset) = m.register .ecx
  edx : load memory (process + cpuStateOffset + edxOffset) = m.register .edx
  esi : load memory (process + cpuStateOffset + esiOffset) = m.register .esi
  edi : load memory (process + cpuStateOffset + ediOffset) = m.register .edi

theorem SavedGeneral.congr {memory : Memory} (saved : SavedGeneral memory m process)
    (other : Memory) (same : ∀ target, InRange (process + cpuStateOffset) 24 target →
      other target = memory target) : SavedGeneral other m process := by
  have word : ∀ offset : Word, offset.toNat + 4 ≤ 24 →
      load other (process + cpuStateOffset + offset) =
        load memory (process + cpuStateOffset + offset) := by
    intro offset bound
    apply load_congr
    intro target inside
    apply same
    rw [InRange] at inside ⊢
    bv_omega
  constructor
  · exact (word _ (by decide)).trans saved.eax
  · exact (word _ (by decide)).trans saved.ebx
  · exact (word _ (by decide)).trans saved.ecx
  · exact (word _ (by decide)).trans saved.edx
  · exact (word _ (by decide)).trans saved.esi
  · exact (word _ (by decide)).trans saved.edi

/-- The selectors of the caller in `m`. -/
def SavedSegments (memory : Memory) (m : Machine) (process : Word) : Prop :=
  ∀ segment, loadHalf memory (process + cpuStateOffset + segmentOffset segment) = m.segment segment

/-- Storing a field leaves the words of the other fields alone. -/
theorem load_store_other (memory : Memory) (block word : Word) {first second : Word}
    (above : 4 ≤ (second - first).toNat) (below : 4 ≤ (first - second).toNat) :
    load (store memory (block + second) word) (block + first) = load memory (block + first) :=
  load_store_apart _ _ (fields_apart block above below)

theorem loadHalf_storeHalf_other (memory : Memory) (block : Word) (half : BitVec 16)
    {first second : Word} (above : 2 ≤ (second - first).toNat)
    (below : 2 ≤ (first - second).toNat) :
    loadHalf (storeHalf memory (block + second) half) (block + first) =
      loadHalf memory (block + first) := by
  refine loadHalf_storeHalf_apart _ _ (apart_of_distance ?_ ?_)
  · rwa [add_sub_add_left_eq_sub]
  · rwa [add_sub_add_left_eq_sub]

theorem saveGeneral_saved (argument : load m.memory (m.register .esp + 4) = process)
    (apart : BlockApart process (m.register .esp)) :
    SavedGeneral (effects (effects m savePrologue) saveGeneral).memory m process := by
  have saving := savePrologue_saving argument
  have eax : (effects m savePrologue).register .eax = m.register .eax := by
    simp [effects, savePrologue, Instruction.effect]
  generalize effects m savePrologue = t at saving eax
  have within : ∀ target, InRange (m.register .esp - 4) 4 target →
      InRange (m.register .esp - 12) 20 target := by
    intro target inside
    rw [InRange] at inside ⊢
    bv_omega
  have place : m.register .esp - 12#32 + 8#32 = m.register .esp - 4#32 := by bv_omega
  -- the word read for `ebx` is the pushed `ebp`
  have ebpWord := (load_store_field t.memory (t.register .eax) eaxOffset apart (by decide)
    within).trans ((saving.word apart within).trans (load_framed_ebp m))
  have others := saving.kept
  simp only [List.mem_cons, List.not_mem_nil, or_false, forall_eq_or_imp, forall_eq] at others
  obtain ⟨ecx, edx, esi, edi⟩ := others
  simp only [BitVec.ofNat_eq_ofNat, eax] at ebpWord
  constructor <;>
    simp (disch := decide) [effects, saveGeneral, Instruction.effect, saving.block, saving.top,
      load_store_other, place, eax, ebpWord, ecx, edx, esi, edi]

theorem saveSegments_saved (block : t.register .ebx = process + cpuStateOffset) :
    SavedSegments (effects t saveSegments).memory t process := by
  intro segment
  cases segment <;>
    simp (disch := decide) [effects, saveSegments, Instruction.effect, block, segmentOffset,
      loadHalf_storeHalf_other]

theorem saveEpilogue_memory (t : Machine) : (effects t saveEpilogue).memory = t.memory := rfl

/-- After the body of `save_context` the block holds the registers of the caller. -/
theorem saveBody_block (argument : load m.memory (m.register .esp + 4) = process)
    (apart : BlockApart process (m.register .esp)) :
    SavedGeneral (effects m saveBody).memory m process ∧
      SavedSegments (effects m saveBody).memory m process := by
  have saved := saveGeneral_saved argument apart
  have general := (savePrologue_saving argument).stores 0 saveGeneral (by decide)
  have pointed := general.stores 0 savePointers (by decide)
  have flagged := pointed.flags
  have segments := saveSegments_saved flagged.block
  have body : (effects m saveBody).memory = (effects (effects (effects (effects (effects m
      savePrologue) saveGeneral) savePointers) saveFlags) saveSegments).memory := by
    simp only [saveBody, effects_append, saveEpilogue_memory]
  rw [body]
  generalize effects m savePrologue = start at *
  generalize effects start saveGeneral = first at *
  have pointers := savesFrom_effects 24 savePointers (by decide) first
  have flags {target : Word}
      (outside : ¬ InRange (process + cpuStateOffset + eflagsOffset) 4 target) :=
    saveFlags_memory pointed outside
  generalize effects first savePointers = second at *
  generalize effects second saveFlags = third at *
  have last := savesFrom_effects 40 saveSegments (by decide) third
  refine ⟨saved.congr _ fun target inside => ?_, fun segment => ?_⟩
  · have low : (target - (process + cpuStateOffset)).toNat < 24 := inside
    have field : InRange (process + cpuStateOffset) 64 target := by
      rw [InRange]
      omega
    have above : ¬ InRange (m.register .esp - 16) 4 target := by
      intro hit
      refine apart target field ?_
      rw [InRange] at hit ⊢
      omega
    have missed : ¬ InRange (process + cpuStateOffset + eflagsOffset) 4 target := by
      rw [InRange, eflagsOffset]
      bv_omega
    rw [last.memory target (.inl (by rw [flagged.block]; omega)), flags missed above,
      pointers.memory target (.inl (by rw [general.block]; omega))]
  · rw [segments segment, flagged.segment]

/-- What a whole call of `save_context` leaves in the block. -/
theorem saveContext_block (program : Assembled) (here : m.eip = program.place saveEntry)
    (argument : load m.memory (m.register .esp + 4) = process)
    (apart : BlockApart process (m.register .esp)) (runs : program.run 39 m = some t) :
    SavedGeneral t.memory m process ∧ SavedSegments t.memory m process := by
  have block := saveBody_block argument apart
  obtain rfl := Option.some.inj (runs.symm.trans (save_steps program here))
  exact block

end Save

/-! ## Restoring -/

section Restore

variable {m t : Machine} {process : Word}

/-- The registers that come from the block besides those of `Restored`. -/
structure RestoredRest (m t : Machine) (process : Word) : Prop where
  eax : t.register .eax = load m.memory (process + cpuStateOffset + eaxOffset)
  ecx : t.register .ecx = load m.memory (process + cpuStateOffset + ecxOffset)
  edx : t.register .edx = load m.memory (process + cpuStateOffset + edxOffset)
  eflags : t.eflags = load m.memory (process + cpuStateOffset + eflagsOffset)
  segments : ∀ segment, segment ≠ .cs →
    t.segment segment = loadHalf m.memory (process + cpuStateOffset + segmentOffset segment)

theorem restoreSegments_segment (argument : load m.memory (m.register .esp + 4) = process)
    (segment : Segment) (other : segment ≠ .cs) :
    (effects m restoreSegments).segment segment =
      loadHalf m.memory (process + cpuStateOffset + segmentOffset segment) := by
  cases segment with
  | cs => exact absurd rfl other
  | _ => simp [effects, restoreSegments, Instruction.effect, ← argument, segmentOffset]

theorem restoreBody_rest {u : Machine} (block : u.register .ebx = process + cpuStateOffset)
    (apart : PopApart u.memory process)
    (segments : ∀ segment, segment ≠ .cs →
      u.segment segment = loadHalf u.memory (process + cpuStateOffset + segmentOffset segment)) :
    RestoredRest u (effects (effects u restoreFlags) restoreGeneral) process := by
  constructor
  · simp [effects, restoreFlags, restoreGeneral, Instruction.effect, Machine.drop, block,
      apart.field _ eaxOffset (by decide)]
  · simp [effects, restoreFlags, restoreGeneral, Instruction.effect, Machine.drop, block,
      apart.field _ ecxOffset (by decide)]
  · simp [effects, restoreFlags, restoreGeneral, Instruction.effect, Machine.drop, block,
      apart.field _ edxOffset (by decide)]
  · simp [effects, restoreFlags, restoreGeneral, Instruction.effect, Machine.drop, Machine.top,
      block]
  · intro segment other
    simp [effects, restoreFlags, restoreGeneral, Instruction.effect, Machine.drop,
      segments segment other]

/-- Every register `restore_context` loads. -/
theorem restoreContext_rest (program : Assembled) (here : m.eip = program.place restoreEntry)
    (argument : load m.memory (m.register .esp + 4) = process) (apart : PopApart m.memory process)
    (runs : program.run 23 m = some t) : RestoredRest m t process := by
  have steps := restore_steps program here
  have body := restoreBody_parts m
  have memory := restoreSegments_memory m
  have block := restoreSegments_block argument
  have selectors := restoreSegments_segment argument
  generalize effects m restoreSegments = u at body memory block selectors
  have rest := restoreBody_rest block (memory ▸ apart) fun segment other => by
    rw [selectors segment other, memory]
  rw [← body] at rest
  generalize effects m restoreBody = done at steps rest
  obtain ⟨eax, ecx, edx, eflags, segments⟩ := rest
  rw [memory] at eax ecx edx eflags segments
  obtain rfl := Option.some.inj (runs.symm.trans steps)
  exact ⟨eax, ecx, edx, eflags, segments⟩

end Restore

end SimpleOS.ContextSwitch
