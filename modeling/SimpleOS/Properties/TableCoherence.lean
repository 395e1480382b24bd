import SimpleOS.Library.GuardedRun
import SimpleOS.Invariant.Population

/-!
# Pids and the process table

Both creation routines count from PID 1 and write the table entry of the next
pid without looking at it, and a clean-up clears the entry of the pid its
record happens to hold.  The table stays coherent exactly while the entries
they take are free.
-/

namespace SimpleOS

open Library.ByteMemory Library.LinkedChain Library.GuardedRun

namespace Kernel

/-- The table is indexed by pid, and living processes are found by pids of their own. -/
structure TableCoherent (s : Kernel) (live : List Word) : Prop where
  entries : ∀ index < maxProcesses, s.processTable index = null ∨
    (s.process (s.processTable index)).pid.toNat = index
  distinct : ∀ first ∈ live, ∀ second ∈ live,
    (s.process first).pid = (s.process second).pid → first = second
  found : ∀ process ∈ live, s.processFindByPid (s.process process).pid = process

end Kernel

namespace Ledger

/-- A creation writes no table entry that holds a living process. -/
def SparesEntries (image : Image) (l : Ledger) (op : LifeOp) : Prop :=
  l.kernel.createdBy image op ≠ null → ∀ entry,
    (l.step image op).kernel.processTable entry ≠ l.kernel.processTable entry →
      l.kernel.processTable entry ∉ l.live

/-- The operation starts and ends with a coherent table and spares the entries of the living. -/
def TableKept (image : Image) (l : Ledger) (op : LifeOp) : Prop :=
  l.kernel.TableCoherent l.live ∧ l.SparesEntries image op ∧
    (l.step image op).kernel.TableCoherent (l.step image op).live

/--
The table entry that the operation writes is free: the one of the next pid for
a creation, the one of its stored pid for the clean-up of a process that is not
living any more.
-/
def EntryFree (image : Image) (l : Ledger) : LifeOp → Prop
  | .create name _ _ => name ≠ none → l.kernel.createCount < 10 →
      l.kernel.processTable (l.kernel.createCount + 1) = null
  | .createTest _ _ _ | .fork => l.kernel.testCount < 10 →
      l.kernel.processTable (l.kernel.testCount + 1) = null
  | .cleanup (some slot) => image.address slot ∈ l.live ∨
      l.kernel.processFindByPid (l.kernel.process (image.address slot)).pid = null
  | _ => True

/-- The first `process_create` takes the entry of the living kernel process. -/
theorem first_create_takes_entry :
    ¬ Along (step Image.sample) (TableKept Image.sample) (boot Image.sample)
      [.create (some (.ofString "shell")) 0x101000 .normal] := by
  rintro ⟨⟨_, spares, _⟩, _⟩
  have taken : ∀ l, l = boot Image.sample →
      l.kernel.createdBy Image.sample (.create (some (.ofString "shell")) 0x101000 .normal) ≠
          null ∧
        (l.step Image.sample
          (.create (some (.ofString "shell")) 0x101000 .normal)).kernel.processTable 1 ≠
            l.kernel.processTable 1 ∧
        l.kernel.processTable 1 ∈ l.live := by
    intro l booted
    rw [booted]
    decide +kernel
  obtain ⟨created, written, living⟩ := taken _ rfl
  exact spares created 1 written living

end Ledger

namespace Kernel

variable {image : Image} {s t : Kernel} {live : List Word}

namespace Population

/-- With the invariant, being found by pid is all of coherence. -/
theorem tableCoherent (population : s.Population image live)
    (found : ∀ process ∈ live, s.processFindByPid (s.process process).pid = process) :
    s.TableCoherent live where
  entries index _ := by
    by_cases filled : s.processTable index = null
    · exact Or.inl filled
    · exact Or.inr (population.entries index filled).2
  distinct first firstMember second secondMember same := by
    rw [← found first firstMember, same, found second secondMember]
  found := found

/-- A living process has a small pid, and its entry leads to it. -/
theorem entry_of_found (population : s.Population image live) (coherent : s.TableCoherent live)
    {process : Word} (member : process ∈ live) :
    (s.process process).pid.toNat < maxProcesses ∧
      s.processTable (s.process process).pid.toNat = process := by
  have found := coherent.found process member
  have nonnull : process ≠ null := fun isNull => population.lodged.not_mem_null (isNull ▸ member)
  have small := s.lt_of_processFindByPid (found.symm ▸ nonnull)
  exact ⟨small, (s.processFindByPid_of_lt small).symm.trans found⟩

/-! ## One operation -/

/-- A creation keeps the table coherent exactly when the entry it takes is free. -/
theorem begins_coherent_iff (population : s.Population image live)
    (coherent : s.TableCoherent live) {op : LifeOp} {slot : Slot}
    (begins : s.Begins image live op slot) :
    ((∀ entry, (s.lifeStep image op).processTable entry ≠ s.processTable entry →
          s.processTable entry ∉ live) ∧
        (s.lifeStep image op).TableCoherent (image.address slot :: live)) ↔
      s.processTable (slot.index + 1) = null := by
  obtain ⟨_, _, _, fresh, lodged, states, ⟨parentPid, identity⟩, table⟩ := begins
  have after := population.enrol slot states lodged
  have apart : ∀ process ∈ live, process ≠ image.address slot := population.lodged.ne_fresh fresh
  constructor
  · rintro ⟨spares, _⟩
    by_contra filled
    obtain ⟨member, _⟩ := population.entries _ filled
    refine spares (slot.index + 1) ?_ member
    rw [table, Function.update_self]
    exact (apart _ member).symm
  · intro free
    refine ⟨fun entry written member => ?_, after.tableCoherent fun process member => ?_⟩
    · by_cases here : entry = slot.index + 1
      · rw [here, free] at member
        exact population.lodged.not_mem_null member
      · rw [table, Function.update_of_ne here] at written
        exact written rfl
    · have pid : ((s.lifeStep image op).process process).pid =
          ((s.lifeStep image op).identity process).pid := rfl
      rw [pid, identity]
      by_cases same : process = image.address slot
      · rw [same, Function.update_self]
        have value := image.wholeIdentity_pid slot parentPid
        have small : slot.index + 1 < maxProcesses := by
          have bound := slot.index_lt
          rw [maxProcesses]
          omega
        rw [processFindByPid_of_lt _ (value ▸ small), value, table, Function.update_self]
      · have older := (List.mem_cons.mp member).resolve_left same
        obtain ⟨small, entry⟩ := population.entry_of_found coherent older
        have nonnull : process ≠ null := fun isNull =>
          population.lodged.not_mem_null (isNull ▸ older)
        rw [Function.update_of_ne same]
        change (s.lifeStep image op).processFindByPid (s.process process).pid = process
        rw [processFindByPid_of_lt _ small, table, Function.update_of_ne, entry]
        intro collide
        rw [collide, free] at entry
        exact nonnull entry.symm

/-- A tear-down keeps it exactly when its process lives or its entry is free. -/
theorem ends_coherent_iff (population : s.Population image live)
    (coherent : s.TableCoherent live) {op : LifeOp} {slot : Slot}
    (ends : s.Ends image live op slot) :
    (s.lifeStep image op).TableCoherent (live.filter (· ≠ image.address slot)) ↔
      image.address slot ∈ live ∨
        s.processFindByPid (s.process (image.address slot)).pid = null := by
  obtain ⟨_, _, _, lodged, ⟨state, states⟩, ⟨left, identity⟩, table⟩ := ends
  have after := population.retire slot states lodged
  have itsSmall : (s.process (image.address slot)).pid.toNat < maxProcesses :=
    population.small slot
  have untouched {process : Word} (different : process ≠ image.address slot) :
      ((s.lifeStep image op).process process).pid = (s.process process).pid := by
    change ((s.lifeStep image op).identity process).pid = (s.identity process).pid
    rw [identity, Function.update_of_ne different]
  constructor
  · intro kept
    by_contra neither
    obtain ⟨gone, filled⟩ := not_or.mp neither
    rw [processFindByPid_of_lt _ itsSmall] at filled
    obtain ⟨member, itsPid⟩ := population.entries _ filled
    have different : s.processTable (s.process (image.address slot)).pid.toNat ≠
        image.address slot := fun same => gone (same ▸ member)
    have found := kept.found _ (Ledger.mem_filter_ne.mpr ⟨member, different⟩)
    rw [untouched different] at found
    change (s.process _).pid.toNat = _ at itsPid
    rw [processFindByPid_of_lt _ (itsPid.symm ▸ itsSmall), itsPid, table] at found
    exact filled (found.symm.trans (Function.update_self _ _ _))
  · intro safe
    refine after.tableCoherent fun process member => ?_
    obtain ⟨older, different⟩ := Ledger.mem_filter_ne.mp member
    obtain ⟨small, entry⟩ := population.entry_of_found coherent older
    rw [untouched different, processFindByPid_of_lt _ small, table, Function.update_of_ne, entry]
    intro collide
    rcases safe with living | free
    · have samePid : (s.process process).pid = (s.process (image.address slot)).pid :=
        BitVec.eq_of_toNat_eq collide
      exact different (coherent.distinct process older _ living samePid)
    · rw [processFindByPid_of_lt _ itsSmall] at free
      change (s.process process).pid.toNat = (s.process (image.address slot)).pid.toNat at collide
      rw [collide, free] at entry
      exact population.lodged.not_mem_null (entry ▸ older)

end Population

end Kernel

namespace Ledger

variable {image : Image} {l : Ledger}

/-- The invariant over which the table is exact. -/
structure Settled (image : Image) (l : Ledger) : Prop where
  population : l.kernel.Population image l.live
  coherent : l.kernel.TableCoherent l.live

namespace Settled

theorem kept_of_idle (settled : l.Settled image) {op : LifeOp}
    (idle : l.kernel.Idle image op) : l.TableKept image op := by
  refine ⟨settled.coherent, fun creates => absurd idle.created creates, ?_⟩
  change (l.kernel.lifeStep image op).TableCoherent (livingAfter l.live _ _)
  rw [idle.living settled.population.lodged.not_mem_null, idle.same]
  exact settled.coherent

theorem kept_iff_of_begins (settled : l.Settled image) {op : LifeOp} {slot : Slot}
    (begins : l.kernel.Begins image l.live op slot) :
    l.TableKept image op ↔ l.kernel.processTable (slot.index + 1) = null := by
  have nonnull := image.address_ne_null slot
  have live : (l.step image op).live = image.address slot :: l.live :=
    begins.living settled.population.lodged.not_mem_null
  rw [← settled.population.begins_coherent_iff settled.coherent begins, TableKept, SparesEntries,
    live, begins.created]
  exact ⟨fun kept => ⟨kept.2.1 nonnull, kept.2.2⟩,
    fun kept => ⟨settled.coherent, fun _ => kept.1, kept.2⟩⟩

theorem kept_iff_of_ends (settled : l.Settled image) {op : LifeOp} {slot : Slot}
    (ends : l.kernel.Ends image l.live op slot) :
    l.TableKept image op ↔ image.address slot ∈ l.live ∨
      l.kernel.processFindByPid (l.kernel.process (image.address slot)).pid = null := by
  have live : (l.step image op).live = l.live.filter (· ≠ image.address slot) := ends.living
  rw [← settled.population.ends_coherent_iff settled.coherent ends, TableKept, SparesEntries, live,
    ends.created]
  exact ⟨fun kept => kept.2.2,
    fun kept => ⟨settled.coherent, fun impossible => absurd rfl impossible, kept⟩⟩

/-- The entry of a creation is the one of the record it takes. -/
theorem entryFree_of_next {op : LifeOp} {slot : Slot} (next : l.kernel.nextSlot op = some slot) :
    l.EntryFree image op ↔ l.kernel.processTable (slot.index + 1) = null := by
  cases op with
  | create name entryPoint priority =>
      cases name with
      | none => cases next
      | some name =>
          obtain ⟨free, same⟩ := Option.dite_none_right_eq_some.mp next
          cases same
          exact ⟨fun entry => entry (Option.some_ne_none name) free, fun entry _ _ => entry⟩
  | createTest name entryPoint priority =>
      obtain ⟨room, same⟩ := Option.dite_none_right_eq_some.mp next
      cases same
      exact ⟨fun entry => entry room, fun entry _ => entry⟩
  | fork =>
      obtain ⟨room, same⟩ := Option.dite_none_right_eq_some.mp next
      cases same
      exact ⟨fun entry => entry room, fun entry _ => entry⟩
  | _ => cases next

/-- A creation that takes no record takes no entry. -/
theorem entryFree_of_idle {op : LifeOp} (idle : l.kernel.Idle image op) :
    l.EntryFree image op := by
  have next := idle.next
  cases op with
  | create name entryPoint priority =>
      intro named free
      obtain ⟨text, rfl⟩ := Option.ne_none_iff_exists'.mp named
      exact absurd next (by simp [Kernel.nextSlot, free])
  | createTest name entryPoint priority =>
      exact fun room => absurd next (by simp [Kernel.nextSlot, room])
  | fork => exact fun room => absurd next (by simp [Kernel.nextSlot, room])
  | cleanup process =>
      cases process with
      | none => trivial
      | some slot => exact absurd idle.tornDown (image.address_ne_null slot)
  | _ => trivial

/-- A clean-up clears the entry of the pid it finds; a kill has found a living process. -/
theorem entryFree_of_ends (settled : l.Settled image) {op : LifeOp} {slot : Slot}
    (ends : l.kernel.Ends image l.live op slot) (nobody : l.kernel.reaped? = none)
    (spares : ¬ op.Destroys) :
    l.EntryFree image op ↔ image.address slot ∈ l.live ∨
      l.kernel.processFindByPid (l.kernel.process (image.address slot)).pid = null := by
  have tornDown := ends.tornDown
  have nonnull := image.address_ne_null slot
  cases op with
  | killByPid pid =>
      by_cases killable : l.kernel.Killable pid
      · obtain ⟨target, found, member, _⟩ := settled.population.lodged.killable killable
        rw [Kernel.tornDownBy, if_pos killable, found] at tornDown
        exact iff_of_true trivial (Or.inl (tornDown ▸ member))
      · rw [Kernel.tornDownBy, if_neg killable] at tornDown
        exact absurd tornDown.symm nonnull
  | destroy process =>
      cases process with
      | none => exact absurd tornDown.symm nonnull
      | some record => exact absurd (Option.some_ne_none record) spares
  | cleanup process =>
      cases process with
      | none => exact absurd tornDown.symm nonnull
      | some record =>
          obtain rfl : record = slot := Image.address_inj tornDown
          exact Iff.rfl
  | wait status =>
      rw [Kernel.tornDownBy, nobody] at tornDown
      exact absurd tornDown.symm nonnull
  | _ => exact absurd tornDown.symm nonnull

/-- One operation keeps the table coherent exactly when the entry it writes is free. -/
theorem kept_iff (settled : l.Settled image) (apart : image.HeapApart) (op : LifeOp)
    (spares : ¬ op.Destroys) : l.TableKept image op ↔ l.EntryFree image op := by
  have population := settled.population
  have nobody := population.reaped?_eq_none
  rcases population.lodged.lifeStep_cases apart nobody op spares with
    idle | ⟨slot, begins⟩ | ⟨slot, ends⟩
  · exact iff_of_true (settled.kept_of_idle idle) (entryFree_of_idle idle)
  · rw [settled.kept_iff_of_begins begins, entryFree_of_next begins.next]
  · rw [settled.kept_iff_of_ends ends, settled.entryFree_of_ends ends nobody spares]

theorem step (settled : l.Settled image) (apart : image.HeapApart) (op : LifeOp)
    (spares : ¬ op.Destroys) (free : l.EntryFree image op) : (l.step image op).Settled image where
  population := settled.population.lifeStep apart op spares
  coherent := ((settled.kept_iff apart op spares).mpr free).2.2

end Settled

theorem boot_settled (image : Image) : (boot image).Settled image := by
  have population := Kernel.boot_population image
  refine ⟨population, population.tableCoherent fun process member => ?_⟩
  have coherent := Kernel.boot_coherent image
  rw [List.mem_singleton.mp member]
  have pid : ((Kernel.boot image).process (Kernel.boot image).kernelProcess).pid = 1 := by
    rw [coherent.kernel]
    exact congrArg Process.Identity.pid (coherent.kernel ▸ coherent.kernel_identity)
  rw [pid]
  exact (coherent.found_kernel_iff 1).mpr rfl

/-- The table stays coherent along a run exactly while every entry that is written is free. -/
theorem table_kept_iff (image : Image) (apart : image.HeapApart) (ops : List LifeOp)
    (spares : ∀ op ∈ ops, ¬ op.Destroys) :
    Along (step image) (TableKept image) (boot image) ops ↔
      Along (step image) (EntryFree image) (boot image) ops :=
  along_iff_along
    (fun l op allowed (settled : l.Settled image) free => settled.step apart op allowed free)
    (fun l op allowed (settled : l.Settled image) => settled.kept_iff apart op allowed)
    (boot_settled image) spares

/-- Two forks, a kill and clean-ups of both records keep it. -/
theorem table_kept_fork_fork_kill_cleanup :
    Along (step Image.sample) (TableKept Image.sample) (boot Image.sample)
      [.fork, .fork, .killByPid 2, .cleanup (some (.test 1)), .cleanup (some (.test 2)),
        .wait null] := by
  refine (table_kept_iff Image.sample (by decide)
    [.fork, .fork, .killByPid 2, .cleanup (some (.test 1)), .cleanup (some (.test 2)),
      .wait null] ?_).mpr ⟨?_, ?_, trivial, ?_, ?_, trivial, trivial⟩
  · intro op member
    simp only [List.mem_cons, List.not_mem_nil, or_false] at member
    rcases member with rfl | rfl | rfl | rfl | rfl | rfl <;> exact fun impossible => impossible
  · intro _
    decide +kernel
  · intro _
    decide +kernel
  · exact Or.inr (by decide +kernel)
  · exact Or.inl (by decide +kernel)

end Ledger

end SimpleOS
