import SimpleOS.Library.GuardedRun
import SimpleOS.Invariant.ExitCodes

/-!
# The exit status a parent reads

Beside the state runs a history: the value each process ended with.  A
`sys_wait` has to hand that value on.  It hands on the `exit_code` of the
record, which `sys_exit` and `sys_kill` store; `process_exit`, which every
program run by `sys_exec` ends in, drops its argument and leaves the field as
it was.
-/

namespace SimpleOS

open Library.ByteMemory Library.GuardedRun

namespace Kernel

/-- An operation on processes, or a call of `process_create`. -/
inductive RunOp where
  | operation (op : ProcessOp)
  | create (name : Option CString) (entryPoint : Word) (priority : ProcessPriority)

/-- The kernel, and for every record the value its process ended with, until it is reaped. -/
structure Told where
  kernel : Kernel
  endedWith : Word → Option Word

/-- The values the processes have ended with, after one operation. -/
def endedAfter (s : Kernel) (endedWith : Word → Option Word) : ProcessOp → Word → Option Word
  | .exit _ exitCode =>
      if s.currentProcess ≠ null then
        Function.update endedWith s.currentProcess (some exitCode)
      else endedWith
  | .processExit exitCode =>
      if s.Exits then Function.update endedWith s.currentProcess (some exitCode) else endedWith
  | .exec program =>
      if s.Execs program ∧ s.Exits then
        Function.update endedWith s.currentProcess (some 0)
      else endedWith
  | .kill pid signal =>
      if s.Killable pid ∧ signal = 9 then
        Function.update endedWith (s.processFindByPid pid) (some (-1))
      else endedWith
  | .wait _ =>
      match s.reaped? with
      | some child => Function.update endedWith child none
      | none => endedWith
  | _ => endedWith

/-- One operation, with the history kept along. -/
def toldStep (image : Image) (t : Told) : RunOp → Told
  | .operation op =>
      { kernel := t.kernel.step image op
        endedWith := t.kernel.endedAfter t.endedWith op }
  | .create name entryPoint priority =>
      { t with kernel := (t.kernel.processCreate image name entryPoint priority).2 }

/-- A `sys_wait` that reaps a child stores the value the child ended with. -/
def Told.Reports (image : Image) (t : Told) : RunOp → Prop
  | .operation (.wait status) =>
      ∀ child value, t.kernel.reaped? = some child → t.endedWith child = some value →
        (t.kernel.sysWait image status).1 = (t.kernel.process child).pid ∧
          (status ≠ null → load ((t.kernel.sysWait image status).2.read image) status = value)
  | _ => True

/-- The bytes an operation overwrites lie outside the records. -/
def Spares (image : Image) (s : Kernel) : RunOp → Prop
  | .operation op => s.SparesRecords image op
  | .create _ _ _ => s.GrantApart image

/-- What `process_exit` is to report is in the record already. -/
def Stored (s : Kernel) : RunOp → Prop
  | .operation (.processExit exitCode) =>
      s.Exits → (s.process s.currentProcess).exitCode = exitCode
  | .operation (.exec program) =>
      s.Execs program ∧ s.Exits → (s.process s.currentProcess).exitCode = 0
  | _ => True

/-- The records hold the values their processes ended with. -/
def Told.Holds (t : Told) : Prop :=
  ∀ target value, t.endedWith target = some value → t.kernel.exitCodes target = value

/-- Storing a value and noting it keeps the records in step with the history. -/
theorem holds_update {codes : Word → Word} {endedWith : Word → Option Word}
    (holds : ∀ target value, endedWith target = some value → codes target = value)
    (changed value : Word) (target noted : Word)
    (here : Function.update endedWith changed (some value) target = some noted) :
    Function.update codes changed value target = noted := by
  by_cases same : target = changed
  · rw [same, Function.update_self] at here ⊢
    exact Option.some.inj here
  · rw [Function.update_of_ne same] at here ⊢
    exact holds target noted here

/-- A value that is in the record already need only be noted. -/
theorem holds_note {codes : Word → Word} {endedWith : Word → Option Word}
    (holds : ∀ target value, endedWith target = some value → codes target = value)
    {changed value : Word} (stored : codes changed = value) (target noted : Word)
    (here : Function.update endedWith changed (some value) target = some noted) :
    codes target = noted := by
  have kept := holds_update holds changed value target noted here
  rwa [← stored, Function.update_eq_self] at kept

/-- One operation keeps the records in step with the history. -/
theorem endedAfter_holds (image : Image) {s : Kernel} {endedWith : Word → Option Word}
    {op : ProcessOp} (holds : Told.Holds ⟨s, endedWith⟩) (spares : s.SparesRecords image op)
    (stored : s.Stored (.operation op)) :
    Told.Holds ⟨s.step image op, s.endedAfter endedWith op⟩ := by
  have codes := s.step_exitCodes image op spares
  intro target value here
  change (s.step image op).exitCodes target = value
  rw [codes]
  change s.endedAfter endedWith op target = some value at here
  cases op with
  | exit saved exitCode =>
      simp only [endedAfter, exitCodesAfter] at here ⊢
      split at here
      · next current =>
          rw [if_pos current]
          exact holds_update holds _ exitCode target value here
      · next noCurrent =>
          rw [if_neg noCurrent]
          exact holds target value here
  | processExit exitCode =>
      simp only [endedAfter] at here
      split at here
      · next exits => exact holds_note holds (stored exits) target value here
      · exact holds target value here
  | exec program =>
      simp only [endedAfter] at here
      split at here
      · next ends => exact holds_note holds (stored ends) target value here
      · exact holds target value here
  | kill pid signal =>
      simp only [endedAfter, exitCodesAfter] at here ⊢
      split at here
      · next kills =>
          rw [if_pos kills]
          exact holds_update holds _ (-1) target value here
      · next spared =>
          rw [if_neg spared]
          exact holds target value here
  | wait status =>
      simp only [endedAfter, exitCodesAfter] at here ⊢
      cases reaps : s.reaped? with
      | none =>
          rw [reaps] at here
          exact holds target value here
      | some child =>
          rw [reaps] at here
          -- the reaped child is forgotten on both sides
          have other : target ≠ child := by
            intro same
            rw [same] at here
            simp at here
          simp only [Function.update_of_ne other] at here ⊢
          exact holds target value here
  | createTest name entryPoint priority => exact holds target value here
  | fork => exact holds target value here
  | killByPid pid => exact holds target value here
  | setStatus pid status => exact holds target value here
  | changeCurrent pid => exact holds target value here
  | schedule saved => exact holds target value here

theorem toldStep_holds (image : Image) {t : Told} {op : RunOp} (holds : t.Holds)
    (spares : t.kernel.Spares image op) (stored : t.kernel.Stored op) :
    (toldStep image t op).Holds := by
  cases op with
  | operation op => exact endedAfter_holds image holds spares stored
  | create name entryPoint priority =>
      intro target value here
      have codes := t.kernel.processCreate_exitCodes image name entryPoint priority spares
      exact (congrFun codes target).trans (holds target value here)

theorem Told.Holds.reports {image : Image} {t : Told} (holds : t.Holds) {op : RunOp}
    (spares : t.kernel.Spares image op) : t.Reports image op := by
  cases op with
  | create name entryPoint priority => trivial
  | operation op =>
      cases op with
      | wait status =>
          intro child value reaps ended
          constructor
          · exact t.kernel.sysWait_fst image reaps status
          · intro written
            rw [t.kernel.sysWait_stored image (spares.resolve_left written) written reaps]
            exact holds child value ended
      | _ => trivial

/--
In a run in which every `process_exit` finds its value in the record already,
every wait hands on the value its child ended with.
-/
theorem exit_status_reported (image : Image) (ops : List RunOp)
    (guarded : Along (toldStep image)
      (fun t op => t.kernel.Spares image op ∧ t.kernel.Stored op)
      ⟨boot image, fun _ => none⟩ ops) :
    Along (toldStep image) (Told.Reports image) ⟨boot image, fun _ => none⟩ ops := by
  have initial : Told.Holds ⟨boot image, fun _ => none⟩ := by
    intro target value ended
    cases ended
  refine along_of_along ?_ ?_ initial guarded
  · intro t op holds guard
    exact toldStep_holds image holds guard.1 guard.2
  · intro t op holds guard
    exact holds.reports guard.1

/-- A child that ends by `process_exit(5)` reports 0. -/
theorem process_exit_reports_zero :
    ¬ ∀ ops, Along (toldStep Image.sample) (fun t op => t.kernel.Spares Image.sample op)
        ⟨boot Image.sample, fun _ => none⟩ ops →
      Along (toldStep Image.sample) (Told.Reports Image.sample)
        ⟨boot Image.sample, fun _ => none⟩ ops := by
  intro reports
  have told := reports [.operation .fork, .operation (.schedule {}), .operation (.processExit 5),
      .operation (.schedule {}), .operation (.wait 0x300000)]
    ⟨trivial, trivial, trivial, trivial, Or.inr Image.sample_outside.offRecords, trivial⟩
  have facts : ∀ t, t = run (toldStep Image.sample) ⟨boot Image.sample, fun _ => none⟩
      [.operation .fork, .operation (.schedule {}), .operation (.processExit 5),
        .operation (.schedule {})] →
      t.kernel.reaped? = some (Image.sample.testSlot 1) ∧
        t.endedWith (Image.sample.testSlot 1) = some 5 ∧
          load ((t.kernel.sysWait Image.sample 0x300000).2.read Image.sample) 0x300000 = 0 := by
    intro t reached
    rw [reached]
    decide +kernel
  obtain ⟨reaps, ended, stored⟩ := facts _ rfl
  obtain ⟨_, _, _, _, wait, _⟩ := told
  have handed := (wait _ _ reaps ended).2 (by decide)
  exact absurd (stored.symm.trans handed) (by decide)

/-- The status pointers lie off the records and the stacks, and there is no `process_create`. -/
def RunOp.Plain (image : Image) : RunOp → Prop
  | .operation op => op.StatusOutside image
  | .create _ _ _ => False

theorem plain_step {image : Image} {t : Told} {op : RunOp} (coherent : t.kernel.Coherent image)
    (plain : op.Plain image) :
    (toldStep image t op).kernel.Coherent image ∧ t.kernel.Spares image op := by
  cases op with
  | operation op => exact ⟨coherent.step op plain, coherent.sparesRecords plain⟩
  | create name entryPoint priority => exact plain.elim

/-- Such a run spares the records. -/
theorem spares_along (image : Image) {ops : List RunOp} (plain : ∀ op ∈ ops, op.Plain image) :
    Along (toldStep image) (fun t op => t.kernel.Spares image op)
      ⟨boot image, fun _ => none⟩ ops :=
  along_of_along
    (fun (t : Told) _ (coherent : t.kernel.Coherent image) plain => (plain_step coherent plain).1)
    (fun (t : Told) _ (coherent : t.kernel.Coherent image) plain => (plain_step coherent plain).2)
    (boot_coherent image) (along_of_forall _ plain)

/-- One child exits with 7, another is killed; the wait of their parent reports 7. -/
theorem exit_status_reported_seven :
    Along (toldStep Image.sample) (Told.Reports Image.sample)
      ⟨boot Image.sample, fun _ => none⟩
      [.operation .fork, .operation .fork, .operation (.schedule {}), .operation (.exit {} 7),
        .operation (.killByPid 3), .operation (.schedule {}), .operation (.wait 0x300000)] := by
  refine exit_status_reported Image.sample _ ((along_and _ _).mpr ⟨?_, ?_⟩)
  · refine spares_along Image.sample fun op member => ?_
    simp only [List.mem_cons, List.not_mem_nil, or_false] at member
    rcases member with rfl | rfl | rfl | rfl | rfl | rfl | rfl
    all_goals first | trivial | exact Or.inr Image.sample_outside
  · exact ⟨trivial, trivial, trivial, trivial, trivial, trivial, trivial, trivial⟩

end Kernel

end SimpleOS
