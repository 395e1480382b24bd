/-!
# Guarded runs of a deterministic step function

A run is a list of actions applied one after another.  `Always` states a
predicate in every state of a run, the first and the last included; `Along`
states a condition on every step, read in the state the step starts from.
The rules below turn one-step facts into facts about whole runs, in both
directions when the one-step fact is exact.
-/

namespace SimpleOS.Library.GuardedRun

variable {State Action : Type}

/-- The state a list of actions leads to. -/
def run (step : State → Action → State) : State → List Action → State
  | state, [] => state
  | state, action :: rest => run step (step state action) rest

/-- The predicate holds in every state of the run. -/
def Always (step : State → Action → State) (Holds : State → Prop) :
    State → List Action → Prop
  | state, [] => Holds state
  | state, action :: rest => Holds state ∧ Always step Holds (step state action) rest

/-- The condition holds of every step of the run. -/
def Along (step : State → Action → State) (Guard : State → Action → Prop) :
    State → List Action → Prop
  | _, [] => True
  | state, action :: rest => Guard state action ∧ Along step Guard (step state action) rest

/-- A condition on steps that can be decided can be decided along a run. -/
instance (step : State → Action → State) (Guard : State → Action → Prop)
    [∀ state action, Decidable (Guard state action)] :
    ∀ state actions, Decidable (Along step Guard state actions)
  | _, [] => inferInstanceAs (Decidable True)
  | state, action :: rest =>
      have := instDecidableAlong step Guard (step state action) rest
      inferInstanceAs (Decidable (_ ∧ _))

section Rules

variable {step : State → Action → State}
variable {Holds Inv : State → Prop} {Guard Good : State → Action → Prop} {Allowed : Action → Prop}

/-- A run of two lists of actions is a run after a run. -/
theorem run_append (state : State) (first second : List Action) :
    run step state (first ++ second) = run step (run step state first) second := by
  induction first generalizing state with
  | nil => rfl
  | cons action rest ih => exact ih (step state action)

/-- A condition holds along both parts of a run. -/
theorem along_append (state : State) (first second : List Action) :
    Along step Guard state (first ++ second) ↔
      Along step Guard state first ∧ Along step Guard (run step state first) second := by
  induction first generalizing state with
  | nil => exact ⟨fun along => ⟨trivial, along⟩, And.right⟩
  | cons action rest ih =>
      rw [List.cons_append, Along, Along, run, ih, and_assoc]

/-- The first state of a run satisfies what all of them satisfy. -/
theorem Always.first {state : State} {actions : List Action}
    (always : Always step Holds state actions) : Holds state := by
  cases actions with
  | nil => exact always
  | cons action rest => exact always.1

/-- So does the last one. -/
theorem Always.last {state : State} {actions : List Action}
    (always : Always step Holds state actions) : Holds (run step state actions) := by
  induction actions generalizing state with
  | nil => exact always
  | cons action rest ih => exact ih always.2

/-- A condition on the actions alone holds along the run if every action meets it. -/
theorem along_of_forall (state : State) {actions : List Action}
    (allowed : ∀ action ∈ actions, Allowed action) :
    Along step (fun _ action => Allowed action) state actions := by
  induction actions generalizing state with
  | nil => trivial
  | cons action rest ih =>
      constructor
      · exact allowed action List.mem_cons_self
      · exact ih (step state action) fun later inside =>
          allowed later (List.mem_cons_of_mem action inside)

/-- A weaker condition holds along the run as well. -/
theorem Along.imp (weaker : ∀ state action, Guard state action → Good state action) {state : State}
    {actions : List Action} (along : Along step Guard state actions) :
    Along step Good state actions := by
  induction actions generalizing state with
  | nil => trivial
  | cons action rest ih => exact ⟨weaker state action along.1, ih along.2⟩

/-- Two conditions hold along a run together or not at all. -/
theorem along_and (state : State) (actions : List Action) :
    Along step (fun state action => Guard state action ∧ Good state action) state actions ↔
      Along step Guard state actions ∧ Along step Good state actions := by
  induction actions generalizing state with
  | nil => exact ⟨fun _ => ⟨trivial, trivial⟩, fun _ => trivial⟩
  | cons action rest ih =>
      constructor
      · rintro ⟨⟨guard, good⟩, later⟩
        obtain ⟨guards, goods⟩ := (ih (step state action)).mp later
        exact ⟨⟨guard, guards⟩, ⟨good, goods⟩⟩
      · rintro ⟨⟨guard, guards⟩, ⟨good, goods⟩⟩
        exact ⟨⟨guard, good⟩, (ih (step state action)).mpr ⟨guards, goods⟩⟩

/-- `Always` speaks of exactly the states that the prefixes of the run reach. -/
theorem always_iff_prefixes (state : State) (actions : List Action) :
    Always step Holds state actions ↔
      ∀ taken rest, taken ++ rest = actions → Holds (run step state taken) := by
  induction actions generalizing state with
  | nil =>
      constructor
      · intro holds taken rest split
        rw [(List.append_eq_nil_iff.mp split).1]
        exact holds
      · intro holds
        exact holds [] [] rfl
  | cons action actions ih =>
      constructor
      · rintro ⟨here, later⟩ taken rest split
        cases taken with
        | nil => exact here
        | cons first taken =>
            obtain ⟨sameAction, sameRest⟩ := List.cons.inj split
            rw [sameAction]
            exact (ih (step state action)).mp later taken rest sameRest
      · intro holds
        refine ⟨holds [] (action :: actions) rfl, (ih (step state action)).mpr ?_⟩
        intro taken rest split
        exact holds (action :: taken) rest (congrArg (List.cons action) split)

/-- An invariant of every step is an invariant of every run. -/
theorem always_of_invariant (preserved : ∀ state action, Inv state → Inv (step state action))
    {state : State} (initial : Inv state) (actions : List Action) :
    Always step Inv state actions := by
  induction actions generalizing state with
  | nil => exact initial
  | cons action rest ih => exact ⟨initial, ih (preserved state action initial)⟩

/--
Exact guard for a state predicate: when, under the invariant, an allowed step
from a good state reaches a good state precisely if it meets the guard, the
runs whose states are all good are the runs whose steps all meet the guard.
-/
theorem always_iff_of_along {Fits : State → Action → Prop}
    (preserved : ∀ state action, Fits state action → Inv state → Holds state → Guard state action →
      Inv (step state action))
    (exact_step : ∀ state action, Fits state action → Inv state → Holds state →
      (Holds (step state action) ↔ Guard state action))
    {state : State} (initial : Inv state) (holds : Holds state) {actions : List Action}
    (fits : Along step Fits state actions) :
    Always step Holds state actions ↔ Along step Guard state actions := by
  induction actions generalizing state with
  | nil => exact ⟨fun _ => trivial, fun _ => holds⟩
  | cons action rest ih =>
      obtain ⟨here, there⟩ := fits
      constructor
      · rintro ⟨_, later⟩
        have guard := (exact_step state action here initial holds).mp later.first
        exact ⟨guard,
          (ih (preserved state action here initial holds guard) later.first there).mp later⟩
      · rintro ⟨guard, later⟩
        have next := (exact_step state action here initial holds).mpr guard
        exact ⟨holds, (ih (preserved state action here initial holds guard) next there).mpr later⟩

/-- The same when the actions alone decide what is allowed. -/
theorem always_iff_along
    (preserved : ∀ state action, Allowed action → Inv state → Holds state → Guard state action →
      Inv (step state action))
    (exact_step : ∀ state action, Allowed action → Inv state → Holds state →
      (Holds (step state action) ↔ Guard state action))
    {state : State} (initial : Inv state) (holds : Holds state) {actions : List Action}
    (allowed : ∀ action ∈ actions, Allowed action) :
    Always step Holds state actions ↔ Along step Guard state actions :=
  always_iff_of_along preserved exact_step initial holds (along_of_forall state allowed)

/-- Exact guard for a step predicate, under an invariant that good allowed steps keep. -/
theorem along_iff_along
    (preserved : ∀ state action, Allowed action → Inv state → Guard state action →
      Inv (step state action))
    (exact_step : ∀ state action, Allowed action → Inv state →
      (Good state action ↔ Guard state action))
    {state : State} (initial : Inv state) {actions : List Action}
    (allowed : ∀ action ∈ actions, Allowed action) :
    Along step Good state actions ↔ Along step Guard state actions := by
  induction actions generalizing state with
  | nil => exact Iff.rfl
  | cons action rest ih =>
      have here := allowed action List.mem_cons_self
      have there : ∀ later ∈ rest, Allowed later := fun later inside =>
        allowed later (List.mem_cons_of_mem action inside)
      constructor
      · rintro ⟨good, later⟩
        have guard := (exact_step state action here initial).mp good
        exact ⟨guard, (ih (preserved state action here initial guard) there).mp later⟩
      · rintro ⟨guard, later⟩
        exact ⟨(exact_step state action here initial).mpr guard,
          (ih (preserved state action here initial guard) there).mpr later⟩

/-- A guard that keeps the invariant makes every state of the run satisfy what follows from it. -/
theorem always_of_along (preserved : ∀ state action, Inv state → Guard state action →
      Inv (step state action)) (holds : ∀ state, Inv state → Holds state)
    {state : State} (initial : Inv state) {actions : List Action}
    (guarded : Along step Guard state actions) : Always step Holds state actions := by
  induction actions generalizing state with
  | nil => exact holds state initial
  | cons action rest ih =>
      obtain ⟨guard, later⟩ := guarded
      exact ⟨holds state initial, ih (preserved state action initial guard) later⟩

/-- A guard that keeps the invariant and makes every step good makes every run good. -/
theorem along_of_along (preserved : ∀ state action, Inv state → Guard state action →
      Inv (step state action))
    (good_step : ∀ state action, Inv state → Guard state action → Good state action)
    {state : State} (initial : Inv state) {actions : List Action}
    (guarded : Along step Guard state actions) : Along step Good state actions := by
  induction actions generalizing state with
  | nil => exact trivial
  | cons action rest ih =>
      obtain ⟨guard, later⟩ := guarded
      exact ⟨good_step state action initial guard,
        ih (preserved state action initial guard) later⟩

end Rules

end SimpleOS.Library.GuardedRun
