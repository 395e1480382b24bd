import SimpleOS.Drivers.Timer

/-!
# How long `timer_sleep` sleeps

The deadline `start_ticks + ticks` is computed modulo 2^32 and compared with
`<`.  A deadline that has wrapped lies below the start, so the first check ends
the sleep; a sleep of 0 ticks that misses the last tick before the wrap waits
for a whole turn of the counter.
-/

namespace SimpleOS

open Library.ByteMemory

/-- The loop is left at no check before so many increments have happened. -/
def NeverEarly (startTicks ticks : Word) : Prop :=
  ∀ gaps check, timerSleep startTicks ticks gaps = some check →
    ticks.toNat ≤ (gaps.take (check + 1)).sum

/-- With at most one increment between checks, the loop is left once there were so many. -/
def LeavesInTime (startTicks ticks : Word) : Prop :=
  ∀ gaps, gaps ≠ [] → (∀ gap ∈ gaps, gap ≤ 1) → ticks.toNat ≤ gaps.sum →
    (timerSleep startTicks ticks gaps).isSome = true

/-- The deadline has wrapped: a sleep of one tick ends before the tick. -/
theorem wrapped_deadline_ends_sleep :
    ¬ ∀ startTicks ticks, NeverEarly startTicks ticks ∧ LeavesInTime startTicks ticks := by
  intro sleeps
  have early := (sleeps 0xFFFFFFFF 1).1 [0] 0 (by decide)
  exact absurd early (by decide)

variable {startTicks ticks : Word}

/-- A reading below 2^32 has not wrapped. -/
theorem toNat_reading {passed : Nat} (small : startTicks.toNat + passed < 2 ^ 32) :
    (startTicks + BitVec.ofNat 32 passed).toNat = startTicks.toNat + passed := by
  rw [BitVec.toNat_add, BitVec.toNat_ofNat]
  omega

theorem toNat_deadline (small : startTicks.toNat + ticks.toNat < 2 ^ 32) :
    (startTicks + ticks).toNat = startTicks.toNat + ticks.toNat := by
  rw [BitVec.toNat_add]
  omega

/-- Without a wrap, every check before the last increment goes on. -/
theorem wait_goes_on (small : startTicks.toNat + ticks.toNat < 2 ^ 32) {passed : Nat}
    (before : passed < ticks.toNat) :
    startTicks + BitVec.ofNat 32 passed < startTicks + ticks := by
  rw [BitVec.lt_def, toNat_deadline small, toNat_reading (by omega)]
  omega

/-- The invariant of the loop: all increments so far are fewer than the requested ones. -/
theorem waitLoop_never_early (small : startTicks.toNat + ticks.toNat < 2 ^ 32) (gaps : List Nat)
    (passed check : Nat)
    (leaves : waitLoop (startTicks + ticks)
      (tickReadings (startTicks + BitVec.ofNat 32 passed) gaps) = some check) :
    ticks.toNat ≤ passed + (gaps.take (check + 1)).sum := by
  induction gaps generalizing passed check with
  | nil => cases leaves
  | cons gap rest ih =>
      rw [tickReadings_add, waitLoop] at leaves
      rw [List.take_succ_cons, List.sum_cons, ← Nat.add_assoc]
      by_cases before : passed + gap < ticks.toNat
      · rw [if_pos (wait_goes_on small before)] at leaves
        obtain ⟨later, goesOn, same⟩ := Option.map_eq_some_iff.mp leaves
        subst same
        exact ih (passed + gap) later goesOn
      · omega

/-- Steps of one increment meet the requested number, where the reading is the deadline. -/
theorem waitLoop_leaves (gaps : List Nat) (passed : Nat) (before : passed < ticks.toNat)
    (single : ∀ gap ∈ gaps, gap ≤ 1) (enough : ticks.toNat ≤ passed + gaps.sum) :
    (waitLoop (startTicks + ticks)
      (tickReadings (startTicks + BitVec.ofNat 32 passed) gaps)).isSome = true := by
  induction gaps generalizing passed with
  | nil =>
      rw [List.sum_nil] at enough
      omega
  | cons gap rest ih =>
      rw [List.sum_cons] at enough
      rw [tickReadings_add, waitLoop]
      have one := single gap List.mem_cons_self
      split
      · next goesOn =>
        have notYet : passed + gap ≠ ticks.toNat := by
          intro reached
          rw [reached, BitVec.ofNat_toNat, BitVec.setWidth_eq, BitVec.lt_def] at goesOn
          exact Nat.lt_irrefl _ goesOn
        rw [Option.isSome_map]
        exact ih (passed + gap) (by omega)
          (fun later inside => single later (List.mem_cons_of_mem gap inside)) (by omega)
      · rfl

/-- The sleep is never too short exactly when the deadline does not wrap. -/
theorem neverEarly_iff (startTicks ticks : Word) :
    NeverEarly startTicks ticks ↔ startTicks.toNat + ticks.toNat < 2 ^ 32 := by
  constructor
  · intro never
    by_contra wraps
    have startBound := startTicks.isLt
    have ticksBound := ticks.isLt
    have deadline : (startTicks + ticks).toNat = startTicks.toNat + ticks.toNat - 2 ^ 32 := by
      rw [BitVec.toNat_add]
      omega
    -- with no increment at all, the first check finds the start above the deadline
    have leaves : timerSleep startTicks ticks [0] = some 0 := by
      have passed : ¬ startTicks < startTicks + ticks := by
        rw [BitVec.lt_def, deadline]
        omega
      exact if_neg passed
    have early := never [0] 0 leaves
    simp only [List.take_succ_cons, List.take_zero, List.sum_cons, List.sum_nil] at early
    omega
  · intro small gaps check leaves
    have start : startTicks = startTicks + BitVec.ofNat 32 0 := by simp
    rw [timerSleep] at leaves
    nth_rewrite 2 [start] at leaves
    have enough := waitLoop_never_early small gaps 0 check leaves
    rwa [Nat.zero_add] at enough

/-- The sleep ends in time except for one of 0 ticks from the last value before the wrap. -/
theorem leavesInTime_iff (startTicks ticks : Word) :
    LeavesInTime startTicks ticks ↔ ticks.toNat = 0 → startTicks.toNat + 1 < 2 ^ 32 := by
  have start : startTicks = startTicks + BitVec.ofNat 32 0 := by simp
  have startBound := startTicks.isLt
  constructor
  · intro leaves none
    by_contra last
    have zero : ticks = 0 := BitVec.eq_of_toNat_eq none
    have value : startTicks = 0xFFFFFFFF :=
      BitVec.eq_of_toNat_eq (show startTicks.toNat = 0xFFFFFFFF by omega)
    subst zero
    subst value
    exact absurd (leaves [1] (by decide) (by decide) (by decide)) (by decide)
  · intro early gaps nonempty single enough
    by_cases none : ticks.toNat = 0
    · cases gaps with
      | nil => exact absurd rfl nonempty
      | cons gap rest =>
          have one := single gap List.mem_cons_self
          have small := early none
          have passed : ¬ startTicks + BitVec.ofNat 32 (0 + gap) < startTicks + ticks := by
            rw [BitVec.lt_def, toNat_reading (by omega), toNat_deadline (by omega)]
            omega
          rw [timerSleep]
          nth_rewrite 2 [start]
          rw [tickReadings_add, waitLoop, if_neg passed]
          rfl
    · rw [timerSleep]
      nth_rewrite 2 [start]
      exact waitLoop_leaves gaps 0 (by omega) single (by omega)

/--
`timer_sleep` waits for the requested ticks and no longer exactly when neither
the deadline nor the tick after the start lies behind the end of the counter.
-/
theorem timerSleep_iff (startTicks ticks : Word) :
    (NeverEarly startTicks ticks ∧ LeavesInTime startTicks ticks) ↔
      startTicks.toNat + max 1 ticks.toNat < 2 ^ 32 := by
  rw [neverEarly_iff, leavesInTime_iff]
  omega

end SimpleOS
