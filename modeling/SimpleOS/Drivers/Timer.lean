import Mathlib.Logic.Function.Iterate
import SimpleOS.Library.ByteMemory

/-!
# The tick counter

`timer_ticks` is a 32-bit counter that `timer_handler` increments; `timer_sleep`
reads it once when it is called and once in every check of its wait loop.
-/

namespace SimpleOS

open Library.ByteMemory

/-- `timer_ticks++`. -/
def countTick (timerTicks : Word) : Word := timerTicks + 1

/-- The values that successive reads of the counter give, by the increments before each read. -/
def tickReadings (timerTicks : Word) : List Nat → List Word
  | [] => []
  | gap :: rest =>
      let timerTicks := countTick^[gap] timerTicks
      timerTicks :: tickReadings timerTicks rest

/--
The loop `while (timer_ticks < deadline)` over the values its checks read: how
many checks it passes before the one at which it leaves, if it leaves.
-/
def waitLoop (deadline : Word) : List Word → Option Nat
  | [] => none
  | timerTicks :: rest =>
      if timerTicks < deadline then (waitLoop deadline rest).map (· + 1) else some 0

/--
`timer_sleep(ticks)`, started when the counter reads `startTicks`; the listed
numbers of increments happen before its first check and between its checks.
-/
def timerSleep (startTicks ticks : Word) (gaps : List Nat) : Option Nat :=
  waitLoop (startTicks + ticks) (tickReadings startTicks gaps)

theorem countTick_iterate (gap : Nat) (timerTicks : Word) :
    countTick^[gap] timerTicks = timerTicks + BitVec.ofNat 32 gap := by
  induction gap generalizing timerTicks with
  | zero => simp
  | succ gap ih =>
      rw [Function.iterate_succ_apply, ih, countTick, BitVec.add_assoc, BitVec.add_comm 1,
        BitVec.ofNat_add]
      rfl

/-- Readings after a number of increments, seen from the start of the count. -/
theorem tickReadings_add (startTicks : Word) (passed gap : Nat) (rest : List Nat) :
    tickReadings (startTicks + BitVec.ofNat 32 passed) (gap :: rest) =
      (startTicks + BitVec.ofNat 32 (passed + gap)) ::
        tickReadings (startTicks + BitVec.ofNat 32 (passed + gap)) rest := by
  rw [tickReadings, countTick_iterate, BitVec.add_assoc, ← BitVec.ofNat_add]

end SimpleOS
