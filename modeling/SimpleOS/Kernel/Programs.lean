import Mathlib.Tactic.Ring
import SimpleOS.Kernel.Shell

/-!
# The programs that can be executed

`demo_processes.c`: the four programs of `exec_find_program`, which compute in
a loop, print, and end in `process_exit(0)`.
-/

namespace SimpleOS

open Library.ByteMemory

namespace Program

/-! ## The loops -/

/-- The round `for (i = 0; i < 1000; i++)` of `demo_counter_process`. -/
def counterRound (counter : Int) (_i : Nat) : Int := counter + 1

/-- The round of `demo_calc_process`: the sum in `result`, and what is kept of it. -/
def calcSum (result : Int) (i : Nat) : Int := result + i * 2

def calcRound (result : Int) (i : Nat) : Int :=
  let result := calcSum result i
  if result > 1000000 then result.tmod 1000000 else result

/-- The round of `demo_monitor_process`. -/
def monitorRound (i : Nat) : List Vga.Call :=
  if i % 200000 = 0 then [Message.text "Monitoring system status...\n"] else []

/-- `counter` after some rounds. -/
def counterLoop (rounds : Nat) : Int := (List.range rounds).foldl counterRound 0

/-- `result` after some rounds. -/
def calcLoop (rounds : Nat) : Int := (List.range rounds).foldl calcRound 0

/-- The screen calls of some rounds. -/
def monitorLoop (rounds : Nat) : List Vga.Call := (List.range rounds).flatMap monitorRound

/-- What a program prints; an `int` goes to `vga_print_hex` as its 32 bits. -/
def calls : Program → List Vga.Call
  | .hello => [Message.text "Hello from exec_hello_program!\n"]
  | .counter =>
      [Message.text "Counter process finished counting to ",
        .printHex (BitVec.ofInt 32 (counterLoop 1000)), Message.text "\n"]
  | .calc =>
      [Message.text "Calculation process completed with result: ",
        .printHex (BitVec.ofInt 32 (calcLoop 500000)), Message.text "\n"]
  | .monitor =>
      monitorLoop 2000000 ++ [Message.text "Monitor process completed its work.\n"]

/-! ## What the loops compute -/

theorem counterLoop_eq (rounds : Nat) : counterLoop rounds = rounds := by
  induction rounds with
  | zero => rfl
  | succ rounds ih =>
      rw [counterLoop, List.range_succ, List.foldl_append]
      change counterLoop rounds + 1 = _
      rw [ih, Nat.cast_succ]

theorem calcLoop_succ (rounds : Nat) :
    calcLoop (rounds + 1) = calcRound (calcLoop rounds) rounds := by
  rw [calcLoop, List.range_succ, List.foldl_append]
  rfl

/-- A round keeps the sum below a million, and its value up to millions. -/
theorem calcRound_spec {result : Int} (lower : 0 ≤ result) (i : Nat) :
    0 ≤ calcRound result i ∧ calcRound result i ≤ 1000000 ∧
      ∃ dropped : Int, calcRound result i = calcSum result i - dropped * 1000000 := by
  have sum : 0 ≤ calcSum result i := by
    simp only [calcSum]
    omega
  simp only [calcRound]
  split
  · rw [Int.tmod_eq_emod_of_nonneg sum]
    refine ⟨Int.emod_nonneg _ (by decide), ?_, calcSum result i / 1000000, ?_⟩
    · exact Int.le_of_lt (Int.emod_lt_of_pos _ (by decide))
    · rw [Int.emod_def, Int.mul_comm]
  · next small => exact ⟨sum, Int.not_lt.mp small, 0, by rw [Int.zero_mul, Int.sub_zero]⟩

/-- The accumulator stays between 0 and a million, and is the sum of the even numbers so far up to
millions. -/
theorem calcLoop_spec (rounds : Nat) :
    0 ≤ calcLoop rounds ∧ calcLoop rounds ≤ 1000000 ∧
      ∃ dropped : Int, calcLoop rounds = rounds * (rounds - 1) - dropped * 1000000 := by
  induction rounds with
  | zero => exact ⟨Int.le_refl 0, by decide, 0, rfl⟩
  | succ rounds ih =>
      obtain ⟨lower, _, before, value⟩ := ih
      obtain ⟨least, most, dropped, round⟩ := calcRound_spec lower rounds
      rw [calcLoop_succ]
      refine ⟨least, most, before + dropped, ?_⟩
      rw [round, calcSum, value, Nat.cast_succ]
      ring

/-- The monitor prints a line in every 200000th round, the first one included. -/
theorem monitorLoop_eq (rounds : Nat) :
    monitorLoop rounds =
      List.replicate ((rounds + 199999) / 200000)
        (Message.text "Monitoring system status...\n") := by
  induction rounds with
  | zero => rfl
  | succ rounds ih =>
      rw [monitorLoop, List.range_succ, List.flatMap_append, List.flatMap_singleton]
      change monitorLoop rounds ++ monitorRound rounds = _
      rw [ih, monitorRound]
      split
      · next due =>
          have more : (rounds + 1 + 199999) / 200000 = (rounds + 199999) / 200000 + 1 := by omega
          rw [more, List.replicate_succ']
      · next silent =>
          have same : (rounds + 1 + 199999) / 200000 = (rounds + 199999) / 200000 := by omega
          rw [same, List.append_nil]

/-- The sum of 500000 even numbers is half a million up to millions. -/
theorem calcLoop_result : calcLoop 500000 = 500000 := by
  obtain ⟨lower, upper, dropped, value⟩ := calcLoop_spec 500000
  simp only [Nat.cast_ofNat] at value
  omega

/-- After any number of rounds the counter has their number, the sum of the even numbers is kept up
to millions in 0 to a million, and the monitor has printed a line for every 200000 of them begun; in
the rounds the programs make no `int` overflows; and they print 1000, half a million, and ten lines
with a last one. -/
theorem programs_print :
    (∀ rounds : Nat, counterLoop rounds = rounds ∧
        (0 ≤ calcLoop rounds ∧ calcLoop rounds ≤ 1000000 ∧
          ∃ dropped : Int, calcLoop rounds = rounds * (rounds - 1) - dropped * 1000000) ∧
        monitorLoop rounds =
          List.replicate ((rounds + 199999) / 200000)
            (Message.text "Monitoring system status...\n")) ∧
      (∀ i < 500000, 0 ≤ calcSum (calcLoop i) i ∧ calcSum (calcLoop i) i < 2 ^ 31) ∧
      counter.calls =
        [Message.text "Counter process finished counting to ", .printHex 1000,
          Message.text "\n"] ∧
      Program.calc.calls =
        [Message.text "Calculation process completed with result: ", .printHex 500000,
          Message.text "\n"] ∧
      monitor.calls =
        List.replicate 10 (Message.text "Monitoring system status...\n") ++
          [Message.text "Monitor process completed its work.\n"] := by
  refine ⟨fun rounds => ?_, fun i bound => ?_, ?_, ?_, ?_⟩
  · exact ⟨counterLoop_eq rounds, calcLoop_spec rounds, monitorLoop_eq rounds⟩
  · obtain ⟨lower, upper, _⟩ := calcLoop_spec i
    simp only [calcSum]
    omega
  · rw [calls, counterLoop_eq]
    rfl
  · rw [calls, calcLoop_result]
    rfl
  · rw [calls, monitorLoop_eq]

end Program

end SimpleOS
