import SimpleOS.Drivers.Timer
import SimpleOS.Properties.HandOver

/-!
# Acknowledging timer interrupts

`timer_interrupt_wrapper` writes the end-of-interrupt command after
`timer_handler` has returned.  `timer_handler` ends in `schedule`, which does
not come back in the same activation when it hands over to another process; the
command is then left to whenever the interrupted process runs again.
-/

namespace SimpleOS

open Library.ByteMemory Library.GuardedRun

/-- The tick counter and what the scheduler works on. -/
structure Timer where
  kernel : Kernel
  timerTicks : Word

/-- What an activation of the handler does that is seen outside it. -/
inductive HandlerEvent where
  | out (port value : Nat)
  | iret
  | jump (newProcess : Word)
  deriving DecidableEq

namespace HandlerEvent

/-- Control leaves the activation. -/
def leaves : HandlerEvent → Bool
  | .out _ _ => false
  | .iret => true
  | .jump _ => true

/-- `mov al, 0x20` and `out 0x20, al`. -/
def endOfInterrupt : HandlerEvent := .out 0x20 0x20

end HandlerEvent

open HandlerEvent

namespace Timer

/-- `timer_handler`, with the transfer in which `schedule` leaves it, if it makes one. -/
def timerHandler (t : Timer) (saved : CpuState) : Timer × Option Transfer :=
  ({ kernel := t.kernel.schedulerTick saved, timerTicks := countTick t.timerTicks },
    t.kernel.transfer? saved)

/-- `timer_interrupt_wrapper` until control leaves it: back to the interrupted code, or away. -/
def timerInterruptWrapper (t : Timer) (saved : CpuState) : Timer × List HandlerEvent :=
  match t.timerHandler saved with
  | (t, none) => (t, [endOfInterrupt, .iret])
  | (t, some transfer) => (t, [.jump transfer.newProcess])

end Timer

/-- The end-of-interrupt command comes before control leaves. -/
def AcknowledgedFirst (events : List HandlerEvent) : Prop :=
  endOfInterrupt ∈ events.takeWhile fun event => !event.leaves

/-- With nobody ready the kernel process runs, and otherwise the head of the ready queue does. -/
def Kernel.StaysPut (s : Kernel) : Prop :=
  if s.readyQueueHead = null then s.currentProcess = s.kernelProcess
  else s.readyQueueHead = s.currentProcess

/-- A scheduling step makes no transfer exactly from such a state. -/
theorem Kernel.transfer?_eq_none_iff (s : Kernel) (saved : CpuState) :
    s.transfer? saved = none ↔ s.StaysPut := by
  rw [transfer?, StaysPut]
  by_cases idle : s.readyQueueHead = null
  · rw [if_pos idle, if_pos idle]
    by_cases same : s.currentProcess = s.kernelProcess
    · simp [same]
    · simp [same]
  · rw [if_neg idle, if_neg idle]
    dsimp only
    rw [requeueCurrent_currentProcess]
    by_cases same : s.readyQueueHead = s.currentProcess
    · simp [same]
    · rw [if_neg same]
      refine ⟨fun returns => ?_, fun impossible => absurd impossible same⟩
      split at returns
      · cases returns
      · cases returns

/-- One activation acknowledges its interrupt in time exactly if nobody else is to run. -/
theorem acknowledgedFirst_iff (t : Timer) (saved : CpuState) :
    AcknowledgedFirst (t.timerInterruptWrapper saved).2 ↔ t.kernel.StaysPut := by
  rw [← t.kernel.transfer?_eq_none_iff saved, Timer.timerInterruptWrapper, Timer.timerHandler]
  cases t.kernel.transfer? saved with
  | none => simp [AcknowledgedFirst, leaves, endOfInterrupt]
  | some transfer => simp [AcknowledgedFirst, leaves]

/-! ## Sequences of interrupts -/

/--
The interrupts taken and not yet acknowledged, the most of them at any moment
so far, and the processes that were switched out inside the handler.
-/
structure Preempted where
  timer : Timer
  unacknowledged : Nat
  most : Nat
  inHandler : List Word

/-- A timer interrupt, or what the code between two interrupts does to the scheduler. -/
inductive TimerEvent where
  | tick (saved : CpuState)
  /-- The scheduler state afterwards, and the process that a call of `schedule` switched to. -/
  | between (kernel : Kernel) (newProcess : Option Word)

namespace Preempted

def start (t : Timer) : Preempted where
  timer := t
  unacknowledged := 0
  most := 0
  inHandler := []

/-- A process switched in inside the handler returns to the wrapper, which writes the command. -/
def resume (p : Preempted) (newProcess : Word) : Preempted :=
  if p.inHandler.contains newProcess then
    { p with
      unacknowledged := p.unacknowledged - 1
      inHandler := p.inHandler.erase newProcess }
  else p

def step (p : Preempted) : TimerEvent → Preempted
  | .tick saved =>
      let interrupted := p.timer.kernel.currentProcess
      let taken := p.unacknowledged + 1
      let (timer, events) := p.timer.timerInterruptWrapper saved
      let p :=
        { p with
          timer := timer
          unacknowledged := taken - events.count endOfInterrupt
          most := max p.most taken }
      match events.getLast? with
      | some (.jump newProcess) =>
          -- a NULL current process is not saved, so nothing returns to its handler
          if interrupted = null then p.resume newProcess
          else { p with inHandler := interrupted :: p.inHandler }.resume newProcess
      | _ => p
  | .between kernel newProcess =>
      let p := { p with timer := { p.timer with kernel := kernel } }
      match newProcess with
      | none => p
      | some newProcess => p.resume newProcess

/-- The interrupt is acknowledged before control leaves its activation. -/
def AcknowledgesFirst (p : Preempted) : TimerEvent → Prop
  | .tick saved => AcknowledgedFirst (p.timer.timerInterruptWrapper saved).2
  | .between _ _ => True

/-- The interrupt finds a state in which nobody else is to run. -/
def TicksStay (p : Preempted) : TimerEvent → Prop
  | .tick _ => p.timer.kernel.StaysPut
  | .between _ _ => True

/-- Nothing is left to acknowledge, and there was never more than one interrupt. -/
structure Settled (p : Preempted) : Prop where
  acknowledged : p.unacknowledged = 0
  most : p.most ≤ 1
  nobody : p.inHandler = []

variable {p : Preempted}

theorem Settled.resume_eq (settled : p.Settled) (newProcess : Word) :
    p.resume newProcess = p := by
  rw [resume, settled.nobody]
  exact if_neg Bool.false_ne_true

/-- A tick that stays: the activation ends in its own end-of-interrupt command. -/
theorem step_tick_of_stays (saved : CpuState) (stays : p.timer.kernel.StaysPut) :
    p.step (.tick saved) =
      { p with
        timer := (p.timer.timerHandler saved).1
        most := max p.most (p.unacknowledged + 1) } := by
  have returns := (p.timer.kernel.transfer?_eq_none_iff saved).mpr stays
  simp [step, Timer.timerInterruptWrapper, Timer.timerHandler, returns, endOfInterrupt]

theorem Settled.step (event : TimerEvent) (settled : p.Settled) (stays : p.TicksStay event) :
    (p.step event).Settled := by
  cases event with
  | tick saved =>
      rw [step_tick_of_stays saved stays]
      refine ⟨settled.acknowledged, ?_, settled.nobody⟩
      rw [settled.acknowledged]
      exact max_le settled.most (Nat.le_refl 1)
  | between kernel newProcess =>
      have kept : Settled { p with timer := { p.timer with kernel := kernel } } :=
        ⟨settled.acknowledged, settled.most, settled.nobody⟩
      cases newProcess with
      | none => exact kept
      | some newProcess =>
          change (resume _ newProcess).Settled
          rw [kept.resume_eq]
          exact kept

/--
In every sequence of timer interrupts, with any scheduling in between, the
interrupts that are acknowledged before control leaves the handler are the ones
that find the process to run already running; if all of them do, there is never
more than one unacknowledged interrupt.
-/
theorem ticks_acknowledged_iff (t : Timer) (events : List TimerEvent) :
    (Along step AcknowledgesFirst (start t) events ↔ Along step TicksStay (start t) events) ∧
      (Along step TicksStay (start t) events →
        Always step (fun p => p.most ≤ 1) (start t) events) := by
  constructor
  · have exact_step : ∀ p event, True → True →
        (AcknowledgesFirst p event ↔ TicksStay p event) := by
      intro p event _ _
      cases event with
      | tick saved => exact acknowledgedFirst_iff p.timer saved
      | between kernel newProcess => exact Iff.rfl
    exact along_iff_along (fun _ _ _ _ _ => trivial) exact_step trivial fun _ _ => trivial
  · have settled : (start t).Settled := ⟨rfl, Nat.zero_le 1, rfl⟩
    exact always_of_along (fun p event settled stays => settled.step event stays)
      (fun p settled => settled.most) settled

/-- A tick after a fork leaves for the child with the command still to be written. -/
theorem tick_leaves_unacknowledged :
    ¬ ∀ (t : Timer) (saved : CpuState), AcknowledgedFirst (t.timerInterruptWrapper saved).2 := by
  intro acknowledged
  have facts : ∀ s, s = run (Kernel.step Image.sample) (Kernel.boot Image.sample) [.fork] →
      s.readyQueueHead ≠ null ∧ s.readyQueueHead ≠ s.currentProcess := by
    intro s reached
    rw [reached]
    decide +kernel
  obtain ⟨ready, other⟩ := facts _ rfl
  generalize run (Kernel.step Image.sample) (Kernel.boot Image.sample) [.fork] = s at ready other
  have stays := (acknowledgedFirst_iff ⟨s, 0⟩ {}).mp (acknowledged ⟨s, 0⟩ {})
  rw [Kernel.StaysPut, if_neg ready] at stays
  exact other stays

end Preempted

end SimpleOS
