import Mathlib.Order.Monotone.Basic
import Sima.Lib.Trace
import Sima.Sched.Status

/-!
# A pCPU and its clock

`SchedStep` lets every call read from the clock whatever it likes. What a
scheduler promises about time rests on a clock that does not go back, and on who
reads it when: here a step begins where the last one ended.

All calls but one read the clock under the scheduler lock. The callback of the
RTDS timer reads it first and then waits for the lock, and threads may be put to
sleep or woken in the meantime. So its first reading may be older than theirs —
but not older than the last switch, which the same pCPU did itself. `tickFrom`
is how far back it may lie.

The idle thread is nobody's to put to sleep, to wake or to prioritize. All
callers hand in a vCPU, the shell or the watchdog.
-/

namespace Sima.Sched

open Lib

variable {σ : Type} {ticks : Nat → Nat} {hi lo : Nat}

/-! ## A call as a function -/

namespace SchedOp

def apply (S : AcrnScheduler σ) (caller : Caller) (p : Pcpu σ) : SchedOp → Pcpu σ
  | initThreadData t => Sched.initThreadData S caller t p
  | runIdle => runThread caller.ticks p.ctl.idle p
  | sleepThread t => Sched.sleepThread S caller t p
  | wakeThread t => Sched.wakeThread S caller t p
  | requestThreadPriority t => Sched.requestThreadPriority S t p
  | schedule => Sched.schedule S caller.ticks p
  | timerTick => Sched.timerTick S caller.ticks p

/-- When the call can be made. -/
def Allowed (c : SchedControl) : SchedOp → Prop
  | initThreadData t => t ∉ c.threadList
  | runIdle => c.currObj = none ∧ c.idle ∈ c.threadList
  | sleepThread t => t ∈ c.threadList ∧ t ≠ c.idle
  | wakeThread t => t ∈ c.threadList ∧ t ≠ c.idle
  | requestThreadPriority t => t ∈ c.threadList ∧ t ≠ c.idle
  | schedule => c.currObj ≠ none
  | timerTick => c.currObj ≠ none

instance (c : SchedControl) : DecidablePred (Allowed c)
  | initThreadData t => inferInstanceAs (Decidable (t ∉ c.threadList))
  | runIdle => inferInstanceAs (Decidable (c.currObj = none ∧ c.idle ∈ c.threadList))
  | sleepThread t => inferInstanceAs (Decidable (t ∈ c.threadList ∧ t ≠ c.idle))
  | wakeThread t => inferInstanceAs (Decidable (t ∈ c.threadList ∧ t ≠ c.idle))
  | requestThreadPriority t => inferInstanceAs (Decidable (t ∈ c.threadList ∧ t ≠ c.idle))
  | schedule => inferInstanceAs (Decidable (c.currObj ≠ none))
  | timerTick => inferInstanceAs (Decidable (c.currObj ≠ none))

theorem step_of_allowed {S : AcrnScheduler σ} {p : Pcpu σ} {op : SchedOp}
    (h : op.Allowed p.ctl) (caller : Caller) : SchedStep S op p (op.apply S caller p) := by
  cases op with
  | initThreadData t => exact .initThreadData caller h
  | runIdle => exact .runIdle caller.ticks h.1 h.2
  | sleepThread t => exact .sleepThread caller h.1
  | wakeThread t => exact .wakeThread caller h.1
  | requestThreadPriority t => exact .requestThreadPriority h.1
  | schedule => exact .schedule caller.ticks h
  | timerTick => exact .timerTick caller.ticks h

end SchedOp

/-! ## Steps in time -/

/-- The readings of one call: in order, from `lo` to `hi`. -/
structure Readings (lo hi : Nat) (ticks : Nat → Nat) : Prop where
  first : lo ≤ ticks 0
  mono : Monotone ticks
  last : ∀ i, ticks i ≤ hi

theorem Readings.le (h : Readings lo hi ticks) (i : Nat) : lo ≤ ticks i :=
  h.first.trans (h.mono (Nat.zero_le i))

theorem Readings.const {n : Nat} (hlo : lo ≤ n) (hhi : n ≤ hi) : Readings lo hi fun _ => n :=
  ⟨hlo, fun _ _ _ => le_refl n, fun _ => hhi⟩

/-- A pCPU at a time. `log` tells who has run: each switch, the latest first,
with the reading that `pick_next` began with. -/
structure Clocked (σ : Type) where
  pcpu : Pcpu σ
  now : Nat
  tickFrom : Nat
  log : List (Nat × Tid)

namespace Clocked

def start (p : Pcpu σ) (now : Nat) : Clocked σ := ⟨p, now, now, []⟩

/-- The earliest time that the call may read. -/
def readsFrom (s : Clocked σ) : SchedOp → Nat
  | .timerTick => s.tickFrom
  | _ => s.now

/-- From then on the timer may have been due, after the call. -/
def nextTickFrom (s : Clocked σ) (hi : Nat) : SchedOp → Nat
  | .runIdle | .schedule | .timerTick => hi
  | _ => s.tickFrom

def nextLog (S : AcrnScheduler σ) (s : Clocked σ) (ticks : Nat → Nat) :
    SchedOp → List (Nat × Tid)
  | .runIdle => (ticks 0, s.pcpu.ctl.idle) :: s.log
  | .schedule =>
    let next := (pick S ticks s.pcpu).1
    if s.pcpu.ctl.currObj = some next then s.log
    else (ticks s.pcpu.ctl.threadList.length, next) :: s.log
  | _ => s.log

/-- The call `op`, over by `hi`. -/
def call (S : AcrnScheduler σ) (caller : Caller) (hi : Nat) (op : SchedOp)
    (s : Clocked σ) : Clocked σ where
  pcpu := op.apply S caller s.pcpu
  now := hi
  tickFrom := s.nextTickFrom hi op
  log := s.nextLog S caller.ticks op

def setCtl (s : Clocked σ) (c : SchedControl) : Clocked σ :=
  { s with pcpu := { s.pcpu with ctl := c } }

end Clocked

inductive ClockOp where
  | call (op : SchedOp) (caller : Caller)
  /-- `sched_clear_reschedule_if_current_only`. -/
  | clear
  /-- `yield_current`, or any other `make_reschedule_request`. -/
  | yield
  /-- `suspend_sched`. -/
  | suspend

inductive ClockStep (S : AcrnScheduler σ) :
    ClockOp → Clocked σ → Clocked σ → Prop where
  | call {op : SchedOp} {caller : Caller} {hi : Nat} {s : Clocked σ} :
      op.Allowed s.pcpu.ctl → Readings (s.readsFrom op) hi caller.ticks →
      s.now ≤ hi → ClockStep S (.call op caller) s (s.call S caller hi op)
  | clear {s : Clocked σ} :
      ClockStep S .clear s (s.setCtl (clearRescheduleIfCurrentOnly s.pcpu.ctl).2)
  | yield {s : Clocked σ} : ClockStep S .yield s (s.setCtl s.pcpu.ctl.makeRescheduleRequest)
  | suspend {s : Clocked σ} :
      ClockStep S .suspend s { s with pcpu := { s.pcpu with priv := S.suspend s.pcpu.priv } }

variable {S : AcrnScheduler σ} {I M : RunView → σ → Prop} {s s' : Clocked σ}
  {op : ClockOp}

theorem Lawful.clockStep (h : Lawful S I M)
    (hsusp : ∀ {v x}, I v x → I v (S.suspend x)) (hstep : ClockStep S op s s')
    (hok : s.pcpu.ctl.view.Ok) (hI : I s.pcpu.ctl.view s.pcpu.priv) :
    s'.pcpu.ctl.view.Ok ∧ I s'.pcpu.ctl.view s'.pcpu.priv := by
  cases hstep with
  | call hal _ _ => exact h.step (SchedOp.step_of_allowed hal _) hok hI
  | clear =>
    simp only [Clocked.setCtl, view_clearReschedule]
    exact ⟨hok, hI⟩
  | yield => exact ⟨hok, hI⟩
  | suspend => exact ⟨hok, hsusp hI⟩

theorem ClockStep.now_le (hstep : ClockStep S op s s') : s.now ≤ s'.now := by
  cases hstep with
  | call _ _ hnow => exact hnow
  | clear | yield | suspend => exact le_rfl

/-! ## Runs that are written down -/

/-- A call on the pCPU itself that is over at `late`. Its first `split` readings are
`early` and all others `late`. -/
structure Turn where
  op : SchedOp
  late : Nat
  split : Nat := 0
  early : Nat := late

namespace Turn

def caller (a : Turn) : Caller := ⟨true, fun i => if i < a.split then a.early else a.late⟩

def label (a : Turn) : ClockOp := .call a.op a.caller

def play (S : AcrnScheduler σ) (a : Turn) (s : Clocked σ) : Clocked σ :=
  s.call S a.caller a.late a.op

/-- When the call can be made. -/
def Can (a : Turn) (s : Clocked σ) : Prop :=
  a.op.Allowed s.pcpu.ctl ∧ s.readsFrom a.op ≤ a.early ∧ a.early ≤ a.late ∧ s.now ≤ a.late

instance (a : Turn) (s : Clocked σ) : Decidable (a.Can s) :=
  inferInstanceAs (Decidable (_ ∧ _))

variable {a : Turn}

theorem readings {lo : Nat} (hlo : lo ≤ a.early) (h : a.early ≤ a.late) :
    Readings lo a.late a.caller.ticks := by
  refine ⟨?_, fun i j hij => ?_, fun i => ?_⟩
  · simp only [caller]
    split <;> omega
  · simp only [caller]
    split <;> split <;> omega
  · simp only [caller]
    split <;> omega

theorem Can.step (h : a.Can s) : ClockStep S a.label s (a.play S s) := by
  obtain ⟨hal, hlo, hle, hnow⟩ := h
  exact .call hal (readings hlo hle) hnow

/-- One turn after the other. -/
def plays (S : AcrnScheduler σ) (script : List Turn) (s : Clocked σ) : Clocked σ :=
  script.foldl (fun s a => a.play S s) s

theorem run {ok : ClockOp → Clocked σ → Prop} {script : List Turn}
    (h : Meets (play S) (fun a s => a.Can s ∧ ok a.label s) s script) :
    GuardedRun (ClockStep S) ok s (script.map label).reverse (plays S script s) :=
  .of_script (fun _ _ h => ⟨h.2, h.1.step⟩) h

end Turn

/-! ## The priority requests, one reading after the other -/

/-- What each priority request keeps, all of them keep. `P` may speak of the
time: it is as old as the reading that the next request makes. -/
theorem consumePriorities_inv {P : Nat → Pcpu σ → Prop} {l ts : List Tid} (hmono : Monotone ticks)
    (hlater : ∀ {n m p}, P n p → n ≤ m → P m p)
    (hstep : ∀ {t p} {caller : Caller}, t ∈ l → P (caller.ticks 0) p →
      P (caller.ticks 0) (consumePriority S caller t p)) (hts : ∀ t ∈ ts, t ∈ l) {p : Pcpu σ}
    (h : P (ticks 0) p) : P (ticks ts.length) (consumePriorities S ticks ts p) := by
  induction ts generalizing ticks p with
  | nil => exact h
  | cons t ts ih =>
    refine ih (fun i j hij => hmono (Nat.add_le_add_right hij 1))
      (fun u hu => hts u (List.mem_cons_of_mem _ hu)) ?_
    exact hlater (hstep (hts t (by simp)) (show P _ _ from h)) (hmono (Nat.zero_le 1))

end Sima.Sched
