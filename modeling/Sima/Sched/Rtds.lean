import Mathlib.Data.List.Sort
import Sima.Lib.ForEachSafe
import Sima.Sched.Schedule

/-!
# The RTDS scheduler (`core/sched_rtds.c`)

Every thread but the idle one is a periodic server: `budgetTicks` of run time in
each period of `periodTicks`. A server that can run is queued by what is left of
its budget, and the ready queue is kept in the order of the deadlines.

A queue is a list of threads. The node that links a thread into a queue is a
field of the thread, so it is in one queue at most, and `list_del_init` takes it
out of whichever that is; the tag in `queue` is the scheduler's own note of it.
That tag and queue agree is not built into the model. It is proved in
`RtdsQueues`.
-/

namespace Sima.Sched

open Lib

/-- `enum sched_rtds_queue`. -/
inductive RtdsQueue where
  | none
  | ready
  | depleted
deriving DecidableEq, Repr

/-- `struct sched_rtds_data`. -/
structure RtdsData where
  periodTicks : Nat := 0
  budgetTicks : Nat := 0
  remainingTicks : Nat := 0
  deadlineTicks : Nat := 0
  lastStartTicks : Nat := 0
  queue : RtdsQueue := .none
deriving DecidableEq, Repr

/-- `struct sched_rtds_control` and the private data of the threads. The timer
is given by the time it is armed for. -/
structure Rtds where
  data : Tid → RtdsData
  readyQueue : List Tid
  depletedQueue : List Tid
  tickTimer : Option Nat

/-- `us_to_ticks`, with the tick rate in kHz. -/
def usToTicks (khz us : Nat) : Nat := us * khz / 1000

def rtdsDefaultPeriodUs : Nat := 4000
def rtdsDefaultBudgetUs : Nat := 2000
def rtdsMinPeriodUs : Nat := 500
def rtdsMinBudgetUs : Nat := 500

def rtdsNextPeriodBoundary (now periodTicks : Nat) : Nat :=
  if periodTicks = 0 then now else (now / periodTicks + 1) * periodTicks

namespace Rtds

def modify (s : Rtds) (t : Tid) (f : RtdsData → RtdsData) : Rtds :=
  { s with data := Function.update s.data t (f (s.data t)) }

@[simp] theorem modify_data (s : Rtds) (t : Tid) (f : RtdsData → RtdsData) :
    (s.modify t f).data = Function.update s.data t (f (s.data t)) := rfl

/-! ## The queues -/

section

variable (c : SchedControl) (caller : Caller) (now : Nat) (running : Option Tid) (t : Tid)
    (s : Rtds)

/-- `rtds_queue_remove`. -/
def queueRemove : Rtds :=
  if (s.data t).queue ≠ .none then
    { s.modify t fun d => { d with queue := .none } with
      readyQueue := s.readyQueue.erase t
      depletedQueue := s.depletedQueue.erase t }
  else s

/-- The place of `t` in the ready queue: before the first later deadline. -/
def edfInsert (t : Tid) : List Tid :=
  s.readyQueue.orderedInsert (fun a b => (s.data a).deadlineTicks < (s.data b).deadlineTicks) t

/-- `rtds_ready_insert`. -/
def readyInsert : Rtds :=
  let s := if (s.data t).queue ≠ .none then queueRemove t s else s
  { s.modify t fun d => { d with queue := .ready } with
    readyQueue := s.edfInsert t }

/-- `rtds_depleted_insert`. -/
def depletedInsert : Rtds :=
  if (s.data t).queue = .depleted then s
  else
    let s := if (s.data t).queue = .ready then queueRemove t s else s
    { s.modify t fun d => { d with queue := .depleted } with
      depletedQueue := s.depletedQueue ++ [t] }

/-! ## Budget and period -/

/-- `rtds_is_current`. -/
def isCurrent : Bool := c.currObj == some t

/-- `rtds_is_active`. -/
def isActive : Bool :=
  !c.isIdleThread t && ((isCurrent c t && !(c.obj t).beBlocking) || (c.obj t).status == .runnable)

/-- `rtds_account_runtime`. -/
def accountRuntime : Rtds :=
  if c.isIdleThread t || (c.obj t).status != .running ||
      (s.data t).lastStartTicks == 0 || now ≤ (s.data t).lastStartTicks then s
  else
    let delta := now - (s.data t).lastStartTicks
    s.modify t fun d =>
      { d with
        lastStartTicks := now
        remainingTicks := if d.remainingTicks ≤ delta then 0 else d.remainingTicks - delta }

/-- `rtds_advance_period`: whether the period was over, and the data after. -/
def advancePeriod (d : RtdsData) : Bool × RtdsData :=
  if now < d.deadlineTicks then (false, d)
  else
    let periodsMissed := (now - d.deadlineTicks) / d.periodTicks + 1
    (true,
      { d with
        deadlineTicks := d.deadlineTicks + periodsMissed * d.periodTicks
        remainingTicks := d.budgetTicks })

/-- The call of `rtds_advance_period` on the data of `t`. -/
def advance : Rtds :=
  s.modify t fun d => (advancePeriod now d).2

/-- `rtds_refresh_thread`. -/
def refreshThread : Rtds :=
  let s := advance now t s
  if !isActive c t then s
  else if (s.data t).remainingTicks > 0 then readyInsert t s
  else if !(c.obj t).beBlocking then depletedInsert t s
  else s

/-- The body of the first loop of `rtds_refresh_queues`. -/
def refreshReady : Rtds :=
  if (advancePeriod now (s.data t)).1 then
    refreshThread c now t (queueRemove t (advance now t s))
  else s

/-- `rtds_refresh_queues`. No server is moved twice, so each walk is over after
two turns per element (`refreshReady_settles`, `refreshDepleted_settles`). -/
def refreshQueues : Rtds :=
  let s := forEachSafe readyQueue (refreshReady c now)
    (2 * s.readyQueue.length) s.readyQueue.head? s
  forEachSafe depletedQueue (refreshThread c now)
    (2 * s.depletedQueue.length) s.depletedQueue.head? s

/-! ## The timer -/

/-- `rtds_next_depleted_deadline`, 0 for an empty queue. -/
def nextDepletedDeadline : Nat :=
  s.depletedQueue.foldl
    (fun next t =>
      if next = 0 || (s.data t).deadlineTicks < next then (s.data t).deadlineTicks
      else next) 0

/-- The timeout that `rtds_program_local_timer` finds for the running server, 0
for none. -/
def runningTimeout : Nat :=
  match running with
  | none => 0
  | some t =>
    let d := s.data t
    if c.isIdleThread t then 0
    else if d.remainingTicks > 0 then
      let timeout :=
        if d.lastStartTicks ≠ 0 then d.lastStartTicks + d.remainingTicks
        else now + d.remainingTicks
      let timeout := if d.deadlineTicks < timeout then d.deadlineTicks else timeout
      if timeout ≤ now then now else timeout
    else if d.deadlineTicks > now then d.deadlineTicks
    else now

/-- `rtds_program_local_timer`. -/
def programLocalTimer : Rtds :=
  let timeout := runningTimeout c now running s
  let replenishTimeout := nextDepletedDeadline s
  let timeout :=
    if replenishTimeout ≠ 0 && (timeout == 0 || replenishTimeout < timeout) then
      replenishTimeout
    else timeout
  { s with tickTimer := if timeout ≠ 0 then some timeout else none }

/-- `rtds_program_timer`: only the owning pCPU may touch its timer. -/
def programTimer : Rtds :=
  if caller.here then programLocalTimer c (caller.ticks 1) running s else s

/-! ## The hooks -/

/-- What `rtds_timer_handler` and `sched_rtds_pick_next` begin with: the current
server pays for its run time and is queued with the others. -/
def chargeCurrent : Rtds :=
  match c.currObj with
  | none => s
  | some t =>
    if c.isIdleThread t then s
    else refreshThread c now t (accountRuntime c now t s)

/-- The depleted server with the earliest deadline. -/
def earliestDepleted : Option Tid :=
  s.depletedQueue.foldl
    (fun best t =>
      match best with
      | none => some t
      | some b =>
        if (s.data t).deadlineTicks < (s.data b).deadlineTicks then some t
        else some b) none

/-- `rtds_pick_depleted_slack`. -/
def pickDepletedSlack : Option Tid × Rtds :=
  match earliestDepleted s with
  | some best => (some best, queueRemove best s)
  | none => (none, s)

/-- The choice that `sched_rtds_pick_next` makes from the refreshed queues. -/
def choose : Tid × Rtds :=
  match s.readyQueue with
  | next :: _ => (next, queueRemove next s)
  | [] =>
    match pickDepletedSlack s with
    | (some next, s) => (next, s)
    | (none, s) => (c.idle, s)

/-- `sched_rtds_pick_next`. -/
def pickNext : Tid × Rtds :=
  let now := caller.ticks 0
  let (next, s) := choose c (refreshQueues c now (chargeCurrent c now s))
  let s :=
    if !c.isIdleThread next then
      s.modify next fun d => { d with lastStartTicks := now }
    else s
  (next, programTimer c caller (some next) s)

/-- `sched_rtds_sleep`. -/
def sleep : Rtds :=
  let s := if isCurrent c t then accountRuntime c (caller.ticks 0) t s else s
  let s := queueRemove t s
  let s := s.modify t fun d => { d with lastStartTicks := 0 }
  programTimer c caller (if isCurrent c t then none else c.currObj) s

/-- `sched_rtds_wake`. -/
def wake : Rtds :=
  let s := advance (caller.ticks 0) t s
  let s := s.modify t fun d => { d with lastStartTicks := 0 }
  let s := if (s.data t).remainingTicks > 0 then readyInsert t s else depletedInsert t s
  programTimer c caller c.currObj s

/-- `sched_rtds_prioritize`. -/
def prioritize : Rtds :=
  let s := advance (caller.ticks 0) t s
  if !isCurrent c t && (s.data t).remainingTicks > 0 then readyInsert t s else s

/-- `sched_rtds_init`, with the private data of no thread written yet. -/
def init : Rtds where
  data _ := {}
  readyQueue := []
  depletedQueue := []
  tickTimer := none

/-- `sched_rtds_init_data`. -/
def initData (khz : Nat) (_ : SchedControl) (caller : Caller) (t : Tid)
    (s : Rtds) : Rtds :=
  let periodUs := max rtdsDefaultPeriodUs rtdsMinPeriodUs
  let budgetUs := min (max rtdsDefaultBudgetUs rtdsMinBudgetUs) periodUs
  s.modify t fun _ =>
    { periodTicks := usToTicks khz periodUs
      budgetTicks := usToTicks khz budgetUs
      remainingTicks := usToTicks khz budgetUs
      deadlineTicks := rtdsNextPeriodBoundary (caller.ticks 0) (usToTicks khz periodUs)
      lastStartTicks := 0
      queue := .none }

/-- `rtds_timer_handler`. The timer is one-shot: when it fires it is off. It
always requests a reschedule. -/
def timerHandler (ticks : Nat → Nat) (s : Rtds) : Bool × Rtds :=
  let now := ticks 0
  let s := { s with tickTimer := none }
  (true, refreshQueues c now (chargeCurrent c now s))

/-- `sched_rtds_suspend`. -/
def suspend : Rtds := { s with tickTimer := none }

end

end Rtds

/-- `struct acrn_scheduler sched_rtds`. -/
def schedRtds (khz : Nat) : AcrnScheduler Rtds where
  initData := Rtds.initData khz
  pickNext := Rtds.pickNext
  sleep := Rtds.sleep
  wake := Rtds.wake
  prioritize := some Rtds.prioritize
  timerHandler := Rtds.timerHandler
  suspend := Rtds.suspend

end Sima.Sched
