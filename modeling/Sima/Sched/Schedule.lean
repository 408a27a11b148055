import Mathlib.Data.BitVec
import Mathlib.Logic.Function.Basic
import Mathlib.Data.List.Basic

/-!
# The common scheduler (`core/schedule.c`)

One physical CPU has one `sched_control`, and every thread object belongs to one
pCPU for good: `pcpu_id` is written when the thread is set up and never again.
So the global `thread_list` is taken apart here. `threadList` holds the threads
of this pCPU in list order — every loop of the source skips the others.

A scheduler is a table of hooks over state of its own: the run queues behind
`ctl->priv` and the `data` of each thread. The hooks read the common state and
return only theirs, and the types say so. What a scheduler cannot touch — who is
RUNNING, who is about to block, who is current — needs no proof about it.

Every function below runs under the scheduler lock from its first line to its
last, except `request_thread_priority`, which only sets flags. So one
application is one step of the pCPU.

The clock is an argument: `ticks i` is what `cpu_ticks()` gives at the `i`-th
place of the call where it may be read.
-/

namespace Sima.Sched

/-- A thread object, by its address. -/
abbrev Tid := Nat

/-- `enum thread_object_state`. -/
inductive ThreadState where
  | running
  | runnable
  | blocked
deriving DecidableEq, Repr

/-- `struct sched_latency_stats`. -/
structure LatencyStats where
  switches : Nat := 0
  lastWaitTicks : Nat := 0
  maxWaitTicks : Nat := 0
  stateSince : Nat := 0
  runnableSince : Nat := 0
  runtimeTicks : Nat := 0
deriving DecidableEq, Repr

structure ThreadObject where
  status : ThreadState
  beBlocking : Bool
  priorityPending : Bool
  latency : LatencyStats
deriving DecidableEq, Repr

namespace ThreadObject

def isBlocked (o : ThreadObject) : Bool := o.status == .blocked

def isRunning (o : ThreadObject) : Bool := o.status == .running

def isRunnableOrRunning (o : ThreadObject) : Bool :=
  o.status == .running || o.status == .runnable

end ThreadObject

/-- `struct sched_control`, with the thread objects of the pCPU. -/
structure SchedControl where
  idle : Tid
  threadList : List Tid
  obj : Tid → ThreadObject
  currObj : Option Tid
  needReschedule : Bool
  schedulerTicks : Nat
  contextSwitches : Nat
  rescheduleRequests : Nat

/-- Where a hook is called from: on the pCPU it works for or on another one,
and what it reads from the clock. -/
structure Caller where
  here : Bool
  ticks : Nat → Nat

/-- `struct acrn_scheduler`. A NULL hook does nothing — a NULL `pick_next` gives
the idle thread. Only for `prioritize` does the common code ask whether it is
there. `timerHandler` is the callback of the timer that the scheduler sets up
for itself; it says whether it requests a reschedule. -/
structure AcrnScheduler (σ : Type) where
  initData : SchedControl → Caller → Tid → σ → σ
  pickNext : SchedControl → Caller → σ → Tid × σ
  sleep : SchedControl → Caller → Tid → σ → σ
  wake : SchedControl → Caller → Tid → σ → σ
  prioritize : Option (SchedControl → Caller → Tid → σ → σ)
  timerHandler : SchedControl → (Nat → Nat) → σ → Bool × σ
  suspend : σ → σ := fun s => s

/-- A pCPU: the common state, and the state of its scheduler. -/
structure Pcpu (σ : Type) where
  ctl : SchedControl
  priv : σ

variable {σ : Type}

namespace SchedControl

def update (c : SchedControl) (t : Tid) (f : ThreadObject → ThreadObject) :
    SchedControl :=
  { c with obj := Function.update c.obj t (f (c.obj t)) }

variable (c : SchedControl) (t u : Tid) (f : ThreadObject → ThreadObject)

@[simp] theorem update_self : (c.update t f).obj t = f (c.obj t) := by
  simp [update]

@[simp] theorem update_of_ne {c : SchedControl} {t u : Tid}
    {f : ThreadObject → ThreadObject} (h : u ≠ t) : (c.update t f).obj u = c.obj u := by
  simp [update, h]

@[simp] theorem update_idle : (c.update t f).idle = c.idle := rfl
@[simp] theorem update_threadList : (c.update t f).threadList = c.threadList := rfl
@[simp] theorem update_currObj : (c.update t f).currObj = c.currObj := rfl

def isIdleThread (c : SchedControl) (t : Tid) : Bool := t == c.idle

/-- `make_reschedule_request`. The interrupt that it sends to another pCPU is
not state of the scheduler. -/
def makeRescheduleRequest (c : SchedControl) : SchedControl :=
  { c with
    rescheduleRequests := c.rescheduleRequests + 1
    needReschedule := true }

@[simp] theorem makeRescheduleRequest_obj : c.makeRescheduleRequest.obj = c.obj := rfl
@[simp] theorem makeRescheduleRequest_idle : c.makeRescheduleRequest.idle = c.idle := rfl
@[simp] theorem makeRescheduleRequest_threadList :
    c.makeRescheduleRequest.threadList = c.threadList := rfl
@[simp] theorem makeRescheduleRequest_currObj : c.makeRescheduleRequest.currObj = c.currObj := rfl

/-- `sched_account_tick`. -/
def accountTick (c : SchedControl) : SchedControl :=
  { c with schedulerTicks := c.schedulerTicks + 1 }

end SchedControl

/-! ## Run time accounting -/

namespace LatencyStats

def uint64Max : Nat := 2 ^ 64 - 1

section

variable (now : Nat) (l : LatencyStats)

/-- `sched_add_runtime`: the sum saturates. -/
def addRuntime (ticks : Nat) : LatencyStats :=
  { l with runtimeTicks :=
      if uint64Max - l.runtimeTicks < ticks then uint64Max
      else l.runtimeTicks + ticks }

/-- `sched_mark_runnable`. -/
def markRunnable : LatencyStats :=
  { l with stateSince := now, runnableSince := now }

/-- `sched_mark_blocked`. -/
def markBlocked : LatencyStats :=
  { l with stateSince := now, runnableSince := 0 }

/-- `sched_mark_running`. -/
def markRunning : LatencyStats :=
  let waited := now - l.runnableSince
  let l :=
    if l.runnableSince ≠ 0 then
      { l with
        lastWaitTicks := waited
        maxWaitTicks := if l.maxWaitTicks < waited then waited else l.maxWaitTicks }
    else l
  { l with switches := l.switches + 1, stateSince := now, runnableSince := 0 }

/-- `sched_mark_not_running`. -/
def markNotRunning (runnable : Bool) (l : LatencyStats) : LatencyStats :=
  let l := if l.stateSince ≠ 0 then l.addRuntime (now - l.stateSince) else l
  { l with stateSince := now, runnableSince := if runnable then now else 0 }

end

end LatencyStats

/-! ## Threads come and go -/

/-- `init_sched`, before any thread is set up. `obj` is what the thread objects
hold before that. -/
def initSched (idle : Tid) (obj : Tid → ThreadObject) (priv : σ) : Pcpu σ where
  ctl :=
    { idle := idle
      threadList := []
      obj := obj
      currObj := none
      needReschedule := false
      schedulerTicks := 0
      contextSwitches := 0
      rescheduleRequests := 0 }
  priv := priv

section

variable (c : SchedControl) (S : AcrnScheduler σ) (ticks : Nat → Nat) (caller : Caller) (t : Tid)
    (p : Pcpu σ)

/-- `init_thread_data` on a thread object that was zeroed before. It does not
look at `be_blocking`, so the flag is the zero it was. For a thread that was set
up before, the list is not this one any more (`ThreadList`). -/
def initThreadData : Pcpu σ :=
  let priv := S.initData p.ctl caller t p.priv
  let ctl := p.ctl.update t fun _ =>
    { status := .blocked
      beBlocking := false
      priorityPending := false
      latency := { stateSince := caller.ticks 1 } }
  ⟨{ ctl with threadList := ctl.threadList ++ [t] }, priv⟩

/-- `run_thread` up to the call of `thread_entry`. -/
def runThread : Pcpu σ :=
  let ctl := { p.ctl with currObj := some t }
  ⟨ctl.update t fun o =>
    { o with status := .running, latency := o.latency.markRunning (ticks 0) },
    p.priv⟩

/-! ## Sleep and wake -/

/-- `sleep_thread`. The two readings of the hook come first. -/
def sleepThread : Pcpu σ :=
  let priv := S.sleep p.ctl caller t p.priv
  if (p.ctl.obj t).isRunning then
    -- it runs on: blocking takes effect when `schedule` switches it out
    ⟨p.ctl.makeRescheduleRequest.update t fun o => { o with beBlocking := true }, priv⟩
  else
    ⟨p.ctl.update t fun o =>
      { o with
        status := .blocked
        latency := o.latency.markBlocked (caller.ticks 2) }, priv⟩

def wakeThread : Pcpu σ :=
  if (p.ctl.obj t).isBlocked || (p.ctl.obj t).beBlocking then
    let priv := S.wake p.ctl caller t p.priv
    let ctl :=
      if (p.ctl.obj t).isBlocked then
        (p.ctl.update t fun o =>
          { o with
            status := .runnable
            latency := o.latency.markRunnable (caller.ticks 2) }).makeRescheduleRequest
      else p.ctl
    ⟨ctl.update t fun o => { o with beBlocking := false }, priv⟩
  else p

def requestThreadPriority : Pcpu σ :=
  let ctl :=
    if S.prioritize.isSome then
      p.ctl.update t fun o => { o with priorityPending := true }
    else p.ctl
  ⟨ctl.makeRescheduleRequest, p.priv⟩

/-! ## The switch -/

/-- One turn of the first loop of `schedule`: a pending priority request is
used up, and passed on if the thread can run. -/
def consumePriority : Pcpu σ :=
  if (p.ctl.obj t).priorityPending then
    let ctl := p.ctl.update t fun o => { o with priorityPending := false }
    match S.prioritize with
    | some prioritize =>
      if (p.ctl.obj t).isRunnableOrRunning && !(p.ctl.obj t).beBlocking then
        ⟨ctl, prioritize ctl caller t p.priv⟩
      else ⟨ctl, p.priv⟩
    | none => ⟨ctl, p.priv⟩
  else p

/-- The first loop of `schedule`, over the rest `ts` of the thread list. -/
def consumePriorities (S : AcrnScheduler σ) (ticks : Nat → Nat) :
    List Tid → Pcpu σ → Pcpu σ
  | [], p => p
  | t :: ts, p =>
    consumePriorities S (fun i => ticks (i + 1)) ts (consumePriority S ⟨true, ticks⟩ t p)

/-- `prev` stops running, as BLOCKED if it asked for that. -/
def switchOut (now : Nat) (prev : Tid) (c : SchedControl) : SchedControl :=
  c.update prev fun o =>
    { o with
      status := if o.beBlocking then .blocked else .runnable
      beBlocking := false
      latency := o.latency.markNotRunning now !o.beBlocking }

/-- The status changes of a context switch to `next`. -/
def switchTo (now : Nat) (next : Tid) (c : SchedControl) : SchedControl :=
  let c := match c.currObj with
    | some prev => switchOut now prev c
    | none => c
  let c := c.update next fun o =>
    { o with status := .running, latency := o.latency.markRunning now }
  { c with currObj := some next, contextSwitches := c.contextSwitches + 1 }

/-- `schedule`. The stack switch at its end is not part of the state: whoever
runs next is `currObj`. -/
def schedule : Pcpu σ :=
  let n := p.ctl.threadList.length
  let p := consumePriorities S ticks p.ctl.threadList p
  let (next, priv) := S.pickNext p.ctl ⟨true, fun i => ticks (n + i)⟩ p.priv
  let ctl := { p.ctl with needReschedule := false }
  if ctl.currObj = some next then ⟨ctl, priv⟩
  else ⟨switchTo (ticks (n + 3)) next ctl, priv⟩

/-- The callback of the scheduler's timer, under the lock: the tick is counted
whatever the scheduler does with it. -/
def timerTick : Pcpu σ :=
  let ctl := p.ctl.accountTick
  let (request, priv) := S.timerHandler ctl ticks p.priv
  ⟨if request then ctl.makeRescheduleRequest else ctl, priv⟩

/-! ## The shortcut for a pCPU with one runnable thread -/

/-- The loop of `sched_current_is_only_runnable_locked`. -/
def onlyRunnableLoop (c : SchedControl) (current : Tid) : List Tid → Nat → Bool
  | [], runnable => runnable == 1
  | t :: ts, runnable =>
    if c.isIdleThread t || (c.obj t).beBlocking ||
        !(c.obj t).isRunnableOrRunning then
      onlyRunnableLoop c current ts runnable
    else if runnable + 1 > 1 || t != current then false
    else onlyRunnableLoop c current ts (runnable + 1)

/-- `sched_current_is_only_runnable_locked`. -/
def currentIsOnlyRunnable : Bool :=
  match c.currObj with
  | none => false
  | some current =>
    if c.isIdleThread current || (c.obj current).beBlocking ||
        !(c.obj current).isRunnableOrRunning then false
    else onlyRunnableLoop c current c.threadList 0

/-- `sched_clear_reschedule_if_current_only`. -/
def clearRescheduleIfCurrentOnly : Bool × SchedControl :=
  if c.needReschedule && currentIsOnlyRunnable c then
    (true, { c with needReschedule := false })
  else (false, c)

end

end Sima.Sched
