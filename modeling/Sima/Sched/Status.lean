import Mathlib.Logic.Relation
import Sima.Sched.Schedule

/-!
# Who runs and who waits

Of all that `schedule.c` keeps, a scheduler and its users need little: which
thread is current, the status of each, and who is about to block. `RunView` is
that much of a `SchedControl`. Every common function acts on it by a function of
the view alone, with no regard to the scheduler — only `schedule` has to be told
whom `pick_next` gave.

`RunView.Ok` is what holds of it at all times: the current thread is the one
that is RUNNING, and nobody else is about to block.

`Lawful` is the contract between the common code and a scheduler, in terms of
the view. `Lawful.step` then does the induction for any of them.
-/

namespace Sima.Sched

variable {σ : Type}

structure RunView where
  idle : Tid
  threadList : List Tid
  currObj : Option Tid
  status : Tid → ThreadState
  beBlocking : Tid → Bool

def SchedControl.view (c : SchedControl) : RunView where
  idle := c.idle
  threadList := c.threadList
  currObj := c.currObj
  status t := (c.obj t).status
  beBlocking t := (c.obj t).beBlocking

variable (c : SchedControl)

include c

@[simp] theorem SchedControl.view_idle : c.view.idle = c.idle := rfl
@[simp] theorem SchedControl.view_threadList : c.view.threadList = c.threadList := rfl
@[simp] theorem SchedControl.view_currObj : c.view.currObj = c.currObj := rfl
@[simp] theorem SchedControl.view_status (t : Tid) : c.view.status t = (c.obj t).status := rfl
@[simp] theorem SchedControl.view_beBlocking (t : Tid) :
    c.view.beBlocking t = (c.obj t).beBlocking := rfl

omit c

namespace RunView

section

variable (v : RunView) (t : Tid)

def setStatus (st : ThreadState) : RunView :=
  { v with status := Function.update v.status t st }

def setBlocking (b : Bool) : RunView :=
  { v with beBlocking := Function.update v.beBlocking t b }

/-- A thread is set up. -/
def init : RunView :=
  { (v.setStatus t .blocked).setBlocking t false with
    threadList := v.threadList ++ [t] }

/-- The first thread of the pCPU starts. -/
def run : RunView :=
  { v.setStatus t .running with currObj := some t }

def sleep : RunView :=
  if v.status t = .running then v.setBlocking t true else v.setStatus t .blocked

def wake : RunView :=
  if v.status t = .blocked then (v.setStatus t .runnable).setBlocking t false
  else v.setBlocking t false

/-- The current thread leaves the CPU. -/
def switchOut (prev : Tid) : RunView :=
  (v.setStatus prev (if v.beBlocking prev then .blocked else .runnable)).setBlocking prev false

def switchTo (next : Tid) : RunView :=
  if v.currObj = some next then v
  else
    let v := match v.currObj with
      | some prev => v.switchOut prev
      | none => v
    { v.setStatus next .running with currObj := some next }

end

end RunView

@[simp] theorem RunView.setStatus_self (v : RunView) (t : Tid) :
    v.setStatus t (v.status t) = v := by
  rw [setStatus, Function.update_eq_self]

@[simp] theorem RunView.setBlocking_self (v : RunView) (t : Tid) :
    v.setBlocking t (v.beBlocking t) = v := by
  rw [setBlocking, Function.update_eq_self]

/-! ## The common functions and the view -/

section

variable (S : AcrnScheduler σ) (caller : Caller) (ticks : Nat → Nat) (t : Tid) (p : Pcpu σ)
  {c : SchedControl} {st : ThreadState} {b : Bool}

theorem view_update {t : Tid} {f : ThreadObject → ThreadObject} (hs : (f (c.obj t)).status = st)
    (hb : (f (c.obj t)).beBlocking = b) :
    (c.update t f).view = (c.view.setStatus t st).setBlocking t b := by
  simp only [SchedControl.view, RunView.setStatus, RunView.setBlocking,
    SchedControl.update_idle, SchedControl.update_threadList,
    SchedControl.update_currObj, RunView.mk.injEq, true_and]
  constructor
  · funext u
    by_cases hu : u = t
    · subst hu
      simp [hs]
    · simp [hu]
  · funext u
    by_cases hu : u = t
    · subst hu
      simp [hb]
    · simp [hu]

theorem view_update_status {t : Tid} {f : ThreadObject → ThreadObject}
    (hs : (f (c.obj t)).status = st) (hb : (f (c.obj t)).beBlocking = (c.obj t).beBlocking) :
    (c.update t f).view = c.view.setStatus t st := by
  rw [view_update hs hb]
  exact (c.view.setStatus t st).setBlocking_self t

theorem view_update_blocking {t : Tid} {f : ThreadObject → ThreadObject}
    (hs : (f (c.obj t)).status = (c.obj t).status) (hb : (f (c.obj t)).beBlocking = b) :
    (c.update t f).view = c.view.setBlocking t b := by
  rw [view_update hs hb]
  congr 1
  exact c.view.setStatus_self t

@[simp] theorem view_makeRescheduleRequest : c.makeRescheduleRequest.view = c.view := rfl

@[simp] theorem view_clearReschedule (c : SchedControl) :
    (clearRescheduleIfCurrentOnly c).2.view = c.view := by
  rw [clearRescheduleIfCurrentOnly]
  split <;> rfl

theorem view_initThreadData : (initThreadData S caller t p).ctl.view = p.ctl.view.init t := by
  simp only [RunView.init]
  rw [← view_update (f := fun _ => ⟨.blocked, false, false,
    { stateSince := caller.ticks 1 }⟩) rfl rfl]
  rfl

theorem view_runThread : (runThread ticks t p).ctl.view = p.ctl.view.run t := by
  rw [runThread, view_update_status rfl rfl]
  rfl

theorem view_sleepThread : (sleepThread S caller t p).ctl.view = p.ctl.view.sleep t := by
  simp only [sleepThread, RunView.sleep]
  have hrun : ((p.ctl.obj t).isRunning = true) = (p.ctl.view.status t = .running) := by
    simp [ThreadObject.isRunning]
  simp only [hrun]
  split
  · rw [view_update_blocking rfl rfl]
    rfl
  · rw [view_update_status rfl rfl]

theorem sleepThread_priv : (sleepThread S caller t p).priv = S.sleep p.ctl caller t p.priv := by
  rw [sleepThread]
  split <;> rfl

theorem view_wakeThread : (wakeThread S caller t p).ctl.view = p.ctl.view.wake t := by
  simp only [wakeThread, RunView.wake]
  have hblk : ((p.ctl.obj t).isBlocked = true) = (p.ctl.view.status t = .blocked) := by
    simp [ThreadObject.isBlocked]
  simp only [Bool.or_eq_true, hblk]
  by_cases hb : p.ctl.view.status t = .blocked
  · rw [if_pos (.inl hb), if_pos hb, if_pos hb, view_update_blocking rfl rfl,
      view_makeRescheduleRequest, view_update_status rfl rfl]
  split
  · exact view_update_blocking rfl rfl
  rename_i h
  -- neither blocked nor about to be: there is nothing to clear
  have hneither : ¬ (p.ctl.obj t).status = .blocked ∧
      (p.ctl.obj t).beBlocking = false := by simpa using h
  rw [← hneither.2]
  exact (p.ctl.view.setBlocking_self t).symm

theorem view_requestThreadPriority : (requestThreadPriority S t p).ctl.view = p.ctl.view := by
  simp only [requestThreadPriority, view_makeRescheduleRequest]
  split
  · rw [view_update_status rfl rfl]
    exact p.ctl.view.setStatus_self t
  · rfl

theorem view_consumePriority : (consumePriority S caller t p).ctl.view = p.ctl.view := by
  have hflag : (p.ctl.update t fun o => { o with priorityPending := false }).view =
      p.ctl.view := by
    rw [view_update_status rfl rfl]
    exact p.ctl.view.setStatus_self t
  rw [consumePriority]
  split
  · split
    · split <;> exact hflag
    · exact hflag
  · rfl

theorem view_consumePriorities (ts : List Tid) :
    (consumePriorities S ticks ts p).ctl.view = p.ctl.view := by
  induction ts generalizing ticks p with
  | nil => rfl
  | cons t ts ih => rw [consumePriorities, ih, view_consumePriority]

/-- The state in which `schedule` calls `pick_next`. -/
def beforePick : Pcpu σ := consumePriorities S ticks p.ctl.threadList p

/-- The call of `pick_next` in `schedule`. -/
def pick : Tid × σ :=
  S.pickNext (beforePick S ticks p).ctl
    ⟨true, fun i => ticks (p.ctl.threadList.length + i)⟩ (beforePick S ticks p).priv

theorem view_beforePick : (beforePick S ticks p).ctl.view = p.ctl.view :=
  view_consumePriorities S ticks p p.ctl.threadList

theorem currObj_beforePick : (beforePick S ticks p).ctl.currObj = p.ctl.currObj :=
  congrArg RunView.currObj (view_beforePick S ticks p)

theorem view_switchTo {next : Tid} {now : Nat} (h : c.currObj ≠ some next) :
    (switchTo now next c).view = c.view.switchTo next := by
  have hview : c.view.currObj = c.currObj := rfl
  simp only [switchTo, RunView.switchTo, hview, if_neg h]
  cases hcur : c.currObj with
  | none =>
    show { (SchedControl.update c next _).view with currObj := some next } = _
    rw [view_update_status rfl rfl]
  | some prev =>
    show { (SchedControl.update (switchOut now prev c) next _).view with
      currObj := some next } = _
    rw [view_update_status rfl rfl, switchOut, view_update rfl rfl]
    rfl

theorem view_timerTick : (timerTick S ticks p).ctl.view = p.ctl.view := by
  simp only [timerTick]
  split <;> rfl

theorem schedule_priv : (schedule S ticks p).priv = (pick S ticks p).2 := by
  simp only [schedule]
  split <;> rfl

theorem view_schedule :
    (schedule S ticks p).ctl.view = p.ctl.view.switchTo (pick S ticks p).1 := by
  rw [← view_beforePick S ticks p]
  simp only [schedule]
  split
  · next h =>
    exact (if_pos h).symm
  · next h => exact view_switchTo h

end

/-! ## The current thread is the running one -/

structure RunView.Ok (v : RunView) : Prop where
  running : ∀ t ∈ v.threadList, v.status t = .running ↔ v.currObj = some t
  blocking : ∀ t ∈ v.threadList, v.beBlocking t = true → v.currObj = some t
  current : ∀ t, v.currObj = some t → t ∈ v.threadList
  idle : v.currObj ≠ none → v.idle ∈ v.threadList

namespace RunView

variable {v : RunView} {t u next : Tid}

/-- The two views differ in what they say of `t` at most. -/
structure SameOff (t : Tid) (v v' : RunView) : Prop where
  idle : v'.idle = v.idle
  threadList : v'.threadList = v.threadList
  currObj : v'.currObj = v.currObj
  status : ∀ u, u ≠ t → v'.status u = v.status u
  beBlocking : ∀ u, u ≠ t → v'.beBlocking u = v.beBlocking u

theorem sleep_sameOff (v : RunView) (t : Tid) : SameOff t v (v.sleep t) := by
  rw [sleep]
  split
  · exact ⟨rfl, rfl, rfl, fun _ _ => rfl, fun u hu => by simp [setBlocking, hu]⟩
  · exact ⟨rfl, rfl, rfl, fun u hu => by simp [setStatus, hu], fun _ _ => rfl⟩

theorem wake_sameOff (v : RunView) (t : Tid) : SameOff t v (v.wake t) := by
  rw [wake]
  split
  · exact ⟨rfl, rfl, rfl, fun u hu => by simp [setStatus, setBlocking, hu],
      fun u hu => by simp [setStatus, setBlocking, hu]⟩
  · exact ⟨rfl, rfl, rfl, fun _ _ => rfl, fun u hu => by simp [setBlocking, hu]⟩

theorem sleep_status_ne_runnable (v : RunView) (t : Tid) : (v.sleep t).status t ≠ .runnable := by
  rw [sleep]
  split
  · next h => simp [setBlocking, h]
  · simp [setStatus]

theorem wake_not_parked (v : RunView) (t : Tid) :
    ¬ ((v.wake t).status t = .blocked ∨ (v.wake t).beBlocking t = true) := by
  rw [wake]
  split
  · simp [setStatus, setBlocking]
  · next h => simp [setBlocking, h]

variable (h : v.Ok)

include h

theorem Ok.init (ht : t ∉ v.threadList) : (v.init t).Ok := by
  have hcur : v.currObj ≠ some t := fun hc => ht (h.current t hc)
  have hne : ∀ {u}, u ∈ v.threadList → u ≠ t := fun hu heq => ht (heq ▸ hu)
  simp only [RunView.init]
  refine ⟨fun u hu => ?_, fun u hu hb => ?_, fun u hu => ?_, fun hn => ?_⟩
  · rcases List.mem_append.mp hu with hu | hu
    · simpa [setStatus, setBlocking, hne hu] using h.running u hu
    · rw [List.mem_singleton.mp hu]
      simp [setStatus, setBlocking, hcur]
  · rcases List.mem_append.mp hu with hu | hu
    · exact h.blocking u hu (by simpa [setStatus, setBlocking, hne hu] using hb)
    · rw [List.mem_singleton.mp hu] at hb
      simp [setBlocking] at hb
  · exact List.mem_append_left _ (h.current u hu)
  · exact List.mem_append_left _ (h.idle hn)

theorem Ok.run (hcur : v.currObj = none) (ht : v.idle ∈ v.threadList) : (v.run v.idle).Ok := by
  refine ⟨fun u hu => ?_, fun u hu hb => ?_, fun u hu => ?_, fun _ => ht⟩
  · have hrun := h.running u hu
    rw [hcur] at hrun
    by_cases hut : u = v.idle
    · rw [hut]
      simp [RunView.run, setStatus]
    · simp only [RunView.run, setStatus, Function.update_of_ne hut]
      rw [hrun]
      simp [Ne.symm hut]
  · exact absurd (h.blocking u hu hb) (by rw [hcur]; simp)
  · have heq : v.idle = u := Option.some.inj hu
    exact heq ▸ ht

theorem Ok.sleep (ht : t ∈ v.threadList) : (v.sleep t).Ok := by
  rw [RunView.sleep]
  split
  · next hrun =>
    refine ⟨h.running, fun u hu hb => ?_, h.current, h.idle⟩
    by_cases hut : u = t
    · rw [hut]
      exact (h.running t ht).mp hrun
    · exact h.blocking u hu (by simpa [setBlocking, hut] using hb)
  · next hrun =>
    refine ⟨fun u hu => ?_, h.blocking, h.current, h.idle⟩
    by_cases hut : u = t
    · rw [hut]
      simpa [setStatus] using fun hc => hrun ((h.running t ht).mpr hc)
    · simpa [setStatus, hut] using h.running u hu

theorem Ok.setBlocking_false (t : Tid) : (v.setBlocking t false).Ok := by
  refine ⟨h.running, fun u hu hb => ?_, h.current, h.idle⟩
  by_cases hut : u = t
  · rw [hut] at hb
    simp [setBlocking] at hb
  · exact h.blocking u hu (by simpa [setBlocking, hut] using hb)

theorem Ok.setStatus {st : ThreadState} (hrun : v.status t ≠ .running) (hst : st ≠ .running) :
    (v.setStatus t st).Ok := by
  refine ⟨fun u hu => ?_, h.blocking, h.current, h.idle⟩
  by_cases hut : u = t
  · subst hut
    simpa [RunView.setStatus, hst] using fun hc => hrun ((h.running u hu).mpr hc)
  · simpa [RunView.setStatus, hut] using h.running u hu

theorem Ok.wake (t : Tid) : (v.wake t).Ok := by
  rw [RunView.wake]
  split
  · next hb => exact (h.setStatus (by simp [hb]) (by simp)).setBlocking_false t
  · exact h.setBlocking_false t

omit h

theorem switchTo_threadList (v : RunView) (next : Tid) :
    (v.switchTo next).threadList = v.threadList := by
  rw [switchTo]
  split
  · rfl
  · cases v.currObj <;> rfl

theorem switchTo_currObj (v : RunView) (next : Tid) : (v.switchTo next).currObj = some next := by
  rw [switchTo]
  split
  · next h => exact h
  · rfl

theorem switchTo_idle (v : RunView) (next : Tid) : (v.switchTo next).idle = v.idle := by
  rw [switchTo]
  split
  · rfl
  · cases v.currObj <;> rfl

theorem switchTo_eq (h : v.currObj = some t) (hne : t ≠ next) : v.switchTo next =
    { (v.switchOut t).setStatus next .running with currObj := some next } := by
  rw [switchTo, if_neg (by rw [h]; simpa using hne)]
  simp [h]

theorem switchTo_status (h : v.currObj = some t) (hne : t ≠ next) (u : Tid) :
    (v.switchTo next).status u = if u = next then .running
      else if u = t then (if v.beBlocking t then .blocked else .runnable) else v.status u := by
  simp only [switchTo_eq h hne, switchOut, RunView.setStatus, setBlocking]
  by_cases hun : u = next
  · simp [hun]
  by_cases hut : u = t
  · rw [hut] at hun ⊢
    simp [hun]
  · simp [hun, hut]

theorem switchTo_beBlocking (h : v.currObj = some t) (hne : t ≠ next) (u : Tid) :
    (v.switchTo next).beBlocking u = if u = t then false else v.beBlocking u := by
  simp only [switchTo_eq h hne, switchOut, RunView.setStatus, setBlocking]
  by_cases hut : u = t <;> simp [hut]

theorem Ok.switchTo (h : v.Ok) (hcur : v.currObj ≠ none)
    (hnext : next ∈ v.threadList) : (v.switchTo next).Ok := by
  obtain ⟨prev, hprev⟩ := Option.ne_none_iff_exists'.mp hcur
  by_cases hsame : prev = next
  · rw [RunView.switchTo, if_pos (by rw [hprev, hsame])]
    exact h
  refine ⟨fun u hu => ?_, fun u hu hb => ?_, fun u hu => ?_, fun _ => ?_⟩
  · rw [switchTo_threadList] at hu
    rw [switchTo_status hprev hsame, switchTo_currObj]
    by_cases hun : u = next
    · simp [hun]
    rw [if_neg hun]
    -- whoever else ran was `prev`, and it does not any more
    have hrun := h.running u hu
    rw [hprev] at hrun
    by_cases hut : u = prev
    · rw [if_pos hut]
      split <;> simp [Ne.symm hun]
    · rw [if_neg hut, hrun]
      simp [Ne.symm hun, Ne.symm hut]
  · rw [switchTo_threadList] at hu
    rw [switchTo_beBlocking hprev hsame] at hb
    split at hb
    · cases hb
    rename_i hut
    have hc := h.blocking u hu hb
    rw [hprev] at hc
    exact absurd (Option.some.inj hc).symm hut
  · rw [switchTo_currObj] at hu
    rw [switchTo_threadList]
    exact Option.some.inj hu ▸ hnext
  · rw [switchTo_threadList, switchTo_idle]
    exact h.idle hcur

end RunView

/-! ## The contract of a scheduler -/

/-- The calls that a pCPU goes through: those of the common functions, and the
timer of the scheduler. -/
inductive SchedOp where
  | initThreadData (t : Tid)
  | runIdle
  | sleepThread (t : Tid)
  | wakeThread (t : Tid)
  | requestThreadPriority (t : Tid)
  | schedule
  | timerTick

/-- One step of a pCPU. Threads are set up once; the idle thread starts first,
and only a running thread calls `schedule`. -/
inductive SchedStep (S : AcrnScheduler σ) : SchedOp → Pcpu σ → Pcpu σ → Prop where
  | initThreadData (caller : Caller) {t : Tid} {p : Pcpu σ} :
      t ∉ p.ctl.threadList →
      SchedStep S (.initThreadData t) p (initThreadData S caller t p)
  | runIdle (ticks : Nat → Nat) {p : Pcpu σ} : p.ctl.currObj = none →
      p.ctl.idle ∈ p.ctl.threadList →
      SchedStep S .runIdle p (runThread ticks p.ctl.idle p)
  | sleepThread (caller : Caller) {t : Tid} {p : Pcpu σ} :
      t ∈ p.ctl.threadList → SchedStep S (.sleepThread t) p (sleepThread S caller t p)
  | wakeThread (caller : Caller) {t : Tid} {p : Pcpu σ} :
      t ∈ p.ctl.threadList → SchedStep S (.wakeThread t) p (wakeThread S caller t p)
  | requestThreadPriority {t : Tid} {p : Pcpu σ} : t ∈ p.ctl.threadList →
      SchedStep S (.requestThreadPriority t) p (requestThreadPriority S t p)
  | schedule (ticks : Nat → Nat) {p : Pcpu σ} : p.ctl.currObj ≠ none →
      SchedStep S .schedule p (schedule S ticks p)
  | timerTick (ticks : Nat → Nat) {p : Pcpu σ} : p.ctl.currObj ≠ none →
      SchedStep S .timerTick p (timerTick S ticks p)

/-- Any of them. -/
abbrev SchedRun (S : AcrnScheduler σ) : Pcpu σ → Pcpu σ → Prop :=
  Relation.ReflTransGen fun p p' => ∃ op, SchedStep S op p p'

/-- What the common code relies on in a scheduler. `I` is its invariant while
the lock is free, and `M` what is left of it between the priority requests and
`pick_next` in `schedule`. -/
structure Lawful (S : AcrnScheduler σ) (I M : RunView → σ → Prop) : Prop where
  initData : ∀ {c caller t s}, t ∉ c.threadList → c.view.Ok → I c.view s →
    I (c.view.init t) (S.initData c caller t s)
  run : ∀ {v s}, v.currObj = none → v.Ok → I v s → I (v.run v.idle) s
  sleep : ∀ {c caller t s}, t ∈ c.threadList → c.view.Ok → I c.view s →
    I (c.view.sleep t) (S.sleep c caller t s)
  wake : ∀ {c caller t s}, t ∈ c.threadList →
    c.view.status t = .blocked ∨ c.view.beBlocking t = true → c.view.Ok →
    I c.view s → I (c.view.wake t) (S.wake c caller t s)
  enter : ∀ {v s}, I v s → M v s
  prioritize : ∀ {f c caller t s}, S.prioritize = some f → t ∈ c.threadList →
    c.view.status t ≠ .blocked → c.view.beBlocking t = false → c.view.Ok →
    M c.view s → M c.view (f c caller t s)
  member : ∀ {c caller s}, c.currObj ≠ none → c.view.Ok → M c.view s →
    (S.pickNext c caller s).1 ∈ c.threadList
  /-- The thread that is picked can run, or it is the idle one. -/
  canRun : ∀ {c caller s}, c.currObj ≠ none → c.view.Ok → M c.view s →
    (S.pickNext c caller s).1 = c.idle ∨
      (c.view.status (S.pickNext c caller s).1 ≠ .blocked ∧
        c.view.beBlocking (S.pickNext c caller s).1 = false)
  switch : ∀ {c caller s}, c.currObj ≠ none → c.view.Ok → M c.view s →
    I (c.view.switchTo (S.pickNext c caller s).1) (S.pickNext c caller s).2
  timerHandler : ∀ {c ticks s}, c.currObj ≠ none → c.view.Ok → I c.view s →
    I c.view (S.timerHandler c ticks s).2

variable {S : AcrnScheduler σ} {I M : RunView → σ → Prop} {p p' : Pcpu σ}
  {op : SchedOp}

variable (h : Lawful S I M)

include h

theorem Lawful.consumePriority (caller : Caller) {t : Tid} (ht : t ∈ p.ctl.threadList)
    (hok : p.ctl.view.Ok) (hM : M p.ctl.view p.priv) :
    M p.ctl.view (consumePriority S caller t p).priv := by
  rw [Sched.consumePriority]
  split
  · cases hS : S.prioritize with
    | none => exact hM
    | some f =>
      simp only
      split
      · next hcan =>
        have hview : (p.ctl.update t fun o =>
            { o with priorityPending := false }).view = p.ctl.view := by
          rw [view_update_status rfl rfl]
          exact p.ctl.view.setStatus_self t
        obtain ⟨hrun, hblk⟩ := Bool.and_eq_true_iff.mp hcan
        rw [← hview] at hok hM ⊢
        refine h.prioritize hS ht ?_ ?_ hok hM
        · rw [hview]
          intro hc
          have hst : (p.ctl.obj t).status = .blocked := hc
          simp [ThreadObject.isRunnableOrRunning, hst] at hrun
        · simpa using hblk
      · exact hM
  · exact hM

theorem Lawful.consumePriorities {ticks : Nat → Nat} {ts : List Tid}
    (hts : ∀ t ∈ ts, t ∈ p.ctl.threadList) (hok : p.ctl.view.Ok) (hM : M p.ctl.view p.priv) :
    M p.ctl.view (consumePriorities S ticks ts p).priv := by
  induction ts generalizing ticks p with
  | nil => exact hM
  | cons t ts ih =>
    have hview := view_consumePriority S ⟨true, ticks⟩ t p
    have hlist : ∀ u ∈ ts, u ∈ (Sched.consumePriority S ⟨true, ticks⟩ t p).ctl.threadList := by
      intro u hu
      have : u ∈ p.ctl.view.threadList := hts u (List.mem_cons_of_mem _ hu)
      rw [← hview] at this
      exact this
    have hstep := h.consumePriority ⟨true, ticks⟩ (hts t (by simp)) hok hM
    rw [← hview] at hok hstep ⊢
    exact ih hlist hok hstep

/-- Between calls `schedule` keeps the invariant, and whom it picked could
run. -/
theorem Lawful.schedule (ticks : Nat → Nat) (hcur : p.ctl.currObj ≠ none) (hok : p.ctl.view.Ok)
    (hI : I p.ctl.view p.priv) :
    (schedule S ticks p).ctl.view.Ok ∧ I (schedule S ticks p).ctl.view (schedule S ticks p).priv ∧
      ((pick S ticks p).1 = p.ctl.idle ∨ (p.ctl.view.status (pick S ticks p).1 ≠ .blocked ∧
          p.ctl.view.beBlocking (pick S ticks p).1 = false)) := by
  have hview := view_beforePick S ticks p
  have hM : M (beforePick S ticks p).ctl.view (beforePick S ticks p).priv := by
    rw [hview]
    exact h.consumePriorities (fun _ => id) hok (h.enter hI)
  have hcur' : (beforePick S ticks p).ctl.currObj ≠ none := by
    have : (beforePick S ticks p).ctl.view.currObj = p.ctl.currObj := by rw [hview]; rfl
    exact fun hc => hcur (this.symm.trans hc)
  rw [view_schedule, schedule_priv, ← hview]
  rw [← hview] at hok
  refine ⟨hok.switchTo hcur' (h.member hcur' hok hM), h.switch hcur' hok hM, ?_⟩
  have hidle : p.ctl.idle = (beforePick S ticks p).ctl.idle := by
    have : (beforePick S ticks p).ctl.view.idle = p.ctl.idle := by rw [hview]; rfl
    exact this.symm
  rw [hidle]
  exact h.canRun hcur' hok hM

theorem Lawful.step (hstep : SchedStep S op p p') (hok : p.ctl.view.Ok)
    (hI : I p.ctl.view p.priv) : p'.ctl.view.Ok ∧ I p'.ctl.view p'.priv := by
  cases hstep with
  | initThreadData caller ht =>
    rw [view_initThreadData]
    exact ⟨hok.init ht, h.initData ht hok hI⟩
  | runIdle ticks hcur hidle =>
    rw [view_runThread]
    exact ⟨hok.run hcur hidle, h.run hcur hok hI⟩
  | @sleepThread caller t _ ht =>
    rw [view_sleepThread, sleepThread_priv]
    exact ⟨hok.sleep ht, h.sleep ht hok hI⟩
  | @wakeThread caller t _ ht =>
    refine ⟨by rw [view_wakeThread]; exact hok.wake t, ?_⟩
    by_cases hw : ((p.ctl.obj t).isBlocked || (p.ctl.obj t).beBlocking) = true
    · rw [view_wakeThread, Sched.wakeThread, if_pos hw]
      refine h.wake ht ?_ hok hI
      simpa [ThreadObject.isBlocked] using hw
    · rw [Sched.wakeThread, if_neg hw]
      exact hI
  | requestThreadPriority ht =>
    rw [view_requestThreadPriority]
    exact ⟨hok, hI⟩
  | schedule ticks hcur =>
    obtain ⟨hok', hI', -⟩ := h.schedule ticks hcur hok hI
    exact ⟨hok', hI'⟩
  | timerTick ticks hcur =>
    rw [view_timerTick]
    exact ⟨hok, h.timerHandler (c := p.ctl.accountTick) hcur hok hI⟩

theorem Lawful.reach (hrun : SchedRun S p p') (hok : p.ctl.view.Ok) (hI : I p.ctl.view p.priv) :
    p'.ctl.view.Ok ∧ I p'.ctl.view p'.priv := by
  induction hrun with
  | refl => exact ⟨hok, hI⟩
  | tail _ hstep ih =>
    obtain ⟨op, hstep⟩ := hstep
    exact h.step hstep ih.1 ih.2

omit h

end Sima.Sched
