import Sima.Sched.RtdsEdf

/-!
# Every choice of RTDS

The ready queue is sorted whenever the lock is free, in every run on a clock
that does not go back, and so `sched_rtds_pick_next` makes the choice that
`EdfChoice` asks for, each time that `schedule` calls it.
-/

namespace Sima.Sched

open Lib SchedOp Sched SchedControl

/-! ## Nobody prioritizes the idle thread -/

def Unasked (c : SchedControl) : Prop :=
  c.idle ∈ c.threadList → (c.obj c.idle).priorityPending = false

section

variable {σ : Type} {S : AcrnScheduler σ} {c : SchedControl} {t : Tid} {p : Pcpu σ}
  {caller : Caller} {ticks : Nat → Nat} {f : ThreadObject → ThreadObject}

variable (h : Unasked c)

include h

theorem Unasked.update
    (hf : c.idle ∈ c.threadList → t = c.idle → (f (c.obj t)).priorityPending = false) :
    Unasked (c.update t f) := by
  intro hmem
  rw [update_idle]
  by_cases ht : c.idle = t
  · rw [ht, update_self]
    exact hf hmem ht.symm
  · rw [update_of_ne ht]
    exact h hmem

theorem Unasked.keep (hf : (f (c.obj t)).priorityPending = (c.obj t).priorityPending) :
    Unasked (c.update t f) :=
  h.update fun hmem ht => by
    rw [hf, ht]
    exact h hmem

theorem Unasked.of_eq {c' : SchedControl} (hobj : c'.obj = c.obj) (hidle : c'.idle = c.idle)
    (hlist : c'.threadList = c.threadList) : Unasked c' := by
  rw [Unasked, hobj, hidle, hlist]
  exact h

theorem Unasked.request : Unasked c.makeRescheduleRequest := h

omit h

theorem Unasked.consumePriority (h : Unasked p.ctl) :
    Unasked (consumePriority S caller t p).ctl := by
  have hclear : Unasked (p.ctl.update t fun o => { o with priorityPending := false }) :=
    h.update fun _ _ => rfl
  rw [Sched.consumePriority]
  split
  · split
    · split <;> exact hclear
    · exact hclear
  · exact h

theorem Unasked.consumePriorities (h : Unasked p.ctl) (ts : List Tid) :
    Unasked (consumePriorities S ticks ts p).ctl := by
  induction ts generalizing ticks p with
  | nil => exact h
  | cons t ts ih => exact ih h.consumePriority

theorem Unasked.switchTo (h : Unasked c) (now : Nat) (next : Tid) :
    Unasked (switchTo now next c) := by
  rw [Sched.switchTo]
  split
  next prev _ =>
      have hout : Unasked (switchOut now prev c) := h.keep rfl
      exact (hout.keep (f := fun o => { o with
        status := .running, latency := o.latency.markRunning now }) rfl).of_eq rfl rfl rfl
  next =>
      exact (h.keep (f := fun o => { o with
        status := .running, latency := o.latency.markRunning now }) rfl).of_eq rfl rfl rfl

theorem Unasked.schedule (h : Unasked p.ctl) : Unasked (schedule S ticks p).ctl := by
  have hbefore : Unasked (beforePick S ticks p).ctl := h.consumePriorities _
  rw [Sched.schedule]
  simp only
  split
  · exact hbefore
  · exact .switchTo (c := { (beforePick S ticks p).ctl with
      needReschedule := false }) hbefore _ _

theorem Unasked.apply {op : SchedOp} (h : Unasked p.ctl) (hal : op.Allowed p.ctl) :
    Unasked (op.apply S caller p).ctl := by
  cases op with
  | initThreadData t =>
    intro hmem
    simp only [SchedOp.apply, initThreadData] at hmem ⊢
    by_cases ht : p.ctl.idle = t
    · rw [update_idle, ht, update_self]
    · rw [update_idle, update_of_ne ht]
      exact h (by simpa [ht] using hmem)
  | runIdle => exact .keep h rfl
  | sleepThread t =>
    simp only [SchedOp.apply, sleepThread]
    split
    · exact .keep h rfl
    · exact .keep h rfl
  | wakeThread t =>
    simp only [SchedOp.apply, wakeThread]
    split
    · refine .keep ?_ rfl
      split
      · exact .request (h.keep rfl)
      · exact h
    · exact h
  | requestThreadPriority t =>
    have hne : t ≠ p.ctl.idle := hal.2
    simp only [SchedOp.apply, requestThreadPriority]
    split
    · exact .request (h.update fun _ heq => absurd heq hne)
    · exact h
  | schedule => exact h.schedule
  | timerTick =>
    simp only [SchedOp.apply, timerTick]
    split <;> exact h

end

/-! ## Every run -/

open Rtds

/-- What holds of an RTDS pCPU while the lock is free. -/
structure RtdsState (khz : Nat) (s : Clocked Rtds) : Prop where
  ok : s.pcpu.ctl.view.Ok
  free : LockFree s.pcpu.ctl.view s.pcpu.priv
  edf : EdfOk (rtdsPeriodTicks khz) s.now s.pcpu.ctl.view s.pcpu.priv
  unasked : Unasked s.pcpu.ctl

variable {khz hi : Nat} {s s' : Clocked Rtds} {ticks : Nat → Nat} {op : ClockOp}

variable (h : RtdsState khz s)

include h

variable (hkhz : 0 < khz)

include hkhz

/-- The priority requests leave everybody but the current thread in order. -/
theorem RtdsState.beforePick (hcur : s.pcpu.ctl.currObj ≠ none) (hr : Readings s.now hi ticks) :
    MidRanked (rtdsPeriodTicks khz) (ticks s.pcpu.ctl.threadList.length)
      s.pcpu.ctl.view (beforePick (schedRtds khz) ticks s.pcpu).priv := by
  have hp := rtdsPeriodTicks_pos hkhz
  refine (consumePriorities_inv
    (P := fun n p => p.ctl.view = s.pcpu.ctl.view ∧ Unasked p.ctl ∧
      MidRanked (rtdsPeriodTicks khz) n s.pcpu.ctl.view p.priv) hr.mono
    (fun hP hle => ⟨hP.1, hP.2.1, hP.2.2.later hle⟩) ?_ (fun _ => id)
    ⟨rfl, h.unasked, (h.edf.midRanked h.free).later hr.first⟩).2.2
  intro t p caller ht ⟨hview, hun, hmid⟩
  refine ⟨(view_consumePriority _ caller t p).trans hview, hun.consumePriority, ?_⟩
  rw [consumePriority]
  split
  · next hpend =>
    have hidle : p.ctl.idle = s.pcpu.ctl.idle := congrArg RunView.idle hview
    have hmem : p.ctl.idle ∈ p.ctl.threadList := by
      have hlist : p.ctl.threadList = s.pcpu.ctl.threadList := congrArg RunView.threadList hview
      rw [hidle, hlist]
      exact h.ok.idle hcur
    have hne : t ≠ p.ctl.idle := by
      intro heq
      rw [heq, hun hmem] at hpend
      cases hpend
    simp only [schedRtds]
    split
    · next hcan =>
      obtain ⟨hrun, hblk⟩ := Bool.and_eq_true_iff.mp hcan
      have hclear : (p.ctl.update t fun o => { o with priorityPending := false }).view
          = s.pcpu.ctl.view := by
        rw [view_update_status rfl rfl, ← hview]
        exact p.ctl.view.setStatus_self t
      rw [← hclear] at hmid ⊢
      have hlist : t ∈ p.ctl.threadList := by
        have : t ∈ p.ctl.view.threadList := by rw [hview]; exact ht
        exact this
      refine hmid.prioritize hp hlist hne ?_ rfl
      rw [hclear, ← hview]
      rintro (hst | hb)
      · have hst : (p.ctl.obj t).status = .blocked := hst
        simp [ThreadObject.isRunnableOrRunning, hst] at hrun
      · have hb : (p.ctl.obj t).beBlocking = true := hb
        simp [hb] at hblk
    · exact hmid
  · exact hmid

theorem RtdsState.pick (hcur : s.pcpu.ctl.currObj ≠ none) (hr : Readings s.now hi ticks) :
    let p := Sched.beforePick (schedRtds khz) ticks s.pcpu
    let n := s.pcpu.ctl.threadList.length
    EdfChoice p.ctl.view (due p.ctl (ticks n) p.priv) (Sched.pick (schedRtds khz) ticks s.pcpu).1 ∧
      EdfOk (rtdsPeriodTicks khz) (ticks n) p.ctl.view
        (Sched.pick (schedRtds khz) ticks s.pcpu).2 := by
  have hmid := h.beforePick hkhz hcur hr
  have hview := view_beforePick (schedRtds khz) ticks s.pcpu
  have hok := h.ok
  rw [← hview] at hmid hok
  have hcur' := (currObj_beforePick (schedRtds khz) ticks s.pcpu).trans_ne hcur
  exact hmid.pickNext (rtdsPeriodTicks_pos hkhz) hok hcur'
    ⟨true, fun i => ticks (s.pcpu.ctl.threadList.length + i)⟩ le_rfl

theorem RtdsState.edf_apply {op : SchedOp} {caller : Caller} (hal : op.Allowed s.pcpu.ctl)
    (hr : Readings (s.readsFrom op) hi caller.ticks) (hnow : s.now ≤ hi) :
    EdfOk (rtdsPeriodTicks khz) hi (op.apply (schedRtds khz) caller s.pcpu).ctl.view
      (op.apply (schedRtds khz) caller s.pcpu).priv := by
  have hp := rtdsPeriodTicks_pos hkhz
  have hedf := h.edf.later hnow
  have hread := hr.last 0
  cases op with
  | initThreadData t =>
    simp only [apply, view_initThreadData]
    exact hedf.initData h.free hp hal hread
  | runIdle =>
    exact hedf.view rfl rfl
  | sleepThread t =>
    simp only [apply, view_sleepThread, sleepThread_priv]
    exact hedf.sleep h.free hp t caller
  | wakeThread t =>
    simp only [apply, view_wakeThread]
    by_cases hw : ((s.pcpu.ctl.obj t).isBlocked || (s.pcpu.ctl.obj t).beBlocking) = true
    · rw [wakeThread, if_pos hw]
      exact hedf.wake h.free hp hal.2 (by simpa [ThreadObject.isBlocked] using hw) hread
    · rw [wakeThread, if_neg hw]
      have hoff := RunView.wake_sameOff s.pcpu.ctl.view t
      exact hedf.view hoff.threadList hoff.idle
  | requestThreadPriority t =>
    simp only [apply, view_requestThreadPriority]
    exact hedf
  | schedule =>
    simp only [apply, view_schedule, schedule_priv]
    obtain ⟨-, hpick⟩ := h.pick hkhz hal hr
    rw [view_beforePick] at hpick
    exact (hpick.later (hr.last _)).view (RunView.switchTo_threadList _ _)
      (RunView.switchTo_idle _ _)
  | timerTick =>
    exact .timerHandler hedf h.free hp h.ok hal hread

theorem RtdsState.step (hstep : ClockStep (schedRtds khz) op s s') : RtdsState khz s' := by
  obtain ⟨hok, hfree⟩ := (schedRtds_lawful hkhz).clockStep (fun hI => hI.timer none)
    hstep h.ok h.free
  cases hstep with
  | call hal hr hnow => exact ⟨hok, hfree, h.edf_apply hkhz hal hr hnow, h.unasked.apply hal⟩
  | clear =>
    refine ⟨hok, hfree, ?_, ?_⟩
    · simp only [Clocked.setCtl, view_clearReschedule]
      exact h.edf
    · simp only [clearRescheduleIfCurrentOnly]
      split <;> exact h.unasked
  | yield => exact ⟨hok, hfree, h.edf, h.unasked.request⟩
  | suspend => exact ⟨hok, hfree, h.edf.congr rfl fun _ => ⟨rfl, rfl, rfl⟩, h.unasked⟩

omit hkhz

omit h

/-- An RTDS pCPU on which nothing was set up yet, at some time. -/
def rtdsStart (idle : Tid) (obj : Tid → ThreadObject) (now : Nat) : Clocked Rtds :=
  .start (initSched idle obj Rtds.init) now

theorem RtdsState.start (idle : Tid) (obj : Tid → ThreadObject) (now : Nat) :
    RtdsState khz (rtdsStart idle obj now) := by
  obtain ⟨hok, hfree⟩ := initSched_lockFree idle obj
  refine ⟨hok, hfree, ⟨.nil, fun t ht => ?_, rfl⟩, fun hmem => ?_⟩
  · cases ht
  · cases hmem

variable {ok : ClockOp → Clocked Rtds → Prop} {idle now : Nat}
  {obj : Tid → ThreadObject} {tr : List ClockOp}

theorem RtdsState.reach (hkhz : 0 < khz)
    (hrun : GuardedRun (ClockStep (schedRtds khz)) ok (rtdsStart idle obj now) tr s) :
    RtdsState khz s :=
  hrun.inv (P := fun _ s => RtdsState khz s) (.start idle obj now) fun h _ hs => h.step hkhz hs

/-- In every run on a clock that does not go back, each `schedule` runs the server
with the earliest deadline among those that have budget left, after charging and
period refresh; the earliest of all if none has; and the idle thread if nobody
competes. The ready queue is sorted after that. -/
theorem rtds_pick_earliest (hkhz : 0 < khz)
    (hrun : GuardedRun (ClockStep (schedRtds khz)) (fun _ _ => True)
      (rtdsStart idle obj now) tr s) (hcur : s.pcpu.ctl.currObj ≠ none)
    (hr : Readings s.now hi ticks) :
    let p := beforePick (schedRtds khz) ticks s.pcpu
    let r := pick (schedRtds khz) ticks s.pcpu
    EdfChoice p.ctl.view (due p.ctl (ticks s.pcpu.ctl.threadList.length) p.priv) r.1 ∧
      Sorted r.2 := by
  obtain ⟨hchoice, hedf⟩ := (RtdsState.reach hkhz hrun).pick hkhz hcur hr
  exact ⟨hchoice, hedf.sorted⟩

/-! ### Two servers -/

/-- A call at time `n`, on the pCPU itself. -/
def rtdsAt (n : Nat) (op : SchedOp) (s : Clocked Rtds) : Clocked Rtds :=
  s.call (schedRtds 1000) ⟨true, fun _ => n⟩ n op

theorem rtdsAt_step (n : Nat) (op : SchedOp) (hal : op.Allowed s.pcpu.ctl)
    (hfrom : s.readsFrom op ≤ n) (hnow : s.now ≤ n) :
    ClockStep (schedRtds 1000) (.call op ⟨true, fun _ => n⟩) s (rtdsAt n op s) :=
  .call hal (.const hfrom (le_refl n)) hnow

/-- Servers 1 and 2 are woken, and server 1 runs. -/
def twoServers : Clocked Rtds :=
  rtdsAt 10 .schedule (rtdsAt 9 (.wakeThread 2) (rtdsAt 8 (.wakeThread 1)
    (rtdsAt 7 (.initThreadData 2) (rtdsAt 6 (.initThreadData 1)
      (rtdsAt 5 .runIdle (rtdsAt 4 (.initThreadData 0) (rtdsStart 0 (fun _ => blankThread) 3)))))))

theorem twoServers_run (ok : ClockOp → Clocked Rtds → Prop)
    (hok : ∀ op caller s, op ≠ .schedule → ok (.call op caller) s)
    (hsched : ∀ s caller, s.pcpu.ctl.currObj = some s.pcpu.ctl.idle →
      ok (.call .schedule caller) s) : ∃ tr, GuardedRun (ClockStep (schedRtds 1000)) ok
      (rtdsStart 0 (fun _ => blankThread) 3) tr twoServers := by
  refine ⟨_, .cons (.cons (.cons (.cons (.cons (.cons (.cons .nil
    ?_ (rtdsAt_step _ _ ?_ ?_ ?_)) ?_ (rtdsAt_step _ _ ?_ ?_ ?_))
    ?_ (rtdsAt_step _ _ ?_ ?_ ?_)) ?_ (rtdsAt_step _ _ ?_ ?_ ?_))
    ?_ (rtdsAt_step _ _ ?_ ?_ ?_)) ?_ (rtdsAt_step _ _ ?_ ?_ ?_))
    ?_ (rtdsAt_step _ _ ?_ ?_ ?_)⟩
  all_goals first
    | decide
    | exact hsched _ _ rfl
    | exact hok _ _ _ nofun

/-- When server 1 has used up its budget, the choice falls on server 2. -/
theorem rtds_pick_earliest_second :
    let p := beforePick (schedRtds 1000) (fun _ => 2500) twoServers.pcpu
    let r := pick (schedRtds 1000) (fun _ => 2500) twoServers.pcpu
    (EdfChoice p.ctl.view (due p.ctl 2500 p.priv) r.1 ∧ Sorted r.2) ∧
      twoServers.pcpu.ctl.currObj = some 1 ∧ r.1 = 2 := by
  obtain ⟨tr, hrun⟩ := twoServers_run (fun _ _ => True)
    (fun _ _ _ _ => trivial) fun _ _ _ => trivial
  refine ⟨rtds_pick_earliest (by decide) hrun ?_ (.const ?_
    (le_refl 2500)), ?_, ?_⟩
  · decide
  · decide
  · decide
  · decide

end Sima.Sched
