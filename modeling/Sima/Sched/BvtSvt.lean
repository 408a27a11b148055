import Sima.Sched.BvtCharge

/-!
# The virtual time of the scheduler

`svt` is documented as the least actual virtual time of any runnable thread, and a
thread that wakes up after a long sleep is moved on to it. `update_svt` takes it from
the first thread of the queue — which is the one with the least *effective* virtual
time. A warped thread gets to the front with an actual virtual time as late as its warp
value allows, and takes `svt` there with it. Whoever wakes up then is moved past
threads that have been waiting all along.

`svt` also is only written by `pick_next`. A thread that wakes up a little behind it
is left where it is, below `svt`; and when the thread with the least time has gone to
sleep, `svt` stays behind with it until the next pick.

Away from all this the law holds: as long as `pick_next` finds no warped thread in the
queue, and no thread wakes up into one of the two gaps.
-/

namespace Sima.Sched

open Lib

namespace Bvt

variable {s : Bvt} {c : SchedControl} {caller : Caller} {t u first : Tid} {now khz : Nat}
  {ticks : Nat → Nat} {params : Tid → BvtParams} {p : Pcpu Bvt} {rest : List Tid} {d : BvtData}

/-- `svt` is the least virtual time of the threads in the queue. -/
def SvtLeast (s : Bvt) : Prop :=
  s.runqueue ≠ [] →
    (∃ t ∈ s.runqueue, (s.data t).avt = s.svt) ∧ ∀ t ∈ s.runqueue, s.svt ≤ (s.data t).avt

/-- No thread in the queue is behind `svt`. -/
def Low (s : Bvt) : Prop := ∀ t ∈ s.runqueue, s.svt ≤ (s.data t).avt

/-- No thread in the queue is warped, or is going to be by a request that is pending. -/
def NoWarp (p : Pcpu Bvt) : Prop :=
  ∀ t ∈ p.priv.runqueue, (p.priv.data t).warpOn = false ∧
    ((p.ctl.obj t).priorityPending = true → (p.priv.data t).warpValue ≤ 0)

/-- A thread that wakes up is at `svt` or past it, or far enough behind to be moved
there. And if it is past it, somebody else is at `svt`. -/
def WakesAligned (s : Bvt) (t : Tid) : Prop :=
  ((s.data t).avt ≤ s.svt - bvtCsaMcu ∨ s.svt ≤ (s.data t).avt) ∧
    ((s.data t).avt ≤ s.svt ∨ ∃ u ∈ s.runqueue, (s.data u).avt = s.svt)

/-! ## At a pick -/

theorem canWarp_of_nonpos (h : d.warpValue ≤ 0) : d.canWarp now = false := by
  have hnot : ¬ d.warpValue > 0 := by omega
  simp [BvtData.canWarp, hnot]

theorem NoWarp.consumePriority (h : NoWarp p) :
    NoWarp (consumePriority (schedBvt khz params) caller t p) := by
  intro u hu
  have hin : u ∈ p.priv.runqueue := perm_consumePriority.mem_iff.mp hu
  obtain ⟨hoff, hpend⟩ := h u hin
  rw [Sched.consumePriority]
  split
  · next hp =>
    -- a pending request is used up, and those of the others are as they were
    have hflag : ((p.ctl.update t fun o => { o with priorityPending := false }).obj
        u).priorityPending = true → u ≠ t ∧ (p.ctl.obj u).priorityPending = true := by
      intro hset
      by_cases hut : u = t
      · subst hut
        simp at hset
      · rw [SchedControl.update_of_ne hut] at hset
        exact ⟨hut, hset⟩
    simp only [schedBvt]
    split
    · have hsame : (Bvt.startWarp (caller.ticks 0) t p.priv).data u = p.priv.data u := by
        rw [Bvt.startWarp]
        split
        · rfl
        split
        · next hcan =>
          have hut : u ≠ t := by
            intro heq
            subst heq
            rw [canWarp_of_nonpos (hpend hp)] at hcan
            cases hcan
          rw [requeue_data, modify_of_ne hut]
        · rfl
      show ((Bvt.startWarp _ t p.priv).data u).warpOn = false ∧
        (_ → ((Bvt.startWarp _ t p.priv).data u).warpValue ≤ 0)
      rw [hsame]
      exact ⟨hoff, fun hset => hpend (hflag hset).2⟩
    · exact ⟨hoff, fun hset => hpend (hflag hset).2⟩
  · exact ⟨hoff, hpend⟩

theorem NoWarp.beforePick (h : NoWarp p) (khz : Nat) (params : Tid → BvtParams)
    (ticks : Nat → Nat) : NoWarp (beforePick (schedBvt khz params) ticks p) := by
  rw [Sched.beforePick]
  generalize p.ctl.threadList = ts
  induction ts generalizing ticks p with
  | nil => exact h
  | cons t ts ih => exact ih h.consumePriority _

theorem charge_warpOn (h : d.warpOn = false) : (d.charge now).warpOn = false := by
  simp [BvtData.charge, BvtData.updateWarpAfterCharge, BvtData.updateEvt, h]

/-- Without warp the order is that of the actual virtual times. -/
theorem Ordered.avt_head_le (h : Ordered s) (hplain : ∀ t ∈ s.runqueue,
    (s.data t).warpOn = false) (hq : s.runqueue = first :: rest) :
    ∀ u ∈ s.runqueue, (s.data first).avt ≤ (s.data u).avt := by
  have hevt : ∀ t ∈ s.runqueue, (s.data t).evt = (s.data t).avt := by
    intro t ht
    rw [h.evt t ht, BvtData.effective, hplain t ht]
    simp
  intro u hu
  have hfirst : first ∈ s.runqueue := by rw [hq]; simp
  rw [← hevt u hu, ← hevt first hfirst]
  exact h.head_le hq u hu

theorem takeFirst_svt : (takeFirst khz c caller s).2.svt = s.svt := by
  obtain ⟨data, runqueue, tickTimer, svt⟩ := s
  match runqueue with
  | [] => rfl
  | [first] => rfl
  | first :: second :: rest =>
    simp only [takeFirst]
    split <;> rfl

/-- After a pick `svt` is the virtual time of the first thread of the queue. -/
theorem pickNext_svt (hq : (pickNext khz c caller s).2.runqueue = first :: rest) :
    (pickNext khz c caller s).2.svt = ((pickNext khz c caller s).2.data first).avt := by
  let q := chargeCurrent c (caller.ticks 1) s
  have hqueue : q.runqueue = first :: rest := by
    rw [← hq, pickNext, (takeFirst_spec khz c caller _).2]
    exact (updateSvt_runqueue q).symm
  have hsvt : (updateSvt q).svt = (q.data first).avt := by rw [updateSvt, hqueue]
  have havt : ((pickNext khz c caller s).2.data first).avt = (q.data first).avt := by
    rw [pickNext, takeFirst_data]
    have hsame : ((updateSvt q).data first).avt = (q.data first).avt := by rw [updateSvt_data]
    split <;> exact hsame
  rw [havt, pickNext, takeFirst_svt]
  exact hsvt

theorem svtLeast_pick (hord : Ordered p.priv) (hno : NoWarp p) :
    SvtLeast (pick (schedBvt khz params) ticks p).2 := by
  have hord' : Ordered (pick (schedBvt khz params) ticks p).2 :=
    (hord.consumePriorities _).pickNext
  have hno' := hno.beforePick khz params ticks
  have hplain : ∀ t ∈ (pick (schedBvt khz params) ticks p).2.runqueue,
      ((pick (schedBvt khz params) ticks p).2.data t).warpOn = false := by
    intro t ht
    have hin := (pickNext_spec khz _ _ _).1.mem_iff.mp ht
    have hoff := (hno' t hin).1
    show ((Bvt.pickNext khz _ _ _).2.data t).warpOn = false
    rw [Bvt.pickNext, takeFirst_data]
    have hcharged : ((chargeCurrent (Sched.beforePick (schedBvt khz params) ticks p).ctl
        (ticks (p.ctl.threadList.length + 1))
        (Sched.beforePick (schedBvt khz params) ticks p).priv).data t).warpOn = false := by
      rw [chargeCurrent_data]
      split
      · exact charge_warpOn hoff
      · exact hoff
    rw [← updateSvt_data] at hcharged
    split <;> exact hcharged
  intro hne
  obtain ⟨first, rest, hq⟩ := List.exists_cons_of_ne_nil hne
  have hsvt := pickNext_svt hq
  have hleast := hord'.avt_head_le hplain hq
  refine ⟨⟨first, by rw [hq]; simp, hsvt.symm⟩, fun t ht => ?_⟩
  show (Bvt.pickNext khz _ _ _).2.svt ≤ _
  rw [hsvt]
  exact hleast t ht

/-! ## At a wake-up -/

theorem requeue_svt : (requeue t s).svt = s.svt := by
  rw [requeue]
  split <;> rfl

theorem wake_svt : (wake c caller t s).svt = s.svt := by
  show (startWarp _ t _).svt = s.svt
  rw [startWarp]
  split
  · rfl
  split
  · rw [requeue_svt]
    rfl
  · rfl

theorem wake_avt : ((wake c caller t s).data u).avt =
    if u = t then (if (s.data t).avt > s.svt - bvtCsaMcu then (s.data t).avt else s.svt)
    else (s.data u).avt := by
  have h : ((wake c caller t s).data u).ledger.avt = _ := congrArg Ledger.avt ledger_wake
  split
  · next hut =>
    subst hut
    rw [if_pos rfl] at h
    exact h
  · next hut =>
    rw [if_neg hut] at h
    exact h

/-- What a wake-up has to meet, exactly. -/
theorem svtLeast_wake_iff (hlow : Low s) (ht : t ∉ s.runqueue) :
    SvtLeast (wake c caller t s) ↔ WakesAligned s t := by
  have hmem : ∀ u, u ∈ (wake c caller t s).runqueue ↔ u = t ∨ u ∈ s.runqueue := by
    intro u
    rw [(perm_wake c caller t s).mem_iff, List.mem_cons]
  have hself : ((wake c caller t s).data t).avt =
      if (s.data t).avt > s.svt - bvtCsaMcu then (s.data t).avt else s.svt := by
    rw [wake_avt, if_pos rfl]
  have hother : ∀ u ∈ s.runqueue, ((wake c caller t s).data u).avt = (s.data u).avt := by
    intro u hu
    have hut : u ≠ t := fun heq => ht (heq ▸ hu)
    rw [wake_avt, if_neg hut]
  constructor
  · intro h
    have hne : (wake c caller t s).runqueue ≠ [] := List.ne_nil_of_mem ((hmem t).mpr (.inl rfl))
    obtain ⟨⟨u, hu, hat⟩, hall⟩ := h hne
    rw [wake_svt] at hat hall
    have hleast := hall t ((hmem t).mpr (.inl rfl))
    rw [hself] at hleast
    constructor
    · split at hleast <;> omega
    rcases (hmem u).mp hu with rfl | hu
    · rw [hself] at hat
      split at hat <;> omega
    · rw [hother u hu] at hat
      exact .inr ⟨u, hu, hat⟩
  · rintro ⟨hgap, hstale⟩ -
    rw [wake_svt]
    constructor
    · rcases hstale with hle | ⟨u, hu, hat⟩
      · refine ⟨t, (hmem t).mpr (.inl rfl), ?_⟩
        rw [hself]
        split
        · omega
        · rfl
      · exact ⟨u, (hmem u).mpr (.inr hu), by rw [hother u hu]; exact hat⟩
    · intro u hu
      rcases (hmem u).mp hu with rfl | hu
      · rw [hself]
        split
        · omega
        · exact Int.le_refl _
      · rw [hother u hu]
        exact hlow u hu

end Bvt

open Bvt

/-! ## In every run -/

/-- The condition on a step. -/
def KeepsSvt : ClockOp → Clocked Bvt → Prop
  | .call .schedule _, s => NoWarp s.pcpu
  | .call (.wakeThread t) _, s => Asleep s.pcpu.ctl.view t → WakesAligned s.pcpu.priv t
  | _, _ => True

/-- The steps that pick a thread, or wake one up. -/
def PicksOrWakes : ClockOp → Clocked Bvt → Prop
  | .call .schedule _, _ => True
  | .call (.wakeThread t) _, s => Asleep s.pcpu.ctl.view t
  | _, _ => False

section

variable {khz : Nat} {params : Tid → BvtParams} {s s' : Clocked Bvt} {caller : Caller}
  {op : SchedOp} {a : ClockOp} {t : Tid}

theorem Bvt.SvtLeast.low {s : Bvt} (h : SvtLeast s) : Low s :=
  fun t ht => (h (List.ne_nil_of_mem ht)).2 t ht

theorem wakeThread_priv (hw : Asleep s.pcpu.ctl.view t) :
    (wakeThread (schedBvt khz params) caller t s.pcpu).priv =
      Bvt.wake s.pcpu.ctl caller t s.pcpu.priv := by
  have hcond : ((s.pcpu.ctl.obj t).isBlocked || (s.pcpu.ctl.obj t).beBlocking) = true := by
    simpa [Asleep, ThreadObject.isBlocked] using hw
  rw [wakeThread, if_pos hcond]
  rfl

theorem wakeThread_awake (hw : ¬ Asleep s.pcpu.ctl.view t) :
    wakeThread (schedBvt khz params) caller t s.pcpu = s.pcpu := by
  have hcond : ¬ ((s.pcpu.ctl.obj t).isBlocked || (s.pcpu.ctl.obj t).beBlocking) = true := by
    simpa [Asleep, ThreadObject.isBlocked] using hw
  rw [wakeThread, if_neg hcond]

section

variable (hs : BvtState s) (hord : Ordered s.pcpu.priv) (hlow : Low s.pcpu.priv)
  (hok : KeepsSvt a s) (hstep : ClockStep (schedBvt khz params) a s s')

include hs hord hlow hok hstep

theorem svtLeast_step (hpw : PicksOrWakes a s) : SvtLeast s'.pcpu.priv := by
  cases hstep with
  | @call op caller hi _ hal _ _ =>
    cases op with
    | schedule =>
      simp only [Clocked.call, SchedOp.apply, schedule_priv]
      exact svtLeast_pick hord hok
    | wakeThread t =>
      simp only [Clocked.call, SchedOp.apply, wakeThread_priv hpw]
      exact (svtLeast_wake_iff hlow fun hin => hs.queue.awake t hin hpw).mpr (hok hpw)
    | initThreadData t | runIdle | sleepThread t | requestThreadPriority t | timerTick =>
      exact hpw.elim
  | clear | yield | suspend => exact hpw.elim

theorem low_step : Low s'.pcpu.priv := by
  by_cases hpw : PicksOrWakes a s
  · exact (svtLeast_step hs hord hlow hok hstep hpw).low
  cases hstep with
  | @call op caller hi _ hal _ _ =>
    cases op with
    | schedule => exact absurd trivial hpw
    | wakeThread t =>
      simp only [Clocked.call, SchedOp.apply, wakeThread_awake hpw]
      exact hlow
    | initThreadData t =>
      -- the thread is not queued, and nobody else changes
      intro u hu
      have hut : u ≠ t := fun heq => hal (heq ▸ hs.queue.member u hu)
      show _ ≤ ((Bvt.initData khz params s.pcpu.ctl caller t s.pcpu.priv).data u).avt
      rw [Bvt.initData, modify_of_ne hut]
      exact hlow u hu
    | runIdle | requestThreadPriority t | timerTick => exact hlow
    | sleepThread t =>
      simp only [Clocked.call, SchedOp.apply, sleepThread_priv]
      exact fun u hu => hlow u (List.mem_of_mem_erase hu)
  | clear | yield | suspend => exact hlow

end

variable {idle now : Nat} {obj : Tid → ThreadObject} {tr : List ClockOp}

theorem low_reach (hrun : GuardedRun (ClockStep (schedBvt khz params)) KeepsSvt
    (bvtStart idle obj now) tr s) : Low s.pcpu.priv := by
  induction hrun with
  | nil =>
    intro t ht
    cases ht
  | cons hrun hok hs ih =>
    obtain ⟨hstate, hord⟩ := bvt_reach hrun
    exact low_step hstate hord ih hok hs

/-- In every run in which no pick finds a warped thread in the queue, and no thread
wakes up into a gap: after every pick and every wake-up `svt` is the least actual
virtual time of the threads that can run, and a thread that is moved on when it wakes
up is moved past none of them. -/
theorem bvt_svt_least
    (hrun : GuardedRun (ClockStep (schedBvt khz params)) KeepsSvt (bvtStart idle obj now)
      tr s) (hok : KeepsSvt a s) (hstep : ClockStep (schedBvt khz params) a s s') :
    (PicksOrWakes a s → SvtLeast s'.pcpu.priv) ∧
    ∀ t caller, a = .call (.wakeThread t) caller →
      (s.pcpu.priv.data t).avt < (s'.pcpu.priv.data t).avt →
      ∀ u ∈ s.pcpu.priv.runqueue, (s'.pcpu.priv.data t).avt ≤ (s.pcpu.priv.data u).avt := by
  obtain ⟨hs, hord⟩ := bvt_reach hrun
  have hlow := low_reach hrun
  refine ⟨svtLeast_step hs hord hlow hok hstep, ?_⟩
  rintro t caller rfl hmoved u hu
  cases hstep with
  | call hal _ _ =>
    simp only [Clocked.call, SchedOp.apply] at hmoved ⊢
    by_cases hw : Asleep s.pcpu.ctl.view t
    · rw [wakeThread_priv hw, wake_avt, if_pos rfl] at hmoved ⊢
      split at hmoved
      · omega
      · next hfar =>
        rw [if_neg hfar]
        exact hlow u hu
    · rw [wakeThread_awake hw] at hmoved
      omega

/-! ### Without warp, and with it -/

instance (p : Pcpu Bvt) : Decidable (NoWarp p) := List.decidableBAll _ _

instance (s : Bvt) (t : Tid) : Decidable (WakesAligned s t) :=
  inferInstanceAs (Decidable (_ ∧ _))

instance : (a : ClockOp) → (s : Clocked Bvt) → Decidable (KeepsSvt a s)
  | .call .schedule _, s => inferInstanceAs (Decidable (NoWarp s.pcpu))
  | .call (.wakeThread t) _, s =>
    inferInstanceAs (Decidable (Asleep s.pcpu.ctl.view t → WakesAligned s.pcpu.priv t))
  | .call (.initThreadData _) _, _ | .call .runIdle _, _ | .call (.sleepThread _) _, _
  | .call (.requestThreadPriority _) _, _ | .call .timerTick _, _ | .clear, _ | .yield, _
  | .suspend, _ => isTrue trivial

/-- Nobody has a warp value. -/
def plainParams (_ : Tid) : BvtParams := { weight := 64 }

/-- Thread 1 has run alone for one MCU. -/
def plainAlone : Clocked Bvt :=
  Turn.plays (schedBvt 10 plainParams) (bvtOpening ++ [⟨.schedule, 20, 0, 20⟩]) bvtBoot

/-- Thread 2 wakes up and is moved on to the time of thread 1. -/
theorem bvt_svt_least_wake :
    let s' := Turn.play (schedBvt 10 plainParams) ⟨.wakeThread 2, 25, 0, 25⟩ plainAlone
    (plainAlone.pcpu.priv.data 2).avt = 0 ∧ (s'.pcpu.priv.data 2).avt = 16 ∧
      SvtLeast s'.pcpu.priv ∧ (s'.pcpu.priv.data 2).avt ≤ (plainAlone.pcpu.priv.data 1).avt := by
  intro s'
  have hrun : GuardedRun (ClockStep (schedBvt 10 plainParams)) KeepsSvt bvtBoot _ plainAlone :=
    Turn.run (by decide +kernel)
  have hcan : Turn.Can ⟨.wakeThread 2, 25, 0, 25⟩ plainAlone := by decide +kernel
  obtain ⟨hleast, hmoved⟩ := bvt_svt_least hrun (by decide +kernel) hcan.step
  have hasleep : Asleep plainAlone.pcpu.ctl.view 2 := by decide +kernel
  exact ⟨by decide +kernel, by decide +kernel, hleast hasleep,
    hmoved 2 _ rfl (by decide +kernel) 1 (by decide +kernel)⟩

/-- Thread 2 runs first. Then it waits behind thread 1, until a priority request warps
it to the front again. -/
def warpToFront : List Turn :=
  [⟨.initThreadData 0, 4, 0, 4⟩, ⟨.runIdle, 5, 0, 5⟩, ⟨.initThreadData 1, 6, 0, 6⟩,
    ⟨.initThreadData 2, 7, 0, 7⟩, ⟨.initThreadData 3, 7, 0, 7⟩, ⟨.wakeThread 1, 8, 0, 8⟩,
    ⟨.wakeThread 2, 9, 0, 9⟩, ⟨.schedule, 10, 0, 10⟩, ⟨.schedule, 20, 0, 20⟩,
    ⟨.requestThreadPriority 2, 21, 0, 21⟩, ⟨.schedule, 21, 0, 21⟩]

/-- The pick leaves `svt` at the time of thread 2, though thread 1 can run and is far
behind. Thread 3 wakes up, and is moved past thread 1. -/
theorem bvt_svt_jumps :
    let s := Turn.plays (schedBvt 10 warpParams) warpToFront bvtBoot
    let s' := Turn.play (schedBvt 10 warpParams) ⟨.wakeThread 3, 22, 0, 22⟩ s
    (∃ tr, GuardedRun (ClockStep (schedBvt 10 warpParams)) (fun _ _ => True) bvtBoot tr s) ∧
      ClockStep (schedBvt 10 warpParams) (Turn.label ⟨.wakeThread 3, 22, 0, 22⟩) s s' ∧
      s.pcpu.priv.runqueue = [2, 1] ∧ s.pcpu.priv.svt = 16 ∧
      (s.pcpu.priv.data 1).avt = 1 ∧ (s.pcpu.priv.data 3).avt = 0 ∧
      (s'.pcpu.priv.data 3).avt = 16 := by
  intro s s'
  have hcan : Turn.Can ⟨.wakeThread 3, 22, 0, 22⟩ s := by decide +kernel
  exact ⟨⟨_, Turn.run (by decide +kernel)⟩, hcan.step, by decide +kernel, by decide +kernel,
    by decide +kernel, by decide +kernel, by decide +kernel⟩

end

end Sima.Sched
