import Sima.Sched.BvtQueue

/-!
# The order of the BVT run queue

`BvtQueue` says who is in the queue. Here is in which order: by effective virtual
time, which is the actual one less the warp value while the thread is warped.

The queue is a sorted list whose keys change under it — the thread that runs is
charged while it is linked, and a priority request warps a thread where it stands.
Both take the thread out and put it back. For a thread that is not linked there is
nothing to do: its virtual time is worked out again when it is woken. So one lemma
about `requeue` carries every hook.
-/

namespace Sima.Sched

open Lib

namespace BvtData

/-- What `sched_bvt_wake` makes of the actual virtual time: after a long sleep it is
that of the scheduler. -/
def wakeAvt (svt : Int) (d : BvtData) : BvtData :=
  { d with avt := if d.avt > svt - bvtCsaMcu then d.avt else svt }

/-- What `evt` stands for. -/
def effective (d : BvtData) : Int := d.avt - if d.warpOn then d.warpValue else 0

theorem updateEvt_evt (d : BvtData) : d.updateEvt.evt = d.updateEvt.effective := by
  by_cases hon : d.warpOn = true <;> simp [updateEvt, effective, hon]

end BvtData

namespace Bvt

variable {s s' : Bvt} {c : SchedControl} {caller : Caller} {t u : Tid} {now khz : Nat}
  {f : BvtData → BvtData} {params : Tid → BvtParams}

@[simp] theorem modify_self : (s.modify t f).data t = f (s.data t) := by
  simp [modify]

@[simp] theorem modify_of_ne (h : u ≠ t) : (s.modify t f).data u = s.data u := by
  simp [modify, h]

/-- In the order of the effective virtual times, and they are up to date. -/
structure Ordered (s : Bvt) : Prop where
  nodup : s.runqueue.Nodup
  sorted : SortedBy (fun t => (s.data t).evt) s.runqueue
  evt : ∀ t ∈ s.runqueue, (s.data t).evt = (s.data t).effective

variable (h : Ordered s)

include h

theorem Ordered.congr (hq : s'.runqueue = s.runqueue)
    (hevt : ∀ t ∈ s.runqueue, (s'.data t).evt = (s.data t).evt)
    (heff : ∀ t ∈ s.runqueue, (s'.data t).effective = (s.data t).effective) : Ordered s' := by
  refine ⟨by rw [hq]; exact h.nodup, ?_, fun t ht => ?_⟩
  · rw [hq]
    exact h.sorted.congr hevt
  · rw [hq] at ht
    rw [hevt t ht, heff t ht]
    exact h.evt t ht

theorem Ordered.modify_off (ht : t ∉ s.runqueue) : Ordered (s.modify t f) := by
  have hsame : ∀ u ∈ s.runqueue, (s.modify t f).data u = s.data u := by
    intro u hu
    have hut : u ≠ t := fun heq => ht (heq ▸ hu)
    exact modify_of_ne hut
  exact h.congr rfl (fun u hu => by rw [hsame u hu]) fun u hu => by rw [hsame u hu]

theorem Ordered.remove : Ordered (runqueueRemove t s) :=
  ⟨h.nodup.erase t, h.sorted.erase t, fun u hu => h.evt u (List.mem_of_mem_erase hu)⟩

theorem Ordered.add (ht : t ∉ s.runqueue)
    (hevt : (s.data t).evt = (s.data t).effective) : Ordered (runqueueAdd t s) := by
  have hperm := perm_runqueueAdd t s
  refine ⟨hperm.nodup_iff.mpr (List.nodup_cons.mpr ⟨ht, h.nodup⟩),
    stableInsert_sorted h.sorted t, fun u hu => ?_⟩
  rcases List.mem_cons.mp (hperm.mem_iff.mp hu) with rfl | hu
  · exact hevt
  · exact h.evt u hu

/-- A thread whose data change goes to its new place, if it has one. -/
theorem Ordered.requeue (hevt : (f (s.data t)).evt = (f (s.data t)).effective) :
    Ordered (requeue t (s.modify t f)) := by
  by_cases ht : t ∈ s.runqueue
  · have hin : (s.modify t f).isInqueue t = true := decide_eq_true ht
    rw [Bvt.requeue, if_pos hin]
    have hgone : t ∉ (runqueueRemove t s).runqueue := h.nodup.not_mem_erase
    have hoff : Ordered ((runqueueRemove t s).modify t f) := h.remove.modify_off hgone
    refine hoff.add hgone ?_
    rw [modify_self]
    exact hevt
  · have hout : ¬ (s.modify t f).isInqueue t = true := fun h => ht (of_decide_eq_true h)
    rw [Bvt.requeue, if_neg hout]
    exact h.modify_off ht

/-! ## The hooks keep the order -/

theorem Ordered.startWarp : Ordered (startWarp now t s) := by
  rw [Bvt.startWarp]
  split
  · exact h
  · split
    · exact h.requeue (BvtData.updateEvt_evt _)
    · exact h

theorem Ordered.chargeCurrent : Ordered (chargeCurrent c now s) := by
  rw [Bvt.chargeCurrent]
  split
  · split
    · exact h.requeue (BvtData.updateEvt_evt _)
    · exact h
  · exact h

theorem Ordered.updateSvt : Ordered (updateSvt s) := by
  rw [Bvt.updateSvt]
  split
  · exact h
  · exact ⟨h.nodup, h.sorted, h.evt⟩

omit h in
/-- What `pick_next` does to the threads after it has charged the current one: the
first of the queue starts. -/
theorem takeFirst_data (khz : Nat) (c : SchedControl) (caller : Caller) (s : Bvt) (u : Tid) :
    (takeFirst khz c caller s).2.data u =
      if s.runqueue.head? = some u then { s.data u with startTsc := caller.ticks 0 }
      else s.data u := by
  obtain ⟨data, runqueue, tickTimer, svt⟩ := s
  have hset : ∀ first, (Bvt.modify ⟨data, runqueue, tickTimer, svt⟩ first
      fun d => { d with startTsc := caller.ticks 0 }).data u =
        if some first = some u then { data u with startTsc := caller.ticks 0 }
        else data u := by
    intro first
    by_cases hu : u = first
    · subst hu
      simp
    · rw [modify_of_ne hu, if_neg (fun heq => hu (Option.some.inj heq).symm)]
  match runqueue with
  | [] => rfl
  | [first] => exact hset first
  | first :: second :: rest =>
    simp only [takeFirst]
    split <;> exact hset first

theorem Ordered.takeFirst : Ordered (takeFirst khz c caller s).2 := by
  refine h.congr (takeFirst_spec khz c caller s).2 (fun u _ => ?_) fun u _ => ?_
  · rw [takeFirst_data]
    split <;> rfl
  · rw [takeFirst_data]
    split <;> rfl

theorem Ordered.delTimer : Ordered s.delTimer := ⟨h.nodup, h.sorted, h.evt⟩

theorem Ordered.pickNext : Ordered (pickNext khz c caller s).2 :=
  h.chargeCurrent.updateSvt.delTimer.takeFirst

theorem Ordered.wake (c : SchedControl) (ht : t ∉ s.runqueue) : Ordered (wake c caller t s) := by
  have hadjusted : Ordered (s.modify t (BvtData.wakeAvt s.svt)) := h.modify_off ht
  have hperm := perm_startWarp (caller.ticks 0) t (s.modify t (BvtData.wakeAvt s.svt))
  have hout := fun hin => ht (hperm.mem_iff.mp hin)
  apply (hadjusted.startWarp.modify_off hout).add hout
  rw [modify_self]
  exact BvtData.updateEvt_evt _

theorem Ordered.head_le {first : Tid} {rest : List Tid} (hq : s.runqueue = first :: rest) :
    ∀ u ∈ s.runqueue, (s.data first).evt ≤ (s.data u).evt := by
  have hsorted := h.sorted
  rw [hq] at hsorted ⊢
  intro u hu
  rcases List.mem_cons.mp hu with rfl | hu
  · exact Int.le_refl _
  · exact (List.pairwise_cons.mp hsorted).1 u hu

theorem Ordered.pickNext_least :
    let r := Bvt.pickNext khz c caller s
    (r.1 ∈ r.2.runqueue ∧ ∀ u ∈ r.2.runqueue, (r.2.data r.1).evt ≤ (r.2.data u).evt) ∨
      (r.2.runqueue = [] ∧ r.1 = c.idle) := by
  intro r
  have hord : Ordered r.2 := h.pickNext
  have hfirst : r.1 = r.2.runqueue.headD c.idle := (pickNext_spec khz c caller s).2
  cases hq : r.2.runqueue with
  | nil =>
    rw [hq] at hfirst
    exact .inr ⟨rfl, hfirst⟩
  | cons first rest =>
    rw [hq] at hfirst
    have hle := hord.head_le hq
    rw [hq] at hle
    have hr : r.1 = first := hfirst
    rw [hr]
    exact .inl ⟨by simp, hle⟩

omit h

end Bvt

open Bvt

/-! ## The order in every run -/

section

variable {khz : Nat} {params : Tid → BvtParams} {p : Pcpu Bvt} {s s' : Clocked Bvt}
  {caller : Caller} {ticks : Nat → Nat} {op : SchedOp} {a : ClockOp} {t : Tid}

theorem Bvt.Ordered.consumePriority (h : Ordered p.priv) :
    Ordered (consumePriority (schedBvt khz params) caller t p).priv := by
  rw [Sched.consumePriority]
  split
  · simp only [schedBvt]
    split
    · exact h.startWarp
    · exact h
  · exact h

theorem Bvt.Ordered.consumePriorities (h : Ordered p.priv) (ts : List Tid) :
    Ordered (consumePriorities (schedBvt khz params) ticks ts p).priv := by
  induction ts generalizing ticks p with
  | nil => exact h
  | cons t ts ih => exact ih h.consumePriority

theorem Bvt.Ordered.apply (h : Ordered s.pcpu.priv) (hs : BvtState s)
    (hal : op.Allowed s.pcpu.ctl) :
    Ordered (op.apply (schedBvt khz params) caller s.pcpu).priv := by
  cases op with
  | initThreadData u =>
    show Ordered (Bvt.initData khz params s.pcpu.ctl caller u s.pcpu.priv)
    exact h.modify_off fun hin => hal (hs.queue.member u hin)
  | runIdle => exact h
  | sleepThread u =>
    simp only [SchedOp.apply, sleepThread]
    split <;> exact h.remove
  | wakeThread u =>
    simp only [SchedOp.apply, wakeThread]
    split
    · next hw =>
      refine h.wake s.pcpu.ctl fun hin => hs.queue.awake u hin ?_
      simpa [Asleep, ThreadObject.isBlocked] using hw
    · exact h
  | requestThreadPriority u => exact h
  | schedule =>
    simp only [SchedOp.apply, schedule_priv]
    exact (h.consumePriorities _).pickNext
  | timerTick => exact h.delTimer

theorem Bvt.Ordered.step (h : Ordered s.pcpu.priv) (hs : BvtState s)
    (hstep : ClockStep (schedBvt khz params) a s s') : Ordered s'.pcpu.priv := by
  cases hstep with
  | call hal _ _ => exact h.apply hs hal
  | clear => exact h
  | yield => exact h
  | suspend => exact h.delTimer

variable {idle now : Nat} {obj : Tid → ThreadObject} {tr : List ClockOp}
  {ok : ClockOp → Clocked Bvt → Prop}

theorem bvt_reach
    (hrun : GuardedRun (ClockStep (schedBvt khz params)) ok (bvtStart idle obj now) tr s) :
    BvtState s ∧ Ordered s.pcpu.priv := by
  induction hrun with
  | nil =>
    have hempty : (bvtStart idle obj now).pcpu.priv.runqueue = [] := rfl
    refine ⟨.start idle obj now, ⟨?_, ?_, ?_⟩⟩
    · exact List.nodup_nil
    · exact .nil
    · intro t ht
      cases ht
  | cons _ _ hs ih => exact ⟨ih.1.step hs, ih.2.step ih.1 hs⟩

/-- In every run of a BVT pCPU, while the lock is free: the queue holds the threads
that are awake, each once, in the order of their effective virtual times, and these
are what they stand for. Whenever `schedule` asks for the next thread it gets one with
the least, and the idle thread only if there is no other. -/
theorem bvt_queue_ordered (hrun : GuardedRun (ClockStep (schedBvt khz params)) (fun _ _ => True)
      (bvtStart idle obj now) tr s) :
    s.pcpu.priv.runqueue.Nodup ∧
    (∀ t, t ∈ s.pcpu.priv.runqueue ↔ t ∈ s.pcpu.ctl.threadList ∧ t ≠ s.pcpu.ctl.idle ∧
      ((s.pcpu.ctl.obj t).status = .runnable ∨ (s.pcpu.ctl.obj t).status = .running) ∧
      (s.pcpu.ctl.obj t).beBlocking = false) ∧
    SortedBy (fun t => (s.pcpu.priv.data t).evt) s.pcpu.priv.runqueue ∧
    (∀ t ∈ s.pcpu.priv.runqueue, (s.pcpu.priv.data t).evt = (s.pcpu.priv.data t).avt -
        if (s.pcpu.priv.data t).warpOn then (s.pcpu.priv.data t).warpValue else 0) ∧
    ∀ ticks, s.pcpu.ctl.currObj ≠ none →
      let r := pick (schedBvt khz params) ticks s.pcpu
      (r.1 ∈ r.2.runqueue ∧ ∀ u ∈ r.2.runqueue, (r.2.data r.1).evt ≤ (r.2.data u).evt) ∨
        (r.2.runqueue = [] ∧ r.1 = s.pcpu.ctl.idle) := by
  obtain ⟨hs, hord⟩ := bvt_reach hrun
  refine ⟨hord.nodup, fun t => ?_, hord.sorted, hord.evt, fun ticks _ => ?_⟩
  · have hawake : (¬ Asleep s.pcpu.ctl.view t) ↔
        ((s.pcpu.ctl.obj t).status = .runnable ∨ (s.pcpu.ctl.obj t).status = .running) ∧
          (s.pcpu.ctl.obj t).beBlocking = false := by
      rw [Asleep, not_or, SchedControl.view_status, SchedControl.view_beBlocking]
      cases (s.pcpu.ctl.obj t).status <;> simp
    constructor
    · intro ht
      have hne : t ≠ s.pcpu.ctl.idle := fun heq => hs.idle (heq ▸ ht)
      exact ⟨hs.queue.member t ht, hne, hawake.mp (hs.queue.awake t ht)⟩
    · rintro ⟨hmem, hne, hrest⟩
      exact hs.queue.queued t hmem hne (hawake.mpr hrest)
  · have hidle : (beforePick (schedBvt khz params) ticks s.pcpu).ctl.idle = s.pcpu.ctl.idle :=
      congrArg RunView.idle (view_beforePick (schedBvt khz params) ticks s.pcpu)
    rw [← hidle]
    exact (hord.consumePriorities _).pickNext_least

/-! ### A thread with a warp value -/

/-- Thread 2 may be warped by 20, thread 1 may not. -/
def warpParams (t : Tid) : BvtParams :=
  if t = 2 then { weight := 64, warpValue := 20 } else { weight := 64 }

def bvtBoot : Clocked Bvt := bvtStart 0 (fun _ => ⟨.blocked, false, false, {}⟩) 3

/-- Threads 1 and 2 are set up, and 1 runs from 10 on. A MCU is 10 ticks. -/
def bvtOpening : List Turn :=
  [⟨.initThreadData 0, 4, 0, 4⟩, ⟨.runIdle, 5, 0, 5⟩, ⟨.initThreadData 1, 6, 0, 6⟩,
    ⟨.initThreadData 2, 7, 0, 7⟩, ⟨.wakeThread 1, 8, 0, 8⟩, ⟨.schedule, 10, 0, 10⟩]

/-- Thread 2 is woken, and thread 1 has to wait. -/
def warpOvertakes : List Turn :=
  bvtOpening ++ [⟨.schedule, 20, 0, 20⟩, ⟨.wakeThread 2, 25, 0, 25⟩, ⟨.schedule, 30, 0, 30⟩]

theorem bvt_queue_ordered_warp :
    let s := Turn.plays (schedBvt 10 warpParams) warpOvertakes bvtBoot
    s.pcpu.priv.runqueue = [2, 1] ∧ (s.pcpu.priv.data 2).evt = -4 ∧ (s.pcpu.priv.data 1).evt = 32 ∧
      SortedBy (fun t => (s.pcpu.priv.data t).evt) s.pcpu.priv.runqueue := by
  intro s
  have hrun : GuardedRun (ClockStep (schedBvt 10 warpParams)) (fun _ _ => True) bvtBoot _ s :=
    Turn.run (by decide +kernel)
  exact ⟨by decide +kernel, by decide +kernel, by decide +kernel, (bvt_queue_ordered hrun).2.2.1⟩

end

end Sima.Sched
