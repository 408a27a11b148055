import Sima.Sched.Asleep
import Sima.Sched.Bvt
import Sima.Sched.Clock

/-!
# The run queue of BVT

Whoever is awake is in the run queue, the thread that runs included. So a hook of
BVT does one of three things to the queue, as a set: `wake` adds a thread, `sleep`
takes one out, and all others only change the order. The contract of `Lawful`
follows from that alone — the virtual times decide who goes first, not who is
there.
-/

namespace Sima.Sched

open Lib

namespace Bvt

variable {v v' : RunView} {s s' : Bvt} {c : SchedControl} {t u : Tid} {q q' : List Tid}

/-- The queue holds exactly the threads that are awake. Nothing is said of the idle
thread: no scheduler is told when it runs. -/
structure QueueOk (v : RunView) (q : List Tid) : Prop where
  nodup : q.Nodup
  member : ∀ t ∈ q, t ∈ v.threadList
  awake : ∀ t ∈ q, ¬ Asleep v t
  queued : ∀ t ∈ v.threadList, t ≠ v.idle → ¬ Asleep v t → t ∈ q

theorem QueueOk.perm (h : QueueOk v q) (hp : q'.Perm q) : QueueOk v q' :=
  ⟨hp.nodup_iff.mpr h.nodup, fun t ht => h.member t (hp.mem_iff.mp ht),
    fun t ht => h.awake t (hp.mem_iff.mp ht),
    fun t ht hne ha => hp.mem_iff.mpr (h.queued t ht hne ha)⟩

/-! ## What the hooks do to the queue -/

theorem perm_runqueueAdd (t : Tid) (s : Bvt) : (runqueueAdd t s).runqueue.Perm (t :: s.runqueue) :=
  List.perm_orderedInsert _ t s.runqueue

theorem perm_requeue (t : Tid) (s : Bvt) : (requeue t s).runqueue.Perm s.runqueue := by
  rw [requeue]
  split
  · next hin =>
    have hmem : t ∈ s.runqueue := by simpa [isInqueue] using hin
    exact (perm_runqueueAdd t _).trans (List.perm_cons_erase hmem).symm
  · exact .refl _

theorem perm_startWarp (now : Nat) (t : Tid) (s : Bvt) :
    (startWarp now t s).runqueue.Perm s.runqueue := by
  rw [startWarp]
  split
  · exact .refl _
  · split
    · exact perm_requeue t _
    · exact .refl _

theorem perm_wake (c : SchedControl) (caller : Caller) (t : Tid) (s : Bvt) :
    (wake c caller t s).runqueue.Perm (t :: s.runqueue) :=
  (perm_runqueueAdd t _).trans ((perm_startWarp _ t _).cons t)

theorem perm_chargeCurrent (c : SchedControl) (now : Nat) (s : Bvt) :
    (chargeCurrent c now s).runqueue.Perm s.runqueue := by
  rw [chargeCurrent]
  split
  · split
    · exact perm_requeue _ _
    · exact .refl _
  · exact .refl _

@[simp] theorem updateSvt_runqueue (s : Bvt) : (updateSvt s).runqueue = s.runqueue := by
  rw [updateSvt]
  split <;> rfl

theorem takeFirst_spec (khz : Nat) (c : SchedControl) (caller : Caller) (s : Bvt) :
    (takeFirst khz c caller s).1 = s.runqueue.headD c.idle ∧
      (takeFirst khz c caller s).2.runqueue = s.runqueue := by
  obtain ⟨data, runqueue, tickTimer, svt⟩ := s
  match runqueue with
  | [] => exact ⟨rfl, rfl⟩
  | [first] => exact ⟨rfl, rfl⟩
  | first :: second :: rest =>
    simp only [takeFirst]
    split <;> exact ⟨rfl, rfl⟩

theorem pickNext_spec (khz : Nat) (c : SchedControl) (caller : Caller) (s : Bvt) :
    (pickNext khz c caller s).2.runqueue.Perm s.runqueue ∧
      (pickNext khz c caller s).1 = (pickNext khz c caller s).2.runqueue.headD c.idle := by
  obtain ⟨hfirst, hqueue⟩ := takeFirst_spec khz c caller
    (updateSvt (chargeCurrent c (caller.ticks 1) s)).delTimer
  rw [pickNext, hfirst, hqueue]
  refine ⟨?_, rfl⟩
  show (updateSvt (chargeCurrent c (caller.ticks 1) s)).runqueue.Perm s.runqueue
  rw [updateSvt_runqueue]
  exact perm_chargeCurrent c _ s

theorem pickNext_mem (khz : Nat) (c : SchedControl) (caller : Caller) (s : Bvt) :
    (pickNext khz c caller s).1 ∈ s.runqueue ∨
      (s.runqueue = [] ∧ (pickNext khz c caller s).1 = c.idle) := by
  obtain ⟨hperm, hfirst⟩ := pickNext_spec khz c caller s
  rw [hfirst]
  generalize (pickNext khz c caller s).2.runqueue = q at hperm
  cases q with
  | nil => exact .inr ⟨List.nil_perm.mp hperm, rfl⟩
  | cons first rest => exact .inl (hperm.mem_iff.mp (by simp))

/-! ## The contract -/

variable (h : QueueOk v q)

include h

theorem QueueOk.initData (ht : t ∉ v.threadList) : QueueOk (v.init t) q := by
  have hasleep : ∀ {u}, u ≠ t → (Asleep (v.init t) u ↔ Asleep v u) := by
    intro u hu
    simp [Asleep, RunView.init, RunView.setStatus, RunView.setBlocking, hu]
  have hne : ∀ {u}, u ∈ v.threadList → u ≠ t := fun hu heq => ht (heq ▸ hu)
  refine ⟨h.nodup, fun u hu => List.mem_append_left _ (h.member u hu),
    fun u hu ha => h.awake u hu ((hasleep (hne (h.member u hu))).mp ha),
    fun u hu hidle ha => ?_⟩
  by_cases hut : u = t
  · -- it starts out BLOCKED
    rw [hut] at ha
    exact absurd (.inl (by simp [RunView.init, RunView.setStatus, RunView.setBlocking])) ha
  have hold : u ∈ v.threadList := by
    rcases List.mem_append.mp hu with hu | hu
    · exact hu
    · exact absurd (List.mem_singleton.mp hu) hut
  exact h.queued u hold hidle fun hw => ha ((hasleep hut).mpr hw)

theorem QueueOk.run : QueueOk (v.run v.idle) q := by
  refine ⟨h.nodup, h.member, fun u hu ha => h.awake u hu ?_, fun u hu hidle ha => ?_⟩
  · rcases ha with hst | hb
    · by_cases hut : u = v.idle
      · rw [hut] at hst
        simp [RunView.run, RunView.setStatus] at hst
      · exact .inl (by simpa [RunView.run, RunView.setStatus, hut] using hst)
    · exact .inr hb
  · have hne : u ≠ v.idle := hidle
    refine h.queued u hu hne fun hw => ha ?_
    simpa [Asleep, RunView.run, RunView.setStatus, hne] using hw

theorem QueueOk.sleep : QueueOk (v.sleep t) (q.erase t) := by
  have hoff := RunView.sleep_sameOff v t
  have hparked : Asleep (v.sleep t) t := by
    rw [Asleep, RunView.sleep]
    split
    · simp [RunView.setBlocking]
    · simp [RunView.setStatus]
  refine ⟨h.nodup.erase t, fun u hu => ?_, fun u hu ha => ?_, fun u hu hne ha => ?_⟩
  · rw [hoff.threadList]
    exact h.member u (List.mem_of_mem_erase hu)
  · obtain ⟨hut, hu⟩ := h.nodup.mem_erase_iff.mp hu
    exact h.awake u hu (hoff.asleep hut ha)
  · have hut : u ≠ t := fun heq => ha (heq ▸ hparked)
    rw [hoff.threadList] at hu
    rw [hoff.idle] at hne
    refine h.nodup.mem_erase_iff.mpr ⟨hut, h.queued u hu hne fun hw => ha ?_⟩
    rwa [Asleep, hoff.status u hut, hoff.beBlocking u hut]

theorem QueueOk.wake (ht : t ∈ v.threadList) (hw : Asleep v t) : QueueOk (v.wake t) (t :: q) := by
  have hoff := RunView.wake_sameOff v t
  refine ⟨List.nodup_cons.mpr ⟨fun hq => h.awake t hq hw, h.nodup⟩, fun u hu => ?_,
    fun u hu ha => ?_, fun u hu hne ha => ?_⟩
  · rw [hoff.threadList]
    rcases List.mem_cons.mp hu with rfl | hu
    · exact ht
    · exact h.member u hu
  · by_cases hut : u = t
    · rw [hut] at ha
      exact RunView.wake_not_parked v t ha
    · exact h.awake u (List.mem_of_ne_of_mem hut hu) (hoff.asleep hut ha)
  · by_cases hut : u = t
    · exact List.mem_cons.mpr (.inl hut)
    rw [hoff.threadList] at hu
    rw [hoff.idle] at hne
    refine List.mem_cons_of_mem _ (h.queued u hu hne fun hw => ha ?_)
    rwa [Asleep, hoff.status u hut, hoff.beBlocking u hut]

theorem QueueOk.switchTo {next : Tid} (hok : v.Ok) (hcur : v.currObj ≠ none)
    (hnext : next ∈ q ∨ next = v.idle) : QueueOk (v.switchTo next) q := by
  refine ⟨h.nodup, fun u hu => ?_, fun u hu ha => h.awake u hu (asleep_of_switchTo ha),
    fun u hu hne ha => ?_⟩
  · rw [RunView.switchTo_threadList]
    exact h.member u hu
  rw [RunView.switchTo_threadList] at hu
  rw [RunView.switchTo_idle] at hne
  by_cases hun : u = next
  · rw [hun]
    exact hnext.resolve_right (hun ▸ hne)
  · exact h.queued u hu hne fun hw => ha (hw.switchTo hok hu hcur hun)

omit h

end Bvt

open Bvt

theorem schedBvt_lawful (khz : Nat) (params : Tid → BvtParams) :
    Lawful (schedBvt khz params) (fun v s => QueueOk v s.runqueue)
      (fun v s => QueueOk v s.runqueue) where
  initData ht _ h := h.initData ht
  run _ _ h := h.run
  sleep _ _ h := h.sleep
  wake {c caller t s} ht hw _ h := (h.wake ht hw).perm (perm_wake c caller t s)
  enter h := h
  prioritize hf _ _ _ _ h := by
    injection hf with hf
    subst hf
    exact h.perm (perm_startWarp _ _ _)
  member {c caller s} hcur hok h := by
    rcases pickNext_mem khz c caller s with hin | ⟨-, hidle⟩
    · exact h.member _ hin
    · show (pickNext khz c caller s).1 ∈ c.threadList
      rw [hidle]
      exact hok.idle hcur
  canRun {c caller s} hcur hok h := by
    rcases pickNext_mem khz c caller s with hin | ⟨-, hidle⟩
    · have hawake := h.awake _ hin
      rw [Asleep, not_or, Bool.not_eq_true] at hawake
      exact .inr hawake
    · exact .inl hidle
  switch {c caller s} hcur hok h := by
    refine (h.switchTo hok hcur ?_).perm (pickNext_spec khz c caller s).1
    exact (pickNext_mem khz c caller s).imp_right And.right
  timerHandler _ _ h := h

/-! ## The idle thread is never queued -/

/-- What holds of a BVT pCPU while the lock is free. -/
structure BvtState (s : Clocked Bvt) : Prop where
  ok : s.pcpu.ctl.view.Ok
  queue : QueueOk s.pcpu.ctl.view s.pcpu.priv.runqueue
  idle : s.pcpu.ctl.idle ∉ s.pcpu.priv.runqueue

/-- A BVT pCPU before any thread is set up. -/
def bvtStart (idle : Tid) (obj : Tid → ThreadObject) (now : Nat) : Clocked Bvt :=
  .start (initSched idle obj Bvt.init) now

section

variable {khz : Nat} {params : Tid → BvtParams} {p : Pcpu Bvt} {s s' : Clocked Bvt}
  {caller : Caller} {ticks : Nat → Nat} {op : SchedOp} {cop : ClockOp} {t : Tid}

theorem perm_consumePriority :
    (consumePriority (schedBvt khz params) caller t p).priv.runqueue.Perm p.priv.runqueue := by
  rw [consumePriority]
  split
  · simp only [schedBvt]
    split
    · exact perm_startWarp _ _ _
    · exact .refl _
  · exact .refl _

theorem perm_consumePriorities (ts : List Tid) :
    (consumePriorities (schedBvt khz params) ticks ts p).priv.runqueue.Perm p.priv.runqueue := by
  induction ts generalizing ticks p with
  | nil => exact .refl _
  | cons t ts ih => exact ih.trans perm_consumePriority

theorem perm_pick (ticks : Nat → Nat) (p : Pcpu Bvt) :
    (pick (schedBvt khz params) ticks p).2.runqueue.Perm p.priv.runqueue :=
  (pickNext_spec khz _ _ _).1.trans (perm_consumePriorities _)

theorem mem_apply (h : t ∈ (op.apply (schedBvt khz params) caller p).priv.runqueue) :
    t ∈ p.priv.runqueue ∨ op = .wakeThread t := by
  cases op with
  | initThreadData u | runIdle | requestThreadPriority u | timerTick => exact .inl h
  | sleepThread u =>
    simp only [SchedOp.apply, sleepThread] at h
    split at h <;> exact .inl (List.mem_of_mem_erase h)
  | wakeThread u =>
    simp only [SchedOp.apply, wakeThread] at h
    split at h
    · rcases List.mem_cons.mp ((perm_wake p.ctl caller u p.priv).mem_iff.mp h) with rfl | h
      · exact .inr rfl
      · exact .inl h
    · exact .inl h
  | schedule =>
    simp only [SchedOp.apply, schedule_priv] at h
    exact .inl ((perm_pick _ _).mem_iff.mp h)

theorem BvtState.step (h : BvtState s)
    (hstep : ClockStep (schedBvt khz params) cop s s') : BvtState s' := by
  obtain ⟨hok, hqueue⟩ := (schedBvt_lawful khz params).clockStep (id) hstep h.ok h.queue
  refine ⟨hok, hqueue, ?_⟩
  cases hstep with
  | @call op caller hi _ hal hr hnow =>
    intro hmem
    have hidle : (op.apply (schedBvt khz params) caller s.pcpu).ctl.idle =
        s.pcpu.ctl.idle := (SchedOp.step_of_allowed hal caller).idle_eq
    simp only [Clocked.call, hidle] at hmem
    rcases mem_apply hmem with hmem | rfl
    · exact h.idle hmem
    · exact hal.2 rfl
  | clear =>
    have hidle : (clearRescheduleIfCurrentOnly s.pcpu.ctl).2.idle = s.pcpu.ctl.idle := by
      rw [clearRescheduleIfCurrentOnly]
      split <;> rfl
    simp only [Clocked.setCtl, hidle]
    exact h.idle
  | yield | suspend => exact h.idle

theorem BvtState.start (idle : Tid) (obj : Tid → ThreadObject) (now : Nat) :
    BvtState (bvtStart idle obj now) := by
  refine ⟨⟨?_, ?_, ?_, ?_⟩, ⟨List.nodup_nil, ?_, ?_, ?_⟩, by simp [bvtStart,
    Clocked.start, initSched, Bvt.init]⟩
  all_goals simp [bvtStart, Clocked.start, initSched, Bvt.init]

end

end Sima.Sched
