import Sima.Sched.RtdsCharge
import Sima.Sched.Shortcut

/-!
# The timer of RTDS

While a server runs, somebody has to look at the queues again in time: when its
budget is used up, when its period ends, and when the period of a depleted server
ends. Either a reschedule is already requested, or the timer is armed — it has one
shot, and its handler arms nothing but requests a reschedule instead.

That is why `sched_clear_reschedule_if_current_only` is not what it says. It takes
the request back because `schedule` would pick the same thread, but `schedule`
would also have armed the timer. Nothing is missed as long as the timer has not gone
off since the last `schedule`, and has not been programmed for a current thread that
goes to sleep.

A time that has passed is as good as the present: the timer that is armed for it
is due at once.
-/

namespace Sima.Sched

open Lib

namespace Rtds

variable {s s' : Rtds} {c : SchedControl} {t u : Tid} {now n hi : Nat} {d : RtdsData}
  {caller : Caller} {all : Bool}

/-- When the budget is used up if the server runs on. Time is counted from
`last_start_ticks`, or from now if that is not set. -/
def exhaustion (now : Nat) (d : RtdsData) : Nat :=
  (if d.lastStartTicks ≠ 0 then d.lastStartTicks else now) + d.remainingTicks

/-- The timer is armed, in time for the current server `t` and, if `all` is set, for the
depleted ones. -/
def Timed (all : Bool) (now : Nat) (s : Rtds) (t : Tid) : Prop :=
  ∃ timeout, s.tickTimer = some timeout ∧
    (0 < (s.data t).remainingTicks → timeout ≤ max now (exhaustion now (s.data t))) ∧
    timeout ≤ max now (s.data t).deadlineTicks ∧
    (all = true → ∀ u ∈ s.depletedQueue, timeout ≤ max now (s.data u).deadlineTicks)

def Covered (now : Nat) (s : Rtds) (t : Tid) : Prop := Timed true now s t

theorem exhaustion_mono (h : now ≤ hi) : exhaustion now d ≤ exhaustion hi d := by
  rw [exhaustion, exhaustion]
  split
  · exact le_rfl
  · exact Nat.add_le_add_right h _

theorem Timed.later (h : Timed all now s t) (hle : now ≤ hi) (htimer : s'.tickTimer = s.tickTimer)
    (hdata : s'.data t = s.data t) (hdepl : ∀ u ∈ s'.depletedQueue, all = true →
      u ∈ s.depletedQueue ∧ (s'.data u).deadlineTicks = (s.data u).deadlineTicks) :
    Timed all hi s' t := by
  obtain ⟨timeout, hset, hbudget, hdeadline, hall⟩ := h
  have hmono : ∀ {a b}, a ≤ b → max now a ≤ max hi b := fun hab => by omega
  refine ⟨timeout, htimer.trans hset, ?_, ?_, fun ha u hu => ?_⟩
  · rw [hdata]
    exact fun hpos => (hbudget hpos).trans (hmono (exhaustion_mono hle))
  · rw [hdata]
    exact hdeadline.trans (hmono le_rfl)
  · obtain ⟨hmem, hsame⟩ := hdepl u hu ha
    rw [hsame]
    exact (hall ha u hmem).trans (hmono le_rfl)

theorem Timed.mono {all' : Bool} (h : Timed all now s t) (hall : all' = true → all = true) :
    Timed all' now s t := by
  obtain ⟨timeout, hset, hbudget, hdeadline, hdepl⟩ := h
  exact ⟨timeout, hset, hbudget, hdeadline, fun ha => hdepl (hall ha)⟩

/-! ## Programming it -/

theorem foldl_depleted (key : Tid → Nat) {l : List Tid} (hpos : ∀ u ∈ l, 0 < key u) (next : Nat) :
    let r := l.foldl (fun next u =>
      if next = 0 || key u < next then key u else next) next
    (next ≠ 0 → r ≠ 0 ∧ r ≤ next) ∧ ∀ u ∈ l, r ≠ 0 ∧ r ≤ key u := by
  induction l generalizing next with
  | nil => exact ⟨fun h => ⟨h, le_rfl⟩, fun u hu => by cases hu⟩
  | cons x l ih =>
    have hx := hpos x (by simp)
    have hnext : (if next = 0 || key x < next then key x else next) ≠ 0 ∧
        (if next = 0 || key x < next then key x else next) ≤ key x ∧
        (next ≠ 0 → (if next = 0 || key x < next then key x else next) ≤ next) := by
      split
      · next h =>
        have h : next = 0 ∨ key x < next := by simpa using h
        exact ⟨by omega, le_rfl, fun hn => by omega⟩
      · next h =>
        have h : next ≠ 0 ∧ next ≤ key x := by simpa using h
        exact ⟨h.1, h.2, fun _ => le_rfl⟩
    obtain ⟨hfirst, hrest⟩ := ih (fun u hu => hpos u (List.mem_cons_of_mem _ hu))
      (if next = 0 || key x < next then key x else next)
    obtain ⟨hr, hle⟩ := hfirst hnext.1
    refine ⟨fun hn => ⟨hr, hle.trans (hnext.2.2 hn)⟩, fun u hu => ?_⟩
    rcases List.mem_cons.mp hu with rfl | hu
    · exact ⟨hr, hle.trans hnext.2.1⟩
    · exact hrest u hu

theorem runningTimeout_spec (hne : t ≠ c.idle) (hpos : 0 < (s.data t).deadlineTicks) :
    let timeout := runningTimeout c n (some t) s
    timeout ≠ 0 ∧ timeout ≤ max n (s.data t).deadlineTicks ∧
      (0 < (s.data t).remainingTicks → timeout ≤ max n (exhaustion n (s.data t))) := by
  have hidle : c.isIdleThread t = false := by simpa [SchedControl.isIdleThread] using hne
  simp only [runningTimeout, exhaustion, hidle, Bool.false_eq_true, if_false]
  split
  · next hrem =>
    generalize hbase : (if (s.data t).lastStartTicks ≠ 0 then
      (s.data t).lastStartTicks + (s.data t).remainingTicks
      else n + (s.data t).remainingTicks) = base
    have heq : (if (s.data t).lastStartTicks ≠ 0 then (s.data t).lastStartTicks else n) +
        (s.data t).remainingTicks = base := by
      rw [← hbase]
      split <;> rfl
    rw [heq]
    generalize hmeet : (if (s.data t).deadlineTicks < base then
      (s.data t).deadlineTicks else base) = meet
    have hle : 0 < meet ∧ meet ≤ (s.data t).deadlineTicks ∧ meet ≤ base := by
      rw [← hmeet]
      split <;> omega
    refine ⟨?_, ?_, fun _ => ?_⟩ <;> split <;> omega
  · next hrem =>
    refine ⟨?_, ?_, fun h => absurd h hrem⟩ <;> split <;> omega

theorem programLocalTimer_timed (hne : t ≠ c.idle) (hpos : 0 < (s.data t).deadlineTicks)
    (hdepl : all = true → ∀ u ∈ s.depletedQueue, 0 < (s.data u).deadlineTicks) :
    Timed all n (programLocalTimer c n (some t) s) t := by
  obtain ⟨hzero, hdeadline, hbudget⟩ := runningTimeout_spec hne hpos
  have hmin : all = true → ∀ u ∈ s.depletedQueue, nextDepletedDeadline s ≠ 0 ∧
      nextDepletedDeadline s ≤ (s.data u).deadlineTicks :=
    fun ha => (foldl_depleted _ (hdepl ha) 0).2
  simp only [programLocalTimer]
  generalize runningTimeout c n (some t) s = timeout at hzero hdeadline hbudget ⊢
  generalize nextDepletedDeadline s = replenish at hmin ⊢
  generalize hmeet : (if (replenish ≠ 0 && (timeout == 0 || decide (replenish < timeout)))
    = true then replenish else timeout) = final
  have hfinal : final ≠ 0 ∧ final ≤ timeout ∧ (replenish ≠ 0 → final ≤ replenish) := by
    rw [← hmeet]
    split
    · next h =>
      have h : replenish ≠ 0 ∧ (timeout = 0 ∨ replenish < timeout) := by simpa using h
      exact ⟨h.1, by omega, fun _ => le_rfl⟩
    · next h =>
      have h : replenish ≠ 0 → timeout ≠ 0 ∧ timeout ≤ replenish := by simpa using h
      exact ⟨hzero, le_rfl, fun hr => (h hr).2⟩
  refine ⟨final, if_pos hfinal.1, fun hrem => hfinal.2.1.trans (hbudget hrem),
    hfinal.2.1.trans hdeadline, fun ha u hu => ?_⟩
  obtain ⟨hr, hle⟩ := hmin ha u hu
  exact (hfinal.2.2 hr).trans (hle.trans (le_max_right _ _))

/-- It stays in time if it is programmed again, here, or left alone. -/
theorem Timed.program (h : Timed all now s t) (hne : t ≠ c.idle)
    (hpos : 0 < (s.data t).deadlineTicks)
    (hdepl : all = true → ∀ u ∈ s.depletedQueue, 0 < (s.data u).deadlineTicks)
    (hnow : now ≤ hi) (hle : caller.ticks 1 ≤ hi) :
    Timed all hi (programTimer c caller (some t) s) t := by
  rw [programTimer]
  split
  · exact (programLocalTimer_timed hne hpos hdepl).later hle rfl rfl fun _ hu _ => ⟨hu, rfl⟩
  · exact h.later hnow rfl rfl fun _ hu _ => ⟨hu, rfl⟩

/-! ## The hooks that leave a request alone -/

theorem queueRemove_tickTimer : (queueRemove u s).tickTimer = s.tickTimer := by
  rw [queueRemove]
  split <;> rfl

theorem sleep_spec (hne : isCurrent c u = false) : ∃ s₁, sleep c caller u s =
    programTimer c caller c.currObj s₁ ∧ s₁.tickTimer = s.tickTimer ∧
      (∀ t ≠ u, s₁.data t = s.data t) ∧
      ∀ w ∈ s₁.depletedQueue, w ∈ s.depletedQueue ∧
        (s₁.data w).deadlineTicks = (s.data w).deadlineTicks := by
  refine ⟨(queueRemove u s).modify u fun d => { d with lastStartTicks := 0 }, ?_, ?_,
    fun t ht => ?_, fun w hw => ⟨?_, ?_⟩⟩
  · simp only [Rtds.sleep, hne, Bool.false_eq_true, if_false]
  · exact queueRemove_tickTimer
  · simp [queueRemove_data, tagged, ht]
  · simp only [queueRemove] at hw
    split at hw
    · exact List.mem_of_mem_erase hw
    · exact hw
  · by_cases hwu : w = u
    · subst hwu
      simp [queueRemove_data, tagged]
    · simp [queueRemove_data, tagged, hwu]

theorem wake_spec (hl : Linked s) : ∃ s₁, wake c caller u s = programTimer c caller c.currObj s₁ ∧
    s₁.tickTimer = s.tickTimer ∧ ∀ t ≠ u, s₁.data t = s.data t := by
  refine ⟨_, rfl, ?_, fun t ht => ?_⟩
  · split
    · rw [readyInsert_eq]
      exact queueRemove_tickTimer
    · rw [depletedInsert]
      split
      · rfl
      · split
        · exact queueRemove_tickTimer
        · rfl
  · obtain ⟨q, hdata⟩ := wake_data c caller u hl
    have hsame := congrFun hdata t
    rw [wake, programTimer_data, Function.update_of_ne ht] at hsame
    exact hsame

section Others

variable (hcur : c.currObj = some t) (hidle : t ≠ c.idle) (hne : u ≠ t)
  (hpos : 0 < (s.data t).deadlineTicks) (hnow : now ≤ hi) (hle : caller.ticks 1 ≤ hi)

include hcur hidle hne hpos hnow hle

/-- Another thread is put to sleep or woken. -/
theorem Timed.sleep (h : Timed all now s t)
    (hdepl : all = true → ∀ w ∈ s.depletedQueue, 0 < (s.data w).deadlineTicks) :
    Timed all hi (Rtds.sleep c caller u s) t := by
  have hnot : isCurrent c u = false := by simpa [isCurrent, hcur] using Ne.symm hne
  obtain ⟨s₁, hs₁, htimer, hdata, hfewer⟩ := sleep_spec hnot
  have hsame := hdata t (Ne.symm hne)
  rw [hs₁, hcur]
  refine (h.later le_rfl htimer hsame fun w hw _ => hfewer w hw).program hidle
    (by rw [hsame]; exact hpos) (fun ha w hw => ?_) hnow hle
  rw [(hfewer w hw).2]
  exact hdepl ha w (hfewer w hw).1

theorem Timed.wake (h : Timed false now s t) (hl : Linked s) :
    Timed false hi (Rtds.wake c caller u s) t := by
  obtain ⟨s₁, hs₁, htimer, hdata⟩ := wake_spec hl
  have hsame := hdata t (Ne.symm hne)
  rw [hs₁, hcur]
  exact (h.later le_rfl htimer hsame fun w _ ha => by cases ha).program hidle
    (by rw [hsame]; exact hpos) (fun ha => by cases ha) hnow hle

end Others

theorem pickNext_covered {period : Nat} (hmid : MidRanked period hi c.view s) (hp : 0 < period)
    (hok : c.view.Ok) (hcur : c.currObj ≠ none) (hhere : caller.here = true)
    (hle : caller.ticks 0 ≤ hi) (hle' : caller.ticks 1 ≤ hi)
    (hidle : (pickNext c caller s).1 ≠ c.idle) :
    Covered hi (pickNext c caller s).2 (pickNext c caller s).1 := by
  obtain ⟨hmem, -, hfree⟩ := hmid.queues.pickNext hok hcur caller
  obtain ⟨-, hedf⟩ := hmid.pickNext hp hok hcur caller hle
  have hdepl : ∀ w ∈ (pickNext c caller s).2.depletedQueue,
      0 < ((pickNext c caller s).2.data w).deadlineTicks := by
    intro w hw
    refine (hedf.aligned w ?_).pos
    have hq := (hfree.linked.depleted w).mp hw
    have := (hfree.thread w).member (by rw [hq]; simp)
    rwa [RunView.switchTo_threadList] at this
  have hpos := (hedf.aligned _ hmem).pos
  obtain ⟨s₁, hs₁⟩ : ∃ s₁, (Rtds.pickNext c caller s).2 =
      programTimer c caller (some (Rtds.pickNext c caller s).1) s₁ := ⟨_, rfl⟩
  rw [hs₁, programTimer, if_pos hhere] at hdepl hpos ⊢
  exact (programLocalTimer_timed hidle hpos fun _ => hdepl).later hle' rfl rfl
    fun _ hu _ => ⟨hu, rfl⟩

end Rtds

/-! ## Every run -/

open Rtds

/-- Since the last `schedule`, has the timer handler run, or was the current thread put to
sleep? -/
def noteUnwatched (op : ClockOp) (s : Clocked Rtds) (unwatched : Bool) : Bool :=
  match op with
  | .call .timerTick _ => true
  | .call (.sleepThread t) _ => unwatched || s.pcpu.ctl.currObj == some t
  | .call .schedule _ => false
  | _ => unwatched

/-- The request is taken back only if neither has happened, and the timer is stopped only
while the idle thread is current. -/
def KeepsWatch (op : ClockOp) (x : Clocked Rtds × Bool) : Prop :=
  match op with
  | .clear => (clearRescheduleIfCurrentOnly x.1.pcpu.ctl).1 = true → x.2 = false
  | .suspend => ∀ t, x.1.pcpu.ctl.currObj = some t → t = x.1.pcpu.ctl.idle
  | _ => True

/-- Whoever runs is watched: by a request or by the timer. A thread that is about to block
was put to sleep. -/
structure Watched (c : SchedControl) (now : Nat) (s : Rtds) (unwatched : Bool) : Prop where
  asleep : ∀ t, c.currObj = some t → t ≠ c.idle → Asleep c.view t → unwatched = true
  asked : ∀ t, c.currObj = some t → t ≠ c.idle → unwatched = true → c.needReschedule = true
  timed : ∀ t, c.currObj = some t → t ≠ c.idle → unwatched = false →
    Timed (!c.needReschedule) now s t

variable {khz hi : Nat} {s s' : Clocked Rtds} {op : ClockOp} {t : Tid} {unwatched : Bool}

theorem RtdsState.deadline_pos (h : RtdsState khz s) (ht : t ∈ s.pcpu.ctl.threadList) :
    0 < (s.pcpu.priv.data t).deadlineTicks :=
  (h.edf.aligned t ht).pos

theorem RtdsState.depleted_pos (h : RtdsState khz s) (ht : t ∈ s.pcpu.priv.depletedQueue) :
    0 < (s.pcpu.priv.data t).deadlineTicks := by
  refine h.deadline_pos ((h.free.thread t).member ?_)
  rw [(h.free.linked.depleted t).mp ht]
  simp

theorem Watched.schedule (hbase : RtdsState khz s) (hkhz : 0 < khz)
    (hcur : s.pcpu.ctl.currObj ≠ none) {ticks : Nat → Nat} (hr : Readings s.now hi ticks) :
    Watched (Sched.schedule (schedRtds khz) ticks s.pcpu).ctl hi
      (Sched.schedule (schedRtds khz) ticks s.pcpu).priv false := by
  have hview := view_beforePick (schedRtds khz) ticks s.pcpu
  have hmid := (hbase.beforePick hkhz hcur hr).later (hr.last _)
  have hok := hbase.ok
  rw [← hview] at hmid hok
  have hcur' := (currObj_beforePick (schedRtds khz) ticks s.pcpu).trans_ne hcur
  have hidle : (Sched.schedule (schedRtds khz) ticks s.pcpu).ctl.idle = s.pcpu.ctl.idle :=
    (SchedStep.schedule ticks hcur).idle_eq
  have hidle' : (beforePick (schedRtds khz) ticks s.pcpu).ctl.idle = s.pcpu.ctl.idle :=
    congrArg RunView.idle hview
  refine ⟨fun t ht hne ha => ?_, fun t ht hne hn => by (cases hn), fun t ht hne _ => ?_⟩
  · -- whom `pick_next` picks is not about to block
    rw [view_schedule] at ha
    rw [hidle] at hne
    exact absurd ht ((schedRtds_lawful hkhz).currObj_schedule hbase.ok hbase.free hne
      (asleep_of_switchTo ha) ticks hcur)
  · rw [currObj_schedule] at ht
    obtain rfl := Option.some.inj ht
    rw [hidle, ← hidle'] at hne
    rw [schedule_priv]
    exact (pickNext_covered hmid (rtdsPeriodTicks_pos hkhz) hok hcur' rfl (hr.last _)
      (hr.last _) hne).mono fun _ => rfl

theorem noteUnwatched_call {op : SchedOp} {caller : Caller} (hop : op ≠ .schedule) :
    noteUnwatched (.call op caller) s unwatched = true ↔ unwatched = true ∨ op = .timerTick ∨
      ∃ t, op = .sleepThread t ∧ s.pcpu.ctl.currObj = some t := by
  cases op <;> simp_all [noteUnwatched]

section

variable (h : Watched s.pcpu.ctl s.now s.pcpu.priv unwatched) (hbase : RtdsState khz s)
  (hkhz : 0 < khz)

include h hbase

/-- A call other than `schedule` leaves the timer of the current thread in time. -/
theorem Watched.timed_apply {op : SchedOp} {caller : Caller} (hal : op.Allowed s.pcpu.ctl)
    (hop : op ≠ .schedule) (hr : Readings (s.readsFrom op) hi caller.ticks) (hnow : s.now ≤ hi)
    (hcur : s.pcpu.ctl.currObj = some t) (hidle : t ≠ s.pcpu.ctl.idle)
    (hn : ¬ noteUnwatched (.call op caller) s unwatched = true) :
    Timed (!(op.apply (schedRtds khz) caller s.pcpu).ctl.needReschedule) hi
      (op.apply (schedRtds khz) caller s.pcpu).priv t := by
  rw [noteUnwatched_call hop, not_or, not_or, Bool.not_eq_true] at hn
  obtain ⟨hn, htick, hsleep⟩ := hn
  have htimed := h.timed t hcur hidle hn
  have hmem := hbase.ok.current t hcur
  have hpos := hbase.deadline_pos hmem
  have hrun : (s.pcpu.ctl.obj t).status = .running := (hbase.ok.running t hmem).mpr hcur
  cases op with
  | initThreadData u =>
    have hsame : ∀ {t}, t ≠ u →
        (initThreadData (schedRtds khz) caller u s.pcpu).priv.data t = s.pcpu.priv.data t :=
      fun htu => Function.update_of_ne htu _ _
    refine htimed.later hnow rfl (hsame fun heq => hal (heq ▸ hmem)) fun w hw _ => ?_
    have hwu : w ≠ u := fun heq => hal (heq ▸ (hbase.free.thread w).member (by
      rw [(hbase.free.linked.depleted w).mp hw]; simp))
    exact ⟨hw, congrArg RtdsData.deadlineTicks (hsame hwu)⟩
  | runIdle =>
    rw [hal.1] at hcur
    cases hcur
  | sleepThread u =>
    have hne : u ≠ t := fun heq => hsleep ⟨t, by rw [heq], hcur⟩
    have hnot : ¬ (s.pcpu.ctl.obj u).isRunning = true := fun hrun' =>
      hne (Option.some.inj (((hbase.ok.running u hal.1).mp
        (by simpa [ThreadObject.isRunning] using hrun')).symm.trans hcur))
    simp only [SchedOp.apply, sleepThread, if_neg hnot]
    exact htimed.sleep hcur hidle hne hpos hnow (hr.last 1) fun _ w hw => hbase.depleted_pos hw
  | wakeThread u =>
    simp only [SchedOp.apply, wakeThread]
    split
    · next hw =>
      have hne : u ≠ t := by
        -- the current thread is not asleep, or it would have been put to sleep
        rintro rfl
        have hb : (s.pcpu.ctl.obj u).beBlocking = true := by
          simpa [ThreadObject.isBlocked, hrun] using hw
        have hold := h.asleep u hcur hidle (.inr hb)
        rw [hn] at hold
        cases hold
      have hblk : (s.pcpu.ctl.obj u).isBlocked = true := by
        cases hb : (s.pcpu.ctl.obj u).beBlocking with
        | true =>
          exact absurd (Option.some.inj ((hbase.ok.blocking u hal.1 hb).symm.trans hcur)) hne
        | false => simpa [hb] using hw
      simp only [hblk, if_true]
      exact (htimed.mono fun ha => by cases ha).wake hcur hidle hne hpos hnow (hr.last 1)
        hbase.free.linked
    · exact htimed.later hnow rfl rfl fun _ hw _ => ⟨hw, rfl⟩
  | requestThreadPriority u =>
    exact (htimed.mono fun ha => by cases ha).later hnow rfl rfl fun _ hw _ => ⟨hw, rfl⟩
  | schedule => exact absurd rfl hop
  | timerTick => exact absurd rfl htick

include hkhz

theorem Watched.apply {op : SchedOp} {caller : Caller} (hal : op.Allowed s.pcpu.ctl)
    (hr : Readings (s.readsFrom op) hi caller.ticks) (hnow : s.now ≤ hi) :
    Watched (op.apply (schedRtds khz) caller s.pcpu).ctl hi
      (op.apply (schedRtds khz) caller s.pcpu).priv
      (noteUnwatched (.call op caller) s unwatched) := by
  by_cases hop : op = .schedule
  · subst hop
    exact .schedule hbase hkhz hal hr
  have hstep := SchedOp.step_of_allowed (S := schedRtds khz) hal caller
  have hsame : ∀ {t}, (op.apply (schedRtds khz) caller s.pcpu).ctl.currObj = some t →
      t ≠ (op.apply (schedRtds khz) caller s.pcpu).ctl.idle →
      s.pcpu.ctl.currObj = some t ∧ t ≠ s.pcpu.ctl.idle := by
    intro t ht hne
    rw [hstep.idle_eq] at hne
    refine ⟨?_, hne⟩
    rcases hstep.view_frame.2.2 with heq | hsched | ⟨rfl, -⟩
    · exact heq.symm.trans ht
    · exact absurd hsched hop
    · exact absurd (Option.some.inj ht).symm hne
  refine ⟨fun t ht hne ha => ?_, fun t ht hne hn => ?_, fun t ht hne hn => ?_⟩ <;>
    obtain ⟨hcur, hidle⟩ := hsame ht hne
  · rw [noteUnwatched_call hop]
    by_cases hsleep : op = .sleepThread t
    · exact .inr (.inr ⟨t, hsleep, hcur⟩)
    · exact .inl (h.asleep t hcur hidle (hstep.asleep (hbase.ok.current t hcur) hsleep ha))
  · rcases (noteUnwatched_call hop).mp hn with hold | rfl | ⟨u, rfl, hu⟩
    · exact hstep.needReschedule hop (h.asked t hcur hidle hold)
    · rfl
    · have hrun : (s.pcpu.ctl.obj u).status = .running :=
        (hbase.ok.running u hal.1).mpr hu
      simp only [SchedOp.apply, sleepThread]
      rw [if_pos (by simp [ThreadObject.isRunning, hrun])]
      rfl
  · exact h.timed_apply hbase hal hop hr hnow hcur hidle (Bool.not_eq_true _ ▸ hn)

omit hkhz in
/-- When the request is taken back, a depleted server can only be the current one. -/
theorem Watched.cleared (hclear : (clearRescheduleIfCurrentOnly s.pcpu.ctl).1 = true)
    (hun : unwatched = false) (hcur : s.pcpu.ctl.currObj = some t) :
    Covered s.now s.pcpu.priv t := by
  obtain ⟨cur, hcur', hidle, -, honly⟩ := cleared_spec hclear
  obtain rfl : t = cur := Option.some.inj (hcur.symm.trans hcur')
  obtain ⟨n, hset, hbudget, hdeadline, -⟩ := h.timed t hcur hidle hun
  refine ⟨n, hset, hbudget, hdeadline, fun _ u hu => ?_⟩
  have hq : (s.pcpu.priv.data u).queue ≠ .none := by
    rw [(hbase.free.linked.depleted u).mp hu]
    simp
  have hne : u ≠ s.pcpu.ctl.idle := fun heq => hq (heq ▸ hbase.edf.idle)
  have hmem := (hbase.free.thread u).member hq
  rw [honly u hmem hne fun hasleep => hq ((hbase.free.thread u).parked hne hasleep)]
  exact hdeadline

theorem Watched.step (hok : KeepsWatch op (s, unwatched))
    (hstep : ClockStep (schedRtds khz) op s s') :
    Watched s'.pcpu.ctl s'.now s'.pcpu.priv (noteUnwatched op s unwatched) := by
  cases hstep with
  | call hal hr hnow => exact h.apply hbase hkhz hal hr hnow
  | clear =>
    have hok : (clearRescheduleIfCurrentOnly s.pcpu.ctl).1 = true → unwatched = false := hok
    by_cases hclear : (clearRescheduleIfCurrentOnly s.pcpu.ctl).1 = true
    · have hctl : (clearRescheduleIfCurrentOnly s.pcpu.ctl).2 =
          { s.pcpu.ctl with needReschedule := false } := by
        rw [clearRescheduleIfCurrentOnly] at hclear ⊢
        split
        · rfl
        · simp_all
      rw [hctl]
      obtain rfl := hok hclear
      exact ⟨h.asleep, fun t ht hi hn => by (cases hn),
        fun t ht _ _ => h.cleared hbase hclear rfl ht⟩
    · have hctl : (clearRescheduleIfCurrentOnly s.pcpu.ctl).2 = s.pcpu.ctl := by
        rw [clearRescheduleIfCurrentOnly] at hclear ⊢
        split
        · simp_all
        · rfl
      rw [hctl]
      exact h
  | yield =>
    exact ⟨h.asleep, fun _ _ _ _ => rfl,
      fun t ht hi hn => (h.timed t ht hi hn).mono fun ha => by (cases ha)⟩
  | suspend =>
    exact ⟨fun t ht hne => absurd (hok t ht) hne, fun t ht hne => absurd (hok t ht) hne,
      fun t ht hne => absurd (hok t ht) hne⟩

end

variable {idle now : Nat} {obj : Tid → ThreadObject} {tr : List ClockOp}

/-- In every run in which the request is taken back only if, since the last `schedule`,
the timer has not gone off and the current thread was not put to sleep, and in which the
timer is stopped only while the idle thread is current: while a thread other than the
idle one runs, either a reschedule is requested or the timer is armed in time. -/
theorem rtds_timer_armed (hkhz : 0 < khz)
    (hrun : GuardedRun (Noted (ClockStep (schedRtds khz)) noteUnwatched) KeepsWatch
      (rtdsStart idle obj now, false) tr (s, unwatched))
    (hcur : s.pcpu.ctl.currObj = some t) (hne : t ≠ s.pcpu.ctl.idle) :
    s.pcpu.ctl.needReschedule = true ∨ Covered s.now s.pcpu.priv t := by
  have h := hrun.inv (P := fun _ x => RtdsState khz x.1 ∧
      Watched x.1.pcpu.ctl x.1.now x.1.pcpu.priv x.2)
    ⟨.start idle obj now, fun t ht => by (cases ht), fun t ht => by (cases ht),
      fun t ht => by (cases ht)⟩ ?_
  · cases unwatched with
    | true => exact .inl (h.2.asked t hcur hne rfl)
    | false =>
      have htimed := h.2.timed t hcur hne rfl
      cases hneed : s.pcpu.ctl.needReschedule with
      | true => exact .inl rfl
      | false =>
        rw [hneed] at htimed
        exact .inr htimed
  rintro op tr x y ⟨hbase, hw⟩ hok ⟨hs, hnote⟩
  refine ⟨hbase.step hkhz hs, ?_⟩
  rw [hnote]
  exact hw.step hbase hkhz hok hs

theorem Turn.watched {script : List Turn} {x : Clocked Rtds × Bool}
    (h : Meets (fun a x => (a.play (schedRtds khz) x.1, noteUnwatched a.label x.1 x.2))
      (fun a x => a.Can x.1) x script) :
    GuardedRun (Noted (ClockStep (schedRtds khz)) noteUnwatched) KeepsWatch x
      (script.map label).reverse (script.foldl (fun x a =>
        (a.play (schedRtds khz) x.1, noteUnwatched a.label x.1 x.2)) x) :=
  .of_script (fun _ _ h => ⟨trivial, h.step, rfl⟩) h

/-- A request for server 1, which runs alone, is taken back. The timer stays armed for
the end of its budget. -/
theorem rtds_timer_armed_cleared : ∃ s : Clocked Rtds,
    (s.pcpu.ctl.needReschedule = true ∨ Covered s.now s.pcpu.priv 1) ∧
      s.pcpu.ctl.needReschedule = false ∧ s.pcpu.priv.tickTimer = some 2010 := by
  have hrun : GuardedRun (Noted (ClockStep (schedRtds 1000)) noteUnwatched) KeepsWatch
      (rtdsStart 0 (fun _ => blankThread) 3, false) _ _ :=
    Turn.watched (show Meets _ _ _ [⟨.initThreadData 0, 4, 0, 4⟩, ⟨.runIdle, 5, 0, 5⟩,
      ⟨.initThreadData 1, 6, 0, 6⟩, ⟨.wakeThread 1, 8, 0, 8⟩, ⟨.schedule, 10, 0, 10⟩,
      ⟨.requestThreadPriority 1, 12, 0, 12⟩] by decide +kernel)
  have hstep : ∀ x : Clocked Rtds × Bool, Noted (ClockStep (schedRtds 1000)) noteUnwatched
      .clear x (x.1.setCtl (clearRescheduleIfCurrentOnly x.1.pcpu.ctl).2, x.2) :=
    fun x => ⟨.clear, rfl⟩
  have hclear := hrun.cons (show KeepsWatch .clear _ from fun _ => ?_) (hstep _)
  · exact ⟨_, rtds_timer_armed (by decide) hclear (by decide +kernel) (by decide +kernel),
      by decide +kernel⟩
  · decide +kernel

/-- The timer goes off, and the request that its handler makes is taken back. -/
theorem rtds_timer_lost : ∃ tr s, GuardedRun (ClockStep (schedRtds 1000)) (fun _ _ => True)
      (rtdsStart 0 (fun _ => blankThread) 3) tr s ∧
      s.pcpu.ctl.currObj = some 1 ∧ s.pcpu.ctl.idle = 0 ∧
      s.pcpu.ctl.needReschedule = false ∧ s.pcpu.priv.tickTimer = none := by
  have hrun : GuardedRun (ClockStep (schedRtds 1000)) (fun _ _ => True) _ _
      (Turn.plays _ [⟨.initThreadData 0, 4, 0, 4⟩, ⟨.runIdle, 5, 0, 5⟩,
        ⟨.initThreadData 1, 6, 0, 6⟩, ⟨.wakeThread 1, 8, 0, 8⟩, ⟨.schedule, 10, 0, 10⟩,
        ⟨.timerTick, 2010, 0, 2010⟩] (rtdsStart 0 (fun _ => blankThread) 3)) :=
    Turn.run (by decide +kernel)
  exact ⟨_, _, hrun.cons trivial .clear, by decide +kernel⟩

end Sima.Sched
