import Sima.Sched.Status

/-!
# Asleep

A thread that is BLOCKED, or about to be at the next switch, is asleep. Nothing
but `sleep_thread` puts a thread to sleep and nothing but `wake_thread` wakes it
up. The first is a matter of the common code. The second is the reason why
`schedule` needs a lawful scheduler: one that picked a blocked thread would let
it run.
-/

namespace Sima.Sched

open RunView

variable {σ : Type}

/-- Blocked, or about to be. -/
def Asleep (v : RunView) (t : Tid) : Prop :=
  v.status t = .blocked ∨ v.beBlocking t = true

variable {S : AcrnScheduler σ} {I M : RunView → σ → Prop} {v v' : RunView} {t u next : Tid}
  {op : SchedOp} {p p' : Pcpu σ}

/-! ## Falling asleep -/

theorem RunView.SameOff.asleep (h : RunView.SameOff u v v') (hne : t ≠ u)
    (ha : Asleep v' t) : Asleep v t := by
  rw [Asleep, h.status t hne, h.beBlocking t hne] at ha
  exact ha

/-- A switch puts nobody to sleep: who blocks in it was about to. -/
theorem asleep_of_switchTo (ha : Asleep (v.switchTo next) t) : Asleep v t := by
  cases hcur : v.currObj with
  | none =>
    rw [RunView.switchTo] at ha
    simp only [hcur] at ha
    by_cases hn : t = next
    · subst hn
      simp only [setStatus] at ha
      exact .inr (ha.resolve_left (by simp))
    · simpa [Asleep, setStatus, hn] using ha
  | some prev =>
    by_cases hsame : prev = next
    · rw [RunView.switchTo, if_pos (by rw [hcur, hsame])] at ha
      exact ha
    rw [Asleep, switchTo_status hcur hsame, switchTo_beBlocking hcur hsame] at ha
    by_cases htp : t = prev
    · subst htp
      rw [if_neg hsame] at ha
      cases hb : v.beBlocking t with
      | true => exact .inr hb
      | false => simp [hb] at ha
    · split at ha
      · exact .inr (ha.resolve_left (by simp))
      · exact ha

variable (h : SchedStep S op p p')

include h

/-- No step of the scheduler but its own `sleep_thread` puts a thread to
sleep. -/
theorem SchedStep.asleep (ht : t ∈ p.ctl.threadList)
    (hop : op ≠ .sleepThread t) (ha : Asleep p'.ctl.view t) : Asleep p.ctl.view t := by
  cases h with
  | @initThreadData caller u _ hu =>
    have hne : t ≠ u := fun heq => hu (heq ▸ ht)
    rw [view_initThreadData] at ha
    simpa [Asleep, init, setStatus, setBlocking, hne] using ha
  | runIdle ticks hcur hidle =>
    rw [view_runThread] at ha
    by_cases hi : t = p.ctl.idle
    · subst hi
      simp only [run, setStatus] at ha
      exact .inr (ha.resolve_left (by simp))
    · simpa [Asleep, run, setStatus, hi] using ha
  | @sleepThread caller u _ hu =>
    have hne : t ≠ u := fun heq => hop (by rw [heq])
    rw [view_sleepThread] at ha
    exact (sleep_sameOff _ u).asleep hne ha
  | @wakeThread caller u _ hu =>
    rw [view_wakeThread] at ha
    by_cases hne : t = u
    · rw [hne] at ha
      exact absurd ha (wake_not_parked _ u)
    · exact (wake_sameOff _ u).asleep hne ha
  | requestThreadPriority hu =>
    rw [view_requestThreadPriority] at ha
    exact ha
  | schedule ticks hcur =>
    rw [view_schedule] at ha
    exact asleep_of_switchTo ha
  | timerTick ticks hcur =>
    rw [view_timerTick] at ha
    exact ha

/-! ## What stays in a step -/

/-- Of the idle thread, the thread list and the current thread, a step changes the list when
it sets up a thread, and the current thread when it starts the idle one or schedules. -/
theorem SchedStep.view_frame : p'.ctl.view.idle = p.ctl.view.idle ∧
    (p'.ctl.view.threadList = p.ctl.view.threadList ∨ ∃ u, op = .initThreadData u ∧
        p'.ctl.view.threadList = p.ctl.view.threadList ++ [u]) ∧
    (p'.ctl.view.currObj = p.ctl.view.currObj ∨ op = .schedule ∨
      op = .runIdle ∧ p.ctl.currObj = none) := by
  cases h with
  | @initThreadData caller u _ hu =>
    exact ⟨rfl, .inr ⟨u, rfl, rfl⟩, .inl rfl⟩
  | runIdle ticks hcur hidle =>
    exact ⟨rfl, .inl rfl, .inr (.inr ⟨rfl, hcur⟩)⟩
  | @sleepThread caller u _ hu =>
    have hs := sleep_sameOff p.ctl.view u
    rw [view_sleepThread]
    exact ⟨hs.idle, .inl hs.threadList, .inl hs.currObj⟩
  | @wakeThread caller u _ hu =>
    have hs := wake_sameOff p.ctl.view u
    rw [view_wakeThread]
    exact ⟨hs.idle, .inl hs.threadList, .inl hs.currObj⟩
  | requestThreadPriority hu =>
    rw [view_requestThreadPriority]
    exact ⟨rfl, .inl rfl, .inl rfl⟩
  | schedule ticks hcur =>
    rw [view_schedule, switchTo_idle, switchTo_threadList]
    exact ⟨rfl, .inl rfl, .inr (.inl rfl)⟩
  | timerTick ticks hcur =>
    rw [view_timerTick]
    exact ⟨rfl, .inl rfl, .inl rfl⟩

theorem SchedStep.idle_eq : p'.ctl.idle = p.ctl.idle := h.view_frame.1

theorem SchedStep.mem_threadList (ht : t ∈ p.ctl.threadList) : t ∈ p'.ctl.threadList := by
  have hview : t ∈ p'.ctl.view.threadList := by
    obtain heq | ⟨u, -, heq⟩ := h.view_frame.2.1
    · exact heq ▸ ht
    · rw [heq]
      exact List.mem_append_left _ ht
  exact hview

theorem SchedStep.threadList_eq
    (hop : ∀ t, op ≠ .initThreadData t) : p'.ctl.threadList = p.ctl.threadList :=
  h.view_frame.2.1.resolve_right fun hinit => hop _ hinit.choose_spec.1

omit h in
theorem currObj_schedule (S : AcrnScheduler σ) (ticks : Nat → Nat) (p : Pcpu σ) :
    (schedule S ticks p).ctl.currObj = some (pick S ticks p).1 := by
  rw [← SchedControl.view_currObj, view_schedule, switchTo_currObj]

/-- Only `schedule` changes who is current, once the idle thread has started. -/
theorem SchedStep.currObj_eq (hop : op ≠ .schedule)
    (hcur : p.ctl.currObj ≠ none) : p'.ctl.currObj = p.ctl.currObj :=
  h.view_frame.2.2.resolve_right fun hother => hother.elim hop fun hrun => hcur hrun.2

theorem SchedStep.currObj_ne_none (hcur : p.ctl.currObj ≠ none) : p'.ctl.currObj ≠ none := by
  by_cases hop : op = .schedule
  · subst hop
    cases h with
    | schedule ticks _ =>
      rw [currObj_schedule]
      simp
  · rw [h.currObj_eq hop hcur]
    exact hcur

/-- A reschedule request is only ever used up by `schedule`. -/
theorem SchedStep.needReschedule (hop : op ≠ .schedule)
    (hneed : p.ctl.needReschedule = true) : p'.ctl.needReschedule = true := by
  cases h with
  | initThreadData caller ht | runIdle ticks _ _ => exact hneed
  | sleepThread caller _ =>
    simp only [Sched.sleepThread]
    split
    · rfl
    · exact hneed
  | wakeThread caller _ =>
    simp only [Sched.wakeThread]
    split
    · split
      · rfl
      · exact hneed
    · exact hneed
  | requestThreadPriority _ => rfl
  | schedule ticks _ => exact absurd rfl hop
  | timerTick ticks _ =>
    simp only [Sched.timerTick]
    split
    · rfl
    · exact hneed

omit h

/-! ## Staying asleep -/

theorem Asleep.switchTo (ha : Asleep v t) (hok : v.Ok) (ht : t ∈ v.threadList)
    (hcur : v.currObj ≠ none) (hne : t ≠ next) : Asleep (v.switchTo next) t := by
  obtain ⟨prev, hprev⟩ := Option.ne_none_iff_exists'.mp hcur
  by_cases hsame : prev = next
  · rw [RunView.switchTo, if_pos (by rw [hprev, hsame])]
    exact ha
  rw [Asleep, switchTo_status hprev hsame, if_neg hne]
  by_cases htp : t = prev
  · -- it was running, so it was about to block
    subst htp
    have hrun := (hok.running t ht).mpr hprev
    have hb : v.beBlocking t = true := ha.resolve_left (by rw [hrun]; simp)
    simp [hb]
  · rw [if_neg htp, switchTo_beBlocking hprev hsame, if_neg htp]
    exact ha

variable (hL : Lawful S I M) (hok : p.ctl.view.Ok) (hI : I p.ctl.view p.priv)
  (hidle : t ≠ p.ctl.idle) (ha : Asleep p.ctl.view t)

include hL hok hI hidle ha

theorem Lawful.schedule_away (ticks : Nat → Nat) (hcur : p.ctl.currObj ≠ none) :
    t ≠ (pick S ticks p).1 := by
  obtain ⟨-, -, hpick⟩ := hL.schedule ticks hcur hok hI
  intro heq
  rw [← heq] at hpick
  rcases hpick with hi | ⟨hst, hb⟩
  · exact hidle hi
  rcases ha with hs | hs
  · exact hst hs
  · rw [hb] at hs
    cases hs

theorem Lawful.currObj_schedule (ticks : Nat → Nat) (hcur : p.ctl.currObj ≠ none) :
    (Sched.schedule S ticks p).ctl.currObj ≠ some t := by
  rw [Sched.currObj_schedule]
  intro heq
  injection heq with heq
  exact hL.schedule_away hok hI hidle ha ticks hcur heq.symm

theorem Lawful.asleep (hstep : SchedStep S op p p') (ht : t ∈ p.ctl.threadList)
    (hop : op ≠ .wakeThread t) : Asleep p'.ctl.view t := by
  cases hstep with
  | @initThreadData caller u _ hu =>
    have hne : t ≠ u := fun heq => hu (heq ▸ ht)
    rw [view_initThreadData]
    simpa [Asleep, init, setStatus, setBlocking, hne] using ha
  | runIdle ticks hcur _ =>
    rw [view_runThread]
    simpa [Asleep, RunView.run, RunView.setStatus, hidle] using ha
  | @sleepThread caller u _ hu =>
    rw [view_sleepThread]
    by_cases hne : t = u
    · subst hne
      rw [Asleep, RunView.sleep]
      split
      · simp [setBlocking]
      · simp [setStatus]
    · have hoff := sleep_sameOff p.ctl.view u
      rw [Asleep, hoff.status t hne, hoff.beBlocking t hne]
      exact ha
  | @wakeThread caller u _ hu =>
    have hne : t ≠ u := fun heq => hop (by rw [heq])
    have hoff := wake_sameOff p.ctl.view u
    rw [view_wakeThread, Asleep, hoff.status t hne, hoff.beBlocking t hne]
    exact ha
  | requestThreadPriority hu =>
    rw [view_requestThreadPriority]
    exact ha
  | schedule ticks hcur =>
    rw [view_schedule]
    exact ha.switchTo hok ht hcur (hL.schedule_away hok hI hidle ha ticks hcur)
  | timerTick ticks hcur =>
    rw [view_timerTick]
    exact ha

end Sima.Sched
