import Sima.Sched.Asleep

/-!
# The scheduler for one thread per pCPU (`core/sched_noop.c`)

It remembers one thread that is awake, if there is one, and runs it. A second
thread that wakes up meanwhile is not remembered: the configuration gives such a
pCPU a single vCPU.
-/

namespace Sima.Sched

/-- `noop_thread_obj`. -/
abbrev Noop := Option Tid

namespace Noop

def init : Noop := none

def pickNext (c : SchedControl) (s : Noop) : Tid := s.getD c.idle

def sleep (t : Tid) (s : Noop) : Noop := if s = some t then none else s

def wake (t : Tid) (s : Noop) : Noop := if s = none then some t else s

/-- The thread that is remembered is there, and awake. -/
def Ok (v : RunView) (s : Noop) : Prop :=
  ∀ t, s = some t → t ∈ v.threadList ∧ ¬ Asleep v t

end Noop

/-- `sched_noop`. It has no timer. -/
def schedNoop : AcrnScheduler Noop where
  initData _ _ _ s := s
  pickNext c _ s := (Noop.pickNext c s, s)
  sleep _ _ := Noop.sleep
  wake _ _ := Noop.wake
  prioritize := none
  timerHandler _ _ s := (false, s)

namespace Noop

variable {v v' : RunView} {s : Noop} {t : Tid}

variable (h : Ok v s)

include h

theorem Ok.sameOff (hoff : RunView.SameOff t v v') (hne : s ≠ some t) : Ok v' s := by
  intro u hu
  obtain ⟨hmem, hawake⟩ := h u hu
  refine ⟨by rw [hoff.threadList]; exact hmem, fun ha => hawake ?_⟩
  exact hoff.asleep (fun heq => hne (heq ▸ hu)) ha

theorem Ok.initData (ht : t ∉ v.threadList) : Ok (v.init t) s := by
  intro u hu
  obtain ⟨hmem, hawake⟩ := h u hu
  have hne : u ≠ t := fun heq => ht (heq ▸ hmem)
  refine ⟨by simp [RunView.init, hmem], fun ha => hawake ?_⟩
  simpa [Asleep, RunView.init, RunView.setStatus, RunView.setBlocking, hne] using ha

theorem Ok.run : Ok (v.run v.idle) s := by
  intro u hu
  obtain ⟨hmem, hawake⟩ := h u hu
  refine ⟨hmem, fun ha => hawake ?_⟩
  by_cases hi : u = v.idle
  · subst hi
    exact .inr (ha.resolve_left (by simp [RunView.run, RunView.setStatus]))
  · simpa [Asleep, RunView.run, RunView.setStatus, hi] using ha

theorem Ok.sleep : Ok (v.sleep t) (Noop.sleep t s) := by
  rw [Noop.sleep]
  split
  · intro u hu
    cases hu
  · next hne => exact h.sameOff (RunView.sleep_sameOff v t) hne

theorem Ok.wake (ht : t ∈ v.threadList) : Ok (v.wake t) (Noop.wake t s) := by
  have hself : t ∈ (v.wake t).threadList ∧ ¬ Asleep (v.wake t) t :=
    ⟨by rw [(RunView.wake_sameOff v t).threadList]; exact ht, RunView.wake_not_parked v t⟩
  rw [Noop.wake]
  split
  · intro u hu
    injection hu with hu
    exact hu ▸ hself
  by_cases hst : s = some t
  · intro u hu
    rw [hst] at hu
    injection hu with hu
    exact hu ▸ hself
  · exact h.sameOff (RunView.wake_sameOff v t) hst

theorem Ok.switchTo (next : Tid) : Ok (v.switchTo next) s := by
  intro u hu
  obtain ⟨hmem, hawake⟩ := h u hu
  refine ⟨by rw [RunView.switchTo_threadList]; exact hmem, fun ha => hawake ?_⟩
  exact asleep_of_switchTo ha

omit h

theorem Ok.pickNext {c : SchedControl} (h : Ok c.view s) : Noop.pickNext c s = c.idle ∨
    (Noop.pickNext c s ∈ c.threadList ∧ ¬ Asleep c.view (Noop.pickNext c s)) := by
  cases s with
  | none => exact .inl rfl
  | some t => exact .inr (h t rfl)

end Noop

theorem schedNoop_lawful : Lawful schedNoop Noop.Ok Noop.Ok where
  initData ht _ h := h.initData ht
  run _ _ h := h.run
  sleep _ _ h := h.sleep
  wake ht _ _ h := h.wake ht
  enter h := h
  prioritize hf := by cases hf
  member hcur hok h := by
    rcases h.pickNext with hp | ⟨hp, -⟩
    · show Noop.pickNext _ _ ∈ _
      rw [hp]
      exact hok.idle hcur
    · exact hp
  canRun _ _ h := by
    rcases h.pickNext with hp | ⟨-, hp⟩
    · exact .inl hp
    · refine .inr ⟨fun hs => hp (.inl hs), ?_⟩
      exact Bool.eq_false_iff.mpr fun hb => hp (.inr hb)
  switch _ _ h := h.switchTo _
  timerHandler _ _ h := h

end Sima.Sched
