import Sima.Sched.RtdsPick

/-!
# Paying for run time

A server pays for the time that it runs, up to its budget, and begins each
period with the whole of it. It must not pay for more: what is missing from the
budget is at most the time that it ran since its period began.

Time is paid for late, at the next call that looks — from `last_start_ticks` on,
and that has to lie within the period. Charging moves it up before a new period
begins. A priority request does not charge: if the current server's period is
over by then, the new period begins with time of the old one still to be paid,
and `pick_next` takes it from the new budget. `Punctual` keeps such requests out.
-/

namespace Sima.Sched

open Lib
open Function (update update_eq_self update_of_ne update_self)
open Clocked

/-! ## Who ran how long -/

/-- For how long `t` ran between `since` and `upto`. -/
def ranSince (t : Tid) (since : Nat) : Nat → List (Nat × Tid) → Nat
  | _, [] => 0
  | upto, (start, u) :: log =>
    (if u = t then upto - max start since else 0) + ranSince t since start log

section

variable {t u : Tid} {since m n a : Nat} {log : List (Nat × Tid)}

theorem ranSince_mono (h : n ≤ m) : ranSince t since n log ≤ ranSince t since m log := by
  cases log with
  | nil => exact le_refl 0
  | cons e log =>
    simp only [ranSince]
    split <;> omega

theorem ranSince_le_switch : ranSince t since n log ≤ ranSince t since m ((n, u) :: log) := by
  simp only [ranSince]
  omega

end

namespace Rtds

variable {s : Rtds} {c : SchedControl} {v v' : RunView} {t u next : Tid} {now n hi period : Nat}
  {d : RtdsData} {log : List (Nat × Tid)} {p : Pcpu Rtds} {caller : Caller}

def periodStart (d : RtdsData) : Nat := d.deadlineTicks - d.periodTicks

/-- The server has not paid for more than it ran in this period. The current one
has paid up to `last_start_ticks`, if that is set. -/
structure Paid (v : RunView) (log : List (Nat × Tid)) (now : Nat) (t : Tid)
    (d : RtdsData) : Prop where
  settled : ¬ (Charged v t ∧ d.lastStartTicks ≠ 0) →
    d.budgetTicks ≤ d.remainingTicks + ranSince t (periodStart d) now log
  running : Charged v t → d.lastStartTicks ≠ 0 →
    d.budgetTicks ≤
        d.remainingTicks + ranSince t (periodStart d) d.lastStartTicks log ∧
      periodStart d ≤ d.lastStartTicks ∧ d.lastStartTicks ≤ now ∧
      ∃ a rest, log = (a, t) :: rest ∧ a ≤ d.lastStartTicks

theorem Paid.total (h : Paid v log now t d) (hle : now ≤ hi) :
    d.budgetTicks ≤ d.remainingTicks + ranSince t (periodStart d) hi log := by
  by_cases hrun : Charged v t ∧ d.lastStartTicks ≠ 0
  · obtain ⟨hpaid, -, hlast, -⟩ := h.running hrun.1 hrun.2
    have hmono : ranSince t (periodStart d) d.lastStartTicks log ≤
        ranSince t (periodStart d) hi log := ranSince_mono (hlast.trans hle)
    omega
  · have hpaid := h.settled hrun
    have hmono : ranSince t (periodStart d) now log ≤
        ranSince t (periodStart d) hi log := ranSince_mono hle
    omega

theorem Paid.later (h : Paid v log now t d) (hle : now ≤ hi) : Paid v log hi t d := by
  refine ⟨fun _ => h.total hle, fun hc hl => ?_⟩
  obtain ⟨hpaid, hstart, hlast, hhead⟩ := h.running hc hl
  exact ⟨hpaid, hstart, hlast.trans hle, hhead⟩

/-- A server that is not current, or for which nobody counts. -/
theorem Paid.of_total (hnot : ¬ (Charged v t ∧ d.lastStartTicks ≠ 0))
    (h : d.budgetTicks ≤ d.remainingTicks + ranSince t (periodStart d) now log) :
    Paid v log now t d :=
  ⟨fun _ => h, fun hc hl => absurd ⟨hc, hl⟩ hnot⟩

/-- Charged up to `n`. -/
def CaughtUp (v : RunView) (n : Nat) (t : Tid) (d : RtdsData) : Prop :=
  Charged v t → d.lastStartTicks ≠ 0 → n ≤ d.lastStartTicks

/-! ## A new period -/

theorem periodStart_advancePeriod (h : d.deadlineTicks ≤ n) :
    periodStart (advancePeriod n d).2 ≤ n := by
  rw [advancePeriod, if_neg (not_lt.mpr h), periodStart]
  have hdiv := Nat.div_mul_le_self (n - d.deadlineTicks) d.periodTicks
  simp only [add_mul]
  omega

theorem advancePeriod_lastStart : (advancePeriod n d).2.lastStartTicks = d.lastStartTicks := by
  rw [advancePeriod]
  split <;> rfl

/-- Whoever has paid up to `n` may begin a new period at `n`. -/
theorem Paid.advance (h : Paid v log hi t d) (hup : CaughtUp v n t d) :
    Paid v log hi t (advancePeriod n d).2 := by
  by_cases hlt : n < d.deadlineTicks
  · rw [advancePeriod_of_lt hlt]
    exact h
  have hrem : (advancePeriod n d).2.remainingTicks = d.budgetTicks := by
    rw [advancePeriod, if_neg hlt]
  refine ⟨fun _ => by rw [hrem, advancePeriod_budgetTicks]; omega, fun hc hl => ?_⟩
  rw [advancePeriod_lastStart] at hl ⊢
  obtain ⟨-, -, hlast, hhead⟩ := h.running hc hl
  exact ⟨by rw [hrem, advancePeriod_budgetTicks]; omega,
    (periodStart_advancePeriod (not_lt.mp hlt)).trans (hup hc hl), hlast, hhead⟩

theorem survives_paid : Survives n fun t d => Paid v log hi t d ∧ CaughtUp v n t d where
  tag _ h := ⟨⟨h.1.settled, h.1.running⟩, h.2⟩
  advance h := ⟨h.1.advance h.2, by
    rw [CaughtUp, advancePeriod_lastStart]
    exact h.2⟩

/-! ## Charging -/

theorem accountRuntime_current (hok : c.view.Ok) (hc : Charged c.view t) :
    (accountRuntime c n t s).data = update s.data t
        (if (s.data t).lastStartTicks = 0 ∨ n ≤ (s.data t).lastStartTicks then s.data t
        else { s.data t with
          lastStartTicks := n
          remainingTicks := (s.data t).remainingTicks - (n - (s.data t).lastStartTicks) }) := by
  have hrun : (c.obj t).status = .running := (hok.running t (hok.current t hc.1)).mpr hc.1
  have hidle : c.isIdleThread t = false := by simpa [SchedControl.isIdleThread] using hc.2
  rw [accountRuntime]
  simp only [hidle, hrun, bne_self_eq_false, Bool.false_or, Bool.or_eq_true, beq_iff_eq,
    decide_eq_true_eq]
  split
  · exact (update_eq_self t s.data).symm
  · simp only [modify_data]
    congr 2
    split <;> omega

theorem Paid.charge (h : Paid v log now t d) (hc : Charged v t)
    (hl : d.lastStartTicks ≠ 0) (hlt : d.lastStartTicks < n) (hle : n ≤ hi) :
    Paid v log hi t { d with
      lastStartTicks := n
      remainingTicks := d.remainingTicks - (n - d.lastStartTicks) } := by
  obtain ⟨hpaid, hstart, -, a, rest, hlog, ha⟩ := h.running hc hl
  have hran : ranSince t (periodStart d) n log =
      ranSince t (periodStart d) d.lastStartTicks log + (n - d.lastStartTicks) := by
    rw [hlog]
    simp only [ranSince, if_pos]
    omega
  have hn : n ≠ 0 := by omega
  refine ⟨fun hnot => absurd ⟨hc, hn⟩ hnot, fun _ _ => ?_⟩
  refine ⟨?_, hstart.trans hlt.le, hle, a, rest, hlog, ha.trans hlt.le⟩
  show d.budgetTicks ≤ d.remainingTicks - (n - d.lastStartTicks) + ranSince t (periodStart d) n log
  omega

theorem paid_accountRuntime (h : ∀ u, Paid c.view log now u (s.data u))
    (hok : c.view.Ok) (hc : Charged c.view t) (hnow : now ≤ hi) (hle : n ≤ hi) (u : Tid) :
    Paid c.view log hi u ((accountRuntime c n t s).data u) ∧
      CaughtUp c.view n u ((accountRuntime c n t s).data u) := by
  rw [accountRuntime_current hok hc]
  by_cases hut : u = t
  · rw [hut, update_self]
    split
    · next hskip =>
      refine ⟨(h t).later hnow, fun _ hl => ?_⟩
      rcases hskip with h0 | hn
      · exact absurd h0 hl
      · exact hn
    · next hskip =>
      rw [not_or] at hskip
      exact ⟨(h t).charge hc hskip.1 (not_le.mp hskip.2) hle, fun _ _ => le_refl n⟩
  · rw [update_of_ne hut]
    refine ⟨(h u).later hnow, fun hcu => absurd ?_ hut⟩
    exact Option.some.inj (hcu.1.symm.trans hc.1)

theorem paid_chargeCurrent (h : ∀ u, Paid c.view log now u (s.data u)) (hl : Linked s)
    (hok : c.view.Ok) (hnow : now ≤ hi) (hle : n ≤ hi) :
    ∀ u, Paid c.view log hi u ((chargeCurrent c n s).data u) ∧
      CaughtUp c.view n u ((chargeCurrent c n s).data u) := by
  have hnone : (∀ u, ¬ Charged c.view u) → ∀ u, Paid c.view log hi u (s.data u) ∧
      CaughtUp c.view n u (s.data u) :=
    fun hno u => ⟨(h u).later hnow, fun hc => absurd hc (hno u)⟩
  rw [chargeCurrent]
  split
  · next hcur =>
    refine hnone fun u hu => ?_
    have hu : c.currObj = some u := hu.1
    rw [hcur] at hu
    cases hu
  rename_i t hcur
  split
  · next hidle =>
    have hti : t = c.idle := by simpa [SchedControl.isIdleThread] using hidle
    refine hnone fun u hu => hu.2 ?_
    have hut : t = u := Option.some.inj (hcur.symm.trans hu.1)
    rw [← hut]
    exact hti
  · next hidle =>
    have hc : Charged c.view t := ⟨hcur, by simpa [SchedControl.isIdleThread] using hidle⟩
    obtain ⟨-, hla, -⟩ := accountRuntime_spec hl c n t
    exact survives_paid.refreshThread (paid_accountRuntime h hok hc hnow hle) hla

/-! ## Priority requests -/

/-- The current server's period is not over when a priority request for it is
passed on at `n`. -/
def InTime (p : Pcpu Rtds) (n : Nat) (t : Tid) : Prop :=
  Charged p.ctl.view t → (p.ctl.obj t).priorityPending = true →
    (p.ctl.obj t).beBlocking = false → n < (p.priv.data t).deadlineTicks

theorem consumePriority_other (khz : Nat) (caller : Caller) (hl : Linked p.priv) (hne : t ≠ u) :
    ((consumePriority (schedRtds khz) caller u p).priv.data t = p.priv.data t) ∧
      (consumePriority (schedRtds khz) caller u p).ctl.obj t = p.ctl.obj t := by
  have hladv : Linked (advance (caller.ticks 0) u p.priv) := hl.modify advancePeriod_queue
  have hprio : ∀ c, (prioritize c caller u p.priv).data t = p.priv.data t := by
    intro c
    have hadv : (advance (caller.ticks 0) u p.priv).data t = p.priv.data t := by
      simp [advance, hne]
    rw [prioritize]
    split
    · rw [(readyInsert_spec hladv u).2, tagged, update_of_ne hne, hadv]
    · exact hadv
  simp only [consumePriority, schedRtds]
  split
  · split
    · exact ⟨hprio _, by simp [hne]⟩
    · exact ⟨rfl, by simp [hne]⟩
  · exact ⟨rfl, rfl⟩

theorem consumePriority_flag {σ : Type} {S : AcrnScheduler σ} {p : Pcpu σ} :
    ((consumePriority S caller t p).ctl.obj t).priorityPending = false := by
  rw [consumePriority]
  split
  · split
    · split <;> simp
    · simp
  · next h => simpa using h

/-- A request keeps the accounts in order if it is in time. -/
theorem paid_consumePriority (khz : Nat) (caller : Caller)
    (h : ∀ t, Paid p.ctl.view log now t (p.priv.data t)) (hl : Linked p.priv)
    (htime : InTime p (caller.ticks 0) u) (t : Tid) :
    Paid p.ctl.view log now t ((consumePriority (schedRtds khz) caller u p).priv.data t) := by
  by_cases htu : t = u
  · subst htu
    have hladv : Linked (advance (caller.ticks 0) t p.priv) := hl.modify advancePeriod_queue
    simp only [consumePriority, schedRtds]
    split
    · next hpend =>
      split
      · next hcan =>
        obtain ⟨-, hblk⟩ := Bool.and_eq_true_iff.mp hcan
        have hadv : Paid p.ctl.view log now t ((advance (caller.ticks 0) t p.priv).data t) := by
          by_cases hc : Charged p.ctl.view t
          · -- its period goes on: nothing happens
            have hlt := htime hc hpend (by simpa using hblk)
            simpa [advance, advancePeriod_of_lt hlt] using h t
          · simpa [advance] using (h t).advance fun hc' => absurd hc' hc
        rw [prioritize]
        split
        · rw [(readyInsert_spec hladv t).2, tagged, update_self]
          exact ⟨hadv.settled, hadv.running⟩
        · exact hadv
      · exact h t
    · exact h t
  · rw [(consumePriority_other khz caller hl htu).1]
    exact h t

/-- The requests one after the other: only that of the current thread matters,
at the reading that falls to it. -/
theorem paid_consumePriorities {khz : Nat} (hkhz : 0 < khz) {ticks : Nat → Nat} {ts : List Tid}
    (hok : p.ctl.view.Ok)
    (hq : QueuesOk p.ctl.view (Waiting p.ctl.view) (Charged p.ctl.view) p.priv)
    (hts : ∀ t ∈ ts, t ∈ p.ctl.threadList) (h : ∀ t, Paid p.ctl.view log now t (p.priv.data t))
    (htime : ∀ t ∈ ts, InTime p (ticks (ts.idxOf t)) t) (t : Tid) :
    Paid p.ctl.view log now t ((consumePriorities (schedRtds khz) ticks ts p).priv.data t) := by
  induction ts generalizing ticks p with
  | nil => exact h t
  | cons u ts ih =>
    have hview := view_consumePriority (schedRtds khz) ⟨true, ticks⟩ u p
    have hfirst : InTime p (ticks 0) u := by simpa using htime u (by simp)
    have hpaid := paid_consumePriority khz ⟨true, ticks⟩ h hq.linked hfirst
    have hq' := (schedRtds_lawful hkhz).consumePriority ⟨true, ticks⟩ (hts u (by simp)) hok hq
    have hlist : ∀ w ∈ ts, w ∈
        (consumePriority (schedRtds khz) ⟨true, ticks⟩ u p).ctl.threadList := by
      intro w hw
      have hmem : w ∈ p.ctl.view.threadList := hts w (List.mem_cons_of_mem _ hw)
      rw [← hview] at hmem
      exact hmem
    rw [← hview] at hok hq' hpaid ⊢
    refine ih hok hq' hlist hpaid fun w hw hc hpend hblk => ?_
    by_cases hwu : w = u
    · rw [hwu, consumePriority_flag] at hpend
      cases hpend
    obtain ⟨hdata, hobj⟩ := consumePriority_other khz ⟨true, ticks⟩ hq.linked hwu
    rw [hobj] at hpend hblk
    rw [hview] at hc
    rw [hdata]
    have hlt := htime w (List.mem_cons_of_mem _ hw) hc hpend hblk
    rwa [List.idxOf_cons_ne _ (Ne.symm hwu)] at hlt

/-! ## The switch -/

/-- The log begins with the current thread. -/
def LogOk (v : RunView) (log : List (Nat × Tid)) (now : Nat) : Prop :=
  ∀ t, v.currObj = some t → ∃ a rest, log = (a, t) :: rest ∧ a ≤ now

theorem LogOk.keep (h : LogOk v log now) (hcur : v'.currObj = v.currObj) (hle : now ≤ hi) :
    LogOk v' log hi := by
  intro t ht
  obtain ⟨a, rest, heq, ha⟩ := h t (by rw [← hcur]; exact ht)
  exact ⟨a, rest, heq, ha.trans hle⟩

/-- The log after the choice of `next` at `n`. -/
def logSwitch (v : RunView) (n : Nat) (next : Tid) (log : List (Nat × Tid)) :
    List (Nat × Tid) :=
  if v.currObj = some next then log else (n, next) :: log

theorem logSwitch_ok (h : LogOk v log n) (hle : n ≤ hi) :
    LogOk (v.switchTo next) (logSwitch v n next log) hi := by
  intro t ht
  rw [RunView.switchTo_currObj] at ht
  injection ht with ht
  subst ht
  rw [logSwitch]
  split
  · next hcur =>
    obtain ⟨a, rest, hlog, ha⟩ := h next hcur
    exact ⟨a, rest, hlog, ha.trans hle⟩
  · exact ⟨n, log, rfl, hle⟩

theorem ranSince_le_logSwitch {since : Nat} (hle : n ≤ hi) :
    ranSince t since n log ≤ ranSince t since hi (logSwitch v n next log) := by
  rw [logSwitch]
  split
  · exact ranSince_mono hle
  · exact ranSince_le_switch

/-- Everybody is paid up to `n`, and `next` runs from then on. -/
theorem paid_switchTo (h : ∀ t, Paid v log n t (s.data t)) (hlog : LogOk v log n) (hle : n ≤ hi)
    (hnext : next ≠ v.idle → periodStart (s.data next) ≤ n) (t : Tid) :
    Paid (v.switchTo next) (logSwitch v n next log) hi t
      ((if next ≠ v.idle then s.modify next fun d => { d with lastStartTicks := n }
        else s).data t) := by
  have htotal : (s.data t).budgetTicks ≤ (s.data t).remainingTicks +
      ranSince t (periodStart (s.data t)) n log := (h t).total (le_refl n)
  have hmono : ranSince t (periodStart (s.data t)) n log ≤
      ranSince t (periodStart (s.data t)) hi (logSwitch v n next log) :=
    ranSince_le_logSwitch hle
  have hcharged : Charged (v.switchTo next) t → t = next ∧ next ≠ v.idle := by
    rintro ⟨hcur, hidle⟩
    rw [RunView.switchTo_currObj] at hcur
    injection hcur with hcur
    rw [RunView.switchTo_idle, ← hcur] at hidle
    exact ⟨hcur.symm, hidle⟩
  by_cases htn : t = next ∧ next ≠ v.idle
  · obtain ⟨rfl, hidle⟩ := htn
    rw [if_pos hidle]
    simp only [modify_data, update_self]
    refine ⟨fun _ => htotal.trans (Nat.add_le_add_left hmono _), fun _ _ => ?_⟩
    refine ⟨?_, hnext hidle, hle, ?_⟩
    · exact htotal.trans (Nat.add_le_add_left (ranSince_le_logSwitch (le_refl n)) _)
    rw [logSwitch]
    split
    · next hcur => exact hlog t hcur
    · exact ⟨n, log, rfl, le_refl n⟩
  · have hdata : (if next ≠ v.idle then s.modify next fun d =>
        { d with lastStartTicks := n } else s).data t = s.data t := by
      split
      · next hidle =>
        have hne : t ≠ next := fun heq => htn ⟨heq, hidle⟩
        simp [hne]
      · rfl
    rw [hdata]
    exact .of_total (fun hc => htn (hcharged hc.1)) (htotal.trans (Nat.add_le_add_left hmono _))

theorem Aligned.periodStart_le (h : Aligned period n d) : periodStart d ≤ n := by
  have hnear := h.near
  have hdiv := Nat.div_mul_le_self n period
  rw [add_mul] at hnear
  rw [periodStart, h.same]
  omega

theorem paid_pickNext (hmid : MidRanked period n c.view s) (hp : 0 < period) (hok : c.view.Ok)
    (hcur : c.currObj ≠ none) (h : ∀ t, Paid c.view log n t (s.data t)) (hlog : LogOk c.view log n)
    (hn : caller.ticks 0 = n) (hle : n ≤ hi) (t : Tid) :
    Paid (c.view.switchTo (pickNext c caller s).1)
      (logSwitch c.view n (pickNext c caller s).1 log) hi t
      ((pickNext c caller s).2.data t) := by
  subst hn
  obtain ⟨hranked, haligned⟩ := hmid.refresh hp hok hcur le_rfl
  have hmem := (hmid.queues.pickNext hok hcur caller).1
  have hcharged := paid_chargeCurrent h hmid.queues.linked hok le_rfl le_rfl
  have hpaid := survives_paid.choose (c := c) (survives_paid.refreshQueues hcharged
    (hmid.queues.chargeCurrent hok _) hok)
  have hal := (survives_aligned hp le_rfl).choose (c := c) haligned
  have hdata : (pickNext c caller s).2.data = (if (pickNext c caller s).1 ≠ c.view.idle then
        (choose c (refreshQueues c (caller.ticks 0)
          (chargeCurrent c (caller.ticks 0) s))).2.modify (pickNext c caller s).1
            fun d => { d with lastStartTicks := caller.ticks 0 }
      else (choose c (refreshQueues c (caller.ticks 0)
        (chargeCurrent c (caller.ticks 0) s))).2).data := by
    simp [pickNext, programTimer_data, SchedControl.isIdleThread, SchedControl.view_idle]
  rw [hdata]
  exact paid_switchTo (fun u => (hpaid u).1) hlog hle (fun _ => (hal _ hmem).periodStart_le) t

theorem advancePeriod_total
    (h : d.budgetTicks ≤ d.remainingTicks + ranSince t (periodStart d) hi log) :
    (advancePeriod n d).2.budgetTicks ≤ (advancePeriod n d).2.remainingTicks +
      ranSince t (periodStart (advancePeriod n d).2) hi log := by
  rcases advancePeriod_remaining n d with hsame | hnew
  · rw [hsame]
    exact h
  · rw [advancePeriod_budgetTicks]
    omega

theorem Paid.view (h : Paid v log now t d) (hc : Charged v' t → Charged v t) (hle : now ≤ hi) :
    Paid v' log hi t d :=
  ⟨fun _ => h.total hle, fun hc' => (h.later hle).running (hc hc')⟩

theorem Charged.sameOff (hoff : RunView.SameOff u v v') : Charged v' t → Charged v t := by
  rintro ⟨hcur, hidle⟩
  exact ⟨by rw [← hoff.currObj]; exact hcur, by rw [← hoff.idle]; exact hidle⟩

theorem paid_sleep (h : ∀ u, Paid c.view log now u (s.data u)) (hok : c.view.Ok) (hne : t ≠ c.idle)
    (hnow : now ≤ hi) (hle : caller.ticks 0 ≤ hi) (u : Tid) :
    Paid (c.view.sleep t) log hi u ((sleep c caller t s).data u) := by
  have hcharge : ∀ u, Paid c.view log hi u
      ((if isCurrent c t then accountRuntime c (caller.ticks 0) t s else s).data u) := by
    intro u
    split
    · next hcur =>
      have hc : Charged c.view t := ⟨by simpa [isCurrent] using hcur, hne⟩
      exact (paid_accountRuntime h hok hc hnow hle u).1
    · exact (h u).later hnow
  rw [sleep, programTimer_data]
  rw [modify_data, queueRemove_data, tagged]
  by_cases hut : u = t
  · subst hut
    simp only [update_self]
    exact .of_total (by simp) ((hcharge u).total (le_refl hi))
  · rw [update_of_ne hut, update_of_ne hut]
    exact (hcharge u).view (Charged.sameOff (RunView.sleep_sameOff c.view t)) (le_refl hi)

theorem wake_data (c : SchedControl) (caller : Caller) (t : Tid) (hl : Linked s) :
    ∃ q, (wake c caller t s).data = update s.data t
      { (advancePeriod (caller.ticks 0) (s.data t)).2 with lastStartTicks := 0, queue := q } := by
  have hladv : Linked (advance (caller.ticks 0) t s) := hl.modify advancePeriod_queue
  have hl' : Linked ((advance (caller.ticks 0) t s).modify t fun d =>
      { d with lastStartTicks := 0 }) := hladv.modify rfl
  simp only [wake, programTimer_data]
  split
  · rw [(readyInsert_spec hl' t).2]
    exact ⟨.ready, by simp [tagged, advance]⟩
  · rw [(depletedInsert_spec hl' t).2]
    exact ⟨.depleted, by simp [tagged, advance]⟩

theorem paid_wake (h : ∀ u, Paid c.view log now u (s.data u)) (hl : Linked s) (hnow : now ≤ hi)
    (u : Tid) : Paid (c.view.wake t) log hi u ((wake c caller t s).data u) := by
  obtain ⟨q, hdata⟩ := wake_data c caller t hl
  rw [hdata]
  by_cases hut : u = t
  · subst hut
    rw [update_self]
    exact .of_total (by simp) (advancePeriod_total ((h u).total hnow))
  · rw [update_of_ne hut]
    exact (h u).view (Charged.sameOff (RunView.wake_sameOff c.view t)) hnow

end Rtds

/-! ## Every run -/

open Rtds

/-- No priority request for the current server is passed on after the end of its
period. -/
def Punctual (op : ClockOp) (s : Clocked Rtds) : Prop :=
  ∀ caller, op = .call .schedule caller → ∀ t ∈ s.pcpu.ctl.threadList,
    InTime s.pcpu (caller.ticks (s.pcpu.ctl.threadList.idxOf t)) t

structure ChargeState (khz : Nat) (s : Clocked Rtds) : Prop where
  base : RtdsState khz s
  log : LogOk s.pcpu.ctl.view s.log s.now
  paid : ∀ t, Paid s.pcpu.ctl.view s.log s.now t (s.pcpu.priv.data t)

variable {khz hi : Nat} {s s' : Clocked Rtds} {op : ClockOp} {caller : Caller}

variable (h : ChargeState khz s)

include h

variable (hkhz : 0 < khz)

include hkhz

theorem ChargeState.schedule (hcur : s.pcpu.ctl.currObj ≠ none)
    (hr : Readings s.now hi caller.ticks) (htime : ∀ t ∈ s.pcpu.ctl.threadList,
      InTime s.pcpu (caller.ticks (s.pcpu.ctl.threadList.idxOf t)) t) :
    let s' := s.call (schedRtds khz) caller hi .schedule
    LogOk s'.pcpu.ctl.view s'.log hi ∧
      ∀ t, Paid s'.pcpu.ctl.view s'.log hi t (s'.pcpu.priv.data t) := by
  have hview := view_beforePick (schedRtds khz) caller.ticks s.pcpu
  have hmid := h.base.beforePick hkhz hcur hr
  have hn := hr.le s.pcpu.ctl.threadList.length
  have hle := hr.last s.pcpu.ctl.threadList.length
  have hpaid : ∀ t, Paid s.pcpu.ctl.view s.log (caller.ticks s.pcpu.ctl.threadList.length) t
      ((beforePick (schedRtds khz) caller.ticks s.pcpu).priv.data t) := fun t =>
    (paid_consumePriorities hkhz h.base.ok ((schedRtds_lawful hkhz).enter h.base.free)
      (fun _ => id) h.paid htime t).later hn
  have hlog : LogOk s.pcpu.ctl.view s.log
      (caller.ticks s.pcpu.ctl.threadList.length) := h.log.keep rfl hn
  have hok := h.base.ok
  have hcur' := (currObj_beforePick (schedRtds khz) caller.ticks s.pcpu).trans_ne hcur
  have hlogEq : s.nextLog (schedRtds khz) caller.ticks .schedule =
      logSwitch s.pcpu.ctl.view (caller.ticks s.pcpu.ctl.threadList.length)
        (pick (schedRtds khz) caller.ticks s.pcpu).1 s.log := rfl
  simp only [call, SchedOp.apply, view_schedule, schedule_priv, hlogEq]
  refine ⟨logSwitch_ok hlog hle, fun t => ?_⟩
  rw [← hview] at hmid hok hpaid hlog ⊢
  exact paid_pickNext hmid (rtdsPeriodTicks_pos hkhz) hok hcur' hpaid hlog rfl hle t

theorem ChargeState.timerTick {n : Nat} (hle : n ≤ hi) (hnow : s.now ≤ hi) (t : Tid) :
    Paid s.pcpu.ctl.view s.log hi t ((refreshQueues s.pcpu.ctl.accountTick n
        (chargeCurrent s.pcpu.ctl.accountTick n
          { s.pcpu.priv with tickTimer := none })).data t) := by
  have hok : s.pcpu.ctl.accountTick.view.Ok := h.base.ok
  have hq : QueuesOk s.pcpu.ctl.accountTick.view (Waiting s.pcpu.ctl.accountTick.view)
      (Charged s.pcpu.ctl.accountTick.view) { s.pcpu.priv with tickTimer := none } :=
    (schedRtds_lawful hkhz).enter (h.base.free.timer none)
  have hcharged := paid_chargeCurrent
    (s := { s.pcpu.priv with tickTimer := none }) h.paid hq.linked hok hnow hle
  exact (survives_paid.refreshQueues hcharged (hq.chargeCurrent hok n) hok t).1

theorem ChargeState.apply {op : SchedOp} (hal : op.Allowed s.pcpu.ctl)
    (hr : Readings (s.readsFrom op) hi caller.ticks) (hnow : s.now ≤ hi)
    (htime : Punctual (.call op caller) s) : let s' := s.call (schedRtds khz) caller hi op
    LogOk s'.pcpu.ctl.view s'.log hi ∧
      ∀ t, Paid s'.pcpu.ctl.view s'.log hi t (s'.pcpu.priv.data t) := by
  have hread := hr.last 0
  cases op with
  | initThreadData t =>
    simp only [call, SchedOp.apply, view_initThreadData]
    refine ⟨h.log.keep rfl hnow, fun u => ?_⟩
    by_cases hut : u = t
    · subst hut
      have hd : (initThreadData (schedRtds khz) caller u s.pcpu).priv.data u = _ :=
        update_self u _ s.pcpu.priv.data
      rw [hd]
      exact .of_total (by simp) (Nat.le_add_right _ _)
    · have hd : (initThreadData (schedRtds khz) caller t s.pcpu).priv.data u = _ :=
        update_of_ne hut _ s.pcpu.priv.data
      rw [hd]
      exact (h.paid u).view (id) hnow
  | runIdle =>
    have hfrom : s.now ≤ caller.ticks 0 := hr.first
    simp only [call, SchedOp.apply, view_runThread, nextLog]
    refine ⟨fun t ht => ?_, fun u => ?_⟩
    · injection ht with ht
      exact ⟨caller.ticks 0, s.log, by rw [← ht], hread⟩
    · refine .of_total (fun hc => ?_) (((h.paid u).total hfrom).trans
        (Nat.add_le_add_left ranSince_le_switch _))
      exact hc.1.2 (Option.some.inj hc.1.1).symm
  | sleepThread t =>
    simp only [call, SchedOp.apply, view_sleepThread, sleepThread_priv]
    exact ⟨h.log.keep (RunView.sleep_sameOff _ t).currObj hnow,
      paid_sleep h.paid h.base.ok hal.2 hnow hread⟩
  | wakeThread t =>
    simp only [call, SchedOp.apply, view_wakeThread]
    refine ⟨h.log.keep (RunView.wake_sameOff _ t).currObj hnow, fun u => ?_⟩
    by_cases hw : ((s.pcpu.ctl.obj t).isBlocked || (s.pcpu.ctl.obj t).beBlocking) = true
    · rw [wakeThread, if_pos hw]
      exact paid_wake h.paid h.base.free.linked hnow u
    · rw [wakeThread, if_neg hw]
      exact (h.paid u).view (Charged.sameOff (RunView.wake_sameOff _ t)) hnow
  | requestThreadPriority t =>
    simp only [call, SchedOp.apply, view_requestThreadPriority]
    exact ⟨h.log.keep rfl hnow, fun u => (h.paid u).later hnow⟩
  | schedule => exact h.schedule hkhz hal hr (htime caller rfl)
  | timerTick =>
    simp only [call, SchedOp.apply, view_timerTick]
    exact ⟨h.log.keep rfl hnow, h.timerTick hkhz hread hnow⟩

theorem ChargeState.step (htime : Punctual op s) (hstep : ClockStep (schedRtds khz) op s s') :
    ChargeState khz s' := by
  have hbase := h.base.step hkhz hstep
  cases hstep with
  | call hal hr hnow =>
    obtain ⟨hlog, hpaid⟩ := h.apply hkhz hal hr hnow htime
    exact ⟨hbase, hlog, hpaid⟩
  | clear =>
    refine ⟨hbase, ?_, ?_⟩
    · simp only [setCtl, view_clearReschedule]
      exact h.log
    · simp only [setCtl, view_clearReschedule]
      exact h.paid
  | yield | suspend => exact ⟨hbase, h.log, h.paid⟩

omit hkhz

omit h

theorem ChargeState.start (idle : Tid) (obj : Tid → ThreadObject) (now : Nat) :
    ChargeState khz (rtdsStart idle obj now) := by
  refine ⟨.start idle obj now, fun t ht => ?_, fun t => .of_total (fun hc => ?_) (le_refl 0)⟩
  · cases ht
  · cases hc.1.1

variable {idle now : Nat} {obj : Tid → ThreadObject} {tr : List ClockOp}

/-- In every run in which no priority request for the current server is passed on
after the end of its period, a server has paid for no more than it ran since its
period began. -/
theorem rtds_never_overcharged (hkhz : 0 < khz)
    (hrun : GuardedRun (ClockStep (schedRtds khz)) Punctual (rtdsStart idle obj now)
      tr s) (t : Tid) :
    let d := s.pcpu.priv.data t
    d.budgetTicks - min d.budgetTicks (ranSince t (d.deadlineTicks - d.periodTicks) s.now s.log) ≤
      d.remainingTicks := by
  have h := hrun.inv (P := fun _ s => ChargeState khz s) (.start idle obj now)
    fun h hok hs => h.step hkhz hok hs
  have htotal := (h.paid t).total (le_refl s.now)
  simp only [periodStart] at htotal ⊢
  omega

/-- Server 1 has run for 990 ticks when the timer goes off, and paid for them. -/
theorem rtds_never_overcharged_tick :
    let s := rtdsAt 1000 .timerTick twoServers
    let d := s.pcpu.priv.data 1
    d.budgetTicks - min d.budgetTicks (ranSince 1 (d.deadlineTicks - d.periodTicks) s.now s.log) ≤
      d.remainingTicks ∧ d.budgetTicks = 2000 ∧ d.remainingTicks = 1010 := by
  obtain ⟨tr, hrun⟩ := twoServers_run Punctual
    (fun op caller s hne c heq => absurd (ClockOp.call.inj heq).1 hne)
    fun s caller hcur c heq t ht hc => absurd (Option.some.inj (hc.1.symm.trans hcur)) hc.2
  refine ⟨rtds_never_overcharged (by decide) (.cons hrun ?_ (rtdsAt_step _ _ ?_ ?_ ?_)) 1, ?_, ?_⟩
  · intro caller heq
    injection heq with heq
    cases heq
  · decide
  · decide
  · decide
  · decide
  · decide

/-- Server 1 runs out of budget at 2010 and goes on as slack; a priority request
for it is passed on at the end of its period, before the timer is served. -/
def lateRequest : List Turn :=
  [⟨.initThreadData 0, 4, 0, 4⟩, ⟨.runIdle, 5, 0, 5⟩, ⟨.initThreadData 1, 6, 0, 6⟩,
    ⟨.wakeThread 1, 8, 0, 8⟩, ⟨.schedule, 10, 0, 10⟩, ⟨.timerTick, 2010, 0, 2010⟩,
    ⟨.schedule, 2011, 0, 2011⟩, ⟨.requestThreadPriority 1, 3999, 0, 3999⟩,
    ⟨.schedule, 4000, 0, 4000⟩]

/-- A new period has begun and the server has not run in it, but all of the
budget except 11 ticks is gone. -/
theorem rtds_overcharges : ∃ tr s, GuardedRun (ClockStep (schedRtds 1000)) (fun _ _ => True)
      (rtdsStart 0 (fun _ => blankThread) 3) tr s ∧
      let d := s.pcpu.priv.data 1
      s.now = 4000 ∧ d.deadlineTicks - d.periodTicks = 4000 ∧ d.budgetTicks = 2000 ∧
        ranSince 1 4000 s.now s.log = 0 ∧ d.remainingTicks = 11 := by
  refine ⟨_, Turn.plays _ lateRequest _, Turn.run ?_, ?_⟩
  all_goals decide +kernel

end Sima.Sched
