import Mathlib.Order.Lattice.Nat
import Mathlib.Tactic.Ring
import Sima.Sched.BvtSvt

/-!
# The lag of BVT is bounded

Nobody can be warped, every thread can run all the time, and `schedule` runs when the
timer that `pick_next` programmed expires. Then the threads share the CPU in proportion
to their weights, up to a lag that does not grow: the actual virtual times of two
threads never are further apart than `BVT_CSA_MCU + 1` MCUs at the fastest rate, and one.

The argument is about one round. The first thread of the queue runs until it has caught
up with the second, and `BVT_CSA_MCU` more. It is charged for that, for what passed
between the two readings of `pick_next` and until `schedule` came to charge it — less
than a MCU in all — and for what was left over from before, again less than one. So it
ends up that much ahead of the second at most, and the second was the last of the
others. Nobody else has moved.

A call takes time. `schedule` begins when the timer expires, and `d` is how much later
its last reading may be; two calls, the one that programs the timer and the one that
charges, take less than a MCU together.
-/

namespace Sima.Sched

open Lib

/-! ## One charge -/

namespace Ledger

variable {l : Ledger} {now c d : Nat}

theorem avt_le_charge (now : Nat) (l : Ledger) : l.avt ≤ (l.charge now).avt := by
  rw [charge]
  split
  · exact Int.le_add_of_nonneg_right (Int.natCast_nonneg _)
  · exact Int.le_refl _

/-- Whoever runs for `c` MCUs and less than one more is charged for one more at most. -/
theorem avt_charge_le (hres : l.residual < l.mcu) (hd : 2 * d < l.mcu)
    (hnow : now ≤ l.startTsc + c * l.mcu + 2 * d) :
    (l.charge now).avt ≤ l.avt + ((c + 1) * l.vtRatio : Nat) := by
  rw [charge]
  split
  · have hdelta := l.vDelta_le now
    generalize uint64 (p2v (now - l.startTsc) l.vtRatio + l.residual) = vDelta at hdelta
    have hrun : (now - l.startTsc) * l.vtRatio ≤ (c * l.mcu + 2 * d) * l.vtRatio :=
      Nat.mul_le_mul_right _ (by omega)
    have hslack : 2 * d * l.vtRatio ≤ l.mcu * l.vtRatio := Nat.mul_le_mul_right _ (le_of_lt hd)
    have hlt : vDelta < ((c + 1) * l.vtRatio + 1) * l.mcu := by
      calc vDelta ≤ (c * l.mcu + 2 * d) * l.vtRatio + l.residual := hdelta.trans (by omega)
        _ = c * l.mcu * l.vtRatio + 2 * d * l.vtRatio + l.residual := by rw [add_mul]
        _ < c * l.mcu * l.vtRatio + l.mcu * l.vtRatio + l.mcu := by omega
        _ = ((c + 1) * l.vtRatio + 1) * l.mcu := by ring
    have hpos : 0 < l.mcu := by omega
    have hdiv : vDelta / l.mcu ≤ (c + 1) * l.vtRatio :=
      Nat.lt_succ_iff.mp ((Nat.div_lt_iff_lt_mul hpos).mpr hlt)
    exact Int.add_le_add_left (Int.ofNat_le.mpr hdiv) _
  · exact Int.le_add_of_nonneg_right (Int.natCast_nonneg _)

/-- A thread that was never set up has a MCU of 0, and is charged nothing. -/
theorem avt_charge_of_mcu (h : l.mcu = 0) : (l.charge now).avt = l.avt := by
  rw [charge]
  split
  · simp [h]
  · rfl

end Ledger

namespace Bvt

/-! ## What holds of each thread by itself -/

variable {s : Bvt} {c : SchedControl} {caller : Caller} {t u : Tid} {now khz : Nat}
  {ticks : Nat → Nat} {params : Tid → BvtParams} {p : Pcpu Bvt}
  {P : Tid → BvtData → Prop}

/-- A property of the data of a thread that no hook breaks. -/
structure Survives (khz : Nat) (params : Tid → BvtParams) (P : Tid → BvtData → Prop) :
    Prop where
  charge : ∀ {t d now}, P t d → P t (d.charge now)
  start : ∀ {t d n}, P t d → P t { d with startTsc := n }
  warp : ∀ {t d now}, P t d → d.canWarp now = true → P t d.startWarp
  wake : ∀ {t d svt}, P t d → P t (d.wakeAvt svt)
  evt : ∀ {t d}, P t d → P t d.updateEvt
  initData : ∀ {t} c caller s, P t (s.data t) → P t ((Bvt.initData khz params c caller t s).data t)

/-- It holds of every thread. -/
def All (P : Tid → BvtData → Prop) (s : Bvt) : Prop := ∀ t, P t (s.data t)

variable (h : All P s)

include h

theorem All.modify {f : BvtData → BvtData} (ht : P t (f (s.data t))) : All P (s.modify t f) := by
  intro u
  by_cases hut : u = t
  · subst hut
    rw [modify_self]
    exact ht
  · rw [modify_of_ne hut]
    exact h u

theorem All.startWarp (hP : Survives khz params P) : All P (startWarp now t s) := by
  rw [Bvt.startWarp]
  split
  · exact h
  split
  · next hcan =>
    intro u
    rw [requeue_data]
    exact h.modify (hP.warp (h t) hcan) u
  · exact h

theorem All.wake (hP : Survives khz params P) : All P (wake c caller t s) := by
  have hadjusted : All P (s.modify t (BvtData.wakeAvt s.svt)) := h.modify (hP.wake (h t))
  have hwarped : All P (Bvt.startWarp (caller.ticks 0) t
      (s.modify t (BvtData.wakeAvt s.svt))) := hadjusted.startWarp hP
  exact hwarped.modify (hP.evt (hwarped t))

theorem All.pickNext (hP : Survives khz params P) : All P (pickNext khz c caller s).2 := by
  intro u
  have hcharged : P u ((chargeCurrent c (caller.ticks 1) s).data u) := by
    rw [chargeCurrent_data]
    split
    · exact hP.charge (h u)
    · exact h u
  rw [← updateSvt_data] at hcharged
  rw [Bvt.pickNext, takeFirst_data]
  split
  · exact hP.start hcharged
  · exact hcharged

omit h

theorem All.consumePriorities (h : All P p.priv) (hP : Survives khz params P)
    (ts : List Tid) : All P (consumePriorities (schedBvt khz params) ticks ts p).priv := by
  induction ts generalizing ticks p with
  | nil => exact h
  | cons t ts ih =>
    refine ih ?_
    rw [Sched.consumePriority]
    split
    · simp only [schedBvt]
      split
      · exact h.startWarp hP
      · exact h
    · exact h

theorem All.apply {op : SchedOp} (h : All P p.priv) (hP : Survives khz params P) :
    All P (op.apply (schedBvt khz params) caller p).priv := by
  cases op with
  | initThreadData t =>
    intro u
    by_cases hut : u = t
    · subst hut
      exact hP.initData p.ctl caller p.priv (h u)
    · show P u ((Bvt.initData khz params p.ctl caller t p.priv).data u)
      rw [Bvt.initData, modify_of_ne hut]
      exact h u
  | runIdle => exact h
  | sleepThread t =>
    simp only [SchedOp.apply, sleepThread]
    split <;> exact h
  | wakeThread t =>
    simp only [SchedOp.apply, wakeThread]
    split
    · exact .wake (c := p.ctl) h hP
    · exact h
  | requestThreadPriority t => exact h
  | schedule =>
    simp only [SchedOp.apply, schedule_priv]
    exact (h.consumePriorities hP _).pickNext hP
  | timerTick => exact h

theorem All.reach {idle : Tid} {obj : Tid → ThreadObject} {tr : List ClockOp}
    {ok : ClockOp → Clocked Bvt → Prop} {s : Clocked Bvt} (hP : Survives khz params P)
    (h₀ : ∀ t, P t {})
    (hrun : GuardedRun (ClockStep (schedBvt khz params)) ok (bvtStart idle obj now) tr s) :
    All P s.pcpu.priv := by
  induction hrun with
  | nil => exact h₀
  | cons _ _ hs ih =>
    cases hs with
    | call _ _ _ => exact ih.apply hP
    | clear | yield | suspend => exact ih

/-- Nobody is warped or can be. -/
def Plain (_ : Tid) (d : BvtData) : Prop := d.warpOn = false ∧ d.warpValue ≤ 0

theorem survives_plain (h : ∀ t, (params t).warpValue ≤ 0) : Survives khz params Plain where
  charge hp := by
    refine ⟨charge_warpOn hp.1, ?_⟩
    have hvalue : ∀ {d : BvtData} {n m}, (d.updateWarpAfterCharge n m).warpValue =
        d.warpValue := by
      intro d n m
      rw [BvtData.updateWarpAfterCharge]
      split
      · rfl
      · split <;> rfl
    show (BvtData.updateWarpAfterCharge _ _ _).warpValue ≤ 0
    rw [hvalue]
    exact hp.2
  start hp := hp
  warp hp hcan := by
    rw [canWarp_of_nonpos hp.2] at hcan
    cases hcan
  wake hp := hp
  evt hp := hp
  initData {t} c caller s _ := by
    rw [Bvt.initData, modify_self]
    exact ⟨rfl, h t⟩

/-- What is left over from a charge is less than a MCU. -/
def Leftover (khz : Nat) (_ : Tid) (d : BvtData) : Prop :=
  d.ledger.mcu = 0 ∨ d.ledger.mcu = bvtMcuTicks khz ∧ d.ledger.residual < bvtMcuTicks khz

theorem survives_leftover (h : 0 < bvtMcuTicks khz) : Survives khz params (Leftover khz) where
  charge {t d now} hp := by
    rw [Leftover, BvtData.ledger_charge, Ledger.charge]
    split
    · rcases hp with hzero | ⟨hmcu, -⟩
      · exact .inl hzero
      refine .inr ⟨hmcu, ?_⟩
      show _ % d.ledger.mcu < _
      rw [hmcu]
      exact Nat.mod_lt _ h
    · exact hp
  start hp := hp
  warp hp _ := hp
  wake hp := hp
  evt hp := hp
  initData {t} c caller s _ := by
    rw [Bvt.initData, modify_self]
    exact .inr ⟨rfl, h⟩

/-! ## One round -/

variable {first second : Tid} {rest : List Tid} {T d bound R : Nat}

/-- The fastest rate of the threads in the queue. -/
def maxVtRatio (s : Bvt) : Nat := s.runqueue.toFinset.sup fun t => (s.data t).vtRatio

/-- No two threads in the queue are further apart. -/
def Within (bound : Nat) (s : Bvt) : Prop :=
  ∀ t ∈ s.runqueue, ∀ u ∈ s.runqueue, (s.data t).avt ≤ (s.data u).avt + bound

instance (bound : Nat) (s : Bvt) : Decidable (Within bound s) :=
  inferInstanceAs (Decidable (∀ t ∈ s.runqueue, ∀ u ∈ s.runqueue, _))

/-- The bound on the lag. -/
def lagBound (s : Bvt) : Nat := (bvtCsaMcu + 1) * maxVtRatio s + 1

/-- The first thread catches up with the second in its countdown, and runs on for
`BVT_CSA_MCU`. -/
theorem runCountdown_mul_le {x y : BvtData} (h : x.evt ≤ y.evt) :
    ((runCountdown x y * x.vtRatio : Nat) : Int) ≤
      y.evt - x.evt + (bvtCsaMcu * x.vtRatio : Nat) := by
  have hdelta : ((y.evt - x.evt) % 2 ^ 64).toNat ≤ (y.evt - x.evt).toNat := by omega
  have hcount : runCountdown x y ≤ (y.evt - x.evt).toNat / x.vtRatio + bvtCsaMcu :=
    (Nat.mod_le _ _).trans (Nat.add_le_add_right (Nat.div_le_div_right hdelta) _)
  have hmul : runCountdown x y * x.vtRatio ≤ (y.evt - x.evt).toNat + bvtCsaMcu * x.vtRatio := by
    calc runCountdown x y * x.vtRatio
        ≤ ((y.evt - x.evt).toNat / x.vtRatio + bvtCsaMcu) * x.vtRatio :=
          Nat.mul_le_mul_right _ hcount
      _ = (y.evt - x.evt).toNat / x.vtRatio * x.vtRatio + bvtCsaMcu * x.vtRatio := add_mul _ _ _
      _ ≤ (y.evt - x.evt).toNat + bvtCsaMcu * x.vtRatio :=
          Nat.add_le_add_right (Nat.div_mul_le_self _ _) _
  omega

theorem takeFirst_timer (hq : s.runqueue = first :: second :: rest)
    (hoff : s.tickTimer = none) (hT : (takeFirst khz c caller s).2.tickTimer = some T) :
    T ≤ caller.ticks 2 + runCountdown (s.data first) (s.data second) * bvtMcuTicks khz := by
  simp only [takeFirst, hq] at hT
  split at hT
  · simp only [addTimer] at hT
    split at hT
    · cases hT
    · injection hT with hT
      rw [← hT]
      exact Nat.mod_le _ _
  · have hnone : s.tickTimer = some T := hT
    rw [hoff] at hnone
    cases hnone

/-- The first thread of the queue runs, from its start on, and is to be charged when
`due` is over. -/
structure Started (khz d : Nat) (p : Pcpu Bvt) (due : Option Nat) : Prop where
  current : ∀ first, p.priv.runqueue.head? = some first → p.ctl.currObj = some first
  due : ∀ {first second rest T}, p.priv.runqueue = first :: second :: rest → due = some T →
    T ≤ (p.priv.data first).startTsc + d +
      runCountdown (p.priv.data first) (p.priv.data second) * bvtMcuTicks khz

theorem started_schedule (hspan : ticks (p.ctl.threadList.length + 2) ≤
    ticks p.ctl.threadList.length + d) : Started khz d (schedule (schedBvt khz params) ticks p)
      (pick (schedBvt khz params) ticks p).2.tickTimer := by
  have hfirst := pick_first khz params ticks p
  refine ⟨fun first hhead => ?_, fun {first second rest T} hq hT => ?_⟩
  · rw [schedule_priv] at hhead
    rw [currObj_schedule, hfirst, List.headD_eq_head?_getD, hhead]
    rfl
  rw [schedule_priv] at hq ⊢
  let q := (updateSvt (chargeCurrent (Sched.beforePick (schedBvt khz params) ticks p).ctl
    (ticks (p.ctl.threadList.length + 1))
    (Sched.beforePick (schedBvt khz params) ticks p).priv)).delTimer
  have hqueue : q.runqueue = first :: second :: rest := by
    rw [← hq]
    exact (takeFirst_spec khz _ _ q).2.symm
  have hle := takeFirst_timer hqueue rfl hT
  have hstart : ((pick (schedBvt khz params) ticks p).2.data first).startTsc =
      ticks p.ctl.threadList.length := by
    have hhead : (pick (schedBvt khz params) ticks p).2.runqueue.head? = some first := by
      rw [hq]
      rfl
    show ((pick (schedBvt khz params) ticks p).2.data first).ledger.startTsc = _
    rw [ledger_pick, if_pos hhead]
  have hcount : runCountdown ((pick (schedBvt khz params) ticks p).2.data first)
      ((pick (schedBvt khz params) ticks p).2.data second) =
        runCountdown (q.data first) (q.data second) := by
    have hdata : ∀ u, (pick (schedBvt khz params) ticks p).2.data u =
        if q.runqueue.head? = some u then
          { q.data u with startTsc := ticks p.ctl.threadList.length }
        else q.data u :=
      takeFirst_data khz _ _ q
    rw [hdata first, hdata second]
    split <;> split <;> rfl
  rw [hcount]
  have hread : T ≤ ticks (p.ctl.threadList.length + 2) + _ := hle
  omega

theorem charge_first_le (now : Nat) (hord : Ordered s) (hplain : All Plain s)
    (hleft : All (Leftover khz) s) (hd : 2 * d < bvtMcuTicks khz)
    (hq : s.runqueue = first :: second :: rest) (hnow : now ≤ (s.data first).startTsc + 2 * d +
      runCountdown (s.data first) (s.data second) * bvtMcuTicks khz) :
    ((s.data first).ledger.charge now).avt ≤ max (s.data first).avt (s.data second).avt +
      ((bvtCsaMcu + 1) * (s.data first).vtRatio : Nat) := by
  rcases hleft first with hzero | ⟨hmcu, hres⟩
  · rw [Ledger.avt_charge_of_mcu hzero]
    show (s.data first).avt ≤ _
    omega
  have hevt : ∀ t ∈ s.runqueue, (s.data t).evt = (s.data t).avt := by
    intro t ht
    rw [hord.evt t ht, BvtData.effective, (hplain t).1]
    simp
  have hfirst : first ∈ s.runqueue := by rw [hq]; simp
  have hsecond : second ∈ s.runqueue := by rw [hq]; simp
  have hle : (s.data first).evt ≤ (s.data second).evt := hord.head_le hq second hsecond
  have hcount := runCountdown_mul_le hle
  rw [hevt first hfirst, hevt second hsecond] at hcount
  have hcharge : ((s.data first).ledger.charge now).avt ≤ (s.data first).avt +
      ((runCountdown (s.data first) (s.data second) + 1) * (s.data first).vtRatio : Nat) := by
    refine Ledger.avt_charge_le (by rw [hmcu]; exact hres) (by rw [hmcu]; exact hd) ?_
    rw [hmcu]
    show now ≤ (s.data first).startTsc + _ + _
    omega
  rw [add_mul] at hcharge ⊢
  push_cast at hcharge hcount ⊢
  omega

theorem avt_pick : ((pick (schedBvt khz params) ticks p).2.data u).avt =
    if p.ctl.currObj = some u ∧ u ≠ p.ctl.idle then
      ((p.priv.data u).ledger.charge (ticks (p.ctl.threadList.length + 1))).avt
    else (p.priv.data u).avt := by
  show ((pick (schedBvt khz params) ticks p).2.data u).ledger.avt = _
  rw [ledger_pick]
  split <;> split <;> rfl

theorem vtRatio_pick : ((pick (schedBvt khz params) ticks p).2.data u).vtRatio =
    (p.priv.data u).vtRatio := by
  show ((pick (schedBvt khz params) ticks p).2.data u).ledger.vtRatio = _
  rw [ledger_pick]
  split
  · split
    · exact Ledger.charge_vtRatio _ _
    · rfl
  · split
    · exact Ledger.charge_vtRatio _ _
    · rfl

theorem maxVtRatio_pick :
    maxVtRatio (pick (schedBvt khz params) ticks p).2 = maxVtRatio p.priv := by
  rw [maxVtRatio, List.toFinset_eq_of_perm _ _ (perm_pick ticks p)]
  exact Finset.sup_congr rfl fun t _ => vtRatio_pick

theorem vtRatio_le_max (ht : t ∈ s.runqueue) : (s.data t).vtRatio ≤ maxVtRatio s :=
  Finset.le_sup (f := fun t => (s.data t).vtRatio) (List.mem_toFinset.mpr ht)

/-- A round keeps the bound: only the first thread moves, and not far past the
second. -/
theorem within_pick {due : Option Nat} (hord : Ordered p.priv) (hplain : All Plain p.priv)
    (hleft : All (Leftover khz) p.priv) (hidle : p.ctl.idle ∉ p.priv.runqueue)
    (hd : 2 * d < bvtMcuTicks khz) (hstarted : Started khz d p due) (hdue : due = some T)
    (hread : ticks (p.ctl.threadList.length + 1) ≤ T + d) (h : Within (lagBound p.priv) p.priv) :
    Within (lagBound p.priv) (pick (schedBvt khz params) ticks p).2 := by
  intro t ht u hu
  have ht := (perm_pick ticks p).mem_iff.mp ht
  have hu := (perm_pick ticks p).mem_iff.mp hu
  obtain ⟨first, rest, hq⟩ := List.exists_cons_of_ne_nil (List.ne_nil_of_mem ht)
  have hcur : p.ctl.currObj = some first := hstarted.current first (by rw [hq]; rfl)
  have hmem : first ∈ p.priv.runqueue := by rw [hq]; simp
  have hmoved : ((pick (schedBvt khz params) ticks p).2.data first).avt =
      ((p.priv.data first).ledger.charge (ticks (p.ctl.threadList.length + 1))).avt := by
    have hne : first ≠ p.ctl.idle := fun heq => hidle (heq ▸ hmem)
    rw [avt_pick, if_pos ⟨hcur, hne⟩]
  have hstays : ∀ {w}, w ≠ first →
      ((pick (schedBvt khz params) ticks p).2.data w).avt = (p.priv.data w).avt := by
    intro w hw
    rw [avt_pick, if_neg fun hc => hw (Option.some.inj (hc.1.symm.trans hcur))]
  by_cases htf : t = first
  · by_cases huf : u = first
    · rw [htf, huf]
      omega
    -- the thread that ran, against one that waited
    rw [htf, hstays huf]
    rw [hq] at hu
    obtain ⟨second, rest', hrest⟩ :=
      List.exists_cons_of_ne_nil (List.ne_nil_of_mem (List.mem_of_ne_of_mem huf hu))
    rw [hrest] at hq hu
    have hdue := hstarted.due hq hdue
    have hcharge := charge_first_le (ticks (p.ctl.threadList.length + 1)) hord hplain hleft hd
      hq (by omega)
    have hratio : (bvtCsaMcu + 1) * (p.priv.data first).vtRatio ≤
        (bvtCsaMcu + 1) * maxVtRatio p.priv := Nat.mul_le_mul_left _ (vtRatio_le_max hmem)
    have hfirst := hord.avt_head_le (fun w _ => (hplain w).1) hq u (by rw [hq]; exact hu)
    have hsecond : (p.priv.data second).avt ≤ (p.priv.data u).avt := by
      have hq' : (runqueueRemove first p.priv).runqueue = second :: rest' := by
        rw [runqueueRemove, hq, List.erase_cons_head]
      have hu' : u ∈ (runqueueRemove first p.priv).runqueue := by
        rw [hq']
        exact List.mem_of_ne_of_mem huf hu
      exact hord.remove.avt_head_le (fun w _ => (hplain w).1) hq' u hu'
    rw [lagBound]
    omega
  · by_cases huf : u = first
    · rw [huf, hstays htf]
      have hold := h t ht first hmem
      have hmono : (p.priv.data first).avt ≤ _ := Ledger.avt_le_charge
        (ticks (p.ctl.threadList.length + 1)) (p.priv.data first).ledger
      omega
    · rw [hstays htf, hstays huf]
      exact h t ht u hu

end Bvt

open Bvt

/-! ## Round after round -/

/-- The timeout that the last pick programmed. -/
def noteDue (khz : Nat) (params : Tid → BvtParams) :
    ClockOp → Clocked Bvt → Option Nat → Option Nat
  | .call .schedule caller, s, _ => (pick (schedBvt khz params) caller.ticks s.pcpu).2.tickTimer
  | _, _, due => due

/-- Nobody goes to sleep, wakes up or is set up, and `schedule` runs when the timer
expires. All its readings are taken within `d` ticks. -/
def OnTime (d : Nat) : ClockOp → Clocked Bvt × Option Nat → Prop
  | .call .schedule caller, x =>
    ∃ timeout, x.2 = some timeout ∧ timeout ≤ caller.ticks 0 ∧ ∀ i, caller.ticks i ≤ timeout + d
  | .call (.requestThreadPriority _) _, _ => True
  | .call .timerTick _, _ => True
  | .clear, _ => True
  | .yield, _ => True
  | _, _ => False

/-- The lag is bounded, as it was when the window began at `s₀`. -/
structure Lagging (khz d : Nat) (s₀ : Clocked Bvt) (x : Clocked Bvt × Option Nat) :
    Prop where
  threads : x.1.pcpu.ctl.threadList = s₀.pcpu.ctl.threadList
  idle : x.1.pcpu.ctl.idle = s₀.pcpu.ctl.idle
  queue : x.1.pcpu.priv.runqueue.Perm s₀.pcpu.priv.runqueue
  started : Started khz d x.1.pcpu x.2
  within : Within (lagBound x.1.pcpu.priv) x.1.pcpu.priv

section

variable {khz d : Nat} {params : Tid → BvtParams} {s s' s₀ : Clocked Bvt} {a : ClockOp}
  {x y : Clocked Bvt × Option Nat} {caller : Caller} {due : Option Nat}

theorem Lagging.keep (h : Lagging khz d s₀ (s, due)) (hview : s'.pcpu.ctl.view = s.pcpu.ctl.view)
    (hqueue : s'.pcpu.priv.runqueue = s.pcpu.priv.runqueue)
    (hdata : s'.pcpu.priv.data = s.pcpu.priv.data) : Lagging khz d s₀ (s', due) := by
  refine ⟨(congrArg RunView.threadList hview).trans h.threads,
    (congrArg RunView.idle hview).trans h.idle, ?_, ⟨?_, ?_⟩, ?_⟩
  · show s'.pcpu.priv.runqueue.Perm _
    rw [hqueue]
    exact h.queue
  · show ∀ first, s'.pcpu.priv.runqueue.head? = some first → s'.pcpu.ctl.currObj = _
    have hcur : s'.pcpu.ctl.currObj = s.pcpu.ctl.currObj := congrArg RunView.currObj hview
    rw [hqueue, hcur]
    exact h.started.current
  · intro first second rest T hq hT
    show T ≤ (s'.pcpu.priv.data first).startTsc + d + _
    rw [hdata]
    exact h.started.due (hqueue.symm.trans hq) hT
  · show Within (lagBound s'.pcpu.priv) s'.pcpu.priv
    rw [Within, lagBound, maxVtRatio, hqueue, hdata]
    exact h.within

section

variable (h : Lagging khz d s₀ x) (hs : BvtState x.1) (hord : Ordered x.1.pcpu.priv)
  (hplain : All Plain x.1.pcpu.priv) (hleft : All (Leftover khz) x.1.pcpu.priv)
  (hd : 2 * d < bvtMcuTicks khz)

include h hs hord hplain hleft hd

theorem Lagging.schedule (hok : OnTime d (.call .schedule caller) x) {lo hi : Nat}
    (hr : Readings lo hi caller.ticks) :
    Lagging khz d s₀ (x.1.call (schedBvt khz params) caller hi .schedule,
      (pick (schedBvt khz params) caller.ticks x.1.pcpu).2.tickTimer) := by
  obtain ⟨timeout, hdue, hexpired, hlast⟩ := hok
  refine ⟨?_, ?_, ?_, ?_, ?_⟩
  · exact threadList_schedule.trans h.threads
  · exact idle_schedule.trans h.idle
  · simp only [Clocked.call, SchedOp.apply, schedule_priv]
    exact (perm_pick _ _).trans h.queue
  · apply started_schedule
    have hfirst := hr.mono (Nat.zero_le x.1.pcpu.ctl.threadList.length)
    have hread := hlast (x.1.pcpu.ctl.threadList.length + 2)
    omega
  · simp only [Clocked.call, SchedOp.apply, schedule_priv]
    have hbound : lagBound (pick (schedBvt khz params) caller.ticks x.1.pcpu).2 =
        lagBound x.1.pcpu.priv := by
      rw [lagBound, lagBound, maxVtRatio_pick]
    rw [hbound]
    exact within_pick hord hplain hleft hs.idle hd h.started hdue (hlast _) h.within

theorem Lagging.step (hok : OnTime d a x) (hstep : ClockStep (schedBvt khz params) a x.1 s') :
    Lagging khz d s₀ (s', noteDue khz params a x.1 x.2) := by
  cases hstep with
  | @call op caller hi _ hal hr hnow =>
    cases op with
    | schedule => exact h.schedule hs hord hplain hleft hd hok hr
    | requestThreadPriority t =>
      exact h.keep (view_requestThreadPriority (schedBvt khz params) t x.1.pcpu) rfl rfl
    | timerTick =>
      exact h.keep (view_timerTick (schedBvt khz params) caller.ticks x.1.pcpu) rfl rfl
    | initThreadData | runIdle | sleepThread | wakeThread => exact hok.elim
  | clear => exact h.keep (view_clearReschedule x.1.pcpu.ctl) rfl rfl
  | yield => exact h.keep rfl rfl rfl
  | suspend => exact hok.elim

end

variable {idle now : Nat} {obj : Tid → ThreadObject} {tr tr' : List ClockOp}

/-- A window of a run begins with a call of `schedule` that leaves the threads, all of
them awake, within the bound of each other. As long as nobody can be warped and
`schedule` runs when the timer expires, they stay within the bound. -/
theorem bvt_lag_bounded (hwarp : ∀ t, (params t).warpValue ≤ 0) (hd : 2 * d < bvtMcuTicks khz)
    (hrun : GuardedRun (ClockStep (schedBvt khz params)) (fun _ _ => True)
      (bvtStart idle obj now) tr s)
    (hbegin : ClockStep (schedBvt khz params) (.call .schedule caller) s s₀)
    (hspan : ∀ i, caller.ticks i ≤ caller.ticks 0 + d)
    (hawake : ∀ t ∈ s₀.pcpu.ctl.threadList, t ≠ s₀.pcpu.ctl.idle →
      ¬ Asleep s₀.pcpu.ctl.view t) (hwithin : Within (lagBound s₀.pcpu.priv) s₀.pcpu.priv)
    (hwindow : GuardedRun (Noted (ClockStep (schedBvt khz params)) (noteDue khz params))
      (OnTime d) (s₀, s₀.pcpu.priv.tickTimer) tr' x) :
    ∀ t ∈ x.1.pcpu.ctl.threadList, t ≠ x.1.pcpu.ctl.idle →
      ∀ u ∈ x.1.pcpu.ctl.threadList, u ≠ x.1.pcpu.ctl.idle →
        (x.1.pcpu.priv.data t).avt - (x.1.pcpu.priv.data u).avt ≤ lagBound x.1.pcpu.priv := by
  have hreach : GuardedRun (ClockStep (schedBvt khz params)) (fun _ _ => True)
      (bvtStart idle obj now) (.call .schedule caller :: tr) s₀ := .cons hrun trivial hbegin
  have h : Lagging khz d s₀ x := by
    induction hwindow with
    | nil =>
      refine ⟨rfl, rfl, .refl _, ?_, hwithin⟩
      cases hbegin with
      | call hal hr hnow =>
        show Started khz d (schedule (schedBvt khz params) caller.ticks s.pcpu)
          (schedule (schedBvt khz params) caller.ticks s.pcpu).priv.tickTimer
        rw [schedule_priv]
        apply started_schedule
        have hfirst := hr.mono (Nat.zero_le s.pcpu.ctl.threadList.length)
        have hread := hspan (s.pcpu.ctl.threadList.length + 2)
        omega
    | @cons a tr' x y hwindow hok hs ih =>
      have hall := hreach.trans hwindow.forget
      obtain ⟨hstate, hord⟩ := bvt_reach hall
      have hplain := All.reach (survives_plain hwarp) (fun _ => ⟨rfl, Int.le_refl 0⟩) hall
      have hleft := All.reach (survives_leftover (by omega)) (fun _ => .inl rfl) hall
      obtain ⟨s', due⟩ := y
      have hstep := ih.step hstate hord hplain hleft hd hok hs.1
      rw [← hs.2] at hstep
      exact hstep
  have hqueue := (bvt_reach hreach).1.queue
  have hmem : ∀ t ∈ x.1.pcpu.ctl.threadList, t ≠ x.1.pcpu.ctl.idle →
      t ∈ x.1.pcpu.priv.runqueue := by
    intro t ht hne
    rw [h.threads] at ht
    rw [h.idle] at hne
    exact h.queue.mem_iff.mpr (hqueue.queued t ht hne (hawake t ht hne))
  intro t ht hti u hu hui
  have hlag := h.within t (hmem t ht hti) u (hmem u hu hui)
  omega

/-! ### One round of two threads -/

/-- Thread 2 has twice the weight of thread 1. -/
def twoWeights (t : Tid) : BvtParams := if t = 2 then { weight := 128 } else { weight := 64 }

/-- Both are awake, and it is time to pick one. -/
def twoAwake : Clocked Bvt :=
  Turn.plays (schedBvt 10 twoWeights)
    [⟨.initThreadData 0, 4, 0, 4⟩, ⟨.runIdle, 5, 0, 5⟩, ⟨.initThreadData 1, 6, 0, 6⟩,
      ⟨.initThreadData 2, 7, 0, 7⟩, ⟨.wakeThread 1, 8, 0, 8⟩, ⟨.wakeThread 2, 9, 0, 9⟩] bvtBoot

def roundBegin : Turn := ⟨.schedule, 10, 0, 10⟩

def roundEnd : Turn := ⟨.schedule, 60, 0, 60⟩

/-- Thread 1 runs for its five MCUs, until the timer expires at 60. -/
theorem bvt_lag_bounded_round :
    let s₀ := roundBegin.play (schedBvt 10 twoWeights) twoAwake
    let s₁ := roundEnd.play (schedBvt 10 twoWeights) s₀
    s₀.pcpu.priv.tickTimer = some 60 ∧ lagBound s₁.pcpu.priv = 97 ∧
      (s₁.pcpu.priv.data 1).avt = 80 ∧ (s₁.pcpu.priv.data 2).avt = 0 ∧
      (s₁.pcpu.priv.data 1).avt - (s₁.pcpu.priv.data 2).avt ≤ lagBound s₁.pcpu.priv := by
  intro s₀ s₁
  have hrun : GuardedRun (ClockStep (schedBvt 10 twoWeights)) (fun _ _ => True) bvtBoot _
      twoAwake := Turn.run (by decide +kernel)
  have hbegin : roundBegin.Can twoAwake := by decide +kernel
  have hend : roundEnd.Can s₀ := by decide +kernel
  have htimer : s₀.pcpu.priv.tickTimer = some 60 := by decide +kernel
  have hok : OnTime 0 roundEnd.label (s₀, s₀.pcpu.priv.tickTimer) :=
    ⟨60, htimer, le_rfl, fun _ => le_rfl⟩
  have hwindow : GuardedRun (Noted (ClockStep (schedBvt 10 twoWeights)) (noteDue 10 twoWeights))
      (OnTime 0) (s₀, s₀.pcpu.priv.tickTimer) [roundEnd.label]
      (s₁, noteDue 10 twoWeights roundEnd.label s₀ s₀.pcpu.priv.tickTimer) :=
    GuardedRun.nil.cons hok ⟨hend.step, rfl⟩
  have hwarp : ∀ t, (twoWeights t).warpValue ≤ 0 := by
    intro t
    rw [twoWeights]
    split <;> decide
  have hlag := bvt_lag_bounded hwarp (by decide) hrun hbegin.step
    (fun _ => le_rfl) (by decide +kernel) (by decide +kernel) hwindow 1
    (by decide +kernel) (by decide +kernel) 2 (by decide +kernel) (by decide +kernel)
  exact ⟨htimer, by decide +kernel, by decide +kernel, by decide +kernel, hlag⟩

end

end Sima.Sched
