import Mathlib.Algebra.BigOperators.Group.Finset.Piecewise
import Mathlib.Algebra.Order.BigOperators.Group.Finset
import Mathlib.Algebra.Order.Field.Rat
import Mathlib.Tactic.FieldSimp
import Mathlib.Tactic.Linarith
import Sima.Sched.BvtOrder

/-!
# What a BVT thread is charged

BVT keeps its books in virtual time: `avt` in whole MCUs, the rest in `residual`, and
`start_tsc` up to where the thread that runs has been charged. Warping does not touch
them. So few things do — a charge, a start, a wake-up, the set-up of a thread — and
`Ledger` is the part of the data they are written in.

Divided by its ratio, the virtual time of a thread is physical time again. A tick must
not be charged twice, neither to one thread nor to two. `pick_next` reads the clock
before it charges the thread that leaves, and starts the next one from that first
reading; what passes until `update_vt` reads it again is charged to both. Where the
two readings agree the books are right.
-/

namespace Sima.Sched

open Lib Pcpu SchedOp RunView

/-- The books of a thread. -/
structure Ledger where
  avt : Int
  residual : Nat
  mcu : Nat
  vtRatio : Nat
  startTsc : Nat
deriving DecidableEq, Repr

namespace BvtData

def ledger (d : BvtData) : Ledger := ⟨d.avt, d.residual, d.mcu, d.vtRatio, d.startTsc⟩

@[simp] theorem ledger_updateEvt (d : BvtData) : d.updateEvt.ledger = d.ledger := rfl

@[simp] theorem ledger_startWarp (d : BvtData) : d.startWarp.ledger = d.ledger := rfl

@[simp] theorem ledger_updateWarpAfterCharge (chargedMcu now : Nat) (d : BvtData) :
    (d.updateWarpAfterCharge chargedMcu now).ledger = d.ledger := by
  rw [updateWarpAfterCharge]
  split
  · rfl
  · split <;> rfl

end BvtData

namespace Ledger

/-- `update_vt`. -/
def charge (now : Nat) (l : Ledger) : Ledger :=
  if now > l.startTsc then
    let vDelta := uint64 (p2v (now - l.startTsc) l.vtRatio + l.residual)
    { l with avt := l.avt + (vDelta / l.mcu : Nat), residual := vDelta % l.mcu }
  else l

/-- A thread that woke up, with the time of the scheduler at `svt`. -/
def wake (svt : Int) (l : Ledger) : Ledger :=
  { l with avt := if l.avt > svt - bvtCsaMcu then l.avt else svt }

/-- The virtual time of the thread, in units of a MCU's ticks. -/
def total (l : Ledger) : Int := l.avt * l.mcu + l.residual

/-- The virtual time of the thread as physical time, in ticks of the clock. -/
def charged (l : Ledger) : ℚ := l.total / l.vtRatio

@[simp] theorem charge_vtRatio (now : Nat) (l : Ledger) : (l.charge now).vtRatio = l.vtRatio := by
  rw [charge]
  split <;> rfl

theorem vDelta_le (now : Nat) (l : Ledger) :
    uint64 (p2v (now - l.startTsc) l.vtRatio + l.residual) ≤
      (now - l.startTsc) * l.vtRatio + l.residual :=
  (Nat.mod_le _ _).trans (Nat.add_le_add_right (Nat.mod_le _ _) _)

/-- The virtual time goes on by no more than the time since the start, at the rate of
the thread. It is less only if the product does not fit into 64 bits. -/
theorem total_charge_le (now : Nat) (l : Ledger) :
    (l.charge now).total ≤ l.total + (now - l.startTsc : Nat) * (l.vtRatio : Int) := by
  rw [charge]
  split
  · have hdelta := l.vDelta_le now
    simp only [total]
    generalize uint64 (p2v (now - l.startTsc) l.vtRatio + l.residual) = vDelta at hdelta ⊢
    have hsplit : ((vDelta / l.mcu : Nat) : Int) * l.mcu + (vDelta % l.mcu : Nat) = vDelta := by
      exact_mod_cast Nat.div_add_mod' vDelta l.mcu
    linarith
  · have : (0 : Int) ≤ (now - l.startTsc : Nat) * (l.vtRatio : Int) := by positivity
    linarith

theorem charged_charge_le (now : Nat) (l : Ledger) :
    (l.charge now).charged ≤ l.charged + ((now - l.startTsc : Nat) : ℚ) := by
  have htotal := l.total_charge_le now
  simp only [charged, charge_vtRatio]
  by_cases hratio : l.vtRatio = 0
  · simp [hratio]
  · have hpos : (0 : ℚ) < l.vtRatio := by exact_mod_cast pos_of_ne_zero hratio
    rw [div_add' _ _ _ hpos.ne', div_le_div_iff_of_pos_right hpos]
    exact_mod_cast htotal

end Ledger

theorem BvtData.ledger_charge (now : Nat) (d : BvtData) :
    (d.charge now).ledger = d.ledger.charge now := by
  simp only [BvtData.charge, ledger_updateEvt, ledger_updateWarpAfterCharge, Ledger.charge]
  by_cases hlt : now > d.startTsc <;> simp [ledger, hlt]

/-! ## Who writes in the books -/

namespace Bvt

variable {s : Bvt} {c : SchedControl} {caller : Caller} {t u : Tid} {now khz : Nat}
  {ticks : Nat → Nat} {params : Tid → BvtParams} {p : Pcpu Bvt}

@[simp] theorem requeue_data (t : Tid) (s : Bvt) : (requeue t s).data = s.data := by
  rw [requeue]
  split <;> rfl

@[simp] theorem updateSvt_data (s : Bvt) : (updateSvt s).data = s.data := by
  rw [updateSvt]
  split <;> rfl

theorem ledger_startWarp : ((startWarp now t s).data u).ledger = (s.data u).ledger := by
  rw [startWarp]
  split
  · rfl
  split
  · rw [requeue_data]
    by_cases hut : u = t
    · subst hut
      simp
    · rw [modify_of_ne hut]
  · rfl

theorem ledger_consumePriority :
    ((consumePriority (schedBvt khz params) caller t p).priv.data u).ledger =
      (p.priv.data u).ledger := by
  rw [Sched.consumePriority]
  split
  · simp only [schedBvt]
    split
    · exact ledger_startWarp
    · rfl
  · rfl

theorem ledger_beforePick : ((beforePick (schedBvt khz params) ticks p).priv.data u).ledger =
    (p.priv.data u).ledger := by
  rw [beforePick]
  generalize p.ctl.threadList = ts
  induction ts generalizing ticks p with
  | nil => rfl
  | cons t ts ih => rw [Sched.consumePriorities, ih, ledger_consumePriority]

theorem chargeCurrent_data : (chargeCurrent c now s).data u =
    if c.currObj = some u ∧ u ≠ c.idle then (s.data u).charge now else s.data u := by
  rw [chargeCurrent]
  cases hcur : c.currObj with
  | none => simp
  | some current =>
    by_cases hidle : current = c.idle
    · have hno : ¬ (some current = some u ∧ u ≠ c.idle) := by
        rintro ⟨heq, hne⟩
        exact hne ((Option.some.inj heq).symm.trans hidle)
      have hrest : ¬ (!c.isIdleThread current) = true := by simp [SchedControl.isIdleThread, hidle]
      simp only [if_neg hno, if_neg hrest]
    · have hbusy : (!c.isIdleThread current) = true := by simp [SchedControl.isIdleThread, hidle]
      simp only [if_pos hbusy]
      rw [updateVt, requeue_data]
      by_cases hu : u = current
      · subst hu
        rw [modify_self, if_pos ⟨rfl, hidle⟩]
      · rw [modify_of_ne hu, if_neg (fun h => hu (Option.some.inj h.1).symm)]

theorem ledger_chargeCurrent : ((chargeCurrent c now s).data u).ledger =
    if c.currObj = some u ∧ u ≠ c.idle then (s.data u).ledger.charge now
    else (s.data u).ledger := by
  rw [chargeCurrent_data]
  split
  · exact BvtData.ledger_charge now _
  · rfl

/-- `schedule` charges the current thread up to the second reading of `pick_next`, and
starts the next one at the first. -/
theorem ledger_pick :
    let r := pick (schedBvt khz params) ticks p
    let n := p.ctl.threadList.length
    let l := if p.ctl.currObj = some u ∧ u ≠ p.ctl.idle then
      (p.priv.data u).ledger.charge (ticks (n + 1)) else (p.priv.data u).ledger
    (r.2.data u).ledger =
      if r.2.runqueue.head? = some u then { l with startTsc := ticks n } else l := by
  have hview := view_beforePick (schedBvt khz params) ticks p
  have hcur : (beforePick (schedBvt khz params) ticks p).ctl.currObj = p.ctl.currObj :=
    congrArg currObj hview
  have hidle : (beforePick (schedBvt khz params) ticks p).ctl.idle = p.ctl.idle :=
    congrArg idle hview
  intro r n l
  let q := (updateSvt (chargeCurrent (beforePick (schedBvt khz params) ticks p).ctl
    (ticks (n + 1)) (beforePick (schedBvt khz params) ticks p).priv)).delTimer
  have hl : (q.data u).ledger = l := by
    show ((updateSvt _).data u).ledger = l
    rw [updateSvt_data, ledger_chargeCurrent, hcur, hidle, ledger_beforePick]
  have hqueue : r.2.runqueue = q.runqueue := (takeFirst_spec khz _ _ q).2
  have hdata : r.2.data u = if q.runqueue.head? = some u then
      { q.data u with startTsc := ticks n } else q.data u := takeFirst_data khz _ _ q u
  rw [hdata, hqueue]
  split
  · rw [← hl]
    rfl
  · exact hl

theorem pick_first (khz : Nat) (params : Tid → BvtParams) (ticks : Nat → Nat)
    (p : Pcpu Bvt) : (pick (schedBvt khz params) ticks p).1 =
    (pick (schedBvt khz params) ticks p).2.runqueue.headD p.ctl.idle := by
  have hidle : (beforePick (schedBvt khz params) ticks p).ctl.idle = p.ctl.idle :=
    congrArg idle (view_beforePick (schedBvt khz params) ticks p)
  rw [← hidle]
  exact (pickNext_spec khz _ _ _).2

theorem pick_head (hne : (pick (schedBvt khz params) ticks p).1 ≠ p.ctl.idle) :
    (pick (schedBvt khz params) ticks p).2.runqueue.head? =
      some (pick (schedBvt khz params) ticks p).1 := by
  have hfirst := pick_first khz params ticks p
  cases hq : (pick (schedBvt khz params) ticks p).2.runqueue with
  | nil =>
    rw [hq] at hfirst
    exact absurd hfirst hne
  | cons first rest =>
    rw [hq] at hfirst
    rw [hfirst]
    rfl

theorem ledger_wake : ((wake c caller t s).data u).ledger =
    if u = t then (s.data u).ledger.wake s.svt else (s.data u).ledger := by
  show (((startWarp _ t _).modify t BvtData.updateEvt).data u).ledger = _
  by_cases hu : u = t
  · subst hu
    rw [modify_self, BvtData.ledger_updateEvt, ledger_startWarp, modify_self, if_pos rfl]
    rfl
  · rw [modify_of_ne hu, ledger_startWarp, modify_of_ne hu, if_neg hu]

end Bvt

open Bvt

/-! ## The books of a pCPU -/

/-- What all threads have been charged. -/
def Pcpu.totalCharged (p : Pcpu Bvt) : ℚ :=
  ∑ t ∈ p.ctl.threadList.toFinset, (p.priv.data t).ledger.charged

/-- How long the current thread has run by `now` without having been charged for it.
Nobody charges the idle thread. -/
def Pcpu.uncharged (p : Pcpu Bvt) (now : Nat) : Nat :=
  match p.ctl.currObj with
  | some t => if t = p.ctl.idle then 0 else now - (p.priv.data t).ledger.startTsc
  | none => 0

/-- What is charged and what is still to be charged. -/
def Pcpu.books (p : Pcpu Bvt) (now : Nat) : ℚ := p.totalCharged + p.uncharged now

/-- `pick_next` reads the same twice. It does not charge the idle thread, so then it
does not matter. -/
def OneReading : ClockOp → Clocked Bvt → Prop
  | .call .schedule caller, s =>
    s.pcpu.ctl.currObj ≠ some s.pcpu.ctl.idle →
      caller.ticks s.pcpu.ctl.threadList.length = caller.ticks (s.pcpu.ctl.threadList.length + 1)
  | _, _ => True

/-- A thread that is woken keeps its virtual time. -/
def Unadjusted : ClockOp → Clocked Bvt → Prop
  | .call (.wakeThread t) _, s => Asleep s.pcpu.ctl.view t →
      (s.pcpu.priv.data t).avt > s.pcpu.priv.svt - bvtCsaMcu ∨
        (s.pcpu.priv.data t).avt = s.pcpu.priv.svt
  | _, _ => True

section

variable {khz : Nat} {params : Tid → BvtParams} {p p' : Pcpu Bvt} {s s' : Clocked Bvt}
  {caller : Caller} {ticks : Nat → Nat} {op : SchedOp} {a : ClockOp} {t : Tid}
  {now hi : Nat}

theorem uncharged_later (p : Pcpu Bvt) (now hi : Nat) :
    p.uncharged hi ≤ p.uncharged now + (hi - now) := by
  simp only [uncharged]
  split
  · split
    · exact Nat.zero_le _
    · omega
  · exact Nat.zero_le _

theorem books_of_eq (htotal : p'.totalCharged = p.totalCharged)
    (hun : p'.uncharged hi = p.uncharged hi) :
    p'.books hi ≤ p.books now + ((hi - now : Nat) : ℚ) := by
  have hlater : (p.uncharged hi : ℚ) ≤ p.uncharged now + ((hi - now : Nat) : ℚ) := by
    exact_mod_cast uncharged_later p now hi
  rw [books, books, hun]
  linarith

theorem books_later (hlist : p'.ctl.threadList = p.ctl.threadList)
    (hcur : p'.ctl.currObj = p.ctl.currObj) (hidle : p'.ctl.idle = p.ctl.idle)
    (hledger : ∀ t, (p'.priv.data t).ledger = (p.priv.data t).ledger) (now hi : Nat) :
    p'.books hi ≤ p.books now + ((hi - now : Nat) : ℚ) := by
  have htotal : p'.totalCharged = p.totalCharged := by
    rw [totalCharged, hlist]
    exact Finset.sum_congr rfl fun t _ => by rw [hledger t]
  have hun : p'.uncharged hi = p.uncharged hi := by simp only [uncharged, hcur, hidle, hledger]
  exact books_of_eq htotal hun

/-- A thread that was not set up has been charged nothing. -/
def Blank (p : Pcpu Bvt) : Prop :=
  ∀ t, t ∉ p.ctl.threadList → (p.priv.data t).ledger = ({} : BvtData).ledger

/-- Only threads of the pCPU are written to. -/
theorem Blank.of_ledger (h : Blank p) (hlist : p'.ctl.threadList = p.ctl.threadList)
    (hledger : ∀ t, t ∉ p.ctl.threadList →
      (p'.priv.data t).ledger = (p.priv.data t).ledger) : Blank p' := by
  intro t ht
  rw [hlist] at ht
  rw [hledger t ht]
  exact h t ht

theorem threadList_schedule :
    (schedule (schedBvt khz params) ticks p).ctl.threadList = p.ctl.threadList := by
  have hview := view_schedule (schedBvt khz params) ticks p
  rw [← SchedControl.view_threadList, hview, switchTo_threadList]
  rfl

theorem idle_schedule : (schedule (schedBvt khz params) ticks p).ctl.idle = p.ctl.idle := by
  have hview := view_schedule (schedBvt khz params) ticks p
  rw [← SchedControl.view_idle, hview, switchTo_idle]
  rfl

theorem Blank.schedule (h : Blank p) (hok : p.ctl.view.Ok)
    (hqueue : QueueOk p.ctl.view p.priv.runqueue) :
    Blank (schedule (schedBvt khz params) ticks p) := by
  refine h.of_ledger threadList_schedule fun t ht => ?_
  have hcur : ¬ (p.ctl.currObj = some t ∧ t ≠ p.ctl.idle) := fun hc => ht (hok.current t hc.1)
  have hhead : (pick (schedBvt khz params) ticks p).2.runqueue.head? ≠ some t := by
    intro hh
    have hin := List.mem_of_mem_head? hh
    exact ht (hqueue.member t ((perm_pick ticks p).mem_iff.mp hin))
  rw [schedule_priv, ledger_pick, if_neg hhead, if_neg hcur]

theorem Blank.apply (h : Blank p) (hok : p.ctl.view.Ok)
    (hqueue : QueueOk p.ctl.view p.priv.runqueue) (hal : op.Allowed p.ctl) :
    Blank (op.apply (schedBvt khz params) caller p) := by
  cases op with
  | initThreadData u =>
    intro t ht
    have hboth : t ∉ p.ctl.threadList ∧ t ≠ u := by simpa [apply, initThreadData] using ht
    show ((Bvt.initData khz params p.ctl caller u p.priv).data t).ledger = _
    rw [Bvt.initData, modify_of_ne hboth.2]
    exact h t hboth.1
  | runIdle => exact h
  | sleepThread u =>
    simp only [apply, sleepThread]
    split <;> exact h
  | wakeThread u =>
    simp only [apply, wakeThread]
    split
    · refine h.of_ledger (by split <;> rfl) fun t ht => ?_
      have hut : t ≠ u := fun heq => ht (heq ▸ hal.1)
      show ((Bvt.wake p.ctl caller u p.priv).data t).ledger = _
      rw [ledger_wake, if_neg hut]
    · exact h
  | requestThreadPriority u =>
    exact h.of_ledger (by simp only [apply, requestThreadPriority]; split <;> rfl) fun _ _ => rfl
  | schedule => exact h.schedule hok hqueue
  | timerTick => exact h.of_ledger (by simp only [apply, timerTick]; split <;> rfl) fun _ _ => rfl

/-! ## One step -/

theorem books_initThreadData (h : Blank p) (hok : p.ctl.view.Ok)
    (ht : t ∉ p.ctl.threadList) (now hi : Nat) :
    (initThreadData (schedBvt khz params) caller t p).books hi ≤
      p.books now + ((hi - now : Nat) : ℚ) := by
  have hdata : ∀ {u}, u ∈ p.ctl.threadList →
      ((initThreadData (schedBvt khz params) caller t p).priv.data u).ledger =
        (p.priv.data u).ledger := by
    intro u hu
    have hut : u ≠ t := fun heq => ht (heq ▸ hu)
    show ((Bvt.initData khz params p.ctl caller t p.priv).data u).ledger = _
    rw [Bvt.initData, modify_of_ne hut]
  have hnew : ((initThreadData (schedBvt khz params) caller t p).priv.data t).ledger.charged
      = 0 := by
    have havt : (p.priv.data t).avt = 0 := congrArg Ledger.avt (h t ht)
    show ((Bvt.initData khz params p.ctl caller t p.priv).data t).ledger.charged = 0
    rw [Bvt.initData]
    simp [BvtData.ledger, Ledger.charged, Ledger.total, havt]
  have hset : (initThreadData (schedBvt khz params) caller t p).ctl.threadList.toFinset =
      insert t p.ctl.threadList.toFinset := by
    simp [initThreadData]
  have htotal : (initThreadData (schedBvt khz params) caller t p).totalCharged =
      p.totalCharged := by
    rw [totalCharged, hset,
      Finset.sum_insert (fun hin => ht (List.mem_toFinset.mp hin)), hnew, zero_add]
    exact Finset.sum_congr rfl fun u hu => by rw [hdata (List.mem_toFinset.mp hu)]
  have hun : (initThreadData (schedBvt khz params) caller t p).uncharged hi = p.uncharged hi := by
    have hcur : (initThreadData (schedBvt khz params) caller t p).ctl.currObj =
        p.ctl.currObj := rfl
    have hidle : (initThreadData (schedBvt khz params) caller t p).ctl.idle = p.ctl.idle := rfl
    rw [uncharged, uncharged, hcur, hidle]
    cases hc : p.ctl.currObj with
    | none => rfl
    | some u => simp only [hdata (hok.current u hc)]
  exact books_of_eq htotal hun

/-- Whoever is charged, is charged for the time since the last charge at most. -/
theorem totalCharged_schedule (khz : Nat) (params : Tid → BvtParams) (ticks : Nat → Nat)
    (p : Pcpu Bvt) : (schedule (schedBvt khz params) ticks p).totalCharged ≤
      p.totalCharged + p.uncharged (ticks (p.ctl.threadList.length + 1)) := by
  let now := ticks (p.ctl.threadList.length + 1)
  have hone : ∀ t, ((schedule (schedBvt khz params) ticks p).priv.data t).ledger.charged ≤
      (p.priv.data t).ledger.charged +
        if p.ctl.currObj = some t then (p.uncharged now : ℚ) else 0 := by
    intro t
    have hstart : ∀ l : Ledger, ∀ n, ({ l with startTsc := n } : Ledger).charged =
        l.charged := fun _ _ => rfl
    rw [schedule_priv, ledger_pick]
    simp only [apply_ite Ledger.charged, hstart, ite_self]
    by_cases hcur : p.ctl.currObj = some t
    · by_cases hidle : t = p.ctl.idle
      · rw [if_neg (fun h => h.2 hidle), if_pos hcur]
        linarith
      rw [if_pos ⟨hcur, hidle⟩, if_pos hcur]
      have hun : p.uncharged now = now - (p.priv.data t).ledger.startTsc := by
        simp only [uncharged, hcur, if_neg hidle]
      rw [hun]
      exact Ledger.charged_charge_le now _
    · rw [if_neg (fun h => hcur h.1), if_neg hcur]
      linarith
  rw [totalCharged, threadList_schedule]
  calc ∑ t ∈ p.ctl.threadList.toFinset,
        ((schedule (schedBvt khz params) ticks p).priv.data t).ledger.charged
      ≤ ∑ t ∈ p.ctl.threadList.toFinset, ((p.priv.data t).ledger.charged +
          if p.ctl.currObj = some t then (p.uncharged now : ℚ) else 0) :=
        Finset.sum_le_sum fun t _ => hone t
    _ = p.totalCharged + ∑ t ∈ p.ctl.threadList.toFinset,
          if p.ctl.currObj = some t then (p.uncharged now : ℚ) else 0 :=
        Finset.sum_add_distrib
    _ ≤ p.totalCharged + p.uncharged now := by
        gcongr
        cases hcur : p.ctl.currObj with
        | none => simp
        | some u =>
          simp only [Option.some.injEq, Finset.sum_ite_eq]
          split
          · exact le_refl _
          · exact Nat.cast_nonneg _

/-- The next thread starts where `pick_next` first read the clock. -/
theorem uncharged_schedule (khz : Nat) (params : Tid → BvtParams) (ticks : Nat → Nat)
    (p : Pcpu Bvt) (hi : Nat) : (schedule (schedBvt khz params) ticks p).uncharged hi ≤
      hi - ticks p.ctl.threadList.length := by
  have hcur := currObj_schedule (schedBvt khz params) ticks p
  simp only [uncharged, hcur, idle_schedule]
  split
  · exact Nat.zero_le _
  · next hne => rw [schedule_priv, ledger_pick, if_pos (pick_head hne)]

theorem books_schedule (hr : Readings now hi ticks) (hone : p.ctl.currObj ≠ some p.ctl.idle →
      ticks p.ctl.threadList.length = ticks (p.ctl.threadList.length + 1)) :
    (schedule (schedBvt khz params) ticks p).books hi ≤ p.books now + ((hi - now : Nat) : ℚ) := by
  have htotal := totalCharged_schedule khz params ticks p
  have hnext := uncharged_schedule khz params ticks p hi
  have hread := hr.le p.ctl.threadList.length
  have hlast := hr.last p.ctl.threadList.length
  -- what the current thread is charged for ends where the next one starts
  have hsum : p.uncharged (ticks (p.ctl.threadList.length + 1)) +
      (hi - ticks p.ctl.threadList.length) ≤ p.uncharged now + (hi - now) := by
    by_cases hcur : p.ctl.currObj = some p.ctl.idle
    · simp only [uncharged, hcur, if_true]
      omega
    rw [← hone hcur]
    simp only [uncharged]
    split
    · split <;> omega
    · omega
  have hsum' : (p.uncharged (ticks (p.ctl.threadList.length + 1)) : ℚ) +
      (schedule (schedBvt khz params) ticks p).uncharged hi ≤
        p.uncharged now + ((hi - now : Nat) : ℚ) := by
    exact_mod_cast (Nat.add_le_add_left hnext _).trans hsum
  rw [books, books]
  linarith

theorem books_wakeThread (hun : Unadjusted (.call (.wakeThread t) caller) s) (hi : Nat) :
    (wakeThread (schedBvt khz params) caller t s.pcpu).books hi ≤
      s.pcpu.books s.now + ((hi - s.now : Nat) : ℚ) := by
  rw [wakeThread]
  split
  · next hw =>
    have hkeep := hun (by simpa [Asleep, ThreadObject.isBlocked] using hw)
    refine books_later ?_ ?_ ?_ (fun u => ?_) _ _
    · split <;> rfl
    · split <;> rfl
    · split <;> rfl
    show ((Bvt.wake s.pcpu.ctl caller t s.pcpu.priv).data u).ledger = _
    rw [ledger_wake]
    split
    · next hut =>
      subst hut
      have havt : (if (s.pcpu.priv.data u).ledger.avt > s.pcpu.priv.svt - bvtCsaMcu then
          (s.pcpu.priv.data u).ledger.avt else s.pcpu.priv.svt) =
            (s.pcpu.priv.data u).ledger.avt := by
        split
        · rfl
        · next hnot => exact (hkeep.resolve_left hnot).symm
      simp only [Ledger.wake, havt]
    · rfl
  · exact books_later rfl rfl rfl (fun _ => rfl) _ _

theorem books_apply (h : Blank s.pcpu) (hok : s.pcpu.ctl.view.Ok)
    (hal : op.Allowed s.pcpu.ctl) (hr : Readings (s.readsFrom op) hi caller.ticks)
    (hun : Unadjusted (.call op caller) s) (hone : OneReading (.call op caller) s) :
    (op.apply (schedBvt khz params) caller s.pcpu).books hi ≤
      s.pcpu.books s.now + ((hi - s.now : Nat) : ℚ) := by
  cases op with
  | initThreadData t => exact books_initThreadData h hok hal _ _
  | runIdle =>
    have hbefore : s.pcpu.uncharged s.now = 0 := by simp only [uncharged, hal.1]
    have hafter : (runIdle.apply (schedBvt khz params) caller s.pcpu).uncharged hi = 0 := by
      simp [uncharged, apply, runThread]
    have htotal : (runIdle.apply (schedBvt khz params) caller s.pcpu).totalCharged =
        s.pcpu.totalCharged := rfl
    rw [books, books, hbefore, hafter]
    linarith
  | wakeThread t => exact books_wakeThread hun hi
  | schedule => exact books_schedule hr hone
  | sleepThread t | requestThreadPriority t | timerTick =>
    simp only [apply, sleepThread, requestThreadPriority, timerTick]
    split <;> exact books_later rfl rfl rfl (fun _ => rfl) _ _

theorem books_step (h : Blank s.pcpu) (hok : s.pcpu.ctl.view.Ok)
    (hstep : ClockStep (schedBvt khz params) a s s') (hun : Unadjusted a s)
    (hone : OneReading a s) :
    s'.pcpu.books s'.now ≤ s.pcpu.books s.now + ((s'.now - s.now : Nat) : ℚ) := by
  cases hstep with
  | call hal hr hnow => exact books_apply h hok hal hr hun hone
  | clear =>
    let p' : Pcpu Bvt := ⟨(clearRescheduleIfCurrentOnly s.pcpu.ctl).2, s.pcpu.priv⟩
    have hview : p'.ctl.view = s.pcpu.ctl.view := view_clearReschedule s.pcpu.ctl
    have hlist : p'.ctl.threadList = s.pcpu.ctl.threadList := congrArg threadList hview
    have hcur : p'.ctl.currObj = s.pcpu.ctl.currObj := congrArg currObj hview
    have hidle : p'.ctl.idle = s.pcpu.ctl.idle := congrArg idle hview
    exact books_later hlist hcur hidle (fun _ => rfl) _ _
  | yield | suspend => exact books_later rfl rfl rfl (fun _ => rfl) _ _

theorem Blank.step (h : Blank s.pcpu) (hs : BvtState s)
    (hstep : ClockStep (schedBvt khz params) a s s') : Blank s'.pcpu := by
  cases hstep with
  | call hal _ _ => exact h.apply hs.ok hs.queue hal
  | clear =>
    exact h.of_ledger (congrArg threadList (view_clearReschedule s.pcpu.ctl)) fun _ _ => rfl
  | yield => exact h
  | suspend => exact h

/-! ## Every window -/

variable {idle : Tid} {obj : Tid → ThreadObject} {tr tr' : List ClockOp}
  {ok : ClockOp → Clocked Bvt → Prop}

theorem blank_reach
    (hrun : GuardedRun (ClockStep (schedBvt khz params)) ok (bvtStart idle obj now) tr s) :
    Blank s.pcpu := by
  induction hrun with
  | nil => exact fun _ _ => rfl
  | cons hrun _ hs ih => exact ih.step (bvt_reach hrun).1 hs

/-- Over any window of a run in which no thread that wakes up is moved on, and in which
`pick_next` reads the same twice: what the threads are charged is no more than the
ticks that pass, and those that the current thread had not been charged for when the
window began. -/
theorem bvt_ticks_charged_once
    (hrun : GuardedRun (ClockStep (schedBvt khz params)) (fun _ _ => True)
      (bvtStart idle obj now) tr s)
    (hwindow : GuardedRun (ClockStep (schedBvt khz params))
      (fun a s => Unadjusted a s ∧ OneReading a s) s tr' s') :
    s'.pcpu.totalCharged - s.pcpu.totalCharged ≤
      ((s'.now - s.now : Nat) : ℚ) + s.pcpu.uncharged s.now := by
  have hbooks : s.now ≤ s'.now ∧
      s'.pcpu.books s'.now ≤ s.pcpu.books s.now + ((s'.now - s.now : Nat) : ℚ) := by
    induction hwindow with
    | nil => exact ⟨le_rfl, by simp⟩
    | @cons a tr' x y hwindow hok hs ih =>
      have hreach := hrun.trans (hwindow.mono fun _ => trivial)
      have hstep := books_step (blank_reach hreach) (bvt_reach hreach).1.ok hs hok.1 hok.2
      have hnow := hs.now_le
      refine ⟨ih.1.trans hnow, ?_⟩
      have hadd : (y.now - s.now : Nat) = (x.now - s.now) + (y.now - x.now) := by omega
      rw [hadd]
      push_cast
      linarith [ih.2]
  have hle := hbooks.2
  rw [books, books] at hle
  linarith

/-! ### Two readings -/

instance (t : Tid) (v : RunView) : Decidable (Asleep v t) :=
  inferInstanceAs (Decidable (_ ∨ _))

instance (a : ClockOp) (s : Clocked Bvt) : Decidable (Unadjusted a s) := by
  cases a with
  | call op _ => cases op <;> dsimp only [Unadjusted] <;> infer_instance
  | clear | yield | suspend => exact isTrue trivial

instance (a : ClockOp) (s : Clocked Bvt) : Decidable (OneReading a s) := by
  cases a with
  | call op _ => cases op <;> dsimp only [OneReading] <;> infer_instance
  | clear | yield | suspend => exact isTrue trivial

def bvtAlone : Clocked Bvt := Turn.plays (schedBvt 10 warpParams) bvtOpening bvtBoot

theorem bvtAlone_run : GuardedRun (ClockStep (schedBvt 10 warpParams)) (fun _ _ => True)
    bvtBoot (bvtOpening.map Turn.label).reverse bvtAlone :=
  Turn.run (by decide +kernel)

/-- Thread 1 has just started, and is picked again after 20 ticks. -/
theorem bvt_ticks_charged_once_repick :
    let s' := Turn.plays (schedBvt 10 warpParams) [⟨.schedule, 30, 0, 30⟩] bvtAlone
    bvtAlone.now = 10 ∧ s'.now = 30 ∧ bvtAlone.pcpu.uncharged 10 = 0 ∧
      s'.pcpu.totalCharged - bvtAlone.pcpu.totalCharged ≤ 20 := by
  intro s'
  have hwindow : GuardedRun (ClockStep (schedBvt 10 warpParams))
      (fun a s => Unadjusted a s ∧ OneReading a s) bvtAlone _ s' :=
    Turn.run (by decide +kernel)
  refine ⟨by decide +kernel, by decide +kernel, by decide +kernel, ?_⟩
  have hle := bvt_ticks_charged_once bvtAlone_run hwindow
  have hfresh : bvtAlone.pcpu.uncharged bvtAlone.now = 0 := by decide +kernel
  have helapsed : s'.now - bvtAlone.now = 20 := by decide +kernel
  rw [hfresh, helapsed] at hle
  simpa using hle

/-- The second `schedule` reads 20 and charges up to 30. In the 20 ticks up to 30 thread
1 is charged for 30. -/
theorem bvt_tick_charged_twice :
    let s' := Turn.plays (schedBvt 10 warpParams)
      [⟨.schedule, 30, 4, 20⟩, ⟨.schedule, 30, 0, 30⟩] bvtAlone
    (∃ tr, GuardedRun (ClockStep (schedBvt 10 warpParams)) Unadjusted bvtAlone tr s') ∧
      bvtAlone.now = 10 ∧ s'.now = 30 ∧ bvtAlone.pcpu.uncharged 10 = 0 ∧
      s'.pcpu.totalCharged - bvtAlone.pcpu.totalCharged = 30 := by
  intro s'
  refine ⟨⟨_, Turn.run (by decide +kernel)⟩, by decide +kernel, by decide +kernel,
    by decide +kernel, by decide +kernel⟩

end

end Sima.Sched
