import Sima.Vgic.Lower

/-!
# An SPI lives in one row

The pending and active state of an SPI, and its list register, are kept in the row of
the vCPU it is routed to. `vgic_set_spi_target` moves all of it: the flags from one
descriptor to the other, and the list register out of the old row's saved context.
What it cannot reach is the hardware of the old target, if that runs on another
physical CPU — the list register there stays, is read back at the next exit, and the
SPI is then in two rows.

So the row is the only one as long as a route is written where the old target's list
registers are the writer's own, or not loaded, or without the SPI. The writer's own
hardware needs one more thought: a re-route takes the list register out of the context
and leaves it in the hardware, which only the flush at the end of the access
overwrites. Nothing reads it in between, because the list registers were synced before
the access began.
-/

namespace Sima.Vgic

open Lib Vm

/-- The row the SPI is routed to has it pending, in its descriptor or in a list
register, saved or live. -/
def Vm.spiHeld (m : Vm) (virq : Nat) : Bool :=
  (m.core.irq (m.spiTarget virq) virq).pending ||
    ((m.core.ctx (m.spiTarget virq)).lrs.find fun lr =>
      lr.state.isPending && lr.vintid == virq).isSome ||
    (m.env.phase (m.spiTarget virq)).live &&
      (((m.core.ich (m.spiTarget virq)).table m.env.lrCount).find fun lr =>
        lr.state.isPending && lr.vintid == virq).isSome

/-- The vCPU that took the SPI since it was last asserted, by an injection or a write to
`ISPENDR`. -/
def noteTaken (cfg : GicConfig) (virq : Nat) : Label → Vm → Option Vid → Option Vid
  | .ack v i, _, taken => if i = virq then some v else taken
  | .inject _ _ i _, _, taken => if i = virq then none else taken
  | .mmio _ req, _, taken => if req.pends cfg virq then none else taken
  | _, _, taken => taken

/-- A route is written where the hardware of the old target cannot keep the SPI, and not
while the SPI is held that somebody has taken already. -/
def RoutesCleanly (cfg : GicConfig) (virq : Nat) : Label → Vm × Option Vid → Prop
  | .mmio v req, (m, taken) => req.routes cfg virq = true →
      (m.spiTarget virq = v ∨ (m.env.phase (m.spiTarget virq)).live = false ∨
        ¬ ((m.core.ich (m.spiTarget virq)).table m.env.lrCount).Any (Lr.Of virq)) ∧
      (m.spiHeld virq = true → taken = none)
  | _, _ => True

/-- Everything of the SPI is in the row it is routed to. -/
def AtHome (virq : Nat) (m : Vm) : Prop :=
  QuietIn true virq (· ≠ m.spiTarget virq) m.env m.core

/-- All vCPUs are created, and there is one. -/
def Env.Complete (e : Env) : Prop := e.createdVcpus = e.vcpuCount ∧ 0 < e.vcpuCount

variable {e : Env}

theorem Env.Complete.fixed {e' : Env} (hf : e.Fixed e') (h : e.Complete) : e'.Complete := by
  rw [Complete, hf.createdVcpus, hf.vcpuCount]
  exact h

variable {cfg : GicConfig} {b : Board} {virq t i : Nat} {m m' : Vm} {a : Label} {v : Vid}
  {ph : Vid → Phase} {taken : Option Vid} {tr : List Label}

/-! ## Where an SPI goes -/

theorem setSpiTarget_other (hi : i ≠ virq) :
    (m.setSpiTarget i t).spiTarget virq = m.spiTarget virq := by
  have htarget : (m.setSpiTarget i t).target 0 virq = m.target 0 virq := by
    rw [setSpiTarget]
    split
    · dsimp only
      rw [if_neg fun h => hi h.2.symm]
      split <;> rfl
    · rfl
  rw [spiTarget, validTargetVcpu, htarget, setSpiTarget_env]
  rfl

theorem setSpiTarget_self (hS : isSpi virq = true) (hn : 0 < m.env.vcpuCount) :
    (m.setSpiTarget virq t).spiTarget virq = m.validTargetVcpu t := by
  have hlt : m.validTargetVcpu t < m.env.vcpuCount := by
    rw [validTargetVcpu]
    split
    · assumption
    · exact hn
  have htarget : (m.setSpiTarget virq t).target 0 virq = m.validTargetVcpu t := by
    rw [setSpiTarget, if_pos hS]
    refine if_pos ⟨?_, rfl⟩
    split <;> exact hn
  rw [spiTarget, htarget, validTargetVcpu, setSpiTarget_env, if_pos hlt]

theorem irqTargetVcpu_eq (hS : isSpi virq = true) (h : m.env.Complete) :
    m.irqTargetVcpu v virq = m.spiTarget virq := by
  rw [irqTargetVcpu, if_pos hS, h.1, spiTarget, validTargetVcpu]
  by_cases hlt : m.target 0 virq < m.env.vcpuCount
  · rw [if_pos hlt, if_neg (by omega)]
  · rw [if_neg hlt, if_pos (by omega)]

/-- The route may be carried along where nothing writes it. -/
theorem Kept.routed {R A : Vm → Vid → Nat → Prop} {pend route : Nat → Prop}
    {Q : Vm → Prop} (K : Kept R A pend route Q) (hS : isSpi virq = true) (t : Vid) :
    Kept R A pend (fun i => route i ∧ i ≠ virq) (fun m => m.spiTarget virq = t ∧ Q m) where
  core m w :=
    Closed.given (p := m.spiTarget virq = t) (K.locals m w _ (by decide) (by decide)).1 id
    fun _ => K.core m w
  congr h hs := ⟨(hs.spiTarget hS).trans h.1, K.congr h.2 hs⟩
  locals := K.locals
  pends := K.pends
  actives := K.actives
  targets hv h hr := by
    refine ⟨?_, K.targets hv h.2 fun byte hb => (hr byte hb).1⟩
    exact writeIrqTarget_keeps (Q := fun m => m.spiTarget virq = t)
      (fun m' _ h' byte hb _ => (setSpiTarget_other (hr byte hb).2).trans h') h.1
  irouter {v m i upper value} hv h hr := by
    refine ⟨?_, K.irouter hv h.2 hr.1⟩
    show (m.writeIrouterWord i upper value).spiTarget virq = t
    rw [writeIrouterWord]
    exact (setSpiTarget_other hr.2).trans h.1
  setPhase hp h := ⟨h.1, K.setPhase hp h.2⟩
  load h := ⟨h.1, K.load h.2⟩
  init h := ⟨h.1, K.init h.2⟩
  guest hg h := ⟨h.1, K.guest hg h.2⟩
  lpis := K.lpis

theorem spiTarget_step (hS : isSpi virq = true) (hs : Step cfg a m m')
    (hr : ∀ v req, a = .mmio v req → req.routes cfg virq = false) (h : Indexed m.core) :
    m'.spiTarget virq = m.spiTarget virq := by
  refine ((Indexed.kept.routed hS (m.spiTarget virq)).step hs (fun _ _ _ _ _ => trivial)
    (fun _ _ _ _ _ _ => trivial) (fun v req i he hri => ⟨trivial, ?_⟩) ⟨rfl, h⟩).1
  rintro rfl
  rw [hr v req he] at hri
  cases hri

/-! ## A re-route moves everything the contexts hold -/

section

variable {old new : Vid} {s : Core}

theorem moveFlags_ctx : (moveActive old new virq (movePending old new virq s)).ctx = s.ctx := by
  rw [moveActive, movePending]
  split <;> split <;> simp

theorem moveFlags_pending (hne : old ≠ new) :
    ((moveActive old new virq (movePending old new virq s)).irq old virq).pending = false := by
  have hactive : ∀ s, ((moveActive old new virq s).irq old virq).pending =
      (s.irq old virq).pending := by
    intro s
    rw [moveActive]
    split
    · rw [Core.setActive, Core.modIrq_irq, if_neg fun h => hne h.1, Core.setActive,
        Core.modIrq_self]
    · rfl
  rw [hactive, movePending]
  split
  · rw [Core.setPending_pending, if_neg fun h => hne h.1, Core.setPending_pending,
      if_pos ⟨rfl, rfl⟩]
  · next hp => simpa using hp

theorem moveFlags_active (hne : old ≠ new) :
    ((moveActive old new virq (movePending old new virq s)).irq old virq).active = false := by
  rw [moveActive]
  split
  · rw [Core.setActive, Core.modIrq_irq, if_neg fun h => hne h.1, Core.setActive, Core.modIrq_self]
  · next ha => simpa using ha

/-- The old row gives up its flags, and with them its list register. -/
theorem Quiet.moveIrq {H : Vid → Prop} (hS : isSpi virq = true)
    (hd : Distinct e.lrCount (· ≠ ppiVirtualTimer) (fun _ => True) (fun _ => False) s)
    (hold : old < e.createdVcpus) (hne : old ≠ new) (h : Quiet e.lrCount true virq (· ≠ old) H s) :
    Quiet e.lrCount true virq (· ≠ new) H (moveIrq e old new virq s) := by
  have K : ∀ (T : Vid → Prop) w, Closed e.lrCount w (fun i => i = virq → ¬ T w)
      (fun i => true = true → i = virq → ¬ T w) (fun _ => False) False
      (Quiet e.lrCount true virq T H) := fun _ _ =>
    Quiet.closed (spi_ne_timer hS) (fun _ => False.elim) False.elim fun _ => id
  -- neither of the two rows is watched while the flags move
  have h1 : Quiet e.lrCount true virq (fun w => w ≠ old ∧ w ≠ new) H s :=
    h.mono (fun _ => And.left) fun _ => id
  have h2 : Quiet e.lrCount true virq (fun w => w ≠ old ∧ w ≠ new) H
      (moveActive old new virq (movePending old new virq s)) :=
    Closed.moveFlags (K _) (fun _ _ hn => hn.2 rfl) (fun _ _ _ hn => hn.2 rfl) h1
  have h3 : Quiet e.lrCount true virq (fun w => (w ≠ old ∧ w ≠ new) ∨ w = old) H
      ((moveActive old new virq (movePending old new virq s)).updateIrqRowLr e old virq) := by
    rw [Core.updateIrqRowLr, if_pos hold]
    refine .extend ((K _ old).updateIrqLr h2) ?_ (fun _ => ?_) ?_
    · rw [updateIrqLr_irq]
      exact moveFlags_pending hne
    · rw [updateIrqLr_irq]
      exact moveFlags_active hne
    · refine h2.updateIrqLr ?_ (moveFlags_pending hne) fun _ => moveFlags_active hne
      rw [moveFlags_ctx]
      exact hd.ctx old trivial virq (spi_ne_timer hS)
  refine (K _ new).updateIrqRowLr (h3.mono (fun w hw => ?_) fun _ => id)
  by_cases hwo : w = old
  · exact .inr hwo
  · exact .inl ⟨hwo, hw⟩

end

theorem Quiet.away_closed {n : Nat} {t w : Vid} {H : Vid → Prop} {L : Core → Prop} {W : Prop}
    (hS : isSpi virq = true) (hL : ∀ s, L s → w ≠ t → H w) (hW : W → H w → w ≠ t)
    (hLW : ∀ s, L s → W) :
    Closed n w (fun i => i = virq → ¬ w ≠ t) (fun i => true = true → i = virq → ¬ w ≠ t) L W
      (Quiet n true virq (· ≠ t) H) :=
  Quiet.closed (T := fun w => w ≠ t) (spi_ne_timer hS) hL hW hLW

/-! ## Accesses that leave the route alone -/

theorem home_kept (hS : isSpi virq = true) : Kept (fun m w i => i = virq → ¬ w ≠ m.spiTarget virq)
    (fun m w i => true = true → i = virq → ¬ w ≠ m.spiTarget virq)
    (fun _ => True) (· ≠ virq) (fun m => m.env.Complete ∧ AtHome virq m) := by
  refine QuietIn.kept (T := fun t w => w ≠ t) hS .fixed
    (fun _ _ h => h rfl) (fun _ _ h => h rfl) ?_
  intro m m' i t he _ hi h
  rw [setSpiTarget_other hi, setSpiTarget]
  split
  · dsimp only
    split
    · exact h
    · rw [← he] at h ⊢
      exact Closed.moveIrq (quietIn_closed (spi_ne_timer hS) m'.env) (fun _ hv => absurd hv hi)
        (fun _ _ hv => absurd hv hi) h
  · exact h

/-! ## Accesses that write it -/

/-- During an access of `v`: the hardware of the others does not hold the SPI at all,
and that of `v` only if the SPI is its own. -/
def Reached (v : Vid) (virq : Nat) (m : Vm) : Prop :=
  Quiet m.env.lrCount true virq (· ≠ m.spiTarget virq)
    (fun w => (m.env.phase w).live = true ∧ (w ≠ v ∨ v ≠ m.spiTarget virq)) m.core

/-- The same between a re-route and the flush, where the hardware of `v` is behind. -/
structure Rerouted (v : Vid) (virq : Nat) (e : Env) (m : Vm) : Prop where
  env : m.env = e
  distinct : OthersDistinct e m.core
  quiet : Quiet e.lrCount true virq (· ≠ m.spiTarget virq)
    (fun w => (e.phase w).live = true ∧ w ≠ v) m.core

theorem othersDistinct_closed (e : Env) (w : Vid) :
    Closed e.lrCount w (fun _ => True) (fun _ => True)
      (fun _ => (e.phase w).live = true) ((e.phase w).live = true) (OthersDistinct e) :=
  Distinct.closed (fun _ h hl _ => h.ich _ hl) (fun _ _ => ⟨trivial, fun h => h rfl⟩) fun _ => id

theorem Rerouted.setSpiTarget (hS : isSpi virq = true) (he : e.Complete)
    (h : Rerouted v virq e m) : Rerouted v virq e (m.setSpiTarget i t) := by
  obtain ⟨rfl, hd, hq⟩ := h
  refine ⟨setSpiTarget_env, setSpiTarget_keeps (othersDistinct_closed m.env) hd, ?_⟩
  by_cases hi : i = virq
  · subst hi
    rw [setSpiTarget_self hS he.2, setSpiTarget, if_pos hS]
    dsimp only
    split
    · next heq => exact heq ▸ hq
    rename_i hne
    refine .moveIrq hS (hd.mono (fun _ => id) fun _ => False.elim) ?_ hne hq
    rw [he.1]
    exact spiTarget_lt he.2
  · rw [setSpiTarget_other hi, setSpiTarget]
    split
    · dsimp only
      split
      · exact hq
      · exact Closed.moveIrq (fun _ => Quiet.away_closed hS
          (fun _ => False.elim) False.elim fun _ => id)
          (fun _ hv => absurd hv hi) (fun _ _ hv => absurd hv hi) hq
    · exact hq

/-- The flush at the end of an access writes out the list registers of the vCPU that
made it. -/
theorem Core.flushVm_fresh {s : Core} (hids : ∀ w i, (s.irq w i).virq = i)
    (hv : v < e.createdVcpus) : Fresh e.lrCount v (s.flushVm e v) := by
  -- by induction on how many vCPUs have been flushed
  have hall : ∀ k, (∀ w i, (((List.range k).foldl (fun s w =>
        s.flushVcpu e (some v) (w == v) w) s).irq w i).virq = i) ∧
      (v < k → Fresh e.lrCount v ((List.range k).foldl (fun s w =>
        s.flushVcpu e (some v) (w == v) w) s)) := by
    intro k
    induction k with
    | zero => exact ⟨hids, fun h => absurd h (Nat.not_lt_zero _)⟩
    | succ k ih =>
      rw [List.range_succ, List.foldl_append]
      generalize (List.range k).foldl _ s = s' at ih
      have hsame : ∀ w ≠ k, SameRow w s' (s'.flushVcpu e (some v) (k == v) k) :=
        fun w hw => (SameRow.closed hw).flushFrom (fun _ => trivial) ⟨ih.1, rfl, rfl, rfl⟩
      refine ⟨(hsame (k + 1) (Nat.succ_ne_self k)).ids, fun hlt => ?_⟩
      by_cases hvk : v = k
      · subst hvk
        show Fresh e.lrCount v (s'.flushVcpu e (some v) (v == v) v)
        rw [beq_self_eq_true]
        exact flushCurrent_fresh
      have hf := ih.2 (lt_of_le_of_ne (Nat.le_of_lt_succ hlt) hvk)
      intro idx hidx
      show ((s'.flushVcpu e (some v) (k == v) k).ich v).lr idx = _
      rw [(hsame v hvk).ich, hf idx hidx]
      show _ = if idx < ((s'.flushVcpu e (some v) (k == v) k).ctx v).lrs.used then
        ((s'.flushVcpu e (some v) (k == v) k).ctx v).lrs.slot idx else _
      rw [(hsame v hvk).ctx]
  exact (hall _).2 hv

theorem Rerouted.flushAll (hS : isSpi virq = true) (he : v < e.createdVcpus)
    (hlive : (e.phase v).live = true) (h : Rerouted v virq e m) :
    OthersDistinct e (m.flushAll v).core ∧ Reached v virq (m.flushAll v) := by
  obtain ⟨rfl, hd, hq⟩ := h
  have hd' : OthersDistinct m.env (m.flushAll v).core :=
    flushAll_keeps rfl (othersDistinct_closed m.env) hlive hd
  refine ⟨hd', ?_⟩
  have h1 : Quiet m.env.lrCount true virq (· ≠ m.spiTarget virq)
      (fun w => (m.env.phase w).live = true ∧ w ≠ v) (m.flushAll v).core :=
    flushAll_keeps rfl
      (fun _ => Quiet.away_closed hS (fun _ => False.elim) (fun hw hH => absurd hw hH.2)
        fun _ => False.elim) rfl hq
  have hfresh : Core.Fresh m.env.lrCount v (m.flushAll v).core := Core.flushVm_fresh hq.ids he
  by_cases hv : v = m.spiTarget virq
  · refine h1.mono (fun _ => id) fun w hw => ⟨hw.1, hw.2.resolve_right fun h => h hv⟩
  refine (h1.fresh hfresh hv).mono (fun _ => id) fun w hw => ?_
  by_cases hwv : w = v
  · exact .inr hwv
  · exact .inl ⟨hw.1, hwv⟩

/-- What an access of `v` keeps from before its sync to after its flush. -/
def Accessing (v : Vid) (virq : Nat) (ph : Vid → Phase) (m : Vm) : Prop :=
  (m.env.phase = ph ∧ m.env.Complete ∧ v < m.env.vcpuCount) ∧
    OthersDistinct m.env m.core ∧ Reached v virq m

theorem reroute_start (h : Accessing v virq ph m) : Rerouted v virq m.env m :=
  ⟨rfl, h.2.1, Quiet.mono h.2.2 (fun _ => id) fun _ hw => ⟨hw.1, .inl hw.2⟩⟩

variable (hS : isSpi virq = true)

include hS

theorem reroute_end (hlive : (ph v).live = true) (h : Accessing v virq ph m)
    (hr : Rerouted v virq m.env m') : Accessing v virq ph (m'.flushAll v) := by
  have henv : (m'.flushAll v).env = m.env := hr.env
  have hcreated : v < m.env.createdVcpus := by
    rw [h.1.2.1.1]
    exact h.1.2.2
  have hend := hr.flushAll hS hcreated (by rw [h.1.1]; exact hlive)
  rw [Accessing, henv]
  exact ⟨h.1, hend⟩

theorem reached_vmClosed (ph : Vid → Phase) (hlive : (ph v).live = true) :
    VmClosed (fun m w i => True ∧ (i = virq → ¬ w ≠ m.spiTarget virq))
      (fun m w i => True ∧ (true = true → i = virq → ¬ w ≠ m.spiTarget virq)) (· = v)
      (fun _ => True) (fun _ => True)
      (Accessing v virq ph) where
  core m w := by
    refine .given (p := m.env.phase = ph ∧ m.env.Complete ∧ v < m.env.vcpuCount)
      ⟨trivial, fun hi => absurd hi.symm (spi_ne_timer hS)⟩ id fun hp => ?_
    have hl : w = v → (m.env.phase w).live = true := by
      rintro rfl
      rw [hp.1]
      exact hlive
    have K := Quiet.away_closed (n := m.env.lrCount)
      (H := fun w => (m.env.phase w).live = true ∧ (w ≠ v ∨ v ≠ m.spiTarget virq))
      (W := w = v) hS (fun _ hw hne => ⟨hl hw, .inr (hw ▸ hne)⟩)
      (fun hw hH => hw ▸ hH.2.resolve_left fun h => h hw) fun _ => id
    exact ((othersDistinct_closed m.env w).and K).restrict (fun h => ⟨hl h, h⟩)
      (fun h => ⟨hl h, h⟩) id
  congr {m m'} h hs := by
    refine ⟨⟨hs.phase.trans h.1.1, h.1.2.1.fixed hs.fixed, ?_⟩, ?_, ?_⟩
    · rw [hs.fixed.vcpuCount]
      exact h.1.2.2
    · rw [OthersDistinct, hs.fixed.lrCount, hs.phase, hs.core]
      exact h.2.1
    · rw [Reached, hs.spiTarget hS, hs.fixed.lrCount, hs.phase, hs.core]
      exact h.2.2
  locals m w i hi _ := by
    have hne := ne_of_not_spi hS hi
    exact ⟨⟨trivial, fun he => absurd he hne⟩, trivial, fun _ he => absurd he hne⟩
  lpis m w i hi := ⟨trivial, fun he => absurd he (ne_of_not_spi hS (lpi_not_spi hi))⟩
  pends _ _ := ⟨trivial, fun hi hne => hne (by rw [hi])⟩
  actives _ := ⟨trivial, fun _ hi hne => hne (by rw [hi])⟩
  targets {w m irqBase size value} hw h _ := by
    subst hw
    have h1 : Rerouted w virq m.env (m.writeIrqTarget irqBase size value) :=
      writeIrqTarget_keeps (fun _ _ h' _ _ _ => h'.setSpiTarget hS h.1.2.1) (reroute_start h)
    exact reroute_end hS hlive h h1
  irouter {w m i upper value} hw h _ := by
    subst hw
    have h1 : Rerouted w virq m.env (m.writeIrouterWord i upper value) := by
      obtain ⟨-, hd, hq⟩ := reroute_start h
      exact .setSpiTarget hS h.1.2.1 ⟨rfl, hd, hq⟩
    exact reroute_end hS hlive h h1

/-! ## Steps -/

theorem AtHome.route {req : Mmio} (he : m.env.Complete) (hd : OthersDistinct m.env m.core)
    (hok : m.spiTarget virq = v ∨ (m.env.phase (m.spiTarget virq)).live = false ∨
      ¬ ((m.core.ich (m.spiTarget virq)).table m.env.lrCount).Any (Lr.Of virq))
    (hs : Step cfg (.mmio v req) m m') (h : AtHome virq m) : AtHome virq m' := by
  cases hs with
  | mmio mem lines hv hph =>
    have hlive : (m.env.phase v).live = true := by
      rw [hph]
      rfl
    -- the hardware of the old target is the writer's or has nothing of the SPI
    have h0 : Reached v virq m := by
      refine ⟨h.ids, h.pending, h.active, h.ctx, fun w hw => ?_⟩
      by_cases hwt : w = m.spiTarget virq
      · subst hwt
        rcases hok with rfl | hoff | hno
        · exact (hw.2.elim (fun h => h rfl) fun h => h rfl).elim
        · rw [hoff] at hw
          cases hw.1
        · exact fun ha => hno (ha.mono fun _ => Lr.Holds.of)
      · exact h.ich w ⟨hwt, hw.1⟩
    have h1 : Accessing v virq m.env.phase (m.mmioHandler cfg mem lines v req).vm :=
      (reached_vmClosed hS m.env.phase hlive).mmioHandler rfl (fun _ _ _ => trivial)
        (fun _ _ => trivial) ⟨⟨rfl, he, hv⟩, hd, h0⟩
    refine Quiet.mono h1.2.2 (fun _ => id) fun w hw => ⟨hw.2, ?_⟩
    by_cases hwv : w = v
    · exact .inr (hwv ▸ hw.1)
    · exact .inl hwv

theorem AtHome.step (he : m.env.Complete) (hd : OthersDistinct m.env m.core)
    (hok : RoutesCleanly cfg virq a (m, taken)) (hs : Step cfg a m m') (h : AtHome virq m) :
    AtHome virq m' := by
  by_cases hr : ∃ v req, a = .mmio v req ∧ req.routes cfg virq = true
  · obtain ⟨v, req, rfl, hroute⟩ := hr
    exact h.route hS he hd (hok hroute).1 hs
  refine ((home_kept hS).step hs (fun c v i level _ hi hne => ?_)
    (fun _ _ _ _ _ _ => trivial) (fun v req i ha hri hi => ?_) ⟨he, h⟩).2
  · rw [hi, irqTargetVcpu_eq hS he] at hne
    exact hne rfl
  · exact hr ⟨v, req, ha, hi ▸ hri⟩

omit hS

/-! ## Who takes the SPI -/

/-- The SPI was taken where it is routed to, or is no longer there to be taken. -/
def TakenHere (virq : Nat) (m : Vm) (taken : Option Vid) : Prop :=
  ∀ w, taken = some w → w = m.spiTarget virq ∨ QuietIn false virq (fun _ => True) m.env m.core

theorem AtHome.quiet (h : AtHome virq m) (hheld : m.spiHeld virq = false) :
    QuietIn false virq (fun _ => True) m.env m.core := by
  rw [spiHeld, Bool.or_eq_false_iff, Bool.or_eq_false_iff] at hheld
  obtain ⟨⟨hp, hctx⟩, hich⟩ := hheld
  have hfind : ∀ {t : Slots Lr}, (t.find fun lr =>
      lr.state.isPending && lr.vintid == virq).isSome = false →
      ¬ t.Any (Lr.Holds false virq) := by
    intro t ht ha
    refine Slots.find_none (Option.isSome_eq_false_iff.mp ht |> Option.isNone_iff_eq_none.mp)
      (ha.mono ?_)
    intro lr hlr
    rw [Bool.and_eq_true, beq_iff_eq]
    exact ⟨hlr.2, hlr.1⟩
  have hstrict : ∀ lr : Lr, lr.Holds false virq → lr.Holds true virq :=
    fun _ hlr => ⟨hlr.1, hlr.of.1⟩
  refine ⟨h.ids, fun w _ => ?_, fun hk => by (cases hk), fun w _ => ?_, fun w hw => ?_⟩
  · by_cases hwt : w = m.spiTarget virq
    · exact hwt ▸ hp
    · exact h.pending w hwt
  · by_cases hwt : w = m.spiTarget virq
    · exact hwt ▸ hfind hctx
    · exact fun ha => h.ctx w hwt (ha.mono hstrict)
  · by_cases hwt : w = m.spiTarget virq
    · subst hwt
      rw [hw.2] at hich
      exact hfind hich
    · exact fun ha => h.ich w ⟨hwt, hw.2⟩ (ha.mono hstrict)

theorem noteTaken_cases (cfg : GicConfig) (virq : Nat) (a : Label) (m : Vm) (taken : Option Vid) :
    (noteTaken cfg virq a m taken = taken ∧ (∀ c v level, a ≠ .inject c v virq level) ∧
        ∀ v req, a = .mmio v req → req.pends cfg virq = false) ∨
      noteTaken cfg virq a m taken = none ∨
      ∃ v, a = .ack v virq ∧ noteTaken cfg virq a m taken = some v := by
  cases a with
  | ack v i =>
    by_cases hi : i = virq
    · subst hi
      exact .inr (.inr ⟨v, rfl, if_pos rfl⟩)
    · exact .inl ⟨if_neg hi, fun _ _ _ => by simp, fun _ _ => by simp⟩
  | inject c v i level =>
    by_cases hi : i = virq
    · exact .inr (.inl (if_pos hi))
    · refine .inl ⟨if_neg hi, fun _ _ _ he => hi ?_, fun _ _ => by simp⟩
      injection he
  | mmio v req =>
    by_cases hp : req.pends cfg virq = true
    · exact .inr (.inl (if_pos hp))
    refine .inl ⟨if_neg hp, fun _ _ _ => by simp, fun w req' he => ?_⟩
    injection he with _ he
    rw [← he]
    exact Bool.eq_false_iff.mpr hp
  | _ => exact .inl ⟨rfl, fun _ _ _ => by simp, fun _ _ => by simp⟩

theorem AtHome.taker (h : AtHome virq m) (hs : Step cfg (.ack v virq) m m') :
    v = m.spiTarget virq := by
  cases hs with
  | @ack _ _ _ idx hv hph hidx hst hvint =>
    by_contra hne
    refine h.ich v ⟨hne, by rw [hph]; rfl⟩ ⟨idx, hidx, hvint, ?_⟩
    show ((m.core.ich v).lr idx).state ≠ .invalid
    rw [hst]
    decide

theorem TakenHere.step (hS : isSpi virq = true) (he : m.env.Complete) (hi : Indexed m.core)
    (hhome : AtHome virq m) (hok : RoutesCleanly cfg virq a (m, taken)) (hs : Step cfg a m m')
    (h : TakenHere virq m taken) : TakenHere virq m' (noteTaken cfg virq a m taken) := by
  obtain ⟨hn, hinj, hp⟩ | hn | ⟨v, rfl, hn⟩ := noteTaken_cases cfg virq a m taken
  · rw [hn]
    intro w hw
    have hquiet : QuietIn false virq (fun _ => True) m.env m.core →
        QuietIn false virq (fun _ => True) m'.env m'.core :=
      QuietIn.step hS he.2 hs hinj hp fun _ _ _ _ => .inr fun _ _ => trivial
    by_cases hroute : ∃ v req, a = .mmio v req ∧ req.routes cfg virq = true
    · obtain ⟨v, req, rfl, hroute⟩ := hroute
      refine .inr (hquiet (hhome.quiet (Bool.eq_false_iff.mpr fun hheld => ?_)))
      rw [(hok hroute).2 hheld] at hw
      cases hw
    refine (h w hw).imp (fun hwt => ?_) hquiet
    rw [spiTarget_step hS hs (fun v req ha => ?_) hi]
    · exact hwt
    · exact Bool.eq_false_iff.mpr fun hroute' => hroute ⟨v, req, ha, hroute'⟩
  · rw [hn]
    exact fun _ hw => by cases hw
  · rw [hn]
    intro w hw
    injection hw with hw
    subst hw
    rw [spiTarget_step hS hs (by simp) hi]
    exact .inl (hhome.taker hs)

/-! ## Runs -/

theorem complete_run {ok : Label → Vm → Prop} (h : GuardedRun (Step cfg) ok b.start tr m) :
    m.env.Complete :=
  .fixed (fixed_run h) ⟨rfl, b.vcpuCount_pos⟩

theorem home_run (hS : isSpi virq = true) {x : Vm × Option Vid}
    (h : GuardedRun (Noted (Step cfg) (noteTaken cfg virq)) (RoutesCleanly cfg virq)
      (b.start, none) tr x) : AtHome virq x.1 ∧ TakenHere virq x.1 x.2 := by
  induction h with
  | nil =>
    refine ⟨⟨(Indexed.start b).virq, fun w _ => ?_, fun _ w _ => ?_, fun w _ => ?_,
      fun w hw => ?_⟩, fun _ hw => by cases hw⟩
    · show ((if isLpi virq then _ else _ : VgicIrq)).pending = false
      split <;> rfl
    · show ((if isLpi virq then _ else _ : VgicIrq)).active = false
      split <;> rfl
    · exact fun ⟨_, hj, _⟩ => absurd hj (Nat.not_lt_zero _)
    · cases hw.2
  | @cons a tr x y hrun hok hs ih =>
    have he := complete_run hrun.forget
    refine ⟨ih.1.step hS he (othersDistinct_run hrun.forget) hok hs.1, ?_⟩
    rw [hs.2]
    exact ih.2.step hS he (Indexed.run hrun.forget) ih.1 hok hs.1

/-- As long as routes are written cleanly, everything there is of an SPI is in the row
it is routed to: no other descriptor is pending or active, and no other list register
holds it, saved or live. Only the vCPU it is routed to can take it, and none takes it
that another has taken since it was asserted. -/
theorem spi_one_row (hS : isSpi virq = true) {tr : List Label} {taken : Option Vid}
    (hrun : GuardedRun (Noted (Step cfg) (noteTaken cfg virq)) (RoutesCleanly cfg virq)
      (b.start, none) tr (m, taken)) :
    (∀ w, w ≠ m.spiTarget virq →
      (m.core.irq w virq).pending = false ∧ (m.core.irq w virq).active = false ∧
      ¬ (m.core.ctx w).lrs.Any (Lr.Of virq) ∧
      ((m.env.phase w).live = true → ¬ ((m.core.ich w).table m.env.lrCount).Any (Lr.Of virq))) ∧
    ∀ v m', Step cfg (.ack v virq) m m' →
      v = m.spiTarget virq ∧ (taken = none ∨ taken = some v) := by
  obtain ⟨hhome, htaken⟩ := home_run hS hrun
  have hof : ∀ lr : Lr, lr.Of virq → lr.Holds true virq := fun _ h => ⟨h.2, h.1⟩
  refine ⟨fun w hw => ⟨hhome.pending w hw, hhome.active rfl w hw,
    fun ha => hhome.ctx w hw (ha.mono hof),
    fun hlive ha => hhome.ich w ⟨hw, hlive⟩ (ha.mono hof)⟩, fun v m' hs => ?_⟩
  have hv := hhome.taker hs
  refine ⟨hv, ?_⟩
  cases htk : taken with
  | none => exact .inl rfl
  | some w =>
    rcases htaken w htk with hw | hq
    · exact .inr (by rw [hw, hv])
    -- nothing is pending, so there is nothing to take
    cases hs with
    | @ack _ _ _ idx _ hph hidx hst hvint =>
      refine absurd ⟨idx, hidx, hvint, ?_⟩ (hq.ich v ⟨trivial, by rw [hph]; rfl⟩)
      show ((m.core.ich v).lr idx).state.isPending = true
      rw [hst]
      rfl

/-! ## A route is written -/

/-- vCPU `v` routes `SPI 40` to vCPU 1, in `GICD_IROUTER40`. -/
def routedVm (v : Vid) (m : Vm) : Vm :=
  (m.mmioHandler twoFrames (fun _ => none) (fun _ _ _ => false) v (gicdWord 0x6140 1)).vm

/-- vCPU 0 hands over the SPI it has in a list register of its own. -/
theorem spi_one_row_handed_over : (routedVm 0 pendingVm).spiTarget 40 = 1 ∧
      ¬ ((routedVm 0 pendingVm).core.ctx 0).lrs.Any (Lr.Of 40) := by
  have hrouted : GuardedRun (Noted (Step twoFrames) (noteTaken twoFrames 40))
      (RoutesCleanly twoFrames 40) (twoVcpus.start, none) _ (routedVm 0 pendingVm, _) :=
    play_noted [.load 0, .enter 0, .mmio 0 (gicdWord 0x104 0x100), .inject none 0 40 true,
      .service 0, .mmio 0 (gicdWord 0x6140 1)] ⟨⟨by decide, trivial⟩, ⟨by decide, trivial⟩,
        ⟨by decide, fun _ => ⟨.inl (by decide +kernel), fun _ => rfl⟩⟩, ⟨by decide, trivial⟩,
        ⟨by decide, trivial⟩,
        ⟨by decide +kernel, fun _ => ⟨.inl (by decide +kernel), fun _ => rfl⟩⟩, trivial⟩
  have hone := (spi_one_row (by decide) hrouted).1 0 (by decide +kernel)
  exact ⟨by decide +kernel, hone.2.2.1⟩

/-- vCPU 1 is switched in beside vCPU 0 and takes the SPI away from it; both then
exit. -/
def tornVm : Vm :=
  ((routedVm 1 (((pendingVm.modCore fun e s => s.loadVcpu e 1).setPhase 1
    .loading).setPhase 1 .running)).modCore fun e s =>
      s.syncFlush e (fun _ _ => false) 0).modCore fun e s => s.syncFlush e (fun _ _ => false) 1

def tornTrace : List Label :=
  [.service 1, .service 0, .mmio 1 (gicdWord 0x6140 1), .enter 1, .load 1] ++ pendingTrace

/-- The SPI is pending in the list registers of both, and each of them takes it. -/
theorem spi_two_rows :
    GuardedRun (Step twoFrames) (fun _ _ => True) twoVcpus.start tornTrace tornVm ∧
      tornVm.spiTarget 40 = 1 ∧
      (tornVm.core.ctx 0).lrs.Any (Lr.Of 40) ∧ (tornVm.core.ctx 1).lrs.Any (Lr.Of 40) ∧
      ∃ m₁ m₂, Step twoFrames (.ack 0 40) tornVm m₁ ∧ Step twoFrames (.ack 1 40) m₁ m₂ := by
  have hack : ∀ v m, (Label.ack v 40).can m = true →
      Step twoFrames (.ack v 40) m ((Label.ack v 40).play m) := fun _ _ => Label.play_step
  refine ⟨play_run tornTrace.reverse (by decide +kernel), by decide +kernel,
    ⟨0, by decide +kernel, by decide +kernel, by decide +kernel⟩,
    ⟨0, by decide +kernel, by decide +kernel, by decide +kernel⟩, _, _,
    hack 0 _ (by decide +kernel), hack 1 _ (by decide +kernel)⟩

end Sima.Vgic
