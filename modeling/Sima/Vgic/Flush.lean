import Sima.Vgic.Credit

/-!
# What a flush leaves behind

A flush hands list registers to the pending interrupts in the order of their INTIDs
and stops at the first one that finds none. So it does not get to every interrupt,
and having a list register is no help: one that is active in its list register and
pending again, behind the place where the flush stopped, keeps a list register that
does not say so.

What holds of every interrupt is that it is presented, or that the flush has run out
— and running out is announced. All list registers are in use, the underflow
interrupt is enabled, and the flag that asks for delivery is still set: when the
guest has drained the list registers, the maintenance interrupt flushes again.
-/

namespace Sima.Vgic

open Lib Indexed

namespace Core

variable {e : Env} {line : Samples} {c : Caller} {v : Vid} {s : Core} {i : Nat}
  {isCurrent loaded : Bool}

/-- The guest has the interrupt before it, in the context and in the hardware. -/
structure Presented (n : Nat) (v : Vid) (i : Nat) (s : Core) : Prop where
  ctx : (s.ctx v).lrs.Any (Lr.PendingOf i)
  ich : ((s.ich v).table n).Any (Lr.PendingOf i)

/-- The interrupt is left for the flush that follows the underflow interrupt. -/
structure Deferred (n : Nat) (v : Vid) (i : Nat) (s : Core) : Prop where
  pending : (s.irq v i).pending = true
  used : (s.ctx v).lrs.used = n
  ctx : hasBits (s.ctx v).hcr ichHcrUie = true
  ich : hasBits (s.ich v).hcr ichHcrUie = true

/-! ## Running out -/

/-- The scan serves an interrupt unless it runs out of list registers. -/
theorem flushScan_served (hs : Indexed s) (hdesc : e.hasDesc v i = true) :
    (e.lrCount ≤ ((s.flushScan e v).ctx v).lrs.used ∧
        hasBits ((s.flushScan e v).ctx v).hcr ichHcrUie = true) ∨
      Served e v i (s.flushScan e v) := by
  have hkind : Scanned false i ∨ e.itsEnabled = true ∧ Scanned true i := by
    simp only [Env.hasDesc, Bool.and_eq_true, Bool.or_eq_true, decide_eq_true_eq] at hdesc
    exact hdesc.2
  rcases flushScan_serves hs with ⟨⟨j, -, hst⟩, hu⟩ | ⟨hirq, hlpi⟩
  · exact .inl ⟨hst.full, hu⟩
  rcases hkind with hi | ⟨hits, hi⟩
  · exact .inr (hirq i hi)
  · rcases hlpi hits with ⟨⟨j, -, hst⟩, hu⟩ | hall
    · exact .inl ⟨hst.full, hu⟩
    · exact .inr (hall i hi)

theorem controlHcr_uie {hcr : BitVec 64} (h : hasBits hcr ichHcrUie = true) :
    hasBits (controlHcr hcr) ichHcrUie = true := by
  have hkeep : controlHcr hcr &&& ichHcrUie = hcr &&& ichHcrUie := by
    have hmask : ~~~(ichHcrEoicountMask ||| ichHcrTc) &&& ichHcrUie = ichHcrUie := by decide
    have hen : ichHcrEn &&& ichHcrUie = 0#64 := by decide
    rw [controlHcr, BitVec.and_comm, BitVec.and_or_distrib_left, BitVec.and_comm ichHcrUie,
      BitVec.and_assoc, hmask, BitVec.and_comm ichHcrUie, hen, BitVec.or_zero]
  rw [hasBits, hkeep]
  exact h

/-! ## No gaps -/

/-- Filling, refreshing and removing list registers leaves no gap among them. -/
theorem packed_closed (n : Nat) (v : Vid) :
    Closed n v (fun _ => True) (fun _ => True) (fun _ => False) True
      (fun s => Indexed s ∧ Packed v s) where
  virq h := h.1.virq v
  lower i h := ⟨h.1.setPending false, h.2.congr (by rw [setPending_ctx])⟩
  raise _ h := ⟨h.1.setPending true, h.2.congr (by rw [setPending_ctx])⟩
  drop i h := ⟨(closed n v).drop i h.1, h.2⟩
  activate ha h := ⟨(closed n v).activate (.inl trivial) h.1, h.2⟩
  config i hf h := ⟨(closed n v).config i hf h.1, h.2⟩
  remove idx h := by
    refine ⟨(closed n v).remove idx h.1, fun k hk hbad => ?_⟩
    rw [removeLr, modLrs_self] at hk hbad
    obtain ⟨l, hl, hinv⟩ := Slots.any_remove (P := fun lr : Lr => lr.state = .invalid)
      ⟨k, hk, hbad⟩
    exact h.2 l hl hinv
  refresh hi ho hp ha hpa h := by
    refine ⟨(closed n v).refresh hi ho hp ha hpa h.1, fun k hk => ?_⟩
    rw [modLrs_self] at hk ⊢
    rw [Slots.set_slot]
    split
    · exact makeLrState_valid.mpr hpa
    · exact h.2 k hk
  push hp hu hn h := ⟨(closed n v).push hp hu hn h.1, h.2.push (makeLrState_valid.mpr (.inl hp))⟩
  ctx hf h := ⟨(closed n v).ctx hf h.1, h.2.congr (by rw [modCtx_self, hf])⟩
  read hl := hl.elim
  ich hf h := ⟨(closed n v).ich hf h.1, h.2⟩
  write _ hf h := ⟨(closed n v).write trivial hf h.1, h.2⟩
  writeOne _ ht h := ⟨(closed n v).writeOne trivial ht h.1, h.2.congr (by rw [writeLr_ctx])⟩
  licence _ _ := trivial
  timer := trivial
  here hl := hl.elim

theorem flushVcpu_presents (hs : Indexed s)
    (hused : ((s.flushVcpu e c isCurrent v).ctx v).lrs.used ≤ e.lrCount)
    (hl : isCurrent = true ∨ e.vcpuIsLoaded c v = true) (hdesc : e.hasDesc v i = true)
    (hp : (s.irq v i).pending = true) (hd : (s.flushVcpu e c isCurrent v).irqDeliverable e v
      ((s.flushVcpu e c isCurrent v).irq v i) = true) :
    Presented e.lrCount v i (s.flushVcpu e c isCurrent v) ∨
      Deferred e.lrCount v i (s.flushVcpu e c isCurrent v) := by
  have hfresh : Fresh e.lrCount v (s.flushVcpu e c isCurrent v) := flushVcpu_fresh hl
  have hrec : Recorded v i (s.flushVcpu e c isCurrent v) := flushVcpu_recorded hs (.inl hp)
  -- a pending list register of the context is one of the hardware
  have hpresent : ((s.flushVcpu e c isCurrent v).ctx v).lrs.Any (Lr.PendingOf i) →
      Presented e.lrCount v i (s.flushVcpu e c isCurrent v) := by
    rintro ⟨idx, hlt, hpend⟩
    have hidx := lt_of_lt_of_le hlt hused
    refine ⟨⟨idx, hlt, hpend⟩, idx, hidx, ?_⟩
    show (((s.flushVcpu e c isCurrent v).ich v).lr idx).PendingOf i
    rw [hfresh idx hidx, if_pos hlt]
    exact hpend
  rcases hrec with hstill | hlr
  · rw [flushVcpu_loaded hl] at hused hd hstill hpresent ⊢
    have hs₁ : Indexed (s.modCtx v (syncLiveCpuif (s.ich v))) := ⟨hs.virq, hs.bit, hs.lpiBit⟩
    rcases flushScan_served hs₁ hdesc with ⟨hfull, hu⟩ | hserved
    · refine .inr ⟨hstill, le_antisymm hused hfull, hu, ?_⟩
      rw [modIch_self]
      exact controlHcr_uie hu
    · exact .inl (hpresent (hserved hstill hd))
  · exact .inl (hpresent hlr)

/-- If the context had no gap, none of the list registers it has run out of is free. -/
theorem flushVcpu_occupied (hs : Indexed s) (hpacked : Packed v s)
    (hl : isCurrent = true ∨ e.vcpuIsLoaded c v = true)
    (hused : ((s.flushVcpu e c isCurrent v).ctx v).lrs.used = e.lrCount) {idx : Nat}
    (hidx : idx < e.lrCount) :
    (((s.flushVcpu e c isCurrent v).ich v).lr idx).state ≠ .invalid := by
  have hlt : idx < ((s.flushVcpu e c isCurrent v).ctx v).lrs.used := hused.symm ▸ hidx
  rw [flushVcpu_fresh hl idx hidx, if_pos hlt]
  exact ((packed_closed e.lrCount v).flushVcpu (fun _ => trivial) ⟨hs, hpacked⟩).2 idx hlt

/-- The loop of a sync moves on only from a valid slot. -/
theorem settleLr_valid {lr : Lr} {d : VgicIrq} {idx : Nat}
    (h : (s.settleLr e line v loaded idx lr d).2 = false) : lr.state ≠ .invalid := by
  rw [settleLr] at h
  split at h
  · split at h
    · next hc =>
      rw [Bool.and_eq_true, beq_iff_eq] at hc
      rw [hc.2]
      decide
    split at h
    · cases h
    split at h
    · next hc =>
      rw [Bool.and_eq_true, beq_iff_eq] at hc
      rw [hc.2]
      decide
    · split at h
      · cases h
      · next hv => exact hv
  · split at h
    · cases h
    · next hv => exact hv

theorem syncLrs_packed : Packed v (s.syncLrs e line v loaded (s.ctx v).lrs.used 0) := by
  refine Closed.syncLrs_rule (P := fun idx s => ∀ j < idx, ((s.ctx v).lrs.slot j).state ≠ .invalid)
    (fun {s idx} hidx hp => ?_) _ (zero_add _) fun j hj => absurd hj (Nat.not_lt_zero j)
  have hlrs : ((s.syncLr e line v loaded idx).1.ctx v).lrs =
      if (s.syncLr e line v loaded idx).2 then (s.ctx v).lrs.remove {} idx
      else (s.ctx v).lrs := Closed.settleLr_lrs
  split
  · next hr =>
    rw [if_pos hr] at hlrs
    intro j hj
    rw [hlrs, Slots.remove_slot hidx (by omega), if_neg (by omega)]
    exact hp j hj
  · next hr =>
    rw [if_neg hr] at hlrs
    intro j hj
    rw [hlrs]
    rcases Nat.lt_succ_iff_lt_or_eq.mp hj with hlt | rfl
    · exact hp j hlt
    · exact settleLr_valid (Bool.eq_false_iff.mpr hr)

theorem reconcile_packed {old : Slots Lr} {eoi : Nat → Bool} (hs : Indexed s) :
    Packed v (s.reconcile e line c v loaded old eoi) := by
  have K := closed e.lrCount v
  have h1 : Indexed (s.completeReported e line c v old eoi) := by
    rw [completeReported]
    split
    · exact hs
    · exact K.completeEoiLrs (fun _ _ => trivial) _ hs
  have h2 : Indexed ((s.completeReported e line c v old eoi).syncLostLrs e line v loaded eoi old) :=
    K.syncLostLrs (fun _ => trivial) (fun _ _ => trivial) h1
  rw [reconcile]
  split
  · exact ((packed_closed e.lrCount v).restoreTimer trivial ⟨K.syncLrs h2, syncLrs_packed⟩).2
  · exact syncLrs_packed

/-- The flush of an exit follows a sync: if it runs out, all list registers are taken. -/
theorem syncFlush_occupied (hs : Indexed s)
    (hused : ((s.syncFlush e line v).ctx v).lrs.used = e.lrCount) {idx : Nat}
    (hidx : idx < e.lrCount) : (((s.syncFlush e line v).ich v).lr idx).state ≠ .invalid := by
  have K := closed e.lrCount v
  have hpacked : Packed v (s.syncVcpu e line (some v) true v) := by
    rw [syncVcpu, if_neg (by simp), if_pos (by simp)]
    exact reconcile_packed (K.readBack trivial hs)
  exact flushVcpu_occupied (K.syncCurrent trivial hs) hpacked (.inl rfl) hused hidx

end Core

/-- Every interrupt of the loaded vCPU that is pending and deliverable when it is
flushed is presented to the guest or deferred. Deferring means that the list registers
have run out and the underflow interrupt is enabled; if the context had no gap — as
after a sync, see `Core.syncFlush_occupied` — then all of them are taken. -/
theorem flush_presents {cfg : GicConfig} {b : Board} {m : Vm} {c : Caller}
    {isCurrent : Bool} {v : Vid} {virq : Nat} (hr : Reachable cfg b m)
    (hl : isCurrent = true ∨ m.env.vcpuIsLoaded c v = true)
    (hdesc : m.env.hasDesc v virq = true) (hp : (m.core.irq v virq).pending = true)
    (hd : (m.core.flushVcpu m.env c isCurrent v).irqDeliverable m.env v
      ((m.core.flushVcpu m.env c isCurrent v).irq v virq) = true) :
    Core.Presented m.env.lrCount v virq (m.core.flushVcpu m.env c isCurrent v) ∨
      Core.Deferred m.env.lrCount v virq (m.core.flushVcpu m.env c isCurrent v) ∧
        (Core.Packed v m.core → ∀ idx < m.env.lrCount,
          (((m.core.flushVcpu m.env c isCurrent v).ich v).lr idx).state ≠ .invalid) := by
  obtain ⟨tr, hrun⟩ := hr
  have hs := run hrun
  have K : Closed m.env.lrCount v (fun _ => True) (fun _ => True) (fun _ => False) True
      (OthersDistinct m.env) :=
    Distinct.closed (fun _ _ hread => hread.elim) (fun _ _ => ⟨trivial, fun h => h rfl⟩)
      fun _ _ => trivial
  have hdist : OthersDistinct m.env (m.core.flushVcpu m.env c isCurrent v) :=
    K.flushVcpu (fun _ => trivial) (othersDistinct_run hrun)
  have hused := hdist.used v trivial
  refine (Core.flushVcpu_presents hs hused hl hdesc hp hd).imp_right fun h => ⟨h, ?_⟩
  exact fun hpacked _ => Core.flushVcpu_occupied hs hpacked hl h.used

/-! ## One list register, two interrupts -/

/-- A device asserts an SPI. -/
def asserted (virq : Nat) (m : Vm) : Vm :=
  m.modCore fun e s => s.injectLocked e (fun _ _ => false) none (m.irqTargetVcpu 0 virq) virq true

/-- vCPU 0 exits, with its timer line low. -/
def serviced (m : Vm) : Vm := m.modCore fun e s => s.syncFlush e (fun _ _ => false) 0

/-- The guest takes the interrupt in a slot. -/
def taken (idx : Nat) (m : Vm) : Vm := m.modCore fun _ s => Vm.ackSlot 0 idx s

/-- A VM of one vCPU on a board with a single list register. -/
def oneLr : Board where
  maxVcpus := 8
  maxVcpus_pos := twoVcpus.maxVcpus_pos
  pcpus := 1
  vtr := 0
  itsEnabled := false

/-- vCPU 0 of it runs, and enables `SPI 40` and `SPI 50`. -/
def spareVm : Vm :=
  ((((oneLr.start.modCore fun e s => s.loadVcpu e 0).setPhase 0 .loading).setPhase 0
    .running).mmioHandler twoFrames (fun _ => none) (fun _ _ _ => false) 0
      (gicdWord 0x104 0x40100)).vm

/-- `SPI 50` is asserted, presented and taken; then `SPI 40` is asserted. -/
def crowdedVm : Vm := serviced (asserted 40 (taken 0 (serviced (asserted 50 spareVm))))

theorem crowdedVm_reachable : Reachable twoFrames oneLr crowdedVm :=
  ⟨_, play_run [.load 0, .enter 0, .mmio 0 (gicdWord 0x104 0x40100), .inject none 0 50 true,
    .service 0, .ack 0 50, .inject none 0 40 true, .service 0] (by decide +kernel)⟩

/-- One more flush of it. -/
def crowdedFlush : Core := crowdedVm.core.flushVcpu crowdedVm.env (some 0) true 0

/-- `SPI 40` comes first and finds no list register. -/
theorem flush_presents_crowded : (crowdedVm.core.irq 0 40).pending = true ∧
      (Core.Presented crowdedVm.env.lrCount 0 40 crowdedFlush ∨
        Core.Deferred crowdedVm.env.lrCount 0 40 crowdedFlush ∧
          (Core.Packed 0 crowdedVm.core → ∀ idx < crowdedVm.env.lrCount,
            ((crowdedFlush.ich 0).lr idx).state ≠ .invalid)) :=
  ⟨by decide +kernel,
    flush_presents crowdedVm_reachable (.inl rfl) (by decide +kernel) (by decide +kernel)
      (by decide +kernel)⟩

/-- `SPI 50` has the list register. It is pending again and deliverable, and its list
register is not pending: the flush has not come that far. -/
theorem flush_skips_owner :
    Reachable twoFrames oneLr crowdedVm ∧ crowdedVm.env.vcpuIsLoaded (some 0) 0 = true ∧
      (crowdedFlush.irq 0 50).pending = true ∧
      crowdedFlush.irqDeliverable crowdedVm.env 0 (crowdedFlush.irq 0 50) = true ∧
      (crowdedFlush.ctx 0).lrs.Any (Lr.Of 50) ∧
      ¬ (crowdedFlush.ctx 0).lrs.Any (Lr.PendingOf 50) := by
  refine ⟨crowdedVm_reachable, by decide +kernel, by decide +kernel, by decide +kernel,
    ⟨0, by decide +kernel, by decide +kernel, by decide +kernel⟩, ?_⟩
  have hused : (crowdedFlush.ctx 0).lrs.used = 1 := by decide +kernel
  have hslot : ((crowdedFlush.ctx 0).lrs.slot 0).state.isPending = false := by decide +kernel
  rintro ⟨idx, hidx, hp⟩
  obtain rfl : idx = 0 := by omega
  exact absurd hp.1 (by rw [hslot]; decide)

end Sima.Vgic
