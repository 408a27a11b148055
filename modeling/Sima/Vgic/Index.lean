import Sima.Vgic.Kept

/-!
# The pending bitmap is an index of the descriptors

Flush and the WFI check look only at descriptors whose bit is set, so a pending
descriptor without its bit would be forgotten, and a bit without a pending
descriptor would only cost a look. `vgic_set_pending` writes both and nothing else
writes either: after every step, of any vCPU and for every INTID, the bit says
what the flag says.
-/

namespace Sima.Vgic

open Lib

structure Indexed (s : Core) : Prop where
  virq : ∀ v i, (s.irq v i).virq = i
  bit : ∀ v i, i < irqNum → (s.pendingBitmap v).test i = (s.irq v i).pending
  lpiBit : ∀ v i, isLpi i = true → (s.lpiPendingBitmap v).test (i - lpiBase) = (s.irq v i).pending

namespace Indexed

variable {s : Core} {v : Vid} {i : Nat} {m m' : Vm} {cfg : GicConfig}

theorem modIrq {f : VgicIrq → VgicIrq} (h : Indexed s)
    (hf : ∀ d, (f d).virq = d.virq ∧ (f d).pending = d.pending) : Indexed (s.modIrq v i f) := by
  have hp : ∀ w j, ((s.modIrq v i f).irq w j).pending = (s.irq w j).pending := by
    intro w j
    rw [Core.modIrq_irq]
    split
    · next he => rw [he.1, he.2, (hf _).2]
    · rfl
  refine ⟨fun w j => ?_, fun w j hj => ?_, fun w j hj => ?_⟩
  · rw [Core.modIrq_irq]
    split
    · next he => rw [(hf _).1, h.virq, he.2]
    · exact h.virq w j
  · rw [hp]
    exact h.bit w j hj
  · rw [hp]
    exact h.lpiBit w j hj

theorem setPending (h : Indexed s) (b : Bool) : Indexed (s.setPending v i b) := by
  have hvirq : ∀ w j, ((s.setPending v i b).irq w j).virq = j := by
    intro w j
    rw [Core.setPending_irq, Core.modIrq_irq]
    split
    · next he => rw [he.2]; exact h.virq v i
    · exact h.virq w j
  have hlpi : isLpi i = true → irqNum ≤ i := by
    intro hl
    simp only [isLpi, Bool.and_eq_true, decide_eq_true_eq] at hl
    have : irqNum ≤ lpiBase := by decide
    omega
  refine ⟨hvirq, fun w j hj => ?_, fun w j hj => ?_⟩
  · rw [Core.setPending_pending, Core.setPending, h.virq, Core.markPending]
    split
    · next hl =>
      -- an LPI has its bit in the other bitmap
      rw [if_neg fun he => by have := hlpi hl; omega]
      exact h.bit w j hj
    show (Function.update s.pendingBitmap v ((s.pendingBitmap v).put i b) w).test j = _
    by_cases hw : w = v
    · subst hw
      rw [Function.update_self, Bitmap.test_put, h.bit w j hj]
      by_cases hji : j = i <;> simp [hji]
    · rw [Function.update_of_ne hw, if_neg fun he => hw he.1]
      exact h.bit w j hj
  · rw [Core.setPending_pending, Core.setPending, h.virq, Core.markPending]
    split
    · next hl =>
      show (Function.update s.lpiPendingBitmap v
        ((s.lpiPendingBitmap v).put (i - lpiBase) b) w).test (j - lpiBase) = _
      by_cases hw : w = v
      · subst hw
        rw [Function.update_self, Bitmap.test_put, h.lpiBit w j hj]
        simp only [isLpi, Bool.and_eq_true, decide_eq_true_eq] at hl hj
        have hji : j - lpiBase = i - lpiBase ↔ j = i := by omega
        by_cases hji' : j = i
        · simp [hji']
        · simp [hji', mt hji.mp hji']
      · rw [Function.update_of_ne hw, if_neg fun he => hw he.1]
        exact h.lpiBit w j hj
    · next hl =>
      have hne : ¬ (w = v ∧ j = i) := fun he => hl (he.2 ▸ hj)
      rw [if_neg hne]
      exact h.lpiBit w j hj

theorem closed (n : Nat) (v : Vid) :
    Closed n v (fun _ => True) (fun _ => True) (fun _ => True) True Indexed where
  virq h := h.virq v
  lower _ h := h.setPending false
  raise _ h := h.setPending true
  drop _ h := h.modIrq fun _ => ⟨rfl, rfl⟩
  activate _ h := h.modIrq fun _ => ⟨rfl, rfl⟩
  config _ hf h := h.modIrq fun d => ⟨(hf d).1, (hf d).2.1⟩
  remove _ h := ⟨h.virq, h.bit, h.lpiBit⟩
  refresh _ _ _ _ _ h := ⟨h.virq, h.bit, h.lpiBit⟩
  push _ _ _ h := ⟨h.virq, h.bit, h.lpiBit⟩
  ctx _ h := ⟨h.virq, h.bit, h.lpiBit⟩
  read _ _ h := ⟨h.virq, h.bit, h.lpiBit⟩
  ich _ h := ⟨h.virq, h.bit, h.lpiBit⟩
  write _ _ h := ⟨h.virq, h.bit, h.lpiBit⟩
  writeOne _ _ h := ⟨h.virq, h.bit, h.lpiBit⟩
  licence _ _ := trivial
  timer := trivial
  here _ := trivial

/-! ## Through the steps -/

theorem kept : Kept (fun _ _ _ => True) (fun _ _ _ => True) (fun _ => True) (fun _ => True)
    (fun m => Indexed m.core) :=
  .ofCore
    (fun e w => (closed e.lrCount w).restrict (fun _ => trivial) (fun _ => trivial) id)
    (fun _ _ => id) (fun _ => id) (fun h => ⟨h.virq, h.bit, h.lpiBit⟩)
    (fun h => ⟨h.virq, h.bit, h.lpiBit⟩) (fun _ h => ⟨h.virq, h.bit, h.lpiBit⟩)

theorem step {a : Label} (h : Indexed m.core) (hs : Step cfg a m m') : Indexed m'.core :=
  kept.step hs (fun _ _ _ _ _ => trivial) (fun _ _ _ _ _ _ => trivial) (fun _ _ _ _ _ => trivial) h

theorem start (b : Board) : Indexed b.start.core := by
  refine ⟨fun v i => ?_, fun v i hi => ?_, fun v i hi => ?_⟩
  · show ((if isLpi i then _ else _ : VgicIrq)).virq = i
    split <;> rfl
  · show Bitmap.test (fun _ => 0) i = ((if isLpi i then _ else _ : VgicIrq)).pending
    split <;> simp [Bitmap.test]
  · show Bitmap.test (fun _ => 0) (i - lpiBase) = ((if isLpi i then _ else _ : VgicIrq)).pending
    split <;> simp [Bitmap.test]

theorem run {b : Board} {ok : Label → Vm → Prop} {tr : List Label}
    (h : GuardedRun (Step cfg) ok b.start tr m) : Indexed m.core :=
  h.inv (P := fun _ m => Indexed m.core) (start b) fun h _ hs => h.step hs

end Indexed

variable {m : Vm} {ok : Label → Vm → Prop}

theorem fixed_run {cfg : GicConfig} {b : Board} {tr : List Label}
    (h : GuardedRun (Step cfg) ok b.start tr m) : b.start.env.Fixed m.env := by
  have K := Indexed.kept.fixed b.start.env
  have hinv := h.inv
    ⟨.refl _, Indexed.start b⟩ fun h _ hs =>
      K.step hs (fun _ _ _ _ _ => trivial) (fun _ _ _ _ _ _ => trivial)
        (fun _ _ _ _ _ => trivial) h
  exact hinv.1

/-- After every step of every run, the bit of an interrupt in a vCPU's row is set
exactly when its descriptor is pending. -/
theorem pending_bit_iff {cfg : GicConfig} {b : Board} {m : Vm} (h : Reachable cfg b m)
    (v : Vid) (virq : Nat) :
    (virq < irqNum →
      ((m.core.pendingBitmap v).test virq = true ↔ (m.core.irq v virq).pending = true)) ∧
    (isLpi virq = true → ((m.core.lpiPendingBitmap v).test (virq - lpiBase) = true ↔
        (m.core.irq v virq).pending = true)) := by
  obtain ⟨tr, hrun⟩ := h
  have hm := Indexed.run hrun
  exact ⟨fun hi => by rw [hm.bit v virq hi], fun hi => by rw [hm.lpiBit v virq hi]⟩

/-- A VM of two vCPUs on a board with four list registers, without an ITS. -/
def twoVcpus : Board where
  maxVcpus := 8
  maxVcpus_pos := by decide
  pcpus := 2
  vtr := 3
  itsEnabled := false

/-- The frames of that VM. -/
def twoFrames : GicConfig where
  gicdBase := 0x8000000
  gicdSize := 0x10000
  gicrBase := 0x80a0000
  gicrSize := 0x40000
  gicrStride := 0x20000
  itsBase := 0
  itsSize := 0
  gicIidr := 0
  bspVmpidr := 0

/-! ## Runs of that VM -/

/-- What a label comes to if guest memory is empty, every timer line reads low, and the
guest takes and ends what is in slot 0. -/
def Label.play : Label → Vm → Vm
  | .inject c v virq level, m => m.modCore fun e s =>
    s.injectLocked e (fun _ _ => false) c (m.irqTargetVcpu v virq) virq level
  | .deassert c v virq, m => m.modCore fun e s => s.deassertIrq e (fun _ _ => false) c v virq
  | .mmio v req, m => (m.mmioHandler twoFrames (fun _ => none) (fun _ _ _ => false) v req).vm
  | .service v, m => m.modCore fun e s => s.syncFlush e (fun _ _ => false) v
  | .load v, m => (m.modCore fun e s => s.loadVcpu e v).setPhase v .loading
  | .enter v, m => m.setPhase v .running
  | .ack v _, m => m.modCore fun _ s => Vm.ackSlot v 0 s
  | .eoi v _, m => m.modCore fun _ s => Vm.eoiSlot v 0 s
  | _, m => m

/-- Whether it is a step. -/
def Label.can : Label → Vm → Bool
  | .inject c v virq _, m => decide (CallerOk m.env c ∧ v < m.env.vcpuCount ∧ virq < irqNum)
  | .deassert c v _, m => decide (CallerOk m.env c ∧ v < m.env.vcpuCount)
  | .mmio v _, m | .service v, m => decide (v < m.env.vcpuCount ∧ m.env.phase v = .running)
  | .load v, m => decide (v < m.env.vcpuCount ∧ m.env.phase v = .off)
  | .enter v, m => decide (v < m.env.vcpuCount ∧ m.env.phase v = .loading)
  | .ack v virq, m => decide (v < m.env.vcpuCount ∧ m.env.phase v = .running ∧
      0 < m.env.lrCount ∧ ((m.core.ich v).lr 0).state = .pending ∧
      ((m.core.ich v).lr 0).vintid = virq)
  | .eoi v virq, m => decide (v < m.env.vcpuCount ∧ m.env.phase v = .running ∧
      0 < m.env.lrCount ∧ ((m.core.ich v).lr 0).state.isActive = true ∧
      ((m.core.ich v).lr 0).vintid = virq)
  | _, _ => false

theorem Label.play_step {a : Label} (h : a.can m = true) : Step twoFrames a m (a.play m) := by
  cases a with
  | inject c v virq level =>
    obtain ⟨hc, hv, hi⟩ := of_decide_eq_true h
    exact .inject _ hc hv hi
  | deassert c v virq => exact .deassert _ (of_decide_eq_true h).1 (of_decide_eq_true h).2
  | mmio v req => exact .mmio _ _ (of_decide_eq_true h).1 (of_decide_eq_true h).2
  | service v => exact .service _ (of_decide_eq_true h).1 (of_decide_eq_true h).2
  | load v => exact .load (of_decide_eq_true h).1 (of_decide_eq_true h).2
  | enter v => exact .enter (of_decide_eq_true h).1 (of_decide_eq_true h).2
  | ack v virq =>
    obtain ⟨hv, hr, hlr, hs, hi⟩ := of_decide_eq_true h
    exact .ack hv hr hlr hs hi
  | eoi v virq =>
    obtain ⟨hv, hr, hlr, hs, hi⟩ := of_decide_eq_true h
    exact .eoi hv hr hlr hs hi
  | _ => cases h

theorem play_run (labels : List Label)
    (h : Meets Label.play (fun a m => a.can m = true ∧ ok a m) m labels) :
    GuardedRun (Step twoFrames) ok m labels.reverse (labels.foldl (fun m a => a.play m) m) := by
  rw [← List.map_id labels.reverse, List.map_reverse]
  exact .of_script (fun _ _ h => ⟨h.2, Label.play_step h.1⟩) h

theorem play_noted {γ : Type} {note : Label → Vm → γ → γ} {ok : Label → Vm × γ → Prop}
    {x : Vm × γ} (labels : List Label)
    (h : Meets (fun a (x : Vm × γ) => (a.play x.1, note a x.1 x.2))
      (fun a x => a.can x.1 = true ∧ ok a x) x labels) :
    GuardedRun (Noted (Step twoFrames) note) ok x labels.reverse
      (labels.foldl (fun x a => (a.play x.1, note a x.1 x.2)) x) := by
  rw [← List.map_id labels.reverse, List.map_reverse]
  exact .of_script (fun _ _ h => ⟨h.2, Label.play_step h.1, rfl⟩) h

/-- `SPI 40` injected before any vCPU runs stays in the descriptor of vCPU 0. -/
def injectedVm : Vm :=
  twoVcpus.start.modCore fun e s =>
    s.injectLocked e (fun _ _ => false) none (twoVcpus.start.irqTargetVcpu 0 40) 40 true

theorem pending_bit_injected : (injectedVm.core.irq 0 40).pending = true ∧
      ((injectedVm.core.pendingBitmap 0).test 40 = true ↔
        (injectedVm.core.irq 0 40).pending = true) :=
  ⟨by decide, (pending_bit_iff
    ⟨_, play_run [.inject none 0 40 true] (by decide +kernel)⟩ 0 40).1 (by decide)⟩

end Sima.Vgic
