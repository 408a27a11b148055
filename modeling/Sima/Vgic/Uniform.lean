import Sima.Vgic.Route
import Sima.Vgic.Spi

/-!
# One configuration in every row

The configuration of an SPI is kept once for each vCPU, and a read of the distributor
answers from the row of vCPU 0. Delivery looks at the row of the target. The two agree as
long as all rows do, and every register write takes care of that — it goes through the
rows one by one. An injection does not: it writes the trigger mode it is given into the
row it injects into and leaves the others. So the rows stay alike exactly as long as every
SPI is injected in the mode it is configured in, or there is but one vCPU.
-/

namespace Sima.Vgic

open Lib

/-- The configuration of an SPI and its target are the same in the row of every vCPU. -/
def Vm.Uniform (m : Vm) : Prop :=
  ∀ i, isSpi i = true → ∀ v < m.env.vcpuCount,
    (m.core.irq v i).config = (m.core.irq 0 i).config ∧ m.target v i = m.target 0 i

/-- An SPI is injected in the mode that the row of its target is configured in. -/
def Label.Steady : Label → Vm → Prop
  | .inject _ v virq level, m => isSpi virq = true → m.env.vcpuCount = 1 ∨
      (m.core.irq (m.irqTargetVcpu v virq) virq).level = level
  | _, _ => True

variable {cfg : GicConfig} {b : Board} {m m' : Vm} {a : Label} {tr : List Label} {i : Nat}

/-! ## The step -/

theorem uniform_iff : m.Uniform ↔ ∀ i, isSpi i = true → ∀ v < m.env.vcpuCount,
    m.core.spiConfig v i = m.core.spiConfig 0 i ∧ m.target v i = m.target 0 i := by
  refine forall₂_congr fun i hi => forall₂_congr fun v _ => ?_
  rw [Core.spiConfig, Core.spiConfig, if_pos hi, if_pos hi, Option.some.injEq]

theorem uniform_of (he : m.env.Fixed m'.env) (hu : m.Uniform)
    (hc : ∀ i, isSpi i = true → ∀ v < m.env.vcpuCount,
      m.core.spiConfig v i = m.core.spiConfig 0 i → m'.core.spiConfig v i = m'.core.spiConfig 0 i)
    (ht : ∀ i, isSpi i = true → ∀ v < m.env.vcpuCount,
      m.target v i = m.target 0 i → m'.target v i = m'.target 0 i) : m'.Uniform := by
  rw [uniform_iff] at hu ⊢
  intro i hi v hv
  rw [he.vcpuCount] at hv
  obtain ⟨h1, h2⟩ := hu i hi v hv
  exact ⟨hc i hi v hv h1, ht i hi v hv h2⟩

theorem Vm.Uniform.setSpiTarget (hu : m.Uniform) (i t : Nat) : (m.setSpiTarget i t).Uniform := by
  cases hi : isSpi i with
  | false =>
    rw [Vm.setSpiTarget_of_not hi]
    exact hu
  | true =>
    refine uniform_of (by rw [Vm.setSpiTarget_env]; exact .refl _) hu
      (fun j _ w _ h => ?_) fun j _ w hw h => ?_
    · rw [Vm.setSpiTarget_spiConfig]
      exact h
    · have h0 : 0 < m.env.vcpuCount := lt_of_le_of_lt (Nat.zero_le w) hw
      rw [Vm.setSpiTarget_target hi]
      simp [hw, h0, h]

/-- No register write can set the rows apart. -/
theorem uniform_closed : SpiClosed (fun _ _ => True) True Vm.Uniform where
  kept hu hk := by
    refine uniform_of hk.fixed hu (fun i _ v _ h => ?_) fun i hi v _ h => ?_
    · rw [hk.config]
      exact h
    · rw [hk.target v i hi, hk.target 0 i hi]
      exact h
  config {m v i f g} hf hu := by
    refine uniform_of (m := m) (.refl _) hu (fun j _ w hw h => ?_) fun _ _ _ _ => id
    show (m.core.configIrq m.env v i f).spiConfig w j =
      (m.core.configIrq m.env v i f).spiConfig 0 j
    have h0 : 0 < m.env.vcpuCount := lt_of_le_of_lt (Nat.zero_le w) hw
    rw [Core.configIrq_spiConfig hf]
    simp [hw, h0, h]
  target _ hu := hu.setSpiTarget _ _
  irouter {m i upper value} _ _ hu := by
    have hroute : Vm.Uniform { m with
        spiRouter := Function.update m.spiRouter (i - localIrqNum)
          (Vm.routerWith (m.spiRouter (i - localIrqNum)) upper value) } := hu
    exact hroute.setSpiTarget _ _

/-- An injection keeps the rows alike exactly when it changes no mode, unless there is
only one row. -/
theorem uniform_inject_iff {line : Samples} {c : Caller} {t : Nat} {level : Bool}
    (hi : isSpi i = true) (ht : t < m.env.vcpuCount) (hd : m.env.hasDesc t i = true)
    (hu : m.Uniform) : (m.modCore fun e s => s.injectLocked e line c t i level).Uniform ↔
      m.env.vcpuCount = 1 ∨ (m.core.irq t i).level = level := by
  have hcfg : ∀ w < m.env.vcpuCount, m.core.spiConfig w i = some (m.core.irq t i).config := by
    intro w hw
    have h1 := (uniform_iff.mp hu i hi w hw).1
    have h2 := (uniform_iff.mp hu i hi t ht).1
    rw [h1, ← h2, Core.spiConfig, if_pos hi]
  have hafter : (m.core.injectLocked m.env line c t i level).spiConfig = fun w j =>
      if w = t ∧ j = i then (m.core.spiConfig w j).map fun x => { x with level := level }
      else m.core.spiConfig w j := Core.injectLocked_spiConfig hd
  constructor
  · intro hu'
    by_cases hone : m.env.vcpuCount = 1
    · exact .inl hone
    right
    -- another row still has the mode from before
    obtain ⟨w, hw, hne⟩ : ∃ w < m.env.vcpuCount, w ≠ t := by
      by_cases h0 : t = 0
      · exact ⟨1, by omega, by omega⟩
      · exact ⟨0, by omega, Ne.symm h0⟩
    have hw' := (uniform_iff.mp hu' i hi w hw).1
    have ht' := (uniform_iff.mp hu' i hi t ht).1
    have heq : (m.core.injectLocked m.env line c t i level).spiConfig w i =
        (m.core.injectLocked m.env line c t i level).spiConfig t i := hw'.trans ht'.symm
    rw [hafter] at heq
    simp only [hne, false_and, if_false, and_self, if_true, hcfg w hw, hcfg t ht,
      Option.map_some, Option.some.injEq] at heq
    exact congrArg IrqConfig.level heq
  · rintro (hone | hlevel)
    · refine uniform_of (m := m) (.refl _) hu (fun j _ w hw _ => ?_) fun _ _ _ _ => id
      rw [show w = 0 by omega]
    refine uniform_closed.kept hu (.modCore ?_)
    rw [hafter]
    funext w j
    split
    · next h =>
      obtain ⟨rfl, rfl⟩ := h
      rw [hcfg w ht, ← hlevel]
      rfl
    · rfl

theorem uniform_step_iff (hm : m.env.Complete) (hmax : m.env.vcpuCount ≤ m.env.maxVcpus)
    (hu : m.Uniform) (hs : Step cfg a m m') : m'.Uniform ↔ a.Steady m := by
  cases ha : a.isAccess with
  | true =>
    cases hs with
    | mmio =>
      refine iff_of_true ?_ trivial
      exact uniform_closed.mmioHandler (fun _ _ _ _ _ => trivial) (fun _ _ _ => trivial) hu
    | _ => cases ha
  | false =>
    by_cases hinj : ∃ c v virq level, a = .inject c v virq level ∧ isSpi virq = true
    · obtain ⟨c, v, virq, level, rfl, hi⟩ := hinj
      cases hs with
      | inject line _ _ hlt =>
        have ht : m.irqTargetVcpu v virq < m.env.vcpuCount := by
          rw [irqTargetVcpu_eq hi hm]
          exact spiTarget_lt hm.2
        have hd : m.env.hasDesc (m.irqTargetVcpu v virq) virq = true := by
          rw [Env.hasDesc, decide_eq_true (lt_of_lt_of_le ht hmax), decide_eq_true hlt]
          rfl
        rw [uniform_inject_iff hi ht hd hu]
        exact ⟨fun h _ => h, fun h => h hi⟩
    · have hkept := Vm.SpiKept.of_step hs ha fun c v virq level heq => by
        by_contra hspi
        exact hinj ⟨c, v, virq, level, heq, by simpa using hspi⟩
      refine iff_of_true (uniform_closed.kept hu hkept) ?_
      cases a with
      | inject c v virq level =>
        intro hi
        exact absurd ⟨c, v, virq, level, rfl, hi⟩ hinj
      | _ => exact trivial

/-! ## Reading back -/

theorem packBits_getLsbD {p : Nat → Bool} {bit : Nat} (h : bit < 32) :
    (packBits p).getLsbD bit = p bit := by
  have hfold : ∀ n ≤ 32, ((List.range n).foldl
      (fun w bit => if p bit then w ||| Bitmap.mask bit else w) (0 : BitVec 32)).getLsbD bit =
      (decide (bit < n) && p bit) := by
    intro n hn
    induction n with
    | zero => simp
    | succ n ih =>
      rw [List.range_succ, List.foldl_append, List.foldl_cons, List.foldl_nil]
      have ih := ih (by omega)
      by_cases heq : bit = n
      · subst heq
        split
        · next hp => simp [Bitmap.mask_getLsbD h, hp]
        · next hp => rw [ih]; simp [hp]
      have hlt : bit < n + 1 ↔ bit < n := by omega
      split
      · rw [BitVec.getLsbD_or, ih, Bitmap.mask_getLsbD (by omega)]
        simp [heq, hlt]
      · rw [ih]
        simp [hlt]
  rw [packBits, hfold 32 le_rfl, decide_eq_true h, Bool.true_and]

/-- What the guest reads of an SPI is what the row of its target has. -/
theorem Vm.Uniform.readback (hu : m.Uniform) (hm : m.env.Complete)
    (hmax : m.env.vcpuCount ≤ m.env.maxVcpus) (w : Vid) (hi : isSpi i = true) :
    (m.readIrqBits w (i / 32 * 32) .isenabler).getLsbD (i % 32) =
        (m.core.irq (m.spiTarget i) i).enabled ∧
      m.readIrqPriority w i 1 = BitVec.ofNat 64 (m.core.irq (m.spiTarget i) i).priority ∧
      (m.readIrqConfig w (i / 16 * 16)).getLsbD (i % 16 * 2 + 1) =
        !(m.core.irq (m.spiTarget i) i).level := by
  have hcfg := (hu i hi (m.spiTarget i) (spiTarget_lt hm.2)).1
  have henabled := congrArg IrqConfig.enabled hcfg
  have hpriority := congrArg IrqConfig.priority hcfg
  have hlevel := congrArg IrqConfig.level hcfg
  simp only [VgicIrq.config] at henabled hpriority hlevel
  have hlt := (isSpi_iff.mp hi).2
  refine ⟨?_, ?_, ?_⟩
  · have hpos : i / 32 * 32 + i % 32 = i := Nat.div_add_mod' i 32
    have h0 : 0 < m.env.maxVcpus := lt_of_lt_of_le hm.2 hmax
    rw [Vm.readIrqBits, packBits_getLsbD (Nat.mod_lt _ (by decide)), hpos, henabled]
    simp [Vm.irqBitDesc, Vm.irqBit, hi, h0, not_le.mpr hlt]
  · rw [Vm.readIrqPriority, packBytes, hpriority]
    simp [Vm.configDesc, hi]
  · have hpos : i / 16 * 16 + (i % 16 * 2 + 1) / 2 = i := by omega
    rw [Vm.readIrqConfig, packBits_getLsbD (by omega), hpos, hlevel]
    simp [Vm.configDesc, hi, hlt]

/-! ## The run -/

theorem uniform_start (b : Board) : b.start.Uniform := by
  intro i hi v _
  have hlocal : ¬ (i < localIrqNum ∨ isLpi i = true) := by
    rw [isSpi_iff] at hi
    rw [not_or, not_lpi_of_lt hi.2]
    exact ⟨by omega, by decide⟩
  refine ⟨rfl, ?_⟩
  show (if i < localIrqNum ∨ isLpi i = true then v else 0) =
    if i < localIrqNum ∨ isLpi i = true then 0 else 0
  rw [if_neg hlocal, if_neg hlocal]

/-- In every run that injects each SPI in the mode it is configured in, whatever the guest
writes and whoever injects, the configuration of an SPI is the same in the row of every
vCPU, and what the guest reads back of it is what the row of its target has. From there,
the next step keeps this exactly if it does the same. -/
theorem spi_config_uniform (hrun : GuardedRun (Step cfg) Label.Steady b.start tr m) : m.Uniform ∧
    (∀ w i, isSpi i = true → (m.readIrqBits w (i / 32 * 32) .isenabler).getLsbD (i % 32) =
          (m.core.irq (m.spiTarget i) i).enabled ∧
        m.readIrqPriority w i 1 = BitVec.ofNat 64 (m.core.irq (m.spiTarget i) i).priority ∧
        (m.readIrqConfig w (i / 16 * 16)).getLsbD (i % 16 * 2 + 1) =
          !(m.core.irq (m.spiTarget i) i).level) ∧
    ∀ a m', Step cfg a m m' → (m'.Uniform ↔ a.Steady m) := by
  have hwide : ∀ {tr m}, GuardedRun (Step cfg) Label.Steady b.start tr m →
      m.env.Complete ∧ m.env.vcpuCount ≤ m.env.maxVcpus := by
    intro tr m h
    refine ⟨complete_run h, ?_⟩
    rw [(fixed_run h).vcpuCount, (fixed_run h).maxVcpus]
    exact b.vcpuCount_le
  have hu : m.Uniform := by
    induction hrun with
    | nil => exact uniform_start b
    | cons hprev hok hs ih =>
      obtain ⟨hm, hmax⟩ := hwide hprev
      exact (uniform_step_iff hm hmax ih hs).mpr hok
  obtain ⟨hm, hmax⟩ := hwide hrun
  exact ⟨hu, fun w i hi => hu.readback hm hmax w hi, fun _ _ hs => uniform_step_iff hm hmax hu hs⟩

/-! ### An SPI that the guest made an edge -/

/-- The guest makes `SPI 40` edge-triggered in `GICD_ICFGR2`. -/
def edgeVm : Vm :=
  (runningVm.mmioHandler twoFrames (fun _ => none) (fun _ _ _ => false) 0
    (gicdWord 0xc08 0x20000)).vm

/-- A device asserts it as a level, or as an edge. -/
def raisedVm (level : Bool) : Vm :=
  edgeVm.modCore fun e s =>
    s.injectLocked e (fun _ _ => false) none (edgeVm.irqTargetVcpu 0 40) 40 level

theorem edgeVm_run : GuardedRun (Step twoFrames) Label.Steady twoVcpus.start
    [.mmio 0 (gicdWord 0xc08 0x20000), .enter 0, .load 0] edgeVm :=
  play_run [.load 0, .enter 0, .mmio 0 (gicdWord 0xc08 0x20000)]
    ⟨⟨by decide, trivial⟩, ⟨by decide, trivial⟩, ⟨by decide, trivial⟩, trivial⟩

theorem raisedVm_step (level : Bool) :
    Step twoFrames (.inject none 0 40 level) edgeVm (raisedVm level) :=
  .inject _ trivial (by decide +kernel) (by decide)

/-- Asserted as the edge it is, it stays an edge in both rows. -/
theorem spi_config_uniform_edge :
    (raisedVm false).Uniform ∧ ((raisedVm false).readIrqConfig 1 32).getLsbD 17 = true := by
  have hsteady : Label.Steady (.inject none 0 40 false) edgeVm := fun _ => .inr (by decide +kernel)
  have hrun := edgeVm_run.cons hsteady (raisedVm_step false)
  have h := spi_config_uniform hrun
  exact ⟨h.1, by rw [(h.2.1 1 40 (by decide)).2.2]; decide +kernel⟩

/-- Asserted as a level, it becomes one in the row of vCPU 0 and stays an edge in the row of
vCPU 1. -/
theorem spi_config_set_apart : Reachable twoFrames twoVcpus (raisedVm true) ∧
      ((raisedVm true).core.irq 0 40).level = true ∧
      ((raisedVm true).core.irq 1 40).level = false := by
  refine ⟨⟨_, .cons (edgeVm_run.mono fun _ => trivial) trivial (raisedVm_step true)⟩, ?_, ?_⟩ <;>
    decide +kernel

end Sima.Vgic
