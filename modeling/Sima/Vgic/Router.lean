import Sima.Vgic.Uniform

/-!
# The route that reads back

Where an SPI goes is kept twice: `spi_router` has what the guest wrote to `GICD_IROUTER`
and reads back from there, and the descriptors have the vCPU that delivery uses. A write of
`IROUTER`, by either half, sets both. A write of `GICD_ITARGETSR` — a register that means
nothing while affinity routing is on, and is served all the same — only sets the target.
After it `IROUTER` reads back a route that the interrupt does not take, unless the write
asked for the vCPU it was going to anyway.
-/

namespace Sima.Vgic

open Lib Vm

namespace Vm

/-- The two words of `GICD_IROUTER`, as the guest reads them. -/
def irouterReadback (m : Vm) (i : Nat) : BitVec 64 :=
  m.readIrouterWord i true ++ m.readIrouterWord i false

/-- Every SPI is delivered to the vCPU that its route decodes to. -/
def Routed (m : Vm) : Prop :=
  ∀ v i, isSpi i = true → m.irqTargetVcpu v i = m.irouterTargetVcpu (m.irouterReadback i)

end Vm

/-- A write of `ITARGETSR` asks for the vCPU that the route decodes to. -/
def Label.Follows (cfg : GicConfig) : Label → Vm → Prop
  | .mmio _ req, m => ∀ w ∈ req.words, ∀ i t, w.Asks cfg i t → isSpi i = true →
      m.validTargetVcpu t = m.irouterTargetVcpu (m.irouterReadback i)
  | _, _ => True

variable {cfg : GicConfig} {b : Board} {m m' : Vm} {a : Label} {tr : List Label} {r : BitVec 64}
  {ask : Nat → Nat → Prop} {i t : Nat}

/-! ## What decides -/

theorem irouterReadback_eq (i : Nat) : m.irouterReadback i = m.spiRouter (i - localIrqNum) := by
  rw [irouterReadback, readIrouterWord, readIrouterWord, if_pos rfl]
  ext k hk
  rw [BitVec.getElem_append]
  split
  · simp [BitVec.getLsbD_eq_getElem hk]
  · next h => simp [show 32 + (k - 32) = k by omega, BitVec.getLsbD_eq_getElem hk]

theorem irouterTargetVcpu_lt (h : 0 < m.env.vcpuCount) :
    m.irouterTargetVcpu r < m.env.vcpuCount := by
  rw [irouterTargetVcpu]
  split
  · next hr =>
    simp only [Bool.and_eq_true, decide_eq_true_eq] at hr
    exact hr.2
  · exact h

theorem irouterTargetVcpu_congr (h : m'.env.vcpuCount = m.env.vcpuCount) :
    m'.irouterTargetVcpu r = m.irouterTargetVcpu r := by
  rw [irouterTargetVcpu, irouterTargetVcpu, h]

theorem validTargetVcpu_congr (h : m'.env.vcpuCount = m.env.vcpuCount) :
    m'.validTargetVcpu t = m.validTargetVcpu t := by
  rw [validTargetVcpu, validTargetVcpu, h]

/-- Once all vCPUs are created, the target and the route are all that counts. -/
theorem routed_iff (h : m.env.Complete) : m.Routed ↔ ∀ i, isSpi i = true →
    m.spiTarget i = m.irouterTargetVcpu (m.spiRouter (i - localIrqNum)) := by
  refine ⟨fun hr i hi => ?_, fun hr v i hi => ?_⟩
  · rw [← irouterReadback_eq, ← irqTargetVcpu_eq hi h]
    exact hr 0 i hi
  · rw [irouterReadback_eq, irqTargetVcpu_eq hi h]
    exact hr i hi

/-! ## The step -/

/-- The property as accesses see it: what they may still ask for goes with the routes. -/
def Routing (ask : Nat → Nat → Prop) (m : Vm) : Prop :=
  m.env.Complete ∧
    (∀ i, isSpi i = true → m.spiTarget i = m.irouterTargetVcpu (m.spiRouter (i - localIrqNum))) ∧
    ∀ i t, ask i t → isSpi i = true →
      m.validTargetVcpu t = m.irouterTargetVcpu (m.spiRouter (i - localIrqNum))

theorem Routing.of_same (h : Routing ask m) (he : m.env.Fixed m'.env)
    (ht : ∀ i, isSpi i = true → m'.target 0 i = m.target 0 i) (hr : m'.spiRouter = m.spiRouter) :
    Routing ask m' := by
  refine ⟨h.1.fixed he, fun i hi => ?_, fun i t hask hi => ?_⟩
  · rw [hr, irouterTargetVcpu_congr he.vcpuCount, ← h.2.1 i hi, spiTarget, spiTarget,
      ht i hi, validTargetVcpu_congr he.vcpuCount]
  · rw [hr, irouterTargetVcpu_congr he.vcpuCount, validTargetVcpu_congr he.vcpuCount]
    exact h.2.2 i t hask hi

theorem Routing.route (h : Routing ask m) (hno : ∀ i t, ¬ ask i t) (hi : isSpi i = true)
    (he : m'.env = m.env) (ht : m'.target = m.target)
    (hr : m'.spiRouter = Function.update m.spiRouter (i - localIrqNum) r) :
    Routing ask (m'.setSpiTarget i (m'.irouterTargetVcpu r)) := by
  have henv : (m'.setSpiTarget i (m'.irouterTargetVcpu r)).env = m.env := setSpiTarget_env.trans he
  have hm' : 0 < m'.env.vcpuCount := by
    rw [he]
    exact h.1.2
  refine ⟨by rw [henv]; exact h.1, fun j hj => ?_, fun j t hask _ => absurd hask (hno j t)⟩
  have hdecode : ∀ x, (m'.setSpiTarget i (m'.irouterTargetVcpu r)).irouterTargetVcpu x =
      m'.irouterTargetVcpu x := fun _ => irouterTargetVcpu_congr (by rw [setSpiTarget_env])
  rw [hdecode, setSpiTarget_router, hr]
  by_cases hij : i = j
  · subst hij
    rw [setSpiTarget_self hi hm', Function.update_self]
    exact if_pos (irouterTargetVcpu_lt hm')
  have hne : j - localIrqNum ≠ i - localIrqNum := by
    simp only [isSpi, Bool.and_eq_true, decide_eq_true_eq] at hi hj
    omega
  have hother : m'.spiTarget j = m.spiTarget j := by
    rw [spiTarget, spiTarget, ht, validTargetVcpu, validTargetVcpu, he]
  rw [setSpiTarget_other hij, Function.update_of_ne hne, hother, h.2.1 j hj]
  exact (irouterTargetVcpu_congr (by rw [he])).symm

/-- `IROUTER` may be written with anything, `ITARGETSR` with what the routes say. -/
theorem routing_closed : SpiClosed ask (∀ i t, ¬ ask i t) (Routing ask) where
  kept h hk := h.of_same hk.fixed (hk.target 0) hk.router
  config h hm := hm.of_same (.refl _) (fun _ _ => rfl) rfl
  target {m i t} hask h := by
    cases hi : isSpi i with
    | false =>
      rw [setSpiTarget_of_not hi]
      exact h
    | true =>
      have hcount : (m.setSpiTarget i t).env.vcpuCount = m.env.vcpuCount := by
        rw [setSpiTarget_env]
      refine ⟨by rw [setSpiTarget_env]; exact h.1, fun j hj => ?_, fun j t' hask' hj => ?_⟩
      · rw [setSpiTarget_router, irouterTargetVcpu_congr hcount]
        by_cases hij : i = j
        · subst hij
          rw [setSpiTarget_self hi h.1.2]
          exact h.2.2 i t hask hi
        · rw [setSpiTarget_other hij]
          exact h.2.1 j hj
      · rw [setSpiTarget_router, irouterTargetVcpu_congr hcount, validTargetVcpu_congr hcount]
        exact h.2.2 j t' hask' hj
  irouter hno hi h := h.route hno hi rfl rfl rfl

/-- An access does not reach both registers. -/
theorem Mmio.not_asks_of_writesRouter {req w w' : Mmio} (hw : w ∈ req.words) (hw' : w' ∈ req.words)
    (ha : w.Asks cfg i t) (hr : w'.WritesRouter cfg) : False := by
  have hoff : 0x6000 ≤ w'.gicdOffset cfg := by
    have := hr.2
    rw [decodeIrouterReg] at this
    split at this
    · next h => exact h.1
    · cases this
  have h1 := ha.first
  have h2 := ha.last
  have hin : ∀ {x : Mmio}, x.writesGicd cfg = true → cfg.gicdBase ≤ x.address := by
    intro x hx
    simp only [Mmio.writesGicd, addrInRange, Bool.and_eq_true, decide_eq_true_eq] at hx
    exact hx.1.1.2
  have hb := hin ha.writes
  have hb' := hin hr.1
  rw [Mmio.words] at hw hw'
  split at hw
  · next hs =>
    rw [if_pos hs] at hw'
    rw [List.mem_singleton.mp hw] at h2
    rw [List.mem_singleton.mp hw'] at hoff
    omega
  · next hs =>
    rw [if_neg hs] at hw'
    simp only [List.mem_cons, List.not_mem_nil, or_false] at hw hw'
    rcases hw with rfl | rfl <;> rcases hw' with rfl | rfl <;>
      simp only [Mmio.gicdOffset, lowReq, highReq] at h1 h2 hoff hb hb' <;> omega

theorem routed_step (hm : m.env.Complete) (h : m.Routed) (hok : a.Follows cfg m)
    (hs : Step cfg a m m') : m'.Routed := by
  have hr := (routed_iff hm).mp h
  have hnone : Routing (fun _ _ => False) m := ⟨hm, hr, fun _ _ h => h.elim⟩
  cases ha : a.isAccess with
  | false =>
    have h' : Routing (fun _ _ => False) m' := by
      by_cases hinj : ∃ c v virq level, a = .inject c v virq level
      · obtain ⟨c, v, virq, level, rfl⟩ := hinj
        cases hs with
        | inject => exact hnone.of_same (.refl _) (fun _ _ => rfl) rfl
      · exact routing_closed.kept hnone (.of_step hs ha fun c v virq level heq =>
          absurd ⟨c, v, virq, level, heq⟩ hinj)
    exact (routed_iff h'.1).mpr h'.2.1
  | true =>
    cases hs with
    | @mmio _ v req mem lines =>
      let ask : Nat → Nat → Prop := fun i t => ∃ w ∈ req.words, w.Asks cfg i t
      have hask : Routing ask m := by
        refine ⟨hm, hr, fun i t hit hi => ?_⟩
        obtain ⟨w, hw, hasks⟩ := hit
        rw [← irouterReadback_eq]
        exact hok w hw i t hasks hi
      have hno : ∀ w ∈ req.words, w.WritesRouter cfg → ∀ i t, ¬ ask i t := by
        intro w hw hwr i t hit
        obtain ⟨w', hw', hasks⟩ := hit
        exact Mmio.not_asks_of_writesRouter hw' hw hasks hwr
      have h' : Routing ask (m.mmioHandler cfg mem lines v req).vm :=
        routing_closed.mmioHandler (fun w hw i t hasks => ⟨w, hw, hasks⟩) hno hask
      exact (routed_iff h'.1).mpr h'.2.1
    | _ => cases ha

/-! ## The run -/

theorem routed_start (b : Board) : b.start.Routed := by
  rw [routed_iff ⟨rfl, b.vcpuCount_pos⟩]
  intro i _
  have htarget : b.start.target 0 i = 0 := by
    show (if i < localIrqNum ∨ isLpi i = true then 0 else 0) = 0
    split <;> rfl
  have hroute : b.start.irouterTargetVcpu 0 = 0 := by
    rw [irouterTargetVcpu]
    split <;> rfl
  show b.start.spiTarget i = b.start.irouterTargetVcpu 0
  rw [hroute, spiTarget, htarget, validTargetVcpu]
  split <;> rfl

theorem writeIrqTarget_spiTarget (hn : 0 < m.env.vcpuCount) (irqBase size : Nat)
    (value : BitVec 64) (hi : isSpi i = true) : (m.writeIrqTarget irqBase size value).spiTarget i =
      if irqBase ≤ i ∧ i < irqBase + size then
        m.validTargetVcpu (targetOfMask (byteAt value (i - irqBase))) else m.spiTarget i := by
  induction size with
  | zero => rw [if_neg (by omega)]; rfl
  | succ size ih =>
    have hfirst : m.writeIrqTarget irqBase (size + 1) value =
        (m.writeIrqTarget irqBase size value).setSpiTarget (irqBase + size)
          (targetOfMask (byteAt value size)) := by
      rw [writeIrqTarget, List.range_succ, List.foldl_append]
      rfl
    have henv : (m.writeIrqTarget irqBase size value).env = m.env := writeIrqTarget_env
    rw [hfirst]
    by_cases hlast : irqBase + size = i
    · subst hlast
      rw [setSpiTarget_self hi (by rw [henv]; exact hn), if_pos (by omega),
        Nat.add_sub_cancel_left]
      exact validTargetVcpu_congr (by rw [henv])
    · rw [setSpiTarget_other hlast, ih]
      exact if_congr (by omega) rfl rfl

theorem writeIrqTarget_router {irqBase size : Nat} {value : BitVec 64} :
    (m.writeIrqTarget irqBase size value).spiRouter = m.spiRouter :=
  List.foldlRecOn (motive := fun m' : Vm => m'.spiRouter = m.spiRouter) _ _ rfl
    fun _ h _ _ => setSpiTarget_router.trans h

/-- In every run that writes `ITARGETSR` only with the vCPU that the route of an SPI decodes
to, every SPI is delivered to the vCPU that its route decodes to, as the guest reads it
back. From there, a write to `ITARGETSR` keeps this exactly if it is such a write. -/
theorem irouter_reads_back (hrun : GuardedRun (Step cfg) (Label.Follows cfg) b.start tr m) :
    m.Routed ∧
    ∀ irqBase size value, (m.writeIrqTarget irqBase size value).Routed ↔
      ∀ byte < size, isSpi (irqBase + byte) = true →
        m.validTargetVcpu (targetOfMask (byteAt value byte)) =
          m.irouterTargetVcpu (m.irouterReadback (irqBase + byte)) := by
  have hm := complete_run hrun
  have hrouted : m.Routed := by
    clear hm
    induction hrun with
    | nil => exact routed_start b
    | cons hprev hok hs ih => exact routed_step (complete_run hprev) ih hok hs
  refine ⟨hrouted, fun irqBase size value => ?_⟩
  have henv : (m.writeIrqTarget irqBase size value).env = m.env := writeIrqTarget_env
  have hm' : (m.writeIrqTarget irqBase size value).env.Complete := by
    rw [henv]
    exact hm
  have hcount : (m.writeIrqTarget irqBase size value).env.vcpuCount = m.env.vcpuCount := by
    rw [henv]
  rw [routed_iff hm']
  have hgoes : ∀ i, isSpi i = true → ((m.writeIrqTarget irqBase size value).spiTarget i =
      (m.writeIrqTarget irqBase size value).irouterTargetVcpu
        ((m.writeIrqTarget irqBase size value).spiRouter (i - localIrqNum)) ↔
      (irqBase ≤ i ∧ i < irqBase + size →
        m.validTargetVcpu (targetOfMask (byteAt value (i - irqBase))) =
          m.irouterTargetVcpu (m.irouterReadback i))) := by
    intro i hi
    rw [writeIrqTarget_spiTarget hm.2 irqBase size value hi, writeIrqTarget_router,
      irouterTargetVcpu_congr hcount, irouterReadback_eq]
    split
    · next hcov => exact ⟨fun h _ => h, fun h => h hcov⟩
    · next hcov => exact iff_of_true ((routed_iff hm).mp hrouted i hi) fun h => absurd h hcov
  constructor
  · intro h byte hb hi
    have := (hgoes _ hi).mp (h _ hi) ⟨by omega, by omega⟩
    rwa [Nat.add_sub_cancel_left] at this
  intro h i hi
  refine (hgoes i hi).mpr fun hcov => ?_
  have hpos : irqBase + (i - irqBase) = i := by omega
  have := h (i - irqBase) (by omega) (by rw [hpos]; exact hi)
  rwa [hpos] at this

/-! ### An SPI for vCPU 1 -/

/-- The guest routes `SPI 40` to vCPU 1 by `GICD_IROUTER40`. -/
def towardsOne : Vm :=
  (runningVm.mmioHandler twoFrames (fun _ => none) (fun _ _ _ => false) 0 (gicdWord 0x6140 1)).vm

/-- The guest asks for it by the byte in `GICD_ITARGETSR10`. -/
def retargetedVm : Vm :=
  (runningVm.mmioHandler twoFrames (fun _ => none) (fun _ _ _ => false) 0
    { gicdWord 0x828 2 with size := 1 }).vm

theorem runningVm_follows : GuardedRun (Step twoFrames) (Label.Follows twoFrames)
    twoVcpus.start [.enter 0, .load 0] runningVm :=
  play_run [.load 0, .enter 0] ⟨⟨by decide, trivial⟩, ⟨by decide, trivial⟩, trivial⟩

theorem irouter_reads_back_one : towardsOne.irqTargetVcpu 0 40 = 1 ∧ towardsOne.Routed := by
  have hfollows : Label.Follows twoFrames (.mmio 0 (gicdWord 0x6140 1)) runningVm := by
    intro w hw i t hasks _
    have hword : w = gicdWord 0x6140 1 := by
      exact List.mem_singleton.mp hw
    subst hword
    exact absurd hasks.last (by decide)
  have hs : Step twoFrames (.mmio 0 (gicdWord 0x6140 1)) runningVm towardsOne :=
    .mmio _ _ (by decide) (by decide)
  exact ⟨by decide +kernel, (irouter_reads_back (runningVm_follows.cons hfollows hs)).1⟩

/-- Delivery goes to vCPU 1 then, and the route that reads back is that of vCPU 0. -/
theorem irouter_reads_back_stale :
    Reachable twoFrames twoVcpus retargetedVm ∧ retargetedVm.irqTargetVcpu 0 40 = 1 ∧
      retargetedVm.irouterTargetVcpu (retargetedVm.irouterReadback 40) = 0 := by
  have hs : Step twoFrames (.mmio 0 { gicdWord 0x828 2 with size := 1 }) runningVm
      retargetedVm := .mmio _ _ (by decide) (by decide)
  refine ⟨⟨_, .cons (runningVm_follows.mono fun _ => trivial) trivial hs⟩, ?_, ?_⟩ <;>
    decide +kernel

end Sima.Vgic
