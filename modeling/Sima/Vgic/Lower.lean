import Sima.Vgic.Quiet

/-!
# A line that goes low

`arch_trigger_level_intr(vm, irq, false)` lowers an SPI in the row of every vCPU, one
call of `arm64_vgicv3_deassert_irq` for each, and each under the lock on its own. A
note beside the state remembers the rows that have been lowered since the SPI was last
asserted; when all of them have, the SPI should be pending nowhere.

It is, unless the row's list registers were out of reach. A deassert from another
physical CPU skips the sync of a vCPU that runs, lowers the descriptor and takes the
list register out of the saved context — and at its next exit the vCPU reads the list
register back from the hardware, still pending, and the flush writes it out again.
Nothing looks at the descriptor: a level that is pending in a list register is taken
at its word.

So the rows are lowered cleanly if each is either at hand, or not in the hardware, or
in the hardware without the SPI pending. The other thing that may not happen is a
re-route between two of the calls, which can carry the pending state from a row that
is still to be lowered into one that already was.
-/

namespace Sima.Vgic

open Lib
open Function (update update_of_ne)

/-- The rows lowered since the last assertion. -/
abbrev Lowered := Vid → Bool

def noteLowered (cfg : GicConfig) (virq : Nat) : Label → Vm → Lowered → Lowered
  | .deassert _ v i, _, low => if i = virq then update low v true else low
  | .inject _ _ i _, _, low => if i = virq then fun _ => false else low
  | .mmio _ req, _, low => if req.pends cfg virq then fun _ => false else low
  | _, _, low => low

/-- A row is lowered where the hardware cannot bring the interrupt back, and no route
is written between the first and the last row. -/
def LowersCleanly (cfg : GicConfig) (virq : Nat) : Label → Vm × Lowered → Prop
  | .deassert c v i, (m, _) => i = virq → (m.env.phase v).live = true →
      m.env.vcpuIsLoaded c v = true ∨
        ¬ ((m.core.ich v).table m.env.lrCount).Any (Lr.PendingOf virq)
  | .mmio _ req, (m, low) => req.routes cfg virq = true →
      (∀ v < m.env.vcpuCount, low v = false) ∨ ∀ v < m.env.vcpuCount, low v = true
  | _, _ => True

variable {cfg : GicConfig} {b : Board} {virq i : Nat} {T H : Vid → Prop} {m m' : Vm} {a : Label}
  {v : Vid} {c : Caller} {e : Env} {s : Core} {tr : List Label} {x : Vm × Lowered} {low : Lowered}

/-! ## Re-routes -/

variable (hS : isSpi virq = true)

include hS

/-- A re-route of an SPI that is quiet wherever it may come from. -/
theorem QuietIn.setSpiTarget {t : Nat} (he : m.env = e) (hn : 0 < e.vcpuCount)
    (hT : i = virq → (∀ w, ¬ T w) ∨ ∀ w < e.vcpuCount, T w) (h : QuietIn false virq T e m.core) :
    QuietIn false virq T e (m.setSpiTarget i t).core := by
  subst he
  rw [Vm.setSpiTarget]
  split
  · dsimp only
    split
    · exact h
    refine Closed.moveIrq (quietIn_closed (spi_ne_timer hS) m.env) (fun hp hi hnew => ?_)
      (by simp) h
    subst hi
    rcases hT rfl with hnone | hall
    · exact hnone _ hnew
    · rw [h.pending _ (hall _ (spiTarget_lt hn))] at hp
      cases hp
  · exact h

theorem lowered_kept {n : Nat} (hn : 0 < n) :
    Kept (fun _ w i => i = virq → ¬ T w) (fun _ w i => false = true → i = virq → ¬ T w)
      (fun i => i = virq → ∀ w, ¬ T w) (fun i => i = virq → (∀ w, ¬ T w) ∨ ∀ w < n, T w)
      (fun m => m.env.vcpuCount = n ∧ QuietIn false virq T m.env m.core) := by
  refine QuietIn.kept (T := fun _ => T) hS
    (fun hf he => hf.vcpuCount.trans he) (fun hp => hp rfl) (by simp) ?_
  intro m m' i t he hm hr h
  exact h.setSpiTarget hS he (hm.symm ▸ hn) (hm.symm ▸ hr)

/-- A step that neither asserts the SPI nor moves it about keeps the rows quiet. -/
theorem QuietIn.step (hn : 0 < m.env.vcpuCount) (hs : Step cfg a m m')
    (hinj : ∀ c v level, a ≠ .inject c v virq level)
    (hp : ∀ v req, a = .mmio v req → req.pends cfg virq = false)
    (hr : ∀ v req, a = .mmio v req → req.routes cfg virq = true →
      (∀ w, ¬ T w) ∨ ∀ w < m.env.vcpuCount, T w) (h : QuietIn false virq T m.env m.core) :
    QuietIn false virq T m'.env m'.core := by
  refine ((lowered_kept hS hn).step hs (fun c v i level he hi => ?_)
    (fun v req i he _ hpi hi => ?_) (fun v req i he hri hi => ?_) ⟨rfl, h⟩).2
  · exact absurd (hi ▸ he) (hinj c v level)
  · rw [hi, hp v req he] at hpi
    cases hpi
  · exact hr v req he (hi ▸ hri)

omit hS

/-! ## Lowering a row -/

theorem updateIrqLr_irq : (s.updateIrqLr v i).irq = s.irq := by
  rw [Core.updateIrqLr]
  split <;> rfl

/-- A descriptor that is not pending takes its list register along. -/
theorem QuietIn.update (hS : virq ≠ ppiVirtualTimer) (hone : (s.ctx v).lrs.Once (Lr.Of virq))
    (hlow : (s.irq v virq).pending = false) (h : Quiet e.lrCount false virq T H s) :
    Quiet e.lrCount false virq (fun w => T w ∨ w = v) H (s.updateIrqLr v virq) := by
  have K : Closed e.lrCount v (fun i => i = virq → ¬ T v)
      (fun i => false = true → i = virq → ¬ T v) (fun _ => False) False
      (Quiet e.lrCount false virq T H) :=
    Quiet.closed hS (fun _ => False.elim) False.elim fun _ => id
  refine .extend (K.updateIrqLr h) ?_ (by simp) ?_
  · rw [updateIrqLr_irq]
    exact hlow
  · exact h.updateIrqLr hone hlow fun hk => by cases hk

/-- The row of `v` once its descriptor is lowered and its list register updated. -/
theorem QuietIn.lower (hS : virq ≠ ppiVirtualTimer)
    (hd : Distinct e.lrCount (· ≠ ppiVirtualTimer) (fun _ => True) (fun _ => False) s)
    (h : Quiet e.lrCount false virq T H s) : Quiet e.lrCount false virq (fun w => T w ∨ w = v) H
      ((s.setPending v virq false).updateIrqLr v virq) := by
  refine QuietIn.update hS (hd.setPending.ctx v trivial virq hS) ?_
    (h.setPending fun hb => by cases hb)
  rw [Core.setPending_pending, if_pos ⟨rfl, rfl⟩]

/-- A deassert makes its row quiet, if the hardware of the row is at hand or has
nothing to say. -/
theorem QuietIn.deassertIrq {line : Samples} (hS : isSpi virq = true)
    (hdesc : e.hasDesc v virq = true) (hl : e.vcpuIsLoaded c v = true → (e.phase v).live = true)
    (hclean : (e.phase v).live = true → e.vcpuIsLoaded c v = true ∨
      ¬ ((s.ich v).table e.lrCount).Any (Lr.PendingOf virq)) (hd : OthersDistinct e s)
    (h : QuietIn false virq T e s) :
    QuietIn false virq (fun w => T w ∨ w = v) e (s.deassertIrq e line c v virq) := by
  have hds : Distinct e.lrCount (· ≠ ppiVirtualTimer) (fun _ => True) (fun _ => False)
      (s.syncVcpu e line c false v) := by
    have K := (Distinct.closed (n := e.lrCount) (I := (· ≠ ppiVirtualTimer))
      (V := fun _ => True) (H := fun w => (e.phase w).live = true)
      (fun _ h hl _ => h.ich v hl) (fun _ _ => ⟨trivial, fun h => h rfl⟩)
      fun _ _ => trivial)
    exact (K.syncOther hl hd).mono (fun _ => id) fun _ => False.elim
  rw [Core.deassertIrq, if_pos hdesc]
  by_cases hload : e.vcpuIsLoaded c v = true
  · -- the row is read back, lowered, and written out
    have h1 : QuietIn false virq T e (s.syncVcpu e line c false v) :=
      (quietIn_closed (spi_ne_timer hS) e v).syncOther hl h
    have h2 : Quiet e.lrCount false virq (fun w => T w ∨ w = v)
        (fun w => (T w ∧ (e.phase w).live = true) ∧ w ≠ v) _ :=
      (QuietIn.lower (spi_ne_timer hS) hds h1).mono (fun _ => id) fun _ => And.left
    have K : Closed e.lrCount v (fun i => i = virq → ¬ (T v ∨ v = v))
        (fun i => false = true → i = virq → ¬ (T v ∨ v = v)) (fun _ => False) True
        (Quiet e.lrCount false virq (fun w => T w ∨ w = v)
          fun w => (T w ∧ (e.phase w).live = true) ∧ w ≠ v) :=
      Quiet.closed (T := fun w => T w ∨ w = v)
        (spi_ne_timer hS)
        (fun _ => False.elim) (fun _ hv => absurd rfl hv.2) fun _ _ => trivial
    have h3 := K.flushIfLoaded (fun _ => trivial) (c := c) h2
    refine (h3.fresh (Core.flushIfLoaded_fresh hload) (.inr rfl)).mono (fun _ => id) ?_
    intro w hw
    by_cases hwv : w = v
    · exact .inr hwv
    · exact .inl ⟨⟨hw.1.resolve_right hwv, hw.2⟩, hwv⟩
  · -- the hardware stays as it is
    rw [Core.flushIfLoaded, if_neg hload]
    have hv : (e.phase v).live = true →
        ¬ ((s.ich v).table e.lrCount).Any (Lr.Holds false virq) := by
      intro hlive hany
      refine (hclean hlive).resolve_left hload (hany.mono fun lr hlr => ?_)
      exact ⟨hlr.2, hlr.1⟩
    have h0 : Quiet e.lrCount false virq T
        (fun w => (T w ∨ w = v) ∧ (e.phase w).live = true) s := by
      refine ⟨h.ids, h.pending, h.active, h.ctx, fun w hw => ?_⟩
      rcases hw with ⟨hT | rfl, hlive⟩
      · exact h.ich w ⟨hT, hlive⟩
      · exact hv hlive
    have K : Closed e.lrCount v (fun i => i = virq → ¬ T v)
        (fun i => false = true → i = virq → ¬ T v) (fun _ => False) False
        (Quiet e.lrCount false virq T fun w => (T w ∨ w = v) ∧ (e.phase w).live = true) :=
      Quiet.closed (spi_ne_timer hS) (fun _ => False.elim) False.elim fun _ => id
    exact .lower (spi_ne_timer hS) hds (K.syncOther (fun hc => absurd hc hload) h0)

/-! ## Runs -/

theorem noteLowered_cases (cfg : GicConfig) (virq : Nat) (a : Label) (m : Vm) (low : Lowered) :
    (noteLowered cfg virq a m low = low ∧ (∀ c v level, a ≠ .inject c v virq level) ∧
        ∀ v req, a = .mmio v req → req.pends cfg virq = false) ∨
      noteLowered cfg virq a m low = (fun _ => false) ∨ ∃ c v, a = .deassert c v virq ∧
        noteLowered cfg virq a m low = update low v true := by
  cases a with
  | deassert c v i =>
    by_cases hi : i = virq
    · subst hi
      exact .inr (.inr ⟨c, v, rfl, if_pos rfl⟩)
    · exact .inl ⟨if_neg hi, fun _ _ _ => by simp, fun _ _ => by simp⟩
  | inject c v i level =>
    by_cases hi : i = virq
    · exact .inr (.inl (if_pos hi))
    · refine .inl ⟨if_neg hi, fun _ _ _ he => hi ?_, fun _ _ => by simp⟩
      injection he
  | mmio v req =>
    cases hp : req.pends cfg virq with
    | true => exact .inr (.inl (if_pos hp))
    | false =>
      refine .inl ⟨if_neg (by rw [hp]; decide), fun _ _ _ => by simp, ?_⟩
      intro w req' he
      injection he with _ he
      rw [← he, hp]
  | _ => exact .inl ⟨rfl, fun _ _ _ => by simp, fun _ _ => by simp⟩

theorem quietIn_none (e : Env) (h : Indexed s) :
    QuietIn false virq (fun _ => false = true) e s := by
  refine ⟨h.virq, ?_, ?_, ?_, ?_⟩
  · exact fun _ hw => absurd hw Bool.false_ne_true
  · exact fun _ _ hw => absurd hw Bool.false_ne_true
  · exact fun _ hw => absurd hw Bool.false_ne_true
  · exact fun _ hw => absurd hw.1 Bool.false_ne_true

theorem Board.vcpuCount_pos (b : Board) : 0 < b.vcpuCount :=
  lt_of_lt_of_le zero_lt_one (le_max_right ..)

theorem quietIn_step (hS : isSpi virq = true)
    (hrun : GuardedRun (Step cfg) (fun _ _ => True) b.start tr m)
    (hok : LowersCleanly cfg virq a (m, low)) (hs : Step cfg a m m')
    (hlt : ∀ w, low w = true → w < m.env.vcpuCount)
    (hq : QuietIn false virq (low · = true) m.env m.core) :
    QuietIn false virq (noteLowered cfg virq a m low · = true) m'.env m'.core := by
  have hf := fixed_run hrun
  have hpos : 0 < m.env.vcpuCount := by
    rw [hf.vcpuCount]
    exact b.vcpuCount_pos
  obtain ⟨hn, hinj, hp⟩ | hn | ⟨c, v, rfl, hn⟩ := noteLowered_cases cfg virq a m low
  · rw [hn]
    refine .step hS hpos hs hinj hp (fun v req he hr => ?_) hq
    subst he
    rcases hok hr with hnone | hall
    · refine .inl fun w hw => ?_
      rw [hnone w (hlt w hw)] at hw
      cases hw
    · exact .inr hall
  · rw [hn]
    exact quietIn_none _ (Indexed.step (Indexed.run hrun) hs)
  rw [hn]
  cases hs with
  | deassert line hc hv =>
    have hdesc : m.env.hasDesc v virq = true := by
      have hmax : m.env.vcpuCount ≤ m.env.maxVcpus := by
        rw [hf.vcpuCount, hf.maxVcpus]
        exact b.vcpuCount_le
      rw [isSpi, Bool.and_eq_true] at hS
      rw [Env.hasDesc, hS.2, Bool.true_or, Bool.and_true, decide_eq_true_eq]
      exact lt_of_lt_of_le hv hmax
    have h1 : QuietIn false virq (fun w => low w = true ∨ w = v) m.env
        (m.core.deassertIrq m.env line c v virq) :=
      QuietIn.deassertIrq hS hdesc hc.live (hok rfl) (othersDistinct_run hrun) hq
    refine h1.mono fun w hw => ?_
    by_cases hwv : w = v
    · exact .inr hwv
    · rw [update_of_ne hwv] at hw
      exact .inl hw

theorem noteLowered_lt (hs : Step cfg a m m') (hlt : ∀ w, low w = true → w < m.env.vcpuCount)
    {w : Vid} (hw : noteLowered cfg virq a m low w = true) : w < m.env.vcpuCount := by
  obtain ⟨hn, -, -⟩ | hn | ⟨c, v, rfl, hn⟩ := noteLowered_cases cfg virq a m low
  · exact hlt w (hn ▸ hw)
  · rw [hn] at hw
    cases hw
  rw [hn] at hw
  cases hs with
  | deassert _ _ hv =>
    by_cases hwv : w = v
    · exact hwv ▸ hv
    · rw [update_of_ne hwv] at hw
      exact hlt w hw

theorem quietIn_run (hS : isSpi virq = true)
    (h : GuardedRun (Noted (Step cfg) (noteLowered cfg virq)) (LowersCleanly cfg virq)
      (b.start, fun _ => false) tr x) : QuietIn false virq (x.2 · = true) x.1.env x.1.core ∧
      ∀ w, x.2 w = true → w < x.1.env.vcpuCount := by
  induction h with
  | nil => exact ⟨quietIn_none _ (Indexed.start b), by simp⟩
  | @cons a tr x y hrun hok hs ih =>
    have hf := fixed_run hrun.forget
    have hf' := fixed_run (GuardedRun.cons hrun.forget trivial hs.1)
    rw [hs.2]
    refine ⟨quietIn_step hS hrun.forget hok hs.1 ih.2 ih.1, fun w hw => ?_⟩
    rw [hf'.vcpuCount, ← hf.vcpuCount]
    exact noteLowered_lt hs.1 ih.2 hw

/-- An SPI that has been lowered in the row of every vCPU, each cleanly, and not
asserted since, is pending in no descriptor, in no saved list register, and in none
that the hardware has loaded. -/
theorem lowered_quiet (hS : isSpi virq = true) {tr : List Label} {low : Lowered}
    (hrun : GuardedRun (Noted (Step cfg) (noteLowered cfg virq))
      (LowersCleanly cfg virq) (b.start, fun _ => false) tr (m, low))
    (hall : ∀ v < m.env.vcpuCount, low v = true) :
    ∀ v < m.env.vcpuCount, (m.core.irq v virq).pending = false ∧
      ¬ (m.core.ctx v).lrs.Any (Lr.PendingOf virq) ∧
      ((m.env.phase v).live = true →
        ¬ ((m.core.ich v).table m.env.lrCount).Any (Lr.PendingOf virq)) := by
  intro v hv
  have hq := (quietIn_run hS hrun).1
  have hholds : ∀ lr : Lr, lr.PendingOf virq → lr.Holds false virq := fun _ => Lr.PendingOf.holds
  refine ⟨hq.pending v (hall v hv), fun ha => hq.ctx v (hall v hv) (ha.mono hholds), ?_⟩
  exact fun hlive ha => hq.ich v ⟨hall v hv, hlive⟩ (ha.mono hholds)

/-! ## The line of a device goes low -/

/-- One call of `arm64_vgicv3_deassert_irq` for `SPI 40`, from a physical CPU that is
home to no vCPU. -/
def deasserted (v : Vid) (m : Vm) : Vm :=
  m.modCore fun e s => s.deassertIrq e (fun _ _ => false) none v 40

/-- Lowering a row that is not in the hardware is always clean. -/
theorem lowersCleanly_off (h : (x.1.env.phase v).live = false) :
    LowersCleanly twoFrames 40 (.deassert c v 40) x := by
  intro _ hl
  rw [h] at hl
  cases hl

/-- `SPI 40` is in a list register of vCPU 0 and is lowered from there, and then in the
row of vCPU 1. -/
def quietScript : List Label :=
  pendingTrace.reverse ++ [.deassert (some 0) 0 40, .deassert none 1 40]

theorem lowered_quiet_loaded :
    ((pendingVm.core.ich 0).table pendingVm.env.lrCount).Any (Lr.PendingOf 40) ∧ ∃ m low,
      GuardedRun (Noted (Step twoFrames) (noteLowered twoFrames 40)) (LowersCleanly twoFrames 40)
        (twoVcpus.start, fun _ => false) quietScript.reverse (m, low) ∧
      (m.env.phase 0).live = true ∧
      ¬ ((m.core.ich 0).table m.env.lrCount).Any (Lr.PendingOf 40) := by
  have hclean : Meets (fun a x => (a.play x.1, noteLowered twoFrames 40 a x.1 x.2))
      (fun a x => a.can x.1 = true ∧ LowersCleanly twoFrames 40 a x)
      (twoVcpus.start, fun _ => false) quietScript :=
    ⟨⟨by decide, trivial⟩, ⟨by decide, trivial⟩,
      ⟨by decide +kernel, fun hr => absurd hr (by decide)⟩,
      ⟨by decide +kernel, trivial⟩, ⟨by decide +kernel, trivial⟩,
      ⟨by decide +kernel, fun _ _ => .inl (by decide +kernel)⟩,
      ⟨by decide +kernel, lowersCleanly_off (by decide +kernel)⟩, trivial⟩
  have hrun := play_noted _ hclean
  refine ⟨⟨0, by decide +kernel, by decide +kernel, by decide +kernel⟩, _, _, hrun,
    by decide +kernel, ?_⟩
  exact (lowered_quiet (by decide) hrun (by decide +kernel) 0 (by decide +kernel)).2.2
    (by decide +kernel)

/-- `SPI 40` is in a list register of vCPU 0, which runs, when another physical CPU
lowers it in both rows. -/
def loweredVm : Vm := deasserted 1 (deasserted 0 pendingVm)

/-- vCPU 0 exits, is synced and flushed; vCPU 1 is switched in and does the same. -/
def spuriousVm : Vm :=
  (((((loweredVm.modCore fun e s => s.syncFlush e (fun _ _ => false) 0).modCore fun e s =>
    s.loadVcpu e 1).setPhase 1 .loading).setPhase 1 .running).modCore fun e s =>
      s.syncFlush e (fun _ _ => false) 1)

def spuriousTrace : List Label :=
  [.service 1, .enter 1, .load 1, .service 0, .deassert none 1 40, .deassert none 0 40] ++
    pendingTrace

/-- The descriptors are low, and the list register is still pending: in the context and
in the hardware, from where the guest takes it. -/
theorem lowered_spurious :
    GuardedRun (Step twoFrames) (fun _ _ => True) twoVcpus.start spuriousTrace spuriousVm ∧
      (spuriousVm.core.irq 0 40).pending = false ∧
      (spuriousVm.core.ctx 0).lrs.Any (Lr.PendingOf 40) ∧
      ((spuriousVm.core.ich 0).table spuriousVm.env.lrCount).Any (Lr.PendingOf 40) :=
  ⟨play_run spuriousTrace.reverse (by decide +kernel), by decide +kernel,
    ⟨0, by decide +kernel, by decide +kernel, by decide +kernel⟩,
    ⟨0, by decide +kernel, by decide +kernel, by decide +kernel⟩⟩

end Sima.Vgic
