import Sima.Vgic.Flush
import Sima.Vgic.Lower

/-!
# The list registers in the hardware and the ones in the context

While a vCPU is loaded its list registers exist twice. The guest changes the ones in
the hardware, the hypervisor works on the copy in the context, and the two meet when
a call on the vCPU's own physical CPU gets to its flush, which writes out every slot
and clears the ones behind.

A sync is only the other half. It reads the hardware, and then takes entries out of the
copy and moves the last one into their place; none of that is in the hardware until
the flush that follows under the same lock. The calls that have nothing to do to the
list registers — a read of a CPU interface register, a query, a refresh of a line that
is low — neither read nor write them, so they return with whatever the guest has made
of them since.

So what a call owes is this: if it changes the copy, or if it is one of the calls that
flush anyway, the two agree when it returns.
-/

namespace Sima.Vgic

open Lib Core

/-- The hardware has the list registers of the context, and none behind them. -/
structure Core.Mirrored (n : Nat) (v : Vid) (s : Core) : Prop where
  fits : (s.ctx v).lrs.used ≤ n
  same : ∀ idx < (s.ctx v).lrs.used, (s.ich v).lr idx = (s.ctx v).lrs.slot idx
  rest : ∀ idx < n, (s.ctx v).lrs.used ≤ idx → ((s.ich v).lr idx).state = .invalid

variable {v : Vid}

theorem Core.Fresh.mirrored {n : Nat} {s : Core} (h : Core.Fresh n v s)
    (hused : (s.ctx v).lrs.used ≤ n) : Core.Mirrored n v s where
  fits := hused
  same idx hidx := by rw [h idx (lt_of_lt_of_le hidx hused), if_pos hidx]
  rest idx hidx hle := by rw [h idx hidx, if_neg (Nat.not_lt_of_le hle)]

/-- The calls that the physical CPU of a vCPU makes while the vCPU is loaded there. -/
def Label.OwnCall (v : Vid) : Label → Prop
  | .inject c .. | .injectTo c .. | .injectMsi c .. | .clear c .. | .deassert c ..
  | .hasPending c _ | .flush c _ => c = some v
  | .mmio w _ | .cpuif w .. | .service w | .timerLine w _ | .refreshLevel w _
  | .completeWfi w | .flushCurrent w | .stop w _ => w = v
  | _ => False

/-- The ones among them that flush the vCPU whatever they find: what they work on is
the vCPU, and it has what they ask for. -/
def Label.Flushes (v : Vid) (m : Vm) : Label → Prop
  | .inject _ u virq _ => m.irqTargetVcpu u virq = v
  | .injectTo _ t _ _ => t = v
  | .clear _ w virq | .deassert _ w virq => w = v ∧ m.env.hasDesc v virq = true
  | .flush _ w => w = v
  | .cpuif _ r _ => r ≠ .rpr
  | .refreshLevel _ virq => virq < irqNum ∧ (m.core.irq v virq).level = true ∧
      (m.core.irq v virq).pending = true
  | .service _ | .timerLine .. | .completeWfi _ | .flushCurrent _ | .stop .. => True
  | _ => False

/-! ## What a call leaves in its row -/

theorem lrsChanged_of_same {x y : Ctx} (hl : x.lrs = y.lrs) (hh : x.hcr = y.hcr) :
    Vm.lrsChanged x y = false := by
  simp [Vm.lrsChanged, hl, hh]

section

variable {e : Env} {v t : Vid} {s s' : Core} {c : Caller} {i : Nat} {line : Samples}

/-- A call that does nothing or writes everything out. -/
theorem Core.fresh_of_changed (h : s' = s ∨ Core.Fresh e.lrCount v s')
    (hc : Vm.lrsChanged (s'.ctx v) (s.ctx v) = true) : Core.Fresh e.lrCount v s' := by
  rcases h with rfl | hfresh
  · rw [lrsChanged_of_same rfl rfl] at hc
    cases hc
  · exact hfresh

/-- A call on the row of `t`, made on the physical CPU of `v`: on another row it leaves
the copy alone, and on its own it does nothing or writes everything out. -/
theorem Core.fresh_of_call {F : Prop} (hs : Indexed s) (hr : Core.Runs e (some v) t s s')
    (hF : F → t = v) (hflush : t = v → F → Core.Fresh e.lrCount v s')
    (hown : t = v → s' = s ∨ Core.Fresh e.lrCount v s')
    (hp : F ∨ Vm.lrsChanged (s'.ctx v) (s.ctx v) = true) : Core.Fresh e.lrCount v s' := by
  rcases hp with hf | hchanged
  · exact hflush (hF hf) hf
  by_cases htv : t = v
  · exact fresh_of_changed (hown htv) hchanged
  have hrow : SameRow v s s' :=
    hr (SameRow.closed (Ne.symm htv)) (fun _ => trivial) ⟨hs.virq, rfl, rfl, rfl⟩
  rw [hrow.ctx, lrsChanged_of_same rfl rfl] at hchanged
  cases hchanged

theorem Core.queryCpuif_unchanged :
    Vm.lrsChanged ((s.queryCpuif e c t).ctx v) (s.ctx v) = false := by
  rw [queryCpuif]
  split
  · by_cases hvt : v = t
    · subst hvt
      rw [modCtx_self]
      exact lrsChanged_of_same rfl rfl
    · rw [modCtx_other s t _ hvt]
      exact lrsChanged_of_same rfl rfl
  · exact lrsChanged_of_same rfl rfl

variable (hl : e.vcpuIsLoaded c v = true)

include hl

variable (hd : e.hasDesc v i = true)

include hd

theorem Core.injectLocked_flushes {level : Bool} :
    Core.Fresh e.lrCount v (s.injectLocked e line c v i level) := by
  rw [injectLocked, if_pos hd]
  exact flushIfLoaded_fresh hl

theorem Core.clearIrq_flushes : Core.Fresh e.lrCount v (s.clearIrq e line c v i) := by
  rw [clearIrq, if_pos hd]
  exact flushIfLoaded_fresh hl

theorem Core.deassertIrq_flushes : Core.Fresh e.lrCount v (s.deassertIrq e line c v i) := by
  rw [deassertIrq, if_pos hd]
  exact flushIfLoaded_fresh hl

omit hd

omit hl

theorem Core.refreshCurrentLevelIrq_flushes (hi : i < irqNum) (hd : e.hasDesc v i = true)
    (hlevel : (s.irq v i).level = true) (hp : (s.irq v i).pending = true) :
    Core.Fresh e.lrCount v (s.refreshCurrentLevelIrq e line v i) := by
  rw [refreshCurrentLevelIrq, if_pos ⟨hi, hd, hlevel, hp⟩]
  exact flushCurrent_fresh

/-- A write to a CPU interface register, but to the one that only reads. -/
theorem Core.cpuifWrite_flushes {r : Core.Sysreg} {val : BitVec 64} (hr : r ≠ .rpr) :
    Core.Fresh e.lrCount v (s.cpuifWrite e line v r val) := by
  rw [cpuifWrite]
  split
  · exact flushCurrent_fresh
  rename_i hnone
  split
  · exact flushCurrent_fresh
  rename_i hdir
  -- every other register has a control to write
  cases r with
  | dir => exact absurd rfl hdir
  | rpr => exact absurd rfl hr
  | igrpen1 =>
    rw [controlWrite] at hnone
    split at hnone <;> cases hnone
  | _ => cases hnone

/-- The handler of a guest access flushes the vCPU if the copy is not what it was
before the sync. -/
theorem Vm.mmioHandler_changed {cfg : GicConfig} {mem : Vm.GuestMem}
    {lines : Nat → Samples} {req : Mmio} {m : Vm}
    (h : Vm.lrsChanged ((m.mmioHandler cfg mem lines v req).vm.core.ctx v) (m.core.ctx v) = true) :
    Core.Fresh (m.mmioHandler cfg mem lines v req).vm.env.lrCount v
      (m.mmioHandler cfg mem lines v req).vm.core := by
  revert h
  rw [Vm.mmioHandler]
  split
  · exact fun _ => flushCurrent_fresh
  · next hsame => exact fun h => absurd h hsame

end

/-! ## The steps -/

/-- A call on the physical CPU of a vCPU that is loaded there leaves the hardware with
the list registers of the context, if it is one that flushes or if it has changed them. -/
theorem Vm.fresh_of_step {cfg : GicConfig} {m m' : Vm} {a : Label} (hi : Indexed m.core)
    (hdesc : ∀ virq < irqNum, m.env.hasDesc v virq = true) (hv : m.env.phase v = .running)
    (hs : Step cfg a m m') (ha : a.OwnCall v)
    (hp : a.Flushes v m ∨ Vm.lrsChanged (m'.core.ctx v) (m.core.ctx v) = true) :
    Core.Fresh m'.env.lrCount v m'.core := by
  have hload := loaded_of_running hv
  have hunchanged : ∀ {P} {x y}, Vm.lrsChanged x y = false →
      Vm.lrsChanged x y = true → P := fun h h' => by rw [h] at h'; cases h'
  cases hs with
  | @inject _ c u virq level line _ _ hlt =>
    obtain rfl := ha
    refine fresh_of_call hi (fun K => K.injectLocked trivial) id ?_ ?_ hp
    · intro ht _
      exact ht.symm ▸ injectLocked_flushes hload (hdesc _ hlt)
    · intro ht
      exact ht.symm ▸ injectLocked_fresh hload
  | @injectTo _ c t virq level line _ _ hlt =>
    obtain rfl := ha
    have hirq : virq < irqNum := lt_of_lt_of_le hlt (by decide)
    refine fresh_of_call hi (fun K => K.injectLocked trivial) id ?_ ?_ hp
    · rintro rfl _
      exact injectLocked_flushes hload (hdesc _ hirq)
    · rintro rfl
      exact injectLocked_fresh hload
  | @injectMsi _ c deviceId eventId line hc =>
    obtain rfl := ha
    obtain ⟨he, hcore | ⟨t, i, hcore⟩⟩ := injectFound_core m line (some v) deviceId eventId
    · rw [hcore] at hp
      exact hp.elim False.elim (hunchanged (lrsChanged_of_same rfl rfl))
    rw [he, hcore]
    rw [hcore] at hp
    refine fresh_of_call hi (fun K => K.injectLocked trivial) False.elim
      (fun _ => False.elim) ?_ hp
    rintro rfl
    exact injectLocked_fresh hload
  | clear line =>
    obtain rfl := ha
    refine fresh_of_call hi (fun K => K.clearIrq) And.left ?_ ?_ hp
    · rintro rfl hf
      exact clearIrq_flushes hload hf.2
    · rintro rfl
      exact clearIrq_fresh hload
  | deassert line =>
    obtain rfl := ha
    refine fresh_of_call hi (fun K => K.deassertIrq) And.left ?_ ?_ hp
    · rintro rfl hf
      exact deassertIrq_flushes hload hf.2
    · rintro rfl
      exact deassertIrq_fresh hload
  | mmio mem lines =>
    obtain rfl := ha
    exact Vm.mmioHandler_changed (hp.resolve_left id)
  | @cpuif _ w r val line =>
    obtain rfl := ha
    by_cases hr : r = .rpr
    · subst hr
      exact hp.elim (fun h => absurd rfl h) (hunchanged (lrsChanged_of_same rfl rfl))
    · exact cpuifWrite_flushes hr
  | service | completeWfi | flushCurrent => exact ha ▸ flushCurrent_fresh
  | timerLine line =>
    obtain rfl := ha
    exact syncCurrentTimerLine_fresh (hdesc _ (by decide))
  | refreshLevel line =>
    obtain rfl := ha
    rcases hp with ⟨hlt, hlevel, hpend⟩ | hchanged
    · exact refreshCurrentLevelIrq_flushes hlt (hdesc _ hlt) hlevel hpend
    · exact fresh_of_changed refreshCurrentLevelIrq_fresh hchanged
  | hasPending => exact hp.elim False.elim (hunchanged queryCpuif_unchanged)
  | flush =>
    obtain rfl := ha
    refine fresh_of_call hi (fun K hL => K.flushVcpu fun hl =>
      K.here (hL (hl.resolve_left (by decide)))) id ?_ ?_ hp
    · rintro rfl _
      exact flushVcpu_fresh (.inr hload)
    · rintro rfl
      exact .inr (flushVcpu_fresh (.inr hload))
  | @stop _ w level line =>
    obtain rfl := ha
    have hfresh : Fresh m.env.lrCount w (m.core.syncCurrentTimerLine m.env line w level) :=
      syncCurrentTimerLine_fresh (hdesc ppiVirtualTimer (by decide))
    exact hfresh
  | load | enter | save | leave | reset | ack | eoi | regs => exact ha.elim

/-- The guest ends the interrupt in a slot. -/
def ended (idx : Nat) (m : Vm) : Vm := m.modCore fun _ s => Vm.eoiSlot 0 idx s

/-- The guest of vCPU 0 enables `SPI 40` and `SPI 41`. -/
def pairVm : Vm :=
  (runningVm.mmioHandler twoFrames (fun _ => none) (fun _ _ _ => false) 0
    (gicdWord 0x104 0x300)).vm

/-- Both are asserted and presented. -/
def presentedVm : Vm := serviced (asserted 41 (asserted 40 pairVm))

/-- The guest takes `SPI 40` and ends it. -/
def endedVm : Vm := ended 0 (taken 0 presentedVm)

def presentedTrace : List Label :=
  [.service 0, .inject none 0 41 true, .inject none 0 40 true,
    .mmio 0 (gicdWord 0x104 0x300), .enter 0, .load 0]

theorem presentedVm_run : GuardedRun (Step twoFrames) (fun _ _ => True) twoVcpus.start
    presentedTrace presentedVm := play_run presentedTrace.reverse (by decide +kernel)

theorem endedVm_reachable : Reachable twoFrames twoVcpus endedVm :=
  ⟨_, presentedVm_run.trans (play_run [.ack 0 40, .eoi 0 40] (by decide +kernel))⟩

/-- The same, after another physical CPU has lowered `SPI 40` in the context. -/
def strayVm : Vm := ended 0 (taken 0 (deasserted 0 presentedVm))

theorem strayVm_reachable : Reachable twoFrames twoVcpus strayVm :=
  ⟨_, presentedVm_run.trans
    (play_run [.deassert none 0 40, .ack 0 40, .eoi 0 40] (by decide +kernel))⟩

/-- A read of `GICD_CTLR`. -/
def readCtlr : Mmio where
  dir := .read
  address := twoFrames.gicdBase
  size := 4

end Sima.Vgic
