import Sima.Vgic.ClosedVm

/-!
# What a step can do

The last layer of the closure argument. `KeptRegs` asks of a property of the machine
what `RegClosed` asks, and six things more, one for each way in which a step leaves
the delivery code: a vCPU changes its phase, its list registers are loaded, its
context is set up afresh, or the guest works on its list registers. A property that
has them is kept by every step of delivery whose injections are licensed —
`KeptRegs.deliver` is the only place that goes through all the labels — and one that
may see any LPI raised, which is `Kept`, by every step whose injections and accesses
are.

The hardware matters only while it is live. So a phase may be left for one that is
not live at any time, and entered, if it is live, only from one that is; the load
is the exception and has its own condition.
-/

namespace Sima.Vgic

open Lib

/-- What the guest can do to a list register: take it and end it, not fill it. -/
structure Lr.Fades (old new : Lr) : Prop where
  vintid : new.vintid = old.vintid
  pending : new.state.isPending = true → old.state.isPending = true
  valid : new.state ≠ .invalid → old.state ≠ .invalid

theorem Lr.Fades.refl (lr : Lr) : lr.Fades lr := ⟨rfl, id, id⟩

theorem Lr.Fades.of {old new : Lr} {virq : Nat} (h : old.Fades new) (hn : new.Of virq) :
    old.Of virq := ⟨h.valid hn.1, h.vintid ▸ hn.2⟩

variable {idx : Nat}

theorem ackSlot_fades {h : CpuIf} (hp : (h.lr idx).state = .pending) (k : Nat) :
    (h.lr k).Fades (Function.update h.lr idx { h.lr idx with state := .active } k) := by
  by_cases hk : k = idx
  · subst hk
    rw [Function.update_self]
    refine ⟨rfl, fun he => ?_, fun _ => by rw [hp]; decide⟩
    exact absurd (show LrState.active.isPending = true from he) (by decide)
  · rw [Function.update_of_ne hk]
    exact .refl _

theorem eoiSlot_fades {h : CpuIf} (ha : (h.lr idx).state.isActive = true) (k : Nat) :
    (h.lr k).Fades (Function.update h.lr idx { h.lr idx with
        state := if (h.lr idx).state.isPending then .pending else .invalid } k) := by
  by_cases hk : k = idx
  · subst hk
    rw [Function.update_self]
    refine ⟨rfl, fun he => ?_, fun _ hi => ?_⟩
    · cases hst : (h.lr k).state.isPending with
      | true => rfl
      | false =>
        simp only [hst] at he
        exact absurd he (by decide)
    · rw [hi] at ha
      exact absurd ha (by decide)
  · rw [Function.update_of_ne hk]
    exact .refl _

structure KeptRegs (R A : Vm → Vid → Nat → Prop) (pend route : Nat → Prop)
    (Q : Vm → Prop) : Prop where
  core : ∀ (m : Vm) w, Closed m.env.lrCount w (R m w) (A m w)
    (fun _ => (m.env.phase w).live = true) ((m.env.phase w).live = true)
    fun s => Q { m with core := s }
  congr : ∀ {m m' : Vm}, Q m → m.Same m' → Q m'
  locals : ∀ m w i, isSpi i = false → isLpi i = false → R m w i ∧ A m w i
  pends : ∀ {m i}, isSpi i = true → pend i → R m (m.spiTarget i) i
  actives : ∀ {m i}, isSpi i = true → A m (m.spiTarget i) i
  targets : ∀ {v m irqBase size value}, (m.env.phase v).live = true → Q m →
    (∀ byte < size, route (irqBase + byte)) →
    Q ((m.writeIrqTarget irqBase size value).flushAll v)
  irouter : ∀ {v m virq upper value}, (m.env.phase v).live = true → Q m → route virq →
    Q ((m.writeIrouterWord virq upper value).flushAll v)
  setPhase : ∀ {m v p}, (p.live = true → (m.env.phase v).live = true) → Q m → Q (m.setPhase v p)
  load : ∀ {m v}, Q m → Q ((m.modCore fun e s => s.loadVcpu e v).setPhase v .loading)
  init : ∀ {m v}, Q m → Q (m.modCore fun _ s => s.modCtx v fun _ => Core.initCtx)
  guest : ∀ {m v h}, (∀ idx, ((m.core.ich v).lr idx).Fades (h.lr idx)) → Q m →
    Q (m.modCore fun _ s => s.modIch v fun _ => h)

structure Kept (R A : Vm → Vid → Nat → Prop) (pend route : Nat → Prop)
    (Q : Vm → Prop) : Prop extends KeptRegs R A pend route Q where
  lpis : ∀ m w i, isLpi i = true → R m w i

variable {c : Caller} {e : Env} {t : Vid}

/-- A caller that is not in the middle of a switch finds a vCPU loaded only while it
runs. -/
theorem CallerOk.running (hc : CallerOk e c) (hl : e.vcpuIsLoaded c t = true) :
    e.phase t = .running := by
  rw [Env.vcpuIsLoaded, Bool.and_eq_true, beq_iff_eq] at hl
  obtain ⟨rfl, hcurr⟩ := hl
  rcases hc with hoff | hrun
  · rw [hoff] at hcurr
    exact absurd hcurr (by decide)
  · exact hrun

theorem CallerOk.live (hc : CallerOk e c) (hl : e.vcpuIsLoaded c t = true) :
    (e.phase t).live = true := by
  rw [hc.running hl]
  rfl

/-- A step of delivery: not an access, and not an MSI. -/
def Label.delivers : Label → Bool
  | .mmio .. | .injectMsi .. => false
  | _ => true

namespace KeptRegs

variable {R A : Vm → Vid → Nat → Prop} {pend route : Nat → Prop} {Q : Vm → Prop}
  {m m' : Vm} {cfg : GicConfig} {a : Label} {v : Vid}

variable (K : KeptRegs R A pend route Q)

include K

/-- Within one access the phases stand still. -/
theorem regClosed (ph : Vid → Phase) : RegClosed R A (fun w => (ph w).live = true) pend route
      (fun m => m.env.phase = ph ∧ Q m) where
  core m w := by
    have h : m.env.phase = ph → Closed m.env.lrCount w (R m w) (A m w)
        (fun _ => (ph w).live = true) ((ph w).live = true)
        fun s => Q { m with core := s } := by
      rintro rfl
      exact K.core m w
    exact .given (K.locals m w _ (by decide) (by decide)).1 id h
  congr h hs := ⟨hs.phase.trans h.1, K.congr h.2 hs⟩
  locals := K.locals
  pends := K.pends
  actives := K.actives
  targets {v m irqBase size value} hv h hr := by
    refine ⟨?_, K.targets (h.1 ▸ hv) h.2 hr⟩
    show (m.writeIrqTarget irqBase size value).env.phase = ph
    rw [Vm.writeIrqTarget_env]
    exact h.1
  irouter {v m virq upper value} hv h hr := by
    refine ⟨?_, K.irouter (h.1 ▸ hv) h.2 hr⟩
    show (m.writeIrouterWord virq upper value).env.phase = ph
    rw [Vm.writeIrouterWord_env]
    exact h.1

theorem clearBootIrqs (h : Q m) : Q (m.modCore fun e s => s.clearBootIrqs e v) :=
  List.foldlRecOn (motive := fun s => Q { m with core := s }) _ _ h
    fun _ h _ _ => (K.core m v).drop _ ((K.core m v).lower _ h)

theorem reset (h : Q m) : Q (m.modCore fun e s => s.resetVcpuBootState e v) := by
  have h1 : Q (m.modCore fun _ s => s.modCtx v fun _ => Core.initCtx) := K.init h
  by_cases hv : v < m.env.maxVcpus
  · have heq : (m.modCore fun e s => s.resetVcpuBootState e v) =
        (m.modCore fun _ s => s.modCtx v fun _ => Core.initCtx).modCore fun e s =>
          s.clearBootIrqs e v := by
      simp only [Vm.modCore, Core.resetVcpuBootState, if_pos hv]
    rw [heq]
    exact K.clearBootIrqs h1
  · have heq : (m.modCore fun e s => s.resetVcpuBootState e v) =
        m.modCore fun _ s => s.modCtx v fun _ => Core.initCtx := by
      simp only [Vm.modCore, Core.resetVcpuBootState, if_neg hv]
    rw [heq]
    exact h1

/-- Switching out: the context gets what the hardware holds, and that is no longer
live. -/
theorem save (hv : (m.env.phase v).live = true) (h : Q m) :
    Q ((m.modCore fun e s => s.saveVcpu e v).setPhase v .saved) := by
  refine K.setPhase (fun he => absurd he (by decide)) ?_
  exact (K.core m v).ich (fun _ => rfl) ((K.core m v).read hv (fun _ => rfl) h)

/-- Every step of delivery, if what it injects is licensed. -/
theorem deliver (hs : Step cfg a m m') (ha : a.delivers = true)
    (hinj : ∀ c v virq level, a = .inject c v virq level →
      R m (m.irqTargetVcpu v virq) virq) (h : Q m) : Q m' := by
  have hlive : ∀ {v}, m.env.phase v = .running → (m.env.phase v).live = true := by
    intro v hv
    rw [hv]
    rfl
  cases hs with
  | @inject _ c v virq level line hc =>
    exact (K.core m _).injectLocked (hinj c v virq level rfl) hc.live h
  | @injectTo _ c t virq level line hc _ hi =>
    have hsgi : isSpi virq = false := not_spi_of_lt (lt_trans hi (by decide))
    have hlpi : isLpi virq = false := not_lpi_of_lt (lt_trans hi (by decide))
    exact (K.core m t).injectLocked (K.locals m t virq hsgi hlpi).1 hc.live h
  | injectMsi | mmio => cases ha
  | @clear _ _ v _ _ hc => exact (K.core m v).clearIrq hc.live h
  | @deassert _ _ v _ _ hc => exact (K.core m v).deassertIrq hc.live h
  | @cpuif _ v _ _ _ _ hv => exact (K.core m v).cpuifWrite (hlive hv) h
  | @service _ v _ _ hv => exact (K.core m v).syncFlush (hlive hv) h
  | @timerLine _ v _ _ _ hv => exact (K.core m v).syncCurrentTimerLine (hlive hv) h
  | @refreshLevel _ v _ _ _ hv => exact (K.core m v).refreshCurrentLevelIrq (hlive hv) h
  | @completeWfi _ v _ _ hv => exact (K.core m v).completeWfiIrqs (hlive hv) h
  | @hasPending _ _ v => exact (K.core m v).hasPendingIrq h
  | @flush _ _ v hc =>
    exact (K.core m v).flushVcpu (fun hl => hc.live (hl.resolve_left (by decide))) h
  | @flushCurrent _ v _ hv =>
    have h1 : Q { m with core := m.core.flushVcpu m.env (some v) true v } :=
      (K.core m v).flushVcpu (fun _ => hlive hv) h
    exact h1
  | load => exact K.load h
  | enter _ hv => exact K.setPhase (fun _ => by rw [hv]; rfl) h
  | @stop _ v _ _ _ hv =>
    exact K.setPhase (fun _ => hlive hv) ((K.core m v).syncCurrentTimerLine (hlive hv) h)
  | save _ hv => exact K.save (by rw [hv]; rfl) h
  | leave => exact K.setPhase (fun he => absurd he (by decide)) h
  | reset => exact K.reset h
  | ack _ _ _ hp => exact K.guest (ackSlot_fades hp) h
  | eoi _ _ _ hact => exact K.guest (eoiSlot_fades hact) h
  | regs _ _ _ hl => exact K.guest (fun idx => by rw [hl]; exact .refl _) h

omit K
end KeptRegs

namespace Kept

variable {R A : Vm → Vid → Nat → Prop} {pend route : Nat → Prop} {Q : Vm → Prop}
  {m m' : Vm} {cfg : GicConfig} {a : Label} {v : Vid}

theorem vmClosed (K : Kept R A pend route Q) (ph : Vid → Phase) :
    VmClosed R A (fun w => (ph w).live = true) pend route (fun m => m.env.phase = ph ∧ Q m) where
  toRegClosed := K.regClosed ph
  lpis := K.lpis

/-- What no step changes may be carried along, and used. -/
theorem fixed (K : Kept R A pend route Q) (e : Env) :
    Kept R A pend route (fun m => e.Fixed m.env ∧ Q m) where
  core m w := Closed.given (p := e.Fixed m.env) (K.locals m w _ (by decide) (by decide)).1 id
    fun _ => K.core m w
  congr h hs := ⟨h.1.trans hs.fixed, K.congr h.2 hs⟩
  locals := K.locals
  pends := K.pends
  actives := K.actives
  targets {v m irqBase size value} hv h hr := by
    refine ⟨?_, K.targets hv h.2 hr⟩
    show e.Fixed (m.writeIrqTarget irqBase size value).env
    rw [Vm.writeIrqTarget_env]
    exact h.1
  irouter {v m virq upper value} hv h hr := by
    refine ⟨?_, K.irouter hv h.2 hr⟩
    show e.Fixed (m.writeIrouterWord virq upper value).env
    rw [Vm.writeIrouterWord_env]
    exact h.1
  setPhase hp h := ⟨h.1.trans ⟨rfl, rfl, rfl, rfl, rfl⟩, K.setPhase hp h.2⟩
  load h := ⟨h.1.trans ⟨rfl, rfl, rfl, rfl, rfl⟩, K.load h.2⟩
  init h := ⟨h.1, K.init h.2⟩
  guest hg h := ⟨h.1, K.guest hg h.2⟩
  lpis := K.lpis

/-- A property of the delivery state alone that needs no licence. -/
theorem ofCore {P : Env → Core → Prop}
    (core : ∀ (e : Env) w, Closed e.lrCount w (fun _ => True) (fun _ => True)
      (fun _ => (e.phase w).live = true) ((e.phase w).live = true) (P e))
    (congr : ∀ {e e' : Env} {s}, e.Fixed e' → e'.phase = e.phase → P e s → P e' s)
    (setPhase : ∀ {m : Vm} {v p}, (p.live = true → (m.env.phase v).live = true) →
      P m.env m.core → P (m.setPhase v p).env m.core)
    (load : ∀ {m : Vm} {v}, P m.env m.core →
      P (m.setPhase v .loading).env (m.core.loadVcpu m.env v))
    (init : ∀ {e s v}, P e s → P e (s.modCtx v fun _ => Core.initCtx))
    (guest : ∀ {e s v h}, (∀ idx, ((s.ich v).lr idx).Fades (h.lr idx)) → P e s →
      P e (s.modIch v fun _ => h)) :
    Kept (fun _ _ _ => True) (fun _ _ _ => True) (fun _ => True) (fun _ => True)
      (fun m => P m.env m.core) where
  core m := core m.env
  congr h hs := congr hs.fixed hs.phase (hs.core ▸ h)
  locals _ _ _ _ _ := ⟨trivial, trivial⟩
  pends _ _ := trivial
  actives _ := trivial
  targets hv h _ := Vm.targets_keeps (core _) hv h
  irouter hv h _ := Vm.irouter_keeps (core _) hv h
  setPhase := setPhase
  load := load
  init := init
  guest := guest
  lpis _ _ _ _ := trivial

/-- Every step, if what it injects and what it accesses is licensed. -/
theorem step (K : Kept R A pend route Q) (hs : Step cfg a m m')
    (hinj : ∀ c v virq level, a = .inject c v virq level → R m (m.irqTargetVcpu v virq) virq)
    (hp : ∀ v req i, a = .mmio v req → isSpi i = true → req.pends cfg i = true → pend i)
    (hr : ∀ v req i, a = .mmio v req → req.routes cfg i = true → route i) (h : Q m) : Q m' := by
  cases ha : a.delivers with
  | true => exact K.deliver hs ha hinj h
  | false =>
    cases hs with
    | injectMsi line hc =>
      refine ((K.vmClosed m.env.phase).injectFound (fun hl he => ?_) ⟨rfl, h⟩).2
      rw [Env.vcpuIsLoaded, he] at hl
      exact hc.live hl
    | @mmio _ v req _ _ _ hv =>
      have hlive : (m.env.phase v).live = true := by
        rw [hv]
        rfl
      exact ((K.vmClosed m.env.phase).mmioHandler hlive (hp v req · rfl)
        (hr v req · rfl) ⟨rfl, h⟩).2
    | _ => cases ha

end Kept

end Sima.Vgic
