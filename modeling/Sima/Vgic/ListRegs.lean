import Sima.Vgic.Index

/-!
# No interrupt has two list registers

What the architecture asks of the list registers, and what the code needs to find
them again: a context never uses more than the hardware has, and no two valid ones
carry the same INTID. Every write but one keeps that by itself — a slot is filled
only after a search for the INTID came back empty. The exception is a read-back,
which is as good as what is in the hardware.

And the hardware is a copy of the context, except for `PPI 27`: a sync that takes
the timer's list register out of the context may put a new one into the hardware at
once, next to the old one. So the timer's INTID is left out here.
-/

namespace Sima.Vgic

open Lib Core
open Function (update update_of_ne update_self)

/-! ## Between the context and the hardware -/

theorem lastValid_le (lr : Nat → Lr) (n : Nat) : lastValid lr n ≤ n := by
  induction n with
  | zero => exact le_refl 0
  | succ n ih =>
    rw [lastValid]
    split
    · exact Nat.le_succ_of_le ih
    · exact le_rfl

variable {P : Lr → Prop}

theorem readLrs_sub {n k : Nat} {h : CpuIf} {c : Ctx} (hk : k < (readLrs n h c).lrs.used)
    (hp : P ((readLrs n h c).lrs.slot k)) : k < n ∧ P (h.lr k) := by
  have hkn : k < n := lt_of_lt_of_le hk (lastValid_le ..)
  have hslot : (readLrs n h c).lrs.slot k = h.lr k := if_pos hkn
  exact ⟨hkn, hslot ▸ hp⟩

theorem writeLrs_sub {n k : Nat} {h : CpuIf} {c : Ctx} (h0 : ¬ P {}) (hk : k < n)
    (hp : P ((writeLrs n c h).lr k)) : k < c.lrs.used ∧ P (c.lrs.slot k) := by
  rw [writeLrs] at hp
  simp only [if_pos hk] at hp
  split at hp
  · next hu => exact ⟨hu, hp⟩
  · exact absurd hp h0

theorem Lr.not_of_blank (i : Nat) : ¬ ({} : Lr).Of i := fun h => h.1 rfl

namespace Core

/-- The hardware holds what the context says, and nothing behind it. -/
def Fresh (n : Nat) (v : Vid) (s : Core) : Prop :=
  ∀ idx < n, (s.ich v).lr idx = if idx < (s.ctx v).lrs.used then (s.ctx v).lrs.slot idx else {}

variable {e : Env} {line : Samples} {c : Caller} {v : Vid} {s : Core} {i : Nat} {isCurrent : Bool}

theorem fresh_write {n : Nat} {f : CpuIf → CpuIf}
    (hf : ∀ h, (f h).lr = (writeLrs n (s.ctx v) h).lr) : Fresh n v (s.modIch v f) := by
  intro idx hi
  rw [modIch_self, hf]
  exact if_pos hi

/-- A flush on the physical CPU of the vCPU: the controls are read, the bitmaps are
scanned, and everything is written out. -/
theorem flushVcpu_loaded (h : isCurrent = true ∨ e.vcpuIsLoaded c v = true) :
    s.flushVcpu e c isCurrent v = ((s.modCtx v (syncLiveCpuif (s.ich v))).flushScan e v).modIch v
        (writeLrsHcr e.lrCount
          (((s.modCtx v (syncLiveCpuif (s.ich v))).flushScan e v).ctx v)) := by
  rw [flushVcpu, if_pos (Bool.or_eq_true_iff.mpr h)]
  rcases h with hc | hl
  · simp [hc]
  · rw [Env.vcpuIsLoaded, Bool.and_eq_true, beq_iff_eq] at hl
    simp [Env.vcpuIsRunningRemote, hl.1]

theorem flushVcpu_fresh (h : isCurrent = true ∨ e.vcpuIsLoaded c v = true) :
    Fresh e.lrCount v (s.flushVcpu e c isCurrent v) := by
  rw [flushVcpu_loaded h]
  exact fresh_write fun _ => rfl

theorem flushCurrent_fresh : Fresh e.lrCount v (s.flushVcpu e (some v) true v) :=
  flushVcpu_fresh (.inl rfl)

variable {level : Bool} (h : e.vcpuIsLoaded c v = true)

include h

theorem flushIfLoaded_fresh : Fresh e.lrCount v (s.flushIfLoaded e c v) := by
  rw [flushIfLoaded, if_pos h]
  exact flushVcpu_fresh (.inr h)

theorem injectLocked_fresh : s.injectLocked e line c v i level = s ∨
    Fresh e.lrCount v (s.injectLocked e line c v i level) := by
  rw [injectLocked]
  split
  · exact .inr (flushIfLoaded_fresh h)
  · exact .inl rfl

theorem clearIrq_fresh :
    s.clearIrq e line c v i = s ∨ Fresh e.lrCount v (s.clearIrq e line c v i) := by
  rw [clearIrq]
  split
  · exact .inr (flushIfLoaded_fresh h)
  · exact .inl rfl

theorem deassertIrq_fresh :
    s.deassertIrq e line c v i = s ∨ Fresh e.lrCount v (s.deassertIrq e line c v i) := by
  rw [deassertIrq]
  split
  · exact .inr (flushIfLoaded_fresh h)
  · exact .inl rfl

omit h

theorem refreshCurrentLevelIrq_fresh : s.refreshCurrentLevelIrq e line v i = s ∨
    Fresh e.lrCount v (s.refreshCurrentLevelIrq e line v i) := by
  rw [refreshCurrentLevelIrq]
  split
  · exact .inr flushCurrent_fresh
  · exact .inl rfl

theorem syncCurrentTimerLine_fresh {b : Bool} (hd : e.hasDesc v ppiVirtualTimer = true) :
    Fresh e.lrCount v (s.syncCurrentTimerLine e line v b) := by
  rw [syncCurrentTimerLine, if_pos hd]
  exact flushCurrent_fresh

end Core

/-! ## Distinct INTIDs

The INTIDs of `I` in the contexts of `V` and in the hardware of `H`. -/

structure Distinct (n : Nat) (I : Nat → Prop) (V H : Vid → Prop) (s : Core) : Prop where
  virq : ∀ v i, (s.irq v i).virq = i
  used : ∀ v, V v → (s.ctx v).lrs.used ≤ n
  ctx : ∀ v, V v → ∀ i, I i → (s.ctx v).lrs.Once (Lr.Of i)
  ich : ∀ v, H v → ∀ i, I i → ((s.ich v).table n).Once (Lr.Of i)

namespace Distinct

variable {n : Nat} {I : Nat → Prop} {V H : Vid → Prop} {s : Core} {u : Vid}

variable (h : Distinct n I V H s) {f : CpuIf → CpuIf} {H' : Vid → Prop} {e : Env}

include h

theorem modIrq {f : VgicIrq → VgicIrq} {j : Nat}
    (hf : ∀ d, (f d).virq = d.virq) : Distinct n I V H (s.modIrq u j f) := by
  refine ⟨fun w i => ?_, h.used, h.ctx, h.ich⟩
  rw [modIrq_irq]
  split
  · next he => rw [hf, h.virq, he.2]
  · exact h.virq w i

theorem setPending {j : Nat} {b : Bool} : Distinct n I V H (s.setPending u j b) := by
  have h1 : Distinct n I V H (s.modIrq u j fun d => { d with pending := b }) :=
    h.modIrq fun _ => rfl
  refine ⟨?_, ?_, ?_, ?_⟩
  · rw [setPending_irq]
    exact h1.virq
  · rw [setPending_ctx]
    exact h.used
  · rw [setPending_ctx]
    exact h.ctx
  · rw [setPending_ich]
    exact h.ich

theorem modCtx {f : Ctx → Ctx} (hf : V u → (f (s.ctx u)).lrs.used ≤ n ∧
    ∀ i, I i → (f (s.ctx u)).lrs.Once (Lr.Of i)) : Distinct n I V H (s.modCtx u f) := by
  refine ⟨h.virq, fun w hw => ?_, fun w hw i hi => ?_, h.ich⟩
  · by_cases hwu : w = u
    · subst hwu
      rw [modCtx_self]
      exact (hf hw).1
    · rw [modCtx_other _ _ _ hwu]
      exact h.used w hw
  · by_cases hwu : w = u
    · subst hwu
      rw [modCtx_self]
      exact (hf hw).2 i hi
    · rw [modCtx_other _ _ _ hwu]
      exact h.ctx w hw i hi

theorem modLrs {f : Slots Lr → Slots Lr} (hf : V u → (f (s.ctx u).lrs).used ≤ n ∧
      ∀ i, I i → (f (s.ctx u).lrs).Once (Lr.Of i)) : Distinct n I V H (s.modLrs u f) := h.modCtx hf

theorem modIch (hf : H u → ∀ i, I i → ((f (s.ich u)).table n).Once (Lr.Of i)) :
    Distinct n I V H (s.modIch u f) := by
  refine ⟨h.virq, h.used, h.ctx, fun w hw i hi => ?_⟩
  by_cases hwu : w = u
  · subst hwu
    rw [modIch_self]
    exact hf hw i hi
  · rw [modIch_other _ _ _ hwu]
    exact h.ich w hw i hi

omit h in
theorem once_write {c : Ctx} {h : CpuIf} {i : Nat} (hc : c.lrs.Once (Lr.Of i))
    (hf : (f h).lr = (writeLrs n c h).lr) : ((f h).table n).Once (Lr.Of i) := by
  refine hc.sub fun k hk hp => ?_
  have hp : ((f h).lr k).Of i := hp
  rw [hf] at hp
  exact writeLrs_sub (Lr.not_of_blank i) hk hp

omit h in
theorem once_read {c : Ctx} {h : CpuIf} {i : Nat} (hh : (h.table n).Once (Lr.Of i)) :
    (readLrs n h c).lrs.Once (Lr.Of i) :=
  hh.sub fun _ => readLrs_sub

omit h in
/-- The writes to one row. What is read must be distinct already, and the timer may
be written next to another one only where its INTID is not asked about. -/
theorem closed {L : Core → Prop} {W : Prop} (hL : ∀ s, Distinct n I V H s → L s → V u → ∀ i, I i →
      ((s.ich u).table n).Once (Lr.Of i))
    (hW : W → H u → V u ∧ ¬ I ppiVirtualTimer) (hLW : ∀ s, L s → W) :
    Closed n u (fun _ => True) (fun _ => True) L W (Distinct n I V H) where
  virq h := h.virq u
  lower _ h := h.setPending
  raise _ h := h.setPending
  drop _ h := h.modIrq fun _ => rfl
  activate _ h := h.modIrq fun _ => rfl
  config _ hf h := h.modIrq fun d => (hf d).1
  remove {s} idx h := h.modLrs fun hu => by
    refine ⟨?_, fun i hi => (h.ctx u hu i hi).remove⟩
    have := h.used u hu
    show ((s.ctx u).lrs.remove {} idx).used ≤ n
    rw [Slots.remove]
    split
    · exact le_trans (Nat.sub_le ..) this
    · exact this
  refresh {s i idx p a} _ hof _ _ _ h := h.modLrs fun hu => by
    refine ⟨h.used u hu, fun j hj => (h.ctx u hu j hj).set fun hnew => ?_⟩
    have hij : i = j := (h.virq u i).symm.trans hnew.2
    exact hij ▸ hof
  push {s i} _ hroom hno h := h.modLrs fun hu => by
    refine ⟨hroom, fun j hj => (h.ctx u hu j hj).push fun hnew => ?_⟩
    have hij : i = j := (h.virq u i).symm.trans hnew.2
    exact hij ▸ hno
  ctx hf h := h.modCtx fun hu => by
    rw [hf]
    exact ⟨h.used u hu, h.ctx u hu⟩
  read {s f} hl hf h := h.modCtx fun hu => by
    rw [hf]
    exact ⟨lastValid_le .., fun i hi => once_read (hL s h hl hu i hi)⟩
  ich hf h := h.modIch fun hu i hi => by
    rw [CpuIf.table, hf]
    exact h.ich u hu i hi
  write hw hf h := h.modIch fun hu i hi => once_write (h.ctx u (hW hw hu).1 i hi) (hf _)
  writeOne {s idx} hw ht h := by
    rw [writeLr, if_pos rfl]
    refine h.modIch fun hu i hi => (h.ich u hu i hi).sub fun k hk hp => ?_
    have hne : i ≠ ppiVirtualTimer := fun he => (hW hw hu).2 (he ▸ hi)
    refine ⟨hk, ?_⟩
    have hp : (update (s.ich u).lr idx _ k).Of i := hp
    by_cases hki : k = idx
    · subst hki
      rw [update_self] at hp
      exact absurd (hp.2.symm.trans ht) hne
    · rwa [update_of_ne hki] at hp
  licence _ _ := trivial
  timer := trivial
  here hl := hLW _ hl

theorem mono {V' : Vid → Prop} (hV : ∀ w, V' w → V w) (hH : ∀ w, H' w → H w) :
    Distinct n I V' H' s :=
  ⟨h.virq, fun w hw => h.used w (hV w hw), fun w hw => h.ctx w (hV w hw),
    fun w hw => h.ich w (hH w hw)⟩

/-! ## The legs of a switch, and the guest -/

omit h in
theorem load (h : Distinct e.lrCount I V H s) (hH : ∀ w, H' w → if w = u then V u else H w) :
    Distinct e.lrCount I V H' (s.loadVcpu e u) := by
  refine ⟨h.virq, h.used, h.ctx, fun w hw i hi => ?_⟩
  have hw := hH w hw
  by_cases hwu : w = u
  · subst hwu
    rw [if_pos rfl] at hw
    rw [loadVcpu, modIch_self]
    refine (h.ctx w hw i hi).sub fun k hk hp => ?_
    exact writeLrs_sub (Lr.not_of_blank i) hk hp
  · rw [if_neg hwu] at hw
    rw [loadVcpu, modIch_other _ _ _ hwu]
    exact h.ich w hw i hi

theorem init : Distinct n I V H (s.modCtx u fun _ => initCtx) :=
  h.modCtx fun _ => ⟨Nat.zero_le n, fun _ _ _ _ hk => absurd hk (Nat.not_lt_zero _)⟩

theorem guest {h' : CpuIf} (hf : ∀ idx, ((s.ich u).lr idx).Fades (h'.lr idx)) :
    Distinct n I V H (s.modIch u fun _ => h') :=
  h.modIch fun hu i hi => (h.ich u hu i hi).sub fun k hk hp => ⟨hk, (hf k).of hp⟩

omit h

theorem start (b : Board) : Distinct b.lrCount I V H b.start.core := by
  refine ⟨(Indexed.start b).virq, fun _ _ => Nat.zero_le _, fun v _ i _ => ?_,
    fun v _ i _ k _ hk _ hp => ?_⟩
  · exact fun k _ hk => absurd hk (Nat.not_lt_zero _)
  · exact absurd hp (Lr.not_of_blank i)

end Distinct

/-! ## Every INTID but the timer's -/

/-- Distinct in all contexts, and in the hardware of every vCPU that is switched in. -/
def OthersDistinct (e : Env) : Core → Prop :=
  Distinct e.lrCount (· ≠ ppiVirtualTimer) (fun _ => True) fun w => (e.phase w).live = true

variable {m : Vm} {v : Vid}

theorem setPhase_live {w : Vid} {p : Phase} (hp : p.live = true → (m.env.phase v).live = true)
    (hw : ((m.setPhase v p).env.phase w).live = true) : (m.env.phase w).live = true := by
  have hw : (update m.env.phase v p w).live = true := hw
  by_cases hwv : w = v
  · subst hwv
    rw [update_self] at hw
    exact hp hw
  · rwa [update_of_ne hwv] at hw

theorem othersDistinct_kept :
    Kept (fun _ _ _ => True) (fun _ _ _ => True) (fun _ => True) (fun _ => True)
      (fun m => OthersDistinct m.env m.core) :=
  .ofCore (fun _ _ => Distinct.closed (fun _ h hl _ => h.ich _ hl)
      (fun _ _ => ⟨trivial, fun h => h rfl⟩) fun _ => id)
    (fun hf hp h => by
      rw [OthersDistinct, hf.lrCount, hp]
      exact h)
    (fun hp h => Distinct.mono h (fun _ => id) fun _ => setPhase_live hp)
    (fun {m v} h => Distinct.load h fun w hw => by
      split
      · trivial
      · next hwv =>
        have hw : (update m.env.phase v .loading w).live = true := hw
        rwa [update_of_ne hwv] at hw)
    Distinct.init (fun hf h => Distinct.guest h hf)

variable {cfg : GicConfig} {ok : Label → Vm → Prop} {tr : List Label}

theorem othersDistinct_run {b : Board} (h : GuardedRun (Step cfg) ok b.start tr m) :
    OthersDistinct m.env m.core := by
  have h₀ : OthersDistinct b.start.env b.start.core := Distinct.start b
  exact h.inv h₀ fun h _ hs =>
    othersDistinct_kept.step hs (fun _ _ _ _ _ => trivial) (fun _ _ _ _ _ _ => trivial)
      (fun _ _ _ _ _ => trivial) h

/-! ## The steps of a vCPU -/

/-- The row of `t` is changed by small writes only, and read from the hardware only on
the physical CPU where `t` is loaded. -/
def Core.Runs (e : Env) (c : Caller) (t : Vid) (s s' : Core) : Prop :=
  ∀ {L : Core → Prop} {W : Prop} {P : Core → Prop},
    Closed e.lrCount t (fun _ => True) (fun _ => True) L W P →
      (e.vcpuIsLoaded c t = true → L s) → P s → P s'

variable {e : Env}

/-- An MSI is an injection into some row, or nothing. -/
theorem injectFound_core (m : Vm) (line : Samples) (c : Caller) (deviceId eventId : Nat) :
    (m.injectFound line c deviceId eventId).env = m.env ∧
      ((m.injectFound line c deviceId eventId).core = m.core ∨
        ∃ t i, (m.injectFound line c deviceId eventId).core =
          m.core.injectLocked m.env line c t i false) := by
  rw [Vm.injectFound]
  split
  · rw [Vm.injectEvent]
    split
    · split
      · next t _ => exact ⟨rfl, .inr ⟨t, _, rfl⟩⟩
      · exact ⟨rfl, .inl rfl⟩
    · exact ⟨rfl, .inl rfl⟩
  · exact ⟨rfl, .inl rfl⟩

theorem loaded_of_running (h : e.phase v = .running) : e.vcpuIsLoaded (some v) v = true := by
  rw [Env.vcpuIsLoaded, h, beq_self_eq_true]
  rfl

/-! ## No gaps -/

namespace Core

/-- All used slots are valid. -/
def Packed (v : Vid) (s : Core) : Prop :=
  ∀ idx < (s.ctx v).lrs.used, ((s.ctx v).lrs.slot idx).state ≠ .invalid

variable {s : Core} {idx : Nat} {loaded : Bool}

theorem Packed.push {lr : Lr} (h : Packed v s) (hlr : lr.state ≠ .invalid) :
    Packed v (s.pushLr v lr) := by
  intro j hj
  rw [pushLr, modLrs_self] at hj ⊢
  rw [Slots.push_slot]
  split
  · exact hlr
  · next hne =>
    rw [Slots.push_used] at hj
    exact h j (by omega)

theorem Packed.congr {s' : Core} (h : Packed v s) (hc : (s'.ctx v).lrs = (s.ctx v).lrs) :
    Packed v s' := by
  intro j hj
  rw [hc] at hj ⊢
  exact h j hj

theorem writeHcr_ctx : (s.writeHcr v loaded).ctx = s.ctx := by
  rw [writeHcr]
  split <;> rfl

theorem writeLr_ctx : (s.writeLr v loaded idx).ctx = s.ctx := by
  rw [writeLr]
  split <;> rfl

end Core

/-! ## A VM with an interrupt in a list register -/

/-- vCPU 0 of the VM, on its way in and running. -/
def loadingVm : Vm :=
  (twoVcpus.start.modCore fun e s => s.loadVcpu e 0).setPhase 0 .loading

def runningVm : Vm := loadingVm.setPhase 0 .running

/-- A word that the guest writes to the distributor. -/
def gicdWord (offset : Nat) (value : BitVec 64) : Mmio where
  dir := .write
  address := twoFrames.gicdBase + offset
  size := 4
  value := value

/-- The guest enables `SPI 40` in `GICD_ISENABLER1`, with its timer line low. -/
def enabledVm : Vm :=
  (runningVm.mmioHandler twoFrames (fun _ => none) (fun _ _ _ => false) 0
    (gicdWord 0x104 0x100)).vm

/-- A device asserts the SPI. -/
def assertedVm : Vm :=
  enabledVm.modCore fun e s => s.injectLocked e (fun _ _ => false) none 0 40 true

/-- The next exit of vCPU 0 puts it into a list register. -/
def pendingVm : Vm := assertedVm.modCore fun e s => s.syncFlush e (fun _ _ => false) 0

def pendingTrace : List Label :=
  [.service 0, .inject none 0 40 true, .mmio 0 (gicdWord 0x104 0x100), .enter 0, .load 0]

end Sima.Vgic
