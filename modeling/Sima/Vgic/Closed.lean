import Sima.Vgic.Deliver

/-!
# What delivery can do

Every function of `Sync` and `Deliver` is made of a few small writes: lowering or
raising a pending flag, changing an active flag, removing, refreshing or adding
one list register of a context, and copying list registers between a context and
the hardware. `Closed` says of a property that each of these writes keeps it,
under what the code has checked by then; the theorems below carry that through
the functions, so a property of the whole component needs a proof only about the
small writes.

All of them are writes to one row: the descriptors of a vCPU, its context, its
list registers. `Closed n v R A L W P` is about the row of `v`. Some of the writes
are bound to a licence. `R virq` says that the interrupt may become pending in the
row for a reason of its own — something is injected, or a list register of the row
had it pending and the property allows that; `A` is the same for becoming active by
decree. `L s` says that the list registers in the hardware may be read into the
context of `v` in state `s`, and `W` that they may be written.
-/

namespace Sima.Vgic

open Lib Core
open Function (update update_of_ne update_self)

/-- A change of configuration: neither the INTID nor the state. -/
def Config (f : VgicIrq → VgicIrq) : Prop :=
  ∀ d, (f d).virq = d.virq ∧ (f d).pending = d.pending ∧ (f d).active = d.active

/-- An active list register of the interrupt. -/
def Lr.ActiveOf (virq : Nat) (lr : Lr) : Prop :=
  lr.state.isActive = true ∧ lr.vintid = virq

structure Closed (n : Nat) (v : Vid) (R A : Nat → Prop) (L : Core → Prop) (W : Prop)
    (P : Core → Prop) : Prop where
  virq : ∀ {s}, P s → ∀ i, (s.irq v i).virq = i
  lower : ∀ {s} (i), P s → P (s.setPending v i false)
  raise : ∀ {s i}, R i ∨ (s.irq v i).pending = true → P s → P (s.setPending v i true)
  drop : ∀ {s} (i), P s → P (s.setActive v i false)
  activate : ∀ {s i}, A i ∨ (s.ctx v).lrs.Any (Lr.ActiveOf i) → P s → P (s.setActive v i true)
  config : ∀ {s f} (i), Config f → P s → P (s.modIrq v i f)
  remove : ∀ {s} (idx), P s → P (s.removeLr v idx)
  refresh : ∀ {s i idx p a}, idx < (s.ctx v).lrs.used →
    ((s.ctx v).lrs.slot idx).Of i → (p = true → (s.irq v i).pending = true) →
    (a = true → (s.irq v i).active = true ∨
      ((s.ctx v).lrs.slot idx).state.isActive = true) → (p = true ∨ a = true) → P s →
    P (s.modLrs v fun t => t.set idx (makeLrState (s.irq v i) p a))
  push : ∀ {s i}, (s.irq v i).pending = true → (s.ctx v).lrs.used < n →
    ¬ (s.ctx v).lrs.Any (Lr.Of i) → P s → P (s.pushLr v (makeLr (s.irq v i)))
  ctx : ∀ {s f}, (∀ c, (f c).lrs = c.lrs) → P s → P (s.modCtx v f)
  read : ∀ {s f}, L s → (∀ c, (f c).lrs = (readLrs n (s.ich v) c).lrs) → P s → P (s.modCtx v f)
  ich : ∀ {s f}, (∀ h, (f h).lr = h.lr) → P s → P (s.modIch v f)
  write : ∀ {s f}, W → (∀ h, (f h).lr = (writeLrs n (s.ctx v) h).lr) → P s → P (s.modIch v f)
  writeOne : ∀ {s idx}, W → ((s.ctx v).lrs.slot idx).vintid = ppiVirtualTimer → P s →
    P (s.writeLr v true idx)
  licence : ∀ {s i}, P s → (s.ctx v).lrs.Any (Lr.PendingOf i) → R i
  timer : R ppiVirtualTimer
  here : ∀ {s}, L s → W

/-! ## What the small writes leave alone -/

namespace Core

variable (s : Core) (v w : Vid) (i : Nat) (b : Bool)

@[simp] theorem markPending_irq : (s.markPending v i b).irq = s.irq := by
  rw [markPending]; split <;> rfl

@[simp] theorem markPending_ctx : (s.markPending v i b).ctx = s.ctx := by
  rw [markPending]; split <;> rfl

@[simp] theorem markPending_ich : (s.markPending v i b).ich = s.ich := by
  rw [markPending]; split <;> rfl

@[simp] theorem setPending_ctx : (s.setPending v i b).ctx = s.ctx := by
  rw [setPending, markPending_ctx]; rfl

@[simp] theorem setPending_ich : (s.setPending v i b).ich = s.ich := by
  rw [setPending, markPending_ich]; rfl

theorem setPending_irq : (s.setPending v i b).irq =
    (s.modIrq v i fun d => { d with pending := b }).irq := by
  rw [setPending, markPending_irq]

@[simp] theorem setActive_ctx : (s.setActive v i b).ctx = s.ctx := rfl

variable (f : VgicIrq → VgicIrq)

include f

@[simp] theorem modIrq_ctx : (s.modIrq v i f).ctx = s.ctx := rfl

theorem modIrq_irq (j : Nat) : (s.modIrq v i f).irq w j =
    if w = v ∧ j = i then f (s.irq v i) else s.irq w j := by
  show update s.irq v _ w j = _
  by_cases hw : w = v
  · subst hw
    by_cases hj : j = i <;> simp [hj]
  · rw [update_of_ne hw, if_neg fun h => hw h.1]

theorem modIrq_self : (s.modIrq v i f).irq v i = f (s.irq v i) := by
  rw [modIrq_irq, if_pos ⟨rfl, rfl⟩]

omit f

theorem setPending_pending (j : Nat) : ((s.setPending v i b).irq w j).pending =
    if w = v ∧ j = i then b else (s.irq w j).pending := by
  rw [setPending_irq, modIrq_irq]
  split <;> rfl

theorem setPending_active (j : Nat) :
    ((s.setPending v i b).irq w j).active = (s.irq w j).active := by
  rw [setPending_irq, modIrq_irq]
  split
  · next h => rw [h.1, h.2]
  · rfl

@[simp] theorem modCtx_self (f : Ctx → Ctx) : (s.modCtx v f).ctx v = f (s.ctx v) := update_self ..

theorem modCtx_other {w : Vid} (f : Ctx → Ctx) (h : w ≠ v) :
    (s.modCtx v f).ctx w = s.ctx w := update_of_ne h ..

@[simp] theorem modLrs_self (f : Slots Lr → Slots Lr) :
    ((s.modLrs v f).ctx v).lrs = f (s.ctx v).lrs := by
  rw [modLrs, modCtx_self]

@[simp] theorem modLrs_irq (f : Slots Lr → Slots Lr) : (s.modLrs v f).irq = s.irq := rfl

@[simp] theorem modIch_ctx (f : CpuIf → CpuIf) : (s.modIch v f).ctx = s.ctx := rfl

@[simp] theorem modIch_self (f : CpuIf → CpuIf) : (s.modIch v f).ich v = f (s.ich v) :=
  update_self ..

theorem modIch_other {w : Vid} (f : CpuIf → CpuIf) (h : w ≠ v) :
    (s.modIch v f).ich w = s.ich w := update_of_ne h ..

theorem find_some {s : Core} {v : Vid} {i idx : Nat} (h : s.findLrForVirq v i = some idx) :
    idx < (s.ctx v).lrs.used ∧ ((s.ctx v).lrs.slot idx).Of i := by
  obtain ⟨hlt, hp⟩ := Slots.find_some h
  rw [Bool.and_eq_true, bne_iff_ne, beq_iff_eq] at hp
  exact ⟨hlt, hp⟩

theorem find_none {s : Core} {v : Vid} {i : Nat} (h : s.findLrForVirq v i = none) :
    ¬ (s.ctx v).lrs.Any (Lr.Of i) := by
  intro ha
  refine Slots.find_none h (ha.mono fun lr hlr => ?_)
  rw [Bool.and_eq_true, bne_iff_ne, beq_iff_eq]
  exact hlr

@[simp] theorem removeLr_irq (idx : Nat) : (s.removeLr v idx).irq = s.irq := rfl

@[simp] theorem removeLr_self (idx : Nat) :
    ((s.removeLr v idx).ctx v).lrs = (s.ctx v).lrs.remove {} idx := by
  rw [removeLr, modLrs_self]

end Core

theorem isVtimer_iff {virq : Nat} : isVtimer virq = true ↔ virq = ppiVirtualTimer := by
  rw [isVtimer, beq_iff_eq]

/-! ## The scan of a flush -/

namespace Core

variable {e : Env} {v : Vid} {s s' : Core} {lpi : Bool} {i : Nat} {P : Core → Prop}

theorem takeLr_eq {lr : Lr} (h : s.takeLr e v i lr = some s') : ∃ f, s' = s.modLrs v f ∧
    ((∃ idx, s.findLrForVirq v i = some idx ∧ f = fun t => t.set idx lr) ∨
      (s.findLrForVirq v i = none ∧ (s.ctx v).lrs.used < e.lrCount ∧ f = fun t => t.push lr)) := by
  rw [takeLr] at h
  split at h
  · next idx hf =>
    injection h with h
    exact ⟨_, h.symm, .inl ⟨idx, hf, rfl⟩⟩
  rename_i hf
  split at h
  · cases h
  · next hroom =>
    injection h with h
    exact ⟨_, h.symm, .inr ⟨hf, Nat.lt_of_not_le hroom, rfl⟩⟩

/-- The three ways an interrupt of the scan goes through. -/
theorem flushIrq_cases (h : s.flushIrq e v lpi i = some s') :
    ((s.irq v i).pending = false ∧ s' = s.setPending v i false) ∨
      (s.irqDeliverable e v (s.irq v i) = false ∧ s' = s) ∨ ((s.irq v i).pending = true ∧
        ∃ s₁, s.takeLr e v i (makeLr (s.irq v i)) = some s₁ ∧ s' = s₁.handOver v lpi i) := by
  rw [flushIrq] at h
  split at h
  · next hp =>
    injection h with h
    exact .inl ⟨by simpa using hp, h.symm⟩
  rename_i hp
  split at h
  · next hd =>
    injection h with h
    exact .inr (.inl ⟨by simpa using hd, h.symm⟩)
  · obtain ⟨s₁, ht, rfl⟩ := Option.map_eq_some_iff.mp h
    exact .inr (.inr ⟨by simpa using hp, s₁, ht, rfl⟩)

section Rule

variable (hirq : ∀ {s s' lpi i}, P s → s.flushIrq e v lpi i = some s' → P s')
  (huie : ∀ {s}, P s → P (s.raiseUie v))

include hirq huie

theorem flushBits_rule (l : List Nat) (h : P s) : P (s.flushBits e v lpi l) := by
  induction l generalizing s with
  | nil => exact h
  | cons i l ih =>
    rw [flushBits]
    split
    · next hf => exact ih (hirq h hf)
    · exact huie h

theorem flushWords_rule (l : List Nat) (h : P s) : P (s.flushWords e v lpi l) := by
  induction l generalizing s with
  | nil => exact h
  | cons word l ih =>
    rw [flushWords]
    have h1 : P (s.flushBits e v lpi (s.wordIrqs v lpi word)) := flushBits_rule hirq huie _ h
    split
    · exact h1
    · exact ih h1

theorem flushScan_rule (h : P (s.modCtx v fun c => { c with hcr := c.hcr &&& ~~~ichHcrUie })) :
    P (s.flushScan e v) := by
  rw [flushScan]
  split
  · exact flushWords_rule hirq huie _ (flushWords_rule hirq huie _ h)
  · exact flushWords_rule hirq huie _ h

end Rule

end Core

namespace Closed

variable {e : Env} {R A : Nat → Prop} {L P : Core → Prop} {W : Prop}
  {line : Samples} {c : Caller} {v : Vid} {s : Core} {i idx : Nat} {old : Slots Lr}

variable (K : Closed e.lrCount v R A L W P) {b loaded isCurrent lpi : Bool} {lr : Lr}
  {eoi : Nat → Bool} {d : VgicIrq} {r : Core.Sysreg} {val : BitVec 64} {L' : Core → Prop} {n : Nat}
  {s' : Core} {W' : Prop}

include K

theorem setPending (hb : b = true → R i ∨ (s.irq v i).pending = true) (h : P s) :
    P (s.setPending v i b) := by
  cases b with
  | false => exact K.lower i h
  | true => exact K.raise (hb rfl) h

theorem setActive (hb : b = true → A i ∨ (s.ctx v).lrs.Any (Lr.ActiveOf i)) (h : P s) :
    P (s.setActive v i b) := by
  cases b with
  | false => exact K.drop i h
  | true => exact K.activate (hb rfl) h

theorem setLevel (h : P s) : P (s.setLevel v i b) := K.config i (fun _ => ⟨rfl, rfl, rfl⟩) h

/-! ## Sync -/

theorem writeHcr (h : P s) : P (s.writeHcr v loaded) := by
  rw [Core.writeHcr]
  split
  · exact K.ich (fun _ => rfl) h
  · exact h

theorem raiseUie (h : P s) : P (s.raiseUie v) := K.ctx (fun _ => rfl) h

/-- Only the timer is ever put back this way. -/
theorem requeueLr (hW : loaded = true → W) (hi : i = ppiVirtualTimer) (h : P s) :
    P (s.requeueLr e v i loaded) := by
  have hvirq := K.virq h i
  rw [Core.requeueLr, hvirq]
  split
  · exact h
  rename_i hc
  rw [Bool.or_eq_true, Bool.or_eq_true, not_or, not_or] at hc
  obtain ⟨⟨hp, -⟩, hf⟩ := hc
  have hp : (s.irq v i).pending = true := by simpa using hp
  have hf : s.findLrForVirq v i = none := by simpa using hf
  split
  · exact K.writeHcr (K.raiseUie h)
  rename_i hroom
  have hpush := K.push hp (Nat.lt_of_not_le hroom) (find_none hf) h
  refine K.writeHcr ?_
  cases loaded with
  | false => exact hpush
  | true =>
    refine K.writeOne (hW rfl) ?_ hpush
    -- the slot just filled holds the timer
    rw [pushLr, modLrs_self, Slots.push_slot, if_pos rfl]
    exact hvirq.trans hi

/-- Where the identity of a completed slot comes from, if it was pending. -/
theorem eoiIdentity_licence (hold : ∀ i, old.Any (Lr.PendingOf i) → R i) (h : P s)
    (hp : (s.eoiIdentity v old idx).state.isPending = true) :
    R (s.eoiIdentity v old idx).vintid := by
  rw [eoiIdentity] at hp ⊢
  split at hp
  · next hc =>
    rw [if_pos hc]
    exact K.licence h ⟨idx, hc.1, hp, rfl⟩
  rename_i hc
  rw [if_neg hc]
  split at hp
  · next hlt =>
    rw [if_pos hlt]
    exact hold _ ⟨idx, hlt, hp, rfl⟩
  · exact absurd hp (by decide)

theorem completeEoiDesc (hlr : lr.state.isPending = true → R lr.vintid) (h : P s) :
    P (s.completeEoiDesc e line c v lr idx) := by
  rw [Core.completeEoiDesc]
  split
  · refine K.drop _ (K.setPending ?_ h)
    intro hk
    rw [keepPending] at hk
    split at hk
    · next ht =>
      rw [Bool.and_eq_true, isVtimer_iff] at ht
      exact .inl (ht.1 ▸ K.timer)
    split at hk
    · rcases Bool.or_eq_true_iff.mp hk with hk | hk
      · exact .inl (hlr hk)
      · exact .inr hk
    · exact .inl (hlr (Bool.and_eq_true_iff.mp hk).1)
  · exact h

theorem completeEoiLr (hold : ∀ i, old.Any (Lr.PendingOf i) → R i) (h : P s) :
    P (s.completeEoiLr e line c v old idx) := by
  rw [Core.completeEoiLr]
  split
  · exact h
  · exact K.remove _ (K.completeEoiDesc (K.eoiIdentity_licence hold h) h)

theorem completeEoiLrs (hold : ∀ i, old.Any (Lr.PendingOf i) → R i) (k : Nat) (h : P s) :
    P (s.completeEoiLrs e line c v old eoi k) := by
  induction k generalizing s with
  | zero => exact h
  | succ k ih =>
    refine ih ?_
    split
    · exact K.completeEoiLr hold h
    · exact h

theorem settleLost {reported : Bool} (hW : loaded = true → W)
    (hlr : lr.state.isPending = true → R lr.vintid) (h : P s) :
    P (s.settleLost e line v loaded reported lr idx) := by
  rw [Core.settleLost]
  split
  · next ht =>
    simp only [Bool.and_eq_true, isVtimer_iff] at ht
    split
    · exact K.requeueLr hW ht.1.1.2 (K.raise (.inl (hlr ht.1.2)) h)
    · exact K.lower _ h
  · split
    · exact h
    · refine K.setPending (fun hb => .inl (hlr ?_)) h
      simp only [Bool.and_eq_true] at hb
      exact hb.1.2

theorem syncLostLrs (hW : loaded = true → W) (hold : ∀ i, old.Any (Lr.PendingOf i) → R i)
    (h : P s) : P (s.syncLostLrs e line v loaded eoi old) := by
  refine List.foldlRecOn _ _ h fun s h idx hm => ?_
  rw [syncLostLr]
  split
  · exact h
  split
  · exact h
  split
  · refine K.drop _ (K.settleLost hW (fun hp => hold _ ?_) h)
    exact ⟨idx, List.mem_range.mp hm, hp, rfl⟩
  · exact h

omit K in
theorem copyBack_ctx : (s.copyBack v lr d).ctx = s.ctx := by
  rw [copyBack]
  split
  · rw [setActive_ctx, setPending_ctx]
  · rfl

omit K in
theorem settleLr_lrs : ((s.settleLr e line v loaded idx lr d).1.ctx v).lrs =
    if (s.settleLr e line v loaded idx lr d).2 then (s.ctx v).lrs.remove {} idx
    else (s.ctx v).lrs := by
  have hrm : ∀ s' : Core, s'.ctx = s.ctx →
      ((s'.removeLr v idx).ctx v).lrs = (s.ctx v).lrs.remove {} idx := by
    intro s' hs
    rw [removeLr_self, hs]
  rw [settleLr]
  split
  · split
    · rfl
    split
    · exact hrm _ (by simp)
    split
    · split
      · simp
      · exact hrm _ (by simp)
    · split
      · exact hrm _ copyBack_ctx
      · rw [if_neg Bool.false_ne_true, copyBack_ctx]
  · split
    · exact hrm _ rfl
    · rfl

omit K in
theorem settleLr_used (hidx : idx < (s.ctx v).lrs.used) :
    ((s.settleLr e line v loaded idx lr d).1.ctx v).lrs.used =
      if (s.settleLr e line v loaded idx lr d).2 then (s.ctx v).lrs.used - 1
      else (s.ctx v).lrs.used := by
  rw [settleLr_lrs]
  split
  · exact Slots.remove_used hidx
  · rfl

theorem completeTimerLr (hi : i = ppiVirtualTimer) (h : P s) : P (s.completeTimerLr v i idx b) :=
  K.remove _ (K.setPending (fun _ => .inl (hi ▸ K.timer)) (K.drop _ h))

section

variable (hact : lr.state.isActive = true → (s.ctx v).lrs.Any (Lr.ActiveOf lr.vintid)) (h : P s)

include hact h

/-- Whoever is marked active still has its list register. -/
theorem copyBack : P (s.copyBack v lr d) := by
  rw [Core.copyBack]
  split
  · refine K.setActive (fun ha => .inr ?_) (K.lower _ h)
    rw [setPending_ctx]
    exact hact ha
  · exact K.setActive (fun ha => .inr (hact ha)) h

theorem settleLr : P (s.settleLr e line v loaded idx lr d).1 := by
  rw [Core.settleLr]
  split
  · split
    · next ha =>
      rw [Bool.and_eq_true, beq_iff_eq] at ha
      exact K.activate (.inr (hact (by rw [ha.2]; rfl))) h
    split
    · next ht =>
      simp only [Bool.and_eq_true, isVtimer_iff] at ht
      exact K.completeTimerLr ht.1.1.2 h
    split
    · next ht =>
      simp only [Bool.and_eq_true, isVtimer_iff] at ht
      split
      · exact K.drop _ (K.raise (.inl (ht.1.2 ▸ K.timer)) h)
      · exact K.remove _ (K.drop _ (K.lower _ h))
    · split
      · exact K.remove _ (K.copyBack hact h)
      · exact K.copyBack hact h
  · split
    · exact K.remove _ h
    · exact h

end

omit K in
/-- Going through the list registers of the context, what is known of those before `idx`. -/
theorem syncLrs_rule {P : Nat → Core → Prop}
    (hstep : ∀ {s idx}, idx < (s.ctx v).lrs.used → P idx s →
      P (if (s.syncLr e line v loaded idx).2 then idx else idx + 1)
        (s.syncLr e line v loaded idx).1) (k : Nat) (hk : idx + k = (s.ctx v).lrs.used)
    (h : P idx s) :
    P ((s.syncLrs e line v loaded k idx).ctx v).lrs.used (s.syncLrs e line v loaded k idx) := by
  induction k generalizing s idx with
  | zero => exact hk ▸ h
  | succ k ih =>
    have hidx : idx < (s.ctx v).lrs.used := by omega
    have h1 := hstep hidx h
    have hused : ((s.syncLr e line v loaded idx).1.ctx v).lrs.used =
        if (s.syncLr e line v loaded idx).2 then (s.ctx v).lrs.used - 1
        else (s.ctx v).lrs.used := settleLr_used hidx
    rw [syncLrs]
    split
    · next hr =>
      rw [if_pos hr] at hused h1
      exact ih (by omega) h1
    · next hr =>
      rw [if_neg hr] at hused h1
      exact ih (by omega) h1

theorem syncLrs (h : P s) : P (s.syncLrs e line v loaded (s.ctx v).lrs.used 0) :=
  syncLrs_rule (fun hidx h => K.settleLr (fun ha => ⟨_, hidx, ha, rfl⟩) h) _ (zero_add _) h

theorem restoreTimer (hW : W) (h : P s) : P (s.restoreTimer e v) := by
  rw [Core.restoreTimer]
  split
  · exact K.requeueLr (fun _ => hW) rfl h
  · exact h

theorem reconcile (hW : loaded = true → W) (hold : ∀ i, old.Any (Lr.PendingOf i) → R i) (h : P s) :
    P (s.reconcile e line c v loaded old eoi) := by
  rw [Core.reconcile]
  have h1 : P (s.completeReported e line c v old eoi) := by
    rw [completeReported]
    split
    · exact h
    · exact K.completeEoiLrs hold _ h
  have h2 : P ((s.completeReported e line c v old eoi).syncLostLrs e line v loaded eoi
      old) := K.syncLostLrs hW hold h1
  split
  · next hl => exact K.restoreTimer (hW hl) (K.syncLrs h2)
  · exact K.syncLrs h2

theorem readBack (hL : L s) (h : P s) :
    P (s.readBack e v) := K.writeHcr (K.read hL (fun _ => rfl) h)

theorem syncVcpu (hL : isCurrent = true ∨ e.vcpuIsLoaded c v = true → L s) (h : P s) :
    P (s.syncVcpu e line c isCurrent v) := by
  have hold : ∀ i, (s.ctx v).lrs.Any (Lr.PendingOf i) → R i := fun _ => K.licence h
  rw [Core.syncVcpu]
  split
  · exact h
  split
  · next hl =>
    have hs := hL (Bool.or_eq_true_iff.mp hl)
    exact K.reconcile (fun _ => K.here hs) hold (K.readBack hs h)
  · exact K.reconcile (fun he => absurd he (by decide)) hold h

/-- A call that may find the vCPU loaded where it runs. -/
theorem syncOther (hL : e.vcpuIsLoaded c v = true → L s)
    (h : P s) : P (s.syncVcpu e line c false v) :=
  K.syncVcpu (fun hl => hL (hl.resolve_left (by decide))) h

theorem syncCurrent (hL : L s) (h : P s) :
    P (s.syncVcpu e line (some v) true v) := K.syncVcpu (fun _ => hL) h

/-! ## Flush -/

theorem handOver (h : P s) : P (s.handOver v lpi i) := by
  rw [Core.handOver]
  split
  · exact K.lower _ h
  · exact h

theorem takeLr (hp : (s.irq v i).pending = true) (h : P s)
    (ht : s.takeLr e v i (makeLr (s.irq v i)) = some s') : P s' := by
  obtain ⟨f, rfl, ⟨idx, hf, rfl⟩ | ⟨hf, hroom, rfl⟩⟩ := takeLr_eq ht
  · obtain ⟨hlt, hof⟩ := find_some hf
    exact K.refresh hlt hof (fun _ => hp) (fun ha => .inl ha) (.inl hp) h
  · exact K.push hp hroom (find_none hf) h

theorem flushIrq (h : P s) (hf : s.flushIrq e v lpi i = some s') : P s' := by
  obtain ⟨-, rfl⟩ | ⟨-, rfl⟩ | ⟨hp, s₁, ht, rfl⟩ := flushIrq_cases hf
  · exact K.lower _ h
  · exact h
  · exact K.handOver (K.takeLr hp h ht)

theorem flushBits (l : List Nat) (h : P s) : P (s.flushBits e v lpi l) :=
  flushBits_rule K.flushIrq K.raiseUie l h

theorem flushWords (l : List Nat) (h : P s) : P (s.flushWords e v lpi l) :=
  flushWords_rule K.flushIrq K.raiseUie l h

theorem flushScan (h : P s) : P (s.flushScan e v) :=
  flushScan_rule K.flushIrq K.raiseUie (K.ctx (fun _ => rfl) h)

theorem flushVcpu (hW : isCurrent = true ∨ e.vcpuIsLoaded c v = true → W) (h : P s) :
    P (s.flushVcpu e c isCurrent v) := by
  rw [Core.flushVcpu]
  split
  · exact h
  split
  · next hl =>
    exact K.write (hW (Bool.or_eq_true_iff.mp hl)) (fun _ => rfl)
      (K.flushScan (K.ctx (fun _ => rfl) h))
  · exact K.flushScan h

theorem flushFrom {cur : Vid} (hW : v = cur → W)
    (h : P s) : P (s.flushVcpu e (some cur) (v == cur) v) := by
  refine K.flushVcpu ?_ h
  rintro (hc | hl)
  · exact hW (beq_iff_eq.mp hc)
  · rw [Env.vcpuIsLoaded, Bool.and_eq_true, beq_iff_eq] at hl
    exact hW (Option.some.inj hl.1).symm

omit K in
theorem flushVm {R A : Vid → Nat → Prop} {L : Vid → Core → Prop} {W : Vid → Prop}
    (K : ∀ w, Closed e.lrCount w (R w) (A w) (L w) (W w) P) (hW : W v) (h : P s) :
    P (s.flushVm e v) :=
  List.foldlRecOn _ _ h fun _ h w _ => (K w).flushFrom (fun he => he ▸ hW) h

theorem flushIfLoaded
    (hW : e.vcpuIsLoaded c v = true → W) (h : P s) : P (s.flushIfLoaded e c v) := by
  rw [Core.flushIfLoaded]
  split
  · next hl => exact K.flushVcpu (fun _ => hW hl) h
  · exact h

/-! ## The calls -/

theorem injectLocked {level : Bool} (hR : R i) (hL : e.vcpuIsLoaded c v = true → L s) (h : P s) :
    P (s.injectLocked e line c v i level) := by
  rw [Core.injectLocked]
  split
  · exact K.flushIfLoaded (fun hl => K.here (hL hl))
      (K.raise (.inl hR) (K.setLevel (K.syncOther hL h)))
  · exact h

theorem dropLr (h : P s) : P (s.dropLr v i) := by
  rw [Core.dropLr]
  split
  · exact K.remove _ h
  · exact h

theorem clearIrq (hL : e.vcpuIsLoaded c v = true → L s)
    (h : P s) : P (s.clearIrq e line c v i) := by
  rw [Core.clearIrq]
  split
  · exact K.flushIfLoaded (fun hl => K.here (hL hl))
      (K.drop _ (K.lower _ (K.dropLr (K.syncOther hL h))))
  · exact h

theorem updateIrqLr (h : P s) : P (s.updateIrqLr v i) := by
  rw [Core.updateIrqLr, K.virq h i]
  split
  · next idx hf =>
    obtain ⟨hlt, hof⟩ := find_some hf
    by_cases hd : ((s.irq v i).enabled && (s.irq v i).pending || (s.irq v i).active) = true
    · have hset := K.refresh hlt hof
        (fun hp => (Bool.and_eq_true_iff.mp hp).2) (fun ha => .inl ha)
        (Bool.or_eq_true_iff.mp hd) h
      have heq : refreshLr (s.irq v i) idx = fun t => t.set idx
          (makeLrState (s.irq v i) ((s.irq v i).enabled && (s.irq v i).pending)
            (s.irq v i).active) := by
        funext t
        rw [refreshLr, if_pos hd]
      rw [heq]
      exact hset
    · have heq : refreshLr (s.irq v i) idx = fun t => t.remove {} idx := by
        funext t
        rw [refreshLr, if_neg hd]
      rw [heq]
      exact K.remove idx h
  · exact h

theorem updateIrqRowLr (h : P s) : P (s.updateIrqRowLr e v i) := by
  rw [Core.updateIrqRowLr]
  split
  · exact K.updateIrqLr h
  · exact h

theorem deassertIrq (hL : e.vcpuIsLoaded c v = true → L s) (h : P s) :
    P (s.deassertIrq e line c v i) := by
  rw [Core.deassertIrq]
  split
  · exact K.flushIfLoaded (fun hl => K.here (hL hl)) (K.updateIrqLr (K.lower _ (K.syncOther hL h)))
  · exact h

theorem deactivateIrq (hL : L s) (h : P s) : P (s.deactivateIrq e line v i) := by
  rw [Core.deactivateIrq]
  split
  · exact h
  have h1 : P (s.syncVcpu e line (some v) true v) := K.syncCurrent hL h
  split
  · refine K.setPending (fun hk => ?_) (K.drop _ (K.dropLr h1))
    split at hk
    · next ht =>
      rw [Bool.and_eq_true, isVtimer_iff] at ht
      exact .inl (ht.1 ▸ K.timer)
    -- a level that was pending stays so
    refine .inr ?_
    have hp := (Bool.and_eq_true_iff.mp hk).2
    have hirq : ∀ t : Core, (t.dropLr v i).irq = t.irq := by
      intro t
      rw [Core.dropLr]
      split <;> rfl
    show (((Core.dropLr v i _).setActive v i false).irq v i).pending = true
    rw [Core.setActive, Core.modIrq_self, hirq]
    exact hp
  · exact h1

theorem syncFlush (hL : L s) (h : P s) : P (s.syncFlush e line v) :=
  K.flushVcpu (fun _ => K.here hL) (K.syncCurrent hL h)

theorem refreshCurrentLevelIrq (hL : L s) (h : P s) : P (s.refreshCurrentLevelIrq e line v i) := by
  rw [Core.refreshCurrentLevelIrq]
  split
  · exact K.syncFlush hL h
  · exact h

theorem setTimerLine (h : P s) : P (s.setTimerLine e v b) := by
  rw [Core.setTimerLine]
  split
  · have h1 : P ((s.setLevel v ppiVirtualTimer true).setPending v ppiVirtualTimer b) :=
      K.setPending (fun _ => .inl (K.timer)) (K.setLevel h)
    have hp : (((s.setLevel v ppiVirtualTimer true).setPending v ppiVirtualTimer
        b).irq v ppiVirtualTimer).pending = b := by
      rw [setPending_pending, if_pos ⟨rfl, rfl⟩]
    rw [refreshTimerLr]
    split
    · exact h1
    rename_i idx hf
    obtain ⟨hlt, hof⟩ := find_some hf
    split
    · next hc =>
      refine K.refresh hlt hof (fun hb => by rw [hp]; exact hb) (fun ha => .inr ha)
        (Bool.or_eq_true_iff.mp hc) h1
    · exact K.remove _ h1
  · exact h

theorem syncCurrentTimerLine (hL : L s) (h : P s) : P (s.syncCurrentTimerLine e line v b) := by
  rw [Core.syncCurrentTimerLine]
  have h1 : P (s.syncVcpu e line (some v) true v) := K.syncCurrent hL h
  split
  · exact K.flushVcpu (fun _ => K.here hL) (K.setTimerLine h1)
  · exact h1

theorem completeWfiLrs (k : Nat) (h : P s) : P (s.completeWfiLrs e line v k idx) := by
  induction k generalizing s idx with
  | zero => exact h
  | succ k ih =>
    have h1 : P (s.completeWfiLr e line v idx).1 := by
      rw [completeWfiLr, settleWfiLr]
      split
      · exact K.remove _ (K.drop _ h)
      split
      · next ht =>
        simp only [Bool.and_eq_true, isVtimer_iff] at ht
        exact K.completeTimerLr ht.1.1.2 h
      · exact h
    rw [completeWfiLrs]
    split <;> exact ih h1

theorem completeWfiIrqs (hL : L s) (h : P s) : P (s.completeWfiIrqs e line v) :=
  K.flushVcpu (fun _ => K.here hL) (K.completeWfiLrs _ (K.syncCurrent hL h))

theorem hasPendingIrq (h : P s) : P (s.hasPendingIrq e c v).2 := by
  show P (s.queryCpuif e c v)
  rw [queryCpuif]
  split
  · exact K.ctx (fun _ => rfl) h
  · exact h

omit K in
theorem controlWrite_lrs {x y : Ctx} (h : controlWrite r val x = some y) : y.lrs = x.lrs := by
  cases r with
  | sre | pmr | ctlr => injection h with h; rw [← h]
  | igrpen1 =>
    rw [controlWrite] at h
    split at h <;> (injection h with h; rw [← h])
  | dir => cases h
  | rpr => cases h

theorem cpuifWrite (hL : L s) (h : P s) : P (s.cpuifWrite e line v r val) := by
  rw [Core.cpuifWrite]
  split
  · next x hx =>
    refine K.flushVcpu (fun _ => K.here hL) ?_
    have h1 : P (s.modCtx v fun _ => x) := by
      have hset : (s.modCtx v fun _ => x) =
          s.modCtx v fun y => { x with lrs := y.lrs } := by
        rw [modCtx, modCtx, ← controlWrite_lrs hx]
      rw [hset]
      exact K.ctx (fun _ => rfl) h
    rw [writeCpuifControl]
    split
    · exact K.ich (fun _ => rfl) h1
    · exact h1
  · split
    · exact K.flushVcpu (fun _ => K.here hL) (K.deactivateIrq hL h)
    · exact h

omit K

theorem restrict (K : Closed n v R A L W P) (hL : ∀ {s}, L' s → L s) (hW : W' → W)
    (hLW : ∀ {s}, L' s → W') : Closed n v R A L' W' P :=
  { K with
    read := fun hl => K.read (hL hl)
    write := fun hw => K.write (hW hw)
    writeOne := fun hw => K.writeOne (hW hw)
    here := hLW }

theorem and {R' A' : Nat → Prop} {P' : Core → Prop} (K : Closed n v R A L W P)
    (K' : Closed n v R' A' L' W' P') :
    Closed n v (fun i => R i ∧ R' i) (fun i => A i ∧ A' i) (fun s => L s ∧ L' s)
      (W ∧ W') (fun s => P s ∧ P' s) where
  virq h := K.virq h.1
  lower i h := ⟨K.lower i h.1, K'.lower i h.2⟩
  raise hr h := ⟨K.raise (hr.imp_left And.left) h.1, K'.raise (hr.imp_left And.right) h.2⟩
  drop i h := ⟨K.drop i h.1, K'.drop i h.2⟩
  activate ha h := ⟨K.activate (ha.imp_left And.left) h.1, K'.activate (ha.imp_left And.right) h.2⟩
  config i hf h := ⟨K.config i hf h.1, K'.config i hf h.2⟩
  remove idx h := ⟨K.remove idx h.1, K'.remove idx h.2⟩
  refresh hi ho hp ha hb h := ⟨K.refresh hi ho hp ha hb h.1, K'.refresh hi ho hp ha hb h.2⟩
  push hp hu hn h := ⟨K.push hp hu hn h.1, K'.push hp hu hn h.2⟩
  ctx hf h := ⟨K.ctx hf h.1, K'.ctx hf h.2⟩
  read hl hf h := ⟨K.read hl.1 hf h.1, K'.read hl.2 hf h.2⟩
  ich hf h := ⟨K.ich hf h.1, K'.ich hf h.2⟩
  write hw hf h := ⟨K.write hw.1 hf h.1, K'.write hw.2 hf h.2⟩
  writeOne hw ht h := ⟨K.writeOne hw.1 ht h.1, K'.writeOne hw.2 ht h.2⟩
  licence h ha := ⟨K.licence h.1 ha, K'.licence h.2 ha⟩
  timer := ⟨K.timer, K'.timer⟩
  here hl := ⟨K.here hl.1, K'.here hl.2⟩

/-- A fact that no write touches may be carried along, and used. -/
theorem given {p : Prop} (ht : R ppiVirtualTimer) (hL : ∀ {s}, L s → W)
    (K : p → Closed n v R A L W P) : Closed n v R A L W (fun s => p ∧ P s) where
  virq h := (K h.1).virq h.2
  lower i h := ⟨h.1, (K h.1).lower i h.2⟩
  raise hr h := ⟨h.1, (K h.1).raise hr h.2⟩
  drop i h := ⟨h.1, (K h.1).drop i h.2⟩
  activate ha h := ⟨h.1, (K h.1).activate ha h.2⟩
  config i hf h := ⟨h.1, (K h.1).config i hf h.2⟩
  remove idx h := ⟨h.1, (K h.1).remove idx h.2⟩
  refresh hi ho hp ha hb h := ⟨h.1, (K h.1).refresh hi ho hp ha hb h.2⟩
  push hp hu hn h := ⟨h.1, (K h.1).push hp hu hn h.2⟩
  ctx hf h := ⟨h.1, (K h.1).ctx hf h.2⟩
  read hl hf h := ⟨h.1, (K h.1).read hl hf h.2⟩
  ich hf h := ⟨h.1, (K h.1).ich hf h.2⟩
  write hw hf h := ⟨h.1, (K h.1).write hw hf h.2⟩
  writeOne hw ht h := ⟨h.1, (K h.1).writeOne hw ht h.2⟩
  licence h := (K h.1).licence h.2
  timer := ht
  here := hL

end Closed

/-! ## Rows do not interfere -/

/-- The row of `w` is as it was. -/
structure SameRow (w : Vid) (s₀ s : Core) : Prop where
  ids : ∀ v i, (s.irq v i).virq = i
  irq : s.irq w = s₀.irq w
  ctx : s.ctx w = s₀.ctx w
  ich : s.ich w = s₀.ich w

namespace SameRow

variable {v w : Vid} {s₀ s : Core} {i : Nat}

variable (hw : w ≠ v)

include hw

variable (h : SameRow w s₀ s)

include h

theorem modIrq {f : VgicIrq → VgicIrq} (hf : ∀ d, (f d).virq = d.virq) :
    SameRow w s₀ (s.modIrq v i f) := by
  refine ⟨fun u j => ?_, ?_, h.ctx, h.ich⟩
  · rw [modIrq_irq]
    split
    · next hu => rw [hf, h.ids, hu.2]
    · exact h.ids u j
  · rw [← h.irq]
    exact update_of_ne hw ..

theorem setPending {b : Bool} : SameRow w s₀ (s.setPending v i b) := by
  have h1 := h.modIrq (i := i) (f := fun d => { d with pending := b }) hw fun _ => rfl
  refine ⟨?_, ?_, ?_, ?_⟩
  · rw [setPending_irq]
    exact h1.ids
  · rw [setPending_irq]
    exact h1.irq
  · rw [setPending_ctx]
    exact h.ctx
  · rw [setPending_ich]
    exact h.ich

theorem modCtx {f : Ctx → Ctx} : SameRow w s₀ (s.modCtx v f) :=
  ⟨h.ids, h.irq, (modCtx_other s v f hw).trans h.ctx, h.ich⟩

theorem modLrs {f : Slots Lr → Slots Lr} : SameRow w s₀ (s.modLrs v f) := h.modCtx hw

theorem modIch {f : CpuIf → CpuIf} : SameRow w s₀ (s.modIch v f) :=
  ⟨h.ids, h.irq, h.ctx, (modIch_other s v f hw).trans h.ich⟩

omit h

theorem closed {n : Nat} :
    Closed n v (fun _ => True) (fun _ => True) (fun _ => True) True (SameRow w s₀) where
  virq h := h.ids v
  lower _ h := h.setPending hw
  raise _ h := h.setPending hw
  drop _ h := h.modIrq hw fun _ => rfl
  activate _ h := h.modIrq hw fun _ => rfl
  config _ hf h := h.modIrq hw fun d => (hf d).1
  remove _ h := h.modLrs hw
  refresh _ _ _ _ _ h := h.modLrs hw
  push _ _ _ h := h.modLrs hw
  ctx _ h := h.modCtx hw
  read _ _ h := h.modCtx hw
  ich _ h := h.modIch hw
  write _ _ h := h.modIch hw
  writeOne _ _ h := by
    rw [writeLr, if_pos rfl]
    exact h.modIch hw
  licence _ _ := trivial
  timer := trivial
  here _ := trivial

omit hw

end SameRow

end Sima.Vgic
