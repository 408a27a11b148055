import Sima.Vgic.Index

/-!
# A vCPU that is let sleep has nothing to take

After a flush every deliverable interrupt that is pending has a list register with
its pending bit set — unless the flush ran out of list registers, and then the
interrupt it stopped at is pending, deliverable and without one. The check before
WFI sees both: the first by looking at the list registers, the second by looking
at the descriptors that the bitmap names.

The level interrupts are why the flush matters. The check takes a pending level
that has a list register for progress already made, whatever that list register
says; only right after a flush does it say `pending`.
-/

namespace Sima.Vgic

open Lib

namespace Core

/-- The pending flag of a deliverable interrupt shows in a list register. -/
def Served (e : Env) (v : Vid) (i : Nat) (s : Core) : Prop :=
  (s.irq v i).pending = true → s.irqDeliverable e v (s.irq v i) = true →
    (s.ctx v).lrs.Any (Lr.PendingOf i)

/-- A deliverable interrupt that found all list registers taken. -/
structure Stuck (e : Env) (v : Vid) (i : Nat) (s : Core) : Prop where
  pending : (s.irq v i).pending = true
  deliverable : s.irqDeliverable e v (s.irq v i) = true
  absent : ¬ (s.ctx v).lrs.Any (Lr.Of i)
  full : e.lrCount ≤ (s.ctx v).lrs.used

variable {e : Env} {v : Vid} {i j : Nat} {s s' : Core} {lpi : Bool}

/-! ## One interrupt of the scan -/

theorem deliverable_congr {d : VgicIrq} (h : (s'.ctx v).vmcr = (s.ctx v).vmcr) :
    s'.irqDeliverable e v d = s.irqDeliverable e v d := by
  rw [irqDeliverable, irqDeliverable, h]

theorem setPending_other {w : Vid} {b : Bool} (h : j ≠ i) :
    (s.setPending v i b).irq w j = s.irq w j := by
  rw [setPending_irq, modIrq_irq, if_neg fun he => h he.2]

theorem handOver_ctx : (s.handOver v lpi i).ctx = s.ctx := by
  rw [handOver]
  split
  · rw [setPending_ctx]
  · rfl

theorem handOver_other (h : j ≠ i) : (s.handOver v lpi i).irq v j = s.irq v j := by
  rw [handOver]
  split
  · exact setPending_other h
  · rfl

theorem flushIrq_regs (h : s.flushIrq e v lpi i = some s') :
    (s'.ctx v).vmcr = (s.ctx v).vmcr ∧ (s'.ctx v).hcr = (s.ctx v).hcr := by
  obtain ⟨-, rfl⟩ | ⟨-, rfl⟩ | ⟨-, s₁, ht, rfl⟩ := flushIrq_cases h
  · rw [setPending_ctx]
    exact ⟨rfl, rfl⟩
  · exact ⟨rfl, rfl⟩
  · obtain ⟨f, rfl, -⟩ := takeLr_eq ht
    rw [handOver_ctx, modLrs, modCtx_self]
    exact ⟨rfl, rfl⟩

theorem flushIrq_other (hij : j ≠ i) (h : s.flushIrq e v lpi i = some s') :
    s'.irq v j = s.irq v j := by
  obtain ⟨-, rfl⟩ | ⟨-, rfl⟩ | ⟨-, s₁, ht, rfl⟩ := flushIrq_cases h
  · exact setPending_other hij
  · rfl
  · obtain ⟨f, rfl, -⟩ := takeLr_eq ht
    rw [handOver_other hij, modLrs_irq]

section

variable (hvirq : (s.irq v i).virq = i) (h : s.flushIrq e v lpi i = some s')

include hvirq h

theorem flushIrq_lrs {P : Lr → Prop} (hP : ∀ lr, P lr → lr.vintid ≠ i) :
    (s'.ctx v).lrs.Any P ↔ (s.ctx v).lrs.Any P := by
  obtain ⟨-, rfl⟩ | ⟨-, rfl⟩ | ⟨-, s₁, ht, rfl⟩ := flushIrq_cases h
  · rw [setPending_ctx]
  · rfl
  have hnew : ¬ P (makeLr (s.irq v i)) := fun hp => hP _ hp hvirq
  obtain ⟨f, rfl, ⟨idx, hf, rfl⟩ | ⟨-, -, rfl⟩⟩ := takeLr_eq ht
  · rw [handOver_ctx, modLrs_self]
    have hold : ¬ P ((s.ctx v).lrs.slot idx) := fun hp => hP _ hp (find_some hf).2.2
    exact ⟨fun ha => (Slots.any_set ha).resolve_left hnew,
      fun ha => ha.set fun hp => absurd hp hold⟩
  · rw [handOver_ctx, modLrs_self, Slots.any_push, or_iff_left hnew]

theorem flushIrq_self : Served e v i s' := by
  obtain ⟨-, rfl⟩ | ⟨hd, rfl⟩ | ⟨hp, s₁, ht, rfl⟩ := flushIrq_cases h
  · intro hp
    rw [setPending_pending, if_pos ⟨rfl, rfl⟩] at hp
    cases hp
  · intro _ hd'
    rw [hd] at hd'
    cases hd'
  · intro _ _
    have hlr : (makeLr (s.irq v i)).PendingOf i := ⟨(makeLrState_isPending ..).trans hp, hvirq⟩
    obtain ⟨f, rfl, ⟨idx, hf, rfl⟩ | ⟨-, -, rfl⟩⟩ := takeLr_eq ht
    · rw [handOver_ctx, modLrs_self]
      exact Slots.any_set_self (find_some hf).1 hlr
    · rw [handOver_ctx, modLrs_self, Slots.any_push]
      exact .inr hlr

theorem flushIrq_served (hj : Served e v j s) : Served e v j s' := by
  by_cases hji : j = i
  · exact hji ▸ flushIrq_self hvirq h
  intro hp hd
  rw [flushIrq_other hji h] at hp hd
  rw [deliverable_congr (flushIrq_regs h).1] at hd
  refine (flushIrq_lrs hvirq h fun lr hlr he => hji ?_).mpr (hj hp hd)
  exact hlr.2.symm.trans he

theorem flushIrq_stuck (hji : j ≠ i) (hj : Stuck e v j s) : Stuck e v j s' := by
  refine ⟨?_, ?_, fun ha => hj.absent ?_, ?_⟩
  · rw [flushIrq_other hji h]
    exact hj.pending
  · rw [deliverable_congr (flushIrq_regs h).1, flushIrq_other hji h]
    exact hj.deliverable
  · refine (flushIrq_lrs hvirq h fun lr hlr he => hji ?_).mp ha
    exact hlr.2.symm.trans he
  · -- there is no room for another one
    obtain ⟨-, rfl⟩ | ⟨-, rfl⟩ | ⟨-, s₁, ht, rfl⟩ := flushIrq_cases h
    · rw [setPending_ctx]
      exact hj.full
    · exact hj.full
    obtain ⟨f, rfl, ⟨idx, -, rfl⟩ | ⟨-, hroom, -⟩⟩ := takeLr_eq ht
    · rw [handOver_ctx, modLrs_self]
      exact hj.full
    · exact absurd hj.full (Nat.not_le_of_lt hroom)

end

theorem flushIrq_none (h : s.flushIrq e v lpi i = none) : Stuck e v i s := by
  rw [flushIrq] at h
  split at h
  · cases h
  rename_i hp
  split at h
  · cases h
  rename_i hd
  rw [takeLr] at h
  split at h
  · cases h
  rename_i hf
  split at h
  · next hfull => exact ⟨by simpa using hp, by simpa using hd, find_none hf, hfull⟩
  · cases h

/-! ## The scan -/

theorem raiseUie_lrs : ((s.raiseUie v).ctx v).lrs = (s.ctx v).lrs := by
  rw [raiseUie, modCtx_self]

theorem raiseUie_vmcr : ((s.raiseUie v).ctx v).vmcr = (s.ctx v).vmcr := by
  rw [raiseUie, modCtx_self]

theorem raiseUie_stuck (h : Stuck e v i s) : Stuck e v i (s.raiseUie v) where
  pending := h.pending
  deliverable := (deliverable_congr raiseUie_vmcr).trans h.deliverable
  absent := by rw [raiseUie_lrs]; exact h.absent
  full := by rw [raiseUie_lrs]; exact h.full

theorem raiseUie_served (h : Served e v i s) : Served e v i (s.raiseUie v) := by
  intro hp hd
  rw [raiseUie_lrs]
  exact h hp ((deliverable_congr raiseUie_vmcr).symm.trans hd)

theorem flushBits_keeps (hs : Indexed s) (lpi : Bool) (l : List Nat) :
    (Served e v j s → Served e v j (s.flushBits e v lpi l)) ∧
      (j ∉ l → Stuck e v j s → Stuck e v j (s.flushBits e v lpi l)) := by
  induction l generalizing s with
  | nil => exact ⟨id, fun _ => id⟩
  | cons i l ih =>
    rw [flushBits]
    cases hf : s.flushIrq e v lpi i with
    | none => exact ⟨raiseUie_served, fun _ => raiseUie_stuck⟩
    | some s' =>
      have hvirq := hs.virq v i
      have hk := ih ((Indexed.closed e.lrCount v).flushIrq hs hf)
      refine ⟨fun h => hk.1 (flushIrq_served hvirq hf h), fun hj h => ?_⟩
      rw [List.mem_cons, not_or] at hj
      exact hk.2 hj.2 (flushIrq_stuck hvirq hf hj.1 h)

/-- A word of the scan serves its interrupts or gets stuck at one of them, which the
underflow bit tells. -/
theorem flushBits_serves (hs : Indexed s) (lpi : Bool) (l : List Nat) :
    ((∃ j ∈ l, Stuck e v j (s.flushBits e v lpi l)) ∧
        hasBits ((s.flushBits e v lpi l).ctx v).hcr ichHcrUie = true) ∨
      (((s.flushBits e v lpi l).ctx v).hcr = (s.ctx v).hcr ∧
        ∀ j ∈ l, Served e v j (s.flushBits e v lpi l)) := by
  induction l generalizing s with
  | nil => exact .inr ⟨rfl, fun j hj => absurd hj List.not_mem_nil⟩
  | cons i l ih =>
    rw [flushBits]
    cases hf : s.flushIrq e v lpi i with
    | none =>
      refine .inl ⟨⟨i, List.mem_cons_self, raiseUie_stuck (flushIrq_none hf)⟩, ?_⟩
      show hasBits ((s.raiseUie v).ctx v).hcr ichHcrUie = true
      rw [raiseUie, modCtx_self]
      exact hasBits_or _ (by decide)
    | some s' =>
      have hs' := (Indexed.closed e.lrCount v).flushIrq hs hf
      obtain ⟨⟨j, hj, hst⟩, hu⟩ | ⟨hh, hall⟩ := ih hs'
      · exact .inl ⟨⟨j, List.mem_cons_of_mem _ hj, hst⟩, hu⟩
      refine .inr ⟨hh.trans (flushIrq_regs hf).2, fun j hj => ?_⟩
      rcases List.mem_cons.mp hj with rfl | hj
      · exact (flushBits_keeps hs' lpi l).1 (flushIrq_self (hs.virq v _) hf)
      · exact hall j hj

theorem flushWords_keeps (hs : Indexed s) (l : List Nat) :
    (Served e v j s → Served e v j (s.flushWords e v lpi l)) ∧
      ((∀ s' word, j ∉ wordIrqs v lpi word s') → Stuck e v j s →
        Stuck e v j (s.flushWords e v lpi l)) := by
  induction l generalizing s with
  | nil => exact ⟨id, fun _ => id⟩
  | cons word l ih =>
    rw [flushWords]
    have hk := flushBits_keeps (e := e) (v := v) (j := j) hs lpi (s.wordIrqs v lpi word)
    have hs' : Indexed (s.flushBits e v lpi (s.wordIrqs v lpi word)) :=
      (Indexed.closed e.lrCount v).flushBits _ hs
    have hw := ih hs'
    split
    · exact ⟨hk.1, fun hj h => hk.2 (hj s word) h⟩
    · exact ⟨fun h => hw.1 (hk.1 h), fun hj h => hw.2 hj (hk.2 (hj s word) h)⟩

/-- The interrupts that the scan of a bitmap is to find, and the words they are in. -/
def Scanned : Bool → Nat → Prop
  | false, i => i < irqNum
  | true, i => isLpi i = true

def scanWords : Bool → Nat
  | false => irqWords
  | true => lpiWords

def scanWord : Bool → Nat → Nat
  | false, i => i / 32
  | true, i => (i - lpiBase) / 32

theorem Scanned.word_lt (lpi : Bool) (hi : Scanned lpi i) : scanWord lpi i < scanWords lpi := by
  cases lpi with
  | false =>
    rw [Scanned] at hi
    have : irqNum = irqWords * 32 := rfl
    rw [scanWord, scanWords]
    omega
  | true =>
    simp only [Scanned, isLpi, Bool.and_eq_true, decide_eq_true_eq] at hi
    have : lpiNum = lpiWords * 32 := rfl
    rw [scanWord, scanWords]
    omega

theorem mem_wordIrqs (hs : Indexed s) (hi : Scanned lpi i)
    (hp : (s.irq v i).pending = true) : i ∈ s.wordIrqs v lpi (scanWord lpi i) := by
  cases lpi with
  | false =>
    rw [← hs.bit v i hi] at hp
    rw [wordIrqs, if_neg (by decide), List.mem_map, scanWord]
    exact ⟨i % 32, Bitmap.test_scan hp, by omega⟩
  | true =>
    rw [← hs.lpiBit v i hi] at hp
    simp only [Scanned, isLpi, Bool.and_eq_true, decide_eq_true_eq] at hi
    rw [wordIrqs, if_pos rfl, List.mem_map, scanWord]
    exact ⟨(i - lpiBase) % 32, Bitmap.test_scan hp, by omega⟩

theorem scanned_of_mem {word : Nat} (hword : word < scanWords lpi)
    (h : i ∈ s.wordIrqs v lpi word) : Scanned lpi i := by
  cases lpi with
  | false =>
    rw [wordIrqs, if_neg (by decide), List.mem_map] at h
    obtain ⟨k, hk, rfl⟩ := h
    have := (Bitmap.mem_scan.mp hk).1
    have : irqNum = irqWords * 32 := rfl
    rw [scanWords] at hword
    rw [Scanned]
    omega
  | true =>
    rw [wordIrqs, if_pos rfl, List.mem_map] at h
    obtain ⟨k, hk, rfl⟩ := h
    have := (Bitmap.mem_scan.mp hk).1
    have : lpiNum = lpiWords * 32 := rfl
    rw [scanWords] at hword
    simp only [Scanned, isLpi, Bool.and_eq_true, decide_eq_true_eq]
    omega

/-- A scan that starts with the underflow bit clear serves all its interrupts, or gets
stuck at one of them and says so. -/
theorem flushWords_serves (hs : Indexed s)
    (hclear : hasBits (s.ctx v).hcr ichHcrUie = false) (l : List Nat)
    (hl : ∀ word ∈ l, word < scanWords lpi) :
    ((∃ j, Scanned lpi j ∧ Stuck e v j (s.flushWords e v lpi l)) ∧
        hasBits ((s.flushWords e v lpi l).ctx v).hcr ichHcrUie = true) ∨
      (hasBits ((s.flushWords e v lpi l).ctx v).hcr ichHcrUie = false ∧
        ∀ i, Scanned lpi i → scanWord lpi i ∈ l → Served e v i (s.flushWords e v lpi l)) := by
  induction l generalizing s with
  | nil => exact .inr ⟨hclear, fun i _ hi => absurd hi List.not_mem_nil⟩
  | cons word l ih =>
    rw [flushWords]
    have hword := hl word List.mem_cons_self
    have hs' : Indexed (s.flushBits e v lpi (s.wordIrqs v lpi word)) :=
      (Indexed.closed e.lrCount v).flushBits _ hs
    obtain ⟨⟨j, hj, hst⟩, hu⟩ | ⟨hh, hall⟩ :=
      flushBits_serves hs lpi (s.wordIrqs v lpi word)
    · rw [if_pos hu]
      exact .inl ⟨⟨j, scanned_of_mem hword hj, hst⟩, hu⟩
    rw [← hh] at hclear
    rw [if_neg (by rw [hclear]; decide)]
    obtain hst | ⟨hc, hok⟩ := ih hs' hclear fun w hw => hl w (List.mem_cons_of_mem _ hw)
    · exact .inl hst
    refine .inr ⟨hc, fun i hi hm => ?_⟩
    rcases List.mem_cons.mp hm with rfl | hm
    · refine (flushWords_keeps hs' l).1 ?_
      by_cases hscan : i ∈ s.wordIrqs v lpi (scanWord lpi i)
      · exact hall i hscan
      · -- its bit is clear, it is not pending
        exact (flushBits_keeps hs lpi _).1 fun hp => absurd (mem_wordIrqs hs hi hp) hscan
    · exact hok i hi hm

theorem flushWords_range (lpi : Bool) (hs : Indexed s)
    (hclear : hasBits (s.ctx v).hcr ichHcrUie = false) :
    ((∃ j, Scanned lpi j ∧ Stuck e v j (s.flushWords e v lpi (List.range (scanWords lpi)))) ∧
        hasBits ((s.flushWords e v lpi (List.range (scanWords lpi))).ctx v).hcr ichHcrUie = true) ∨
      (hasBits ((s.flushWords e v lpi (List.range (scanWords lpi))).ctx v).hcr ichHcrUie = false ∧
        ∀ i, Scanned lpi i →
          Served e v i (s.flushWords e v lpi (List.range (scanWords lpi)))) := by
  refine (flushWords_serves hs hclear _ fun _ => List.mem_range.mp).imp_right fun h => ?_
  exact ⟨h.1, fun i hi => h.2 i hi (List.mem_range.mpr (Scanned.word_lt lpi hi))⟩

theorem flushWords_uie (l : List Nat) (h : hasBits (s.ctx v).hcr ichHcrUie = true) :
    hasBits ((s.flushWords e v lpi l).ctx v).hcr ichHcrUie = true := by
  refine flushWords_rule (P := fun s => hasBits (s.ctx v).hcr ichHcrUie = true)
    (fun h hf => ?_) (fun _ => ?_) l h
  · rw [(flushIrq_regs hf).2]
    exact h
  · rw [raiseUie, modCtx_self]
    exact hasBits_or _ (by decide)

/-- After both scans: an interrupt of the first is stuck, or all of the first are
served and the same goes for the second. -/
theorem flushScan_serves (hs : Indexed s) :
    ((∃ j, Scanned false j ∧ Stuck e v j (s.flushScan e v)) ∧
        hasBits ((s.flushScan e v).ctx v).hcr ichHcrUie = true) ∨
      (∀ i, Scanned false i → Served e v i (s.flushScan e v)) ∧ (e.itsEnabled = true →
          ((∃ j, Scanned true j ∧ Stuck e v j (s.flushScan e v)) ∧
            hasBits ((s.flushScan e v).ctx v).hcr ichHcrUie = true) ∨
          ∀ i, Scanned true i → Served e v i (s.flushScan e v)) := by
  rw [flushScan]
  generalize hs₀ : (s.modCtx v fun c => { c with hcr := c.hcr &&& ~~~ichHcrUie }) = s₀
  have hi₀ : Indexed s₀ := hs₀ ▸ ⟨hs.virq, hs.bit, hs.lpiBit⟩
  have hclear : hasBits (s₀.ctx v).hcr ichHcrUie = false := by
    rw [← hs₀, modCtx_self]
    exact hasBits_clear _ _
  have hi₁ : Indexed (s₀.flushWords e v false (List.range irqWords)) :=
    (Indexed.closed e.lrCount v).flushWords _ hi₀
  -- no interrupt of the first scan is an LPI
  have hlpi : ∀ j, Scanned false j → ∀ s' word, j ∉ wordIrqs v true word s' := by
    intro j hj s' word hm
    have hj : j < irqNum := hj
    rw [wordIrqs, if_pos rfl, List.mem_map] at hm
    obtain ⟨k, -, rfl⟩ := hm
    have : irqNum ≤ lpiBase := by decide
    omega
  obtain ⟨⟨j, hj, hst⟩, hu⟩ | ⟨hc, hall⟩ := flushWords_range false hi₀ hclear
  · left
    split
    · exact ⟨⟨j, hj, (flushWords_keeps hi₁ _).2 (hlpi j hj) hst⟩, flushWords_uie _ hu⟩
    · exact ⟨⟨j, hj, hst⟩, hu⟩
  · right
    split
    · refine ⟨fun i hi => (flushWords_keeps hi₁ _).1 (hall i hi), fun _ => ?_⟩
      exact (flushWords_range true hi₁ hc).imp_right fun h => h.2
    · next hits => exact ⟨hall, fun h => absurd h hits⟩

/-- What a scan leaves alone: the hardware, the controls, and the other vCPUs. -/
structure ScanFrame (v : Vid) (s s' : Core) : Prop where
  ich : s'.ich = s.ich
  vmcr : (s'.ctx v).vmcr = (s.ctx v).vmcr
  ctx : ∀ w, w ≠ v → s'.ctx w = s.ctx w

namespace ScanFrame

theorem refl : ScanFrame v s s := ⟨rfl, rfl, fun _ _ => rfl⟩

theorem trans {s₁ : Core} (h : ScanFrame v s s₁) (h' : ScanFrame v s₁ s') : ScanFrame v s s' :=
  ⟨h'.ich.trans h.ich, h'.vmcr.trans h.vmcr, fun w hw => (h'.ctx w hw).trans (h.ctx w hw)⟩

theorem modCtx {f : Ctx → Ctx} (hf : (f (s.ctx v)).vmcr = (s.ctx v).vmcr) :
    ScanFrame v s (s.modCtx v f) :=
  ⟨rfl, by rw [modCtx_self]; exact hf, fun _ hw => modCtx_other s v f hw⟩

theorem modLrs {f : Slots Lr → Slots Lr} : ScanFrame v s (s.modLrs v f) := modCtx rfl

theorem setPending {b : Bool} : ScanFrame v s (s.setPending v i b) :=
  ⟨setPending_ich .., by rw [setPending_ctx], fun _ _ => by rw [setPending_ctx]⟩

theorem flushIrq (h : s.flushIrq e v lpi i = some s') : ScanFrame v s s' := by
  obtain ⟨-, rfl⟩ | ⟨-, rfl⟩ | ⟨-, s₁, ht, rfl⟩ := flushIrq_cases h
  · exact setPending
  · exact refl
  obtain ⟨f, rfl, -⟩ := takeLr_eq ht
  refine (modLrs (f := f)).trans ?_
  rw [handOver]
  split
  · exact setPending
  · exact refl

theorem flushScan : ScanFrame v s (s.flushScan e v) :=
  flushScan_rule (fun h hf => h.trans (flushIrq hf)) (fun h => h.trans (modCtx rfl)) (modCtx rfl)

end ScanFrame

/-! ## The check -/

/-- What the check has to answer for: a pending list register, or a deliverable
descriptor that is pending. -/
structure Idle (e : Env) (v : Vid) (s : Core) : Prop where
  irq : ∀ i, e.hasDesc v i = true → s.irqDeliverable e v (s.irq v i) = true →
    (s.irq v i).pending = false
  ctx : ∀ i, ¬ (s.ctx v).lrs.Any (Lr.PendingOf i)
  ich : ∀ i, ¬ ((s.ich v).table e.lrCount).Any (Lr.PendingOf i)

/-- A check that finds nothing, in a state where every interrupt is served unless one
is stuck. -/
theorem idle_irq (hs : Indexed s)
    (hscan : (∃ j < irqNum, Stuck e v j s) ∨ ∀ i < irqNum, Served e v i s)
    (hctx : ∀ i, ¬ (s.ctx v).lrs.Any (Lr.PendingOf i))
    (hirq : ∀ word < irqWords, ∀ i ∈ s.wordIrqs v false word, s.wakes e v false i = false)
    (hlpi : e.itsEnabled = true → ∀ word < lpiWords, ∀ i ∈ s.wordIrqs v true word,
      s.wakes e v true i = false)
    (hdesc : e.hasDesc v i = true) (hd : s.irqDeliverable e v (s.irq v i) = true) :
    (s.irq v i).pending = false := by
  rw [Bool.eq_false_iff]
  intro hp
  by_cases hi : i < irqNum
  · rcases hscan with ⟨j, hj, hst⟩ | hall
    · have hwake := hirq _ (Scanned.word_lt false hj) j (mem_wordIrqs hs hj hst.pending)
      have hnone : s.findLrForVirq v j = none := by
        cases hf : s.findLrForVirq v j with
        | none => rfl
        | some idx => exact absurd ⟨idx, find_some hf⟩ hst.absent
      rw [wakes, hst.pending, hst.deliverable, hnone] at hwake
      simp at hwake
    · exact hctx i (hall i hi hp hd)
  · -- an LPI that is pending and deliverable always counts
    have hlp : e.itsEnabled = true ∧ isLpi i = true := by
      simp only [Env.hasDesc, Bool.and_eq_true, Bool.or_eq_true, decide_eq_true_eq] at hdesc
      exact hdesc.2.resolve_left hi
    have hwake := hlpi hlp.1 _ (Scanned.word_lt true hlp.2) i (mem_wordIrqs hs hlp.2 hp)
    rw [wakes, hp, hd] at hwake
    simp at hwake

theorem anyPending_false (h : s.anyPending e v = false) :
    (∀ i, ¬ (s.ctx v).lrs.Any (Lr.PendingOf i)) ∧
      (∀ word < irqWords, ∀ i ∈ s.wordIrqs v false word, s.wakes e v false i = false) ∧
      (e.itsEnabled = true → ∀ word < lpiWords, ∀ i ∈ s.wordIrqs v true word,
        s.wakes e v true i = false) := by
  simp only [anyPending, Bool.or_eq_false_iff, List.any_eq_false, List.mem_range,
    Bool.and_eq_false_iff, Bool.not_eq_true] at h
  obtain ⟨⟨hlr, hirq⟩, hlpi⟩ := h
  refine ⟨fun i ha => ?_, hirq, fun hits => hlpi.resolve_left (by rw [hits]; decide)⟩
  obtain ⟨idx, hidx, hp⟩ := ha
  exact absurd hp.1 (by rw [hlr idx hidx]; decide)

/-- The states that a flush of the running vCPU and a query right after it lead to:
the scan, its list registers in the hardware, the controls read once more. -/
structure Flushed (e : Env) (v : Vid) (s s' : Core) : Prop where
  indexed : Indexed s'
  irq : s'.irq = s.irq
  lrs : (s'.ctx v).lrs = (s.ctx v).lrs
  vmcr : (s'.ctx v).vmcr = (s.ctx v).vmcr
  ich : (s'.ich v).lr = (writeLrs e.lrCount (s.ctx v) (s.ich v)).lr

theorem Flushed.stuck (h : Flushed e v s s') (hst : Stuck e v i s) : Stuck e v i s' where
  pending := by rw [h.irq]; exact hst.pending
  deliverable := by rw [h.irq, deliverable_congr h.vmcr]; exact hst.deliverable
  absent := by rw [h.lrs]; exact hst.absent
  full := by rw [h.lrs]; exact hst.full

theorem Flushed.served (h : Flushed e v s s') (hsv : Served e v i s) : Served e v i s' := by
  intro hp hd
  rw [h.irq] at hp hd
  rw [deliverable_congr h.vmcr] at hd
  rw [h.lrs]
  exact hsv hp hd

theorem flushed_query (hs : Indexed s) : ∃ s₁, Indexed s₁ ∧ Flushed e v (s₁.flushScan e v)
    ((s.flushVcpu e (some v) true v).queryCpuif e (some v) v) := by
  refine ⟨s.modCtx v (syncLiveCpuif (s.ich v)), ⟨hs.virq, hs.bit, hs.lpiBit⟩, ?_⟩
  generalize hs₁ : s.modCtx v (syncLiveCpuif (s.ich v)) = s₁
  have hi₁ : Indexed s₁ := hs₁ ▸ ⟨hs.virq, hs.bit, hs.lpiBit⟩
  have hframe : ScanFrame v s₁ (s₁.flushScan e v) := .flushScan
  have hlive : ((s₁.flushScan e v).ich v).vmcr = ((s₁.flushScan e v).ctx v).vmcr := by
    rw [hframe.vmcr, hframe.ich, ← hs₁, modCtx_self]
    rfl
  have hflush : s.flushVcpu e (some v) true v = (s₁.flushScan e v).modIch v
      (writeLrsHcr e.lrCount ((s₁.flushScan e v).ctx v)) := by
    rw [← hs₁]
    rfl
  have hi₂ : Indexed (s₁.flushScan e v) := (Indexed.closed e.lrCount v).flushScan hi₁
  rw [hflush]
  generalize s₁.flushScan e v = s₂ at hlive hi₂ ⊢
  have hlr : ((s₂.modIch v (writeLrsHcr e.lrCount (s₂.ctx v))).ich v).lr =
      (writeLrs e.lrCount (s₂.ctx v) (s₂.ich v)).lr := by
    rw [modIch_self]
    rfl
  rw [queryCpuif]
  split
  · refine ⟨⟨hi₂.virq, hi₂.bit, hi₂.lpiBit⟩, rfl, ?_, ?_, hlr⟩
    · rw [modCtx_self]
      rfl
    · rw [modCtx_self, modIch_self]
      exact hlive
  · exact ⟨⟨hi₂.virq, hi₂.bit, hi₂.lpiBit⟩, rfl, rfl, rfl, hlr⟩

/-- The check right after a flush of the vCPU. -/
theorem flushed_idle (hs : Indexed s)
    (h : ((s.flushVcpu e (some v) true v).hasPendingIrq e (some v) v).1 = false) :
    Idle e v ((s.flushVcpu e (some v) true v).hasPendingIrq e (some v) v).2 := by
  obtain ⟨s₁, hi₁, hf⟩ := flushed_query hs
  rw [hasPendingIrq] at h ⊢
  generalize (s.flushVcpu e (some v) true v).queryCpuif e (some v) v = s' at h hf ⊢
  obtain ⟨hctx, hirq, hlpi⟩ := anyPending_false h
  have hscan : (∃ j < irqNum, Stuck e v j s') ∨ ∀ i < irqNum, Served e v i s' := by
    rcases flushScan_serves hi₁ with ⟨⟨j, hj, hst⟩, -⟩ | ⟨hall, -⟩
    · exact .inl ⟨j, hj, hf.stuck hst⟩
    · exact .inr fun i hi => hf.served (hall i hi)
  refine ⟨fun i hdesc hd => idle_irq hf.indexed hscan hctx hirq hlpi hdesc hd, hctx, ?_⟩
  rintro i ⟨idx, hidx, hp⟩
  -- the hardware has the list registers of the context and nothing behind them
  have hp : ((s'.ich v).lr idx).PendingOf i := hp
  have hidx : idx < e.lrCount := hidx
  rw [hf.ich, writeLrs] at hp
  simp only [if_pos hidx] at hp
  split at hp
  · next hlt =>
    rw [← hf.lrs] at hlt hp
    exact hctx i ⟨idx, hlt, hp⟩
  · exact absurd hp.1 (by decide)

end Core

/-- The steps that end with a flush of the vCPU they run on. -/
inductive FlushesCurrent (v : Vid) : Label → Prop where
  | completeWfi : FlushesCurrent v (.completeWfi v)
  | service : FlushesCurrent v (.service v)
  | flushCurrent : FlushesCurrent v (.flushCurrent v)

/-- A vCPU that finds nothing pending right after the WFI completion, or right after
any other flush of its own, has nothing that the guest could be given: no deliverable
descriptor of its row is pending, and no list register is, in the context or in the
hardware. -/
theorem idle_of_no_pending {cfg : GicConfig} {b : Board} {m m' : Vm} {a : Label} {v : Vid}
    (hr : Reachable cfg b m) (ha : FlushesCurrent v a) (hs : Step cfg a m m')
    (hno : (m'.core.hasPendingIrq m'.env (some v) v).1 = false) :
    Core.Idle m'.env v (m'.core.hasPendingIrq m'.env (some v) v).2 := by
  obtain ⟨tr, hrun⟩ := hr
  have hm := Indexed.run hrun
  have K := Indexed.closed m.env.lrCount v
  cases ha with
  | completeWfi =>
    cases hs with
    | completeWfi line _ _ =>
      exact Core.flushed_idle (K.completeWfiLrs _ (K.syncCurrent trivial hm)) hno
  | service =>
    cases hs with
    | service line _ _ => exact Core.flushed_idle (K.syncCurrent trivial hm) hno
  | flushCurrent =>
    cases hs with
    | flushCurrent _ _ => exact Core.flushed_idle hm hno

/-- `SPI 40` is pending but not enabled, and vCPU 0 is switched in. -/
def disabledVm : Vm :=
  ((injectedVm.modCore fun e s => s.loadVcpu e 0).setPhase 0 .loading).setPhase 0 .running

theorem disabledVm_reachable : Reachable twoFrames twoVcpus disabledVm :=
  ⟨_, play_run [.inject none 0 40 true, .load 0, .enter 0] (by decide +kernel)⟩

/-- The vCPU after its WFI completion, with a timer line that reads low. -/
def disabledWfi : Vm :=
  disabledVm.modCore fun e s => s.completeWfiIrqs e (fun _ _ => false) 0

/-- A pending interrupt that is not enabled lets the vCPU sleep. -/
theorem idle_of_no_pending_disabled : (disabledWfi.core.irq 0 40).pending = true ∧
      Core.Idle disabledWfi.env 0 (disabledWfi.core.hasPendingIrq disabledWfi.env (some 0) 0).2 :=
  ⟨by decide +kernel, idle_of_no_pending disabledVm_reachable .completeWfi
      (.completeWfi (fun _ _ => false) (by decide) (by decide)) (by decide +kernel)⟩

end Sima.Vgic
