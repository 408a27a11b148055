import Sima.Vgic.Wfi
import Sima.Vgic.ListRegs

/-!
# What a sync does to a pending edge

An edge that has been injected and not taken is on record in one of two places: the
pending flag of its descriptor, or the pending bit of a list register. Flush moves the
record from the first place to the second; sync reads the list registers back and
clears the flag where a list register holds it.

The danger is in between. A list register that the guest has completed is settled by
writing the descriptor — from what the list register said, not from what the
descriptor says by now. An edge that was recorded in the descriptor after the guest
took the one before it is then written over. A level is not: its flag is the line, and
sync leaves it alone.

So a sync keeps the record of an edge if it finds every list register of the interrupt
that the context remembers still there (`Intact`). A record in a pending list register
needs no such condition.
-/

namespace Sima.Vgic

open Lib

/-- A list register that still names the interrupt and has been completed. -/
def Lr.Hole (i : Nat) (lr : Lr) : Prop := lr.state = .invalid ∧ lr.vintid = i

/-- The list registers that a sync goes by, `cur`, have every one of the interrupt that
the context remembers, and none that is completed. -/
structure Intact (i : Nat) (old cur : Slots Lr) : Prop where
  same : ∀ idx < old.used, (old.slot idx).Of i → idx < cur.used ∧ (cur.slot idx).Of i
  full : ¬ cur.Any (Lr.Hole i)

namespace Core

/-- The edge is on record in the row, as far as the context goes. -/
def Recorded (v : Vid) (i : Nat) (s : Core) : Prop :=
  (s.irq v i).pending = true ∨ (s.ctx v).lrs.Any (Lr.PendingOf i)

/-- What has to hold between the parts of a sync. A list register that is pending
carries the record by itself, and so does the flag of a level; the flag of an edge
does while the list registers are intact. -/
structure Held (v : Vid) (i : Nat) (old cur : Slots Lr) (s : Core) : Prop where
  ids : ∀ j, (s.irq v j).virq = j
  held : (s.ctx v).lrs.Any (Lr.PendingOf i) ∨
    (s.irq v i).pending = true ∧
      ((s.irq v i).level = true ∨ Intact i old cur ∧
        (cur.Any (Lr.Of i) → (s.ctx v).lrs.Any (Lr.Of i)) ∧
        ¬ (s.ctx v).lrs.Any (Lr.Hole i))

namespace Held

variable {e : Env} {line : Samples} {c : Caller} {v : Vid} {i j idx : Nat}
  {old cur : Slots Lr} {s s' : Core} {b loaded : Bool} {lr : Lr}

variable (h : Held v i old cur s)

include h

theorem recorded : Recorded v i s := h.held.elim .inr fun hp => .inl hp.1

/-! ## The small writes -/

theorem keep (hids : ∀ j, (s'.irq v j).virq = j)
    (hp : (s.irq v i).pending = true → (s'.irq v i).pending = true)
    (hl : (s'.irq v i).level = (s.irq v i).level)
    (hany : ∀ P : Lr → Prop, (∀ lr, P lr → lr.Of i) → (s.ctx v).lrs.Any P → (s'.ctx v).lrs.Any P)
    (hhole : (s'.ctx v).lrs.Any (Lr.Hole i) → (s.ctx v).lrs.Any (Lr.Hole i)) :
    Held v i old cur s' := by
  refine ⟨hids, ?_⟩
  rcases h.held with ha | ⟨hpend, hlev | ⟨hin, hthere, hfull⟩⟩
  · exact .inl (hany _ (fun _ => Lr.PendingOf.of) ha)
  · exact .inr ⟨hp hpend, .inl (hl.trans hlev)⟩
  · exact .inr ⟨hp hpend, .inr ⟨hin, fun hc => hany _ (fun _ => id) (hthere hc),
      fun ha => hfull (hhole ha)⟩⟩

theorem modIrq {f : VgicIrq → VgicIrq} (hid : ∀ d, (f d).virq = d.virq)
    (hl : ∀ d, (f d).level = d.level) (hp : j = i → ∀ d, d.pending = true → (f d).pending = true) :
    Held v i old cur (s.modIrq v j f) := by
  refine h.keep (fun k => ?_) (fun hpend => ?_) ?_ (fun _ _ => id) id
  · rw [modIrq_irq]
    split
    · next hk => rw [hid, h.ids, hk.2]
    · exact h.ids k
  · rw [modIrq_irq]
    split
    · next hk => exact hp hk.2.symm _ (hk.2 ▸ hpend)
    · exact hpend
  · rw [modIrq_irq]
    split
    · next hk => rw [hl, hk.2]
    · rfl

theorem setActive : Held v i old cur (s.setActive v j b) :=
  h.modIrq (fun _ => rfl) (fun _ => rfl) fun _ _ => id

theorem congr (hirq : s'.irq = s.irq)
    (hctx : (s'.ctx v).lrs = (s.ctx v).lrs) : Held v i old cur s' := by
  refine ⟨by rw [hirq]; exact h.ids, ?_⟩
  rw [hirq, hctx]
  exact h.held

theorem setPending (hj : j = i → b = true) : Held v i old cur (s.setPending v j b) := by
  have h1 : Held v i old cur (s.modIrq v j fun d => { d with pending := b }) :=
    h.modIrq (fun _ => rfl) (fun _ => rfl) fun hji _ _ => hj hji
  exact h1.congr (setPending_irq ..) (by rw [setPending_ctx, modIrq_ctx])

theorem setPending_any (ha : (s.ctx v).lrs.Any (Lr.PendingOf i)) :
    Held v i old cur (s.setPending v j b) := by
  refine ⟨fun k => ?_, .inl (by rw [setPending_ctx]; exact ha)⟩
  rw [setPending_irq, modIrq_irq]
  split
  · next hk => rw [hk.2]; exact h.ids j
  · exact h.ids k

theorem removeLr (hidx : ¬ ((s.ctx v).lrs.slot idx).Of i) :
    Held v i old cur (s.removeLr v idx) := by
  refine h.keep h.ids id rfl (fun P hP ha => ?_) fun ha => ?_
  · rw [removeLr_self]
    exact ha.remove fun hp => hidx (hP _ hp)
  · rw [removeLr_self] at ha
    exact Slots.any_remove ha

theorem pushLr (hlr : lr.state ≠ .invalid) : Held v i old cur (s.pushLr v lr) := by
  refine h.keep h.ids id rfl (fun P _ ha => ?_) fun ha => ?_
  · rw [Core.pushLr, modLrs_self]
    exact Slots.any_push.mpr (.inl ha)
  · rw [Core.pushLr, modLrs_self] at ha
    exact (Slots.any_push.mp ha).resolve_right fun hh => hlr hh.1

theorem writeHcr : Held v i old cur (s.writeHcr v loaded) :=
  h.congr (by rw [Core.writeHcr]; split <;> rfl) (by rw [writeHcr_ctx])

theorem writeLr : Held v i old cur (s.writeLr v loaded idx) :=
  h.congr (by rw [Core.writeLr]; split <;> rfl) (by rw [writeLr_ctx])

theorem requeueLr : Held v i old cur (s.requeueLr e v j loaded) := by
  rw [Core.requeueLr]
  split
  · exact h
  rename_i hc
  rw [Bool.or_eq_true, Bool.or_eq_true, not_or, not_or] at hc
  have hp : (s.irq v j).pending = true := by simpa using hc.1.1
  split
  · refine writeHcr (h.congr rfl ?_)
    rw [raiseUie, modCtx_self]
  · exact (h.pushLr (makeLrState_valid.mpr (.inl hp))).writeLr.writeHcr

omit h

/-! ## Completions that are reported -/

variable (hi : i ≠ ppiVirtualTimer) {eoi : Nat → Bool}

include hi

theorem not_vtimer : isVtimer i = false := beq_false_of_ne hi

theorem completeEoiDesc (h : Held v i old cur s) (hlr : lr.vintid = i → ¬ Intact i old cur) :
    Held v i old cur (s.completeEoiDesc e line c v lr idx) := by
  rw [Core.completeEoiDesc]
  split
  · refine setActive ?_
    by_cases hv : lr.vintid = i
    · rcases h.held with ha | ⟨hp, hl | hw⟩
      · exact h.setPending_any ha
      · refine h.setPending fun _ => ?_
        rw [keepPending, hv, not_vtimer hi, Bool.false_and, if_neg Bool.false_ne_true,
          if_pos hl, hp, Bool.or_true]
      · exact absurd hw.1 (hlr hv)
    · exact h.setPending fun hc => absurd hc hv
  · exact h

/-- The slot of a reported completion is empty, so what is settled is what the context
remembers of it. -/
theorem completeEoiLr (hslot : idx < (s.ctx v).lrs.used → (s.ctx v).lrs.slot idx = cur.slot idx)
    (hinv : (cur.slot idx).state = .invalid) (h : Held v i old cur s) :
    Held v i old cur (s.completeEoiLr e line c v old idx) := by
  have hid : s.eoiIdentity v old idx = if idx < old.used then old.slot idx else {} := by
    rw [eoiIdentity, if_neg fun hc => hc.2 (by rw [hslot hc.1, hinv])]
  rw [Core.completeEoiLr]
  split
  · exact h
  rename_i hvalid
  have h1 : Held v i old cur (s.completeEoiDesc e line c v (s.eoiIdentity v old idx) idx) := by
    refine h.completeEoiDesc hi fun hv hin => ?_
    rw [hid] at hv hvalid
    split at hvalid
    · next hlt =>
      rw [if_pos hlt] at hv
      exact (hin.same idx hlt ⟨hvalid, hv⟩).2.1 hinv
    · exact hvalid rfl
  have hctx : (s.completeEoiDesc e line c v (s.eoiIdentity v old idx) idx).ctx = s.ctx := by
    rw [Core.completeEoiDesc]
    split
    · rw [setActive_ctx, setPending_ctx]
    · rfl
  by_cases hlt : idx < (s.ctx v).lrs.used
  · refine h1.removeLr fun hof => hof.1 ?_
    rw [hctx, hslot hlt, hinv]
  · refine h1.congr rfl ?_
    rw [removeLr_self, hctx, Slots.remove, if_neg hlt]

omit hi in
theorem completeEoiLr_lrs (e : Env) (line : Samples) (c : Caller) (v : Vid)
    (old : Slots Lr) (idx : Nat) (s : Core) :
    ((s.completeEoiLr e line c v old idx).ctx v).lrs = (s.ctx v).lrs ∨
      ((s.completeEoiLr e line c v old idx).ctx v).lrs = (s.ctx v).lrs.remove {} idx := by
  rw [Core.completeEoiLr]
  split
  · exact .inl rfl
  refine .inr ?_
  rw [removeLr_self, Core.completeEoiDesc]
  split
  · rw [setActive_ctx, setPending_ctx]
  · rfl

/-- The loop runs from the last slot to the first, and a removal moves only slots
behind the one it is at: what is still to come is as it was read. -/
theorem completeEoiLrs (heoi : ∀ idx, eoi idx = true → (cur.slot idx).state = .invalid) (k : Nat)
    (hslot : ∀ idx < k, idx < (s.ctx v).lrs.used →
      (s.ctx v).lrs.slot idx = cur.slot idx) (h : Held v i old cur s) :
    Held v i old cur (s.completeEoiLrs e line c v old eoi k) := by
  induction k generalizing s with
  | zero => exact h
  | succ k ih =>
    rw [Core.completeEoiLrs]
    split
    · next hk =>
      refine ih (fun idx hidx hlt => ?_)
        (h.completeEoiLr hi (hslot k (Nat.lt_succ_self k)) (heoi k hk))
      rcases completeEoiLr_lrs e line c v old k s with hl | hl
      · rw [hl] at hlt ⊢
        exact hslot idx (by omega) hlt
      rw [hl] at hlt ⊢
      by_cases hk : k < (s.ctx v).lrs.used
      · rw [Slots.remove_used hk] at hlt
        rw [Slots.remove_slot hk hlt, if_neg (by omega)]
        exact hslot idx (by omega) (by omega)
      · rw [Slots.remove, if_neg hk] at hlt ⊢
        exact hslot idx (by omega) hlt
    · exact ih (fun idx hidx hlt => hslot idx (by omega) hlt) h

/-! ## Slots that have disappeared -/

theorem syncLostLr (hidx : idx < old.used) (h : Held v i old cur s) :
    Held v i old cur (s.syncLostLr e line v loaded eoi old idx) := by
  rw [Core.syncLostLr]
  split
  · exact h
  rename_i hvalid
  split
  · exact h
  rename_i hnone
  have hno : ¬ (s.ctx v).lrs.Any (Lr.Of (old.slot idx).vintid) := by
    refine find_none ?_
    cases hf : s.findLrForVirq v (old.slot idx).vintid with
    | none => rfl
    | some _ =>
      rw [hf] at hnone
      exact absurd rfl hnone
  split
  · refine setActive ?_
    rw [settleLost]
    by_cases hv : (old.slot idx).vintid = i
    · rw [hv] at hno ⊢
      rcases h.held with ha | ⟨hp, hl | ⟨hin, hthere, -⟩⟩
      · exact absurd (ha.mono fun _ => Lr.PendingOf.of) hno
      · rw [not_vtimer hi, Bool.and_false, Bool.false_and, Bool.false_and, hl, hp, Bool.true_and]
        exact h
      · obtain ⟨hlt, hof⟩ := hin.same idx hidx ⟨hvalid, hv⟩
        exact absurd (hthere ⟨idx, hlt, hof⟩) hno
    · have hset : ∀ b, Held v i old cur (s.setPending v (old.slot idx).vintid b) :=
        fun _ => h.setPending fun hc => absurd hc hv
      split
      · split
        · exact (hset true).requeueLr
        · exact hset false
      · split
        · exact h
        · exact hset _
  · exact h

theorem syncLostLrs (h : Held v i old cur s) :
    Held v i old cur (s.syncLostLrs e line v loaded eoi old) :=
  List.foldlRecOn _ _ h fun _ h _ hm => h.syncLostLr hi (List.mem_range.mp hm)

/-! ## Slots that are still there -/

omit hi in
theorem copyBack (h : Held v i old cur s) (hlt : idx < (s.ctx v).lrs.used)
    (hlr : lr = (s.ctx v).lrs.slot idx) (hst : lr.state ≠ .active) :
    Held v i old cur (s.copyBack v lr (s.irq v lr.vintid)) := by
  rw [Core.copyBack]
  split
  · next hc =>
    refine setActive ?_
    by_cases hv : lr.vintid = i
    · rcases h.held with ha | ⟨hp, hl | ⟨-, -, hfull⟩⟩
      · exact h.setPending_any ha
      · rw [hv, hl] at hc
        exact absurd hc (by simp)
      -- not completed, not only active: the list register is pending
      have hpend : lr.state.isPending = true := by
        cases hs : lr.state with
        | invalid => exact absurd ⟨idx, hlt, hlr ▸ hs, hlr ▸ hv⟩ hfull
        | active => exact absurd hs hst
        | pending => rfl
        | activePending => rfl
      exact h.setPending_any ⟨idx, hlt, hlr ▸ hpend, hlr ▸ hv⟩
    · exact h.setPending fun hc => absurd hc hv
  · exact h.setActive

theorem settleLr (h : Held v i old cur s)
    (hlt : idx < (s.ctx v).lrs.used) (hlr : lr = (s.ctx v).lrs.slot idx) :
    Held v i old cur (s.settleLr e line v loaded idx lr (s.irq v lr.vintid)).1 := by
  -- a removal hits the timer or a slot that is not valid
  have hrm : ∀ {s'}, Held v i old cur s' → s'.ctx = s.ctx →
      (lr.state = .invalid ∨ isVtimer lr.vintid = true) →
      Held v i old cur (s'.removeLr v idx) := by
    intro s' h' hctx hcase
    refine h'.removeLr fun hof => ?_
    rw [hctx, ← hlr] at hof
    rcases hcase with hinv | ht
    · exact hof.1 hinv
    · rw [hof.2, not_vtimer hi] at ht
      cases ht
  have hother : isVtimer lr.vintid = true → lr.vintid = i → False := by
    intro ht hv
    rw [hv, not_vtimer hi] at ht
    cases ht
  rw [Core.settleLr]
  split
  · split
    · exact h.setActive
    rename_i hact
    split
    · next hc =>
      have ht : isVtimer lr.vintid = true := by
        simp only [Bool.and_eq_true] at hc
        exact hc.1.1.2
      refine hrm (h.setActive.setPending fun hv => (hother ht hv).elim) ?_ (.inr ht)
      rw [setPending_ctx, setActive_ctx]
    split
    · next hc =>
      have ht : isVtimer lr.vintid = true := by
        simp only [Bool.and_eq_true] at hc
        exact hc.1.2
      have hset : ∀ b, Held v i old cur (s.setPending v lr.vintid b) :=
        fun _ => h.setPending fun hv => (hother ht hv).elim
      split
      · exact (hset true).setActive
      · refine hrm (hset false).setActive ?_ (.inr ht)
        rw [setActive_ctx, setPending_ctx]
    by_cases hlev : (s.irq v lr.vintid).level = true
    · -- a level only takes over the active bit
      have hcb : s.copyBack v lr (s.irq v lr.vintid) =
          s.setActive v lr.vintid lr.state.isActive := by
        rw [Core.copyBack, hlev]
        rfl
      rw [hcb]
      split
      · next hinv => exact hrm h.setActive rfl (.inl hinv)
      · exact h.setActive
    · have hst : lr.state ≠ .active := by
        intro hs
        refine hact ?_
        rw [hs, Bool.eq_false_iff.mpr hlev]
        rfl
      have h1 := h.copyBack hlt hlr hst
      split
      · next hinv => exact hrm h1 Closed.copyBack_ctx (.inl hinv)
      · exact h1
  · split
    · next hinv => exact hrm h rfl (.inl hinv)
    · exact h

theorem syncLrs (h : Held v i old cur s) :
    Held v i old cur (s.syncLrs e line v loaded (s.ctx v).lrs.used 0) :=
  Closed.syncLrs_rule (P := fun _ => Held v i old cur)
    (fun hlt h => h.settleLr hi hlt rfl) _ (zero_add _) h

theorem reconcile (heoi : ∀ idx, eoi idx = true → (cur.slot idx).state = .invalid)
    (hcur : (s.ctx v).lrs = cur) (h : Held v i old cur s) :
    Recorded v i (s.reconcile e line c v loaded old eoi) := by
  have h1 : Held v i old cur (s.completeReported e line c v old eoi) := by
    rw [completeReported]
    split
    · exact h
    · exact h.completeEoiLrs hi heoi _ fun _ _ _ => by rw [hcur]
  have h2 : Held v i old cur ((s.completeReported e line c v old eoi).syncLostLrs e line v
      loaded eoi old) := h1.syncLostLrs hi
  rw [Core.reconcile]
  generalize (s.completeReported e line c v old eoi).syncLostLrs e line v loaded eoi old = s₂ at h2
  have h3 : Held v i old cur (s₂.syncLrs e line v loaded (s₂.ctx v).lrs.used 0) := h2.syncLrs hi
  split
  · rw [restoreTimer]
    split
    · exact h3.requeueLr.recorded
    · exact h3.recorded
  · exact h3.recorded

omit hi

end Held

/-! ## Between the context and the hardware -/

variable {e : Env} {line : Samples} {c : Caller} {v : Vid} {i n j idx : Nat} {s : Core}
  {lr : Nat → Lr} {P : Lr → Prop} {isCurrent : Bool} {old : Slots Lr}

theorem lt_lastValid (hlt : idx < n) (hv : (lr idx).state ≠ .invalid) : idx < lastValid lr n := by
  induction n with
  | zero => exact absurd hlt (Nat.not_lt_zero _)
  | succ n ih =>
    rw [lastValid]
    split
    · next hinv =>
      refine ih ?_
      rcases Nat.lt_succ_iff_lt_or_eq.mp hlt with h | rfl
      · exact h
      · exact absurd hinv hv
    · exact hlt

theorem any_readLrs {h : CpuIf} {x : Ctx} (hP : ∀ lr, P lr → lr.state ≠ .invalid)
    (ha : (h.table n).Any P) : (readLrs n h x).lrs.Any P := by
  obtain ⟨idx, hlt, hp⟩ := ha
  refine ⟨idx, lt_lastValid hlt (hP _ hp), ?_⟩
  have hlt : idx < n := hlt
  show P (if idx < n then h.lr idx else _)
  rw [if_pos hlt]
  exact hp

/-- The edge is on record in the row, and the hardware is where its list registers
are. -/
def RecordedLive (n : Nat) (v : Vid) (i : Nat) (s : Core) : Prop :=
  (s.irq v i).pending = true ∨ ((s.ich v).table n).Any (Lr.PendingOf i)

section

variable (hids : ∀ j, (s.irq v j).virq = j)

include hids

theorem held_of_recorded {cur : Slots Lr} (hcur : (s.ctx v).lrs = cur)
    (hsafe : (s.irq v i).pending = true → (s.irq v i).level = false → Intact i old cur)
    (h : Recorded v i s) : Held v i old cur s := by
  refine ⟨hids, ?_⟩
  rcases h with hp | ha
  · refine .inr ⟨hp, ?_⟩
    cases hl : (s.irq v i).level with
    | true => exact .inl rfl
    | false =>
      have hin := hsafe hp hl
      exact .inr ⟨hin, fun hc => hcur ▸ hc, fun hc => hin.full (hcur ▸ hc)⟩
  · exact .inl ha

/-- A sync on the vCPU's own physical CPU brings the record from the hardware into the
context. -/
theorem syncVcpu_recorded_own (hi : i ≠ ppiVirtualTimer)
    (hown : isCurrent = true ∨ e.vcpuIsLoaded c v = true)
    (hsafe : (s.irq v i).pending = true → (s.irq v i).level = false →
      Intact i (s.ctx v).lrs (readLrs e.lrCount (s.ich v) (s.ctx v)).lrs)
    (h : RecordedLive e.lrCount v i s) : Recorded v i (s.syncVcpu e line c isCurrent v) := by
  have hirq : (s.readBack e v).irq = s.irq := by
    rw [readBack, Core.writeHcr]
    split <;> rfl
  have hlrs : ((s.readBack e v).ctx v).lrs = (readLrs e.lrCount (s.ich v) (s.ctx v)).lrs := by
    rw [readBack, writeHcr_ctx, modCtx_self]
    rfl
  have hrec : Recorded v i (s.readBack e v) := by
    rw [Recorded, hirq, hlrs]
    exact h.imp_right (any_readLrs fun _ hp => hp.of.1)
  have hheld : Held v i (s.ctx v).lrs (readLrs e.lrCount (s.ich v) (s.ctx v)).lrs
      (s.readBack e v) :=
    held_of_recorded (by rw [hirq]; exact hids) hlrs (by rw [hirq]; exact hsafe) hrec
  rw [syncVcpu, if_neg ?_, if_pos (Bool.or_eq_true_iff.mpr hown)]
  · refine hheld.reconcile hi (fun idx hidx => ?_) hlrs
    rw [CpuIf.eisr, Bool.and_eq_true, Bool.and_eq_true, Bool.and_eq_true, beq_iff_eq,
      decide_eq_true_eq] at hidx
    show (if idx < e.lrCount then (s.ich v).lr idx else _).state = .invalid
    rw [if_pos hidx.1.1.1]
    exact hidx.1.1.2
  · rcases hown with hc | hl
    · simp [hc]
    · rw [Env.vcpuIsLoaded, Bool.and_eq_true, beq_iff_eq] at hl
      simp [Env.vcpuIsRunningRemote, hl.1]

/-- A sync of a vCPU that is not current goes by the context alone. -/
theorem syncVcpu_recorded_off (hi : i ≠ ppiVirtualTimer) (hl : e.vcpuIsLoaded c v = false)
    (hr : e.vcpuIsRunningRemote c v = false)
    (hsafe : (s.irq v i).pending = true → (s.irq v i).level = false →
      Intact i (s.ctx v).lrs (s.ctx v).lrs)
    (h : Recorded v i s) : Recorded v i (s.syncVcpu e line c false v) := by
  rw [syncVcpu, hr, hl, Bool.and_false, if_neg Bool.false_ne_true, Bool.or_self,
    if_neg Bool.false_ne_true]
  exact (held_of_recorded hids rfl hsafe h).reconcile hi (by simp) rfl

/-! ## Flush -/

theorem flushIrq_recorded {lpi : Bool} {s' : Core} (hf : s.flushIrq e v lpi j = some s')
    (h : Recorded v i s) : Recorded v i s' := by
  by_cases hj : j = i
  · subst hj
    obtain ⟨hp, rfl⟩ | ⟨-, rfl⟩ | ⟨hp, s₁, ht, rfl⟩ := flushIrq_cases hf
    · refine .inr ?_
      rw [setPending_ctx]
      refine h.resolve_left fun hc => ?_
      rw [hp] at hc
      cases hc
    · exact h
    -- the list register takes the record over
    have hlr : (makeLr (s.irq v j)).PendingOf j := ⟨(makeLrState_isPending ..).trans hp, hids j⟩
    refine .inr ?_
    rw [handOver_ctx]
    obtain ⟨f, rfl, ⟨idx, hfind, rfl⟩ | ⟨-, -, rfl⟩⟩ := takeLr_eq ht
    · rw [modLrs_self]
      exact Slots.any_set_self (find_some hfind).1 hlr
    · rw [modLrs_self]
      exact Slots.any_push.mpr (.inr hlr)
  · refine h.imp (fun hp => ?_) fun ha => ?_
    · rw [flushIrq_other (Ne.symm hj) hf]
      exact hp
    · refine (flushIrq_lrs (hids j) hf fun lr hp hc => hj (hc.symm.trans hp.2)).mpr ha

end

theorem flushScan_recorded (hs : Indexed s) (h : Recorded v i s) :
    Recorded v i (s.flushScan e v) := by
  refine (flushScan_rule (P := fun s => Indexed s ∧ Recorded v i s) (fun h hf => ?_)
    (fun h => ?_) ⟨⟨hs.virq, hs.bit, hs.lpiBit⟩, ?_⟩).2
  · exact ⟨(Indexed.closed e.lrCount v).flushIrq h.1 hf, flushIrq_recorded (h.1.virq v) hf h.2⟩
  · refine ⟨(Indexed.closed e.lrCount v).raiseUie h.1, ?_⟩
    rw [Recorded, raiseUie_lrs]
    exact h.2
  · rw [Recorded, modCtx_self]
    exact h

theorem flushVcpu_recorded (hs : Indexed s) (h : Recorded v i s) :
    Recorded v i (s.flushVcpu e c isCurrent v) := by
  rw [flushVcpu]
  split
  · exact h
  split
  · have hs' : Indexed (s.modCtx v (syncLiveCpuif (s.ich v))) := ⟨hs.virq, hs.bit, hs.lpiBit⟩
    refine flushScan_recorded hs' ?_
    rw [Recorded, modCtx_self]
    exact h
  · exact flushScan_recorded hs h

theorem Fresh.recordedLive (hf : Fresh n v s) (hused : (s.ctx v).lrs.used ≤ n)
    (h : Recorded v i s) : RecordedLive n v i s := by
  refine h.imp_right fun ⟨idx, hlt, hp⟩ => ⟨idx, lt_of_lt_of_le hlt hused, ?_⟩
  show ((s.ich v).lr idx).PendingOf i
  rw [hf idx (lt_of_lt_of_le hlt hused), if_pos hlt]
  exact hp

/-! ## Without the hardware -/

/-- The list registers in the hardware are as they were. -/
structure SameLrs (v : Vid) (lr : Nat → Lr) (s : Core) : Prop where
  ids : ∀ j, (s.irq v j).virq = j
  lrs : (s.ich v).lr = lr

theorem SameLrs.modIrq {f : VgicIrq → VgicIrq} (h : SameLrs v lr s)
    (hf : ∀ d, (f d).virq = d.virq) : SameLrs v lr (s.modIrq v j f) := by
  refine ⟨fun k => ?_, h.lrs⟩
  rw [modIrq_irq]
  split
  · next hk => rw [hf, h.ids, hk.2]
  · exact h.ids k

theorem SameLrs.setPending {b : Bool} (h : SameLrs v lr s) :
    SameLrs v lr (s.setPending v j b) := by
  have h1 : SameLrs v lr (s.modIrq v j fun d => { d with pending := b }) := h.modIrq fun _ => rfl
  refine ⟨?_, ?_⟩
  · rw [setPending_irq]
    exact h1.ids
  · rw [setPending_ich]
    exact h.lrs

/-- Nothing but a load, a flush on its own physical CPU, and the guest writes them. -/
theorem sameLrs_closed :
    Closed n v (fun _ => True) (fun _ => True) (fun _ => False) False (SameLrs v lr) where
  virq h := h.ids
  lower _ h := h.setPending
  raise _ h := h.setPending
  drop _ h := h.modIrq fun _ => rfl
  activate _ h := h.modIrq fun _ => rfl
  config _ hf h := h.modIrq fun d => (hf d).1
  remove _ h := ⟨h.ids, h.lrs⟩
  refresh _ _ _ _ _ h := ⟨h.ids, h.lrs⟩
  push _ _ _ h := ⟨h.ids, h.lrs⟩
  ctx _ h := ⟨h.ids, h.lrs⟩
  read hl := hl.elim
  ich hf h := ⟨h.ids, by rw [modIch_self, hf]; exact h.lrs⟩
  write hw := hw.elim
  writeOne hw := hw.elim
  licence _ _ := trivial
  timer := trivial
  here := id

theorem syncLrs_any {loaded : Bool} (k : Nat)
    (h : ((s.syncLrs e line v loaded k idx).ctx v).lrs.Any P) : (s.ctx v).lrs.Any P := by
  induction k generalizing s idx with
  | zero => exact h
  | succ k ih =>
    have hlrs : ((s.syncLr e line v loaded idx).1.ctx v).lrs =
        if (s.syncLr e line v loaded idx).2 then (s.ctx v).lrs.remove {} idx
        else (s.ctx v).lrs := Closed.settleLr_lrs
    rw [syncLrs] at h
    split at h
    · next hr =>
      rw [if_pos hr] at hlrs
      exact Slots.any_remove (hlrs ▸ ih h)
    · next hr =>
      rw [if_neg hr] at hlrs
      exact hlrs ▸ ih h

theorem completeEoiLrs_none (old : Slots Lr) (k : Nat) :
    s.completeEoiLrs e line c v old (fun _ => false) k = s := by
  induction k with
  | zero => rfl
  | succ k ih => exact ih

/-- Without the hardware a slot that has disappeared is settled in its descriptor
only. -/
theorem syncLostLrs_ctx {eoi : Nat → Bool} :
    (s.syncLostLrs e line v false eoi old).ctx = s.ctx := by
  refine List.foldlRecOn (motive := fun s' : Core => s'.ctx = s.ctx) _ _ rfl fun s' h idx _ => ?_
  rw [syncLostLr]
  split
  · exact h
  split
  · exact h
  split
  · rw [setActive_ctx, settleLost, Bool.false_and, Bool.false_and, Bool.false_and,
      Bool.false_and, if_neg Bool.false_ne_true]
    split
    · exact h
    · rw [setPending_ctx]
      exact h
  · exact h

/-- A sync that goes by the context makes nothing pending in it. -/
theorem syncVcpu_off_any (hl : e.vcpuIsLoaded c v = false) (hr : e.vcpuIsRunningRemote c v = false)
    (h : ((s.syncVcpu e line c false v).ctx v).lrs.Any P) : (s.ctx v).lrs.Any P := by
  rw [syncVcpu, hr, hl, Bool.and_false, Bool.or_self, reconcile] at h
  have h1 := syncLrs_any _ h
  rw [syncLostLrs_ctx, completeReported, completeEoiLrs_none, ite_self] at h1
  exact h1

end Core

end Sima.Vgic
