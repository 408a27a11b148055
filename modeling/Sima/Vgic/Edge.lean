import Sima.Vgic.Credit
import Sima.Vgic.Route

/-!
# Edges that are never lost

An edge injected for a vCPU must stay on record until the guest takes it. The run is
cut to the steps that delivery is made of — injections from anywhere, syncs, flushes,
the legs of a switch, and what the hardware does for the guest — and starts in any
state the machine can reach. A note beside the state says whether an edge is owed:
injected, and not yet taken.

Three things can go wrong, and `Delivers` names them. An injection from another
physical CPU writes only the descriptor of a vCPU that runs; if the guest then
completes the interrupt it took before, the next sync settles the completed list
register by overwriting the descriptor. A flush from another physical CPU in the short
time between the load of the list registers and the vCPU becoming current moves the
edge into a context that nobody reads any more. And a flush that is not preceded by a
sync overwrites what only the hardware knew.
-/

namespace Sima.Vgic

open Lib Core
open Function (update update_of_ne update_self)

namespace Core

section

variable (e : Env) (c : Caller) (v : Vid) (i : Nat) (s : Core)

/-- The edge is on record where the list registers of the vCPU are. -/
def RecordedIn : Prop :=
  if (e.phase v).live then RecordedLive e.lrCount v i s else Recorded v i s

/-- A sync finds every list register of a recorded edge that the context remembers. A
row that is switched in but not yet current is reconciled without its hardware, so what
the context holds pending must be pending there too. -/
def SyncSafe : Prop :=
  (s.irq v i).pending = true →
    if e.vcpuIsLoaded c v then
      (s.irq v i).level = false →
        Intact i (s.ctx v).lrs (readLrs e.lrCount (s.ich v) (s.ctx v)).lrs
    else if e.vcpuIsRunningRemote c v then True
    else ((s.irq v i).level = false → Intact i (s.ctx v).lrs (s.ctx v).lrs) ∧
      ((e.phase v).live = true → (s.ctx v).lrs.Any (Lr.PendingOf i) →
        ((s.ich v).table e.lrCount).Any (Lr.PendingOf i))

/-- A flush that does not follow a sync: on the vCPU's own physical CPU the context
knows of every edge the hardware holds; elsewhere the row is not just being switched
in. -/
def FlushSafe : Prop :=
  if e.vcpuIsLoaded c v then
    ((s.ich v).table e.lrCount).Any (Lr.PendingOf i) → Recorded v i s
  else e.phase v = .loading → (s.irq v i).pending = false

end

end Core

/-- The vCPU and the LPI that an MSI leads to. -/
def Vm.msiRow (m : Vm) (deviceId eventId : Nat) : Option (Vid × Nat) :=
  (Vm.findEvent m.its deviceId eventId).bind fun p =>
    if (Vm.eventAt m.its p).valid && isLpi (Vm.eventAt m.its p).lpi then
      (m.eventTarget (Vm.eventAt m.its p)).map (·, (Vm.eventAt m.its p).lpi)
    else none

/-- Is an edge of the interrupt owed to the vCPU? -/
def noteOwed (v : Vid) (i : Nat) : Label → Vm → Bool → Bool
  | .inject _ w j level, m, owed => owed || (m.irqTargetVcpu w j == v && j == i && !level)
  | .injectTo _ t j level, _, owed => owed || (t == v && j == i && !level)
  | .injectMsi _ deviceId eventId, m, owed => owed || m.msiRow deviceId eventId == some (v, i)
  | .ack w j, _, owed => owed && !(w == v && j == i)
  | .reset w, _, owed => owed && w != v
  | _, _, owed => owed

/-- The steps of delivery, none of them at one of the three bad moments. -/
def Delivers (v : Vid) (i : Nat) : Label → Vm × Bool → Prop
  | .inject c w j _, (m, _) => m.irqTargetVcpu w j = v → m.core.SyncSafe m.env c v i
  | .injectTo c t _ _, (m, _) => t = v → m.core.SyncSafe m.env c v i
  | .injectMsi c _ _, (m, _) => m.core.SyncSafe m.env c v i
  | .service w, (m, _) | .timerLine w _, (m, _) | .refreshLevel w _, (m, _)
  | .completeWfi w, (m, _) | .stop w _, (m, _) => w = v → m.core.SyncSafe m.env (some v) v i
  | .flush c w, (m, _) => w = v → m.core.FlushSafe m.env c v i
  | .flushCurrent w, (m, _) => w = v → m.core.FlushSafe m.env (some v) v i
  | .clear .., _ | .deassert .., _ | .mmio .., _ | .cpuif .., _ => False
  | _, _ => True

variable {v : Vid}

theorem Indexed.sameRow {s : Core} (h : Indexed s) : SameRow v s s := ⟨h.virq, rfl, rfl, rfl⟩

namespace Core

variable {e : Env} {line : Samples} {c : Caller} {w : Vid} {i j n : Nat} {s s' : Core}
  {level : Bool}

/-! ## Where the record is -/

theorem recordedIn_live (hl : (e.phase v).live = true) :
    RecordedIn e v i s ↔ RecordedLive e.lrCount v i s := by
  rw [RecordedIn, if_pos hl]

theorem recordedIn_off (hl : (e.phase v).live = false) : RecordedIn e v i s ↔ Recorded v i s := by
  rw [RecordedIn, if_neg (by rw [hl]; exact Bool.false_ne_true)]

theorem RecordedIn.sameRow (hrow : SameRow v s s') (h : RecordedIn e v i s) :
    RecordedIn e v i s' := by
  rw [RecordedIn, RecordedLive, Recorded, hrow.irq, hrow.ctx, hrow.ich]
  exact h

theorem RecordedIn.env {e' : Env} (hl : (e'.phase v).live = (e.phase v).live)
    (hn : e'.lrCount = e.lrCount) (h : RecordedIn e v i s) : RecordedIn e' v i s := by
  rw [RecordedIn, hl, hn]
  exact h

theorem recorded_congr (hirq : (s'.irq v i).pending = (s.irq v i).pending)
    (hctx : (s'.ctx v).lrs = (s.ctx v).lrs) (h : Recorded v i s) : Recorded v i s' := by
  rw [Recorded, hirq, hctx]
  exact h

theorem setLevel_pending : ((s.setLevel v j level).irq v i).pending = (s.irq v i).pending := by
  rw [setLevel, modIrq_irq]
  split
  · next hk => rw [hk.2]
  · rfl

/-! ## Injection -/

theorem raise_recorded (h : j ≠ i → Recorded v i s) :
    Recorded v i ((s.setLevel v j level).setPending v j true) := by
  by_cases hj : j = i
  · subst hj
    exact .inl (by rw [setPending_pending, if_pos ⟨rfl, rfl⟩])
  refine recorded_congr ?_ ?_ (h hj)
  · rw [setPending_pending, if_neg fun hc => hj hc.2.symm, setLevel_pending]
  · rw [setPending_ctx]
    rfl

theorem raise_recordedLive (h : j ≠ i → RecordedLive n v i s) :
    RecordedLive n v i ((s.setLevel v j level).setPending v j true) := by
  by_cases hj : j = i
  · subst hj
    exact .inl (by rw [setPending_pending, if_pos ⟨rfl, rfl⟩])
  refine (h hj).imp (fun hp => ?_) fun ha => ?_
  · rw [setPending_pending, if_neg fun hc => hj hc.2.symm, setLevel_pending]
    exact hp
  · rw [setPending_ich]
    exact ha

theorem raise_indexed (hs : Indexed s) : Indexed ((s.setLevel v j level).setPending v j true) := by
  have h1 : Indexed (s.setLevel v j level) := hs.modIrq fun _ => ⟨rfl, rfl⟩
  exact h1.setPending true

variable (hi : i ≠ ppiVirtualTimer) {idx : Nat} {lr : Lr}

include hi

/-- Another physical CPU injects into a vCPU that is not current. -/
theorem syncVcpu_recordedIn_off (hs : Indexed s)
    (hl : e.vcpuIsLoaded c v = false) (hr : e.vcpuIsRunningRemote c v = false)
    (hsafe : SyncSafe e c v i s) (h : RecordedIn e v i s) :
    RecordedIn e v i (s.syncVcpu e line c false v) := by
  have hsafe : (s.irq v i).pending = true →
      ((s.irq v i).level = false → Intact i (s.ctx v).lrs (s.ctx v).lrs) ∧
      ((e.phase v).live = true → (s.ctx v).lrs.Any (Lr.PendingOf i) →
        ((s.ich v).table e.lrCount).Any (Lr.PendingOf i)) := by
    intro hp
    have := hsafe hp
    rwa [hl, hr] at this
  cases hlive : (e.phase v).live with
  | false =>
    rw [recordedIn_off hlive] at h ⊢
    exact syncVcpu_recorded_off (hs.virq v) hi hl hr (fun hp => (hsafe hp).1) h
  | true =>
    rw [recordedIn_live hlive] at h ⊢
    have hlrs : ((s.syncVcpu e line c false v).ich v).lr = (s.ich v).lr :=
      (sameLrs_closed.syncOther (fun hc => by rw [hl] at hc; cases hc) ⟨hs.virq v, rfl⟩).lrs
    have hhw : ((s.ich v).table e.lrCount).Any (Lr.PendingOf i) →
        RecordedLive e.lrCount v i (s.syncVcpu e line c false v) := by
      intro ha
      refine .inr ?_
      rw [CpuIf.table, hlrs]
      exact ha
    rcases h with hp | ha
    · have hrec : Recorded v i (s.syncVcpu e line c false v) :=
        syncVcpu_recorded_off (hs.virq v) hi hl hr (fun hp => (hsafe hp).1) (.inl hp)
      rcases hrec with hp' | ha'
      · exact .inl hp'
      · exact hhw ((hsafe hp).2 hlive (syncVcpu_off_any hl hr ha'))
    · exact hhw ha

/-- An injection keeps what is on record, and records an edge of its own. -/
theorem injectLocked_recorded (hs : Indexed s) (hc : CallerOk e c) (hdesc : e.hasDesc v j = true)
    (hused : ((s.injectLocked e line c v j level).ctx v).lrs.used ≤ e.lrCount)
    (hsafe : j ≠ i → SyncSafe e c v i s) (h : j ≠ i → RecordedIn e v i s) :
    RecordedIn e v i (s.injectLocked e line c v j level) := by
  rw [injectLocked, if_pos hdesc] at hused ⊢
  have hs1 : Indexed (s.syncVcpu e line c false v) :=
    (Indexed.closed e.lrCount v).syncOther (fun _ => trivial) hs
  cases hl : e.vcpuIsLoaded c v with
  | true =>
    -- read back, raised and written out on the spot
    have hlive := hc.live hl
    rw [recordedIn_live hlive]
    have h1 : j ≠ i → Recorded v i (s.syncVcpu e line c false v) := by
      intro hj
      have hsafe := hsafe hj
      have h := h hj
      rw [recordedIn_live hlive] at h
      refine syncVcpu_recorded_own (hs.virq v) hi (.inr hl) (fun hp => ?_) h
      have := hsafe hp
      rwa [hl] at this
    refine Fresh.recordedLive (flushIfLoaded_fresh hl) hused ?_
    rw [flushIfLoaded, if_pos hl]
    exact flushVcpu_recorded (raise_indexed hs1) (raise_recorded h1)
  | false =>
    have hflush : ∀ s' : Core, s'.flushIfLoaded e c v = s' := by
      intro s'
      rw [flushIfLoaded, hl, if_neg Bool.false_ne_true]
    rw [hflush]
    have h1 : j ≠ i → RecordedIn e v i (s.syncVcpu e line c false v) := by
      intro hj
      cases hr : e.vcpuIsRunningRemote c v with
      | true =>
        rw [syncVcpu, hr]
        exact h hj
      | false => exact syncVcpu_recordedIn_off hi hs hl hr (hsafe hj) (h hj)
    cases hlive : (e.phase v).live with
    | true =>
      rw [recordedIn_live hlive]
      exact raise_recordedLive fun hj => (recordedIn_live hlive).mp (h1 hj)
    | false =>
      rw [recordedIn_off hlive]
      exact raise_recorded fun hj => (recordedIn_off hlive).mp (h1 hj)

/-! ## The vCPU's own physical CPU -/

/-- A call on the running vCPU syncs first, works on other interrupts, and flushes. -/
theorem own_recorded {f : Core → Core} (hs : Indexed s)
    (hrun : e.phase v = .running) (hsafe : SyncSafe e (some v) v i s)
    (hf : ∀ {s'}, Indexed s' → Recorded v i s' → Indexed (f s') ∧ Recorded v i (f s'))
    (hused : (((f (s.syncVcpu e line (some v) true v)).flushVcpu e (some v) true v).ctx
      v).lrs.used ≤ e.lrCount) (h : RecordedLive e.lrCount v i s) : RecordedLive e.lrCount v i
      ((f (s.syncVcpu e line (some v) true v)).flushVcpu e (some v) true v) := by
  have h1 : Recorded v i (s.syncVcpu e line (some v) true v) := by
    refine syncVcpu_recorded_own (hs.virq v) hi (.inl rfl) (fun hp => ?_) h
    have := hsafe hp
    rwa [loaded_of_running hrun] at this
  have hs1 : Indexed (s.syncVcpu e line (some v) true v) :=
    (Indexed.closed e.lrCount v).syncCurrent trivial hs
  obtain ⟨hs2, h2⟩ := hf hs1 h1
  exact Fresh.recordedLive flushCurrent_fresh hused (flushVcpu_recorded hs2 h2)

theorem setTimerLine_recorded (h : Recorded v i s) : Recorded v i (s.setTimerLine e v level) := by
  rw [setTimerLine]
  split
  · have h1 : Recorded v i ((s.setLevel v ppiVirtualTimer true).setPending v
        ppiVirtualTimer level) := by
      refine recorded_congr ?_ ?_ h
      · rw [setPending_pending, if_neg fun hc => hi hc.2, setLevel_pending]
      · rw [setPending_ctx]
        rfl
    generalize (s.setLevel v ppiVirtualTimer true).setPending v ppiVirtualTimer level = s₁ at h1
    rw [refreshTimerLr]
    split
    · exact h1
    rename_i idx hf
    have hne : ¬ ((s₁.ctx v).lrs.slot idx).PendingOf i :=
      fun hp => hi (hp.2.symm.trans (find_some hf).2.2)
    split
    · refine h1.imp_right fun ha => ?_
      rw [modLrs_self]
      exact ha.set fun hp => absurd hp hne
    · refine h1.imp_right fun ha => ?_
      rw [removeLr_self]
      exact ha.remove hne
  · exact h

theorem completeWfiLrs_recorded (k idx : Nat)
    (h : Recorded v i s) : Recorded v i (s.completeWfiLrs e line v k idx) := by
  induction k generalizing s idx with
  | zero => exact h
  | succ k ih =>
    have h1 : Recorded v i (s.completeWfiLr e line v idx).1 := by
      rw [completeWfiLr, settleWfiLr]
      split
      · next hc =>
        -- an edge that is only active leaves, and what is owed stays
        rw [Bool.and_eq_true, beq_iff_eq] at hc
        refine h.imp (fun hp => ?_) fun ha => ?_
        · rw [removeLr_irq, setActive, modIrq_irq]
          split
          · next hk => exact hk.2 ▸ hp
          · exact hp
        · rw [removeLr_self]
          refine ha.remove fun hp => ?_
          have := hp.1
          rw [hc.2] at this
          cases this
      · split
        · next hc =>
          have ht : isVtimer ((s.ctx v).lrs.slot idx).vintid = true := by
            simp only [Bool.and_eq_true] at hc
            exact hc.1.1.2
          have hne : ((s.ctx v).lrs.slot idx).vintid ≠ i := by
            intro hv
            rw [hv, Held.not_vtimer hi] at ht
            cases ht
          rw [completeTimerLr]
          refine h.imp (fun hp => ?_) fun ha => ?_
          · rw [removeLr_irq, setPending_pending, if_neg fun hc => hne hc.2.symm,
              setActive, modIrq_irq, if_neg fun hc => hne hc.2.symm]
            exact hp
          · rw [removeLr_self, setPending_ctx]
            exact ha.remove fun hp => hne hp.2
        · exact h
    rw [completeWfiLrs]
    split <;> exact ih _ h1

theorem service_recorded (hs : Indexed s)
    (hrun : e.phase v = .running) (hsafe : SyncSafe e (some v) v i s)
    (hused : ((s.syncFlush e line v).ctx v).lrs.used ≤ e.lrCount)
    (h : RecordedLive e.lrCount v i s) : RecordedLive e.lrCount v i (s.syncFlush e line v) :=
  own_recorded hi hs hrun hsafe (fun hs' h' => ⟨hs', h'⟩) hused h

theorem refreshLevel_recorded (hs : Indexed s) (hrun : e.phase v = .running)
    (hsafe : SyncSafe e (some v) v i s)
    (hused : ((s.refreshCurrentLevelIrq e line v j).ctx v).lrs.used ≤ e.lrCount)
    (h : RecordedLive e.lrCount v i s) :
    RecordedLive e.lrCount v i (s.refreshCurrentLevelIrq e line v j) := by
  rw [refreshCurrentLevelIrq] at hused ⊢
  split at hused
  · next hc =>
    rw [if_pos hc]
    exact service_recorded hi hs hrun hsafe hused h
  · next hc =>
    rw [if_neg hc]
    exact h

omit hi in
theorem flush_recordedIn (hs : Indexed s) (hc : CallerOk e c) (hsafe : FlushSafe e c v i s)
    (hused : ((s.flushVcpu e c false v).ctx v).lrs.used ≤ e.lrCount)
    (h : RecordedIn e v i s) : RecordedIn e v i (s.flushVcpu e c false v) := by
  cases hl : e.vcpuIsLoaded c v with
  | true =>
    have hlive := hc.live hl
    rw [FlushSafe, hl] at hsafe
    rw [recordedIn_live hlive] at h ⊢
    refine Fresh.recordedLive (flushVcpu_fresh (.inr hl)) hused (flushVcpu_recorded hs ?_)
    exact h.elim .inl hsafe
  | false =>
    rw [FlushSafe, hl] at hsafe
    cases hr : e.vcpuIsRunningRemote c v with
    | true =>
      rw [flushVcpu, hr]
      exact h
    | false =>
      cases hlive : (e.phase v).live with
      | false =>
        rw [recordedIn_off hlive] at h ⊢
        exact flushVcpu_recorded hs h
      | true =>
        -- only a row that is being switched in is live and not current
        have hph : e.phase v = .loading := by
          cases hph : e.phase v with
          | loading => rfl
          | off | saved => rw [hph] at hlive; cases hlive
          | running | stopping => simp [Env.vcpuIsLoaded, Env.vcpuIsRunningRemote, hph,
              Phase.curr] at hl hr; exact absurd hr hl
        rw [recordedIn_live hlive] at h ⊢
        refine .inr ?_
        have hlrs : ((s.flushVcpu e c false v).ich v).lr = (s.ich v).lr := by
          refine (sameLrs_closed.flushVcpu ?_ ⟨hs.virq v, rfl⟩).lrs
          rintro (hc | hc)
          · cases hc
          · rw [hl] at hc
            cases hc
        rw [CpuIf.table, hlrs]
        refine h.resolve_left fun hp => ?_
        rw [hsafe hph] at hp
        cases hp

/-! ## The switch, and the guest -/

omit hi in
theorem load_recorded (hused : (s.ctx v).lrs.used ≤ e.lrCount) (h : Recorded v i s) :
    RecordedLive e.lrCount v i (s.loadVcpu e v) :=
  Fresh.recordedLive (fresh_write fun _ => rfl) hused h

omit hi in
theorem save_recorded (h : RecordedLive e.lrCount v i s) : Recorded v i (s.saveVcpu e v) := by
  refine h.imp_right fun ha => ?_
  rw [saveVcpu, modIch_ctx, modCtx_self]
  exact any_readLrs (fun _ hp => hp.of.1) ha

omit hi in
/-- The guest works on a list register, and does not take the interrupt. -/
theorem guest_recorded (hlr : ((s.ich v).lr idx).PendingOf i → lr.PendingOf i)
    (h : RecordedLive n v i s) :
    RecordedLive n v i (s.modIch v fun h => { h with lr := update h.lr idx lr }) := by
  refine h.imp_right fun ⟨k, hk, hp⟩ => ⟨k, hk, ?_⟩
  rw [modIch_self]
  show (update (s.ich v).lr idx lr k).PendingOf i
  by_cases hki : k = idx
  · subst hki
    rw [update_self]
    exact hlr hp
  · rw [update_of_ne hki]
    exact hp

/-- An injection into any row, and the note taken of it. -/
theorem RecordedIn.inject {t : Vid} {owed : Bool}
    (hs : Indexed s) (hc : CallerOk e c) (hdesc : e.hasDesc t j = true)
    (hused : ((s.injectLocked e line c t j level).ctx v).lrs.used ≤ e.lrCount)
    (hsafe : t = v → SyncSafe e c v i s) (h : owed = true → RecordedIn e v i s)
    (hnote : (owed || (t == v && j == i && !level)) = true) :
    RecordedIn e v i (s.injectLocked e line c t j level) := by
  by_cases ht : t = v
  · subst ht
    refine injectLocked_recorded hi hs hc hdesc hused (fun _ => hsafe rfl) fun hj => h ?_
    rwa [beq_false_of_ne hj, Bool.and_false, Bool.false_and, Bool.or_false] at hnote
  · rw [beq_false_of_ne ht, Bool.false_and, Bool.false_and, Bool.or_false] at hnote
    exact (h hnote).sameRow ((SameRow.closed (Ne.symm ht)).injectLocked trivial
      (fun _ => trivial) hs.sameRow)

omit hi

section

variable (hs : Indexed s) (hrun : e.phase w = .running) (h : RecordedIn e v i s)

include hs hrun h

theorem RecordedIn.own
    (hrow : ∀ {P : Core → Prop},
      Closed e.lrCount w (fun _ => True) (fun _ => True) (fun _ => True) True P → P s → P s')
    (hself : w = v → RecordedLive e.lrCount v i s → RecordedLive e.lrCount v i s') :
    RecordedIn e v i s' := by
  by_cases hw : w = v
  · subst hw
    have hlive : (e.phase w).live = true := by
      rw [hrun]
      rfl
    rw [recordedIn_live hlive] at h ⊢
    exact hself rfl h
  · exact h.sameRow (hrow (SameRow.closed (Ne.symm hw)) hs.sameRow)

theorem RecordedIn.timerLine (hi : i ≠ ppiVirtualTimer) (hsafe : w = v → SyncSafe e (some v) v i s)
    (hdesc : e.hasDesc w ppiVirtualTimer = true)
    (hused : ((s.syncCurrentTimerLine e line w level).ctx v).lrs.used ≤ e.lrCount) :
    RecordedIn e v i (s.syncCurrentTimerLine e line w level) := by
  refine .own hs hrun h (fun K h => K.syncCurrentTimerLine trivial h) ?_
  rintro rfl
  rw [syncCurrentTimerLine, if_pos hdesc] at hused ⊢
  exact own_recorded hi hs hrun (hsafe rfl)
    (fun hs' h' => ⟨(Indexed.closed e.lrCount w).setTimerLine hs', setTimerLine_recorded hi h'⟩)
    hused

theorem RecordedIn.guest (hlr : w = v → ((s.ich w).lr idx).PendingOf i → lr.PendingOf i) :
    RecordedIn e v i (s.modIch w fun h => { h with lr := update h.lr idx lr }) := by
  by_cases hw : w = v
  · subst hw
    have hlive : (e.phase w).live = true := by
      rw [hrun]
      rfl
    rw [recordedIn_live hlive] at h ⊢
    exact guest_recorded (hlr rfl) h
  · exact h.sameRow (hs.sameRow.modIch (Ne.symm hw))

end

theorem RecordedIn.query (h : RecordedIn e v i s) :
    RecordedIn e v i (s.hasPendingIrq e c w).2 := by
  have hctx : ((s.queryCpuif e c w).ctx v).lrs = (s.ctx v).lrs := by
    rw [queryCpuif]
    split
    · by_cases hw : v = w
      · subst hw
        rw [modCtx_self]
        rfl
      · rw [modCtx_other _ _ _ hw]
    · rfl
  have hirq : (s.queryCpuif e c w).irq = s.irq := by
    rw [queryCpuif]
    split <;> rfl
  have hich : (s.queryCpuif e c w).ich = s.ich := by
    rw [queryCpuif]
    split <;> rfl
  show RecordedIn e v i (s.queryCpuif e c w)
  rw [RecordedIn, RecordedLive, Recorded, hirq, hctx, hich]
  exact h

theorem sameRow_reset (hs : Indexed s) (hw : v ≠ w) : SameRow v s (s.resetVcpuBootState e w) := by
  have h1 : SameRow v s (s.modCtx w fun _ => initCtx) := hs.sameRow.modCtx hw
  rw [resetVcpuBootState]
  split
  · exact List.foldlRecOn _ _ h1 fun s' h' j _ =>
      SameRow.modIrq hw (SameRow.setPending hw h') fun _ => rfl
  · exact h1

end Core

/-! ## Steps -/

variable {m : Vm} {p : Phase} {w : Vid}

theorem setPhase_live_other (hw : w ≠ v) :
    ((m.setPhase w p).env.phase v).live = (m.env.phase v).live := by
  show (update m.env.phase w p v).live = _
  rw [update_of_ne (Ne.symm hw)]

theorem setPhase_live_self : ((m.setPhase v p).env.phase v).live = p.live := by
  show (update m.env.phase v p v).live = _
  rw [update_self]

theorem setPhase_live_same (hp : w = v → p.live = (m.env.phase v).live) :
    ((m.setPhase w p).env.phase v).live = (m.env.phase v).live := by
  by_cases hw : w = v
  · rw [← hp hw, hw]
    exact setPhase_live_self
  · exact setPhase_live_other hw

theorem injectFound_row (m : Vm) (line : Samples) (c : Caller) (deviceId eventId : Nat) :
    (m.msiRow deviceId eventId = none ∧ (m.injectFound line c deviceId eventId).core = m.core) ∨
      ∃ t j, m.msiRow deviceId eventId = some (t, j) ∧ t < m.env.vcpuCount ∧
        isLpi j = true ∧ (m.injectFound line c deviceId eventId).core =
          m.core.injectLocked m.env line c t j false := by
  rw [Vm.msiRow, Vm.injectFound]
  cases hfind : Vm.findEvent m.its deviceId eventId with
  | none => exact .inl ⟨rfl, rfl⟩
  | some p =>
    rw [Option.bind_some]
    dsimp only
    rw [Vm.injectEvent]
    split
    · next hvalid =>
      cases ht : m.eventTarget (Vm.eventAt m.its p) with
      | none => exact .inl ⟨rfl, rfl⟩
      | some t =>
        refine .inr ⟨t, _, rfl, ?_, (Bool.and_eq_true_iff.mp hvalid).2, rfl⟩
        exact of_decide_eq_true (Option.filter_eq_some_iff.mp ht).2
    · exact .inl ⟨rfl, rfl⟩

variable {cfg : GicConfig} {i : Nat}

section

variable (hind : Indexed m.core)

include hind

theorem recordedIn_load (hused : (m.core.ctx v).lrs.used ≤ m.env.lrCount)
    (hoff : (m.env.phase w).live = false) (h : m.core.RecordedIn m.env v i) :
    (m.core.loadVcpu m.env w).RecordedIn (m.setPhase w .loading).env v i := by
  by_cases hwv : w = v
  · subst hwv
    rw [recordedIn_off hoff] at h
    exact (recordedIn_live setPhase_live_self).mpr (load_recorded hused h)
  · have hrow : SameRow v m.core (m.core.loadVcpu m.env w) := hind.sameRow.modIch (Ne.symm hwv)
    exact .env (setPhase_live_other hwv) rfl (h.sameRow hrow)

theorem recordedIn_save (hlive : (m.env.phase w).live = true)
    (h : m.core.RecordedIn m.env v i) :
    (m.core.saveVcpu m.env w).RecordedIn (m.setPhase w .saved).env v i := by
  by_cases hwv : w = v
  · subst hwv
    rw [recordedIn_live hlive] at h
    exact (recordedIn_off setPhase_live_self).mpr (save_recorded h)
  · have hrow : SameRow v m.core (m.core.saveVcpu m.env w) :=
      (hind.sameRow.modCtx (Ne.symm hwv)).modIch (Ne.symm hwv)
    exact .env (setPhase_live_other hwv) rfl (h.sameRow hrow)

theorem recordedIn_regs {h' : CpuIf} (hlr : h'.lr = (m.core.ich w).lr)
    (h : m.core.RecordedIn m.env v i) :
    (m.core.modIch w fun _ => h').RecordedIn m.env v i := by
  by_cases hwv : w = v
  · subst hwv
    rw [RecordedIn, RecordedLive, modIch_self, CpuIf.table, hlr]
    exact h
  · exact h.sameRow (hind.sameRow.modIch (Ne.symm hwv))

end

theorem recordedIn_step {a : Label} {m' : Vm} {owed : Bool} (hi : i ≠ ppiVirtualTimer)
    (hind : Indexed m.core) (he : m.env.Complete) (hmax : m.env.vcpuCount ≤ m.env.maxVcpus)
    (hused : (m.core.ctx v).lrs.used ≤ m.env.lrCount)
    (hused' : (m'.core.ctx v).lrs.used ≤ m'.env.lrCount) (hok : Delivers v i a (m, owed))
    (hs : Step cfg a m m') (h : owed = true → m.core.RecordedIn m.env v i)
    (hnote : noteOwed v i a m owed = true) : m'.core.RecordedIn m'.env v i := by
  have hdesc : ∀ {t j}, t < m.env.vcpuCount → j < irqNum → m.env.hasDesc t j = true := by
    intro t j ht hj
    rw [Env.hasDesc, decide_eq_true (lt_of_lt_of_le ht hmax), decide_eq_true hj]
    rfl
  cases hs with
  | @inject _ c w j level line hc hw hj =>
    have ht : m.irqTargetVcpu w j < m.env.vcpuCount := by
      cases hspi : isSpi j with
      | true =>
        rw [irqTargetVcpu_eq hspi he]
        exact spiTarget_lt he.2
      | false =>
        rw [Vm.irqTargetVcpu, hspi]
        exact hw
    exact .inject hi hind hc (hdesc ht hj) hused' hok h hnote
  | @injectTo _ c t j level line hc ht hj =>
    have hj : j < irqNum := lt_trans hj (by decide)
    exact .inject hi hind hc (hdesc ht hj) hused' hok h hnote
  | @injectMsi _ c deviceId eventId line hc hits =>
    have henv := (injectFound_core m line c deviceId eventId).1
    have hnote : (owed || m.msiRow deviceId eventId == some (v, i)) = true := hnote
    rw [henv] at hused' ⊢
    obtain ⟨hrow, hcore⟩ | ⟨t, j, hrow, ht, hj, hcore⟩ :=
      injectFound_row m line c deviceId eventId
    · rw [hcore]
      rw [hrow] at hnote
      exact h (by simpa using hnote)
    rw [hcore] at hused' ⊢
    refine .inject hi hind hc ?_ hused' (fun _ => hok) h ?_
    · rw [Env.hasDesc, decide_eq_true (lt_of_lt_of_le ht hmax), hits, hj]
      simp
    · rw [hrow] at hnote
      simpa using hnote
  | service line _ hrun =>
    refine .own hind hrun (h hnote) (fun K h => K.syncFlush trivial h) ?_
    rintro rfl
    exact service_recorded hi hind hrun (hok rfl) hused'
  | timerLine line hw hrun =>
    exact (h hnote).timerLine hind hrun hi hok (hdesc hw (by decide)) hused'
  | @refreshLevel _ w j line hw hrun =>
    refine .own hind hrun (h hnote) (fun K h => K.refreshCurrentLevelIrq trivial h) ?_
    rintro rfl
    exact refreshLevel_recorded hi hind hrun (hok rfl) hused'
  | @completeWfi _ w line hw hrun =>
    refine .own hind hrun (h hnote) (fun K h => K.completeWfiIrqs trivial h) ?_
    rintro rfl
    exact own_recorded hi hind hrun (hok rfl)
      (fun hs' h' => ⟨(Indexed.closed m.env.lrCount w).completeWfiLrs _ hs',
        completeWfiLrs_recorded hi _ _ h'⟩) hused'
  | @hasPending _ c w hc hw => exact (h hnote).query
  | @flush _ c w hc hw =>
    by_cases hwv : w = v
    · subst hwv
      exact flush_recordedIn hind hc (hok rfl) hused' (h hnote)
    · exact (h hnote).sameRow ((SameRow.closed (Ne.symm hwv)).flushVcpu (fun _ => trivial)
        hind.sameRow)
  | @flushCurrent _ w hw hrun =>
    show (m.core.flushVcpu m.env (some w) true w).RecordedIn m.env v i
    refine .own hind hrun (h hnote) (fun K h => K.flushVcpu (fun _ => trivial) h) ?_
    rintro rfl hrec
    have hsafe : m.core.FlushSafe m.env (some w) w i := hok rfl
    rw [FlushSafe, loaded_of_running hrun] at hsafe
    exact Fresh.recordedLive flushCurrent_fresh hused'
      (flushVcpu_recorded hind (hrec.elim .inl hsafe))
  | @load _ w hw hph =>
    refine recordedIn_load hind hused ?_ (h hnote)
    rw [hph]
    rfl
  | @enter _ w hw hph | @leave _ w hw hph =>
    refine (h hnote).env (setPhase_live_same ?_) rfl
    rintro rfl
    rw [hph]
    rfl
  | @stop _ w level line hw hrun =>
    have hrec : (m.core.syncCurrentTimerLine m.env line w level).RecordedIn m.env v i :=
      (h hnote).timerLine hind hrun hi hok (hdesc hw (by decide)) hused'
    refine hrec.env (setPhase_live_same ?_) rfl
    rintro rfl
    show Phase.stopping.live = (m.env.phase w).live
    rw [hrun]
    rfl
  | @save _ w hw hph =>
    refine recordedIn_save hind ?_ (h hnote)
    rw [hph]
    rfl
  | @reset _ w hw =>
    have hnote : (owed && w != v) = true := hnote
    rw [Bool.and_eq_true, bne_iff_ne] at hnote
    exact (h hnote.1).sameRow (sameRow_reset hind (Ne.symm hnote.2))
  | @ack _ w j idx hw hrun hidx hst hv =>
    have hnote : (owed && !(w == v && j == i)) = true := hnote
    rw [Bool.and_eq_true] at hnote
    refine .guest hind hrun (h hnote.1) fun hwv hp => ?_
    -- the interrupt in the slot is another one
    have hji : j = i := hv.symm.trans (hwv ▸ hp.2)
    rw [hwv, hji, beq_self_eq_true, beq_self_eq_true] at hnote
    cases hnote.2
  | @eoi _ w j idx hw hrun hidx hst hv =>
    refine .guest hind hrun (h hnote) fun _ hp => ⟨?_, hp.2⟩
    show (if ((m.core.ich w).lr idx).state.isPending then LrState.pending
      else LrState.invalid).isPending = true
    rw [if_pos hp.1]
    rfl
  | @regs _ w h' hw hrun hlr =>
    exact recordedIn_regs hind hlr (h hnote)
  | clear | deassert | mmio | cpuif => exact hok.elim

/-! ## Runs -/

theorem recordedIn_run {b : Board} {m₀ : Vm} (hi : i ≠ ppiVirtualTimer)
    (hreach : Reachable cfg b m₀) {tr : List Label} {x : Vm × Bool}
    (hrun : GuardedRun (Noted (Step cfg) (noteOwed v i)) (Delivers v i) (m₀, false) tr x) :
    Reachable cfg b x.1 ∧ (x.2 = true → x.1.core.RecordedIn x.1.env v i) := by
  induction hrun with
  | nil => exact ⟨hreach, by simp⟩
  | @cons a tr x y _ hok hs ih =>
    obtain ⟨⟨tr₀, h₀⟩, hrec⟩ := ih
    have h₁ : GuardedRun (Step cfg) (fun _ _ => True) b.start (a :: tr₀) y.1 :=
      .cons h₀ trivial hs.1
    refine ⟨⟨_, h₁⟩, fun hy => ?_⟩
    have hf := fixed_run h₀
    have hmax : x.1.env.vcpuCount ≤ x.1.env.maxVcpus := by
      rw [hf.vcpuCount, hf.maxVcpus]
      exact b.vcpuCount_le
    exact recordedIn_step hi (Indexed.run h₀) (complete_run h₀) hmax
      ((othersDistinct_run h₀).used v trivial) ((othersDistinct_run h₁).used v trivial) hok
      hs.1 hrec (hs.2 ▸ hy)

/-- From any state the machine can reach, and in any interleaving of the steps of
delivery that avoids the three moments, an edge that is owed is on record. -/
theorem edge_recorded {cfg : GicConfig} {b : Board} {m₀ m : Vm} {v : Vid} {i : Nat}
    (hi : i ≠ ppiVirtualTimer) (hreach : Reachable cfg b m₀) {tr : List Label}
    (hrun : GuardedRun (Noted (Step cfg) (noteOwed v i)) (Delivers v i) (m₀, false) tr (m, true)) :
    (m.core.irq v i).pending = true ∨
      if (m.env.phase v).live then
        ((m.core.ich v).table m.env.lrCount).Any (Lr.PendingOf i)
      else (m.core.ctx v).lrs.Any (Lr.PendingOf i) := by
  have hrec := (recordedIn_run hi hreach hrun).2 rfl
  rw [RecordedIn] at hrec
  split at hrec
  · next hl =>
    rw [if_pos hl]
    exact hrec
  · next hl =>
    rw [if_neg hl]
    exact hrec

/-! ## An edge for a vCPU that runs -/

/-- `SPI 40` fires as an edge, from a physical CPU that is home to no vCPU. -/
def firedVm (m : Vm) : Vm :=
  m.modCore fun e s => s.injectLocked e (fun _ _ => false) none (m.irqTargetVcpu 0 40) 40 false

/-- vCPU 0 exits and enters again. -/
def servicedVm (m : Vm) : Vm := m.modCore fun e s => s.syncFlush e (fun _ _ => false) 0

theorem enabledVm_reachable : Reachable twoFrames twoVcpus enabledVm :=
  ⟨_, play_run [.load 0, .enter 0, .mmio 0 (gicdWord 0x104 0x100)] (by decide +kernel)⟩

theorem edge_recorded_fired : ((servicedVm (firedVm enabledVm)).core.irq 0 40).pending = true ∨
      (((servicedVm (firedVm enabledVm)).core.ich 0).table
        (servicedVm (firedVm enabledVm)).env.lrCount).Any (Lr.PendingOf 40) := by
  have hok : Delivers 0 40 (.inject none 0 40 false) (enabledVm, false) := by
    intro _ hp
    exact absurd hp (by decide +kernel)
  have hok' : ∀ owed, Delivers 0 40 (.service 0) (firedVm enabledVm, owed) := by
    intro _ _ _
    refine fun _ => ⟨fun idx hidx => absurd hidx ?_, fun ⟨idx, hidx, _⟩ => absurd hidx ?_⟩
    · exact Nat.not_lt_zero idx
    · exact Nat.not_lt_zero idx
  have hnote : noteOwed 0 40 (.inject none 0 40 false) enabledVm false = true := by decide +kernel
  have hrun : GuardedRun (Noted (Step twoFrames) (noteOwed 0 40)) (Delivers 0 40)
      (enabledVm, false) [.service 0, .inject none 0 40 false]
      (servicedVm (firedVm enabledVm), true) := by
    exact play_noted [.inject none 0 40 false, .service 0]
      ⟨⟨by decide +kernel, hok⟩, ⟨by decide +kernel, hok' _⟩, trivial⟩
  have hrec := edge_recorded (by decide) enabledVm_reachable hrun
  rwa [if_pos (by decide +kernel)] at hrec

/-- vCPU 0 takes the edge; it fires again, and only then vCPU 0 ends the first one and
exits. -/
def forgottenVm : Vm :=
  servicedVm ((firedVm ((servicedVm (firedVm enabledVm)).modCore fun _ s =>
    Vm.ackSlot 0 0 s)).modCore fun _ s => Vm.eoiSlot 0 0 s)

def forgottenTrace : List Label :=
  [.service 0, .eoi 0 40, .inject none 0 40 false, .ack 0 40, .service 0, .inject none 0 40 false]

/-- The second edge is owed, and nowhere on record. -/
theorem edge_forgotten : Reachable twoFrames twoVcpus enabledVm ∧
      GuardedRun (Noted (Step twoFrames) (noteOwed 0 40)) (fun _ _ => True)
        (enabledVm, false) forgottenTrace (forgottenVm, true) ∧
      (forgottenVm.core.irq 0 40).pending = false ∧
      ¬ (forgottenVm.core.ctx 0).lrs.Any (Lr.PendingOf 40) ∧
      ¬ ((forgottenVm.core.ich 0).table forgottenVm.env.lrCount).Any (Lr.PendingOf 40) := by
  have hused : (forgottenVm.core.ctx 0).lrs.used = 0 := by decide +kernel
  have hclear : ∀ idx < 4, ((forgottenVm.core.ich 0).lr idx).state.isPending = false := by
    decide +kernel
  have hcount : forgottenVm.env.lrCount = 4 := by decide +kernel
  refine ⟨enabledVm_reachable, play_noted forgottenTrace.reverse (by decide +kernel),
    by decide +kernel, ?_, ?_⟩
  · rintro ⟨idx, hidx, -⟩
    exact Nat.not_lt_zero idx hidx
  rintro ⟨idx, hidx, hp, -⟩
  have hp : ((forgottenVm.core.ich 0).lr idx).state.isPending = true := hp
  rw [hclear idx hidx] at hp
  cases hp

end Sima.Vgic
