import Sima.Vgic.ListRegs

/-!
# Rows an interrupt has left

An interrupt is quiet in a row if nothing there would bring it to the guest: the
descriptor is not pending, and no list register has it pending — or, in the strict
sense, the descriptor is not active either and no list register is valid. Quietness
of an SPI survives everything that is not an assertion of it in that row. A sync
reads back only what the hardware holds, a flush hands out only what is pending, and
the timer, which is put back from a sampled line, is not an SPI.

The rows and the hardware are kept apart. `T` are the vCPUs whose descriptor and
context are quiet, `H` those whose list registers in the hardware are: a context may
be read from the hardware only if that is quiet, too, and the hardware written only
from a context that is.
-/

namespace Sima.Vgic

open Lib Core
open Function (forall_update_iff)

/-- The list register keeps the interrupt from being quiet; `k` is the strict sense. -/
def Lr.Holds (k : Bool) (virq : Nat) (lr : Lr) : Prop :=
  lr.vintid = virq ∧ if k then lr.state ≠ .invalid else lr.state.isPending = true

namespace Lr

variable {k : Bool} {virq : Nat} {lr new : Lr}

theorem PendingOf.holds (h : lr.PendingOf virq) : lr.Holds k virq := by
  refine ⟨h.2, ?_⟩
  cases k with
  | true => exact h.of.1
  | false => exact h.1

theorem ActiveOf.holds (h : lr.ActiveOf virq) : lr.Holds true virq := by
  refine ⟨h.2, fun hi => ?_⟩
  have ha := h.1
  rw [hi] at ha
  exact absurd ha (by decide)

theorem Holds.of (h : lr.Holds k virq) : lr.Of virq := by
  cases k with
  | true => exact ⟨h.2, h.1⟩
  | false => exact PendingOf.of ⟨h.2, h.1⟩

theorem not_holds_blank : ¬ ({} : Lr).Holds k virq := fun h => h.of.1 rfl

theorem Fades.holds (hf : lr.Fades new) (h : new.Holds k virq) : lr.Holds k virq := by
  refine ⟨hf.vintid ▸ h.1, ?_⟩
  cases k with
  | true => exact hf.valid h.2
  | false => exact hf.pending h.2

end Lr

structure Quiet (n : Nat) (k : Bool) (virq : Nat) (T H : Vid → Prop) (s : Core) :
    Prop where
  ids : ∀ v i, (s.irq v i).virq = i
  pending : ∀ w, T w → (s.irq w virq).pending = false
  active : k = true → ∀ w, T w → (s.irq w virq).active = false
  ctx : ∀ w, T w → ¬ (s.ctx w).lrs.Any (Lr.Holds k virq)
  ich : ∀ w, H w → ¬ ((s.ich w).table n).Any (Lr.Holds k virq)

namespace Quiet

variable {n : Nat} {k : Bool} {virq i : Nat} {T H T' H' : Vid → Prop} {s : Core} {u : Vid}

variable (h : Quiet n k virq T H s) {b : Bool} {c : Ctx}

include h

theorem mono (hT : ∀ w, T' w → T w) (hH : ∀ w, H' w → H w) : Quiet n k virq T' H' s :=
  ⟨h.ids, fun w hw => h.pending w (hT w hw), fun hk w hw => h.active hk w (hT w hw),
    fun w hw => h.ctx w (hT w hw), fun w hw => h.ich w (hH w hw)⟩

/-! ## The small writes -/

theorem modIrq {f : VgicIrq → VgicIrq} (hid : ∀ d, (f d).virq = d.virq)
    (hp : i = virq → T u → (f (s.irq u i)).pending = false)
    (ha : k = true → i = virq → T u → (f (s.irq u i)).active = false) :
    Quiet n k virq T H (s.modIrq u i f) := by
  refine ⟨fun w j => ?_, fun w hw => ?_, fun hk w hw => ?_, h.ctx, h.ich⟩
  · rw [modIrq_irq]
    split
    · next he => rw [hid, h.ids, he.2]
    · exact h.ids w j
  · rw [modIrq_irq]
    split
    · next he => exact hp he.2.symm (he.1 ▸ hw)
    · exact h.pending w hw
  · rw [modIrq_irq]
    split
    · next he => exact ha hk he.2.symm (he.1 ▸ hw)
    · exact h.active hk w hw

theorem setPending (hb : b = true → i = virq → ¬ T u) :
    Quiet n k virq T H (s.setPending u i b) := by
  have h1 : Quiet n k virq T H (s.modIrq u i fun d => { d with pending := b }) := by
    refine h.modIrq (fun _ => rfl) (fun hi hu => ?_) fun hk hi hu => ?_
    · cases b with
      | false => rfl
      | true => exact absurd hu (hb rfl hi)
    · rw [hi]
      exact h.active hk u hu
  refine ⟨?_, ?_, ?_, ?_, ?_⟩
  · rw [setPending_irq]
    exact h1.ids
  · rw [setPending_irq]
    exact h1.pending
  · rw [setPending_irq]
    exact h1.active
  · rw [setPending_ctx]
    exact h.ctx
  · rw [setPending_ich]
    exact h.ich

theorem setActive (hb : k = true → b = true → i = virq → ¬ T u) :
    Quiet n k virq T H (s.setActive u i b) := by
  refine h.modIrq (fun _ => rfl) (fun hi hu => ?_) fun hk hi hu => ?_
  · rw [hi]
    exact h.pending u hu
  · cases b with
    | false => rfl
    | true => exact absurd hu (hb hk rfl hi)

theorem modCtx {f : Ctx → Ctx} (hf : T u → ¬ (f (s.ctx u)).lrs.Any (Lr.Holds k virq)) :
    Quiet n k virq T H (s.modCtx u f) := by
  refine ⟨h.ids, h.pending, h.active, ?_, h.ich⟩
  exact (forall_update_iff s.ctx fun w c => T w → ¬ c.lrs.Any _).mpr ⟨hf, fun w _ => h.ctx w⟩

theorem modLrs {f : Slots Lr → Slots Lr} (hf : T u → ¬ (f (s.ctx u).lrs).Any (Lr.Holds k virq)) :
    Quiet n k virq T H (s.modLrs u f) := h.modCtx hf

theorem modIch {f : CpuIf → CpuIf} (hf : H u → ¬ ((f (s.ich u)).table n).Any (Lr.Holds k virq)) :
    Quiet n k virq T H (s.modIch u f) := by
  refine ⟨h.ids, h.pending, h.active, h.ctx, ?_⟩
  exact (forall_update_iff s.ich fun w i => H w → ¬ (i.table n).Any _).mpr ⟨hf, fun w _ => h.ich w⟩

omit h in
theorem not_any_read {h : CpuIf} (hh : ¬ (h.table n).Any (Lr.Holds k virq)) :
    ¬ (readLrs n h c).lrs.Any (Lr.Holds k virq) := by
  rintro ⟨j, hj, hp⟩
  obtain ⟨hjn, hp⟩ := readLrs_sub hj hp
  exact hh ⟨j, hjn, hp⟩

omit h in
theorem not_any_write {h : CpuIf} (hc : ¬ c.lrs.Any (Lr.Holds k virq)) :
    ¬ ((writeLrs n c h).table n).Any (Lr.Holds k virq) := by
  rintro ⟨j, hj, hp⟩
  exact hc ⟨j, writeLrs_sub Lr.not_holds_blank hj hp⟩

/-- What a descriptor that is quiet makes of a list register. -/
theorem not_holds_make {p a : Bool} (hu : T u) (hp : p = true → (s.irq u i).pending = true)
    (ha : k = true → a = true → i ≠ virq) : ¬ (makeLrState (s.irq u i) p a).Holds k virq := by
  intro hh
  have hi : i = virq := (h.ids u i).symm.trans hh.1
  have hpf : p = false := by
    rw [Bool.eq_false_iff]
    intro he
    have := hp he
    rw [hi, h.pending u hu] at this
    cases this
  have hh := hh.2
  cases k with
  | true =>
    rw [makeLrState_valid, hpf] at hh
    rcases hh with hh | hh
    · cases hh
    · exact ha rfl hh hi
  | false =>
    rw [makeLrState_isPending, hpf] at hh
    cases hh

omit h in
theorem closed {L : Core → Prop} {W : Prop} (hS : virq ≠ ppiVirtualTimer)
    (hL : ∀ s, L s → T u → H u) (hW : W → H u → T u) (hLW : ∀ s, L s → W) :
    Closed n u (fun i => i = virq → ¬ T u) (fun i => k = true → i = virq → ¬ T u) L W
      (Quiet n k virq T H) where
  virq h := h.ids u
  lower _ h := h.setPending fun hb => by cases hb
  raise {s i} hr h := by
    refine h.setPending fun _ hi hu => ?_
    rcases hr with hr | hp
    · exact hr hi hu
    · rw [hi, h.pending u hu] at hp
      cases hp
  drop _ h := h.setActive fun _ hb => by cases hb
  activate {s i} ha h := by
    refine h.setActive fun hk _ hi hu => ?_
    rcases ha with ha | ha
    · exact ha hk hi hu
    · subst hk hi
      exact h.ctx u hu (ha.mono fun _ => Lr.ActiveOf.holds)
  config {s f} i hf h := by
    refine h.modIrq (fun d => (hf d).1) (fun hi hu => ?_) fun hk hi hu => ?_
    · rw [(hf _).2.1, hi]
      exact h.pending u hu
    · rw [(hf _).2.2, hi]
      exact h.active hk u hu
  remove {s} idx h := h.modLrs fun hu ha =>
    h.ctx u hu (Slots.any_remove ha)
  refresh {s i idx p a} hidx hof hp ha _ h := h.modLrs fun hu hany => by
    rcases Slots.any_set hany with hnew | hold
    · refine h.not_holds_make hu hp (fun hk ht hi => ?_) hnew
      rcases ha ht with hd | hl
      · rw [hi, h.active hk u hu] at hd
        cases hd
      · refine h.ctx u hu ⟨idx, hidx, hi ▸ hof.2, ?_⟩
        rw [if_pos hk]
        exact hof.1
    · exact h.ctx u hu hold
  push {s i} hp _ _ h := h.modLrs fun hu hany => by
    rcases Slots.any_push.mp hany with hold | hnew
    · exact h.ctx u hu hold
    · refine h.not_holds_make hu (fun _ => hp) (fun _ _ hi => ?_) hnew
      rw [hi, h.pending u hu] at hp
      cases hp
  ctx hf h := h.modCtx fun hu => by
    rw [hf]
    exact h.ctx u hu
  read {s f} hl hf h := h.modCtx fun hu => by
    rw [hf]
    exact not_any_read (h.ich u (hL s hl hu))
  ich hf h := h.modIch fun hu => by
    rw [CpuIf.table, hf]
    exact h.ich u hu
  write {s f} hw hf h := h.modIch fun hu => by
    rw [CpuIf.table, hf]
    exact not_any_write (h.ctx u (hW hw hu))
  writeOne {s idx} _ ht h := by
    rw [writeLr, if_pos rfl]
    refine h.modIch fun hu => ?_
    rintro ⟨j, hj, hp⟩
    have hp : (Function.update (s.ich u).lr idx _ j).Holds k virq := hp
    by_cases hji : j = idx
    · subst hji
      rw [Function.update_self] at hp
      exact hS (hp.1.symm.trans ht)
    · rw [Function.update_of_ne hji] at hp
      exact h.ich u hu ⟨j, hj, hp⟩
  licence {s i} h ha hi hu := by
    subst hi
    exact h.ctx u hu (ha.mono fun _ => Lr.PendingOf.holds)
  timer hi := absurd hi.symm hS
  here hl := hLW _ hl

/-! ## Becoming quiet -/

/-- A descriptor that has nothing to deliver takes its list register along, if the row
has only one. -/
theorem updateIrqLr (hone : (s.ctx u).lrs.Once (Lr.Of virq)) (hp : (s.irq u virq).pending = false)
    (ha : k = true → (s.irq u virq).active = false) :
    ¬ ((s.updateIrqLr u virq).ctx u).lrs.Any (Lr.Holds k virq) := by
  rw [Core.updateIrqLr, h.ids]
  split
  · next idx hf =>
    obtain ⟨hlt, hof⟩ := find_some hf
    rw [modLrs_self, refreshLr]
    split
    · -- it stays for being active, which is not held against it
      next hd =>
        rw [hp, Bool.and_false] at hd
        have hk : k = false := by
          rw [Bool.eq_false_iff]
          intro hk
          rw [ha hk] at hd
          cases hd
        rintro ⟨j, hj, hh⟩
        rw [Slots.set_slot] at hh
        split at hh
        · have hh := hh.2
          rw [hk, makeLrState_isPending, hp, Bool.and_false] at hh
          cases hh
        · next hji => exact hji (hone hj hlt hh.of hof)
    · intro hany
      exact hone.not_any_remove hlt hof (hany.mono fun _ => Lr.Holds.of)
  · next hf => exact fun hany => find_none hf (hany.mono fun _ => Lr.Holds.of)

theorem extend (hp : (s.irq u virq).pending = false)
    (ha : k = true → (s.irq u virq).active = false) (hc : ¬ (s.ctx u).lrs.Any (Lr.Holds k virq)) :
    Quiet n k virq (fun w => T w ∨ w = u) H s := by
  refine ⟨h.ids, fun w hw => ?_, fun hk w hw => ?_, fun w hw => ?_, h.ich⟩
  · rcases hw with hw | rfl
    · exact h.pending w hw
    · exact hp
  · rcases hw with hw | rfl
    · exact h.active hk w hw
    · exact ha hk
  · rcases hw with hw | rfl
    · exact h.ctx w hw
    · exact hc

theorem fresh (hf : Core.Fresh n u s) (hu : T u) : Quiet n k virq T (fun w => H w ∨ w = u) s := by
  refine ⟨h.ids, h.pending, h.active, h.ctx, fun w hw => ?_⟩
  rcases hw with hw | rfl
  · exact h.ich w hw
  rintro ⟨j, hj, hh⟩
  have hh : ((s.ich w).lr j).Holds k virq := hh
  rw [hf j hj] at hh
  split at hh
  · next hlt => exact h.ctx w hu ⟨j, hlt, hh⟩
  · exact Lr.not_holds_blank hh

/-! ## The legs of a switch, and the guest -/

omit h in
theorem load {e : Env} (h : Quiet e.lrCount k virq T H s)
    (hH : ∀ w, H' w → if w = u then T u else H w) :
    Quiet e.lrCount k virq T H' (s.loadVcpu e u) := by
  refine ⟨h.ids, h.pending, h.active, h.ctx, fun w hw => ?_⟩
  have hw := hH w hw
  by_cases hwu : w = u
  · subst hwu
    rw [if_pos rfl] at hw
    rw [loadVcpu, modIch_self]
    exact not_any_write (h.ctx w hw)
  · rw [if_neg hwu] at hw
    rw [loadVcpu, modIch_other _ _ _ hwu]
    exact h.ich w hw

theorem init : Quiet n k virq T H (s.modCtx u fun _ => initCtx) :=
  h.modCtx fun _ ⟨_, hj, _⟩ => absurd hj (Nat.not_lt_zero _)

theorem guest {h' : CpuIf} (hf : ∀ idx, ((s.ich u).lr idx).Fades (h'.lr idx)) :
    Quiet n k virq T H (s.modIch u fun _ => h') :=
  h.modIch fun hu ⟨j, hj, hh⟩ => h.ich u hu ⟨j, hj, (hf j).holds hh⟩

omit h

end Quiet

/-! ## Quiet rows of the machine -/

variable {virq : Nat}

theorem spi_ne_timer (hS : isSpi virq = true) : virq ≠ ppiVirtualTimer := by
  rintro rfl
  exact absurd hS (by decide)

theorem ne_of_not_spi {i : Nat} (hS : isSpi virq = true) (hi : isSpi i = false) : i ≠ virq := by
  rintro rfl
  rw [hS] at hi
  cases hi

/-- Quiet in the rows of `T` and in as much of their hardware as is live. -/
def QuietIn (k : Bool) (virq : Nat) (T : Vid → Prop) (e : Env) : Core → Prop :=
  Quiet e.lrCount k virq T fun w => T w ∧ (e.phase w).live = true

variable {T : Vid → Prop} {k : Bool}

theorem QuietIn.mono {T' : Vid → Prop} {e : Env} {s : Core} (h : QuietIn k virq T e s)
    (hT : ∀ w, T' w → T w) : QuietIn k virq T' e s :=
  Quiet.mono h hT fun w hw => ⟨hT w hw.1, hw.2⟩

theorem quietIn_closed (hS : virq ≠ ppiVirtualTimer) (e : Env) (w : Vid) :
    Closed e.lrCount w (fun i => i = virq → ¬ T w) (fun i => k = true → i = virq → ¬ T w)
      (fun _ => (e.phase w).live = true) ((e.phase w).live = true) (QuietIn k virq T e) :=
  Quiet.closed hS (fun _ hl hT => ⟨hT, hl⟩) (fun _ hH => hH.1) fun _ => id

variable {m m' : Vm} {v : Vid}

theorem QuietIn.setPhase {p : Phase} (hp : p.live = true → (m.env.phase v).live = true)
    (h : QuietIn k virq T m.env m.core) : QuietIn k virq T (m.setPhase v p).env m.core :=
  Quiet.mono h (fun _ => id) fun _ hw => ⟨hw.1, setPhase_live hp hw.2⟩

theorem QuietIn.load (h : QuietIn k virq T m.env m.core) :
    QuietIn k virq T (m.setPhase v .loading).env (m.core.loadVcpu m.env v) := by
  refine Quiet.load h fun w hw => ?_
  split
  · next hwv => exact hwv ▸ hw.1
  rename_i hwv
  refine ⟨hw.1, ?_⟩
  have hw : (Function.update m.env.phase v .loading w).live = true := hw.2
  rwa [Function.update_of_ne hwv] at hw

theorem spiTarget_lt (h : 0 < m.env.vcpuCount) : m.spiTarget virq < m.env.vcpuCount := by
  rw [Vm.spiTarget, Vm.validTargetVcpu]
  split
  · assumption
  · exact h

theorem Vm.Same.spiTarget (hs : m.Same m') (hS : isSpi virq = true) :
    m'.spiTarget virq = m.spiTarget virq := by
  rw [Vm.spiTarget, Vm.spiTarget, Vm.validTargetVcpu, Vm.validTargetVcpu,
    hs.target virq hS, hs.fixed.vcpuCount]

variable {E : Env → Prop}

theorem QuietIn.flushAll {T : Vid → Vid → Prop} (hS : isSpi virq = true) (henv : m'.env = m.env)
    (hv : (m.env.phase v).live = true) (hE : E m.env)
    (h : QuietIn k virq (T (m'.spiTarget virq)) m.env m'.core) :
    E m'.env ∧ QuietIn k virq (T (m'.spiTarget virq)) m'.env (m'.flushAll v).core := by
  have h1 := Vm.flushAll_keeps henv (quietIn_closed (spi_ne_timer hS) m.env) hv h
  rw [henv]
  exact ⟨hE, h1⟩

/-- Rows that are chosen by where the SPI is routed stay quiet, as far as writing a
route keeps them quiet. -/
theorem QuietIn.kept {T : Vid → Vid → Prop} {pend route : Nat → Prop} (hS : isSpi virq = true)
    (hE : ∀ {e e' : Env}, e.Fixed e' → E e → E e') (hpend : pend virq → ∀ t, ¬ T t t)
    (hactive : k = true → ∀ t, ¬ T t t)
    (hroute : ∀ {m m' : Vm} {i t}, m'.env = m.env → E m.env → route i →
      QuietIn k virq (T (m'.spiTarget virq)) m.env m'.core →
      QuietIn k virq (T ((m'.setSpiTarget i t).spiTarget virq)) m.env (m'.setSpiTarget i t).core) :
    Kept (fun m w i => i = virq → ¬ T (m.spiTarget virq) w)
      (fun m w i => k = true → i = virq → ¬ T (m.spiTarget virq) w) pend route
      (fun m => E m.env ∧ QuietIn k virq (T (m.spiTarget virq)) m.env m.core) where
  core m w := Closed.given (p := E m.env) (fun hi => absurd hi.symm (spi_ne_timer hS)) id
    fun _ => quietIn_closed (spi_ne_timer hS) m.env w
  congr {m m'} h hs := by
    refine ⟨hE hs.fixed h.1, ?_⟩
    rw [QuietIn, hs.spiTarget hS, hs.fixed.lrCount, hs.phase, hs.core]
    exact h.2
  locals m w i hi _ := by
    have hne := ne_of_not_spi hS hi
    exact ⟨fun he => absurd he hne, fun _ he => absurd he hne⟩
  lpis m w i hi he := absurd he (ne_of_not_spi hS (lpi_not_spi hi))
  pends {m i} _ hp hi := by
    subst hi
    exact hpend hp _
  actives {m i} _ hk hi := by
    subst hi
    exact hactive hk _
  targets {v m irqBase size value} hv h hr :=
    QuietIn.flushAll hS Vm.writeIrqTarget_env hv h.1 <| Vm.writeIrqTarget_keeps
      (fun m' he h' byte hb t => hroute he h.1 (hr byte hb) h') h.2
  irouter {v m i upper value} hv h hr := by
    refine QuietIn.flushAll hS Vm.writeIrouterWord_env hv h.1 ?_
    rw [Vm.writeIrouterWord]
    exact hroute rfl h.1 hr h.2
  setPhase {m v p} hp h := ⟨hE (e := m.env) ⟨rfl, rfl, rfl, rfl, rfl⟩ h.1, QuietIn.setPhase hp h.2⟩
  load {m v} h := ⟨hE (e := m.env) ⟨rfl, rfl, rfl, rfl, rfl⟩ h.1, QuietIn.load h.2⟩
  init h := ⟨h.1, Quiet.init h.2⟩
  guest hf h := ⟨h.1, Quiet.guest h.2 hf⟩

end Sima.Vgic
