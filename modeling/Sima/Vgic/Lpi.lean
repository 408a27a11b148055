import Sima.Vgic.ItsMap
import Sima.Vgic.Lower

/-!
# An LPI on one vCPU

An LPI has a descriptor in the row of every vCPU. Which row an MSI pends is looked up in
the tables each time, so the LPI is pending on one vCPU only as long as its row, once it
is pending there, stays the one the tables lead to.

Nothing in the ITS sees to that. `MOVI`, `MAPC` and a repeated `MAPTI` change where an
LPI leads and leave it pending where it was; the next MSI pends it a second time, on
another vCPU. And `CLEAR` looks into the row the tables lead to, where it cannot reach a
list register that the hardware of another physical CPU has loaded, and does nothing for
an event whose collection has been unmapped. So the run here asks two things of a
command: that an LPI it leads somewhere is not pending anywhere else, and that an event
it clears leads to a vCPU and has its LPI in no list registers out of reach.
-/

namespace Sima.Vgic

open Lib
open Function (update update_of_ne update_self)
open Tables

/-- The LPI is pending on the vCPU: in its descriptor, in a list register of its context,
or in one that the hardware has loaded for it. -/
def LpiOn (m : Vm) (v : Vid) (lpi : Nat) : Prop :=
  (m.core.irq v lpi).pending = true ∨ (m.core.ctx v).lrs.Any (Lr.PendingOf lpi) ∨
    (m.env.phase v).live = true ∧ ((m.core.ich v).table m.env.lrCount).Any (Lr.PendingOf lpi)

/-- No two live events have the same LPI. -/
def Tables.Distinct (t : Tables) : Prop :=
  ∀ {d e d' e' lpi c c'}, t.entry d e = some (lpi, c) → t.entry d' e' = some (lpi, c') →
    d = d' ∧ e = e'

/-- A command leads the LPI to a vCPU. -/
def Tables.Leads (t : Tables) (env : Env) : Command → Nat → Vid → Prop
  | .mapCollection c target, lpi, w => (∃ d e, t.entry d e = some (lpi, c)) ∧
      w = if target < env.vcpuCount then target else 0
  | .mapEvent _ _ lpi' c, lpi, w => lpi' = lpi ∧ t.collection c = some w
  | .moveEvent d e c, lpi, w => (∃ c', t.entry d e = some (lpi, c')) ∧ t.collection c = some w
  | _, _, _ => False

/-! ## The run -/

inductive LpiLabel where
  | piece (p : Piece)
  /-- Registers of the ITS. -/
  | regs
  /-- A command, of an access that `v` makes. -/
  | cmd (v : Vid) (cmd : Vm.Cmd)

/-- The pieces of the machine, where an access to the ITS is cut into its commands. -/
inductive LpiStep (cfg : GicConfig) : LpiLabel → Vm → Vm → Prop where
  | piece {m m' : Vm} {p : Piece} : p.isIts = false → PieceStep cfg p m m' →
      LpiStep cfg (.piece p) m m'
  | regs {m : Vm} (f : Its → Its) : (f m.its).slots = m.its.slots →
      (f m.its).collection = m.its.collection → LpiStep cfg .regs m (m.modIts f)
  | cmd {m : Vm} {v : Vid} (line : Samples) (cmd : Vm.Cmd) : m.Runs v →
      LpiStep cfg (.cmd v cmd) m (m.executeCmd line (some v) cmd)

/-- What is asked of a command: live events have distinct LPIs after it, an LPI that it
leads to a vCPU is pending on no other, and an event that it clears has a target, for
which no other physical CPU has loaded list registers with its LPI. -/
structure CmdClean (v : Vid) (cmd : Vm.Cmd) (m : Vm) : Prop where
  distinct : (m.tables.apply m.env cmd.decode).Distinct
  leads : ∀ lpi w, m.tables.Leads m.env cmd.decode lpi w → ∀ u, LpiOn m u lpi → u = w
  clears : cmd.opcode = 0x04 → ∀ lpi coll,
    m.tables.entry cmd.deviceId cmd.eventId = some (lpi, coll) →
      ∃ t, m.tables.collection coll = some t ∧ (t ≠ v → (m.env.phase t).live = true →
        ¬ ((m.core.ich t).table m.env.lrCount).Any (Lr.PendingOf lpi))

def LpisClean : LpiLabel → Vm → Prop
  | .cmd v cmd, m => CmdClean v cmd m
  | _, _ => True

variable {cfg : GicConfig} {b : Board} {m m' : Vm} {lpi d e coll : Nat} {v w h : Vid} {t : Tables}
  {env : Env} {cmd : Vm.Cmd} {line : Samples} {x : Option (Nat × Nat)} {c : Command}
  {A : Vm → Vid → Nat → Prop} {Q : Vm → Prop} {p : Piece} {y : Nat × Nat}

/-! ## Where commands lead -/

theorem entry_setEvent {d' e' : Nat} (hy : (t.setEvent d e x).entry d' e' = some y) :
    t.entry d' e' = some y ∨ d' = d ∧ e' = e ∧ x = some y := by
  rw [setEvent] at hy
  split at hy
  · next itt hd =>
    have hy : (update t.device d _ d').bind (·.event e') = some y := hy
    by_cases hdd : d' = d
    · subst hdd
      rw [update_self, Option.bind_some] at hy
      dsimp only at hy
      by_cases hee : e' = e
      · subst hee
        rw [update_self] at hy
        exact .inr ⟨rfl, rfl, hy⟩
      rw [update_of_ne hee] at hy
      refine .inl ?_
      rw [entry, hd]
      exact hy
    · rw [update_of_ne hdd] at hy
      exact .inl hy
  · exact .inl hy

theorem setEvent_collection : (t.setEvent d e x).collection = t.collection := by
  rw [setEvent]
  split <;> rfl

theorem translate_some : t.translate d e = some (w, lpi) ↔
    ∃ c, t.entry d e = some (lpi, c) ∧ t.collection c = some w := by
  rw [Tables.translate]
  constructor
  · intro h
    obtain ⟨⟨l, c⟩, hentry, h⟩ := Option.bind_eq_some_iff.mp h
    obtain ⟨u, hu, he⟩ := Option.map_eq_some_iff.mp h
    cases he
    exact ⟨c, hentry, hu⟩
  · rintro ⟨c, hentry, hu⟩
    rw [hentry, Option.bind_some]
    rw [hu]
    rfl

/-- The events of a table that is written anew are among the old ones. -/
theorem entry_ittOf {addr : BitVec 64} {n : Nat}
    (h : (ittOf addr n (t.device d)).event e = some y) : t.entry d e = some y := by
  rw [entry]
  cases hd : t.device d with
  | none =>
    rw [hd, ittOf] at h
    cases h
  | some itt =>
    rw [hd, ittOf] at h
    split at h
    · exact h
    · cases h

theorem entry_apply (h : (t.apply env c).entry d e = some (lpi, coll)) :
    t.entry d e = some (lpi, coll) ∨ c = .mapEvent d e lpi coll ∨
      c = .moveEvent d e coll ∧ ∃ coll', t.entry d e = some (lpi, coll') := by
  cases c with
  | mapDevice d' addr n =>
    have h : (update t.device d' _ d).bind (·.event e) = some (lpi, coll) := h
    refine .inl ?_
    by_cases hd : d = d'
    · subst hd
      rw [update_self] at h
      exact entry_ittOf h
    · rwa [update_of_ne hd] at h
  | unmapDevice d' =>
    have h : (update t.device d' none d).bind (·.event e) = some (lpi, coll) := h
    by_cases hd : d = d'
    · rw [hd, update_self] at h
      cases h
    · rw [update_of_ne hd] at h
      exact .inl h
  | mapCollection c' target =>
    rw [apply] at h
    split at h <;> exact .inl h
  | mapEvent d' e' lpi' c' =>
    rw [apply] at h
    split at h
    · rcases entry_setEvent h with hold | ⟨rfl, rfl, hnew⟩
      · exact .inl hold
      · cases hnew
        exact .inr (.inl rfl)
    · exact .inl h
  | moveEvent d' e' c' =>
    rw [apply] at h
    split at h
    · next lpi' c'' hold' =>
      split at h
      · rcases entry_setEvent h with hold | ⟨rfl, rfl, hnew⟩
        · exact .inl hold
        · cases hnew
          exact .inr (.inr ⟨rfl, c'', hold'⟩)
      · exact .inl h
    · exact .inl h
  | discard d' e' =>
    rcases entry_setEvent h with hold | ⟨-, -, hnew⟩
    · exact .inl hold
    · cases hnew
  | unmapCollection c' | other => exact .inl h

theorem collection_apply (h : (t.apply env c).collection coll = some w) :
    t.collection coll = some w ∨ ∃ target, c = .mapCollection coll target ∧
      w = if target < env.vcpuCount then target else 0 := by
  cases c with
  | mapCollection c' target =>
    rw [apply] at h
    split at h
    · have h : update t.collection c' _ coll = some w := h
      by_cases hc : coll = c'
      · rw [hc, update_self] at h
        exact .inr ⟨target, by rw [hc], (Option.some.inj h).symm⟩
      · rw [update_of_ne hc] at h
        exact .inl h
    · exact .inl h
  | unmapCollection c' =>
    have h : update t.collection c' none coll = some w := h
    by_cases hc : coll = c'
    · rw [hc, update_self] at h
      cases h
    · rw [update_of_ne hc] at h
      exact .inl h
  | mapEvent d e lpi c' =>
    rw [apply] at h
    split at h
    · exact .inl (setEvent_collection ▸ h)
    · exact .inl h
  | moveEvent d e c' =>
    rw [apply] at h
    split at h
    · split at h
      · exact .inl (setEvent_collection ▸ h)
      · exact .inl h
    · exact .inl h
  | discard d e =>
    rw [apply, setEvent_collection] at h
    exact .inl h
  | mapDevice | unmapDevice | other => exact .inl h

theorem translate_apply (h : (t.apply env c).translate d e = some (w, lpi)) :
    t.translate d e = some (w, lpi) ∨ t.Leads env c lpi w := by
  obtain ⟨coll, hentry, hcoll⟩ := translate_some.mp h
  rcases collection_apply hcoll with hw | ⟨target, rfl, hw⟩
  · rcases entry_apply hentry with hold | rfl | ⟨rfl, hold⟩
    · exact .inl (translate_some.mpr ⟨coll, hold, hw⟩)
    · exact .inr ⟨rfl, hw⟩
    · exact .inr ⟨hold, hw⟩
  · rcases entry_apply hentry with hold | hc | ⟨hc, -⟩
    · exact .inr ⟨⟨d, e, hold⟩, hw⟩
    · cases hc
    · cases hc

theorem entry_apply_lpi (h : (t.apply env c).entry d e = some (lpi, coll)) :
    (∃ coll', t.entry d e = some (lpi, coll')) ∨ c = .mapEvent d e lpi coll := by
  rcases entry_apply h with h | h | ⟨-, h⟩
  · exact .inl ⟨coll, h⟩
  · exact .inr h
  · exact .inl h

/-- LPIs stay distinct unless an event is mapped to the LPI of another. -/
theorem Tables.Distinct.apply (ht : t.Distinct)
    (hnew : ∀ d e lpi c', c = .mapEvent d e lpi c' → ∀ d' e' c'',
      t.entry d' e' = some (lpi, c'') → d' = d ∧ e' = e) : (t.apply env c).Distinct := by
  intro d e d' e' lpi c₁ c₂ h h'
  rcases entry_apply_lpi h with ⟨x, hx⟩ | rfl
  · rcases entry_apply_lpi h' with ⟨y, hy⟩ | rfl
    · exact ht hx hy
    · exact hnew _ _ _ _ rfl _ _ _ hx
  rcases entry_apply_lpi h' with ⟨y, hy⟩ | he
  · obtain ⟨hd, he⟩ := hnew _ _ _ _ rfl _ _ _ hy
    exact ⟨hd.symm, he.symm⟩
  · cases he
    exact ⟨rfl, rfl⟩

/-! ## Quiet everywhere else -/

theorem lpi_ne_timer (hl : isLpi lpi = true) : lpi ≠ ppiVirtualTimer := by
  rintro rfl
  exact absurd hl (by decide)

/-- The LPI is pending on no vCPU but `h`. -/
def OnlyOn (h : Vid) (lpi : Nat) (m : Vm) : Prop :=
  QuietIn false lpi (· ≠ h) m.env m.core

theorem onlyOn_iff (hs : Indexed m.core) : OnlyOn h lpi m ↔ ∀ u, LpiOn m u lpi → u = h := by
  have hholds : ∀ lr : Lr, lr.Holds false lpi ↔ lr.PendingOf lpi := fun lr => And.comm
  constructor
  · intro hq u hu
    by_contra hne
    rcases hu with hp | hctx | ⟨hlive, hhw⟩
    · rw [hq.pending u hne] at hp
      cases hp
    · exact hq.ctx u hne (hctx.mono fun lr => (hholds lr).mpr)
    · exact hq.ich u ⟨hne, hlive⟩ (hhw.mono fun lr => (hholds lr).mpr)
  · intro hall
    refine ⟨hs.virq, fun u hne => ?_, by simp, fun u hne ha => hne ?_,
      fun u hne ha => hne.1 ?_⟩
    · exact Bool.eq_false_iff.mpr fun hp => hne (hall u (.inl hp))
    · exact hall u (.inr (.inl (ha.mono fun lr => (hholds lr).mp)))
    · exact hall u (.inr (.inr ⟨hne.2, ha.mono fun lr => (hholds lr).mp⟩))

variable (hl : isLpi lpi = true)

include hl

theorem onlyOn_closed (m : Vm) (w : Vid) : Closed m.env.lrCount w (fun i => i = lpi → ¬ w ≠ h)
    (fun i => false = true → i = lpi → ¬ w ≠ h) (fun _ => (m.env.phase w).live = true)
    ((m.env.phase w).live = true) (fun s => OnlyOn h lpi { m with core := s }) :=
  quietIn_closed (T := (· ≠ h)) (lpi_ne_timer hl) m.env w

theorem onlyOn_setSpiTarget {i t : Nat} (hq : OnlyOn h lpi m) :
    OnlyOn h lpi (m.setSpiTarget i t) := by
  rw [OnlyOn, Vm.setSpiTarget]
  split
  · next hspi =>
    -- an SPI is moved, not the LPI
    have hne : i ≠ lpi := by
      rintro rfl
      rw [lpi_not_spi hl] at hspi
      cases hspi
    dsimp only
    split
    · exact hq
    · exact Closed.moveIrq (quietIn_closed (lpi_ne_timer hl) m.env)
        (fun _ hi => absurd hi hne) (fun _ _ hi => absurd hi hne) hq
  · exact hq

theorem onlyOn_flushAll (hv : (m.env.phase v).live = true) (hq : OnlyOn h lpi m) :
    OnlyOn h lpi (m.flushAll v) :=
  Closed.flushVm (onlyOn_closed hl m) hv hq

theorem lpi_kept (h : Vid) :
    KeptRegs (fun _ w i => i = lpi → ¬ w ≠ h) (fun _ w i => false = true → i = lpi → ¬ w ≠ h)
      (fun _ => True) (fun _ => True) (OnlyOn h lpi) where
  core := onlyOn_closed hl
  congr {m m'} hq hs := by
    rw [OnlyOn, QuietIn, hs.fixed.lrCount, hs.phase, hs.core]
    exact hq
  locals m w i _ hi := by
    have hne : i ≠ lpi := by
      rintro rfl
      rw [hl] at hi
      cases hi
    exact ⟨fun he => absurd he hne, fun _ he => absurd he hne⟩
  pends {m i} hi _ he := by
    rw [he, lpi_not_spi hl] at hi
    cases hi
  actives _ hk := by cases hk
  targets {v m irqBase size value} hv hq _ := by
    have hq' : OnlyOn h lpi (m.writeIrqTarget irqBase size value) :=
      Vm.writeIrqTarget_keeps (fun _ _ hq _ _ _ => onlyOn_setSpiTarget hl hq) hq
    refine onlyOn_flushAll hl ?_ hq'
    rw [Vm.writeIrqTarget_env]
    exact hv
  irouter {v m virq upper value} hv hq _ := by
    have hq' : OnlyOn h lpi (m.writeIrouterWord virq upper value) := by
      rw [Vm.writeIrouterWord]
      exact onlyOn_setSpiTarget hl hq
    refine onlyOn_flushAll hl ?_ hq'
    rw [Vm.writeIrouterWord_env]
    exact hv
  setPhase hp hq := QuietIn.setPhase hp hq
  load hq := QuietIn.load hq
  init hq := Quiet.init hq
  guest hf hq := Quiet.guest hq hf

omit hl

/-! ## Pieces -/

theorem running_live (hv : m.Runs v) : (m.env.phase v).live = true := by
  rw [hv.2]
  rfl

/-- What delivery and the accesses to the distributor and the redistributors keep, every
piece keeps that is neither an MSI nor an access to the ITS. -/
theorem KeptRegs.piece {R : Vm → Vid → Nat → Prop}
    (K : KeptRegs R A (fun _ => True) (fun _ => True) Q) (hs : PieceStep cfg p m m')
    (hp : p.isIts = false) (hmsi : ∀ c d e, p ≠ .deliver (.injectMsi c d e))
    (hinj : ∀ c v virq level, p = .deliver (.inject c v virq level) → virq < irqNum →
      R m (m.irqTargetVcpu v virq) virq) (h : Q m) : Q m' := by
  have Kr := K.regClosed m.env.phase
  cases hs with
  | @deliver _ _ a ha hs =>
    refine K.deliver hs ?_ (fun c v virq level he => ?_) h
    · cases a with
      | mmio => cases ha
      | injectMsi c d e => exact absurd rfl (hmsi c d e)
      | _ => rfl
    · subst he
      cases hs with
      | inject _ _ _ hlt => exact hinj c v virq level rfl hlt
  | sync line hv => exact (K.core m _).syncCurrent (running_live hv) h
  | gicd hv hin =>
    exact (Kr.gicdAccess (running_live hv) hin (fun _ _ _ => trivial) (fun _ _ => trivial)
      ⟨rfl, h⟩).2
  | gicr hv => exact (Kr.gicrAccess (running_live hv) ⟨rfl, h⟩).2
  | its => cases hp
  | flushAll hv => exact (Kr.flushAll (running_live hv) ⟨rfl, h⟩).2

/-- A property that may see any interrupt raised. -/
theorem Kept.piece (K : Kept (fun _ _ _ => True) A (fun _ => True) (fun _ => True) Q)
    (hs : PieceStep cfg p m m') (hp : p.isIts = false) (h : Q m) : Q m' := by
  by_cases hmsi : ∃ c d e, p = .deliver (.injectMsi c d e)
  · obtain ⟨c, d, e, rfl⟩ := hmsi
    cases hs with
    | deliver _ hs =>
      exact K.step hs (fun _ _ _ _ _ => trivial) (fun _ _ _ _ _ _ => trivial)
        (fun _ _ _ _ _ => trivial) h
  · exact K.toKeptRegs.piece hs hp (fun c d e he => hmsi ⟨c, d, e, he⟩)
      (fun _ _ _ _ _ _ => trivial) h

/-! ## MSIs and commands -/

theorem onlyOn_msi {c : Caller} (hl : isLpi lpi = true) (hc : CallerOk m.env c)
    (hlead : ∀ w, m.msiRow d e = some (w, lpi) → w = h) (hq : OnlyOn h lpi m) :
    OnlyOn h lpi (m.injectFound line c d e) := by
  rw [OnlyOn, (injectFound_core m line c d e).1]
  obtain ⟨-, hcore⟩ | ⟨t, j, hrow, -, -, hcore⟩ := injectFound_row m line c d e
  · rw [hcore]
    exact hq
  · rw [hcore]
    refine (onlyOn_closed hl m t).injectLocked (fun hj hne => hne ?_) hc.live hq
    exact hlead t (hj ▸ hrow)

theorem Vm.Runs.callerOk (hv : m.Runs v) : CallerOk m.env (some v) := .inr hv.2

/-- A command keeps an LPI where it is, unless it is an `INT` that leads elsewhere. -/
theorem onlyOn_cmd (hl : isLpi lpi = true) (hv : m.Runs v) (hint : cmd.opcode = 0x03 → ∀ w,
      m.msiRow cmd.deviceId cmd.eventId = some (w, lpi) → w = h)
    (hq : OnlyOn h lpi m) : OnlyOn h lpi (m.executeCmd line (some v) cmd) := by
  refine Vm.executeCmd_rule hq (fun _ _ => hq) (fun _ i _ _ => ?_)
    (fun hop => onlyOn_msi hl hv.callerOk (hint hop) hq) fun t _ => ?_
  · exact List.foldlRecOn (motive := fun s => OnlyOn h lpi { m with core := s }) _ _ hq
      fun _ hq w _ => (onlyOn_closed hl m w).config i (fun _ => ⟨rfl, rfl, rfl⟩) hq
  · have K := onlyOn_closed (h := h) hl m t
    exact K.updateIrqRowLr (K.drop _ (K.lower _ hq))

theorem executeCmd_core (hop : cmd.opcode = 0x01 ∨ cmd.opcode = 0x09) :
    (m.executeCmd line (some v) cmd).core = m.core := by
  rw [Vm.executeCmd]
  rcases hop with hop | hop
  · simp only [hop]
    split
    · rw [Vm.modFoundEvent]
      split <;> rfl
    · rfl
  · simp only [hop]
    rw [Vm.mapCollection]
    split <;> rfl

/-! ## The invariant -/

theorem onlyOn_start (b : Board) (hl : isLpi lpi = true) : OnlyOn h lpi b.start := by
  refine (onlyOn_iff (Indexed.start b)).mpr fun u hu => ?_
  rcases hu with hp | ⟨j, hj, -⟩ | ⟨hlive, -⟩
  · have hp : (if isLpi lpi then ({ virq := lpi, enabled := true, level := false } : VgicIrq)
      else _).pending = true := hp
    rw [if_pos hl] at hp
    cases hp
  · exact absurd hj (Nat.not_lt_zero _)
  · cases hlive

structure LpiInv (b : Board) (m : Vm) : Prop where
  tables : TablesOk m.its
  distinct : m.tables.Distinct
  indexed : Indexed m.core
  regs : OthersDistinct m.env m.core
  fixed : b.start.env.Fixed m.env
  /-- An LPI is pending on one vCPU at most, and that is where its event leads. -/
  home : ∀ lpi, isLpi lpi = true → ∃ h, OnlyOn h lpi m ∧
    ∀ d e w, m.tables.translate d e = some (w, lpi) → w = h

namespace LpiInv

theorem vcpuCount_pos (hm : LpiInv b m) : 0 < m.env.vcpuCount := by
  rw [hm.fixed.vcpuCount]
  exact b.vcpuCount_pos

theorem msiRow (hm : LpiInv b m) (d e : Nat) : m.msiRow d e = m.tables.translate d e :=
  translate_eq hm.tables hm.vcpuCount_pos d e

theorem start (b : Board) : LpiInv b b.start := by
  have htab := tables_start b
  have hnone : ∀ d e, b.start.tables.entry d e = none := by
    intro d e
    rfl
  refine ⟨tablesOk_start b, fun {d e} _ _ _ _ _ h => ?_, Indexed.start b, Distinct.start b,
    .refl _, fun lpi hl => ⟨0, onlyOn_start b hl, fun d e w hw => ?_⟩⟩
  · cases h
  · cases hw

variable (hm : LpiInv b m)

include hm

/-- Nothing of the tables has changed, and what is pending stays where it was. -/
theorem other (hs : m'.its.slots = m.its.slots) (hc : m'.its.collection = m.its.collection)
    (hf : m.env.Fixed m'.env) (hind : Indexed m'.core) (hregs : OthersDistinct m'.env m'.core)
    (hhome : ∀ lpi h, isLpi lpi = true → OnlyOn h lpi m →
      (∀ d e w, m.msiRow d e = some (w, lpi) → w = h) → OnlyOn h lpi m') : LpiInv b m' := by
  have ht := tables_kept hs hc hf
  refine ⟨hm.tables.kept hs hc, ht ▸ hm.distinct, hind, hregs, hm.fixed.trans hf, fun lpi hl => ?_⟩
  obtain ⟨h, hq, hlead⟩ := hm.home lpi hl
  refine ⟨h, hhome lpi h hl hq fun d e w hw => ?_, ht ▸ hlead⟩
  exact hlead d e w (hm.msiRow d e ▸ hw)

theorem piece (hp : p.isIts = false) (hs : PieceStep cfg p m m') : LpiInv b m' := by
  have hk := hs.itsKept hp
  refine hm.other (by rw [hk.its]) (by rw [hk.its]) hk.fixed
    (Indexed.kept.piece hs hp hm.indexed) (othersDistinct_kept.piece hs hp hm.regs) ?_
  intro lpi h hl hq hlead
  by_cases hmsi : ∃ c d e, p = .deliver (.injectMsi c d e)
  · obtain ⟨c, d, e, rfl⟩ := hmsi
    cases hs with
    | deliver _ hs =>
      cases hs with
      | injectMsi line hc _ => exact onlyOn_msi hl hc (hlead d e) hq
  · refine (lpi_kept hl h).piece hs hp (fun c d e he => hmsi ⟨c, d, e, he⟩) ?_ hq
    intro c v virq level _ hlt he
    rw [he] at hlt
    rw [not_lpi_of_lt hlt] at hl
    cases hl

theorem entry_command {c : Caller}
    (h : (m.executeCmd line c cmd).tables.entry d e = some (lpi, coll)) :
    (∃ coll', m.tables.entry d e = some (lpi, coll')) ∨ cmd.decode = .mapEvent d e lpi coll := by
  have htab : Does m (m.executeCmd line c cmd) cmd.decode ∨ _ := executeCmd_or hm.tables
  rcases htab with ⟨-, ht⟩ | ⟨-, ht, -⟩
  · rw [ht] at h
    exact entry_apply_lpi h
  · rw [ht] at h
    exact .inl ⟨coll, h⟩

theorem command (hv : m.Runs v) (hok : CmdClean v cmd m) :
    LpiInv b (m.executeCmd line (some v) cmd) := by
  have hlive := running_live hv
  have htab : Does m (m.executeCmd line (some v) cmd) cmd.decode ∨ _ := executeCmd_or hm.tables
  have henv : (m.executeCmd line (some v) cmd).env = m.env := executeCmd_env
  have hdist : (m.executeCmd line (some v) cmd).tables.Distinct := by
    rcases htab with ⟨-, ht⟩ | ⟨-, ht, -⟩
    · rw [ht]
      exact hok.distinct
    · rw [ht]
      exact hm.distinct
  refine ⟨htab.elim And.left And.left, hdist, ?_, ?_, ?_, fun lpi hl => ?_⟩
  · exact ((Indexed.kept.vmClosed m.env.phase).executeCmd hlive ⟨rfl, hm.indexed⟩).2
  · exact ((othersDistinct_kept.vmClosed m.env.phase).executeCmd hlive ⟨rfl, hm.regs⟩).2
  · rw [henv]
    exact hm.fixed
  obtain ⟨h, hq, hlead⟩ := hm.home lpi hl
  have hstay : OnlyOn h lpi (m.executeCmd line (some v) cmd) :=
    onlyOn_cmd hl hv (fun _ w hw => hlead _ _ w (hm.msiRow _ _ ▸ hw)) hq
  -- where the LPI leads after the command, all its events lead: it has only one
  have hone : ∀ {d e w}, (m.executeCmd line (some v) cmd).tables.translate d e =
      some (w, lpi) → ∀ d' e' w', (m.executeCmd line (some v) cmd).tables.translate d' e' =
        some (w', lpi) → w' = w := by
    intro d e w hw d' e' w' hw'
    obtain ⟨c, hentry, -⟩ := translate_some.mp hw
    obtain ⟨c', hentry', -⟩ := translate_some.mp hw'
    obtain ⟨rfl, rfl⟩ := hdist hentry hentry'
    rw [hw] at hw'
    cases hw'
    rfl
  by_cases hex : ∃ d e w, (m.executeCmd line (some v) cmd).tables.translate d e = some (w, lpi)
  · obtain ⟨d, e, w, hw⟩ := hex
    have hcase : w = h ∨ m.tables.Leads m.env cmd.decode lpi w := by
      rcases htab with ⟨-, ht⟩ | ⟨-, ht, -⟩
      · rw [ht] at hw
        exact (translate_apply hw).imp_left (hlead d e w)
      · rw [ht] at hw
        exact .inl (hlead d e w hw)
    refine ⟨w, ?_, hone hw⟩
    rcases hcase with rfl | hnew
    · exact hstay
    refine onlyOn_cmd hl hv (fun hop => ?_) ((onlyOn_iff hm.indexed).mpr (hok.leads lpi w hnew))
    -- an `INT` leads an LPI nowhere
    rw [Vm.Cmd.decode] at hnew
    simp only [hop] at hnew
    exact hnew.elim
  · exact ⟨h, hstay, fun d e w hw => absurd ⟨d, e, w, hw⟩ hex⟩

theorem step {l : LpiLabel} (hok : LpisClean l m) (hs : LpiStep cfg l m m') : LpiInv b m' := by
  cases hs with
  | piece hp hs => exact hm.piece hp hs
  | regs f hslots hcoll =>
    exact hm.other hslots hcoll (.refl _) hm.indexed hm.regs fun _ _ _ hq _ => hq
  | cmd line cmd hv => exact hm.command hv hok

omit hm

theorem run {tr : List LpiLabel} (hrun : GuardedRun (LpiStep cfg) LpisClean b.start tr m) :
    LpiInv b m := by
  induction hrun with
  | nil => exact start b
  | cons _ hok hs ih => exact ih.step hok hs

theorem created (hm : LpiInv b m) : m.env.createdVcpus = m.env.vcpuCount := by
  rw [hm.fixed.createdVcpus, hm.fixed.vcpuCount]
  rfl

/-! ## `CLEAR` -/

theorem clear_core (hop : cmd.opcode = 0x04)
    (hrow : m.msiRow cmd.deviceId cmd.eventId = some (w, lpi)) :
    m.executeCmd line (some v) cmd = m.modCore fun e s =>
      ((s.setPending w lpi false).setActive w lpi false).updateIrqRowLr e w lpi := by
  rw [Vm.executeCmd]
  simp only [hop]
  obtain ⟨q, hfind, hq⟩ := Option.bind_eq_some_iff.mp hrow
  split at hq
  · next hvalid =>
    obtain ⟨t, ht, he⟩ := Option.map_eq_some_iff.mp hq
    cases he
    rw [hfind]
    dsimp only
    rw [Vm.clearEvent, if_pos (Bool.and_eq_true_iff.mp hvalid).2, ht]
  · cases hq

/-- After a `CLEAR`, and the flush that ends its access, the LPI is pending nowhere. -/
theorem cleared (hm : LpiInv b m) (hl : isLpi lpi = true) (hv : m.Runs v) (hop : cmd.opcode = 0x04)
    (hrow : m.tables.translate cmd.deviceId cmd.eventId = some (w, lpi))
    (hclean : w ≠ v → (m.env.phase w).live = true →
      ¬ ((m.core.ich w).table m.env.lrCount).Any (Lr.PendingOf lpi)) (u : Vid) :
    ¬ LpiOn ((m.executeCmd line (some v) cmd).flushAll v) u lpi := by
  have hS := lpi_ne_timer hl
  obtain ⟨h, hq, hlead⟩ := hm.home lpi hl
  cases hlead _ _ _ hrow
  have hcreated := hm.created
  have hlt : w < m.env.createdVcpus := by
    rw [hcreated]
    obtain ⟨hnone, -⟩ | ⟨t, j, hsome, hlt, -, -⟩ :=
      injectFound_row m line (some v) cmd.deviceId cmd.eventId
    · rw [hm.msiRow, hrow] at hnone
      cases hnone
    · rw [hm.msiRow, hrow] at hsome
      cases hsome
      exact hlt
  rw [clear_core hop ((hm.msiRow _ _).trans hrow)]
  -- the list registers of the accessing vCPU are in its context
  have h0 : Quiet m.env.lrCount false lpi (· ≠ w)
      (fun u => (m.env.phase u).live = true ∧ u ≠ v) m.core := by
    refine ⟨hq.ids, hq.pending, hq.active, hq.ctx, fun u hu ha => ?_⟩
    by_cases huw : u = w
    · subst huw
      exact hclean hu.2 hu.1 (ha.mono fun lr hlr => ⟨hlr.2, hlr.1⟩)
    · exact hq.ich u ⟨huw, hu.1⟩ ha
  have h1 : Quiet m.env.lrCount false lpi (· ≠ w) (fun u => (m.env.phase u).live = true ∧ u ≠ v)
      ((m.core.setPending w lpi false).setActive w lpi false) :=
    (h0.setPending fun hb => by cases hb).setActive fun hk => by cases hk
  have hlow : (((m.core.setPending w lpi false).setActive w lpi false).irq w
      lpi).pending = false := by
    rw [Core.setActive, Core.modIrq_irq, if_pos ⟨rfl, rfl⟩]
    show ((m.core.setPending w lpi false).irq w lpi).pending = false
    rw [Core.setPending_pending, if_pos ⟨rfl, rfl⟩]
  have hd : Distinct m.env.lrCount (· ≠ ppiVirtualTimer) (fun _ => True)
      (fun u => (m.env.phase u).live = true)
      ((m.core.setPending w lpi false).setActive w lpi false) :=
    Distinct.modIrq (Distinct.setPending hm.regs) fun _ => rfl
  have h2 : Quiet m.env.lrCount false lpi (fun _ => True)
      (fun u => (m.env.phase u).live = true ∧ u ≠ v)
      (((m.core.setPending w lpi false).setActive w lpi false).updateIrqRowLr m.env w lpi) := by
    rw [Core.updateIrqRowLr, if_pos hlt]
    exact (QuietIn.update hS (hd.ctx w trivial lpi hS) hlow h1).mono
      (fun u _ => (Decidable.em (u = w)).symm) fun _ => id
  have h3 : Quiet m.env.lrCount false lpi (fun _ => True)
      (fun u => (m.env.phase u).live = true ∧ u ≠ v) ((m.modCore fun e s =>
        ((s.setPending w lpi false).setActive w lpi false).updateIrqRowLr e w
          lpi).flushAll v).core :=
    Vm.flushAll_keeps rfl
      (fun _ => Quiet.closed hS (fun _ => False.elim)
        (fun _ _ => trivial) fun _ => False.elim) rfl h2
  have hfresh : Core.Fresh m.env.lrCount v _ := Core.flushVm_fresh h2.ids (hcreated ▸ hv.1)
  have h4 := h3.fresh hfresh trivial
  rintro (hp | hctx | ⟨hlive, hhw⟩)
  · rw [h4.pending u trivial] at hp
    cases hp
  · exact h4.ctx u trivial (hctx.mono fun _ => Lr.PendingOf.holds)
  refine h4.ich u ?_ (hhw.mono fun _ => Lr.PendingOf.holds)
  by_cases huv : u = v
  · exact .inr huv
  · exact .inl ⟨hlive, huv⟩

end LpiInv

/-! ## The machine -/

/-- Every step of the machine is a run of these. -/
theorem lpiRun_piece (hs : PieceStep cfg p m m') :
    ∃ tr, GuardedRun (LpiStep cfg) (fun _ _ => True) m tr m' := by
  cases hp : p.isIts with
  | false => exact ⟨_, .cons .nil trivial (.piece hp hs)⟩
  | true =>
    cases hs with
    | @its _ v mem lines a hv hits =>
      obtain ⟨hslots, hcoll⟩ := written_tables a m.its
      have hwrite : GuardedRun (LpiStep cfg) (fun _ _ => True) m [.regs]
          (m.modIts a.written) := .cons .nil trivial (.regs _ hslots hcoll)
      cases hq : a.runsQueue with
      | true =>
        rw [itsDo_effect hq]
        have hcmd : ∀ {m : Vm} line cmd, m.Runs v →
            LpiStep cfg (.cmd v cmd) m (m.executeCmd line (some v) cmd) :=
          fun line cmd hv => .cmd line cmd hv
        obtain ⟨_, hrun⟩ := executeAll_run
          (fun line cmd hv => by rw [Vm.Runs, executeCmd_env]; exact hv) hcmd lines
          (a.executed mem m.its) itsCmdQueueBudget (m.modIts a.written) hv
        exact ⟨_, .cons (hwrite.trans hrun) trivial (.regs _ rfl rfl)⟩
      | false =>
        have hdo : (m.itsDo mem lines v a).1 = m.modIts a.written ∨ _ := itsDo_plain hq
        rcases hdo with hdo | ⟨-, line, d, e, hdo⟩
        · rw [hdo]
          exact ⟨_, hwrite⟩
        · rw [hdo]
          exact ⟨_, .cons .nil trivial (.piece
            rfl (.deliver rfl (.injectMsi line hv.callerOk hits)))⟩
    | _ => cases hp

theorem lpiRun_step {a : Label} (h : Step cfg a m m') :
    ∃ tr, GuardedRun (LpiStep cfg) (fun _ _ => True) m tr m' := by
  obtain ⟨_, hrun⟩ := pieces_of_step h
  exact hrun.simulate lpiRun_piece

/-! ## The result -/

/-- In every run whose commands are clean: an LPI is pending on at most one vCPU; a
`MOVI` or `MAPC` that leads it to a vCPU leaves what was pending pending there, and
there only; and after a `CLEAR` of its event, and the flush that ends the access, it is
pending on none. Whatever the machine does next is a run of the same steps. -/
theorem lpi_one_vcpu {tr : List LpiLabel} (hl : isLpi lpi = true)
    (hrun : GuardedRun (LpiStep cfg) LpisClean b.start tr m) :
    (∀ u w, LpiOn m u lpi → LpiOn m w lpi → u = w) ∧
      (∀ v line cmd, m.Runs v → CmdClean v cmd m →
        (cmd.opcode = 0x01 ∨ cmd.opcode = 0x09 → ∀ w,
          m.tables.Leads m.env cmd.decode lpi w → ∀ u, LpiOn m u lpi →
            LpiOn (m.executeCmd line (some v) cmd) w lpi ∧
              ∀ u', LpiOn (m.executeCmd line (some v) cmd) u' lpi → u' = w) ∧
        (cmd.opcode = 0x04 → ∀ coll,
          m.tables.entry cmd.deviceId cmd.eventId = some (lpi, coll) → ∀ u,
            ¬ LpiOn ((m.executeCmd line (some v) cmd).flushAll v) u lpi)) ∧
      ∀ a m', Step cfg a m m' → ∃ tr', GuardedRun (LpiStep cfg) (fun _ _ => True) m tr' m' := by
  have hm := LpiInv.run hrun
  refine ⟨fun u w hu hw => ?_, fun v line cmd hv hok => ⟨fun hop w hw u hu => ?_,
    fun hop coll he => ?_⟩, fun _ _ => lpiRun_step⟩
  · obtain ⟨h, hq, -⟩ := hm.home lpi hl
    have hall := (onlyOn_iff hm.indexed).mp hq
    rw [hall u hu, hall w hw]
  rotate_left
  · obtain ⟨w, hw, hclean⟩ := hok.clears hop lpi coll he
    have hrow : m.tables.translate cmd.deviceId cmd.eventId = some (w, lpi) := by
      rw [Tables.translate, he, Option.bind_some, hw]
      rfl
    exact hm.cleared hl hv hop hrow hclean
  -- nothing is moved: what is pending is where it should be
  have hsame : ∀ u', LpiOn (m.executeCmd line (some v) cmd) u' lpi ↔ LpiOn m u' lpi := by
    intro u'
    rw [LpiOn, LpiOn, executeCmd_core hop, executeCmd_env]
  have huw := hok.leads lpi w hw
  rw [hsame]
  exact ⟨huw u hu ▸ hu, fun u' hu' => huw u' ((hsame u').mp hu')⟩

/-! ## An LPI that is moved -/

def itsLoadingVm : Vm :=
  (itsBoard.start.modCore fun e s => s.loadVcpu e 0).setPhase 0 .loading

def itsRunningVm : Vm := itsLoadingVm.setPhase 0 .running

/-- vCPU 0 has mapped an event of a device to LPI 8200, for vCPU 1. -/
def itsDeviceVm : Vm := itsRunningVm.executeCmd (fun _ _ => false) (some 0) (mapdCmd 1)

def itsMappedVm : Vm := itsDeviceVm.executeCmd (fun _ _ => false) (some 0) (maptiCmd 0)

/-- Its MSI has come. -/
def msiVm : Vm := itsMappedVm.injectFound (fun _ _ => false) none 1 0

def clearCmd : Vm.Cmd := ⟨0x100000004, 0, 0, 0⟩

/-- vCPU 0 takes the event over. -/
def moviCmd : Vm.Cmd := ⟨0x100000001, 0, 0, 0⟩

def movedVm : Vm := msiVm.executeCmd (fun _ _ => false) (some 0) moviCmd

/-- The MSI comes again. -/
def twiceVm : Vm := movedVm.injectFound (fun _ _ => false) none 1 0

theorem itsRunningVm_run (ok : LpiLabel → Vm → Prop) (hok : ∀ p m, ok (.piece p) m) :
    GuardedRun (LpiStep twoFrames) ok itsBoard.start
      [.piece (.deliver (.enter 0)), .piece (.deliver (.load 0))] itsRunningVm := by
  have h1 : Step twoFrames (.load 0) itsBoard.start itsLoadingVm := .load (by decide) rfl
  have h2 : Step twoFrames (.enter 0) itsLoadingVm itsRunningVm := .enter (by decide) rfl
  exact .cons (.cons .nil (hok _ _) (.piece rfl (.deliver rfl h1))) (hok _ _)
    (.piece rfl (.deliver rfl h2))

/-- Nothing is pending where only one vCPU may have it, and only the other. -/
theorem not_lpiOn (hs : Indexed m.core) (h0 : OnlyOn 0 lpi m) (h1 : OnlyOn 1 lpi m) :
    ¬ LpiOn m v lpi := by
  intro hv
  have hv0 := (onlyOn_iff hs).mp h0 v hv
  have hv1 := (onlyOn_iff hs).mp h1 v hv
  exact absurd (hv0.symm.trans hv1) (by decide)

theorem mapdCmd_decode : ∃ a n, (mapdCmd 1).decode = .mapDevice 1 a n := ⟨_, _, rfl⟩

theorem itsRunningVm_entry {x : Nat × Nat} : itsRunningVm.tables.entry d e ≠ some x := by
  intro hx
  have hinv := LpiInv.run (itsRunningVm_run LpisClean fun _ _ => trivial)
  have htab : itsRunningVm.tables = itsBoard.start.tables := tables_kept rfl rfl hinv.fixed
  cases hx

theorem itsDeviceVm_run : GuardedRun (LpiStep twoFrames) LpisClean itsBoard.start
    [.cmd 0 (mapdCmd 1), .piece (.deliver (.enter 0)), .piece (.deliver (.load 0))]
    itsDeviceVm := by
  have hrun := itsRunningVm_run LpisClean fun _ _ => trivial
  obtain ⟨a, n, hd⟩ := mapdCmd_decode
  have hok : CmdClean 0 (mapdCmd 1) itsRunningVm := by
    refine ⟨?_, fun lpi w hw => ?_, fun hop => ?_⟩
    · exact Distinct.apply (LpiInv.run hrun).distinct fun _ _ _ _ he => by cases he
    · exact hw.elim
    · exact absurd hop (by decide)
  exact .cons hrun hok (.cmd _ _ ⟨by decide, rfl⟩)

theorem itsDeviceVm_entry {x : Nat × Nat} : itsDeviceVm.tables.entry d e ≠ some x := by
  intro hx
  have hinv := LpiInv.run (itsRunningVm_run LpisClean fun _ _ => trivial)
  rcases hinv.entry_command hx with ⟨_, hold⟩ | hnew
  · exact itsRunningVm_entry hold
  · obtain ⟨a, n, hd⟩ := mapdCmd_decode
    cases hnew

theorem itsDeviceVm_pending {u : Vid} : ¬ LpiOn itsDeviceVm u 8200 := by
  have hall : ∀ h, OnlyOn h 8200 itsDeviceVm := by
    intro h
    have hstart : OnlyOn h 8200 itsBoard.start := onlyOn_start itsBoard (by decide)
    have hrunning : OnlyOn h 8200 itsRunningVm :=
      QuietIn.setPhase (fun _ => rfl) (QuietIn.load hstart)
    exact onlyOn_cmd (by decide) ⟨by decide, rfl⟩ (fun hop => absurd hop (by decide)) hrunning
  exact not_lpiOn (LpiInv.run itsDeviceVm_run).indexed (hall 0) (hall 1)

theorem itsMappedVm_run : GuardedRun (LpiStep twoFrames) LpisClean itsBoard.start
    [.cmd 0 (maptiCmd 0), .cmd 0 (mapdCmd 1), .piece (.deliver (.enter 0)),
      .piece (.deliver (.load 0))] itsMappedVm := by
  have hok : CmdClean 0 (maptiCmd 0) itsDeviceVm := by
    refine ⟨?_, fun lpi w hw u hu => ?_, fun hop => ?_⟩
    · exact Distinct.apply (LpiInv.run itsDeviceVm_run).distinct
        fun _ _ _ _ _ _ _ _ he => absurd he itsDeviceVm_entry
    · rw [← hw.1] at hu
      exact absurd hu itsDeviceVm_pending
    · exact absurd hop (by decide)
  exact .cons itsDeviceVm_run hok (.cmd _ _ ⟨by decide, rfl⟩)

theorem msiVm_run : GuardedRun (LpiStep twoFrames) LpisClean itsBoard.start
    [.piece (.deliver (.injectMsi none 1 0)), .cmd 0 (maptiCmd 0), .cmd 0 (mapdCmd 1),
      .piece (.deliver (.enter 0)), .piece (.deliver (.load 0))] msiVm := by
  have hmsi : Step twoFrames (.injectMsi none 1 0) itsMappedVm msiVm := .injectMsi _ trivial rfl
  exact .cons itsMappedVm_run trivial (.piece rfl (.deliver rfl hmsi))

theorem lpi_one_vcpu_msi : LpiOn msiVm 1 8200 ∧ (∀ u, LpiOn msiVm u 8200 → u = 1) ∧
    ∀ u, ¬ LpiOn ((msiVm.executeCmd (fun _ _ => false) (some 0) clearCmd).flushAll 0) u 8200 := by
  have h1 : LpiOn msiVm 1 8200 := .inl (by decide +kernel)
  have hruns : msiVm.Runs 0 := ⟨by decide +kernel, by decide +kernel⟩
  have hentry : msiVm.tables.entry 1 0 = some (8200, 1) := by decide +kernel
  have hok : CmdClean 0 clearCmd msiVm := by
    refine ⟨?_, fun lpi w hw => ?_, fun _ lpi coll he => ?_⟩
    · exact (LpiInv.run msiVm_run).distinct
    · exact hw.elim
    · cases he.symm.trans hentry
      exact ⟨1, by decide +kernel, fun _ hlive => absurd hlive (by decide +kernel)⟩
  have hlpi : isLpi 8200 = true := by decide
  obtain ⟨hone, hcmd, -⟩ := lpi_one_vcpu hlpi msiVm_run
  exact ⟨h1, fun u hu => hone u 1 hu h1, (hcmd 0 _ clearCmd hruns hok).2 rfl 1 hentry⟩

/-- The event is moved to vCPU 0 with its LPI pending on vCPU 1: the LPI stays there, and
the next MSI makes it pending on both. -/
theorem lpi_stays_behind :
    (∃ tr, GuardedRun (LpiStep twoFrames) (fun _ _ => True) itsBoard.start tr twiceVm) ∧
      twiceVm.tables.Distinct ∧ msiVm.tables.translate 1 0 = some (1, 8200) ∧
      LpiOn msiVm 1 8200 ∧ movedVm.tables.translate 1 0 = some (0, 8200) ∧
      LpiOn movedVm 1 8200 ∧ LpiOn twiceVm 0 8200 ∧ LpiOn twiceVm 1 8200 := by
  have hruns : msiVm.Runs 0 := ⟨by decide +kernel, by decide +kernel⟩
  have hmsi : Step twoFrames (.injectMsi none 1 0) movedVm twiceVm :=
    .injectMsi _ trivial (by decide +kernel)
  have hmsiRun : GuardedRun (LpiStep twoFrames) (fun _ _ => True) itsBoard.start _ msiVm :=
    msiVm_run.mono fun _ => trivial
  have hrun : GuardedRun (LpiStep twoFrames) (fun _ _ => True) itsBoard.start _ movedVm :=
    hmsiRun.cons trivial (.cmd _ moviCmd hruns)
  have hinv := LpiInv.run msiVm_run
  have htables : twiceVm.tables = movedVm.tables := by
    have hk : ItsKept movedVm twiceVm := .injectFound
    exact tables_kept (by rw [hk.its]) (by rw [hk.its]) hk.fixed
  refine ⟨⟨_, hrun.cons trivial (.piece rfl (.deliver rfl hmsi))⟩, ?_, by decide +kernel,
    .inl (by decide +kernel), by decide +kernel, .inl (by decide +kernel),
    .inl (by decide +kernel), .inl (by decide +kernel)⟩
  intro d e d' e' lpi c c' h h'
  -- a `MOVI` maps no event
  rcases hinv.entry_command h with ⟨_, hold⟩ | hnew
  · rcases hinv.entry_command h' with ⟨_, hold'⟩ | hnew
    · exact hinv.distinct hold hold'
    · cases hnew
  · cases hnew

end Sima.Vgic
