import Sima.Vgic.Credit
import Sima.Vgic.Lower
import Sima.Vgic.Spi

/-!
# What a redistributor can reach

A redistributor has the local bank of one vCPU: its SGIs and PPIs, and the registers of
the frame. The SGI frame is served by the functions that serve the distributor, and these
know how to write an SPI in every row. For the bit registers and the trigger modes the
decoding of the offset keeps them to the first 32 interrupts. For the priorities nothing
does: byte `n` of the frame's `IPRIORITYR` range is the priority of interrupt `n`, up to
the last SPI.

What an access changes is told in two halves. The write itself is made of small writes to
local interrupts of the row (`LocalClosed`), and the write to an SPI, which leaves the
descriptors alone exactly if it changes no priority. The flush behind it only hands pending
interrupts of the vCPU over to list registers.
-/

namespace Sima.Vgic

open Lib Core

namespace Core

variable {e : Env} {s s' s'' : Core} {c : Caller} {t w : Vid} {i j : Nat}

/-! ## A flush lowers flags -/

/-- Of the descriptors only pending flags of the row have changed, and none was raised. -/
structure Lowers (t : Vid) (s s' : Core) : Prop where
  other : ∀ w, w ≠ t → s'.irq w = s.irq w
  desc : ∀ j, s'.irq t j = { s.irq t j with pending := (s'.irq t j).pending }
  pending : ∀ j, (s'.irq t j).pending = true → (s.irq t j).pending = true

namespace Lowers

theorem of_irq (h : s'.irq = s.irq) : Lowers t s s' :=
  ⟨fun w _ => by rw [h], fun j => by rw [h], fun j => by rw [h]; exact id⟩

theorem trans (h : Lowers t s s') (h' : Lowers t s' s'') : Lowers t s s'' := by
  refine ⟨fun w hw => (h'.other w hw).trans (h.other w hw), fun j => ?_,
    fun j hp => h.pending j (h'.pending j hp)⟩
  have h1 := h'.desc j
  rw [h.desc j] at h1
  exact h1

theorem setPending : Lowers t s (s.setPending t i false) := by
  refine ⟨fun w hw => ?_, fun j => ?_, fun j hp => ?_⟩
  · funext j
    rw [setPending_irq, modIrq_irq, if_neg fun h => hw h.1]
  · rw [setPending_irq, modIrq_irq]
    split
    · next h => rw [h.2]
    · rfl
  · rw [setPending_pending] at hp
    split at hp
    · cases hp
    · exact hp

theorem flushIrq {lpi : Bool} (h : s.flushIrq e t lpi i = some s') : Lowers t s s' := by
  obtain ⟨-, rfl⟩ | ⟨-, rfl⟩ | ⟨-, s₁, ht, rfl⟩ := flushIrq_cases h
  · exact setPending
  · exact of_irq rfl
  obtain ⟨f, rfl, -⟩ := takeLr_eq ht
  rw [handOver]
  split
  · exact (of_irq (modLrs_irq ..)).trans setPending
  · exact of_irq (modLrs_irq ..)

theorem flushScan : Lowers t s (s.flushScan e t) :=
  flushScan_rule (fun h hf => h.trans (flushIrq hf)) (fun h => h.trans (of_irq rfl)) (of_irq rfl)

theorem flushVcpu {isCurrent : Bool} : Lowers t s (s.flushVcpu e c isCurrent t) := by
  rw [Core.flushVcpu]
  split
  · exact of_irq rfl
  split
  · have hctx : Lowers t s (s.modCtx t (syncLiveCpuif (s.ich t))) := of_irq rfl
    have hscan := hctx.trans (flushScan (e := e))
    exact hscan.trans (of_irq rfl)
  · exact flushScan

end Lowers

/-! ## Local writes -/

/-- The small writes to a local interrupt of the row keep the property. -/
structure LocalClosed (t : Vid) (P : Core → Prop) : Prop where
  desc : ∀ {s i f}, i < localIrqNum →
    (∀ d, VgicIrq.virq (f d) = d.virq ∧ VgicIrq.pending (f d) = d.pending) → P s →
      P (s.modIrq t i f)
  pend : ∀ {s i} (b : Bool), i < localIrqNum → P s → P (s.setPending t i b)
  refresh : ∀ {s i}, i < localIrqNum → P s → P (s.updateIrqLr t i)

namespace LocalClosed

variable {P : Core → Prop} {irqBase size : Nat} {value : BitVec 64}

variable (K : LocalClosed t P)

include K

variable (hi : i < localIrqNum)

include hi

theorem updateIrqRowLr (h : P s) : P (s.updateIrqRowLr e t i) := by
  rw [Core.updateIrqRowLr]
  split
  · exact K.refresh hi h
  · exact h

theorem configIrq {f : VgicIrq → VgicIrq}
    (hf : ∀ d, (f d).virq = d.virq ∧ (f d).pending = d.pending) (h : P s) :
    P (s.configIrq e t i f) := by
  rw [Core.configIrq, if_neg (by simp [not_spi_of_lt hi])]
  split
  · exact K.refresh hi (K.desc hi hf h)
  · exact h

theorem writeIrqBit {r : IrqBitReg} (h : P s) : P (s.writeIrqBit e t t r i) := by
  cases r with
  | isenabler | icenabler => exact K.configIrq hi (fun _ => ⟨rfl, rfl⟩) h
  | ispendr => exact K.updateIrqRowLr hi (K.pend true hi h)
  | icpendr => exact K.updateIrqRowLr hi (K.pend false hi h)
  | isactiver | icactiver => exact K.updateIrqRowLr hi (K.desc hi (fun _ => ⟨rfl, rfl⟩) h)
  | igroupr => exact h
  | igrpmodr => exact h

omit hi

theorem writeIrqConfig {val : BitVec 32} (hbase : irqBase + 16 ≤ localIrqNum) (h : P s) :
    P (s.writeIrqConfig e t irqBase val) := by
  refine List.foldlRecOn (motive := P) _ _ h fun s h idx hidx => ?_
  have hi : irqBase + idx < localIrqNum := by
    have := List.mem_range.mp hidx
    omega
  rw [configTrigger]
  split
  · exact h
  split
  · exact K.configIrq hi (fun _ => ⟨rfl, rfl⟩) h
  · split
    · exact K.configIrq hi (fun _ => ⟨rfl, rfl⟩) h
    · exact h

theorem writeIrqPriority (hlpi : irqBase + size ≤ lpiBase)
    (hspi : ∀ s, ∀ byte < size, isSpi (irqBase + byte) = true → P s →
      P (s.configRows e (irqBase + byte) fun d =>
        { d with priority := (byteAt value byte).toNat })) (h : P s) :
    P (s.writeIrqPriority e t irqBase size value) := by
  refine List.foldlRecOn (motive := P) _ _ h fun s h byte hb => ?_
  have hb := List.mem_range.mp hb
  by_cases hloc : irqBase + byte < localIrqNum
  · exact K.configIrq hloc (fun _ => ⟨rfl, rfl⟩) h
  rw [Core.configIrq]
  split
  · next hi => exact hspi s byte hb hi h
  rename_i hi
  have hnot : e.hasDesc t (irqBase + byte) = false := by
    have hge : ¬ irqBase + byte < irqNum :=
      fun hlt => hi (isSpi_iff.mpr ⟨Nat.le_of_not_lt hloc, hlt⟩)
    have hl : isLpi (irqBase + byte) = false := by
      rw [isLpi, Bool.and_eq_false_iff, decide_eq_false_iff_not]
      exact .inl (by omega)
    rw [Env.hasDesc, decide_eq_false hge, hl]
    simp
  rw [if_neg (by simp [hnot])]
  exact h

omit K

end LocalClosed

/-- Of the descriptors only those of local interrupts of the row have changed. -/
structure LocalOnly (t : Vid) (s₀ s : Core) : Prop where
  other : ∀ w, w ≠ t → s.irq w = s₀.irq w
  desc : ∀ j, localIrqNum ≤ j → s.irq t j = s₀.irq t j

namespace LocalOnly

variable {s₀ : Core} {f : VgicIrq → VgicIrq}

theorem of_irq (h : LocalOnly t s₀ s) (hirq : s'.irq = s.irq) : LocalOnly t s₀ s' :=
  ⟨fun w hw => by rw [hirq, h.other w hw], fun j hj => by rw [hirq, h.desc j hj]⟩

theorem modIrq (hi : i < localIrqNum) (h : LocalOnly t s₀ s) :
    LocalOnly t s₀ (s.modIrq t i f) := by
  refine ⟨fun w hw => ?_, fun j hj => ?_⟩
  · rw [← h.other w hw]
    exact Function.update_of_ne hw ..
  · rw [modIrq_irq, if_neg fun hij => by omega]
    exact h.desc j hj

theorem closed : LocalClosed t (LocalOnly t s₀) where
  desc hi _ h := h.modIrq hi
  pend _ hi h := (h.modIrq hi).of_irq (setPending_irq ..)
  refresh _ h := h.of_irq updateIrqLr_irq

theorem irq_eq (h : LocalOnly t s₀ s) (w : Vid) (hj : localIrqNum ≤ j) :
    s.irq w j = s₀.irq w j := by
  by_cases hw : w = t
  · rw [hw, h.desc j hj]
  · rw [h.other w hw]

/-- A write to an SPI that changes no row of it. -/
theorem configRows (hj : localIrqNum ≤ j) (hf : ∀ w < e.vcpuCount, f (s₀.irq w j) = s₀.irq w j)
    (h : LocalOnly t s₀ s) : LocalOnly t s₀ (s.configRows e j f) := by
  refine List.foldlRecOn (motive := LocalOnly t s₀) _ _ h fun s h w hw => ?_
  have hsame : (s.modIrq w j f).irq = s.irq := by
    funext u k
    rw [modIrq_irq]
    split
    · next huk => rw [h.irq_eq w hj, hf w (List.mem_range.mp hw), huk.1, huk.2, h.irq_eq w hj]
    · rfl
  have h1 : LocalOnly t s₀ (s.modIrq w j f) := h.of_irq hsame
  rw [updateIrqRowLr]
  split
  · exact h1.of_irq updateIrqLr_irq
  · exact h1

end LocalOnly

/-- Nothing of the other vCPUs has changed, and of the interrupts of the vCPU that are not
local none that was on record has been lost. -/
structure Apart (t : Vid) (s₀ s : Core) : Prop where
  indexed : Indexed s
  other : ∀ w, w ≠ t → SameRow w s₀ s
  recorded : ∀ j, localIrqNum ≤ j → Recorded t j s₀ → Recorded t j s

namespace Apart

variable {s₀ : Core}

variable (hi : i < localIrqNum)

include hi

theorem modIrq {f : VgicIrq → VgicIrq} (hf : ∀ d, (f d).virq = d.virq ∧ (f d).pending = d.pending)
    (h : Apart t s₀ s) : Apart t s₀ (s.modIrq t i f) := by
  refine ⟨h.indexed.modIrq hf, fun w hw => (h.other w hw).modIrq hw fun d => (hf d).1,
    fun j hj hrec => ?_⟩
  rw [Recorded, modIrq_irq, if_neg fun hij => by omega]
  exact h.recorded j hj hrec

theorem setPending {b : Bool} (h : Apart t s₀ s) : Apart t s₀ (s.setPending t i b) := by
  refine ⟨h.indexed.setPending b, fun w hw => (h.other w hw).setPending hw, fun j hj hrec => ?_⟩
  rw [Recorded, setPending_pending, if_neg fun hij => by omega, setPending_ctx]
  exact h.recorded j hj hrec

/-- The list register of a local interrupt is not that of another one. -/
theorem updateIrqLr (h : Apart t s₀ s) : Apart t s₀ (s.updateIrqLr t i) := by
  rw [Core.updateIrqLr, h.indexed.virq]
  split
  · next idx hfind =>
    obtain ⟨-, hof⟩ := find_some hfind
    refine ⟨⟨h.indexed.virq, h.indexed.bit, h.indexed.lpiBit⟩,
      fun w hw => (h.other w hw).modLrs hw, fun j hj hrec => ?_⟩
    have hne : ¬ (((s.ctx t).lrs.slot idx).PendingOf j) := fun hp => by
      have := hp.2.symm.trans hof.2
      omega
    refine (h.recorded j hj hrec).imp_right fun hany => ?_
    rw [modLrs_self, refreshLr]
    split
    · exact hany.set fun hp => absurd hp hne
    · exact hany.remove hne
  · exact h

omit hi

theorem closed : LocalClosed t (Apart t s₀) where
  desc hi hf h := h.modIrq hi hf
  pend _ hi h := h.setPending hi
  refresh hi h := h.updateIrqLr hi

theorem flushVcpu {isCurrent : Bool} (h : Apart t s₀ s) :
    Apart t s₀ (s.flushVcpu e c isCurrent t) where
  indexed := (Indexed.closed e.lrCount t).flushVcpu (fun _ => trivial) h.indexed
  other w hw := (SameRow.closed hw).flushVcpu (fun _ => trivial) (h.other w hw)
  recorded j hj hrec := flushVcpu_recorded h.indexed (h.recorded j hj hrec)

end Apart

theorem writeIrqPriority_spiConfig {irqBase size : Nat} {value : BitVec 64} :
    (s.writeIrqPriority e t irqBase size value).spiConfig = fun w j =>
      if w < e.vcpuCount ∧ irqBase ≤ j ∧ j < irqBase + size then
        (s.spiConfig w j).map fun x => { x with priority := (byteAt value (j - irqBase)).toNat }
      else s.spiConfig w j := by
  rw [writeIrqPriority]
  induction size with
  | zero =>
    funext w j
    rw [if_neg fun h => by omega]
    rfl
  | succ n ih =>
    rw [List.range_succ, List.foldl_append, List.foldl_cons, List.foldl_nil,
      configIrq_spiConfig (g := fun x => { x with priority := (byteAt value n).toNat })
        fun _ => rfl, ih]
    funext w j
    by_cases hj : j = irqBase + n
    · subst hj
      by_cases hw : w < e.vcpuCount <;> simp [hw]
    · have hiff : j < irqBase + (n + 1) ↔ j < irqBase + n := by omega
      simp [hj, hiff]

end Core

/-! ## One word -/

namespace Vm

variable {m m' m'' : Vm} {cfg : GicConfig} {p o size : Nat} {t v : Vid} {req : Mmio}

/-- Everything outside the descriptors and the CPU interfaces is as before, but for the
registers of frame `p`. -/
structure RegsKept (p : Nat) (m m' : Vm) : Prop where
  env : m'.env = { m.env with gicrCtlr := m'.env.gicrCtlr }
  gicrCtlr : ∀ q, q ≠ p → m'.env.gicrCtlr q = m.env.gicrCtlr q
  target : m'.target = m.target
  spiRouter : m'.spiRouter = m.spiRouter
  rdistCount : m'.rdistCount = m.rdistCount
  rdistVcpu : m'.rdistVcpu = m.rdistVcpu
  gicrWaker : ∀ q, q ≠ p → m'.gicrWaker q = m.gicrWaker q
  gicrPropbaser : ∀ q, q ≠ p → m'.gicrPropbaser q = m.gicrPropbaser q
  gicrPendbaser : ∀ q, q ≠ p → m'.gicrPendbaser q = m.gicrPendbaser q
  its : m'.its = m.its

namespace RegsKept

theorem modCore {f : Env → Core → Core} : RegsKept p m (m.modCore f) :=
  ⟨rfl, fun _ _ => rfl, rfl, rfl, rfl, rfl, fun _ _ => rfl, fun _ _ => rfl, fun _ _ => rfl, rfl⟩

theorem refl : RegsKept p m m := modCore (f := fun _ => id)

variable (h : RegsKept p m m')

include h

theorem trans (h' : RegsKept p m' m'') : RegsKept p m m'' where
  env := by
    have h1 := h'.env
    rw [h.env] at h1
    exact h1
  gicrCtlr q hq := (h'.gicrCtlr q hq).trans (h.gicrCtlr q hq)
  target := h'.target.trans h.target
  spiRouter := h'.spiRouter.trans h.spiRouter
  rdistCount := h'.rdistCount.trans h.rdistCount
  rdistVcpu := h'.rdistVcpu.trans h.rdistVcpu
  gicrWaker q hq := (h'.gicrWaker q hq).trans (h.gicrWaker q hq)
  gicrPropbaser q hq := (h'.gicrPropbaser q hq).trans (h.gicrPropbaser q hq)
  gicrPendbaser q hq := (h'.gicrPendbaser q hq).trans (h.gicrPendbaser q hq)
  its := h'.its.trans h.its

theorem vcpuCount : m'.env.vcpuCount = m.env.vcpuCount := by
  rw [h.env]

theorem decodeFrame (cfg : GicConfig) (addr : Nat) :
    m'.decodeFrame cfg addr = m.decodeFrame cfg addr := by
  rw [Vm.decodeFrame, Vm.decodeFrame, h.rdistCount, h.rdistVcpu, h.env]

omit h

theorem flushTarget : RegsKept p m (m.flushTarget v (some t)) := by
  rw [Vm.flushTarget]
  exact modCore

end RegsKept

/-- What a write to frame `p`, the one of vCPU `t`, may change: the registers of the frame
and the local interrupts of the vCPU. Of its other interrupts the flush may take the pending
flag, to put it into a list register. -/
structure RdistFrame (p : Nat) (t : Vid) (m m' : Vm) : Prop where
  regs : RegsKept p m m'
  other : ∀ w, w ≠ t → m'.core.irq w = m.core.irq w
  desc : ∀ j, localIrqNum ≤ j →
    m'.core.irq t j = { m.core.irq t j with pending := (m'.core.irq t j).pending }
  pending : ∀ j, localIrqNum ≤ j →
    (m'.core.irq t j).pending = true → (m.core.irq t j).pending = true

namespace RdistFrame

theorem trans (h : RdistFrame p t m m') (h' : RdistFrame p t m' m'') : RdistFrame p t m m'' := by
  refine ⟨h.regs.trans h'.regs, fun w hw => (h'.other w hw).trans (h.other w hw),
    fun j hj => ?_, fun j hj hp => h.pending j hj (h'.pending j hj hp)⟩
  have h1 := h'.desc j hj
  rw [h.desc j hj] at h1
  exact h1

theorem of_local (hr : RegsKept p m m') (h : Core.LocalOnly t m.core m'.core) :
    RdistFrame p t m m' :=
  ⟨hr, h.other, fun j hj => by rw [h.desc j hj], fun j hj => by rw [h.desc j hj]; exact id⟩

theorem flushTarget : RdistFrame p t m (m.flushTarget v (some t)) := by
  have h : Lowers t m.core (m.core.flushVcpu m.env (some v) (t == v) t) := .flushVcpu
  exact ⟨.flushTarget, h.other, fun j _ => h.desc j, fun j _ => h.pending j⟩

theorem priority (h : RdistFrame p t m m') (w : Vid) {i : Nat} (hi : isSpi i = true) :
    (m'.core.irq w i).priority = (m.core.irq w i).priority := by
  have hge := (isSpi_iff.mp hi).1
  by_cases hw : w = t
  · rw [hw, h.desc i hge]
  · rw [h.other w hw]

end RdistFrame

/-- A word of the SGI frame that is not one of priorities is local to the vCPU. -/
theorem gicrSgiWrite_local {offset : Nat} {value : BitVec 64}
    (hprio : priorityAccess offset size = false) (hword : wordAccess offset size = true) :
    RegsKept p m (m.gicrSgiWrite t offset size value).1 ∧
      ∀ P, Core.LocalClosed t P → P m.core → P (m.gicrSgiWrite t offset size value).1.core := by
  rw [gicrSgiWrite]
  split
  · next r irqBase hdec =>
    dsimp only [writeIrqBits]
    refine ⟨.modCore, fun P K h => ?_⟩
    refine List.foldlRecOn (motive := P) _ _ h fun s h bit hbit => ?_
    have hlt : irqBase + bit < localIrqNum := by
      rw [decodeIrqBitReg_local hdec, zero_add]
      exact List.mem_range.mp hbit
    split
    · rw [stateRow, if_neg (by simp [not_spi_of_lt hlt])]
      exact K.writeIrqBit hlt h
    · exact h
  · split
    · next irqBase hdec =>
      have hbase : irqBase + 16 ≤ localIrqNum := by
        rw [decodeIrqConfigReg, if_pos rfl] at hdec
        split at hdec
        · next hlt =>
          rw [Option.some.injEq] at hdec
          omega
        · cases hdec
      dsimp only
      exact ⟨.modCore, fun P K h => K.writeIrqConfig hbase h⟩
    split
    · next hlt =>
      dsimp only
      refine ⟨.modCore, fun P K h => ?_⟩
      have hsize : size = 4 ∧ offset % 4 = 0 := by simpa [wordAccess] using hword
      have hge : 0x800 ≤ offset := by
        by_contra hlt'
        have : priorityAccess offset size = true := by
          rw [priorityAccess, mmioAccessInRange, hsize.1, decide_eq_true hlt.1,
            decide_eq_true (by omega), decide_eq_true (by omega)]
          rfl
        rw [this] at hprio
        cases hprio
      refine K.writeIrqPriority (by rw [lpiBase]; omega) ?_ h
      intro s byte _ hi _
      rw [isSpi_iff, irqNum] at hi
      omega
    · exact ⟨.refl, fun _ _ => id⟩

theorem gicrWrite_local (value : BitVec 64)
    (hprio : (decide (0x10000 ≤ o) && priorityAccess (o - 0x10000) size) = false)
    (hword : wordAccess o size = true) :
    RegsKept p m (m.gicrWrite ⟨p, some t, o⟩ size value).1 ∧ ∀ P, Core.LocalClosed t P → P m.core →
        P (m.gicrWrite ⟨p, some t, o⟩ size value).1.core := by
  have hne : ∀ {α : Type} (f : Nat → α) (a : α) (q : Nat), q ≠ p →
      Function.update f p a q = f q := fun f a q hq => Function.update_of_ne hq a f
  rw [gicrWrite]
  dsimp only
  split
  · split
    · exact ⟨⟨rfl, fun q hq => hne _ _ q hq, rfl, rfl, rfl, rfl, fun _ _ => rfl,
        fun _ _ => rfl, fun _ _ => rfl, rfl⟩, fun _ _ => id⟩
    · exact ⟨.refl, fun _ _ => id⟩
  split
  · exact ⟨⟨rfl, fun _ _ => rfl, rfl, rfl, rfl, rfl, fun q hq => hne _ _ q hq,
      fun _ _ => rfl, fun _ _ => rfl, rfl⟩, fun _ _ => id⟩
  split
  · split
    · exact ⟨⟨rfl, fun _ _ => rfl, rfl, rfl, rfl, rfl, fun _ _ => rfl,
        fun q hq => hne _ _ q hq, fun _ _ => rfl, rfl⟩, fun _ _ => id⟩
    · exact ⟨.refl, fun _ _ => id⟩
  split
  · split
    · exact ⟨⟨rfl, fun _ _ => rfl, rfl, rfl, rfl, rfl, fun _ _ => rfl,
        fun _ _ => rfl, fun q hq => hne _ _ q hq, rfl⟩, fun _ _ => id⟩
    · exact ⟨.refl, fun _ _ => id⟩
  split
  · next hsgi =>
    rw [decide_eq_true hsgi.1, Bool.true_and] at hprio
    refine gicrSgiWrite_local hprio ?_
    rw [wordAccess] at hword ⊢
    have hmod : (o - 0x10000) % 4 = o % 4 := by omega
    rw [hmod]
    exact hword
  · exact ⟨.refl, fun _ _ => id⟩

/-- A write to a frame is one of priorities, or local to the vCPU; a flush of the vCPU
follows or not. -/
theorem gicrAccess_write (hdir : req.dir = .write)
    (hf : m.decodeFrame cfg req.address = some ⟨p, some t, o⟩) :
    (0x10000 ≤ o ∧ priorityAccess (o - 0x10000) req.size = true ∧
      (m.gicrAccess cfg v req).vm = (m.modCore fun e s => s.writeIrqPriority e t
        (o - 0x10000 - 0x400) req.size req.value).flushTarget v (some t)) ∨
    (¬ (0x10000 ≤ o ∧ priorityAccess (o - 0x10000) req.size = true) ∧
      ∃ m₁ : Vm, RegsKept p m m₁ ∧ (∀ P, Core.LocalClosed t P → P m.core → P m₁.core) ∧
        ((m.gicrAccess cfg v req).vm = m₁ ∨
          (m.gicrAccess cfg v req).vm = m₁.flushTarget v (some t))) := by
  rw [gicrAccess, hf]
  dsimp only
  split
  · next hprio =>
    rw [Bool.and_eq_true, decide_eq_true_eq] at hprio
    refine .inl ⟨hprio.1, hprio.2, ?_⟩
    rw [access, hdir]
  rename_i hprio
  refine .inr ⟨fun h => hprio (by rw [decide_eq_true h.1, h.2]; rfl), ?_⟩
  split
  · next hword =>
    obtain ⟨hr, hl⟩ := gicrWrite_local req.value (Bool.eq_false_iff.mpr hprio) hword
    refine ⟨_, hr, hl, ?_⟩
    rw [access, hdir]
    dsimp only
    rw [flushAfter]
    split
    · exact .inr rfl
    · exact .inl rfl
  · exact ⟨m, .refl, fun _ _ => id, .inl rfl⟩

/-! ## An access -/

end Vm

namespace Mmio

/-- Byte `byte` of the word at `o` of the frame is the priority of interrupt `i`. -/
def Sets (o : Nat) (r : Mmio) (i byte : Nat) : Prop :=
  0x10000 ≤ o ∧ priorityAccess (o - 0x10000) r.size = true ∧ byte < r.size ∧
    i = o - 0x10000 - 0x400 + byte

/-- The words an access is made in, with their offsets. -/
def frameWords (o : Nat) (req : Mmio) : List (Nat × Mmio) :=
  if byteSizes req.size then [(o, req)]
  else if req.size = 8 then [(o, Vm.lowReq req), (o + 4, Vm.highReq req)]
  else []

/-- Every byte of the access lies in frame `p`, the one of vCPU `t`, from `o` on. -/
structure ToFrame (cfg : GicConfig) (m : Vm) (p : Nat) (t : Vid) (o : Nat) (req : Mmio) :
    Prop where
  gicd : ∀ k < req.size, addrInRange (req.address + k) cfg.gicdBase cfg.gicdSize = false
  gicr : ∀ k < req.size, addrInRange (req.address + k) cfg.gicrBase cfg.gicrSize = true
  its : addrInRange req.address cfg.itsBase cfg.itsSize = false
  frame : ∀ k < req.size, m.decodeFrame cfg (req.address + k) = some ⟨p, some t, o + k⟩

/-- No byte of the word is the priority of an SPI, unless it is the one all its rows have. -/
def WordHarmless (m : Vm) (o : Nat) (r : Mmio) : Prop :=
  ∀ i byte, r.Sets o i byte → isSpi i = true →
    ∀ w < m.env.vcpuCount, (m.core.irq w i).priority = (byteAt r.value byte).toNat

/-- So it is for the words of the access. -/
def Harmless (m : Vm) (o : Nat) (req : Mmio) : Prop :=
  ∀ x ∈ req.frameWords o, WordHarmless m x.1 x.2

end Mmio

namespace Vm

variable {m m' : Vm} {cfg : GicConfig} {p o : Nat} {t v w : Vid} {req r : Mmio} {i byte : Nat}
  {mem : GuestMem} {lines : Nat → Samples}

theorem flushTarget_spiConfig : (m.flushTarget v (some t)).core.spiConfig = m.core.spiConfig :=
  flushVcpu_spiConfig

theorem priorityAccess_range {offset size : Nat} (h : priorityAccess offset size = true) :
    0x400 ≤ offset ∧ offset < 0x800 ∧ size ≤ 0x800 - offset := by
  rw [priorityAccess, mmioAccessInRange] at h
  simpa [and_assoc] using (Bool.and_eq_true_iff.mp h).2

section Word

variable (hdir : r.dir = .write) (hf : m.decodeFrame cfg r.address = some ⟨p, some t, o⟩)

include hdir hf

theorem gicrAccess_regs : RegsKept p m (m.gicrAccess cfg v r).vm := by
  obtain ⟨-, -, h⟩ | ⟨-, m₁, hr, -, h | h⟩ := gicrAccess_write hdir hf
  · rw [h]
    exact RegsKept.modCore.trans .flushTarget
  · rw [h]
    exact hr
  · rw [h]
    exact hr.trans .flushTarget

theorem gicrAccess_rdistFrame (hh : Mmio.WordHarmless m o r) :
    RdistFrame p t m (m.gicrAccess cfg v r).vm := by
  obtain ⟨ho, hp, h⟩ | ⟨-, m₁, hr, hl, h | h⟩ := gicrAccess_write hdir hf
  · rw [h]
    refine .trans (.of_local .modCore ?_) .flushTarget
    have hrange := priorityAccess_range hp
    refine LocalOnly.closed.writeIrqPriority (by rw [lpiBase]; omega) ?_
      ⟨fun _ _ => rfl, fun _ _ => rfl⟩
    intro s byte hb hi hs
    refine hs.configRows (isSpi_iff.mp hi).1 fun w hw => ?_
    rw [← hh _ byte ⟨ho, hp, hb, rfl⟩ hi w hw]
  · rw [h]
    exact .of_local hr (hl _ LocalOnly.closed ⟨fun _ _ => rfl, fun _ _ => rfl⟩)
  · rw [h]
    exact (RdistFrame.of_local hr
      (hl _ LocalOnly.closed ⟨fun _ _ => rfl, fun _ _ => rfl⟩)).trans .flushTarget

theorem gicrAccess_priority (hs : r.Sets o i byte) (hi : isSpi i = true)
    (hw : w < m.env.vcpuCount) :
    ((m.gicrAccess cfg v r).vm.core.irq w i).priority = (byteAt r.value byte).toNat := by
  obtain ⟨-, -, h⟩ | ⟨hno, -⟩ := gicrAccess_write (v := v) hdir hf
  · obtain ⟨-, -, hb, rfl⟩ := hs
    have hcfg : (m.gicrAccess cfg v r).vm.core.spiConfig w (o - 0x10000 - 0x400 + byte) =
        (m.core.spiConfig w (o - 0x10000 - 0x400 + byte)).map fun x =>
          { x with priority := (byteAt r.value byte).toNat } := by
      rw [h, flushTarget_spiConfig]
      show (writeIrqPriority ..).spiConfig .. = _
      rw [writeIrqPriority_spiConfig]
      dsimp only
      rw [if_pos ⟨hw, by omega, by omega⟩, Nat.add_sub_cancel_left]
    rw [spiConfig, spiConfig, if_pos hi, if_pos hi] at hcfg
    injection hcfg with hcfg
    exact congrArg IrqConfig.priority hcfg
  · exact absurd ⟨hs.1, hs.2.1⟩ hno

theorem gicrAccess_priority_of_not (hs : ∀ byte, ¬ r.Sets o i byte) (hi : isSpi i = true) :
    ((m.gicrAccess cfg v r).vm.core.irq w i).priority = (m.core.irq w i).priority := by
  obtain ⟨ho, hp, h⟩ | ⟨hno, -⟩ := gicrAccess_write hdir hf
  · have hcfg : (m.gicrAccess cfg v r).vm.core.spiConfig w i = m.core.spiConfig w i := by
      rw [h, flushTarget_spiConfig]
      show (writeIrqPriority ..).spiConfig .. = _
      rw [writeIrqPriority_spiConfig]
      dsimp only
      rw [if_neg]
      rintro ⟨-, hle, hlt⟩
      exact hs (i - (o - 0x10000 - 0x400)) ⟨ho, hp, by omega, by omega⟩
    rw [spiConfig, spiConfig, if_pos hi, if_pos hi] at hcfg
    injection hcfg with hcfg
    exact congrArg IrqConfig.priority hcfg
  · have hframe := gicrAccess_rdistFrame (v := v) hdir hf fun i byte hs =>
      absurd ⟨hs.1, hs.2.1⟩ hno
    exact hframe.priority w hi

theorem gicrAccess_apart {s₀ : Core} (hno : ∀ i byte, r.Sets o i byte → isSpi i = false)
    (ha : Core.Apart t s₀ m.core) : Core.Apart t s₀ (m.gicrAccess cfg v r).vm.core := by
  obtain ⟨ho, hp, h⟩ | ⟨-, m₁, hr, hl, h | h⟩ := gicrAccess_write hdir hf
  · rw [h]
    refine .flushVcpu ?_
    have hrange := priorityAccess_range hp
    refine Apart.closed.writeIrqPriority (by rw [lpiBase]; omega) ?_ ha
    intro s byte hb hi _
    rw [hno _ byte ⟨ho, hp, hb, rfl⟩] at hi
    cases hi
  · rw [h]
    exact hl _ Apart.closed ha
  · rw [h]
    exact (hl _ Apart.closed ha).flushVcpu

theorem gicrAccess_iff : RdistFrame p t m (m.gicrAccess cfg v r).vm ↔ Mmio.WordHarmless m o r := by
  refine ⟨fun h i byte hs hi w hw => ?_, gicrAccess_rdistFrame hdir hf⟩
  rw [← h.priority w hi]
  exact gicrAccess_priority hdir hf hs hi hw

/-- A word that is refused is neither aligned nor one of priorities. -/
theorem gicrAccess_refused (h : (m.gicrAccess cfg v r).status ≠ .ok) :
    ¬ (0x10000 ≤ o ∧ priorityAccess (o - 0x10000) r.size = true) := by
  intro hp
  refine h ?_
  rw [gicrAccess, hf]
  dsimp only
  rw [decide_eq_true hp.1, hp.2, Bool.true_and, if_pos rfl, access, hdir]

end Word

theorem mmioDispatch_gicr (hd : addrInRange r.address cfg.gicdBase cfg.gicdSize = false)
    (hr : addrInRange r.address cfg.gicrBase cfg.gicrSize = true) :
    m.mmioDispatch cfg mem lines v r = m.gicrAccess cfg v r := by
  rw [mmioDispatch, hd, hr]
  rfl

/-! ### Eight bytes -/

/-- The two words of an access do not set the priority of one interrupt. -/
theorem sets_low_high {k : Nat} (hl : (lowReq req).Sets o i byte)
    (hh : (highReq req).Sets (o + 4) i k) : False := by
  obtain ⟨-, hp, hb, hi⟩ := hl
  obtain ⟨-, -, -, hi'⟩ := hh
  have hrange := priorityAccess_range hp
  have hb : byte < 4 := hb
  omega

/-- If the low word is refused, the high one would not have set the priority of an SPI. -/
theorem low_priority_of_high (hh : (highReq req).Sets (o + 4) i byte) (hi : isSpi i = true) :
    0x10000 ≤ o ∧ priorityAccess (o - 0x10000) (lowReq req).size = true := by
  obtain ⟨-, hp, hb, rfl⟩ := hh
  have hrange := priorityAccess_range hp
  have hb : byte < 4 := hb
  rw [isSpi_iff, localIrqNum] at hi
  refine ⟨by omega, ?_⟩
  rw [priorityAccess, mmioAccessInRange, decide_eq_true (by omega), decide_eq_true (by omega),
    decide_eq_true (by show 4 ≤ _; omega)]
  rfl

section Wide

variable (hdir : req.dir = .write)
  (hl : m.decodeFrame cfg (lowReq req).address = some ⟨p, some t, o⟩)
  (hh : m.decodeFrame cfg (highReq req).address = some ⟨p, some t, o + 4⟩)

include hdir hl hh

theorem gicrAccess_wide_iff :
    RdistFrame p t m ((m.gicrAccess cfg v (lowReq req)).vm.gicrAccess cfg v (highReq req)).vm ↔
      Mmio.WordHarmless m o (lowReq req) ∧ Mmio.WordHarmless m (o + 4) (highReq req) := by
  have hregs := gicrAccess_regs (v := v) (r := lowReq req) hdir hl
  have hh' := (hregs.decodeFrame cfg (highReq req).address).trans hh
  constructor
  · intro h
    refine ⟨fun i byte hs hi w hw => ?_, fun i byte hs hi w hw => ?_⟩
    · rw [← h.priority w hi, gicrAccess_priority_of_not (r := highReq req) hdir hh'
        (fun k hk => sets_low_high hs hk) hi]
      exact gicrAccess_priority hdir hl hs hi hw
    · rw [← h.priority w hi]
      exact gicrAccess_priority hdir hh' hs hi (hregs.vcpuCount ▸ hw)
  · rintro ⟨hlow, hhigh⟩
    refine (gicrAccess_rdistFrame (r := lowReq req) hdir hl hlow).trans
      (gicrAccess_rdistFrame hdir hh' fun i byte hs hi w hw => ?_)
    rw [gicrAccess_priority_of_not (r := lowReq req) hdir hl (fun k hk => sets_low_high hk hs) hi]
    exact hhigh i byte hs hi w (hregs.vcpuCount ▸ hw)

end Wide

/-- An access to a frame is one word, two words of which the second may be left out, or
refused. -/
theorem mmioAccess_words (hto : req.ToFrame cfg m p t o) : (req.frameWords o = [(o, req)] ∧
      m.decodeFrame cfg req.address = some ⟨p, some t, o⟩ ∧
      (m.mmioAccess cfg mem lines v req).vm = (m.gicrAccess cfg v req).vm) ∨
    (req.frameWords o = [(o, lowReq req), (o + 4, highReq req)] ∧
      m.decodeFrame cfg (lowReq req).address = some ⟨p, some t, o⟩ ∧
      m.decodeFrame cfg (highReq req).address = some ⟨p, some t, o + 4⟩ ∧
      ((m.gicrAccess cfg v (lowReq req)).status ≠ .ok ∧
          (m.mmioAccess cfg mem lines v req).vm = (m.gicrAccess cfg v (lowReq req)).vm ∨
        (m.mmioAccess cfg mem lines v req).vm =
          ((m.gicrAccess cfg v (lowReq req)).vm.gicrAccess cfg v (highReq req)).vm)) ∨
    (req.frameWords o = [] ∧ (m.mmioAccess cfg mem lines v req).vm = m) := by
  rw [Mmio.frameWords, mmioAccess]
  split
  · next hsize =>
    have hpos : 0 < req.size := by
      by_contra h0
      rw [Nat.eq_zero_of_not_pos h0] at hsize
      exact absurd hsize (by decide)
    exact .inl ⟨rfl, hto.frame 0 hpos,
      by rw [mmioDispatch_gicr (hto.gicd 0 hpos) (hto.gicr 0 hpos)]⟩
  split
  · next hsize =>
    have h0 : 0 < req.size := by omega
    have h4 : 4 < req.size := by omega
    refine .inr (.inl ⟨rfl, hto.frame 0 h0, hto.frame 4 h4, ?_⟩)
    have hits : m.itsHandles64 cfg req = false := by
      rw [itsHandles64, hto.its, Bool.and_false]
      rfl
    rw [mmioDispatch64, hits, if_neg (by decide)]
    dsimp only
    rw [mmioDispatch_gicr (r := lowReq req) (hto.gicd 0 h0) (hto.gicr 0 h0)]
    split
    · exact .inr (by
        rw [mmioDispatch_gicr (hto.gicd 4 h4) (hto.gicr 4 h4)])
    · next hok => exact .inl ⟨hok, rfl⟩
  · exact .inr (.inr ⟨rfl, rfl⟩)

/-- A write to the frame of a vCPU, of any width and at any offset, changes nothing but the
registers of the frame and the local interrupts of the vCPU, exactly if no byte of it falls
on the priority of an SPI with another value than every row of the SPI has. If no byte
falls on one at all, the other vCPUs are not touched in any way, and what was pending of
the vCPU's other interrupts still is. -/
theorem gicr_write_local (hm : Indexed m.core) (hdir : req.dir = .write)
    (hto : req.ToFrame cfg m p t o) :
    (RdistFrame p t m (m.mmioAccess cfg mem lines v req).vm ↔ req.Harmless m o) ∧
      ((∀ x ∈ req.frameWords o, ∀ i byte, x.2.Sets x.1 i byte → isSpi i = false) →
        Core.Apart t m.core (m.mmioAccess cfg mem lines v req).vm.core) := by
  have hself : Apart t m.core m.core := ⟨hm, fun w _ => ⟨hm.virq, rfl, rfl, rfl⟩, fun _ _ => id⟩
  obtain ⟨hw, hf, h⟩ | ⟨hw, hl, hh, hcases⟩ | ⟨hw, h⟩ :=
    mmioAccess_words hto
  · rw [Mmio.Harmless, hw, h]
    simp only [List.mem_singleton, forall_eq]
    exact ⟨gicrAccess_iff hdir hf, fun hno => gicrAccess_apart hdir hf hno hself⟩
  · rw [Mmio.Harmless, hw]
    simp only [List.mem_cons, List.not_mem_nil, or_false, forall_eq_or_imp, forall_eq]
    obtain ⟨href, h⟩ | h := hcases
    · have hnone := gicrAccess_refused (r := lowReq req) hdir hl href
      rw [h, gicrAccess_iff (r := lowReq req) hdir hl]
      refine ⟨⟨fun hlow => ⟨hlow, fun i byte hs hi => ?_⟩, And.left⟩,
        fun hno => gicrAccess_apart (r := lowReq req) hdir hl hno.1 hself⟩
      exact absurd (low_priority_of_high hs hi) hnone
    · have hh' := ((gicrAccess_regs (v := v) (r := lowReq req) hdir hl).decodeFrame cfg
        (highReq req).address).trans hh
      rw [h]
      refine ⟨gicrAccess_wide_iff hdir hl hh, fun hno => ?_⟩
      exact gicrAccess_apart (r := highReq req) hdir hh' hno.2
        (gicrAccess_apart (r := lowReq req) hdir hl hno.1 hself)
  · rw [Mmio.Harmless, hw, h]
    simp only [List.not_mem_nil, false_imp_iff, implies_true, iff_true, forall_const]
    exact ⟨⟨.refl, fun _ _ => rfl, fun _ _ => rfl, fun _ _ => id⟩, hself⟩

end Vm

/-! ### Two priority bytes -/

/-- A byte that vCPU 0 writes to the frame of vCPU 1. -/
def gicrByte (offset : Nat) : Mmio where
  dir := .write
  address := twoFrames.gicrBase + twoFrames.gicrStride + offset
  size := 1
  value := 0x20

def gicrByteVm (offset : Nat) : Vm :=
  (runningVm.mmioAccess twoFrames (fun _ => none) (fun _ _ _ => false) 0 (gicrByte offset)).vm

theorem runningVm_run :
    GuardedRun (Step twoFrames) (fun _ _ => True) twoVcpus.start [.enter 0, .load 0] runningVm :=
  play_run [.load 0, .enter 0] (by decide)

/-- Its timer's priority is vCPU 1's own. -/
theorem gicr_write_local_timer : (gicrByteVm 0x1041b).core.irq 0 = runningVm.core.irq 0 ∧
      ((gicrByteVm 0x1041b).core.irq 1 27).priority = 0x20 := by
  have hto : (gicrByte 0x1041b).ToFrame twoFrames runningVm 1 1 0x1041b := by
    refine ⟨fun k hk => ?_, fun k hk => ?_, rfl, fun k hk => ?_⟩
    all_goals
      obtain rfl : k = 0 := Nat.lt_one_iff.mp hk
      rfl
  have hframe : Vm.RdistFrame 1 1 runningVm (gicrByteVm 0x1041b) := by
    refine (Vm.gicr_write_local (Indexed.run runningVm_run) rfl hto).1.mpr ?_
    intro x hx i byte hs hi
    obtain rfl := List.mem_singleton.mp hx
    obtain ⟨-, -, hb, rfl⟩ := hs
    obtain rfl : byte = 0 := Nat.lt_one_iff.mp hb
    exact absurd hi (by decide)
  exact ⟨hframe.other 0 (by decide), by decide +kernel⟩

/-- Thirteen bytes on, it is that of `SPI 40` in the row of every vCPU. -/
theorem gicr_write_reaches_spi : Reachable twoFrames twoVcpus runningVm ∧
      (gicrByte 0x10428).ToFrame twoFrames runningVm 1 1 0x10428 ∧
      (runningVm.core.irq 0 40).priority = 0x80 ∧
      ((gicrByteVm 0x10428).core.irq 0 40).priority = 0x20 := by
  refine ⟨⟨_, runningVm_run⟩, ⟨fun k hk => ?_, fun k hk => ?_, rfl, fun k hk => ?_⟩,
    by decide +kernel, by decide +kernel⟩
  all_goals
    obtain rfl : k = 0 := Nat.lt_one_iff.mp hk
    rfl

end Sima.Vgic
