import Sima.Vgic.Pieces

/-!
# What belongs to an SPI

A shared interrupt has a descriptor in the row of every vCPU, and a target. Its
configuration — enabled or not, the priority, the trigger mode — is what the
distributor's registers write and read back; the rest of a descriptor is state that
delivery moves about.

Delivery does not write the configuration of an SPI, with one exception: an injection
says whether the interrupt is a level or an edge, and writes that into the descriptor
of the row it injects into. The first part goes through the functions of `Sync` and
`Deliver` to say so. The second part does the same for the ITS, which has no business
with SPIs at all: neither their configuration nor their routing is touched.

What is left are three writes of the distributor: a configuration, in every row; the
target, by `ITARGETSR`; the route, by `IROUTER`. `SpiClosed` says of a property that
they keep it, and the last part carries that through an access.
-/

namespace Sima.Vgic

open Lib

/-- What the registers configure of an interrupt. -/
structure IrqConfig where
  enabled : Bool
  priority : Nat
  level : Bool
deriving DecidableEq, Repr

def VgicIrq.config (d : VgicIrq) : IrqConfig := ⟨d.enabled, d.priority, d.level⟩

namespace Core

/-- The configuration of the SPIs, row by row. -/
def spiConfig (s : Core) (v : Vid) (i : Nat) : Option IrqConfig :=
  if isSpi i then some (s.irq v i).config else none

variable {e : Env} {s s' : Core} {c : Caller} {v w : Vid} {i j idx : Nat} {line : Samples}
  {lr : Lr} {d : VgicIrq} {loaded b isCurrent level : Bool} {old : Slots Lr} {eoi : Nat → Bool}
  {g : IrqConfig → IrqConfig}

/-! ## Delivery -/

theorem modIrq_spiConfig {f : VgicIrq → VgicIrq}
    (hf : isSpi i = true → ∀ d, (f d).config = d.config) :
    (s.modIrq v i f).spiConfig = s.spiConfig := by
  funext w j
  rw [spiConfig, spiConfig]
  split
  · next hj =>
    rw [modIrq_irq]
    split
    · next h =>
      obtain ⟨rfl, rfl⟩ := h
      rw [hf hj]
    · rfl
  · rfl

theorem spiConfig_congr (h : s'.irq = s.irq) : s'.spiConfig = s.spiConfig := by
  funext w j
  rw [spiConfig, spiConfig, h]

@[simp] theorem setPending_spiConfig (b : Bool) : (s.setPending v i b).spiConfig = s.spiConfig :=
  (spiConfig_congr (setPending_irq ..)).trans (modIrq_spiConfig fun _ _ => rfl)

@[simp] theorem setActive_spiConfig (b : Bool) : (s.setActive v i b).spiConfig = s.spiConfig :=
  modIrq_spiConfig fun _ _ => rfl

@[simp] theorem modCtx_spiConfig (f : Ctx → Ctx) : (s.modCtx v f).spiConfig = s.spiConfig := rfl

@[simp] theorem modLrs_spiConfig (f : Slots Lr → Slots Lr) :
    (s.modLrs v f).spiConfig = s.spiConfig := rfl

@[simp] theorem modIch_spiConfig (f : CpuIf → CpuIf) :
    (s.modIch v f).spiConfig = s.spiConfig := rfl

@[simp] theorem removeLr_spiConfig : (s.removeLr v idx).spiConfig = s.spiConfig := rfl

@[simp] theorem pushLr_spiConfig : (s.pushLr v lr).spiConfig = s.spiConfig := rfl

@[simp] theorem raiseUie_spiConfig : (s.raiseUie v).spiConfig = s.spiConfig := rfl

@[simp] theorem writeHcr_spiConfig : (s.writeHcr v loaded).spiConfig = s.spiConfig := by
  rw [writeHcr]
  split <;> rfl

@[simp] theorem writeLr_spiConfig : (s.writeLr v loaded idx).spiConfig = s.spiConfig := by
  rw [writeLr]
  split <;> rfl

@[simp] theorem requeueLr_spiConfig : (s.requeueLr e v i loaded).spiConfig = s.spiConfig := by
  rw [requeueLr]
  split
  · rfl
  · split <;> simp

@[simp] theorem completeEoiLr_spiConfig :
    (s.completeEoiLr e line c v old idx).spiConfig = s.spiConfig := by
  rw [completeEoiLr, completeEoiDesc]
  split
  · rfl
  · split <;> simp

@[simp] theorem completeEoiLrs_spiConfig (n : Nat) :
    (s.completeEoiLrs e line c v old eoi n).spiConfig = s.spiConfig := by
  induction n generalizing s with
  | zero => rfl
  | succ n ih =>
    rw [completeEoiLrs, ih]
    split <;> simp

@[simp] theorem settleLost_spiConfig {reported : Bool} :
    (s.settleLost e line v loaded reported lr idx).spiConfig = s.spiConfig := by
  rw [settleLost]
  split <;> split <;> simp

@[simp] theorem syncLostLrs_spiConfig :
    (s.syncLostLrs e line v loaded eoi old).spiConfig = s.spiConfig := by
  refine List.foldlRecOn (motive := fun s' : Core => s'.spiConfig = s.spiConfig) _ _ rfl ?_
  intro s' h idx _
  rw [syncLostLr]
  split
  · exact h
  · split
    · exact h
    · split <;> simp [h]

@[simp] theorem copyBack_spiConfig : (s.copyBack v lr d).spiConfig = s.spiConfig := by
  rw [copyBack]
  split <;> simp

@[simp] theorem completeTimerLr_spiConfig :
    (s.completeTimerLr v i idx b).spiConfig = s.spiConfig := by
  simp [completeTimerLr]

@[simp] theorem settleLr_spiConfig :
    (s.settleLr e line v loaded idx lr d).1.spiConfig = s.spiConfig := by
  rw [settleLr]
  repeat' split
  all_goals simp

@[simp] theorem syncLrs_spiConfig (n : Nat) :
    (s.syncLrs e line v loaded n idx).spiConfig = s.spiConfig := by
  induction n generalizing s idx with
  | zero => rfl
  | succ n ih =>
    rw [syncLrs, syncLr]
    split <;> rw [ih, settleLr_spiConfig]

@[simp] theorem reconcile_spiConfig :
    (s.reconcile e line c v loaded old eoi).spiConfig = s.spiConfig := by
  have hreport : (s.completeReported e line c v old eoi).spiConfig = s.spiConfig := by
    rw [completeReported]
    split <;> simp
  rw [reconcile, restoreTimer]
  split
  · split <;> simp [hreport]
  · simp [hreport]

@[simp] theorem syncVcpu_spiConfig :
    (s.syncVcpu e line c isCurrent v).spiConfig = s.spiConfig := by
  rw [syncVcpu]
  split
  · rfl
  · split <;> simp [readBack]

theorem flushIrq_spiConfig {lpi : Bool} (h : s.flushIrq e v lpi i = some s') :
    s'.spiConfig = s.spiConfig := by
  obtain ⟨-, rfl⟩ | ⟨-, rfl⟩ | ⟨-, s₁, ht, rfl⟩ := flushIrq_cases h
  · rw [setPending_spiConfig]
  · rfl
  · obtain ⟨f, rfl, -⟩ := takeLr_eq ht
    rw [handOver]
    split <;> simp

@[simp] theorem flushScan_spiConfig : (s.flushScan e v).spiConfig = s.spiConfig :=
  flushScan_rule (fun h hf => (flushIrq_spiConfig hf).trans h) (id) rfl

@[simp] theorem flushVcpu_spiConfig : (s.flushVcpu e c isCurrent v).spiConfig = s.spiConfig := by
  rw [flushVcpu]
  split
  · rfl
  · split <;> simp

@[simp] theorem flushVm_spiConfig : (s.flushVm e v).spiConfig = s.spiConfig :=
  List.foldlRecOn (motive := fun s' : Core => s'.spiConfig = s.spiConfig) _ _ rfl
    fun _ h _ _ => by rw [flushVcpu_spiConfig, h]

@[simp] theorem flushIfLoaded_spiConfig : (s.flushIfLoaded e c v).spiConfig = s.spiConfig := by
  rw [flushIfLoaded]
  split <;> simp

@[simp] theorem updateIrqLr_spiConfig : (s.updateIrqLr v i).spiConfig = s.spiConfig := by
  rw [updateIrqLr]
  split <;> simp

@[simp] theorem updateIrqRowLr_spiConfig : (s.updateIrqRowLr e v i).spiConfig = s.spiConfig := by
  rw [updateIrqRowLr]
  split <;> simp

@[simp] theorem dropLr_spiConfig : (s.dropLr v i).spiConfig = s.spiConfig := by
  rw [dropLr]
  split <;> simp

@[simp] theorem setTimerLine_spiConfig : (s.setTimerLine e v b).spiConfig = s.spiConfig := by
  have hlevel : (s.setLevel v ppiVirtualTimer true).spiConfig = s.spiConfig :=
    modIrq_spiConfig fun h => absurd h (by decide)
  rw [setTimerLine, refreshTimerLr]
  split
  · split
    · simp [hlevel]
    · split <;> simp [hlevel]
  · rfl

theorem spiConfig_of_not {i : Nat} (h : isSpi i = false) : s.spiConfig v i = none := by
  rw [spiConfig, h]
  rfl

theorem modIrq_spiConfig_map {f : VgicIrq → VgicIrq} (hf : ∀ d, (f d).config = g d.config) :
    (s.modIrq v i f).spiConfig = fun w j =>
      if w = v ∧ j = i then (s.spiConfig w j).map g else s.spiConfig w j := by
  funext w j
  rw [spiConfig, spiConfig]
  cases hj : isSpi j with
  | false => simp
  | true =>
    rw [modIrq_irq]
    by_cases h : w = v ∧ j = i
    · simp [h, hf]
    · simp [h]

theorem injectLocked_spiConfig (hd : e.hasDesc v i = true) :
    (s.injectLocked e line c v i level).spiConfig = fun w j =>
      if w = v ∧ j = i then (s.spiConfig w j).map fun x => { x with level := level }
      else s.spiConfig w j := by
  rw [injectLocked, if_pos hd, flushIfLoaded_spiConfig, setPending_spiConfig, setLevel,
    modIrq_spiConfig_map (g := fun x => { x with level := level }) fun _ => rfl,
    syncVcpu_spiConfig]

theorem injectLocked_spiConfig_of_not (hi : isSpi i = false) :
    (s.injectLocked e line c v i level).spiConfig = s.spiConfig := by
  rw [injectLocked]
  split
  · rw [flushIfLoaded_spiConfig, setPending_spiConfig, setLevel,
      modIrq_spiConfig fun h => absurd h (by simp [hi]), syncVcpu_spiConfig]
  · rfl

@[simp] theorem clearIrq_spiConfig : (s.clearIrq e line c v i).spiConfig = s.spiConfig := by
  rw [clearIrq]
  split <;> simp

@[simp] theorem deassertIrq_spiConfig : (s.deassertIrq e line c v i).spiConfig = s.spiConfig := by
  rw [deassertIrq]
  split <;> simp

@[simp] theorem deactivateIrq_spiConfig :
    (s.deactivateIrq e line v i).spiConfig = s.spiConfig := by
  rw [deactivateIrq]
  split
  · rfl
  · split <;> simp

@[simp] theorem syncFlush_spiConfig : (s.syncFlush e line v).spiConfig = s.spiConfig := by
  simp [syncFlush]

@[simp] theorem syncCurrentTimerLine_spiConfig :
    (s.syncCurrentTimerLine e line v b).spiConfig = s.spiConfig := by
  rw [syncCurrentTimerLine]
  split <;> simp

@[simp] theorem refreshCurrentLevelIrq_spiConfig :
    (s.refreshCurrentLevelIrq e line v i).spiConfig = s.spiConfig := by
  rw [refreshCurrentLevelIrq]
  split <;> simp

theorem completeWfiLr_spiConfig : (s.completeWfiLr e line v idx).1.spiConfig = s.spiConfig := by
  rw [completeWfiLr, settleWfiLr]
  split
  · simp
  · split <;> simp

@[simp] theorem completeWfiLrs_spiConfig (n : Nat) :
    (s.completeWfiLrs e line v n idx).spiConfig = s.spiConfig := by
  induction n generalizing s idx with
  | zero => rfl
  | succ n ih =>
    rw [completeWfiLrs]
    split <;> rw [ih, completeWfiLr_spiConfig]

@[simp] theorem completeWfiIrqs_spiConfig :
    (s.completeWfiIrqs e line v).spiConfig = s.spiConfig := by
  simp [completeWfiIrqs]

@[simp] theorem hasPendingIrq_spiConfig : (s.hasPendingIrq e c v).2.spiConfig = s.spiConfig := by
  rw [hasPendingIrq, queryCpuif]
  split <;> simp

@[simp] theorem cpuifWrite_spiConfig {r : Sysreg} {val : BitVec 64} :
    (s.cpuifWrite e line v r val).spiConfig = s.spiConfig := by
  rw [cpuifWrite]
  split
  · rw [writeCpuifControl]
    split <;> simp
  · split <;> simp

@[simp] theorem resetVcpuBootState_spiConfig :
    (s.resetVcpuBootState e v).spiConfig = s.spiConfig := by
  rw [resetVcpuBootState]
  split
  · refine List.foldlRecOn (motive := fun s' : Core => s'.spiConfig = s.spiConfig) _ _ ?_ ?_
    · simp
    · intro s' h i _
      simp [h]
  · simp

/-! ## Registers -/

/-- A configuration write reaches every row of an SPI, and no SPI otherwise. -/
theorem configIrq_spiConfig {f : VgicIrq → VgicIrq} (hf : ∀ d, (f d).config = g d.config) :
    (s.configIrq e v i f).spiConfig = fun w j =>
      if w < e.vcpuCount ∧ j = i then (s.spiConfig w j).map g else s.spiConfig w j := by
  have hrows : ∀ n, ((List.range n).foldl
      (fun s v => (s.modIrq v i f).updateIrqRowLr e v i) s).spiConfig = fun w j =>
      if w < n ∧ j = i then (s.spiConfig w j).map g else s.spiConfig w j := by
    intro n
    induction n with
    | zero => simp
    | succ n ih =>
      rw [List.range_succ, List.foldl_append, List.foldl_cons, List.foldl_nil,
        updateIrqRowLr_spiConfig, modIrq_spiConfig_map hf, ih]
      funext w j
      by_cases hj : j = i
      · by_cases hw : w = n
        · simp [hw]
        · have hlt : w < n + 1 ↔ w < n :=
            ⟨fun h => lt_of_le_of_ne (Nat.le_of_lt_succ h) hw, Nat.lt_succ_of_lt⟩
          simp [hw, hlt]
      · simp [hj]
  rw [configIrq]
  split
  · exact hrows e.vcpuCount
  rename_i hi
  have hi : isSpi i = false := by simpa using hi
  have hsame : (s.spiConfig) = fun w j =>
      if w < e.vcpuCount ∧ j = i then (s.spiConfig w j).map g else s.spiConfig w j := by
    funext w j
    split
    · next h => rw [h.2, spiConfig_of_not hi]; rfl
    · rfl
  rw [← hsame]
  split
  · rw [updateIrqLr_spiConfig, modIrq_spiConfig fun h => absurd h (by simp [hi])]
  · rfl

end Core

/-! ## The machine -/

namespace Vm

variable {m : Vm} {i t : Nat}

theorem setSpiTarget_spiConfig : (m.setSpiTarget i t).core.spiConfig = m.core.spiConfig := by
  have hmove : ∀ {e} {s} {old new},
      (moveIrq e old new i s).spiConfig = s.spiConfig := by
    intro e s old new
    rw [moveIrq, moveActive, movePending]
    repeat' split
    all_goals simp
  rw [setSpiTarget]
  split
  · dsimp only
    split
    · rfl
    · exact hmove
  · rfl

theorem setSpiTarget_target (hi : isSpi i = true) : (m.setSpiTarget i t).target = fun v j =>
    if v < m.env.vcpuCount ∧ j = i then m.validTargetVcpu t else m.target v j := by
  rw [setSpiTarget, if_pos hi]
  dsimp only
  split <;> rfl

theorem setSpiTarget_router : (m.setSpiTarget i t).spiRouter = m.spiRouter := by
  rw [setSpiTarget]
  split
  · dsimp only
    split <;> rfl
  · rfl

theorem setSpiTarget_of_not (hi : isSpi i = false) : m.setSpiTarget i t = m := by
  rw [setSpiTarget, if_neg (by simp [hi])]

end Vm

/-- Neither the configuration of an SPI has changed nor its routing. -/
structure Vm.SpiKept (m m' : Vm) : Prop where
  fixed : m.env.Fixed m'.env
  config : m'.core.spiConfig = m.core.spiConfig
  target : ∀ v i, isSpi i = true → m'.target v i = m.target v i
  router : m'.spiRouter = m.spiRouter

namespace Vm.SpiKept

variable {m m' m'' : Vm} {v : Vid} {c : Caller} {line : Samples} {mem : Vm.GuestMem}
  {lines : Nat → Samples} {cfg : GicConfig} {a : ItsAccess}

theorem refl (m : Vm) : m.SpiKept m := ⟨.refl _, rfl, fun _ _ _ => rfl, rfl⟩

theorem trans (h : m.SpiKept m') (h' : m'.SpiKept m'') : m.SpiKept m'' :=
  ⟨h.fixed.trans h'.fixed, h'.config.trans h.config,
    fun v i hi => (h'.target v i hi).trans (h.target v i hi), h'.router.trans h.router⟩

theorem modCore {f : Env → Core → Core} (h : (f m.env m.core).spiConfig = m.core.spiConfig) :
    m.SpiKept (m.modCore f) := ⟨.refl _, h, fun _ _ _ => rfl, rfl⟩

theorem modIts {f : Its → Its} : m.SpiKept (m.modIts f) := ⟨.refl _, rfl, fun _ _ _ => rfl, rfl⟩

theorem setPhase {p : Phase} (h : m.SpiKept m') : m.SpiKept (m'.setPhase v p) :=
  ⟨h.fixed.trans ⟨rfl, rfl, rfl, rfl, rfl⟩, h.config, h.target, h.router⟩

theorem flushAll : m.SpiKept (m.flushAll v) := modCore (by simp)

theorem flushAfter {f : Vm → Vm} {r : Vm × Bool} (hf : ∀ m : Vm, m.SpiKept (f m))
    (h : m.SpiKept r.1) : m.SpiKept (Vm.flushAfter f r) := by
  rw [Vm.flushAfter]
  split
  · exact h.trans (hf r.1)
  · exact h

/-! ### The ITS -/

theorem injectEvent {ev : Event} : m.SpiKept (m.injectEvent line c ev) := by
  rw [Vm.injectEvent]
  split
  · next hlpi =>
    have hspi := lpi_not_spi (Bool.and_eq_true_iff.mp hlpi).2
    split
    · refine ⟨.refl _, Core.injectLocked_spiConfig_of_not hspi, fun v i hi => ?_, rfl⟩
      refine if_neg fun h => ?_
      rw [h.2, hspi] at hi
      cases hi
    · exact refl m
  · exact refl m

theorem injectFound {deviceId eventId : Nat} :
    m.SpiKept (m.injectFound line c deviceId eventId) := by
  rw [Vm.injectFound]
  split
  · exact injectEvent
  · exact refl m

theorem enableLpi {lpi : Nat} (h : isLpi lpi = true) : m.SpiKept (m.enableLpi lpi) := by
  refine modCore ?_
  refine List.foldlRecOn (motive := fun s' : Core => s'.spiConfig = m.core.spiConfig) _ _ rfl ?_
  intro s' hs' v _
  rw [Core.modIrq_spiConfig fun hi => absurd hi (by simp [lpi_not_spi h]), hs']

theorem executeCmd {cmd : Vm.Cmd} : m.SpiKept (m.executeCmd line c cmd) :=
  Vm.executeCmd_rule (refl m) (fun _ _ => modIts) (fun _ _ _ h => modIts.trans (enableLpi h))
    (fun _ => injectFound) fun _ _ => modCore (by simp)

theorem itsDo : m.SpiKept (m.itsDo mem lines v a).1 :=
  Vm.itsDo_rule (refl m) (fun _ h => h.trans modIts) (fun h => h.trans executeCmd)
    fun h => h.trans injectFound

theorem itsFlushed : m.SpiKept (Vm.flushAfter (Vm.flushAll v) (m.itsDo mem lines v a)) :=
  flushAfter (fun _ => flushAll) itsDo

/-- Every step of delivery but the injection of an SPI. -/
theorem of_step {a : Label} (hs : Step cfg a m m') (ha : a.isAccess = false)
    (hinj : ∀ c v virq level, a = .inject c v virq level → isSpi virq = false) : m.SpiKept m' := by
  cases hs with
  | inject => exact modCore (Core.injectLocked_spiConfig_of_not (hinj _ _ _ _ rfl))
  | injectTo _ _ _ hi =>
    have hlt := lt_of_lt_of_le hi (by decide : sgiNum ≤ localIrqNum)
    exact modCore (Core.injectLocked_spiConfig_of_not (not_spi_of_lt hlt))
  | injectMsi => exact injectFound
  | mmio => cases ha
  | enter | leave => exact (refl m).setPhase
  | load | save => exact setPhase (modCore rfl)
  | stop => exact setPhase (modCore (by simp))
  | ack | eoi | regs => exact modCore rfl
  | _ => exact modCore (by simp)

end Vm.SpiKept

/-! ## Accesses -/

namespace Mmio

/-- The access writes the byte of `ITARGETSR` that belongs to the interrupt, and asks for
the vCPU. -/
structure Asks (cfg : GicConfig) (req : Mmio) (i t : Nat) : Prop where
  writes : req.writesGicd cfg = true
  first : 0x800 ≤ req.gicdOffset cfg
  last : req.gicdOffset cfg < 0xc00
  le : req.gicdOffset cfg - 0x800 ≤ i
  lt : i < req.gicdOffset cfg - 0x800 + req.size
  target : t = Vm.targetOfMask (byteAt req.value (i - (req.gicdOffset cfg - 0x800)))

/-- The access writes a word of an `IROUTER`. -/
def WritesRouter (cfg : GicConfig) (req : Mmio) : Prop :=
  req.writesGicd cfg = true ∧ (decodeIrouterReg (req.gicdOffset cfg)).isSome = true

end Mmio

theorem decodeIrouterReg_spi {offset virq : Nat} {upper : Bool}
    (h : decodeIrouterReg offset = some (virq, upper)) : isSpi virq = true := by
  rw [decodeIrouterReg] at h
  split at h
  · next hd =>
    rw [Option.some.injEq, Prod.mk.injEq] at h
    rw [← h.1]
    exact hd.2.1
  · cases h

/-- The writes to what belongs to an SPI keep the property. `ask i t` are the targets that
`ITARGETSR` may be written with, and `route` allows writes of `IROUTER`. -/
structure SpiClosed (ask : Nat → Nat → Prop) (route : Prop) (Q : Vm → Prop) : Prop where
  kept : ∀ {m m' : Vm}, Q m → m.SpiKept m' → Q m'
  config : ∀ {m : Vm} {v i f} {g : IrqConfig → IrqConfig},
    (∀ d, VgicIrq.config (f d) = g d.config) → Q m → Q (m.modCore fun e s => s.configIrq e v i f)
  target : ∀ {m : Vm} {i t}, ask i t → Q m → Q (m.setSpiTarget i t)
  irouter : ∀ {m : Vm} {i upper value}, route → isSpi i = true → Q m →
    Q (m.writeIrouterWord i upper value)

namespace SpiClosed

variable {ask : Nat → Nat → Prop} {route : Prop} {Q : Vm → Prop} {m : Vm} {v : Vid}
  {cfg : GicConfig} {mem : Vm.GuestMem} {lines : Nat → Samples} {req : Mmio}
  {offset size irqBase : Nat} {value : BitVec 64}

variable (K : SpiClosed ask route Q) {val : BitVec 32}

include K

theorem configIrq {s : Core} {i : Nat} {f : VgicIrq → VgicIrq} (g : IrqConfig → IrqConfig)
    (hf : ∀ d, VgicIrq.config (f d) = g d.config) (h : Q { m with core := s }) :
    Q { m with core := s.configIrq m.env v i f } := K.config hf h

theorem writeIrqPriority (h : Q m) :
    Q (m.modCore fun e s => s.writeIrqPriority e v irqBase size value) :=
  List.foldlRecOn (motive := fun s => Q { m with core := s }) _ _ h fun _ hs byte _ =>
    K.configIrq (fun x => { x with priority := (byteAt value byte).toNat }) (fun _ => rfl) hs

theorem writeIrqConfig (h : Q m) : Q (m.modCore fun e s => s.writeIrqConfig e v irqBase val) := by
  have hlevel : ∀ {s} i b, Q { m with core := s } →
      Q { m with core := s.configIrq m.env v i fun d => { d with level := b } } :=
    fun _ b => K.configIrq (fun x => { x with level := b }) fun _ => rfl
  refine List.foldlRecOn (motive := fun s => Q { m with core := s }) _ _ h ?_
  intro s hs idx _
  rw [Core.configTrigger]
  split
  · exact hs
  split
  · exact hlevel _ _ hs
  · split
    · exact hlevel _ _ hs
    · exact hs

theorem writeIrqBits {r : IrqBitReg} (h : Q m) : Q (m.writeIrqBits v irqBase r val) := by
  have hstate : ∀ {s s'}, s'.spiConfig = s.spiConfig → Q { m with core := s } →
      Q { m with core := s' } := fun heq hs =>
    K.kept hs ⟨.refl _, heq, fun _ _ _ => rfl, rfl⟩
  have henable : ∀ {s} i b, Q { m with core := s } →
      Q { m with core := s.setEnabled m.env v i b } :=
    fun _ b => K.configIrq (fun x => { x with enabled := b }) fun _ => rfl
  refine List.foldlRecOn (motive := fun s => Q { m with core := s }) _ _ h ?_
  intro s hs bit _
  split
  · cases r with
    | isenabler | icenabler => exact henable _ _ hs
    | igroupr | igrpmodr => exact hs
    | _ => exact hstate (by simp [Core.writeIrqBit]) hs
  · exact hs

/-! ### The distributor -/

theorem writeIrqTarget
    (hask : ∀ byte < size, ask (irqBase + byte) (Vm.targetOfMask (byteAt value byte)))
    (h : Q m) : Q (m.writeIrqTarget irqBase size value) :=
  List.foldlRecOn (motive := Q) _ _ h fun _ hm byte hb =>
    K.target (hask byte (List.mem_range.mp hb)) hm

theorem flushAll (h : Q m) : Q (m.flushAll v) := K.kept h .flushAll

theorem gicdAccess (hin : addrInRange req.address cfg.gicdBase cfg.gicdSize = true)
    (hask : ∀ i t, req.Asks cfg i t → ask i t) (hroute : req.WritesRouter cfg → route)
    (h : Q m) : Q (m.gicdAccess cfg v req).vm := by
  have hwr : req.dir = .write → req.writesGicd cfg = true := by
    intro hd
    rw [Mmio.writesGicd, hin, hd]
    rfl
  refine Vm.gicdAccess_rule h (fun _ _ _ _ => K.flushAll (K.writeIrqBits h))
    (fun _ => K.flushAll (K.writeIrqConfig h)) (fun _ => K.flushAll (K.writeIrqPriority h))
    (fun _ => K.flushAll (K.kept h ⟨⟨rfl, rfl, rfl, rfl, rfl⟩, rfl, fun _ _ _ => rfl, rfl⟩))
    ?_ ?_
  · intro hd h1 h2
    refine K.flushAll (K.writeIrqTarget (fun byte hb => hask _ _ ?_) h)
    refine ⟨hwr hd, h1, h2, by omega, by omega, ?_⟩
    rw [Nat.add_sub_cancel_left]
  · intro virq upper hd hdec
    have hspi := decodeIrouterReg_spi hdec
    exact K.flushAll (K.irouter (hroute ⟨hwr hd, by rw [hdec]; rfl⟩) hspi h)

/-! ### The redistributors and the ITS -/

theorem flushTarget {t : Option Vid} (h : Q m) : Q (m.flushTarget v t) := by
  cases t with
  | none => exact h
  | some t =>
    have hflush : m.SpiKept (m.modCore fun e s => s.flushVcpu e (some v) (t == v) t) :=
      .modCore (by simp)
    exact K.kept h hflush

theorem gicrAccess (h : Q m) : Q (m.gicrAccess cfg v req).vm :=
  Vm.gicrAccess_rule h (fun _ _ h => K.flushTarget h) (fun _ _ => K.writeIrqBits h)
    (fun _ _ => K.writeIrqConfig h) (fun _ _ => K.writeIrqPriority h) fun _ _ _ _ =>
      K.kept h ⟨⟨rfl, rfl, rfl, rfl, rfl⟩, rfl, fun _ _ _ => rfl, rfl⟩

/-! ### The whole access -/

section

variable (hask : ∀ w ∈ req.words, ∀ i t, w.Asks cfg i t → ask i t)
  (hroute : ∀ w ∈ req.words, w.WritesRouter cfg → route) (h : Q m)

include hask hroute h

theorem mmioAccess : Q (m.mmioAccess cfg mem lines v req).vm :=
  Vm.mmioAccess_rule h (fun w hw _ hin h => K.gicdAccess hin (hask w hw) (hroute w hw) h)
    (fun _ _ _ h => K.gicrAccess h) fun _ _ _ _ h => K.kept h .itsFlushed

theorem mmioHandler : Q (m.mmioHandler cfg mem lines v req).vm := by
  have hsync : Q (m.modCore fun e s => s.syncVcpu e (lines 0) (some v) true v) :=
    K.kept h (.modCore (by simp))
  have hacc : Q ((m.modCore fun e s => s.syncVcpu e (lines 0) (some v) true v).mmioAccess cfg
      mem (fun n => lines (n + 1)) v req).vm := K.mmioAccess hask hroute hsync
  have hflush : ∀ m : Vm, m.SpiKept (m.modCore fun e s => s.flushVcpu e (some v) true v) :=
    fun _ => .modCore (by simp)
  rw [Vm.mmioHandler]
  split
  · exact K.kept hacc (hflush _)
  · exact hacc

end

omit K

end SpiClosed

end Sima.Vgic
