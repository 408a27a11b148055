import Mathlib.Data.Nat.Basic
import Sima.Lib.Bitmap
import Sima.Lib.Slots

/-!
# The virtual GICv3: descriptors, list registers, CPU interfaces

The state that `vgicv3.c` works on, cut along who writes it. `Core` is what
delivery changes: the interrupt descriptors of every vCPU with the bitmap that
indexes the pending ones, the saved list-register context of every vCPU, and the
list registers of the physical CPU interface it runs on. `Env` is what delivery
only reads — the counts fixed when the VM is made, the distributor and
redistributor control registers, and how far each vCPU is through being switched
in or out.

A VM's vCPUs live on different physical CPUs and stay there, so the CPU interface
a vCPU uses is indexed by the vCPU. Between `load` and `save` its list registers
are the ones in the hardware; the copy in the context is then the last one that
was read back or written out. The physical CPU a function runs on matters only
through the vCPU that lives there: `some v`, or `none` for a CPU that is home to
no vCPU of this VM.

The VM is taken from the time all its vCPUs are created to the time it is torn
down, so no vCPU is `VCPU_OFFLINE` and `initialized` holds throughout.
-/

namespace Sima.Vgic

open Lib
open Function (update)

abbrev Vid := Nat

abbrev Caller := Option Vid

def maxLrs : Nat := 8
def sgiNum : Nat := 16
def localIrqNum : Nat := 32
def irqNum : Nat := 1024
def irqWords : Nat := 32
def lpiBase : Nat := 8192
def lpiNum : Nat := 256
def lpiWords : Nat := 8
def ppiVirtualTimer : Nat := 27
def gicPriorityDefault : Nat := 0x80

def ichHcrEn : BitVec 64 := 0x1
def ichHcrUie : BitVec 64 := 0x2
def ichHcrTc : BitVec 64 := 0x400
def ichHcrEoicountMask : BitVec 64 := 0xf8000000
def ichVmcrVeng1 : BitVec 64 := 0x2
def ichVmcrEoim : BitVec 64 := 0x200
def ichVmcrPriorityMask : BitVec 64 := 0xff000000
def ichVmcrDefaultMask : BitVec 64 := 0xf8000000
def iccSreSre : BitVec 64 := 0x1
def iccCtlrEoimode : BitVec 64 := 0x2
def gicPriorityLowest : BitVec 64 := 0xff
def ctlrEnableG1 : BitVec 32 := 0x2
def ctlrAreNs : BitVec 32 := 0x20
def gicrCtlrEnableLpis : BitVec 32 := 0x1

def hasBits {w : Nat} (r m : BitVec w) : Bool := r &&& m != 0#w

variable {w : Nat}

theorem hasBits_or (r : BitVec w) {m : BitVec w} (hm : m ≠ 0#w) : hasBits (r ||| m) m = true := by
  have hself : (r ||| m) &&& m = m := by
    ext i
    simpa using .inr
  rw [hasBits, hself, bne_iff_ne]
  exact hm

theorem hasBits_clear (r m : BitVec w) : hasBits (r &&& ~~~m) m = false := by
  have hzero : r &&& ~~~m &&& m = 0#w := by
    ext i
    simp
  rw [hasBits, hzero, bne_self_eq_false]

/-! ## List registers -/

inductive LrState where
  | invalid | pending | active | activePending
deriving DecidableEq, Repr

namespace LrState

def isPending : LrState → Bool
  | pending | activePending => true
  | invalid | active => false

def isActive : LrState → Bool
  | active | activePending => true
  | invalid | pending => false

end LrState

/-- The fields of an `ICH_LR<n>_EL2`. -/
structure Lr where
  vintid : Nat := 0
  pintid : Nat := 0
  priority : Nat := 0
  group1 : Bool := false
  hw : Bool := false
  eoi : Bool := false
  state : LrState := .invalid
deriving DecidableEq, Repr

/-- A valid list register of the interrupt. -/
def Lr.Of (virq : Nat) (lr : Lr) : Prop := lr.state ≠ .invalid ∧ lr.vintid = virq

/-- One that the guest has yet to take. -/
def Lr.PendingOf (virq : Nat) (lr : Lr) : Prop :=
  lr.state.isPending = true ∧ lr.vintid = virq

theorem Lr.PendingOf.of {virq : Nat} {lr : Lr} (h : lr.PendingOf virq) : lr.Of virq := by
  refine ⟨?_, h.2⟩
  intro he
  have := h.1
  rw [he] at this
  exact absurd this (by decide)

/-- `struct arm64_vgicv3_vcpu_ctx`; `lrs` is `lr[]` with `used_lrs`. -/
structure Ctx where
  lrs : Slots Lr
  ap0r0 : BitVec 64 := 0
  ap1r0 : BitVec 64 := 0
  vmcr : BitVec 64
  hcr : BitVec 64
  sre : BitVec 64
  pmr : BitVec 64
  ctlr : BitVec 64

/-- The virtual CPU interface registers of one physical CPU. -/
structure CpuIf where
  lr : Nat → Lr := fun _ => {}
  ap0r0 : BitVec 64 := 0
  ap1r0 : BitVec 64 := 0
  vmcr : BitVec 64 := 0
  hcr : BitVec 64 := 0
  sre : BitVec 64 := 0

/-- The implemented list registers, all of them in use as far as the hardware is
concerned. -/
def CpuIf.table (h : CpuIf) (count : Nat) : Slots Lr := ⟨h.lr, count⟩

/-- Bit `idx` of `ICH_EISR_EL2`: an end of interrupt that asked for maintenance
and has not been seen to. -/
def CpuIf.eisr (h : CpuIf) (count idx : Nat) : Bool :=
  decide (idx < count) && (h.lr idx).state == .invalid && (h.lr idx).eoi && !(h.lr idx).hw

/-! ## Descriptors -/

/-- `struct arm64_vgic_irq`; the target of an SPI is kept with the routing. -/
structure VgicIrq where
  virq : Nat
  pirq : Nat := 0xffff
  priority : Nat := gicPriorityDefault
  enabled : Bool := false
  pending : Bool := false
  active : Bool := false
  level : Bool
  hw : Bool := false
deriving DecidableEq, Repr

def isSpi (virq : Nat) : Bool := decide (localIrqNum ≤ virq) && decide (virq < irqNum)

def isLpi (virq : Nat) : Bool :=
  decide (lpiBase ≤ virq) && decide (virq < lpiBase + lpiNum)

def isVtimer (virq : Nat) : Bool := virq == ppiVirtualTimer

def irqConfigurable (virq : Nat) : Bool :=
  decide (sgiNum ≤ virq) && virq != ppiVirtualTimer

def makeLrState (d : VgicIrq) (pending active : Bool) : Lr :=
  { vintid := d.virq
    pintid := if d.hw then d.pirq else 0
    priority := d.priority
    group1 := true
    hw := d.hw
    -- software edges and the virtual timer report completion from the start
    eoi := !d.hw && (active || !d.level || d.virq == ppiVirtualTimer)
    state := match active, pending with
      | true, true => .activePending
      | true, false => .active
      | false, true => .pending
      | false, false => .invalid }

def makeLr (d : VgicIrq) : Lr := makeLrState d d.pending d.active

@[simp] theorem makeLrState_isPending (d : VgicIrq) (p a : Bool) :
    (makeLrState d p a).state.isPending = p := by
  cases p <;> cases a <;> rfl

theorem makeLrState_valid {d : VgicIrq} {p a : Bool} :
    (makeLrState d p a).state ≠ .invalid ↔ p = true ∨ a = true := by
  cases p <;> cases a <;> simp [makeLrState]

/-! ## The state -/

/-- How far a vCPU is through a switch on its physical CPU: `load` fills the
hardware before the scheduler names the vCPU, and `save` empties it before the
scheduler names another. `stopping` is the stretch of a switch out between the
last timer-line sync and `save`. -/
inductive Phase where
  | off | loading | running | stopping | saved
deriving DecidableEq, Repr

namespace Phase

/-- The list registers of the vCPU are the ones in the hardware. -/
def live : Phase → Bool
  | loading | running | stopping => true
  | off | saved => false

/-- `get_running_vcpu` of its physical CPU is the vCPU. -/
def curr : Phase → Bool
  | running | stopping | saved => true
  | off | loading => false

end Phase

structure Env where
  maxVcpus : Nat
  vcpuCount : Nat
  createdVcpus : Nat
  lrCount : Nat
  itsEnabled : Bool
  gicdCtlr : BitVec 32
  gicrCtlr : Nat → BitVec 32
  phase : Vid → Phase

/-- `irq v virq` is the descriptor of an INTID in a vCPU's row: `vgic->irq[v]`
for the SGIs, PPIs and SPIs, `vgic->lpi[v]` for the LPIs. -/
structure Core where
  irq : Vid → Nat → VgicIrq
  pendingBitmap : Vid → Bitmap
  lpiPendingBitmap : Vid → Bitmap
  ctx : Vid → Ctx
  ich : Vid → CpuIf

namespace Env

def vcpuIsLoaded (e : Env) (c : Caller) (v : Vid) : Bool :=
  c == some v && (e.phase v).curr

def vcpuIsRunningRemote (e : Env) (c : Caller) (v : Vid) : Bool :=
  c != some v && (e.phase v).curr

/-- `vgic_irq_desc` finds a descriptor. -/
def hasDesc (e : Env) (v : Vid) (virq : Nat) : Bool :=
  decide (v < e.maxVcpus) && (decide (virq < irqNum) || e.itsEnabled && isLpi virq)

end Env

namespace Core

section

variable (s : Core) (v : Vid) (virq : Nat) (b : Bool)

def modIrq (f : VgicIrq → VgicIrq) : Core :=
  { s with
    irq := update s.irq v (update (s.irq v) virq (f (s.irq v virq))) }

def modCtx (f : Ctx → Ctx) : Core :=
  { s with ctx := update s.ctx v (f (s.ctx v)) }

def modLrs (f : Slots Lr → Slots Lr) : Core :=
  s.modCtx v fun c => { c with lrs := f c.lrs }

def modIch (f : CpuIf → CpuIf) : Core :=
  { s with ich := update s.ich v (f (s.ich v)) }

def setActive : Core :=
  s.modIrq v virq fun d => { d with active := b }

/-- The bit that stands for an INTID in its bitmap. -/
def markPending : Core :=
  if isLpi virq then
    { s with
      lpiPendingBitmap := update s.lpiPendingBitmap v
        ((s.lpiPendingBitmap v).put (virq - lpiBase) b) }
  else
    { s with
      pendingBitmap := update s.pendingBitmap v ((s.pendingBitmap v).put virq b) }

/-- `vgic_set_pending`; which bit goes with the descriptor is read off its own
INTID. -/
def setPending : Core :=
  (s.modIrq v virq fun d => { d with pending := b }).markPending v (s.irq v virq).virq b

def irqDeliverable (e : Env) (s : Core) (v : Vid) (d : VgicIrq) : Bool :=
  hasBits e.gicdCtlr ctlrEnableG1 && hasBits (s.ctx v).vmcr ichVmcrVeng1 &&
    d.enabled &&
    (!isLpi d.virq || decide (v < e.maxVcpus) && hasBits (e.gicrCtlr v) gicrCtlrEnableLpis)

/-! ## The list registers of a context -/

def findLrForVirq : Option Nat :=
  (s.ctx v).lrs.find fun lr => lr.state != .invalid && lr.vintid == virq

def removeLr (idx : Nat) : Core :=
  s.modLrs v fun t => t.remove {} idx

/-- What a descriptor makes of a list register it already has. -/
def refreshLr (d : VgicIrq) (idx : Nat) (t : Slots Lr) : Slots Lr :=
  if d.enabled && d.pending || d.active then
    t.set idx (makeLrState d (d.enabled && d.pending) d.active)
  else t.remove {} idx

/-- `vgic_update_irq_lr`. -/
def updateIrqLr : Core :=
  match s.findLrForVirq v (s.irq v virq).virq with
  | some idx => s.modLrs v (refreshLr (s.irq v virq) idx)
  | none => s

end

def updateIrqRowLr (e : Env) (s : Core) (v : Vid) (virq : Nat) : Core :=
  if v < e.createdVcpus then s.updateIrqLr v virq else s

end Core

/-! ## Between the context and the hardware -/

def controlHcr (hcr : BitVec 64) : BitVec 64 :=
  hcr &&& ~~~(ichHcrEoicountMask ||| ichHcrTc) ||| ichHcrEn

/-- `vgicv3_write_lrs`: unused slots are written as zero. -/
def writeLrs (count : Nat) (c : Ctx) (h : CpuIf) : CpuIf :=
  { h with
    lr := fun idx =>
      if idx < count then (if idx < c.lrs.used then c.lrs.slot idx else {})
      else h.lr idx }

/-- `vgicv3_write_lrs_hcr`. -/
def writeLrsHcr (count : Nat) (c : Ctx) (h : CpuIf) : CpuIf :=
  { writeLrs count c h with hcr := controlHcr c.hcr }

/-- One past the last valid list register among the first `count`. -/
def lastValid (lr : Nat → Lr) : Nat → Nat
  | 0 => 0
  | idx + 1 => if (lr idx).state = .invalid then lastValid lr idx else idx + 1

/-- `vgicv3_read_lrs`. -/
def readLrs (count : Nat) (h : CpuIf) (c : Ctx) : Ctx :=
  { c with
    lrs :=
      { slot := fun idx => if idx < count then h.lr idx else c.lrs.slot idx
        used := lastValid h.lr count } }

/-- `vgicv3_sync_live_cpuif`. -/
def syncLiveCpuif (h : CpuIf) (c : Ctx) : Ctx :=
  { c with
    vmcr := h.vmcr
    pmr := (h.vmcr &&& ichVmcrPriorityMask) >>> 24
    ctlr := if hasBits h.vmcr ichVmcrEoim then iccCtlrEoimode else 0
    sre := h.sre }

end Sima.Vgic
