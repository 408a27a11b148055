import Sima.Lib.Trace
import Sima.Vgic.Mmio

/-!
# The interrupt controller as a transition system

One step is one stretch of code under the VM's vGIC lock, one leg of a context
switch — those take no lock — or one transition of a list register that the
hardware makes while the guest runs. Any physical CPU may take the next step, so
a run is any interleaving.

The switch of a vCPU is cut where another physical CPU can tell the difference:
the hardware is loaded before the scheduler names the vCPU, and emptied before it
names the next one. What runs on the vCPU's own physical CPU while it is between
`off` and `running` is only the switch.

The guest takes a pending interrupt and ends an active one. A trapped access to a
register is a step of the hypervisor; an untrapped one changes the CPU interface
under it, but not the list registers.
-/

namespace Sima.Vgic

open Lib

inductive Label where
  /-- `arm64_vgicv3_inject_irq` -/
  | inject (c : Caller) (v : Vid) (virq : Nat) (level : Bool)
  /-- `arm64_vgicv3_inject_irq_to`, one target of an SGI -/
  | injectTo (c : Caller) (t : Vid) (virq : Nat) (level : Bool)
  /-- `arm64_vgicv3_inject_msi` -/
  | injectMsi (c : Caller) (deviceId eventId : Nat)
  | clear (c : Caller) (v : Vid) (virq : Nat)
  | deassert (c : Caller) (v : Vid) (virq : Nat)
  | mmio (v : Vid) (req : Mmio)
  | cpuif (v : Vid) (r : Core.Sysreg) (val : BitVec 64)
  /-- The maintenance interrupt, or the requests before a guest entry. -/
  | service (v : Vid)
  | timerLine (v : Vid) (level : Bool)
  | refreshLevel (v : Vid) (virq : Nat)
  | completeWfi (v : Vid)
  | hasPending (c : Caller) (v : Vid)
  | flush (c : Caller) (v : Vid)
  | flushCurrent (v : Vid)
  | load (v : Vid)
  | enter (v : Vid)
  /-- The last timer-line sync of a vCPU that is switched out. -/
  | stop (v : Vid) (level : Bool)
  | save (v : Vid)
  | leave (v : Vid)
  | reset (v : Vid)
  | ack (v : Vid) (virq : Nat)
  | eoi (v : Vid) (virq : Nat)
  | regs (v : Vid)

/-- The physical CPU is not in the middle of switching a vCPU of this VM. -/
def CallerOk (e : Env) : Caller → Prop
  | none => True
  | some w => e.phase w = .off ∨ e.phase w = .running

instance (e : Env) : (c : Caller) → Decidable (CallerOk e c)
  | none => inferInstanceAs (Decidable True)
  | some _ => inferInstanceAs (Decidable (_ ∨ _))

namespace Vm

def setPhase (m : Vm) (v : Vid) (p : Phase) : Vm :=
  { m with env := { m.env with phase := Function.update m.env.phase v p } }

/-- The guest takes the interrupt in a slot. -/
def ackSlot (v : Vid) (idx : Nat) (s : Core) : Core :=
  s.modIch v fun h => { h with lr := Function.update h.lr idx { h.lr idx with state := .active } }

/-- The guest ends the interrupt in a slot; one that is pending again stays. -/
def eoiSlot (v : Vid) (idx : Nat) (s : Core) : Core :=
  s.modIch v fun h =>
    { h with
      lr := Function.update h.lr idx
        { h.lr idx with
          state := if (h.lr idx).state.isPending then .pending else .invalid } }

end Vm

/-- The steps. `v` is a vCPU of the VM; what the timer samples read and what guest
memory holds is anything. -/
inductive Step (cfg : GicConfig) : Label → Vm → Vm → Prop where
  | inject {m : Vm} {c v virq level} (line : Samples) : CallerOk m.env c →
      v < m.env.vcpuCount → virq < irqNum →
      Step cfg (.inject c v virq level) m (m.modCore fun e s =>
        s.injectLocked e line c (m.irqTargetVcpu v virq) virq level)
  | injectTo {m : Vm} {c t virq level} (line : Samples) : CallerOk m.env c →
      t < m.env.vcpuCount → virq < sgiNum →
      Step cfg (.injectTo c t virq level) m (m.modCore fun e s =>
        s.injectLocked e line c t virq level)
  | injectMsi {m : Vm} {c deviceId eventId} (line : Samples) : CallerOk m.env c →
      m.env.itsEnabled = true →
      Step cfg (.injectMsi c deviceId eventId) m (m.injectFound line c deviceId eventId)
  | clear {m : Vm} {c v virq} (line : Samples) : CallerOk m.env c →
      v < m.env.vcpuCount →
      Step cfg (.clear c v virq) m (m.modCore fun e s => s.clearIrq e line c v virq)
  | deassert {m : Vm} {c v virq} (line : Samples) : CallerOk m.env c →
      v < m.env.vcpuCount →
      Step cfg (.deassert c v virq) m (m.modCore fun e s => s.deassertIrq e line c v virq)
  | mmio {m : Vm} {v req} (mem : Vm.GuestMem) (lines : Nat → Samples) :
      v < m.env.vcpuCount → m.env.phase v = .running →
      Step cfg (.mmio v req) m (m.mmioHandler cfg mem lines v req).vm
  | cpuif {m : Vm} {v r val} (line : Samples) :
      v < m.env.vcpuCount → m.env.phase v = .running →
      Step cfg (.cpuif v r val) m (m.modCore fun e s => s.cpuifWrite e line v r val)
  | service {m : Vm} {v} (line : Samples) :
      v < m.env.vcpuCount → m.env.phase v = .running →
      Step cfg (.service v) m (m.modCore fun e s => s.syncFlush e line v)
  | timerLine {m : Vm} {v level} (line : Samples) :
      v < m.env.vcpuCount → m.env.phase v = .running →
      Step cfg (.timerLine v level) m (m.modCore fun e s => s.syncCurrentTimerLine e line v level)
  | refreshLevel {m : Vm} {v virq} (line : Samples) :
      v < m.env.vcpuCount → m.env.phase v = .running →
      Step cfg (.refreshLevel v virq) m (m.modCore fun e s =>
        s.refreshCurrentLevelIrq e line v virq)
  | completeWfi {m : Vm} {v} (line : Samples) :
      v < m.env.vcpuCount → m.env.phase v = .running →
      Step cfg (.completeWfi v) m (m.modCore fun e s => s.completeWfiIrqs e line v)
  | hasPending {m : Vm} {c v} : CallerOk m.env c → v < m.env.vcpuCount →
      Step cfg (.hasPending c v) m (m.modCore fun e s => (s.hasPendingIrq e c v).2)
  | flush {m : Vm} {c v} : CallerOk m.env c → v < m.env.vcpuCount →
      Step cfg (.flush c v) m (m.modCore fun e s => s.flushVcpu e c false v)
  | flushCurrent {m : Vm} {v} : v < m.env.vcpuCount → m.env.phase v = .running →
      Step cfg (.flushCurrent v) m (m.modCore fun e s => s.flushVcpu e (some v) true v)
  | load {m : Vm} {v} : v < m.env.vcpuCount → m.env.phase v = .off →
      Step cfg (.load v) m ((m.modCore fun e s => s.loadVcpu e v).setPhase v .loading)
  | enter {m : Vm} {v} : v < m.env.vcpuCount → m.env.phase v = .loading →
      Step cfg (.enter v) m (m.setPhase v .running)
  | stop {m : Vm} {v level} (line : Samples) :
      v < m.env.vcpuCount → m.env.phase v = .running →
      Step cfg (.stop v level) m ((m.modCore fun e s =>
        s.syncCurrentTimerLine e line v level).setPhase v .stopping)
  | save {m : Vm} {v} : v < m.env.vcpuCount → m.env.phase v = .stopping →
      Step cfg (.save v) m ((m.modCore fun e s => s.saveVcpu e v).setPhase v .saved)
  | leave {m : Vm} {v} : v < m.env.vcpuCount → m.env.phase v = .saved →
      Step cfg (.leave v) m (m.setPhase v .off)
  | reset {m : Vm} {v} : v < m.env.vcpuCount →
      Step cfg (.reset v) m (m.modCore fun e s => s.resetVcpuBootState e v)
  | ack {m : Vm} {v virq idx : Nat} : v < m.env.vcpuCount → m.env.phase v = .running →
      idx < m.env.lrCount → ((m.core.ich v).lr idx).state = .pending →
      ((m.core.ich v).lr idx).vintid = virq →
      Step cfg (.ack v virq) m (m.modCore fun _ s => Vm.ackSlot v idx s)
  | eoi {m : Vm} {v virq idx : Nat} : v < m.env.vcpuCount → m.env.phase v = .running →
      idx < m.env.lrCount → ((m.core.ich v).lr idx).state.isActive = true →
      ((m.core.ich v).lr idx).vintid = virq →
      Step cfg (.eoi v virq) m (m.modCore fun _ s => Vm.eoiSlot v idx s)
  | regs {m : Vm} {v} (h : CpuIf) : v < m.env.vcpuCount → m.env.phase v = .running →
      h.lr = (m.core.ich v).lr →
      Step cfg (.regs v) m (m.modCore fun _ s => s.modIch v fun _ => h)

/-! ## The start -/

/-- What the platform and the VM's configuration fix: the vCPU rows the tables
have, the physical CPUs the VM is given, `ICH_VTR_EL2`, and whether there is an
ITS. -/
structure Board where
  maxVcpus : Nat
  maxVcpus_pos : 0 < maxVcpus
  pcpus : Nat
  vtr : BitVec 64
  itsEnabled : Bool

/-- `arm64_vgicv3_global_init`: never more list registers than a context holds. -/
def Board.lrCount (b : Board) : Nat := min ((b.vtr &&& 0x1f).toNat + 1) maxLrs

def Board.vcpuCount (b : Board) : Nat := max (min b.pcpus b.maxVcpus) 1

theorem Board.vcpuCount_le (b : Board) : b.vcpuCount ≤ b.maxVcpus := by
  have := b.maxVcpus_pos
  rw [vcpuCount]
  omega

def Core.init : Core where
  irq := fun _ virq =>
    if isLpi virq then { virq := virq, enabled := true, level := false }
    else { virq := virq, level := decide (sgiNum ≤ virq) }
  pendingBitmap := fun _ _ => 0
  lpiPendingBitmap := fun _ _ => 0
  ctx := fun _ => Core.initCtx
  ich := fun _ => {}

/-- The VM once `arm64_vgicv3_init_vm` has run and all its vCPUs are created. -/
def Board.start (b : Board) : Vm where
  env :=
    { maxVcpus := b.maxVcpus
      vcpuCount := b.vcpuCount
      createdVcpus := b.vcpuCount
      lrCount := b.lrCount
      itsEnabled := b.itsEnabled
      gicdCtlr := ctlrAreNs ||| ctlrEnableG1
      gicrCtlr := fun _ => 0
      phase := fun _ => .off }
  core := Core.init
  target := fun v virq => if virq < localIrqNum ∨ isLpi virq = true then v else 0
  spiRouter := fun _ => 0
  rdistCount := b.vcpuCount
  rdistVcpu := fun v => if v < b.vcpuCount then some v else none
  gicrWaker := fun _ => 0
  gicrPropbaser := fun _ => 0
  gicrPendbaser := fun _ => 0
  its := Its.init b.vcpuCount

/-- Every run from the start. -/
def Reachable (cfg : GicConfig) (b : Board) (m : Vm) : Prop :=
  ∃ tr, GuardedRun (Step cfg) (fun _ _ => True) b.start tr m

end Sima.Vgic
