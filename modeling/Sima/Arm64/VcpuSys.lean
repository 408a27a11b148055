import Sima.Arm64.Vcpu
import Sima.Lib.Trace
import Sima.Sched.Asleep

/-!
# The vCPU threads

Every vCPU is a thread of its pCPU. This module follows all of them through
`arch_vcpu_thread`, the guest, the dispatch of an exit and the PSCI calls, and
takes the code apart wherever another pCPU can act in between: CPU_ON tests the
state of its target, prepares the context, writes the state and wakes the thread
without a lock, and a vCPU that goes off writes its state, falls asleep and
switches away one after the other.

A thread takes a step only while it is the current one of its pCPU. What the
guest does is arbitrary. So are the interrupts that arrive, the requests that
other pCPUs make, what the remaining threads do, and the two things that
`vcpu_forward_progress_blocks_reschedule` learns from the interrupt controller
and from guest memory.

The vCPUs go off by their own doing. `pause_vm`, which stops them from outside,
and the tearing down of a VM are not steps here, and a VM is started once.
-/

namespace Sima.Arm64

open Sched
open Function (update)

/-- What stays: the vCPUs of each VM in the order of their ids, where they run,
and the configuration that the code looks up. -/
structure Board where
  isVcpu : Tid → Bool
  pcpuOf : Tid → Nat
  vmOf : Tid → Nat
  vcpus : Nat → List Tid
  vmpidr : Tid → Reg
  linux : Nat → Bool
  rootStg2 : Nat → Reg
  timeDelta : Nat → Reg
  staticVfdt : Bool
  kernelEntry : Nat → Reg
  fdtAddr : Nat → Reg
  mem_vcpus : ∀ {v vm}, v ∈ vcpus vm ↔ isVcpu v = true ∧ vmOf v = vm

/-- Why a vCPU stops itself. -/
inductive OffReason where
  /-- CPU_OFF, or one of the SYSTEM calls. -/
  | psci (system advance : Bool)
  /-- An exit that could not be handled. -/
  | fatal
deriving DecidableEq, Repr

/-- Where the thread of a vCPU stands. -/
inductive VcpuPc where
  /-- The condition of the loop in `arch_vcpu_thread`. -/
  | entry
  /-- At EL1, with these registers. -/
  | guest (frame : CpuRegs)
  /-- In `vcpu_exit_handler`. -/
  | handler
  /-- In `handle_psci_cpu_on`, which found that `target` is not RUNNING. -/
  | preparing (target : Tid) (advance : Bool)
  /-- Before the state is written in `launch_vcpu`. -/
  | launching (target : Tid) (entry ctx : Reg) (advance : Bool)
  /-- Before `wake_thread` in `launch_vcpu`. -/
  | waking (target : Tid) (entry ctx : Reg) (advance : Bool)
  /-- Before `sleep_thread` in `zombie_vcpu`. -/
  | offSleep (why : OffReason)
  /-- At the end of `handle_psci64`. -/
  | psciEnd (ret : Reg) (advance : Bool)
  /-- The first test of `schedule_without_guest_resume`. -/
  | clearing
  /-- The second test. -/
  | deciding
  /-- Before `arm64_process_vcpu_requests`. -/
  | requests
  /-- Before the guest frame is restored. -/
  | resuming
  /-- Behind the loop of `arch_vcpu_thread`. -/
  | endSleep
  | endSchedule
  | spinning

/-- Where `zombie_vcpu` returns to. -/
def OffReason.next : OffReason → VcpuPc
  | psci _ advance => .psciEnd PSCI_RET_SUCCESS advance
  | fatal => .clearing

structure VcpuSys (σ : Type) where
  pcpu : Nat → Pcpu σ
  /-- The EL1 system registers of each pCPU. -/
  el1 : Nat → El1Regs
  vcpu : Tid → Vcpu
  pc : Tid → VcpuPc
  /-- The VM is VM_RUNNING, and no longer VM_CREATED. -/
  started : Nat → Bool
  /-- `arm64_vgicv3_pending_irq_blocks_reschedule`. -/
  irqBlocks : Tid → Bool
  /-- The preempt count in guest memory, if it can be read. -/
  preemptCount : Tid → Option (BitVec 32)

variable {σ : Type}

namespace VcpuSys

section

variable (B : Board) (s : VcpuSys σ) (n : Nat) (v : Tid)

def goto (pc : VcpuPc) : VcpuSys σ :=
  { s with pc := update s.pc v pc }

def edit (f : Vcpu → Vcpu) : VcpuSys σ :=
  { s with vcpu := update s.vcpu v (f (s.vcpu v)) }

def setPcpu (p : Pcpu σ) : VcpuSys σ :=
  { s with pcpu := update s.pcpu n p }

def setEl1 (e : El1Regs) : VcpuSys σ :=
  { s with el1 := update s.el1 n e }

/-- The pCPU of a vCPU. -/
def home : Pcpu σ := s.pcpu (B.pcpuOf v)

/-- The thread of the vCPU executes. -/
def Runs : Prop :=
  B.isVcpu v = true ∧ (s.home B v).ctl.currObj = some v

/-! ## The pieces of the steps -/

/-- `arch_context_switch_out`: `unload_vcpu` saves the EL1 registers. -/
def unload (t : Tid) (s : VcpuSys σ) : VcpuSys σ :=
  if B.isVcpu t then
    s.edit t fun v =>
      { v with gctx := { v.gctx with el1 := saveEl1Sysregs (s.el1 n) v.gctx.el1 } }
  else s

/-- `arch_context_switch_in`: `load_vcpu` restores them. -/
def load (t : Tid) (s : VcpuSys σ) : VcpuSys σ :=
  if B.isVcpu t then s.setEl1 n (restoreEl1Sysregs (s.vcpu t).gctx.el1 (s.el1 n)) else s

/-- `schedule` on pCPU `n`, with the hooks of the threads that it switches
between. -/
def schedule (S : AcrnScheduler σ) (n : Nat) (ticks : Nat → Nat) (s : VcpuSys σ) : VcpuSys σ :=
  let p' := Sched.schedule S ticks (s.pcpu n)
  match (s.pcpu n).ctl.currObj, p'.ctl.currObj with
  | some prev, some next =>
    if prev = next then s.setPcpu n p'
    else ((s.unload B n prev).load B n next).setPcpu n p'
  | _, _ => s.setPcpu n p'

def psciTargetVcpu (vm : Nat) (mpidr : Reg) : Option Tid :=
  (B.vcpus vm).find? fun t =>
    (s.vcpu t).state != .offline && B.vmpidr t == mpidr &&& MPIDR_AFFINITY_MASK

/-- The calls of `handle_psci64` that only compute a result. -/
def psciValue : Option Reg :=
  let r := (s.vcpu v).regs
  let target := s.psciTargetVcpu B (B.vmOf v) (r.x 1)
  match psciFn (r.x 0) with
  | .version => some 0x00010000
  | .features => some (handlePsciFeatures (r.x 1))
  | .migrateInfoType => some PSCI_0_2_TOS_MP
  | .affinityInfo =>
    match target with
    | some t =>
      if (s.vcpu t).state = .running then some PSCI_AFFINITY_LEVEL_ON
      else some PSCI_AFFINITY_LEVEL_OFF
    | none => some PSCI_AFFINITY_LEVEL_OFF
  | .cpuOn =>
    match target with
    | some t => if (s.vcpu t).state = .running then some PSCI_RET_DENIED else none
    | none => some PSCI_RET_INVALID_PARAMS
  | .unknown => some PSCI_RET_NOT_SUPPORTED
  | .cpuOff | .system => none

def sampleGuestLinuxPreemptCount : Option (BitVec 32) :=
  if B.linux (B.vmOf v) && (s.vcpu v).regs.spsr &&& 0xf == 0x5 &&
      s.el1 (B.pcpuOf v) .spEl0 != 0 then
    s.preemptCount v
  else none

def LINUX_PREEMPT_MASK : BitVec 32 := 0x000000ff
def LINUX_IRQ_CONTEXT_MASK : BitVec 32 := 0x0000ff00 ||| 0x000f0000 ||| 0x00f00000

/-- `vcpu_guest_irq_context_blocks_reschedule`. -/
def guestIrqContextBlocksReschedule : Bool :=
  match s.sampleGuestLinuxPreemptCount B v with
  | none => false
  | some count =>
    if count &&& LINUX_IRQ_CONTEXT_MASK != 0 then true
    else if count &&& LINUX_PREEMPT_MASK != 0 then s.irqBlocks v
    else false

/-- `vcpu_forward_progress_blocks_reschedule`. -/
def forwardProgressBlocksReschedule : Bool :=
  s.irqBlocks v || s.guestIrqContextBlocksReschedule B v

/-- Both tests of `schedule_without_guest_resume` begin with this. -/
def wantsReschedule : Bool :=
  (s.home B v).ctl.needReschedule && !(s.vcpu v).hasPendingRequest

/-- The vCPU is at an exit for which `zombie_vcpu` is called. -/
def AsksOff : OffReason → Prop
  | .psci system advance =>
    psciExit (s.vcpu v).regs = some advance ∧
      psciFn ((s.vcpu v).regs.x 0) = if system then .system else .cpuOff
  | .fatal => psciExit (s.vcpu v).regs = none

/-- `arch_vm_prepare_bsp`. -/
def prepareBsp (vm : Nat) (v : Tid) (c : Vcpu) : Vcpu :=
  let root := B.rootStg2 vm
  let delta := B.timeDelta vm
  if B.staticVfdt then
    prepareLinuxVcpuContext root delta (B.kernelEntry vm) (B.fdtAddr vm) c
  else
    let c := prepareLinuxVcpuContext root delta (B.kernelEntry vm) (B.vmpidr v) c
    let x := update c.regs.x 0 (B.vmpidr v)
    { c with regs := { c.regs with x := update x 1 (B.fdtAddr vm) } }

end

end VcpuSys

/-! ## Steps -/

/-- What can be seen of a step. -/
inductive VcpuAct where
  /-- The vCPU executes an instruction, with these registers before it. -/
  | instr (v : Tid) (frame : CpuRegs) (el1 : El1Regs)
  /-- The same, and the instruction traps to EL2. -/
  | trap (v : Tid) (frame : CpuRegs) (el1 : El1Regs)
  /-- CPU_ON of `target` passes its test. -/
  | cpuOn (v target : Tid)
  /-- CPU_ON writes the state of `target`. -/
  | launch (v target : Tid)
  /-- CPU_ON has woken `target`, and will return SUCCESS. -/
  | success (v target : Tid) (entry ctx : Reg)
  /-- `zombie_vcpu` by the vCPU itself takes its state away. -/
  | powerOff (v : Tid) (why : OffReason)
  /-- `zombie_vcpu` finds that there is nothing to do. -/
  | offAgain (v : Tid) (why : OffReason)
  /-- `schedule_without_guest_resume` schedules or does not. -/
  | decide (v : Tid)
  /-- Return to the guest frame. -/
  | resume (v : Tid)
  | startVm (vm : Nat) (bsp : Tid)
  /-- Any other step of the thread of `v`. -/
  | tau (v : Tid)
  /-- Anything else. -/
  | world

/-- Calls of the scheduler that the rest of the system may make: nobody else
puts a vCPU thread to sleep or wakes it, and `schedule` is a step of its own. -/
def Board.Foreign (B : Board) : SchedOp → Prop
  | .initThreadData t | .sleepThread t | .wakeThread t => B.isVcpu t = false
  | .requestThreadPriority _ | .timerTick => True
  | .runIdle | .schedule => False

inductive VcpuStep (B : Board) (S : AcrnScheduler σ) :
    VcpuAct → VcpuSys σ → VcpuSys σ → Prop where
  /- `arch_vcpu_thread` -/
  | loopEnter {s v} : s.Runs B v → s.pc v = .entry →
      (s.vcpu v).state = .running → VcpuStep B S (.tau v) s (s.goto v .requests)
  | loopLeave {s v} : s.Runs B v → s.pc v = .entry → (s.vcpu v).state ≠ .running →
      VcpuStep B S (.tau v) s ((s.edit v fun c => { c with state := .zombie }).goto v .endSleep)
  | endSleep (caller : Caller) {s v} : s.Runs B v → s.pc v = .endSleep →
      VcpuStep B S (.tau v) s
        ((s.setPcpu (B.pcpuOf v) (sleepThread S caller v (s.home B v))).goto v .endSchedule)
  | endSchedule (ticks : Nat → Nat) {s v} : s.Runs B v → s.pc v = .endSchedule →
      VcpuStep B S (.tau v) s ((s.schedule B S (B.pcpuOf v) ticks).goto v .spinning)
  /- the guest -/
  | instr (frame' : CpuRegs) (el1' : El1Regs) {s v frame} : s.Runs B v →
      s.pc v = .guest frame →
      VcpuStep B S (.instr v frame (s.el1 (B.pcpuOf v))) s
        ((s.setEl1 (B.pcpuOf v) el1').goto v (.guest frame'))
  | trap (frame' : CpuRegs) (el1' : El1Regs) {s v frame} : s.Runs B v →
      s.pc v = .guest frame →
      VcpuStep B S (.trap v frame (s.el1 (B.pcpuOf v))) s
        (((s.setEl1 (B.pcpuOf v) el1').edit v fun c => { c with regs := frame' }).goto v .handler)
  | irq (esr far hpfar : Reg) {s v frame} : s.Runs B v → s.pc v = .guest frame →
      VcpuStep B S (.tau v) s
        ((s.edit v fun c => { c with regs :=
          { frame with esr := esr, far := far, hpfar := hpfar } }).goto v .clearing)
  /- `vcpu_exit_handler`, apart from PSCI -/
  | handled (regs' : CpuRegs) {s v} : s.Runs B v → s.pc v = .handler →
      psciExit (s.vcpu v).regs = none →
      VcpuStep B S (.tau v) s ((s.edit v fun c => { c with regs := regs' }).goto v .clearing)
  | yieldCurrent {s v} : s.Runs B v → s.pc v = .handler →
      VcpuStep B S (.tau v) s (s.setPcpu (B.pcpuOf v)
        ⟨(s.home B v).ctl.makeRescheduleRequest, (s.home B v).priv⟩)
  /- `handle_psci64` -/
  | psciValue {s v ret advance} : s.Runs B v → s.pc v = .handler →
      psciExit (s.vcpu v).regs = some advance → s.psciValue B v = some ret →
      VcpuStep B S (.tau v) s (s.goto v (.psciEnd ret advance))
  | psciEnd {s v ret advance} : s.Runs B v → s.pc v = .psciEnd ret advance →
      VcpuStep B S (.tau v) s
        ((s.edit v fun c => { c with regs := psciReturn ret advance c.regs }).goto v .clearing)
  /- `handle_psci_cpu_on` -/
  | cpuOn {s v t advance} : s.Runs B v → s.pc v = .handler →
      psciExit (s.vcpu v).regs = some advance →
      psciFn ((s.vcpu v).regs.x 0) = .cpuOn →
      s.psciTargetVcpu B (B.vmOf v) ((s.vcpu v).regs.x 1) = some t →
      (s.vcpu t).state ≠ .running →
      VcpuStep B S (.cpuOn v t) s (s.goto v (.preparing t advance))
  | prepare {s v t advance} : s.Runs B v → s.pc v = .preparing t advance →
      VcpuStep B S (.tau v) s
        ((s.edit t (prepareLinuxVcpuContext (B.rootStg2 (B.vmOf t))
          (B.timeDelta (B.vmOf t)) ((s.vcpu v).regs.x 2) ((s.vcpu v).regs.x 3))).goto
          v (.launching t ((s.vcpu v).regs.x 2) ((s.vcpu v).regs.x 3) advance))
  | launch {s v t entry ctx advance} : s.Runs B v →
      s.pc v = .launching t entry ctx advance →
      VcpuStep B S (.launch v t) s
        ((s.edit t fun c => { c with state := .running }).goto v (.waking t entry ctx advance))
  | success (caller : Caller) {s v t entry ctx advance} : s.Runs B v →
      s.pc v = .waking t entry ctx advance →
      VcpuStep B S (.success v t entry ctx) s
        ((s.setPcpu (B.pcpuOf t) (wakeThread S caller t (s.home B t))).goto v
          (.psciEnd PSCI_RET_SUCCESS advance))
  /- `zombie_vcpu` on the current vCPU -/
  | offRunning {s v why} : s.Runs B v → s.pc v = .handler → s.AsksOff v why →
      (s.vcpu v).state = .running →
      VcpuStep B S (.powerOff v why) s
        ((s.edit v fun c => { c with state := .zombie }).goto v (.offSleep why))
  | offInit {s v why} : s.Runs B v → s.pc v = .handler → s.AsksOff v why →
      (s.vcpu v).state = .init →
      VcpuStep B S (.powerOff v why) s
        ((s.edit v fun c => { c with state := .zombie }).goto v why.next)
  | offAgain {s v why} : s.Runs B v → s.pc v = .handler → s.AsksOff v why →
      (s.vcpu v).state ≠ .running → (s.vcpu v).state ≠ .init →
      VcpuStep B S (.offAgain v why) s (s.goto v why.next)
  | offSleep (caller : Caller) {s v why} : s.Runs B v → s.pc v = .offSleep why →
      VcpuStep B S (.tau v) s
        ((s.setPcpu (B.pcpuOf v) (sleepThread S caller v (s.home B v))).goto v why.next)
  /- the rest of `dispatch_vcpu_trap` and `dispatch_vcpu_irq` -/
  | clear {s v} : s.Runs B v → s.pc v = .clearing →
      VcpuStep B S (.tau v) s
        ((s.setPcpu (B.pcpuOf v) ⟨if s.wantsReschedule B v then
          (clearRescheduleIfCurrentOnly (s.home B v).ctl).2 else (s.home B v).ctl,
          (s.home B v).priv⟩).goto v .deciding)
  | decideSwitch (ticks : Nat → Nat) {s v} : s.Runs B v → s.pc v = .deciding →
      s.wantsReschedule B v = true → s.forwardProgressBlocksReschedule B v = false →
      VcpuStep B S (.decide v) s ((s.schedule B S (B.pcpuOf v) ticks).goto v .requests)
  | decideStay {s v} : s.Runs B v → s.pc v = .deciding →
      ¬ (s.wantsReschedule B v = true ∧ s.forwardProgressBlocksReschedule B v = false) →
      VcpuStep B S (.decide v) s (s.goto v .requests)
  | requests {s v} : s.Runs B v → s.pc v = .requests →
      VcpuStep B S (.tau v) s ((s.edit v Vcpu.processVcpuRequests).goto v .resuming)
  | resume {s v} : s.Runs B v → s.pc v = .resuming →
      VcpuStep B S (.resume v) s (s.goto v (.guest (s.vcpu v).regs))
  /- the rest of the system -/
  | startVm (caller : Caller) {s vm bsp} : s.started vm = false →
      (B.vcpus vm).head? = some bsp →
      VcpuStep B S (.startVm vm bsp) s
        { (s.edit bsp fun c =>
            { VcpuSys.prepareBsp B vm bsp c with state := .running }).setPcpu
            (B.pcpuOf bsp) (wakeThread S caller bsp (s.home B bsp)) with
          started := update s.started vm true }
  | request {s v} : B.isVcpu v = true →
      VcpuStep B S .world s
        ((s.edit v (Vcpu.setRequest .event)).setPcpu (B.pcpuOf v)
          (requestThreadPriority S v (s.home B v)))
  | sched {s n op p'} : SchedStep S op (s.pcpu n) p' → B.Foreign op →
      VcpuStep B S .world s (s.setPcpu n p')
  | schedule (ticks : Nat → Nat) {s n t} : (s.pcpu n).ctl.currObj = some t →
      B.isVcpu t = false → VcpuStep B S .world s (s.schedule B S n ticks)
  | learn (irqBlocks : Tid → Bool) (preemptCount : Tid → Option (BitVec 32)) {s} :
      VcpuStep B S .world s { s with irqBlocks := irqBlocks, preemptCount := preemptCount }

end Sima.Arm64
