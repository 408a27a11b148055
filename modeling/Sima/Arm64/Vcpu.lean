import Mathlib.Data.BitVec
import Mathlib.Logic.Function.Basic

/-!
# The state of an ARM64 vCPU

Two images of a guest's registers exist. `vcpu->arch.regs` and `vcpu->arch.gctx`
are the durable ones; the frame on the thread's stack and the EL1 system
registers of the pCPU are the live ones. This module has the durable image and
the functions that work on it alone: the context that PSCI CPU_ON prepares, the
requests that are taken before a guest entry, and the parts of `handle_psci64`
that only compute.

The interrupt controller and the timers of the vCPU are not part of it, and
neither are the debug records that the source keeps beside every step.
-/

namespace Sima.Arm64

abbrev Reg := BitVec 64

instance gprs_neZero : NeZero 30 := ⟨by decide⟩

/-- `struct cpu_regs`. -/
structure CpuRegs where
  x : Fin 30 → Reg
  lr : Reg
  sp : Reg
  elr : Reg
  spsr : Reg
  esr : Reg
  far : Reg
  hpfar : Reg
  hostTpidr : Reg
  excSp : Reg

/-- The registers that `save_el1_sysregs` and `restore_el1_sysregs` copy. -/
inductive El1Reg where
  | sctlr | ttbr0 | ttbr1 | tcr | mair | amair | vbar | contextidr | cpacr
  | tpidrEl0 | tpidrroEl0 | tpidrEl1 | spEl0 | elr | spsr | esr | far
  | afsr0 | afsr1 | par | cntkctl
deriving DecidableEq, Repr

abbrev El1Regs := El1Reg → Reg

/-- Assignments one after the other: what is written, and what it is read from. -/
def assignEl1 (src dst : El1Regs) (l : List (El1Reg × El1Reg)) : El1Regs :=
  l.foldl (fun r p => Function.update r p.1 (src p.2)) dst

def saveEl1Sysregs (cpu gctx : El1Regs) : El1Regs :=
  assignEl1 cpu gctx
    [(.sctlr, .sctlr), (.ttbr0, .ttbr0), (.ttbr1, .ttbr1), (.tcr, .tcr), (.mair, .mair),
      (.amair, .amair), (.vbar, .vbar), (.contextidr, .contextidr), (.cpacr, .cpacr),
      (.tpidrEl0, .tpidrEl0), (.tpidrroEl0, .tpidrroEl0), (.tpidrEl1, .tpidrEl1),
      (.spEl0, .spEl0), (.elr, .elr), (.spsr, .spsr), (.esr, .esr), (.far, .far),
      (.afsr0, .afsr0), (.afsr1, .afsr1), (.par, .par), (.cntkctl, .cntkctl)]

/-- `restore_el1_sysregs`, which turns the MMU on last. -/
def restoreEl1Sysregs (gctx cpu : El1Regs) : El1Regs :=
  assignEl1 gctx cpu
    [(.ttbr0, .ttbr0), (.ttbr1, .ttbr1), (.tcr, .tcr), (.mair, .mair), (.amair, .amair),
      (.vbar, .vbar), (.contextidr, .contextidr), (.cpacr, .cpacr), (.tpidrEl0, .tpidrEl0),
      (.tpidrroEl0, .tpidrroEl0), (.tpidrEl1, .tpidrEl1), (.spEl0, .spEl0), (.elr, .elr),
      (.spsr, .spsr), (.esr, .esr), (.far, .far), (.afsr0, .afsr0), (.afsr1, .afsr1),
      (.par, .par), (.cntkctl, .cntkctl), (.sctlr, .sctlr)]

theorem assignEl1_apply {src dst : El1Regs} {l : List (El1Reg × El1Reg)}
    (hown : ∀ p ∈ l, p.1 = p.2) (r : El1Reg) :
    assignEl1 src dst l r = if (r, r) ∈ l then src r else dst r := by
  induction l generalizing dst with
  | nil => rfl
  | cons p l ih =>
    obtain ⟨a, b⟩ := p
    obtain rfl : a = b := hown _ List.mem_cons_self
    rw [assignEl1, List.foldl_cons]
    rw [← assignEl1, ih fun q hq => hown q (List.mem_cons_of_mem _ hq)]
    by_cases hr : r = a
    · subst hr
      simp
    · simp [hr]

theorem saveEl1Sysregs_eq (cpu gctx : El1Regs) : saveEl1Sysregs cpu gctx = cpu := by
  funext r
  rw [saveEl1Sysregs, assignEl1_apply (by decide), if_pos (by cases r <;> decide)]

theorem restoreEl1Sysregs_eq (gctx cpu : El1Regs) : restoreEl1Sysregs gctx cpu = gctx := by
  funext r
  rw [restoreEl1Sysregs, assignEl1_apply (by decide), if_pos (by cases r <;> decide)]

/-- `struct arm64_vcpu_guest_ctx`, without the shadow of the timers. -/
structure GuestCtx where
  vttbrEl2 : Reg
  vtcrEl2 : Reg
  hcrEl2 : Reg
  cntvoffEl2 : Reg
  timerVirq : Reg
  el1 : El1Regs

/-- `struct arm64_vcpu_trap_info`. -/
structure TrapInfo where
  elr : Reg
  spsr : Reg
  esr : Reg
  far : Reg
deriving DecidableEq, Repr

/-- `enum vcpu_state`. -/
inductive VcpuState where
  | offline
  | init
  | running
  | zombie
deriving DecidableEq, Repr

structure Vcpu where
  state : VcpuState
  pendingReq : Reg
  irqsPending : Reg
  irqsPendingMask : Reg
  trap : TrapInfo
  regs : CpuRegs
  gctx : GuestCtx

/-! ## The boot context -/

def EXCEPTION_INVALID : Reg := 0xffffffffffffffff
def DAIF_ALL : Reg := (1 <<< 9) ||| (1 <<< 8) ||| (1 <<< 7) ||| (1 <<< 6)
def SPSR_EL2_MODE_EL1H : Reg := 0x5
def ARM64_GUEST_SCTLR_EL1_INIT : Reg := 0x00c50078
def ARM64_GIC_PPI_VIRTUAL_TIMER : Reg := 27
def VTCR_EL2_VALUE : Reg :=
  16 ||| (0 <<< 14) ||| (3 <<< 12) ||| (1 <<< 10) ||| (1 <<< 8) ||| (2 <<< 6) |||
    (5 <<< 16) ||| (1 <<< 31)

/-- `HCR_VM | HCR_RW | HCR_IMO | HCR_FMO | HCR_AMO | HCR_TSC`. -/
def GUEST_HCR : Reg :=
  (1 <<< 0) ||| (1 <<< 31) ||| (1 <<< 4) ||| (1 <<< 3) ||| (1 <<< 5) ||| (1 <<< 19)

/-- `arm64_init_guest_regs`. The two fields of EL2 survive. -/
def initGuestRegs (entry x0 : Reg) (regs : CpuRegs) : CpuRegs where
  x := Function.update (fun _ => 0) 0 x0
  lr := 0
  sp := 0
  elr := entry
  spsr := SPSR_EL2_MODE_EL1H ||| DAIF_ALL
  esr := 0
  far := 0
  hpfar := 0
  hostTpidr := regs.hostTpidr
  excSp := regs.excSp

/-- The EL1 system registers at reset. -/
def resetEl1 : El1Regs :=
  Function.update (fun _ => 0) .sctlr ARM64_GUEST_SCTLR_EL1_INIT

/-- `arm64_init_guest_control_context`, for the stage-2 root and the time offset
of the VM. -/
def initGuestControlContext (root timeDelta : Reg) : GuestCtx where
  vttbrEl2 := root
  vtcrEl2 := VTCR_EL2_VALUE
  hcrEl2 := GUEST_HCR
  cntvoffEl2 := timeDelta
  timerVirq := ARM64_GIC_PPI_VIRTUAL_TIMER
  el1 := resetEl1

/-- `arm64_prepare_linux_vcpu_context`. -/
def prepareLinuxVcpuContext (root timeDelta entry x0 : Reg) (v : Vcpu) : Vcpu :=
  { v with
    pendingReq := 0
    irqsPending := 0
    irqsPendingMask := 0
    trap := { v.trap with esr := EXCEPTION_INVALID }
    regs := initGuestRegs entry x0 v.regs
    gctx := initGuestControlContext root timeDelta }

/-! ## Requests -/

/-- `ARM64_VCPU_REQUEST_EXCEPTION` and `ARM64_VCPU_REQUEST_EVENT`. -/
inductive VcpuRequest where
  | exception
  | event
deriving DecidableEq, Repr

def VcpuRequest.bit : VcpuRequest → Nat
  | exception => 0
  | event => 1

def VcpuRequest.mask (r : VcpuRequest) : Reg := 1 <<< r.bit

namespace Vcpu

def hasPendingRequest (v : Vcpu) : Bool := v.pendingReq != 0

/-- What `vcpu_make_request` does to the vCPU itself. -/
def setRequest (r : VcpuRequest) (v : Vcpu) : Vcpu :=
  { v with pendingReq := v.pendingReq ||| r.mask }

/-- `vcpu_take_request`. -/
def takeRequest (r : VcpuRequest) (v : Vcpu) : Bool × Vcpu :=
  (v.pendingReq.getLsbD r.bit, { v with pendingReq := v.pendingReq &&& ~~~r.mask })

/-- `vcpu_set_trap`, for the trap that is queued in the vCPU. -/
def setTrap (v : Vcpu) : Vcpu :=
  { v with regs :=
      { v.regs with
        elr := v.trap.elr
        spsr := v.trap.spsr
        esr := v.trap.esr
        far := v.trap.far } }

/-- `vcpu_inject_pending_intr`. -/
def injectPendingIntr (v : Vcpu) : Vcpu :=
  { (v.takeRequest .event).2 with
    irqsPendingMask := if (v.takeRequest .event).1 then 0 else v.irqsPendingMask }

/-- The first request that `arm64_process_vcpu_requests` takes. -/
def takeException (v : Vcpu) : Vcpu :=
  if (v.takeRequest .exception).1 then
    { (v.takeRequest .exception).2.setTrap with
      trap := ⟨0, 0, EXCEPTION_INVALID, 0⟩ }
  else (v.takeRequest .exception).2

/-- `arm64_process_vcpu_requests`, which always returns 0. -/
def processVcpuRequests (v : Vcpu) : Vcpu :=
  if v.hasPendingRequest then v.takeException.injectPendingIntr else v

/-- No exception waits to be injected. -/
def NoException (v : Vcpu) : Prop := v.pendingReq.getLsbD 0 = false

end Vcpu

section

variable {v : Vcpu}

@[simp] theorem setRequest_state (r : VcpuRequest) : (v.setRequest r).state = v.state := rfl
@[simp] theorem setRequest_regs (r : VcpuRequest) : (v.setRequest r).regs = v.regs := rfl
@[simp] theorem setRequest_gctx (r : VcpuRequest) : (v.setRequest r).gctx = v.gctx := rfl

theorem noException_setRequest (h : v.NoException) : (v.setRequest .event).NoException := by
  simpa [Vcpu.NoException, Vcpu.setRequest, VcpuRequest.mask, VcpuRequest.bit] using h

@[simp] theorem injectPendingIntr_state : v.injectPendingIntr.state = v.state := rfl
@[simp] theorem injectPendingIntr_regs : v.injectPendingIntr.regs = v.regs := rfl
@[simp] theorem injectPendingIntr_gctx : v.injectPendingIntr.gctx = v.gctx := rfl
@[simp] theorem injectPendingIntr_pendingReq : v.injectPendingIntr.pendingReq =
    v.pendingReq &&& ~~~VcpuRequest.event.mask := rfl

@[simp] theorem takeException_state : v.takeException.state = v.state := by
  rw [Vcpu.takeException]
  split <;> rfl

@[simp] theorem takeException_gctx : v.takeException.gctx = v.gctx := by
  rw [Vcpu.takeException]
  split <;> rfl

theorem takeException_eq (h : v.NoException) : v.takeException =
    { v with pendingReq := v.pendingReq &&& ~~~VcpuRequest.exception.mask } := by
  have hbit : (v.takeRequest .exception).1 = false := h
  rw [Vcpu.takeException, hbit]
  rfl

@[simp] theorem processVcpuRequests_state : v.processVcpuRequests.state = v.state := by
  rw [Vcpu.processVcpuRequests]
  split <;> simp

@[simp] theorem processVcpuRequests_gctx : v.processVcpuRequests.gctx = v.gctx := by
  rw [Vcpu.processVcpuRequests]
  split <;> simp

theorem processVcpuRequests_regs (h : v.NoException) : v.processVcpuRequests.regs = v.regs := by
  rw [Vcpu.processVcpuRequests]
  split
  · rw [injectPendingIntr_regs, takeException_eq h]
  · rfl

theorem noException_processVcpuRequests (h : v.NoException) :
    v.processVcpuRequests.NoException := by
  rw [Vcpu.processVcpuRequests]
  split
  · rw [takeException_eq h]
    simp [Vcpu.NoException, VcpuRequest.mask, VcpuRequest.bit]
  · exact h

end

/-! ## Exits and PSCI -/

def ESR_EL2_IL : Reg := 1 <<< 25

def esrEl2Ec (esr : Reg) : Reg := (esr >>> 26) &&& 0x3f

def ESR_EL2_EC_HVC64 : Reg := 0x16
def ESR_EL2_EC_SMC64 : Reg := 0x17

/-- `advance_vcpu_elr`. -/
def CpuRegs.advanceElr (r : CpuRegs) : CpuRegs :=
  { r with elr := r.elr + if r.esr &&& ESR_EL2_IL != 0 then 4 else 2 }

/-- `arm64_is_acrn_hypercall`. -/
def isAcrnHypercall (x0 : Reg) : Bool := (x0 &&& 0xffffffff) >>> 24 == 0x80

/-- Which exits `vcpu_exit_handler` passes to `handle_psci64`, and whether with
`advance_elr`. -/
def psciExit (r : CpuRegs) : Option Bool :=
  if esrEl2Ec r.esr == ESR_EL2_EC_SMC64 then some true
  else if esrEl2Ec r.esr == ESR_EL2_EC_HVC64 && !isAcrnHypercall (r.x 0) then
    some false
  else none

/-- The calls that `handle_psci64` tells apart. -/
inductive PsciFn where
  | version
  | features
  | migrateInfoType
  | cpuOn
  | cpuOff
  | affinityInfo
  /-- SYSTEM_OFF and SYSTEM_RESET share their code. -/
  | system
  | unknown
deriving DecidableEq, Repr

/-- The switch of `handle_psci64`, over the low half of `x0`. -/
def psciFn (x0 : Reg) : PsciFn :=
  match (x0 &&& 0xffffffff).toNat with
  | 0x84000000 => .version
  | 0x8400000a => .features
  | 0x84000006 => .migrateInfoType
  | 0x84000003 | 0xc4000003 => .cpuOn
  | 0x84000002 => .cpuOff
  | 0x84000004 | 0xc4000004 => .affinityInfo
  | 0x84000008 | 0x84000009 => .system
  | _ => .unknown

def PSCI_RET_SUCCESS : Reg := 0
def PSCI_RET_NOT_SUPPORTED : Reg := -1
def PSCI_RET_INVALID_PARAMS : Reg := -2
def PSCI_RET_DENIED : Reg := -3
def PSCI_0_2_TOS_MP : Reg := 2
def PSCI_AFFINITY_LEVEL_ON : Reg := 0
def PSCI_AFFINITY_LEVEL_OFF : Reg := 1

def handlePsciFeatures (fn : Reg) : Reg :=
  match psciFn fn with
  | .unknown => PSCI_RET_NOT_SUPPORTED
  | _ => PSCI_RET_SUCCESS

def MPIDR_AFFINITY_MASK : Reg := 0x00FFFFFF

/-- The end of `handle_psci64`. -/
def psciReturn (ret : Reg) (advance : Bool) (r : CpuRegs) : CpuRegs :=
  let r := { r with x := Function.update r.x 0 ret }
  if advance then r.advanceElr else r

end Sima.Arm64
