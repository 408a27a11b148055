import Sima.Vgic.Sync

/-!
# Filling list registers, and the calls that deliver

`vgicv3_flush_vcpu` and the functions that other parts of the hypervisor call:
injecting, clearing and lowering an interrupt, the maintenance interrupt, the
timer line, the WFI path, and the switch of a vCPU's list registers in and out.

A call that syncs a loaded vCPU flushes it before it lets go of the lock. The
locked stretch is one step here.
-/

namespace Sima.Vgic

open Lib

namespace Core

/-! ## Flush -/

section

variable (e : Env) (line : Samples) (c : Caller) (v : Vid) (r : Sysreg) (lpi : Bool) (virq : Nat)
    (level : Bool) (s : Core)

/-- Put a list register of an interrupt into the slot it has or, if there is room,
into a new one. -/
def takeLr (lr : Lr) (s : Core) : Option Core :=
  match s.findLrForVirq v virq with
  | some idx => some (s.modLrs v fun t => t.set idx lr)
  | none => if e.lrCount ≤ (s.ctx v).lrs.used then none else some (s.pushLr v lr)

/-- Handing an edge to a list register consumes the descriptor's pending flag; a
level keeps it. -/
def handOver : Core :=
  if lpi || !(s.irq v virq).level then s.setPending v virq false else s

/-- One set bit of the scan; `none` when there is no list register left. -/
def flushIrq : Option Core :=
  if !(s.irq v virq).pending then some (s.setPending v virq false)
  else if !s.irqDeliverable e v (s.irq v virq) then some s
  else (s.takeLr e v virq (makeLr (s.irq v virq))).map (handOver v lpi virq)

def flushBits (e : Env) (v : Vid) (lpi : Bool) : List Nat → Core → Core
  | [], s => s
  | virq :: rest, s =>
    match s.flushIrq e v lpi virq with
    | some s' => flushBits e v lpi rest s'
    | none => s.raiseUie v

/-- The INTIDs behind the set bits of one word. -/
def wordIrqs (word : Nat) (s : Core) : List Nat :=
  if lpi then (Bitmap.scan (s.lpiPendingBitmap v word)).map (lpiBase + word * 32 + ·)
  else (Bitmap.scan (s.pendingBitmap v word)).map (word * 32 + ·)

def flushWords (e : Env) (v : Vid) (lpi : Bool) : List Nat → Core → Core
  | [], s => s
  | word :: rest, s =>
    let s := s.flushBits e v lpi (s.wordIrqs v lpi word)
    if hasBits (s.ctx v).hcr ichHcrUie then s else flushWords e v lpi rest s

/-- The two scans of a flush, of the pending bitmap and of the LPIs'. -/
def flushScan : Core :=
  let s := s.modCtx v fun c => { c with hcr := c.hcr &&& ~~~ichHcrUie }
  let s := s.flushWords e v false (List.range irqWords)
  if e.itsEnabled then s.flushWords e v true (List.range lpiWords) else s

def flushVcpu (isCurrent : Bool) (v : Vid) (s : Core) : Core :=
  if !isCurrent && e.vcpuIsRunningRemote c v then s
  else if isCurrent || e.vcpuIsLoaded c v then
    let s := (s.modCtx v (syncLiveCpuif (s.ich v))).flushScan e v
    s.modIch v (writeLrsHcr e.lrCount (s.ctx v))
  else s.flushScan e v

/-- `vgicv3_flush_vm`, from the physical CPU of `cur`. -/
def flushVm (cur : Vid) (s : Core) : Core :=
  (List.range e.createdVcpus).foldl (fun s v => s.flushVcpu e (some cur) (v == cur) v) s

/-! ## Injection and its opposites -/

def flushIfLoaded : Core :=
  if e.vcpuIsLoaded c v then s.flushVcpu e c false v else s

def setLevel : Core :=
  s.modIrq v virq fun d => { d with level := level }

/-- `vgic_inject_locked`. -/
def injectLocked : Core :=
  if e.hasDesc v virq then
    (((s.syncVcpu e line c false v).setLevel v virq level).setPending v virq
      true).flushIfLoaded e c v
  else s

def dropLr : Core :=
  match s.findLrForVirq v virq with
  | some idx => s.removeLr v idx
  | none => s

/-- `arm64_vgicv3_clear_irq`. -/
def clearIrq : Core :=
  if e.hasDesc v virq then
    ((((s.syncVcpu e line c false v).dropLr v virq).setPending v virq
      false).setActive v virq false).flushIfLoaded e c v
  else s

/-- `arm64_vgicv3_deassert_irq`: the line goes low, an active interrupt stays. -/
def deassertIrq : Core :=
  if e.hasDesc v virq then
    (((s.syncVcpu e line c false v).setPending v virq false).updateIrqLr v
      virq).flushIfLoaded e c v
  else s

/-- `vgicv3_deactivate_irq_locked`, without the flush that follows it. -/
def deactivateIrq : Core :=
  if irqNum ≤ virq then s
  else
    let s := s.syncVcpu e line (some v) true v
    if e.hasDesc v virq then
      ((s.dropLr v virq).setActive v virq false).setPending v virq
        (if isVtimer virq && e.vcpuIsLoaded (some v) v then line .deactivate 0
        else (s.irq v virq).level && (s.irq v virq).pending)
    else s

/-! ## Calls on the running vCPU -/

/-- Sync and flush: the maintenance interrupt, and the request processing before
every guest entry. -/
def syncFlush : Core :=
  (s.syncVcpu e line (some v) true v).flushVcpu e (some v) true v

/-- `arm64_vgicv3_refresh_current_level_irq`. -/
def refreshCurrentLevelIrq : Core :=
  if virq < irqNum ∧ e.hasDesc v virq = true ∧ (s.irq v virq).level = true ∧
      (s.irq v virq).pending = true then s.syncFlush e line v
  else s

def refreshTimerLr (line : Bool) (s : Core) : Core :=
  match s.findLrForVirq v ppiVirtualTimer with
  | none => s
  | some idx =>
    if line || ((s.ctx v).lrs.slot idx).state.isActive then
      s.modLrs v fun t => t.set idx (makeLrState (s.irq v ppiVirtualTimer) line
        ((s.ctx v).lrs.slot idx).state.isActive)
    else s.removeLr v idx

/-- `vgicv3_sync_timer_line_locked`, without the flush at its end. -/
def setTimerLine : Core :=
  if e.hasDesc v ppiVirtualTimer then
    ((s.setLevel v ppiVirtualTimer true).setPending v ppiVirtualTimer level).refreshTimerLr v level
  else s

/-- `arm64_vgicv3_sync_current_timer_line`. The flush is inside the callee, behind
the same test for a descriptor. -/
def syncCurrentTimerLine : Core :=
  let s := s.syncVcpu e line (some v) true v
  if e.hasDesc v ppiVirtualTimer then
    (s.setTimerLine e v level).flushVcpu e (some v) true v
  else s

/-- One turn of the loop of `arm64_vgicv3_complete_wfi_irqs`, and whether it removed
the slot. -/
def settleWfiLr (idx : Nat) (lr : Lr) (d : VgicIrq) (s : Core) : Core × Bool :=
  if e.hasDesc v lr.vintid && !d.level && lr.state == .active then
    ((s.setActive v lr.vintid false).removeLr v idx, true)
  else if e.hasDesc v lr.vintid && d.level && isVtimer lr.vintid &&
      lr.state.isActive && s.activePriorityEmpty v then
    (s.completeTimerLr v lr.vintid idx (line .wfi idx), true)
  else (s, false)

def completeWfiLr (idx : Nat) (s : Core) : Core × Bool :=
  s.settleWfiLr e line v idx ((s.ctx v).lrs.slot idx) (s.irq v ((s.ctx v).lrs.slot idx).vintid)

def completeWfiLrs (e : Env) (line : Samples) (v : Vid) : Nat → Nat → Core → Core
  | 0, _, s => s
  | n + 1, idx, s =>
    if (s.completeWfiLr e line v idx).2 then
      completeWfiLrs e line v n idx (s.completeWfiLr e line v idx).1
    else completeWfiLrs e line v n (idx + 1) (s.completeWfiLr e line v idx).1

/-- `arm64_vgicv3_complete_wfi_irqs`. -/
def completeWfiIrqs : Core :=
  let s := s.syncVcpu e line (some v) true v
  (s.completeWfiLrs e line v (s.ctx v).lrs.used 0).flushVcpu e (some v) true v

/-- Does this set bit stop the vCPU from sleeping? An ordinary level does only as
long as it has no list register. -/
def wakes (virq : Nat) : Bool :=
  (s.irq v virq).pending && s.irqDeliverable e v (s.irq v virq) &&
    (lpi || !(s.irq v virq).level || (s.findLrForVirq v virq).isNone)

/-- A pending list register, or a set bit whose interrupt still needs one. -/
def anyPending : Bool :=
  (List.range (s.ctx v).lrs.used).any (fun idx => ((s.ctx v).lrs.slot idx).state.isPending) ||
    (List.range irqWords).any (fun word => (s.wordIrqs v false word).any (s.wakes e v false)) ||
    e.itsEnabled && (List.range lpiWords).any (fun word =>
      (s.wordIrqs v true word).any (s.wakes e v true))

/-- A query on the loaded vCPU reads the controls of the hardware first. -/
def queryCpuif : Core :=
  if e.vcpuIsLoaded c v then s.modCtx v (syncLiveCpuif (s.ich v)) else s

/-- `arm64_vgicv3_has_pending_irq`: the answer, and the state after the query. -/
def hasPendingIrq : Bool × Core :=
  ((s.queryCpuif e c v).anyPending e v, s.queryCpuif e c v)

/-! ## CPU interface registers -/

inductive Sysreg where
  | sre | pmr | ctlr | igrpen1 | dir | rpr
deriving DecidableEq, Repr

/-- What a trapped write does to the context; `none` for the registers whose write
changes no control. -/
def controlWrite (val : BitVec 64) (c : Ctx) : Option Ctx :=
  match r with
  | .sre => some { c with sre := val ||| iccSreSre }
  | .pmr => some { c with
      pmr := val &&& 0xff
      vmcr := c.vmcr &&& ~~~(0xff#64 <<< 24) ||| ((val &&& 0xff) <<< 24) }
  | .ctlr => some { c with ctlr := 0, vmcr := c.vmcr &&& ~~~ichVmcrEoim }
  | .igrpen1 =>
    if hasBits val 1 then some { c with vmcr := c.vmcr ||| ichVmcrVeng1 }
    else some { c with vmcr := c.vmcr &&& ~~~ichVmcrVeng1 }
  | .dir | .rpr => none

/-- `vgicv3_write_cpuif_control`. -/
def writeCpuifControl : Core :=
  if e.vcpuIsLoaded (some v) v then
    s.modIch v fun h => { h with sre := (s.ctx v).sre ||| iccSreSre, vmcr := (s.ctx v).vmcr }
  else s

/-- The write side of `arm64_vgicv3_handle_cpuif_sysreg`. -/
def cpuifWrite (val : BitVec 64) (s : Core) : Core :=
  match controlWrite r val (s.ctx v) with
  | some c => ((s.modCtx v fun _ => c).writeCpuifControl e v).flushVcpu e (some v) true v
  | none =>
    if r = .dir then
      (s.deactivateIrq e line v (val &&& 0xffffffff).toNat).flushVcpu e (some v) true v
    else s

/-! ## Switching a vCPU in and out, and resetting it -/

/-- `arm64_vgicv3_load_vcpu`. -/
def loadVcpu : Core :=
  s.modIch v fun h =>
    { writeLrsHcr e.lrCount (s.ctx v) h with
      sre := (s.ctx v).sre ||| iccSreSre
      vmcr := (s.ctx v).vmcr
      ap0r0 := (s.ctx v).ap0r0
      ap1r0 := (s.ctx v).ap1r0 }

/-- `arm64_vgicv3_save_vcpu`. -/
def saveVcpu : Core :=
  (s.modCtx v fun c =>
    readLrs e.lrCount (s.ich v)
      { syncLiveCpuif (s.ich v) c with
        hcr := (s.ich v).hcr &&& ~~~(ichHcrEoicountMask ||| ichHcrTc)
        ap0r0 := (s.ich v).ap0r0
        ap1r0 := (s.ich v).ap1r0 }).modIch v fun h => { h with hcr := 0 }

/-- The context `arm64_vgicv3_init_vcpu` sets up. -/
def initCtx : Ctx where
  lrs := ⟨fun _ => {}, 0⟩
  vmcr := ichVmcrVeng1 ||| ichVmcrDefaultMask
  hcr := ichHcrEn
  sre := iccSreSre
  pmr := gicPriorityLowest
  ctlr := 0

/-- `vgicv3_clear_vcpu_boot_irqs`: the private interrupts, not the SPIs. -/
def clearBootIrqs : Core :=
  (List.range localIrqNum ++
      if e.itsEnabled then (List.range lpiNum).map (lpiBase + ·) else []).foldl
    (fun s virq => (s.setPending v virq false).setActive v virq false) s

/-- `arm64_vgicv3_reset_vcpu_boot_state`. -/
def resetVcpuBootState : Core :=
  let s := s.modCtx v fun _ => initCtx
  if v < e.maxVcpus then s.clearBootIrqs e v else s

end

end Core

end Sima.Vgic
