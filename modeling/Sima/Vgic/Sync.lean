import Sima.Vgic.State

/-!
# Reading list registers back into the descriptors

`vgicv3_sync_vcpu` and what it is made of. A sync copies the hardware's list
registers over the context, keeps the copy it replaces as the only record of
which interrupt a completed slot belonged to, and settles every interrupt that
either copy names: the slots whose completion the hardware reports, the ones that
have disappeared without a report, and the ones that are still there.

The virtual timer is a line that is sampled instead of remembered. What each
sample reads is an input, named by the place in the source that takes it.
-/

namespace Sima.Vgic

open Lib

inductive Site where
  | eoi | lost | complete | pendingOnly | wfi | deactivate
deriving DecidableEq, Repr

/-- What `arm64_vtimer_sample_current` answers, by place and slot. -/
abbrev Samples := Site → Nat → Bool

namespace Core

/-! ## Restoring one list register -/

section

variable (e : Env) (line : Samples) (c : Caller) (v : Vid) (loaded : Bool) (old : Slots Lr)
    (idx : Nat) (eoi : Nat → Bool) (s : Core)

def writeHcr : Core :=
  if loaded then s.modIch v fun h => { h with hcr := controlHcr (s.ctx v).hcr } else s

def writeLr : Core :=
  if loaded then
    s.modIch v fun h => { h with lr := Function.update h.lr idx ((s.ctx v).lrs.slot idx) }
  else s

def raiseUie : Core :=
  s.modCtx v fun c => { c with hcr := c.hcr ||| ichHcrUie }

def pushLr (lr : Lr) (s : Core) : Core := s.modLrs v fun t => t.push lr

def requeueLr (virq : Nat) (loaded : Bool) (s : Core) : Core :=
  if !(s.irq v virq).pending || !s.irqDeliverable e v (s.irq v virq) ||
      (s.findLrForVirq v (s.irq v virq).virq).isSome then s
  else if e.lrCount ≤ (s.ctx v).lrs.used then (s.raiseUie v).writeHcr v loaded
  else
    ((s.pushLr v (makeLr (s.irq v virq))).writeLr v loaded (s.ctx v).lrs.used).writeHcr v loaded

/-! ## Reported completions -/

/-- The list register an end of interrupt is about: the slot as read back or, if
that is already invalid, as the context had it before. -/
def eoiIdentity : Lr :=
  if idx < (s.ctx v).lrs.used ∧ ((s.ctx v).lrs.slot idx).state ≠ .invalid then
    (s.ctx v).lrs.slot idx
  else if idx < old.used then old.slot idx
  else {}

def keepPending (lr : Lr) (idx : Nat) (d : VgicIrq) : Bool :=
  if isVtimer lr.vintid && e.vcpuIsLoaded c v then line .eoi idx
  else if d.level then lr.state.isPending || d.pending
  else lr.state.isPending && lr.state.isActive

def completeEoiDesc (lr : Lr) (idx : Nat) (s : Core) : Core :=
  if e.hasDesc v lr.vintid then
    (s.setPending v lr.vintid
      (keepPending e line c v lr idx (s.irq v lr.vintid))).setActive v lr.vintid false
  else s

def completeEoiLr : Core :=
  if (s.eoiIdentity v old idx).state = .invalid then s
  else (s.completeEoiDesc e line c v (s.eoiIdentity v old idx) idx).removeLr v idx

/-- `vgicv3_complete_eoi_lrs`, from the last slot down to the first. -/
def completeEoiLrs (e : Env) (line : Samples) (c : Caller) (v : Vid) (old : Slots Lr)
    (eoi : Nat → Bool) : Nat → Core → Core
  | 0, s => s
  | idx + 1, s =>
    completeEoiLrs e line c v old eoi idx
      (if eoi idx then s.completeEoiLr e line c v old idx else s)

/-! ## Slots that have disappeared -/

def settleLost (reported : Bool) (old : Lr) (idx : Nat) (s : Core) : Core :=
  if loaded && (s.irq v old.vintid).level && isVtimer old.vintid &&
      old.state.isPending && !reported then
    -- a timer line that is still high gets its list register back at once
    if line .lost idx then
      (s.setPending v old.vintid true).requeueLr e v old.vintid loaded
    else s.setPending v old.vintid false
  else if (s.irq v old.vintid).level && (s.irq v old.vintid).pending then s
  else
    s.setPending v old.vintid (!(s.irq v old.vintid).level && old.state.isPending && !reported)

def syncLostLr (old : Slots Lr) (s : Core) (idx : Nat) : Core :=
  if (old.slot idx).state = .invalid then s
  else if (s.findLrForVirq v (old.slot idx).vintid).isSome then s
  else if e.hasDesc v (old.slot idx).vintid then
    (s.settleLost e line v loaded (eoi idx) (old.slot idx) idx).setActive v
      (old.slot idx).vintid false
  else s

def syncLostLrs (old : Slots Lr) (s : Core) : Core :=
  (List.range old.used).foldl (syncLostLr e line v loaded eoi old) s

/-! ## Slots that are still there -/

def activePriorityEmpty : Bool :=
  (s.ich v).ap0r0 == 0 && (s.ich v).ap1r0 == 0

/-- `vgicv3_complete_timer_lr` once the active priorities are empty. -/
def completeTimerLr (virq idx : Nat) (line : Bool) (s : Core) : Core :=
  ((s.setActive v virq false).setPending v virq line).removeLr v idx

/-- A list register that stays says whether its interrupt is active, and takes over
the credit of an edge it holds pending. -/
def copyBack (lr : Lr) (d : VgicIrq) (s : Core) : Core :=
  if !d.level && (lr.state.isPending || !lr.state.isActive || !d.pending) then
    (s.setPending v lr.vintid false).setActive v lr.vintid lr.state.isActive
  else s.setActive v lr.vintid lr.state.isActive

/-- One turn of the loop, for the list register and the descriptor it finds, and
whether it removed the slot. -/
def settleLr (lr : Lr) (d : VgicIrq) (s : Core) : Core × Bool :=
  if e.hasDesc v lr.vintid then
    if !d.level && lr.state == .active then (s.setActive v lr.vintid true, false)
    else if loaded && d.level && isVtimer lr.vintid && lr.state.isActive &&
        s.activePriorityEmpty v then
      (s.completeTimerLr v lr.vintid idx (line .complete idx), true)
    else if loaded && d.level && isVtimer lr.vintid && lr.state == .pending then
      if line .pendingOnly idx then
        ((s.setPending v lr.vintid true).setActive v lr.vintid false, false)
      else
        (((s.setPending v lr.vintid false).setActive v lr.vintid false).removeLr v idx, true)
    else if lr.state = .invalid then ((s.copyBack v lr d).removeLr v idx, true)
    else (s.copyBack v lr d, false)
  else if lr.state = .invalid then (s.removeLr v idx, true)
  else (s, false)

def syncLr : Core × Bool :=
  s.settleLr e line v loaded idx ((s.ctx v).lrs.slot idx) (s.irq v ((s.ctx v).lrs.slot idx).vintid)

/-- The loop over the remaining slots. Each turn either moves on or removes the slot
it looks at, so the number of turns is the number of slots still to look at. -/
def syncLrs (e : Env) (line : Samples) (v : Vid) (loaded : Bool) :
    Nat → Nat → Core → Core
  | 0, _, s => s
  | n + 1, idx, s =>
    if (s.syncLr e line v loaded idx).2 then
      syncLrs e line v loaded n idx (s.syncLr e line v loaded idx).1
    else syncLrs e line v loaded n (idx + 1) (s.syncLr e line v loaded idx).1

/-! ## The whole sync -/

/-- The context after reading the hardware. Ends of interrupt the hardware only
counted are not kept. -/
def readBackCtx (count : Nat) (h : CpuIf) (c : Ctx) : Ctx :=
  { syncLiveCpuif h (readLrs count h c) with
    hcr := (if hasBits h.hcr ichHcrEoicountMask then h.hcr else c.hcr) &&&
      ~~~(ichHcrEoicountMask ||| ichHcrTc) }

/-- The part of a sync that reads the hardware; a count of ends of interrupt is
consumed there. -/
def readBack : Core :=
  (s.modCtx v (readBackCtx e.lrCount (s.ich v))).writeHcr v
    (hasBits (s.ich v).hcr ichHcrEoicountMask)

def completeReported : Core :=
  if hasBits (s.ctx v).vmcr ichVmcrEoim then s
  else s.completeEoiLrs e line c v old eoi e.lrCount

/-- `PPI27` is put back if its line is high. -/
def restoreTimer : Core :=
  if e.hasDesc v ppiVirtualTimer && (s.irq v ppiVirtualTimer).level &&
      (s.irq v ppiVirtualTimer).pending then
    s.requeueLr e v ppiVirtualTimer true
  else s

/-- Everything after the readback: `old` is the replaced copy, `eoi` the reported
completions. -/
def reconcile : Core :=
  let s := s.completeReported e line c v old eoi
  let s := s.syncLostLrs e line v loaded eoi old
  let s := s.syncLrs e line v loaded (s.ctx v).lrs.used 0
  if loaded then s.restoreTimer e v else s

def syncVcpu (isCurrent : Bool) (v : Vid) (s : Core) : Core :=
  if !isCurrent && e.vcpuIsRunningRemote c v then s
  else if isCurrent || e.vcpuIsLoaded c v then
    (s.readBack e v).reconcile e line c v true (s.ctx v).lrs ((s.ich v).eisr e.lrCount)
  else s.reconcile e line c v false (s.ctx v).lrs fun _ => false

end

end Core

end Sima.Vgic
