import Sima.Vgic.Deliver

/-!
# The virtual machine's interrupt controller, and its ITS

`Vm` adds to the delivery state what routes interrupts and what the guest
programs: the targets of the SPIs, the redistributor registers, and the
interrupt translation service of `vgicv3_its.c` with its tables and its command
queue.

The commands lie in guest memory. What `copy_from_gpa` finds there is an input,
by address; `none` is a failed copy.
-/

namespace Sima.Vgic

open Lib
open Function (update)

def itsDeviceNum : Nat := 16
def itsEventNum : Nat := 32
def itsBaserNum : Nat := 8
def itsCmdSize : Nat := 32
def itsCmdQueueBudget : Nat := 1024
def pageSize : Nat := 4096

structure Collection where
  collectionId : Nat
  targetVcpu : Nat
  valid : Bool
deriving DecidableEq, Repr

structure Device where
  deviceId : Nat := 0
  ittAddr : BitVec 64 := 0
  eventCount : Nat := 0
  valid : Bool := false
deriving DecidableEq, Repr

structure Event where
  deviceId : Nat := 0
  eventId : Nat := 0
  lpi : Nat := 0
  collectionId : Nat := 0
  valid : Bool := false
deriving DecidableEq, Repr

/-- `struct arm64_vits`. -/
structure Its where
  ctlr : BitVec 32
  typer : BitVec 64
  cbaser : BitVec 64 := 0
  cwriter : BitVec 64 := 0
  creadr : BitVec 64 := 0
  baser : Nat → BitVec 64
  collection : Nat → Collection
  device : Nat → Device := fun _ => {}
  event : Nat → Nat → Event := fun _ _ => {}

def itsCtlrEnable : BitVec 32 := 0x1
def itsCtlrQuiescent : BitVec 32 := 0x80000000
def itsCbaserValid : BitVec 64 := 1 <<< 63
def itsCbaserAddressMask : BitVec 64 := 0x0000fffffffff000
def itsCbaserSizeMask : BitVec 64 := 0xff
def itsCmdIttAddressMask : BitVec 64 := 0x000fffffffffff00

def itsBaserType (type entrySize : Nat) : BitVec 64 :=
  BitVec.ofNat 64 type <<< 56 ||| BitVec.ofNat 64 (entrySize - 1) <<< 48

/-- `arm64_vgicv3_its_init`. -/
def Its.init (vcpuCount : Nat) : Its where
  ctlr := itsCtlrQuiescent
  typer := 1 ||| (15 : BitVec 64) <<< 4 ||| (13 : BitVec 64) <<< 8 ||| (14 : BitVec 64) <<< 13
  baser := fun idx =>
    if idx = 0 then itsBaserType 1 8 else if idx = 1 then itsBaserType 4 8 else 0
  collection := fun idx =>
    { collectionId := idx, targetVcpu := idx, valid := decide (idx < vcpuCount) }

/-- Everything of `struct arm64_vgicv3` and of the vCPUs' contexts. `target v virq`
is the `target_vcpu` of a descriptor. -/
structure Vm where
  env : Env
  core : Core
  target : Vid → Nat → Nat
  spiRouter : Nat → BitVec 64
  rdistCount : Nat
  rdistVcpu : Nat → Option Vid
  gicrWaker : Nat → BitVec 32
  gicrPropbaser : Nat → BitVec 64
  gicrPendbaser : Nat → BitVec 64
  its : Its

namespace Vm

section

variable (m : Vm) (its : Its) (virq deviceId : Nat)

def modCore (f : Env → Core → Core) : Vm := { m with core := f m.env m.core }

def modIts (f : Its → Its) : Vm := { m with its := f m.its }

/-! ## Routing -/

def validTargetVcpu (t : Nat) : Vid := if t < m.env.vcpuCount then t else 0

/-- The vCPU that an SPI goes to, as the register model sees it. -/
def spiTarget : Vid := m.validTargetVcpu (m.target 0 virq)

/-- `vgic_irq_target_vcpu`, as injection sees it. -/
def irqTargetVcpu (v : Vid) (virq : Nat) : Vid :=
  if isSpi virq then
    if m.env.createdVcpus ≤ m.target 0 virq then 0 else m.target 0 virq
  else v

def movePending (old new : Vid) (virq : Nat) (s : Core) : Core :=
  if (s.irq old virq).pending then
    (s.setPending old virq false).setPending new virq true
  else s

def moveActive (old new : Vid) (virq : Nat) (s : Core) : Core :=
  if (s.irq old virq).active then (s.setActive old virq false).setActive new virq true
  else s

/-- Pending and active state leave one row for another. -/
def moveIrq (e : Env) (old new : Vid) (virq : Nat) (s : Core) : Core :=
  ((moveActive old new virq (movePending old new virq s)).updateIrqRowLr e old
    virq).updateIrqRowLr e new virq

/-- `vgic_set_spi_target`. -/
def setSpiTarget (t : Nat) : Vm :=
  if isSpi virq then
    let new := m.validTargetVcpu t
    let m := if m.spiTarget virq = new then m
      else m.modCore fun e => moveIrq e (m.spiTarget virq) new virq
    { m with
      target := fun v i => if v < m.env.vcpuCount ∧ i = virq then new else m.target v i }
  else m

/-! ## The translation tables -/

def findCollection (collectionId : Nat) : Option Nat :=
  (List.range m.env.maxVcpus).find? fun idx => (m.its.collection idx).collectionId == collectionId

def deviceIs (idx : Nat) : Bool :=
  (its.device idx).valid && (its.device idx).deviceId == deviceId

def findDevice : Option Nat :=
  (List.range itsDeviceNum).find? (deviceIs its deviceId)

/-- The slots of the devices with this id, in the order the tables are searched. -/
def deviceSlots : List Nat :=
  (List.range itsDeviceNum).filter (deviceIs its deviceId)

def findEvent (eventId : Nat) : Option (Nat × Nat) :=
  (deviceSlots its deviceId).findSome? fun dev =>
    ((List.range itsEventNum).find? fun evt =>
      (its.event dev evt).valid && (its.event dev evt).eventId == eventId).map (dev, ·)

def setDevice (idx : Nat) (d : Device) : Its :=
  { its with device := update its.device idx d }

def setEvent (p : Nat × Nat) (ev : Event) : Its :=
  { its with
    event := update its.event p.1 (update (its.event p.1) p.2 ev) }

def eventAt (p : Nat × Nat) : Event := its.event p.1 p.2

/-- The slot `vits_alloc_device` would take. -/
def freeDevice : Option Nat :=
  (List.range itsDeviceNum).find? fun idx => !(its.device idx).valid

/-- The slot `vits_alloc_event` would take: the search ends at the first device
whose event count leaves the event out. -/
def freeEvent (its : Its) (eventId : Nat) : List Nat → Option (Nat × Nat)
  | [] => none
  | dev :: rest =>
    if (its.device dev).eventCount ≤ eventId then none
    else match (List.range itsEventNum).find? fun evt => !(its.event dev evt).valid with
      | some evt => some (dev, evt)
      | none => freeEvent its eventId rest

/-- `vits_target_vcpu_id`; `none` is `VGIC_ITS_INVALID_VCPU_ID`. -/
def collectionTarget (collectionId : Nat) : Option Vid :=
  (m.findCollection collectionId).bind fun idx =>
    if (m.its.collection idx).valid then
      some (m.validTargetVcpu (m.its.collection idx).targetVcpu)
    else none

/-- The row of an event's LPI, if the event leads anywhere. -/
def eventTarget (ev : Event) : Option Vid :=
  (m.collectionTarget ev.collectionId).filter fun t => decide (t < m.env.vcpuCount)

end

/-- `vits_inject_event_locked`. -/
def injectEvent (line : Samples) (c : Caller) (ev : Event) (m : Vm) : Vm :=
  if ev.valid && isLpi ev.lpi then
    match m.eventTarget ev with
    | some t =>
      { m with
        target := fun v i => if v = t ∧ i = ev.lpi then t else m.target v i
        core := m.core.injectLocked m.env line c t ev.lpi false }
    | none => m
  else m

def injectFound (line : Samples) (c : Caller) (deviceId eventId : Nat) (m : Vm) : Vm :=
  match findEvent m.its deviceId eventId with
  | some p => m.injectEvent line c (eventAt m.its p)
  | none => m

/-! ## Commands -/

/-- The four words of a command. -/
structure Cmd where
  w0 : BitVec 64
  w1 : BitVec 64
  w2 : BitVec 64
  w3 : BitVec 64
deriving DecidableEq

namespace Cmd

section

variable (cmd : Cmd)

def opcode : Nat := (cmd.w0 &&& 0xff).toNat
def deviceId : Nat := (cmd.w0 >>> 32).toNat
def eventId : Nat := (cmd.w1 &&& 0xffffffff).toNat
def lpi : Nat := (cmd.w1 >>> 32).toNat
def collectionId : Nat := (cmd.w2 &&& 0xffff).toNat
def rdbase : Nat := (cmd.w2 >>> 16 &&& 0xffff).toNat
def valid : Bool := hasBits cmd.w2 (1 <<< 63)

/-- The events a mapped device gets, never more than the table holds. -/
def eventCount : Nat :=
  let size := (cmd.w1 &&& 0x1f).toNat + 1
  min (if size < 16 then 2 ^ size else itsEventNum) itsEventNum

end

end Cmd

def dropDevice (deviceId : Nat) (its : Its) : Its :=
  match findDevice its deviceId with
  | some idx =>
    setDevice
      { its with
        event := fun dev evt =>
          if dev = idx then { its.event dev evt with valid := false }
          else its.event dev evt } idx {}
  | none => its

section

variable (m : Vm) (cmd : Cmd) (its : Its)

def mapDevice : Its :=
  match (findDevice its cmd.deviceId).or (freeDevice its) with
  | some idx =>
    let d := { its.device idx with deviceId := cmd.deviceId, valid := true }
    let ittAddr := cmd.w2 &&& itsCmdIttAddressMask
    -- a changed table forgets its events
    let its := if d.ittAddr != ittAddr || d.eventCount != cmd.eventCount then
        { its with event := update its.event idx fun _ => {} } else its
    setDevice its idx { d with ittAddr := ittAddr, eventCount := cmd.eventCount }
  | none => its

def mapCollection (m : Vm) : Vm :=
  match m.findCollection cmd.collectionId with
  | some idx =>
    m.modIts fun its =>
      { its with
        collection := update its.collection idx
          { its.collection idx with
            valid := cmd.valid, targetVcpu := m.validTargetVcpu cmd.rdbase } }
  | none => m

/-- The descriptors of a mapped LPI are enabled, at the default priority. -/
def enableLpi (lpi : Nat) (m : Vm) : Vm :=
  m.modCore fun e s =>
    (List.range e.vcpuCount).foldl (fun s v =>
      s.modIrq v lpi fun d => { d with enabled := true, priority := gicPriorityDefault }) s

/-- The collection of a command, if it may be used. -/
def usableCollection : Bool :=
  match m.findCollection cmd.collectionId with
  | some idx => (m.its.collection idx).valid
  | none => false

/-- The slot a mapped event is kept in, found or freshly allocated. -/
def slotForEvent : Option ((Nat × Nat) × Event) :=
  match findEvent its cmd.deviceId cmd.eventId with
  | some p => some (p, eventAt its p)
  | none =>
    (freeEvent its cmd.eventId (deviceSlots its cmd.deviceId)).map fun p =>
      (p, { eventAt its p with
        deviceId := cmd.deviceId, eventId := cmd.eventId, valid := true })

def mapEvent (lpi : Nat) (m : Vm) : Vm :=
  match findDevice m.its cmd.deviceId with
  | some dev =>
    if isLpi lpi && decide (cmd.eventId < (m.its.device dev).eventCount) &&
        m.usableCollection cmd then
      match slotForEvent cmd m.its with
      | some (p, ev) =>
        (m.modIts fun its => setEvent its p
          { ev with lpi := lpi, collectionId := cmd.collectionId }).enableLpi lpi
      | none => m
    else m
  | none => m

def modFoundEvent (f : Event → Event) (m : Vm) : Vm :=
  match findEvent m.its cmd.deviceId cmd.eventId with
  | some p => m.modIts fun its => setEvent its p (f (eventAt its p))
  | none => m

/-- The `CLEAR` command. -/
def clearEvent (ev : Event) (m : Vm) : Vm :=
  if isLpi ev.lpi then
    match m.eventTarget ev with
    | some t => m.modCore fun e s =>
      ((s.setPending t ev.lpi false).setActive t ev.lpi false).updateIrqRowLr e t ev.lpi
    | none => m
  else m

/-- `vits_execute_cmd`. -/
def executeCmd (line : Samples) (c : Caller) (cmd : Cmd) (m : Vm) : Vm :=
  match cmd.opcode with
  | 0x08 => if cmd.valid then m.modIts (mapDevice cmd)
      else m.modIts (dropDevice cmd.deviceId)
  | 0x09 => m.mapCollection cmd
  | 0x0b => m.mapEvent cmd ((lpiBase + cmd.eventId) % 2 ^ 32)
  | 0x0a => m.mapEvent cmd cmd.lpi
  | 0x01 => if m.usableCollection cmd then
      m.modFoundEvent cmd fun ev => { ev with collectionId := cmd.collectionId } else m
  | 0x0f => m.modFoundEvent cmd fun ev => { ev with valid := false }
  | 0x03 => m.injectFound line c cmd.deviceId cmd.eventId
  | 0x04 => match findEvent m.its cmd.deviceId cmd.eventId with
      | some p => m.clearEvent (eventAt m.its p)
      | none => m
  | _ => m

def cmdQueueBase : Nat := (its.cbaser &&& itsCbaserAddressMask).toNat

def cmdQueueSize : Nat :=
  ((its.cbaser &&& itsCbaserSizeMask).toNat + 1) * pageSize

/-- Guest memory as `copy_from_gpa` reads a command from it. -/
abbrev GuestMem := Nat → Option Cmd

/-- The loop of `vits_process_command_queue`: at most `fuel` more commands, the
reader's place when it stops, and whether any was executed. -/
def processCommands (mem : GuestMem) (lines : Nat → Samples) (c : Caller)
    (base size writer : Nat) : Nat → Nat → Vm → Vm × Nat × Bool
  | 0, reader, m => (m, reader, false)
  | fuel + 1, reader, m =>
    if reader = writer then (m, reader, false)
    else match mem (base + reader) with
      | none => (m, reader, false)
      | some cmd =>
        let r := processCommands mem lines c base size writer fuel
          (if size ≤ reader + itsCmdSize then 0 else reader + itsCmdSize)
          (m.executeCmd (lines fuel) c cmd)
        (r.1, r.2.1, true)

def queueUsable : Bool :=
  hasBits its.ctlr itsCtlrEnable && hasBits its.cbaser itsCbaserValid &&
    decide (itsCmdSize ≤ cmdQueueSize its) &&
    decide (its.creadr.toNat < cmdQueueSize its) &&
    decide (its.cwriter.toNat < cmdQueueSize its) &&
    its.creadr.toNat % itsCmdSize == 0 && its.cwriter.toNat % itsCmdSize == 0

end

/-- The reader stops where the loop stopped. -/
def endQueue (r : Vm × Nat × Bool) : Vm × Bool :=
  (r.1.modIts fun its => { its with creadr := BitVec.ofNat 64 r.2.1 }, r.2.2)

/-- `vits_process_command_queue`, and whether the VM has to be flushed. A queue that
cannot be used is skipped. -/
def processCommandQueue (mem : GuestMem) (lines : Nat → Samples) (c : Caller) (m : Vm) :
    Vm × Bool :=
  if queueUsable m.its then
    endQueue (processCommands mem lines c (cmdQueueBase m.its) (cmdQueueSize m.its)
      m.its.cwriter.toNat itsCmdQueueBudget m.its.creadr.toNat m)
  else (m.modIts fun its => { its with creadr := its.cwriter }, false)

end Vm

end Sima.Vgic
