import Sima.Vgic.Its

/-!
# The distributor and redistributor registers

What a guest access to a GICD or GICR register reads and changes: decoding an
offset into a register family, the per-INTID bits, priorities, trigger modes and
routes, and the frame-level registers of a redistributor.

Enabling, disabling, re-prioritising and re-configuring an interrupt are one
operation — change the descriptor, in every row for an SPI and in the accessed
row otherwise, and refresh the list register it has. Pending and active state is
changed in one row only, for an SPI that of its target.
-/

namespace Sima.Vgic

open Lib
open Function (update)

inductive Dir where
  | read | write | other
deriving DecidableEq, Repr

/-- `struct acrn_mmio_request`. -/
structure Mmio where
  dir : Dir
  address : Nat
  size : Nat
  value : BitVec 64 := 0

inductive Status where
  | ok | einval | enodev
deriving DecidableEq, Repr

/-- The part of the VM's configuration that says where the frames are, and the two
values a read takes from elsewhere. -/
structure GicConfig where
  gicdBase : Nat
  gicdSize : Nat
  gicrBase : Nat
  gicrSize : Nat
  gicrStride : Nat
  itsBase : Nat
  itsSize : Nat
  gicIidr : BitVec 64
  bspVmpidr : BitVec 64

def addrInRange (addr base size : Nat) : Bool :=
  size != 0 && decide (base ≤ addr) && decide (addr - base < size)

section

variable (offset size : Nat) (localBank : Bool)

def mmioAccessInRange (start stop : Nat) : Bool :=
  decide (start ≤ offset) && decide (offset < stop) && decide (size ≤ stop - offset)

def byteSizes : Bool := size == 1 || size == 2 || size == 4

def priorityAccess : Bool :=
  byteSizes size && mmioAccessInRange offset size 0x400 0x800

def targetAccess : Bool :=
  byteSizes size && mmioAccessInRange offset size 0x800 0xc00

def wordAccess : Bool := size == 4 && offset % 4 == 0

/-- The register families with one bit for each INTID. -/
inductive IrqBitReg where
  | igroupr | isenabler | icenabler | ispendr | icpendr | isactiver | icactiver
  | igrpmodr
deriving DecidableEq, Repr

/-- The families below `IPRIORITYR` are 0x80 bytes each. -/
def irqBitRegAt : Option (IrqBitReg × Nat) :=
  if 0x80 ≤ offset ∧ offset < 0x100 then some (.igroupr, 0x80)
  else if 0x100 ≤ offset ∧ offset < 0x180 then some (.isenabler, 0x100)
  else if 0x180 ≤ offset ∧ offset < 0x200 then some (.icenabler, 0x180)
  else if 0x200 ≤ offset ∧ offset < 0x280 then some (.ispendr, 0x200)
  else if 0x280 ≤ offset ∧ offset < 0x300 then some (.icpendr, 0x280)
  else if 0x300 ≤ offset ∧ offset < 0x380 then some (.isactiver, 0x300)
  else if 0x380 ≤ offset ∧ offset < 0x400 then some (.icactiver, 0x380)
  else if 0xd00 ≤ offset ∧ offset < 0xd00 + (if localBank then 1 else irqWords) * 4 then
    some (.igrpmodr, 0xd00)
  else none

/-- `vgic_decode_irq_bit_reg`: the family and the first INTID of the word. A local
bank has only the first word. -/
def decodeIrqBitReg : Option (IrqBitReg × Nat) :=
  match irqBitRegAt offset localBank with
  | some (r, start) =>
    if localBank then (if (offset - start) / 4 * 32 = 0 then some (r, 0) else none)
    else some (r, (offset - start) / 4 * 32)
  | none => none

/-- `vgic_decode_irq_config_reg`: the first INTID of the word. -/
def decodeIrqConfigReg : Option Nat :=
  let maxIrqs := if localBank then localIrqNum else irqNum
  if 0xc00 ≤ offset ∧ offset < 0xc00 + maxIrqs / 16 * 4 then
    some ((offset - 0xc00) / 4 * 16)
  else none

/-- `vgic_decode_irouter_reg`: the SPI, and whether this is the upper word. -/
def decodeIrouterReg : Option (Nat × Bool) :=
  if 0x6000 ≤ offset ∧ isSpi ((offset - 0x6000) / 8) = true ∧
      (offset - 0x6000) % 4 = 0 then
    some ((offset - 0x6000) / 8, decide ((offset - 0x6000) % 8 = 4))
  else none

def byteAt (value : BitVec 64) (byte : Nat) : BitVec 64 := value >>> (byte * 8) &&& 0xff

/-- The word whose bits answer a question about each position. -/
def packBits (p : Nat → Bool) : BitVec 32 :=
  (List.range 32).foldl (fun w bit => if p bit then w ||| Bitmap.mask bit else w) 0

def packBytes (f : Nat → BitVec 64) : BitVec 64 :=
  (List.range size).foldl (fun w byte => w ||| f byte <<< (byte * 8)) 0

end

namespace Core

/-! ## Changing descriptors -/

section

variable (e : Env) (v : Vid) (virq : Nat)

/-- The rows of an SPI, one after the other. -/
def configRows (f : VgicIrq → VgicIrq) (s : Core) : Core :=
  (List.range e.vcpuCount).foldl (fun s v => (s.modIrq v virq f).updateIrqRowLr e v virq) s

def configIrq (f : VgicIrq → VgicIrq) (s : Core) : Core :=
  if isSpi virq then s.configRows e virq f
  else if e.hasDesc v virq then (s.modIrq v virq f).updateIrqLr v virq
  else s

def setEnabled (b : Bool) (s : Core) : Core :=
  s.configIrq e v virq fun d => { d with enabled := b }

/-- `vgic_write_irq_priority`. -/
def writeIrqPriority (irqBase size : Nat) (value : BitVec 64) (s : Core) : Core :=
  (List.range size).foldl (fun s byte =>
    s.configIrq e v (irqBase + byte) fun d => { d with priority := (byteAt value byte).toNat }) s

/-- `vgic_write_irq_config` for one INTID: SGIs are fixed, and so is the virtual
timer, which is set to level again. -/
def configTrigger (edge : Bool) (s : Core) : Core :=
  if irqNum ≤ virq then s
  else if irqConfigurable virq then
    s.configIrq e v virq fun d => { d with level := !edge }
  else if isVtimer virq then
    s.configIrq e v virq fun d => { d with level := true }
  else s

def writeIrqConfig (irqBase : Nat) (val : BitVec 32) (s : Core) : Core :=
  (List.range 16).foldl (fun s idx =>
    s.configTrigger e v (irqBase + idx) (val.getLsbD (idx * 2 + 1))) s

/-- One bit of `vgic_write_irq_bits`; `row` is where pending and active state is
kept. -/
def writeIrqBit (row : Vid) (r : IrqBitReg) (virq : Nat) (s : Core) : Core :=
  match r with
  | .isenabler => s.setEnabled e v virq true
  | .icenabler => s.setEnabled e v virq false
  | .ispendr => (s.setPending row virq true).updateIrqRowLr e row virq
  | .icpendr => (s.setPending row virq false).updateIrqRowLr e row virq
  | .isactiver => (s.setActive row virq true).updateIrqRowLr e row virq
  | .icactiver => (s.setActive row virq false).updateIrqRowLr e row virq
  | .igroupr | .igrpmodr => s

end

end Core

namespace Vm

section

variable (cfg : GicConfig) (m : Vm) (f : Frame) (v : Vid) (offset virq irqBase size : Nat)
    (r : IrqBitReg)

/-- The row that holds pending and active state of an INTID accessed through `v`. -/
def stateRow : Vid :=
  if isSpi virq then m.spiTarget virq else v

/-- `vgic_write_irq_bits`. Nothing in it re-routes, so the rows are those at its
start. -/
def writeIrqBits (val : BitVec 32) (m : Vm) : Vm :=
  m.modCore fun e s => (List.range 32).foldl (fun s bit =>
    if decide (irqBase + bit < irqNum) && val.getLsbD bit then
      s.writeIrqBit e v (m.stateRow v (irqBase + bit)) r (irqBase + bit)
    else s) s

/-- The lowest set bit of a target byte, and vCPU 0 for an empty one. -/
def targetOfMask (mask : BitVec 64) : Nat :=
  ((List.range 8).find? mask.getLsbD).getD 0

/-- `vgic_write_irq_target`. -/
def writeIrqTarget (value : BitVec 64) (m : Vm) : Vm :=
  (List.range size).foldl (fun m byte =>
    m.setSpiTarget (irqBase + byte) (targetOfMask (byteAt value byte))) m

/-- `vgic_irouter_target_vcpu`. -/
def irouterTargetVcpu (router : BitVec 64) : Vid :=
  if !hasBits router (1 <<< 31) && router >>> 8 &&& 0xff == 0 &&
      router >>> 16 &&& 0xff == 0 && router >>> 32 &&& 0xff == 0 &&
      decide ((router &&& 0xff).toNat < m.env.vcpuCount) then (router &&& 0xff).toNat
  else 0

def routerWith (router : BitVec 64) (upper : Bool) (value : BitVec 32) : BitVec 64 :=
  if upper then router &&& 0xffffffff ||| value.setWidth 64 <<< 32
  else router &&& ~~~0xffffffff ||| value.setWidth 64

/-- `vgic_write_irouter_word`. -/
def writeIrouterWord (upper : Bool) (value : BitVec 32) (m : Vm) : Vm :=
  let router := routerWith (m.spiRouter (virq - localIrqNum)) upper value
  let m := { m with spiRouter := update m.spiRouter (virq - localIrqNum) router }
  m.setSpiTarget virq (m.irouterTargetVcpu router)

/-! ## Reading -/

/-- `vgic_read_irq_bit_desc`. -/
def irqBitDesc : Option VgicIrq :=
  if irqNum ≤ virq then none
  else
    let row := if isSpi virq then
      match r with
      | .ispendr | .icpendr | .isactiver | .icactiver => m.spiTarget virq
      | _ => 0
      else v
    if row < m.env.maxVcpus then some (m.core.irq row virq) else none

def irqBit (d : VgicIrq) : Bool :=
  match r with
  | .igroupr => true
  | .isenabler | .icenabler => d.enabled
  | .ispendr | .icpendr => d.pending
  | .isactiver | .icactiver => d.active
  | .igrpmodr => false

def readIrqBits : BitVec 32 :=
  packBits fun bit =>
    match m.irqBitDesc v (irqBase + bit) r with
    | some d => irqBit r d
    | none => false

/-- The descriptor that answers for an INTID's configuration: that of row 0 for an
SPI. -/
def configDesc : Option VgicIrq :=
  if isSpi virq then some (m.core.irq 0 virq)
  else if m.env.hasDesc v virq then some (m.core.irq v virq)
  else none

def readIrqPriority : BitVec 64 :=
  packBytes size fun byte =>
    match m.configDesc v (irqBase + byte) with
    | some d => BitVec.ofNat 64 d.priority
    | none => BitVec.ofNat 64 gicPriorityDefault

def readIrqTarget : BitVec 64 :=
  packBytes size fun byte =>
    if isSpi (irqBase + byte) then (1 <<< m.spiTarget (irqBase + byte)) &&& 0xff else 0

def readIrqConfig : BitVec 32 :=
  packBits fun bit =>
    bit % 2 == 1 && decide (irqBase + bit / 2 < irqNum) &&
      match m.configDesc v (irqBase + bit / 2) with
      | some d => !d.level
      | none => false

def readIrouterWord (upper : Bool) : BitVec 32 :=
  if upper then (m.spiRouter (virq - localIrqNum) >>> 32).setWidth 32
  else (m.spiRouter (virq - localIrqNum)).setWidth 32

def gicdTyper : BitVec 32 :=
  31 ||| (BitVec.ofNat 32 (m.env.vcpuCount - 1) &&& 0x7) <<< 5 |||
    if m.env.itsEnabled then (12 : BitVec 32) <<< 11 ||| 0x20000 ||| (13 : BitVec 32) <<< 19
    else 0

/-! ## The distributor -/

/-- `vgicd_mmio_read`. -/
def gicdRead (m : Vm) : BitVec 64 :=
  match decodeIrqBitReg offset false with
  | some (r, irqBase) => (m.readIrqBits v irqBase r).setWidth 64
  | none =>
    match decodeIrqConfigReg offset false with
    | some irqBase => (m.readIrqConfig v irqBase).setWidth 64
    | none =>
      if offset = 0 then m.env.gicdCtlr.setWidth 64
      else if offset = 4 then m.gicdTyper.setWidth 64
      else if offset = 8 then cfg.gicIidr
      else if 0x800 ≤ offset ∧ offset < 0xc00 then m.readIrqTarget (offset - 0x800) size
      else if offset = 0xffe8 then 0x30
      else match decodeIrouterReg offset with
        | some (virq, upper) => (m.readIrouterWord virq upper).setWidth 64
        | none => 0

/-- `vgicd_mmio_write`, and whether the VM has to be flushed. -/
def gicdWrite (value : BitVec 64) (m : Vm) : Vm × Bool :=
  match decodeIrqBitReg offset false with
  | some (r, irqBase) => (m.writeIrqBits v irqBase r (value.setWidth 32), true)
  | none =>
    match decodeIrqConfigReg offset false with
    | some irqBase => (m.modCore fun e s => s.writeIrqConfig e v irqBase (value.setWidth 32), true)
    | none =>
      if offset = 0 then
        ({ m with env := { m.env with
            gicdCtlr := value.setWidth 32 &&& ~~~0x80000000 } }, true)
      else if 0x800 ≤ offset ∧ offset < 0xc00 then
        (m.writeIrqTarget (offset - 0x800) size value, true)
      else if offset < 0xffe8 then
        match decodeIrouterReg offset with
        | some (virq, upper) => (m.writeIrouterWord virq upper (value.setWidth 32), true)
        | none => (m, false)
      else (m, false)

/-- What an access leaves behind: the machine, the value of a read, the status. -/
structure Outcome where
  vm : Vm
  value : BitVec 64
  status : Status

/-- An access whose direction is neither read nor write is refused. -/
def access (req : Mmio) (m : Vm) (read : Vm → Vm × BitVec 64) (write : Vm → Vm) :
    Outcome :=
  match req.dir with
  | .read => ⟨(read m).1, (read m).2, .ok⟩
  | .write => ⟨write m, req.value, .ok⟩
  | .other => ⟨m, req.value, .einval⟩

/-- A write that asks for it is followed by a flush. -/
def flushAfter (flush : Vm → Vm) (r : Vm × Bool) : Vm := if r.2 then flush r.1 else r.1

def flushAll (m : Vm) : Vm := m.modCore fun e s => s.flushVm e v

/-- `vgicd_mmio_access`. -/
def gicdAccess (req : Mmio) (m : Vm) : Outcome :=
  let offset := (req.address - cfg.gicdBase) % 2 ^ 32
  if priorityAccess offset req.size then
    access req m (fun m => (m, m.readIrqPriority v (offset - 0x400) req.size))
      fun m => (m.modCore fun e s =>
        s.writeIrqPriority e v (offset - 0x400) req.size req.value).flushAll v
  else if targetAccess offset req.size then
    access req m (fun m => (m, m.readIrqTarget (offset - 0x800) req.size))
      fun m => (m.writeIrqTarget (offset - 0x800) req.size req.value).flushAll v
  else if wordAccess offset req.size then
    access req m (fun m => (m, m.gicdRead cfg v offset req.size))
      fun m => flushAfter (flushAll v) (m.gicdWrite v offset req.size req.value)
  else ⟨m, req.value, .einval⟩

/-! ## A redistributor -/

/-- `struct vgicr_frame`. -/
structure Frame where
  pcpuId : Nat
  vcpuId : Option Vid
  offset : Nat

/-- `vgicr_decode_frame`. -/
def decodeFrame (addr : Nat) : Option Frame :=
  let pcpuId := (addr - cfg.gicrBase) / cfg.gicrStride % 2 ^ 16
  if pcpuId < m.env.maxVcpus ∧ pcpuId < m.rdistCount then
    some
      { pcpuId := pcpuId
        vcpuId := (m.rdistVcpu pcpuId).filter fun v => decide (v < m.env.createdVcpus)
        offset := (addr - cfg.gicrBase) % cfg.gicrStride % 2 ^ 32 }
  else none

def gicrTyper : BitVec 64 :=
  BitVec.ofNat 64 f.pcpuId <<< 8 ||| BitVec.ofNat 64 (f.vcpuId.getD 0xff) <<< 32 |||
    (if m.env.itsEnabled then 1 else 0) |||
    (if f.pcpuId + 1 = m.rdistCount then 0x10 else 0)

def lowWord (r : BitVec 64) : BitVec 64 := r &&& 0xffffffff

def setLowWord (r value : BitVec 64) : BitVec 64 :=
  r &&& 0xffffffff00000000 ||| lowWord value

def setHighWord (r value : BitVec 64) : BitVec 64 := lowWord r ||| lowWord value <<< 32

/-- `vgicr_sgi_mmio_read`. -/
def gicrSgiRead (t : Vid) (offset size : Nat) (m : Vm) : BitVec 64 :=
  match decodeIrqBitReg offset true with
  | some (r, irqBase) => (m.readIrqBits t irqBase r).setWidth 64
  | none =>
    match decodeIrqConfigReg offset true with
    | some irqBase => (m.readIrqConfig t irqBase).setWidth 64
    | none =>
      if 0x400 ≤ offset ∧ offset < 0xc00 then m.readIrqPriority t (offset - 0x400) size
      else 0

/-- `vgicr_sgi_mmio_write`. -/
def gicrSgiWrite (t : Vid) (offset size : Nat) (value : BitVec 64) (m : Vm) :
    Vm × Bool :=
  match decodeIrqBitReg offset true with
  | some (r, irqBase) => (m.writeIrqBits t irqBase r (value.setWidth 32), true)
  | none =>
    match decodeIrqConfigReg offset true with
    | some irqBase => (m.modCore fun e s => s.writeIrqConfig e t irqBase (value.setWidth 32), true)
    | none =>
      if 0x400 ≤ offset ∧ offset < 0xc00 then
        (m.modCore fun e s => s.writeIrqPriority e t (offset - 0x400) size value, true)
      else (m, false)

/-- `vgicr_mmio_read`. -/
def gicrRead (m : Vm) : BitVec 64 :=
  if f.offset = 0 then (m.env.gicrCtlr f.pcpuId &&& ~~~0x8).setWidth 64
  else if f.offset = 0x4 then cfg.gicIidr
  else if f.offset = 0x8 then lowWord (m.gicrTyper f)
  else if f.offset = 0xc then m.gicrTyper f >>> 32
  else if f.offset = 0x14 then (m.gicrWaker f.pcpuId &&& 0x6).setWidth 64
  else if f.offset = 0x70 then lowWord (m.gicrPropbaser f.pcpuId)
  else if f.offset = 0x74 then m.gicrPropbaser f.pcpuId >>> 32
  else if f.offset = 0x78 then lowWord (m.gicrPendbaser f.pcpuId)
  else if f.offset = 0x7c then m.gicrPendbaser f.pcpuId >>> 32
  else if f.offset = 0xffe8 then 0x30
  else if 0x10000 ≤ f.offset ∧ f.offset < 0x20000 then
    match f.vcpuId with
    | some t => m.gicrSgiRead t (f.offset - 0x10000) size
    | none => 0
  else 0

/-- `vgicr_write_waker`. -/
def wakerOf (value : BitVec 32) : BitVec 32 := if hasBits value 0x2 then 0x6 else 0

/-- `vgicr_mmio_write`, and whether the frame's vCPU has to be flushed. -/
def gicrWrite (value : BitVec 64) (m : Vm) : Vm × Bool :=
  if f.offset = 0 then
    if m.env.itsEnabled then
      ({ m with env := { m.env with
          gicrCtlr := update m.env.gicrCtlr f.pcpuId
            (value.setWidth 32 &&& gicrCtlrEnableLpis) } }, f.vcpuId.isSome)
    else (m, false)
  else if f.offset = 0x14 then
    ({ m with
      gicrWaker := update m.gicrWaker f.pcpuId (wakerOf (value.setWidth 32)) },
      false)
  else if f.offset = 0x70 ∨ f.offset = 0x74 then
    let r := m.gicrPropbaser f.pcpuId
    let r := if f.offset = 0x70 then setLowWord r value else setHighWord r value
    (if m.env.itsEnabled then
      { m with gicrPropbaser := update m.gicrPropbaser f.pcpuId r } else m, false)
  else if f.offset = 0x78 ∨ f.offset = 0x7c then
    let r := m.gicrPendbaser f.pcpuId
    let r := if f.offset = 0x78 then setLowWord r value else setHighWord r value
    (if m.env.itsEnabled then
      { m with gicrPendbaser := update m.gicrPendbaser f.pcpuId r } else m, false)
  else if 0x10000 ≤ f.offset ∧ f.offset < 0x20000 then
    match f.vcpuId with
    | some t => m.gicrSgiWrite t (f.offset - 0x10000) size value
    | none => (m, false)
  else (m, false)

/-- `vgicv3_flush_target_vcpu`. -/
def flushTarget (t : Option Vid) (m : Vm) : Vm :=
  match t with
  | some t => m.modCore fun e s => s.flushVcpu e (some v) (t == v) t
  | none => m

/-- `vgicr_mmio_access`. -/
def gicrAccess (req : Mmio) (m : Vm) : Outcome :=
  match m.decodeFrame cfg req.address with
  | none => ⟨m, req.value, .einval⟩
  | some f =>
    if decide (0x10000 ≤ f.offset) && priorityAccess (f.offset - 0x10000) req.size then
      access req m
        (fun m => (m, match f.vcpuId with
          | some t => m.readIrqPriority t (f.offset - 0x10000 - 0x400) req.size
          | none => 0))
        fun m => match f.vcpuId with
          | some t => (m.modCore fun e s => s.writeIrqPriority e t
              (f.offset - 0x10000 - 0x400) req.size req.value).flushTarget v (some t)
          | none => m
    else if wordAccess f.offset req.size then
      access req m (fun m => (m, m.gicrRead cfg f req.size))
        fun m => flushAfter (flushTarget v f.vcpuId) (m.gicrWrite f req.size req.value)
    else ⟨m, req.value, .einval⟩

end

end Vm

end Sima.Vgic
