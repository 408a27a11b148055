import Sima.Vgic.Regs

/-!
# Guest accesses to the interrupt controller

The registers of the ITS, the dispatch of an access to one of the three frames,
and `arm64_vgicv3_mmio_handler` around it: sync the accessing vCPU, do the access,
and flush the vCPU if that left its context different from what it was before the
sync.
-/

namespace Sima.Vgic

open Lib

namespace Vm

/-! ## The ITS -/

section

variable (cfg : GicConfig) (mem : GuestMem) (lines : Nat → Samples) (v : Vid) (offset : Nat)
    (req : Mmio) (m : Vm)

/-- What the registers read as. -/
def itsReg : BitVec 64 :=
  if 0x100 ≤ offset ∧ offset < 0x100 + itsBaserNum * 8 then
    if offset % 8 < 4 then lowWord (m.its.baser ((offset - 0x100) / 8))
    else m.its.baser ((offset - 0x100) / 8) >>> 32
  else if offset = 0x0 then m.its.ctlr.setWidth 64
  else if offset = 0x4 then cfg.gicIidr
  else if offset = 0x8 then lowWord m.its.typer
  else if offset = 0xc then m.its.typer >>> 32
  else if offset = 0x18 then cfg.bspVmpidr
  else if offset = 0x80 then lowWord m.its.cbaser
  else if offset = 0x84 then m.its.cbaser >>> 32
  else if offset = 0x88 then lowWord m.its.cwriter
  else if offset = 0x8c then m.its.cwriter >>> 32
  else if offset = 0x90 then lowWord m.its.creadr
  else if offset = 0x94 then m.its.creadr >>> 32
  else if offset = 0xffe8 then 0x30
  else if offset = 0xfff0 then 0x0d
  else if offset = 0xfff4 then 0xf0
  else if offset = 0xfff8 then 0x05
  else if offset = 0xfffc then 0xb1
  else 0

/-- What `vits_mmio_read` does before it reads, and whether the VM has to be flushed:
the place of the reader is brought up to date first. -/
def itsRead : Vm × Bool :=
  if offset = 0x90 ∨ offset = 0x94 then m.processCommandQueue mem lines (some v)
  else (m, false)

/-- A new queue starts empty. -/
def setCbaser (r : BitVec 64) (its : Its) : Its :=
  { its with cbaser := r, creadr := 0, cwriter := 0 }

/-- `vits_mmio_write`, and whether the VM has to be flushed. -/
def itsWrite (value : BitVec 64) (m : Vm) : Vm × Bool :=
  if 0x100 ≤ offset ∧ offset < 0x100 + itsBaserNum * 8 then
    (m.modIts fun its =>
      { its with
        baser := Function.update its.baser ((offset - 0x100) / 8)
          ((if offset % 8 < 4 then setLowWord else setHighWord)
            (its.baser ((offset - 0x100) / 8)) value) }, false)
  else if offset = 0x0 then
    if hasBits value 1 then
      (m.modIts fun its => { its with ctlr := itsCtlrEnable }).processCommandQueue mem
        lines (some v)
    else (m.modIts fun its => { its with ctlr := itsCtlrQuiescent }, false)
  else if offset = 0x80 then
    (m.modIts fun its => setCbaser (setLowWord its.cbaser value) its, false)
  else if offset = 0x84 then
    (m.modIts fun its => setCbaser (setHighWord its.cbaser value) its, false)
  else if offset = 0x88 then
    (m.modIts fun its =>
      { its with cwriter := setLowWord its.cwriter value }).processCommandQueue mem lines (some v)
  else if offset = 0x8c then
    (m.modIts fun its =>
      { its with cwriter := setHighWord its.cwriter value }).processCommandQueue mem lines (some v)
  else if offset = 0x10040 then
    -- a write to the doorbell carries no requester, device 0 stands for it
    (m.injectFound (lines 0) (some v) 0 (lowWord value).toNat, true)
  else (m, false)

/-- `arm64_vgicv3_its_mmio_access`. -/
def itsAccess : Outcome :=
  let offset := (req.address - cfg.itsBase) % 2 ^ 32
  if wordAccess offset req.size then
    access req m
      (fun m => (flushAfter (flushAll v) (m.itsRead mem lines v offset),
        (m.itsRead mem lines v offset).1.itsReg cfg offset))
      fun m => flushAfter (flushAll v) (m.itsWrite mem lines v offset req.value)
  else ⟨m, req.value, .einval⟩

/-- `arm64_vgicv3_its_mmio_access64` handles the access itself: a 64-bit write of
`GITS_CWRITER`, which must not be seen half-written. -/
def itsHandles64 : Bool :=
  m.env.itsEnabled && addrInRange req.address cfg.itsBase cfg.itsSize &&
    (req.address - cfg.itsBase) % 2 ^ 32 == 0x88 && req.size == 8 && req.dir == .write

def itsAccess64 : Outcome :=
  ⟨flushAfter (flushAll v)
    ((m.modIts fun its => { its with cwriter := req.value }).processCommandQueue mem lines
      (some v)), req.value, .ok⟩

/-! ## Dispatch -/

/-- `vgicv3_mmio_dispatch`. -/
def mmioDispatch : Outcome :=
  if addrInRange req.address cfg.gicdBase cfg.gicdSize then m.gicdAccess cfg v req
  else if addrInRange req.address cfg.gicrBase cfg.gicrSize then m.gicrAccess cfg v req
  else if m.env.itsEnabled && addrInRange req.address cfg.itsBase cfg.itsSize then
    m.itsAccess cfg mem lines v req
  else ⟨m, req.value, .enodev⟩

/-- The two word accesses a 64-bit one is split into. -/
def lowReq : Mmio :=
  { req with size := 4, value := if req.dir = .write then lowWord req.value else req.value }

def highReq : Mmio :=
  { req with
    size := 4, address := req.address + 4
    value := if req.dir = .write then req.value >>> 32 else req.value }

/-- `vgicv3_mmio_dispatch64`. -/
def mmioDispatch64 : Outcome :=
  if m.itsHandles64 cfg req then m.itsAccess64 mem lines v req
  else
    let low := m.mmioDispatch cfg mem (fun n => lines (2 * n)) v (lowReq req)
    if low.status = .ok then
      let high := low.vm.mmioDispatch cfg mem (fun n => lines (2 * n + 1)) v (highReq req)
      ⟨high.vm, if high.status = .ok ∧ req.dir = .read then
        lowWord low.value ||| high.value <<< 32 else req.value, high.status⟩
    else ⟨low.vm, req.value, low.status⟩

/-- `vgicv3_mmio_access`. -/
def mmioAccess : Outcome :=
  if byteSizes req.size then m.mmioDispatch cfg mem lines v req
  else if req.size = 8 then m.mmioDispatch64 cfg mem lines v req
  else ⟨m, req.value, .einval⟩

def lrsChanged (c old : Ctx) : Bool :=
  c.lrs.used != old.lrs.used || c.hcr != old.hcr ||
    (List.range maxLrs).any fun idx => c.lrs.slot idx != old.lrs.slot idx

/-- `arm64_vgicv3_mmio_handler`, for an access by the vCPU `v`. -/
def mmioHandler : Outcome :=
  let r := (m.modCore fun e s => s.syncVcpu e (lines 0) (some v) true v).mmioAccess cfg
    mem (fun n => lines (n + 1)) v req
  if lrsChanged (r.vm.core.ctx v) (m.core.ctx v) then
    { r with vm := r.vm.modCore fun e s => s.flushVcpu e (some v) true v }
  else r

end

end Vm

end Sima.Vgic
