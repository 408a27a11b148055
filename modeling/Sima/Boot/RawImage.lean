import Mathlib.Logic.Function.Basic
import Mathlib.Tactic.Common
import Sima.Lib.CString

/-!
# Loading a raw image

A VM that boots a raw image gets up to four payloads copied into its RAM: the kernel and
the ramdisk at the addresses of its configuration, the firmware tables at a fixed address,
and the device tree where there is room left. All addresses are 64 bits wide and come from
a table, so every sum of an address and a size may wrap.

The loader checks before it copies. A range that passed `range_fits` does not wrap, and for
ranges that do not wrap `range_overlaps` is overlap, so a loader that succeeds has placed
the kernel, the ramdisk and the device tree inside the RAM window and apart from each other
— also after the device tree was moved to the end of the window.

The copies are another matter. The firmware tables are copied after the loader is done, to
an address nothing was compared with. And `copy_to_gpa` hands the result of the address
translation to `memcpy` unseen: the one host address that the translation uses to say
"invalid" is a destination like any other, and a payload that starts there is written to
address zero.

And the boot modules lie in the same host memory that the copies write to. Nothing compares
a destination with the place where the bytes of a later payload still wait.
-/

namespace Sima.Boot

open Lib

abbrev HostMemory := BitVec 64 → Byte

def invalidHpa : BitVec 64 := 1#64 <<< 52

def virtAcpiDataAddr : BitVec 64 := 0x7fe00000

def acpiModuleSize : BitVec 32 := 0x100000

def virtFdtLoadAddr : BitVec 64 := 0x80200000

inductive Err where
  | einval
  | efault
  deriving DecidableEq

inductive KernelType where
  | bzimage
  | rawimage
  | elf
  | unknown
  deriving DecidableEq

/-- What can be copied into a VM; the boot modules and the synthetic device tree. -/
inductive Payload where
  | kernel
  | ramdisk
  | acpi
  | fdt
  deriving DecidableEq

structure VmConfig where
  isPrelaunched : Bool
  noFw : Bool
  kernelType : KernelType
  kernelLoadAddr : BitVec 64
  kernelEntryAddr : BitVec 64
  kernelRamdiskAddr : BitVec 64
  guestRamStart : BitVec 64
  guestRamSize : BitVec 64
  guestRamHpa : BitVec 64

/-- `sw_module_info`. All who set a size set the source with it. -/
structure SwModuleInfo where
  srcAddr : BitVec 64
  loadAddr : BitVec 64
  size : BitVec 32
  size_of_null : srcAddr = 0 → size = 0#32

def SwModuleInfo.staged (m : SwModuleInfo) : Bool := m.srcAddr ≠ 0

def SwModuleInfo.absent : SwModuleInfo := ⟨0, 0, 0, fun _ => rfl⟩

structure VmSwInfo where
  kernelType : KernelType
  kernelSrcAddr : BitVec 64
  kernelSize : BitVec 32
  kernelEntryAddr : BitVec 64
  ramdisk : SwModuleInfo
  acpi : SwModuleInfo
  fdt : SwModuleInfo

/-! ## What the boot modules say -/

/-- `abi_module`. No module is staged at address zero. -/
structure AbiModule where
  start : BitVec 64
  size : BitVec 32
  start_ne : start ≠ 0

/-- The modules that `get_mod_by_tag` finds for the tags of a VM. -/
structure BootModules where
  kernel : Option AbiModule
  ramdisk : Option AbiModule
  acpi : Option AbiModule
  fdt : Option AbiModule

def AbiModule.infoAt (mod : AbiModule) (loadAddr : BitVec 64) (size : BitVec 32) : SwModuleInfo :=
  ⟨mod.start, loadAddr, size, fun h => absurd h mod.start_ne⟩

/-- `init_vm_ramdisk_info` and the place of a synthetic device tree: the load address is
left for the loader. -/
def SwModuleInfo.found : Option AbiModule → SwModuleInfo
  | none => .absent
  | some mod => mod.infoAt 0 mod.size

def initVmAcpiInfo (mod : AbiModule) : SwModuleInfo := mod.infoAt virtAcpiDataAddr acpiModuleSize

def initVmFdtInfo (mod : AbiModule) : SwModuleInfo := mod.infoAt virtFdtLoadAddr mod.size

/-- `init_vm_sw_load`, with `vfdt` the device tree that `arch_init_vm` has built for the VM,
if it did. -/
def initVmSwLoad (cfg : VmConfig) (vfdt : Option AbiModule) (mods : BootModules) :
    Except Err VmSwInfo :=
  match mods.kernel with
  | none => .error .einval
  | some kernel =>
    if kernel.size = 0 ∨ cfg.kernelType = .unknown then .error .einval
    else
      let fw := cfg.isPrelaunched && !cfg.noFw
      .ok
        { kernelType := cfg.kernelType
          kernelSrcAddr := kernel.start
          kernelSize := kernel.size
          kernelEntryAddr := 0
          ramdisk := .found mods.ramdisk
          acpi := match fw, mods.acpi with
            | true, some mod => if mod.size = acpiModuleSize then initVmAcpiInfo mod else .absent
            | _, _ => .absent
          fdt := match fw, mods.fdt with
            | true, some mod => initVmFdtInfo mod
            | _, _ => .found vfdt }

/-! ## Copying to guest memory -/

/-- `memcpy`, after `n` rounds of its loop. -/
def memcpy (mem : HostMemory) (dst src : BitVec 64) : Nat → HostMemory
  | 0 => mem
  | n + 1 =>
    let mem := memcpy mem dst src n
    Function.update mem (dst + BitVec.ofNat 64 n) (mem (src + BitVec.ofNat 64 n))

section Memory

variable (cfg : VmConfig)

def gpaRangeIsValid (gpa : BitVec 64) (size : BitVec 32) : Bool :=
  let ramEnd := cfg.guestRamStart + cfg.guestRamSize
  let gpaEnd := gpa + size.setWidth 64
  size > 0 && gpaEnd ≥ gpa && ramEnd ≥ cfg.guestRamStart && gpa ≥ cfg.guestRamStart &&
    gpaEnd ≤ ramEnd

def gpa2hpa (gpa : BitVec 64) : BitVec 64 :=
  if gpa ≥ cfg.guestRamStart ∧ gpa < cfg.guestRamStart + cfg.guestRamSize then
    cfg.guestRamHpa + (gpa - cfg.guestRamStart)
  else invalidHpa

/-- `gpa2hva`; `hpa2hva` is the identity, and `NULL` is zero. -/
def gpa2hva (gpa : BitVec 64) : BitVec 64 :=
  let hpa := gpa2hpa cfg gpa
  if hpa = invalidHpa then 0 else hpa

def copyToGpa (src gpa : BitVec 64) (size : BitVec 32) (mem : HostMemory) :
    Except Err HostMemory :=
  if size = 0 then .ok mem
  else if gpaRangeIsValid cfg gpa size then .ok (memcpy mem (gpa2hva cfg gpa) src size.toNat)
  else .error .efault

/-- The host address of a byte of guest RAM: what stage 2 maps the guest's address to. -/
def hostOf (gpa : BitVec 64) : BitVec 64 := cfg.guestRamHpa + (gpa - cfg.guestRamStart)

end Memory

/-! ## The loader -/

def rangeOverlaps (startA sizeA startB sizeB : BitVec 64) : Bool :=
  let endA := startA + sizeA
  let endB := startB + sizeB
  endA > startA && endB > startB && startA < endB && startB < endA

def rangeFits (addr size windowStart windowSize : BitVec 64) : Bool :=
  let addrEnd := addr + size
  let windowEnd := windowStart + windowSize
  addrEnd > addr && windowEnd > windowStart && addr ≥ windowStart && addrEnd ≤ windowEnd

def roundup (x y : BitVec 64) : BitVec 64 := (x + (y - 1)) &&& ~~~(y - 1)

def mem4K : BitVec 64 := 0x1000

section Loader

variable (cfg : VmConfig)

/-- The room that is looked for: whole pages, and at least one. -/
def fdtRoom (size : BitVec 32) : BitVec 64 :=
  let rounded := roundup (size.setWidth 64) mem4K
  if rounded = 0 then mem4K else rounded

section

variable (sw : VmSwInfo)

def ramdiskLoadGpa : BitVec 64 :=
  if sw.ramdisk.size > 0 then cfg.kernelRamdiskAddr else 0

def fdtCollides : Bool :=
  rangeOverlaps cfg.guestRamStart (fdtRoom sw.fdt.size) cfg.kernelLoadAddr
    (sw.kernelSize.setWidth 64)

/-- The start of the window, or its end if the kernel is at the start. -/
def fdtCandidate : BitVec 64 :=
  if fdtCollides cfg sw then
    (cfg.guestRamStart + cfg.guestRamSize - fdtRoom sw.fdt.size) &&& ~~~(mem4K - 1)
  else cfg.guestRamStart

/-- `arm64_rawimage_fdt_load_gpa`; zero where there is no place. -/
def arm64RawimageFdtLoadGpa : BitVec 64 :=
  let fdtSize := fdtRoom sw.fdt.size
  if fdtCollides cfg sw && (cfg.guestRamSize ≤ fdtSize ||
      cfg.guestRamStart + cfg.guestRamSize ≤ cfg.guestRamStart) then 0
  else if !rangeFits (fdtCandidate cfg sw) fdtSize cfg.guestRamStart cfg.guestRamSize ||
      rangeOverlaps (fdtCandidate cfg sw) fdtSize cfg.kernelLoadAddr (sw.kernelSize.setWidth 64) ||
      rangeOverlaps (fdtCandidate cfg sw) fdtSize (ramdiskLoadGpa cfg sw)
        (sw.ramdisk.size.setWidth 64) then 0
  else fdtCandidate cfg sw

def placeKernel : Except Err VmSwInfo :=
  if rangeFits cfg.kernelLoadAddr (sw.kernelSize.setWidth 64) cfg.guestRamStart
      cfg.guestRamSize then .ok sw
  else .error .efault

def placeRamdisk : Except Err VmSwInfo :=
  if sw.ramdisk.size > 0 then
    let size := sw.ramdisk.size.setWidth 64
    if cfg.kernelRamdiskAddr = 0 then .error .efault
    else if !rangeFits cfg.kernelRamdiskAddr size cfg.guestRamStart cfg.guestRamSize ||
        rangeOverlaps cfg.kernelRamdiskAddr size cfg.kernelLoadAddr
          (sw.kernelSize.setWidth 64) then .error .efault
    else .ok { sw with ramdisk := { sw.ramdisk with loadAddr := cfg.kernelRamdiskAddr } }
  else .ok sw

def placeFdt : Except Err VmSwInfo :=
  if sw.fdt.staged then
    if arm64RawimageFdtLoadGpa cfg sw = 0 then .error .efault
    else .ok { sw with fdt := { sw.fdt with loadAddr := arm64RawimageFdtLoadGpa cfg sw } }
  else .ok sw

def placeRawimage : Except Err VmSwInfo := do
  let sw ← placeKernel cfg sw
  let sw ← placeRamdisk cfg sw
  placeFdt cfg sw

end

/-- `load_rawimage`: everything is placed before anything is copied. -/
def loadRawimage (sw : VmSwInfo) (mem : HostMemory) : Except Err (VmSwInfo × HostMemory) := do
  let sw ← placeRawimage cfg sw
  let mem ← copyToGpa cfg sw.kernelSrcAddr cfg.kernelLoadAddr sw.kernelSize mem
  let mem ← copyToGpa cfg sw.ramdisk.srcAddr (ramdiskLoadGpa cfg sw) sw.ramdisk.size mem
  return ({ sw with kernelEntryAddr := cfg.kernelEntryAddr }, mem)

/-- `load_sw_module`: whether the copy fails is not looked at. -/
def loadSwModule (m : SwModuleInfo) (mem : HostMemory) : HostMemory :=
  if m.size ≠ 0 ∧ m.loadAddr ≠ 0 then
    match copyToGpa cfg m.srcAddr m.loadAddr m.size mem with
    | .ok mem' => mem'
    | .error _ => mem
  else mem

/-- `prepare_os_image`; the raw image loader is the only one that is built. -/
def prepareOsImage (sw : VmSwInfo) (mem : HostMemory) : Except Err (VmSwInfo × HostMemory) :=
  match sw.kernelType with
  | .rawimage => do
    let (sw, mem) ← loadRawimage cfg sw mem
    let mem := loadSwModule cfg sw.acpi mem
    return (sw, loadSwModule cfg sw.fdt mem)
  | _ => .error .einval

end Loader

/-! ## What is wanted -/

section Wanted

variable (cfg : VmConfig)

def Inside (gpa : BitVec 64) (size : BitVec 32) : Prop :=
  cfg.guestRamStart.toNat ≤ gpa.toNat ∧
    gpa.toNat + size.toNat ≤ cfg.guestRamStart.toNat + cfg.guestRamSize.toNat

def Apart (a : BitVec 64) (n : BitVec 32) (b : BitVec 64) (m : BitVec 32) : Prop :=
  a.toNat + n.toNat ≤ b.toNat ∨ b.toNat + m.toNat ≤ a.toNat

/-- The destination ranges, in the addresses of the guest. -/
structure Placed (sw : VmSwInfo) : Prop where
  kernel : Inside cfg cfg.kernelLoadAddr sw.kernelSize
  ramdisk : sw.ramdisk.size > 0 → Inside cfg sw.ramdisk.loadAddr sw.ramdisk.size
  fdt : sw.fdt.staged → Inside cfg sw.fdt.loadAddr sw.fdt.size
  ramdisk_kernel : sw.ramdisk.size > 0 →
    Apart sw.ramdisk.loadAddr sw.ramdisk.size cfg.kernelLoadAddr sw.kernelSize
  fdt_kernel : sw.fdt.staged → Apart sw.fdt.loadAddr sw.fdt.size cfg.kernelLoadAddr sw.kernelSize
  fdt_ramdisk : sw.fdt.staged → sw.ramdisk.size > 0 →
    Apart sw.fdt.loadAddr sw.fdt.size sw.ramdisk.loadAddr sw.ramdisk.size

/-- The guest finds in `mem` what was staged in `mem₀`. -/
def Holds (mem₀ : HostMemory) (src gpa : BitVec 64) (size : BitVec 32) (mem : HostMemory) : Prop :=
  ∀ i < size.toNat,
    mem (hostOf cfg (gpa + BitVec.ofNat 64 i)) = mem₀ (src + BitVec.ofNat 64 i)

/-- The guest finds every payload at the address that is recorded for it. -/
structure Intact (mem₀ : HostMemory) (sw : VmSwInfo) (mem : HostMemory) : Prop where
  kernel : Holds cfg mem₀ sw.kernelSrcAddr cfg.kernelLoadAddr sw.kernelSize mem
  ramdisk : Holds cfg mem₀ sw.ramdisk.srcAddr sw.ramdisk.loadAddr sw.ramdisk.size mem
  fdt : Holds cfg mem₀ sw.fdt.srcAddr sw.fdt.loadAddr sw.fdt.size mem

/-- No host address in both ranges. -/
def Clear (a : BitVec 64) (n : BitVec 32) (b : BitVec 64) (m : BitVec 32) : Prop :=
  ∀ i < n.toNat, ∀ j < m.toNat, a + BitVec.ofNat 64 i ≠ b + BitVec.ofNat 64 j

def VmSwInfo.src (sw : VmSwInfo) : Payload → BitVec 64
  | .kernel => sw.kernelSrcAddr
  | .ramdisk => sw.ramdisk.srcAddr
  | .acpi => sw.acpi.srcAddr
  | .fdt => sw.fdt.srcAddr

def VmSwInfo.size (sw : VmSwInfo) : Payload → BitVec 32
  | .kernel => sw.kernelSize
  | .ramdisk => sw.ramdisk.size
  | .acpi => sw.acpi.size
  | .fdt => sw.fdt.size

/-- Where a payload is copied to. -/
def VmSwInfo.dest (sw : VmSwInfo) : Payload → BitVec 64
  | .kernel => cfg.kernelLoadAddr
  | .ramdisk => ramdiskLoadGpa cfg sw
  | .acpi => sw.acpi.loadAddr
  | .fdt => sw.fdt.loadAddr

/-- Nothing starts at the host address that stands for "invalid"; the copy of the firmware
tables, if there is one, meets neither the kernel nor the ramdisk; and no copy goes where
a payload is staged. -/
structure CopiesKeep (sw : VmSwInfo) : Prop where
  kernel : hostOf cfg cfg.kernelLoadAddr ≠ invalidHpa
  ramdisk : sw.ramdisk.size > 0 → hostOf cfg sw.ramdisk.loadAddr ≠ invalidHpa
  fdt : sw.fdt.size > 0 → hostOf cfg sw.fdt.loadAddr ≠ invalidHpa
  acpi_kernel : sw.acpi.loadAddr ≠ 0 → gpaRangeIsValid cfg sw.acpi.loadAddr sw.acpi.size →
    Clear (gpa2hva cfg sw.acpi.loadAddr) sw.acpi.size (hostOf cfg cfg.kernelLoadAddr) sw.kernelSize
  acpi_ramdisk : sw.acpi.loadAddr ≠ 0 → gpaRangeIsValid cfg sw.acpi.loadAddr sw.acpi.size →
    Clear (gpa2hva cfg sw.acpi.loadAddr) sw.acpi.size
      (hostOf cfg sw.ramdisk.loadAddr) sw.ramdisk.size
  staged : ∀ p q, gpaRangeIsValid cfg (sw.dest cfg p) (sw.size p) = true →
    Clear (gpa2hva cfg (sw.dest cfg p)) (sw.size p) (sw.src q) (sw.size q)

end Wanted

/-! ## Ranges -/

section Ranges

variable {cfg : VmConfig} {a b w v : BitVec 64} {n m : BitVec 32} {x y : BitVec 64}

theorem rangeFits_iff : rangeFits a x w v = true ↔
    0 < x.toNat ∧ 0 < v.toNat ∧ w.toNat + v.toNat < 2 ^ 64 ∧ w.toNat ≤ a.toNat ∧
      a.toNat + x.toNat ≤ w.toNat + v.toNat := by
  simp only [rangeFits, Bool.and_eq_true, decide_eq_true_eq]
  bv_omega

theorem rangeOverlaps_eq_false (hx : a.toNat + x.toNat < 2 ^ 64)
    (hy : b.toNat + y.toNat < 2 ^ 64) (hpos : 0 < x.toNat) : rangeOverlaps a x b y = false ↔
      a.toNat + x.toNat ≤ b.toNat ∨ b.toNat + y.toNat ≤ a.toNat ∨ y.toNat = 0 := by
  simp only [rangeOverlaps, Bool.and_eq_false_iff, decide_eq_false_iff_not]
  bv_omega

theorem gpaRangeIsValid_of_inside
    (hwin : cfg.guestRamStart.toNat + cfg.guestRamSize.toNat < 2 ^ 64)
    (h : Inside cfg a n) (hn : n > 0) : gpaRangeIsValid cfg a n = true := by
  obtain ⟨hlo, hhi⟩ := h
  simp only [gpaRangeIsValid, Bool.and_eq_true, decide_eq_true_eq]
  bv_omega

theorem and_not_add_and (x m : BitVec 64) : (x &&& ~~~m).toNat + (x &&& m).toNat = x.toNat := by
  have hdisj : (x &&& ~~~m) &&& (x &&& m) = 0#64 := by
    ext i hi
    simp only [BitVec.getElem_and, BitVec.getElem_not, BitVec.getElem_zero]
    cases x[i] <;> cases m[i] <;> rfl
  have hor : (x &&& ~~~m) ||| (x &&& m) = x := by
    ext i hi
    simp only [BitVec.getElem_or, BitVec.getElem_and, BitVec.getElem_not]
    cases x[i] <;> cases m[i] <;> rfl
  have hadd := BitVec.toNat_add_of_and_eq_zero hdisj
  rw [BitVec.add_eq_or_of_and_eq_zero _ _ hdisj, hor] at hadd
  exact hadd.symm

theorem size_le_fdtRoom (n : BitVec 32) : n.toNat ≤ (fdtRoom n).toNat := by
  have hsplit := and_not_add_and (n.setWidth 64 + 0xfff) 0xfff#64
  have hlow : (n.setWidth 64 + 0xfff &&& 0xfff#64).toNat ≤ 0xfff := by
    exact Nat.and_le_right
  have hround : roundup (n.setWidth 64) mem4K = (n.setWidth 64 + 0xfff) &&& ~~~0xfff#64 := rfl
  simp only [fdtRoom]
  rw [hround]
  split
  · next h =>
    bv_omega
  · bv_omega

theorem clear_of_apart (ha : Inside cfg a n) (hb : Inside cfg b m) (h : Apart a n b m) :
    Clear (hostOf cfg a) n (hostOf cfg b) m := by
  intro i hi j hj heq
  obtain ⟨hlo, hhi⟩ := ha
  obtain ⟨hlo', hhi'⟩ := hb
  simp only [Apart] at h
  simp only [hostOf] at heq
  bv_omega

theorem clear_of_le (ha : a.toNat + n.toNat ≤ 2 ^ 64) (hb : b.toNat + m.toNat ≤ 2 ^ 64)
    (h : n = 0 ∨ m = 0 ∨ a.toNat + n.toNat ≤ b.toNat ∨ b.toNat + m.toNat ≤ a.toNat) :
    Clear a n b m := by
  intro i hi j hj heq
  bv_omega

theorem hostOf_add (i : BitVec 64) : hostOf cfg (a + i) = hostOf cfg a + i := by
  simp only [hostOf]
  bv_omega

end Ranges

/-! ## Placement -/

section Placement

variable {cfg : VmConfig} {sw s : VmSwInfo} {a x : BitVec 64} {n : BitVec 32}

/-- A ramdisk that is placed fits into the window, apart from the kernel. -/
def RamdiskChecked (cfg : VmConfig) (sw : VmSwInfo) (addr : BitVec 64) : Prop :=
  sw.ramdisk.size > 0 → addr = cfg.kernelRamdiskAddr ∧
    rangeFits cfg.kernelRamdiskAddr (sw.ramdisk.size.setWidth 64) cfg.guestRamStart
      cfg.guestRamSize = true ∧
    rangeOverlaps cfg.kernelRamdiskAddr (sw.ramdisk.size.setWidth 64) cfg.kernelLoadAddr
      (sw.kernelSize.setWidth 64) = false

/-- What a placement has checked and recorded. -/
structure Checked (cfg : VmConfig) (sw s : VmSwInfo) : Prop where
  same : s = { sw with
    ramdisk := { sw.ramdisk with loadAddr := s.ramdisk.loadAddr }
    fdt := { sw.fdt with loadAddr := s.fdt.loadAddr } }
  kernel : rangeFits cfg.kernelLoadAddr (sw.kernelSize.setWidth 64) cfg.guestRamStart
    cfg.guestRamSize = true
  ramdisk : RamdiskChecked cfg sw s.ramdisk.loadAddr
  fdt : sw.fdt.staged → s.fdt.loadAddr = arm64RawimageFdtLoadGpa cfg sw ∧ s.fdt.loadAddr ≠ 0

theorem placeKernel_ok (h : placeKernel cfg sw = .ok s) :
    s = sw ∧ rangeFits cfg.kernelLoadAddr (sw.kernelSize.setWidth 64) cfg.guestRamStart
      cfg.guestRamSize = true := by
  rw [placeKernel] at h
  split at h
  · next hfits =>
    injection h with h
    exact ⟨h.symm, hfits⟩
  · cases h

theorem placeRamdisk_ok (h : placeRamdisk cfg sw = .ok s) :
    s = { sw with ramdisk := { sw.ramdisk with loadAddr := s.ramdisk.loadAddr } } ∧
      RamdiskChecked cfg sw s.ramdisk.loadAddr := by
  rw [placeRamdisk] at h
  split at h
  · next hsize =>
    dsimp only at h
    split at h
    · cases h
    split at h
    · cases h
    rename_i hcheck
    injection h with h
    subst h
    rw [Bool.or_eq_true, not_or, Bool.not_eq_true', Bool.not_eq_false, Bool.not_eq_true] at hcheck
    exact ⟨rfl, fun _ => ⟨rfl, hcheck⟩⟩
  · next hsize =>
    injection h with h
    subst h
    exact ⟨rfl, fun hpos => absurd hpos hsize⟩

theorem placeFdt_ok (h : placeFdt cfg sw = .ok s) :
    s = { sw with fdt := { sw.fdt with loadAddr := s.fdt.loadAddr } } ∧
      (sw.fdt.staged → s.fdt.loadAddr = arm64RawimageFdtLoadGpa cfg sw ∧ s.fdt.loadAddr ≠ 0) := by
  rw [placeFdt] at h
  split at h
  · split at h
    · cases h
    rename_i hne
    injection h with h
    subst h
    exact ⟨rfl, fun _ => ⟨rfl, hne⟩⟩
  · next hstaged =>
    injection h with h
    subst h
    exact ⟨rfl, fun hs => absurd hs hstaged⟩

/-- A place that is not zero passed all three checks, wherever it is. -/
theorem fdtLoadGpa_checked {g : BitVec 64} (hg : arm64RawimageFdtLoadGpa cfg sw = g) (h : g ≠ 0) :
    rangeFits g (fdtRoom sw.fdt.size) cfg.guestRamStart cfg.guestRamSize = true ∧
      rangeOverlaps g (fdtRoom sw.fdt.size) cfg.kernelLoadAddr
        (sw.kernelSize.setWidth 64) = false ∧
      rangeOverlaps g (fdtRoom sw.fdt.size) (ramdiskLoadGpa cfg sw)
        (sw.ramdisk.size.setWidth 64) = false := by
  rw [arm64RawimageFdtLoadGpa] at hg
  split at hg
  · exact absurd hg.symm h
  split at hg
  · exact absurd hg.symm h
  rename_i hcheck
  rw [hg] at hcheck
  simp only [Bool.or_eq_true, not_or, Bool.not_eq_true', Bool.not_eq_false,
    Bool.not_eq_true] at hcheck
  exact ⟨hcheck.1.1, hcheck.1.2, hcheck.2⟩

theorem inside_of_rangeFits (hn : n.toNat ≤ x.toNat)
    (h : rangeFits a x cfg.guestRamStart cfg.guestRamSize = true) : Inside cfg a n := by
  have hfits := rangeFits_iff.1 h
  exact ⟨hfits.2.2.2.1, by omega⟩

theorem apart_of_checks {b y w v : BitVec 64} {m : BitVec 32} (hn : n.toNat ≤ x.toNat)
    (hm : m.toNat = y.toNat) (hpos : 0 < m.toNat) (ha : rangeFits a x w v = true)
    (hb : rangeFits b y w v = true) (h : rangeOverlaps a x b y = false) : Apart a n b m := by
  have hfa := rangeFits_iff.1 ha
  have hfb := rangeFits_iff.1 hb
  have hover := (rangeOverlaps_eq_false (by omega) (by omega) hfa.1).1 h
  simp only [Apart]
  omega

theorem checked_of_ok (h : placeRawimage cfg sw = .ok s) : Checked cfg sw s := by
  simp only [placeRawimage, bind, Except.bind] at h
  split at h
  · cases h
  rename_i s₁ h₁
  split at h
  · cases h
  rename_i s₂ h₂
  obtain ⟨rfl, hkernel⟩ := placeKernel_ok h₁
  obtain ⟨hs₂, hramdisk⟩ := placeRamdisk_ok h₂
  obtain ⟨hs, hfdt⟩ := placeFdt_ok h
  have hload : s.ramdisk.loadAddr = s₂.ramdisk.loadAddr := by rw [hs]
  rw [← hload] at hs₂ hramdisk
  -- the place of the device tree depends on sizes only, which stay
  have hgpa : arm64RawimageFdtLoadGpa cfg s₂ = arm64RawimageFdtLoadGpa cfg s₁ := by
    rw [hs₂]
    rfl
  have hstaged : s₂.fdt.staged = s₁.fdt.staged := by rw [hs₂]
  rw [hgpa, hstaged] at hfdt
  exact ⟨by rw [hs, hs₂], hkernel, hramdisk, hfdt⟩

section

variable (h : Checked cfg sw s)

include h

theorem Checked.kernelSize : s.kernelSize = sw.kernelSize := by rw [h.same]

theorem Checked.ramdiskSize : s.ramdisk.size = sw.ramdisk.size := by rw [h.same]

theorem Checked.fdtSize : s.fdt.size = sw.fdt.size := by rw [h.same]

theorem Checked.fdtStaged : s.fdt.staged = sw.fdt.staged := by
  rw [h.same]
  rfl

theorem Checked.window : cfg.guestRamStart.toNat + cfg.guestRamSize.toNat < 2 ^ 64 :=
  (rangeFits_iff.1 h.kernel).2.2.1

theorem Checked.kernelSize_pos : sw.kernelSize > 0 := by
  have hpos := (rangeFits_iff.1 h.kernel).1
  bv_omega

theorem Checked.placed : Placed cfg s := by
  have hwiden : ∀ n : BitVec 32, n.toNat = (n.setWidth 64).toNat := by
    intro n
    bv_omega
  have hfdt := fun hst => fdtLoadGpa_checked (h.fdt hst).1.symm (h.fdt hst).2
  refine ⟨?_, ?_, ?_, ?_, ?_, ?_⟩
  · rw [h.kernelSize]
    exact inside_of_rangeFits (le_of_eq (hwiden _)) h.kernel
  · intro hr
    rw [h.ramdiskSize] at hr ⊢
    obtain ⟨heq, hfits, -⟩ := h.ramdisk hr
    rw [heq]
    exact inside_of_rangeFits (le_of_eq (hwiden _)) hfits
  · intro hst
    rw [h.fdtStaged] at hst
    rw [h.fdtSize]
    exact inside_of_rangeFits (size_le_fdtRoom _) (hfdt hst).1
  · intro hr
    rw [h.ramdiskSize] at hr ⊢
    obtain ⟨heq, hfits, hover⟩ := h.ramdisk hr
    rw [heq, h.kernelSize]
    exact apart_of_checks (le_of_eq (hwiden _)) (hwiden _) h.kernelSize_pos hfits h.kernel hover
  · intro hst
    rw [h.fdtStaged] at hst
    rw [h.fdtSize, h.kernelSize]
    exact apart_of_checks (size_le_fdtRoom _) (hwiden _) h.kernelSize_pos (hfdt hst).1 h.kernel
      (hfdt hst).2.1
  · intro hst hr
    rw [h.fdtStaged] at hst
    rw [h.ramdiskSize] at hr ⊢
    obtain ⟨heq, hfits, -⟩ := h.ramdisk hr
    have hover := (hfdt hst).2.2
    rw [ramdiskLoadGpa, if_pos hr] at hover
    rw [h.fdtSize, heq]
    exact apart_of_checks (size_le_fdtRoom _) (hwiden _) hr (hfdt hst).1 hfits hover

end

end Placement

/-! ## Copies -/

section Copies

variable {cfg : VmConfig} {mem : HostMemory} {src dst gpa a : BitVec 64} {n i : Nat}

theorem memcpy_of_ne (h : ∀ i < n, dst + BitVec.ofNat 64 i ≠ a) :
    memcpy mem dst src n a = mem a := by
  induction n with
  | zero => rfl
  | succ n ih =>
    rw [memcpy, Function.update_of_ne (h n (by omega)).symm]
    exact ih fun i hi => h i (by omega)

theorem memcpy_apply (hn : n ≤ 2 ^ 64) (hclear : ∀ i < n, ∀ j < n,
      dst + BitVec.ofNat 64 i ≠ src + BitVec.ofNat 64 j) (hi : i < n) :
    memcpy mem dst src n (dst + BitVec.ofNat 64 i) = mem (src + BitVec.ofNat 64 i) := by
  induction n with
  | zero => omega
  | succ n ih =>
    rw [memcpy]
    by_cases hlast : i = n
    · rw [hlast, Function.update_self]
      exact memcpy_of_ne fun j hj => hclear j (by omega) n (by omega)
    · rw [Function.update_of_ne (by bv_omega)]
      exact ih (by omega) (fun i hi j hj => hclear i (by omega) j (by omega)) (by omega)

/-- What is left of `copy_to_gpa` where its status does not matter. -/
def copied (cfg : VmConfig) (src gpa : BitVec 64) (size : BitVec 32)
    (mem : HostMemory) : HostMemory :=
  if gpaRangeIsValid cfg gpa size then memcpy mem (gpa2hva cfg gpa) src size.toNat else mem

variable {size : BitVec 32}

theorem copyToGpa_eq (h : size > 0 → gpaRangeIsValid cfg gpa size = true) :
    copyToGpa cfg src gpa size mem = .ok (copied cfg src gpa size mem) := by
  rw [copyToGpa, copied]
  by_cases hz : size = 0
  · rw [hz]
    rfl
  · rw [if_neg hz, if_pos (h (by bv_omega)), if_pos (h (by bv_omega))]

/-- What is left of `load_sw_module`. -/
def loaded (cfg : VmConfig) (m : SwModuleInfo) (mem : HostMemory) : HostMemory :=
  if m.loadAddr ≠ 0 then copied cfg m.srcAddr m.loadAddr m.size mem else mem

theorem loadSwModule_eq (m : SwModuleInfo) : loadSwModule cfg m mem = loaded cfg m mem := by
  rw [loadSwModule, loaded, copied]
  by_cases hz : m.size = 0
  · simp [hz, gpaRangeIsValid]
  by_cases hl : m.loadAddr = 0
  · rw [if_neg (by simp [hl]), if_neg (by simp [hl])]
  rw [if_pos ⟨hz, hl⟩, if_pos hl, copyToGpa, if_neg hz]
  by_cases hv : gpaRangeIsValid cfg m.loadAddr m.size = true
  · rw [if_pos hv, if_pos hv]
  · rw [if_neg hv, if_neg hv]

theorem copied_clear {b : BitVec 64} {m : BitVec 32} {j : Nat}
    (h : gpaRangeIsValid cfg gpa size = true → Clear (gpa2hva cfg gpa) size b m)
    (hj : j < m.toNat) :
    copied cfg src gpa size mem (b + BitVec.ofNat 64 j) = mem (b + BitVec.ofNat 64 j) := by
  rw [copied]
  split
  · next hv => exact memcpy_of_ne fun i hi => h hv i hi j hj
  · rfl

theorem copied_apply (hv : gpaRangeIsValid cfg gpa size = true)
    (hclear : Clear (gpa2hva cfg gpa) size src size) (hi : i < size.toNat) :
    copied cfg src gpa size mem (gpa2hva cfg gpa + BitVec.ofNat 64 i) =
      mem (src + BitVec.ofNat 64 i) := by
  rw [copied, if_pos hv]
  exact memcpy_apply (by omega) hclear hi

theorem loaded_clear {m : SwModuleInfo} {b : BitVec 64} {k : BitVec 32} {j : Nat}
    (h : m.loadAddr ≠ 0 → gpaRangeIsValid cfg m.loadAddr m.size = true →
      Clear (gpa2hva cfg m.loadAddr) m.size b k) (hj : j < k.toNat) :
    loaded cfg m mem (b + BitVec.ofNat 64 j) = mem (b + BitVec.ofNat 64 j) := by
  rw [loaded]
  split
  · next hload => exact copied_clear (h hload) hj
  · rfl

theorem gpa2hva_of_inside (hwin : cfg.guestRamStart.toNat + cfg.guestRamSize.toNat < 2 ^ 64)
    (hin : Inside cfg gpa size) (hpos : size > 0) :
    gpa2hva cfg gpa = if hostOf cfg gpa = invalidHpa then 0 else hostOf cfg gpa := by
  obtain ⟨hlo, hhi⟩ := hin
  have hwindow : gpa ≥ cfg.guestRamStart ∧ gpa < cfg.guestRamStart + cfg.guestRamSize := by
    constructor <;> bv_omega
  have hhpa : gpa2hpa cfg gpa = hostOf cfg gpa := if_pos hwindow
  simp only [gpa2hva, hhpa]

end Copies

/-! ## The memory afterwards -/

section Loaded

variable (cfg : VmConfig) (s : VmSwInfo) (mem : HostMemory)

def afterKernel : HostMemory :=
  copied cfg s.kernelSrcAddr cfg.kernelLoadAddr s.kernelSize mem

def afterRamdisk : HostMemory :=
  copied cfg s.ramdisk.srcAddr (ramdiskLoadGpa cfg s) s.ramdisk.size (afterKernel cfg s mem)

def afterAcpi : HostMemory := loaded cfg s.acpi (afterRamdisk cfg s mem)

def afterFdt : HostMemory := loaded cfg s.fdt (afterAcpi cfg s mem)

variable {cfg s mem} {sw sw' : VmSwInfo} {m : HostMemory} {gpa b : BitVec 64} {size : BitVec 32}
  {j : Nat}

variable (h : Checked cfg sw s)

include h

theorem Checked.kernel_valid : gpaRangeIsValid cfg cfg.kernelLoadAddr s.kernelSize = true := by
  refine gpaRangeIsValid_of_inside h.window h.placed.kernel ?_
  rw [h.kernelSize]
  exact h.kernelSize_pos

theorem Checked.ramdiskLoadGpa_eq (hr : s.ramdisk.size > 0) :
    ramdiskLoadGpa cfg s = cfg.kernelRamdiskAddr ∧ s.ramdisk.loadAddr = cfg.kernelRamdiskAddr := by
  rw [ramdiskLoadGpa, if_pos hr]
  rw [h.ramdiskSize] at hr
  exact ⟨rfl, (h.ramdisk hr).1⟩

theorem Checked.ramdisk_valid (hr : s.ramdisk.size > 0) :
    gpaRangeIsValid cfg (ramdiskLoadGpa cfg s) s.ramdisk.size = true := by
  obtain ⟨hgpa, hload⟩ := h.ramdiskLoadGpa_eq hr
  rw [hgpa, ← hload]
  exact gpaRangeIsValid_of_inside h.window (h.placed.ramdisk hr) hr

omit h

theorem prepareOsImage_eq (hk : sw.kernelType = .rawimage) (hs : placeRawimage cfg sw = .ok s) :
    prepareOsImage cfg sw mem =
      .ok ({ s with kernelEntryAddr := cfg.kernelEntryAddr }, afterFdt cfg s mem) := by
  have h := checked_of_ok hs
  rw [prepareOsImage, hk]
  simp only [loadRawimage, hs, bind, Except.bind, copyToGpa_eq fun _ => h.kernel_valid,
    copyToGpa_eq h.ramdisk_valid, loadSwModule_eq]
  rfl

theorem prepareOsImage_ok (h : prepareOsImage cfg sw mem = .ok (sw', m)) :
    ∃ s, placeRawimage cfg sw = .ok s ∧
      sw' = { s with kernelEntryAddr := cfg.kernelEntryAddr } ∧ m = afterFdt cfg s mem := by
  by_cases hk : sw.kernelType = .rawimage
  · cases hs : placeRawimage cfg sw with
    | error e =>
      rw [prepareOsImage, hk] at h
      simp only [loadRawimage, hs] at h
      cases h
    | ok s =>
      rw [prepareOsImage_eq hk hs] at h
      injection h with h
      injection h with h hm
      exact ⟨s, rfl, h.symm, hm.symm⟩
  · rw [prepareOsImage] at h
    split at h
    · next hraw => exact absurd hraw hk
    · cases h

/-! Where a payload starts at a host address that can be told from "invalid", it is copied to
where the guest looks for it. -/

section Keeps

variable (h : Checked cfg sw s) (hkeep : CopiesKeep cfg s)

include h hkeep

theorem kernel_dest : gpa2hva cfg cfg.kernelLoadAddr = hostOf cfg cfg.kernelLoadAddr := by
  rw [gpa2hva_of_inside h.window h.placed.kernel (by rw [h.kernelSize]; exact h.kernelSize_pos),
    if_neg hkeep.kernel]

theorem ramdisk_dest (hr : s.ramdisk.size > 0) :
    gpa2hva cfg (ramdiskLoadGpa cfg s) = hostOf cfg s.ramdisk.loadAddr := by
  obtain ⟨hgpa, hload⟩ := h.ramdiskLoadGpa_eq hr
  rw [hgpa, ← hload, gpa2hva_of_inside h.window (h.placed.ramdisk hr) hr,
    if_neg (hkeep.ramdisk hr)]

theorem fdt_dest (hf : s.fdt.size > 0) (hst : s.fdt.staged = true) :
    gpa2hva cfg s.fdt.loadAddr = hostOf cfg s.fdt.loadAddr := by
  rw [gpa2hva_of_inside h.window (h.placed.fdt hst) hf, if_neg (hkeep.fdt hf)]

end Keeps

theorem SwModuleInfo.staged_of_pos {m : SwModuleInfo} (h : m.size > 0) : m.staged = true := by
  by_contra hst
  rw [m.size_of_null (by simpa [staged] using hst)] at h
  exact absurd h (by decide)

theorem pos_of_gpaRangeIsValid (h : gpaRangeIsValid cfg gpa size = true) : size > 0 := by
  by_contra hz
  rw [show size = 0 by bv_omega] at h
  cases h

theorem afterFdt_clear (h : Checked cfg sw s) (hkeep : CopiesKeep cfg s) {m : BitVec 32}
    (hj : j < m.toNat)
    (hc : s.fdt.staged = true → Clear (hostOf cfg s.fdt.loadAddr) s.fdt.size b m) :
    afterFdt cfg s mem (b + BitVec.ofNat 64 j) = afterAcpi cfg s mem (b + BitVec.ofNat 64 j) := by
  refine loaded_clear (fun _ hv => ?_) hj
  have hst := SwModuleInfo.staged_of_pos (pos_of_gpaRangeIsValid hv)
  rw [fdt_dest h hkeep (pos_of_gpaRangeIsValid hv) hst]
  exact hc hst

/-! What is staged stays as long as it is needed. -/

section Stays

variable (q : Payload) (hst : ∀ p, gpaRangeIsValid cfg (s.dest cfg p) (s.size p) = true →
  Clear (gpa2hva cfg (s.dest cfg p)) (s.size p) (s.src q) (s.size q)) (hj : j < (s.size q).toNat)

include hst hj

theorem afterKernel_src : afterKernel cfg s mem (s.src q + BitVec.ofNat 64 j) =
    mem (s.src q + BitVec.ofNat 64 j) := copied_clear (hst .kernel) hj

theorem afterRamdisk_src : afterRamdisk cfg s mem (s.src q + BitVec.ofNat 64 j) =
    mem (s.src q + BitVec.ofNat 64 j) :=
  (copied_clear (hst .ramdisk) hj).trans (afterKernel_src q hst hj)

theorem afterAcpi_src : afterAcpi cfg s mem (s.src q + BitVec.ofNat 64 j) =
    mem (s.src q + BitVec.ofNat 64 j) :=
  (loaded_clear (fun _ => hst .acpi) hj).trans (afterRamdisk_src q hst hj)

end Stays

theorem intact_of_copiesKeep (h : Checked cfg sw s) (hkeep : CopiesKeep cfg s) :
    Intact cfg mem s (afterFdt cfg s mem) := by
  have hsrc := fun p => hkeep.staged p p
  refine ⟨?_, ?_, ?_⟩
  · intro i hi
    rw [hostOf_add, afterFdt_clear h hkeep hi, afterAcpi, loaded_clear hkeep.acpi_kernel hi,
      afterRamdisk, copied_clear _ hi, afterKernel, ← kernel_dest h hkeep]
    · exact copied_apply h.kernel_valid (hsrc .kernel h.kernel_valid) hi
    · intro hv
      have hr := pos_of_gpaRangeIsValid hv
      rw [ramdisk_dest h hkeep hr]
      exact clear_of_apart (h.placed.ramdisk hr) h.placed.kernel (h.placed.ramdisk_kernel hr)
    · intro hst
      exact clear_of_apart (h.placed.fdt hst) h.placed.kernel (h.placed.fdt_kernel hst)
  · intro i hi
    have hr : s.ramdisk.size > 0 := by bv_omega
    have hv := h.ramdisk_valid hr
    rw [hostOf_add, afterFdt_clear h hkeep hi, afterAcpi, loaded_clear hkeep.acpi_ramdisk hi,
      afterRamdisk, ← ramdisk_dest h hkeep hr]
    · exact (copied_apply hv (hsrc .ramdisk hv) hi).trans
        (afterKernel_src .ramdisk (hkeep.staged · .ramdisk) hi)
    · intro hst
      exact clear_of_apart (h.placed.fdt hst) (h.placed.ramdisk hr) (h.placed.fdt_ramdisk hst hr)
  · intro i hi
    have hf : s.fdt.size > 0 := by bv_omega
    have hst := SwModuleInfo.staged_of_pos hf
    have hst' := hst
    rw [h.fdtStaged] at hst'
    have hv := gpaRangeIsValid_of_inside h.window (h.placed.fdt hst) hf
    rw [hostOf_add, afterFdt, loaded, if_pos (h.fdt hst').2, ← fdt_dest h hkeep hf hst]
    exact (copied_apply hv (hsrc .fdt hv) hi).trans (afterAcpi_src .fdt (hkeep.staged · .fdt) hi)

end Loaded

/-! ## The loader as a whole -/

/-- The Linux VM of the QEMU platform. -/
def linuxConfig : VmConfig :=
  { isPrelaunched := true
    noFw := false
    kernelType := .rawimage
    kernelLoadAddr := 0x48080000
    kernelEntryAddr := 0x48080000
    kernelRamdiskAddr := 0x4c000000
    guestRamStart := 0x48000000
    guestRamSize := 0x08000000
    guestRamHpa := 0x48000000 }

def linuxSw : VmSwInfo :=
  { kernelType := .rawimage
    kernelSrcAddr := 0x70000000
    kernelSize := 0x2000000
    kernelEntryAddr := 0
    ramdisk := .found (some ⟨0x74000000, 0x1000000, by decide⟩)
    acpi := .absent
    fdt := initVmFdtInfo ⟨0x76000000, 0x4000, by decide⟩ }

def linuxPlaced : VmSwInfo :=
  { linuxSw with
    kernelEntryAddr := 0x48080000
    ramdisk := { linuxSw.ramdisk with loadAddr := 0x4c000000 }
    fdt := { linuxSw.fdt with loadAddr := 0x48000000 } }

theorem linuxPlaced_keeps : CopiesKeep linuxConfig linuxPlaced := by
  refine ⟨by decide, fun _ => by decide, fun _ => by decide, fun h => absurd rfl h,
    fun h => absurd rfl h, fun p q _ => ?_⟩
  cases p <;> cases q <;> exact clear_of_le (by decide) (by decide) (by decide)

/-- Every byte is the last one of its address. -/
def linuxMemory : HostMemory := fun a => a.setWidth 8

/-- The kernel fills the last megabytes of the window, where the firmware tables go. -/
def acpiConfig : VmConfig :=
  { isPrelaunched := true
    noFw := false
    kernelType := .rawimage
    kernelLoadAddr := 0x7fd00000
    kernelEntryAddr := 0x7fd00000
    kernelRamdiskAddr := 0
    guestRamStart := 0x40000000
    guestRamSize := 0x40000000
    guestRamHpa := 0x40000000 }

def acpiMods : BootModules :=
  ⟨some ⟨0x90000000, 0x200000, by decide⟩, none,
    some ⟨0x91000000, acpiModuleSize, by decide⟩, none⟩

def acpiSw : VmSwInfo :=
  { kernelType := .rawimage
    kernelSrcAddr := 0x90000000
    kernelSize := 0x200000
    kernelEntryAddr := 0
    ramdisk := .absent
    acpi := initVmAcpiInfo ⟨0x91000000, acpiModuleSize, by decide⟩
    fdt := .absent }

theorem acpiSw_staged (p q : Payload) : Clear (gpa2hva acpiConfig (acpiSw.dest acpiConfig p))
    (acpiSw.size p) (acpiSw.src q) (acpiSw.size q) := by
  cases p <;> cases q <;> exact clear_of_le (by decide) (by decide) (by decide)

/-- The kernel's byte at the host address `0x90100000` is set, and nothing else is. -/
def acpiMemory : HostMemory := fun a => if a = 0x90100000 then 1 else 0

end Sima.Boot
