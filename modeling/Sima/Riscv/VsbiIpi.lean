import Mathlib.Data.List.Basic

/-!
# The interrupts between the harts of a RISC-V guest

`vcpu_sbi_ipi_ecall_handler` walks over the vCPUs of the VM and asks of each whether the mask
names it. A hart that the VM does not have is never met on that walk, so the guest is told of
success. A vCPU past the 64 that the mask can name ends the walk with an error, when the harts
below it have had their interrupts.
-/

namespace Sima.Riscv

structure Vcpu where
  vcpuId : Nat
  irqsPending : BitVec 64
  irqsPendingMask : BitVec 64
  eventRequest : Bool
  virtualInterrupt : Bool

/-- The vCPUs that `foreach_vcpu` finds, those that are not offline, by their number. -/
structure Vm where
  vcpus : List Vcpu
  sorted : vcpus.Pairwise (·.vcpuId < ·.vcpuId)

def vcpuSetIntr (v : Vcpu) (hwirq : Nat) : Int × Vcpu :=
  if hwirq < 64 then
    (0, { v with
      irqsPending := v.irqsPending ||| 1#64 <<< hwirq
      irqsPendingMask := v.irqsPendingMask ||| 1#64 <<< hwirq
      eventRequest := true
      virtualInterrupt := true })
  else (-1, v)

/-- The software interrupt of the supervisor, `TRAP_CAUSE_IRQ_VS_SOFT`. -/
def Vcpu.softIntr (v : Vcpu) : Int × Vcpu := vcpuSetIntr v 2

section

variable (mask base : BitVec 64)

def isBroadcast : Bool := base == BitVec.allOnes 64

/-- The walk, with `SBI_ERR_INVALID_PARAM` for an early exit. -/
def sendIpi : List Vcpu → Int × List Vcpu
  | [] => (0, [])
  | v :: vs =>
    let next := fun v' => ((sendIpi vs).1, v' :: (sendIpi vs).2)
    if !isBroadcast base && decide (v.vcpuId < base.toNat) then next v
    else if !isBroadcast base && decide (64 ≤ v.vcpuId - base.toNat) then (-3, v :: vs)
    else if !isBroadcast base && !mask.getLsbD (v.vcpuId - base.toNat) then next v
    else if v.softIntr.1 < 0 then
      (if isBroadcast base then v.softIntr.1 else -3, v.softIntr.2 :: vs)
    else next v.softIntr.2

/-- Anything but `SBI_IPI_FID_SEND_IPI` is `SBI_ERR_NOT_SUPPORTED`. -/
def vcpuSbiIpiEcallHandler (funcId : Nat) (vm : Vm) : Int × List Vcpu :=
  if funcId = 0 then sendIpi mask base vm.vcpus else (-2, vm.vcpus)

/-! ## What the call is for -/

def inMask (k : Nat) : Bool := decide (base.toNat ≤ k) && mask.getLsbD (k - base.toNat)

def interrupt (vs : List Vcpu) : List Vcpu :=
  vs.map fun v => if isBroadcast base || inMask mask base v.vcpuId then v.softIntr.2 else v

/-- All harts that are meant exist. -/
def Exist (vs : List Vcpu) : Prop :=
  isBroadcast base ∨ ∀ k, inMask mask base k → ∃ v ∈ vs, v.vcpuId = k

/-- The call succeeds exactly then, and otherwise does nothing. -/
structure Sent (vm : Vm) (r : Int × List Vcpu) : Prop where
  success : r.1 = 0 ↔ Exist mask base vm.vcpus
  interrupted : r.1 = 0 → r.2 = interrupt mask base vm.vcpus
  untouched : r.1 ≠ 0 → r.2 = vm.vcpus

/-- No vCPU ends the walk. -/
def inReach (vs : List Vcpu) : Bool :=
  isBroadcast base || vs.all fun v => v.vcpuId < base.toNat + 64

end

variable {mask base : BitVec 64}

/-- The mask does not reach past 64 harts, so an early exit passes over none that it names. -/
theorem sendIpi_eq {vs : List Vcpu} (h : vs.Pairwise (·.vcpuId < ·.vcpuId)) :
    sendIpi mask base vs = (if inReach base vs then 0 else -3, interrupt mask base vs) := by
  induction h with
  | nil => simp [sendIpi, inReach, interrupt]
  | @cons v vs hlt _ ih =>
    have hset : ¬v.softIntr.1 < 0 := Int.lt_irrefl 0
    simp only [sendIpi, ih, if_neg hset, inReach, interrupt, List.map_cons, List.all_cons]
    by_cases hb : isBroadcast base
    · simp [hb]
    by_cases hlow : v.vcpuId < base.toNat
    · have hnear : v.vcpuId < base.toNat + 64 := by omega
      simp [inMask, hb, hlow, hnear, Nat.not_le_of_lt hlow]
    by_cases hfar : 64 ≤ v.vcpuId - base.toNat
    · have hout : ∀ w : Vcpu, v.vcpuId ≤ w.vcpuId → inMask mask base w.vcpuId = false := by
        intro w hle
        simp [inMask, BitVec.getLsbD_of_ge mask (w.vcpuId - base.toNat) (by omega)]
      have hpast : ¬v.vcpuId < base.toNat + 64 := by omega
      simp [hb, hlow, hfar, hpast, hout v (Nat.le_refl _)]
      refine ((List.map_congr_left fun w hw => ?_).trans (List.map_id vs)).symm
      simp [hout w (Nat.le_of_lt (hlt w hw))]
    · have hnear : v.vcpuId < base.toNat + 64 := by omega
      cases hbit : mask.getLsbD (v.vcpuId - base.toNat) <;>
        simp [inMask, hb, hlow, hfar, hnear, hbit, Nat.le_of_not_lt hlow]

/-- The call does what it is for exactly if the harts that are meant exist just when no vCPU is
past the mask, and where one is past it the others have their interrupts pending already. -/
theorem send_ipi_sent_iff (vm : Vm) :
    Sent mask base vm (vcpuSbiIpiEcallHandler mask base 0 vm) ↔
      (inReach base vm.vcpus ↔ Exist mask base vm.vcpus) ∧
        (¬inReach base vm.vcpus → interrupt mask base vm.vcpus = vm.vcpus) := by
  rw [vcpuSbiIpiEcallHandler, if_pos rfl, sendIpi_eq vm.sorted]
  have hret : (if inReach base vm.vcpus then 0 else -3 : Int) = 0 ↔ inReach base vm.vcpus := by
    cases inReach base vm.vcpus <;> simp
  constructor
  · intro h
    exact ⟨hret.symm.trans h.success, fun hfar => h.untouched (mt hret.mp hfar)⟩
  · intro h
    exact ⟨hret.trans h.1, fun _ => rfl, fun hne => h.2 (mt hret.mpr hne)⟩

def oneVcpu : Vm := ⟨[⟨0, 0, 0, false, false⟩], List.pairwise_singleton ..⟩

/-- A mask that names hart 3: the guest is told of success. -/
theorem send_ipi_absent_hart : ¬Sent 8 0 oneVcpu (vcpuSbiIpiEcallHandler 8 0 0 oneVcpu) := by
  intro h
  have hexist := (h.success.mp rfl).resolve_left (by decide) 3 rfl
  revert hexist
  decide

end Sima.Riscv
