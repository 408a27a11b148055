import Mathlib.Logic.Basic

/-!
# Setting the memory regions of a VM

The Service VM hands over a list of regions to add to the EPT of another VM or to delete
from it. `hcall_set_vm_memory_regions` goes through the list and stops at the first entry
that it cannot copy or that is refused, so what has been applied is the beginning of the
list. Its result is that of the last region it set. An entry that cannot be copied has
none, and where it is not the first one the result is that of the entry before it, which is
success.

What the two VMs are made of does not matter here: `MemoryOps` is what the call finds of
them and does to their tables, over states of any kind.
-/

namespace Sima.Vm

structure VmMemoryRegion where
  type : BitVec 32
  prot : BitVec 32
  gpa : BitVec 64
  serviceVmGpa : BitVec 64
  size : BitVec 64

structure SetRegions where
  mrNum : Nat
  regionsGpa : BitVec 64

/-- The Service VM's memory and the tables of the two VMs. -/
structure MemoryOps (σ : Type) where
  /-- `copy_from_gpa`, of the header and of an entry. -/
  copyRegions : σ → BitVec 64 → Option SetRegions
  copyMr : σ → BitVec 64 → Option VmMemoryRegion
  isPoweroffVm : σ → Bool
  isSeverityPass : σ → Bool
  isRunning : σ → Bool
  /-- `ept_is_valid_mr`, for the Service VM and for the target. -/
  serviceIsValidMr : σ → BitVec 64 → BitVec 64 → Bool
  targetIsValidMr : σ → BitVec 64 → BitVec 64 → Bool
  gpa2hpa : σ → BitVec 64 → BitVec 64
  /-- Where the software SRAM is, and its size, if it is enabled. -/
  softwareSram : Option (BitVec 64 × BitVec 64)
  eptAddMr (hpa gpa size prot : BitVec 64) : σ → σ
  eptDelMr (gpa size : BitVec 64) : σ → σ

/-- Access rights and memory type of `MEM_*` as those of `EPT_*`. -/
def eptProt (prot : BitVec 32) : BitVec 64 :=
  (if prot.getLsbD 0 then 1 else 0) ||| (if prot.getLsbD 1 then 2 else 0) |||
    (if prot.getLsbD 2 then 4 else 0) |||
    if prot.getLsbD 6 then 6 <<< 3
    else if prot.getLsbD 7 then 4 <<< 3
    else if prot.getLsbD 9 then 1 <<< 3
    else if prot.getLsbD 10 then 5 <<< 3
    else 0

namespace MemoryOps

variable {σ : Type} (O : MemoryOps σ)

section

variable (region : VmMemoryRegion) (param1 : BitVec 64) (s : σ)

def addVmMemoryRegion : σ :=
  let hpa := O.gpa2hpa s region.serviceVmGpa
  let inSram := O.softwareSram.any fun sram =>
    decide (sram.1 ≤ hpa) && decide (hpa + region.size ≤ sram.1 + sram.2)
  let prot := eptProt region.prot ||| if inSram then 6 <<< 3 else 0
  O.eptAddMr hpa region.gpa region.size prot s

def setVmMemoryRegion : Int × σ :=
  if region.size &&& 0xfff = 0 then
    if region.type = 0 then
      if O.serviceIsValidMr s region.serviceVmGpa region.size then
        (0, O.addVmMemoryRegion region s)
      else (-22, s)
    else if O.targetIsValidMr s region.gpa region.size then
      (0, O.eptDelMr region.gpa region.size s)
    else (-22, s)
  else (-22, s)

/-- The entry `idx` of the array. -/
def entry (gpa : BitVec 64) (idx : Nat) : BitVec 64 := gpa + BitVec.ofNat 64 (idx * 32)

/-- The loop, with the entries that are left and `ret` as the entry before left it. -/
def setRegions (gpa : BitVec 64) : Nat → Nat → Int → σ → Int × σ
  | 0, _, ret, s => (ret, s)
  | todo + 1, idx, ret, s =>
    match O.copyMr s (entry gpa idx) with
    | none => (ret, s)
    | some mr =>
      let r := O.setVmMemoryRegion mr s
      if r.1 < 0 then r else setRegions gpa todo (idx + 1) r.1 r.2

/-- The target is in a state to be changed. -/
def accepts : Bool := !O.isPoweroffVm s && (O.isSeverityPass s || !O.isRunning s)

def hcallSetVmMemoryRegions : Int × σ :=
  match O.copyRegions s param1 with
  | none => (-1, s)
  | some regions =>
    if O.accepts s then O.setRegions regions.regionsGpa regions.mrNum 0 (-1) s else (-1, s)

/-! ## What is asked for -/

/-- A request that is refused asks for nothing. -/
def request : SetRegions :=
  match O.copyRegions s param1 with
  | none => ⟨0, 0⟩
  | some regions => if O.accepts s then regions else ⟨0, 0⟩

end

/-- The first `k` entries of an array, applied one after the other. -/
def applied (gpa : BitVec 64) : Nat → σ → Option σ
  | 0, s => some s
  | k + 1, s => do
    let t ← applied gpa k s
    let mr ← O.copyMr t (entry gpa k)
    let r := O.setVmMemoryRegion mr t
    if r.1 = 0 then some r.2 else none

variable {O} {gpa param1 : BitVec 64} {s t : σ} {k n : Nat}

theorem setVmMemoryRegion_cases (O : MemoryOps σ) (mr : VmMemoryRegion) (t : σ) :
    (O.setVmMemoryRegion mr t).1 = 0 ∨ O.setVmMemoryRegion mr t = (-22, t) := by
  rw [setVmMemoryRegion]
  split
  · split <;> split
    · exact .inl rfl
    · exact .inr rfl
    · exact .inl rfl
    · exact .inr rfl
  · exact .inr rfl

theorem applied_succ (h : O.applied gpa (k + 1) s = some t) :
    ∃ u mr, O.applied gpa k s = some u ∧ O.copyMr u (entry gpa k) = some mr ∧
      O.setVmMemoryRegion mr u = (0, t) := by
  simp only [applied, Option.bind_eq_bind, Option.bind_eq_some_iff] at h
  obtain ⟨u, hu, mr, hmr, h⟩ := h
  split at h
  · next h0 => exact ⟨u, mr, hu, hmr, Prod.ext h0 (Option.some.inj h)⟩
  · cases h

theorem applied_of_le (h : O.applied gpa n s = some t) (hle : k ≤ n) :
    ∃ u, O.applied gpa k s = some u := by
  induction hle generalizing t with
  | refl => exact ⟨t, h⟩
  | step _ ih =>
    obtain ⟨u, -, hu, -⟩ := applied_succ h
    exact ih hu

theorem setRegions_applied (h : O.applied gpa k s = some t) (hle : k ≤ n) :
    O.setRegions gpa n 0 (-1) s = O.setRegions gpa (n - k) k (if k = 0 then -1 else 0) t := by
  induction k generalizing t with
  | zero =>
    cases h
    rfl
  | succ k ih =>
    obtain ⟨u, mr, hu, hmr, hset⟩ := applied_succ h
    rw [ih hu (by omega), show n - k = n - (k + 1) + 1 by omega, setRegions, hmr]
    simp [hset]

theorem setRegions_stops {todo : Nat} {ret : Int} {r : Int × σ}
    (h : O.applied gpa k s = some t) (hret : ret = 0 → 0 < k)
    (hr : O.setRegions gpa todo k ret t = r) : ∃ j ≤ k + todo, O.applied gpa j s = some r.2 ∧
      (r.1 = 0 → 0 < j ∧ (j = k + todo ∨ O.copyMr r.2 (entry gpa j) = none)) := by
  induction todo generalizing k ret t with
  | zero =>
    subst hr
    exact ⟨k, Nat.le_refl _, h, fun h0 => ⟨hret h0, .inl rfl⟩⟩
  | succ todo ih =>
    rw [setRegions] at hr
    cases hmr : O.copyMr t (entry gpa k) with
    | none =>
      rw [hmr] at hr
      subst hr
      exact ⟨k, Nat.le_add_right _ _, h, fun h0 => ⟨hret h0, .inr hmr⟩⟩
    | some mr =>
      simp only [hmr] at hr
      rcases O.setVmMemoryRegion_cases mr t with hset | hset
      · have hnext : O.applied gpa (k + 1) s = some (O.setVmMemoryRegion mr t).2 := by
          simp [applied, h, hmr, hset]
        rw [hset] at hr
        obtain ⟨j, hj, hrest⟩ := ih hnext (fun _ => Nat.succ_pos k) hr
        rw [Nat.succ_add_eq_add_succ] at hj hrest
        exact ⟨j, hj, hrest⟩
      · rw [hset] at hr
        subst hr
        exact ⟨k, Nat.le_add_right _ _, h, by simp⟩

/-- For every list: the first regions of it have been applied and no others, and the result
is zero only if these are all of them, exactly if no entry behind the first fails to be
copied when the ones before it have been applied. -/
theorem regions_applied_iff (O : MemoryOps σ) (param1 : BitVec 64) (s : σ) :
    let regions := O.request param1 s
    let r := O.hcallSetVmMemoryRegions param1 s
    (∃ k ≤ regions.mrNum, O.applied regions.regionsGpa k s = some r.2 ∧
        (r.1 = 0 → k = regions.mrNum)) ↔
      ∀ k t, 0 < k → k < regions.mrNum → O.applied regions.regionsGpa k s = some t →
        O.copyMr t (entry regions.regionsGpa k) ≠ none := by
  intro regions r
  have hr : O.setRegions regions.regionsGpa regions.mrNum 0 (-1) s = r := by
    simp only [r, regions, hcallSetVmMemoryRegions, request]
    split
    · rfl
    · split <;> rfl
  constructor
  · rintro ⟨j, -, happ, hall⟩ k t hk hlt ht hnone
    -- the loop ends here, with the result of the entry before
    rw [setRegions_applied ht (Nat.le_of_lt hlt),
      show regions.mrNum - k = regions.mrNum - (k + 1) + 1 by omega, setRegions, hnone,
      if_neg (Nat.ne_of_gt hk)] at hr
    rw [← hr] at happ hall
    rw [hall rfl] at happ
    obtain ⟨u, hu⟩ := applied_of_le happ hlt
    obtain ⟨t', mr, ht', hmr, -⟩ := applied_succ hu
    cases ht.symm.trans ht'
    cases hnone.symm.trans hmr
  · intro hcopied
    obtain ⟨j, hj, happ, hzero⟩ := setRegions_stops rfl (by simp) hr
    rw [Nat.zero_add] at hj hzero
    refine ⟨j, hj, happ, fun h0 => ?_⟩
    obtain ⟨hpos, hend | hnone⟩ := hzero h0
    · exact hend
    · exact Nat.le_antisymm hj (Nat.le_of_not_lt fun hlt => hcopied j _ hpos hlt happ hnone)

end MemoryOps

/-- A list of two regions, of which the second cannot be copied; a state is what has been
mapped. -/
def tornList : MemoryOps (List (BitVec 64)) where
  copyRegions _ _ := some ⟨2, 0x1000⟩
  copyMr _ a := if a = 0x1000 then some ⟨0, 0x47, 0x200000, 0x300000, 0x1000⟩ else none
  isPoweroffVm _ := false
  isSeverityPass _ := true
  isRunning _ := true
  serviceIsValidMr _ _ _ := true
  targetIsValidMr _ _ _ := true
  gpa2hpa _ a := a
  softwareSram := none
  eptAddMr _ gpa _ _ s := gpa :: s
  eptDelMr gpa _ s := s.erase gpa

theorem regions_half_applied : tornList.hcallSetVmMemoryRegions 0 [] = (0, [0x200000]) ∧
      (tornList.request 0 []).mrNum = 2 ∧ tornList.applied 0x1000 1 [] = some [0x200000] ∧
      tornList.applied 0x1000 2 [] = none := by
  decide

end Sima.Vm
