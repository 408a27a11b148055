import Sima.Mmu.Translate

/-!
# Ranges of addresses, level by level

A level loop starts somewhere in a table, works on the entry that its address
takes, and moves to the next entry until the table or the range ends. The
arithmetic of that is the same at every level, and it is done here once, on
page numbers: the pages of the range that pass through a table are those in the
entry at hand and those in the rest of the table.
-/

namespace Sima.Mmu

open Lib

variable {x : Place Nat} {l i k vaddr vaddrEnd : Nat}

/-- Page `k` lies in `[vaddr, vaddrEnd)`. -/
def InRange (vaddr vaddrEnd k : Nat) : Prop :=
  vaddr ≤ 4096 * k ∧ 4096 * k < vaddrEnd

/-- Page `k` passes through the table at `x`. -/
def Passes (x : Place Nat) (k : Nat) : Prop := k / 512 ^ (x.lvl + 1) = x.num

/-- A page-aligned, non-empty range of 48-bit addresses. -/
structure Fits (vaddr vaddrEnd : Nat) : Prop where
  start : vaddr % 4096 = 0
  stop : vaddrEnd % 4096 = 0
  lt : vaddr < vaddrEnd
  below : vaddrEnd ≤ 2 ^ 48

theorem passes_child (hx : 0 < x.lvl) : Passes (x.child 512 i) k ↔ Takes 512 x i k := by
  have hl : x.lvl - 1 + 1 = x.lvl := by omega
  simp only [Passes, Takes, Place.child, hl]

theorem passes_iff : Passes x k ↔ k / 512 ^ x.lvl / 512 = x.num := by
  rw [Passes, div_pow_succ]

theorem levelSize_le (hl : l ≤ 3) : levelSize l ≤ 2 ^ 39 := by
  have hcases : l = 0 ∨ l = 1 ∨ l = 2 ∨ l = 3 := by omega
  rcases hcases with rfl | rfl | rfl | rfl <;> simp [levelSize]

theorem vaddrNext_eq (hl : l ≤ 3) (hv : vaddr < 2 ^ 48) :
    vaddrNext l vaddr = (vaddr / 4096 / 512 ^ l + 1) * levelSize l := by
  have hle : alignDown (levelSize l) vaddr ≤ vaddr := Nat.div_mul_le_self ..
  have hsize := levelSize_le hl
  rw [vaddrNext, add64, Nat.mod_eq_of_lt (by omega), alignDown, div_levelSize, Nat.succ_mul]

theorem vaddrNext_le_iff (hl : l ≤ 3) (hv : vaddr < 2 ^ 48) :
    vaddrNext l vaddr ≤ 4096 * k ↔ vaddr / 4096 / 512 ^ l < k / 512 ^ l := by
  rw [vaddrNext_eq hl hv, levelSize, Nat.lt_iff_add_one_le,
    Nat.le_div_iff_mul_le (Nat.pow_pos (by omega))]
  rw [← mul_assoc, mul_comm _ 4096, mul_assoc]
  omega

theorem div_le_of_le (h : vaddr ≤ 4096 * k) : vaddr / 4096 / 512 ^ l ≤ k / 512 ^ l :=
  Nat.div_le_div_right (by omega)

theorem vaddrNext_page (hl : l ≤ 3) (hv : vaddr < 2 ^ 48) :
    vaddrNext l vaddr / 4096 / 512 ^ l = vaddr / 4096 / 512 ^ l + 1 := by
  rw [← div_levelSize, vaddrNext_eq hl hv, Nat.mul_div_cancel _ (levelSize_pos l)]

theorem vaddrNext_aligned (hl : l ≤ 3) (hv : vaddr < 2 ^ 48) : vaddrNext l vaddr % 4096 = 0 := by
  rw [vaddrNext_eq hl hv, levelSize, mul_left_comm]
  exact Nat.mul_mod_right ..

theorem lt_vaddrNext (hl : l ≤ 3) (hv : vaddr < 2 ^ 48) : vaddr < vaddrNext l vaddr := by
  rw [vaddrNext_eq hl hv, ← div_levelSize]
  exact Nat.lt_mul_of_div_lt (Nat.lt_succ_self _) (levelSize_pos l)

theorem vaddrNext_three (v : Nat) : vaddrNext 3 v = (v / 2 ^ 39 * 2 ^ 39 + 2 ^ 39) % 2 ^ 64 := by
  simp [vaddrNext, alignDown, levelSize, add64]

/-! ## One turn of a level loop -/

theorem Fits.start_lt (hfit : Fits vaddr vaddrEnd) : vaddr < 2 ^ 48 := by
  have := hfit.lt
  have := hfit.below
  omega

section Turn

variable (hx : x.lvl ≤ 3) (hi : i < 512) (hfit : Fits vaddr vaddrEnd)
  (htake : Takes 512 x i (vaddr / 4096))

include hx hfit

theorem Fits.next (hlt : vaddrNext x.lvl vaddr < vaddrEnd) :
    Fits (vaddrNext x.lvl vaddr) vaddrEnd :=
  ⟨vaddrNext_aligned hx hfit.start_lt, hfit.stop, hlt, hfit.below⟩

include htake

theorem takes_next : Takes 512 x (i + 1) (vaddrNext x.lvl vaddr / 4096) := by
  rw [Takes, vaddrNext_page hx (hfit.start_lt), htake, add_assoc]

theorem takes_not_next (ht : Takes 512 x i k) : ¬ InRange (vaddrNext x.lvl vaddr) vaddrEnd k := by
  intro hr
  have := (vaddrNext_le_iff hx hfit.start_lt).mp hr.1
  rw [Takes] at htake ht
  omega

include hi

/-- The pages of the range in this table: in the entry at hand, or after it. -/
theorem passes_split : (Passes x k ∧ InRange vaddr vaddrEnd k) ↔
    (Takes 512 x i k ∧ InRange vaddr vaddrEnd k) ∨
      (Passes x k ∧ InRange (vaddrNext x.lvl vaddr) vaddrEnd k) := by
  have hnext := vaddrNext_le_iff (k := k) hx hfit.start_lt
  have hlt := lt_vaddrNext hx hfit.start_lt
  rw [Takes] at htake
  rw [passes_iff, Takes, InRange, InRange, hnext, htake]
  constructor
  · rintro ⟨hp, hr⟩
    have hle := div_le_of_le (l := x.lvl) hr.1
    omega
  intro hor
  rcases hor with ⟨ht, hr⟩ | ⟨hp, hr⟩
  · exact ⟨by omega, hr⟩
  · refine ⟨hp, ?_, hr.2⟩
    omega

theorem passes_last (hle : vaddrEnd ≤ vaddrNext x.lvl vaddr) :
    (Passes x k ∧ InRange vaddr vaddrEnd k) ↔ (Takes 512 x i k ∧ InRange vaddr vaddrEnd k) := by
  rw [passes_split hx hi hfit htake]
  refine or_iff_left ?_
  rintro ⟨_, hr⟩
  have := hr.1
  have := hr.2
  omega

omit hi in
theorem takes_covered (halign : vaddr % levelSize x.lvl = 0)
    (hle : vaddrNext x.lvl vaddr ≤ vaddrEnd) (ht : Takes 512 x i k) :
    InRange vaddr vaddrEnd k := by
  rw [Takes] at htake ht
  have hnext := vaddrNext_le_iff (k := k) hx hfit.start_lt
  refine ⟨?_, ?_⟩
  · have hv : vaddr = vaddr / levelSize x.lvl * levelSize x.lvl :=
      (Nat.div_mul_cancel (Nat.dvd_of_mod_eq_zero halign)).symm
    have hk : k / 512 ^ x.lvl * 512 ^ x.lvl ≤ k := Nat.div_mul_le_self ..
    rw [hv, div_levelSize, htake, ← ht]
    calc k / 512 ^ x.lvl * (4096 * 512 ^ x.lvl)
        = 4096 * (k / 512 ^ x.lvl * 512 ^ x.lvl) := by
          rw [mul_left_comm]
      _ ≤ 4096 * k := Nat.mul_le_mul_left _ hk
  · omega

end Turn

theorem passes_end (h : Takes 512 x 512 (vaddr / 4096)) :
    ¬ (Passes x k ∧ InRange vaddr vaddrEnd k) := by
  rintro ⟨hp, hr⟩
  have hle := div_le_of_le (l := x.lvl) hr.1
  rw [passes_iff] at hp
  rw [Takes] at h
  omega

/-! ## Pages -/

theorem add64_levelSize_zero (h : vaddr % 4096 = 0) :
    add64 vaddr (levelSize 0) = vaddrNext 0 vaddr := by
  have halign : alignDown (levelSize 0) vaddr = vaddr := by
    simp only [alignDown, levelSize]
    omega
  rw [vaddrNext, halign]

theorem Fits.page (hfit : Fits vaddr vaddrEnd) :
    vaddr % levelSize 0 = 0 ∧ vaddrNext 0 vaddr ≤ vaddrEnd := by
  have h1 := hfit.lt
  have h2 := hfit.start
  have h3 := hfit.stop
  rw [vaddrNext_eq (by omega) hfit.start_lt]
  simp only [levelSize]
  omega

theorem add64_range {a b : Nat} (h : a + b ≤ 2 ^ 48) : add64 a b = a + b :=
  Nat.mod_eq_of_lt (by omega)

theorem roundPageUp_aligned (a : Nat) : roundPageUp a % 4096 = 0 := Nat.mul_mod_left ..

theorem roundPageDown_aligned (a : Nat) : roundPageDown a % 4096 = 0 := Nat.mul_mod_left ..

end Sima.Mmu
