import Sima.Mmu.Range
import Sima.X86.EptPools

/-!
# Space in the memory map of a VM

The loaders of a guest ask `find_space_from_ve820` for room between two addresses. It works in
whole pages: it clips every RAM entry to the pages that lie in it, and it gives out the top of the
last entry that has as many pages as the size takes up.
-/

namespace Sima.X86

open Mmu

def invalidGpa : Nat := 2 ^ 52

section

variable (size minAddr maxAddr : Nat)

/-- What one entry offers; `size` is 32 bits, and so is its rounded value. -/
def spaceInEntry (e : E820Entry) : Option Nat :=
  let roundMinAddr := roundPageUp minAddr
  let roundMaxAddr := roundPageDown maxAddr
  let roundSize := roundPageUp size % 2 ^ 32
  let length := if e.start < e.stop then sub64 e.stop e.start else 0
  if e.type = .ram ∧ roundSize ≤ length ∧ roundMinAddr < e.stop ∧ e.start < roundMaxAddr ∧
      (minAddr ≤ e.start ∧ add64 e.start roundSize ≤ min e.stop roundMaxAddr ∨
        e.start < minAddr ∧ add64 minAddr roundSize ≤ min e.stop roundMaxAddr) then
    some (sub64 (if roundMaxAddr < e.stop then roundMaxAddr else e.stop) roundSize)
  else none

/-- `find_space_from_ve820`, from the last entry down. -/
def findSpaceFromVe820 (es : List E820Entry) : Nat :=
  (es.reverse.findSome? (spaceInEntry size minAddr maxAddr)).getD invalidGpa

/-- `size` bytes of RAM from a page on, in one entry and between the two addresses. -/
structure Offers (e : E820Entry) (gpa : Nat) : Prop where
  aligned : gpa % 4096 = 0
  ram : e.type = .ram
  base : e.baseaddr ≤ gpa
  length : gpa + size ≤ e.baseaddr + e.length
  low : minAddr ≤ gpa
  high : gpa + size ≤ maxAddr

end

section

variable {size minAddr maxAddr gpa : Nat} {e : E820Entry} {es : List E820Entry}
  (h0 : 0 < size) (hs : size ≤ 2 ^ 32 - 4096) (hmin : minAddr ≤ 2 ^ 64 - 4096)

theorem roundPageUp_spec {a : Nat} (h : a ≤ 2 ^ 64 - 4096) :
    roundPageUp a % 4096 = 0 ∧ a ≤ roundPageUp a ∧ roundPageUp a < a + 4096 := by
  simp only [roundPageUp, alignDown, add64]
  omega

include h0 hs hmin

section

variable (he : e.baseaddr + e.length ≤ invalidGpa)

include he

/-- The comparisons of the source, made with the unrounded lower bound, say that the pages fit
between the clipped bounds. -/
theorem spaceInEntry_eq :
    spaceInEntry size minAddr maxAddr e = if e.type = .ram ∧
          max e.start (roundPageUp minAddr) + roundPageUp size ≤
            min e.stop (roundPageDown maxAddr) then
        some (min e.stop (roundPageDown maxAddr) - roundPageUp size) else none := by
  obtain ⟨hs₁, hs₂, hs₃⟩ := roundPageUp_spec (a := size) (by omega)
  obtain ⟨hm₁, hm₂, hm₃⟩ := roundPageUp_spec (a := minAddr) (by omega)
  have hstart : e.start % 4096 = 0 := roundPageUp_aligned _
  have hstop : e.stop % 4096 = 0 := roundPageDown_aligned _
  have hmax : roundPageDown maxAddr % 4096 = 0 := roundPageDown_aligned _
  obtain ⟨-, hstart', hstop', -⟩ := e.bounds he
  rw [spaceInEntry, Nat.mod_eq_of_lt (by omega)]
  generalize roundPageUp size = roundSize at *
  generalize roundPageUp minAddr = roundMinAddr at *
  generalize roundPageDown maxAddr = roundMaxAddr at *
  simp only [add64, sub64, invalidGpa] at *
  generalize e.start = start at *
  generalize e.stop = stop at *
  by_cases hfit : e.type = .ram ∧ max start roundMinAddr + roundSize ≤ min stop roundMaxAddr
  · have hlen : roundSize ≤ if start < stop then (stop + (2 ^ 64 - start)) % 2 ^ 64 else 0 := by
      rw [if_pos (by omega)]
      omega
    rw [if_pos hfit]
    refine (if_pos ⟨hfit.1, hlen, by omega⟩).trans (congrArg some ?_)
    split <;> omega
  · rw [if_neg hfit]
    refine if_neg ?_
    rintro ⟨hram, hlen, h⟩
    have hout := not_and.mp hfit hram
    split at hlen <;> omega

theorem spaceInEntry_offers (h : spaceInEntry size minAddr maxAddr e = some gpa) :
    Offers (roundPageUp size) minAddr maxAddr e gpa := by
  rw [spaceInEntry_eq h0 hs hmin he] at h
  obtain ⟨⟨hram, hfit⟩, hgpa⟩ := Option.ite_none_right_eq_some.mp h
  obtain rfl := Option.some.inj hgpa
  obtain ⟨hs₁, hs₂, hs₃⟩ := roundPageUp_spec (a := size) (by omega)
  have hstop : e.stop % 4096 = 0 := roundPageDown_aligned _
  have hmax : roundPageDown maxAddr % 4096 = 0 := roundPageDown_aligned _
  obtain ⟨hm₁, hm₂, hm₃⟩ := roundPageUp_spec (a := minAddr) (by omega)
  obtain ⟨hstart, -, hstop', -⟩ := e.bounds he
  have hmax' : roundPageDown maxAddr ≤ maxAddr := Nat.div_mul_le_self ..
  constructor
  case ram => exact hram
  all_goals omega

theorem spaceInEntry_of_offers (h : Offers (roundPageUp size) minAddr maxAddr e gpa) :
    spaceInEntry size minAddr maxAddr e ≠ none := by
  rw [spaceInEntry_eq h0 hs hmin he, if_pos]
  · simp
  refine ⟨h.ram, ?_⟩
  obtain ⟨ha, -, hbase, hlen, hlow, hhigh⟩ := h
  simp only [E820Entry.start, E820Entry.stop, roundPageUp, roundPageDown, alignDown, add64,
    invalidGpa] at *
  omega

end

/-- For a size that the 32 bits hold in whole pages, and a lower bound that can be rounded up: what
is found is RAM between the two addresses, and nothing is found only if no entry has as many whole
pages there. -/
theorem find_space_in_whole_pages
    (hes : ∀ e ∈ es, e.baseaddr + e.length ≤ invalidGpa) :
    (findSpaceFromVe820 size minAddr maxAddr es ≠ invalidGpa →
      ∃ e ∈ es, Offers size minAddr maxAddr e (findSpaceFromVe820 size minAddr maxAddr es)) ∧
    (findSpaceFromVe820 size minAddr maxAddr es = invalidGpa →
      ∀ e ∈ es, ∀ g, ¬Offers (roundPageUp size) minAddr maxAddr e g) := by
  have hsize := (roundPageUp_spec (a := size) (by omega)).2.1
  rw [findSpaceFromVe820]
  cases hf : es.reverse.findSome? (spaceInEntry size minAddr maxAddr) with
  | none =>
    refine ⟨fun h => absurd rfl h, fun _ e he g hg => ?_⟩
    exact spaceInEntry_of_offers h0 hs hmin (hes e he) hg
      (List.findSome?_eq_none_iff.mp hf e (List.mem_reverse.mpr he))
  | some gpa =>
    obtain ⟨e, he, hgpa⟩ := List.exists_of_findSome?_eq_some hf
    have hin := hes e (List.mem_reverse.mp he)
    obtain ⟨ha, hram, hbase, hlen, hlow, hhigh⟩ := spaceInEntry_offers h0 hs hmin hin hgpa
    rw [Option.getD_some]
    exact ⟨fun _ => ⟨e, List.mem_reverse.mp he, ha, hram, hbase, by omega, hlow, by omega⟩,
      fun h => by omega⟩

end

theorem find_space_below_one_mib :
    ∃ e ∈ [E820Entry.mk 0 0xa0000 .ram, ⟨0x100000, 0x3ff00000, .ram⟩],
      Offers 0x1800 0x1000 0x100000 e 0x9e000 :=
  (find_space_in_whole_pages (by decide) (by decide) (by decide) (by decide)).1 (by decide)

/-- Six KiB that lie in the entry are not found, for they take up two pages. -/
theorem find_space_misses_part_page :
    findSpaceFromVe820 0x1800 0 (2 ^ 32) [⟨0x1000, 0x1800, .ram⟩] = invalidGpa ∧
      Offers 0x1800 0 (2 ^ 32) ⟨0x1000, 0x1800, .ram⟩ 0x1000 := by
  refine ⟨by decide, ?_⟩
  constructor <;> decide

end Sima.X86
