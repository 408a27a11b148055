import Mathlib.Data.List.Sort

/-!
# Insertion behind equal keys

A queue that is kept in the order of a key: a new element goes before the first
one whose key is greater, hence behind all whose key is the same.
-/

namespace Sima.Lib

variable {α κ : Type*} [LinearOrder κ] {key key' : α → κ} {l : List α} {a : α}

/-- In the order of the key. -/
def SortedBy (key : α → κ) (l : List α) : Prop :=
  l.Pairwise fun a b => key a ≤ key b

theorem SortedBy.congr (h : SortedBy key l) (heq : ∀ a ∈ l, key' a = key a) : SortedBy key' l := by
  refine .imp_of_mem ?_ h
  intro a b ha hb hab
  rw [heq a ha, heq b hb]
  exact hab

theorem SortedBy.erase [DecidableEq α] (h : SortedBy key l) (a : α) : SortedBy key (l.erase a) :=
  .sublist List.erase_sublist h

/-- The place of `a`: before the first greater key. -/
def stableInsert (key : α → κ) (a : α) (l : List α) : List α :=
  l.orderedInsert (fun a b => key a < key b) a

theorem stableInsert_sorted (h : SortedBy key l) (a : α) :
    SortedBy key (stableInsert key a l) := by
  induction l with
  | nil => exact List.pairwise_singleton _ a
  | cons b l ih =>
    obtain ⟨hb, hl⟩ := List.pairwise_cons.mp h
    rw [stableInsert, List.orderedInsert]
    split
    · next hlt =>
      refine List.pairwise_cons.mpr ⟨fun c hc => ?_, h⟩
      rcases List.mem_cons.mp hc with rfl | hc
      · exact hlt.le
      · exact hlt.le.trans (hb c hc)
    · next hle =>
      refine List.pairwise_cons.mpr ⟨fun c hc => ?_, ih hl⟩
      rcases List.mem_cons.mp ((List.perm_orderedInsert _ a l).mem_iff.mp hc) with rfl | hc
      · exact not_lt.mp hle
      · exact hb c hc

theorem stableInsert_greatest (h : ∀ b ∈ l, key b ≤ key a) : stableInsert key a l = l ++ [a] := by
  induction l with
  | nil => rfl
  | cons b l ih =>
    have hb : ¬ key a < key b := not_lt.mpr (h b (by simp))
    have ih := ih fun c hc => h c (by simp [hc])
    rw [stableInsert] at ih
    rw [stableInsert, List.orderedInsert, if_neg hb, ih]
    rfl

end Sima.Lib
