import Mathlib.Data.List.Basic
import Mathlib.Data.Set.Card
import Mathlib.Logic.Function.Basic

/-!
# A map in an array of slots

A finite map kept in a fixed number of slots. An entry that is in use has a key, an
unused one has none, and looking a key up is a linear search. As long as no key is in
two slots, the array is a partial function of the key; writing an entry into the slot
of its key, or into a free one, changes that function at this key alone, and so does
taking an entry out. There is a free slot whenever the keys are fewer than the slots.
-/

namespace Sima.Lib.KeyedSlots

open Function (update update_of_ne update_self)

variable {α κ : Type*} [DecidableEq κ] {key : α → Option κ} {n : Nat} {slot : Nat → α} {k k' : κ}
  {a : α} {i : Nat}

section

variable (key : α → Option κ) (n : Nat) (slot : Nat → α)

def find (k : κ) : Option Nat :=
  (List.range n).find? fun i => key (slot i) == some k

def free : Option Nat :=
  (List.range n).find? fun i => (key (slot i)).isNone

def lookup (k : κ) : Option α :=
  (find key n slot k).map slot

/-- No key is in two slots. -/
def Unique : Prop :=
  ∀ ⦃i j⦄ ⦃k : κ⦄, i < n → j < n → key (slot i) = some k → key (slot j) = some k → i = j

end

theorem find_some (h : find key n slot k = some i) : i < n ∧ key (slot i) = some k := by
  have hp : (key (slot i) == some k) = true :=
    List.find?_some (p := fun i => key (slot i) == some k) h
  exact ⟨List.mem_range.mp (List.mem_of_find?_eq_some h), beq_iff_eq.mp hp⟩

theorem find_none (h : find key n slot k = none) : ∀ i < n, key (slot i) ≠ some k := by
  intro i hi hk
  exact List.find?_eq_none.mp h i (List.mem_range.mpr hi) (beq_iff_eq.mpr hk)

omit [DecidableEq κ] in
theorem free_some (h : free key n slot = some i) : i < n ∧ key (slot i) = none := by
  have hp : (key (slot i)).isNone = true := List.find?_some (p := fun i => (key (slot i)).isNone) h
  exact ⟨List.mem_range.mp (List.mem_of_find?_eq_some h), Option.isNone_iff_eq_none.mp hp⟩

omit [DecidableEq κ] in
theorem free_none (h : free key n slot = none) {i : Nat} (hi : i < n) :
    ∃ k, key (slot i) = some k := by
  have := List.find?_eq_none.mp h i (List.mem_range.mpr hi)
  cases hk : key (slot i) with
  | none => exact absurd (by rw [hk]; rfl) this
  | some k => exact ⟨k, rfl⟩

theorem Unique.find_eq (hu : Unique key n slot) (hi : i < n) (hk : key (slot i) = some k) :
    find key n slot k = some i := by
  cases h : find key n slot k with
  | none => exact absurd hk (find_none h i hi)
  | some j =>
    obtain ⟨hj, hkj⟩ := find_some h
    rw [hu hj hi hkj hk]

theorem lookup_none (h : ∀ i < n, key (slot i) ≠ some k) : lookup key n slot k = none := by
  cases hf : find key n slot k with
  | none => rw [lookup, hf, Option.map_none]
  | some i => exact absurd (find_some hf).2 (h i (find_some hf).1)

theorem Unique.lookup_eq (hu : Unique key n slot) (hi : i < n)
    (hk : key (slot i) = some k) : lookup key n slot k = some (slot i) := by
  rw [lookup, hu.find_eq hi hk, Option.map_some]

/-! ## Writing one slot -/

/-- A slot that holds the entry of `k`, or that may be given it. -/
def Fits (key : α → Option κ) (n : Nat) (slot : Nat → α) (k : κ) (i : Nat) : Prop :=
  find key n slot k = some i ∨ find key n slot k = none ∧ i < n ∧ key (slot i) = none

theorem Fits.lt (h : Fits key n slot k i) : i < n := by
  rcases h with h | h
  · exact (find_some h).1
  · exact h.2.1

theorem Fits.only (hu : Unique key n slot) (h : Fits key n slot k i) {j : Nat} (hj : j < n)
    (hk : key (slot j) = some k) : j = i := by
  rcases h with h | h
  · exact hu hj (find_some h).1 hk (find_some h).2
  · exact absurd hk (find_none h.1 j hj)

theorem Fits.key_ne (h : Fits key n slot k i) (hk : k' ≠ k) : key (slot i) ≠ some k' := by
  rcases h with h | h
  · rw [(find_some h).2]
    exact fun hc => hk (Option.some.inj hc).symm
  · rw [h.2.2]
    exact Option.some_ne_none k' ∘ Eq.symm

theorem Unique.put (hu : Unique key n slot) (hf : Fits key n slot k i)
    (ha : key a = some k) : Unique key n (update slot i a) := by
  -- an entry with the key of the new one can only be the new one
  have hnew : ∀ {j k'}, j < n → key (update slot i a j) = some k' → k' = k → j = i := by
    intro j k' hj hk he
    by_contra hne
    rw [update_of_ne hne, he] at hk
    exact hne (hf.only hu hj hk)
  intro j j' k' hj hj' hk hk'
  by_cases he : k' = k
  · rw [hnew hj hk he, hnew hj' hk' he]
  have hold : ∀ {l}, key (update slot i a l) = some k' → l ≠ i := by
    rintro l hl rfl
    rw [update_self, ha] at hl
    exact he (Option.some.inj hl).symm
  have h1 := hold hk
  have h2 := hold hk'
  rw [update_of_ne h1] at hk
  rw [update_of_ne h2] at hk'
  exact hu hj hj' hk hk'

omit [DecidableEq κ] in
theorem Unique.drop (hu : Unique key n slot) (ha : key a = none) :
    Unique key n (update slot i a) := by
  have hold : ∀ {l k'}, key (update slot i a l) = some k' → l ≠ i := by
    rintro l k' hl rfl
    rw [update_self, ha] at hl
    cases hl
  intro j j' k' hj hj' hk hk'
  have h1 := hold hk
  have h2 := hold hk'
  rw [update_of_ne h1] at hk
  rw [update_of_ne h2] at hk'
  exact hu hj hj' hk hk'

theorem lookup_other (hold : key (slot i) ≠ some k') (hnew : key a ≠ some k') :
    lookup key n (update slot i a) k' = lookup key n slot k' := by
  have hsame : ∀ j, (key (update slot i a j) == some k') = (key (slot j) == some k') := by
    intro j
    by_cases hj : j = i
    · rw [hj, update_self, beq_false_of_ne hold, beq_false_of_ne hnew]
    · rw [update_of_ne hj]
  have hfind : find key n (update slot i a) k' = find key n slot k' := by
    exact congrArg (fun p => (List.range n).find? p) (funext hsame)
  rw [lookup, lookup, hfind]
  cases h : find key n slot k' with
  | none => rfl
  | some j =>
    have hj : j ≠ i := fun he => hold (he ▸ (find_some h).2)
    rw [Option.map_some, Option.map_some, update_of_ne hj]

theorem Unique.lookup_put (hu : Unique key n slot) (hf : Fits key n slot k i)
    (ha : key a = some k) :
    lookup key n (update slot i a) = update (lookup key n slot) k (some a) := by
  funext k'
  by_cases hk : k' = k
  · subst hk
    rw [update_self, (hu.put hf ha).lookup_eq hf.lt, update_self]
    rw [update_self, ha]
  rw [update_of_ne hk]
  refine lookup_other (hf.key_ne hk) ?_
  rw [ha]
  exact fun hc => hk (Option.some.inj hc).symm

theorem Unique.lookup_drop (hu : Unique key n slot) (hf : find key n slot k = some i)
    (ha : key a = none) : lookup key n (update slot i a) = update (lookup key n slot) k none := by
  obtain ⟨hi, hki⟩ := find_some hf
  funext k'
  by_cases hk : k' = k
  · subst hk
    rw [update_self]
    refine lookup_none fun j hj hkj => ?_
    by_cases hji : j = i
    · rw [hji, update_self, ha] at hkj
      cases hkj
    · rw [update_of_ne hji] at hkj
      exact hji (hu hj hi hkj hki)
  · rw [update_of_ne hk]
    refine lookup_other ?_ (by rw [ha]; exact Option.some_ne_none k' ∘ Eq.symm)
    rw [hki]
    exact fun hc => hk (Option.some.inj hc).symm

/-! ## Room -/

/-- The keys in use. -/
def keys (key : α → Option κ) (n : Nat) (slot : Nat → α) : Set κ :=
  {k | (lookup key n slot k).isSome}

theorem encard_keys_le : (keys key n slot).encard ≤ n := by
  have hsub : Set.image some (keys key n slot) ⊆
      ((Finset.range n).image fun i => key (slot i)) := by
    rintro _ ⟨k, hk, rfl⟩
    obtain ⟨i, hi⟩ := Option.isSome_iff_exists.mp (by rw [← Option.isSome_map]; exact hk)
    obtain ⟨hlt, hkey⟩ := find_some hi
    exact Finset.mem_coe.mpr (Finset.mem_image.mpr ⟨i, Finset.mem_range.mpr hlt, hkey⟩)
  calc (keys key n slot).encard = (Set.image some (keys key n slot)).encard :=
        ((Option.some_injective κ).encard_image _).symm
    _ ≤ _ := Set.encard_le_encard hsub
    _ ≤ n := by
        rw [Set.encard_coe_eq_coe_finsetCard]
        exact Nat.cast_le.mpr (Finset.card_image_le.trans_eq (Finset.card_range n))

theorem Unique.le_encard (hu : Unique key n slot) (hfull : free key n slot = none) :
    (n : ℕ∞) ≤ (keys key n slot).encard := by
  choose f hf using fun i : Fin n => free_none hfull i.isLt
  have hinj : Function.Injective f := by
    intro i j hij
    have hj := hf j
    rw [← hij] at hj
    exact Fin.ext (hu i.isLt j.isLt (hf i) hj)
  calc (n : ℕ∞) = (Set.range f).encard := by
        rw [← Set.image_univ, hinj.encard_image, Set.encard_univ, ENat.card_eq_coe_fintype_card,
          Fintype.card_fin]
    _ ≤ (keys key n slot).encard := by
        refine Set.encard_le_encard ?_
        rintro _ ⟨i, rfl⟩
        show (lookup key n slot (f i)).isSome
        rw [hu.lookup_eq i.isLt (hf i)]
        rfl

/-- A key that is not in use finds a place if with it the keys are at most as many as
the slots. -/
theorem Unique.exists_free (hu : Unique key n slot) (hk : find key n slot k = none)
    (hcard : (insert k (keys key n slot)).encard ≤ n) : ∃ i, Fits key n slot k i ∧
      free key n slot = some i := by
  cases hfree : free key n slot with
  | some i => exact ⟨i, .inr ⟨hk, free_some hfree⟩, rfl⟩
  | none =>
    have hnew : k ∉ keys key n slot := by
      intro hc
      have hc : (lookup key n slot k).isSome = true := hc
      rw [lookup, hk] at hc
      cases hc
    rw [Set.encard_insert_of_notMem hnew] at hcard
    have hle : ((n + 1 : Nat) : ℕ∞) ≤ n := by
      exact (add_le_add_left (hu.le_encard hfree) 1).trans hcard
    exact absurd (Nat.cast_le.mp hle) (by omega)

end Sima.Lib.KeyedSlots
