import Mathlib.Data.List.Basic
import Mathlib.Logic.Function.Basic

/-!
# A packed table of slots

A fixed array of slots of which the first `used` are in use. An entry is added
behind the last used slot; removing one moves the last entry into its place, so
the used slots stay at the front and their order does not survive.

Two questions are asked of such a table, both about a property of entries:
whether some used slot has it (`Any`), and whether no two do (`Once`).
-/

namespace Sima.Lib

open Function (update update_apply)

structure Slots (α : Type*) where
  slot : Nat → α
  used : Nat

namespace Slots

variable {α : Type*} {t : Slots α} {P Q : α → Prop} {p : α → Bool} {a b : α}
  {i n : Nat}

def set (t : Slots α) (i : Nat) (a : α) : Slots α :=
  { t with slot := update t.slot i a }

def push (t : Slots α) (a : α) : Slots α :=
  { slot := update t.slot t.used a, used := t.used + 1 }

/-- The last entry takes the place of the removed one; `blank` is what an unused
slot holds. -/
def remove (blank : α) (t : Slots α) (i : Nat) : Slots α :=
  if i < t.used then
    { slot := update (update t.slot i (t.slot (t.used - 1)))
        (t.used - 1) blank
      used := t.used - 1 }
  else t

/-- The first used slot whose entry passes the test. -/
def find (p : α → Bool) (t : Slots α) : Option Nat :=
  (List.range t.used).find? fun i => p (t.slot i)

def Any (t : Slots α) (P : α → Prop) : Prop := ∃ i < t.used, P (t.slot i)

def Once (t : Slots α) (P : α → Prop) : Prop :=
  ∀ ⦃i j⦄, i < t.used → j < t.used → P (t.slot i) → P (t.slot j) → i = j

@[simp] theorem push_used : (t.push a).used = t.used + 1 := rfl

theorem set_slot (k : Nat) : (t.set i a).slot k = if k = i then a else t.slot k :=
  update_apply t.slot i a k

theorem push_slot (k : Nat) : (t.push a).slot k = if k = t.used then a else t.slot k :=
  update_apply t.slot t.used a k

theorem remove_used (h : i < t.used) : (t.remove b i).used = t.used - 1 := by
  rw [remove, if_pos h]

theorem remove_slot (h : i < t.used) {k : Nat} (hk : k < t.used - 1) :
    (t.remove b i).slot k = if k = i then t.slot (t.used - 1) else t.slot k := by
  rw [remove, if_pos h]
  show update (update t.slot i _) (t.used - 1) b k = _
  rw [Function.update_of_ne (by omega), update_apply]

/-! ## Finding -/

theorem find_some (h : t.find p = some i) : i < t.used ∧ p (t.slot i) = true := by
  have hp := List.find?_some h
  have hm := List.mem_of_find?_eq_some h
  exact ⟨List.mem_range.mp hm, hp⟩

theorem find_none (h : t.find p = none) : ¬ t.Any fun a => p a = true := by
  rintro ⟨i, hi, hp⟩
  exact List.find?_eq_none.mp h i (List.mem_range.mpr hi) hp

/-! ## Some used slot -/

theorem Any.mono (h : t.Any P) (hPQ : ∀ a, P a → Q a) : t.Any Q := by
  obtain ⟨i, hi, hp⟩ := h
  exact ⟨i, hi, hPQ _ hp⟩

theorem any_set (h : (t.set i a).Any P) : P a ∨ t.Any P := by
  obtain ⟨k, hk, hp⟩ := h
  rw [set_slot] at hp
  split at hp
  · exact .inl hp
  · exact .inr ⟨k, hk, hp⟩

theorem any_set_self (hi : i < t.used) (ha : P a) : (t.set i a).Any P :=
  ⟨i, hi, by rw [set_slot, if_pos rfl]; exact ha⟩

theorem Any.set (h : t.Any P) (ha : P (t.slot i) → P a) : (t.set i a).Any P := by
  obtain ⟨k, hk, hp⟩ := h
  refine ⟨k, hk, ?_⟩
  rw [set_slot]
  split
  · next hki => exact ha (hki ▸ hp)
  · exact hp

theorem any_push : (t.push a).Any P ↔ t.Any P ∨ P a := by
  constructor
  · rintro ⟨k, hk, hp⟩
    rw [push_slot] at hp
    split at hp
    · exact .inr hp
    · next hne =>
      rw [push_used] at hk
      exact .inl ⟨k, by omega, hp⟩
  · rintro (⟨k, hk, hp⟩ | ha)
    · refine ⟨k, by rw [push_used]; omega, ?_⟩
      rwa [push_slot, if_neg (by omega)]
    · exact ⟨t.used, by rw [push_used]; omega, by rwa [push_slot, if_pos rfl]⟩

theorem any_remove (h : (t.remove b i).Any P) : t.Any P := by
  by_cases hi : i < t.used
  · obtain ⟨k, hk, hp⟩ := h
    rw [remove_used hi] at hk
    rw [remove_slot hi hk] at hp
    split at hp
    · exact ⟨t.used - 1, by omega, hp⟩
    · exact ⟨k, by omega, hp⟩
  · rwa [remove, if_neg hi] at h

theorem Any.remove (h : t.Any P) (hi : ¬ P (t.slot i)) : (t.remove b i).Any P := by
  obtain ⟨k, hk, hp⟩ := h
  by_cases hlt : i < t.used
  · have hki : k ≠ i := fun he => hi (he ▸ hp)
    by_cases hlast : k = t.used - 1
    · -- the last entry has moved into the freed slot
      refine ⟨i, by rw [remove_used hlt]; omega, ?_⟩
      rwa [remove_slot hlt (by omega), if_pos rfl, ← hlast]
    · refine ⟨k, by rw [remove_used hlt]; omega, ?_⟩
      rwa [remove_slot hlt (by omega), if_neg hki]
  · rw [Slots.remove, if_neg hlt]
    exact ⟨k, hk, hp⟩

/-! ## No two used slots -/

variable (h : t.Once P)

include h

/-- A table whose entries of the kind are those of another, slot by slot. -/
theorem Once.sub {t' : Slots α} (hs : ∀ k < t'.used, P (t'.slot k) → k < t.used ∧ P (t.slot k)) :
    t'.Once P :=
  fun k l hk hl hp hq => h (hs k hk hp).1 (hs l hl hq).1 (hs k hk hp).2 (hs l hl hq).2

theorem Once.set (ha : P a → P (t.slot i)) : (t.set i a).Once P := by
  -- whatever the table says of a slot now, it said before
  have hback : ∀ k, P ((t.set i a).slot k) → P (t.slot k) := by
    intro k hk
    rw [set_slot] at hk
    split at hk
    · next he => exact he ▸ ha hk
    · exact hk
  exact fun k l hk hl hp hq => h hk hl (hback k hp) (hback l hq)

theorem Once.push (ha : P a → ¬ t.Any P) : (t.push a).Once P := by
  intro k l hk hl hp hq
  rw [push_used] at hk hl
  rw [push_slot] at hp hq
  split at hp <;> split at hq
  · omega
  · next hne => exact absurd ⟨l, by omega, hq⟩ (ha hp)
  · next hne _ => exact absurd ⟨k, by omega, hp⟩ (ha hq)
  · exact h (by omega) (by omega) hp hq

theorem Once.remove : (t.remove b i).Once P := by
  by_cases hi : i < t.used
  · intro k l hk hl hp hq
    rw [remove_used hi] at hk hl
    rw [remove_slot hi hk] at hp
    rw [remove_slot hi hl] at hq
    split at hp <;> split at hq
    · omega
    · have := h (by omega) (by omega) hp hq
      omega
    · have := h (by omega) (by omega) hp hq
      omega
    · exact h (by omega) (by omega) hp hq
  · rwa [Slots.remove, if_neg hi]

theorem Once.not_any_remove (hi : i < t.used) (hp : P (t.slot i)) : ¬ (t.remove b i).Any P := by
  rintro ⟨k, hk, hq⟩
  rw [remove_used hi] at hk
  rw [remove_slot hi hk] at hq
  split at hq
  · have := h hi (by omega) hp hq
    omega
  · have := h hi (by omega) hp hq
    omega

omit h

end Slots

end Sima.Lib
