import Mathlib.Data.BitVec
import Mathlib.Data.List.Basic
import Mathlib.Data.List.GetD
import Mathlib.Logic.Function.Basic

/-!
# Bytes in memory

Copy loops and strings that end at a zero byte, over a memory that is a function of the
address.

A loop that copies upwards reads every source byte before it can have overwritten it, as
long as the destination does not start behind the source; one that copies downwards, as
long as it does not start before it. Either then has the effect of copying all at once,
overlap or not.

A string is a list without zeros of which the memory holds a copy, with a zero behind it.
The functions that walk over a string until its zero are functions of the list.
-/

namespace Sima.Lib

open Function (update update_of_ne update_self)

abbrev Byte := BitVec 8

abbrev Memory := Nat → Byte

namespace Memory

/-! ## Copying -/

def copyUp (m : Memory) (d s : Nat) : Nat → Memory
  | 0 => m
  | n + 1 => copyUp (update m d (m s)) (d + 1) (s + 1) n

def copyDown (m : Memory) (d s : Nat) : Nat → Memory
  | 0 => m
  | n + 1 => copyDown (update m (d + n) (m (s + n))) d s n

def fill (m : Memory) (d : Nat) (v : Byte) : Nat → Memory
  | 0 => m
  | n + 1 => fill (update m d v) (d + 1) v n

variable {m m' : Memory} {d s n a : Nat} {v : Byte}

/-- One byte is written first, and then the rest of a range. -/
theorem ite_update {P Q : Prop} [Decidable P] [Decidable Q] {b : Nat} {w w' : Byte}
    (hQ : Q ↔ P ∨ a = b) (hin : P → w' = w) (hat : a = b → v = w) :
    (if P then w' else update m b v a) = if Q then w else m a := by
  split <;> grind

/-- The source is not behind the destination, or the two do not overlap. -/
theorem copyUp_apply (h : d ≤ s ∨ s + n ≤ d) :
    copyUp m d s n a = if d ≤ a ∧ a < d + n then m (s + (a - d)) else m a := by
  induction n generalizing m d s with
  | zero => rw [copyUp, if_neg (by omega)]
  | succ n ih =>
    rw [copyUp, ih (by omega)]
    refine ite_update (by omega) (fun hin => ?_) fun had => by rw [had, Nat.sub_self, add_zero]
    rw [update_of_ne (by omega)]
    congr 1
    omega

theorem copyDown_apply (h : s ≤ d ∨ d + n ≤ s) :
    copyDown m d s n a = if d ≤ a ∧ a < d + n then m (s + (a - d)) else m a := by
  induction n generalizing m with
  | zero => rw [copyDown, if_neg (by omega)]
  | succ n ih =>
    rw [copyDown, ih (by omega)]
    refine ite_update (by omega) (fun hin => update_of_ne (by omega) ..) fun had => ?_
    rw [had, Nat.add_sub_cancel_left]

theorem fill_apply : fill m d v n a = if d ≤ a ∧ a < d + n then v else m a := by
  induction n generalizing m d with
  | zero => rw [fill, if_neg (by omega)]
  | succ n ih =>
    rw [fill, ih]
    exact ite_update (by omega) (fun _ => rfl) fun _ => rfl

/-! ## Strings -/

/-- The number of bytes before the first zero, at most `n`. -/
def strnlen (m : Memory) (a : Nat) : Nat → Nat
  | 0 => 0
  | n + 1 => if m a = 0 then 0 else strnlen m (a + 1) n + 1

/-- Two strings differ; at most `n` bytes are compared. -/
def strDiffer (m : Memory) (a b : Nat) : Nat → Bool
  | 0 => false
  | n + 1 =>
    if m a ≠ 0 ∧ m b ≠ 0 ∧ m a = m b then strDiffer m (a + 1) (b + 1) n
    else m a ≠ m b

/-- The memory holds the string `l` at `a`. -/
structure Str (m : Memory) (a : Nat) (l : List Byte) : Prop where
  byte : ∀ i ≤ l.length, m (a + i) = l.getD i 0
  ne_zero : ∀ c ∈ l, c ≠ 0

namespace Str

variable {l l' : List Byte} {c : Byte} {b i : Nat}

theorem end_zero (h : Str m a l) : m (a + l.length) = 0 := by
  rw [h.byte _ le_rfl, List.getD_eq_default _ _ le_rfl]

theorem get (h : Str m a l) (hi : i < l.length) : m (a + i) = l[i] := by
  rw [h.byte i (le_of_lt hi), List.getD_eq_getElem _ _ hi]

theorem empty (h : m a = 0) : Str m a [] := by
  refine ⟨fun i hi => ?_, fun c hc => absurd hc List.not_mem_nil⟩
  obtain rfl : i = 0 := Nat.le_zero.mp hi
  exact h

theorem head_iff (h : Str m a l) : m a = 0 ↔ l = [] := by
  have h0 := h.byte 0 (Nat.zero_le _)
  rw [add_zero] at h0
  rw [h0]
  cases l with
  | nil => exact ⟨fun _ => rfl, fun _ => rfl⟩
  | cons c l => refine ⟨fun hc => absurd hc (h.ne_zero c List.mem_cons_self), by simp⟩

theorem tail (h : Str m a (c :: l)) : Str m (a + 1) l := by
  refine ⟨fun i hi => ?_, fun c' hc' => h.ne_zero c' (List.mem_cons_of_mem c hc')⟩
  have := h.byte (i + 1) (Nat.succ_le_succ hi)
  rw [List.getD_cons_succ] at this
  rw [← this]
  congr 1
  omega

theorem head (h : Str m a (c :: l)) : m a = c := h.byte 0 (Nat.zero_le _)

theorem congr (h : Str m a l) (hm : ∀ i ≤ l.length, m' (b + i) = m (a + i)) : Str m' b l :=
  ⟨fun i hi => (hm i hi).trans (h.byte i hi), h.ne_zero⟩

theorem of_bytes (hm : ∀ i < l.length, m (a + i) = l.getD i 0) (hend : m (a + l.length) = 0)
    (hne : ∀ c ∈ l, c ≠ 0) : Str m a l := by
  refine ⟨fun i hi => ?_, hne⟩
  rcases lt_or_eq_of_le hi with hlt | rfl
  · exact hm i hlt
  · rw [hend, List.getD_eq_default _ _ le_rfl]

variable (h : Str m a l)

include h

theorem insertIdx (hi : i ≤ l.length) (hc : c ≠ 0) (hlt : ∀ k < i, m' (a + k) = m (a + k))
    (hat : m' (a + i) = c) (hgt : ∀ k ≥ i, k ≤ l.length → m' (a + (k + 1)) = m (a + k)) :
    Str m' a (l.insertIdx i c) := by
  have hlen := List.length_insertIdx_of_le_length hi c
  refine ⟨fun k hk => ?_, fun x hx => ?_⟩
  · rcases lt_trichotomy k i with hki | rfl | hki
    · rw [hlt k hki, h.byte k (by omega), List.getD_eq_getElem?_getD,
        List.getD_eq_getElem?_getD, List.getElem?_insertIdx_of_lt hki]
    · rw [hat, List.getD_eq_getElem?_getD, List.getElem?_insertIdx_self, if_pos hi]
      rfl
    · obtain ⟨k, rfl⟩ : ∃ j, k = j + 1 := ⟨k - 1, by omega⟩
      rw [hgt k (by omega) (by omega), h.byte k (by omega), List.getD_eq_getElem?_getD,
        List.getD_eq_getElem?_getD, List.getElem?_insertIdx_of_gt hki]
      rfl
  · rcases (List.mem_insertIdx hi).mp hx with rfl | hmem
    · exact hc
    · exact h.ne_zero x hmem

theorem eraseIdx (hi : i < l.length) (hlt : ∀ k < i, m' (a + k) = m (a + k))
    (hge : ∀ k ≥ i, k < l.length → m' (a + k) = m (a + (k + 1))) : Str m' a (l.eraseIdx i) := by
  have hlen := List.length_eraseIdx_of_lt hi
  refine ⟨fun k hk => ?_, fun x hx => h.ne_zero x (List.mem_of_mem_eraseIdx hx)⟩
  rw [List.getD_eq_getElem?_getD, List.getElem?_eraseIdx]
  by_cases hki : k < i
  · rw [hlt k hki, h.byte k (by omega), if_pos hki, List.getD_eq_getElem?_getD]
  · rw [hge k (by omega) (by omega), h.byte (k + 1) (by omega), if_neg hki,
      List.getD_eq_getElem?_getD]

theorem strnlen_eq : strnlen m a n = min l.length n := by
  induction n generalizing a l with
  | zero => rw [strnlen, Nat.min_zero]
  | succ n ih =>
    rw [strnlen]
    cases l with
    | nil => rw [if_pos (h.head_iff.mpr rfl), List.length_nil, Nat.zero_min]
    | cons c l =>
      have hne : m a ≠ 0 := by
        rw [h.head]
        exact h.ne_zero c List.mem_cons_self
      rw [if_neg hne, ih h.tail, List.length_cons, Nat.succ_min_succ]

theorem strDiffer_iff (h' : Str m b l') (hn : l.length < n) :
    strDiffer m a b n = true ↔ l ≠ l' := by
  induction n generalizing a b l l' with
  | zero => omega
  | succ n ih =>
    rw [strDiffer]
    cases l with
    | nil =>
      have ha := h.head_iff.mpr rfl
      rw [if_neg fun hc => hc.1 ha, ha, decide_eq_true_iff, ne_comm, not_iff_not,
        h'.head_iff, eq_comm]
    | cons c l =>
      cases l' with
      | nil =>
        have hb := h'.head_iff.mpr rfl
        rw [if_neg fun hc => hc.2.1 hb, hb, decide_eq_true_iff, h.head]
        exact ⟨by simp, fun _ => h.ne_zero c List.mem_cons_self⟩
      | cons c' l' =>
        rw [h.head, h'.head]
        by_cases hc : c = c'
        · subst hc
          have hne := h.ne_zero c List.mem_cons_self
          rw [if_pos ⟨hne, hne, rfl⟩, ih h.tail h'.tail (Nat.lt_of_succ_lt_succ hn), not_iff_not]
          exact ⟨fun he => by rw [he], fun he => (List.cons.inj he).2⟩
        · rw [if_neg fun hx => hc hx.2.2, decide_eq_true_iff]
          exact ⟨fun _ he => hc (List.cons.inj he).1, fun _ => hc⟩

omit h

end Str

end Memory

end Sima.Lib
