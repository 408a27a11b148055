import Mathlib.Data.List.Basic
import Mathlib.Algebra.Order.Group.Nat

/-!
# Reading a circular buffer

A producer and a consumer share a buffer of `size` places and agree on two positions
in it. The consumer reads entries of `step` places each, from its own position up to
the producer's, and goes on at the beginning when it comes to the end; it stops early
when a read fails or when it has used up its budget.

What it has read is a `Segment`: the entries from one position to another in ring
order, none of them twice.
-/

namespace Sima.Lib.Circular

variable {α : Type*} {mem : Nat → Option α} {step size r w : Nat} {l : List α}

/-- A position at which an entry can start. -/
structure Slot (step size r : Nat) : Prop where
  aligned : r % step = 0
  below : r < size

def advance (step size r : Nat) : Nat := if size ≤ r + step then 0 else r + step

/-- The entries that are read with so much budget left. -/
def consume (mem : Nat → Option α) (step size w : Nat) : Nat → Nat → List α
  | 0, _ => []
  | fuel + 1, r =>
    if r = w then []
    else match mem r with
      | none => []
      | some a => a :: consume mem step size w fuel (advance step size r)

/-- The list is what lies between two positions. -/
structure Segment (mem : Nat → Option α) (step size r r' : Nat) (l : List α) : Prop where
  reads : ∀ k (hk : k < l.length), mem ((r + step * k) % size) = some l[k]
  ends : r' = (r + step * l.length) % size
  once : step * l.length < size

theorem Segment.nil (hr : r < size) : Segment mem step size r r [] := by
  refine ⟨fun k hk => absurd hk (Nat.not_lt_zero k), ?_, ?_⟩
  · show r = (r + step * 0) % size
    rw [Nat.mul_zero, add_zero, Nat.mod_eq_of_lt hr]
  · show step * 0 < size
    omega

/-! ## Positions -/

theorem advance_eq (hd : step ∣ size) (hr : Slot step size r) :
    advance step size r = (r + step) % size := by
  rw [advance]
  split
  · next hle =>
    -- the last entry ends exactly at the end of the buffer
    have hdvd : step ∣ size - r := Nat.dvd_sub hd (Nat.dvd_of_mod_eq_zero hr.aligned)
    have hb := hr.below
    have hstep : step ≤ size - r := Nat.le_of_dvd (by omega) hdvd
    have heq : r + step = size := by omega
    rw [heq, Nat.mod_self]
  · next hlt => exact (Nat.mod_eq_of_lt (by omega)).symm

theorem Slot.advance (hr : Slot step size r) : Slot step size (advance step size r) := by
  have hb := hr.below
  rw [Circular.advance]
  split
  · exact ⟨Nat.zero_mod _, by omega⟩
  · exact ⟨by rw [Nat.add_mod_right, hr.aligned], by omega⟩

theorem Slot.mod (hd : step ∣ size) (hr : Slot step size r) (n : Nat) :
    Slot step size ((r + step * n) % size) := by
  have hb := hr.below
  refine ⟨?_, Nat.mod_lt _ (by omega)⟩
  rw [Nat.mod_mod_of_dvd _ hd, Nat.add_mul_mod_self_left, hr.aligned]

/-- How far the consumer is behind the producer. -/
def distance (size r w : Nat) : Nat := if r ≤ w then w - r else w + size - r

theorem distance_lt (hw : Slot step size w) : distance size r w < size := by
  have := hw.below
  rw [distance]
  split <;> omega

section

variable (hd : step ∣ size) (hr : Slot step size r) (hw : Slot step size w) (hne : r ≠ w)

include hd hr hw hne

theorem step_le_distance : step ≤ distance size r w := by
  have hr' := Nat.dvd_of_mod_eq_zero hr.aligned
  have hw' := Nat.dvd_of_mod_eq_zero hw.aligned
  have := hr.below
  rw [distance]
  split
  · exact Nat.le_of_dvd (by omega) (Nat.dvd_sub hw' hr')
  · exact Nat.le_of_dvd (by omega) (Nat.dvd_sub (Nat.dvd_add hw' hd) hr')

theorem distance_advance : distance size (advance step size r) w + step = distance size r w := by
  have hle := step_le_distance hd hr hw hne
  have hdvd : step ∣ size - r := Nat.dvd_sub hd (Nat.dvd_of_mod_eq_zero hr.aligned)
  have := hr.below
  have := hw.below
  have hstep : step ≤ size - r := Nat.le_of_dvd (by omega) hdvd
  rw [distance] at hle
  rw [advance, distance, distance]
  split at hle
  · next hrw =>
    have hend : ¬ size ≤ r + step := by omega
    have hle' : r + step ≤ w := by omega
    rw [if_pos hrw, if_neg hend, if_pos hle']
    omega
  · next hrw =>
    rw [if_neg hrw]
    by_cases hend : size ≤ r + step
    · rw [if_pos hend, if_pos (Nat.zero_le _)]
      omega
    · have hgt : ¬ r + step ≤ w := by omega
      rw [if_neg hend, if_neg hgt]
      omega

end

/-! ## The consumer -/

theorem consume_length_le (fuel : Nat) : (consume mem step size w fuel r).length ≤ fuel := by
  induction fuel generalizing r with
  | zero => exact le_refl 0
  | succ fuel ih =>
    rw [consume]
    split
    · exact Nat.zero_le _
    · split
      · exact Nat.zero_le _
      · exact Nat.succ_le_succ ih

section

variable (hd : step ∣ size) (hr : Slot step size r) (fuel : Nat)

include hd hr fuel

theorem consume_distance (hw : Slot step size w) :
    step * (consume mem step size w fuel r).length ≤ distance size r w := by
  induction fuel generalizing r with
  | zero => exact Nat.zero_le _
  | succ fuel ih =>
    rw [consume]
    split
    · exact Nat.zero_le _
    rename_i hne
    split
    · exact Nat.zero_le _
    · have htail := ih hr.advance
      rw [← distance_advance hd hr hw hne, List.length_cons, Nat.mul_succ]
      omega

theorem consume_reads (k : Nat) (hk : k < (consume mem step size w fuel r).length) :
    mem ((r + step * k) % size) = some (consume mem step size w fuel r)[k] := by
  induction fuel generalizing r k with
  | zero => exact absurd hk (Nat.not_lt_zero k)
  | succ fuel ih =>
    by_cases hne : r = w
    · rw [consume, if_pos hne] at hk
      exact absurd hk (Nat.not_lt_zero k)
    cases hm : mem r with
    | none =>
      rw [consume, if_neg hne, hm] at hk
      exact absurd hk (Nat.not_lt_zero k)
    | some a =>
      have hcons : consume mem step size w (fuel + 1) r =
          a :: consume mem step size w fuel (advance step size r) := by
        rw [consume, if_neg hne, hm]
      simp only [hcons]
      cases k with
      | zero =>
        rw [Nat.mul_zero, add_zero, Nat.mod_eq_of_lt hr.below, hm]
        rfl
      | succ k =>
        rw [hcons, List.length_cons] at hk
        have hpos : (r + step * (k + 1)) % size = (advance step size r + step * k) % size := by
          rw [advance_eq hd hr, Nat.mod_add_mod, Nat.mul_succ]
          congr 1
          omega
        rw [hpos]
        exact ih hr.advance k (by omega)

theorem consume_segment (hw : Slot step size w) :
    Segment mem step size r ((r + step * (consume mem step size w fuel r).length) % size)
      (consume mem step size w fuel r) :=
  ⟨consume_reads hd hr fuel, rfl, lt_of_le_of_lt (consume_distance hd hr fuel hw) (distance_lt hw)⟩

end

end Sima.Lib.Circular
