import Mathlib.Data.BitVec
import Mathlib.Data.List.Basic
import Mathlib.Logic.Function.Basic

/-!
# Bitmaps of 32-bit words

A set of numbers kept as bits of an array of words: bit `i % 32` of word `i / 32`
stands for `i`. Bits are put by a mask and read one word at a time — a scan
takes a word as it stands and visits its set bits from the lowest up.
-/

namespace Sima.Lib

open BitVec

abbrev Bitmap := Nat → BitVec 32

namespace Bitmap

def mask (bit : Nat) : BitVec 32 := 1#32 <<< bit

def test (m : Bitmap) (i : Nat) : Bool := (m (i / 32)).getLsbD (i % 32)

def put (m : Bitmap) (i : Nat) (b : Bool) : Bitmap :=
  Function.update m (i / 32)
    (if b then m (i / 32) ||| mask (i % 32) else m (i / 32) &&& ~~~ mask (i % 32))

/-- The set bits of a word, in the order a find-first-set loop visits them. -/
def scan (w : BitVec 32) : List Nat :=
  if w = 0 then [] else (List.range 32).filter w.getLsbD

variable {bit : Nat}

theorem mask_getLsbD (h : bit < 32) (k : Nat) : (mask bit).getLsbD k = decide (k = bit) := by
  rw [mask, ← twoPow_eq]
  by_cases hk : bit = k
  · simp [← hk, h]
  · simp [hk, Ne.symm hk]

variable {k : Nat}

theorem put_word (w : BitVec 32) (b : Bool) (h : bit < 32) (hk : k < 32) :
    (if b then w ||| mask bit else w &&& ~~~ mask bit).getLsbD k =
      if k = bit then b else w.getLsbD k := by
  cases b
  · rw [if_neg (by decide), getLsbD_and, getLsbD_not, mask_getLsbD h]
    by_cases he : k = bit <;> simp [hk, he]
  · rw [if_pos rfl, getLsbD_or, mask_getLsbD h]
    by_cases he : k = bit <;> simp [he]

theorem test_put (m : Bitmap) (i j : Nat) (b : Bool) :
    (m.put i b).test j = if j = i then b else m.test j := by
  have hi : i % 32 < 32 := Nat.mod_lt _ (by decide)
  have hj : j % 32 < 32 := Nat.mod_lt _ (by decide)
  by_cases hw : j / 32 = i / 32
  · have hbit : j % 32 = i % 32 ↔ j = i := by omega
    rw [test, put, hw, Function.update_self, put_word _ _ hi hj, if_congr hbit rfl rfl, test, hw]
  · have hne : j ≠ i := fun he => hw (congrArg (· / 32) he)
    rw [test, put, Function.update_of_ne hw, if_neg hne, test]

theorem mem_scan {w : BitVec 32} : k ∈ scan w ↔ k < 32 ∧ w.getLsbD k = true := by
  rw [scan]
  split
  · next h => simp [h]
  · simp [List.mem_filter]

theorem test_scan {m : Bitmap} {i : Nat} (h : m.test i = true) : i % 32 ∈ scan (m (i / 32)) :=
  mem_scan.mpr ⟨Nat.mod_lt _ (by decide), h⟩

end Bitmap

end Sima.Lib
