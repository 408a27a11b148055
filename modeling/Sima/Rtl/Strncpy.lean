import Sima.Lib.CString

/-!
# The bounded string copy

`strncpy_s` measures its source with the size of the destination as the limit and then forgets
`slen`: what it was told to copy at most decides only whether it copies at all. A source that is
longer than `slen` is copied past it, and one that does not fit into the destination is copied as
far as the destination goes, with the zero one byte behind it.
-/

namespace Sima.Rtl

open Lib Lib.Memory
open Function (update update_of_ne update_self)

/-- What a call leaves behind, and the addresses that it has stored to. -/
structure Stored where
  mem : Memory
  writes : List Nat
  ret : Int

def Stored.terminate (r : Stored) (a : Nat) : Stored :=
  { r with mem := update r.mem a 0, writes := a :: r.writes }

section

variable (m : Memory) (d dmax s slen : Nat)

def memcpyS : Stored :=
  if d ≠ 0 ∧ s ≠ 0 ∧ slen ≤ dmax ∧ (s + slen < d ∨ d + dmax < s) then
    ⟨m.copyUp d s slen, List.range' d slen, 0⟩
  else ⟨m.fill d 0 dmax, List.range' d dmax, -1⟩

def strnlenS (str maxlen : Nat) : Nat := if str ≠ 0 then m.strnlen str maxlen else 0

def strncpyS : Stored :=
  let len := strnlenS m s dmax
  let r := if slen < dmax ∨ len < dmax then memcpyS m d dmax s len else ⟨m, [], -1⟩
  if r.ret = 0 then r.terminate (d + len)
  else if d ≠ 0 ∧ 0 < dmax then r.terminate d
  else r

end

/-- Only the destination is stored to, and on success it holds `slen` characters of the string, or
all if there are fewer. -/
structure Stored.Copied (r : Stored) (d dmax slen : Nat) (l : List Byte) : Prop where
  inside : ∀ a ∈ r.writes, d ≤ a ∧ a < d + dmax
  string : r.ret = 0 → Str r.mem d (l.take slen)

variable {m : Memory} {d dmax s slen : Nat} {l : List Byte}

/-- A string is cut off nowhere before its end. -/
theorem length_le_of_take (h : Str m d l) (h' : Str m d (l.take slen)) : l.length ≤ slen := by
  by_contra hlt
  have hn : slen < l.length := Nat.lt_of_not_le hlt
  have hend := h'.end_zero
  rw [List.length_take_of_le (le_of_lt hn), h.get hn] at hend
  exact h.ne_zero _ (List.getElem_mem hn) hend

variable (hstr : Str m s l) (hd : d ≠ 0) (hs : s ≠ 0) (h0 : 0 < dmax)

include hstr hd hs

theorem strncpyS_copies (hgo : slen < dmax ∨ l.length < dmax)
    (hapart : s + l.length < d ∨ d + dmax < s) :
    strncpyS m d dmax s slen = Stored.terminate ⟨m.copyUp d s (min l.length dmax),
      List.range' d (min l.length dmax), 0⟩ (d + min l.length dmax) := by
  have hcopy : memcpyS m d dmax s (min l.length dmax) = ⟨m.copyUp d s (min l.length dmax),
      List.range' d (min l.length dmax), 0⟩ :=
    if_pos ⟨hd, hs, min_le_right .., by omega⟩
  have hmin : slen < dmax ∨ min l.length dmax < dmax := by omega
  rw [strncpyS, strnlenS, if_pos hs, hstr.strnlen_eq, if_pos hmin, hcopy]
  rfl

include h0

theorem strncpyS_fails (hno : dmax ≤ min l.length slen ∨ s = d + dmax) :
    (strncpyS m d dmax s slen).Copied d dmax slen l := by
  have hfail : ∀ r : Stored, r.ret = -1 → (∀ a ∈ r.writes, d ≤ a ∧ a < d + dmax) →
      (if r.ret = 0 then r.terminate (d + min l.length dmax)
        else if d ≠ 0 ∧ 0 < dmax then r.terminate d else r).Copied d dmax slen l := by
    intro r hr hin
    rw [hr, if_neg (by decide), if_pos ⟨hd, h0⟩]
    refine ⟨fun a ha => ?_, fun hok => absurd (hr.symm.trans hok) (by decide)⟩
    rcases List.mem_cons.mp ha with rfl | ha
    · omega
    · exact hin a ha
  rw [strncpyS, strnlenS, if_pos hs, hstr.strnlen_eq]
  by_cases hgo : slen < dmax ∨ min l.length dmax < dmax
  · have hclear : memcpyS m d dmax s (min l.length dmax) =
        ⟨m.fill d 0 dmax, List.range' d dmax, -1⟩ := if_neg (by omega)
    rw [if_pos hgo, hclear]
    refine hfail _ rfl fun a ha => ?_
    have := List.mem_range'_1.mp ha
    omega
  · rw [if_neg hgo]
    exact hfail _ rfl fun a ha => absurd ha List.not_mem_nil

/-- The copy keeps to the destination and to `slen` exactly if `slen` does not cut the source
shorter than the destination does, or the source starts right behind the destination, where
`memcpy_s` takes the two for overlapping. -/
theorem strncpy_s_copied_iff (hapart : s + l.length < d ∨ d + dmax ≤ s) :
    (strncpyS m d dmax s slen).Copied d dmax slen l ↔ min l.length dmax ≤ slen ∨ s = d + dmax := by
  by_cases hno : dmax ≤ min l.length slen ∨ s = d + dmax
  · exact iff_of_true (strncpyS_fails hstr hd hs h0 hno) (by omega)
  rw [strncpyS_copies hstr hd hs (by omega) (by omega)]
  by_cases hfit : l.length < dmax
  · rw [min_eq_left (le_of_lt hfit)]
    have hall : Str (Stored.terminate ⟨m.copyUp d s l.length, List.range' d l.length, 0⟩
        (d + l.length)).mem d l := by
      refine .of_bytes (fun i hi => ?_) (update_self ..) hstr.ne_zero
      show update (m.copyUp d s l.length) _ _ _ = _
      rw [update_of_ne (by omega), copyUp_apply (by omega), if_pos (by omega),
        Nat.add_sub_cancel_left, hstr.byte i (le_of_lt hi)]
    constructor
    · exact fun h => .inl (length_le_of_take hall (h.string rfl))
    intro h
    refine ⟨fun a ha => ?_, fun _ => ?_⟩
    · rcases List.mem_cons.mp ha with rfl | ha
      · omega
      · have := List.mem_range'_1.mp ha
        omega
    · rw [List.take_of_length_le (by omega)]
      exact hall
  · -- the zero goes behind the destination
    refine iff_of_false (fun h => ?_) (by omega)
    have := h.inside _ List.mem_cons_self
    omega

omit hstr hd hs h0

/-- Four characters. -/
def fourChars : Memory := fun a => if 16 ≤ a ∧ a < 20 then 97 else 0

theorem strncpy_s_copied_all : (strncpyS fourChars 1 8 16 5).Copied 1 8 5 [97, 97, 97, 97] :=
  (strncpy_s_copied_iff ⟨by decide, by decide⟩ (by decide) (by decide) (by decide)
    (by decide)).mpr (by decide)

/-- One of them is asked for, with room for two bytes: the third byte is stored to. -/
theorem strncpy_s_overruns : Str fourChars 16 [97, 97, 97, 97] ∧
    ¬(strncpyS fourChars 1 2 16 1).Copied 1 2 1 [97, 97, 97, 97] :=
  ⟨⟨by decide, by decide⟩, fun h => absurd (h.inside 3 (by decide)) (by decide)⟩

end Sima.Rtl
