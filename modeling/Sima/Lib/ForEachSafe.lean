import Mathlib.Data.List.Basic
import Mathlib.Data.List.Nodup

/-!
# Walking a list that changes

`list_for_each_safe` fetches the next element before it enters the body, so the
body may unlink the element it is given, or move it. A moved element can be met
again, further down. The walk is therefore not a fold over the list as it was.

It is one if the body has something to do only once per element: `Settles` says
that an element is stale or not, that the body leaves the others in place and
their staleness alone, that it leaves nothing stale behind and does nothing to
an element that is not stale. Then the walk is the fold over the elements that
were stale at the start, in list order (`forEachSafe_eq_foldl`), and twice the
length of the list is fuel enough.
-/

namespace Sima.Lib

variable {α σ : Type} [DecidableEq α] {A B : List α} {x : α}

/-- The element after `x`, if `x` is there and not the last. -/
def listNext (l : List α) (x : α) : Option α :=
  (l.dropWhile (fun y => y ≠ x)).tail.head?

theorem listNext_append (h : x ∉ A) : listNext (A ++ x :: B) x = B.head? := by
  rw [listNext, List.dropWhile_append_of_pos]
  · simp
  · intro y hy
    simpa using fun heq : y = x => h (heq ▸ hy)

/-- The walk, from `pos` on, over the list that `view` finds in the state. -/
def forEachSafe (view : σ → List α) (body : α → σ → σ) :
    Nat → Option α → σ → σ
  | 0, _, s => s
  | _ + 1, none, s => s
  | n + 1, some pos, s => forEachSafe view body n (listNext (view s) pos) (body pos s)

variable {view : σ → List α} {body : α → σ → σ} {l : List α}

@[simp] theorem forEachSafe_none (n : Nat) (s : σ) : forEachSafe view body n none s = s := by
  cases n <;> rfl

theorem mem_of_listNext {y : α} (h : listNext l x = some y) : y ∈ l := by
  have htail := List.mem_of_mem_head? (Option.mem_def.mpr h)
  exact List.dropWhile_subset _ (List.mem_of_mem_tail htail)

/-- What the body keeps, the walk keeps. The body is given only elements that
were in the list at some time, so what all of these have in common may be
used. -/
theorem forEachSafe_inv {P : σ → Prop} {Q : α → Prop} (hview : ∀ {s x}, P s → x ∈ view s → Q x)
    (hbody : ∀ {s x}, Q x → P s → P (body x s)) (n : Nat) {pos : Option α} {s : σ}
    (hpos : ∀ x, pos = some x → Q x) (h : P s) : P (forEachSafe view body n pos s) := by
  induction n generalizing pos s with
  | zero => exact h
  | succ n ih =>
    cases pos with
    | none => exact h
    | some x => exact ih (fun y hy => hview h (mem_of_listNext hy)) (hbody (hpos x rfl) h)

/-- The body treats one element at a time, and once is enough. -/
structure Settles (view : σ → List α) (body : α → σ → σ) (stale : σ → α → Bool)
    (P : σ → Prop) : Prop where
  nodup : ∀ {s}, P s → (view s).Nodup
  inv : ∀ {s x}, P s → x ∈ view s → P (body x s)
  rest : ∀ {s x}, P s → x ∈ view s → stale s x = false → body x s = s
  settled : ∀ {s x}, P s → x ∈ view s → stale (body x s) x = false
  others : ∀ {s x y}, P s → x ∈ view s → y ≠ x → stale (body x s) y = stale s y
  place : ∀ {s x}, P s → x ∈ view s → (view (body x s)).erase x = (view s).erase x

variable {stale : σ → α → Bool} {P : σ → Prop}

/-- Where the walk stands after the body: what was ahead still is, with `x`
among it or not. -/
theorem ahead_of_place (h : l.erase x = A ++ B) : ∃ A' B', l = A' ++ B' ∧ B'.head? = B.head? ∧
    (B' = B ∨ ∃ C D, B = C ++ D ∧ B' = C ++ x :: D) := by
  by_cases hx : x ∈ l
  · obtain ⟨Q, R, -, hl, herase⟩ := List.exists_erase_eq hx
    rw [herase] at h
    rcases List.append_eq_append_iff.mp h with ⟨C, hA, hR⟩ | ⟨C, hQ, hB⟩
    · -- `x` went to the part that was walked already
      refine ⟨Q ++ x :: C, B, ?_, rfl, .inl rfl⟩
      rw [hl, hR]
      simp
    cases C with
    | nil =>
      refine ⟨A ++ [x], B, ?_, rfl, .inl rfl⟩
      rw [hl, hQ, hB]
      simp
    | cons c C =>
      refine ⟨A, c :: C ++ x :: R, ?_, ?_, .inr ⟨c :: C, R, hB, rfl⟩⟩
      · rw [hl, hQ]
        simp
      · rw [hB]
        rfl
  · rw [List.erase_of_not_mem hx] at h
    exact ⟨A, B, h, rfl, .inl rfl⟩

theorem forEachSafe_eq_foldl (hset : Settles view body stale P) {n : Nat} {s : σ} (hs : P s)
    (hview : view s = A ++ B) (hn : B.length + (B.filter (stale s)).length ≤ n) :
    forEachSafe view body n B.head? s = (B.filter (stale s)).foldl (fun s x => body x s) s := by
  induction n generalizing s A B with
  | zero =>
    cases B with
    | nil => rfl
    | cons x B => simp at hn
  | succ n ih =>
    cases B with
    | nil => simp
    | cons x B =>
      have hmem : x ∈ view s := by rw [hview]; simp
      have hnodup := hset.nodup hs
      rw [hview] at hnodup
      have hxA : x ∉ A := fun h => List.disjoint_of_nodup_append hnodup h (by simp)
      have hxB : x ∉ B := (List.nodup_cons.mp (List.nodup_append.mp hnodup).2.1).1
      have hnext : listNext (view s) x = B.head? := by rw [hview, listNext_append hxA]
      rw [List.head?_cons, forEachSafe, hnext]
      cases hst : stale s x with
      | false =>
        rw [List.filter_cons_of_neg (by simp [hst])] at hn ⊢
        rw [hset.rest hs hmem hst]
        refine ih (A := A ++ [x]) hs (by rw [hview]; simp) ?_
        simp only [List.length_cons] at hn
        omega
      | true =>
        rw [List.filter_cons_of_pos hst] at hn ⊢
        rw [List.foldl_cons]
        have hplace := hset.place hs hmem
        rw [hview, List.erase_append_right _ hxA, List.erase_cons_head] at hplace
        obtain ⟨A', B', hview', hhead, hB'⟩ := ahead_of_place hplace
        -- `x` is settled, so it does not count if it is met again
        have hfilter : B'.filter (stale (body x s)) = B.filter (stale s) := by
          have hB : B.filter (stale (body x s)) = B.filter (stale s) := by
            refine List.filter_congr fun y hy => hset.others hs hmem ?_
            exact fun h => hxB (h ▸ hy)
          rcases hB' with h | ⟨C, D, hCD, h⟩
          · rw [h, hB]
          · rw [h, List.filter_append, List.filter_cons_of_neg
              (by simp [hset.settled hs hmem]), ← List.filter_append,
              ← hCD, hB]
        have hlen : B'.length ≤ B.length + 1 := by
          rcases hB' with h | ⟨C, D, hCD, h⟩
          · rw [h]; omega
          · rw [h, hCD]; simp; omega
        rw [← hhead, ih (hset.inv hs hmem) hview' ?_, hfilter]
        rw [hfilter]
        simp only [List.length_cons] at hn
        omega

end Sima.Lib
