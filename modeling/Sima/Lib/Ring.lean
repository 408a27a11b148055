import Mathlib.Data.List.Nodup
import Mathlib.Logic.Function.Basic

/-!
# Circular lists through a memory

Doubly linked lists in the style of `list.h`: a list is a node among the others,
its head, and the nodes are linked in a circle through it. What a list holds is
not stored anywhere — it is what a walk along `next` meets before it is back at
the head, and there need not be such a moment.

`Ring` says that there is, and that `next` and `prev` agree along the way.
-/

namespace Sima.Lib

variable {α : Type*} [DecidableEq α]

structure ListHead (α : Type*) where
  next : α
  prev : α

/-- All nodes, by address. -/
abbrev NodeMem (α : Type*) := α → ListHead α

namespace NodeMem

section

variable (m : NodeMem α) (a head : α)

def setNext (b : α) : NodeMem α :=
  Function.update m a { m a with next := b }

def setPrev (b : α) : NodeMem α :=
  Function.update m a { m a with prev := b }

/-- `INIT_LIST_HEAD`. -/
def initListHead : NodeMem α := Function.update m a ⟨a, a⟩

/-- `list_add_node`, with its writes in order. -/
def listAddNode (new prev next : α) : NodeMem α :=
  (((m.setPrev next new).setNext new next).setPrev new prev).setNext prev new

def listAddTail (new head : α) : NodeMem α :=
  m.listAddNode new (m head).prev head

def listEmpty : Bool := (m head).next == head

/-- The nodes that `list_for_each` visits from `pos` on, if it comes back to the
head within so many steps. -/
def walkFrom (m : NodeMem α) (head : α) : Nat → α → Option (List α)
  | 0, _ => none
  | n + 1, pos =>
    if pos = head then some []
    else (walkFrom m head n (m pos).next).map (pos :: ·)

/-- `list_for_each`. -/
def walk (n : Nat) : Option (List α) :=
  walkFrom m head n (m head).next

end

/-! ## Paths -/

variable {m m' : NodeMem α} {a b x new head : α} {l : List α} {n : Nat}

def Linked (m : NodeMem α) (a b : α) : Prop := (m a).next = b ∧ (m b).prev = a

/-- From `a` through `l` to `b`, linked both ways. -/
def Path (m : NodeMem α) : α → List α → α → Prop
  | a, [], b => m.Linked a b
  | a, x :: l, b => m.Linked a x ∧ Path m x l b

omit [DecidableEq α] in
theorem path_append : m.Path a (l ++ [x]) b ↔ m.Path a l x ∧ m.Linked x b := by
  induction l generalizing a with
  | nil => exact Iff.rfl
  | cons y l ih =>
    show m.Linked a y ∧ m.Path y (l ++ [x]) b ↔ _
    rw [ih]
    exact and_assoc.symm

omit [DecidableEq α] in
/-- A path depends on the `next` of its first nodes and the `prev` of its last. -/
theorem Path.congr (h : m.Path a l b) (hnext : ∀ y ∈ a :: l, (m' y).next = (m y).next)
    (hprev : ∀ y ∈ l ++ [b], (m' y).prev = (m y).prev) : m'.Path a l b := by
  induction l generalizing a with
  | nil => exact ⟨(hnext a (by simp)).trans h.1, (hprev b (by simp)).trans h.2⟩
  | cons y l ih =>
    obtain ⟨hay, hrest⟩ := h
    refine ⟨⟨(hnext a (by simp)).trans hay.1, (hprev y (by simp)).trans hay.2⟩, ?_⟩
    exact ih hrest (fun z hz => hnext z (List.mem_cons_of_mem _ hz))
      fun z hz => hprev z (List.mem_cons_of_mem _ hz)

/-! ## Rings -/

/-- The list with this head holds `l`. -/
structure Ring (m : NodeMem α) (head : α) (l : List α) : Prop where
  path : m.Path head l head
  nodup : (head :: l).Nodup

theorem ring_initListHead (m : NodeMem α) (head : α) : Ring (m.initListHead head) head [] :=
  ⟨by simp [Path, Linked, initListHead], by simp⟩

theorem Ring.initListHead (h : Ring m head l) (hx : x ∉ head :: l) :
    Ring (m.initListHead x) head l := by
  have hother : ∀ y ∈ head :: l, m.initListHead x y = m y := by
    intro y hy
    have hyx : y ≠ x := fun heq => hx (heq ▸ hy)
    exact Function.update_of_ne hyx _ _
  refine ⟨h.path.congr (fun y hy => by rw [hother y hy]) fun y hy => ?_, h.nodup⟩
  rw [hother y]
  simpa [or_comm] using hy

theorem listAddNode_next (m : NodeMem α) (new prev next y : α) :
    (m.listAddNode new prev next y).next =
      if y = prev then new else if y = new then next else (m y).next := by
  simp only [listAddNode, setNext, setPrev]
  by_cases hp : y = prev
  · simp [hp]
  by_cases hn : y = new
  · rw [hn] at hp ⊢
    simp [hp]
  by_cases hx : y = next
  · rw [hx] at hp hn ⊢
    simp [hp, hn]
  · simp [hp, hn, hx]

theorem listAddNode_prev (m : NodeMem α) (new prev next y : α) :
    (m.listAddNode new prev next y).prev =
      if y = new then prev else if y = next then new else (m y).prev := by
  simp only [listAddNode, setNext, setPrev]
  by_cases hn : y = new
  · rw [hn]
    by_cases hp : new = prev
    · rw [← hp]
      simp
    · simp [hp]
  by_cases hx : y = next
  · rw [hx] at hn ⊢
    by_cases hp : next = prev
    · rw [← hp]
      simp [hn]
    · simp [hn, hp]
  · by_cases hp : y = prev
    · rw [hp] at hn hx ⊢
      simp [hn, hx]
    · simp [hn, hx, hp]

theorem Ring.listAddTail (h : Ring m head l) (hnew : new ∉ head :: l) :
    Ring (m.listAddTail new head) head (l ++ [new]) := by
  obtain ⟨hhead, hl⟩ := not_or.mp (mt List.mem_cons.mpr hnew)
  refine ⟨?_, ?_⟩
  · rw [path_append, NodeMem.listAddTail]
    -- the last node of the list, or the head
    rcases List.eq_nil_or_concat l with rfl | ⟨l', last, rfl⟩
    · have hlast : (m head).prev = head := h.path.2
      rw [hlast]
      refine ⟨⟨?_, ?_⟩, ?_, ?_⟩
      · rw [listAddNode_next, if_pos rfl]
      · rw [listAddNode_prev, if_pos rfl]
      · rw [listAddNode_next, if_neg hhead, if_pos rfl]
      · rw [listAddNode_prev, if_neg (Ne.symm hhead), if_pos rfl]
    rw [List.concat_eq_append] at h hl ⊢
    obtain ⟨hpath, hend⟩ := path_append.mp h.path
    have hnodup := h.nodup
    have hlast : (m head).prev = last := hend.2
    have hne : new ≠ last := fun heq => hl (by simp [heq])
    rw [hlast, path_append]
    refine ⟨⟨hpath.congr (fun y hy => ?_) fun y hy => ?_, ?_, ?_⟩, ?_, ?_⟩
    · have hy₁ : y ≠ last := by
        rintro rfl
        exact List.disjoint_of_nodup_append hnodup hy (by simp)
      have hy₂ : y ≠ new := by
        rintro rfl
        rcases List.mem_cons.mp hy with rfl | hy
        · exact hhead rfl
        · exact hl (by simp [hy])
      rw [listAddNode_next, if_neg hy₁, if_neg hy₂]
    · have hy₁ : y ≠ head := by
        rintro rfl
        exact (List.nodup_cons.mp hnodup).1 hy
      have hy₂ : y ≠ new := by
        rintro rfl
        exact hl hy
      rw [listAddNode_prev, if_neg hy₂, if_neg hy₁]
    · rw [listAddNode_next, if_pos rfl]
    · rw [listAddNode_prev, if_pos rfl]
    · rw [listAddNode_next, if_neg hne, if_pos rfl]
    · rw [listAddNode_prev, if_neg (Ne.symm hhead), if_pos rfl]
  · rw [← List.cons_append, List.nodup_append_comm]
    exact List.nodup_cons.mpr ⟨hnew, h.nodup⟩

/-! ## Walks -/

theorem walkFrom_path (h : m.Path a l head) (hl : head ∉ l) (hn : l.length < n) :
    walkFrom m head n (m a).next = some l := by
  induction l generalizing a n with
  | nil =>
    obtain ⟨k, rfl⟩ := Nat.exists_eq_succ_of_ne_zero (Nat.ne_of_gt hn)
    have hnext : (m a).next = head := h.1
    rw [hnext, walkFrom, if_pos rfl]
  | cons x l ih =>
    obtain ⟨k, rfl⟩ := Nat.exists_eq_succ_of_ne_zero (Nat.ne_of_gt (Nat.zero_lt_of_lt hn))
    obtain ⟨hax, hrest⟩ := h
    obtain ⟨hx, hl⟩ := not_or.mp (mt List.mem_cons.mpr hl)
    rw [hax.1, walkFrom, if_neg (Ne.symm hx), ih hrest hl (Nat.lt_of_succ_lt_succ hn)]
    rfl

/-- A walk over a ring ends, and visits what the ring holds. -/
theorem Ring.walk (h : Ring m head l) (hn : l.length < n) : m.walk head n = some l :=
  walkFrom_path h.path (List.nodup_cons.mp h.nodup).1 hn

theorem walkFrom_unique {k : Nat} {l' : List α} (h : walkFrom m head n a = some l)
    (h' : walkFrom m head k a = some l') : l = l' := by
  induction n generalizing a k l l' with
  | zero => cases h
  | succ n ih =>
    cases k with
    | zero => cases h'
    | succ k =>
      rw [walkFrom] at h h'
      split at h
      · next hhead =>
        rw [if_pos hhead] at h'
        exact Option.some.inj (h.symm.trans h')
      rename_i hhead
      rw [if_neg hhead] at h'
      obtain ⟨rest, hrest, rfl⟩ := Option.map_eq_some_iff.mp h
      obtain ⟨rest', hrest', rfl⟩ := Option.map_eq_some_iff.mp h'
      rw [ih hrest hrest']

theorem walkFrom_self (h : (m a).next = a) (hne : a ≠ head) (n : Nat) :
    walkFrom m head n a = none := by
  induction n with
  | zero => rfl
  | succ n ih => rw [walkFrom, if_neg hne, h, ih, Option.map_none]

end NodeMem

end Sima.Lib
