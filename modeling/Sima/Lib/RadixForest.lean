import Mathlib.Data.BitVec
import Mathlib.Logic.Function.Basic
import Mathlib.Tactic.Common

/-!
# Forests of radix trees in a heap

A multi-level table is a radix tree whose nodes are pages of a heap: page `p`
has `fan` slots, each empty, a leaf, or a pointer to a page one level down. A
key selects a slot at every level by its digits. Several trees can live in the
same heap, and nothing in the heap itself says which page belongs to which
tree, or that the pointers form trees at all.

The labelling says it. A *place* is a root, a level and the digits of the keys
that pass through the page, read as one number. A heap is a forest when pages
can be given places such that a pointer leads to the place its slot stands for,
every place below the top is pointed to, and no two pages share a place. This
is a flat condition — one clause per slot, no recursion over the tree — so a
change of one slot is checked by looking at one slot. Reachability, the
uniqueness of the pointer to a page and the fact that a lookup is not disturbed
by a change elsewhere all follow from it.
-/

namespace Sima.Lib

open Function (update update_of_ne update_self)

variable {P E : Type}

/-- What a slot holds. -/
inductive Slot (P E : Type) where
  | empty
  | leaf (e : E)
  | table (q : P)

/-- Where a page belongs: `num` are the digits above the page's own level. -/
@[ext] structure Place (P : Type) where
  root : P
  lvl : Nat
  num : Nat

/-- The place that slot `i` of a page stands for. -/
def Place.child (fan : Nat) (x : Place P) (i : Nat) : Place P :=
  ⟨x.root, x.lvl - 1, fan * x.num + i⟩

/-- A slot that leads nowhere: empty or a leaf. -/
def Slot.Ends : Slot P E → Prop
  | .table _ => False
  | _ => True

/-- The labelling `L` makes a forest of trees of height `top` out of `slot`;
`slot l p i` is slot `i` of `p` read as a page of level `l`. -/
structure Forest (fan top : Nat) (slot : Nat → P → Nat → Slot P E)
    (L : P → Option (Place P)) : Prop where
  inj : ∀ {p q x}, L p = some x → L q = some x → p = q
  le_top : ∀ {p x}, L p = some x → x.lvl ≤ top
  root : ∀ {p x}, L p = some x → x.lvl = top → x = ⟨p, top, 0⟩
  table : ∀ {p q x i}, L p = some x → i < fan → slot x.lvl p i = .table q →
    0 < x.lvl ∧ L q = some (x.child fan i)
  parent : ∀ {q x}, L q = some x → x.lvl < top →
    ∃ p y i, L p = some y ∧ i < fan ∧ 0 < y.lvl ∧ x = y.child fan i ∧ slot y.lvl p i = .table q

variable {fan top j k : Nat} {slot slot' : Nat → P → Nat → Slot P E} {L L' : P → Option (Place P)}
  {x y : Place P}

theorem digits_inj {n m i : Nat} (hi : i < fan) (hj : j < fan) (h : fan * n + i = fan * m + j) :
    n = m ∧ i = j := by
  have hpos : 0 < fan := by omega
  have hdiv := congrArg (· / fan) h
  have hmod := congrArg (· % fan) h
  simp only [Nat.mul_add_div hpos, Nat.div_eq_of_lt hi, Nat.div_eq_of_lt hj, Nat.mul_add_mod,
    Nat.mod_eq_of_lt hi, Nat.mod_eq_of_lt hj]
    at hdiv hmod
  exact ⟨hdiv, hmod⟩

theorem child_inj {i : Nat} (hx : 0 < x.lvl) (hy : 0 < y.lvl) (hi : i < fan) (hj : j < fan)
    (h : x.child fan i = y.child fan j) : x = y ∧ i = j := by
  simp only [Place.child, Place.mk.injEq] at h
  obtain ⟨hroot, hlvl, hnum⟩ := h
  obtain ⟨hn, hij⟩ := digits_inj hi hj hnum
  refine ⟨Place.ext hroot ?_ hn, hij⟩
  omega

variable (F : Forest fan top slot L)

include F

theorem Forest.parent_unique {p p' q : P} {i : Nat} (hp : L p = some x) (hp' : L p' = some y)
    (hi : i < fan) (hj : j < fan) (h : slot x.lvl p i = .table q)
    (h' : slot y.lvl p' j = .table q) : p = p' ∧ i = j := by
  obtain ⟨hx, hq⟩ := F.table hp hi h
  obtain ⟨hy, hq'⟩ := F.table hp' hj h'
  rw [hq] at hq'
  obtain ⟨hxy, hij⟩ := child_inj hx hy hi hj (Option.some.inj hq')
  subst hxy
  exact ⟨F.inj hp hp', hij⟩

theorem Forest.slot_of_child {p q : P} {i : Nat} (hp : L p = some x) (hi : i < fan)
    (hx : 0 < x.lvl) (hq : L q = some (x.child fan i)) : slot x.lvl p i = .table q := by
  have hlt : (x.child fan i).lvl < top := by
    have := F.le_top hp
    simp only [Place.child]
    omega
  obtain ⟨p', y, j, hp', hj, hy, hc, ht⟩ := F.parent hq hlt
  obtain ⟨hxy, hij⟩ := child_inj hx hy hi hj hc
  subst hxy hij
  rw [F.inj hp hp', ht]

omit F

/-! ## Reachability -/

/-- `p` is reached from the root `r` through pointers, at level `l`. -/
inductive Reach (fan top : Nat) (slot : Nat → P → Nat → Slot P E) (r : P) :
    Nat → P → Prop where
  | root : Reach fan top slot r top r
  | step {l p i q} : Reach fan top slot r l p → i < fan →
      slot l p i = .table q → Reach fan top slot r (l - 1) q

variable {l : Nat} {p q : P}

theorem Forest.label_of_reach (F : Forest fan top slot L) {r : P} (hr : L r = some ⟨r, top, 0⟩)
    (h : Reach fan top slot r l p) : ∃ n, L p = some ⟨r, l, n⟩ := by
  induction h with
  | root => exact ⟨0, hr⟩
  | step _ hi ht ih =>
    obtain ⟨n, hp⟩ := ih
    exact ⟨_, (F.table hp hi ht).2⟩

/-- Every place is reached from the root it names. The induction goes up: the
page's parent is one level higher, and the top is the root itself. -/
theorem Forest.reach_of_label (F : Forest fan top slot L) (h : L p = some x) :
    L x.root = some ⟨x.root, top, 0⟩ ∧ Reach fan top slot x.root x.lvl p := by
  obtain ⟨d, hd⟩ : ∃ d, d = top - x.lvl := ⟨_, rfl⟩
  induction d generalizing p x with
  | zero =>
    have htop : x.lvl = top := by
      have := F.le_top h
      omega
    have hx := F.root h htop
    subst hx
    exact ⟨h, Reach.root⟩
  | succ d ih =>
    obtain ⟨q, y, i, hq, hi, hy, hc, ht⟩ := F.parent h (by omega)
    subst hc
    have hlvl : d = top - y.lvl := by
      simp only [Place.child] at hd
      omega
    obtain ⟨hroot, hreach⟩ := ih hq hlvl
    exact ⟨hroot, Reach.step hreach hi ht⟩

/-! ## Changing one slot -/

/-- Outside slot `i` of `p`, the two readings agree on every labelled page. -/
def AgreeOff (fan : Nat) (L : P → Option (Place P))
    (slot slot' : Nat → P → Nat → Slot P E) (p : P) (i : Nat) : Prop :=
  ∀ ⦃q y j⦄, L q = some y → j < fan → ¬ (q = p ∧ j = i) → slot' y.lvl q j = slot y.lvl q j

theorem at_or_off (hp : L p = some x) (hq : L q = some y) (i j : Nat) :
    (q = p ∧ j = i ∧ y = x) ∨ ¬ (q = p ∧ j = i) := by
  by_cases hat : q = p ∧ j = i
  · rw [hat.1, hp] at hq
    exact .inl ⟨hat.1, hat.2, (Option.some.inj hq).symm⟩
  · exact .inr hat

variable {i : Nat} {e : E}

theorem Forest.setEnd (F : Forest fan top slot L) (hp : L p = some x) (hi : i < fan)
    (hold : (slot x.lvl p i).Ends) (hnew : (slot' x.lvl p i).Ends)
    (hoff : AgreeOff fan L slot slot' p i) : Forest fan top slot' L := by
  refine ⟨F.inj, F.le_top, F.root, ?_, ?_⟩
  · intro q q' y j hq hj ht
    rcases at_or_off hp hq i j with ⟨rfl, rfl, rfl⟩ | hat
    · rw [ht] at hnew
      exact hnew.elim
    · rw [hoff hq hj hat] at ht
      exact F.table hq hj ht
  · intro q y hq hy
    obtain ⟨q', z, j, hq', hj, hz, hc, ht⟩ := F.parent hq hy
    refine ⟨q', z, j, hq', hj, hz, hc, ?_⟩
    rcases at_or_off hp hq' i j with ⟨rfl, rfl, rfl⟩ | hat
    · rw [ht] at hold
      exact hold.elim
    · rw [hoff hq' hj hat, ht]

section Update

variable [DecidableEq P] {c q : P} {z : Place P}

/-- Where a label has been added it is the new page's or an old one, -/
theorem of_update_some (h : update L c (some z) q = some y) : (q = c ∧ y = z) ∨ L q = some y := by
  by_cases hqc : q = c
  · rw [hqc, update_self] at h
    exact .inl ⟨hqc, (Option.some.inj h).symm⟩
  · rw [update_of_ne hqc] at h
    exact .inr h

/-- and where one has been dropped it is an old one. -/
theorem of_update_none (h : update L c none q = some y) : q ≠ c ∧ L q = some y := by
  by_cases hqc : q = c
  · rw [hqc, update_self] at h
    cases h
  · rw [update_of_ne hqc] at h
    exact ⟨hqc, h⟩

variable (F : Forest fan top slot L)

include F

theorem Forest.add (hc : L c = none) (hfree : ∀ {q}, L q ≠ some z) (hle : z.lvl ≤ top)
    (hroot : z.lvl = top → z = ⟨c, top, 0⟩) (hends : ∀ j < fan, (slot' z.lvl c j).Ends)
    (hnew : ∀ {q q' y j}, L q = some y → j < fan → slot' y.lvl q j = .table q' →
      slot y.lvl q j = .table q' ∨ 0 < y.lvl ∧ q' = c ∧ y.child fan j = z)
    (hkept : ∀ {q q' y j}, L q = some y → j < fan → slot y.lvl q j = .table q' →
      slot' y.lvl q j = .table q')
    (hparent : z.lvl < top → ∃ p x i, L p = some x ∧ i < fan ∧ 0 < x.lvl ∧
      z = x.child fan i ∧ slot' x.lvl p i = .table c) :
    Forest fan top slot' (update L c (some z)) := by
  have hup : ∀ {q y}, L q = some y → update L c (some z) q = some y := by
    intro q y hq
    rw [update_of_ne, hq]
    intro hqc
    rw [hqc, hc] at hq
    cases hq
  refine ⟨?_, ?_, ?_, ?_, ?_⟩
  · intro q q' y hq hq'
    rcases of_update_some hq with ⟨hqc, hy⟩ | hq <;>
      rcases of_update_some hq' with ⟨hqc', hy'⟩ | hq'
    · rw [hqc, hqc']
    · exact absurd (hy ▸ hq') hfree
    · exact absurd (hy' ▸ hq) hfree
    · exact F.inj hq hq'
  · intro q y hq
    rcases of_update_some hq with ⟨-, rfl⟩ | hq
    · exact hle
    · exact F.le_top hq
  · intro q y hq hy
    rcases of_update_some hq with ⟨rfl, rfl⟩ | hq
    · exact hroot hy
    · exact F.root hq hy
  · intro q q' y j hqu hj ht
    rcases of_update_some hqu with ⟨rfl, rfl⟩ | hq
    · have := hends j hj
      rw [ht] at this
      exact this.elim
    · rcases hnew hq hj ht with ht | ⟨hy, rfl, rfl⟩
      · exact (F.table hq hj ht).imp_right hup
      · exact ⟨hy, update_self ..⟩
  · intro q y hqu hy
    rcases of_update_some hqu with ⟨rfl, rfl⟩ | hq
    · obtain ⟨p, x, i, hp, hrest⟩ := hparent hy
      exact ⟨p, x, i, hup hp, hrest⟩
    · obtain ⟨q', z', j, hq', hj, hz, hcz, ht⟩ := F.parent hq hy
      exact ⟨q', z', j, hup hq', hj, hz, hcz, hkept hq' hj ht⟩

/-- Hanging a fresh page without pointers into a slot adds its label. -/
theorem Forest.link (hp : L p = some x) (hi : i < fan) (hx : 0 < x.lvl)
    (hold : (slot x.lvl p i).Ends) (hc : L c = none) (hnew : slot' x.lvl p i = .table c)
    (hends : ∀ j < fan, (slot' (x.lvl - 1) c j).Ends) (hoff : AgreeOff fan L slot slot' p i) :
    Forest fan top slot' (update L c (some (x.child fan i))) := by
  have hlt : (x.child fan i).lvl < top := by
    have := F.le_top hp
    simp only [Place.child]
    omega
  refine F.add hc (fun hq => by rwa [F.slot_of_child hp hi hx hq] at hold) (le_of_lt hlt)
    (fun h => absurd h (ne_of_lt hlt)) hends ?_ ?_ fun _ => ⟨p, x, i, hp, hi, hx, rfl, hnew⟩
  · intro q q' y j hq hj ht
    rcases at_or_off hp hq i j with ⟨rfl, rfl, rfl⟩ | hat
    · rw [hnew] at ht
      injection ht with hcq
      exact .inr ⟨hx, hcq.symm, rfl⟩
    · rw [hoff hq hj hat] at ht
      exact .inl ht
  · intro q q' y j hq hj ht
    rcases at_or_off hp hq i j with ⟨rfl, rfl, rfl⟩ | hat
    · rw [ht] at hold
      exact hold.elim
    · rw [hoff hq hj hat, ht]

/-- Cutting a page without pointers out of its slot drops its label. -/
theorem Forest.unlink (hp : L p = some x) (hi : i < fan) (hold : slot x.lvl p i = .table c)
    (hends : ∀ j < fan, (slot (x.lvl - 1) c j).Ends) (hnew : (slot' x.lvl p i).Ends)
    (hoff : AgreeOff fan L slot slot' p i) : Forest fan top slot' (update L c none) := by
  obtain ⟨hx, hc⟩ := F.table hp hi hold
  refine ⟨fun hq hq' => F.inj (of_update_none hq).2 (of_update_none hq').2,
    fun hq => F.le_top (of_update_none hq).2, fun hq => F.root (of_update_none hq).2, ?_, ?_⟩
  · intro q q' y j hqu hj ht
    obtain ⟨hqc, hq⟩ := of_update_none hqu
    rcases at_or_off hp hq i j with ⟨rfl, rfl, rfl⟩ | hat
    · rw [ht] at hnew
      exact hnew.elim
    rw [hoff hq hj hat] at ht
    obtain ⟨hy, hq'⟩ := F.table hq hj ht
    refine ⟨hy, ?_⟩
    -- the page cut out is pointed to from slot `i` of `p` only
    rw [update_of_ne, hq']
    intro hqc'
    subst hqc'
    exact hat (F.parent_unique hq hp hj hi ht hold)
  · intro q y hq hy
    obtain ⟨hqc, hq⟩ := of_update_none hq
    obtain ⟨q', z, j, hq', hj, hz, hcz, ht⟩ := F.parent hq hy
    have hq'c : q' ≠ c := by
      intro heq
      subst heq
      rw [hq'] at hc
      injection hc with hzc
      have := hends j hj
      rw [show x.lvl - 1 = z.lvl by rw [hzc]; rfl, ht] at this
      exact this
    refine ⟨q', z, j, by rw [update_of_ne hq'c, hq'], hj, hz, hcz, ?_⟩
    rcases at_or_off hp hq' i j with ⟨rfl, rfl, rfl⟩ | hat
    · rw [hold] at ht
      injection ht with hcq
      exact absurd hcq.symm hqc
    · rw [hoff hq' hj hat, ht]

/-- A fresh page without pointers can become the root of a tree of its own. -/
theorem Forest.addRoot (hc : L c = none) (hends : ∀ j < fan, (slot' top c j).Ends)
    (hsame : ∀ {q y j}, L q = some y → j < fan → slot' y.lvl q j = slot y.lvl q j) :
    Forest fan top slot' (update L c (some ⟨c, top, 0⟩)) := by
  -- no old page has the new root's place: a page at the top is its own root
  have hfree : ∀ {q}, L q ≠ some ⟨c, top, 0⟩ := by
    intro q hq
    have := F.root hq rfl
    injection this with hcq
    rw [← hcq, hc] at hq
    cases hq
  exact F.add hc hfree le_rfl (fun _ => rfl) hends
    (fun hq hj ht => .inl ((hsame hq hj).symm.trans ht))
    (fun hq hj ht => (hsame hq hj).trans ht) fun h => absurd h (lt_irrefl _)

omit F

end Update

/-! ## Looking a key up

A key passes through the place `x` when its digits above `x.lvl` are `x.num`.
The slot it takes there is its digit at that level. -/

/-- The leaf the key `k` leads to from `p`, with its level. -/
def find (fan : Nat) (slot : Nat → P → Nat → Slot P E) :
    Nat → P → Nat → Option (E × Nat)
  | 0, p, k =>
    match slot 0 p (k / fan ^ 0 % fan) with
    | .leaf e => some (e, 0)
    | _ => none
  | l + 1, p, k =>
    match slot (l + 1) p (k / fan ^ (l + 1) % fan) with
    | .empty => none
    | .leaf e => some (e, l + 1)
    | .table q => find fan slot l q k

theorem find_leaf (h : slot l p (k / fan ^ l % fan) = .leaf e) :
    find fan slot l p k = some (e, l) := by
  cases l with
  | zero | succ l => simp only [find, h]

theorem find_empty (h : slot l p (k / fan ^ l % fan) = .empty) : find fan slot l p k = none := by
  cases l with
  | zero | succ l => simp only [find, h]

theorem find_table (hl : 0 < l) (h : slot l p (k / fan ^ l % fan) = .table q) :
    find fan slot l p k = find fan slot (l - 1) q k := by
  cases l with
  | zero => exact absurd hl (lt_irrefl 0)
  | succ l => simp only [find, h, Nat.add_sub_cancel]

theorem div_pow_succ (k l : Nat) : k / fan ^ (l + 1) = k / fan ^ l / fan := by
  rw [pow_succ, Nat.div_div_eq_div_mul]

/-- The key takes slot `i` of the place `x`. -/
def Takes (fan : Nat) (x : Place P) (i k : Nat) : Prop :=
  k / fan ^ x.lvl = fan * x.num + i

theorem takes_iff (hi : i < fan) : Takes fan x i k ↔
    k / fan ^ (x.lvl + 1) = x.num ∧ k / fan ^ x.lvl % fan = i := by
  have hpos : 0 < fan := by omega
  rw [Takes, div_pow_succ]
  refine ⟨fun h => ?_, fun ⟨hn, hd⟩ => ?_⟩
  · rw [h, Nat.mul_add_div hpos, Nat.div_eq_of_lt hi, Nat.mul_add_mod, Nat.mod_eq_of_lt hi]
    exact ⟨rfl, rfl⟩
  · rw [← hn, ← hd, Nat.div_add_mod]

theorem takes_digit (hpos : 0 < fan) (hk : k / fan ^ (x.lvl + 1) = x.num) :
    Takes fan x (k / fan ^ x.lvl % fan) k :=
  (takes_iff (Nat.mod_lt _ hpos)).mpr ⟨hk, rfl⟩

theorem Takes.child (h : Takes fan x i k) (hx : 0 < x.lvl) :
    k / fan ^ ((x.child fan i).lvl + 1) = (x.child fan i).num := by
  have hl : (x.child fan i).lvl + 1 = x.lvl := by
    simp only [Place.child]
    omega
  rw [hl]
  exact h

include F

section

variable (hp : L p = some x) (hk : k / fan ^ (x.lvl + 1) = x.num)

include hp hk

theorem Forest.find_congr (hfan : 0 < fan)
    (hsame : ∀ {q y j}, L q = some y → y.root = x.root → j < fan → Takes fan y j k →
      slot' y.lvl q j = slot y.lvl q j) :
    find fan slot' x.lvl p k = find fan slot x.lvl p k := by
  obtain ⟨l, hl⟩ : ∃ l, l = x.lvl := ⟨_, rfl⟩
  have hd := Nat.mod_lt (k / fan ^ x.lvl) hfan
  have htake := takes_digit hfan hk
  have hslot := hsame hp rfl hd htake
  induction l generalizing p x with
  | zero =>
    rw [← hl] at hslot ⊢
    simp only [find, hslot]
  | succ l ih =>
    cases hs : slot x.lvl p (k / fan ^ x.lvl % fan) with
    | empty => rw [find_empty (hslot.trans hs), find_empty hs]
    | leaf e => rw [find_leaf (hslot.trans hs), find_leaf hs]
    | table q =>
      obtain ⟨hx, hq⟩ := F.table hp hd hs
      have hc : (x.child fan (k / fan ^ x.lvl % fan)).lvl = x.lvl - 1 := rfl
      have hkq := htake.child hx
      rw [find_table hx (hslot.trans hs), find_table hx hs]
      refine ih hq hkq hsame ?_ (Nat.mod_lt _ hfan) (takes_digit hfan hkq)
        (hsame hq rfl (Nat.mod_lt _ hfan) (takes_digit hfan hkq))
      rw [hc, ← hl]
      rfl

theorem Forest.find_some (hfan : 0 < fan) (h : find fan slot x.lvl p k = some (e, l)) :
    ∃ q y j, L q = some y ∧ y.lvl = l ∧ j < fan ∧ Takes fan y j k ∧ slot y.lvl q j = .leaf e := by
  obtain ⟨n, hn⟩ : ∃ n, n = x.lvl := ⟨_, rfl⟩
  induction n using Nat.strong_induction_on generalizing p x with
  | _ n ih =>
    have hd := Nat.mod_lt (k / fan ^ x.lvl) hfan
    cases hs : slot x.lvl p (k / fan ^ x.lvl % fan) with
    | empty => rw [find_empty hs] at h; cases h
    | leaf e' =>
      rw [find_leaf hs] at h
      injection h with h
      injection h with he hl
      subst he
      exact ⟨p, x, _, hp, hl, hd, takes_digit hfan hk, hs⟩
    | table q =>
      obtain ⟨hx, hq⟩ := F.table hp hd hs
      rw [find_table hx hs] at h
      exact ih (x.lvl - 1) (by omega) hq ((takes_digit hfan hk).child hx) h rfl

theorem Forest.find_root : find fan slot top x.root k = find fan slot x.lvl p k := by
  obtain ⟨d, hd⟩ : ∃ d, d = top - x.lvl := ⟨_, rfl⟩
  induction d generalizing p x with
  | zero =>
    have htop : x.lvl = top := by
      have := F.le_top hp
      omega
    have hx := F.root hp htop
    subst hx
    rfl
  | succ d ih =>
    obtain ⟨q, y, i, hq, hi, hy, hc, ht⟩ := F.parent hp (by omega)
    subst hc
    have hlvl : (y.child fan i).lvl + 1 = y.lvl := by
      simp only [Place.child]
      omega
    rw [hlvl] at hk
    have htake : Takes fan y i k := hk
    obtain ⟨hky, hdig⟩ := (takes_iff hi).mp htake
    have hrec := ih hq hky (by omega)
    rw [show (y.child fan i).root = y.root from rfl, hrec]
    exact find_table hy (by rw [hdig]; exact ht)

end

omit F

end Sima.Lib
