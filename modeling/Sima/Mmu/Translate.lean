import Sima.Mmu.Tree

/-!
# Translation

`translate` is what the tables mean: the physical address and the attributes
that `pgtable_lookup_entry` gives for an address. The proofs do not work with it
directly. They work with `frameOf`, the same thing for a whole 4 KiB page, given
by its number — the key of the radix tree. `translate_eq` joins the two.

What a change of the tables does to `frameOf` is then a matter of slots. A page
number takes one slot per level, so an entry that it does not take cannot matter
(`frameOf_off`), and if the entry it takes ends the walk, that entry is the
answer (`frameOf_end`).
-/

namespace Sima.Mmu

open Lib

section

variable (T : Pgtable) (l k : Nat) (mem : Nat → Word) (root : Nat)

/-- The physical address and the attributes of `va`. -/
def translate (va : Nat) : Option (Nat × Word) :=
  (pgtableLookupEntry T mem root va).map fun (a, size) =>
    (alignDown size (T.pgtlPagePaddr (mem a)) + va % size, mem a &&& T.attrMask)

/-- The frame and the attributes a leaf at level `l` gives to page number `k`. -/
def leafFrame (e : Word) (k : Nat) : Nat × Word :=
  (T.pgtlPagePaddr e + k % 512 ^ l * 4096, e &&& T.attrMask)

/-- The leaf that page number `k` ends at, and its level. -/
def leafOf (k : Nat) : Option (Word × Nat) :=
  find 512 (slotOf T mem) 3 root k

/-- The frame and the attributes of page number `k`. -/
def frameOf (k : Nat) : Option (Nat × Word) :=
  (leafOf T mem root k).map fun (e, l) => leafFrame T l e k

def endLeaf : Slot Nat Word → Option (Word × Nat)
  | .leaf e => some (e, l)
  | _ => none

def endFrame (slot : Slot Nat Word) : Option (Nat × Word) :=
  (endLeaf l slot).map fun (e, l) => leafFrame T l e k

end

@[simp] theorem endFrame_leaf (T : Pgtable) (l k : Nat) (e : Word) :
    endFrame T l k (.leaf e) = some (leafFrame T l e k) := rfl

@[simp] theorem endFrame_empty (T : Pgtable) (l k : Nat) : endFrame T l k .empty = none := rfl

/-- The leaves are aligned as their level demands. -/
def Leaves (T : Pgtable) (s : MmuState) (L : Labels) : Prop :=
  ∀ ⦃p x i e⦄, L p = some x → i < 512 → slotOf T s.mem x.lvl p i = .leaf e →
    T.pgtlPagePaddr e % levelSize x.lvl = 0

/-- Requesting the attributes of this leaf again gives them back, so that it can
be split. -/
def Stable (T : Pgtable) (e : Word) : Prop :=
  T.protAttrs (e &&& ~~~ T.pfnMask) = e &&& T.attrMask

/-- The leaf of page number `k`, if there is one, is stable. -/
def Steady (T : Pgtable) (mem : Nat → Word) (root k : Nat) : Prop :=
  ∀ {e l}, leafOf T mem root k = some (e, l) → Stable T e

variable {T : Pgtable} {s s' : MmuState} {L : Labels} {p c i r k : Nat}
  {x : Place Nat}

/-- The pages below `root` form a four-level tree, every table in one place, and
the leaves in it are aligned. -/
def WellFormed (T : Pgtable) (s : MmuState) (root : Nat) : Prop :=
  ∃ L, Tree T s L ∧ Leaves T s L ∧ L root = some ⟨root, 3, 0⟩

/-! ## Addresses and page numbers -/

theorem levelSize_pos (l : Nat) : 0 < levelSize l := by
  exact Nat.mul_pos (by omega) (Nat.pow_pos (by omega))

theorem div_levelSize (l va : Nat) : va / levelSize l = va / 4096 / 512 ^ l := by
  rw [levelSize, Nat.div_div_eq_div_mul]

theorem levelIndex_eq (l va : Nat) : levelIndex l va = va / 4096 / 512 ^ l % 512 := by
  rw [levelIndex, div_levelSize]

theorem levelIndex_lt (l va : Nat) : levelIndex l va < 512 := Nat.mod_lt _ (by omega)

theorem mod_levelSize (l va : Nat) :
    va % levelSize l = va / 4096 % 512 ^ l * 4096 + va % 4096 := by
  rw [levelSize, Nat.mod_mul]
  omega

theorem root_passes (hk : k < 512 ^ 4) : k / 512 ^ (3 + 1) = 0 := Nat.div_eq_of_lt hk

/-! ## The lookup and the tree -/

/-- The lookup as a recursion over the levels. -/
def lookupFrom (T : Pgtable) (mem : Nat → Word) (va : Nat) :
    Nat → Nat → Option (Nat × Nat)
  | 0, page =>
    let e := entryAt page (levelIndex 0 va)
    if T.pgentryPresent (mem e) then some (e, levelSize 0) else none
  | l + 1, page =>
    let e := entryAt page (levelIndex (l + 1) va)
    if T.pgentryPresent (mem e) then
      if l + 1 ≤ 2 ∧ T.pgtlLarge (mem e) = true then some (e, levelSize (l + 1))
      else lookupFrom T mem va l (T.pgtlPagePaddr (mem e))
    else none

theorem lookup_eq_lookupFrom (mem : Nat → Word) (root va : Nat) :
    pgtableLookupEntry T mem root va = lookupFrom T mem va 3 root := by
  simp [pgtableLookupEntry, lookupFrom]

theorem lookupFrom_eq_find (mem : Nat → Word) (va l page : Nat) :
    (lookupFrom T mem va l page).map (fun (a, size) => (mem a, size)) =
      (find 512 (slotOf T mem) l page (va / 4096)).map (fun (e, l) => (e, levelSize l)) := by
  induction l generalizing page with
  | zero =>
    simp only [lookupFrom, find, slotOf, classify, levelIndex_eq]
    split <;> simp
  | succ l ih =>
    simp only [lookupFrom, find, slotOf, classify, levelIndex_eq]
    split
    · split
      · next h => rw [if_pos (.inr h)]; rfl
      · next h =>
        rw [if_neg (by simp only [Nat.add_one_ne_zero, false_or]; exact h)]
        exact ih _
    · rfl

variable (hT : Tree T s L)

include hT

theorem translate_eq (hL : Leaves T s L) (hr : L r = some ⟨r, 3, 0⟩) {va : Nat}
    (hva : va < 2 ^ 48) : translate T s.mem r va =
      (frameOf T s.mem r (va / 4096)).map fun (f, a) => (f + va % 4096, a) := by
  have hk : va / 4096 < 512 ^ 4 := by omega
  have hfind := lookupFrom_eq_find (T := T) s.mem va 3 r
  rw [translate, lookup_eq_lookupFrom, frameOf, leafOf]
  cases hl : lookupFrom T s.mem va 3 r with
  | none =>
    rw [hl] at hfind
    rw [Option.map_eq_none_iff.mp hfind.symm]
    rfl
  | some res =>
    obtain ⟨a, size⟩ := res
    rw [hl] at hfind
    obtain ⟨⟨e, l⟩, hf, heq⟩ := Option.map_eq_some_iff.mp hfind.symm
    obtain ⟨he, hs⟩ := Prod.mk.inj heq
    -- the entry found is a leaf of the tree, hence aligned to its level
    obtain ⟨q, y, j, hq, hy, hj, -, hslot⟩ := hT.forest.find_some hr (root_passes hk) (by omega) hf
    have hal := hL hq hj hslot
    rw [hy] at hal
    rw [hf, ← hs]
    simp only [Option.map_some, leafFrame, alignDown]
    rw [← he, Nat.div_mul_cancel (Nat.dvd_of_mod_eq_zero hal), mod_levelSize, add_assoc]

/-! ## What a change does -/

theorem leafOf_congr (hr : L r = some ⟨r, 3, 0⟩) (hk : k < 512 ^ 4)
    (hsame : ∀ {q y j}, L q = some y → y.root = r → j < 512 →
      Takes 512 y j k → s'.mem (entryAt q j) = s.mem (entryAt q j)) :
    leafOf T s'.mem r k = leafOf T s.mem r k :=
  hT.forest.find_congr hr (root_passes hk) (by omega) fun hq hy hj htake => by
    rw [slotOf, slotOf, hsame hq hy hj htake]

theorem leafOf_off (hr : L r = some ⟨r, 3, 0⟩) (hk : k < 512 ^ 4) (hp : L p = some x)
    (hoff : SameOff L s.mem s'.mem p i) (hne : ¬ (r = x.root ∧ Takes 512 x i k)) :
    leafOf T s'.mem r k = leafOf T s.mem r k := by
  refine leafOf_congr hT hr hk ?_
  intro q y j hq hy hj htake
  refine hoff hq hj ?_
  rintro ⟨hqp, hji⟩
  subst hqp hji
  rw [hp] at hq
  injection hq with hxy
  subst hxy
  exact hne ⟨hy.symm, htake⟩

section

variable (hp : L p = some x) (hi : i < 512) (htake : Takes 512 x i k)
  (hend : (slotOf T s.mem x.lvl p i).Ends)

include hp hi htake hend

/-- A page number that takes an entry at which the walk ends has its leaf
there, or none. -/
theorem leafOf_end : leafOf T s.mem x.root k = endLeaf x.lvl (slotOf T s.mem x.lvl p i) := by
  obtain ⟨hk, hd⟩ := (takes_iff hi).mp htake
  rw [leafOf, hT.forest.find_root hp hk]
  subst hd
  cases hs : slotOf T s.mem x.lvl p (k / 512 ^ x.lvl % 512) with
  | empty => rw [find_empty hs]; rfl
  | leaf e => rw [find_leaf hs]; rfl
  | table q => rw [hs] at hend; exact hend.elim

theorem frameOf_end :
    frameOf T s.mem x.root k = endFrame T x.lvl k (slotOf T s.mem x.lvl p i) := by
  rw [frameOf, leafOf_end hT hp hi htake hend, endFrame]

end

omit hT

/-! ## What stays -/

/-- Page number `k` keeps its frame, and its leaf is stable if it was. -/
structure Stays (T : Pgtable) (mem mem' : Nat → Word) (r k : Nat) : Prop where
  frame : frameOf T mem' r k = frameOf T mem r k
  steady : Steady T mem r k → Steady T mem' r k

variable {mem : Nat → Word}

theorem Stays.trans {mem₁ mem₂ : Nat → Word} (h : Stays T mem mem₁ r k)
    (h' : Stays T mem₁ mem₂ r k) : Stays T mem mem₂ r k :=
  ⟨h'.frame.trans h.frame, fun hs => h'.steady (h.steady hs)⟩

theorem Stays.of_leafOf {mem' : Nat → Word} (h : leafOf T mem' r k = leafOf T mem r k) :
    Stays T mem mem' r k := by
  refine ⟨by rw [frameOf, frameOf, h], fun hs e l he => ?_⟩
  rw [h] at he
  exact hs he

end Sima.Mmu
