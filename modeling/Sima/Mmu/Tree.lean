import Sima.Lib.RadixForest
import Sima.Mmu.Pgtable

/-!
# Page tables as forests

A table page is a node of a radix tree with 512 slots, and an entry is a slot
once it is read at a level: an absent entry is empty, a block or a 4 KiB page is
a leaf, anything else points to the next table. `Tree` says that the pages a
labelling names form a forest in this sense, that they are allocated, and that
the words stored at their ends are ones the walker put there.

The rest of the file is the three things the walker does to a tree — overwrite
an end, hang a fresh table into an entry, cut an empty table out — and what
each of them does to translation. Two of the three do nothing to it.
-/

namespace Sima.Mmu

open Lib
open Function (update update_of_ne)

variable {T : Pgtable} {e prot : Word} {l : Nat}

/-- An entry of a level-`l` table as a slot. `pgtable_lookup_entry` takes every
present level-3 entry for a table, and every present level-0 entry for a page. -/
def classify (T : Pgtable) (l : Nat) (e : Word) : Slot Nat Word :=
  if T.pgentryPresent e then
    if l = 0 ∨ (l ≤ 2 ∧ T.pgtlLarge e = true) then .leaf e
    else .table (T.pgtlPagePaddr e)
  else .empty

def slotOf (T : Pgtable) (mem : Nat → Word) (l p i : Nat) : Slot Nat Word :=
  classify T l (mem (entryAt p i))

abbrev Labels := Nat → Option (Place Nat)

/-- A word the walker leaves at the end of a walk: sanitized if it is absent,
and with attributes that can be requested again if it is a leaf. -/
structure Sound (T : Pgtable) (e : Word) : Prop where
  absent : T.pgentryPresent e = false → e = T.sanitizedPageHpa
  leaf : T.pgentryPresent e = true → T.ProtOk (e &&& ~~~ T.pfnMask)

/-- The pages that `L` names are the allocated nodes of a forest. -/
structure Tree (T : Pgtable) (s : MmuState) (L : Labels) : Prop where
  forest : Forest 512 3 (slotOf T s.mem) L
  alloc : ∀ {p x}, L p = some x → s.pool.Allocated p
  ends : ∀ {p x i}, L p = some x → i < 512 →
    (slotOf T s.mem x.lvl p i).Ends → Sound T (s.mem (entryAt p i))

/-! ## Reading one entry -/

theorem classify_absent (h : T.pgentryPresent e = false) : classify T l e = .empty := by
  simp [classify, h]

theorem classify_leaf (h : T.pgentryPresent e = true)
    (hl : l = 0 ∨ (l ≤ 2 ∧ T.pgtlLarge e = true)) : classify T l e = .leaf e := by
  rw [classify, if_pos h, if_pos hl]

theorem classify_table (h : T.pgentryPresent e = true) (hl : 0 < l)
    (hlarge : T.pgtlLarge e = false) : classify T l e = .table (T.pgtlPagePaddr e) := by
  rw [classify, if_pos h, if_neg]
  intro hor
  rcases hor with h0 | ⟨-, hl'⟩
  · omega
  · rw [hlarge] at hl'
    cases hl'

theorem classify_sanitized (l : Nat) : classify T l T.sanitizedPageHpa = .empty :=
  classify_absent T.sanitized_absent

theorem sound_sanitized : Sound T T.sanitizedPageHpa := by
  refine ⟨fun _ => rfl, fun h => ?_⟩
  rw [T.sanitized_absent] at h
  cases h

theorem classify_eq_leaf {e' : Word} (h : classify T l e = .leaf e') :
    e' = e ∧ T.pgentryPresent e = true ∧ (l = 0 ∨ (l ≤ 2 ∧ T.pgtlLarge e = true)) := by
  rw [classify] at h
  split at h
  · next hp =>
    split at h
    · next hl =>
      injection h with he
      exact ⟨he.symm, hp, hl⟩
    · cases h
  · cases h

theorem classify_three (e : Word) : T.pgentryPresent e = true ↔
    ∃ c, classify T 3 e = .table c := by
  refine ⟨fun h => ⟨T.pgtlPagePaddr e, ?_⟩, fun ⟨c, h⟩ => ?_⟩
  · rw [classify, if_pos h, if_neg (by omega)]
  · cases hp : T.pgentryPresent e with
    | true => rfl
    | false => rw [classify_absent hp] at h; cases h

theorem classify_setPgentry_leaf (h : T.ProtOk prot) (paddr : Nat) (hl : l ≤ 2) :
    classify T l (T.setPgentry paddr prot l true) = .leaf (T.setPgentry paddr prot l true) := by
  obtain ⟨hp, hlarge, -⟩ := T.leaf_entry paddr l h
  refine classify_leaf hp ?_
  rcases Nat.eq_zero_or_pos l with h0 | hpos
  · exact .inl h0
  · exact .inr ⟨hl, hlarge hpos⟩

theorem sound_setPgentry_leaf (h : T.ProtOk prot) (paddr l : Nat) :
    Sound T (T.setPgentry paddr prot l true) := by
  obtain ⟨hp, -, hprot⟩ := T.leaf_entry paddr l h
  refine ⟨fun ha => ?_, fun _ => hprot⟩
  rw [hp] at ha
  cases ha

theorem classify_setPgentry_table {c : Nat} (hc : c % 4096 = 0) (hlt : c < 2 ^ 48) (hl : 0 < l) :
    classify T l (T.setPgentry c 0 l false) = .table c := by
  obtain ⟨hp, hlarge, haddr⟩ := T.table_entry hc hlt
  rw [classify_table hp hl hlarge, haddr]

variable {p : Nat}

theorem entryAt_inj {q i j : Nat} (hp : p % 4096 = 0) (hq : q % 4096 = 0) (hi : i < 512)
    (hj : j < 512) (h : entryAt p i = entryAt q j) : p = q ∧ i = j := by
  simp only [entryAt] at h
  omega

theorem Tree.page_aligned {s : MmuState} {L : Labels} (hT : Tree T s L) {x : Place Nat}
    (hp : L p = some x) : p % 4096 = 0 :=
  (hT.alloc hp).addressable.1

/-! ## Changing one entry -/

/-- Outside entry `i` of `p`, the labelled tables read the same. -/
def SameOff (L : Labels) (mem mem' : Nat → Word) (p i : Nat) : Prop :=
  ∀ ⦃q y j⦄, L q = some y → j < 512 → ¬ (q = p ∧ j = i) → mem' (entryAt q j) = mem (entryAt q j)

variable {s s' : MmuState} {L : Labels} {p c i : Nat} {x : Place Nat}

theorem SameOff.agree (h : SameOff L s.mem s'.mem p i) :
    AgreeOff 512 L (slotOf T s.mem) (slotOf T s'.mem) p i := by
  intro q y j hq hj hne
  rw [slotOf, slotOf, h hq hj hne]

theorem Tree.sameOff_update (hT : Tree T s L) (hp : L p = some x) (hi : i < 512) (w : Word) :
    SameOff L s.mem (update s.mem (entryAt p i) w) p i := by
  intro q y j hq hj hne
  rw [update_of_ne]
  intro heq
  exact hne (entryAt_inj (hT.page_aligned hq) (hT.page_aligned hp) hj hi heq)

section

variable (hT : Tree T s L) (hp : L p = some x) (hi : i < 512)
  (hold : (slotOf T s.mem x.lvl p i).Ends) (hoff : SameOff L s.mem s'.mem p i)
  (halloc : ∀ {q y}, L q = some y → s'.pool.Allocated q)

include hT hp hi hold hoff halloc

theorem Tree.setEnd (hnew : (slotOf T s'.mem x.lvl p i).Ends)
    (hsound : Sound T (s'.mem (entryAt p i))) : Tree T s' L := by
  refine ⟨hT.forest.setEnd hp hi hold hnew hoff.agree, halloc, ?_⟩
  intro q y j hq hj hend
  by_cases hat : q = p ∧ j = i
  · rw [hat.1, hat.2]
    exact hsound
  rw [hoff hq hj hat]
  refine hT.ends hq hj ?_
  rw [slotOf, ← hoff hq hj hat]
  exact hend

theorem Tree.link (hx : 0 < x.lvl) (hc : L c = none) (hnew : slotOf T s'.mem x.lvl p i = .table c)
    (hends : ∀ j < 512, (slotOf T s'.mem (x.lvl - 1) c j).Ends ∧ Sound T (s'.mem (entryAt c j)))
    (hcalloc : s'.pool.Allocated c) : Tree T s' (update L c (some (x.child 512 i))) := by
  refine ⟨hT.forest.link hp hi hx hold hc hnew (fun j hj => (hends j hj).1) hoff.agree, ?_, ?_⟩
  · intro q y hq
    by_cases hqc : q = c
    · rw [hqc]
      exact hcalloc
    · rw [update_of_ne hqc] at hq
      exact halloc hq
  intro q y j hq hj hend
  by_cases hqc : q = c
  · rw [hqc]
    exact (hends j hj).2
  rw [update_of_ne hqc] at hq
  rcases at_or_off hp hq i j with ⟨rfl, rfl, rfl⟩ | hat
  · rw [hnew] at hend
    exact hend.elim
  rw [hoff hq hj hat]
  refine hT.ends hq hj ?_
  rw [slotOf, ← hoff hq hj hat]
  exact hend

end

theorem Tree.nil (T : Pgtable) (s : MmuState) : Tree T s fun _ => none := by
  refine ⟨⟨?_, ?_, ?_, ?_, ?_⟩, ?_, ?_⟩ <;> intros <;> contradiction

theorem Tree.addRoot (hT : Tree T s L) (hc : L c = none)
    (hempty : ∀ j < 512, s'.mem (entryAt c j) = T.sanitizedPageHpa)
    (hsame : ∀ {q y j}, L q = some y → j < 512 → s'.mem (entryAt q j) = s.mem (entryAt q j))
    (halloc : ∀ {q y}, L q = some y → s'.pool.Allocated q) (hcalloc : s'.pool.Allocated c) :
    Tree T s' (update L c (some ⟨c, 3, 0⟩)) := by
  have hends : ∀ j < 512, (slotOf T s'.mem 3 c j).Ends := by
    intro j hj
    rw [slotOf, hempty j hj, classify_sanitized]
    exact trivial
  refine ⟨hT.forest.addRoot hc hends fun hq hj => by rw [slotOf, slotOf, hsame hq hj], ?_, ?_⟩
  · intro q y hq
    by_cases hqc : q = c
    · rw [hqc]
      exact hcalloc
    · rw [update_of_ne hqc] at hq
      exact halloc hq
  intro q y j hq hj hend
  by_cases hqc : q = c
  · rw [hqc, hempty j hj]
    exact sound_sanitized
  rw [update_of_ne hqc] at hq
  rw [hsame hq hj]
  refine hT.ends hq hj ?_
  rw [slotOf, ← hsame hq hj]
  exact hend

theorem Tree.unlink (hT : Tree T s L) (hp : L p = some x) (hi : i < 512)
    (hold : slotOf T s.mem x.lvl p i = .table c)
    (hends : ∀ j < 512, (slotOf T s.mem (x.lvl - 1) c j).Ends)
    (hnew : (slotOf T s'.mem x.lvl p i).Ends) (hsound : Sound T (s'.mem (entryAt p i)))
    (hoff : SameOff L s.mem s'.mem p i)
    (halloc : ∀ {q y}, L q = some y → q ≠ c → s'.pool.Allocated q) :
    Tree T s' (update L c none) := by
  refine ⟨hT.forest.unlink hp hi hold hends hnew hoff.agree,
    fun hq => halloc (of_update_none hq).2 (of_update_none hq).1, ?_⟩
  intro q y j hqu hj hend
  obtain ⟨-, hq⟩ := of_update_none hqu
  by_cases hat : q = p ∧ j = i
  · rw [hat.1, hat.2]
    exact hsound
  rw [hoff hq hj hat]
  refine hT.ends hq hj ?_
  rw [slotOf, ← hoff hq hj hat]
  exact hend

end Sima.Mmu
