import Sima.Mmu.Step

/-!
# The three edits

Whatever the walker is asked to do to a table, it does by three edits: it
overwrites an entry at which a walk ends, it hangs a table it has just filled
into such an entry, and it takes an empty table out of the entry that points to
it. Each of them is a `Step`, and this file says what each does to translation.
Only the first does anything: a table is hung in to say what the entry said, in
smaller pieces, and it is taken out when it says nothing.
-/

namespace Sima.Mmu

open Lib
open Function (update update_of_ne update_self)

variable {T : Pgtable} {s s' : MmuState} {L L' : Labels} {r l p c i : Nat} {x : Place Nat}
  {v : Nat → Word} {mem mem₁ : Nat → Word} {g : Nat → Option (Nat × Word) → Option (Nat × Word)}
  {w : Word}

theorem slotOf_update (mem : Nat → Word) (l p i : Nat) (w : Word) :
    slotOf T (update mem (entryAt p i) w) l p i = classify T l w := by
  rw [slotOf, update_self]

/-- The tables away from the edited entry are bare after if they were before. -/
theorem bare_of_sameOff (hoff : SameOff L mem mem₁ p i) {q : Nat} {y : Place Nat}
    (hq : L q = some y) (hqp : q ≠ p) (h : Bare T mem₁ q) : Bare T mem q := by
  intro j hj
  rw [← hoff hq hj (fun hc => hqp hc.1)]
  exact h j hj

/-! ## Overwriting an end -/

/-- `s` with one entry overwritten. -/
def MmuState.write (s : MmuState) (a : Nat) (w : Word) : MmuState :=
  { s with mem := update s.mem a w }

@[simp] theorem write_mem (s : MmuState) (a : Nat) (w : Word) :
    (s.write a w).mem = update s.mem a w := rfl

@[simp] theorem write_pool (s : MmuState) (a : Nat) (w : Word) : (s.write a w).pool = s.pool := rfl

section Write

variable (hT : Tree T s L) (hp : L p = some x) (hi : i < 512)
  (hold : (slotOf T s.mem x.lvl p i).Ends) (hnew : (classify T x.lvl w).Ends)
  (hsound : Sound T w)

include hT hp hi hold hnew hsound

theorem Tree.write_end : Tree T (s.write (entryAt p i) w) L := by
  refine hT.setEnd hp hi hold (hT.sameOff_update hp hi w) hT.alloc ?_ ?_
  · rw [write_mem, slotOf_update]
    exact hnew
  · rw [write_mem, update_self]
    exact hsound

theorem Step.write_end : Step T r l (fun q => q = p ∧ T.pgentryPresent w = false) s L
    (s.write (entryAt p i) w) L := by
  have hoff := hT.sameOff_update hp hi w
  refine ⟨hT.write_end hp hi hold hnew hsound, fun _ _ _ => Iff.rfl, .refl _, fun _ => Iff.rfl, ?_⟩
  intro q y hX hq hy hb
  refine ⟨hq, ?_⟩
  by_cases hqp : q = p
  · refine (hX ⟨hqp, ?_⟩).elim
    have := hb i hi
    rw [hqp, write_mem, update_self] at this
    exact this
  · exact bare_of_sameOff hoff hq hqp hb

theorem Moves.write_end (hL : Leaves T s L) (hok : ∀ {e}, classify T x.lvl w = .leaf e →
      T.pgtlPagePaddr e % levelSize x.lvl = 0)
    (hg : ∀ {k}, Takes 512 x i k → endFrame T x.lvl k (classify T x.lvl w) =
      g k (endFrame T x.lvl k (slotOf T s.mem x.lvl p i))) :
    Moves T x.root (Takes 512 x i) g s L (s.write (entryAt p i) w) L := by
  have hT' := hT.write_end hp hi hold hnew hsound
  have hoff := hT.sameOff_update hp hi w
  refine ⟨?_, ?_, ?_⟩
  · intro q y j e hq hj hs
    rcases at_or_off hp hq i j with ⟨rfl, rfl, rfl⟩ | hat
    · rw [write_mem, slotOf_update] at hs
      exact hok hs
    · refine hL hq hj ?_
      rw [slotOf, ← hoff hq hj hat]
      exact hs
  · intro k _ htake
    have hslot : slotOf T (s.write (entryAt p i) w).mem x.lvl p i =
        classify T x.lvl w := slotOf_update ..
    rw [frameOf_end hT' hp hi htake (by rw [hslot]; exact hnew), hslot,
      hg htake, frameOf_end hT hp hi htake hold]
  · intro r' k hr' hk hne
    exact .of_leafOf (leafOf_off hT hr' hk hp hoff hne)

end Write

/-! ## Hanging in a fresh table -/

/-- From entry `i` on page `c` holds the words `v`, the rest of memory is as
before. -/
structure Filled (v : Nat → Word) (c i : Nat) (mem mem' : Nat → Word) : Prop where
  here : ∀ j, i ≤ j → j < 512 → mem' (entryAt c j) = v j
  there : ∀ a, (∀ j, i ≤ j → j < 512 → a ≠ entryAt c j) → mem' a = mem a

theorem Filled.full : Filled v c 512 mem mem := ⟨fun j h h' => absurd h (by omega), fun _ _ => rfl⟩

theorem Filled.cons {mem' : Nat → Word} (hi : i < 512)
    (h : Filled v c (i + 1) (update mem (entryAt c i) (v i)) mem') : Filled v c i mem mem' := by
  have hne : ∀ j, i + 1 ≤ j → entryAt c i ≠ entryAt c j := by
    intro j hj
    simp only [entryAt]
    omega
  refine ⟨?_, ?_⟩
  · intro j hij hj
    rcases eq_or_lt_of_le hij with rfl | hlt
    · rw [h.there _ (fun j hj _ => hne j hj), update_self]
    · exact h.here j hlt hj
  · intro a ha
    rw [h.there a (fun j hj hj' => ha j (by omega) hj'), update_of_ne (ha i (le_refl i) hi)]

/-- A free page was taken, filled with `v`, and hung into entry `i` of `p`. -/
structure Hung (T : Pgtable) (s : MmuState) (p i l c : Nat) (v : Nat → Word)
    (s' : MmuState) : Prop where
  free : s.pool.Free c
  alloc : ∀ q, s'.pool.Allocated q ↔ s.pool.Allocated q ∨ q = c
  region : s.pool.SameRegion s'.pool
  mem : ∃ mem₁, Filled v c 0 s.mem mem₁ ∧
    s'.mem = update mem₁ (entryAt p i) (T.setPgentry c 0 l false)

theorem Tree.label_free (hT : Tree T s L) (hc : s.pool.Free c) : L c = none := by
  cases h : L c with
  | none => rfl
  | some y => exact absurd (hT.alloc h) (PagePool.not_allocated_of_free hc)

theorem Hung.entry (h : Hung T s p i l c v s') (hl : 0 < l) :
    slotOf T s'.mem l p i = .table c := by
  obtain ⟨mem₁, -, hmem⟩ := h.mem
  rw [hmem, slotOf_update]
  exact classify_setPgentry_table h.free.addressable.1 h.free.addressable.2 hl

section

variable (h : Hung T s p i l c v s') (hT : Tree T s L) (hp : L p = some x) (hi : i < 512)

include h hT hp hi

theorem Hung.sameOff : SameOff L s.mem s'.mem p i := by
  obtain ⟨mem₁, hfill, hmem⟩ := h.mem
  intro q y j hq hj hne
  have haq := hT.page_aligned hq
  rw [hmem, update_of_ne]
  · refine hfill.there _ fun j' _ hj' heq => ?_
    have hqc := (entryAt_inj haq h.free.addressable.1 hj hj' heq).1
    rw [hqc, hT.label_free h.free] at hq
    cases hq
  · intro heq
    exact hne (entryAt_inj haq (hT.page_aligned hp) hj hi heq)

theorem Hung.fresh {j : Nat} (hj : j < 512) : s'.mem (entryAt c j) = v j := by
  obtain ⟨mem₁, hfill, hmem⟩ := h.mem
  rw [hmem, update_of_ne]
  · exact hfill.here j (Nat.zero_le j) hj
  intro heq
  have hcp := (entryAt_inj h.free.addressable.1 (hT.page_aligned hp) hj hi heq).1
  rw [← hcp, hT.label_free h.free] at hp
  cases hp

theorem Hung.grown (hold : T.pgentryPresent (s.mem (entryAt p i)) = false) :
    Grown T s L s' (update L c (some (x.child 512 i))) := by
  refine ⟨fun {q y} hq => ?_, fun {q y j} hq hj hpres => ?_⟩
  · rw [update_of_ne, hq]
    intro hqc
    rw [hqc, hT.label_free h.free] at hq
    cases hq
  · by_cases hat : q = p ∧ j = i
    · rw [hat.1, hat.2, hold] at hpres
      cases hpres
    · rw [h.sameOff hT hp hi hq hj hat]
      exact hpres

end

section Hung

variable (hT : Tree T s L) (hp : L p = some x) (hi : i < 512) (hx : 0 < x.lvl)
  (hold : (slotOf T s.mem x.lvl p i).Ends) (h : Hung T s p i x.lvl c v s')
  (hv : ∀ j < 512, (classify T (x.lvl - 1) (v j)).Ends ∧ Sound T (v j))

include hT hp hi hx hold h hv

theorem Hung.tree : Tree T s' (update L c (some (x.child 512 i))) := by
  refine hT.link hp hi hold (h.sameOff hT hp hi)
    (fun hq => (h.alloc _).mpr (.inl (hT.alloc hq))) hx (hT.label_free h.free) (h.entry hx) ?_
    ((h.alloc c).mpr (.inr rfl))
  intro j hj
  rw [slotOf, h.fresh hT hp hi hj]
  exact hv j hj

theorem Hung.step : Step T x.root x.lvl (fun q => q = c ∧ Bare T s'.mem c)
    s L s' (update L c (some (x.child 512 i))) := by
  have hc := hT.label_free h.free
  refine ⟨h.tree hT hp hi hx hold hv, ?_, h.region, ?_, ?_⟩
  · intro q y hy
    by_cases hqc : q = c
    · rw [hqc, update_self, hc]
      refine ⟨fun heq => ?_, fun heq => absurd heq (by simp)⟩
      injection heq with hxy
      refine (hy ?_).elim
      rw [← hxy]
      exact ⟨rfl, by simp only [Place.child]; omega⟩
    · rw [update_of_ne hqc]
  · intro q
    by_cases hqc : q = c
    · rw [hqc]
      exact ⟨fun hq => absurd hq.2 (by simp),
        fun hq => absurd hq.1 (PagePool.not_allocated_of_free h.free)⟩
    · rw [h.alloc]
      simp [hqc]
  · intro q y hX hq hy hb
    by_cases hqc : q = c
    · exact (hX ⟨hqc, hqc ▸ hb⟩).elim
    rw [update_of_ne hqc] at hq
    refine ⟨hq, bare_of_sameOff (h.sameOff hT hp hi) hq ?_ hb⟩
    -- the edited table has a present entry: the one just written
    intro hqp
    subst hqp
    have hs := h.entry hx
    rw [slotOf, classify_absent (hb i hi)] at hs
    cases hs

theorem Hung.moves (hL : Leaves T s L)
    (hok : ∀ j < 512, ∀ {e}, classify T (x.lvl - 1) (v j) = .leaf e →
      T.pgtlPagePaddr e % levelSize (x.lvl - 1) = 0 ∧ Stable T e)
    (hsame : ∀ {k}, Takes 512 x i k → endFrame T (x.lvl - 1) k
          (classify T (x.lvl - 1) (v (k / 512 ^ (x.lvl - 1) % 512))) =
        endFrame T x.lvl k (slotOf T s.mem x.lvl p i)) :
    Moves T x.root (fun _ => False) g s L s' (update L c (some (x.child 512 i))) := by
  have hT' := h.tree hT hp hi hx hold hv
  have hoff := h.sameOff hT hp hi
  refine ⟨?_, fun _ hf => hf.elim, ?_⟩
  · intro q y j e hq hj hs
    rcases of_update_some hq with ⟨rfl, rfl⟩ | hq
    · rw [slotOf, h.fresh hT hp hi hj] at hs
      exact (hok j hj hs).1
    rcases at_or_off hp hq i j with ⟨rfl, rfl, rfl⟩ | hat
    · rw [h.entry hx] at hs
      cases hs
    · refine hL hq hj ?_
      rw [slotOf, ← hoff hq hj hat]
      exact hs
  intro r' k hr' hk _
  by_cases hin : r' = x.root ∧ Takes 512 x i k
  · obtain ⟨rfl, htake⟩ := hin
    have hcl : update L c (some (x.child 512 i)) c = some (x.child 512 i) := update_self ..
    have hd := Nat.mod_lt (k / 512 ^ (x.lvl - 1)) (show 0 < 512 by omega)
    have hslot : slotOf T s'.mem (x.child 512 i).lvl c (k / 512 ^ (x.lvl - 1) % 512) =
          classify T (x.lvl - 1) (v (k / 512 ^ (x.lvl - 1) % 512)) := by
      rw [slotOf, h.fresh hT hp hi hd]
      rfl
    have hend := leafOf_end hT' hcl hd (takes_digit (by omega) (htake.child hx)) (by
        show (slotOf T s'.mem (x.child 512 i).lvl c (k / 512 ^ (x.lvl - 1) % 512)).Ends
        rw [hslot]
        exact (hv _ hd).1)
    have hleaf : leafOf T s'.mem x.root k = endLeaf (x.lvl - 1)
        (classify T (x.lvl - 1) (v (k / 512 ^ (x.lvl - 1) % 512))) :=
      hslot ▸ hend
    refine ⟨?_, fun _ e l he => ?_⟩
    · rw [frameOf_end hT hp hi htake hold, ← hsame htake, frameOf, hleaf, endFrame]
    rw [hleaf] at he
    cases hcls : classify T (x.lvl - 1) (v (k / 512 ^ (x.lvl - 1) % 512)) with
    | leaf e' =>
      rw [hcls] at he
      injection he with he
      injection he with he
      subst he
      exact (hok _ hd hcls).2
    | empty | table q => rw [hcls] at he; cases he
  · exact .of_leafOf (leafOf_off hT hr' hk hp hoff hin)

end Hung

/-! ## Taking out an empty table -/

/-- Page `c` is given back and the entry that pointed to it is sanitized. -/
def MmuState.cut (T : Pgtable) (s : MmuState) (a c : Nat) : MmuState :=
  { mem := update s.mem a T.sanitizedPageHpa, pool := s.pool.give c }

section Cut

variable (hT : Tree T s L) (hp : L p = some x) (hi : i < 512)
  (hslot : slotOf T s.mem x.lvl p i = .table c) (hbare : Bare T s.mem c)

include hT hp hi hslot hbare

theorem Tree.cut : Tree T (s.cut T (entryAt p i) c) (update L c none) := by
  have hc := (hT.forest.table hp hi hslot).2
  refine hT.unlink hp hi hslot ?_ ?_ ?_ (hT.sameOff_update hp hi _) ?_
  · intro j hj
    rw [slotOf, classify_absent (hbare j hj)]
    exact trivial
  · rw [MmuState.cut, slotOf_update, classify_sanitized]
    exact trivial
  · show Sound T (update s.mem (entryAt p i) _ (entryAt p i))
    rw [update_self]
    exact sound_sanitized
  · intro q y hq hqc
    exact ((PagePool.give_spec (hT.alloc hc)).1 q).mpr ⟨hT.alloc hq, hqc⟩

/-- The table that pointed to the page cut out may now be bare itself. -/
theorem Step.cut : Step T x.root x.lvl (fun q => q = p)
    s L (s.cut T (entryAt p i) c) (update L c none) := by
  obtain ⟨hx, hc⟩ := hT.forest.table hp hi hslot
  obtain ⟨halloc, hregion⟩ := PagePool.give_spec (hT.alloc hc)
  refine ⟨hT.cut hp hi hslot hbare, ?_, hregion, ?_, ?_⟩
  · intro q y hy
    by_cases hqc : q = c
    · rw [hqc, hc]
      refine ⟨fun heq => absurd heq (by simp), fun heq => ?_⟩
      injection heq with hxy
      refine (hy ?_).elim
      rw [← hxy]
      exact ⟨rfl, by simp only [Place.child]; omega⟩
    · rw [update_of_ne hqc]
  · intro q
    show (s.pool.give c).Allocated q ∧ _ ↔ _
    rw [halloc q]
    by_cases hqc : q = c
    · rw [hqc, hc]
      simp
    · simp [hqc]
  · intro q y hX hq hy hb
    have hq := (of_update_none hq).2
    exact ⟨hq, bare_of_sameOff (hT.sameOff_update hp hi _) hq hX hb⟩

theorem Moves.cut (hL : Leaves T s L) :
    Moves T x.root (fun _ => False) g s L (s.cut T (entryAt p i) c) (update L c none) := by
  have hT' := hT.cut hp hi hslot hbare
  obtain ⟨hx, hc⟩ := hT.forest.table hp hi hslot
  have hoff : SameOff L s.mem (s.cut T (entryAt p i) c).mem p i := hT.sameOff_update hp hi _
  have hnew : slotOf T (s.cut T (entryAt p i) c).mem x.lvl p i = .empty := by
    rw [MmuState.cut, slotOf_update, classify_sanitized]
  have hpc : p ≠ c := by
    intro heq
    rw [heq, hc] at hp
    injection hp with hxc
    have := congrArg Place.lvl hxc
    simp only [Place.child] at this
    omega
  refine ⟨?_, fun _ hf => hf.elim, ?_⟩
  · intro q y j e hqu hj hs
    have hq := (of_update_none hqu).2
    rcases at_or_off hp hq i j with ⟨rfl, rfl, rfl⟩ | hat
    · rw [hnew] at hs
      cases hs
    · refine hL hq hj ?_
      rw [slotOf, ← hoff hq hj hat]
      exact hs
  intro r' k hr' hk _
  by_cases hin : r' = x.root ∧ Takes 512 x i k
  · obtain ⟨rfl, htake⟩ := hin
    have hd := Nat.mod_lt (k / 512 ^ (x.lvl - 1)) (show 0 < 512 by omega)
    have hempty : slotOf T s.mem (x.child 512 i).lvl c
        (k / 512 ^ (x.lvl - 1) % 512) = .empty := by
      rw [slotOf, classify_absent (hbare _ hd)]
    have hbefore := leafOf_end hT hc hd (takes_digit (by omega) (htake.child hx)) (by
        show (slotOf T s.mem (x.child 512 i).lvl c (k / 512 ^ (x.lvl - 1) % 512)).Ends
        rw [hempty]
        exact trivial)
    have hafter := leafOf_end hT' (by rw [update_of_ne hpc, hp]) hi htake
      (by rw [hnew]; exact trivial)
    rw [hempty] at hbefore
    refine .of_leafOf ?_
    rw [hafter, hnew]
    exact hbefore.symm
  · exact .of_leafOf (leafOf_off hT hr' hk hp hoff hin)

end Cut

end Sima.Mmu
