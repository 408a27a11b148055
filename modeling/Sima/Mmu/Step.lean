import Sima.Mmu.Translate

/-!
# What one call may do

Every function of the walker works on one tree, below one level, and the same
things have to be said about all of them: the pages it leaves form a tree again,
labels above its level and in other trees are untouched, no page leaks from the
pool, no table is left without entries that had some. `Step` says them, and it
is transitive, so a loop inherits it from its body.

What a call does to translation is `Moves`: inside a set of page numbers the
frame is replaced by a function of the old one, everywhere else — other trees
included — it stays. Two calls on disjoint sets compose to one on the union.

The access trace is dealt with once. A call for root `r` may touch the pages
labelled with `r` and the free pages of the pool, and a step does not add to
this set (`Step.owned`), so what the last iteration of a loop may touch, the
first one could.
-/

namespace Sima.Mmu

open Lib

variable {T : Pgtable} {s s' s'' : MmuState} {L L' L'' : Labels} {r l p c i : Nat} {x : Place Nat}
  {X X' : Nat → Prop}

/-- A table without present entries. -/
def Bare (T : Pgtable) (mem : Nat → Word) (p : Nat) : Prop :=
  ∀ i < 512, T.pgentryPresent (mem (entryAt p i)) = false

/-- Labels of other trees, and of this one from level `l` up, are kept. -/
def Keeps (r l : Nat) (L L' : Labels) : Prop :=
  ∀ ⦃q y⦄, ¬ (y.root = r ∧ y.lvl < l) → (L' q = some y ↔ L q = some y)

/-- A change of the tree at `r` below level `l`. `X` are the tables that may
have been left bare, for the caller to deal with. -/
structure Step (T : Pgtable) (r l : Nat) (X : Nat → Prop) (s : MmuState)
    (L : Labels) (s' : MmuState) (L' : Labels) : Prop where
  tree : Tree T s' L'
  keeps : Keeps r l L L'
  region : s.pool.SameRegion s'.pool
  foreign : ∀ p, (s'.pool.Allocated p ∧ L' p = none) ↔ (s.pool.Allocated p ∧ L p = none)
  bare : ∀ {q y}, ¬ X q → L' q = some y → y.lvl ≤ 1 → Bare T s'.mem q →
    L q = some y ∧ Bare T s.mem q

theorem Step.refl (hT : Tree T s L) : Step T r l X s L s L :=
  ⟨hT, fun _ _ _ => Iff.rfl, .refl _, fun _ => Iff.rfl, fun _ hq _ hb => ⟨hq, hb⟩⟩

variable (h : Step T r l X s L s' L')

include h

theorem Step.mono {l' : Nat} (hl : l ≤ l') (hX : ∀ q, X q → X' q) : Step T r l' X' s L s' L' := by
  refine ⟨h.tree, fun _ _ hy => h.keeps fun hc => hy ⟨hc.1, by omega⟩, h.region,
    h.foreign, fun hn hq hy hb => h.bare (fun hx => hn (hX _ hx)) hq hy hb⟩

theorem Step.label (hp : L p = some x) (hx : l ≤ x.lvl) : L' p = some x :=
  (h.keeps fun hc => absurd hc.2 (by omega)).mpr hp

/-- Tables that were left bare and are not in the end are no exceptions. -/
theorem Step.trans_of (h' : Step T r l X' s' L' s'' L'')
    (hX : ∀ {q y}, X q → L'' q = some y → Bare T s''.mem q → X' q) :
    Step T r l X' s L s'' L'' := by
  refine ⟨h'.tree, fun _ _ hy => (h'.keeps hy).trans (h.keeps hy),
    h.region.trans h'.region, fun p => (h'.foreign p).trans (h.foreign p), ?_⟩
  intro q y hn hq hy hb
  obtain ⟨hq', hb'⟩ := h'.bare hn hq hy hb
  exact h.bare (fun hx => hn (hX hx hq hb)) hq' hy hb'

/-- Tables above level 1 are no exceptions: nobody promised to free them. -/
theorem Step.drop (hX : ∀ {q y}, X q → L' q = some y → 1 < y.lvl) :
    Step T r l (fun _ => False) s L s' L' := by
  refine ⟨h.tree, h.keeps, h.region, h.foreign, ?_⟩
  intro q y _ hq hy hb
  by_cases hXq : X q
  · exact absurd (hX hXq hq) (by omega)
  · exact h.bare hXq hq hy hb

omit h

/-- Labels stay, and so do present entries. -/
structure Grown (T : Pgtable) (s : MmuState) (L : Labels) (s' : MmuState)
    (L' : Labels) : Prop where
  labels : ∀ {q y}, L q = some y → L' q = some y
  entries : ∀ {q y j}, L q = some y → j < 512 →
    T.pgentryPresent (s.mem (entryAt q j)) = true →
    T.pgentryPresent (s'.mem (entryAt q j)) = true

theorem Step.trans (h : Step T r l X s L s' L') (h' : Step T r l X s' L' s'' L'') :
    Step T r l X s L s'' L'' :=
  h.trans_of h' fun hx _ _ => hx

theorem Grown.refl : Grown T s L s L := ⟨id, fun _ _ => id⟩

theorem Grown.trans (h : Grown T s L s' L') (h' : Grown T s' L' s'' L'') : Grown T s L s'' L'' :=
  ⟨fun hq => h'.labels (h.labels hq),
    fun hq hj hp => h'.entries (h.labels hq) hj (h.entries hq hj hp)⟩

/-! ## Footprints -/

/-- The pages a call on the tree at `r` may touch. -/
def Owned (s : MmuState) (L : Labels) (r p : Nat) : Prop :=
  (∃ y, L p = some y ∧ y.root = r) ∨ s.pool.Free p

/-- The events allowed to such a call. -/
def OwnedWord (s : MmuState) (L : Labels) (r : Nat) (t : Event) : Prop :=
  ∀ a, t = .access a → ∃ p i, i < 512 ∧ a = entryAt p i ∧ Owned s L r p

theorem Step.owned (h : Step T r l X s L s' L') (ho : Owned s' L' r p) : Owned s L r p := by
  -- membership in the region is the same before and after
  have hregion : (∃ n < 64 * s'.pool.bitmapSize, p = s'.pool.page n) →
      ∃ n < 64 * s.pool.bitmapSize, p = s.pool.page n := by
    simp only [PagePool.page, h.region.startPage, h.region.bitmapSize]
    exact id
  rcases ho with ⟨y, hp, hy⟩ | hfree
  · cases hLp : L p with
    | some z =>
      by_cases hz : z.root = r
      · exact .inl ⟨z, hLp, hz⟩
      have hp' := (h.keeps fun hc => hz hc.1).mpr hLp
      rw [hp] at hp'
      injection hp' with hyz
      exact absurd (hyz ▸ hy) hz
    | none =>
      refine .inr (PagePool.free_iff.mpr ⟨hregion ?_, fun ha => ?_⟩)
      · obtain ⟨n, hn, hpn, -⟩ := h.tree.alloc hp
        exact ⟨n, hn, hpn⟩
      · have := ((h.foreign p).mpr ⟨ha, hLp⟩).2
        rw [hp] at this
        cases this
  · obtain ⟨hr, hna⟩ := PagePool.free_iff.mp hfree
    by_cases ha : s.pool.Allocated p
    · cases hLp : L p with
      | none => exact absurd ((h.foreign p).mpr ⟨ha, hLp⟩).1 hna
      | some z =>
        by_cases hz : z.root = r
        · exact .inl ⟨z, hLp, hz⟩
        · exact absurd (h.tree.alloc ((h.keeps fun hc => hz hc.1).mpr hLp)) hna
    · exact .inr (PagePool.free_iff.mpr ⟨hregion hr, ha⟩)

theorem Step.ownedWord (h : Step T r l X s L s' L') (t : Event)
    (ht : OwnedWord s' L' r t) : OwnedWord s L r t := by
  intro a ha
  obtain ⟨p, i, hi, hai, hp⟩ := ht a ha
  exact ⟨p, i, hi, hai, h.owned hp⟩

/-! ## Translation -/

/-- Inside `keys` the frame is changed by `g`, elsewhere it stays. What was
stable before and lies outside can be split later. -/
structure Moves (T : Pgtable) (r : Nat) (keys : Nat → Prop)
    (g : Nat → Option (Nat × Word) → Option (Nat × Word))
    (s : MmuState) (L : Labels) (s' : MmuState) (L' : Labels) : Prop where
  leaves : Leaves T s' L'
  inside : ∀ {k}, k < 512 ^ 4 → keys k → frameOf T s'.mem r k = g k (frameOf T s.mem r k)
  outside : ∀ {r' k}, L r' = some ⟨r', 3, 0⟩ → k < 512 ^ 4 →
    ¬ (r' = r ∧ keys k) → Stays T s.mem s'.mem r' k

variable {g : Nat → Option (Nat × Word) → Option (Nat × Word)}
  {keys keys' : Nat → Prop}

theorem Moves.refl (hL : Leaves T s L) (hk : ∀ k, k < 512 ^ 4 → ¬ keys k) :
    Moves T r keys g s L s L :=
  ⟨hL, fun hlt h => absurd h (hk _ hlt), fun _ _ _ => Stays.of_leafOf rfl⟩

theorem Moves.trans (h : Moves T r keys g s L s' L')
    (h' : Moves T r keys' g s' L' s'' L'') (hstep : Step T r l X s L s' L')
    (hl : l ≤ 3) (hr : L r = some ⟨r, 3, 0⟩) (hdisj : ∀ k, keys k → ¬ keys' k) :
    Moves T r (fun k => keys k ∨ keys' k) g s L s'' L'' := by
  refine ⟨h'.leaves, ?_, ?_⟩
  · intro k hlt hk
    rcases hk with hk | hk
    · rw [(h'.outside (hstep.label hr hl) hlt (fun hc => hdisj k hk hc.2)).frame, h.inside hlt hk]
    · rw [h'.inside hlt hk, (h.outside hr hlt (fun hc => hdisj k hc.2 hk)).frame]
  · intro r' k hr' hlt hne
    exact (h.outside hr' hlt (fun hc => hne ⟨hc.1, .inl hc.2⟩)).trans
      (h'.outside (hstep.label hr' hl) hlt (fun hc => hne ⟨hc.1, .inr hc.2⟩))

theorem Moves.congr (h : Moves T r keys g s L s' L')
    (hk : ∀ k, k < 512 ^ 4 → (keys' k ↔ keys k)) : Moves T r keys' g s L s' L' :=
  ⟨h.leaves, fun hlt hin => h.inside hlt ((hk _ hlt).mp hin),
    fun hr hlt hne => h.outside hr hlt fun hc => hne ⟨hc.1, (hk _ hlt).mpr hc.2⟩⟩

theorem Moves.after_still (h : Moves T r (fun _ => False) g s L s' L')
    (h' : Moves T r keys g s' L' s'' L'') (hstep : Step T r l X s L s' L')
    (hl : l ≤ 3) (hr : L r = some ⟨r, 3, 0⟩) : Moves T r keys g s L s'' L'' :=
  (h.trans h' hstep hl hr fun _ hf => hf.elim).congr fun _ _ => by simp

end Sima.Mmu
