import Sima.Mmu.Range
import Sima.Mmu.Run

/-!
# Sweeping a table

Adding and changing a range are the same walk: three nested loops, one per level
below the root, each over the entries of one table. They differ in what is done
to an entry, and in a few things the proofs have to know, which are collected in
a `Job` — the effect on a frame, whether blocks are split on the way, whether
entries only ever appear, whether a table may be left empty.

What is proved of a part of the walk is one statement, `Does`: it is a `Step`
below its level, and if its range is an honest one, the pages of the range that
go through the entry — or the table — have their frames changed as the job says,
and no other page has. The structural half needs nothing of the addresses. A
call with a senseless range still keeps the forest, which is what makes the
footprint and the page accounting hold for every range and not only for those
that callers pass.
-/

namespace Sima.Mmu

open Lib

variable {T : Pgtable} {s s' : MmuState} {L L' : Labels}
  {r l p c i n vaddr vaddrEnd : Nat} {x : Place Nat} {E : Fault → Prop}
  {keys keys' : Nat → Prop}
  {g : Nat → Option (Nat × Word) → Option (Nat × Word)}

structure Job where
  effect : Nat → Option (Nat × Word) → Option (Nat × Word)
  /-- Blocks that stick out of the range are split. -/
  splits : Prop
  /-- No entry goes away, and one that was visited is there. -/
  grows : Prop
  /-- A table may lose its last entry. -/
  empties : Prop

/-- The leaves are aligned, and where the job may split them, they can be. -/
structure Ready (T : Pgtable) (J : Job) (s : MmuState) (L : Labels) (r : Nat)
    (keys : Nat → Prop) : Prop where
  leaves : Leaves T s L
  steady : J.splits → ∀ {k}, k < 512 ^ 4 → keys k → Steady T s.mem r k

variable {J : Job}

theorem Ready.mono (h : Ready T J s L r keys) (hk : ∀ k, keys' k → keys k) :
    Ready T J s L r keys' :=
  ⟨h.leaves, fun hs _ hlt hin => h.steady hs hlt (hk _ hin)⟩

theorem Moves.ready (h : Moves T r keys g s L s' L') (hr : L r = some ⟨r, 3, 0⟩)
    (hready : Ready T J s L r keys') (hdisj : ∀ k, keys k → ¬ keys' k) :
    Ready T J s' L' r keys' := by
  refine ⟨h.leaves, fun hs k hlt hin => ?_⟩
  exact (h.outside hr hlt fun hc => hdisj k hc.2 hin).steady (hready.steady hs hlt hin)

theorem Ready.stable {e : Word} (hs : J.splits) (hT : Tree T s L)
    (hp : L p = some x) (hi : i < 512)
    (hslot : slotOf T s.mem x.lvl p i = .leaf e) (hfit : Fits vaddr vaddrEnd)
    (htake : Takes 512 x i (vaddr / 4096)) (h : Ready T J s L x.root
      (fun k => Takes 512 x i k ∧ InRange vaddr vaddrEnd k)) : Stable T e := by
  have h1 := hfit.lt
  have h2 := hfit.start
  have h3 := hfit.below
  have hin : InRange vaddr vaddrEnd (vaddr / 4096) := by
    rw [InRange]
    omega
  refine h.steady hs (by omega) ⟨htake, hin⟩ (l := x.lvl) ?_
  rw [leafOf_end hT hp hi htake (by rw [hslot]; exact trivial), hslot]
  rfl

theorem Moves.stay (hL : Leaves T s L) (h : ∀ {k}, keys k →
    frameOf T s.mem r k = g k (frameOf T s.mem r k)) : Moves T r keys g s L s L :=
  ⟨hL, fun _ hk => h hk, fun _ _ _ => Stays.of_leafOf rfl⟩

/-- What a part of the walk leaves behind; `p` is the table at hand. -/
def Does (T : Pgtable) (J : Job) (r l p : Nat) (pre : Prop) (keys : Nat → Prop)
    (s : MmuState) (L : Labels) (s' : MmuState) : Prop :=
  ∃ L', Step T r l (fun q => J.empties ∧ q = p) s L s' L' ∧
    (J.grows → Grown T s L s' L') ∧
    (pre → Ready T J s L r keys → Moves T r keys J.effect s L s' L')

theorem paddr_of_slot (hslot : slotOf T s.mem l p i = .table c) :
    T.pgtlPagePaddr (s.mem (entryAt p i)) = c := by
  rw [slotOf, classify] at hslot
  split at hslot
  · split at hslot
    · cases hslot
    · injection hslot
  · cases hslot

theorem Tree.root_label (hT : Tree T s L) (hp : L p = some x) : L x.root = some ⟨x.root, 3, 0⟩ :=
  (hT.forest.reach_of_label hp).1

theorem Moves.translate (h : Moves T r (InRange vaddr vaddrEnd) g s L s' L')
    (hT : Tree T s L) (hT' : Tree T s' L') (hL : Leaves T s L)
    (hr : L r = some ⟨r, 3, 0⟩) (hr' : L' r = some ⟨r, 3, 0⟩)
    (hv : vaddr % 4096 = 0) (he : vaddrEnd % 4096 = 0) {va : Nat} (hva : va < 2 ^ 48) :
    translate T s'.mem r va = if vaddr ≤ va ∧ va < vaddrEnd then
        (g (va / 4096) (frameOf T s.mem r (va / 4096))).map fun (f, a) => (f + va % 4096, a)
      else translate T s.mem r va := by
  have hk : va / 4096 < 512 ^ 4 := by omega
  have hin : InRange vaddr vaddrEnd (va / 4096) ↔ vaddr ≤ va ∧ va < vaddrEnd := by
    rw [InRange]
    omega
  rw [translate_eq hT' h.leaves hr' hva]
  split
  · next hcov => rw [h.inside hk (hin.mpr hcov)]
  · next hcov =>
    rw [(h.outside hr hk fun hc => hcov (hin.mp hc.2)).frame, translate_eq hT hL hr hva]

/-! ## One turn of the outer loop -/

theorem takes_root {root k : Nat} : Takes 512 ⟨root, 3, 0⟩ i k ↔ k / 512 ^ 3 = i := by
  simp [Takes]

theorem Fits.takes_root (hfit : Fits vaddr vaddrEnd) :
    Takes 512 ⟨r, 3, 0⟩ (levelIndex 3 vaddr) (vaddr / 4096) := by
  have := hfit.start_lt
  rw [Mmu.takes_root, levelIndex_eq]
  omega

/-- The pages below the entry at hand, then those of the rest of the range. -/
theorem Moves.turn {s₁ : MmuState} {L₁ : Labels} {X : Nat → Prop}
    (hfit : Fits vaddr vaddrEnd) (hl : l ≤ 3) (hr : L r = some ⟨r, 3, 0⟩)
    (hrd : Ready T J s L r (InRange vaddr vaddrEnd)) (hstep : Step T r l X s L s₁ L₁)
    (h : Ready T J s L r (fun k => Takes 512 ⟨r, 3, 0⟩ (levelIndex 3 vaddr) k ∧
        InRange vaddr vaddrEnd k) →
      Moves T r (fun k => Takes 512 ⟨r, 3, 0⟩ (levelIndex 3 vaddr) k ∧
        InRange vaddr vaddrEnd k) g s L s₁ L₁)
    (h' : Ready T J s₁ L₁ r (InRange (vaddrNext 3 vaddr) vaddrEnd) →
      Moves T r (InRange (vaddrNext 3 vaddr) vaddrEnd) g s₁ L₁ s' L') :
    Moves T r (InRange vaddr vaddrEnd) g s L s' L' := by
  have hi := levelIndex_lt 3 vaddr
  have htake := hfit.takes_root (r := r)
  have hkeys : ∀ k, k < 512 ^ 4 → (InRange vaddr vaddrEnd k ↔
      (Takes 512 ⟨r, 3, 0⟩ (levelIndex 3 vaddr) k ∧ InRange vaddr vaddrEnd k) ∨
        InRange (vaddrNext 3 vaddr) vaddrEnd k) := by
    intro k hk
    have hpass : Passes ⟨r, 3, 0⟩ k := root_passes hk
    have := passes_split (k := k) (by simp) hi hfit htake
    simpa only [hpass, true_and] using this
  have hdisj : ∀ k, (Takes 512 ⟨r, 3, 0⟩ (levelIndex 3 vaddr) k ∧
      InRange vaddr vaddrEnd k) → ¬ InRange (vaddrNext 3 vaddr) vaddrEnd k :=
    fun k ht => takes_not_next (x := ⟨r, 3, 0⟩) (by simp) hfit htake ht.1
  have hlt := lt_vaddrNext (l := 3) (by omega) hfit.start_lt
  have hm := h (hrd.mono fun k hk => hk.2)
  have hm' := h' (hm.ready hr (hrd.mono fun k hk =>
    ⟨le_of_lt (lt_of_lt_of_le hlt hk.1), hk.2⟩) hdisj)
  exact (hm.trans hm' hstep hl hr hdisj).congr hkeys

/-! ## One turn, and the loop -/

section Loop

variable {σ : Type} (pos : σ → Nat) (good : σ → Prop)

section

variable (T : Pgtable) (J : Job) (vaddrEnd l : Nat)

/-- What the body of a level loop does with the entry its cursor takes. -/
def Visits (body : Nat → σ → MmuM Unit) : Prop :=
  ∀ ⦃s L p x i cur E⦄, Tree T s L → L p = some x → x.lvl = l → i < 512 →
    Runs s L x.root (body (entryAt p i) cur) s (fun _ s' =>
      Does T J x.root l p
        (Fits (pos cur) vaddrEnd ∧ good cur ∧ Takes 512 x i (pos cur / 4096))
        (fun k => Takes 512 x i k ∧ InRange (pos cur) vaddrEnd k) s L s' ∧
      (J.grows → T.pgentryPresent (s'.mem (entryAt p i)) = true)) E

/-- What a loop over a table does with the pages that pass through it. -/
def Sweeps (loop : Nat → σ → MmuM Unit) : Prop :=
  ∀ ⦃s L p x cur E⦄, Tree T s L → L p = some x → x.lvl = l →
    Runs s L x.root (loop p cur) s (fun _ s' =>
      Does T J x.root l p
        (Fits (pos cur) vaddrEnd ∧ good cur ∧ Passes x (pos cur / 4096))
        (fun k => Passes x k ∧ InRange (pos cur) vaddrEnd k) s L s' ∧
      (J.grows → ¬ Bare T s'.mem p)) E

/-- What a function that goes down an entry of a level-`l` table does. -/
def Descends (descend : Nat → σ → MmuM Unit) : Prop :=
  ∀ ⦃s L p c x i cur E⦄, Tree T s L → L p = some x → x.lvl = l → i < 512 →
    slotOf T s.mem l p i = .table c →
    Runs s L x.root (descend (entryAt p i) cur) s (fun _ s' =>
      Does T J x.root l p
        (Fits (pos cur) vaddrEnd ∧ good cur ∧ Takes 512 x i (pos cur / 4096))
        (fun k => Takes 512 x i k ∧ InRange (pos cur) vaddrEnd k) s L s' ∧
      (J.grows → ¬ Bare T s'.mem c)) E

end

variable {pos good} {body : Nat → σ → MmuM Unit} {next : σ → σ}
  {reached : σ → Bool}

section

variable {cur : σ} (hbody : Visits pos good T J vaddrEnd l body) (hl : l ≤ 3)
  (hnext : ∀ cur, Fits (pos cur) vaddrEnd → good cur →
    pos (next cur) = vaddrNext l (pos cur) ∧ good (next cur))
  (hreached : ∀ cur, reached cur = decide (vaddrEnd ≤ pos cur))

include hbody hl hnext hreached

theorem tableLoop_runs (hT : Tree T s L) (hp : L p = some x) (hx : x.lvl = l) (hn : i + n = 512) :
    Runs s L x.root (tableLoop body next reached p n i cur) s (fun _ s' =>
      Does T J x.root l p (Fits (pos cur) vaddrEnd ∧ good cur ∧ Takes 512 x i (pos cur / 4096))
        (fun k => Passes x k ∧ InRange (pos cur) vaddrEnd k) s L s' ∧
      (0 < n → J.grows → T.pgentryPresent (s'.mem (entryAt p i)) = true)) E := by
  induction n generalizing i cur s L with
  | zero =>
    have hi : i = 512 := by omega
    subst hi
    refine .ret ⟨⟨L, Step.refl hT, fun _ => Grown.refl, ?_⟩, fun h => absurd h (by omega)⟩
    rintro ⟨_, _, htake⟩ hrd
    exact .refl hrd.leaves fun k _ => passes_end htake
  | succ n ih =>
    have hi : i < 512 := by omega
    subst hx
    refine .bind (hbody hT hp rfl hi) ?_
    rintro _ s₁ ⟨⟨L₁, hstep, hgrow, hmoves⟩, hpres⟩
    split
    · next hre =>
      refine .ret ⟨⟨L₁, hstep, hgrow, ?_⟩, fun _ => hpres⟩
      rintro ⟨hfit, hgood, htake⟩ hrd
      rw [hreached, decide_eq_true_eq, (hnext _ hfit hgood).1] at hre
      have hkeys : ∀ k, (Passes x k ∧ InRange (pos cur) vaddrEnd k) ↔
          (Takes 512 x i k ∧ InRange (pos cur) vaddrEnd k) := fun k =>
        passes_last (by omega) hi hfit htake hre
      exact (hmoves ⟨hfit, hgood, htake⟩
        (hrd.mono fun k hk => (hkeys k).mpr hk)).congr fun k _ => hkeys k
    rename_i hre
    have hp₁ := hstep.label hp le_rfl
    refine (ih hstep.tree hp₁ (by omega)).mono hstep.ownedWord (fun _ => id) ?_
    rintro _ s₂ ⟨⟨L₂, hstep', hgrow', hmoves'⟩, _⟩
    refine ⟨⟨L₂, hstep.trans hstep', fun hg => (hgrow hg).trans (hgrow' hg), ?_⟩,
      fun _ hg => (hgrow' hg).entries hp₁ hi (hpres hg)⟩
    rintro ⟨hfit, hgood, htake⟩ hrd
    obtain ⟨hpos, hgood'⟩ := hnext _ hfit hgood
    rw [hreached, decide_eq_true_eq] at hre
    rw [hpos] at hmoves'
    -- the pages in the entry at hand, and those after it
    have hkeys : ∀ k, (Passes x k ∧ InRange (pos cur) vaddrEnd k) ↔ _ :=
      fun k => passes_split (by omega) hi hfit htake
    have hdisj : ∀ k, (Takes 512 x i k ∧ InRange (pos cur) vaddrEnd k) →
        ¬ (Passes x k ∧ InRange (vaddrNext x.lvl (pos cur)) vaddrEnd k) :=
      fun k ht hr => takes_not_next (by omega) hfit htake ht.1 hr.2
    have hroot := hT.root_label hp
    have h₁ := hmoves ⟨hfit, hgood, htake⟩ (hrd.mono fun k hk => (hkeys k).mpr (.inl hk))
    have h₂ := hmoves' ⟨hfit.next (by omega) (by omega), hgood',
        takes_next (by omega) hfit htake⟩
      (h₁.ready hroot (hrd.mono fun k hk => (hkeys k).mpr (.inr hk)) hdisj)
    exact (h₁.trans h₂ hstep (by omega) hroot hdisj).congr fun k _ => hkeys k

theorem tableLoop_sweeps :
    Sweeps pos good T J vaddrEnd l fun page cur =>
      tableLoop body next reached page (512 - levelIndex l (pos cur))
        (levelIndex l (pos cur)) cur := by
  intro s L p x cur E hT hp hx
  have hi := levelIndex_lt l (pos cur)
  refine .post_mono (tableLoop_runs hbody hl hnext hreached hT hp hx (by omega)) ?_
  rintro _ s' ⟨⟨L', hstep, hgrow, hmoves⟩, hpres⟩
  refine ⟨⟨L', hstep, hgrow, fun ⟨hfit, hgood, hpass⟩ hrd =>
    hmoves ⟨hfit, hgood, ?_⟩ hrd⟩, fun hg hbare => ?_⟩
  · rw [levelIndex_eq, ← hx]
    exact takes_digit (by omega) hpass
  · have := hpres (by omega) hg
    rw [hbare _ hi] at this
    cases this

end

end Loop

end Sima.Mmu
