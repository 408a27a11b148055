import Sima.Mmu.Edit

/-!
# Running the primitives

The programs of core/mmu.c below the level loops, one rule each. Every rule has
the same shape: from a tree, the program touches only pages the call owns, and
if no assertion fails it ends in a state that one of the edits describes.

The failing assertion of `alloc_page` is where these rules stop promising
anything. Past it a release build continues on the dummy page or panics; a
debug build has halted.
-/

namespace Sima.Mmu

open Lib Sat

variable {T : Pgtable} {s s₀ : MmuState} {L L₀ : Labels} {r l p c i n : Nat} {x : Place Nat}
  {α : Type} {E : Fault → Prop} {g : Nat → Option (Nat × Word) → Option (Nat × Word)}
  {Q : α → MmuState → Prop}

/-- The judgement for a call on the tree at `r` that began in `s₀`. -/
abbrev Runs (s₀ : MmuState) (L₀ : Labels) (r : Nat) (m : MmuM α) (s : MmuState)
    (Q : α → MmuState → Prop) (E : Fault → Prop) : Prop :=
  Sat (fun t => t = Event.assertFailed) (OwnedWord s₀ L₀ r) m s Q E

theorem ownedWord_access (ho : Owned s₀ L₀ r p) (hi : i < 512) :
    OwnedWord s₀ L₀ r (.access (entryAt p i)) := by
  intro a ha
  injection ha with ha
  exact ⟨p, i, hi, ha.symm, ho⟩

theorem owned_label (hp : L p = some x) : Owned s L x.root p := .inl ⟨x, hp, rfl⟩

variable (ho : Owned s₀ L₀ r p) {w : Word} {P : Nat}

include ho

theorem readEntry_bind {f : Word → MmuM α} (hi : i < 512)
    (h : Runs s₀ L₀ r (f (s.mem (entryAt p i))) s Q E) :
    Runs s₀ L₀ r (readEntry (entryAt p i) >>= f) s Q E := by
  have hread : Runs s₀ L₀ r (readEntry (entryAt p i)) s
      (fun w s' => w = s.mem (entryAt p i) ∧ s' = s) E := by
    refine bind (P := fun _ s' => s' = s) (emit (ownedWord_access ho hi) rfl) ?_
    intro _ s' hs
    subst hs
    exact look ⟨rfl, rfl⟩
  refine bind hread ?_
  rintro w s' ⟨hw, hs⟩
  subst hw hs
  exact h

theorem writeEntry_runs {Q : Unit → MmuState → Prop} (hi : i < 512)
    (h : Q () (s.write (entryAt p i) w)) : Runs s₀ L₀ r (writeEntry (entryAt p i) w) s Q E := by
  refine bind (P := fun _ s' => s' = s) (emit (ownedWord_access ho hi) rfl) ?_
  intro _ s' hs
  subst hs
  exact change h

theorem writeEntry_bind {f : Unit → MmuM α} (hi : i < 512)
    (h : Runs s₀ L₀ r (f ()) (s.write (entryAt p i) w) Q E) :
    Runs s₀ L₀ r (writeEntry (entryAt p i) w >>= f) s Q E := by
  refine bind (writeEntry_runs (Q := fun _ s' => s' = s.write (entryAt p i) w) ho hi rfl) ?_
  intro _ s' hs
  subst hs
  exact h

omit ho

/-! ## Fresh tables -/

theorem sanitizeFrom_runs (ho : Owned s₀ L₀ r c) (hn : i + n = 512) :
    Runs s₀ L₀ r (sanitizeFrom T c n i) s (fun _ s' => s'.pool = s.pool ∧
      Filled (fun _ => T.sanitizedPageHpa) c i s.mem s'.mem) E := by
  induction n generalizing i s with
  | zero =>
    have hi : i = 512 := by omega
    subst hi
    exact ret ⟨rfl, Filled.full⟩
  | succ n ih =>
    refine writeEntry_bind ho (by omega) ?_
    refine post_mono (ih (by omega)) ?_
    rintro _ s' ⟨hpool, hfill⟩
    exact ⟨hpool, Filled.cons (by omega) hfill⟩

theorem allocPage_runs (ho : ∀ {c}, s.pool.Free c → Owned s₀ L₀ r c) :
    Runs s₀ L₀ r (allocPage T) s (fun c s' => s.pool.Free c ∧
      (∀ q, s'.pool.Allocated q ↔ s.pool.Allocated q ∨ q = c) ∧ s.pool.SameRegion s'.pool ∧
      Filled (fun _ => T.sanitizedPageHpa) c 0 s.mem s'.mem) E := by
  refine bind (P := fun got s' => got = s.pool.take ∧ s' = s) (look ⟨rfl, rfl⟩) ?_
  rintro got s' ⟨hgot, hs⟩
  subst hs
  cases got with
  | none =>
    refine bind (P := fun _ _ => False) (emit_stop rfl) ?_
    intro _ _ hf
    exact hf.elim
  | some res =>
    obtain ⟨page, pool⟩ := res
    obtain ⟨hfree, halloc, hregion⟩ := PagePool.take_spec hgot.symm
    refine bind (P := fun _ s'' => s'' = { s' with pool := pool }) (change rfl) ?_
    intro _ s'' hs
    subst hs
    refine bind (sanitizeFrom_runs (ho hfree) rfl) ?_
    rintro _ s₁ ⟨hpool, hfill⟩
    refine ret ⟨hfree, ?_, ?_, hfill⟩
    · rw [hpool]
      exact halloc
    · rw [hpool]
      exact hregion

theorem allocPage_bind {f : Nat → MmuM α} (ho : ∀ {c}, s.pool.Free c → Owned s₀ L₀ r c)
    (h : ∀ c s', s.pool.Free c → (∀ q, s'.pool.Allocated q ↔ s.pool.Allocated q ∨ q = c) →
      s.pool.SameRegion s'.pool → Filled (fun _ => T.sanitizedPageHpa) c 0 s.mem s'.mem →
      Runs s₀ L₀ r (f c) s' Q E) : Runs s₀ L₀ r (allocPage T >>= f) s Q E :=
  bind (allocPage_runs ho) fun c s' ⟨h1, h2, h3, h4⟩ => h c s' h1 h2 h3 h4

/-- Hanging in a wiped table leaves translation alone. The new table is bare
and it is up to the caller to put something into it. -/
theorem linkNewTable_runs (hT : Tree T s L) (hp : L p = some x) (hi : i < 512) (hx : 0 < x.lvl)
    (hold : T.pgentryPresent (s.mem (entryAt p i)) = false) :
    Runs s L x.root (linkNewTable T (entryAt p i) x.lvl) s (fun _ s' => ∃ c L',
      Step T x.root x.lvl (fun q => q = c) s L s' L' ∧ Grown T s L s' L' ∧
      L' c = some (x.child 512 i) ∧ slotOf T s'.mem x.lvl p i = .table c ∧
      (Leaves T s L → Moves T x.root (fun _ => False) g s L s' L')) E := by
  have hslot : slotOf T s.mem x.lvl p i = .empty := classify_absent hold
  have hend : (slotOf T s.mem x.lvl p i).Ends := by rw [hslot]; exact trivial
  refine allocPage_bind (fun hc => .inr hc) ?_
  intro c s₁ hfree halloc hregion hfill
  refine writeEntry_runs (owned_label hp) hi ?_
  have hung : Hung T s p i x.lvl c (fun _ => T.sanitizedPageHpa)
      (s₁.write (entryAt p i) (T.setPgentry c 0 x.lvl false)) :=
    ⟨hfree, halloc, hregion, s₁.mem, hfill, rfl⟩
  have hv : ∀ j < 512, (classify T (x.lvl - 1) T.sanitizedPageHpa).Ends ∧
      Sound T T.sanitizedPageHpa := by
    intro j _
    rw [classify_sanitized]
    exact ⟨trivial, sound_sanitized⟩
  refine ⟨c, _, (hung.step hT hp hi hx hend hv).mono le_rfl
    (fun q hq => hq.1), hung.grown hT hp hi hold, Function.update_self ..,
    hung.entry hx, fun hL => ?_⟩
  refine hung.moves hT hp hi hx hend hv hL ?_ ?_
  · intro j _ e he
    rw [classify_sanitized] at he
    cases he
  · intro k _
    rw [classify_sanitized, hslot]
    rfl

/-! ## Splitting a block -/

theorem splitFrom_runs (ho : Owned s₀ L₀ r c) {inc paddr : Nat} {prot : Word} (hn : i + n = 512) :
    Runs s₀ L₀ r (splitFrom T c l inc prot n i (add64 paddr (i * inc))) s
      (fun _ s' => s'.pool = s.pool ∧
        Filled (fun j => T.setPgentry (add64 paddr (j * inc)) prot l true)
          c i s.mem s'.mem) E := by
  induction n generalizing i s with
  | zero =>
    have hi : i = 512 := by omega
    subst hi
    exact ret ⟨rfl, Filled.full⟩
  | succ n ih =>
    have hacc : add64 (add64 paddr (i * inc)) inc = add64 paddr ((i + 1) * inc) := by
      simp only [add64, Nat.succ_mul]
      omega
    rw [splitFrom, hacc]
    refine writeEntry_bind ho (by omega) ?_
    refine post_mono (ih (by omega)) ?_
    rintro _ s' ⟨hpool, hfill⟩
    exact ⟨hpool, Filled.cons (by omega) hfill⟩

theorem Filled.trans {v v' : Nat → Word} {mem mem₁ mem₂ : Nat → Word}
    (h : Filled v c i mem mem₁) (h' : Filled v' c i mem₁ mem₂) : Filled v' c i mem mem₂ := by
  refine ⟨h'.here, fun a ha => ?_⟩
  rw [h'.there a ha, h.there a ha]

theorem add_levelSize_le (hl : l ≤ 2) (hP : P % levelSize l = 0) (hlt : P < 2 ^ 48) :
    P + levelSize l ≤ 2 ^ 48 := by
  have hcases : l = 0 ∨ l = 1 ∨ l = 2 := by omega
  rcases hcases with rfl | rfl | rfl <;> simp only [levelSize] at hP ⊢ <;> omega

theorem piece_addr {j : Nat} (hl : 0 < l) (hl2 : l ≤ 2) (hP : P % levelSize l = 0)
    (hlt : P < 2 ^ 48) (hj : j < 512) :
    add64 P (j * levelSize (l - 1)) = P + j * levelSize (l - 1) ∧
      P + j * levelSize (l - 1) < 2 ^ 48 ∧ (P + j * levelSize (l - 1)) % levelSize (l - 1) = 0 ∧
      (P + j * levelSize (l - 1)) % 4096 = 0 := by
  have htop := add_levelSize_le hl2 hP hlt
  have hcases : l = 1 ∨ l = 2 := by omega
  rcases hcases with rfl | rfl <;> simp only [levelSize, add64] at hP htop ⊢ <;> omega

theorem piece_offset (hl : 0 < l) (k : Nat) :
    k / 512 ^ (l - 1) % 512 * levelSize (l - 1) + k % 512 ^ (l - 1) * 4096 =
      k % 512 ^ l * 4096 := by
  obtain ⟨m, rfl⟩ : ∃ m, l = m + 1 := ⟨l - 1, by omega⟩
  rw [Nat.add_sub_cancel, Nat.mod_pow_succ, levelSize, add_mul, add_comm]
  congr 1
  rw [mul_comm (512 ^ m), mul_assoc, mul_comm 4096]

/-- Splitting a block changes the tables and not what they say. -/
theorem splitLargePage_runs (hT : Tree T s L) (hp : L p = some x) (hi : i < 512)
    (hx : 0 < x.lvl) (hx2 : x.lvl ≤ 2) {e : Word} (hslot : slotOf T s.mem x.lvl p i = .leaf e) :
    Runs s L x.root (splitLargePage T (entryAt p i) x.lvl) s (fun _ s' => ∃ c L',
      Step T x.root x.lvl (fun _ => False) s L s' L' ∧
      L' c = some (x.child 512 i) ∧ slotOf T s'.mem x.lvl p i = .table c ∧
      (Leaves T s L → Stable T e → Moves T x.root (fun _ => False) g s L s' L')) E := by
  have hend : (slotOf T s.mem x.lvl p i).Ends := by rw [hslot]; exact trivial
  obtain ⟨he, hpres, -⟩ := classify_eq_leaf hslot
  have hprot := (hT.ends hp hi hend).leaf hpres
  rw [← he] at hprot
  have hP := T.paddr_page e
  refine readEntry_bind (owned_label hp) hi ?_
  rw [← he]
  refine allocPage_bind (fun hc => .inr hc) ?_
  intro c s₁ hfree halloc hregion hfill
  have hstart : T.pfn2paddr (e &&& T.pfnMask) =
      add64 (T.pgtlPagePaddr e) (0 * levelSize (x.lvl - 1)) := by
    rw [T.pfn2paddr_mask, add64]
    omega
  rw [hstart]
  refine bind (splitFrom_runs (.inr hfree) rfl) ?_
  rintro _ s₂ ⟨hpool, hfill'⟩
  refine writeEntry_runs (owned_label hp) hi ?_
  have hung : Hung T s p i x.lvl c
      (fun j => T.setPgentry (add64 (T.pgtlPagePaddr e) (j * levelSize (x.lvl - 1)))
        (e &&& ~~~ T.pfnMask) (x.lvl - 1) true)
      (s₂.write (entryAt p i) (T.setPgentry c 0 x.lvl false)) := by
    refine ⟨hfree, ?_, ?_, s₂.mem, hfill.trans hfill', rfl⟩
    · rw [write_pool, hpool]
      exact halloc
    · rw [write_pool, hpool]
      exact hregion
  have hpiece : ∀ a, classify T (x.lvl - 1)
      (T.setPgentry a (e &&& ~~~ T.pfnMask) (x.lvl - 1) true) =
        .leaf (T.setPgentry a (e &&& ~~~ T.pfnMask) (x.lvl - 1) true) :=
    fun a => classify_setPgentry_leaf hprot a (by omega)
  have hv : ∀ j < 512, (classify T (x.lvl - 1)
      (T.setPgentry (add64 (T.pgtlPagePaddr e) (j * levelSize (x.lvl - 1)))
        (e &&& ~~~ T.pfnMask) (x.lvl - 1) true)).Ends ∧
      Sound T (T.setPgentry (add64 (T.pgtlPagePaddr e)
        (j * levelSize (x.lvl - 1))) (e &&& ~~~ T.pfnMask) (x.lvl - 1) true) := by
    intro j _
    rw [hpiece]
    exact ⟨trivial, sound_setPgentry_leaf hprot _ _⟩
  refine ⟨c, _, (hung.step hT hp hi hx hend hv).mono le_rfl ?_,
    Function.update_self .., hung.entry hx, fun hL hst => ?_⟩
  · rintro q ⟨_, hbare⟩
    have habs := hbare 0 (by omega)
    rw [hung.fresh hT hp hi (by omega), (T.leaf_entry _ _ hprot).1] at habs
    cases habs
  have hal := hL hp hi hslot
  refine hung.moves hT hp hi hx hend hv hL ?_ ?_
  · intro j hj e' he'
    obtain ⟨ha, hlt, hpal, hal0⟩ := piece_addr hx hx2 hal hP.2 hj
    rw [hpiece, ha] at he'
    injection he' with he'
    subst he'
    obtain ⟨haddr, -, hagain⟩ := T.leaf_encodes (x.lvl - 1) hprot hal0 hlt
    exact ⟨by rw [haddr]; exact hpal, hagain⟩
  · intro k _
    have hj := Nat.mod_lt (k / 512 ^ (x.lvl - 1)) (show 0 < 512 by omega)
    obtain ⟨ha, hlt, -, hal0⟩ := piece_addr hx hx2 hal hP.2 hj
    obtain ⟨haddr, hattr, -⟩ := T.leaf_encodes (x.lvl - 1) hprot hal0 hlt
    rw [hpiece, hslot, ha]
    simp only [endFrame_leaf, leafFrame, haddr, hattr]
    rw [hst, add_assoc, piece_offset hx]

/-! ## Giving an empty table back -/

theorem firstPresent_runs (ho : Owned s₀ L₀ r c) (hn : i + n = 512) :
    Runs s₀ L₀ r (firstPresent T c n i) s (fun index s' => s' = s ∧
      ((index = 512 ∧ ∀ j, i ≤ j → j < 512 → T.pgentryPresent (s.mem (entryAt c j)) = false) ∨
        (index < 512 ∧ T.pgentryPresent (s.mem (entryAt c index)) = true))) E := by
  induction n generalizing i with
  | zero => exact ret ⟨rfl, .inl ⟨by omega, fun j h h' => absurd h (by omega)⟩⟩
  | succ n ih =>
    refine readEntry_bind ho (by omega) ?_
    split
    · next h => exact ret ⟨rfl, .inr ⟨by omega, h⟩⟩
    rename_i h
    refine post_mono (ih (by omega)) ?_
    rintro index s' ⟨hs, hres⟩
    refine ⟨hs, ?_⟩
    rcases hres with ⟨h512, hall⟩ | hfound
    · refine .inl ⟨h512, fun j hij hj => ?_⟩
      rcases eq_or_lt_of_le hij with rfl | hlt
      · simpa using h
      · exact hall j hlt hj
    · exact .inr hfound

/-- After `try_to_free_pgtable_page` the table is not there or not bare. -/
theorem tryToFree_runs (hT : Tree T s L) (hp : L p = some x) (hi : i < 512)
    (hslot : slotOf T s.mem x.lvl p i = .table c) {type : MrType} :
    Runs s L x.root (tryToFreePgtablePage T type (entryAt p i) c) s (fun _ s' =>
      ∃ L', Step T x.root x.lvl (fun q => type = .del ∧ q = p) s L s' L' ∧
      (type = .del → ∀ y, L' c = some y → ¬ Bare T s'.mem c) ∧
      (Leaves T s L → Moves T x.root (fun _ => False) g s L s' L')) E := by
  obtain ⟨-, hc⟩ := hT.forest.table hp hi hslot
  rw [tryToFreePgtablePage]
  split
  · next hdel =>
    refine bind (firstPresent_runs (.inl ⟨_, hc, rfl⟩) rfl) ?_
    rintro index s' ⟨hs, hres⟩
    subst hs
    rcases hres with ⟨h512, hall⟩ | ⟨hlt, hpres⟩
    · have hbare : Bare T s'.mem c := fun j hj => hall j (Nat.zero_le j) hj
      rw [if_pos h512]
      refine bind (P := fun _ s'' => s'' = { s' with pool := s'.pool.give c }) (change rfl) ?_
      intro _ s'' hs
      subst hs
      refine writeEntry_runs (owned_label hp) hi ⟨_,
        (Step.cut hT hp hi hslot hbare).mono le_rfl
          (fun q hq => ⟨hdel, hq⟩), ?_, Moves.cut hT hp hi hslot hbare⟩
      intro _ y hy
      rw [Function.update_self] at hy
      cases hy
    · rw [if_neg (by omega)]
      refine ret ⟨L, Step.refl hT, ?_, fun hL => Moves.refl hL (by simp)⟩
      intro _ y _ hbare
      rw [hbare index hlt] at hpres
      cases hpres
  · next hdel =>
    exact ret ⟨L, Step.refl hT, fun h => absurd h hdel, fun hL => Moves.refl hL (by simp)⟩

/-! ## Changing a leaf -/

/-- The word that `local_modify_or_del_pte` leaves. -/
def Change.word (T : Pgtable) (ch : Change) (e : Word) : Word :=
  match ch.type with
  | .modify => e &&& ~~~ ch.protClr ||| ch.protSet
  | .del => T.sanitizedPageHpa

/-- What a change does to a frame. -/
def Change.frame (ch : Change) (f : Option (Nat × Word)) : Option (Nat × Word) :=
  match ch.type with
  | .modify => f.map fun (a, attrs) => (a, attrs &&& ~~~ ch.protClr ||| ch.protSet)
  | .del => none

/-- The bits a modification may touch. -/
def Change.Ok (T : Pgtable) (ch : Change) : Prop :=
  ch.type = .modify → T.ModOk ch.protSet ch.protClr

variable {ch : Change} {e : Word}

theorem localModifyOrDelPte_runs {Q : Unit → MmuState → Prop} (ho : Owned s₀ L₀ r p) (hi : i < 512)
    (h : Q () (s.write (entryAt p i) (ch.word T (s.mem (entryAt p i))))) :
    Runs s₀ L₀ r (localModifyOrDelPte T ch (entryAt p i)) s Q E := by
  rw [localModifyOrDelPte]
  rw [Change.word] at h
  split
  · next hty =>
    simp only [hty] at h
    exact readEntry_bind ho hi (writeEntry_runs ho hi h)
  · next hty =>
    simp only [hty] at h
    exact writeEntry_runs ho hi h

theorem Change.word_leaf (hok : ch.Ok T) (hslot : classify T l e = .leaf e) (hs : Sound T e) :
    (ch.type = .modify ∧ classify T l (ch.word T e) = .leaf (ch.word T e) ∧
        T.pgentryPresent (ch.word T e) = true ∨
      ch.type = .del ∧ ch.word T e = T.sanitizedPageHpa) ∧ Sound T (ch.word T e) := by
  obtain ⟨-, hpres, hl⟩ := classify_eq_leaf hslot
  cases hty : ch.type with
  | del =>
    simp only [Change.word, hty]
    exact ⟨.inr ⟨trivial, trivial⟩, sound_sanitized⟩
  | modify =>
    simp only [Change.word, hty]
    obtain ⟨hp, hlarge, hprot⟩ := T.modify_leaf (hok hty) hpres (hs.leaf hpres)
    refine ⟨.inl ⟨trivial, classify_leaf hp ?_, hp⟩, ?_, fun _ => hprot⟩
    · rw [hlarge]
      exact hl
    · intro habs
      rw [hp] at habs
      cases habs

section ChangeLeaf

variable (hok : ch.Ok T) (hT : Tree T s L) (hp : L p = some x) (hi : i < 512)
  (hslot : slotOf T s.mem x.lvl p i = .leaf e)

include hok hT hp hi hslot

theorem Step.change_leaf : Step T r l (fun q => ch.type = .del ∧ q = p) s L
    (s.write (entryAt p i) (ch.word T (s.mem (entryAt p i)))) L := by
  obtain ⟨he, -, -⟩ := classify_eq_leaf hslot
  have hend : (slotOf T s.mem x.lvl p i).Ends := by rw [hslot]; exact trivial
  have hs := hT.ends hp hi hend
  have hcl : classify T x.lvl (s.mem (entryAt p i)) = .leaf e := hslot
  rw [← he] at hs hcl ⊢
  obtain ⟨hcase, hsound⟩ := Change.word_leaf hok hcl hs
  have hnew : (classify T x.lvl (ch.word T e)).Ends := by
    rcases hcase with ⟨-, h, -⟩ | ⟨-, h⟩
    · rw [h]; exact trivial
    · rw [h, classify_sanitized]; exact trivial
  refine (Step.write_end hT hp hi hend hnew hsound).mono le_rfl ?_
  rintro q ⟨hqp, habs⟩
  rcases hcase with ⟨-, -, h⟩ | ⟨hdel, -⟩
  · rw [h] at habs
    cases habs
  · exact ⟨hdel, hqp⟩

theorem Moves.change_leaf (hL : Leaves T s L) :
    Moves T x.root (Takes 512 x i) (fun _ => ch.frame) s L
      (s.write (entryAt p i) (ch.word T (s.mem (entryAt p i)))) L := by
  obtain ⟨he, -, -⟩ := classify_eq_leaf hslot
  have hend : (slotOf T s.mem x.lvl p i).Ends := by rw [hslot]; exact trivial
  have hs := hT.ends hp hi hend
  have hleaf := hL hp hi hslot
  have hcl : classify T x.lvl (s.mem (entryAt p i)) = .leaf e := hslot
  rw [← he] at hs hcl ⊢
  obtain ⟨hcase, hsound⟩ := Change.word_leaf hok hcl hs
  rcases hcase with ⟨hmod, h, -⟩ | ⟨hdel, h⟩
  · have hw : ch.word T e = e &&& ~~~ ch.protClr ||| ch.protSet := by simp only [Change.word, hmod]
    obtain ⟨haddr, hattr⟩ := T.modify_encodes e (hok hmod)
    refine .write_end hT hp hi hend (by rw [h]; exact trivial) hsound hL ?_ ?_
    · intro e' he'
      rw [h] at he'
      injection he' with he'
      subst he'
      rw [hw]
      rw [haddr]
      exact hleaf
    · intro k _
      rw [h, hslot, hw]
      simp [endFrame_leaf, leafFrame, Change.frame, hmod, haddr, hattr]
  · refine .write_end hT hp hi hend
      (by rw [h, classify_sanitized]; exact trivial) hsound hL ?_ ?_
    · intro e' he'
      rw [h, classify_sanitized] at he'
      cases he'
    · intro k _
      rw [h, classify_sanitized]
      simp only [endFrame_empty, Change.frame, hdel]

end ChangeLeaf

end Sima.Mmu
