import Sima.Mmu.AddMap

/-!
# Modify and delete

`pgtable_modify_or_del_map` changes the frames of a range or takes them away. On
the way down it splits the blocks that stick out of the range, and with
`MR_DEL`, on the way up, it gives back the tables it has emptied.

The outer loop trusts its caller: it goes down a top-level entry without asking
whether there is anything below it. `MR_MODIFY` at least asserts that there is.
`MR_DEL` takes the address bits of whatever the entry holds — on ARM64, zero —
for a table.
-/

namespace Sima.Mmu

open Lib

variable {T : Pgtable} {s : MmuState} {L : Labels} {ch : Change}
  {r l p c i n vaddr vaddrEnd : Nat} {x : Place Nat} {E : Fault → Prop}
  {descend : Nat → Nat → MmuM Unit}

def Change.job (ch : Change) : Job where
  effect := fun _ => ch.frame
  splits := True
  grows := False
  empties := ch.type = .del

/-- The range is all there is to a cursor. -/
abbrev ModVisits := Visits (σ := Nat) (fun v => v) (fun _ => True)
abbrev ModSweeps := Sweeps (σ := Nat) (fun v => v) (fun _ => True)
abbrev ModDescends := Descends (σ := Nat) (fun v => v) (fun _ => True)

/-! ## Entries at which the walk ends -/

theorem does_absent (hT : Tree T s L) (hp : L p = some x) (hi : i < 512)
    (habs : T.pgentryPresent (s.mem (entryAt p i)) = false) (pre : Prop) :
    Does T ch.job x.root l p pre (fun k => Takes 512 x i k ∧ InRange vaddr vaddrEnd k) s L s := by
  refine ⟨L, Step.refl hT, fun hg => hg.elim, fun _ hrd => ?_⟩
  refine .stay hrd.leaves ?_
  rintro k ⟨htake, _⟩
  have hslot : slotOf T s.mem x.lvl p i = .empty := classify_absent habs
  rw [frameOf_end hT hp hi htake (by rw [hslot]; exact trivial), hslot]
  cases hty : ch.type <;> simp [Change.job, Change.frame, hty]

theorem does_leaf (hok : ch.Ok T) (hT : Tree T s L) (hp : L p = some x)
    (hi : i < 512) {e : Word} (hslot : slotOf T s.mem x.lvl p i = .leaf e)
    (hcov : Fits vaddr vaddrEnd → vaddr % levelSize x.lvl = 0 ∧ vaddrNext x.lvl vaddr ≤ vaddrEnd) :
    Does T ch.job x.root l p (Fits vaddr vaddrEnd ∧ True ∧ Takes 512 x i (vaddr / 4096))
      (fun k => Takes 512 x i k ∧ InRange vaddr vaddrEnd k) s L
      (s.write (entryAt p i) (ch.word T (s.mem (entryAt p i)))) := by
  refine ⟨L, Step.change_leaf hok hT hp hi hslot, fun hg => hg.elim, ?_⟩
  rintro ⟨hfit, _, htake⟩ hrd
  obtain ⟨halign, hle⟩ := hcov hfit
  refine (Moves.change_leaf hok hT hp hi hslot hrd.leaves).congr fun k _ => ?_
  exact and_iff_left_of_imp fun ht => takes_covered (hT.forest.le_top hp) hfit htake halign hle ht

/-! ## Level 0 -/

theorem modifyOrDelPgtl0Entry_visits (hok : ch.Ok T) :
    ModVisits T ch.job vaddrEnd 0 fun e _ => modifyOrDelPgtl0Entry T ch e := by
  intro s L p x i vaddr E hT hp hx hi
  refine readEntry_bind (owned_label hp) hi ?_
  split
  · next hpres =>
    have hslot : slotOf T s.mem x.lvl p i = .leaf (s.mem (entryAt p i)) :=
      classify_leaf hpres (.inl hx)
    refine localModifyOrDelPte_runs (owned_label hp) hi
      ⟨does_leaf hok hT hp hi hslot ?_, fun hg => hg.elim⟩
    rw [hx]
    exact Fits.page
  · next habs => exact .ret ⟨does_absent hT hp hi (by simpa using habs) _, fun hg => hg.elim⟩

/-! ## Going down an entry -/

/-- The frame of `modify_or_del_pgtl0` and `modify_or_del_pgtl1`: sweep the
table below the entry, then give it back if nothing is left in it. -/
theorem descends_of_sweeps {loop : Nat → Nat → MmuM Unit}
    (h : ModSweeps T ch.job vaddrEnd l loop) (hl : l ≤ 2) :
    ModDescends T ch.job vaddrEnd (l + 1) (fun pgte vaddr => do
      let e ← readEntry pgte
      loop (T.pgtlPagePaddr e) vaddr
      tryToFreePgtablePage T ch.type pgte (T.pgtlPagePaddr e)) := by
  intro s L p c x i vaddr E hT hp hx hi hslot
  rw [← hx] at hslot
  obtain ⟨hpos, hc⟩ := hT.forest.table hp hi hslot
  refine readEntry_bind (owned_label hp) hi ?_
  rw [paddr_of_slot hslot]
  have hchild : (x.child 512 i).lvl = l := by
    simp only [Place.child]
    omega
  refine .bind (@h s L c (x.child 512 i) vaddr E hT hc hchild) ?_
  rintro _ s₁ ⟨⟨L₁, hstep, _, hmoves⟩, _⟩
  -- the table and the entry that points to it are still in place
  have hp₁ := hstep.label hp (by omega)
  have hc₁ := hstep.label hc (by omega)
  have hslot₁ := hstep.tree.forest.slot_of_child hp₁ hi hpos hc₁
  refine (tryToFree_runs (g := ch.job.effect) hstep.tree hp₁ hi hslot₁).mono
    hstep.ownedWord (fun _ => id) ?_
  rintro _ s₂ ⟨L₂, hstep', hfreed, hmoves'⟩
  rw [hx] at hstep'
  have hsettled : ∀ {q y}, ch.job.empties ∧ q = c → L₂ q = some y →
      Bare T s₂.mem q → ch.job.empties ∧ q = p := by
    rintro q y ⟨hdel, hqc⟩ hq hb
    subst hqc
    exact absurd hb (hfreed hdel y hq)
  refine ⟨⟨L₂, (hstep.mono (by omega) fun _ => id).trans_of hstep' hsettled,
    fun hg => hg.elim, ?_⟩, fun hg => hg.elim⟩
  rintro ⟨hfit, _, htake⟩ hrd
  have h₁ := hmoves ⟨hfit, trivial, (passes_child hpos).mpr htake⟩
    (hrd.mono fun k hk => ⟨(passes_child hpos).mp hk.1, hk.2⟩)
  have h₂ := hmoves' h₁.leaves
  refine (h₁.trans h₂ hstep (by omega) (hT.root_label hc) (by simp)).congr ?_
  intro k _
  rw [passes_child hpos]
  simp

theorem modifyOrDelPgtl0_descends (hok : ch.Ok T) :
    ModDescends T ch.job vaddrEnd 1 (modifyOrDelPgtl0 T ch vaddrEnd) := by
  have hnext : ∀ v, Fits v vaddrEnd → True → add64 v (levelSize 0) = vaddrNext 0 v ∧ True :=
    fun v hfit _ => ⟨add64_levelSize_zero hfit.start, trivial⟩
  have hsweep : ModSweeps T ch.job vaddrEnd 0 fun page v =>
      tableLoop (fun e _ => modifyOrDelPgtl0Entry T ch e)
        (fun v => add64 v (levelSize 0)) (fun v => vaddrEnd ≤ v)
        page (512 - levelIndex 0 v) (levelIndex 0 v) v :=
    tableLoop_sweeps (modifyOrDelPgtl0Entry_visits hok) (by omega) hnext fun _ => rfl
  exact descends_of_sweeps hsweep (by omega)

/-! ## Levels 1 and 2 -/

section

variable (hd : ModDescends T ch.job vaddrEnd l descend) (hok : ch.Ok T) (hl : 0 < l) (hl2 : l ≤ 2)

include hd hok hl hl2

theorem modifyOrDelEntry_visits :
    ModVisits T ch.job vaddrEnd l (modifyOrDelEntry T ch l descend vaddrEnd) := by
  intro s L p x i vaddr E hT hp hx hi
  subst hx
  refine readEntry_bind (owned_label hp) hi ?_
  split
  · next hpres =>
    split
    · next hlarge =>
      have hslot : slotOf T s.mem x.lvl p i = .leaf (s.mem (entryAt p i)) :=
        classify_leaf hpres (.inr ⟨hl2, hlarge⟩)
      split
      · -- the block sticks out of the range: split it and go down
        refine .bind (splitLargePage_runs (g := ch.job.effect) hT hp hi hl hl2 hslot) ?_
        rintro _ s₁ ⟨c, L₁, hstep, hc, hslot₁, hmoves⟩
        have hp₁ := hstep.label hp le_rfl
        refine (hd hstep.tree hp₁ rfl hi hslot₁).mono hstep.ownedWord (fun _ => id) ?_
        rintro _ s₂ ⟨⟨L₂, hstep', _, hmoves'⟩, _⟩
        refine ⟨⟨L₂, (hstep.mono le_rfl fun _ h => h.elim).trans hstep',
          fun hg => hg.elim, fun hpre hrd => ?_⟩, fun hg => hg.elim⟩
        have hstable := hrd.stable trivial hT hp hi hslot hpre.1 hpre.2.2
        have hroot := hT.root_label hp
        have h₁ := hmoves hrd.leaves hstable
        exact h₁.after_still (hmoves' hpre (h₁.ready hroot hrd (by simp))) hstep (by omega) hroot
      · next hcov =>
        simp only [not_or, not_lt, Bool.not_eq_false, memAlignedCheck, beq_iff_eq] at hcov
        exact localModifyOrDelPte_runs (owned_label hp) hi
          ⟨does_leaf hok hT hp hi hslot fun _ => hcov.symm, fun hg => hg.elim⟩
    · next hsmall =>
      have hslot : slotOf T s.mem x.lvl p i = .table (T.pgtlPagePaddr (s.mem (entryAt p i))) :=
        classify_table hpres hl (by simpa using hsmall)
      refine .post_mono (hd hT hp rfl hi hslot) ?_
      exact fun _ s' h => ⟨h.1, fun hg => hg.elim⟩
  · next habs => exact .ret ⟨does_absent hT hp hi (by simpa using habs) _, fun hg => hg.elim⟩

theorem modifyOrDelLoop_sweeps : ModSweeps T ch.job vaddrEnd l fun page vaddr =>
      modifyOrDelLoop T ch l descend vaddrEnd page
        (512 - levelIndex l vaddr) (levelIndex l vaddr) vaddr :=
  tableLoop_sweeps (modifyOrDelEntry_visits hd hok hl hl2) (by omega)
    (fun _ _ _ => ⟨rfl, trivial⟩) fun _ => rfl

end

theorem modifyOrDelPgtl1_descends (hok : ch.Ok T) :
    ModDescends T ch.job vaddrEnd 2 (modifyOrDelPgtl1 T ch vaddrEnd) :=
  descends_of_sweeps (modifyOrDelLoop_sweeps (modifyOrDelPgtl0_descends hok) hok
    (by omega) (by omega)) (by omega)

/-- The level-2 walk below an entry of the root. Its own table stays, so the
labels from level 2 up are kept. -/
theorem modifyOrDelPgtl2_runs (hok : ch.Ok T) (hT : Tree T s L)
    (hp : L p = some x) (hx : x.lvl = 3) (hi : i < 512)
    (hslot : slotOf T s.mem 3 p i = .table c) (vaddr vaddrEnd : Nat) :
    Runs s L x.root (modifyOrDelPgtl2 T ch vaddrEnd (entryAt p i) vaddr) s
      (fun _ s' => ∃ L', Step T x.root 2 (fun _ => False) s L s' L' ∧
        (Fits vaddr vaddrEnd ∧ Takes 512 x i (vaddr / 4096) → Ready T ch.job s L x.root
            (fun k => Takes 512 x i k ∧ InRange vaddr vaddrEnd k) →
          Moves T x.root (fun k => Takes 512 x i k ∧ InRange vaddr vaddrEnd k)
            ch.job.effect s L s' L')) E := by
  rw [← hx] at hslot
  obtain ⟨hpos, hc⟩ := hT.forest.table hp hi hslot
  have hchild : (x.child 512 i).lvl = 2 := by
    simp only [Place.child]
    omega
  refine readEntry_bind (owned_label hp) hi ?_
  rw [paddr_of_slot hslot]
  refine .post_mono (@modifyOrDelLoop_sweeps T ch 2 vaddrEnd _
    (modifyOrDelPgtl1_descends hok) hok (by omega) (by omega) s L c
    (x.child 512 i) vaddr E hT hc hchild) ?_
  rintro _ s' ⟨⟨L', hstep, _, hmoves⟩, _⟩
  refine ⟨L', hstep.drop ?_, ?_⟩
  · rintro q y ⟨_, hqc⟩ hq
    rw [hqc, hstep.label hc (by omega)] at hq
    injection hq with hy
    rw [← hy]
    omega
  · rintro ⟨hfit, htake⟩ hrd
    refine (hmoves ⟨hfit, trivial, (passes_child hpos).mpr htake⟩
      (hrd.mono fun k hk => ⟨(passes_child hpos).mp hk.1, hk.2⟩)).congr fun k _ => ?_
    rw [passes_child hpos]

/-! ## The root

The outer loop advances by 512 GiB and stops when it has passed the end. Near
the top of the 64-bit space the advance wraps around, and a range that reaches
the last 512 GiB is swept over and over. -/

/-- The addresses that the outer loop visits. -/
def Covered (vaddr vaddrEnd va : Nat) : Prop :=
  vaddr < vaddrEnd ∧ va < vaddrEnd ∧ (vaddr ≤ va ∨ 2 ^ 64 - 2 ^ 39 < vaddrEnd)

/-- The PGTL3 entries that cover the range are present. -/
def TopPresent (T : Pgtable) (mem : Nat → Word) (root vaddr vaddrEnd : Nat) : Prop :=
  ∀ va, Covered vaddr vaddrEnd va → T.pgentryPresent (mem (entryAt root (levelIndex 3 va))) = true

/-- What is visited from the next entry on is visited from here on. -/
theorem Covered.of_next {va : Nat} (hlt : vaddr < vaddrEnd)
    (h : Covered (vaddrNext 3 vaddr) vaddrEnd va) : Covered vaddr vaddrEnd va := by
  obtain ⟨-, hva, hcase⟩ := h
  rw [vaddrNext_three] at hcase
  refine ⟨hlt, hva, ?_⟩
  omega

theorem Step.top_present {s' : MmuState} {L' : Labels} {X : Nat → Prop}
    (h : Step T r 2 X s L s' L') (hT : Tree T s L) (hr : L r = some ⟨r, 3, 0⟩)
    (hi : i < 512) : T.pgentryPresent (s'.mem (entryAt r i)) =
      T.pgentryPresent (s.mem (entryAt r i)) := by
  have hr' := h.label hr (by simp)
  rw [Bool.eq_iff_iff, classify_three, classify_three]
  refine ⟨fun ⟨c, hc⟩ => ⟨c, ?_⟩, fun ⟨c, hc⟩ => ⟨c, ?_⟩⟩
  · obtain ⟨hpos, hl⟩ := h.tree.forest.table hr' hi hc
    exact hT.forest.slot_of_child hr hi hpos
      ((h.keeps fun hlt => absurd hlt.2 (by simp [Place.child])).mp hl)
  · obtain ⟨hpos, hl⟩ := hT.forest.table hr hi hc
    exact h.tree.forest.slot_of_child hr' hi hpos (h.label hl (by simp [Place.child]))

theorem modifyOrDelMapLoop_runs {fuel : Nat} (hok : ch.Ok T) (hT : Tree T s L)
    (hr : L r = some ⟨r, 3, 0⟩) (hv : vaddr < 2 ^ 64) (htop : TopPresent T s.mem r vaddr vaddrEnd)
    (hfuel : E .fuel ∨ (513 ≤ fuel + vaddr / 2 ^ 39 ∧ vaddr ≤ 2 ^ 48 ∧ vaddrEnd ≤ 2 ^ 48)) :
    Runs s L r (modifyOrDelMapLoop T ch r vaddrEnd fuel vaddr) s (fun _ s' =>
      ∃ L', Step T r 2 (fun _ => False) s L s' L' ∧
        (vaddr % 4096 = 0 → vaddrEnd % 4096 = 0 → vaddrEnd ≤ 2 ^ 48 →
          Ready T ch.job s L r (InRange vaddr vaddrEnd) →
          Moves T r (InRange vaddr vaddrEnd) ch.job.effect s L s' L')) E := by
  induction fuel generalizing vaddr s L with
  | zero =>
    refine .fail (hfuel.resolve_right ?_)
    omega
  | succ fuel ih =>
    rw [modifyOrDelMapLoop]
    split
    · next hlt =>
      have hi := levelIndex_lt 3 vaddr
      have hpres := htop vaddr ⟨hlt, hlt, .inl le_rfl⟩
      obtain ⟨c, hslot⟩ := (classify_three _).mp hpres
      refine readEntry_bind (owned_label hr) hi ?_
      rw [if_neg (by simp [hpres])]
      refine .bind (modifyOrDelPgtl2_runs hok hT hr rfl hi hslot vaddr vaddrEnd) ?_
      rintro _ s₁ ⟨L₁, hstep, hmoves⟩
      have hr₁ := hstep.label hr (by simp)
      have hnext := vaddrNext_three vaddr
      refine (ih hstep.tree hr₁ (by omega) ?_ ?_).mono hstep.ownedWord (fun _ => id) ?_
      · intro va hva
        rw [hstep.top_present hT hr (levelIndex_lt 3 va)]
        exact htop va (hva.of_next hlt)
      · rcases hfuel with he | ⟨h1, h2, h3⟩
        · exact .inl he
        · refine .inr ⟨?_, ?_, h3⟩ <;> omega
      · rintro _ s₂ ⟨L₂, hstep', hmoves'⟩
        refine ⟨L₂, hstep.trans hstep', fun ha hb hle hrd => ?_⟩
        have hfit : Fits vaddr vaddrEnd := ⟨ha, hb, hlt, hle⟩
        exact .turn hfit (by omega) hr hrd hstep (hmoves ⟨hfit, hfit.takes_root⟩)
          (hmoves' (vaddrNext_aligned (by omega) hfit.start_lt) hb hle)
    · next hge =>
      refine .ret ⟨L, Step.refl hT, fun _ _ _ hrd => Moves.refl hrd.leaves ?_⟩
      intro k _ hin
      have h1 := hin.1
      have h2 := hin.2
      omega

/-! ## The whole call -/

theorem Change.frame_map (ch : Change) (f : Option (Nat × Word)) (off : Nat) :
    (ch.frame f).map (fun (a, attrs) => (a + off, attrs)) =
      ch.frame (f.map fun (a, attrs) => (a + off, attrs)) := by
  cases hty : ch.type with
  | del => simp [Change.frame, hty]
  | modify => cases f <;> simp [Change.frame, hty]

section Sample

open Arm64

/-- A root with one block, `e`, for the first GiB. -/
def oneBlock (e : Word) : MmuState where
  mem := fun a => if a = 0x1000 then pptSetPgentry 0x2000 0 3 false
    else if a = 0x2000 then e else 0
  pool := smallPool 2

/-- The first GiB is mapped to the second. -/
def blockTable : MmuState := oneBlock (pptSetPgentry 0x40000000 PAGE_ATTR_NORMAL 2 true)

theorem oneBlock_wellFormed (F : LeafFormat) {e : Word} (hlarge : archPgtlLarge e = true)
    (haligned : archPgtlPagePaddr e % 2 ^ 30 = 0) :
    WellFormed (pgtable F) (oneBlock e) 0x1000 := by
  have hpresent : (pgtable F).pgentryPresent e = true := (Bool.and_eq_true_iff.mp hlarge).1
  have hends : (classify (pgtable F) 2 e).Ends := by
    rw [classify, if_pos hpresent, if_pos (.inr ⟨le_rfl, hlarge⟩)]
    trivial
  have hone : ∀ {q y}, Function.update (fun _ => none) 0x1000
      (some (⟨0x1000, 3, 0⟩ : Place Nat)) q = some y → q = 0x1000 ∧ y = ⟨0x1000, 3, 0⟩ := by
    intro q y hq
    by_cases hqr : q = 0x1000
    · subst hqr
      injection hq with hy
      exact ⟨rfl, hy.symm⟩
    · rw [Function.update_of_ne hqr] at hq
      cases hq
  have hmem : ∀ j < 512, (oneBlock e).mem (entryAt 0x2000 j) = if j = 0 then e else 0 := by
    intro j hj
    simp only [oneBlock, entryAt]
    rw [if_neg (by omega)]
    split <;> split <;> first | rfl | omega
  have hT : Tree (pgtable F) (oneBlock e) (Function.update _ 0x2000
      (some (Place.child 512 ⟨0x1000, 3, 0⟩ 0))) :=
    (bareTable_tree F).link (p := 0x1000) rfl (by omega) (by trivial) ?_ ?_ (by decide) rfl
      (classify_setPgentry_table (T := pgtable F) (l := 3) (by decide) (by decide) (by decide)) ?_
      (smallPool_allocated (m := 1) (by omega) (by omega))
  · refine ⟨_, hT, ?_, rfl⟩
    intro q y j e' hq hj hslot
    by_cases hqc : q = 0x2000
    · subst hqc
      injection hq with hy
      subst hy
      rw [slotOf, hmem j hj] at hslot
      split at hslot
      · obtain ⟨rfl, -⟩ := classify_eq_leaf hslot
        exact haligned
      · cases hslot
    · rw [Function.update_of_ne hqc] at hq
      obtain ⟨-, rfl⟩ := hone hq
      obtain ⟨-, -, hlvl⟩ := classify_eq_leaf hslot
      simp at hlvl
  · intro q y j hq hj hne
    obtain ⟨rfl, -⟩ := hone hq
    simp only [oneBlock, bareTable, entryAt]
    rw [if_neg (by omega), if_neg (by omega)]
  · intro q y hq
    obtain ⟨rfl, -⟩ := hone hq
    exact smallPool_allocated (m := 0) (by omega) (by omega)
  · intro j hj
    rw [slotOf, hmem j hj]
    split
    · refine ⟨hends, fun ha => absurd hpresent (by rw [ha]; decide), fun _ => ?_⟩
      show e &&& ~~~ PTE_PFN_MASK &&& PTE_PFN_MASK = 0
      rw [BitVec.and_assoc]
      simp
    · exact ⟨trivial, sound_sanitized⟩

theorem blockTable_wellFormed : WellFormed pptPgtable blockTable 0x1000 :=
  oneBlock_wellFormed pptFormat (by decide) (by decide)

end Sample

end Sima.Mmu
