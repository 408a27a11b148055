import Sima.Arm64.Pgtable
import Sima.Mmu.Sweep

/-!
# Add

`pgtable_add_map` maps a range of addresses to a range of frames, with the
largest blocks that fit, and leaves alone whatever is mapped already. It never
takes an entry away, so the walk is simpler than the other one: the only table
that can be empty on the way is the one just hung in, and the next thing the
walk does is to put an entry into it.

The two addresses advance together. That is the invariant of the cursor: the
frame that page `k` is to get is the same whichever entry it is given by.
-/

namespace Sima.Mmu

open Lib

variable {T : Pgtable} {s : MmuState} {L : Labels} {prot : Word}
  {r l p c i vaddr pbase vbase vaddrEnd : Nat} {x : Place Nat} {E : Fault → Prop}
  {cur : Cursor} {descend : Nat → Cursor → MmuM Unit}

/-- What an add does to page `k`: a mapped page stays as it is. -/
def addFrame (T : Pgtable) (pbase vbase : Nat) (prot : Word) (k : Nat) :
    Option (Nat × Word) → Option (Nat × Word)
  | some f => some f
  | none => some (pbase + (4096 * k - vbase), T.protAttrs prot)

def addJob (T : Pgtable) (pbase vbase : Nat) (prot : Word) : Job where
  effect := addFrame T pbase vbase prot
  splits := False
  grows := True
  empties := False

/-- The two addresses have come equally far, and the frames to come can be
addressed. -/
structure Cursor.Good (pbase vbase vaddrEnd : Nat) (cur : Cursor) : Prop where
  together : cur.paddr + vbase = cur.vaddr + pbase
  past : vbase ≤ cur.vaddr
  aligned : cur.paddr % 4096 = 0
  below : cur.paddr + vaddrEnd ≤ cur.vaddr + 2 ^ 48

variable (pbase vbase vaddrEnd) in
abbrev AddVisits := Visits Cursor.vaddr (Cursor.Good pbase vbase vaddrEnd)

variable (pbase vbase vaddrEnd) in
abbrev AddSweeps := Sweeps Cursor.vaddr (Cursor.Good pbase vbase vaddrEnd)

variable (pbase vbase vaddrEnd) in
abbrev AddDescends := Descends Cursor.vaddr (Cursor.Good pbase vbase vaddrEnd)

theorem vaddrNext_lt (hl : l ≤ 3) (hv : vaddr < 2 ^ 48) : vaddrNext l vaddr ≤ vaddr + 2 ^ 39 := by
  have hsize := levelSize_le hl
  rw [vaddrNext_eq hl hv, Nat.succ_mul, ← div_levelSize]
  have := Nat.div_mul_le_self vaddr (levelSize l)
  omega

section

variable (h : cur.Good pbase vbase vaddrEnd) (hfit : Fits cur.vaddr vaddrEnd)

include h hfit

theorem Cursor.next_paddr (hl : l ≤ 3) :
    (cur.next l).paddr = cur.paddr + (vaddrNext l cur.vaddr - cur.vaddr) := by
  have hlt := lt_vaddrNext hl hfit.start_lt
  have hle := vaddrNext_lt hl hfit.start_lt
  have h1 := hfit.lt
  have h2 := h.below
  have h3 := hfit.below
  simp only [Cursor.next, add64, sub64]
  omega

theorem Cursor.Good.next (hl : l ≤ 3) : (cur.next l).Good pbase vbase vaddrEnd := by
  have hlt := lt_vaddrNext hl hfit.start_lt
  have hal := vaddrNext_aligned hl hfit.start_lt
  have hp := Cursor.next_paddr h hfit hl
  have hv : (cur.next l).vaddr = vaddrNext l cur.vaddr := rfl
  have h1 := h.together
  have h2 := h.past
  have h3 := h.aligned
  have h4 := h.below
  have h5 := hfit.start
  refine ⟨?_, ?_, ?_, ?_⟩ <;> omega

theorem Cursor.next_zero :
    (⟨add64 cur.paddr (levelSize 0), add64 cur.vaddr (levelSize 0)⟩ : Cursor) = cur.next 0 := by
  have hv := add64_levelSize_zero hfit.start
  have hp := Cursor.next_paddr (l := 0) h hfit (by omega)
  have hpage : vaddrNext 0 cur.vaddr = cur.vaddr + 4096 := by
    have := hfit.start_lt
    rw [← hv, add64, levelSize]
    omega
  have h1 := hfit.lt
  have h2 := h.below
  rw [Cursor.mk.injEq]
  refine ⟨?_, hv⟩
  rw [hp, add64, levelSize]
  omega

end

/-! ## One entry -/

theorem does_present (hT : Tree T s L) (hp : L p = some x) (hi : i < 512) {e : Word}
    (hslot : slotOf T s.mem x.lvl p i = .leaf e) (pre : Prop) :
    Does T (addJob T pbase vbase prot) x.root l p pre
      (fun k => Takes 512 x i k ∧ InRange vaddr vaddrEnd k) s L s := by
  refine ⟨L, Step.refl hT, fun _ => Grown.refl, fun _ hrd => ?_⟩
  refine .stay hrd.leaves ?_
  rintro k ⟨htake, _⟩
  rw [frameOf_end hT hp hi htake (by rw [hslot]; exact trivial), hslot]
  rfl

theorem block_offset {k : Nat}
    (halign : vaddr % levelSize x.lvl = 0) (htake : Takes 512 x i (vaddr / 4096))
    (ht : Takes 512 x i k) : 4096 * k = vaddr + k % 512 ^ x.lvl * 4096 := by
  have hv : vaddr / levelSize x.lvl * levelSize x.lvl = vaddr :=
    Nat.div_mul_cancel (Nat.dvd_of_mod_eq_zero halign)
  have hk := Nat.div_add_mod k (512 ^ x.lvl)
  rw [div_levelSize, htake, ← ht] at hv
  rw [← hv]
  calc 4096 * k
      = 4096 * (512 ^ x.lvl * (k / 512 ^ x.lvl) + k % 512 ^ x.lvl) := by rw [hk]
    _ = k / 512 ^ x.lvl * (4096 * 512 ^ x.lvl) + k % 512 ^ x.lvl * 4096 := by
        rw [mul_add, mul_left_comm, mul_comm _ (k / _),
          mul_comm 4096 (k % _), mul_left_comm,
          mul_comm (512 ^ x.lvl) 4096]

theorem does_fill (hprot : T.ProtOk prot) (hT : Tree T s L) (hp : L p = some x)
    (hx : x.lvl ≤ 2) (hi : i < 512) (habs : T.pgentryPresent (s.mem (entryAt p i)) = false)
    (hcov : Fits cur.vaddr vaddrEnd → cur.Good pbase vbase vaddrEnd →
      cur.paddr % levelSize x.lvl = 0 ∧ cur.vaddr % levelSize x.lvl = 0 ∧
        vaddrNext x.lvl cur.vaddr ≤ vaddrEnd) : Does T (addJob T pbase vbase prot) x.root l p
      (Fits cur.vaddr vaddrEnd ∧ cur.Good pbase vbase vaddrEnd ∧ Takes 512 x i (cur.vaddr / 4096))
      (fun k => Takes 512 x i k ∧ InRange cur.vaddr vaddrEnd k) s L
      (s.write (entryAt p i) (T.setPgentry cur.paddr prot x.lvl true)) := by
  have hslot : slotOf T s.mem x.lvl p i = .empty := classify_absent habs
  have hend : (slotOf T s.mem x.lvl p i).Ends := by rw [hslot]; exact trivial
  have hleaf := classify_setPgentry_leaf hprot cur.paddr hx
  have hnew : (classify T x.lvl (T.setPgentry cur.paddr prot x.lvl true)).Ends := by
    rw [hleaf]
    exact trivial
  have hsound := sound_setPgentry_leaf hprot cur.paddr x.lvl
  have hpres := (T.leaf_entry cur.paddr x.lvl hprot).1
  refine ⟨L, (Step.write_end hT hp hi hend hnew hsound).mono le_rfl ?_,
    fun _ => ⟨id, ?_⟩, ?_⟩
  · intro q hq
    rw [hpres] at hq
    exact absurd hq.2 (by simp)
  · intro q y j hq hj h
    by_cases hat : q = p ∧ j = i
    · rw [hat.1, hat.2, write_mem, Function.update_self]
      exact hpres
    · rw [write_mem, hT.sameOff_update hp hi _ hq hj hat]
      exact h
  rintro ⟨hfit, hgood, htake⟩ hrd
  obtain ⟨hpal, hval, hle⟩ := hcov hfit hgood
  have hb := hgood.below
  have hlt := hfit.lt
  obtain ⟨haddr, hattr, -⟩ := T.leaf_encodes x.lvl hprot hgood.aligned
    (show cur.paddr < 2 ^ 48 by omega)
  refine (Moves.write_end hT hp hi hend hnew hsound hrd.leaves ?_ ?_).congr
    fun k _ => and_iff_left_of_imp fun ht => takes_covered (by omega) hfit htake hval hle ht
  · intro e he
    rw [hleaf] at he
    injection he with he
    rw [← he, haddr]
    exact hpal
  · intro k ht
    rw [hleaf, hslot, endFrame_leaf]
    have hoff := block_offset hval htake ht
    have h1 := hgood.together
    have h2 := hgood.past
    simp only [leafFrame]
    congr 2
    omega

/-! ## The levels -/

theorem addDescends_of_sweeps {loop : Nat → Cursor → MmuM Unit}
    (h : AddSweeps pbase vbase vaddrEnd T (addJob T pbase vbase prot) vaddrEnd l
      loop) (hl : l ≤ 2) :
    AddDescends pbase vbase vaddrEnd T (addJob T pbase vbase prot) vaddrEnd (l + 1)
      (fun pgte cur => do
        let e ← readEntry pgte
        loop (T.pgtlPagePaddr e) cur) := by
  intro s L p c x i cur E hT hp hx hi hslot
  rw [← hx] at hslot
  obtain ⟨hpos, hc⟩ := hT.forest.table hp hi hslot
  refine readEntry_bind (owned_label hp) hi ?_
  rw [paddr_of_slot hslot]
  have hchild : (x.child 512 i).lvl = l := by
    simp only [Place.child]
    omega
  refine .post_mono (@h s L c (x.child 512 i) cur E hT hc hchild) ?_
  rintro _ s' ⟨⟨L', hstep, hgrow, hmoves⟩, hbare⟩
  refine ⟨⟨L', hstep.mono (by omega) fun _ h => h.1.elim, hgrow, ?_⟩, hbare⟩
  rintro ⟨hfit, hgood, htake⟩ hrd
  refine (hmoves ⟨hfit, hgood, (passes_child hpos).mpr htake⟩
    (hrd.mono fun k hk => ⟨(passes_child hpos).mp hk.1, hk.2⟩)).congr fun k _ => ?_
  rw [passes_child hpos]

theorem addPgtl0Entry_visits (hprot : T.ProtOk prot) :
    AddVisits pbase vbase vaddrEnd T (addJob T pbase vbase prot) vaddrEnd 0
      fun e cur => addPgtl0Entry T prot e cur.paddr := by
  intro s L p x i cur E hT hp hx hi
  refine readEntry_bind (owned_label hp) hi ?_
  split
  · next hpres =>
    have hslot : slotOf T s.mem x.lvl p i = .leaf (s.mem (entryAt p i)) :=
      classify_leaf hpres (.inl hx)
    exact .ret ⟨does_present hT hp hi hslot _, fun _ => hpres⟩
  rename_i habs
  refine writeEntry_runs (owned_label hp) hi ?_
  rw [← hx]
  refine ⟨does_fill hprot hT hp (by omega) hi (by simpa using habs) ?_, ?_⟩
  · intro hfit hgood
    rw [hx]
    refine ⟨?_, hfit.page⟩
    simpa [levelSize] using hgood.aligned
  · intro _
    rw [write_mem, Function.update_self]
    exact (T.leaf_entry _ _ hprot).1

theorem addPgtl0_descends (hprot : T.ProtOk prot) :
    AddDescends pbase vbase vaddrEnd T (addJob T pbase vbase prot) vaddrEnd 1
      (addPgtl0 T prot vaddrEnd) := by
  have hnext : ∀ cur : Cursor, Fits cur.vaddr vaddrEnd → cur.Good pbase vbase vaddrEnd →
      add64 cur.vaddr (levelSize 0) = vaddrNext 0 cur.vaddr ∧
        (⟨add64 cur.paddr (levelSize 0), add64 cur.vaddr (levelSize 0)⟩ :
          Cursor).Good pbase vbase vaddrEnd := by
    intro cur hfit hgood
    refine ⟨add64_levelSize_zero hfit.start, ?_⟩
    rw [Cursor.next_zero hgood hfit]
    exact hgood.next hfit (by omega)
  have hsweep : AddSweeps pbase vbase vaddrEnd T (addJob T pbase vbase prot) vaddrEnd 0
      fun page cur => tableLoop (fun e cur => addPgtl0Entry T prot e cur.paddr)
        (fun cur => ⟨add64 cur.paddr (levelSize 0), add64 cur.vaddr (levelSize 0)⟩)
        (fun cur => vaddrEnd ≤ cur.vaddr) page (512 - levelIndex 0 cur.vaddr)
        (levelIndex 0 cur.vaddr) cur :=
    tableLoop_sweeps (addPgtl0Entry_visits hprot) (by omega) hnext fun _ => rfl
  exact addDescends_of_sweeps hsweep (by omega)

theorem Tree.present_of_large (hT : Tree T s L) (hp : L p = some x) (hi : i < 512)
    (hlarge : T.pgtlLarge (s.mem (entryAt p i)) = true) :
    T.pgentryPresent (s.mem (entryAt p i)) = true := by
  cases habs : T.pgentryPresent (s.mem (entryAt p i)) with
  | true => rfl
  | false =>
    have hend : (slotOf T s.mem x.lvl p i).Ends := by
      rw [slotOf, classify_absent habs]
      exact trivial
    rw [(hT.ends hp hi hend).absent habs, T.sanitized_small] at hlarge
    cases hlarge

section

variable (hd : AddDescends pbase vbase vaddrEnd T (addJob T pbase vbase prot) vaddrEnd l descend)
  (hprot : T.ProtOk prot) (hl : 0 < l) (hl2 : l ≤ 2)

include hd hprot hl hl2

theorem addEntry_visits :
    AddVisits pbase vbase vaddrEnd T (addJob T pbase vbase prot) vaddrEnd l
      (addEntry T prot l descend vaddrEnd) := by
  intro s L p x i cur E hT hp hx hi
  subst hx
  refine readEntry_bind (owned_label hp) hi ?_
  split
  · next hlarge =>
    have hpres := hT.present_of_large hp hi hlarge
    have hslot : slotOf T s.mem x.lvl p i = .leaf (s.mem (entryAt p i)) :=
      classify_leaf hpres (.inr ⟨hl2, hlarge⟩)
    exact .ret ⟨does_present hT hp hi hslot _, fun _ => hpres⟩
  rename_i hsmall
  split
  · next hpres =>
    have hslot : slotOf T s.mem x.lvl p i = .table (T.pgtlPagePaddr (s.mem (entryAt p i))) :=
      classify_table hpres hl (by simpa using hsmall)
    refine .post_mono (hd hT hp rfl hi hslot) ?_
    rintro _ s' ⟨⟨L', hstep, hgrow, hmoves⟩, _⟩
    exact ⟨⟨L', hstep, hgrow, hmoves⟩, fun hg => (hgrow hg).entries hp hi hpres⟩
  rename_i habs
  rw [Bool.not_eq_true] at habs
  split
  · next hfits =>
    obtain ⟨-, hpal, hval, hle⟩ := hfits
    simp only [memAlignedCheck, beq_iff_eq] at hpal hval
    refine writeEntry_runs (owned_label hp) hi
      ⟨does_fill hprot hT hp hl2 hi habs fun _ _ => ⟨hpal, hval, hle⟩, ?_⟩
    intro _
    rw [write_mem, Function.update_self]
    exact (T.leaf_entry _ _ hprot).1
  refine .bind (linkNewTable_runs (g := (addJob T pbase vbase prot).effect) hT hp hi hl habs) ?_
  rintro _ s₁ ⟨c, L₁, hstep, hgrow, hc, hslot, hmoves⟩
  have hp₁ := hstep.label hp le_rfl
  refine (hd hstep.tree hp₁ rfl hi hslot).mono hstep.ownedWord (fun _ => id) ?_
  rintro _ s₂ ⟨⟨L₂, hstep', hgrow', hmoves'⟩, hbare⟩
  -- the new table is not left empty
  have hsettled : ∀ {q y}, q = c → L₂ q = some y → Bare T s₂.mem q →
      (addJob T pbase vbase prot).empties ∧ q = p :=
    fun hqc _ hb => absurd (hqc ▸ hb) (hbare trivial)
  have hpres : T.pgentryPresent (s₁.mem (entryAt p i)) = true := by
    cases habs₁ : T.pgentryPresent (s₁.mem (entryAt p i)) with
    | true => rfl
    | false =>
      rw [slotOf, classify_absent habs₁] at hslot
      cases hslot
  refine ⟨⟨L₂, hstep.trans_of hstep' hsettled,
    fun hg => hgrow.trans (hgrow' hg), fun hpre hrd => ?_⟩,
    fun hg => (hgrow' hg).entries hp₁ hi hpres⟩
  have hroot := hT.root_label hp
  have h₁ := hmoves hrd.leaves
  exact h₁.after_still (hmoves' hpre (h₁.ready hroot hrd (by simp))) hstep (by omega) hroot

theorem addLoop_sweeps :
    AddSweeps pbase vbase vaddrEnd T (addJob T pbase vbase prot) vaddrEnd l
      fun page cur => addLoop T prot l descend vaddrEnd page
        (512 - levelIndex l cur.vaddr) (levelIndex l cur.vaddr) cur :=
  tableLoop_sweeps (addEntry_visits hd hprot hl hl2) (by omega)
    (fun _ hfit hgood => ⟨rfl, hgood.next hfit (by omega)⟩) fun _ => rfl

end

theorem addPgtl2_descends (hprot : T.ProtOk prot) :
    AddDescends pbase vbase vaddrEnd T (addJob T pbase vbase prot) vaddrEnd 3
      (addPgtl2 T prot vaddrEnd) := by
  have h1 : AddDescends pbase vbase vaddrEnd T (addJob T pbase vbase prot) vaddrEnd 2
      (addPgtl1 T prot vaddrEnd) :=
    addDescends_of_sweeps (addLoop_sweeps (addPgtl0_descends hprot) hprot
      (by omega) (by omega)) (by omega)
  exact addDescends_of_sweeps (addLoop_sweeps h1 hprot (by omega) (by omega)) (by omega)

/-! ## The root -/

theorem ensurePgtl2_runs {g : Nat → Option (Nat × Word) → Option (Nat × Word)}
    (hT : Tree T s L) (hr : L r = some ⟨r, 3, 0⟩) (hi : i < 512) :
    Runs s L r (ensurePgtl2 T (entryAt r i)) s (fun _ s' => ∃ c L',
      Step T r 3 (fun _ => False) s L s' L' ∧ Grown T s L s' L' ∧
      slotOf T s'.mem 3 r i = .table c ∧
      (Leaves T s L → Moves T r (fun _ => False) g s L s' L')) E := by
  refine readEntry_bind (owned_label hr) hi ?_
  split
  · next hpres =>
    obtain ⟨c, hslot⟩ := (classify_three _).mp hpres
    exact .ret ⟨c, L, Step.refl hT, Grown.refl, hslot, fun hL => Moves.refl hL (by simp)⟩
  rename_i habs
  refine .post_mono (linkNewTable_runs (g := g) hT hr hi (by simp) (by simpa using habs)) ?_
  rintro _ s' ⟨c, L', hstep, hgrow, hc, hslot, hmoves⟩
  refine ⟨c, L', hstep.drop ?_, hgrow, hslot, hmoves⟩
  intro q y hqc hq
  rw [hqc, hc] at hq
  injection hq with hy
  rw [← hy]
  simp [Place.child]

theorem addMapLoop_runs (pbase vbase : Nat) {fuel : Nat} (hprot : T.ProtOk prot) (hT : Tree T s L)
    (hr : L r = some ⟨r, 3, 0⟩)
    (hfuel : E .fuel ∨ (513 ≤ fuel + cur.vaddr / 2 ^ 39 ∧ cur.vaddr ≤ 2 ^ 48 ∧
      vaddrEnd ≤ 2 ^ 48)) : Runs s L r (addMapLoop T prot r vaddrEnd fuel cur) s (fun _ s' =>
      ∃ L', Step T r 3 (fun _ => False) s L s' L' ∧ Grown T s L s' L' ∧
        (cur.vaddr % 4096 = 0 → vaddrEnd % 4096 = 0 → vaddrEnd ≤ 2 ^ 48 →
          cur.Good pbase vbase vaddrEnd → Leaves T s L →
          Moves T r (InRange cur.vaddr vaddrEnd) (addFrame T pbase vbase prot) s L s' L')) E := by
  induction fuel generalizing cur s L with
  | zero =>
    refine .fail (hfuel.resolve_right ?_)
    omega
  | succ fuel ih =>
    rw [addMapLoop]
    split
    · next hlt =>
      have hi := levelIndex_lt 3 cur.vaddr
      refine .bind (ensurePgtl2_runs (g := addFrame T pbase vbase prot) hT hr hi) ?_
      rintro _ s₀ ⟨c, L₀, hstep₀, hgrow₀, hslot, hmoves₀⟩
      have hr₀ := hstep₀.label hr (by simp)
      have hdesc : AddDescends pbase vbase vaddrEnd T
          (addJob T pbase vbase prot) vaddrEnd 3 (addPgtl2 T prot vaddrEnd) :=
        addPgtl2_descends hprot
      refine .bind ((hdesc hstep₀.tree hr₀ rfl hi hslot).mono
        hstep₀.ownedWord (fun _ => id) fun _ _ h => h.1) ?_
      rintro _ s₁ ⟨L₁, hstep₁, hgrow₁, hmoves₁⟩
      -- the two parts of one turn, taken together
      have hstep := hstep₀.trans (hstep₁.mono le_rfl fun _ h => h.1)
      have hmoves : Fits cur.vaddr vaddrEnd → cur.Good pbase vbase vaddrEnd →
          Ready T (addJob T pbase vbase prot) s L r (fun k =>
            Takes 512 ⟨r, 3, 0⟩ (levelIndex 3 cur.vaddr) k ∧ InRange cur.vaddr vaddrEnd k) →
          Moves T r (fun k => Takes 512 ⟨r, 3, 0⟩ (levelIndex 3 cur.vaddr) k ∧
            InRange cur.vaddr vaddrEnd k) (addFrame T pbase vbase prot)
            s L s₁ L₁ := by
        intro hfit hgood hrd
        have h₀ := hmoves₀ hrd.leaves
        exact h₀.after_still (hmoves₁ ⟨hfit, hgood, hfit.takes_root⟩
          (h₀.ready hr hrd (by simp))) hstep₀ (by omega) hr
      have hnext := vaddrNext_three cur.vaddr
      refine (ih hstep.tree (hstep.label hr (by simp)) ?_).mono hstep.ownedWord (fun _ => id) ?_
      · rcases hfuel with he | ⟨h1, h2, h3⟩
        · exact .inl he
        · refine .inr ?_
          simp only [Cursor.next]
          refine ⟨?_, ?_, h3⟩ <;> omega
      · rintro _ s₂ ⟨L₂, hstep', hgrow', hmoves'⟩
        refine ⟨L₂, hstep.trans hstep', (hgrow₀.trans (hgrow₁ trivial)).trans hgrow', ?_⟩
        intro ha hb hle hgood hL
        have hfit : Fits cur.vaddr vaddrEnd := ⟨ha, hb, hlt, hle⟩
        exact .turn (J := addJob T pbase vbase prot) hfit (by omega) hr
          ⟨hL, fun hs => hs.elim⟩ hstep (hmoves hfit hgood) fun hrd =>
            hmoves' (vaddrNext_aligned (by omega) hfit.start_lt) hb hle
              (hgood.next hfit (by omega)) hrd.leaves
    · next hge =>
      refine .ret ⟨L, Step.refl hT, Grown.refl, fun _ _ _ _ hL => Moves.refl hL ?_⟩
      intro k _ hin
      have h1 := hin.1
      have h2 := hin.2
      omega

/-! ## The whole call -/

/-- Over a well-formed table the call returns, and every page of the range that
was unmapped gets the frame and the attributes asked for. Every other address
is translated as before. -/
theorem pgtableAddMap_exact {fuel root paddrBase vaddrBase size : Nat}
    (hprot : T.ProtOk prot) (hw : WellFormed T s root)
    (hend : roundPageUp vaddrBase + roundPageDown size ≤ 2 ^ 48)
    (hpend : roundPageUp paddrBase + roundPageDown size ≤ 2 ^ 48) (hfuel : 513 ≤ fuel)
    (hpool : Event.assertFailed ∉
      (pgtableAddMap T fuel root paddrBase vaddrBase size prot s).trace) :
    ∃ s', (pgtableAddMap T fuel root paddrBase vaddrBase size prot s).val = .ok () ∧
      (pgtableAddMap T fuel root paddrBase vaddrBase size prot s).st = s' ∧
      WellFormed T s' root ∧
      ∀ va < 2 ^ 48, translate T s'.mem root va =
        if roundPageUp vaddrBase ≤ va ∧ va < roundPageUp vaddrBase + roundPageDown size ∧
            translate T s.mem root va = none
        then some (roundPageUp paddrBase + (va - roundPageUp vaddrBase), T.protAttrs prot)
        else translate T s.mem root va := by
  obtain ⟨L, hT, hL, hr⟩ := hw
  have hva := roundPageUp_aligned vaddrBase
  have hpa := roundPageUp_aligned paddrBase
  have hsa := roundPageDown_aligned size
  revert hend hpend hpool
  rw [pgtableAddMap]
  generalize roundPageUp vaddrBase = v at hva
  generalize roundPageUp paddrBase = p at hpa
  generalize roundPageDown size = n at hsa
  intro hend hpend hpool
  rw [add64_range hend] at hpool ⊢
  have henough : 513 ≤ fuel + v / 2 ^ 39 ∧ v ≤ 2 ^ 48 ∧ v + n ≤ 2 ^ 48 := by omega
  have hgood : Cursor.Good p v (v + n) ⟨p, v⟩ := ⟨add_comm .., le_rfl, hpa, by simp only; omega⟩
  have hruns : Runs s L root (addMapLoop T prot root (v + n) fuel ⟨p, v⟩) s _
      (fun _ => False) := addMapLoop_runs p v hprot hT hr (.inr henough)
  obtain ⟨_, hval, L', hstep, -, hmoves⟩ := hruns.run fun t ht heq => hpool (heq ▸ ht)
  have hm := hmoves hva (by omega) hend hgood hL
  have hr' := hstep.label hr (by simp)
  refine ⟨_, hval, rfl, ⟨L', hstep.tree, hm.leaves, hr'⟩, fun va hlt => ?_⟩
  rw [hm.translate hT hstep.tree hL hr hr' hva (by omega) hlt, translate_eq hT hL hr hlt]
  cases hf : frameOf T s.mem root (va / 4096) with
  | some f => simp [addFrame]
  | none =>
    simp only [addFrame, Option.map_none, Option.map_some, and_true]
    split
    · next hin =>
      congr 2
      omega
    · rfl

section Sample

open Arm64

/-- A pool of 64 pages from 4 KiB on, with the first `n` pages in use. -/
def smallPool (n : Nat) : PagePool where
  startPage := 0x1000
  bitmap := fun _ => BitVec.ofNat 64 (2 ^ n - 1)
  bitmapSize := 1
  lastHintId := 0
  dummyPage := none
  aligned := by decide
  below := by decide

/-- A root without entries. -/
def bareTable : MmuState := ⟨fun _ => 0, smallPool 1⟩

theorem smallPool_allocated {n m : Nat} (hm : m < n) (hn : n < 64) :
    (smallPool n).Allocated (0x1000 + m * 4096) := by
  refine ⟨m, by simp only [smallPool]; omega, rfl, ?_⟩
  simp only [PagePool.used, smallPool, Nat.mod_eq_of_lt (show m < 64 by omega),
    BitVec.getLsbD_ofNat]
  simp [hm, show m < 64 by omega]

theorem bareTable_tree (F : LeafFormat) : Tree (pgtable F) bareTable
    (Function.update (fun _ => none) 0x1000 (some ⟨0x1000, 3, 0⟩)) :=
  (Tree.nil (pgtable F) bareTable).addRoot rfl (fun _ _ => rfl)
    (fun hq => absurd hq (by simp)) (fun hq => absurd hq (by simp))
    (smallPool_allocated (m := 0) (by omega) (by omega))

theorem bareTable_wellFormed : WellFormed pptPgtable bareTable 0x1000 := by
  refine ⟨_, bareTable_tree _, ?_, rfl⟩
  intro p x i e _ _ hslot
  have hempty : slotOf pptPgtable bareTable.mem x.lvl p i = .empty := classify_sanitized _
  rw [hempty] at hslot
  cases hslot

/-- Two pages to both sides of a 2 MiB boundary, from bases that are not
aligned. -/
theorem pgtableAddMap_exact_bare : ∃ s',
    (pgtableAddMap pptPgtable 513 0x1000 0x80000001 0x1fe801 0x2fff
      PAGE_ATTR_NORMAL bareTable).val = .ok () ∧
    (pgtableAddMap pptPgtable 513 0x1000 0x80000001 0x1fe801 0x2fff
      PAGE_ATTR_NORMAL bareTable).st = s' ∧
    WellFormed pptPgtable s' 0x1000 ∧
    ∀ va < 2 ^ 48, translate pptPgtable s'.mem 0x1000 va =
      if roundPageUp 0x1fe801 ≤ va ∧ va < roundPageUp 0x1fe801 + roundPageDown 0x2fff ∧
          translate pptPgtable bareTable.mem 0x1000 va = none
      then some (roundPageUp 0x80000001 + (va - roundPageUp 0x1fe801),
        pptPgtable.protAttrs PAGE_ATTR_NORMAL)
      else translate pptPgtable bareTable.mem 0x1000 va :=
  pgtableAddMap_exact (show PAGE_ATTR_NORMAL &&& PTE_PFN_MASK = 0 by decide)
    bareTable_wellFormed (by decide) (by decide) (by decide) (by decide +kernel)

end Sample

end Sima.Mmu
