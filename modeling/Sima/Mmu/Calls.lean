import Mathlib.Logic.Relation
import Sima.Mmu.Footprint

/-!
# Sequences of calls

Several tables live in one page pool, and the pool knows nothing of them: a set
bit is a page that somebody has. That the bits are exactly the tables is a
property of all calls together, and it is what makes freeing safe.

The state between calls is the memory and the pool, with the list of the roots
that were created. A call is counted if it returned and no assertion failed on
the way, so an exhausted pool ends the sequence.

A delete over an absent top-level entry breaks the accounting as it breaks the
footprint: whatever page 0 holds is taken for a PGTL2 table, and a page it
happens to name is given back to the pool. `quiescent_of_calls` is about the
sequences in which no call does that, and `calls_free_root` is one in which the
second call frees the root of the first.
-/

namespace Sima.Mmu

open Lib

variable {T : Pgtable}

inductive Call where
  | createRoot
  | addMap (root paddrBase vaddrBase size : Nat) (prot : Word)
  | modifyOrDelMap (root vaddrBase size : Nat) (c : Change)

structure World where
  st : MmuState
  roots : List Nat

/-- `m` returned `a` in `s'`, and no assertion failed. -/
def Completes {α : Type} (m : MmuM α) (s : MmuState) (a : α) (s' : MmuState) :
    Prop :=
  (m s).val = .ok a ∧ (m s).st = s' ∧ Event.assertFailed ∉ (m s).trace

/-- One call, on a root that was created, with attribute words that `struct
pgtable` admits. -/
inductive Calls (T : Pgtable) : Call → World → World → Prop where
  | createRoot {w s' r} : Completes (pgtableCreateRoot T) w.st r s' →
      Calls T .createRoot w ⟨s', r :: w.roots⟩
  | addMap {w s' r paddrBase vaddrBase size prot fuel} : r ∈ w.roots →
      T.ProtOk prot →
      Completes (pgtableAddMap T fuel r paddrBase vaddrBase size prot) w.st () s' →
      Calls T (.addMap r paddrBase vaddrBase size prot) w ⟨s', w.roots⟩
  | modifyOrDelMap {w s' r vaddrBase size c fuel} : r ∈ w.roots → c.Ok T →
      Completes (pgtableModifyOrDelMap T fuel r vaddrBase size c) w.st () s' →
      Calls T (.modifyOrDelMap r vaddrBase size c) w ⟨s', w.roots⟩

/-- The top-level entries that a modify or delete visits are present. -/
def Call.OnTables (T : Pgtable) (w : World) : Call → Prop
  | .modifyOrDelMap root vaddrBase size _ =>
    TopPresent T w.st.mem root (roundPageUp vaddrBase)
      (add64 (roundPageUp vaddrBase) (roundPageDown size))
  | _ => True

/-- Page `p` is a level-`l` table of one of the roots. -/
def World.Table (T : Pgtable) (w : World) (l p : Nat) : Prop :=
  ∃ r ∈ w.roots, Reach 512 3 (slotOf T w.st.mem) r l p

/-- What holds between calls. -/
structure Quiescent (T : Pgtable) (w : World) : Prop where
  /-- The set bits are the tables: nothing leaks, nothing is freed too early. -/
  pages : ∀ p, w.st.pool.Allocated p ↔ ∃ l, w.Table T l p
  /-- A table that is not a root has one entry that points to it. -/
  single : ∀ {l p}, w.Table T l p → p ∉ w.roots →
    ∃! a, ∃ l' q i, w.Table T l' q ∧ i < 512 ∧ a = (q, i) ∧ slotOf T w.st.mem l' q i = .table p
  /-- No PGTL0 or PGTL1 table is without entries. -/
  busy : ∀ {l p}, w.Table T l p → l ≤ 1 → ¬ Bare T w.st.mem p
  /-- A page that `alloc_page` would return is not in use. -/
  fresh : ∀ {p pool}, w.st.pool.take = some (p, pool) → ∀ l, ¬ w.Table T l p

/-! ## The invariant

The labelling that the proofs of the single calls carry along, with the two
facts that only hold of all tables together: every page of the pool that is
taken has a label, and the roots are the labels of level 3. -/

structure Account (T : Pgtable) (w : World) (L : Labels) : Prop where
  tree : Tree T w.st L
  labelled : ∀ p, ¬ (w.st.pool.Allocated p ∧ L p = none)
  roots : ∀ r, r ∈ w.roots ↔ L r = some ⟨r, 3, 0⟩
  busy : ∀ {q y}, L q = some y → y.lvl ≤ 1 → ¬ Bare T w.st.mem q

variable {w w' : World} {L L' : Labels}

variable (h : Account T w L) {s' : MmuState}

include h

theorem Account.table_iff {l p : Nat} : w.Table T l p ↔ ∃ y, L p = some y ∧ y.lvl = l := by
  refine ⟨fun ⟨r, hr, hreach⟩ => ?_, fun ⟨y, hp, hy⟩ => ?_⟩
  · obtain ⟨n, hp⟩ := h.tree.forest.label_of_reach ((h.roots r).mp hr) hreach
    exact ⟨_, hp, rfl⟩
  · obtain ⟨hroot, hreach⟩ := h.tree.forest.reach_of_label hp
    exact ⟨y.root, (h.roots _).mpr hroot, hy ▸ hreach⟩

theorem Account.quiescent : Quiescent T w := by
  refine ⟨fun p => ⟨fun ha => ?_, fun ⟨l, ht⟩ => ?_⟩, fun {l p} ht hnr => ?_,
    fun {l p} ht hl => ?_, fun {p pool} htake l ht => ?_⟩
  · cases hp : L p with
    | none => exact absurd ⟨ha, hp⟩ (h.labelled p)
    | some y => exact ⟨y.lvl, h.table_iff.mpr ⟨y, hp, rfl⟩⟩
  · obtain ⟨y, hp, -⟩ := h.table_iff.mp ht
    exact h.tree.alloc hp
  · obtain ⟨y, hp, -⟩ := h.table_iff.mp ht
    have hlt : y.lvl < 3 := by
      refine lt_of_le_of_ne (h.tree.forest.le_top hp) fun htop => hnr ?_
      rw [h.roots, hp, h.tree.forest.root hp htop]
    obtain ⟨q, z, i, hq, hi, -, -, hslot⟩ := h.tree.forest.parent hp hlt
    refine ⟨(q, i), ⟨z.lvl, q, i, h.table_iff.mpr ⟨z, hq, rfl⟩, hi, rfl, hslot⟩, ?_⟩
    rintro a ⟨l', q', i', ht', hi', ha, hslot'⟩
    obtain ⟨z', hq', hz'⟩ := h.table_iff.mp ht'
    subst hz' ha
    obtain ⟨hqq, hii⟩ := h.tree.forest.parent_unique hq' hq hi' hi hslot' hslot
    rw [hqq, hii]
  · obtain ⟨y, hp, hy⟩ := h.table_iff.mp ht
    exact h.busy hp (hy ▸ hl)
  · obtain ⟨y, hp, -⟩ := h.table_iff.mp ht
    exact PagePool.not_allocated_of_free (PagePool.take_spec htake).1 (h.tree.alloc hp)

theorem Account.step {r : Nat} (hstep : Step T r 3 (fun _ => False) w.st L s' L') :
    Account T ⟨s', w.roots⟩ L' := by
  refine ⟨hstep.tree, fun p hp => h.labelled p ((hstep.foreign p).mp hp),
    fun q => ?_, fun hq hy hb => ?_⟩
  · rw [h.roots q]
    exact (hstep.keeps fun hc => absurd hc.2 (by simp)).symm
  · obtain ⟨hq', hb'⟩ := hstep.bare (id) hq hy hb
    exact h.busy hq' hy hb'

theorem Account.createRoot {c : Nat} (hc : Completes (pgtableCreateRoot T) w.st c s') :
    ∃ L', Account T ⟨s', c :: w.roots⟩ L' := by
  obtain ⟨hval, hst, hclean⟩ := hc
  have hruns : Runs w.st L 0 (pgtableCreateRoot T) w.st _ (fun _ => True) :=
    allocPage_runs fun hc => .inr hc
  obtain ⟨hfree, halloc, -, hfill⟩ := hruns.returned (fun t ht heq => hclean (heq ▸ ht)) hval
  rw [hst] at halloc hfill
  have hnone := h.tree.label_free hfree
  have hne : ∀ {q y}, L q = some y → q ≠ c := by
    intro q y hq hqc
    rw [hqc, hnone] at hq
    cases hq
  have hsame : ∀ {q y j}, L q = some y → j < 512 →
      s'.mem (entryAt q j) = w.st.mem (entryAt q j) := by
    intro q y j hq hj
    refine hfill.there _ fun j' _ hj' heq => hne hq ?_
    exact (entryAt_inj (h.tree.page_aligned hq) hfree.addressable.1 hj hj' heq).1
  have hold : ∀ {q y}, L q = some y → s'.pool.Allocated q :=
    fun hq => (halloc _).mpr (.inl (h.tree.alloc hq))
  refine ⟨Function.update L c (some ⟨c, 3, 0⟩), ?_, ?_, ?_, ?_⟩
  · exact h.tree.addRoot hnone (fun j hj => hfill.here j (Nat.zero_le j) hj) hsame
      hold ((halloc c).mpr (.inr rfl))
  · rintro q ⟨ha, hq⟩
    by_cases hqc : q = c
    · rw [hqc, Function.update_self] at hq
      cases hq
    · rw [Function.update_of_ne hqc] at hq
      exact h.labelled q ⟨((halloc q).mp ha).resolve_right hqc, hq⟩
  · intro q
    by_cases hqc : q = c
    · simp [hqc]
    · rw [Function.update_of_ne hqc, ← h.roots q]
      simp [hqc]
  · intro q y hq hy hb
    rcases of_update_some hq with ⟨-, rfl⟩ | hq
    · simp at hy
    · refine h.busy hq hy fun j hj => ?_
      rw [← hsame hq hj]
      exact hb j hj

/-- Every call keeps the account, if its modify or delete is on tables. -/
theorem Account.call {c : Call} (hon : c.OnTables T w) (hcall : Calls T c w w') :
    ∃ L', Account T w' L' := by
  cases hcall with
  | createRoot hc => exact h.createRoot hc
  | @addMap _ s' r paddrBase vaddrBase size prot fuel hr hprot hc =>
    obtain ⟨hval, hst, hclean⟩ := hc
    have hruns : Runs w.st L r (pgtableAddMap T fuel r paddrBase vaddrBase size prot) w.st _
        (fun _ => True) :=
      addMapLoop_runs 0 0 hprot h.tree ((h.roots r).mp hr) (.inl trivial)
    obtain ⟨L', hstep, -⟩ := hruns.returned (fun t ht heq => hclean (heq ▸ ht)) hval
    exact ⟨L', h.step (hst ▸ hstep)⟩
  | @modifyOrDelMap _ s' r vaddrBase size ch fuel hr hok hc =>
    obtain ⟨hval, hst, hclean⟩ := hc
    have hruns : Runs w.st L r (pgtableModifyOrDelMap T fuel r vaddrBase size ch) w.st _
        (fun _ => True) :=
      modifyOrDelMapLoop_runs hok h.tree ((h.roots r).mp hr) (roundPageUp_lt _) hon (.inl trivial)
    obtain ⟨L', hstep, -⟩ := hruns.returned (fun t ht heq => hclean (heq ▸ ht)) hval
    exact ⟨L', h.step (hst ▸ hstep.mono (by omega) fun _ => id)⟩

omit h

/-! ## Whole sequences -/

/-- A pool as `init_page_pool` leaves it, over any memory, and no tables yet. -/
def World.init (mem : Nat → Word) (pageBase pageNum : Nat)
    (haligned : pageBase % 4096 = 0)
    (hbelow : pageBase + 64 * (pageNum / 8 / 8) * 4096 ≤ 2 ^ 48) : World :=
  ⟨⟨mem, initPagePool pageBase pageNum haligned hbelow⟩, []⟩

theorem World.init_account (T : Pgtable) {mem : Nat → Word} {pageBase pageNum : Nat}
    {haligned : pageBase % 4096 = 0} {hbelow : pageBase + 64 * (pageNum / 8 / 8) * 4096 ≤ 2 ^ 48} :
    Account T (World.init mem pageBase pageNum haligned hbelow) fun _ => none := by
  refine ⟨Tree.nil T _, ?_, by simp [World.init], fun hq => absurd hq (by simp)⟩
  rintro p ⟨⟨n, _, _, hused⟩, _⟩
  simp [World.init, initPagePool, PagePool.used] at hused

/-- In every sequence of calls on a fresh pool whose modifies and deletes are
all on tables, every state between two calls is quiescent. -/
theorem quiescent_of_calls {mem : Nat → Word} {pageBase pageNum : Nat}
    {haligned : pageBase % 4096 = 0}
    {hbelow : pageBase + 64 * (pageNum / 8 / 8) * 4096 ≤ 2 ^ 48}
    (h : Relation.ReflTransGen (fun w w' => ∃ c : Call, c.OnTables T w ∧ Calls T c w w')
      (World.init mem pageBase pageNum haligned hbelow) w) : Quiescent T w := by
  have hinv : ∃ L, Account T w L := by
    induction h with
    | refl => exact ⟨_, World.init_account T⟩
    | tail _ hcall ih =>
      obtain ⟨L, hacc⟩ := ih
      obtain ⟨c, hon, hc⟩ := hcall
      exact hacc.call hon hc
  obtain ⟨L, hacc⟩ := hinv
  exact hacc.quiescent

section Sample

open Arm64

def freshWorld (mem : Nat → Word) : World :=
  World.init mem 0x1000 64 (smallPool 0).aligned (by decide)

theorem completes_of {α : Type} {m : MmuM α} {s : MmuState} {a : α}
    (hval : (m s).val = .ok a) (hclean : Event.assertFailed ∉ (m s).trace) :
    Completes m s a (m s).st :=
  ⟨hval, rfl, hclean⟩

/-- A root, a 1 GiB block in it, and the first 2 MiB taken out again. -/
theorem quiescent_of_three_calls : ∃ s, Relation.ReflTransGen
      (fun w w' => ∃ c : Call, c.OnTables pptPgtable w ∧ Calls pptPgtable c w w')
      (freshWorld fun _ => 0) ⟨s, [0x1000]⟩ ∧
    Quiescent pptPgtable ⟨s, [0x1000]⟩ := by
  have h1 : Completes (pgtableCreateRoot pptPgtable) (freshWorld fun _ => 0).st
      0x1000 _ := completes_of (by decide +kernel) (by decide +kernel)
  have h2 : Completes (pgtableAddMap pptPgtable 2 0x1000 0x40000000 0 0x40000000
      PAGE_ATTR_NORMAL) (pgtableCreateRoot pptPgtable (freshWorld fun _ => 0).st).st
      () _ := completes_of (by decide +kernel) (by decide +kernel)
  have h3 : Completes (pgtableModifyOrDelMap pptPgtable 2 0x1000 0 0x200000
      ⟨.del, 0, 0⟩) (pgtableAddMap pptPgtable 2 0x1000 0x40000000 0 0x40000000 PAGE_ATTR_NORMAL
        (pgtableCreateRoot pptPgtable (freshWorld fun _ => 0).st).st).st () _ :=
    completes_of (by decide +kernel) (by decide +kernel)
  have htop : pptPgtable.pgentryPresent ((pgtableAddMap pptPgtable 2 0x1000
      0x40000000 0 0x40000000 PAGE_ATTR_NORMAL (pgtableCreateRoot pptPgtable
        (freshWorld fun _ => 0).st).st).st.mem (entryAt 0x1000 0)) = true := by
    decide +kernel
  -- from here on the states are just states
  generalize (pgtableModifyOrDelMap pptPgtable 2 _ _ _ _ _).st = s3 at h3
  generalize (pgtableAddMap pptPgtable 2 _ _ _ _ _ _).st = s2 at h2 h3 htop
  generalize (pgtableCreateRoot pptPgtable _).st = s1 at h1 h2
  have hon : Call.OnTables pptPgtable ⟨s2, [0x1000]⟩
      (.modifyOrDelMap 0x1000 0 0x200000 ⟨.del, 0, 0⟩) := by
    intro va hcov
    have hzero : levelIndex 3 va = 0 := by
      have := hcov.2.1
      simp only [roundPageUp, roundPageDown, alignDown, add64] at this
      simp only [levelIndex, levelSize]
      omega
    rw [hzero]
    exact htop
  have hrun : Relation.ReflTransGen
      (fun w w' => ∃ c : Call, c.OnTables pptPgtable w ∧ Calls pptPgtable c w w')
      (freshWorld fun _ => 0) ⟨s3, [0x1000]⟩ :=
    ((Relation.ReflTransGen.single ⟨.createRoot, trivial, .createRoot h1⟩).tail
      ⟨.addMap .., trivial, .addMap (List.mem_singleton.mpr rfl)
        (show PAGE_ATTR_NORMAL &&& PTE_PFN_MASK = 0 by decide) h2⟩).tail
      ⟨_, hon, .modifyOrDelMap (List.mem_singleton.mpr rfl) (fun h => absurd h (by simp)) h3⟩
  exact ⟨s3, hrun, quiescent_of_calls hrun⟩

/-- Memory whose first word happens to look like a pointer to the root. -/
def strayMem (a : Nat) : Word :=
  if a = 0 then pptSetPgentry 0x1000 0 2 false else 0

theorem free_root_of {s1 s2 : MmuState} (hw : w.roots = [])
    (h1 : Completes (pgtableCreateRoot pptPgtable) w.st 0x1000 s1)
    (h2 : Completes (pgtableModifyOrDelMap pptPgtable 2 0x1000 0 0x1000
      ⟨.del, 0, 0⟩) s1 () s2) (hstart : s2.pool.startPage = 0x1000)
    (hbit : s2.pool.used 0 = false) :
    Relation.ReflTransGen (fun w w' => ∃ c : Call, Calls pptPgtable c w w') w ⟨s2, [0x1000]⟩ ∧
    ¬ s2.pool.Allocated 0x1000 ∧ ¬ Quiescent pptPgtable ⟨s2, [0x1000]⟩ := by
  have hfree : ¬ s2.pool.Allocated 0x1000 := by
    rintro ⟨n, _, hp, hused⟩
    have hn : n = 0 := by
      rw [PagePool.page] at hp
      omega
    rw [hn, hbit] at hused
    cases hused
  have hroot := Calls.createRoot h1
  rw [hw] at hroot
  refine ⟨(Relation.ReflTransGen.single ⟨.createRoot, hroot⟩).tail
    ⟨_, .modifyOrDelMap (List.mem_singleton.mpr rfl) (fun h => absurd h (by simp)) h2⟩,
    hfree, fun hq => ?_⟩
  exact hfree ((hq.pages 0x1000).mpr ⟨3, 0x1000, List.mem_singleton.mpr rfl, .root⟩)

/-- There, a delete in the empty root gives the root back to the pool. -/
theorem calls_free_root : ∃ s,
    Relation.ReflTransGen (fun w w' => ∃ c : Call, Calls pptPgtable c w w')
      (freshWorld strayMem) ⟨s, [0x1000]⟩ ∧
    ¬ s.pool.Allocated 0x1000 ∧ ¬ Quiescent pptPgtable ⟨s, [0x1000]⟩ := by
  have hdel :
      let r := pgtableModifyOrDelMap pptPgtable 2 0x1000 0 0x1000 ⟨.del, 0, 0⟩
        (pgtableCreateRoot pptPgtable (freshWorld strayMem).st).st
      (r.val = .ok () ∧ Event.assertFailed ∉ r.trace) ∧ r.st.pool.startPage = 0x1000 ∧
        r.st.pool.used 0 = false := by
    decide +kernel
  exact ⟨_, free_root_of rfl (completes_of (by decide +kernel) (by decide +kernel))
    (completes_of hdel.1.1 hdel.1.2) hdel.2.1 hdel.2.2⟩

end Sample

end Sima.Mmu
