import Sima.Mmu.ModifyMap

/-!
# What a delete touches

A table walk may touch table pages and nothing else. For `MR_DEL` this hangs on
the caller: the outer loop does not look whether a top-level entry is present
before it goes down, and what it finds in an absent one is the sanitized word.
On ARM64 that is zero, so the walk takes physical page 0 for a PGTL2 table,
reads it, and acts on what it reads.

`del_keepsToTables_iff` says that this is the only way out: a delete keeps to
the tables exactly if the top-level entries it visits are all present.
-/

namespace Sima.Mmu

open Lib

variable {T : Pgtable} {s : MmuState} {L : Labels} {ch : Change}
  {r vaddr vaddrEnd va : Nat}

/-- An access lies in a table page that can be reached from `root`, or in one
of the free pages that the call takes to hang them in. -/
def InTables (T : Pgtable) (s : MmuState) (root : Nat) (t : Event) : Prop :=
  ∀ a, t = .access a → ∃ p i, i < 512 ∧ a = entryAt p i ∧
    ((∃ l, Reach 512 3 (slotOf T s.mem) root l p) ∨ s.pool.Free p)

/-- However far the call gets, it keeps to the tables, and the absent entries of
the root are none of its business. -/
def KeepsToTables (T : Pgtable) (s : MmuState) (root vaddrBase size : Nat)
    (ch : Change) : Prop :=
  ∀ fuel,
    (∀ t ∈ (pgtableModifyOrDelMap T fuel root vaddrBase size ch s).trace, InTables T s root t) ∧
    ((pgtableModifyOrDelMap T fuel root vaddrBase size ch s).val = .ok () →
      ∀ i < 512, T.pgentryPresent (s.mem (entryAt root i)) = false →
        (pgtableModifyOrDelMap T fuel root vaddrBase size ch s).st.mem
          (entryAt root i) = s.mem (entryAt root i))

/-! ## With the entries present -/

theorem ownedWord_inTables (hT : Tree T s L) {t : Event}
    (h : OwnedWord s L r t) : InTables T s r t := by
  intro a ha
  obtain ⟨p, i, hi, hai, hown⟩ := h a ha
  refine ⟨p, i, hi, hai, ?_⟩
  rcases hown with ⟨y, hp, hy⟩ | hfree
  · refine .inl ⟨y.lvl, ?_⟩
    rw [← hy]
    exact (hT.forest.reach_of_label hp).2
  · exact .inr hfree

theorem Step.top_absent {s' : MmuState} {L' : Labels} {X : Nat → Prop} {i : Nat}
    (h : Step T r 2 X s L s' L') (hT : Tree T s L) (hr : L r = some ⟨r, 3, 0⟩)
    (hi : i < 512) (habs : T.pgentryPresent (s.mem (entryAt r i)) = false) :
    s'.mem (entryAt r i) = s.mem (entryAt r i) := by
  have habs' := h.top_present hT hr hi
  rw [habs] at habs'
  have hend : (slotOf T s.mem 3 r i).Ends := by
    rw [slotOf, classify_absent habs]
    exact trivial
  have hend' : (slotOf T s'.mem 3 r i).Ends := by
    rw [slotOf, classify_absent habs']
    exact trivial
  -- an absent entry of a tree holds the sanitized word, before and after
  rw [(hT.ends hr hi hend).absent habs, (h.tree.ends (h.label hr (by simp)) hi hend').absent habs']

theorem keepsToTables_of_topPresent {root vaddrBase size : Nat}
    (hok : ch.Ok T) (hT : Tree T s L) (hr : L root = some ⟨root, 3, 0⟩)
    (htop : TopPresent T s.mem root (roundPageUp vaddrBase)
      (add64 (roundPageUp vaddrBase) (roundPageDown size))) (hpool : ∀ fuel, Event.assertFailed ∉
      (pgtableModifyOrDelMap T fuel root vaddrBase size ch s).trace) :
    KeepsToTables T s root vaddrBase size ch := by
  intro fuel
  have hruns : Runs s L root (pgtableModifyOrDelMap T fuel root vaddrBase size ch) s
      _ (fun _ => True) :=
    modifyOrDelMapLoop_runs hok hT hr (roundPageUp_lt _) htop (.inl trivial)
  have hns : ∀ t ∈ (pgtableModifyOrDelMap T fuel root vaddrBase size ch s).trace,
      ¬ t = Event.assertFailed := fun t ht heq => hpool fuel (heq ▸ ht)
  refine ⟨fun t ht => ownedWord_inTables hT (upto_forall hruns.upto hns t ht), ?_⟩
  intro hval i hi habs
  obtain ⟨L', hstep, -⟩ := hruns.returned hns hval
  exact hstep.top_absent hT hr hi habs

/-! ## With an entry absent -/

theorem readEntry_trace {f : Word → MmuM Unit} (a : Nat) (s : MmuState) :
    ((readEntry a >>= f) s).trace = .access a :: (f (s.mem a) s).trace := by
  rfl

/-- Going down an entry, whatever it holds, reads the page its address bits
name. -/
theorem modifyOrDelPgtl2_reads (pgtl3e : Nat) :
    .access (entryAt (T.pgtlPagePaddr (s.mem pgtl3e)) (levelIndex 2 vaddr)) ∈
      (modifyOrDelPgtl2 T ch vaddrEnd pgtl3e vaddr s).trace := by
  have hi := levelIndex_lt 2 vaddr
  obtain ⟨n, hn⟩ : ∃ n, 512 - levelIndex 2 vaddr = n + 1 := ⟨511 - levelIndex 2 vaddr, by omega⟩
  rw [modifyOrDelPgtl2, readEntry_trace]
  refine List.mem_cons_of_mem _ ?_
  rw [modifyOrDelLoop, hn]
  refine (Prog.trace_begins _ _ s).mem ?_
  exact List.mem_cons_self

theorem modifyOrDelMapLoop_strays_here (hdel : ch.type = .del) (hT : Tree T s L)
    (hr : L r = some ⟨r, 3, 0⟩) (hlt : vaddr < vaddrEnd)
    (habs : T.pgentryPresent (s.mem (entryAt r (levelIndex 3 vaddr))) = false) :
    ∃ fuel j, j < 512 ∧ .access (entryAt (T.pgtlPagePaddr T.sanitizedPageHpa) j) ∈
      (modifyOrDelMapLoop T ch r vaddrEnd fuel vaddr s).trace := by
  have hi := levelIndex_lt 3 vaddr
  have hword : s.mem (entryAt r (levelIndex 3 vaddr)) = T.sanitizedPageHpa := by
    refine (hT.ends hr hi ?_).absent habs
    rw [slotOf, classify_absent habs]
    exact trivial
  refine ⟨1, levelIndex 2 vaddr, levelIndex_lt 2 vaddr, ?_⟩
  rw [modifyOrDelMapLoop, if_pos hlt, readEntry_trace]
  refine List.mem_cons_of_mem _ ?_
  rw [if_neg (by simp [hdel]), ← hword]
  exact (Prog.trace_begins _ _ s).mem (modifyOrDelPgtl2_reads _)

/-- The number of 512 GiB steps from `vaddr` to `va`, going round. -/
def stepsTo (vaddr va : Nat) : Nat :=
  (va / 2 ^ 39 + 2 ^ 25 - vaddr / 2 ^ 39) % 2 ^ 25

/-- One step on, the goal is still ahead and one step nearer. -/
theorem Covered.step {d : Nat} (hend : vaddrEnd < 2 ^ 64)
    (hcov : Covered vaddr vaddrEnd va) (hd : d + 1 = stepsTo vaddr va) :
    Covered (vaddrNext 3 vaddr) vaddrEnd va ∧ d = stepsTo (vaddrNext 3 vaddr) va := by
  obtain ⟨hlt, hva, hcase⟩ := hcov
  have hnext := vaddrNext_three vaddr
  rw [stepsTo] at hd ⊢
  by_cases hlast : vaddr / 2 ^ 39 = 2 ^ 25 - 1
  · have hzero : vaddrNext 3 vaddr = 0 := by
      omega
    refine ⟨⟨?_, hva, ?_⟩, ?_⟩ <;> omega
  have hup : vaddrNext 3 vaddr = (vaddr / 2 ^ 39 + 1) * 2 ^ 39 := by
    omega
  have hdiv : vaddrNext 3 vaddr / 2 ^ 39 = vaddr / 2 ^ 39 + 1 := by
    omega
  refine ⟨⟨?_, hva, ?_⟩, ?_⟩ <;> omega

theorem modifyOrDelMapLoop_strays (hdel : ch.type = .del) (hT : Tree T s L)
    (hr : L r = some ⟨r, 3, 0⟩) (hv : vaddr < 2 ^ 64) (hend : vaddrEnd < 2 ^ 64)
    (hcov : Covered vaddr vaddrEnd va)
    (habs : T.pgentryPresent (s.mem (entryAt r (levelIndex 3 va))) = false)
    (hpool : ∀ fuel, Event.assertFailed ∉
      (modifyOrDelMapLoop T ch r vaddrEnd fuel vaddr s).trace) :
    ∃ fuel j, j < 512 ∧ .access (entryAt (T.pgtlPagePaddr T.sanitizedPageHpa) j) ∈
      (modifyOrDelMapLoop T ch r vaddrEnd fuel vaddr s).trace := by
  have hok : ch.Ok T := fun h => absurd (hdel.symm.trans h) (by simp)
  have hindex : ∀ a, levelIndex 3 a = a / 2 ^ 39 % 512 := fun a => rfl
  obtain ⟨d, hd⟩ : ∃ d, d = stepsTo vaddr va := ⟨_, rfl⟩
  induction d generalizing vaddr s L with
  | zero =>
    refine modifyOrDelMapLoop_strays_here hdel hT hr hcov.1 ?_
    have hsame : levelIndex 3 vaddr = levelIndex 3 va := by
      rw [stepsTo] at hd
      rw [hindex, hindex]
      omega
    rw [hsame]
    exact habs
  | succ d ih =>
    by_cases hhere : T.pgentryPresent (s.mem (entryAt r (levelIndex 3 vaddr))) = false
    · exact modifyOrDelMapLoop_strays_here hdel hT hr hcov.1 hhere
    rw [Bool.not_eq_false] at hhere
    obtain ⟨c, hslot⟩ := (classify_three _).mp hhere
    have hi := levelIndex_lt 3 vaddr
    -- one turn: the entry is read, the tables below it are swept
    have hturn : ∀ fuel, (modifyOrDelMapLoop T ch r vaddrEnd (fuel + 1) vaddr s).trace =
          .access (entryAt r (levelIndex 3 vaddr)) :: ((modifyOrDelPgtl2 T ch vaddrEnd
              (entryAt r (levelIndex 3 vaddr)) vaddr >>= fun _ =>
              modifyOrDelMapLoop T ch r vaddrEnd fuel (vaddrNext 3 vaddr))
              s).trace := by
      intro fuel
      rw [modifyOrDelMapLoop, if_pos hcov.1, readEntry_trace, if_neg (by simp [hdel])]
    have hsweep := modifyOrDelPgtl2_runs (E := fun _ => False) hok hT hr rfl hi
      hslot vaddr vaddrEnd
    obtain ⟨_, hval, L', hstep, -⟩ := hsweep.run fun t ht heq =>
      hpool 1 (by
        rw [hturn]
        exact List.mem_cons_of_mem _ ((Prog.trace_begins _ _ s).mem (heq ▸ ht)))
    obtain ⟨hcov', hd'⟩ := hcov.step hend hd
    have hr' : L' r = some ⟨r, 3, 0⟩ := hstep.label hr (by simp)
    have habs' : T.pgentryPresent ((modifyOrDelPgtl2 T ch vaddrEnd
        (entryAt r (levelIndex 3 vaddr)) vaddr s).st.mem
          (entryAt r (levelIndex 3 va))) = false := by
      rw [hstep.top_present hT hr (levelIndex_lt 3 va)]
      exact habs
    have hv' : vaddrNext 3 vaddr < 2 ^ 64 := Nat.mod_lt _ (by omega)
    obtain ⟨fuel, j, hj, hmem⟩ := ih hstep.tree hr' hv' hcov' habs'
      (fun fuel hmem => hpool (fuel + 1) (by
        rw [hturn, (Prog.bind_ok hval).2]
        exact List.mem_cons_of_mem _ (List.mem_append_right _ hmem))) hd'
    refine ⟨fuel + 1, j, hj, ?_⟩
    rw [hturn, (Prog.bind_ok hval).2]
    exact List.mem_cons_of_mem _ (List.mem_append_right _ hmem)

/-- A delete keeps to the tables exactly if the top-level entries it visits are
present, provided that what the sanitized word points to is not itself a page
of the pool. -/
theorem del_keepsToTables_iff {root vaddrBase size : Nat} (hdel : ch.type = .del)
    (hw : WellFormed T s root)
    (hsan : ∀ n < 64 * s.pool.bitmapSize, s.pool.page n ≠ T.pgtlPagePaddr T.sanitizedPageHpa)
    (hpool : ∀ fuel, Event.assertFailed ∉
      (pgtableModifyOrDelMap T fuel root vaddrBase size ch s).trace) :
    KeepsToTables T s root vaddrBase size ch ↔ TopPresent T s.mem root (roundPageUp vaddrBase)
        (add64 (roundPageUp vaddrBase) (roundPageDown size)) := by
  obtain ⟨L, hT, -, hr⟩ := hw
  have hok : ch.Ok T := fun h => absurd (hdel.symm.trans h) (by simp)
  refine ⟨fun hkeeps va hcov => ?_, fun htop => keepsToTables_of_topPresent hok hT hr htop hpool⟩
  cases habs : T.pgentryPresent (s.mem (entryAt root (levelIndex 3 va))) with
  | true => rfl
  | false =>
    obtain ⟨fuel, j, hj, hmem⟩ := modifyOrDelMapLoop_strays hdel hT hr (roundPageUp_lt _)
      (Nat.mod_lt _ (by omega)) hcov habs hpool
    obtain ⟨p, i, hi, heq, hin⟩ := (hkeeps fuel).1 _ hmem _ rfl
    -- both kinds of page the access may lie in are pages of the pool
    have hpage : ∃ n < 64 * s.pool.bitmapSize, p = s.pool.page n := by
      rcases hin with ⟨l, hreach⟩ | ⟨n, hn, hp, -⟩
      · obtain ⟨_, hp⟩ := hT.forest.label_of_reach hr hreach
        obtain ⟨n, hn, hp, -⟩ := hT.alloc hp
        exact ⟨n, hn, hp⟩
      · exact ⟨n, hn, hp⟩
    obtain ⟨n, hn, hp⟩ := hpage
    refine absurd ?_ (hsan n hn)
    rw [← hp]
    exact (entryAt_inj (T.paddr_page _).1 (hp ▸ (PagePool.page_addressable hn).1) hj hi heq).1.symm

/-! ## Two tables -/

theorem modifyOrDelMapLoop_extends (fuel vaddr : Nat) :
    Prog.Extends (modifyOrDelMapLoop T ch r vaddrEnd fuel vaddr)
      (modifyOrDelMapLoop T ch r vaddrEnd (fuel + 1) vaddr) := by
  induction fuel generalizing vaddr with
  | zero => exact fun s => .inr ⟨⟨.fuel, rfl⟩, List.nil_prefix⟩
  | succ fuel ih =>
    rw [modifyOrDelMapLoop, modifyOrDelMapLoop]
    split
    · refine .bind _ fun e => ?_
      split <;> exact .bind _ fun _ => ih _
    · exact .refl _

section Sample

open Arm64

theorem smallPool_page (n m : Nat) :
    (smallPool n).page m ≠ pptPgtable.pgtlPagePaddr pptPgtable.sanitizedPageHpa := by
  have hzero : pptPgtable.pgtlPagePaddr pptPgtable.sanitizedPageHpa = 0 := by decide
  rw [PagePool.page]
  simp only [smallPool]
  omega

/-- In the table with one block, deleting the first 2 MiB keeps to the tables,
though a PGTL1 table has to be made for it. -/
theorem del_keepsToTables_block :
    KeepsToTables pptPgtable blockTable 0x1000 0 0x200000 ⟨.del, 0, 0⟩ ↔
      TopPresent pptPgtable blockTable.mem 0x1000 (roundPageUp 0)
        (add64 (roundPageUp 0) (roundPageDown 0x200000)) := by
  refine del_keepsToTables_iff rfl blockTable_wellFormed
    (fun n _ => smallPool_page 2 n) fun fuel hmem => ?_
  have hok : (pgtableModifyOrDelMap pptPgtable 2 0x1000 0 0x200000 ⟨.del, 0, 0⟩
      blockTable).val = .ok () := by decide +kernel
  have hclean : Event.assertFailed ∉ (pgtableModifyOrDelMap pptPgtable 2 0x1000 0
      0x200000 ⟨.del, 0, 0⟩ blockTable).trace := by decide +kernel
  exact hclean ((Prog.Extends.trace_of_ok
    (fun n => modifyOrDelMapLoop_extends n _) hok fuel).mem hmem)

/-- In an empty table, deleting the first page reads the word at physical
address 0, which is in no table and not in the pool. -/
theorem del_strays_bare : WellFormed pptPgtable bareTable 0x1000 ∧
      .access 0 ∈ (pgtableModifyOrDelMap pptPgtable 2 0x1000 0 0x1000 ⟨.del, 0, 0⟩
        bareTable).trace ∧
      ¬ InTables pptPgtable bareTable 0x1000 (.access 0) ∧
      ¬ KeepsToTables pptPgtable bareTable 0x1000 0 0x1000 ⟨.del, 0, 0⟩ := by
  have hread : .access 0 ∈ (pgtableModifyOrDelMap pptPgtable 2 0x1000 0 0x1000
      ⟨.del, 0, 0⟩ bareTable).trace := by decide +kernel
  have hout : ¬ InTables pptPgtable bareTable 0x1000 (.access 0) := by
    intro h
    obtain ⟨p, i, -, heq, hin⟩ := h 0 rfl
    have hp : p = 0 := by
      rw [entryAt] at heq
      omega
    subst hp
    rcases hin with ⟨l, hreach⟩ | ⟨m, -, hm, -⟩
    · obtain ⟨_, hl⟩ := (bareTable_tree _).forest.label_of_reach rfl hreach
      cases hl
    · exact smallPool_page 1 m hm.symm
  exact ⟨bareTable_wellFormed, hread, hout, fun h => hout ((h 2).1 _ hread)⟩

end Sample

end Sima.Mmu
