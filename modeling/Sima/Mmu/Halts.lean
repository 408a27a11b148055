import Mathlib.Logic.Relation
import Sima.Mmu.Footprint

/-!
# Whether the outer loop comes to an end

`pgtable_modify_or_del_map` goes from one PGTL3 entry to the next in a `while` loop that
has no bound of its own. It ends because each turn moves the address up — if it does.
There are two turns that do not. On an absent entry `MR_MODIFY` only fails an assertion,
which a release build leaves out, and the next turn finds what this one found. And past
the last multiple of 512 GiB the address of the next entry wraps around to zero.

A loop with fuel ends if, from some fuel on, more of it makes no difference. The turns are
a relation on the state and the address at the head of the loop, so that what one of them
does can be said about the state it finds.
-/

namespace Sima.Mmu

open Lib Prog

variable {T : Pgtable} {ch : Change} {root vaddrEnd fuel vaddr : Nat} {s : MmuState}

/-- One turn of the `while` loop, with the address it leaves. -/
def mapTurn (T : Pgtable) (ch : Change) (root vaddrEnd vaddr : Nat) : MmuM Nat := do
  let e ← readEntry (entryAt root (levelIndex 3 vaddr))
  if T.pgentryPresent e = false ∧ ch.type = .modify then
    emit .assertFailed
    pure vaddr
  else
    modifyOrDelPgtl2 T ch vaddrEnd (entryAt root (levelIndex 3 vaddr)) vaddr
    pure (vaddrNext 3 vaddr)

/-- A turn that was gone through, from one head of the loop to the next. -/
def Turn (T : Pgtable) (ch : Change) (root vaddrEnd : Nat) (x y : MmuState × Nat) : Prop :=
  x.2 < vaddrEnd ∧ (mapTurn T ch root vaddrEnd x.2 x.1).val = .ok y.2 ∧
    (mapTurn T ch root vaddrEnd x.2 x.1).st = y.1

/-- What a turn needs to move on. -/
def Proceeds (T : Pgtable) (ch : Change) (root : Nat) (x : MmuState × Nat) : Prop :=
  (ch.type = .modify → T.pgentryPresent (x.1.mem (entryAt root (levelIndex 3 x.2))) = true) ∧
    x.2 < 2 ^ 64 - 2 ^ 39

theorem modifyOrDelMapLoop_succ (hv : vaddr < vaddrEnd) :
    modifyOrDelMapLoop T ch root vaddrEnd (fuel + 1) vaddr =
      mapTurn T ch root vaddrEnd vaddr >>= modifyOrDelMapLoop T ch root vaddrEnd fuel := by
  rw [modifyOrDelMapLoop, if_pos hv, mapTurn, bind_assoc]
  refine congrArg (readEntry _ >>= ·) (funext fun e => ?_)
  split
  · rfl
  · rw [bind_assoc]
    rfl

theorem mapTurn_val {v : Nat} (h : (mapTurn T ch root vaddrEnd vaddr s).val = .ok v) :
    v = if T.pgentryPresent (s.mem (entryAt root (levelIndex 3 vaddr))) = false ∧
        ch.type = .modify then vaddr else vaddrNext 3 vaddr := by
  have hread : (readEntry (entryAt root (levelIndex 3 vaddr)) s).val =
      .ok (s.mem (entryAt root (levelIndex 3 vaddr))) := rfl
  rw [mapTurn, (bind_ok hread).1] at h
  split at h
  · next hno =>
    rw [if_pos hno]
    exact (Except.ok.inj h).symm
  rename_i hgo
  rw [if_neg hgo]
  revert h
  cases hbody : (modifyOrDelPgtl2 T ch vaddrEnd (entryAt root (levelIndex 3 vaddr)) vaddr
      (readEntry (entryAt root (levelIndex 3 vaddr)) s).st).val with
  | error f => exact fun h => by rw [bind_error hbody] at h; cases h
  | ok u => exact fun h => by rw [bind_eq hbody] at h; exact (Except.ok.inj h).symm

theorem vaddrNext_lt_iff (hv : vaddr < 2 ^ 64) :
    vaddr < vaddrNext 3 vaddr ↔ vaddr < 2 ^ 64 - 2 ^ 39 := by
  rw [vaddrNext_three]
  omega

theorem turn_advances_iff {x y : MmuState × Nat} (hend : vaddrEnd < 2 ^ 64)
    (h : Turn T ch root vaddrEnd x y) : x.2 < y.2 ↔ Proceeds T ch root x := by
  obtain ⟨hv, hval, -⟩ := h
  rw [mapTurn_val hval]
  split
  · next hno =>
    refine iff_of_false (lt_irrefl _) fun hp => ?_
    rw [hp.1 hno.2] at hno
    cases hno.1
  · next hgo =>
    rw [vaddrNext_lt_iff (lt_trans hv hend)]
    refine (and_iff_right fun hm => ?_).symm
    exact Bool.of_not_eq_false fun hno => hgo ⟨hno, hm⟩

/-- If every turn moves the address up, the loop ends. The induction is on what is left of
the range. -/
theorem modifyOrDelMapLoop_halts
    (hup : ∀ x y, Relation.ReflTransGen (Turn T ch root vaddrEnd) (s, vaddr) x →
      Turn T ch root vaddrEnd x y → x.2 < y.2) :
    ∃ n, ∀ k, modifyOrDelMapLoop T ch root vaddrEnd (n + k) vaddr s =
      modifyOrDelMapLoop T ch root vaddrEnd n vaddr s := by
  induction hgap : vaddrEnd - vaddr using Nat.strong_induction_on generalizing s vaddr with
  | _ gap ih =>
    by_cases hv : vaddr < vaddrEnd
    · cases hrun : (mapTurn T ch root vaddrEnd vaddr s).val with
      | error f =>
        refine ⟨1, fun k => ?_⟩
        rw [add_comm 1 k, modifyOrDelMapLoop_succ hv, modifyOrDelMapLoop_succ hv,
          bind_error hrun, bind_error hrun]
      | ok v =>
        have hturn : Turn T ch root vaddrEnd (s, vaddr)
            ((mapTurn T ch root vaddrEnd vaddr s).st, v) := ⟨hv, hrun, rfl⟩
        have hlt : vaddr < v := hup _ _ .refl hturn
        obtain ⟨n, hn⟩ := ih (vaddrEnd - v) (by omega) (fun x y hx => hup x y (.head hturn hx)) rfl
        refine ⟨n + 1, fun k => ?_⟩
        rw [add_right_comm, modifyOrDelMapLoop_succ hv, modifyOrDelMapLoop_succ hv,
          bind_eq hrun, bind_eq hrun, hn k]
    · refine ⟨1, fun k => ?_⟩
      rw [add_comm 1 k, modifyOrDelMapLoop, if_neg hv, modifyOrDelMapLoop, if_neg hv]

/-- For every table state and range: the function comes to an end with every turn of its
outer loop moving the address up, exactly if every turn it goes through finds its entry
present (or deletes) and is not the last one below `2 ^ 64`. -/
theorem pgtableModifyOrDelMap_halts_iff {vaddrBase size : Nat} :
    ((∃ n, ∀ k, pgtableModifyOrDelMap T (n + k) root vaddrBase size ch s =
        pgtableModifyOrDelMap T n root vaddrBase size ch s) ∧
      ∀ x y, Relation.ReflTransGen
          (Turn T ch root (add64 (roundPageUp vaddrBase) (roundPageDown size)))
          (s, roundPageUp vaddrBase) x →
        Turn T ch root (add64 (roundPageUp vaddrBase) (roundPageDown size)) x y → x.2 < y.2) ↔
    ∀ x y, Relation.ReflTransGen
        (Turn T ch root (add64 (roundPageUp vaddrBase) (roundPageDown size)))
        (s, roundPageUp vaddrBase) x →
      Turn T ch root (add64 (roundPageUp vaddrBase) (roundPageDown size)) x y →
        Proceeds T ch root x := by
  have hend : add64 (roundPageUp vaddrBase) (roundPageDown size) < 2 ^ 64 :=
    Nat.mod_lt _ (by decide)
  refine ⟨fun h x y hx hy => (turn_advances_iff hend hy).mp (h.2 x y hx hy), fun h => ?_⟩
  refine ⟨modifyOrDelMapLoop_halts fun x y hx hy => ?_, fun x y hx hy => ?_⟩ <;>
    exact (turn_advances_iff hend hy).mpr (h x y hx hy)

/-- Over a well-formed table whose top-level entries for the range are present, 513 turns are
enough: one for each entry of the root, and one to see the end. -/
theorem pgtableModifyOrDelMap_halts {vaddrBase size : Nat} (hok : ch.Ok T)
    (hw : WellFormed T s root) (hend : roundPageUp vaddrBase + roundPageDown size ≤ 2 ^ 48)
    (htop : TopPresent T s.mem root (roundPageUp vaddrBase)
      (roundPageUp vaddrBase + roundPageDown size))
    (hpool : Event.assertFailed ∉ (pgtableModifyOrDelMap T 513 root vaddrBase size ch s).trace)
    (k : Nat) : pgtableModifyOrDelMap T (513 + k) root vaddrBase size ch s =
      pgtableModifyOrDelMap T 513 root vaddrBase size ch s := by
  obtain ⟨L, hT, -, hr⟩ := hw
  rw [pgtableModifyOrDelMap, pgtableModifyOrDelMap]
  rw [pgtableModifyOrDelMap] at hpool
  rw [add64_range hend] at hpool ⊢
  obtain ⟨_, hval, -⟩ := (modifyOrDelMapLoop_runs (E := fun _ => False) hok hT hr
    (roundPageUp_lt _) htop (.inr (by omega))).run fun t ht heq => hpool (heq ▸ ht)
  induction k with
  | zero => rfl
  | succ k ih =>
    -- a run that has returned is the same with one more turn to spare
    rcases modifyOrDelMapLoop_extends (513 + k) _ s with heq | ⟨⟨e, he⟩, -⟩
    · exact heq.symm.trans ih
    · rw [ih, hval] at he
      cases he

/-! ### An absent entry -/

/-- A turn that stays where it is leaves the memory as it is, so there is no end to it. -/
theorem modifyOrDelMapLoop_stays (hv : vaddr < vaddrEnd) (hm : ch.type = .modify)
    (hno : T.pgentryPresent (s.mem (entryAt root (levelIndex 3 vaddr))) = false) (n : Nat) :
    (modifyOrDelMapLoop T ch root vaddrEnd n vaddr s).val = .error .fuel := by
  have hread : (readEntry (entryAt root (levelIndex 3 vaddr)) s).val =
      .ok (s.mem (entryAt root (levelIndex 3 vaddr))) := rfl
  have hturn : mapTurn T ch root vaddrEnd vaddr s =
      ⟨.ok vaddr, s, [.access (entryAt root (levelIndex 3 vaddr)), .assertFailed]⟩ := by
    rw [mapTurn, bind_eq hread, if_pos ⟨hno, hm⟩]
    rfl
  induction n with
  | zero => rfl
  | succ n ih =>
    rw [modifyOrDelMapLoop_succ hv, (bind_ok (by rw [hturn])).1, hturn]
    exact ih

section Sample

open Arm64

/-- In an empty table, changing the attributes of the first page never ends; and from the
last page but one below `2 ^ 64` the next address is 0. -/
theorem modify_bare_never_ends :
    (∀ n, (pgtableModifyOrDelMap pptPgtable n 0x1000 0 0x1000 ⟨.modify, 0, 0⟩ bareTable).val =
      .error .fuel) ∧ vaddrNext 3 (roundPageUp (2 ^ 64 - 0x2000)) = 0 :=
  ⟨modifyOrDelMapLoop_stays (by decide) rfl (by decide), by decide⟩

end Sample

end Sima.Mmu
