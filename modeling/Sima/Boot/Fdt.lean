import Mathlib.Data.List.Perm.Subperm
import Sima.Boot.Libfdt

/-!
# Reserved memory in the device tree

`fdt_get_rsvd_mem_regions` collects the memory that a device tree reserves: the children of
`/reserved-memory`, and the reservation block. The two loops write through one index and
share one status.

Nothing compares the index with the size of the array, so a tree with more regions than the
array has room for makes it write past the end. The second loop assigns the status of its
own step to the shared variable: a child that could not be read is forgotten as soon as
there is an entry in the reservation block. Of a child that lists several ranges only the
first is read. And an address and a size are taken to be two cells each, whatever
`/reserved-memory` says about them.
-/

namespace Sima.Boot

open Lib Node

def reservedMemory : Name := "reserved-memory".toList

def regProp : Name := "reg".toList

def addressCells : Name := "#address-cells".toList

def sizeCells : Name := "#size-cells".toList

/-- The room in `rsvd_regions`. -/
def maxFdtRsvdRegions : Nat := 16

inductive Status where
  | ok
  | einval
  | fdt (e : FdtErr)
  deriving DecidableEq

def cellAt (data : List Byte) (i : Nat) : BitVec 32 :=
  fdt32ToCpu (data.getD i 0) (data.getD (i + 1) 0) (data.getD (i + 2) 0) (data.getD (i + 3) 0)

def wordAt (data : List Byte) (i : Nat) : BitVec 64 :=
  (cellAt data i).setWidth 64 <<< 32 ||| (cellAt data (i + 4)).setWidth 64

/-- `fdt_read_reg_property`, of at least sixteen bytes. -/
def fdtReadRegProperty (data : List Byte) : Region := ⟨wordAt data 0, wordAt data 8⟩

/-- What a child of `/reserved-memory` adds to the output, by its `reg` property. -/
def addChildRegion (acc : List Region × Status) (reg : Option (List Byte)) :
    List Region × Status :=
  match reg with
  | some data =>
    if data.length ≥ 16 then (acc.1 ++ [fdtReadRegProperty data], acc.2)
    else (acc.1, .einval)
  | none => (acc.1, .einval)

/-- What an entry of the reservation block adds. -/
def addEntryRegion (acc : List Region × Status) (entry : Except FdtErr Region) :
    List Region × Status :=
  match entry with
  | .ok r => (acc.1 ++ [r], .ok)
  | .error e => (acc.1, .fdt e)

/-- `fdt_get_rsvd_mem_regions`: the slots that it writes, in order, and its result. -/
def fdtGetRsvdMemRegions (fdt : Fdt) : List Region × Status :=
  let memOff := fdtPathOffset fdt reservedMemory
  let acc :=
    if memOff.isPos then
      (fdtSubnodes fdt memOff).foldl
        (fun acc node => addChildRegion acc (fdtGetProperty fdt node regProp)) ([], .ok)
    else ([], .ok)
  (List.range (fdtNumMemRsv fdt)).foldl (fun acc i => addEntryRegion acc (fdtGetMemRsv fdt i)) acc

/-! ## What the tree reserves -/

/-- The node that `/reserved-memory` leads to. -/
def Fdt.rsvdNode (fdt : Fdt) : Option Node :=
  fdt.root.children.find? fun c => nodenameEq c.name reservedMemory

def Fdt.rsvdChildren (fdt : Fdt) : List Node :=
  match fdt.rsvdNode with
  | some n => n.children
  | none => []

/-- The region that is read from a child, if one can be. -/
def Node.region? (n : Node) : Option Region :=
  match n.getProp regProp with
  | some data => if data.length ≥ 16 then some (fdtReadRegProperty data) else none
  | none => none

/-- How many cells an address or a size has in the children of a node. -/
def Node.cells (n : Node) (name : Name) (dflt : Nat) : Nat :=
  match n.getProp name with
  | some data => (cellAt data 0).toNat
  | none => dflt

/-- A number of `c` cells. -/
def cellsAt (data : List Byte) (i c : Nat) : BitVec 64 :=
  (List.range c).foldl (fun x k => x <<< 32 ||| (cellAt data (i + 4 * k)).setWidth 64) 0

/-- All ranges that a child lists, of `a` cells for the address and `s` for the size. -/
def Node.ranges (a s : Nat) (n : Node) : List Region :=
  match n.getProp regProp with
  | some data => (List.range (data.length / (4 * (a + s)))).map fun i =>
    ⟨cellsAt data (4 * (a + s) * i) a, cellsAt data (4 * (a + s) * i + 4 * a) s⟩
  | none => []

/-- Everything that the tree reserves. -/
def Fdt.reserved (fdt : Fdt) : List Region :=
  match fdt.rsvdNode with
  | some n => n.children.flatMap (ranges (n.cells addressCells 2) (n.cells sizeCells 1)) ++
    fdt.rsvmap
  | none => fdt.rsvmap

/-- The addresses and the sizes below `/reserved-memory` have two cells each. -/
def Fdt.TwoCells (fdt : Fdt) : Prop :=
  ∀ n, fdt.rsvdNode = some n → n.cells addressCells 2 = 2 ∧ n.cells sizeCells 1 = 2

/-! ## What is collected -/

section Collected

variable {fdt : Fdt} {pre post : List Node} {n : Node} {name : Name}

theorem IsFirst.rsvdNode (h : IsFirst reservedMemory fdt.root.children pre n post) :
    fdt.rsvdNode = some n := by
  rw [Fdt.rsvdNode, h.split, List.find?_append, List.find?_eq_none.2]
  · simp [h.named]
  · intro c hc
    simp [h.before c hc]

theorem IsFirst.rsvdChildren (h : IsFirst reservedMemory fdt.root.children pre n post) :
    fdt.rsvdChildren = n.children := by
  rw [Fdt.rsvdChildren, h.rsvdNode]

theorem IsFirst.fdtPathOffset (h : IsFirst name fdt.root.children pre n post) :
    fdtPathOffset fdt name = .ok [pre.length] := by
  simp [Boot.fdtPathOffset, fdtSubnodeOffset, Offset.zero, Node.get, h.findIdx]

theorem fdtPathOffset_of_none (h : fdt.rsvdNode = none) :
    fdtPathOffset fdt reservedMemory = .error .notFound := by
  have hnone : (fdt.root.children.findIdx? fun c => nodenameEq c.name reservedMemory) = none := by
    rw [List.findIdx?_eq_none_iff]
    intro c hc
    simpa using List.find?_eq_none.1 h c hc
  simp [Boot.fdtPathOffset, fdtSubnodeOffset, Offset.zero, Node.get, hnone]

theorem rsvdNode_cases (fdt : Fdt) : fdt.rsvdNode = none ∨
    ∃ pre n post, IsFirst reservedMemory fdt.root.children pre n post := by
  cases hfind : fdt.root.children.findIdx? fun c => nodenameEq c.name reservedMemory with
  | none =>
    refine .inl (List.find?_eq_none.2 fun c hc => ?_)
    simpa using List.findIdx?_eq_none_iff.1 hfind c hc
  | some i => exact .inr (exists_isFirst hfind)

/-- The status after the children: an error once one of them could not be read. -/
def childStatus (l : List Node) : Status := if ∀ c ∈ l, c.region?.isSome then .ok else .einval

theorem foldl_addChildRegion (l : List Node) (out : List Region) (st : Status) :
    (l.map fun c => c.getProp regProp).foldl addChildRegion (out, st) =
      (out ++ l.filterMap region?, if ∀ c ∈ l, c.region?.isSome then st else .einval) := by
  induction l generalizing out st with
  | nil => simp
  | cons c l ih =>
    rw [List.map_cons, List.foldl_cons]
    cases hprop : c.getProp regProp with
    | none =>
      have hc : c.region? = none := by simp [region?, hprop]
      simp [addChildRegion, ih, hc]
    | some data =>
      by_cases hlen : data.length ≥ 16
      · have hc : c.region? = some (fdtReadRegProperty data) := by simp [region?, hprop, hlen]
        simp only [addChildRegion, if_pos hlen, ih]
        simp [hc]
      · have hc : c.region? = none := by simp [region?, hprop, hlen]
        simp only [addChildRegion, if_neg hlen, ih]
        simp [hc]

theorem foldl_addEntryRegion (l out : List Region) (st : Status) :
    (l.map Except.ok).foldl addEntryRegion (out, st) = (out ++ l, if l = [] then st else .ok) := by
  induction l generalizing out st with
  | nil => simp
  | cons r l ih =>
    rw [List.map_cons, List.foldl_cons, addEntryRegion, ih]
    simp

theorem Node.get_append (n : Node) (p q : Path) :
    n.get (p ++ q) = (n.get p).bind fun m => m.get q := by
  induction p generalizing n with
  | nil => rfl
  | cons i p ih =>
    rw [List.cons_append, get, get]
    cases n.children[i]? with
    | none => rfl
    | some c => exact ih c

theorem foldl_fdtSubnodes {p : Path} (h : fdt.root.get p = some n) (acc : List Region × Status) :
    (fdtSubnodes fdt (.ok p)).foldl
        (fun acc node => addChildRegion acc (fdtGetProperty fdt node regProp)) acc =
      (n.children.map fun c => c.getProp regProp).foldl addChildRegion acc := by
  have hmap : (fdtSubnodes fdt (.ok p)).map (fun node => fdtGetProperty fdt node regProp) =
      n.children.map fun c => c.getProp regProp := by
    refine List.ext_getElem (by simp [fdtSubnodes, h]) fun i hi hi' => ?_
    rw [List.length_map] at hi'
    simp [fdtSubnodes, fdtGetProperty, Node.get_append, h, Node.get, hi']
  rw [← hmap, List.foldl_map]

theorem foldl_fdtGetMemRsv (acc : List Region × Status) :
    (List.range (fdtNumMemRsv fdt)).foldl
        (fun acc i => addEntryRegion acc (fdtGetMemRsv fdt i)) acc =
      (fdt.rsvmap.map Except.ok).foldl addEntryRegion acc := by
  have hmap : (List.range (fdtNumMemRsv fdt)).map (fdtGetMemRsv fdt) =
      fdt.rsvmap.map Except.ok := by
    refine List.ext_getElem (by simp [fdtNumMemRsv]) fun i hi hi' => ?_
    rw [List.length_map] at hi'
    simp [fdtGetMemRsv, hi']
  rw [← hmap, List.foldl_map]

theorem fdtGetRsvdMemRegions_eq (fdt : Fdt) : fdtGetRsvdMemRegions fdt =
    (fdt.rsvdChildren.filterMap region? ++ fdt.rsvmap,
      if fdt.rsvmap = [] then childStatus fdt.rsvdChildren else .ok) := by
  rw [fdtGetRsvdMemRegions, foldl_fdtGetMemRsv]
  obtain hnone | ⟨pre, n, post, hn⟩ := rsvdNode_cases fdt
  · have hpos : Offset.isPos (.error .notFound) = false := rfl
    rw [fdtPathOffset_of_none hnone, hpos, foldl_addEntryRegion]
    simp [Fdt.rsvdChildren, hnone, childStatus]
  have hpos : Offset.isPos (.ok [pre.length]) = true := rfl
  have hget : fdt.root.get [pre.length] = some n := by simp [Node.get, hn.get]
  rw [hn.fdtPathOffset, hpos, if_pos rfl, foldl_fdtSubnodes hget,
    foldl_addChildRegion, foldl_addEntryRegion, hn.rsvdChildren, List.nil_append, childStatus]

end Collected

/-! ## Bound, completeness and status -/

/-- The number of slots that are written. -/
def Fdt.rsvdCount (fdt : Fdt) : Nat :=
  (fdt.rsvdChildren.countP fun c => c.region?.isSome) + fdt.rsvmap.length

section Ranges

variable {n : Node} {fdt : Fdt}

theorem reserved_of_twoCells (h : fdt.TwoCells) :
    fdt.reserved = fdt.rsvdChildren.flatMap (ranges 2 2) ++ fdt.rsvmap := by
  rw [Fdt.reserved, Fdt.rsvdChildren]
  split
  · next n hn => rw [(h n hn).1, (h n hn).2]
  · rfl

theorem Node.region?_sublist (n : Node) : n.region?.toList.Sublist (n.ranges 2 2) := by
  rw [region?, ranges]
  split
  · next data hdata =>
    by_cases hlen : data.length ≥ 16
    · have hpos : 0 < data.length / 16 := Nat.div_pos hlen (by omega)
      rw [if_pos hlen, Option.toList_some, List.singleton_sublist]
      exact List.mem_map.2 ⟨0, by simpa using hpos,
        by simp [cellsAt, fdtReadRegProperty, wordAt, List.range_succ]⟩
    · simp [hlen]
  · simp

/-- A property with room for one range only. -/
def Node.SingleRange (n : Node) : Prop :=
  ∀ data, n.getProp regProp = some data → data.length < 32

theorem Node.singleRange_iff :
    n.SingleRange ↔ (n.ranges 2 2).length ≤ n.region?.toList.length := by
  rw [SingleRange, ranges, region?]
  cases hprop : n.getProp regProp with
  | none => simp
  | some data =>
    by_cases hlen : data.length ≥ 16
    · simp [hlen]
      omega
    · simp [hlen]
      omega

theorem filterMap_sublist_flatMap (l : List Node) :
    (l.filterMap region?).Sublist (l.flatMap (ranges 2 2)) := by
  induction l with
  | nil => simp
  | cons c l ih =>
    rw [List.filterMap_cons]
    have hc := c.region?_sublist
    cases hreg : c.region? with
    | none => exact ih.trans (List.sublist_append_right _ _)
    | some r =>
      rw [hreg] at hc
      exact hc.append ih

/-- The two lists have the same length only if no child lists a second range. -/
theorem length_flatMap_le_iff (l : List Node) :
    (l.flatMap (ranges 2 2)).length ≤ (l.filterMap region?).length ↔ ∀ c ∈ l, c.SingleRange := by
  induction l with
  | nil => simp
  | cons c l ih =>
    have hc := c.region?_sublist.length_le
    have hl := (filterMap_sublist_flatMap l).length_le
    have hcons : ((c :: l).filterMap region?).length =
        c.region?.toList.length + (l.filterMap region?).length := by
      rw [List.filterMap_cons]
      cases c.region? with
      | none => simp
      | some r => simp [add_comm]
    rw [List.flatMap_cons, List.length_append, List.forall_mem_cons, ← ih, singleRange_iff]
    omega

theorem reserved_subperm_iff (h : fdt.TwoCells) :
    fdt.reserved.Subperm (fdtGetRsvdMemRegions fdt).1 ↔
      ∀ c ∈ fdt.rsvdChildren, c.SingleRange := by
  have hsub := (filterMap_sublist_flatMap fdt.rsvdChildren).append_right fdt.rsvmap
  rw [← length_flatMap_le_iff, fdtGetRsvdMemRegions_eq, reserved_of_twoCells h]
  constructor
  · intro h
    have hlen := h.length_le
    rw [List.length_append, List.length_append] at hlen
    omega
  · intro h
    rw [← hsub.eq_of_length_le (by rw [List.length_append, List.length_append]; omega)]

theorem length_fdtGetRsvdMemRegions : (fdtGetRsvdMemRegions fdt).1.length = fdt.rsvdCount := by
  rw [fdtGetRsvdMemRegions_eq, Fdt.rsvdCount, List.length_append, List.length_filterMap_eq_countP]

theorem status_iff : ((∃ c ∈ fdt.rsvdChildren, c.region? = none) →
      (fdtGetRsvdMemRegions fdt).2 ≠ .ok) ↔
    fdt.rsvmap = [] ∨ ∀ c ∈ fdt.rsvdChildren, c.region?.isSome := by
  have hall : (∀ c ∈ fdt.rsvdChildren, c.region?.isSome) ↔
      ¬ ∃ c ∈ fdt.rsvdChildren, c.region? = none := by
    simp [Option.isSome_iff_ne_none]
  by_cases hgood : ∀ c ∈ fdt.rsvdChildren, c.region?.isSome
  · exact ⟨fun _ => .inr hgood, fun _ hbad => absurd hbad (hall.1 hgood)⟩
  have hbad : ∃ c ∈ fdt.rsvdChildren, c.region? = none := not_not.1 (mt hall.2 hgood)
  rw [fdtGetRsvdMemRegions_eq, childStatus, if_neg hgood]
  by_cases hrsv : fdt.rsvmap = []
  · rw [if_pos hrsv]
    exact ⟨fun _ => .inl hrsv, fun _ _ => by simp⟩
  · rw [if_neg hrsv]
    exact ⟨fun h => absurd rfl (h hbad), fun h => absurd h (not_or.2 ⟨hrsv, hgood⟩)⟩

end Ranges

/-- A tree with one child of `/reserved-memory`, of whose addresses and sizes it says how
many cells they have, and `n` entries in the reservation block. -/
def reserving (cells : Byte) (child : Node) (n : Nat) : Fdt :=
  { root := .mk [] [] [.mk reservedMemory
      [⟨addressCells, [0, 0, 0, cells]⟩, ⟨sizeCells, [0, 0, 0, cells]⟩] [child]]
    rsvmap := List.replicate n ⟨0x80000000, 0x1000⟩
    size_ne_zero := by
      intro r hr
      rw [List.eq_of_mem_replicate hr]
      decide }

end Sima.Boot
