import Sima.Boot.Fdt

/-!
# Reserving memory in the tree of the Service VM

The Service VM gets the host's device tree, with the memory of the hypervisor and of every
pre-launched VM added to `/reserved-memory`. A region that is added to a tree that has that
node is reported by `fdt_get_rsvd_mem_regions` next to all that was reported before, unless
a node of the very name that is generated for it is there already.

A tree that does not have the node gets it, and then the region is lost. What the creation
of the node returns is its offset, and the code takes it only if it is zero — which the
offset of a node below the root never is. So the node that the properties and the region
are then added to is still the error code of the failed lookup. It is the first call that is
affected, and the first region to be reserved is the hypervisor itself.

What the architecture then does to the tree decides whether the regions stay in it. The
hook of the ARM64 platforms does not edit the tree, it writes another one.
-/

namespace Sima.Boot

open Lib Node Fdt

/-! ## Adding a region -/

def mem4G : BitVec 64 := 0x100000000

def hex (x : BitVec 32) : Name := Nat.toDigits 16 x.toNat

def addrHi (x : BitVec 64) : BitVec 32 := (x >>> 32).setWidth 32

def addrLo (x : BitVec 64) : BitVec 32 := (x &&& 0xffffffff).setWidth 32

section

variable (fdt : Fdt) (addr size : BitVec 64)

def unitAddress : Name :=
  if addr < mem4G then hex (addrLo addr) else hex (addrHi addr) ++ ',' :: hex (addrLo addr)

/-- `mmode_resv%d@%x`, with a second `%x` for an address above 4G. -/
def rsvName (index : Nat) (addr : BitVec 64) : Name :=
  "mmode_resv".toList ++ (Nat.toDigits 10 index ++ '@' :: unitAddress addr)

def regCells : List Byte :=
  cpuToFdt32 (addrHi addr) ++ cpuToFdt32 (addrLo addr) ++ cpuToFdt32 (addrHi size) ++
    cpuToFdt32 (addrLo size)

/-- The branch of `fdt_add_rsvd_node` for a tree without the node; `memOff` is the error of
the lookup. The three are the tree, `mem_off` and `ret`. -/
def createRsvdNode (memOff : Offset) : Fdt × Offset × Offset :=
  let (fdt, ret) := fdtAddSubnode fdt .zero reservedMemory
  let memOff := if ret.isZero then ret else memOff
  let (fdt, ret) := fdtSetpropEmpty fdt memOff "ranges".toList
  let (fdt, ret) :=
    if ret.isZero then fdtSetpropU32 fdt memOff "#size-cells".toList 2 else (fdt, ret)
  let (fdt, ret) :=
    if ret.isZero then fdtSetpropU32 fdt memOff "#address-cells".toList 2 else (fdt, ret)
  (fdt, memOff, ret)

def noMap : Name := "no-map".toList

def fillRsvdChild (subnode : Offset) (addr size : BitVec 64) : Fdt × Offset :=
  let (fdt, ret) := fdtSetpropEmpty fdt subnode noMap
  if ret.isZero then ((fdtSetprop fdt subnode regProp (regCells addr size)).1, ret)
  else (fdt, ret)

/-- The rest of `fdt_add_rsvd_node`: one more node below the one at `memOff`. -/
def addRsvdChild (memOff : Offset) (addr size : BitVec 64) : Fdt × Offset :=
  let index := (fdtSubnodes fdt memOff).length
  let (fdt, subnode) := fdtAddSubnode fdt memOff (rsvName index addr)
  if subnode.isPos then fillRsvdChild fdt subnode addr size else (fdt, subnode)

def fdtAddRsvdNode : Fdt × Offset :=
  let memOff := fdtPathOffset fdt reservedMemory
  let (fdt, memOff, ret) :=
    if memOff.isNeg then createRsvdNode fdt memOff else (fdt, memOff, .zero)
  if memOff.isPos && ret.isZero then addRsvdChild fdt memOff addr size else (fdt, ret)

/-- The list that `fdt_get_rsvd_mem_regions` returns. -/
def Fdt.regions : List Region := (fdtGetRsvdMemRegions fdt).1

end

theorem Fdt.regions_eq (fdt : Fdt) :
    fdt.regions = fdt.rsvdChildren.filterMap region? ++ fdt.rsvmap := by
  rw [regions, fdtGetRsvdMemRegions_eq]

/-! ## What is written is read back -/

theorem fdt32ToCpu_cells (x : BitVec 32) :
    fdt32ToCpu ((x >>> 24).setWidth 8) ((x >>> 16).setWidth 8) ((x >>> 8).setWidth 8)
      (x.setWidth 8) = x := by
  refine BitVec.eq_of_getLsbD_eq fun i hi => ?_
  simp only [fdt32ToCpu]
  rw [BitVec.getLsbD_append, BitVec.getLsbD_append, BitVec.getLsbD_append]
  by_cases h₁ : i < 8
  · simp [h₁]
  by_cases h₂ : i - 8 < 8
  · simp [h₁, h₂, show 8 + (i - 8) = i by omega]
  by_cases h₃ : i - 8 - 8 < 8
  · simp [h₁, h₂, h₃, show 16 + (i - 8 - 8) = i by omega]
  · simp [h₁, h₂, h₃, show i - 8 - 8 - 8 < 8 by omega, show 24 + (i - 8 - 8 - 8) = i by omega]

theorem join_hi_lo (x : BitVec 64) :
    (addrHi x).setWidth 64 <<< 32 ||| (addrLo x).setWidth 64 = x := by
  refine BitVec.eq_of_getLsbD_eq fun i hi => ?_
  have hmask : (0xffffffff#64).getLsbD i = decide (i < 32) := by
    rw [show (0xffffffff#64) = (BitVec.allOnes 32).setWidth 64 by decide,
      BitVec.getLsbD_setWidth, BitVec.getLsbD_allOnes]
    simp [hi]
  simp only [addrHi, addrLo]
  by_cases hlow : i < 32
  · simp [hi, hlow, hmask]
  · simp [hi, hlow, show i - 32 < 64 by omega, show i - 32 < 32 by omega,
      show 32 + (i - 32) = i by omega]

theorem fdtReadRegProperty_regCells (addr size : BitVec 64) :
    fdtReadRegProperty (regCells addr size) = ⟨addr, size⟩ := by
  have hread : fdtReadRegProperty (regCells addr size) =
      ⟨(addrHi addr).setWidth 64 <<< 32 ||| (addrLo addr).setWidth 64,
        (addrHi size).setWidth 64 <<< 32 ||| (addrLo size).setWidth 64⟩ := by
    simp [fdtReadRegProperty, wordAt, cellAt, regCells, cpuToFdt32, fdt32ToCpu_cells]
  rw [hread, join_hi_lo, join_hi_lo]

/-! ## Generated names -/

theorem at_not_mem_toDigits (n : Nat) : '@' ∉ Nat.toDigits 10 n := by
  intro h
  have hdigit := Nat.isDigit_of_mem_toDigits (by omega) (by omega) h
  exact absurd hdigit (by decide)

theorem eq_of_append_mark {α : Type} {x : α} {a b c d : List α} (ha : x ∉ a) (hb : x ∉ b)
    (h : a ++ x :: c = b ++ x :: d) : a = b := by
  induction a generalizing b with
  | nil =>
    cases b with
    | nil => rfl
    | cons y b =>
      injection h with hxy _
      exact absurd (hxy ▸ List.mem_cons_self) hb
  | cons y a ih =>
    cases b with
    | nil =>
      injection h with hxy _
      exact absurd (hxy ▸ List.mem_cons_self) ha
    | cons z b =>
      injection h with hyz h
      rw [hyz, ih (fun hx => ha (List.mem_cons_of_mem _ hx))
        (fun hx => hb (List.mem_cons_of_mem _ hx)) h]

variable {i : Nat} {a : BitVec 64}

theorem rsvName_index {j : Nat} {b : BitVec 64} (h : rsvName i a = rsvName j b) : i = j := by
  have hrest : Nat.toDigits 10 i ++ '@' :: unitAddress a =
      Nat.toDigits 10 j ++ '@' :: unitAddress b := List.append_cancel_left h
  have hdigits := eq_of_append_mark (at_not_mem_toDigits i) (at_not_mem_toDigits j) hrest
  calc i = Nat.ofDigitChars 10 (Nat.toDigits 10 i) 0 := by rw [Nat.ofDigitChars_ten_toDigits]
    _ = Nat.ofDigitChars 10 (Nat.toDigits 10 j) 0 := by rw [hdigits]
    _ = j := by rw [Nat.ofDigitChars_ten_toDigits]

/-- A generated name has a unit address, so it only matches itself. -/
theorem nodenameEq_rsvName {p : Name} : nodenameEq p (rsvName i a) = true ↔ p = rsvName i a := by
  have hmem : '@' ∈ rsvName i a :=
    List.mem_append_right _ (List.mem_append_right _ List.mem_cons_self)
  have hat : (rsvName i a).contains '@' = true := List.contains_iff_mem.2 hmem
  simp only [nodenameEq, hat, Bool.not_true, Bool.false_and, Bool.or_false, beq_iff_eq]

/-! ## The three outcomes -/

/-- The node is there, and no node below it has the generated name. -/
def CanAdd (fdt : Fdt) (addr : BitVec 64) : Prop :=
  fdt.rsvdNode.isSome ∧ rsvName fdt.rsvdChildren.length addr ∉ fdt.rsvdChildren.map name

def rsvdChild (index : Nat) (addr size : BitVec 64) : Node :=
  .mk (rsvName index addr) [⟨regProp, regCells addr size⟩, ⟨noMap, []⟩] []

theorem region?_rsvdChild (index : Nat) (addr size : BitVec 64) :
    (rsvdChild index addr size).region? = some ⟨addr, size⟩ := by
  have hprop : (rsvdChild index addr size).getProp regProp = some (regCells addr size) := by
    simp [getProp, rsvdChild, props]
  have hlen : (regCells addr size).length ≥ 16 := by simp [regCells, cpuToFdt32]
  rw [region?, hprop]
  simp only [if_pos hlen, fdtReadRegProperty_regCells]

section Outcomes

variable {fdt : Fdt} {pre post : List Node} {n : Node} {addr size : BitVec 64}

def Node.cons (n c : Node) : Node := .mk n.name n.props (c :: n.children)

/-- The tree with the child of `/reserved-memory` at its place. -/
def withRsvd (fdt : Fdt) (pre : List Node) (n : Node) (post : List Node) : Fdt :=
  { fdt with root := .mk fdt.root.name fdt.root.props (pre ++ n :: post) }

variable (h : fdt.root.children = pre ++ n :: post) {name : Name}

include h

theorem modify_child (f : Node → Node) :
    fdt.modify [pre.length] f = withRsvd fdt pre (f n) post := by
  simp only [Fdt.modify, Node.modify, withRsvd, h, modify_append]

theorem get_child : fdt.root.get [pre.length] = some n := by
  simp [Node.get, h]

omit h in
theorem fdtSetprop_cons (fdt : Fdt) (pre : List Node) (n : Node) (post : List Node) (c : Node)
    (name : Name) (value : List Byte) :
    fdtSetprop (withRsvd fdt pre (n.cons c) post) (.ok [pre.length, 0]) name value =
      (withRsvd fdt pre (n.cons (c.setProp name value)) post, .zero) := by
  have hchildren : (withRsvd fdt pre (n.cons c) post).root.children = pre ++ n.cons c :: post :=
    rfl
  have hcons : (n.cons c).children = c :: n.children := rfl
  have hget : (withRsvd fdt pre (n.cons c) post).root.get [pre.length, 0] = some c := by
    simp [Node.get, hchildren, hcons]
  simp only [fdtSetprop, hget, Fdt.modify, Node.modify, hchildren, modify_append]
  rfl

omit h in
theorem fillRsvdChild_eq (fdt : Fdt) (pre : List Node) (n : Node) (post : List Node)
    (index : Nat) (addr size : BitVec 64) :
    fillRsvdChild (withRsvd fdt pre (n.addChild (rsvName index addr)) post)
        (.ok [pre.length, 0]) addr size =
      (withRsvd fdt pre (n.cons (rsvdChild index addr size)) post, .zero) := by
  have hnomap := fdtSetprop_cons fdt pre n post (.mk (rsvName index addr) [] []) noMap []
  have hreg := fdtSetprop_cons fdt pre n post
    (.mk (rsvName index addr) [⟨noMap, []⟩] []) regProp (regCells addr size)
  have hadd : n.addChild (rsvName index addr) = n.cons (.mk (rsvName index addr) [] []) := rfl
  have hsecond : setProp regProp (regCells addr size)
      (.mk (rsvName index addr) [⟨noMap, []⟩] []) = rsvdChild index addr size := by
    have hne : noMap ≠ regProp := by decide
    simp [setProp, getProp, props, name, children, hne, rsvdChild]
  have hfirst : setProp noMap [] (.mk (rsvName index addr) [] []) =
      .mk (rsvName index addr) [⟨noMap, []⟩] [] := by
    simp [setProp, getProp, props, name, children]
  rw [hfirst] at hnomap
  simp only [fillRsvdChild, fdtSetpropEmpty, hadd, hnomap, hreg]
  rfl

theorem length_fdtSubnodes : (fdtSubnodes fdt (.ok [pre.length])).length = n.children.length := by
  simp [fdtSubnodes, get_child h]

theorem addRsvdChild_of_free (hfree : rsvName n.children.length addr ∉ n.children.map Node.name) :
    addRsvdChild fdt (.ok [pre.length]) addr size =
      (withRsvd fdt pre (n.cons (rsvdChild n.children.length addr size)) post, .zero) := by
  have hfind : (n.children.findIdx? fun c =>
      nodenameEq c.name (rsvName n.children.length addr)) = none := by
    rw [List.findIdx?_eq_none_iff]
    intro c hc
    rw [Bool.eq_false_iff, ne_eq, nodenameEq_rsvName]
    rintro heq
    exact hfree (heq ▸ List.mem_map_of_mem hc)
  have hoff : fdtSubnodeOffset fdt (.ok [pre.length]) (rsvName n.children.length addr) =
      .error .notFound := by
    simp only [fdtSubnodeOffset, get_child h, hfind]
  have hadd : fdtAddSubnode fdt (.ok [pre.length]) (rsvName n.children.length addr) =
      (withRsvd fdt pre (n.addChild (rsvName n.children.length addr)) post,
        .ok [pre.length, 0]) := by
    unfold fdtAddSubnode
    rw [hoff]
    simp only [modify_child h]
    rfl
  rw [addRsvdChild, length_fdtSubnodes h, hadd]
  exact fillRsvdChild_eq fdt pre n post n.children.length addr size

theorem addRsvdChild_of_taken
    (htaken : rsvName n.children.length addr ∈ n.children.map Node.name) :
    addRsvdChild fdt (.ok [pre.length]) addr size = (fdt, .error .exists) := by
  obtain ⟨c, hc, hname⟩ := List.mem_map.1 htaken
  have hsome : (n.children.findIdx? fun c =>
      nodenameEq c.name (rsvName n.children.length addr)).isSome := by
    rw [List.findIdx?_isSome, List.any_eq_true]
    exact ⟨c, hc, nodenameEq_rsvName.2 hname⟩
  obtain ⟨i, hi⟩ := Option.isSome_iff_exists.1 hsome
  have hoff : fdtSubnodeOffset fdt (.ok [pre.length]) (rsvName n.children.length addr) =
      .ok [pre.length, i] := by
    simp only [fdtSubnodeOffset, get_child h, hi]
    rfl
  have hadd : fdtAddSubnode fdt (.ok [pre.length]) (rsvName n.children.length addr) =
      (fdt, .error .exists) := by
    unfold fdtAddSubnode
    rw [hoff]
  rw [addRsvdChild, length_fdtSubnodes h, hadd]
  rfl

omit h

theorem fdtAddRsvdNode_of_isFirst (h : IsFirst reservedMemory fdt.root.children pre n post) :
    fdtAddRsvdNode fdt addr size = addRsvdChild fdt (.ok [pre.length]) addr size := by
  rw [fdtAddRsvdNode, h.fdtPathOffset]
  rfl

theorem fdtAddSubnode_root (h : fdtPathOffset fdt name = .error .notFound) :
    fdtAddSubnode fdt .zero name = (fdt.modify [] (addChild name), .ok [0]) := by
  rw [fdtPathOffset] at h
  unfold fdtAddSubnode
  rw [h]
  rfl

theorem fdtAddSubnode_root_exists {p : Path} (h : fdtPathOffset fdt name = .ok p) :
    fdtAddSubnode fdt .zero name = (fdt, .error .exists) := by
  rw [fdtPathOffset] at h
  unfold fdtAddSubnode
  rw [h]

theorem fdtAddRsvdNode_of_none (h : fdt.rsvdNode = none) : fdtAddRsvdNode fdt addr size =
    (fdt.modify [] (addChild reservedMemory), .error .badOffset) := by
  rw [fdtAddRsvdNode, fdtPathOffset_of_none h]
  simp only [createRsvdNode, fdtAddSubnode_root (fdtPathOffset_of_none h)]
  rfl

/-- What an addition does to the children of `/reserved-memory`, and whether it does it. -/
theorem rsvdChildren_fdtAddRsvdNode (fdt : Fdt) (addr size : BitVec 64) :
    (CanAdd fdt addr ∧ (fdtAddRsvdNode fdt addr size).1.rsvdNode.isSome ∧
      (fdtAddRsvdNode fdt addr size).1.rsvdChildren =
        rsvdChild fdt.rsvdChildren.length addr size :: fdt.rsvdChildren) ∨
    (¬ CanAdd fdt addr ∧ (fdtAddRsvdNode fdt addr size).1.rsvdChildren = fdt.rsvdChildren) := by
  obtain hnone | ⟨pre, n, post, hn⟩ := rsvdNode_cases fdt
  · refine .inr ⟨fun hcan => by simp [CanAdd, hnone] at hcan, ?_⟩
    have hsome : (fdt.modify [] (Node.addChild reservedMemory)).rsvdNode =
        some (.mk reservedMemory [] []) := by
      have hself : nodenameEq reservedMemory reservedMemory = true := by simp [nodenameEq]
      simp [Fdt.rsvdNode, Fdt.modify, Node.modify, Node.addChild, Node.children, Node.name, hself]
    rw [fdtAddRsvdNode_of_none hnone, Fdt.rsvdChildren, Fdt.rsvdChildren, hnone]
    rfl
  · rw [fdtAddRsvdNode_of_isFirst hn, CanAdd, hn.rsvdNode, hn.rsvdChildren]
    by_cases hname : rsvName n.children.length addr ∈ n.children.map name
    · refine .inr ⟨fun hcan => hcan.2 hname, ?_⟩
      rw [addRsvdChild_of_taken hn.split hname, hn.rsvdChildren]
    have hnode : (withRsvd fdt pre (n.cons (rsvdChild n.children.length addr size))
        post).rsvdNode = some _ := IsFirst.rsvdNode (hn.replace rfl)
    rw [addRsvdChild_of_free hn.split hname]
    refine .inl ⟨⟨rfl, hname⟩, by rw [hnode]; rfl, ?_⟩
    rw [rsvdChildren, hnode]
    rfl

theorem rsvmap_fdtAddRsvdNode (fdt : Fdt) (addr size : BitVec 64) :
    (fdtAddRsvdNode fdt addr size).1.rsvmap = fdt.rsvmap := by
  obtain hnone | ⟨pre, n, post, hn⟩ := rsvdNode_cases fdt
  · rw [fdtAddRsvdNode_of_none hnone]
    rfl
  rw [fdtAddRsvdNode_of_isFirst hn]
  by_cases hname : rsvName n.children.length addr ∈ n.children.map Node.name
  · rw [addRsvdChild_of_taken hn.split hname]
  · rw [addRsvdChild_of_free hn.split hname]
    rfl

theorem regions_fdtAddRsvdNode (fdt : Fdt) (addr size : BitVec 64) :
    (CanAdd fdt addr ∧ (fdtAddRsvdNode fdt addr size).1.regions = ⟨addr, size⟩ :: fdt.regions) ∨
    (¬ CanAdd fdt addr ∧ (fdtAddRsvdNode fdt addr size).1.regions = fdt.regions) := by
  rw [regions_eq, regions_eq, rsvmap_fdtAddRsvdNode]
  obtain ⟨hcan, -, hchildren⟩ | ⟨hcan, hchildren⟩ := rsvdChildren_fdtAddRsvdNode fdt addr size
  · refine .inl ⟨hcan, ?_⟩
    rw [hchildren, List.filterMap_cons, region?_rsvdChild]
    rfl
  · exact .inr ⟨hcan, by rw [hchildren]⟩

theorem regions_perm_iff (fdt : Fdt) (addr size : BitVec 64) :
    (fdtAddRsvdNode fdt addr size).1.regions.Perm (⟨addr, size⟩ :: fdt.regions) ↔
      CanAdd fdt addr := by
  obtain ⟨hcan, heq⟩ | ⟨hcan, heq⟩ := regions_fdtAddRsvdNode fdt addr size
  · rw [heq]
    exact ⟨fun _ => hcan, fun _ => .refl _⟩
  rw [heq]
  refine ⟨fun h => ?_, fun h => absurd h hcan⟩
  have hlen := h.length_eq
  rw [List.length_cons] at hlen
  omega

end Outcomes

/-! ## A list of regions -/

section Many

variable {fdt : Fdt} {rs : List Region}

def addRegion (fdt : Fdt) (r : Region) : Fdt := (fdtAddRsvdNode fdt r.addr r.size).1

def addRegions (fdt : Fdt) (rs : List Region) : Fdt := rs.foldl addRegion fdt

/-- Every addition is possible in the tree that the ones before have left. -/
def CanAddAll : Fdt → List Region → Prop
  | _, [] => True
  | fdt, r :: rs => CanAdd fdt r.addr ∧ CanAddAll (addRegion fdt r) rs

theorem length_regions_addRegions (fdt : Fdt) (rs : List Region) :
    (addRegions fdt rs).regions.length ≤ rs.length + fdt.regions.length := by
  induction rs generalizing fdt with
  | nil => simp [addRegions]
  | cons r rs ih =>
    have htail := ih (addRegion fdt r)
    have hone : (addRegion fdt r).regions.length ≤ fdt.regions.length + 1 := by
      obtain ⟨-, heq⟩ | ⟨-, heq⟩ := regions_fdtAddRsvdNode fdt r.addr r.size
      · rw [addRegion, heq, List.length_cons]
      · rw [addRegion, heq]
        omega
    rw [List.length_cons]
    exact le_trans htail (by omega)

theorem addRegions_perm_iff :
    (addRegions fdt rs).regions.Perm (rs ++ fdt.regions) ↔ CanAddAll fdt rs := by
  induction rs generalizing fdt with
  | nil => simp [addRegions, CanAddAll]
  | cons r rs ih =>
    have hlen := length_regions_addRegions (addRegion fdt r) rs
    rw [CanAddAll, ← ih]
    obtain ⟨hcan, heq⟩ | ⟨hcan, heq⟩ := regions_fdtAddRsvdNode fdt r.addr r.size
    · have hmid : (rs ++ (addRegion fdt r).regions).Perm (r :: rs ++ fdt.regions) := by
        rw [addRegion, heq]
        exact List.perm_middle
      exact ⟨fun h => ⟨hcan, h.trans hmid.symm⟩, fun h => h.2.trans hmid⟩
    refine ⟨fun h => ?_, fun h => absurd h.1 hcan⟩
    have htotal := h.length_eq
    rw [← addRegion] at heq
    rw [heq] at hlen
    rw [List.cons_append, List.length_cons, List.length_append] at htotal
    exact absurd htotal (ne_of_lt (Nat.lt_succ_of_le hlen))

/-- A name that is generated later has another number. -/
theorem canAddAll_iff (hsome : fdt.rsvdNode.isSome) : CanAddAll fdt rs ↔ ∀ k (hk : k < rs.length),
    rsvName (fdt.rsvdChildren.length + k) rs[k].addr ∉ fdt.rsvdChildren.map name := by
  induction rs generalizing fdt with
  | nil => simp [CanAddAll]
  | cons r rs ih =>
    rw [CanAddAll]
    obtain ⟨hcan, hsome', hchildren⟩ | ⟨hcan, -⟩ := rsvdChildren_fdtAddRsvdNode fdt r.addr r.size
    · rw [← addRegion] at hsome' hchildren
      rw [ih hsome', hchildren]
      have hidx : ∀ k, fdt.rsvdChildren.length + 1 + k = fdt.rsvdChildren.length + (k + 1) := by
        omega
      constructor
      · rintro ⟨-, htail⟩ k hk
        cases k with
        | zero => exact hcan.2
        | succ k =>
          have hk' := htail k (by simpa using hk)
          rw [List.map_cons, List.mem_cons, not_or, List.length_cons, hidx] at hk'
          exact hk'.2
      · intro h
        refine ⟨hcan, fun k hk => ?_⟩
        have hk' := h (k + 1) (by simpa using hk)
        rw [List.map_cons, List.mem_cons, not_or, List.length_cons, hidx]
        refine ⟨fun heq => ?_, hk'⟩
        have hsame := rsvName_index heq
        omega
    · refine ⟨fun h => absurd h.1 hcan, fun h => absurd ⟨hsome, ?_⟩ hcan⟩
      exact h 0 (by simp)

end Many

/-! ## Edits elsewhere in the tree -/

section Elsewhere

variable {fdt : Fdt} {f : Node → Node} {name p s : Name} {x : Char}

theorem nodenameEq_head (h : nodenameEq p (x :: s) = true) : p.head? = some x := by
  rw [nodenameEq, Bool.or_eq_true, Bool.and_eq_true] at h
  obtain heq | ⟨-, hpre⟩ := h
  · rw [eq_of_beq heq]
    rfl
  · obtain ⟨t, rfl⟩ := List.isPrefixOf_iff_prefix.1 hpre
    rfl

theorem nodenameEq_reservedMemory (h : p.head? ≠ some 'r') :
    nodenameEq p reservedMemory = false := by
  rw [Bool.eq_false_iff]
  intro heq
  exact h (nodenameEq_head heq)

theorem Node.name_modify (hf : ∀ n, (f n).name = n.name) (n : Node) (p : Path) :
    (n.modify f p).name = n.name := by
  cases p with
  | nil => exact hf n
  | cons i p => rfl

theorem find?_modify {α : Type} {q : α → Bool} {g : α → α} (l : List α) (i : Nat)
    (h : ∀ c, l[i]? = some c → q c = false ∧ q (g c) = false) :
    (l.modify i g).find? q = l.find? q := by
  induction l generalizing i with
  | nil => rw [List.modify_nil]
  | cons a l ih =>
    cases i with
    | zero =>
      obtain ⟨ha, hga⟩ := h a rfl
      rw [List.modify_zero_cons, List.find?_cons, List.find?_cons, ha, hga]
    | succ i =>
      rw [List.modify_succ_cons, List.find?_cons, List.find?_cons, ih i fun c hc => h c hc]

/-- The reservations of the two trees are the same. -/
def SameRsvd (fdt fdt' : Fdt) : Prop := fdt'.rsvdNode = fdt.rsvdNode ∧ fdt'.rsvmap = fdt.rsvmap

theorem SameRsvd.regions {fdt fdt' : Fdt} (h : SameRsvd fdt fdt') :
    fdt'.regions = fdt.regions := by
  rw [regions_eq, regions_eq, rsvdChildren, rsvdChildren, h.1, h.2]

/-- The root's child `i` goes by a name that does not start with an `r`. -/
def OtherChild (fdt : Fdt) (i : Nat) : Prop :=
  ∃ c, fdt.root.children[i]? = some c ∧ c.name.head? ≠ some 'r'

theorem modify_elsewhere (hf : ∀ n, (f n).name = n.name) (h : OtherChild fdt i) (p : Path) :
    SameRsvd fdt (fdt.modify (i :: p) f) ∧ OtherChild (fdt.modify (i :: p) f) i := by
  obtain ⟨c, hc, hname⟩ := h
  refine ⟨⟨?_, rfl⟩, c.modify f p, ?_, ?_⟩
  · refine find?_modify _ _ fun c' hc' => ?_
    rw [hc] at hc'
    injection hc' with hc'
    subst hc'
    rw [name_modify hf]
    exact ⟨nodenameEq_reservedMemory hname, nodenameEq_reservedMemory hname⟩
  · simp only [Fdt.modify, Node.modify]
    rw [show (Node.mk fdt.root.name fdt.root.props
      (fdt.root.children.modify i fun c => c.modify f p)).children =
        fdt.root.children.modify i fun c => c.modify f p from rfl, List.getElem?_modify_eq, hc]
    rfl
  · rw [name_modify hf]
    exact hname

theorem Node.name_setProp (value : List Byte) (n : Node) :
    (n.setProp name value).name = n.name := by
  rw [setProp]
  split <;> rfl

theorem fdtSetprop_elsewhere (h : OtherChild fdt i) (p : Path) (value : List Byte) :
    SameRsvd fdt (fdtSetprop fdt (.ok (i :: p)) name value).1 ∧
      OtherChild (fdtSetprop fdt (.ok (i :: p)) name value).1 i := by
  rw [fdtSetprop]
  split
  · exact ⟨⟨rfl, rfl⟩, h⟩
  · exact modify_elsewhere (name_setProp value) h p

theorem IsFirst.otherChild {pre post : List Node} {n : Node}
    (h : IsFirst (x :: s) fdt.root.children pre n post) (hx : x ≠ 'r') :
    OtherChild fdt pre.length := by
  refine ⟨n, h.get, ?_⟩
  rw [nodenameEq_head h.named]
  intro heq
  injection heq with heq
  exact hx heq

/-- What a path of one component leads to, if it does not start with an `r`. -/
theorem fdtPathOffset_cases (fdt : Fdt) (s : Name) (hx : x ≠ 'r') :
    (∃ i, fdtPathOffset fdt (x :: s) = .ok [i] ∧ OtherChild fdt i) ∨
      fdtPathOffset fdt (x :: s) = .error .notFound := by
  cases hfind : fdt.root.children.findIdx? fun c => nodenameEq c.name (x :: s) with
  | none =>
    simp [fdtPathOffset, fdtSubnodeOffset, Offset.zero, Node.get, hfind]
  | some i =>
    obtain ⟨pre, n, post, hn⟩ := exists_isFirst hfind
    exact .inl ⟨pre.length, hn.fdtPathOffset, hn.otherChild hx⟩

end Elsewhere

/-! ## The tree of the Service VM -/

inductive LoadOrder where
  | preLaunched
  | service
  | postLaunched
  deriving DecidableEq

structure VmMemory where
  loadOrder : LoadOrder
  hostRegions : List Region

/-- What the ARM64 platforms build their tree from. -/
structure ArmVm where
  vcpus : Nat
  guestRamStart : BitVec 64
  guestGicdBase : BitVec 64
  guestItsBase : BitVec 64
  guestItsSize : BitVec 64
  guestUartBase : BitVec 64

inductive Arch where
  | x86
  | riscv
  | arm64 (vm : ArmVm)

def unitNamed (s : String) (addr : BitVec 64) : Node :=
  .mk (s.toList ++ '@' :: Nat.toDigits 16 addr.toNat) [] []

/-- The nodes that `arch_init_service_vm_vfdt` creates on the QEMU platform, without their
properties. -/
def qemuTree (vm : ArmVm) : Fdt :=
  { root := .mk [] []
      ([.mk "chosen".toList [] [],
        .mk "cpus".toList [] ((List.range vm.vcpus).map fun i =>
          .mk ("cpu@".toList ++ Nat.toDigits 10 i) [] []),
        .mk "psci".toList [] [],
        unitNamed "memory" vm.guestRamStart,
        unitNamed "interrupt-controller" vm.guestGicdBase] ++
        (if vm.guestItsSize = 0 then [] else [unitNamed "msi-controller" vm.guestItsBase]) ++
        [.mk "timer".toList [] [],
        .mk "apb-pclk".toList [] [],
        unitNamed "pl011" vm.guestUartBase])
    rsvmap := []
    size_ne_zero := by simp }

def cString (s : String) : List Byte := s.toList.map (fun c => BitVec.ofNat 8 c.toNat) ++ [0]

section

variable (configs : List VmMemory) (arch : Arch) (fdt : Fdt) (bootargs : List Byte)

def setHartIsaStr (cpu : Offset) : Fdt :=
  match fdtGetProperty fdt cpu "device_type".toList with
  | some val =>
    if val ≠ [] ∧ val.take 3 = (cString "cpu").take 3 then
      (fdtSetprop fdt cpu "riscv,isa".toList (cString "rv64imafdc_zicsr_zifencei_sstc")).1
    else fdt
  | none => fdt

/-- `fdt_set_hart_isa_str_all`. -/
def setHartIsaStrAll : Fdt :=
  let cpusOff := fdtPathOffset fdt "cpus".toList
  if cpusOff.isPos then (fdtSubnodes fdt cpusOff).foldl setHartIsaStr fdt else fdt

def archInitServiceVmVfdt : Fdt :=
  match arch with
  | .x86 => fdt
  | .riscv => setHartIsaStrAll fdt
  | .arm64 vm => qemuTree vm

/-- `fdt_set_kernel_bootargs`; the node that it creates has the slash in its name. -/
def fdtSetKernelBootargs : Fdt :=
  let (fdt, node) := match fdtPathOffset fdt "chosen".toList with
    | .error .notFound => fdtAddSubnode fdt .zero "/chosen".toList
    | node => (fdt, node)
  if node.isPos then (fdtSetprop fdt node "bootargs".toList bootargs).1 else fdt

/-- `init_vm_vfdt_common`, as far as it is about the tree. -/
def initVmVfdtCommon (fdt : Fdt) : Fdt :=
  if bootargs ≠ [] then fdtSetKernelBootargs fdt bootargs else fdt

def reserveVms : Fdt :=
  configs.foldl (fun fdt cfg =>
    if cfg.loadOrder = .preLaunched then addRegions fdt cfg.hostRegions else fdt) fdt

def initServiceVmVfdt (host : Fdt) (hv : Region) (configs : List VmMemory) : Fdt :=
  let fdt := addRegion host hv
  let fdt := reserveVms configs fdt
  initVmVfdtCommon bootargs (archInitServiceVmVfdt arch fdt)

end

/-- The memory of the hypervisor and of the pre-launched VMs. -/
def toReserve (hv : Region) (configs : List VmMemory) : List Region :=
  hv :: configs.flatMap fun cfg => if cfg.loadOrder = .preLaunched then cfg.hostRegions else []

theorem reserveVms_eq (configs : List VmMemory) (fdt : Fdt) :
    reserveVms configs fdt = addRegions fdt (configs.flatMap fun cfg =>
      if cfg.loadOrder = .preLaunched then cfg.hostRegions else []) := by
  induction configs generalizing fdt with
  | nil => rfl
  | cons cfg configs ih =>
    have hcons : reserveVms (cfg :: configs) fdt = reserveVms configs
        (if cfg.loadOrder = .preLaunched then addRegions fdt cfg.hostRegions else fdt) := rfl
    have happend : ∀ a b, addRegions fdt (a ++ b) = addRegions (addRegions fdt a) b :=
      fun a b => List.foldl_append
    rw [hcons, ih, List.flatMap_cons, happend]
    split <;> rfl

variable {fdt : Fdt}

theorem sameRsvd_setHartIsaStr (h : OtherChild fdt i) (p : Path) :
    SameRsvd fdt (setHartIsaStr fdt (.ok (i :: p))) ∧
      OtherChild (setHartIsaStr fdt (.ok (i :: p))) i := by
  rw [setHartIsaStr]
  split
  · split
    · exact fdtSetprop_elsewhere h p _
    · exact ⟨⟨rfl, rfl⟩, h⟩
  · exact ⟨⟨rfl, rfl⟩, h⟩

theorem sameRsvd_foldl (h : OtherChild fdt i) (l : List Path) :
    SameRsvd fdt ((l.map fun p => (.ok (i :: p) : Offset)).foldl setHartIsaStr fdt) := by
  induction l generalizing fdt with
  | nil => exact ⟨rfl, rfl⟩
  | cons p l ih =>
    obtain ⟨hstep, hother⟩ := sameRsvd_setHartIsaStr h p
    have htail := ih hother
    exact ⟨htail.1.trans hstep.1, htail.2.trans hstep.2⟩

theorem sameRsvd_setHartIsaStrAll (fdt : Fdt) : SameRsvd fdt (setHartIsaStrAll fdt) := by
  have hcpus : "cpus".toList = 'c' :: "pus".toList := rfl
  rw [setHartIsaStrAll, hcpus]
  obtain ⟨i, hoff, hother⟩ | hoff :=
    fdtPathOffset_cases fdt "pus".toList (show 'c' ≠ 'r' by decide)
  · rw [hoff, if_pos (show Offset.isPos (.ok [i]) = true from rfl)]
    simp only [fdtSubnodes]
    split
    · exact ⟨rfl, rfl⟩
    rename_i n hn
    have hpaths := sameRsvd_foldl hother ((List.range n.children.length).map fun j => [j])
    rw [List.map_map] at hpaths
    exact hpaths
  · rw [hoff]
    exact ⟨rfl, rfl⟩

theorem SameRsvd.trans {a b c : Fdt} (h : SameRsvd a b) (h' : SameRsvd b c) : SameRsvd a c :=
  ⟨h'.1.trans h.1, h'.2.trans h.2⟩

theorem addChild_elsewhere (fdt : Fdt) {name : Name} (h : name.head? ≠ some 'r') :
    SameRsvd fdt (fdt.modify [] (addChild name)) ∧
      OtherChild (fdt.modify [] (addChild name)) 0 := by
  refine ⟨⟨?_, rfl⟩, .mk name [] [], rfl, h⟩
  have hchildren : (fdt.modify [] (addChild name)).root.children =
      .mk name [] [] :: fdt.root.children := rfl
  have hnew : nodenameEq (mk name [] []).name reservedMemory = false := nodenameEq_reservedMemory h
  rw [rsvdNode, hchildren, List.find?_cons, hnew]
  rfl

theorem sameRsvd_fdtSetKernelBootargs (fdt : Fdt) (bootargs : List Byte) :
    SameRsvd fdt (fdtSetKernelBootargs fdt bootargs) := by
  have hchosen : "chosen".toList = 'c' :: "hosen".toList := rfl
  have hslash : "/chosen".toList = '/' :: "chosen".toList := rfl
  rw [fdtSetKernelBootargs, hchosen]
  obtain ⟨i, hoff, hother⟩ | hoff :=
    fdtPathOffset_cases fdt "hosen".toList (show 'c' ≠ 'r' by decide)
  · rw [hoff]
    exact (fdtSetprop_elsewhere hother [] bootargs).1
  rw [hoff, hslash]
  obtain ⟨i, hoff', -⟩ | hoff' :=
    fdtPathOffset_cases fdt "chosen".toList (show '/' ≠ 'r' by decide)
  · simp only [fdtAddSubnode_root_exists hoff']
    exact ⟨rfl, rfl⟩
  have hhead : ('/' :: "chosen".toList).head? ≠ some 'r' := by decide
  obtain ⟨hadd, hother⟩ := addChild_elsewhere fdt hhead
  simp only [fdtAddSubnode_root hoff']
  exact hadd.trans (fdtSetprop_elsewhere hother [] bootargs).1

theorem sameRsvd_initVmVfdtCommon (bootargs : List Byte) (fdt : Fdt) :
    SameRsvd fdt (initVmVfdtCommon bootargs fdt) := by
  rw [initVmVfdtCommon]
  split
  · exact sameRsvd_fdtSetKernelBootargs fdt bootargs
  · exact ⟨rfl, rfl⟩

theorem head_qemuTree {vm : ArmVm} {c : Node} (h : c ∈ (qemuTree vm).root.children) :
    c.name.head? ≠ some 'r' := by
  have hunit : ∀ s addr, (unitNamed s addr).name = s.toList ++ '@' :: Nat.toDigits 16 addr.toNat :=
    fun _ _ => rfl
  simp only [qemuTree, children, List.mem_append, List.mem_cons, List.not_mem_nil, or_false] at h
  obtain ((rfl | rfl | rfl | rfl | rfl) | hits) | (rfl | rfl | rfl) := h
  · decide
  · exact show "cpus".toList.head? ≠ some 'r' by decide
  · decide
  · rw [hunit]
    simp
  · rw [hunit]
    simp
  · split at hits
    · cases hits
    · rw [List.mem_singleton] at hits
      rw [hits, hunit]
      simp
  · decide
  · decide
  · rw [hunit]
    simp

theorem regions_qemuTree (vm : ArmVm) : (qemuTree vm).regions = [] := by
  have hnone : (qemuTree vm).rsvdNode = none := by
    refine List.find?_eq_none.2 fun c hc => ?_
    rw [nodenameEq_reservedMemory (head_qemuTree hc)]
    simp
  rw [regions_eq, rsvdChildren, hnone]
  rfl

/-- The hook works on the tree it is given. -/
def Arch.EditsTree : Arch → Prop
  | .arm64 _ => False
  | _ => True

theorem sameRsvd_archInit {arch : Arch} (h : arch.EditsTree) (fdt : Fdt) :
    SameRsvd fdt (archInitServiceVmVfdt arch fdt) := by
  cases arch with
  | x86 => exact ⟨rfl, rfl⟩
  | riscv => exact sameRsvd_setHartIsaStrAll fdt
  | arm64 vm => cases h

/-- A region that is added joins the list exactly if `/reserved-memory` is there and the name
for it is free. The memory of the hypervisor and of all pre-launched VMs joins what the
host's tree reserves exactly if this is so for all of them and the architecture keeps the
tree. -/
theorem fdt_add_rsvd_node_reserves (fdt : Fdt) (addr size : BitVec 64) (arch : Arch)
    (bootargs : List Byte) (host : Fdt) (hv : Region) (configs : List VmMemory) :
    ((fdtAddRsvdNode fdt addr size).1.regions.Perm (⟨addr, size⟩ :: fdt.regions) ↔
      CanAdd fdt addr) ∧
    ((initServiceVmVfdt arch bootargs host hv configs).regions.Perm
        (toReserve hv configs ++ host.regions) ↔
      arch.EditsTree ∧ host.rsvdNode.isSome ∧ ∀ k (hk : k < (toReserve hv configs).length),
          rsvName (host.rsvdChildren.length + k) (toReserve hv configs)[k].addr ∉
            host.rsvdChildren.map name) := by
  refine ⟨regions_perm_iff fdt addr size, ?_⟩
  have hfdt : reserveVms configs (addRegion host hv) = addRegions host (toReserve hv configs) :=
    reserveVms_eq configs (addRegion host hv)
  rw [initServiceVmVfdt, (sameRsvd_initVmVfdtCommon _ _).regions, hfdt]
  by_cases harch : arch.EditsTree
  · rw [(sameRsvd_archInit harch _).regions, addRegions_perm_iff]
    by_cases hsome : host.rsvdNode.isSome
    · rw [canAddAll_iff hsome]
      exact ⟨fun h => ⟨harch, hsome, h⟩, fun h => h.2.2⟩
    · exact ⟨fun h => absurd h.1.1 hsome, fun h => absurd h.2.1 hsome⟩
  · refine ⟨fun h => ?_, fun h => absurd h.1 harch⟩
    cases arch with
    | x86 | riscv => exact absurd trivial harch
    | arm64 vm =>
      rw [archInitServiceVmVfdt, regions_qemuTree] at h
      exact absurd h.symm (by simp [toReserve])

/-- A tree without `/reserved-memory`: the hypervisor is lost, the VM after it is not. -/
def bareTree : Fdt := ⟨.mk [] [] [], [], by simp⟩

theorem first_reservation_lost : (fdtAddRsvdNode bareTree 0x40000000 0x1000000).1.regions = [] ∧
      (initServiceVmVfdt .riscv [] bareTree ⟨0x40000000, 0x1000000⟩
        [⟨.preLaunched, [⟨0x50000000, 0x8000000⟩]⟩]).regions = [⟨0x50000000, 0x8000000⟩] := by
  decide

end Sima.Boot
