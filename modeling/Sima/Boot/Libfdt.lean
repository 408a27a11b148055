import Mathlib.Data.List.Basic
import Mathlib.Data.List.Infix
import Sima.Lib.CString

/-!
# Device trees

A device tree is a tree of named nodes with properties, and apart from it a list of memory
reservations. The functions here are those of the flattened-tree library that the hypervisor
uses, read as functions on the tree: lookups, and the two edits that create a node or a
property. There is always room for an edit.

The library names a node by the offset at which it starts, and returns an error as a
negative offset; a function that only succeeds or fails returns zero. The three share one
integer, and the root, being the first thing in the tree, is at zero. Here an offset is the
path to the node, or an error: the path to the root stands for zero, and every other path
for something positive.
-/

namespace Sima.Boot

open Lib

abbrev Name := List Char

structure Property where
  name : Name
  value : List Byte

inductive Node where
  | mk (name : Name) (props : List Property) (children : List Node)

namespace Node

def name : Node → Name
  | mk name _ _ => name

def props : Node → List Property
  | mk _ props _ => props

def children : Node → List Node
  | mk _ _ children => children

end Node

structure Region where
  addr : BitVec 64
  size : BitVec 64
  deriving DecidableEq

/-- The reservation block ends at an entry of size zero, so no entry before it has one. -/
structure Fdt where
  root : Node
  rsvmap : List Region
  size_ne_zero : ∀ r ∈ rsvmap, r.size ≠ 0

inductive FdtErr where
  | notFound
  | exists
  | badOffset
  | internal
  deriving DecidableEq

abbrev Path := List Nat

abbrev Offset := Except FdtErr Path

namespace Offset

def zero : Offset := .ok []

def isZero : Offset → Bool
  | .ok [] => true
  | _ => false

def isPos : Offset → Bool
  | .ok (_ :: _) => true
  | _ => false

def isNeg : Offset → Bool
  | .error _ => true
  | .ok _ => false

end Offset

/-! ## Reaching a node -/

namespace Node

def get : Node → Path → Option Node
  | n, [] => some n
  | n, i :: p => n.children[i]?.bind fun c => c.get p

def modify (f : Node → Node) : Node → Path → Node
  | n, [] => f n
  | n, i :: p => .mk n.name n.props (n.children.modify i fun c => c.modify f p)

end Node

namespace Fdt

def modify (fdt : Fdt) (p : Path) (f : Node → Node) : Fdt :=
  { fdt with root := fdt.root.modify f p }

end Fdt

/-- `fdt_nodename_eq_`: a unit address that was not asked for is not compared. -/
def nodenameEq (p s : Name) : Bool :=
  p == s || (!s.contains '@' && (s ++ ['@']).isPrefixOf p)

def fdtSubnodeOffset (fdt : Fdt) (parent : Offset) (name : Name) : Offset :=
  match parent with
  | .error e => .error e
  | .ok p =>
    match fdt.root.get p with
    | none => .error .badOffset
    | some n =>
      match n.children.findIdx? fun c => nodenameEq c.name name with
      | some i => .ok (p ++ [i])
      | none => .error .notFound

/-- `fdt_path_offset`, for a path of one component. -/
def fdtPathOffset (fdt : Fdt) (name : Name) : Offset := fdtSubnodeOffset fdt .zero name

/-- The nodes that `fdt_for_each_subnode` visits. -/
def fdtSubnodes (fdt : Fdt) (parent : Offset) : List Offset :=
  match parent with
  | .error _ => []
  | .ok p =>
    match fdt.root.get p with
    | none => []
    | some n => (List.range n.children.length).map fun i => .ok (p ++ [i])

/-! ## Properties -/

namespace Node

def getProp (n : Node) (name : Name) : Option (List Byte) :=
  (n.props.find? fun q => q.name = name).map Property.value

def setFirst (name : Name) (value : List Byte) : List Property → List Property
  | [] => []
  | q :: qs => if q.name = name then ⟨name, value⟩ :: qs else q :: setFirst name value qs

/-- A property that is there is resized; a new one is the first of its node. -/
def setProp (name : Name) (value : List Byte) (n : Node) : Node :=
  if (n.getProp name).isSome then .mk n.name (setFirst name value n.props) n.children
  else .mk n.name (⟨name, value⟩ :: n.props) n.children

/-- A new node comes after the properties of its parent, before its other nodes. -/
def addChild (name : Name) (n : Node) : Node :=
  .mk n.name n.props (.mk name [] [] :: n.children)

end Node

section

variable (fdt : Fdt) (node : Offset) (name : Name)

/-- `fdt_get_property`; its length is the length of the list. -/
def fdtGetProperty : Option (List Byte) :=
  match node with
  | .error _ => none
  | .ok p => (fdt.root.get p).bind fun n => n.getProp name

def fdtSetprop (value : List Byte) : Fdt × Offset :=
  match node with
  | .error _ => (fdt, .error .badOffset)
  | .ok p =>
    match fdt.root.get p with
    | none => (fdt, .error .badOffset)
    | some _ => (fdt.modify p (Node.setProp name value), .zero)

def fdtSetpropEmpty : Fdt × Offset :=
  fdtSetprop fdt node name []

def cpuToFdt32 (x : BitVec 32) : List Byte :=
  [(x >>> 24).setWidth 8, (x >>> 16).setWidth 8, (x >>> 8).setWidth 8, x.setWidth 8]

def fdt32ToCpu (b₀ b₁ b₂ b₃ : Byte) : BitVec 32 :=
  b₀ ++ b₁ ++ b₂ ++ b₃

def fdtSetpropU32 (x : BitVec 32) : Fdt × Offset :=
  fdtSetprop fdt node name (cpuToFdt32 x)

def fdtAddSubnode (parent : Offset) (name : Name) : Fdt × Offset :=
  match fdtSubnodeOffset fdt parent name with
  | .ok _ => (fdt, .error .exists)
  | .error .notFound =>
    match parent with
    | .error _ => (fdt, .error .internal)
    | .ok p => (fdt.modify p (Node.addChild name), .ok (p ++ [0]))
  | .error e => (fdt, .error e)

/-! ## The reservation block -/

def fdtNumMemRsv : Nat := fdt.rsvmap.length

def fdtGetMemRsv (n : Nat) : Except FdtErr Region :=
  match fdt.rsvmap[n]? with
  | some r => .ok r
  | none => .error .badOffset

end

/-! ## Nodes below the root -/

section Below

variable {fdt : Fdt} {name : Name} {pre post l : List Node} {n : Node} {f : Node → Node}

theorem modify_append : (pre ++ n :: post).modify pre.length f = pre ++ f n :: post := by
  induction pre with
  | nil => rfl
  | cons c cs ih =>
    rw [List.cons_append, List.length_cons, List.modify_succ_cons, ih, List.cons_append]

/-- The first node below the root that goes by `name`, and what stands around it. -/
structure IsFirst (name : Name) (l pre : List Node) (n : Node) (post : List Node) : Prop where
  split : l = pre ++ n :: post
  named : nodenameEq n.name name = true
  before : ∀ c ∈ pre, nodenameEq c.name name = false

theorem exists_isFirst {i : Nat} (h : (l.findIdx? fun c => nodenameEq c.name name) = some i) :
    ∃ pre n post, IsFirst name l pre n post := by
  obtain ⟨hlt, hi, hbefore⟩ := List.findIdx?_eq_some_iff_getElem.1 h
  refine ⟨l.take i, l[i], l.drop (i + 1), ?_, hi, ?_⟩
  · rw [List.cons_getElem_drop_succ, List.take_append_drop]
  intro c hc
  obtain ⟨j, hj, rfl⟩ := List.getElem_of_mem hc
  rw [List.length_take] at hj
  simpa using hbefore j (by omega)

variable (h : IsFirst name l pre n post)

include h

theorem IsFirst.findIdx : (l.findIdx? fun c => nodenameEq c.name name) = some pre.length := by
  rw [h.split, List.findIdx?_append, List.findIdx?_cons, if_pos h.named,
    List.findIdx?_eq_none_iff.2 h.before]
  simp

theorem IsFirst.replace {m : Node} (hm : m.name = n.name) :
    IsFirst name (pre ++ m :: post) pre m post :=
  ⟨rfl, by rw [hm]; exact h.named, h.before⟩

theorem IsFirst.get : l[pre.length]? = some n := by
  rw [h.split]
  simp

omit h

end Below

end Sima.Boot
