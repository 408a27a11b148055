import Mathlib.Data.List.Basic
import Mathlib.Logic.Function.Basic

/-!
# Asynchronous I/O

A device model that wants no answer to some write registers its address, and if only one
value of the data matters to it, that value too. The write is then queued for it, and the
guest goes on. The descriptors are slots of an array that are taken and cleared, and those
in use are linked into a list, which is what a request is looked up in.

A request is for one device model at most. That rests on the history: a descriptor is
registered only if it conflicts with none in the list, and two that match one request always
conflict.
-/

namespace Sima.Dm

open Function (update update_of_ne update_self)

/-- `struct acrn_asyncio_info`. -/
structure AsyncioInfo where
  type : Nat
  matchData : Nat
  addr : Nat
  fd : Nat
  data : Nat

inductive IoType where
  | portio
  | mmio
  | other

structure IoRequest where
  ioType : IoType
  address : Nat
  value : Nat

namespace IoRequest

/-- Where `get_asyncio_desc` looks; there is nothing to find at zero. -/
def addr (r : IoRequest) : Nat :=
  match r.ioType with
  | .other => 0
  | _ => r.address

def type (r : IoRequest) : Nat :=
  match r.ioType with
  | .portio => 1
  | .mmio => 2
  | .other => 0

end IoRequest

namespace AsyncioInfo

/-- A descriptor after `memset`. -/
def zero : AsyncioInfo := ⟨0, 0, 0, 0, 0⟩

def conflicts (info other : AsyncioInfo) : Bool :=
  info.addr == other.addr && info.type == other.type &&
    (info.matchData == 0 || other.matchData == 0 || info.data == other.data)

/-- What `remove_asyncio` goes by. -/
def same (info other : AsyncioInfo) : Bool :=
  info.type == other.type && info.addr == other.addr && info.fd == other.fd &&
    (info.matchData == 0) == (other.matchData == 0) && info.data == other.data

/-- The rule that the descriptor was registered with. -/
def accepts (info : AsyncioInfo) (r : IoRequest) : Bool :=
  info.addr == r.addr && info.type == r.type && (info.matchData == 0 || info.data == r.value)

theorem conflicts_comm (info other : AsyncioInfo) :
    info.conflicts other = other.conflicts info := by
  rw [Bool.eq_iff_iff]
  simp only [conflicts, Bool.and_eq_true, Bool.or_eq_true, beq_iff_eq]
  omega

theorem conflicts_of_accepts {info other : AsyncioInfo} {r : IoRequest}
    (h : info.accepts r = true) (h' : other.accepts r = true) : info.conflicts other = true := by
  simp only [conflicts, accepts, Bool.and_eq_true, Bool.or_eq_true, beq_iff_eq] at h h' ⊢
  omega

end AsyncioInfo

def acrnAsyncioMax : Nat := 64

/-- The descriptors of a VM, and the list of those in use. -/
structure Asyncio where
  aioDesc : Nat → AsyncioInfo
  aiodescQueue : List Nat

namespace Asyncio

def start : Asyncio := ⟨fun _ => .zero, []⟩

def asyncioIsConflict (a : Asyncio) (info : AsyncioInfo) : Bool :=
  a.aiodescQueue.any fun i => (a.aioDesc i).conflicts info

def addAsyncio (info : AsyncioInfo) (a : Asyncio) : Int × Asyncio :=
  if info.addr = 0 ∨ a.asyncioIsConflict info then (-1, a)
  else
    match (List.range acrnAsyncioMax).find? fun i =>
      (a.aioDesc i).addr == 0 && (a.aioDesc i).fd == 0 with
    | some i => (0, ⟨update a.aioDesc i info, i :: a.aiodescQueue⟩)
    | none => (-1, a)

def removeAsyncio (info : AsyncioInfo) (a : Asyncio) : Int × Asyncio :=
  if info.addr = 0 then (-1, a)
  else
    match (List.range acrnAsyncioMax).find? fun i => (a.aioDesc i).same info with
    | some i => (0, ⟨update a.aioDesc i .zero, a.aiodescQueue.erase i⟩)
    | none => (-1, a)

/-- `get_asyncio_desc` of a VM that has been given its buffer. -/
def getAsyncioDesc (r : IoRequest) (a : Asyncio) : Option Nat :=
  if r.addr = 0 then none
  else a.aiodescQueue.find? fun i => (a.aioDesc i).accepts r

/-- List and array describe the same descriptors, and no two of them conflict. -/
structure Ok (a : Asyncio) : Prop where
  nodup : a.aiodescQueue.Nodup
  listed : ∀ i, i ∈ a.aiodescQueue ↔ i < acrnAsyncioMax ∧ (a.aioDesc i).addr ≠ 0
  apart : ∀ i ∈ a.aiodescQueue, ∀ j ∈ a.aiodescQueue, i ≠ j →
    (a.aioDesc i).conflicts (a.aioDesc j) = false

variable {a : Asyncio}

theorem Ok.add (h : a.Ok) (info : AsyncioInfo) : (a.addAsyncio info).2.Ok := by
  rw [addAsyncio]
  split
  · exact h
  rename_i hnew
  obtain ⟨haddr, hnone⟩ := not_or.mp hnew
  split
  · next i hi =>
    have hlt := List.mem_range.mp (List.mem_of_find?_eq_some hi)
    have hfree : (a.aioDesc i).addr = 0 := by
      have := List.find?_some hi
      simp at this
      exact this.1
    have hnot : i ∉ a.aiodescQueue := fun hi => ((h.listed i).mp hi).2 hfree
    have hold : ∀ j ∈ a.aiodescQueue, update a.aioDesc i info j = a.aioDesc j ∧
        (a.aioDesc j).conflicts info = false := by
      intro j hj
      have hji : j ≠ i := fun hji => hnot (hji ▸ hj)
      refine ⟨update_of_ne hji .., ?_⟩
      exact Bool.eq_false_iff.mpr fun hc => hnone (List.any_eq_true.mpr ⟨j, hj, hc⟩)
    refine ⟨List.nodup_cons.mpr ⟨hnot, h.nodup⟩, fun j => ?_, fun j hj k hk hjk => ?_⟩
    · by_cases hji : j = i
      · simp [hji, hlt, haddr]
      · simp [hji, h.listed j]
    dsimp only at hj hk ⊢
    rcases List.mem_cons.mp hj with rfl | hj' <;> rcases List.mem_cons.mp hk with rfl | hk'
    · exact absurd rfl hjk
    · rw [update_self, (hold k hk').1, AsyncioInfo.conflicts_comm]
      exact (hold k hk').2
    · rw [update_self, (hold j hj').1]
      exact (hold j hj').2
    · rw [(hold j hj').1, (hold k hk').1]
      exact h.apart j hj' k hk' hjk
  · exact h

theorem Ok.remove (h : a.Ok) (info : AsyncioInfo) : (a.removeAsyncio info).2.Ok := by
  rw [removeAsyncio]
  split
  · exact h
  split
  · next i hi =>
    have hmem : ∀ j, j ∈ a.aiodescQueue.erase i ↔ j ≠ i ∧ j ∈ a.aiodescQueue :=
      fun j => h.nodup.mem_erase_iff
    refine ⟨h.nodup.erase i, fun j => ?_, fun j hj k hk hjk => ?_⟩
    · by_cases hji : j = i
      · simp [hmem, hji, AsyncioInfo.zero]
      · simp [hji, h.listed j]
    obtain ⟨hji, hj⟩ := (hmem j).mp hj
    obtain ⟨hki, hk⟩ := (hmem k).mp hk
    dsimp only
    rw [update_of_ne hji, update_of_ne hki]
    exact h.apart j hj k hk hjk
  · exact h

inductive Op where
  | add (info : AsyncioInfo)
  | remove (info : AsyncioInfo)

def step (a : Asyncio) : Op → Asyncio
  | .add info => (a.addAsyncio info).2
  | .remove info => (a.removeAsyncio info).2

theorem Ok.run (h : a.Ok) (ops : List Op) : (ops.foldl step a).Ok := by
  induction ops generalizing a with
  | nil => exact h
  | cons op ops ih =>
    cases op with
    | add info => exact ih (h.add info)
    | remove info => exact ih (h.remove info)

/-- After every sequence of registrations and removals: list and array agree and nothing
conflicts, and a request finds the one descriptor whose rule it satisfies. -/
theorem asyncio_unique (ops : List Op) (r : IoRequest) :
    let a := ops.foldl step start
    a.Ok ∧ (∀ i ∈ a.aiodescQueue, ∀ j ∈ a.aiodescQueue,
        (a.aioDesc i).accepts r = true → (a.aioDesc j).accepts r = true → i = j) ∧
      ∀ i, a.getAsyncioDesc r = some i ↔
        r.addr ≠ 0 ∧ i ∈ a.aiodescQueue ∧ (a.aioDesc i).accepts r = true := by
  intro a
  have h : a.Ok := by
    refine .run ⟨List.nodup_nil, fun i => ?_, fun i hi => by cases hi⟩ ops
    simp [start, AsyncioInfo.zero]
  have hone : ∀ i ∈ a.aiodescQueue, ∀ j ∈ a.aiodescQueue,
      (a.aioDesc i).accepts r = true → (a.aioDesc j).accepts r = true → i = j := by
    intro i hi j hj hir hjr
    by_contra hij
    have hc := AsyncioInfo.conflicts_of_accepts hir hjr
    rw [h.apart i hi j hj hij] at hc
    cases hc
  refine ⟨h, hone, fun i => ?_⟩
  rw [getAsyncioDesc]
  split
  · next h0 => simp [h0]
  rename_i h0
  constructor
  · intro hfind
    have hr := List.find?_some hfind
    exact ⟨h0, List.mem_of_find?_eq_some hfind, hr⟩
  rintro ⟨-, hi, hr⟩
  cases hfind : a.aiodescQueue.find? fun i => (a.aioDesc i).accepts r with
  | none => exact absurd hr (List.find?_eq_none.mp hfind i hi)
  | some j =>
    have hjr := List.find?_some hfind
    rw [hone i hi j (List.mem_of_find?_eq_some hfind) hr hjr]

end Asyncio

end Sima.Dm
