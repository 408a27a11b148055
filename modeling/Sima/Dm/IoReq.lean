import Mathlib.Data.Set.Card
import Sima.Lib.KeyedSlots
import Sima.Lib.Trace
import Sima.Rtl.Errno

/-!
# The table of emulated MMIO regions

A trapped access is handed to a device by its address. The regions of a VM are nodes of
a fixed array: registering a handler takes the first node whose range is `[0, 0)`, and
unregistering clears the node of exactly that range. The search for the handler of an
access stops at a high-water mark, which is never lowered, so a node below it may be
free and one above it never holds a range.

Seen from outside the table is a partial map from ranges to devices. Against that map
the routing law is: an access inside a range goes to its device, one that straddles the
boundary of a range fails with `-EIO`, and one that meets no range is left to the
default handler — or fails with `-ENODEV`, where there is none. The code compares
`address + size` with the ends of the ranges in 64 bits. The sum would have to wrap to
mislead it, and it does not: what a trap reports is an address of at most 52 bits, and the
access has at most eight bytes.
-/

namespace Sima.Dm

open Lib
open Function (forall_update_iff update update_eq_self_iff update_of_ne update_self)
open KeyedSlots

/-! ## The table -/

/-- `CONFIG_MAX_EMULATED_MMIO_REGIONS`. -/
def maxEmulatedMmioRegions : Nat := 8

variable {H δ σ : Type}

/-- `struct mem_io_node`; `H` stands for the functions that `read_write` can point to,
`δ` for what is behind a `handler_private_data`. -/
structure MemIoNode (H δ : Type) where
  holdLock : Bool
  readWrite : Option H
  handlerPrivateData : Option δ
  rangeStart : BitVec 64
  rangeEnd : BitVec 64

/-- A node after `memset`. -/
def MemIoNode.zero : MemIoNode H δ := ⟨false, none, none, 0, 0⟩

/-- The part of `struct acrn_vm` that the table is. -/
structure MmioTable (H δ : Type) where
  emulMmio : Nat → MemIoNode H δ
  nrEmulMmioRegions : Nat

/-- The table of a VM that has just been created. -/
def MmioTable.start : MmioTable H δ := ⟨fun _ => .zero, 0⟩

namespace MmioTable

section

variable (t : MmioTable H δ)

def findMatchMmioNode (start stop : BitVec 64) : Option Nat :=
  (List.range maxEmulatedMmioRegions).find? fun idx =>
    (t.emulMmio idx).rangeStart == start && (t.emulMmio idx).rangeEnd == stop

def findFreeMmioNode : Option Nat × MmioTable H δ :=
  match t.findMatchMmioNode 0 0 with
  | some idx => (some idx,
      if t.nrEmulMmioRegions < idx then { t with nrEmulMmioRegions := idx } else t)
  | none => (none, t)

def setNode (idx : Nat) (n : MemIoNode H δ) : MmioTable H δ :=
  { t with emulMmio := update t.emulMmio idx n }

def registerMmioEmulationHandler (readWrite : Option H) (start stop : BitVec 64)
    (handlerPrivateData : Option δ) (holdLock : Bool) : MmioTable H δ :=
  if readWrite.isSome ∧ stop > start then
    match t.findFreeMmioNode with
    | (some idx, t) => t.setNode idx ⟨holdLock, readWrite, handlerPrivateData, start, stop⟩
    | (none, t) => t
  else t

def unregisterMmioEmulationHandler (start stop : BitVec 64) : MmioTable H δ :=
  match t.findMatchMmioNode start stop with
  | some idx => t.setNode idx .zero
  | none => t

end

end MmioTable

/-! ## Emulating an access -/

inductive Direction where
  | read
  | write
  deriving DecidableEq

/-- `struct acrn_mmio_request`. -/
structure MmioRequest where
  direction : Direction
  address : BitVec 64
  size : BitVec 64
  value : BitVec 64
  deriving DecidableEq

/-- The address of a stage-2 abort. -/
def arm64FaultIpa (hpfar far : BitVec 64) : BitVec 64 :=
  (hpfar &&& 0xfffffffff0) <<< 8 ||| (far &&& 0xfff)

/-- The request of `handle_mmio_abort`. -/
def abortRequest (hpfar far esr value : BitVec 64) : MmioRequest where
  direction := if esr &&& 0x40 = 0 then .read else .write
  address := arm64FaultIpa hpfar far
  size := 1 <<< (esr >>> 22 &&& 3).toNat
  value := value

/-- The accesses that `emulate_io` is called for: a data abort on arm64, and on x86 an EPT
violation, with the operand size of the instruction. -/
inductive Trapped : MmioRequest → Prop where
  | abort (hpfar far esr value : BitVec 64) : Trapped (abortRequest hpfar far esr value)
  | eptViolation (gpa : BitVec 52) (opsize value : BitVec 64) (direction : Direction) :
      opsize ∈ [1, 2, 4, 8] → Trapped ⟨direction, gpa.setWidth 64, opsize, value⟩

inductive LoadOrder where
  | preLaunchedVm
  | serviceVm
  | postLaunchedVm
  deriving DecidableEq

/-- What `read_write` may point to when it is called. -/
inductive Handler (H : Type) where
  | mmioDefaultAccess
  | device (h : H)
  deriving DecidableEq

/-- A call of a handler: with its private data, and with the lock held or not. -/
structure Call (H δ : Type) where
  handler : Handler H
  handlerPrivateData : Option δ
  holdLock : Bool
  deriving DecidableEq

/-- What the emulation of an access comes to: the status, the call that was made, and
the request and the rest of the machine after it. -/
structure Outcome (H δ σ : Type) where
  status : Int
  invoked : Option (Call H δ)
  request : MmioRequest
  machine : σ
  deriving DecidableEq

/-- The handlers of the devices: what a call returns and does. -/
abbrev Devices (H δ σ : Type) := H → MmioRequest → Option δ → σ → Int × MmioRequest × σ

def mmioDefaultAccessHandler (r : MmioRequest) : MmioRequest :=
  match r.direction with
  | .read =>
    match r.size with
    | 1 => { r with value := 0xff }
    | 2 => { r with value := 0xffff }
    | 4 => { r with value := 0xffffffff }
    | 8 => { r with value := 0xffffffffffffffff }
    | _ => r
  | .write => r

def callHandler (devices : Devices H δ σ) (c : Call H δ) (r : MmioRequest) (s : σ) :
    Outcome H δ σ :=
  match c.handler with
  | .mmioDefaultAccess => ⟨0, some c, mmioDefaultAccessHandler r, s⟩
  | .device h =>
    let (status, r', s') := devices h r c.handlerPrivateData s
    ⟨status, some c, r', s'⟩

/-- The access is before the node or behind it, as the code compares. -/
def MemIoNode.skips (n : MemIoNode H δ) (r : MmioRequest) : Bool :=
  r.address + r.size ≤ n.rangeStart || r.address ≥ n.rangeEnd

/-- The access is inside the node, as the code compares. -/
def MemIoNode.covers (n : MemIoNode H δ) (r : MmioRequest) : Bool :=
  r.address ≥ n.rangeStart && r.address + r.size ≤ n.rangeEnd

namespace MmioTable

/-- The node at which the loop over the table stops. -/
def scan (t : MmioTable H δ) (r : MmioRequest) : Option (MemIoNode H δ) :=
  ((List.range (t.nrEmulMmioRegions + 1)).map t.emulMmio).find? fun n =>
    n.readWrite.isSome && !n.skips r

def hvEmulateMmio (t : MmioTable H δ) (devices : Devices H δ σ) (loadOrder : LoadOrder)
    (r : MmioRequest) (s : σ) : Outcome H δ σ :=
  let default : Option (Handler H) :=
    if loadOrder = .serviceVm ∨ loadOrder = .preLaunchedVm then some .mmioDefaultAccess
    else none
  -- `status`, `hold_lock`, `read_write` and `handler_private_data` after the loop
  let (status, holdLock, readWrite, handlerPrivateData) :=
    match t.scan r with
    | none => (-enodev, true, default, none)
    | some n =>
      if n.covers r then
        (-enodev, n.holdLock, n.readWrite.map .device, n.handlerPrivateData)
      else (-eio, true, default, none)
  match readWrite with
  | some h =>
    if status = -enodev then callHandler devices ⟨h, handlerPrivateData, holdLock⟩ r s
    else ⟨status, none, r, s⟩
  | none => ⟨status, none, r, s⟩

end MmioTable

/-! ## The map that the table is -/

structure Range where
  start : BitVec 64
  stop : BitVec 64
  deriving DecidableEq

/-- The device behind a range, as it was registered. -/
structure Device (H δ : Type) where
  readWrite : H
  handlerPrivateData : Option δ
  holdLock : Bool

def Device.call (d : Device H δ) : Call H δ :=
  ⟨.device d.readWrite, d.handlerPrivateData, d.holdLock⟩

/-- The ranges that are registered, each with its device. -/
abbrev Live (H δ : Type) := Range → Option (Device H δ)

namespace Range

/-- No byte of the access is in the range. -/
def Apart (k : Range) (r : MmioRequest) : Prop :=
  r.address.toNat + r.size.toNat ≤ k.start.toNat ∨ k.stop.toNat ≤ r.address.toNat

/-- All bytes of the access are in the range. -/
def Contains (k : Range) (r : MmioRequest) : Prop :=
  k.start.toNat ≤ r.address.toNat ∧ r.address.toNat + r.size.toNat ≤ k.stop.toNat

/-- Some bytes of the access are in the range and some are not. -/
def Straddles (k : Range) (r : MmioRequest) : Prop := ¬ k.Apart r ∧ ¬ k.Contains r

def Disjoint (k k' : Range) : Prop := k.stop ≤ k'.start ∨ k'.stop ≤ k.start

end Range

/-- The outcome is that no device was there to take the access. -/
def Outcome.FellBack (loadOrder : LoadOrder) (out : Outcome H δ σ) : Prop :=
  if loadOrder = .serviceVm ∨ loadOrder = .preLaunchedVm then
    out.invoked = some ⟨.mmioDefaultAccess, none, true⟩
  else out.invoked = none ∧ out.status = -enodev

/-- The routing law. A device may itself answer with an error, so the `-EIO` of the
routing is the one that comes without a call. -/
structure Routed (live : Live H δ) (devices : Devices H δ σ) (loadOrder : LoadOrder)
    (r : MmioRequest) (s : σ) (out : Outcome H δ σ) : Prop where
  invokes : ∀ k d, live k = some d → k.Contains r → out = callHandler devices d.call r s
  device : ∀ h p l, out.invoked = some ⟨.device h, p, l⟩ →
    ∃! k, live k = some ⟨h, p, l⟩ ∧ k.Contains r
  eio : (out.invoked = none ∧ out.status = -Sima.eio) ↔ ∃ k d, live k = some d ∧ k.Straddles r
  fallback : out.FellBack loadOrder ↔ ∀ k d, live k = some d → k.Apart r

/-! ## Registration -/

inductive Op (H δ : Type) where
  | register (readWrite : Option H) (start stop : BitVec 64) (handlerPrivateData : Option δ)
      (holdLock : Bool)
  | unregister (start stop : BitVec 64)

def MmioTable.apply (t : MmioTable H δ) : Op H δ → MmioTable H δ
  | .register readWrite start stop p l => t.registerMmioEmulationHandler readWrite start stop p l
  | .unregister start stop => t.unregisterMmioEmulationHandler start stop

def MmioStep (op : Op H δ) (t t' : MmioTable H δ) : Prop := t' = t.apply op

/-- What is registered after an operation. -/
def noteLive (op : Op H δ) (_ : MmioTable H δ) (live : Live H δ) : Live H δ :=
  match op with
  | .register (some h) start stop p l =>
    if start < stop then update live ⟨start, stop⟩ (some ⟨h, p, l⟩) else live
  | .register none _ _ _ _ => live
  | .unregister start stop => update live ⟨start, stop⟩ none

/-- Ranges are disjoint, and no more of them are registered than the table holds. -/
def Registrable (op : Op H δ) (x : MmioTable H δ × Live H δ) : Prop :=
  match op with
  | .register (some _) start stop _ _ => start < stop →
      (∀ k d, x.2 k = some d → k.Disjoint ⟨start, stop⟩) ∧
        (insert ⟨start, stop⟩ {k | (x.2 k).isSome}).encard ≤ maxEmulatedMmioRegions
  | _ => True

variable {t t' : MmioTable H δ} {live : Live H δ} {n : MemIoNode H δ} {k k' : Range}
  {d d' : Device H δ} {r : MmioRequest} {s : σ} {devices : Devices H δ σ} {loadOrder : LoadOrder}
  {lo hi : BitVec 64} {i : Nat} {out : Outcome H δ σ} {l : Bool} {p : Option δ}

/-! ## What the table stands for -/

/-- The range of a node that is not free. -/
def MemIoNode.range (n : MemIoNode H δ) : Option Range :=
  if n.rangeStart = 0 ∧ n.rangeEnd = 0 then none else some ⟨n.rangeStart, n.rangeEnd⟩

def MemIoNode.device (n : MemIoNode H δ) : Option (Device H δ) :=
  n.readWrite.map fun h => ⟨h, n.handlerPrivateData, n.holdLock⟩

def MmioTable.ranges (t : MmioTable H δ) : Live H δ := fun k =>
  (lookup MemIoNode.range maxEmulatedMmioRegions t.emulMmio k).bind MemIoNode.device

/-- A node has a handler exactly if it has a range, and the range is not empty. -/
structure MemIoNode.Ok (n : MemIoNode H δ) : Prop where
  free : n.range = none → n.readWrite = none
  used : ∀ {k}, n.range = some k → n.readWrite.isSome ∧ k.start < k.stop

structure TableOk (t : MmioTable H δ) : Prop where
  unique : KeyedSlots.Unique MemIoNode.range maxEmulatedMmioRegions t.emulMmio
  nodes : ∀ i < maxEmulatedMmioRegions, (t.emulMmio i).Ok
  /-- No range is above the high-water mark. -/
  mark : ∀ i < maxEmulatedMmioRegions, (t.emulMmio i).range ≠ none → i ≤ t.nrEmulMmioRegions
  bound : t.nrEmulMmioRegions < maxEmulatedMmioRegions
  disjoint : ∀ k k' d d', t.ranges k = some d → t.ranges k' = some d' → k ≠ k' → k.Disjoint k'

theorem MemIoNode.range_some (h : n.range = some k) :
    n.rangeStart = k.start ∧ n.rangeEnd = k.stop := by
  rw [MemIoNode.range] at h
  split at h
  · cases h
  · cases h
    exact ⟨rfl, rfl⟩

theorem MemIoNode.zero_range : (MemIoNode.zero : MemIoNode H δ).range = none := by
  rw [MemIoNode.range, if_pos ⟨rfl, rfl⟩]

theorem MemIoNode.zero_ok : (MemIoNode.zero : MemIoNode H δ).Ok := by
  refine ⟨fun _ => rfl, fun h => ?_⟩
  cases h

theorem range_of_lt (h : lo < hi) {w : Option H} :
    (⟨l, w, p, lo, hi⟩ : MemIoNode H δ).range = some ⟨lo, hi⟩ := by
  rw [MemIoNode.range, if_neg]
  rintro ⟨rfl : lo = 0, rfl : hi = 0⟩
  exact absurd h (by decide)

theorem findMatch_zero : t.findMatchMmioNode 0 0 =
    free MemIoNode.range maxEmulatedMmioRegions t.emulMmio := by
  have hp : ∀ n : MemIoNode H δ, (n.rangeStart == 0 && n.rangeEnd == 0) = n.range.isNone := by
    intro n
    rw [MemIoNode.range, Bool.eq_iff_iff, Bool.and_eq_true, beq_iff_eq, beq_iff_eq]
    split
    · next h => exact ⟨fun _ => rfl, fun _ => h⟩
    · next h => exact ⟨fun h' => absurd h' h, by simp⟩
  exact congrArg (fun p => (List.range _).find? p) (funext fun i => hp (t.emulMmio i))

theorem findMatch_range (h : ¬ (lo = 0 ∧ hi = 0)) : t.findMatchMmioNode lo hi =
    find MemIoNode.range maxEmulatedMmioRegions t.emulMmio ⟨lo, hi⟩ := by
  have hp : ∀ n : MemIoNode H δ, (n.rangeStart == lo && n.rangeEnd == hi) =
      (n.range == some ⟨lo, hi⟩) := by
    intro n
    rw [MemIoNode.range, Bool.eq_iff_iff, Bool.and_eq_true, beq_iff_eq, beq_iff_eq, beq_iff_eq]
    split
    · next h0 =>
      refine ⟨fun h' => absurd ?_ h, by simp⟩
      rw [← h'.1, ← h'.2]
      exact h0
    · rw [Option.some.injEq, Range.mk.injEq]
  exact congrArg (fun p => (List.range _).find? p) (funext fun i => hp (t.emulMmio i))

namespace TableOk

theorem ranges_some (h : TableOk t) : t.ranges k = some d ↔ ∃ i < maxEmulatedMmioRegions,
    (t.emulMmio i).range = some k ∧ (t.emulMmio i).device = some d := by
  rw [MmioTable.ranges]
  constructor
  · intro hk
    obtain ⟨n, hn, hd⟩ := Option.bind_eq_some_iff.mp hk
    obtain ⟨i, hi, rfl⟩ := Option.map_eq_some_iff.mp hn
    obtain ⟨hlt, hr⟩ := find_some hi
    exact ⟨i, hlt, hr, hd⟩
  · rintro ⟨i, hi, hr, hd⟩
    rw [h.unique.lookup_eq hi hr]
    exact hd

theorem lt (h : TableOk t) (hk : t.ranges k = some d) : k.start < k.stop := by
  obtain ⟨i, hi, hr, -⟩ := h.ranges_some.mp hk
  exact ((h.nodes i hi).used hr).2

theorem start : TableOk (MmioTable.start : MmioTable H δ) := by
  have hnone : ∀ i, ((MmioTable.start : MmioTable H δ).emulMmio i).range = none :=
    fun _ => MemIoNode.zero_range
  refine ⟨fun i j k _ _ hi => ?_, fun _ _ => MemIoNode.zero_ok, fun i _ hi => absurd (hnone i) hi,
    Nat.zero_lt_succ _, fun k k' d d' hk => ?_⟩
  · cases hi
  · cases hk

variable (h : TableOk t)

include h

/-- A free node is taken for a range that is disjoint from all others. -/
theorem put {m : Nat} (hm : m < maxEmulatedMmioRegions)
    (hfits : KeyedSlots.Fits MemIoNode.range maxEmulatedMmioRegions t.emulMmio k i) (hmark : i ≤ m)
    (hle : t.nrEmulMmioRegions ≤ m) (hr : n.range = some k) (hd : n.device = some d)
    (hlt : k.start < k.stop) (hdis : ∀ k' d', t.ranges k' = some d' → k'.Disjoint k) :
    TableOk ⟨update t.emulMmio i n, m⟩ ∧ (MmioTable.mk (update t.emulMmio i n) m).ranges =
        update t.ranges k (some d) := by
  have hmap : (MmioTable.mk (update t.emulMmio i n) m).ranges = update t.ranges k (some d) := by
    funext k'
    rw [MmioTable.ranges, h.unique.lookup_put hfits hr]
    by_cases hk : k' = k
    · rw [hk, update_self, update_self, Option.bind_some, hd]
    · rw [update_of_ne hk, update_of_ne hk, MmioTable.ranges]
  refine ⟨⟨h.unique.put hfits hr, fun j hj => ?_, fun j hj hne => ?_, hm,
    fun k₁ k₂ d₁ d₂ h₁ h₂ hne => ?_⟩, hmap⟩
  · by_cases hji : j = i
    · rw [hji]
      dsimp only
      rw [update_self]
      refine ⟨fun hn => ?_, fun hk => ?_⟩
      · rw [hr] at hn
        cases hn
      rw [hr] at hk
      cases hk
      obtain ⟨_, hw, -⟩ := Option.map_eq_some_iff.mp hd
      rw [hw]
      exact ⟨rfl, hlt⟩
    · dsimp only
      rw [update_of_ne hji]
      exact h.nodes j hj
  · by_cases hji : j = i
    · rw [hji]
      exact hmark
    · dsimp only at hne
      rw [update_of_ne hji] at hne
      exact (h.mark j hj hne).trans hle
  · rw [hmap] at h₁ h₂
    by_cases hk₁ : k₁ = k
    · subst hk₁
      rw [update_of_ne (Ne.symm hne)] at h₂
      exact (hdis k₂ d₂ h₂).symm
    rw [update_of_ne hk₁] at h₁
    by_cases hk₂ : k₂ = k
    · rw [hk₂]
      exact hdis k₁ d₁ h₁
    · rw [update_of_ne hk₂] at h₂
      exact h.disjoint _ _ _ _ h₁ h₂ hne

theorem clear (hsub : ∀ k d, (t.setNode i .zero).ranges k = some d → t.ranges k = some d) :
    TableOk (t.setNode i .zero) := by
  refine ⟨h.unique.drop MemIoNode.zero_range, fun j hj => ?_, fun j hj hne => ?_, h.bound,
    fun k k' d d' hk hk' => h.disjoint k k' d d' (hsub _ _ hk) (hsub _ _ hk')⟩
  · exact (forall_update_iff t.emulMmio fun j n => j < maxEmulatedMmioRegions → n.Ok).mpr
      ⟨fun _ => MemIoNode.zero_ok, fun j _ => h.nodes j⟩ j hj
  · exact (forall_update_iff t.emulMmio fun j n => j < maxEmulatedMmioRegions →
      n.range ≠ none → j ≤ t.nrEmulMmioRegions).mpr
        ⟨fun _ hne => absurd MemIoNode.zero_range hne, fun j _ => h.mark j⟩ j hj hne

theorem register {w : H} {p : Option δ} {l : Bool} (hlt : lo < hi)
    (hdis : ∀ k' d', t.ranges k' = some d' → k'.Disjoint ⟨lo, hi⟩)
    (hroom : (insert ⟨lo, hi⟩ {k | (t.ranges k).isSome}).encard ≤ maxEmulatedMmioRegions) :
    TableOk (t.registerMmioEmulationHandler (some w) lo hi p l) ∧
      (t.registerMmioEmulationHandler (some w) lo hi p l).ranges =
        update t.ranges ⟨lo, hi⟩ (some ⟨w, p, l⟩) := by
  have hnew : find MemIoNode.range maxEmulatedMmioRegions t.emulMmio ⟨lo, hi⟩ = none := by
    cases hf : find MemIoNode.range maxEmulatedMmioRegions t.emulMmio ⟨lo, hi⟩ with
    | none => rfl
    | some i =>
      -- a range that is not empty is not disjoint from itself
      obtain ⟨hi, hr⟩ := find_some hf
      obtain ⟨w', hw'⟩ := Option.isSome_iff_exists.mp ((h.nodes i hi).used hr).1
      have hself := hdis _ _ (h.ranges_some.mpr ⟨i, hi, hr, by rw [MemIoNode.device, hw']; rfl⟩)
      rcases hself with hself | hself <;> exact absurd hlt (BitVec.not_lt.mpr hself)
  have hkeys : keys MemIoNode.range maxEmulatedMmioRegions t.emulMmio ⊆
      {k | (t.ranges k).isSome} := by
    intro k hk
    obtain ⟨n, hn⟩ := Option.isSome_iff_exists.mp hk
    obtain ⟨i, hi, rfl⟩ := Option.map_eq_some_iff.mp hn
    obtain ⟨hlt', hr⟩ := find_some hi
    obtain ⟨w', hw'⟩ := Option.isSome_iff_exists.mp ((h.nodes i hlt').used hr).1
    have hsome := h.ranges_some.mpr ⟨i, hlt', hr, by rw [MemIoNode.device, hw']; rfl⟩
    show (t.ranges k).isSome = true
    rw [hsome]
    rfl
  obtain ⟨i, hfits, hfree⟩ := h.unique.exists_free hnew
    ((Set.encard_le_encard (Set.insert_subset_insert hkeys)).trans hroom)
  have hi := hfits.lt
  rw [MmioTable.registerMmioEmulationHandler, if_pos ⟨rfl, hlt⟩, MmioTable.findFreeMmioNode,
    findMatch_zero, hfree]
  dsimp only
  split
  · next hmark => exact h.put hi hfits le_rfl hmark.le (range_of_lt hlt) rfl hlt hdis
  · next hmark =>
    exact h.put h.bound hfits (Nat.le_of_not_lt hmark) le_rfl (range_of_lt hlt) rfl hlt hdis

theorem ranges_zero : t.ranges ⟨0, 0⟩ = none := by
  cases hk : t.ranges ⟨0, 0⟩ with
  | none => rfl
  | some d => exact absurd (h.lt hk) (by decide)

theorem unregister : TableOk (t.unregisterMmioEmulationHandler lo hi) ∧
    (t.unregisterMmioEmulationHandler lo hi).ranges = update t.ranges ⟨lo, hi⟩ none := by
  rw [MmioTable.unregisterMmioEmulationHandler]
  by_cases h0 : lo = 0 ∧ hi = 0
  · -- the node that is found is free
    obtain ⟨rfl, rfl⟩ := h0
    rw [findMatch_zero]
    have hsame : update t.ranges ⟨0, 0⟩ none = t.ranges := by
      rw [update_eq_self_iff, h.ranges_zero]
    rw [hsame]
    split
    · next i hfind =>
      have hmap : (t.setNode i .zero).ranges = t.ranges := by
        funext k
        rw [MmioTable.ranges, MmioTable.ranges, MmioTable.setNode]
        rw [lookup_other]
        · rw [(free_some hfind).2]
          exact Option.some_ne_none k ∘ Eq.symm
        · exact Option.some_ne_none k ∘ Eq.symm
      exact ⟨h.clear fun k d hk => by rwa [hmap] at hk, hmap⟩
    · exact ⟨h, rfl⟩
  · rw [findMatch_range h0]
    split
    · next i hfind =>
      have hmap : (t.setNode i .zero).ranges = update t.ranges ⟨lo, hi⟩ none := by
        funext k
        rw [MmioTable.ranges, MmioTable.setNode]
        rw [h.unique.lookup_drop hfind MemIoNode.zero_range]
        by_cases hk : k = ⟨lo, hi⟩
        · rw [hk, update_self, update_self]
          rfl
        · rw [update_of_ne hk, update_of_ne hk, MmioTable.ranges]
      refine ⟨h.clear fun k d hk => ?_, hmap⟩
      rw [hmap] at hk
      by_cases hkk : k = ⟨lo, hi⟩
      · rw [hkk, update_self] at hk
        cases hk
      · rwa [update_of_ne hkk] at hk
    · next hnone =>
      refine ⟨h, (update_eq_self_iff.mpr ?_).symm⟩
      rw [MmioTable.ranges, lookup, hnone]
      rfl

omit h

end TableOk

/-- Along every such run the table is the map of what is registered. -/
theorem tableOk_run {tr : List (Op H δ)}
    (hrun : GuardedRun (Noted MmioStep noteLive) Registrable (MmioTable.start, fun _ => none)
      tr (t, live)) : TableOk t ∧ live = t.ranges := by
  suffices hall : ∀ {x : MmioTable H δ × Live H δ}, GuardedRun (Noted MmioStep noteLive)
      Registrable (MmioTable.start, fun _ => none) tr x → TableOk x.1 ∧ x.2 = x.1.ranges from
    hall hrun
  clear hrun
  intro x hrun
  induction hrun with
  | nil =>
    refine ⟨.start, funext fun k => ?_⟩
    rw [MmioTable.ranges, lookup_none]
    · rfl
    · intro i _ hi
      cases hi
  | @cons op _ x y _ hok hs ih =>
    obtain ⟨h, hlive⟩ := ih
    obtain ⟨hstep, hnote⟩ := hs
    rw [hnote, hstep]
    cases op with
    | unregister lo hi =>
      refine ⟨h.unregister.1, ?_⟩
      rw [MmioTable.apply, h.unregister.2, noteLive, hlive]
    | register w lo hi p l =>
      cases w with
      | none => exact ⟨h, hlive⟩
      | some w =>
        by_cases hlt : lo < hi
        · have hok : lo < hi → _ := hok
          rw [hlive] at hok
          obtain ⟨hdis, hroom⟩ := hok hlt
          obtain ⟨h', hmap⟩ := h.register hlt hdis hroom
          refine ⟨h', ?_⟩
          rw [MmioTable.apply, hmap, noteLive, if_pos hlt, hlive]
        · rw [MmioTable.apply, MmioTable.registerMmioEmulationHandler,
            if_neg fun hc => hlt hc.2, noteLive, if_neg hlt]
          exact ⟨h, hlive⟩

/-! ## The search -/

theorem Trapped.ends (h : Trapped r) :
    0 < r.size.toNat ∧ r.address.toNat + r.size.toNat < 2 ^ 64 := by
  cases h with
  | abort hpfar far esr value =>
    have hpage : ((hpfar &&& 0xfffffffff0) <<< 8).toNat < 2 ^ 48 := by
      have hle : (hpfar &&& 0xfffffffff0).toNat ≤ 0xfffffffff0 := Nat.and_le_right
      rw [BitVec.toNat_shiftLeft, Nat.shiftLeft_eq]
      omega
    have hoff : (far &&& 0xfff).toNat < 2 ^ 48 :=
      lt_of_le_of_lt Nat.and_le_right (by decide : 0xfff < 2 ^ 48)
    have hipa : (arm64FaultIpa hpfar far).toNat < 2 ^ 48 := Nat.or_lt_two_pow hpage hoff
    have hsas : (esr >>> 22 &&& 3).toNat ≤ 3 := Nat.and_le_right
    have hsize : ∀ sas ≤ 3, 0 < (1 <<< sas : BitVec 64).toNat ∧
        (1 <<< sas : BitVec 64).toNat ≤ 8 := by decide
    obtain ⟨hpos, hle⟩ := hsize _ hsas
    refine ⟨hpos, ?_⟩
    show (arm64FaultIpa hpfar far).toNat + (1 <<< _ : BitVec 64).toNat < _
    omega
  | eptViolation gpa opsize value direction hsize =>
    have hgpa : (gpa.setWidth 64).toNat < 2 ^ 52 := by
      rw [BitVec.toNat_setWidth]
      omega
    simp only [List.mem_cons, List.not_mem_nil, or_false] at hsize
    have hopsize : 0 < opsize.toNat ∧ opsize.toNat ≤ 8 := by
      rcases hsize with rfl | rfl | rfl | rfl <;> exact ⟨by decide, by decide⟩
    refine ⟨hopsize.1, ?_⟩
    show (gpa.setWidth 64).toNat + opsize.toNat < _
    omega

section

variable (hend : r.address.toNat + r.size.toNat < 2 ^ 64)

include hend

theorem MemIoNode.skips_iff (h : n.range = some k) : n.skips r = true ↔ k.Apart r := by
  obtain ⟨hs, he⟩ := MemIoNode.range_some h
  rw [MemIoNode.skips, hs, he, Bool.or_eq_true, decide_eq_true_iff, decide_eq_true_iff,
    BitVec.le_def, BitVec.toNat_add, Nat.mod_eq_of_lt hend]
  exact Iff.rfl

theorem MemIoNode.covers_iff (h : n.range = some k) : n.covers r = true ↔ k.Contains r := by
  obtain ⟨hs, he⟩ := MemIoNode.range_some h
  rw [MemIoNode.covers, hs, he, Bool.and_eq_true, decide_eq_true_iff, decide_eq_true_iff,
    BitVec.le_def (x := r.address + r.size), BitVec.toNat_add, Nat.mod_eq_of_lt hend]
  exact Iff.rfl

/-- The loop skips every range, or stops at one that it does not skip. -/
theorem TableOk.scan_cases (h : TableOk t) :
    (t.scan r = none ∧ ∀ k d, t.ranges k = some d → k.Apart r) ∨
    ∃ n k d, t.scan r = some n ∧ n.device = some d ∧ t.ranges k = some d ∧
      (n.covers r = true ↔ k.Contains r) ∧ ¬ k.Apart r := by
  cases hscan : t.scan r with
  | none =>
    refine .inl ⟨rfl, fun k d hk => ?_⟩
    obtain ⟨i, hi, hr, -⟩ := h.ranges_some.mp hk
    have hmark : i ≤ t.nrEmulMmioRegions := h.mark i hi (by rw [hr]; exact Option.some_ne_none k)
    have hmem : t.emulMmio i ∈ (List.range (t.nrEmulMmioRegions + 1)).map t.emulMmio :=
      List.mem_map.mpr ⟨i, List.mem_range.mpr (Nat.lt_succ_of_le hmark), rfl⟩
    have hnot := List.find?_eq_none.mp hscan _ hmem
    rw [((h.nodes i hi).used hr).1, Bool.true_and, Bool.not_eq_true', Bool.not_eq_false,
      MemIoNode.skips_iff hend hr] at hnot
    exact hnot
  | some n =>
    obtain ⟨i, hi, rfl⟩ := List.mem_map.mp (List.mem_of_find?_eq_some hscan)
    have hlt : i < maxEmulatedMmioRegions := by
      have := List.mem_range.mp hi
      have := h.bound
      omega
    have hfound := List.find?_some hscan
    rw [Bool.and_eq_true] at hfound
    obtain ⟨hsome, hskip⟩ := hfound
    obtain ⟨w, hw⟩ := Option.isSome_iff_exists.mp hsome
    cases hr : (t.emulMmio i).range with
    | none =>
      rw [(h.nodes i hlt).free hr] at hw
      cases hw
    | some k =>
      have hd : (t.emulMmio i).device = some ⟨w, (t.emulMmio i).handlerPrivateData,
          (t.emulMmio i).holdLock⟩ := by
        rw [MemIoNode.device, hw, Option.map_some]
      refine .inr ⟨_, k, _, rfl, hd, h.ranges_some.mpr ⟨i, hlt, hr, hd⟩,
        MemIoNode.covers_iff hend hr, fun hs => ?_⟩
      rw [(MemIoNode.skips_iff hend hr).mpr hs] at hskip
      cases hskip

end

/-! ## The outcome -/

theorem hvEmulateMmio_none (hscan : t.scan r = none) :
    (t.hvEmulateMmio devices loadOrder r s).FellBack loadOrder := by
  rw [MmioTable.hvEmulateMmio, hscan, Outcome.FellBack]
  split
  · simp [callHandler]
  · exact ⟨rfl, rfl⟩

theorem hvEmulateMmio_covered (hscan : t.scan r = some n) (hd : n.device = some d)
    (hc : n.covers r = true) :
    t.hvEmulateMmio devices loadOrder r s = callHandler devices d.call r s := by
  obtain ⟨w, hw, rfl⟩ := Option.map_eq_some_iff.mp hd
  rw [MmioTable.hvEmulateMmio, hscan]
  simp only [if_pos hc, hw]
  rfl

theorem hvEmulateMmio_straddled (hscan : t.scan r = some n) (hc : ¬ n.covers r = true) :
    t.hvEmulateMmio devices loadOrder r s = ⟨-eio, none, r, s⟩ := by
  rw [MmioTable.hvEmulateMmio, hscan]
  simp only [if_neg hc]
  split
  · rw [if_neg (by decide)]
  · rfl

theorem Outcome.FellBack.not_eio (h : out.FellBack loadOrder) :
    ¬ (out.invoked = none ∧ out.status = -eio) := by
  rintro ⟨hi, hs⟩
  rw [FellBack] at h
  split at h
  · rw [hi] at h
    cases h
  · rw [hs] at h
    exact absurd h.2 (by decide)

theorem Outcome.FellBack.not_device (h : out.FellBack loadOrder) {w : H} :
    out.invoked ≠ some ⟨.device w, p, l⟩ := by
  intro hi
  rw [FellBack, hi] at h
  split at h
  · cases h
  · cases h.1

/-! ## The law -/

namespace Range

theorem Contains.not_apart (h : k.Contains r) (hsize : 0 < r.size.toNat) : ¬ k.Apart r := by
  rw [Contains] at h
  rw [Apart]
  omega

theorem Contains.apart (h : k.Contains r) (hd : k.Disjoint k') : k'.Apart r := by
  rw [Contains] at h
  rw [Disjoint, BitVec.le_def, BitVec.le_def] at hd
  rw [Apart]
  omega

end Range

theorem routed_none (hsize : 0 < r.size.toNat) (hscan : t.scan r = none)
    (happ : ∀ k d, t.ranges k = some d → k.Apart r) :
    Routed t.ranges devices loadOrder r s (t.hvEmulateMmio devices loadOrder r s) := by
  have hfell : (t.hvEmulateMmio devices loadOrder r s).FellBack loadOrder :=
    hvEmulateMmio_none hscan
  refine ⟨fun k d hk hc => absurd (happ k d hk) (hc.not_apart hsize),
    fun w p l hi => absurd hi hfell.not_device, ?_, ⟨fun _ => happ, fun _ => hfell⟩⟩
  exact ⟨fun he => absurd he hfell.not_eio, fun ⟨k, d, hk, hst⟩ => absurd (happ k d hk) hst.1⟩

theorem routed_some (h : TableOk t) (hsize : 0 < r.size.toNat) (hscan : t.scan r = some n)
    (hd : n.device = some d) (hk : t.ranges k = some d)
    (hcov : n.covers r = true ↔ k.Contains r) (hs : ¬ k.Apart r) :
    Routed t.ranges devices loadOrder r s (t.hvEmulateMmio devices loadOrder r s) := by
  by_cases hc : n.covers r = true
  · -- the range contains the access, and no other meets it
    have hin := hcov.mp hc
    have hother : ∀ k' d', t.ranges k' = some d' → k' ≠ k → k'.Apart r :=
      fun k' d' hk' hne => hin.apart (h.disjoint _ _ _ _ hk hk' (Ne.symm hne))
    have hout : t.hvEmulateMmio devices loadOrder r s = callHandler devices d.call r s :=
      hvEmulateMmio_covered hscan hd hc
    have hinv : (t.hvEmulateMmio devices loadOrder r s).invoked = some d.call := by
      rw [hout, callHandler]
      split <;> rfl
    refine ⟨fun k' d' hk' hc' => ?_, fun w p l hi => ?_, ⟨fun he => ?_, ?_⟩,
      ⟨fun hf => absurd hinv hf.not_device, fun hall => absurd (hall k d hk) hs⟩⟩
    · by_cases hne : k' = k
      · subst hne
        rw [hk] at hk'
        cases hk'
        exact hout
      · exact absurd (hother k' d' hk' hne) (hc'.not_apart hsize)
    · rw [hinv] at hi
      cases hi
      refine ⟨k, ⟨hk, hin⟩, fun k' hk' => ?_⟩
      by_contra hne
      exact hk'.2.not_apart hsize (hother k' _ hk'.1 hne)
    · rw [hinv] at he
      cases he.1
    · rintro ⟨k', d', hk', hst⟩
      by_cases hne : k' = k
      · exact absurd (hne ▸ hin) hst.2
      · exact absurd (hother k' d' hk' hne) hst.1
  · have hnot : ¬ k.Contains r := fun hin => hc (hcov.mpr hin)
    rw [hvEmulateMmio_straddled hscan hc]
    refine ⟨fun k' d' hk' hc' => ?_, fun w p l hi => (by cases hi),
      ⟨fun _ => ⟨k, d, hk, hs, hnot⟩, fun _ => ⟨rfl, rfl⟩⟩,
      ⟨fun hf => absurd ⟨rfl, rfl⟩ hf.not_eio, fun hall => absurd (hall k d hk) hs⟩⟩
    by_cases hne : k' = k
    · exact absurd (hne ▸ hc') hnot
    · exact absurd (hc'.apart (h.disjoint _ _ _ _ hk' hk hne)) hs

/-- After every sequence of registrations of disjoint ranges that the table can hold, every
access that is trapped is routed as the law says. -/
theorem mmio_routed {tr : List (Op H δ)}
    (hrun : GuardedRun (Noted MmioStep noteLive) Registrable (MmioTable.start, fun _ => none)
      tr (t, live)) (hr : Trapped r) :
    Routed live devices loadOrder r s (t.hvEmulateMmio devices loadOrder r s) := by
  obtain ⟨h, rfl⟩ := tableOk_run hrun
  obtain ⟨hsize, hend⟩ := hr.ends
  rcases h.scan_cases hend with ⟨hscan, hall⟩ | ⟨n, k, d, hscan, hd, hk, hcov, hs⟩
  · exact routed_none hsize hscan hall
  · exact routed_some h hsize hscan hd hk hcov hs

/-! ## A UART -/

def uartRange : Range := ⟨0x9000000, 0x9001000⟩

def uart : Device Unit Unit := ⟨(), none, false⟩

def uartOp : Op Unit Unit := .register (some ()) uartRange.start uartRange.stop none false

/-- The device answers every access with success. -/
def succeed : Devices Unit Unit Unit := fun _ r _ s => (0, r, s)

/-- A doubleword that is read at an offset in the page of the UART. -/
def uartRead (offset : BitVec 64) : MmioRequest := abortRequest 0x90000 offset 0xc00000 0

/-- In the page it is the device's, and at its end it straddles the boundary. -/
theorem mmio_routed_uart : ∃ t : MmioTable Unit Unit,
    t.hvEmulateMmio succeed .postLaunchedVm (uartRead 0x18) () =
        callHandler succeed uart.call (uartRead 0x18) () ∧
      (t.hvEmulateMmio succeed .postLaunchedVm (uartRead 0xffc) ()).status = -eio := by
  have hrun : GuardedRun (Noted MmioStep noteLive) Registrable (MmioTable.start, fun _ => none)
      [uartOp] (MmioTable.start.apply uartOp, update (fun _ => none) uartRange (some uart)) := by
    refine .cons .nil (fun _ => ⟨fun k d hk => (by cases hk), ?_⟩) ⟨rfl, rfl⟩
    have hempty : {k : Range | ((fun _ => none : Live Unit Unit) k).isSome} = ∅ :=
      Set.eq_empty_of_forall_notMem fun k hk => by cases hk
    rw [hempty, insert_empty_eq, Set.encard_singleton]
    decide
  have hlive : update (fun _ => none) uartRange (some uart) uartRange = some uart := update_self ..
  have hin : uartRange.Contains (uartRead 0x18) := ⟨by decide, by decide⟩
  have hout : uartRange.Straddles (uartRead 0xffc) := by
    rw [Range.Straddles, Range.Apart, Range.Contains]
    decide
  exact ⟨_, (mmio_routed hrun (.abort ..)).invokes uartRange uart hlive hin,
    ((mmio_routed hrun (.abort ..)).eio.mpr ⟨uartRange, uart, hlive, hout⟩).2⟩

end Sima.Dm
