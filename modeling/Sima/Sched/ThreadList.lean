import Mathlib.Data.Finset.Card
import Sima.Lib.Ring
import Sima.Sched.Schedule

/-!
# The list of all threads

`schedule.c` keeps every thread in one list, `thread_list`, for the loops that
look for priority requests and for runnable threads. A thread is put in when it is
set up, and `register_thread_object` asks first whether it is in already. But
`init_thread_data` has just made the node an empty list, so the answer is always
no: a thread that is set up again — the vCPU of a VM that was destroyed and
created anew — is linked in a second time, while its old neighbours still point to
it.

If it was the last one in the list, its node becomes its own successor, and no
loop over the list ends after that. Otherwise the threads between its old place and
the end are no longer met.
-/

namespace Sima.Sched

open Lib NodeMem

/-- Where a list node is: nowhere, `thread_list` itself, or the `node` of a
thread. -/
inductive NodeAddr where
  | null
  | threadList
  | node (t : Tid)
deriving DecidableEq, Repr

/-- `thread_list` and the nodes, `thread_count`, `thread_list_initialized`. -/
structure Registry where
  mem : NodeMem NodeAddr
  threadCount : Nat
  threadListInitialized : Bool

namespace Registry

/-- Zeroed memory. -/
def boot : Registry where
  mem _ := ⟨.null, .null⟩
  threadCount := 0
  threadListInitialized := false

def initThreadListOnce (r : Registry) : Registry :=
  if !r.threadListInitialized then
    { r with
      mem := r.mem.initListHead .threadList
      threadListInitialized := true }
  else r

def registerThreadObject (t : Tid) (r : Registry) : Registry :=
  let r := r.initThreadListOnce
  if r.mem.listEmpty (.node t) then
    { r with
      mem := r.mem.listAddTail (.node t) .threadList
      threadCount := r.threadCount + 1 }
  else r

/-- What `init_thread_data` does to the list. -/
def initThreadData (t : Tid) (r : Registry) : Registry :=
  registerThreadObject t { r with mem := r.mem.initListHead (.node t) }

/-- What `create_vcpu` does to the list: the vCPU is zeroed, and its thread is set
up. -/
def createVcpu (t : Tid) (r : Registry) : Registry :=
  initThreadData t { r with mem := Function.update r.mem (.node t) ⟨.null, .null⟩ }

end Registry

/-- The ways in which a thread is set up. -/
inductive ThreadInit where
  | thread (t : Tid)
  | vcpu (t : Tid)

namespace ThreadInit

def tid : ThreadInit → Tid
  | thread t => t
  | vcpu t => t

def apply (r : Registry) : ThreadInit → Registry
  | thread t => r.initThreadData t
  | vcpu t => r.createVcpu t

end ThreadInit

namespace Registry

/-- After these threads were set up, one after the other. -/
def setUp (ops : List ThreadInit) : Registry := ops.foldl ThreadInit.apply boot

/-- The list is a circle that holds each of `ts` once; it is as long as
`sched_get_thread_count` says; and a loop over it ends. -/
def WellFormed (r : Registry) (ts : List Tid) : Prop :=
  ∃ l : List Tid, Ring r.initThreadListOnce.mem .threadList (l.map .node) ∧
    (∀ t, t ∈ l ↔ t ∈ ts) ∧ l.length = r.threadCount ∧
    ∃ n, r.initThreadListOnce.mem.walk .threadList n = some (l.map .node)

variable {r : Registry} {t : Tid} {ts : List Tid}

theorem apply_eq (r : Registry) (op : ThreadInit) : op.apply r = r.initThreadData op.tid := by
  cases op with
  | thread t => rfl
  | vcpu t => simp [ThreadInit.apply, ThreadInit.tid, createVcpu, initThreadData, initListHead]

/-- The node is an empty list when `register_thread_object` looks, whatever it was
before. -/
theorem initThreadData_eq (t : Tid) (r : Registry) : r.initThreadData t =
      let r' := { r with mem := r.mem.initListHead (.node t) }.initThreadListOnce
      { r' with
        mem := r'.mem.listAddTail (.node t) .threadList
        threadCount := r.threadCount + 1 } := by
  rw [initThreadData, registerThreadObject]
  simp only [initThreadListOnce]
  split <;> simp [listEmpty, initListHead]

theorem initThreadListOnce_idem (h : r.threadListInitialized = true) :
    r.initThreadListOnce = r := by
  simp [initThreadListOnce, h]

/-! ## Each thread once -/

/-- The list holds `ts`, in the order in which they were set up. -/
structure Holds (r : Registry) (ts : List Tid) : Prop where
  ring : Ring r.initThreadListOnce.mem .threadList (ts.map .node)
  count : r.threadCount = ts.length
  clean : r.threadListInitialized = false → ts = []

theorem Holds.initThreadData (h : Holds r ts) (ht : t ∉ ts) :
    Holds (r.initThreadData t) (ts ++ [t]) := by
  have hnew : NodeAddr.node t ∉ NodeAddr.threadList :: ts.map NodeAddr.node := by simpa using ht
  have hring : Ring ({ r with mem := r.mem.initListHead (.node t) }
      : Registry).initThreadListOnce.mem .threadList (ts.map .node) := by
    cases hinit : r.threadListInitialized with
    | false =>
      simp only [h.clean hinit]
      exact ring_initListHead _ _
    | true =>
      have hold := h.ring
      simp only [initThreadListOnce, hinit] at hold ⊢
      exact hold.initListHead hnew
  have hset : ({ r with mem := r.mem.initListHead (.node t) }
      : Registry).initThreadListOnce.threadListInitialized = true := by
    simp only [initThreadListOnce]
    split
    · rfl
    · next hi => simpa using hi
  rw [initThreadData_eq]
  generalize ({ r with mem := r.mem.initListHead (.node t) }
    : Registry).initThreadListOnce = r' at hring hset ⊢
  refine ⟨?_, ?_, fun hf => ?_⟩
  · rw [initThreadListOnce_idem (by exact hset), List.map_append]
    exact hring.listAddTail hnew
  · simp [h.count]
  · rw [hset] at hf
    cases hf

theorem Holds.wellFormed (h : Holds r ts) : WellFormed r ts :=
  ⟨ts, h.ring, fun _ => Iff.rfl, h.count.symm, ts.length + 1, h.ring.walk (by simp)⟩

theorem setUp_append (ops : List ThreadInit) (op : ThreadInit) :
    setUp (ops ++ [op]) = (setUp ops).initThreadData op.tid := by
  rw [setUp, List.foldl_append, List.foldl_cons, List.foldl_nil, apply_eq, setUp]

theorem setUp_holds {ops : List ThreadInit} (h : (ops.map ThreadInit.tid).Nodup) :
    Holds (setUp ops) (ops.map ThreadInit.tid) := by
  induction ops using List.reverseRecOn with
  | nil => exact ⟨ring_initListHead _ _, rfl, fun _ => rfl⟩
  | append_singleton ops op ih =>
    rw [List.map_append, List.nodup_append_comm] at h
    obtain ⟨hnew, hold⟩ := List.nodup_cons.mp h
    rw [setUp_append, List.map_append]
    exact (ih hold).initThreadData hnew

theorem setUp_threadCount (ops : List ThreadInit) : (setUp ops).threadCount = ops.length := by
  induction ops using List.reverseRecOn with
  | nil => rfl
  | append_singleton ops op ih =>
    rw [setUp_append, initThreadData_eq, List.length_append, ← ih]
    rfl

/-- The thread list is well formed after a sequence of initialisations exactly if
no thread was set up twice. -/
theorem threadList_wellFormed_iff (ops : List ThreadInit) :
    WellFormed (setUp ops) (ops.map ThreadInit.tid) ↔ (ops.map ThreadInit.tid).Nodup := by
  constructor
  · rintro ⟨l, hring, hmem, hlen, -⟩
    have hnodup : l.Nodup := (List.nodup_cons.mp hring.nodup).2.of_map _
    rw [setUp_threadCount] at hlen
    -- `l` has no more elements than there are threads
    rw [← Multiset.coe_nodup, ← Multiset.toFinset_card_eq_card_iff_nodup]
    have hset : (ops.map ThreadInit.tid).toFinset = l.toFinset := by
      ext t
      simp only [List.mem_toFinset]
      exact (hmem t).symm
    calc (ops.map ThreadInit.tid).toFinset.card = l.toFinset.card := by rw [hset]
      _ = l.length := List.toFinset_card_of_nodup hnodup
      _ = (ops.map ThreadInit.tid).length := by rw [hlen, List.length_map]
  · exact fun h => (setUp_holds h).wellFormed

/-- The vCPU that was set up last is created anew: no loop over the list ends. A
vCPU before another one is created anew: the other one is not met, and the count
is wrong. -/
theorem threadList_recreated :
    (∀ n, (setUp [.thread 0, .vcpu 1, .vcpu 1]).mem.walk .threadList n = none) ∧
      (setUp [.thread 0, .vcpu 1, .vcpu 2, .vcpu 1]).mem.walk .threadList 5 =
        some [.node 0, .node 1] ∧
      (setUp [.thread 0, .vcpu 1, .vcpu 2, .vcpu 1]).threadCount = 4 := by
  refine ⟨fun n => ?_, by decide, by decide⟩
  have hself : ((setUp [.thread 0, .vcpu 1, .vcpu 1]).mem (.node 1)).next = .node 1 := by decide
  have hfirst : ((setUp [.thread 0, .vcpu 1, .vcpu 1]).mem .threadList).next = .node 0 := by decide
  have hsecond : ((setUp [.thread 0, .vcpu 1, .vcpu 1]).mem (.node 0)).next = .node 1 := by decide
  rw [walk, hfirst]
  cases n with
  | zero => rfl
  | succ n =>
    rw [walkFrom, if_neg (by decide), hsecond, walkFrom_self hself (by decide), Option.map_none]

end Registry

end Sima.Sched
