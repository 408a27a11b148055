/-!
# The interrupt counts of a VM

`hcall_vm_intr_monitor` lets the Service VM read how often the pass-through interrupts of a VM have
come in. The buffer is in the Service VM's memory and its size is the Service VM's word for it, so
the loop that fills the buffer has to keep to that size by itself. It writes first and compares
afterwards, and what it compares with is the size less two, in 32 bits.
-/

namespace Sima.Vm

/-- What `ptirq_get_intr_data` reads of a `struct ptirq_remapping_info`. -/
structure PtirqEntry where
  active : Bool
  allocatedPirq : BitVec 32
  vm : Nat
  intrCount : BitVec 64

def irqInvalid : BitVec 32 := 0xffffffff

def maxPtdevNum : BitVec 32 := 24

/-- The sizes that `hcall_vm_intr_monitor` accepts. -/
def intrMonitorAccepts (bufCnt : BitVec 32) : Bool := bufCnt ≤ maxPtdevNum * 2

namespace PtirqEntry

/-- The entry is one that the loop does not pass over. -/
def counts (vm : Nat) (e : PtirqEntry) : Bool :=
  e.active && e.allocatedPirq != irqInvalid && e.vm == vm

/-- What is written for entries, from a slot on: the slots and their values. -/
def slots (index : Nat) : List PtirqEntry → List (Nat × BitVec 64)
  | [] => []
  | e :: es =>
    (index, e.allocatedPirq.setWidth 64) :: (index + 1, e.intrCount) :: slots (index + 2) es

end PtirqEntry

open PtirqEntry

variable (vm : Nat) (bufferCnt : BitVec 32)

/-- The loop of `ptirq_get_intr_data`: the writes it makes, and what it returns. -/
def ptirqGetIntrData : List PtirqEntry → BitVec 32 → List (Nat × BitVec 64) × BitVec 32
  | [], index => ([], index)
  | e :: es, index =>
    if e.counts vm then
      let writes := [(index.toNat, e.allocatedPirq.setWidth 64), ((index + 1).toNat, e.intrCount)]
      if bufferCnt - 2 < index + 2 then (writes, index + 2)
      else
        let rest := ptirqGetIntrData es (index + 2)
        (writes ++ rest.1, rest.2)
    else ptirqGetIntrData es index

variable (es : List PtirqEntry) (index : BitVec 32)

theorem length_slots (i : Nat) : (slots i es).length = 2 * es.length := by
  induction es generalizing i with
  | nil => rfl
  | cons e es ih =>
    simp only [slots, List.length_cons, ih]
    omega

variable {es}

theorem slots_lt {i : Nat} {w : Nat × BitVec 64} (h : w ∈ slots i es) :
    w.1 < i + 2 * es.length := by
  induction es generalizing i with
  | nil => cases h
  | cons e es ih =>
    simp only [slots, List.mem_cons] at h
    rw [List.length_cons]
    rcases h with rfl | rfl | h
    · show i < _
      omega
    · show i + 1 < _
      omega
    · have := ih h
      omega

/-- While there is room for two more, the loop fills the buffer with entries of the VM, each once
and in their order, and stops at the latest when it is full. -/
theorem ptirqGetIntrData_spec (es : List PtirqEntry) (h : index.toNat + 2 ≤ bufferCnt.toNat) :
    ∃ found, List.Sublist found (es.filter (counts vm)) ∧
      (ptirqGetIntrData vm bufferCnt es index).1 = slots index.toNat found ∧
      (ptirqGetIntrData vm bufferCnt es index).2.toNat = index.toNat + 2 * found.length ∧
      index.toNat + 2 * found.length ≤ bufferCnt.toNat := by
  induction es generalizing index with
  | nil => exact ⟨[], .slnil, rfl, rfl, Nat.le_trans (Nat.le_add_right ..) h⟩
  | cons e es ih =>
    rw [ptirqGetIntrData, List.filter_cons]
    split
    · have h₁ : (index + 1).toNat = index.toNat + 1 := by bv_omega
      have h₂ : (index + 2).toNat = index.toNat + 2 := by bv_omega
      dsimp only
      rw [h₁]
      split
      · exact ⟨[e], (List.nil_sublist _).cons_cons e, rfl, h₂, h⟩
      rename_i hroom
      obtain ⟨found, hsub, hw, hn, hle⟩ := ih (index + 2) (by bv_omega)
      rw [h₂] at hw hn hle
      refine ⟨e :: found, hsub.cons_cons e, ?_, ?_, ?_⟩
      · rw [hw]
        rfl
      · rw [hn, List.length_cons]
        omega
      · rw [List.length_cons]
        omega
    · exact ih index h

/-- Whatever the size, the second slot is written for the first entry of the VM. -/
theorem second_slot_written {e : PtirqEntry} (h : e ∈ es) (he : e.counts vm = true) :
    ∃ w ∈ (ptirqGetIntrData vm bufferCnt es 0).1, w.1 = 1 := by
  induction es with
  | nil => cases h
  | cons e' es ih =>
    rw [ptirqGetIntrData]
    split
    · refine ⟨(1, e'.intrCount), ?_, rfl⟩
      dsimp only
      split <;> simp
    rename_i hno
    rcases List.mem_cons.mp h with rfl | h
    · exact absurd he hno
    · exact ih h

theorem ptirqGetIntrData_none (h : ∀ e ∈ es, e.counts vm = false) :
    ptirqGetIntrData vm bufferCnt es index = ([], index) := by
  induction es with
  | nil => rfl
  | cons e es ih =>
    rw [ptirqGetIntrData, if_neg (by simp [h e List.mem_cons_self])]
    exact ih fun e' he => h e' (List.mem_cons_of_mem _ he)

/-- The loop keeps to the buffer, returns how many slots it has written and reports every entry of
the VM at most once, exactly if the buffer has room for one entry or there is none to report. -/
theorem intr_data_in_buffer_iff (vm : Nat) (bufferCnt : BitVec 32) (es : List PtirqEntry) :
    (let r := ptirqGetIntrData vm bufferCnt es 0
     (∀ w ∈ r.1, w.1 < bufferCnt.toNat) ∧ r.1.length = r.2.toNat ∧
       ∃ found, List.Sublist found (es.filter (counts vm)) ∧ r.1 = slots 0 found) ↔
      2 ≤ bufferCnt.toNat ∨ ∀ e ∈ es, e.counts vm = false := by
  dsimp only
  constructor
  · intro h
    refine Decidable.or_iff_not_imp_left.mpr fun hroom e he => Bool.eq_false_iff.mpr fun hc => ?_
    obtain ⟨w, hw, h₁⟩ := second_slot_written vm bufferCnt he hc
    have := h.1 w hw
    omega
  · rintro (hroom | hnone)
    · obtain ⟨found, hsub, hw, hn, hle⟩ := ptirqGetIntrData_spec vm bufferCnt 0 es hroom
      rw [hw, hn, length_slots]
      refine ⟨fun w hw => ?_, (Nat.zero_add _).symm, found, hsub, rfl⟩
      exact Nat.lt_of_lt_of_le (slots_lt hw) hle
    · rw [ptirqGetIntrData_none vm bufferCnt 0 hnone]
      exact ⟨by simp, rfl, [], List.nil_sublist _, rfl⟩

/-- The size 0 is accepted, and twenty-five entries go beyond the forty-eight slots there are. -/
theorem intr_data_overruns :
    intrMonitorAccepts 0 = true ∧
      (49, 7) ∈ (ptirqGetIntrData 1 0 (List.replicate 25 ⟨true, 40, 1, 7⟩) 0).1 := by
  decide

end Sima.Vm
