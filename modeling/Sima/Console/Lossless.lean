import Mathlib.Data.Finset.Card
import Sima.Console.Tx
import Sima.Lib.Trace

/-!
# A bound console loses nothing

The flag register is read in one section under the ring's lock, and the byte is put in
another, so what the flag register said may be out of date. What keeps the ring from
overflowing is that only few writers can be in between: each vCPU has at most one byte on
its way, and the distance from the mark at which the path is blocked to the end of the
ring is larger than the number of vCPUs.

So a vCPU that finds the transmit FIFO not full has a permit, and its next byte uses it
up. While the path is open the ring is below the high mark; while it is blocked no permit
is given, and the bytes that are queued and those still permitted fit into the ring.
-/

namespace Sima.Console

open Lib RingBuf State
open Function (update)

/-! ## The ring in numbers -/

namespace RingBuf

variable {rb : RingBuf} {q : Nat} {ch : Byte}

@[simp] theorem txUpdateBlocked_pending : (rb.txUpdateBlocked q).pending = rb.pending := rfl

/-- A bound ring that stays open is below the high mark. -/
theorem lt_of_txUpdateBlocked (rb : RingBuf) (hb : (rb.txUpdateBlocked q).vuartBound = true)
    (hx : (rb.txUpdateBlocked q).txBlocked = false) : q < txBackpressureHighWater := by
  by_contra hhigh
  simp only [txUpdateBlocked] at hb hx
  rw [if_pos hb, if_pos (not_lt.mp hhigh)] at hx
  cases hx

variable (h : rb.pending ≤ ringbufCapacity)

include h

theorem queued_eq : rb.queued = rb.pending := by
  rw [queued, if_neg (not_lt.mpr h)]

theorem store_pending : (rb.store ch).pending = rb.pending + 1 := by
  simp only [pending, store, ringbufCapacity, ringbufSize] at h ⊢
  bv_omega

theorem dropOldest_of_le : rb.dropOldest = rb := by
  rw [dropOldest, if_neg (not_lt.mpr h)]

omit h

theorem dropOldest_pending_le : rb.dropOldest.pending ≤ ringbufCapacity := by
  rw [dropOldest]
  split
  · simp only [pending]
    bv_omega
  · next hle => exact not_lt.mp hle

theorem vuartReceive_vuartBound : (rb.vuartReceive ch).vuartBound = rb.vuartBound := by
  rw [vuartReceive, dropOldest]
  split <;> rfl

theorem vuartReceive_of_lt (h : rb.pending < ringbufCapacity) :
    rb.vuartReceive ch = (rb.store ch).txUpdateBlocked (rb.pending + 1) := by
  have hsucc : (rb.store ch).pending = rb.pending + 1 := store_pending (le_of_lt h)
  rw [vuartReceive, dropOldest_of_le (by omega), hsucc]

theorem claim_pending {len : Nat} (h : rb.pending ≤ ringbufCapacity) :
    (rb.claim len).1.pending = rb.pending - min rb.pending len := by
  have hle : min rb.pending len ≤ rb.pending := min_le_left ..
  rw [claim]
  simp only [if_neg (not_lt.mpr h)]
  simp only [pending] at h hle ⊢
  bv_omega

theorem claim_rest (rb : RingBuf) (len : Nat) : (rb.claim len).1.droppedBytes = rb.droppedBytes ∧
    (rb.claim len).1.vuartBound = rb.vuartBound ∧ (rb.claim len).1.txBlocked = rb.txBlocked := by
  rw [claim]
  split <;> exact ⟨rfl, rfl, rfl⟩

end RingBuf

/-! ## Permits -/

/-- The vCPUs that have found room and not written since. A ring that is not bound always
says that there is room, so a new binding starts anew. -/
def notePermit (a : Label) (s : State) (permit : Nat → Bool) : Nat → Bool :=
  match a with
  | .readFr v =>
    if s.canStart (.vcpu v) then update permit v s.rb.txCanAccept.2 else permit
  | .advance (.vcpu v) =>
    match s.pc (.vcpu v) with
    | .put _ _ => update permit v false
    | _ => permit
  | .bind _ | .unbind _ => fun _ => false
  | _ => permit

/-- While the console is bound, a byte is written only with a permit. -/
def Polls (a : Label) (x : State × (Nat → Bool)) : Prop :=
  ∀ v oldRis ch, a = .advance (.vcpu v) → x.1.pc (.vcpu v) = .put oldRis ch →
    x.1.rb.vuartBound = true → x.2 v = true

/-- The number of permits. -/
def permits (permit : Nat → Bool) : Nat :=
  ((Finset.range maxVcpusPerVm).filter fun v => permit v = true).card

theorem permits_le (permit : Nat → Bool) : permits permit ≤ maxVcpusPerVm := by
  refine le_trans (Finset.card_filter_le _ _) (le_of_eq ?_)
  exact Finset.card_range _

variable {v : Nat}

theorem filter_revoked {permit : Nat → Bool} :
    ((Finset.range maxVcpusPerVm).filter fun w => update permit v false w = true) =
      ((Finset.range maxVcpusPerVm).filter fun w => permit w = true).erase v := by
  ext w
  by_cases hwv : w = v <;> simp [hwv]

theorem permits_use {permit : Nat → Bool} (hv : v < maxVcpusPerVm) (hp : permit v = true) :
    permits (update permit v false) + 1 = permits permit := by
  have hmem : v ∈ (Finset.range maxVcpusPerVm).filter fun v => permit v = true :=
    Finset.mem_filter.mpr ⟨Finset.mem_range.mpr hv, hp⟩
  rw [permits, permits, ← Finset.card_erase_add_one hmem]
  congr 1
  exact congrArg Finset.card filter_revoked

theorem permits_revoke {permit : Nat → Bool} :
    permits (update permit v false) ≤ permits permit := by
  rw [permits, filter_revoked]
  exact Finset.card_erase_le

/-! ## What is queued and what may come -/

/-- With `n` permits given, a bound ring has room for what may still come. -/
structure RingFits (rb : RingBuf) (n : Nat) : Prop where
  pending_le : rb.pending ≤ ringbufCapacity
  opened : rb.vuartBound = true → rb.txBlocked = false → rb.pending < txBackpressureHighWater
  blocked : rb.vuartBound = true → rb.txBlocked = true → rb.pending + n ≤ ringbufCapacity

namespace RingFits

variable {rb : RingBuf} {n n' : Nat} {ch : Byte}

theorem mono (h : RingFits rb n) (hn : n' ≤ n) : RingFits rb n' := by
  refine ⟨h.pending_le, h.opened, fun hb hx => ?_⟩
  have := h.blocked hb hx
  omega

/-- A ring that is open gives as many permits as there are vCPUs. -/
theorem of_open (h : RingFits rb n) (hx : rb.txBlocked = false) : RingFits rb n' :=
  ⟨h.pending_le, h.opened, fun _ hb => absurd (hx.symm.trans hb) Bool.false_ne_true⟩

theorem of_unbound (h : rb.pending ≤ ringbufCapacity) (hb : rb.vuartBound = false) :
    RingFits rb n :=
  ⟨h, fun hx => absurd (hb.symm.trans hx) Bool.false_ne_true,
    fun hx => absurd (hb.symm.trans hx) Bool.false_ne_true⟩

theorem update (h : RingFits rb n) : RingFits (rb.txUpdateBlocked rb.queued) n := by
  have hle := h.pending_le
  rw [rb.queued_eq hle]
  refine ⟨hle, fun hb hx => rb.lt_of_txUpdateBlocked hb hx, fun hb hx => ?_⟩
  refine h.blocked hb ?_
  by_contra hopen
  have hlt := h.opened hb (Bool.eq_false_iff.mpr hopen)
  simp only [txUpdateBlocked] at hb hx
  rw [if_pos hb, if_neg (not_le.mpr hlt)] at hx
  split at hx
  · cases hx
  · exact hopen hx

theorem claim {len : Nat} (h : RingFits rb n) : RingFits (rb.claim len).1 n := by
  have hle := h.pending_le
  obtain ⟨-, hb, hx⟩ := rb.claim_rest len
  have hp : (rb.claim len).1.pending ≤ rb.pending := by
    rw [claim_pending hle]
    exact Nat.sub_le ..
  refine ⟨le_trans hp hle, fun hb' hx' => ?_, fun hb' hx' => ?_⟩
  · exact lt_of_le_of_lt hp (h.opened (hb ▸ hb') (hx ▸ hx'))
  · have := h.blocked (hb ▸ hb') (hx ▸ hx')
    omega

/-- A byte with a permit: it fits, and if it blocks the path there is room for the other
vCPUs. -/
theorem receive (h : RingFits rb (n + 1)) (hn : n < maxVcpusPerVm) (hb : rb.vuartBound = true) :
    RingFits (rb.vuartReceive ch) n ∧ (rb.vuartReceive ch).droppedBytes = rb.droppedBytes := by
  have hlt : rb.pending < ringbufCapacity ∧ (rb.txBlocked = false →
      rb.pending < txBackpressureHighWater) := by
    cases hx : rb.txBlocked with
    | false =>
      have := h.opened hb hx
      simp only [txBackpressureHighWater] at *
      exact ⟨by omega, fun _ => this⟩
    | true =>
      have := h.blocked hb hx
      exact ⟨by omega, by simp⟩
  have hsucc : (rb.store ch).pending = rb.pending + 1 := store_pending h.pending_le
  rw [vuartReceive_of_lt hlt.1]
  refine ⟨⟨?_, fun hb hx => ?_, fun _ hx => ?_⟩, rfl⟩
  · rw [txUpdateBlocked_pending, hsucc]
    exact hlt.1
  · rw [txUpdateBlocked_pending, hsucc]
    exact (rb.store ch).lt_of_txUpdateBlocked hb hx
  rw [txUpdateBlocked_pending, hsucc]
  cases hwas : rb.txBlocked with
  | false =>
    have := hlt.2 hwas
    simp only [ringbufCapacity, ringbufSize, txBackpressureHighWater, maxVcpusPerVm] at *
    omega
  | true =>
    have := h.blocked hb hwas
    omega

end RingFits

/-- Only vCPUs write. -/
def WritersAreVcpus (s : State) : Prop :=
  ∀ p oldRis ch, s.pc p = .put oldRis ch → ∃ v < maxVcpusPerVm, p = .vcpu v

theorem WritersAreVcpus.goto {s s' : State} (h : WritersAreVcpus s) {p : Party} {pc : Pc}
    (hs : s'.pc = s.pc) (hpc : ∀ oldRis ch, pc ≠ .put oldRis ch) :
    WritersAreVcpus (s'.goto p pc) := by
  intro q oldRis ch hq
  by_cases hqp : q = p
  · rw [hqp, goto_self] at hq
    exact absurd hq (hpc oldRis ch)
  · rw [goto_of_ne hqp, hs] at hq
    exact h q oldRis ch hq

/-- The invariant of a run in which every vCPU polls. -/
structure Fits (s : State) (permit : Nat → Bool) : Prop where
  ring : RingFits s.rb (permits permit)
  writers : WritersAreVcpus s

namespace Fits

variable {s : State} {permit : Nat → Bool} {p : Party} {a : Label}

variable (h : Fits s permit)

include h

theorem put {oldRis : BitVec 32} {ch : Byte} (hpc : s.pc (.vcpu v) = .put oldRis ch)
    (hpoll : s.rb.vuartBound = true → permit v = true) :
    RingFits (s.rb.vuartReceive ch) (permits (update permit v false)) ∧
      (s.rb.vuartBound = true → (s.rb.vuartReceive ch).droppedBytes = s.rb.droppedBytes) := by
  obtain ⟨w, hw, hvw⟩ := h.writers _ _ _ hpc
  obtain rfl : v = w := by cases hvw; rfl
  cases hb : s.rb.vuartBound with
  | false =>
    refine ⟨.of_unbound dropOldest_pending_le ?_, by simp⟩
    rw [vuartReceive_vuartBound, hb]
  | true =>
    have huse := permits_use hw (hpoll hb)
    have hring := h.ring
    rw [← huse] at hring
    have hle := permits_le permit
    obtain ⟨hfit, hdrop⟩ : RingFits (s.rb.vuartReceive ch) _ ∧ _ := hring.receive (by omega) hb
    exact ⟨hfit, fun _ => hdrop⟩

theorem goto {s' : State} {pc : Pc} (hrb : s'.rb = s.rb) (hs : s'.pc = s.pc)
    (hpc : ∀ oldRis ch, pc ≠ .put oldRis ch) :
    Fits (s'.goto p pc) permit ∧ (s'.goto p pc).rb.droppedBytes = s.rb.droppedBytes := by
  refine ⟨⟨?_, h.writers.goto hs hpc⟩, ?_⟩
  · rw [goto_rb, hrb]
    exact h.ring
  · rw [goto_rb, hrb]

/-- A step that is not a write: the ring keeps its bytes or gives some away. -/
theorem advance_other (hput : ∀ oldRis ch, s.pc p ≠ .put oldRis ch) :
    Fits (s.advance p) permit ∧ (s.advance p).rb.droppedBytes = s.rb.droppedBytes := by
  have hring := h.ring
  rw [advance]
  cases hpc : s.pc p with
  | idle => exact ⟨h, rfl⟩
  | put oldRis ch => exact absurd hpc (hput oldRis ch)
  | refresh k => exact ⟨⟨hring.update, h.writers.goto rfl (by simp)⟩, rfl⟩
  | settle accept k | drainBudget inputPending => exact h.goto rfl rfl (by simp)
  | compare k =>
    cases k with
    | imsc => exact h.goto rfl rfl (by simp)
    | push oldRis | space oldRis =>
      simp only
      split <;> exact h.goto rfl rfl (by simp)
  | updateIrq kick =>
    have hirq : (s.vpl011UpdateIrq kick).rb = s.rb ∧ (s.vpl011UpdateIrq kick).pc = s.pc := by
      rw [vpl011UpdateIrq]
      repeat' split
      all_goals exact ⟨rfl, rfl⟩
    exact h.goto hirq.1 hirq.2 (by simp)
  | drainLoop budget =>
    have hclaim : RingFits (s.rb.claim (min budget 1024)).1 (permits permit) := hring.claim
    have hdrop := (s.rb.claim_rest (min budget 1024)).1
    simp only
    split
    · exact h.goto rfl rfl (by simp)
    · split <;> exact ⟨⟨hclaim, h.writers.goto rfl (by simp)⟩, hdrop⟩
  | drainEnd =>
    exact ⟨⟨⟨hring.pending_le, hring.opened, hring.blocked⟩, h.writers.goto rfl (by simp)⟩, rfl⟩
  | drainRelease =>
    refine ⟨⟨hring.update, h.writers.goto rfl ?_⟩, rfl⟩
    split <;> simp
  | spaceChanged =>
    simp only
    split <;> exact h.goto rfl rfl (by simp)

theorem advance (hpoll : Polls (.advance p) (s, permit)) :
    Fits (s.advance p) (notePermit (.advance p) s permit) ∧
      (s.rb.vuartBound = true → (s.advance p).rb.droppedBytes = s.rb.droppedBytes) := by
  by_cases hput : ∃ oldRis ch, s.pc p = .put oldRis ch
  · obtain ⟨oldRis, ch, hpc⟩ := hput
    obtain ⟨v, hv, rfl⟩ := h.writers p oldRis ch hpc
    have hp := h.put hpc (hpoll v oldRis ch rfl hpc)
    rw [advance, notePermit, hpc]
    exact ⟨⟨hp.1, h.writers.goto rfl (by simp)⟩, hp.2⟩
  have hother : ∀ oldRis ch, s.pc p ≠ .put oldRis ch := fun o c hpc => hput ⟨o, c, hpc⟩
  have hnote : notePermit (.advance p) s permit = permit := by
    cases p with
    | host n => rfl
    | vcpu v =>
      rw [notePermit]
      split
      · next o c hpc => exact absurd hpc (hother o c)
      · rfl
  rw [hnote]
  exact ⟨(h.advance_other hother).1, fun _ => (h.advance_other hother).2⟩

theorem begin (ha : a.starts = some p) (hstart : s.canStart p = true) :
    Fits (s.begin a) (notePermit a s permit) ∧
      (s.begin a).rb.droppedBytes = s.rb.droppedBytes := by
  have hring := h.ring
  cases a with
  | readFr v =>
    obtain rfl : Party.vcpu v = p := Option.some.inj ha
    have hnote : notePermit (.readFr v) s permit =
        update permit v s.rb.txCanAccept.2 := if_pos hstart
    rw [hnote]
    have hup : RingFits s.rb.txCanAccept.1 (permits permit) := hring.update
    refine ⟨⟨?_, h.writers⟩, rfl⟩
    cases hacc : s.rb.txCanAccept.2 with
    | false => exact hup.mono permits_revoke
    | true => exact hup.of_open (by simpa [txCanAccept] using hacc)
  | writeDr v ch =>
    refine ⟨⟨hring, fun q oldRis c hq => ?_⟩, rfl⟩
    obtain rfl : Party.vcpu v = p := Option.some.inj ha
    rw [begin] at hq
    by_cases hqv : q = .vcpu v
    · rw [canStart, Bool.and_eq_true, decide_eq_true_iff] at hstart
      exact ⟨v, hstart.1, hqv⟩
    · rw [goto_of_ne hqv] at hq
      exact h.writers q oldRis c hq
  | writeImsc v value =>
    refine ⟨⟨hring, h.writers.goto rfl ?_⟩, rfl⟩
    split <;> simp
  | writeIcr v value | access v | notifyRx n => exact h.goto rfl rfl (by simp)
  | rx pending | powerOff | advance q => cases ha
  | drain n inputPending =>
    have hbegin : RingFits s.rb.drainBegin.1 (permits permit) ∧
        s.rb.drainBegin.1.droppedBytes = s.rb.droppedBytes := by
      rw [drainBegin]
      split
      · exact ⟨⟨hring.pending_le, hring.opened, hring.blocked⟩, rfl⟩
      · exact ⟨hring, rfl⟩
    refine ⟨⟨hbegin.1, h.writers.goto rfl ?_⟩, hbegin.2⟩
    split <;> simp
  | bind n =>
    have hle := hring.pending_le
    have hq : queued { s.rb with vuartBound := true } = s.rb.pending := queued_eq hle
    refine ⟨⟨⟨hle, fun hb hx => ?_, fun _ _ => ?_⟩, h.writers⟩, rfl⟩
    · have hlt := lt_of_txUpdateBlocked { s.rb with vuartBound := true } hb hx
      rw [hq] at hlt
      exact hlt
    · exact hle
  | unbind n =>
    refine ⟨⟨.of_unbound hring.pending_le rfl, h.writers.goto rfl ?_⟩, rfl⟩
    split <;> simp

omit h

/-- An operation that cannot begin gives no permit. -/
theorem notePermit_le (ha : a.starts = some p) (hstart : ¬ s.canStart p = true) :
    permits (notePermit a s permit) ≤ permits permit := by
  cases a with
  | readFr v =>
    obtain rfl : Party.vcpu v = p := Option.some.inj ha
    rw [show notePermit (.readFr v) s permit = permit from if_neg hstart]
  | bind n | unbind n => exact Nat.zero_le _
  | advance q => cases ha
  | _ => exact le_rfl

theorem step (h : Fits s permit) (hpoll : Polls a (s, permit)) :
    Fits (s.step a) (notePermit a s permit) ∧
      (s.rb.vuartBound = true → (s.step a).rb.droppedBytes = s.rb.droppedBytes) := by
  rw [State.step]
  cases ha : a.starts with
  | some p =>
    simp only
    split
    · next hstart => exact ⟨(h.begin ha hstart).1, fun _ => (h.begin ha hstart).2⟩
    · next hstart => exact ⟨⟨h.ring.mono (notePermit_le ha hstart), h.writers⟩, fun _ => rfl⟩
  | none =>
    cases a with
    | rx pending | powerOff => exact ⟨⟨h.ring, h.writers⟩, fun _ => rfl⟩
    | advance p => exact h.advance hpoll
    | _ => cases ha

end Fits

theorem fits_run {tr : List Label} {x : State × (Nat → Bool)}
    (hrun : GuardedRun (Noted Step notePermit) Polls (.start, fun _ => false) tr x) :
    Fits x.1 x.2 := by
  induction hrun with
  | nil => exact ⟨.of_unbound (Nat.zero_le _) rfl, fun _ _ _ h => by cases h⟩
  | cons _ hok hs ih =>
    rw [hs.1, hs.2]
    exact (ih.step hok).1

/-- Along every run in which the vCPUs poll, no step drops a byte while the console is
bound: the next byte, and any other step, leaves the count of dropped bytes as it is. -/
theorem bound_lossless {tr : List Label} {x : State × (Nat → Bool)}
    (hrun : GuardedRun (Noted Step notePermit) Polls (.start, fun _ => false) tr x)
    {a : Label} (hpoll : Polls a x) (hbound : x.1.rb.vuartBound = true) :
    (x.1.step a).rb.droppedBytes = x.1.rb.droppedBytes :=
  ((fits_run hrun).step hpoll).2 hbound

/-- The console is bound, and a vCPU looks and begins to write. -/
def writing : State × (Nat → Bool) :=
  [Label.bind 0, .readFr 0, .writeDr 0 97].foldl
    (fun x a => (x.1.step a, notePermit a x.1 x.2)) (.start, fun _ => false)

theorem bound_lossless_write : (writing.1.step (.advance (.vcpu 0))).rb.pending = 1 ∧
      (writing.1.step (.advance (.vcpu 0))).rb.droppedBytes = writing.1.rb.droppedBytes := by
  have hother : ∀ {a : Label} {x : State × (Nat → Bool)}, (∀ v, a ≠ .advance (.vcpu v)) →
      Polls a x := fun h v _ _ ha => absurd ha (h v)
  have hrun : GuardedRun (Noted Step notePermit) Polls (.start, fun _ => false)
      [Label.bind 0, .readFr 0, .writeDr 0 97].reverse writing :=
    .of_meets (fun _ _ => ⟨rfl, rfl⟩)
      ⟨hother (by simp), hother (by simp), hother (by simp), trivial⟩
  refine ⟨by decide, bound_lossless hrun (fun v _ _ ha _ _ => ?_) (by decide)⟩
  cases ha
  decide

/-! ## A ring that is full when it is bound

The guest writes while its console is not bound. -/

section Filled

variable {n : Nat} {ris : BitVec 32}

def filledRb (n : Nat) : RingBuf := { empty with prod := BitVec.ofNat 32 n }

/-- The first vCPU stands at `pc`; everybody else is idle. -/
def filled (n : Nat) (ris : BitVec 32) (pc : Pc) : State :=
  { start with
    rb := filledRb n
    vu := ⟨0, ris, false⟩
    pc := Function.update (fun _ => .idle) (.vcpu 0) pc }

theorem filledRb_receive (hn : n < ringbufCapacity) :
    (filledRb n).vuartReceive 0 = filledRb (n + 1) := by
  simp only [ringbufCapacity, ringbufSize] at hn
  have hpend : (filledRb n).pending = n := by
    simp only [pending, filledRb, empty]
    bv_omega
  have hbuf : Function.update (fun _ => (0 : Byte)) ((BitVec.ofNat 32 n).toNat % ringbufSize) 0 =
      fun _ => 0 := Function.update_eq_self ..
  rw [vuartReceive_of_lt (by rw [hpend]; exact hn), store]
  simp only [empty, filledRb]
  rw [hbuf, BitVec.ofNat_add]
  rfl

theorem filled_goto (n : Nat) (ris : BitVec 32) (pc pc' : Pc) :
    (filled n ris pc).goto (.vcpu 0) pc' = filled n ris pc' := by
  rw [goto, filled]
  simp only [Function.update_idem]
  rfl

/-- A byte of the first vCPU, behind a look at the flag register; the newest step first. -/
def polledByte : List Label :=
  List.replicate 4 (.advance (.vcpu 0)) ++ [.writeDr 0 0, .readFr 0]

variable {σ : Type} {step : Label → σ → σ → Prop} {ok : Label → σ → Prop} {f : State → σ}
  (hone : ∀ {n ris pc a}, a ∈ polledByte → ok a (f (filled n ris pc)) ∧
    step a (f (filled n ris pc)) (f ((filled n ris pc).step a)))

include hone

theorem filled_write (hn : n < ringbufCapacity) :
    GuardedRun step ok (f (filled n ris .idle)) polledByte
      (f (filled (n + 1) (ris ||| intTx) .idle)) := by
  have hput : (filled n ris .idle).step (.writeDr 0 0) = filled n ris (.put ris 0) :=
    filled_goto ..
  have hreceive : (filled n ris (.put ris 0)).step (.advance (.vcpu 0)) =
      filled (n + 1) ris (.refresh (.push ris)) := by
    show goto { filled n ris (.put ris 0) with rb := (filledRb n).vuartReceive 0 } (.vcpu 0) _ = _
    rw [filledRb_receive hn]
    exact filled_goto (n + 1) ris (.put ris 0) _
  have hrefresh : (filled (n + 1) ris (.refresh (.push ris))).step (.advance (.vcpu 0)) =
      filled (n + 1) ris (.settle true (.push ris)) := filled_goto ..
  have hsettle : (filled (n + 1) ris (.settle true (.push ris))).step (.advance (.vcpu 0)) =
      filled (n + 1) (ris ||| intTx) (.compare (.push ris)) :=
    filled_goto (n + 1) (ris ||| intTx) (.settle true (.push ris)) _
  have hcompare : (filled (n + 1) (ris ||| intTx) (.compare (.push ris))).step
      (.advance (.vcpu 0)) = filled (n + 1) (ris ||| intTx) .idle := by
    show (if ((tx ris != tx (ris ||| intTx)) && tx 0) = true then _ else _) = _
    rw [show tx 0 = false from rfl, Bool.and_false]
    exact filled_goto ..
  have hstep : ∀ {n n' r r' pc pc' a}, a ∈ polledByte →
      (filled n r pc).step a = filled n' r' pc' →
      GuardedRun step ok (f (filled n r pc)) [a] (f (filled n' r' pc')) := fun ha hs =>
    .cons .nil (hone ha).1 (hs ▸ (hone ha).2)
  have hadv : .advance (.vcpu 0) ∈ polledByte := by simp [polledByte]
  exact (hstep (by simp [polledByte]) rfl).trans ((hstep (by simp [polledByte]) hput).trans
    ((hstep hadv hreceive).trans ((hstep hadv hrefresh).trans ((hstep hadv hsettle).trans
      (hstep hadv hcompare)))))

theorem filled_run (hn : n < ringbufCapacity) : GuardedRun step ok (f .start)
    (List.replicate (n + 1) polledByte).flatten (f (filled (n + 1) intTx .idle)) := by
  induction n with
  | zero =>
    have hstart : filled 0 0 .idle = start := by
      rw [filled, Function.update_eq_self]
      rfl
    rw [← hstart]
    exact filled_write hone hn
  | succ n ih =>
    rw [List.replicate_succ, List.flatten_cons]
    exact (ih (Nat.lt_of_succ_lt hn)).trans (filled_write hone hn)

end Filled

/-- Every byte is written behind a look at the flag register that finds room. But while the
console was not bound the register said so of a ring that was full; the byte that comes when
it has been bound costs the oldest one. -/
theorem byte_lost_at_bind :
    ∃ s : State, GuardedRun Step (fun _ _ => True) .start
        (.writeDr 0 0 :: .bind 0 :: .readFr 0 ::
          (List.replicate ringbufCapacity polledByte).flatten) s ∧
      s.rb.vuartBound = true ∧
      (s.step (.advance (.vcpu 0))).rb.droppedBytes = s.rb.droppedBytes + 1 := by
  have hrun : GuardedRun Step (fun _ _ => True) start _ _ :=
    filled_run (n := 4094) (f := id) (fun _ => ⟨trivial, rfl⟩) (by decide)
  rw [show ringbufCapacity = 4094 + 1 from rfl]
  exact ⟨_, .cons (.cons (.cons hrun trivial rfl) trivial rfl) trivial rfl, by decide +kernel⟩

end Sima.Console
