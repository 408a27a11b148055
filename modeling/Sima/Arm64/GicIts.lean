import Mathlib.Algebra.Order.Group.Nat
import Sima.Lib.Trace
import Sima.Rtl.Errno

/-!
# The LPIs of the host's ITS

The hypervisor hands out LPIs for the message interrupts of devices: a block of consecutive
ones for MSI, whose events are numbered from zero, and single ones for MSI-X, whose event is
the vector. All come from one table, under one lock, so the calls happen one after another.

An LPI that was handed out stays with its device, a call that fails leaves the table as it
was, and a release reaches only what it is meant for. But that an event of a device leads to
one LPI only is checked for MSI-X alone: a device that is given MSI while it holds an event
of the same number has two LPIs for it. Without that — and only then — the pairs are distinct.
-/

namespace Sima.Arm64

open Function (update update_of_ne update_self)
open Lib (Meets)

/-- `struct beau_gicv3_its_irqsrc`. -/
structure ItsIrqsrc where
  used : Bool
  msix : Bool
  devId : Nat
  eventId : Nat
  lpi : Nat

def gicFirstLpi : Nat := 8192

def itsMaxVectors : Nat := 1024

structure GicIts where
  ready : Bool
  irqs : Nat → ItsIrqsrc

namespace GicIts

variable {s s' : GicIts} {msix : Bool} {dev event count first : Nat}

/-- The table that the system starts with. -/
def start (ready : Bool) : GicIts := ⟨ready, fun _ => ⟨false, false, 0, 0, 0⟩⟩

/-- The loop of `find_free_run` with `n` entries to go: the `run` entries before `i` are free,
from `start` on. -/
def freeRun (irqs : Nat → ItsIrqsrc) (count : Nat) : Nat → Nat → Nat → Nat → Option Nat
  | 0, _, _, _ => none
  | n + 1, i, run, start =>
    if (irqs i).used then freeRun irqs count n (i + 1) 0 start
    else
      let start := if run = 0 then i else start
      if run + 1 = count then some start else freeRun irqs count n (i + 1) (run + 1) start

section

variable (s : GicIts) (msix : Bool) (dev event count lpi : Nat)

def findFreeRun : Except Int Nat :=
  if count = 0 ∨ itsMaxVectors < count then .error (-einval)
  else
    match freeRun s.irqs count itsMaxVectors 0 0 0 with
    | some first => .ok first
    | none => .error (-enomem)

def findIrq : Option Nat :=
  if lpi < gicFirstLpi ∨ gicFirstLpi + itsMaxVectors ≤ lpi then none
  else if (s.irqs (lpi - gicFirstLpi)).used then some (lpi - gicFirstLpi) else none

def eventBusy : Bool :=
  (List.range itsMaxVectors).any fun i =>
    (s.irqs i).used && (s.irqs i).devId == dev && (s.irqs i).eventId == event

def unuse (i : Nat) : GicIts :=
  { s with irqs := update s.irqs i { s.irqs i with used := false } }

/-- The entries of an allocation are filled, `n` of them from the `i`th on, with their
messages if the caller wants those. A message that cannot be made takes the entries back. -/
def fillRun (msix : Bool) (dev event first : Nat) (msgs : Bool) :
    Nat → Nat → GicIts → Int × GicIts
  | 0, _, s => (0, s)
  | n + 1, i, s =>
    let irq := ⟨true, msix, dev, event + i, gicFirstLpi + first + i⟩
    let s := { s with irqs := update s.irqs (first + i) irq }
    if msgs ∧ ¬ s.ready then
      (-enodev, (List.range (i + 1)).foldl (fun s j => s.unuse (first + j)) s)
    else fillRun msix dev event first msgs n (i + 1) s

/-- What both kinds of allocation come to; MSI-X is a block of one. -/
def allocRun (msgs : Bool) (s : GicIts) : Except Int Nat × GicIts :=
  match s.findFreeRun count with
  | .error e => (.error e, s)
  | .ok first =>
    let r := fillRun msix dev event first msgs count 0 s
    if r.1 = 0 then (.ok (gicFirstLpi + first), r.2) else (.error r.1, r.2)

/-- `firstLpi` and `msgs` say which of the pointers are there. -/
def allocMsi (firstLpi msgs : Bool) (s : GicIts) : Except Int Nat × GicIts :=
  if ¬ s.ready then (.error (-enodev), s)
  else if count = 0 ∨ ¬ firstLpi then (.error (-einval), s)
  else s.allocRun false dev 0 count msgs

def allocMsix (vector : Nat) (lpi msg : Bool) (s : GicIts) : Except Int Nat × GicIts :=
  if ¬ s.ready then (.error (-enodev), s)
  else if ¬ lpi then (.error (-einval), s)
  else if s.eventBusy dev vector then (.error (-ebusy), s)
  else s.allocRun true dev vector 1 msg

def release (s : GicIts) : GicIts :=
  match s.findIrq lpi with
  | none => s
  | some i => if (s.irqs i).msix = msix ∧ (s.irqs i).devId = dev then s.unuse i else s

def releaseMsi (firstLpi count : Nat) (s : GicIts) : GicIts :=
  if count = 0 ∨ firstLpi < gicFirstLpi then s
  else (List.range count).foldl (fun s i => s.release false dev ((firstLpi + i) % 2 ^ 32)) s

def releaseMsix (s : GicIts) : GicIts := s.release true dev lpi

/-! ## What the calls do -/

/-- The table with the entries of a block filled. -/
def filled (first count : Nat) (irqs : Nat → ItsIrqsrc) (k : Nat) : ItsIrqsrc :=
  if first ≤ k ∧ k < first + count then ⟨true, msix, dev, event + (k - first), gicFirstLpi + k⟩
  else irqs k

/-- An allocation fails and changes nothing, or fills a block of entries that were free. -/
def Grants (s : GicIts) (r : Except Int Nat × GicIts) : Prop :=
  match r.1 with
  | .error _ => r.2 = s
  | .ok lpi => ∃ first, lpi = gicFirstLpi + first ∧ first + count ≤ itsMaxVectors ∧
      (∀ k, first ≤ k → k < first + count → (s.irqs k).used = false) ∧
      r.2 = { s with irqs := filled msix dev event first count s.irqs }

/-- A release clears entries of one device and kind, and nothing else. -/
def Frees (s s' : GicIts) : Prop :=
  s'.ready = s.ready ∧ ∀ k, s'.irqs k = s.irqs k ∨
    (s.irqs k).used = true ∧ (s.irqs k).msix = msix ∧ (s.irqs k).devId = dev ∧
      s'.irqs k = { s.irqs k with used := false }

end

theorem freeRun_free {irqs : Nat → ItsIrqsrc} {n i run start : Nat}
    (h : freeRun irqs count n i run start = some first) (hrun : run = 0 ∨ start + run = i)
    (hfree : ∀ k, start ≤ k → k < start + run → (irqs k).used = false) :
    first + count ≤ i + n ∧ ∀ k, first ≤ k → k < first + count → (irqs k).used = false := by
  induction n generalizing i run start with
  | zero => cases h
  | succ n ih =>
    rw [freeRun] at h
    split at h
    · obtain ⟨hle, hall⟩ := ih h (.inl rfl) fun k hk hlt => by omega
      exact ⟨by omega, hall⟩
    rename_i hi
    generalize hb : (if run = 0 then i else start) = b at h
    have hbi : b + run = i := by split at hb <;> omega
    have hfree' : ∀ k, b ≤ k → k < b + (run + 1) → (irqs k).used = false := by
      intro k hk hlt
      by_cases hki : k = i
      · rw [hki]
        exact Bool.eq_false_iff.mpr hi
      · exact hfree k (by split at hb <;> omega) (by split at hb <;> omega)
    split at h
    · next hc =>
      injection h with h
      subst h hc
      exact ⟨by omega, hfree'⟩
    · obtain ⟨hle, hall⟩ := ih h (.inr (by omega)) hfree'
      exact ⟨by omega, hall⟩

theorem fillRun_eq {msgs : Bool} (hready : s.ready = true) (n i : Nat) :
    fillRun msix dev event first msgs n i s =
      (0, { s with irqs := filled msix dev (event + i) (first + i) n s.irqs }) := by
  induction n generalizing i s with
  | zero =>
    have hnone : filled msix dev (event + i) (first + i) 0 s.irqs = s.irqs :=
      funext fun k => if_neg (by omega)
    rw [hnone, fillRun]
  | succ n ih =>
    rw [fillRun, if_neg (fun h => h.2 hready), ih (by exact hready)]
    congr 2
    funext k
    by_cases hk : k = first + i
    · subst hk
      rw [filled, if_neg (by omega), filled, if_pos (by omega), Nat.sub_self, ← add_assoc]
      exact update_self ..
    simp only [filled, update_of_ne hk]
    split
    · next hin =>
      have hk' : k - (first + i) = k - (first + (i + 1)) + 1 := by omega
      rw [if_pos (by omega), hk']
      simp only [add_assoc, add_comm 1]
    · rw [if_neg (by omega)]

theorem allocRun_grants (hready : s.ready = true) (msix msgs : Bool) (dev event count : Nat) :
    Grants msix dev event count s (s.allocRun msix dev event count msgs) := by
  rw [allocRun]
  split
  · exact rfl
  rename_i first hfind
  rw [findFreeRun] at hfind
  split at hfind
  · cases hfind
  split at hfind
  · next hrun =>
    injection hfind with hfirst
    subst hfirst
    obtain ⟨hle, hfree⟩ := freeRun_free hrun (.inl rfl) fun k _ hk => by omega
    rw [fillRun_eq hready]
    exact ⟨_, rfl, by omega, hfree, rfl⟩
  · cases hfind

theorem Frees.refl (s : GicIts) : Frees msix dev s s := ⟨rfl, fun _ => .inl rfl⟩

theorem Frees.release (h : Frees msix dev s s') (lpi : Nat) :
    Frees msix dev s (s'.release msix dev lpi) := by
  rw [GicIts.release, findIrq]
  split
  · exact h
  rename_i i hi
  have hused : (s'.irqs i).used = true := by
    simp only [Option.ite_none_left_eq_some, Option.ite_none_right_eq_some,
      Option.some.injEq] at hi
    rw [← hi.2.2]
    exact hi.2.1
  split
  · next hm =>
    refine ⟨h.1, fun k => ?_⟩
    by_cases hk : k = i
    · subst hk
      rcases h.2 k with heq | ⟨-, -, -, heq⟩
      · rw [heq] at hused hm
        refine .inr ⟨hused, hm.1, hm.2, ?_⟩
        exact (update_self ..).trans (by rw [heq])
      · rw [heq] at hused
        cases hused
    · have hkeep : (s'.unuse i).irqs k = s'.irqs k := update_of_ne hk ..
      rw [hkeep]
      exact h.2 k
  · exact h

/-! ## Live pairs -/

/-- No two live entries have a device and event in common, and each has its own LPI. -/
structure Ok (s : GicIts) : Prop where
  apart : ∀ i j, (s.irqs i).used = true → (s.irqs j).used = true →
    (s.irqs i).devId = (s.irqs j).devId → (s.irqs i).eventId = (s.irqs j).eventId → i = j
  lpi : ∀ i, (s.irqs i).used = true → i < itsMaxVectors ∧ (s.irqs i).lpi = gicFirstLpi + i

theorem Ok.frees (h : s.Ok) (hf : Frees msix dev s s') : s'.Ok := by
  have hlive : ∀ k, (s'.irqs k).used = true → s'.irqs k = s.irqs k := by
    intro k hk
    rcases hf.2 k with heq | ⟨-, -, -, heq⟩
    · exact heq
    · rw [heq] at hk
      cases hk
  refine ⟨fun i j hi hj => ?_, fun i hi => ?_⟩
  · rw [hlive i hi, hlive j hj]
    exact h.apart i j (hlive i hi ▸ hi) (hlive j hj ▸ hj)
  · rw [hlive i hi]
    exact h.lpi i (hlive i hi ▸ hi)

/-- The events that the block takes are not in use for its device. -/
theorem Ok.grants_iff {r : Except Int Nat × GicIts} (h : s.Ok)
    (hg : Grants msix dev event count s r) :
    r.2.Ok ↔ (r.1.isOk = true → ∀ i, (s.irqs i).used = true → (s.irqs i).devId = dev →
      (s.irqs i).eventId < event ∨ event + count ≤ (s.irqs i).eventId) := by
  obtain ⟨res, t⟩ := r
  cases res with
  | error e =>
    have ht : t = s := hg
    subst ht
    exact iff_of_true h fun he => by cases he
  | ok lpi =>
    obtain ⟨first, -, hmax, hfree, ht⟩ := hg
    subst ht
    have hout : ∀ i, (s.irqs i).used = true → ¬ (first ≤ i ∧ i < first + count) := by
      intro i hi hin
      rw [hfree i hin.1 hin.2] at hi
      cases hi
    constructor
    · intro hok _ i hi hdev
      by_contra hin
      have hk : first ≤ first + ((s.irqs i).eventId - event) ∧
          first + ((s.irqs i).eventId - event) < first + count := by omega
      refine hout i hi ?_
      rw [hok.apart i (first + ((s.irqs i).eventId - event))]
      · exact hk
      all_goals simp only [filled, if_neg (hout i hi), if_pos hk]
      · exact hi
      · exact hdev
      · omega
    · intro hc
      have hclash : ∀ i j, (first ≤ i ∧ i < first + count) → (s.irqs j).used = true →
          dev = (s.irqs j).devId → event + (i - first) ≠ (s.irqs j).eventId := by
        intro i j hi hj hdev heq
        have := hc rfl j hj hdev.symm
        omega
      refine ⟨fun i j => ?_, fun i hi => ?_⟩
      · dsimp only
        rw [filled, filled]
        split <;> split
        · intro _ _ _ heq
          dsimp only at heq
          omega
        · next hi _ => exact fun _ hj hdev heq => absurd heq (hclash i j hi hj hdev)
        · next _ hj => exact fun hi _ hdev heq => absurd heq.symm (hclash j i hj hi hdev.symm)
        · exact h.apart i j
      · dsimp only at hi ⊢
        rw [filled] at hi ⊢
        split at hi
        · next hin =>
          rw [if_pos hin]
          exact ⟨by omega, rfl⟩
        · next hin =>
          rw [if_neg hin]
          exact h.lpi i hi

inductive Op where
  | allocMsi (dev count : Nat) (firstLpi msgs : Bool)
  | releaseMsi (dev firstLpi count : Nat)
  | allocMsix (dev vector : Nat) (lpi msg : Bool)
  | releaseMsix (dev lpi : Nat)

/-- A release has no result. -/
def call : Op → GicIts → Except Int Nat × GicIts
  | .allocMsi dev count firstLpi msgs, s => s.allocMsi dev count firstLpi msgs
  | .releaseMsi dev firstLpi count, s => (.ok 0, s.releaseMsi dev firstLpi count)
  | .allocMsix dev vector lpi msg, s => s.allocMsix dev vector lpi msg
  | .releaseMsix dev lpi, s => (.ok 0, s.releaseMsix dev lpi)

def step (op : Op) (s : GicIts) : GicIts := (call op s).2

/-- What a call may do. -/
def Op.Does (s : GicIts) (r : Except Int Nat × GicIts) : Op → Prop
  | .allocMsi dev count _ _ => Grants false dev 0 count s r
  | .releaseMsi dev _ _ => Frees false dev s r.2
  | .allocMsix dev vector _ _ => Grants true dev vector 1 s r
  | .releaseMsix dev _ => Frees true dev s r.2

/-- An MSI allocation that passes the checks finds none of the events in use for its device. -/
def Op.Fresh : Op → GicIts → Prop
  | .allocMsi dev count firstLpi _, s =>
    s.ready = true → 0 < count → firstLpi = true → (s.findFreeRun count).isOk = true →
      ∀ i, (s.irqs i).used = true → (s.irqs i).devId = dev → count ≤ (s.irqs i).eventId
  | _, _ => True

theorem allocMsi_isOk_iff {firstLpi msgs : Bool} :
    (s.allocMsi dev count firstLpi msgs).1.isOk = true ↔
      s.ready = true ∧ 0 < count ∧ firstLpi = true ∧ (s.findFreeRun count).isOk = true := by
  rw [allocMsi]
  split
  · next hr => exact iff_of_false Bool.false_ne_true fun h => hr h.1
  rename_i hready
  have hready : s.ready = true := not_not.mp hready
  split
  · next hbad =>
    refine iff_of_false Bool.false_ne_true fun h => ?_
    exact hbad.elim (fun h0 => h.2.1.ne' h0) fun hnull => hnull h.2.2.1
  rename_i hgood
  rw [not_or, not_not] at hgood
  simp only [hready, Nat.pos_of_ne_zero hgood.1, hgood.2, true_and, allocRun]
  cases s.findFreeRun count with
  | error e => rfl
  | ok first =>
    dsimp only
    rw [fillRun_eq hready]
    rfl

theorem call_does (op : Op) (s : GicIts) : op.Does s (call op s) := by
  cases op with
  | allocMsi dev count firstLpi msgs =>
    show Grants _ _ _ _ _ (s.allocMsi ..)
    rw [allocMsi]
    split
    · exact rfl
    rename_i hready
    split
    · exact rfl
    · exact allocRun_grants (not_not.mp hready) ..
  | releaseMsi dev firstLpi count =>
    show Frees _ _ _ (s.releaseMsi ..)
    rw [releaseMsi]
    split
    · exact .refl s
    · exact List.foldlRecOn _ _ (.refl s) fun _ h _ _ => h.release _
  | allocMsix dev vector lpi msg =>
    show Grants _ _ _ _ _ (s.allocMsix ..)
    rw [allocMsix]
    split
    · exact rfl
    rename_i hready
    split
    · exact rfl
    generalize s.eventBusy dev vector = busy
    split
    · exact rfl
    · exact allocRun_grants (not_not.mp hready) ..
  | releaseMsix dev lpi => exact (Frees.refl s).release lpi

theorem Ok.step_iff (h : s.Ok) (op : Op) : (step op s).Ok ↔ op.Fresh s := by
  have hdoes := call_does op s
  cases op with
  | allocMsi dev count firstLpi msgs =>
    rw [step, h.grants_iff hdoes, call, allocMsi_isOk_iff]
    simp [Op.Fresh]
  | allocMsix dev vector lpi msg =>
    rw [step, h.grants_iff hdoes]
    refine iff_of_true (fun hok i hi hdev => ?_) trivial
    by_contra heq
    have hbusy : s.eventBusy dev vector = true := by
      refine List.any_eq_true.mpr ⟨i, List.mem_range.mpr (h.lpi i hi).1, ?_⟩
      simp only [hi, hdev, Bool.true_and, beq_self_eq_true, beq_iff_eq]
      omega
    simp only [call, allocMsix] at hok
    split at hok
    · cases hok
    · split at hok <;> cases hok
  | _ => exact iff_of_true (h.frees hdoes) trivial

/-- In every history of calls each does only what it may, and the live entries have distinct
pairs all along exactly if every device that is given MSI had none of the events in use. -/
theorem live_pairs_distinct_iff (ready : Bool) (ops : List Op) :
    (∀ op : Op, op.Does (ops.foldl (fun s op => step op s) (start ready))
      (call op (ops.foldl (fun s op => step op s) (start ready)))) ∧
      ((∀ k, ((ops.take k).foldl (fun s op => step op s) (start ready)).Ok) ↔
        Meets step Op.Fresh (start ready) ops) := by
  refine ⟨fun op => call_does op _, ?_⟩
  have hok : (start ready).Ok := ⟨fun i j hi => (by cases hi), fun i hi => (by cases hi)⟩
  generalize start ready = s at hok
  induction ops generalizing s with
  | nil => simpa [Meets] using hok
  | cons op ops ih =>
    rw [Meets, ← hok.step_iff op]
    constructor
    · intro h
      exact ⟨h 1, (ih _ (h 1)).mp fun k => h (k + 1)⟩
    rintro ⟨h1, h⟩ k
    cases k with
    | zero => exact hok
    | succ k => exact (ih _ h1).mpr h k

/-- A device that is given MSI twice has two LPIs for its first event. -/
theorem msi_event_twice :
    let s := step (.allocMsi 7 1 true true) (step (.allocMsi 7 1 true true) (start true))
    (s.irqs 0).used = true ∧ (s.irqs 1).used = true ∧
      (s.irqs 0).devId = (s.irqs 1).devId ∧ (s.irqs 0).eventId = (s.irqs 1).eventId := by
  decide +kernel

end GicIts

end Sima.Arm64
