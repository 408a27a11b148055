import Sima.Console.Lossless
import Sima.Lib.Trace

/-!
# Waking a transmitter

A guest that finds the transmit FIFO full stops and waits for the transmit interrupt. So
each time the path opens again the raw status must be set, and the line asserted if the
interrupt is not masked.

The path opens where the flag is brought up to date. Most of those places go on to refresh
the registers: the put that finds the ring drained, the refresh itself, the drain and the
unbinding, which call `console_vm_tx_space_changed`. A read of the flag register does not.
When it comes between the drain's last byte and the drain's own look at the flag, it opens
the path, and the drain finds nothing to report: the raw status stays clear. Binding a
console that is bound already does the same.

The registers have no lock either. Two operations between which the raw status is read and
written may undo each other's result, so the condition also keeps them apart.
-/

namespace Sima.Console

open Lib State RingBuf

/-! ## The transmit bit -/

theorem tx_eq (r : BitVec 32) : tx r = r.getLsbD 5 := by
  have hpow : intTx = BitVec.twoPow 32 5 := by decide
  rw [tx, hpow, BitVec.and_twoPow]
  cases r.getLsbD 5 <;> rfl

theorem tx_set (r : BitVec 32) : tx (r ||| intTx) = true := by
  rw [tx_eq, BitVec.getLsbD_or]
  exact Bool.or_true _

theorem Vpl011.assert_of_tx {vu : Vpl011} {rx : Bool} (hris : tx vu.ris = true)
    (himsc : tx vu.imsc = true) : (vu.pendingState rx &&& vu.imsc != 0) = true := by
  rw [bne_iff_ne]
  intro h0
  have hbit : (vu.pendingState rx &&& vu.imsc).getLsbD 5 = false := by rw [h0]; rfl
  rw [tx_eq] at hris himsc
  rw [BitVec.getLsbD_and, Vpl011.pendingState, BitVec.getLsbD_or, hris, himsc] at hbit
  cases hbit

/-! ## What is to be shown -/

/-- The guest has its interrupt, or will have it when it unmasks it. -/
def Ready (s : State) : Prop :=
  tx s.vu.ris = true ∧ (tx s.vu.imsc = true → s.line = true)

/-- An operation that stands here has yet to set the raw status, or to assert the line
for it. -/
def Waking (ris : BitVec 32) : Pc → Prop
  | .spaceChanged | .refresh _ | .settle true _ => True
  | .compare (.push oldRis) | .compare (.space oldRis) => tx ris = true ∧ tx oldRis = false
  | .compare .imsc | .updateIrq _ => tx ris = true
  | _ => False

/-- The path has opened since it was last blocked, and the guest has not cleared the raw
status that this set. -/
def noteOpened (a : Label) (s : State) (opened : Bool) : Bool :=
  if (s.step a).rb.txBlocked then false
  else if s.rb.txBlocked then true
  else
    match a with
    | .writeIcr _ _ => opened && !(tx s.vu.ris && !tx (s.step a).vu.ris)
    | _ => opened

/-- The operation is between a read and a write of the registers. -/
def Pc.inside : Pc → Bool
  | .put _ _ | .refresh _ | .settle _ _ | .compare _ | .updateIrq _ => true
  | _ => false

/-- The party that comes to use the registers with this step. -/
def Label.enters (s : State) : Label → Option Party
  | .writeDr v _ | .writeImsc v _ | .writeIcr v _ | .access v => some (.vcpu v)
  | .notifyRx h => some (.host h)
  | .advance p => if s.pc p = .spaceChanged then some p else none
  | _ => none

def Alone (s : State) (p : Party) : Prop := ∀ q, q ≠ p → (s.pc q).inside = false

/-- One party at a time uses the registers, and neither a read of FR nor a binding opens
the path. -/
def CleanStep (a : Label) (x : State × Bool) : Prop :=
  (∀ p, a.enters x.1 = some p → Alone x.1 p) ∧
    ((∃ v, a = .readFr v) ∨ (∃ h, a = .bind h) → x.1.rb.txBlocked = true →
      txBackpressureLowWater < x.1.rb.queued)

/-! ## The invariant

It is stated at one party: all others are outside the registers. -/

/-- The line follows the raw status. -/
def Pc.level : Pc → Bool
  | .refresh .imsc | .settle _ .imsc | .compare _ | .updateIrq _ => false
  | _ => true

/-- The raw status that has been read and not written since. -/
def Pc.oldRis : Pc → Option (BitVec 32)
  | .put oldRis _ | .refresh (.push oldRis) | .refresh (.space oldRis)
  | .settle _ (.push oldRis) | .settle _ (.space oldRis) => some oldRis
  | _ => none

structure WakeAt (s : State) (opened : Bool) (pc : Pc) : Prop where
  line : s.line = s.vu.irqAsserted
  level : pc.level = true → tx s.vu.ris = true → tx s.vu.imsc = true → s.line = true
  compared : ∀ oldRis, pc = .compare (.push oldRis) ∨ pc = .compare (.space oldRis) →
    tx oldRis = true → tx s.vu.imsc = true → s.line = true
  oldRis : ∀ oldRis, pc.oldRis = some oldRis → oldRis = s.vu.ris
  woken : opened = true → s.poweroff = false →
    Waking s.vu.ris pc ∨ (∃ q, s.pc q = .spaceChanged) ∨ (Ready s ∧ ∀ k, pc ≠ .settle false k)

def Wakes (s : State) (opened : Bool) : Prop :=
  ∃ p, Alone s p ∧ WakeAt s opened (s.pc p)

theorem wakes_start : Wakes .start false := by
  refine ⟨.host 0, fun _ _ => rfl, rfl, fun _ h => ?_, fun _ h => ?_, fun _ h => ?_, fun h => ?_⟩
  · cases h
  · rcases h with h | h <;> cases h
  · cases h
  · cases h

variable {s s' : State} {w w' : Bool} {p q : Party} {pc pc' : Pc} {ris : BitVec 32} {n : Nat}
  {x : State × Bool}

theorem Pc.outside_eq (h : pc.inside = false) :
    pc.level = true ∧ pc.oldRis = none ∧ (∀ k, pc ≠ .compare k) ∧ (∀ k, pc ≠ .settle false k) := by
  cases pc <;> first | exact ⟨rfl, rfl, by simp, by simp⟩ | cases h

theorem waking_outside (h : pc.inside = false) (hw : Waking ris pc) : pc = .spaceChanged := by
  cases pc <;> first | rfl | (exfalso; first | exact hw | cases h)

theorem WakeAt.outside (h : WakeAt s w pc) (hpc : pc.inside = false)
    (hspace : pc = .spaceChanged → ∃ q, s.pc q = .spaceChanged) (hpc' : pc'.inside = false) :
    WakeAt s w pc' := by
  obtain ⟨hlevel, -, -, -⟩ := Pc.outside_eq hpc
  obtain ⟨-, hold', hcmp', hset'⟩ := Pc.outside_eq hpc'
  refine ⟨h.line, fun _ => h.level hlevel, fun o ho => ?_, fun o ho => ?_, fun hw hoff => ?_⟩
  · rcases ho with ho | ho <;> exact absurd ho (hcmp' _)
  · rw [hold'] at ho
    cases ho
  rcases h.woken hw hoff with hwake | hq | hready
  · exact .inr (.inl (hspace (waking_outside hpc hwake)))
  · exact .inr (.inl hq)
  · exact .inr (.inr ⟨hready.1, hset'⟩)

/-- Where a party is alone, the invariant can be stated at it. -/
theorem Wakes.wakeAt (h : Wakes s w) (halone : Alone s p) : WakeAt s w (s.pc p) := by
  obtain ⟨p₀, halone₀, hat⟩ := h
  by_cases hp : p₀ = p
  · exact hp ▸ hat
  · exact hat.outside (halone p₀ hp) (fun hs => ⟨p₀, hs⟩) (halone₀ p (Ne.symm hp))

theorem Wakes.alone (h : Wakes s w) (hin : (s.pc p).inside = true) : Alone s p := by
  obtain ⟨p₀, halone₀, -⟩ := h
  by_cases hp : p = p₀
  · exact hp ▸ halone₀
  · exact absurd (hin.symm.trans (halone₀ p hp)) (by decide)

theorem Alone.goto (h : Alone s p) (hpc : s'.pc = s.pc) : Alone (s'.goto p pc') p := by
  intro q hq
  rw [goto_of_ne hq, hpc]
  exact h q hq

theorem spaceChanged_goto (hp : s.pc p ≠ .spaceChanged) (hpc : s'.pc = s.pc)
    (h : ∃ q, s.pc q = .spaceChanged) : ∃ q, (s'.goto p pc').pc q = .spaceChanged := by
  obtain ⟨q, hq⟩ := h
  have hqp : q ≠ p := fun he => hp (he ▸ hq)
  refine ⟨q, ?_⟩
  rw [goto_of_ne hqp, hpc]
  exact hq

/-- A party that is alone goes on, to a place at which there is nothing to compare. -/
theorem Alone.wakes (h : Alone s p) (hpc : s'.pc = s.pc) (hcmp : ∀ k, pc' ≠ .compare k)
    (hline : s'.line = s'.vu.irqAsserted)
    (hlevel : pc'.level = true → tx s'.vu.ris = true → tx s'.vu.imsc = true → s'.line = true)
    (hold : ∀ oldRis, pc'.oldRis = some oldRis → oldRis = s'.vu.ris)
    (hwoken : w' = true → s'.poweroff = false → Waking s'.vu.ris pc' ∨
      (s.pc p ≠ .spaceChanged ∧ ∃ q, s.pc q = .spaceChanged) ∨
      (Ready s' ∧ ∀ k, pc' ≠ .settle false k)) : Wakes (s'.goto p pc') w' := by
  refine ⟨p, h.goto hpc, ?_⟩
  rw [goto_self]
  refine ⟨hline, hlevel, fun o ho => ?_, hold, fun hw hoff => ?_⟩
  · rcases ho with ho | ho <;> exact absurd ho (hcmp _)
  rcases hwoken hw hoff with hwake | ⟨hns, hsp⟩ | hready
  · exact .inl hwake
  · exact .inr (.inl (spaceChanged_goto hns hpc hsp))
  · exact .inr (.inr hready)

theorem Wakes.frame (h : Wakes s w) (hvu : s'.vu = s.vu) (hline : s'.line = s.line)
    (hoff : s'.poweroff = false → s.poweroff = false) (hpc : s'.pc = s.pc)
    (hw : w' = true → w = true) : Wakes s' w' := by
  obtain ⟨p, halone, hat⟩ := h
  refine ⟨p, fun q hq => hpc ▸ halone q hq, ?_⟩
  rw [hpc]
  refine ⟨?_, ?_, ?_, ?_, fun hw' hoff' => ?_⟩
  · rw [hline, hvu]
    exact hat.line
  · rw [hline, hvu]
    exact hat.level
  · rw [hline, hvu]
    exact hat.compared
  · rw [hvu]
    exact hat.oldRis
  · rw [Ready, hvu, hline, hpc]
    exact hat.woken (hw hw') (hoff hoff')

theorem Wakes.goto_outside (h : Wakes s w) (hq : (s.pc q).inside = false)
    (hspace : s.pc q ≠ .spaceChanged) (hpc' : pc'.inside = false)
    (hw : w' = true → w = true ∨ pc' = .spaceChanged) : Wakes (s.goto q pc') w' := by
  obtain ⟨p, halone, hat⟩ := h
  have halone' : Alone (s.goto q pc') p := by
    intro r hr
    by_cases hrq : r = q
    · rw [hrq, goto_self]
      exact hpc'
    · rw [goto_of_ne hrq]
      exact halone r hr
  have hgoto : ∀ pc, WakeAt s w pc → WakeAt (s.goto q pc') w' pc := by
    intro pc hat
    refine ⟨hat.line, hat.level, hat.compared, hat.oldRis, fun hw' hoff => ?_⟩
    rcases hw hw' with hw | hsp
    · rcases hat.woken hw hoff with hwake | hsp | hready
      · exact .inl hwake
      · exact .inr (.inl (spaceChanged_goto hspace rfl hsp))
      · exact .inr (.inr hready)
    · refine .inr (.inl ⟨q, ?_⟩)
      rw [goto_self, hsp]
  refine ⟨p, halone', ?_⟩
  by_cases hpq : p = q
  · subst hpq
    rw [goto_self]
    exact hgoto _ (hat.outside hq (fun h => absurd h hspace) hpc')
  · rw [goto_of_ne hpq]
    exact hgoto _ hat

/-! ## One party uses the registers -/

variable {a : Label} {rb : RingBuf}

theorem noteOpened_open (h : noteOpened a s w = true) : (s.step a).rb.txBlocked = false := by
  unfold noteOpened at h
  split at h
  · cases h
  · next hb => exact Bool.eq_false_iff.mpr hb

theorem noteOpened_old (hkeep : s.rb.txBlocked = true → (s.step a).rb.txBlocked = true)
    (h : noteOpened a s w = true) : w = true := by
  have hopen := noteOpened_open h
  unfold noteOpened at h
  rw [if_neg (by rw [hopen]; decide)] at h
  by_cases hb : s.rb.txBlocked = true
  · rw [hkeep hb] at hopen
    cases hopen
  rw [if_neg hb] at h
  cases a with
  | writeIcr v value => exact (Bool.and_eq_true_iff.mp h).1
  | _ => exact h

theorem vpl011UpdateIrq_spec {kick : Bool} (hline : s.line = s.vu.irqAsserted) :
    (s.vpl011UpdateIrq kick).pc = s.pc ∧ (s.vpl011UpdateIrq kick).rb = s.rb ∧
      (s.vpl011UpdateIrq kick).poweroff = s.poweroff ∧ (s.vpl011UpdateIrq kick).vu.ris = s.vu.ris ∧
      (s.vpl011UpdateIrq kick).vu.imsc = s.vu.imsc ∧
      (s.vpl011UpdateIrq kick).line = (s.vpl011UpdateIrq kick).vu.irqAsserted ∧
      (tx s.vu.ris = true → tx s.vu.imsc = true → (s.vpl011UpdateIrq kick).line = true) := by
  have hassert : tx s.vu.ris = true → tx s.vu.imsc = true →
      (s.vu.pendingState s.rxPending &&& s.vu.imsc != 0) = true := Vpl011.assert_of_tx
  rw [vpl011UpdateIrq]
  generalize (s.vu.pendingState s.rxPending &&& s.vu.imsc != 0) = b at hassert ⊢
  cases hb : b with
  | false =>
    have hno : tx s.vu.ris = true → tx s.vu.imsc = false := fun h₁ =>
      Bool.eq_false_iff.mpr fun h₂ => absurd ((hassert h₁ h₂).symm.trans hb) (by decide)
    cases hirq : s.vu.irqAsserted with
    | false => simpa [hirq, hline] using hno
    | true => simpa using hno
  | true =>
    cases hirq : s.vu.irqAsserted with
    | false => simp
    | true => cases kick <;> simp [hirq, hline]

/-- The comparison at the end of an update: nothing is announced that is not on the line. -/
theorem Alone.wakes_compare {k : Refresh} (halone : Alone s p) (hpc : s.pc p = .compare k)
    (hat : WakeAt s w (.compare k)) (hns : s.pc p ≠ .spaceChanged)
    (hw₀ : w' = true → w = true) : Wakes (s.advance p) w' := by
  -- on to the line, with the raw status set if there is something to announce
  have hirq : ∀ kick, (w = true → s.poweroff = false → tx s.vu.ris = true ∨
      ∃ q, s.pc q = .spaceChanged) → Wakes (s.goto p (.updateIrq kick)) w' := by
    intro kick hset
    refine halone.wakes rfl (by simp) hat.line (fun hl => (by cases hl))
      (fun o ho => (by cases ho)) fun hw' hoff => ?_
    exact (hset (hw₀ hw') hoff).imp id fun hsp => .inl ⟨hns, hsp⟩
  have htx : w = true → s.poweroff = false → tx s.vu.ris = true ∨
      ∃ q, s.pc q = .spaceChanged := by
    intro hw hoff
    rcases hat.woken hw hoff with hwake | hsp | hready
    · cases k with
      | imsc => exact .inl hwake
      | push o | space o => exact .inl hwake.1
    · exact .inr hsp
    · exact .inl hready.1.1
  -- or out, where the raw status is the one that was read
  have hidle : ∀ o, (Pc.compare k = .compare (.push o) ∨ Pc.compare k = .compare (.space o)) →
      (tx s.vu.imsc = true → tx o = tx s.vu.ris) → Wakes (s.goto p .idle) w' := by
    intro o ho heq
    have hlevel : tx s.vu.ris = true → tx s.vu.imsc = true → s.line = true :=
      fun htx himsc => hat.compared o ho ((heq himsc).trans htx) himsc
    refine halone.wakes rfl (by simp) hat.line (fun _ => hlevel) (fun o ho => (by cases ho))
      fun hw' hoff => ?_
    rcases htx (hw₀ hw') hoff with htx | hsp
    · exact .inr (.inr ⟨⟨htx, hlevel htx⟩, by simp⟩)
    · exact .inr (.inl ⟨hns, hsp⟩)
  rw [advance, hpc]
  cases k with
  | imsc => exact hirq false htx
  | push o =>
    simp only
    split
    · exact hirq false htx
    rename_i hno
    refine hidle o (.inl rfl) fun himsc => ?_
    rw [himsc, Bool.and_true, bne_iff_ne, not_not] at hno
    exact hno
  | space o =>
    simp only
    split
    · exact hirq true htx
    · next hno =>
      rw [bne_iff_ne, not_not] at hno
      exact hidle o (.inr rfl) fun _ => hno

/-- The party inside the registers goes on. -/
theorem Wakes.advance_inside (h : Wakes s w) (hin : (s.pc p).inside = true)
    (hw : w' = true → (s.advance p).rb.txBlocked = false)
    (hold : (s.rb.txBlocked = true → (s.advance p).rb.txBlocked = true) → w' = true →
      w = true) : Wakes (s.advance p) w' := by
  have halone := h.alone hin
  have hat := h.wakeAt halone
  have hns : s.pc p ≠ .spaceChanged := fun hs => by rw [hs] at hin; cases hin
  cases hpc : s.pc p with
  | idle | drainBudget _ | drainLoop _ | drainEnd | drainRelease | spaceChanged =>
    rw [hpc] at hin
    cases hin
  | put oldRis ch =>
    rw [hpc] at hat
    rw [advance, hpc]
    exact halone.wakes rfl (by simp) hat.line hat.level hat.oldRis fun _ _ => .inl trivial
  | refresh k =>
    rw [hpc] at hat
    rw [advance, hpc] at hw ⊢
    refine halone.wakes rfl (by simp) hat.line
      (fun hl => hat.level (by cases k <;> first | rfl | cases hl))
      (fun o ho => hat.oldRis o (by cases k <;> exact ho)) fun hw' _ => .inl ?_
    have hopen : s.rb.txCanAccept.2 = true := by
      have : s.rb.txCanAccept.1.txBlocked = false := hw hw'
      rw [txCanAccept] at this ⊢
      rw [this]
      rfl
    rw [hopen]
    trivial
  | settle accept k =>
    rw [hpc] at hat
    rw [advance, hpc] at hold ⊢
    have hw₀ : w' = true → w = true := hold id
    have hcmp : ∀ oldRis, (Pc.compare k = .compare (.push oldRis) ∨
        Pc.compare k = .compare (.space oldRis)) → tx oldRis = true →
        tx s.vu.imsc = true → s.line = true := by
      intro o ho htx himsc
      rcases ho with ho | ho
      all_goals
        cases ho
        have := hat.oldRis o rfl
        exact hat.level rfl (this ▸ htx) himsc
    refine ⟨p, halone.goto rfl, ?_⟩
    rw [goto_self]
    cases accept with
    | false =>
      refine ⟨hat.line, fun hl => (by cases hl), hcmp, fun o ho => (by cases ho),
        fun hw' hoff => ?_⟩
      rcases hat.woken (hw₀ hw') hoff with hwake | hsp | hready
      · cases hwake
      · exact .inr (.inl (spaceChanged_goto hns rfl hsp))
      · exact absurd rfl (hready.2 k)
    | true =>
      refine ⟨hat.line, fun hl => (by cases hl), hcmp, fun o ho => (by cases ho), fun _ _ => ?_⟩
      have hset : tx (s.vu.refreshTxState true).ris = true := tx_set _
      cases k with
      | imsc => exact .inl hset
      | push o | space o =>
        cases htx : tx o with
        | false => exact .inl ⟨hset, htx⟩
        | true => exact .inr (.inr ⟨⟨hset, hcmp o (by simp) htx⟩, by simp⟩)
  | compare k =>
    rw [hpc] at hat
    have hw₀ : w' = true → w = true := by
      refine hold fun hb => ?_
      rw [advance, hpc]
      cases k with
      | imsc => exact hb
      | push o | space o =>
        simp only
        split <;> exact hb
    exact halone.wakes_compare hpc hat hns hw₀
  | updateIrq kick =>
    rw [hpc] at hat
    obtain ⟨hpcs, hrb, hoffs, hris, himsc, hline, hlevel⟩ :
        (s.vpl011UpdateIrq kick).pc = s.pc ∧ _ := vpl011UpdateIrq_spec hat.line
    rw [advance, hpc] at hold ⊢
    have hw₀ : w' = true → w = true := by
      refine hold fun hb => ?_
      rw [goto_rb, hrb]
      exact hb
    refine halone.wakes hpcs (by simp) hline (fun _ htx himsc' => ?_)
      (fun o ho => (by cases ho)) fun hw' hoff => ?_
    · exact hlevel (hris ▸ htx) (himsc ▸ himsc')
    have hready : tx s.vu.ris = true → Ready (s.vpl011UpdateIrq kick) :=
      fun htx => ⟨hris.symm ▸ htx, fun hi => hlevel htx (himsc ▸ hi)⟩
    rcases hat.woken (hw₀ hw') (hoffs ▸ hoff) with hwake | hsp | hr
    · exact .inr (.inr ⟨hready hwake, by simp⟩)
    · exact .inr (.inl ⟨hns, hsp⟩)
    · exact .inr (.inr ⟨hready hr.1.1, by simp⟩)

/-- A party that is alone comes to use the registers. -/
theorem Wakes.enter (h : Wakes s w) (halone : Alone s p) (hp : s.pc p = .idle)
    (hline : s'.line = s.line ∧ s'.vu.irqAsserted = s.vu.irqAsserted)
    (hpcs : s'.pc = s.pc) (hoff : s'.poweroff = s.poweroff)
    (hlevel : pc'.level = true → s'.vu = s.vu) (hcmp : ∀ k, pc' ≠ .compare k)
    (hold : ∀ oldRis, pc'.oldRis = some oldRis → oldRis = s'.vu.ris) (hw : w' = true → w = true)
    (hwoken : w' = true → Ready s →
      Waking s'.vu.ris pc' ∨ (Ready s' ∧ ∀ k, pc' ≠ .settle false k)) :
    Wakes (s'.goto p pc') w' := by
  have hat := h.wakeAt halone
  rw [hp] at hat
  refine halone.wakes hpcs hcmp ?_ (fun hl => ?_) hold fun hw' hoff' => ?_
  · rw [hline.1, hline.2]
    exact hat.line
  · rw [hlevel hl, hline.1]
    exact hat.level rfl
  · rcases hat.woken (hw hw') (hoff ▸ hoff') with hwake | hsp | hready
    · cases hwake
    · exact .inr (.inl ⟨by rw [hp]; simp, hsp⟩)
    · exact (hwoken hw' hready.1).imp id .inr

/-! ## Outside the registers -/

theorem RingBuf.txUpdateBlocked_keeps (hb : rb.vuartBound = true) (hx : rb.txBlocked = true)
    (hlow : txBackpressureLowWater < n) : (rb.txUpdateBlocked n).txBlocked = true := by
  rw [txUpdateBlocked]
  simp only [hb, hx, if_true]
  rw [if_neg (not_le.mpr hlow)]
  split <;> rfl

theorem RingBuf.txUpdateBlocked_bound (hx : (rb.txUpdateBlocked n).txBlocked = true) :
    (rb.txUpdateBlocked n).vuartBound = true := by
  rw [txUpdateBlocked] at hx ⊢
  split at hx
  · assumption
  · cases hx

theorem Wakes.announce (h : Wakes s w) (halone : Alone s p) (hp : s.pc p = .spaceChanged) :
    Wakes (if s.poweroff then s.goto p .idle else s.goto p (.refresh (.space s.vu.ris))) w' := by
  have hat := h.wakeAt halone
  rw [hp] at hat
  split
  · next hoff =>
    refine halone.wakes rfl (by simp) hat.line hat.level (fun o ho => (by cases ho))
      fun _ hon => ?_
    exact absurd (hoff.symm.trans hon) (by decide)
  · exact halone.wakes rfl (by simp) hat.line hat.level (fun o ho => (Option.some.inj ho).symm)
      fun _ _ => .inl trivial

/-- A step of a party that is not using the registers. -/
theorem Wakes.advance_outside (h : Wakes s w) (hout : (s.pc p).inside = false)
    (halone : s.pc p = .spaceChanged → Alone s p)
    (hw : w' = true → (s.advance p).rb.txBlocked = false)
    (hold : (s.rb.txBlocked = true → (s.advance p).rb.txBlocked = true) → w' = true →
      w = true) : Wakes (s.advance p) w' := by
  cases hpc : s.pc p with
  | put _ _ | refresh _ | settle _ _ | compare _ | updateIrq _ =>
    rw [hpc] at hout
    cases hout
  | idle =>
    rw [advance, hpc] at hold ⊢
    exact h.frame rfl rfl id rfl (hold id)
  | drainBudget inputPending =>
    have hns : s.pc p ≠ .spaceChanged := by rw [hpc]; simp
    rw [advance, hpc] at hold ⊢
    exact h.goto_outside hout hns rfl fun hw' => .inl (hold id hw')
  | drainLoop budget =>
    have hns : s.pc p ≠ .spaceChanged := by rw [hpc]; simp
    have hclaim := (s.rb.claim_rest (min budget 1024)).2.2
    have hframe : (w' = true → w = true) →
        Wakes { s with rb := (s.rb.claim (min budget 1024)).1 } w' := h.frame rfl rfl id rfl
    rw [advance, hpc] at hold ⊢
    simp only at hold ⊢
    split at hold
    · next h0 =>
      rw [if_pos h0]
      exact h.goto_outside hout hns rfl fun hw' => .inl (hold id hw')
    rename_i h0
    rw [if_neg h0]
    split at hold
    · next hmore =>
      rw [if_pos hmore]
      exact (hframe (hold fun hb => hclaim.trans hb)).goto_outside hout hns rfl fun hw' => .inl hw'
    · next hmore =>
      rw [if_neg hmore]
      exact (hframe (hold fun hb => hclaim.trans hb)).goto_outside hout hns rfl fun hw' => .inl hw'
  | drainEnd =>
    have hns : s.pc p ≠ .spaceChanged := by rw [hpc]; simp
    rw [advance, hpc] at hold ⊢
    have hframe : Wakes { s with rb := s.rb.drainEnd } w' := h.frame rfl rfl id rfl (hold id)
    exact hframe.goto_outside hout hns rfl fun hw' => .inl hw'
  | drainRelease =>
    have hns : s.pc p ≠ .spaceChanged := by rw [hpc]; simp
    rw [advance, hpc] at hw hold ⊢
    have hframe : Wakes { s with rb := s.rb.releaseTxBackpressure.1 } w :=
      h.frame rfl rfl id rfl id
    refine hframe.goto_outside hout hns (by split <;> rfl) fun hw' => ?_
    by_cases hb : s.rb.txBlocked = true
    · -- it was blocked and is open now
      have hopen : s.rb.releaseTxBackpressure.1.txBlocked = false := hw hw'
      have hrel : s.rb.releaseTxBackpressure.2 = true := by
        rw [releaseTxBackpressure] at hopen ⊢
        rw [hb, hopen]
        rfl
      exact .inr (if_pos hrel)
    · exact .inl (hold (fun hx => absurd hx hb) hw')
  | spaceChanged =>
    rw [advance, hpc]
    exact h.announce (halone hpc) hpc

/-! ## Every step -/

structure WakeInv (s : State) (opened : Bool) : Prop where
  wakes : Wakes s opened
  bound : s.rb.txBlocked = true → s.rb.vuartBound = true

theorem bound_advance (h : s.rb.txBlocked = true → s.rb.vuartBound = true) :
    (s.advance p).rb.txBlocked = true → (s.advance p).rb.vuartBound = true := by
  rw [advance]
  cases hpc : s.pc p with
  | put oldRis ch | refresh k | drainRelease => exact txUpdateBlocked_bound
  | compare k =>
    cases k with
    | imsc => exact h
    | push o | space o =>
      simp only
      split <;> exact h
  | updateIrq kick =>
    have hrb : (s.vpl011UpdateIrq kick).rb = s.rb := by
      rw [vpl011UpdateIrq]
      repeat' split
      all_goals rfl
    simp only [goto_rb, hrb]
    exact h
  | drainLoop budget =>
    obtain ⟨-, hb, hx⟩ := s.rb.claim_rest (min budget 1024)
    simp only
    split
    · exact h
    split
    · simp only [goto_rb, hb, hx]
      exact h
    · simp only [goto_rb, hb, hx]
      exact h
  | spaceChanged =>
    simp only
    split <;> exact h
  | _ => exact h

theorem bound_step (h : s.rb.txBlocked = true → s.rb.vuartBound = true) :
    (s.step a).rb.txBlocked = true → (s.step a).rb.vuartBound = true := by
  have hbegin : (s.begin a).rb.txBlocked = true → (s.begin a).rb.vuartBound = true := by
    cases a with
    | readFr v | bind n => exact txUpdateBlocked_bound
    | unbind n => exact fun hx => by cases hx
    | drain n inputPending =>
      simp only [begin, drainBegin]
      split <;> exact h
    | advance q => exact bound_advance h
    | _ => exact h
  rw [step]
  split
  · split
    · exact hbegin
    · exact h
  · exact hbegin

theorem canStart_idle (h : s.canStart p = true) : s.pc p = .idle := by
  cases p with
  | vcpu v =>
    rw [canStart, Bool.and_eq_true, decide_eq_true_iff, decide_eq_true_iff] at h
    exact h.2
  | host n => exact of_decide_eq_true h

theorem WakeInv.begin (h : WakeInv s w) (ha : a.starts = some p) (hstart : s.canStart p = true)
    (hok : CleanStep a (s, w)) : Wakes (s.begin a) (noteOpened a s w) := by
  have hstep : s.step a = s.begin a := by rw [step, ha]; exact if_pos hstart
  have hold : (s.rb.txBlocked = true → (s.begin a).rb.txBlocked = true) →
      noteOpened a s w = true → w = true := fun hk => noteOpened_old (by rw [hstep]; exact hk)
  have hopen : noteOpened a s w = true → (s.begin a).rb.txBlocked = false := fun hn =>
    hstep ▸ noteOpened_open hn
  have hidle := canStart_idle hstart
  have hout : (s.pc p).inside = false := by rw [hidle]; rfl
  have hns : s.pc p ≠ .spaceChanged := by rw [hidle]; simp
  cases a with
  | readFr v =>
    refine h.wakes.frame rfl rfl id rfl (hold fun hb => ?_)
    exact txUpdateBlocked_keeps (h.bound hb) hb (hok.2 (.inl ⟨v, rfl⟩) hb)
  | writeDr v ch =>
    obtain rfl : Party.vcpu v = p := Option.some.inj ha
    exact h.wakes.enter (hok.1 _ rfl) hidle ⟨rfl, rfl⟩ rfl rfl (fun _ => rfl) (by simp)
      (fun o ho => (Option.some.inj ho).symm) (hold id) fun _ hr => .inr ⟨hr, by simp⟩
  | writeImsc v value =>
    obtain rfl : Party.vcpu v = p := Option.some.inj ha
    refine h.wakes.enter (hok.1 _ rfl) hidle ⟨rfl, rfl⟩ rfl rfl (fun hl => ?_) (fun k => ?_)
      (fun o ho => ?_) (hold id) fun _ hr => .inl ?_
    · split at hl <;> cases hl
    · split <;> simp
    · split at ho <;> cases ho
    · split
      · trivial
      · exact hr.1
  | writeIcr v value =>
    obtain rfl : Party.vcpu v = p := Option.some.inj ha
    refine h.wakes.enter (hok.1 _ rfl) hidle ⟨rfl, rfl⟩ rfl rfl (fun hl => (by cases hl))
      (by simp) (fun o ho => (by cases ho)) (hold id) fun hn hr => .inl ?_
    -- the guest has not cleared the bit, or it would have taken note
    have hb : ¬ s.rb.txBlocked = true := by
      have := hopen hn
      exact fun hx => absurd (this.symm.trans hx) (by decide)
    have hb' : ¬ (s.begin (.writeIcr v value)).rb.txBlocked = true := hb
    unfold noteOpened at hn
    rw [hstep, if_neg hb', if_neg hb] at hn
    have hn := (Bool.and_eq_true_iff.mp hn).2
    rw [hr.1, Bool.true_and, Bool.not_not] at hn
    exact hn
  | access | notifyRx =>
    obtain rfl := Option.some.inj ha
    exact h.wakes.enter (hok.1 _ rfl) hidle ⟨rfl, rfl⟩ rfl rfl (fun _ => rfl) (by simp)
      (fun o ho => (by cases ho)) (hold id) fun _ hr => .inl hr.1
  | drain n inputPending =>
    obtain rfl : Party.host n = p := Option.some.inj ha
    have hkeep : s.rb.drainBegin.1.txBlocked = s.rb.txBlocked := by
      rw [drainBegin]
      split <;> rfl
    have hframe : Wakes { s with rb := s.rb.drainBegin.1 } _ :=
      h.wakes.frame rfl rfl id rfl (hold fun hb => hkeep.trans hb)
    refine hframe.goto_outside hout hns ?_ fun hn => .inl hn
    split <;> rfl
  | bind n =>
    refine h.wakes.frame rfl rfl id rfl (hold fun hb => ?_)
    exact txUpdateBlocked_keeps rfl hb (hok.2 (.inr ⟨n, rfl⟩) hb)
  | unbind n =>
    obtain rfl : Party.host n = p := Option.some.inj ha
    have hframe : Wakes { s with rb := s.rb.unbind.1 } w := h.wakes.frame rfl rfl id rfl id
    refine hframe.goto_outside hout hns (by split <;> rfl) fun hn => ?_
    by_cases hb : s.rb.txBlocked = true
    · exact .inr (if_pos hb)
    · exact .inl (hold (fun hx => absurd hx hb) hn)
  | rx pending | powerOff | advance q => cases ha

theorem WakeInv.step (h : WakeInv s w) (hok : CleanStep a (s, w)) :
    WakeInv (s.step a) (noteOpened a s w) := by
  refine ⟨?_, bound_step h.bound⟩
  have hold := @noteOpened_old s w a
  have hopen := @noteOpened_open s w a
  cases ha : a.starts with
  | some p =>
    by_cases hstart : s.canStart p = true
    · rw [show s.step a = s.begin a by rw [State.step, ha]; exact if_pos hstart]
      exact h.begin ha hstart hok
    · have hstep : s.step a = s := by rw [State.step, ha]; exact if_neg hstart
      rw [hstep] at hold ⊢
      exact h.wakes.frame rfl rfl id rfl (hold id)
  | none =>
    cases a with
    | rx pending => exact h.wakes.frame rfl rfl id rfl (hold id)
    | powerOff => exact h.wakes.frame rfl rfl (fun hoff => by cases hoff) rfl (hold id)
    | advance p =>
      cases hin : (s.pc p).inside with
      | true => exact h.wakes.advance_inside hin hopen hold
      | false => exact h.wakes.advance_outside hin (fun hsp => hok.1 p (if_pos hsp)) hopen hold
    | _ => cases ha

/-- Along every clean run: when the path has opened and the guest has not taken note of it,
the raw status is set, and the line asserted if the interrupt is not masked — or an
operation has not returned that is going to do it. -/
theorem tx_wakes {tr : List Label} {x : State × Bool}
    (hrun : GuardedRun (Noted Step noteOpened) CleanStep (.start, false) tr x)
    (hon : x.1.poweroff = false) (hopened : x.2 = true) :
    Ready x.1 ∨ ∃ p, Waking x.1.vu.ris (x.1.pc p) := by
  have h : WakeInv x.1 x.2 := by
    clear hon hopened
    induction hrun with
    | nil => exact ⟨wakes_start, fun hb => by cases hb⟩
    | cons _ hok hs ih =>
      rw [hs.1, hs.2]
      exact ih.step hok
  obtain ⟨p, -, hat⟩ := h.wakes
  rcases hat.woken hopened hon with hwake | ⟨q, hq⟩ | hready
  · exact .inr ⟨p, hwake⟩
  · refine .inr ⟨q, ?_⟩
    rw [hq]
    trivial
  · exact .inl hready.1

/-! ## A ring that is nearly full -/

theorem filled_pc_of_ne (h : q ≠ .vcpu 0) : (filled n ris pc).pc q = .idle := by
  show Function.update (fun _ => Pc.idle) (.vcpu 0) pc q = .idle
  rw [Function.update_of_ne h]

theorem filled_clean (ha : ∀ p, a.enters (filled n ris pc) = some p → p = .vcpu 0) :
    CleanStep a (filled n ris pc, w) := by
  refine ⟨fun p hp q hq => ?_, fun _ hb => by cases hb⟩
  rw [ha p hp] at hq
  rw [filled_pc_of_ne hq]
  rfl

theorem noteOpened_false (hb : s.rb.txBlocked = false) : noteOpened a s false = false := by
  cases hn : noteOpened a s false with
  | false => rfl
  | true =>
    have hold := noteOpened_old (fun hx => absurd (hb.symm.trans hx) (by decide)) hn
    exact absurd hold (by decide)

theorem filled_noted (hn : n < ringbufCapacity) :
    GuardedRun (Noted Step noteOpened) CleanStep (.start, false)
      (List.replicate (n + 1) polledByte).flatten (filled (n + 1) intTx .idle, false) := by
  refine filled_run (f := fun s => (s, false)) (fun ha => ⟨filled_clean fun p hp => ?_, rfl,
    (noteOpened_false rfl).symm⟩) hn
  simp only [polledByte, List.mem_append, List.mem_replicate, List.mem_cons] at ha
  rcases ha with ⟨-, rfl⟩ | rfl | rfl | ha
  · simp only [Label.enters] at hp
    split at hp
    · exact (Option.some.inj hp).symm
    · cases hp
  · exact (Option.some.inj hp).symm
  · cases hp
  · cases ha

/-- The steps in turn, with what there is to note. -/
def runs (x : State × Bool) (labels : List Label) : State × Bool :=
  labels.foldl (fun x a => (x.1.step a, noteOpened a x.1 x.2)) x

variable {labels : List Label}

theorem runs_of_meets {ok : Label → State × Bool → Prop}
    (h : Meets (fun a (x : State × Bool) => (x.1.step a, noteOpened a x.1 x.2)) ok x labels) :
    GuardedRun (Noted Step noteOpened) ok x labels.reverse (runs x labels) :=
  .of_meets (fun _ _ => ⟨rfl, rfl⟩) h

/-- Who moves. -/
def Label.party : Label → Option Party
  | .advance p => some p
  | a => a.starts

theorem advance_pc_of_ne (hqp : q ≠ p) : (s.advance p).pc q = s.pc q := by
  have hirq : ∀ kick, (s.vpl011UpdateIrq kick).pc = s.pc := by
    intro kick
    rw [vpl011UpdateIrq]
    repeat' split
    all_goals rfl
  rw [advance]
  cases hpc : s.pc p with
  | idle => rfl
  | updateIrq kick => exact (goto_of_ne hqp).trans (congrFun (hirq kick) q)
  | drainLoop budget =>
    simp only
    split
    · exact goto_of_ne hqp
    · split <;> exact goto_of_ne hqp
  | compare k =>
    cases k with
    | imsc => exact goto_of_ne hqp
    | push o | space o =>
      simp only
      split <;> exact goto_of_ne hqp
  | spaceChanged =>
    simp only
    split <;> exact goto_of_ne hqp
  | _ => exact goto_of_ne hqp

theorem step_pc_of_ne (ha : a.party ≠ some q) : (s.step a).pc q = s.pc q := by
  have hbegin : (s.begin a).pc q = s.pc q := by
    cases a with
    | advance p => exact advance_pc_of_ne fun he => ha (congrArg some he.symm)
    | readFr v | bind n | rx b | powerOff => rfl
    | _ => exact goto_of_ne fun he => ha (congrArg some he.symm)
  rw [step]
  repeat' split
  all_goals first | exact hbegin | rfl

theorem runs_pc_of_ne (h : ∀ a ∈ labels, a.party ≠ some q) :
    (runs x labels).1.pc q = x.1.pc q := by
  induction labels generalizing x with
  | nil => rfl
  | cons a labels ih =>
    have hrest := ih (x := (x.1.step a, noteOpened a x.1 x.2))
      fun b hb => h b (List.mem_cons_of_mem a hb)
    exact hrest.trans (step_pc_of_ne (h a List.mem_cons_self))

/-- The console is bound to a ring that is nearly full, and the host drains it below the low
mark and looks at the flag. -/
def released : State × Bool :=
  runs (filled 3583 intTx .idle, false)
    [.bind 0, .drain 0 false, .advance (.host 0), .advance (.host 0), .advance (.host 0),
      .advance (.host 0), .advance (.host 0)]

theorem tx_wakes_released : released.2 = true ∧ released.1.poweroff = false ∧
      (Ready released.1 ∨ ∃ p, Waking released.1.vu.ris (released.1.pc p)) := by
  have hopened : released.2 = true := by decide +kernel
  have hon : released.1.poweroff = false := by decide +kernel
  have hother : ∀ {a : Label} {x : State × Bool}, a.enters x.1 = none →
      (∀ v, a ≠ .readFr v) → (∀ n, a ≠ .bind n) → CleanStep a x := fun he hr hb =>
    ⟨fun p hp => absurd (he.symm.trans hp) (by simp), fun h => by
      rcases h with ⟨v, h⟩ | ⟨n, h⟩
      · exact absurd h (hr v)
      · exact absurd h (hb n)⟩
  have hbind : CleanStep (.bind 0) (filled 3583 intTx .idle, false) :=
    filled_clean fun p hp => by cases hp
  have hdrain : CleanStep (.drain 0 false)
      (runs (filled 3583 intTx .idle, false) [.bind 0]) := hother rfl (by simp) (by simp)
  have hfill := filled_noted (n := 3582) (by decide)
  have hrun : GuardedRun (Noted Step noteOpened) CleanStep (filled 3583 intTx .idle, false) _
      released := runs_of_meets
    ⟨hbind, hdrain, hother (by decide +kernel) (by simp) (by simp),
      hother (by decide +kernel) (by simp) (by simp),
      hother (by decide +kernel) (by simp) (by simp),
      hother (by decide +kernel) (by simp) (by simp),
      hother (by decide +kernel) (by simp) (by simp), trivial⟩
  exact ⟨hopened, hon, tx_wakes (hfill.trans hrun) hon hopened⟩

/-- The guest unmasks the transmit interrupt while the path is blocked. The host drains the
ring below the low mark, and before it looks at the flag a second vCPU reads FR. -/
def lostLabels : List Label :=
  [.bind 0, .writeImsc 0 intTx, .advance (.vcpu 0), .advance (.vcpu 0), .advance (.vcpu 0),
    .advance (.vcpu 0), .drain 0 false, .advance (.host 0), .advance (.host 0),
    .advance (.host 0), .readFr 1, .advance (.host 0), .advance (.host 0)]

def lost : State × Bool := runs (filled 3583 intTx .idle, false) lostLabels

/-- Everybody has returned, the path is open and the interrupt unmasked, but the raw status
is clear and the line is low. -/
theorem tx_wake_lost :
    (∃ tr, GuardedRun (Noted Step noteOpened) (fun _ _ => True) (.start, false) tr lost) ∧
      lost.1.poweroff = false ∧ lost.2 = true ∧ tx lost.1.vu.imsc = true ∧
      tx lost.1.vu.ris = false ∧ lost.1.line = false ∧ ∀ p, lost.1.pc p = .idle := by
  have hfill := filled_noted (n := 3582) (by decide)
  have hmeets : Meets (fun a (x : State × Bool) => (x.1.step a, noteOpened a x.1 x.2))
      (fun _ _ => True) (filled 3583 intTx .idle, false) lostLabels := by
    simp [lostLabels, Meets]
  refine ⟨⟨_, (hfill.mono fun _ => trivial).trans (runs_of_meets hmeets)⟩, by decide +kernel,
    by decide +kernel, by decide +kernel, by decide +kernel, by decide +kernel, fun p => ?_⟩
  have hmoved : ∀ a ∈ lostLabels, a.party = some (.vcpu 0) ∨ a.party = some (.vcpu 1) ∨
      a.party = some (.host 0) := by
    simp [lostLabels, Label.party, Label.starts]
  by_cases h0 : p = .vcpu 0
  · rw [h0]
    decide +kernel
  by_cases h1 : p = .vcpu 1
  · rw [h1]
    decide +kernel
  by_cases hh : p = .host 0
  · rw [hh]
    decide +kernel
  rw [lost, runs_pc_of_ne fun a ha hp => ?_]
  · exact filled_pc_of_ne h0
  rcases hmoved a ha with h | h | h
  · exact h0 (Option.some.inj (hp.symm.trans h))
  · exact h1 (Option.some.inj (hp.symm.trans h))
  · exact hh (Option.some.inj (hp.symm.trans h))

end Sima.Console
