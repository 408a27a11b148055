import Mathlib.Data.List.Nodup

/-!
# The virtual IOAPIC

Delivery is decided in three places: where the line of a pin changes, where its redirection entry
is written and where the guest signals the end of an interrupt. Each runs under the vIOAPIC's lock
and reads one pin, so the model is a table of pins and an action is one locked stretch. A pin keeps
what happened at it; the counts below are counts of that history.

The entry of a pin that belongs to a pass-through device is also programmed into the physical
IOAPIC, and that may move the virtual line. `ptirq_intx_ack` and `ptirq_handle_intx` move it from
outside, like any other device.
-/

namespace Sima.Vioapic

open Function (update update_self)

/-- `union ioapic_rte`, a flag being its bit: `intrPolarity` is set for active low, `triggerMode`
for level and `destMode` for logical. -/
structure Rte where
  vector : BitVec 8
  deliveryMode : BitVec 3
  destMode : Bool
  intrPolarity : Bool
  remoteIrr : Bool
  triggerMode : Bool
  intrMask : Bool
  destField : BitVec 8
  deriving DecidableEq

/-- The remote IRR bit changes, the line changes, an interrupt is sent. -/
inductive Event
  | irr (b : Bool)
  | line (level : Bool)
  /-- `vlapic_receive_intr` is given the modes, the destination and the vector of the entry. -/
  | intr (rte : Rte)
  deriving DecidableEq

/-- What the counts below count. -/
def Event.isIntr : Event → Bool
  | .intr _ => true
  | _ => false

def Event.isLevelIntr : Event → Bool
  | .intr rte => rte.triggerMode
  | _ => false

/-- A pin: its entry of `rtbl`, its bit of `pin_state` and its history, newest first. -/
structure Pin where
  rte : Rte
  state : Bool
  log : List Event

inductive GsiOp
  | setHigh
  | setLow
  | raisingPulse
  | fallingPulse

namespace Pin

variable (p : Pin)

@[grind =]
def setRte (r : Rte) : Pin :=
  { p with
    rte := r
    log := if p.rte.remoteIrr = r.remoteIrr then p.log else .irr r.remoteIrr :: p.log }

@[grind =]
def setState (level : Bool) : Pin :=
  { p with
    state := level
    log := if p.state = level then p.log else .line level :: p.log }

@[grind =]
def receiveIntr (rte : Rte) : Pin :=
  { p with log := .intr rte :: p.log }

def generateIntr : Pin :=
  let rte := p.rte
  if rte.intrMask then p
  else if !rte.triggerMode || !rte.remoteIrr then
    (if rte.triggerMode then p.setRte { rte with remoteIrr := true } else p).receiveIntr rte
  else p

def setPinstate (level : Bool) : Pin :=
  if p.rte.intrPolarity = !level ∧ p.state ≠ level then (p.setState level).generateIntr
  else p.setState level

def setIrqline : GsiOp → Pin
  | .setHigh => p.setPinstate true
  | .setLow => p.setPinstate false
  | .raisingPulse => (p.setPinstate true).setPinstate false
  | .fallingPulse => (p.setPinstate false).setPinstate true

/-- The line is at the active level of the entry's polarity. -/
def needIntr : Bool := p.rte.intrPolarity != p.state

/-- `ptirq_build_physical_rte`, for a mapping with the recorded polarity: a new polarity starts
with the line inactive. -/
def buildPhysicalRte (polarity : Bool) : Pin :=
  if p.rte.intrPolarity = polarity then p else p.setPinstate p.rte.intrPolarity

/-- The entry after a write of one half, whose bits are those of `data`. -/
def newRte (hi : Bool) (data : Rte) : Rte :=
  let new := if hi then { p.rte with destField := data.destField }
    else { data with remoteIrr := p.rte.remoteIrr, destField := p.rte.destField }
  if new.triggerMode then new else { new with remoteIrr := false }

/-- `vioapic_indirect_write` from where the new entry is stored; `mapping` is the polarity of the
mapping that is programmed, if there is one. -/
def writeRte (new : Rte) (mapping : Option Bool) : Pin :=
  let q := mapping.elim (p.setRte new) (p.setRte new).buildPhysicalRte
  if !q.rte.intrMask && !q.rte.remoteIrr && q.needIntr then q.generateIntr else q

/-- The pin's turn in the locked loop of `vioapic_process_eoi`. -/
def processEoi (vector : Nat) : Pin :=
  if p.rte.vector.toNat ≠ vector ∨ p.rte.remoteIrr = false then p
  else
    let q := p.setRte { p.rte with remoteIrr := false }
    if q.needIntr then q.generateIntr else q

end Pin

inductive WireMode
  | lapic
  | intr
  | ioapic
  | null
  deriving DecidableEq

structure SingleVioapic where
  nrPins : Nat
  pins : Nat → Pin
  /-- The VM's `wire_mode`. -/
  wireMode : WireMode
  isVuartIntx : Nat → Bool
  /-- The `polarity` of the pass-through mapping of a pin's GSI. -/
  polarity : Nat → Option Bool

inductive Action
  | line (pin : Nat) (op : GsiOp)
  /-- `adds`: the remap adds a mapping where it finds none, as it may for the Service VM. -/
  | write (pin : Nat) (hi : Bool) (data : Rte) (adds : Bool)
  | eoi (vector : Nat)
  /-- The vPIC and the local APIC change the wire mode, device assignment the mappings. -/
  | others (wireMode : WireMode) (polarity : Nat → Option Bool)

namespace SingleVioapic

/-- After `reset_one_vioapic`, which masks every entry and keeps the lines. -/
def reset (nrPins : Nat) (state : Nat → Bool) (wireMode : WireMode) (isVuartIntx : Nat → Bool)
    (polarity : Nat → Option Bool) : SingleVioapic :=
  ⟨nrPins, fun pin => ⟨⟨0, 0, false, false, false, false, true, 0⟩, state pin, []⟩, wireMode,
    isVuartIntx, polarity⟩

variable (s : SingleVioapic)

/-- The wire mode after a write, `none` for the change that is refused: pin 0 is unmasked while
the vPIC goes through the local APIC or the IOAPIC. -/
def changeWireMode (pin : Nat) (last new : Rte) : Option WireMode :=
  if pin = 0 ∧ last.intrMask ≠ new.intrMask then
    if last.intrMask then
      if s.wireMode = .null ∨ s.wireMode = .intr then some .ioapic else none
    else some (if s.wireMode = .ioapic then .intr else s.wireMode)
  else some s.wireMode

/-- The mapping that `ptirq_intx_pin_remap` finds or adds. -/
def remapping (pin : Nat) (last new : Rte) (adds : Bool) : Option Bool :=
  if (!new.intrMask || !last.intrMask) && !s.isVuartIntx pin then
    (s.polarity pin).or (if adds then some false else none)
  else none

def indirectWrite (pin : Nat) (hi : Bool) (data : Rte) (adds : Bool) : SingleVioapic :=
  let p := s.pins pin
  let new := p.newRte hi data
  match s.changeWireMode pin p.rte new with
  | none => s
  | some wireMode =>
    let mapping := s.remapping pin p.rte new adds
    { s with
      pins := update s.pins pin (p.writeRte new mapping)
      wireMode := wireMode
      polarity := update s.polarity pin
        (mapping.elim (s.polarity pin) fun _ => some new.intrPolarity) }

def step : Action → SingleVioapic
  | .line pin op =>
    if pin < s.nrPins then { s with pins := update s.pins pin ((s.pins pin).setIrqline op) }
    else s
  | .write pin hi data adds =>
    if pin < s.nrPins then s.indirectWrite pin hi data adds else s
  | .eoi vector =>
    { s with pins := fun pin =>
        if pin < s.nrPins then (s.pins pin).processEoi vector else s.pins pin }
  | .others wireMode polarity => { s with wireMode := wireMode, polarity := polarity }

def run (as : List Action) : SingleVioapic := as.foldl step s

/-- The action is a write to the entry of a pin. -/
def writes (pin : Nat) : Action → Bool
  | .write q _ _ _ => q == pin && decide (pin < s.nrPins)
  | _ => false

end SingleVioapic

/-! ## Counting the history -/

namespace Pin

def count (f : Event → Bool) (p : Pin) : Nat := p.log.countP f

variable (f : Event → Bool) {p : Pin} {level hi alo : Bool} {data r : Rte}
  {mapping : Option Bool}

@[grind =]
theorem count_setRte : (p.setRte r).count f =
    p.count f + if p.rte.remoteIrr ≠ r.remoteIrr ∧ f (.irr r.remoteIrr) then 1 else 0 := by
  simp only [count, setRte]
  split <;> simp_all [List.countP_cons]

@[grind =]
theorem count_setState : (p.setState level).count f =
    p.count f + if p.state ≠ level ∧ f (.line level) then 1 else 0 := by
  simp only [count, setState]
  split <;> simp_all [List.countP_cons]

@[grind =]
theorem count_receiveIntr :
    (p.receiveIntr r).count f = p.count f + if f (.intr r) then 1 else 0 := by
  simp [count, receiveIntr, List.countP_cons]

/-- The remap moves the line away from the active level, so it sends nothing. -/
theorem remap_eq (p : Pin) (mapping : Option Bool) : mapping.elim p p.buildPhysicalRte = p ∨
    mapping.elim p p.buildPhysicalRte = p.setState p.rte.intrPolarity := by
  cases mapping with
  | none => exact .inl rfl
  | some polarity =>
    simp only [Option.elim, buildPhysicalRte, setPinstate]
    split <;> simp

/-! ## The law of a level pin -/

/-- How often the remote IRR bit went up or down. -/
def irrs (b : Bool) (p : Pin) : Nat := p.count (· == .irr b)

/-- What the pin keeps also while an operation is under way. -/
structure Sound (p : Pin) : Prop where
  edge : p.rte.triggerMode = false → p.rte.remoteIrr = false
  once : p.irrs true = p.count Event.isLevelIntr

structure Law (p : Pin) : Prop extends Sound p where
  asserted : p.rte.intrMask = false → p.rte.triggerMode = true → p.needIntr = true →
    p.rte.remoteIrr = true

variable {op : GsiOp} {vector : Nat}

theorem Sound.setRte (h : p.Sound) (hedge : r.triggerMode = false → r.remoteIrr = false)
    (hirr : r.remoteIrr = true → p.rte.remoteIrr = true) : (p.setRte r).Sound := by
  refine ⟨hedge, ?_⟩
  have := h.once
  grind [irrs, Event.isLevelIntr]

theorem Sound.setState (h : p.Sound) : (p.setState level).Sound := by
  refine ⟨h.edge, ?_⟩
  have := h.once
  grind [irrs, Event.isLevelIntr]

theorem Sound.remap (h : p.Sound) (mapping : Option Bool) :
    (mapping.elim p p.buildPhysicalRte).Sound := by
  rcases remap_eq p mapping with e | e
  · exact e.symm ▸ h
  · exact e.symm ▸ h.setState

theorem Sound.generateIntr (h : p.Sound) : p.generateIntr.Law := by
  obtain ⟨hedge, honce⟩ := h
  refine ⟨⟨?_, ?_⟩, ?_⟩ <;> grind [Pin.generateIntr, irrs, Event.isLevelIntr]

theorem Law.setPinstate (h : p.Law) : (p.setPinstate level).Law := by
  unfold Pin.setPinstate
  split
  · exact h.toSound.setState.generateIntr
  · refine ⟨h.toSound.setState, fun hm ht hn => h.asserted hm ht ?_⟩
    grind [needIntr]

theorem Law.setIrqline (h : p.Law) : (p.setIrqline op).Law := by
  cases op with
  | setHigh | setLow => exact h.setPinstate
  | raisingPulse | fallingPulse => exact h.setPinstate.setPinstate

/-- A write never sets the remote IRR bit, and clears it for an edge pin. -/
theorem newRte_spec (p : Pin) (hi : Bool) (data : Rte) :
    ((p.newRte hi data).triggerMode = false → (p.newRte hi data).remoteIrr = false) ∧
      ((p.newRte hi data).remoteIrr = true → p.rte.remoteIrr = true) := by
  grind [newRte]

theorem Law.writeRte (h : p.Law) : (p.writeRte (p.newRte hi data) mapping).Law := by
  have hnew := p.newRte_spec hi data
  have hs := (h.toSound.setRte hnew.1 hnew.2).remap mapping
  unfold Pin.writeRte
  simp only
  split
  · exact hs.generateIntr
  · next hn => exact ⟨hs, fun hm _ hi => by simpa [hm, hi] using hn⟩

theorem Law.processEoi (h : p.Law) : (p.processEoi vector).Law := by
  have hs := h.toSound.setRte (r := { p.rte with remoteIrr := false }) (fun _ => rfl) (by simp)
  unfold Pin.processEoi
  split
  · exact h
  simp only
  split
  · exact hs.generateIntr
  · next hn => exact ⟨hs, fun _ _ hi => absurd hi hn⟩

theorem irrs_setIrqline : (p.setIrqline op).irrs false = p.irrs false := by
  cases op <;> grind [setIrqline, setPinstate, generateIntr, irrs]

theorem irrs_writeRte : (p.writeRte r mapping).irrs false = (p.setRte r).irrs false := by
  have := remap_eq (p.setRte r) mapping
  grind [writeRte, generateIntr, irrs]

/-! ## The interrupts of an edge pin -/

/-- Edge-triggered and unmasked, with the polarity `alo`. -/
structure Edge (alo : Bool) (p : Pin) : Prop where
  unmasked : p.rte.intrMask = false
  edge : p.rte.triggerMode = false
  polarity : p.rte.intrPolarity = alo

/-- How often the line went to the active level of a polarity. -/
def rises (alo : Bool) (p : Pin) : Nat := p.count (· == .line !alo)

/-- A change of the line sends an interrupt exactly if the line becomes active. -/
theorem Edge.setPinstate (h : p.Edge alo) (level : Bool) : (p.setPinstate level).Edge alo ∧
    (p.setPinstate level).count Event.isIntr + p.rises alo =
      (p.setPinstate level).rises alo + p.count Event.isIntr := by
  obtain ⟨hm, ht, hp⟩ := h
  refine ⟨⟨?_, ?_, ?_⟩, ?_⟩ <;> grind [Pin.setPinstate, generateIntr, rises, Event.isIntr]

theorem Edge.setIrqline (h : p.Edge alo) : (p.setIrqline op).count Event.isIntr + p.rises alo =
      (p.setIrqline op).rises alo + p.count Event.isIntr := by
  have h₁ := h.setPinstate true
  have h₂ := h.setPinstate false
  cases op with
  | setHigh => exact h₁.2
  | setLow => exact h₂.2
  | raisingPulse =>
    have := (h₁.1.setPinstate false).2
    simp only [Pin.setIrqline]
    omega
  | fallingPulse =>
    have := (h₂.1.setPinstate true).2
    simp only [Pin.setIrqline]
    omega

/-- A write sends an interrupt exactly if it leaves the line active. -/
theorem Edge.writeRte (h : (p.writeRte (p.newRte hi data) mapping).Edge alo) :
    let q := p.writeRte (p.newRte hi data) mapping
    q.count Event.isIntr + p.rises alo =
      q.rises alo + p.count Event.isIntr + if q.needIntr then 1 else 0 := by
  have hnew := p.newRte_spec hi data
  have := remap_eq (p.setRte (p.newRte hi data)) mapping
  obtain ⟨hm, ht, hp⟩ := h
  grind [Pin.writeRte, generateIntr, rises, Event.isIntr, needIntr]

end Pin

namespace SingleVioapic

variable {s : SingleVioapic} {a : Action} {as : List Action} {pin : Nat} {alo : Bool}

/-- What an action does to a pin. A write to the entry of an unmasked pin is never refused. -/
theorem step_pin (s : SingleVioapic) (a : Action) (pin : Nat) : ((s.step a).pins pin = s.pins pin ∧
      ((s.pins pin).rte.intrMask = false → s.writes pin a = false)) ∨
    (∃ op, a = .line pin op ∧ (s.step a).pins pin = (s.pins pin).setIrqline op) ∨
    (∃ hi data adds mapping, a = .write pin hi data adds ∧ s.writes pin a = true ∧
      (s.step a).pins pin = (s.pins pin).writeRte ((s.pins pin).newRte hi data) mapping) ∨
    ∃ vector, a = .eoi vector ∧ (s.step a).pins pin = (s.pins pin).processEoi vector := by
  cases a with
  | line q op =>
    by_cases hq : pin = q <;> simp only [step, writes] <;> split <;> simp_all
  | write q hi data adds =>
    simp only [step, indirectWrite, writes]
    by_cases hq : pin = q
    · subst hq
      split
      · next hlt =>
        cases hw : s.changeWireMode pin (s.pins pin).rte ((s.pins pin).newRte hi data) with
        | none => exact .inl ⟨rfl, fun hm => by grind [changeWireMode]⟩
        | some w => exact .inr (.inr (.inl ⟨_, _, _, _, rfl, by simp [hlt], update_self ..⟩))
      · next hn => exact .inl ⟨rfl, fun _ => by simp [hn]⟩
    · refine .inl ⟨?_, fun _ => by simp [Ne.symm hq]⟩
      split
      · split <;> simp [hq]
      · rfl
  | eoi v =>
    simp only [step, writes]
    split <;> simp_all
  | others w pol => exact .inl ⟨rfl, fun _ => rfl⟩

theorem law_step (h : (s.pins pin).Law) : ((s.step a).pins pin).Law := by
  rcases s.step_pin a pin with ⟨e, _⟩ | ⟨op, _, e⟩ | ⟨_, _, _, _, _, _, e⟩ | ⟨v, _, e⟩ <;>
    rw [e]
  · exact h
  · exact h.setIrqline
  · exact h.writeRte
  · exact h.processEoi

theorem law_run (h : (s.pins pin).Law) : ((s.run as).pins pin).Law :=
  List.foldlRecOn (motive := fun s => (s.pins pin).Law) as step h fun _ h _ _ => law_step h

/-- The writes to a pin's entry that leave its line active. -/
def activeWrites (pin : Nat) : List Action → SingleVioapic → Nat
  | [], _ => 0
  | a :: as, s =>
    (if s.writes pin a && ((s.step a).pins pin).needIntr then 1 else 0) +
      activeWrites pin as (s.step a)

theorem edge_step (hl : (s.pins pin).Law) (h : (s.pins pin).Edge alo)
    (h' : ((s.step a).pins pin).Edge alo) :
    ((s.step a).pins pin).count Event.isIntr + (s.pins pin).rises alo =
      ((s.step a).pins pin).rises alo + (s.pins pin).count Event.isIntr +
        if s.writes pin a && ((s.step a).pins pin).needIntr then 1 else 0 := by
  rcases s.step_pin a pin with ⟨e, hw⟩ | ⟨op, ha, e⟩ | ⟨hi, data, adds, m, -, hw, e⟩ | ⟨v, ha, e⟩
  · simp [e, hw h.unmasked, Nat.add_comm]
  · rw [e, ha]
    simpa [writes] using h.setIrqline
  · rw [e] at h' ⊢
    simpa [hw] using h'.writeRte
  · have hr : (s.pins pin).processEoi v = s.pins pin := by
      simp [Pin.processEoi, hl.edge h.edge]
    rw [e, hr, ha]
    simp [writes, Nat.add_comm]

theorem edge_run (hl : (s.pins pin).Law) (h : ∀ n, ((s.run (as.take n)).pins pin).Edge alo) :
    ((s.run as).pins pin).count Event.isIntr + (s.pins pin).rises alo =
      ((s.run as).pins pin).rises alo + (s.pins pin).count Event.isIntr +
        activeWrites pin as s := by
  induction as generalizing s with
  | nil => simp [run, activeWrites, Nat.add_comm]
  | cons a as ih =>
    have hstep := edge_step hl (h 0) (h 1)
    have hrest := ih (law_step hl) fun n => h (n + 1)
    simp only [run, List.foldl_cons, activeWrites] at hrest ⊢
    omega

variable (n : Nat) (line : Nat → Bool) (w : WireMode) (vuart : Nat → Bool)
  (pol : Nat → Option Bool)

theorem law_reset (pin : Nat) : ((reset n line w vuart pol).pins pin).Law :=
  ⟨⟨fun _ => rfl, rfl⟩, fun hm => by simp [reset] at hm⟩

/-- Whenever the lock is free: an unmasked level pin whose line is asserted has its remote IRR bit
set, every rise of the bit sent one interrupt, and the next action clears the bit only as an EOI of
the pin's vector or as a write that makes the pin edge-triggered. -/
theorem level_pin_law (as : List Action) (pin : Nat) :
    let s := (reset n line w vuart pol).run as
    let p := s.pins pin
    (p.rte.intrMask = false → p.rte.triggerMode = true → p.needIntr = true →
      p.rte.remoteIrr = true) ∧
    p.irrs true = p.count Event.isLevelIntr ∧
    ∀ a, ((s.step a).pins pin).irrs false ≠ p.irrs false →
      a = .eoi p.rte.vector.toNat ∨
      ∃ hi data adds, a = .write pin hi data adds ∧ p.rte.triggerMode = true ∧
        (p.newRte hi data).triggerMode = false := by
  intro s p
  have h : p.Law := law_run (law_reset n line w vuart pol pin)
  refine ⟨h.asserted, h.once, fun a hne => ?_⟩
  rcases s.step_pin a pin with ⟨e, _⟩ | ⟨op, _, e⟩ | ⟨hi, data, adds, _, ha, -, e⟩ | ⟨v, ha, e⟩ <;>
    rw [e] at hne
  · exact absurd rfl hne
  · exact absurd Pin.irrs_setIrqline hne
  · rw [Pin.irrs_writeRte] at hne
    have := h.edge
    refine .inr ⟨hi, data, adds, ha, ?_⟩
    grind [Pin.newRte, Pin.irrs]
  · simp only [Pin.processEoi] at hne
    split at hne
    · exact absurd rfl hne
    · next hv => exact .inl (by simp_all [p])

/-- While a pin is unmasked and edge-triggered with one polarity, it sends as many interrupts as
its line rises exactly if no write to its entry leaves the line active. -/
theorem edge_pin_sends_per_rise (before as : List Action) (pin : Nat) (alo : Bool)
    (h : ∀ k, ((((reset n line w vuart pol).run before).run (as.take k)).pins pin).Edge alo) :
    let s := (reset n line w vuart pol).run before
    let p := s.pins pin
    let q := (s.run as).pins pin
    q.count Event.isIntr + p.rises alo = q.rises alo + p.count Event.isIntr ↔
      activeWrites pin as s = 0 := by
  intro s p q
  have hrun := edge_run (law_run (law_reset n line w vuart pol pin)) h
  simp only [s, p, q]
  omega

/-- A chip whose pin 3 the guest has unmasked, edge-triggered and active high. -/
def edgeChip : SingleVioapic :=
  (reset 24 (fun _ => false) .null (fun _ => false) fun _ => none).run
    [.write 3 false ⟨0x30, 0, false, false, false, false, false, 0⟩ false]

/-- The line rises, falls, has a new destination written for it, and rises again. -/
def edgeRun : List Action :=
  [.line 3 .setHigh, .line 3 .setLow,
    .write 3 true ⟨0, 0, false, false, false, false, false, 1⟩ false, .line 3 .setHigh]

theorem edge_pin_sends_per_rise_at_three :
    let q := (edgeChip.run edgeRun).pins 3
    q.rises false = 2 ∧ activeWrites 3 edgeRun edgeChip = 0 ∧
      (q.count Event.isIntr + 0 = q.rises false + 0 ↔ activeWrites 3 edgeRun edgeChip = 0) := by
  refine ⟨rfl, rfl, edge_pin_sends_per_rise 24 _ _ _ _ _ edgeRun 3 false fun k => ?_⟩
  rcases k with _ | _ | _ | _ | k
  · exact ⟨rfl, rfl, rfl⟩
  · exact ⟨rfl, rfl, rfl⟩
  · exact ⟨rfl, rfl, rfl⟩
  · exact ⟨rfl, rfl, rfl⟩
  · rw [List.take_of_length_le (Nat.le_add_left 4 k)]
    exact ⟨rfl, rfl, rfl⟩

/-- A new destination is written while the line is held active: one rise, two interrupts. -/
theorem edge_pin_sends_twice :
    let q := (edgeChip.run
      [.line 3 .setHigh, .write 3 true ⟨0, 0, false, false, false, false, false, 1⟩ false]).pins 3
    q.Edge false ∧ q.rises false = 1 ∧ q.count Event.isIntr = 2 :=
  ⟨⟨rfl, rfl, rfl⟩, rfl, rfl⟩

end SingleVioapic

/-! ## Reading an entry under local APIC pass-through -/

inductive IntxCtlr
  | ioapic
  | pic
  deriving DecidableEq

/-- An active `ptirq_remapping_info` of an INTx pin. -/
structure IntxRemapping where
  vm : Nat
  physGsi : Nat
  virtGsi : Nat
  ctlr : IntxCtlr
  deriving DecidableEq

/-- The mappings, and what changes them. -/
inductive IntxOp
  /-- `room`: an entry is free and the physical interrupt can be taken. -/
  | add (m : IntxRemapping) (room : Bool)
  | remove (m : IntxRemapping)

variable (t : List IntxRemapping)

/-- `find_ptirq_entry` by the virtual source id. Equal ids hash alike, so no bucket is lost. -/
def findVirt (gsi : Nat) (ctlr : IntxCtlr) (vm : Nat) : Option IntxRemapping :=
  t.find? fun m => m.virtGsi == gsi && m.ctlr == ctlr && m.vm == vm

def findPhys (gsi : Nat) : Option IntxRemapping := t.find? fun m => m.physGsi == gsi

/-- `add_intx_remapping` and `remove_intx_remapping`. -/
def applyIntxOp : IntxOp → List IntxRemapping
  | .add m room =>
    if findPhys t m.physGsi = none ∧ findVirt t m.virtGsi m.ctlr m.vm = none ∧ room then m :: t
    else t
  | .remove m => t.erase m

/-- `vioapic_indirect_read` of the low half of a pin's entry: the pin after it, whose entry is what
is read. The key of the lookup is the entry's vector. -/
def indirectReadLo (isLapicPt : Bool) (vm : Nat) (physIrr : Nat → Bool) (p : Pin) : Pin :=
  if isLapicPt && p.rte.triggerMode then
    match findVirt t p.rte.vector.toNat .ioapic vm with
    | some m => p.setRte { p.rte with remoteIrr := physIrr m.physGsi }
    | none => p
  else p

theorem physGsi_nodup (ops : List IntxOp) :
    ((ops.foldl applyIntxOp []).map (·.physGsi)).Nodup := by
  suffices h : ∀ t : List IntxRemapping, (t.map (·.physGsi)).Nodup →
      ((ops.foldl applyIntxOp t).map (·.physGsi)).Nodup from h [] List.nodup_nil
  induction ops with
  | nil => exact fun _ => id
  | cons op ops ih =>
    refine fun t h => ih _ ?_
    cases op with
    | add m room =>
      simp only [applyIntxOp]
      split
      · next hc =>
        refine List.nodup_cons.2 ⟨?_, h⟩
        simpa [findPhys] using hc.1
      · exact h
    | remove m => exact h.sublist ((List.erase_sublist).map _)

/-- Under local APIC pass-through the low half of a level-triggered entry shows the remote IRR bit
of the physical pin mapped to its GSI, whatever the physical bits are, exactly if the entry's
vector is the number of the GSI. -/
theorem read_shows_mapped_pin_iff (ops : List IntxOp) (vm gsi : Nat) (m : IntxRemapping) (p : Pin)
    (hm : findVirt (ops.foldl applyIntxOp []) gsi .ioapic vm = some m)
    (hl : p.rte.triggerMode = true) :
    (∀ physIrr, (indirectReadLo (ops.foldl applyIntxOp []) true vm physIrr p).rte =
      { p.rte with remoteIrr := physIrr m.physGsi }) ↔ p.rte.vector.toNat = gsi := by
  have hd := physGsi_nodup ops
  generalize ops.foldl applyIntxOp [] = t at hm hd ⊢
  simp only [indirectReadLo, hl]
  constructor
  · intro h
    cases hv : findVirt t p.rte.vector.toNat .ioapic vm with
    | none =>
      have := congrArg Rte.remoteIrr (h fun _ => !p.rte.remoteIrr)
      simp [hv] at this
    | some m' =>
      have := congrArg Rte.remoteIrr (h fun gsi => gsi == m'.physGsi)
      simp only [hv, Pin.setRte] at this
      have he : m = m' := List.inj_on_of_nodup_map hd (List.mem_of_find?_eq_some hm)
        (List.mem_of_find?_eq_some hv) (by simpa using this)
      have h₁ := List.find?_some hv
      have h₂ := List.find?_some hm
      simp_all
  · rintro rfl physIrr
    simp [hm, Pin.setRte]

/-- Physical pin 20 is GSI 16 of VM 1. -/
def gsi16 : IntxRemapping := ⟨1, 20, 16, .ioapic⟩

def levelPin (vector : BitVec 8) : Pin :=
  ⟨⟨vector, 0, false, false, false, true, false, 0⟩, false, []⟩

theorem read_shows_mapped_pin_at_sixteen :
    (∀ physIrr, (indirectReadLo (applyIntxOp [] (.add gsi16 true)) true 1 physIrr
      (levelPin 16)).rte = { (levelPin 16).rte with remoteIrr := physIrr 20 }) ↔
      (levelPin 16).rte.vector.toNat = 16 :=
  read_shows_mapped_pin_iff [.add gsi16 true] 1 16 gsi16 (levelPin 16) rfl rfl

/-- With vector 0x30 the physical bit is set, and the guest reads it clear. -/
theorem read_misses_mapped_pin :
    findVirt (applyIntxOp [] (.add gsi16 true)) 16 .ioapic 1 = some gsi16 ∧
      (indirectReadLo (applyIntxOp [] (.add gsi16 true)) true 1 (fun _ => true)
        (levelPin 0x30)).rte.remoteIrr = false := by
  decide

end Sima.Vioapic
