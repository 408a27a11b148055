import Mathlib.Logic.Function.Basic
import Mathlib.Tactic.Common
import Sima.Lib.Trace

/-!
# Who owns an interrupt

An interrupt number is taken with `request_irq` and given back with `free_irq`. What says
that it is taken is spread over three places: a bit in the allocation bitmap, a bit in the
reservation bitmap, and the handler in the descriptor. The bitmaps are under one lock, each
descriptor under another, and a call takes one lock after the other.

Between the locks anything can happen. A party of the model is a pCPU in the middle of a
call, a step is one section under a lock or one access outside of all locks, and a run is
any interleaving of such steps.

The check whether a number is taken already — the one place where it is decided who gets it
— is an access outside of all locks. Two requests that both look before either has written
its handler both succeed. And a free that has cleared the handler, but not yet the bit, can
take the bit from under a request that came in between. A run in which neither happens keeps
what a caller expects; that is the condition under which the result is stated.
-/

namespace Sima.Irq

open Lib
open Function (forall_update_iff update update_of_ne update_self)

def irqNumCpuDomain : Nat := 16

def irqNumGicDomain : Nat := 1024

def nrIrqs : Nat := irqNumCpuDomain + irqNumGicDomain

def maxIrqDomainNum : Nat := 2

/-- `irq_action_t`, `NULL` being `none`. -/
abbrev Action := Option Nat

structure Desc where
  action : Action
  privData : Nat
  flags : BitVec 32
  deriving DecidableEq

def Desc.empty : Desc := ⟨none, 0, 0⟩

/-- What a request is to be installed with. -/
structure Request where
  action : Action
  privData : Nat
  flags : BitVec 32
  deriving DecidableEq

def Request.desc (r : Request) : Desc := ⟨r.action, r.privData, r.flags⟩

inductive DomainName where
  | cpu
  | gic
  deriving DecidableEq

structure Domain where
  name : DomainName
  base : Nat
  irqNum : Nat

/-- Where a pCPU stands in a call. -/
inductive Pc where
  | idle
  /-- `request_irq`, before `arch_request_irq`. -/
  | archRequest (irq : Nat) (r : Request)
  /-- `request_irq`, before it looks at the handler. -/
  | check (irq : Nat) (r : Request)
  /-- `request_irq`, before it writes the descriptor. -/
  | install (irq : Nat) (r : Request)
  /-- `free_irq`, before `arch_free_irq`. -/
  | archFree (irq : Nat)
  /-- `free_irq`, before `free_irq_num`. -/
  | freeNum (irq : Nat)
  /-- `arm64_register_irq_domain`, before its section. -/
  | register (name : DomainName) (irqNum : Nat)
  /-- The rest of `arm64_register_irq_domain`: the numbers that are still to be reserved. -/
  | reserve (next count : Nat)
  deriving DecidableEq

structure State where
  alloc : Nat → Bool
  rsvd : Nat → Bool
  desc : Nat → Desc
  /-- `irq_data`, `IRQ_INVALID` being `none`. -/
  irqData : Nat → Option Nat
  /-- The INTIDs that are enabled in the GIC. -/
  enabled : Nat → Bool
  domains : List Domain
  nextAcrnIrqBase : Nat
  pc : Nat → Pc

namespace State

def start : State :=
  { alloc := fun _ => false
    rsvd := fun _ => false
    desc := fun _ => .empty
    irqData := fun _ => none
    enabled := fun _ => false
    domains := []
    nextAcrnIrqBase := 0
    pc := fun _ => .idle }

section

variable (s : State) (p irq : Nat)

def goto (pc : Pc) : State :=
  { s with pc := update s.pc p pc }

def setDesc (d : Desc) : State :=
  { s with desc := update s.desc irq d }

/-- `ffz64_ex` on the allocation bitmap. -/
def firstFree : Option Nat := (List.range nrIrqs).find? fun i => !s.alloc i

/-- The number that `alloc_irq_num` takes: the one that is asked for, taken or not, or one
that is free. -/
def pick (reqIrq : Option Nat) : Option Nat :=
  match reqIrq with
  | some irq => if irq < nrIrqs then some irq else none
  | none => s.firstFree

/-- `alloc_irq_num`, for the number that it takes. -/
def allocIrqNum (reserve : Bool) : State :=
  { s with
    alloc := update s.alloc irq true
    rsvd := if reserve then update s.rsvd irq true else s.rsvd }

def freeIrqNum : State :=
  if s.rsvd irq then s else { s with alloc := update s.alloc irq false }

def findDomain (name : DomainName) : Option Domain :=
  s.domains.find? fun d => d.name = name

/-- `arch_request_irq`; a number of the GIC domain is enabled in the GIC. -/
def archRequestIrq : State :=
  let s := { s with irqData := update s.irqData irq (some irq) }
  match s.findDomain .gic with
  | some d =>
    if d.base ≤ irq ∧ irq < d.base + d.irqNum then
      { s with enabled := update s.enabled (irq - d.base) true }
    else s
  | none => s

def archFreeIrq : State :=
  { s with irqData := update s.irqData irq none }

/-- The section of `arm64_register_irq_domain`. -/
def registerDomain (name : DomainName) (irqNum : Nat) : State :=
  let base := s.nextAcrnIrqBase
  if irqNum > 0 ∧ base + irqNum ≤ nrIrqs then
    { s with
      domains := s.domains ++ [(⟨name, base, irqNum⟩ : Domain)]
      nextAcrnIrqBase := base + irqNum }.goto p (.reserve base irqNum)
  else s.goto p .idle

/-- The next step of the call that a pCPU is in. -/
def advance : State :=
  match s.pc p with
  | .idle => s
  | .archRequest irq r => (s.archRequestIrq irq).goto p (.check irq r)
  | .check irq r =>
    -- outside of the lock; `-EBUSY` if there is a handler
    if (s.desc irq).action = none then s.goto p (.install irq r) else s.goto p .idle
  | .install irq r => (s.setDesc irq r.desc).goto p .idle
  | .archFree irq => (s.archFreeIrq irq).goto p (.freeNum irq)
  | .freeNum irq => (s.freeIrqNum irq).goto p .idle
  | .register name irqNum => s.registerDomain p name irqNum
  | .reserve next count =>
    if count = 0 then s.goto p .idle
    else (s.allocIrqNum next true).goto p (.reserve (next + 1) (count - 1))

end

end State

inductive Label where
  /-- `request_irq`, `IRQ_INVALID` being `none`. -/
  | request (p : Nat) (reqIrq : Option Nat) (r : Request)
  | free (p : Nat) (irq : Nat)
  /-- `arm64_register_irq_domain`. -/
  | register (p : Nat) (name : DomainName) (irqNum : Nat)
  /-- A call in progress goes on. -/
  | advance (p : Nat)

def Label.party : Label → Nat
  | .request p _ _ | .free p _ | .register p _ _ | .advance p => p

def Label.starts : Label → Bool
  | .advance _ => false
  | _ => true

namespace State

/-- The first section of a call. -/
def begin (s : State) : Label → State
  | .request p reqIrq r =>
    match s.pick reqIrq with
    | some irq => (s.allocIrqNum irq false).goto p (.archRequest irq r)
    | none => s
  | .free p irq => if irq < nrIrqs then (s.setDesc irq .empty).goto p (.archFree irq) else s
  | .register p name irqNum =>
    if (s.findDomain name).isNone ∧ s.domains.length < maxIrqDomainNum then
      s.goto p (.register name irqNum)
    else s
  | .advance p => s.advance p

/-- A pCPU starts a call when it is in none. -/
def step (s : State) (a : Label) : State :=
  if a.starts ∧ s.pc a.party ≠ .idle then s else s.begin a

end State

section

variable (a : Label) (s : State)

def Step (s' : State) : Prop := s' = s.step a

/-! ## What is wanted -/

/-- A request has succeeded; a number has been freed. -/
inductive Event where
  | got (p irq : Nat)
  | freed (irq : Nat)
  deriving DecidableEq

/-- The events of a run, the newest first. -/
def noteEvent (ev : List Event) : List Event :=
  match a with
  | .advance p =>
    match s.pc p with
    | .install irq _ => .got p irq :: ev
    | _ => ev
  | .free p irq => if s.pc p = .idle ∧ irq < nrIrqs then .freed irq :: ev else ev
  | _ => ev

/-- Between two successful requests for a number there is a free of it. -/
def Separated (ev : List Event) : Prop :=
  ∀ a b c p q irq, ev = a ++ .got p irq :: (b ++ .got q irq :: c) → .freed irq ∈ b

/-- A step of a request that does not install anything: all that a request which fails
does. -/
def AsksOnly : Prop :=
  match a with
  | .request p _ _ => s.pc p = .idle
  | .advance p =>
    match s.pc p with
    | .archRequest _ _ => True
    | .check _ _ => True
    | _ => False
  | _ => False

/-- The step leaves all handlers and private data as they are, and the allocation bit of
every number that has a handler. -/
def LeavesOwners : Prop :=
  (s.step a).desc = s.desc ∧ ∀ irq, (s.desc irq).action ≠ none → (s.step a).alloc irq = s.alloc irq

/-- An automatic allocation does not take a reserved number. -/
def PicksUnreserved : Prop :=
  ∀ irq, s.pick none = some irq → s.rsvd irq = false

/-! ## When it holds -/

/-- The pCPU has looked, and is about to write its handler. -/
def Pc.Installs (pc : Pc) (irq : Nat) : Prop := ∃ r, pc = .install irq r

/-- The pCPU is in a request that has taken the number's bit. -/
def Pc.Requests (pc : Pc) (irq : Nat) : Prop :=
  ∃ r, pc = .archRequest irq r ∨ pc = .check irq r ∨ pc = .install irq r

/-- A request comes with a handler. It does not look while another one is about to write,
and a number that is not reserved is not given back while somebody else has it or is about
to. -/
def Orderly : Prop :=
  match a with
  | .request _ _ r => r.action ≠ none
  | .advance p =>
    match s.pc p with
    | .check irq _ => ∀ q, q ≠ p → ¬ (s.pc q).Installs irq
    | .freeNum irq => s.rsvd irq = true ∨
        (s.desc irq).action = none ∧ ∀ q, q ≠ p → ¬ (s.pc q).Requests irq
    | _ => True
  | _ => True

end

/-! ## What is kept -/

/-- A request in progress carries a handler. -/
def Pc.Handler : Pc → Prop
  | .archRequest _ r | .check _ r | .install _ r => r.action ≠ none
  | _ => True

structure Inv (s : State) : Prop where
  rsvd : ∀ irq, s.rsvd irq = true → s.alloc irq = true
  /-- A clear bit belongs to a number that nobody has or is getting. -/
  clear : ∀ irq, s.alloc irq = false → (s.desc irq).action = none ∧ ∀ p, ¬ (s.pc p).Requests irq
  /-- At most one is about to write, and what it writes over is empty. -/
  installs : ∀ p irq, (s.pc p).Installs irq →
    (s.desc irq).action = none ∧ ∀ q, q ≠ p → ¬ (s.pc q).Installs irq
  handler : ∀ p, (s.pc p).Handler

theorem inv_start : Inv .start := by
  refine ⟨?_, ?_, ?_, ?_⟩
  · intro irq h
    cases h
  · intro irq _
    refine ⟨rfl, ?_⟩
    rintro p ⟨r, h | h | h⟩ <;> cases h
  · rintro p irq ⟨r, h⟩
    cases h
  · intro p
    exact trivial

section Steps

variable {s t : State} {p irq i j : Nat} {pc' : Pc} {f : Nat → Bool} {r : Request}

/-- What has to be seen of a step of `p` that leads to `pc'`. -/
theorem Inv.of_step (h : Inv s) (hpc : t.pc = update s.pc p pc')
    (hrsvd : ∀ i, t.rsvd i = true → t.alloc i = true) (hclear : ∀ i, t.alloc i = false →
      (t.desc i).action = none ∧ (∀ q, q ≠ p → ¬ (s.pc q).Requests i) ∧ ¬ pc'.Requests i)
    (hothers : ∀ q i, q ≠ p → (s.pc q).Installs i → (t.desc i).action = none)
    (hinst : ∀ i, pc'.Installs i → (t.desc i).action = none ∧ ∀ q, q ≠ p → ¬ (s.pc q).Installs i)
    (hact : pc'.Handler) : Inv t := by
  have hself : t.pc p = pc' := by rw [hpc, update_self]
  have hne : ∀ q, q ≠ p → t.pc q = s.pc q := fun q hq => by rw [hpc, update_of_ne hq]
  refine ⟨hrsvd, ?_, ?_, ?_⟩
  · intro i hi
    obtain ⟨haction, hreq, hreq'⟩ := hclear i hi
    rw [hpc]
    exact ⟨haction, (forall_update_iff s.pc fun _ pc => ¬ pc.Requests i).mpr ⟨hreq', hreq⟩⟩
  · intro q i hq
    by_cases hqp : q = p
    · subst hqp
      rw [hself] at hq
      obtain ⟨haction, huniq⟩ := hinst i hq
      refine ⟨haction, fun r hr => ?_⟩
      rw [hne r hr]
      exact huniq r hr
    · rw [hne q hqp] at hq
      refine ⟨hothers q i hqp hq, fun r hr => ?_⟩
      by_cases hrp : r = p
      · rw [hrp, hself]
        exact fun hp => (hinst i hp).2 q hqp hq
      · rw [hne r hrp]
        exact (h.installs q i hq).2 r hr
  · rw [hpc]
    exact (forall_update_iff s.pc fun _ => Pc.Handler).mpr ⟨hact, fun q _ => h.handler q⟩

theorem Inv.of_quiet_step (h : Inv s) (hpc : t.pc = update s.pc p pc')
    (hrsvd : t.rsvd = s.rsvd) (halloc : t.alloc = s.alloc) (hdesc : t.desc = s.desc)
    (hreq : ∀ i, pc'.Requests i → (s.pc p).Requests i)
    (hinst : ∀ i, pc'.Installs i → (s.desc i).action = none ∧ ∀ q, q ≠ p → ¬ (s.pc q).Installs i)
    (hact : pc'.Handler) : Inv t := by
  refine h.of_step hpc ?_ ?_ ?_ ?_ hact
  · rw [hrsvd, halloc]
    exact h.rsvd
  · intro i hi
    rw [halloc] at hi
    rw [hdesc]
    obtain ⟨haction, hnone⟩ := h.clear i hi
    exact ⟨haction, fun q _ => hnone q, fun hp => hnone p (hreq i hp)⟩
  · intro q i _ hq
    rw [hdesc]
    exact (h.installs q i hq).1
  · rw [hdesc]
    exact hinst

/-- Outside of `request_irq`. -/
def Pc.Other (pc : Pc) : Prop := pc.Handler ∧ ∀ i, ¬ pc.Requests i

def Pc.asks : Pc → Bool
  | .archRequest _ _ | .check _ _ | .install _ _ => true
  | _ => false

variable {pc : Pc}

theorem Pc.other (h : pc.asks = false) : pc.Other := by
  constructor
  · cases pc with
    | archRequest irq r => cases h
    | check irq r => cases h
    | install irq r => cases h
    | _ => trivial
  · rintro i ⟨r, rfl | rfl | rfl⟩ <;> cases h

theorem Pc.Other.not_installs (h : pc.Other) (i : Nat) : ¬ pc.Installs i := by
  rintro ⟨r, hr⟩
  exact h.2 i ⟨r, .inr (.inr hr)⟩

/-- Leaving `request_irq`, or moving outside of it. -/
theorem Inv.of_other_step (h : Inv s) (hpc : t.pc = update s.pc p pc')
    (hrsvd : t.rsvd = s.rsvd) (halloc : t.alloc = s.alloc) (hdesc : t.desc = s.desc)
    (hasks : pc'.asks = false) : Inv t :=
  have hother := Pc.other hasks
  h.of_quiet_step hpc hrsvd halloc hdesc (fun i hi => absurd hi (hother.2 i))
    (fun i hi => absurd hi (hother.not_installs i)) hother.1

theorem update_true (h : update f i true j = false) : j ≠ i ∧ f j = false := by
  by_cases hj : j = i
  · rw [hj, update_self] at h
    cases h
  · rw [update_of_ne hj] at h
    exact ⟨hj, h⟩

theorem update_true_of (h : f j = true) : update f i true j = true := by
  by_cases hj : j = i
  · rw [hj, update_self]
  · rw [update_of_ne hj, h]

variable (h : Inv s)

include h

theorem Inv.allocIrqNum (reserve : Bool) (hreq : ∀ i, i ≠ irq → ¬ pc'.Requests i)
    (hinst : ∀ i, ¬ pc'.Installs i) (hact : pc'.Handler) :
    Inv ((s.allocIrqNum irq reserve).goto p pc') := by
  refine h.of_step rfl ?_ ?_ ?_ ?_ hact
  · intro i hi
    change (if reserve then update s.rsvd irq true else s.rsvd) i = true at hi
    change update s.alloc irq true i = true
    by_cases hirq : i = irq
    · rw [hirq, update_self]
    refine update_true_of (h.rsvd i ?_)
    split at hi
    · rwa [update_of_ne hirq] at hi
    · exact hi
  · intro i hi
    obtain ⟨hne, hclear⟩ := update_true hi
    obtain ⟨haction, hnone⟩ := h.clear i hclear
    exact ⟨haction, fun q _ => hnone q, hreq i hne⟩
  · intro q i _ hq
    exact (h.installs q i hq).1
  · intro i hi
    exact absurd hi (hinst i)

theorem Inv.request {reqIrq : Option Nat} (hr : r.action ≠ none) :
    Inv (s.begin (.request p reqIrq r)) := by
  rw [State.begin]
  split
  · next irq hpick =>
    refine h.allocIrqNum false ?_ ?_ hr
    · rintro i hne ⟨r', heq | heq | heq⟩
      · injection heq with heq _
        exact hne heq.symm
      · cases heq
      · cases heq
    · rintro i ⟨r', heq⟩
      cases heq
  · exact h

theorem Inv.free : Inv (s.begin (.free p irq)) := by
  rw [State.begin]
  split
  · have hnone : ∀ i, (s.desc i).action = none → (update s.desc irq .empty i).action = none := by
      intro i hi
      by_cases hirq : i = irq
      · rw [hirq, update_self]
        rfl
      · rw [update_of_ne hirq, hi]
    refine h.of_step rfl h.rsvd ?_ ?_ ?_ (Pc.other rfl).1
    · intro i hi
      obtain ⟨haction, hreq⟩ := h.clear i hi
      exact ⟨hnone i haction, fun q _ => hreq q, (Pc.other rfl).2 i⟩
    · intro q i _ hq
      exact hnone i (h.installs q i hq).1
    · intro i hi
      exact absurd hi ((Pc.other rfl).not_installs i)
  · exact h

theorem Inv.check (hpc : s.pc p = .check irq r) (hok : ∀ q, q ≠ p → ¬ (s.pc q).Installs irq) :
    Inv (s.advance p) := by
  rw [State.advance, hpc]
  dsimp only
  split
  · next haction =>
    have hhandler := h.handler p
    rw [hpc] at hhandler
    refine h.of_quiet_step rfl rfl rfl rfl ?_ ?_ hhandler
    · rintro i ⟨r', heq | heq | heq⟩
      · cases heq
      · cases heq
      · injection heq with heq _
        rw [← heq, hpc]
        exact ⟨r, .inr (.inl rfl)⟩
    · rintro i ⟨r', heq⟩
      injection heq with heq _
      rw [← heq]
      exact ⟨haction, hok⟩
  · exact h.of_other_step rfl rfl rfl rfl rfl

theorem Inv.install (hpc : s.pc p = .install irq r) : Inv (s.advance p) := by
  rw [State.advance, hpc]
  have hset : s.alloc irq = true := by
    by_contra hclear
    rw [Bool.not_eq_true] at hclear
    refine (h.clear irq hclear).2 p ⟨r, ?_⟩
    rw [hpc]
    exact .inr (.inr rfl)
  refine h.of_step rfl h.rsvd ?_ ?_ ?_ (Pc.other rfl).1
  · intro i hi
    have hne : i ≠ irq := by
      rintro rfl
      exact absurd hset (by rw [show s.alloc i = false from hi]; decide)
    obtain ⟨haction, hreq⟩ := h.clear i hi
    refine ⟨?_, fun q _ => hreq q, (Pc.other rfl).2 i⟩
    exact (congrArg Desc.action (update_of_ne hne _ _)).trans haction
  · intro q i hq hinst
    have hne : i ≠ irq := by
      rintro rfl
      refine (h.installs p i ⟨r, hpc⟩).2 q hq hinst
    exact (congrArg Desc.action (update_of_ne hne _ _)).trans (h.installs q i hinst).1
  · intro i hi
    exact absurd hi ((Pc.other rfl).not_installs i)

theorem Inv.freeNum (hpc : s.pc p = .freeNum irq) (hok : s.rsvd irq = true ∨
    (s.desc irq).action = none ∧ ∀ q, q ≠ p → ¬ (s.pc q).Requests irq) : Inv (s.advance p) := by
  rw [State.advance, hpc]
  dsimp only
  rw [State.freeIrqNum]
  split
  · exact h.of_other_step rfl rfl rfl rfl rfl
  rename_i hrsvd
  obtain ⟨haction, hreq⟩ := hok.resolve_left hrsvd
  refine h.of_step rfl ?_ ?_ ?_ ?_ (Pc.other rfl).1
  · intro i hi
    have hne : i ≠ irq := by
      rintro rfl
      exact hrsvd hi
    exact (update_of_ne hne _ _).trans (h.rsvd i hi)
  · intro i hi
    by_cases hirq : i = irq
    · rw [hirq]
      exact ⟨haction, hreq, (Pc.other rfl).2 irq⟩
    · obtain ⟨haction', hreq'⟩ := h.clear i ((update_of_ne hirq _ _).symm.trans hi)
      exact ⟨haction', fun q _ => hreq' q, (Pc.other rfl).2 i⟩
  · intro q i _ hq
    exact (h.installs q i hq).1
  · intro i hi
    exact absurd hi ((Pc.other rfl).not_installs i)

omit h

theorem archRequestIrq_frame (s : State) (irq : Nat) :
    (s.archRequestIrq irq).alloc = s.alloc ∧ (s.archRequestIrq irq).rsvd = s.rsvd ∧
      (s.archRequestIrq irq).desc = s.desc ∧ (s.archRequestIrq irq).pc = s.pc := by
  rw [State.archRequestIrq]
  split
  · split <;> exact ⟨rfl, rfl, rfl, rfl⟩
  · exact ⟨rfl, rfl, rfl, rfl⟩

theorem Inv.archRequest (h : Inv s) (hpc : s.pc p = .archRequest irq r) : Inv (s.advance p) := by
  obtain ⟨halloc, hrsvd, hdesc, hpc'⟩ := archRequestIrq_frame s irq
  have hhandler := h.handler p
  rw [State.advance, hpc]
  rw [hpc] at hhandler
  refine h.of_quiet_step (congrArg (update · p _) hpc') hrsvd halloc hdesc ?_ ?_ hhandler
  · rintro i ⟨r', heq | heq | heq⟩
    · cases heq
    · injection heq with heq _
      rw [← heq, hpc]
      exact ⟨r, .inl rfl⟩
    · cases heq
  · rintro i ⟨r', heq⟩
    cases heq

theorem Inv.register (h : Inv s) {name : DomainName} {n : Nat}
    (hpc : s.pc p = .register name n) : Inv (s.advance p) := by
  rw [State.advance, hpc]
  dsimp only
  rw [State.registerDomain]
  split <;> exact h.of_other_step rfl rfl rfl rfl rfl

theorem Inv.reserve (h : Inv s) {next count : Nat} (hpc : s.pc p = .reserve next count) :
    Inv (s.advance p) := by
  rw [State.advance, hpc]
  dsimp only
  split
  · exact h.of_other_step rfl rfl rfl rfl rfl
  · exact h.allocIrqNum true (fun i _ => (Pc.other rfl).2 i)
      (fun i => (Pc.other rfl).not_installs i) (Pc.other rfl).1

theorem Inv.advance (h : Inv s) (hok : Orderly (.advance p) s) : Inv (s.advance p) := by
  rw [Orderly] at hok
  cases hpc : s.pc p with
  | idle =>
    rw [State.advance, hpc]
    exact h
  | archRequest irq r => exact h.archRequest hpc
  | check irq r =>
    rw [hpc] at hok
    exact h.check hpc hok
  | install irq r => exact h.install hpc
  | archFree irq =>
    rw [State.advance, hpc]
    exact h.of_other_step rfl rfl rfl rfl rfl
  | freeNum irq =>
    rw [hpc] at hok
    exact h.freeNum hpc hok
  | register name n => exact h.register hpc
  | reserve next count => exact h.reserve hpc

theorem Inv.step {a : Label} (h : Inv s) (hok : Orderly a s) : Inv (s.step a) := by
  rw [State.step]
  split
  · exact h
  cases a with
  | advance p => exact h.advance hok
  | request p reqIrq r => exact h.request hok
  | free p irq => exact h.free
  | register p name n =>
    rw [State.begin]
    split
    · exact h.of_other_step rfl rfl rfl rfl rfl
    · exact h

end Steps

/-! ## Events -/

/-- The last that has happened to the number is that somebody got it. -/
def Held : List Event → Nat → Prop
  | [], _ => False
  | .got _ j :: ev, i => j = i ∨ Held ev i
  | .freed j :: ev, i => j ≠ i ∧ Held ev i

variable {i q : Nat}

theorem freed_mem_of_not_held {b c : List Event} (h : ¬ Held (b ++ .got q i :: c) i) :
    .freed i ∈ b := by
  induction b with
  | nil => exact absurd (.inl rfl) h
  | cons e b ih =>
    cases e with
    | got p j =>
      rw [List.cons_append, Held, not_or] at h
      exact List.mem_cons_of_mem _ (ih h.2)
    | freed j =>
      by_cases hj : j = i
      · rw [hj]
        exact List.mem_cons_self
      · refine List.mem_cons_of_mem _ (ih fun hheld => h ?_)
        exact ⟨hj, hheld⟩

variable {ev : List Event} {p : Nat}

theorem Separated.got (h : Separated ev) (hheld : ¬ Held ev i) : Separated (.got p i :: ev) := by
  intro a b c p' q i' heq
  cases a with
  | nil =>
    injection heq with he htail
    injection he with _ hi
    subst hi
    rw [htail] at hheld
    exact freed_mem_of_not_held hheld
  | cons e a =>
    injection heq with _ htail
    exact h a b c p' q i' htail

theorem Separated.freed (h : Separated ev) : Separated (.freed i :: ev) := by
  intro a b c p' q i' heq
  cases a with
  | nil =>
    injection heq with he _
    cases he
  | cons e a =>
    injection heq with _ htail
    exact h a b c p' q i' htail

/-- The handlers say who holds what. -/
structure EventInv (s : State) (ev : List Event) : Prop where
  held : ∀ irq, (s.desc irq).action ≠ none ↔ Held ev irq
  separated : Separated ev

variable {s : State} {irq : Nat}

theorem EventInv.install {r : Request} (h : EventInv s ev) (hinv : Inv s)
    (hpc : s.pc p = .install irq r) : EventInv (s.advance p) (.got p irq :: ev) := by
  have hhandler := hinv.handler p
  rw [hpc] at hhandler
  have hfree : ¬ Held ev irq := by
    rw [← h.held irq, not_not]
    exact (hinv.installs p irq ⟨r, hpc⟩).1
  rw [State.advance, hpc]
  refine ⟨fun i => ?_, h.separated.got hfree⟩
  change (update s.desc irq r.desc i).action ≠ none ↔ irq = i ∨ Held ev i
  by_cases hi : i = irq
  · rw [hi, update_self]
    exact ⟨fun _ => .inl rfl, fun _ => hhandler⟩
  · rw [update_of_ne hi, h.held i]
    exact ⟨.inr, fun h' => h'.resolve_left (Ne.symm hi)⟩

theorem EventInv.free (h : EventInv s ev) (hlt : irq < nrIrqs) :
    EventInv (s.begin (.free p irq)) (.freed irq :: ev) := by
  rw [State.begin, if_pos hlt]
  refine ⟨fun i => ?_, h.separated.freed⟩
  change (update s.desc irq .empty i).action ≠ none ↔ irq ≠ i ∧ Held ev i
  by_cases hi : i = irq
  · rw [hi, update_self]
    exact ⟨fun h' => absurd rfl h', fun h' => absurd rfl h'.1⟩
  · rw [update_of_ne hi, h.held i]
    exact ⟨fun h' => ⟨Ne.symm hi, h'⟩, fun h' => h'.2⟩

/-- An advance moves its own pCPU, and only an installation writes a descriptor. -/
theorem advance_frame (s : State) (p : Nat) : (∀ q, q ≠ p → (s.advance p).pc q = s.pc q) ∧
    ((∀ irq r, s.pc p ≠ .install irq r) → (s.advance p).desc = s.desc) := by
  have hgoto : ∀ {t : State} {pc : Pc} {X : Prop}, t.pc = s.pc → t.desc = s.desc →
      (∀ q, q ≠ p → (t.goto p pc).pc q = s.pc q) ∧ (X → (t.goto p pc).desc = s.desc) :=
    fun hpc hdesc => ⟨fun q hq => (update_of_ne hq ..).trans (congrFun hpc q), fun _ => hdesc⟩
  rw [State.advance]
  cases s.pc p with
  | idle => exact ⟨fun _ _ => rfl, fun _ => rfl⟩
  | archRequest irq r =>
    obtain ⟨-, -, hdesc, hpcs⟩ := archRequestIrq_frame s irq
    exact hgoto hpcs hdesc
  | check irq r | reserve next count =>
    dsimp only
    split <;> exact hgoto rfl rfl
  | install irq r => exact ⟨fun q hq => update_of_ne hq .., fun hno => absurd rfl (hno irq r)⟩
  | archFree irq => exact hgoto rfl rfl
  | freeNum irq =>
    dsimp only
    rw [State.freeIrqNum]
    split <;> exact hgoto rfl rfl
  | register name n =>
    dsimp only
    rw [State.registerDomain]
    split <;> exact hgoto rfl rfl

variable {a : Label}

/-- Every step but the two that events are noted for leaves the descriptors alone. -/
theorem step_desc (ev : List Event) : (noteEvent a s ev = ev ∧ (s.step a).desc = s.desc) ∨
    (∃ p irq r, a = .advance p ∧ s.pc p = .install irq r ∧ noteEvent a s ev = .got p irq :: ev) ∨
    (∃ p irq, a = .free p irq ∧ irq < nrIrqs ∧ s.step a = s.begin a ∧
      noteEvent a s ev = .freed irq :: ev) := by
  cases a with
  | request p reqIrq r | register p name n =>
    refine .inl ⟨rfl, ?_⟩
    rw [State.step]
    split
    · rfl
    · rw [State.begin]
      split <;> rfl
  | free p irq =>
    by_cases hidle : s.pc p = .idle
    · have hstep : s.step (.free p irq) = s.begin (.free p irq) := by
        rw [State.step, if_neg (fun h => h.2 hidle)]
      by_cases hlt : irq < nrIrqs
      · exact .inr (.inr ⟨p, irq, rfl, hlt, hstep, by rw [noteEvent, if_pos ⟨hidle, hlt⟩]⟩)
      · refine .inl ⟨by rw [noteEvent, if_neg (fun h => hlt h.2)], ?_⟩
        rw [hstep, State.begin, if_neg hlt]
    · refine .inl ⟨by rw [noteEvent, if_neg (fun h => hidle h.1)], ?_⟩
      rw [State.step, if_pos ⟨rfl, hidle⟩]
  | advance p =>
    cases hpc : s.pc p with
    | install irq r => exact .inr (.inl ⟨p, irq, r, rfl, hpc, by rw [noteEvent, hpc]⟩)
    | _ =>
      refine .inl ⟨by rw [noteEvent, hpc], (advance_frame s p).2 fun irq r hpc' => ?_⟩
      cases hpc.symm.trans hpc'

theorem EventInv.step (h : EventInv s ev) (hinv : Inv s) :
    EventInv (s.step a) (noteEvent a s ev) := by
  obtain ⟨hev, hdesc⟩ | ⟨p, irq, r, rfl, hpc, hev⟩ | ⟨p, irq, rfl, hlt, hstep, hev⟩ :=
    step_desc (s := s) (a := a) ev
  · rw [hev]
    refine ⟨fun irq => ?_, h.separated⟩
    rw [hdesc]
    exact h.held irq
  · rw [hev]
    exact h.install hinv hpc
  · rw [hev, hstep]
    exact h.free hlt

/-! ## Requests that fail, and automatic allocation -/

theorem Inv.leavesOwners (h : Inv s) (ha : AsksOnly a s) : LeavesOwners a s := by
  have howned : ∀ irq, (s.desc irq).action ≠ none → s.alloc irq = true := by
    intro irq hirq
    by_contra hclear
    rw [Bool.not_eq_true] at hclear
    exact hirq (h.clear irq hclear).1
  cases a with
  | request p reqIrq r =>
    have hstep : s.step (.request p reqIrq r) = s.begin (.request p reqIrq r) := by
      rw [State.step, if_neg (fun h => h.2 ha)]
    rw [LeavesOwners, hstep, State.begin]
    split
    · refine ⟨rfl, fun i hi => ?_⟩
      exact (update_true_of (howned i hi)).trans (howned i hi).symm
    · exact ⟨rfl, fun _ _ => rfl⟩
  | advance p =>
    rw [AsksOnly] at ha
    have hstep : s.step (.advance p) = s.advance p := rfl
    rw [LeavesOwners, hstep, State.advance]
    split at ha
    · next irq r hpc =>
      obtain ⟨halloc, -, hdesc, -⟩ := archRequestIrq_frame s irq
      rw [hpc]
      exact ⟨hdesc, fun i _ => congrFun halloc i⟩
    · next irq r hpc =>
      rw [hpc]
      dsimp only
      split <;> exact ⟨rfl, fun _ _ => rfl⟩
    · cases ha
  | free p irq | register p name n => cases ha

theorem Inv.picksUnreserved (h : Inv s) : PicksUnreserved s := by
  intro irq hpick
  have hfree : s.alloc irq = false := by
    have hfound := List.find?_some hpick
    simpa using hfound
  by_contra hrsvd
  rw [Bool.not_eq_false] at hrsvd
  rw [h.rsvd irq hrsvd] at hfree
  cases hfree

/-! ## Ownership -/

/-- In every run whose steps are orderly: two successful requests for a number have a free
between them, a request that fails leaves the owner's handler, private data and bit alone,
and what is reserved is not handed out. -/
theorem irq_owned_once {tr : List Label} {x : State × List Event}
    (hrun : GuardedRun (Noted Step noteEvent) (fun a x => Orderly a x.1) (.start, []) tr x) :
    Separated x.2 ∧ (∀ a, AsksOnly a x.1 → LeavesOwners a x.1) ∧ PicksUnreserved x.1 := by
  have hinv : Inv x.1 ∧ EventInv x.1 x.2 := by
    induction hrun with
    | nil =>
      refine ⟨inv_start, fun irq => ⟨fun h => absurd rfl h, fun h => h.elim⟩, ?_⟩
      intro a b c p q irq heq
      cases a <;> cases heq
    | cons _ hok hstep ih =>
      obtain ⟨hinv, hev⟩ := ih
      rw [hstep.1, hstep.2]
      exact ⟨hinv.step hok, hev.step hinv⟩
  exact ⟨hinv.2.separated, fun a ha => hinv.1.leavesOwners ha, hinv.1.picksUnreserved⟩

def handler (n : Nat) : Request := ⟨some n, n, 0⟩

/-- The step together with its note. -/
def notedStep (a : Label) (x : State × List Event) : State × List Event :=
  (x.1.step a, noteEvent a x.1 x.2)

theorem notedStep_spec (a : Label) (x : State × List Event) :
    Noted Step noteEvent a x (notedStep a x) := ⟨rfl, rfl⟩

/-- pCPU 0 takes a number, which pCPU 1 asks for in vain until it is given back. -/
def turn : List Label :=
  [.request 0 (some 5) (handler 1), .advance 0, .advance 0, .advance 0,
    .request 1 (some 5) (handler 2), .advance 1, .advance 1,
    .free 0 5, .advance 0, .advance 0,
    .request 1 (some 5) (handler 2), .advance 1, .advance 1, .advance 1]

def afterTurns (n : Nat) : State × List Event :=
  (turn.take n).foldl (fun x a => notedStep a x) (.start, [])

theorem step_pc_of_ne (hq : q ≠ a.party) : (s.step a).pc q = s.pc q := by
  have hgoto : ∀ (t : State) (pc : Pc), (t.goto a.party pc).pc q = t.pc q :=
    fun t pc => update_of_ne hq ..
  rw [State.step]
  split
  · rfl
  cases a with
  | request p reqIrq r | free p irq | register p name n =>
    rw [State.begin]
    split
    · exact hgoto _ _
    · rfl
  | advance p => exact (advance_frame s p).1 q hq

theorem away_idle (labels : List Label) (h : ∀ a ∈ labels, q ≠ a.party) (x : State × List Event)
    (hx : x.1.pc q = .idle) : (labels.foldl (fun x a => notedStep a x) x).1.pc q = .idle := by
  induction labels generalizing x with
  | nil => exact hx
  | cons a labels ih =>
    have ha : q ≠ a.party := h a List.mem_cons_self
    exact ih (fun b hb => h b (List.mem_cons_of_mem _ hb)) _ ((step_pc_of_ne ha).trans hx)

/-- If the other one of the two is in no call, nobody else is. -/
theorem others_idle (n : Nat) {p : Nat} (hp : p ≤ 1) (h : (afterTurns n).1.pc (1 - p) = .idle)
    (hq : q ≠ p) : (afterTurns n).1.pc q = .idle := by
  by_cases hle : q ≤ 1
  · obtain rfl : q = 1 - p := by omega
    exact h
  · refine away_idle _ (fun a ha => ?_) _ rfl
    have hparty : ∀ a ∈ turn, a.party ≤ 1 := by decide
    have := hparty a (List.mem_of_mem_take ha)
    omega

theorem turn_orderly : Meets notedStep (fun a x => Orderly a x.1) (.start, []) turn := by
  have hasks : ∀ n, (handler n).action ≠ none := fun n => by simp [handler]
  have hlooks : ∀ n p, p ≤ 1 → (afterTurns n).1.pc (1 - p) = .idle →
      ∀ q, q ≠ p → ¬ ((afterTurns n).1.pc q).Installs 5 := by
    intro n p hp h q hq
    rw [others_idle n hp h hq]
    exact (Pc.other rfl).not_installs 5
  refine ⟨hasks 1, trivial, hlooks 2 0 (by decide) rfl, trivial,
    hasks 2, trivial, hlooks 6 1 (by decide) rfl, trivial, trivial, .inr ⟨rfl, fun q hq => ?_⟩,
    hasks 2, trivial, hlooks 12 1 (by decide) rfl, trivial, trivial⟩
  have hidle : (afterTurns 9).1.pc q = .idle := others_idle 9 (by decide) rfl hq
  exact hidle ▸ (Pc.other rfl).2 5

theorem irq_owned_once_turn : ∃ x,
    GuardedRun (Noted Step noteEvent) (fun a x => Orderly a x.1) (.start, []) turn.reverse x ∧
      x.2 = [.got 1 5, .freed 5, .got 0 5] ∧ Separated x.2 := by
  have hrun := GuardedRun.of_meets notedStep_spec turn_orderly
  have hev : (turn.foldl (fun x a => notedStep a x) (.start, [])).2 =
      [.got 1 5, .freed 5, .got 0 5] := by
    decide +kernel
  exact ⟨_, hrun, hev, (irq_owned_once hrun).1⟩

/-- Two pCPUs ask for one number, and both look before either writes. -/
def race : List Label :=
  [.request 0 (some 5) (handler 1), .request 1 (some 5) (handler 2), .advance 0, .advance 1,
    .advance 0, .advance 1, .advance 0, .advance 1]

/-- Both succeed. -/
theorem irq_owned_twice : ∃ x,
    GuardedRun (Noted Step noteEvent) (fun _ _ => True) (.start, []) race.reverse x ∧
      x.2 = [.got 1 5, .got 0 5] ∧ ¬ Separated x.2 := by
  have hev : (race.foldl (fun x a => notedStep a x) (.start, [])).2 = [.got 1 5, .got 0 5] := by
    decide +kernel
  refine ⟨_, GuardedRun.of_meets notedStep_spec ?_, hev, ?_⟩
  · exact ⟨trivial, trivial, trivial, trivial, trivial, trivial, trivial, trivial, trivial⟩
  · intro h
    exact absurd (h [] [] [] 1 0 5 rfl) (by decide)

end Sima.Irq
