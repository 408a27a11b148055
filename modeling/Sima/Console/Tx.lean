import Sima.Lib.CString

/-!
# The transmit path of a guest's console

A guest writes its console through a PL011 that is emulated. Every byte goes into a ring
that belongs to the VM, and the host drains the ring to the serial port — as long as the
console is bound to it. When the ring is nearly full the transmit path is blocked: the
flag register then says that the transmit FIFO is full, and the transmit interrupt is
taken back. It opens again when the ring has been drained below a lower mark.

The ring has a lock; the registers of the PL011 have none. The model makes one step of
every section under the lock, and one of every access to the registers between two of
them, so that the steps of vCPUs and of the host can be interleaved as they like.

Lengths that only the statistics read are left out, and so is what the drain adds to the
bytes on their way to the serial port.
-/

namespace Sima.Console

open Lib

def ringbufSize : Nat := 4096

def ringbufCapacity : Nat := ringbufSize - 1

def txBackpressureHighWater : Nat := ringbufCapacity * 7 / 8

def txBackpressureLowWater : Nat := ringbufCapacity * 3 / 4

def maxVcpusPerVm : Nat := 8

/-! ## The ring -/

/-- `struct vm_console_ringbuf`, with the flag of `vm_console_tx_blocked` that its lock
protects. The two indices only grow, modulo the width of the word. -/
structure RingBuf where
  cons : BitVec 32
  prod : BitVec 32
  buf : Nat → Byte
  droppedBytes : Nat
  draining : Bool
  vuartBound : Bool
  txBlocked : Bool

namespace RingBuf

def empty : RingBuf := ⟨0, 0, fun _ => 0, 0, false, false, false⟩

section

variable (rb : RingBuf)

/-- `rb->prod - rb->cons`. -/
def pending : Nat := (rb.prod - rb.cons).toNat

/-- `console_ring_queued`. -/
def queued : Nat :=
  if rb.pending > ringbufCapacity then ringbufCapacity else rb.pending

/-- `console_vm_tx_update_blocked`. -/
def txUpdateBlocked (queued : Nat) : RingBuf :=
  { rb with
    txBlocked :=
      if rb.vuartBound then
        if queued ≥ txBackpressureHighWater then true
        else if queued ≤ txBackpressureLowWater then false
        else rb.txBlocked
      else false }

/-- `console_vm_tx_can_accept`. -/
def txCanAccept : RingBuf × Bool :=
  let rb := rb.txUpdateBlocked rb.queued
  (rb, !rb.txBlocked)

def store (ch : Byte) : RingBuf :=
  { rb with
    buf := Function.update rb.buf (rb.prod.toNat % ringbufSize) ch
    prod := rb.prod + 1 }

/-- A ring that is too full drops its oldest bytes. -/
def dropOldest : RingBuf :=
  if rb.pending > ringbufCapacity then
    { rb with
      droppedBytes := rb.droppedBytes + (rb.pending - ringbufCapacity)
      cons := rb.prod - BitVec.ofNat 32 ringbufCapacity }
  else rb

/-- `console_vm_vuart_receive`. -/
def vuartReceive (ch : Byte) : RingBuf :=
  let rb := (rb.store ch).dropOldest
  rb.txUpdateBlocked rb.pending

/-- `console_vm_vuart_bind`. -/
def bind : RingBuf :=
  let rb := { rb with vuartBound := true }
  rb.txUpdateBlocked rb.queued

/-- `console_vm_vuart_unbind` up to the end of its section; the flag says whether the
transmit path was blocked. -/
def unbind : RingBuf × Bool :=
  ({ rb with vuartBound := false, txBlocked := false }, rb.txBlocked)

/-- `console_vm_ring_drain_begin`. -/
def drainBegin : RingBuf × Bool :=
  if !rb.draining && rb.vuartBound then ({ rb with draining := true }, true) else (rb, false)

/-- `console_vm_ring_budget_from_queued`. -/
def drainBudget (queued : Nat) (inputPending : Bool) : Nat :=
  let budget := if queued ≥ 2048 then 2048 else 512
  if inputPending && decide (budget > 256) then 256
  else if queued < 2048 ∧ budget > 512 then 512
  else budget

/-- `console_vm_ring_claim`. -/
def claim (len : Nat) : RingBuf × List Byte :=
  let rb :=
    if rb.pending > ringbufCapacity then
      { rb with cons := rb.prod - BitVec.ofNat 32 ringbufCapacity }
    else rb
  let count := min rb.pending len
  ({ rb with cons := rb.cons + BitVec.ofNat 32 count },
    (List.range count).map fun i => rb.buf ((rb.cons.toNat + i) % ringbufSize))

def drainEnd : RingBuf := { rb with draining := false }

/-- `console_vm_ring_release_tx_backpressure`; the flag says that the path has opened. -/
def releaseTxBackpressure : RingBuf × Bool :=
  let rb' := rb.txUpdateBlocked rb.queued
  (rb', rb.txBlocked && !rb'.txBlocked)

end

end RingBuf

/-! ## The registers -/

def intTx : BitVec 32 := 0x20

def intRxAny : BitVec 32 := 0x50

/-- The transmit bit of a register. -/
def tx (r : BitVec 32) : Bool := r &&& intTx != 0

structure Vpl011 where
  imsc : BitVec 32
  ris : BitVec 32
  irqAsserted : Bool

namespace Vpl011

/-- The part of `vpl011_refresh_tx_state` that follows the question. -/
def refreshTxState (vu : Vpl011) (accept : Bool) : Vpl011 :=
  if accept then { vu with ris := vu.ris ||| intTx } else { vu with ris := vu.ris &&& ~~~intTx }

/-- `vpl011_pending_state`. -/
def pendingState (vu : Vpl011) (rxPending : Bool) : BitVec 32 :=
  vu.ris ||| (if rxPending then intRxAny else 0)

end Vpl011

/-! ## Operations in progress -/

/-- What the transmit state is refreshed for. -/
inductive Refresh where
  /-- `vpl011_push_tx`, with the old raw status. -/
  | push (oldRis : BitVec 32)
  /-- `vpl011_set_imsc`. -/
  | imsc
  /-- `console_vm_tx_space_changed`, with the old raw status. -/
  | space (oldRis : BitVec 32)
  deriving DecidableEq

/-- Where an operation stands: what it does next. -/
inductive Pc where
  | idle
  /-- `console_vm_tx_put`. -/
  | put (oldRis : BitVec 32) (ch : Byte)
  /-- `console_vm_tx_can_accept`, called by `vpl011_refresh_tx_state`. -/
  | refresh (k : Refresh)
  /-- The raw status is written. -/
  | settle (accept : Bool) (k : Refresh)
  /-- The raw status is compared with the old one. -/
  | compare (k : Refresh)
  | updateIrq (kickAsserted : Bool)
  | drainBudget (inputPending : Bool)
  | drainLoop (budget : Nat)
  | drainEnd
  /-- `console_vm_ring_release_tx_backpressure`. -/
  | drainRelease
  /-- `console_vm_tx_space_changed`. -/
  | spaceChanged
  deriving DecidableEq

inductive Party where
  | vcpu (id : Nat)
  | host (id : Nat)
  deriving DecidableEq

/-- One VM. `line` is the level of its UART interrupt, as the vGIC was told last. -/
structure State where
  rb : RingBuf
  vu : Vpl011
  rxPending : Bool
  line : Bool
  poweroff : Bool
  pc : Party → Pc

namespace State

def start : State := ⟨.empty, ⟨0, 0, false⟩, false, false, false, fun _ => .idle⟩

def goto (s : State) (p : Party) (pc : Pc) : State :=
  { s with pc := Function.update s.pc p pc }

variable {p : Party} {pc : Pc} {s : State}

@[simp] theorem goto_self : (s.goto p pc).pc p = pc := Function.update_self ..

theorem goto_of_ne {q : Party} (h : q ≠ p) :
    (s.goto p pc).pc q = s.pc q := Function.update_of_ne h ..

@[simp] theorem goto_rb : (s.goto p pc).rb = s.rb := rfl

/-- `vpl011_update_irq`. A line that is asserted already is triggered again only on request;
otherwise the list register of the current vCPU is brought up to date. -/
def vpl011UpdateIrq (s : State) (kickAsserted : Bool) : State :=
  let assert := s.vu.pendingState s.rxPending &&& s.vu.imsc != 0
  if assert && !s.vu.irqAsserted then
    { s with line := true, vu := { s.vu with irqAsserted := true } }
  else if assert && kickAsserted then { s with line := true }
  else if assert then s
  else if s.vu.irqAsserted then { s with line := false, vu := { s.vu with irqAsserted := false } }
  else s

/-- The next step of the operation that is in progress. -/
def advance (s : State) (p : Party) : State :=
  match s.pc p with
  | .idle => s
  | .put oldRis ch => { s with rb := s.rb.vuartReceive ch }.goto p (.refresh (.push oldRis))
  | .refresh k => { s with rb := s.rb.txCanAccept.1 }.goto p (.settle s.rb.txCanAccept.2 k)
  | .settle accept k => { s with vu := s.vu.refreshTxState accept }.goto p (.compare k)
  | .compare (.push oldRis) =>
    if (tx oldRis != tx s.vu.ris) && tx s.vu.imsc then s.goto p (.updateIrq false)
    else s.goto p .idle
  | .compare .imsc => s.goto p (.updateIrq false)
  | .compare (.space oldRis) =>
    if tx oldRis != tx s.vu.ris then s.goto p (.updateIrq true) else s.goto p .idle
  | .updateIrq kickAsserted => (s.vpl011UpdateIrq kickAsserted).goto p .idle
  | .drainBudget inputPending =>
    s.goto p (.drainLoop (RingBuf.drainBudget s.rb.queued inputPending))
  | .drainLoop budget =>
    let chunk := min budget 1024
    if chunk = 0 then s.goto p .drainEnd
    else
      let (rb, bytes) := s.rb.claim chunk
      let s := { s with rb := rb }
      if bytes.length = chunk ∧ budget - bytes.length > 0 then
        s.goto p (.drainLoop (budget - bytes.length))
      else s.goto p .drainEnd
  | .drainEnd => { s with rb := s.rb.drainEnd }.goto p .drainRelease
  | .drainRelease =>
    { s with rb := s.rb.releaseTxBackpressure.1 }.goto p
      (if s.rb.releaseTxBackpressure.2 then .spaceChanged else .idle)
  | .spaceChanged =>
    if s.poweroff then s.goto p .idle else s.goto p (.refresh (.space s.vu.ris))

end State

/-! ## What happens -/

inductive Label where
  /-- The guest reads FR. -/
  | readFr (v : Nat)
  /-- The guest writes DR. -/
  | writeDr (v : Nat) (ch : Byte)
  | writeImsc (v : Nat) (value : BitVec 32)
  | writeIcr (v : Nat) (value : BitVec 32)
  /-- Any other access that ends in `vpl011_update_irq`. -/
  | access (v : Nat)
  /-- The receive FIFO becomes empty or not empty. -/
  | rx (pending : Bool)
  /-- `vpl011_notify_rx`. -/
  | notifyRx (h : Nat)
  /-- `console_vm_ring_drain_internal`. -/
  | drain (h : Nat) (inputPending : Bool)
  | bind (h : Nat)
  | unbind (h : Nat)
  | powerOff
  /-- An operation in progress goes on. -/
  | advance (p : Party)

/-- The party whose operation a label starts. -/
def Label.starts : Label → Option Party
  | .readFr v | .writeDr v _ | .writeImsc v _ | .writeIcr v _ | .access v => some (.vcpu v)
  | .notifyRx h | .drain h _ | .bind h | .unbind h => some (.host h)
  | .rx _ | .powerOff | .advance _ => none

namespace State

/-- The party that starts an operation has none in progress, and the VM has that vCPU. -/
def canStart (s : State) : Party → Bool
  | .vcpu v => decide (v < maxVcpusPerVm) && decide (s.pc (.vcpu v) = .idle)
  | .host h => decide (s.pc (.host h) = .idle)

def begin (s : State) : Label → State
  | .readFr _ => { s with rb := s.rb.txCanAccept.1 }
  | .writeDr v ch => s.goto (.vcpu v) (.put s.vu.ris ch)
  | .writeImsc v value =>
    { s with vu := { s.vu with imsc := value } }.goto (.vcpu v)
      (if !tx s.vu.imsc && tx value then .refresh .imsc else .updateIrq false)
  | .writeIcr v value =>
    { s with vu := { s.vu with ris := s.vu.ris &&& ~~~value } }.goto (.vcpu v) (.updateIrq false)
  | .access v => s.goto (.vcpu v) (.updateIrq false)
  | .notifyRx h => s.goto (.host h) (.updateIrq true)
  | .drain h inputPending =>
    { s with rb := s.rb.drainBegin.1 }.goto (.host h)
      (if s.rb.drainBegin.2 then .drainBudget inputPending else .idle)
  | .bind _ => { s with rb := s.rb.bind }
  | .unbind h =>
    { s with rb := s.rb.unbind.1 }.goto (.host h) (if s.rb.unbind.2 then .spaceChanged else .idle)
  | .rx pending => { s with rxPending := pending }
  | .powerOff => { s with poweroff := true }
  | .advance p => s.advance p

def step (s : State) (a : Label) : State :=
  match a.starts with
  | some p => if s.canStart p then s.begin a else s
  | none => s.begin a

end State

def Step (a : Label) (s s' : State) : Prop := s' = s.step a

end Sima.Console
