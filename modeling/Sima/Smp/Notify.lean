import Mathlib.Logic.Function.Basic
import Sima.Lib.Trace

/-!
# Functions called on other physical CPUs

A call takes the one global mask with a compare-and-exchange, writes its function and
its data into a slot of every target, and sends each an interrupt; a target that finds
its bit set runs what is in its slot and clears the bit. The call returns when the mask
is zero. With a timeout it may also give up: it clears the slots and the mask, whoever
may have them by then.

All of this is plain loads and stores of shared words, so the model interleaves them one
by one. A caller and a handler are programs with a place each, on every physical CPU,
and one step of either is what it does up to and including its next access to the mask
or to a slot. The handler runs whenever its interrupt has been sent, which is not only
done by calls — a request to reschedule sends the same one.

Function and data are opaque to the code. A pointer in a slot is therefore the call that
stored it, and what the handler runs is the function of one call on the data of one
call; nothing in the code makes these the same.
-/

namespace Sima.Smp

open Lib
open Function (update)

abbrev Pcpu := Nat

abbrev CallId := Nat

/-- What does not change: the number of CPUs, and the arguments of every call. -/
structure SmpConfig where
  maxPcpuNum : Nat
  le_64 : maxPcpuNum ≤ 64
  mask : CallId → BitVec 64
  /-- Zero for `smp_call_function`, which waits without a limit. -/
  timeoutUs : CallId → Nat

/-- The lowest bit that is set, or `INVALID_BIT_INDEX`. -/
def ffs64 (w : BitVec 64) : Nat := ((List.range 64).find? w.getLsbD).getD 0xffff

def bitmapClear (nr : Nat) (w : BitVec 64) : BitVec 64 := w &&& ~~~ BitVec.twoPow 64 nr

/-- `struct smp_call_info_data`. -/
structure SmpCallInfo where
  func : Option CallId
  data : Option CallId
  deriving DecidableEq

/-- Where `smp_call_function_common` is; `mask` is its local variable. -/
inductive Caller where
  | idle
  | take (c : CallId)
  | next (c : CallId) (mask : BitVec 64)
  | runSelf (c : CallId) (mask : BitVec 64) (p : Pcpu)
  /-- The two halves of `bitmap_clear_non_atomic` on the shared mask. -/
  | readMask (c : CallId) (mask : BitVec 64) (p : Pcpu)
  | writeMask (c : CallId) (mask : BitVec 64) (p : Pcpu) (seen : BitVec 64)
  | putFunc (c : CallId) (mask : BitVec 64) (p : Pcpu)
  | putData (c : CallId) (mask : BitVec 64) (p : Pcpu)
  | kick (c : CallId) (mask : BitVec 64) (p : Pcpu)
  /-- `wait_smp_call_done`, without a timeout and with one. -/
  | sync (c : CallId)
  | poll (c : CallId) (timeoutUs : Nat)
  | verdict (c : CallId)
  /-- `clear_smp_call_info`. -/
  | dropFunc (c : CallId) (mask : BitVec 64)
  | dropData (c : CallId) (mask : BitVec 64) (p : Pcpu)
  deriving DecidableEq

/-- Where `kick_notification` is. -/
inductive Handler where
  | idle
  | check
  | loadFunc
  | loadData (f : CallId)
  | run (f : CallId) (d : Option CallId)
  | clear
  /-- It has called a null pointer. -/
  | fault
  deriving DecidableEq

structure State where
  smpCallMask : BitVec 64
  info : Pcpu → SmpCallInfo
  caller : Pcpu → Caller
  handler : Pcpu → Handler
  /-- The interrupt is pending. -/
  kicked : Pcpu → Bool
  active : Pcpu → Bool
  /-- Calls are numbered as they are made. -/
  nextCall : CallId

namespace State

def start (active : Pcpu → Bool) : State :=
  ⟨0, fun _ => ⟨none, none⟩, fun _ => .idle, fun _ => .idle, fun _ => false, active, 0⟩

section

variable (s : State) (q p : Pcpu)

def setMask (w : BitVec 64) : State := { s with smpCallMask := w }

def setInfo (i : SmpCallInfo) : State :=
  { s with info := update s.info p i }

def setCaller (pc : Caller) : State :=
  { s with caller := update s.caller q pc }

def setHandler (pc : Handler) : State :=
  { s with handler := update s.handler p pc }

def setKicked (b : Bool) : State :=
  { s with kicked := update s.kicked p b }

/-- A call is made on `q`, which is not in one. -/
def invoke : State :=
  if s.caller q = .idle then
    { s.setCaller q (.take s.nextCall) with nextCall := s.nextCall + 1 }
  else s

/-- The next step of `smp_call_function_common` on `q`. -/
def callerStep (cfg : SmpConfig) (s : State) (q : Pcpu) : State :=
  match s.caller q with
  | .idle => s
  | .take c =>
    if s.smpCallMask = 0 then
      (s.setMask (cfg.mask c)).setCaller q (.next c (cfg.mask c))
    else s
  | .next c mask =>
    let p := ffs64 mask
    if p < cfg.maxPcpuNum then
      if p = q then s.setCaller q (.runSelf c (bitmapClear p mask) p)
      else if s.active p then s.setCaller q (.putFunc c (bitmapClear p mask) p)
      else s.setCaller q (.readMask c (bitmapClear p mask) p)
    else if cfg.timeoutUs c = 0 then s.setCaller q (.sync c)
    else s.setCaller q (.poll c (cfg.timeoutUs c))
  | .runSelf c mask p => s.setCaller q (.readMask c mask p)
  | .readMask c mask p => s.setCaller q (.writeMask c mask p s.smpCallMask)
  | .writeMask c mask p seen => (s.setMask (bitmapClear p seen)).setCaller q (.next c mask)
  | .putFunc c mask p =>
    (s.setInfo p { s.info p with func := some c }).setCaller q (.putData c mask p)
  | .putData c mask p =>
    (s.setInfo p { s.info p with data := some c }).setCaller q (.kick c mask p)
  | .kick c mask p => (s.setKicked p true).setCaller q (.next c mask)
  | .sync _ => if s.smpCallMask = 0 then s.setCaller q .idle else s
  | .poll c timeoutUs =>
    if s.smpCallMask ≠ 0 ∧ timeoutUs ≠ 0 then
      s.setCaller q (.poll c (if timeoutUs > 10 then timeoutUs - 10 else 0))
    else s.setCaller q (.verdict c)
  | .verdict c =>
    if s.smpCallMask = 0 then s.setCaller q .idle
    else s.setCaller q (.dropFunc c (cfg.mask c))
  | .dropFunc c mask =>
    let p := ffs64 mask
    if p < cfg.maxPcpuNum then
      (s.setInfo p { s.info p with func := none }).setCaller q (.dropData c mask p)
    else (s.setMask 0).setCaller q .idle
  | .dropData c mask p =>
    (s.setInfo p { s.info p with data := none }).setCaller q (.dropFunc c (bitmapClear p mask))

/-- The next step of `kick_notification` on `p`. -/
def handlerStep : State :=
  match s.handler p with
  | .idle =>
    if s.kicked p then
      (s.setKicked p false).setHandler p (if s.smpCallMask.getLsbD p then .check else .idle)
    else s
  | .check => s.setHandler p (if (s.info p).func = none then .clear else .loadFunc)
  | .loadFunc =>
    match (s.info p).func with
    | some f => s.setHandler p (.loadData f)
    | none => s.setHandler p .fault
  | .loadData f => s.setHandler p (.run f (s.info p).data)
  | .run _ _ => s.setHandler p .clear
  | .clear => (s.setMask (bitmapClear p s.smpCallMask)).setHandler p .idle
  | .fault => s

end

end State

inductive Label where
  | invoke (q : Pcpu)
  | caller (q : Pcpu)
  | handler (p : Pcpu)
  /-- Somebody else sends the interrupt, such as `arch_send_reschedule_request`. -/
  | notify (p : Pcpu)
  | setActive (p : Pcpu) (b : Bool)
  deriving DecidableEq

def Label.pcpu : Label → Pcpu
  | .invoke q | .caller q => q
  | .handler p | .notify p | .setActive p _ => p

def State.step (cfg : SmpConfig) (s : State) : Label → State
  | .invoke q => s.invoke q
  | .caller q => s.callerStep cfg q
  | .handler p => s.handlerStep p
  | .notify p => s.setKicked p true
  | .setActive p b => { s with active := update s.active p b }

def SmpStep (cfg : SmpConfig) (a : Label) (s s' : State) : Prop :=
  a.pcpu < cfg.maxPcpuNum ∧ s' = s.step cfg a

/-! ## What has happened -/

structure History where
  /-- The call that was the last to take the mask. -/
  owner : Option CallId
  taken : CallId → Bool
  /-- The call found the CPU not to be active. -/
  skipped : CallId → Pcpu → Bool
  /-- How often the function of a call has been run to its end, on which data and where. -/
  runs : CallId → Option CallId → Pcpu → Nat
  returned : CallId → Option Bool

namespace History

def start : History :=
  ⟨none, fun _ => false, fun _ _ => false, fun _ _ _ => 0, fun _ => none⟩

def take (h : History) (c : CallId) : History :=
  { h with owner := some c, taken := update h.taken c true }

def skip (h : History) (c : CallId) (p : Pcpu) : History :=
  { h with skipped := update h.skipped c (update (h.skipped c) p true) }

def ran (h : History) (f : CallId) (d : Option CallId) (p : Pcpu) : History :=
  { h with runs := fun f' d' p' =>
      if f' = f ∧ d' = d ∧ p' = p then h.runs f d p + 1 else h.runs f' d' p' }

def ret (h : History) (c : CallId) (b : Bool) : History :=
  { h with returned := update h.returned c (some b) }

end History

def noteHistory (cfg : SmpConfig) (a : Label) (s : State) (h : History) : History :=
  match a with
  | .caller q =>
    match s.caller q with
    | .take c => if s.smpCallMask = 0 then h.take c else h
    | .next c mask =>
      if ffs64 mask < cfg.maxPcpuNum ∧ ffs64 mask ≠ q ∧ s.active (ffs64 mask) = false then
        h.skip c (ffs64 mask)
      else h
    | .runSelf c _ _ => h.ran c (some c) q
    | .sync c | .verdict c => if s.smpCallMask = 0 then h.ret c true else h
    | .dropFunc c mask => if ffs64 mask < cfg.maxPcpuNum then h else h.ret c false
    | _ => h
  | .handler p =>
    match s.handler p with
    | .run f d => h.ran f d p
    | _ => h
  | _ => h

/-! ## Runs without accidents -/

/-- The CPUs that a call has still to see to: their bits are set, but nothing is in their
slots for them. -/
def Caller.todo : Caller → Pcpu → Bool
  | .next _ mask, k | .kick _ mask _, k => mask.getLsbD k
  | .runSelf _ mask p, k | .readMask _ mask p, k | .writeMask _ mask p _, k
  | .putFunc _ mask p, k | .putData _ mask p, k => mask.getLsbD k || k == p
  | _, _ => false

/-- The call is giving up. -/
def Caller.gives : Caller → Bool
  | .dropFunc _ _ | .dropData _ _ _ => true
  | _ => false

/-- What goes well: a handler finds its bit set only when the request has been written
and the call is not giving up, no bit is cleared between the two halves of a non-atomic
clear, and a call gives up only while the mask is its own and no handler is at work. -/
def CleanStep (a : Label) (x : State × History) : Prop :=
  match a with
  | .handler p => x.1.handler p = .idle → x.1.smpCallMask.getLsbD p = true → ∀ q,
      (x.1.caller q).todo p = false ∧ (x.1.caller q).gives = false
  | .caller q =>
    match x.1.caller q with
    | .writeMask _ _ _ seen => x.1.smpCallMask = seen
    | .verdict c => x.1.smpCallMask = 0 ∨ x.2.owner = some c ∧ ∀ p, x.1.handler p = .idle
    | _ => True
  | _ => True

end Sima.Smp
