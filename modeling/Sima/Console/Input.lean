import Mathlib.Data.List.Chain
import Sima.Lib.CString
import Sima.Lib.Trace

/-!
# Host input reaches the VM it was typed for

The host has one serial port. What is read from it while a VM owns the console is kept in
one backlog for all VMs, and fed from there into the receive FIFO of a VM: by the timer,
and by the guest itself when it has read a byte. The backlog is tagged with the VM that it
is for, and emptied wherever an entry point finds another tag than the VM it works for.

Every byte of the model carries the VM that owned the console when it was read. The
program does not look at it. What has to be kept along every run is that the backlog only
holds bytes that were read for the VM of its tag — every switch of the console, by a
command, by the switch key or because the VM is gone, leaves the tag behind, and that is
what the next entry point notices.

The two indices of the backlog only grow; the model lets them grow without end.
-/

namespace Sima.Console

open Lib

def inputBacklogSize : Nat := 64

def inputBacklogCapacity : Nat := inputBacklogSize - 1

def rxBudget : Nat := 32

def rxLowWatermark : Nat := 1

def inputCollectBudget : Nat := 64

def guestConsoleToHvSwitchKey : Byte := 0x4

/-- What `serial_getc` returns when there is nothing to read. -/
def noChar : Byte := 0xff

def carriageReturn : Byte := 0x0d

def invalidVmid : Nat := 0xffff

def maxVmNum : Nat := 16

/-- A byte and the VM that owned the console when it was read. -/
structure Typed where
  ch : Byte
  owner : Nat
  deriving DecidableEq

/-- What a guest finds in its receive FIFO. -/
inductive Received where
  | host (byte : Typed)
  /-- `console_vm_inject_cpr_reply`. -/
  | reply (ch : Byte)
  deriving DecidableEq

structure Vuart where
  paused : Bool
  poweroff : Bool
  active : Bool
  rxfifo : List Received

structure InputState where
  consoleVmid : Nat
  backlog : Nat → Typed
  cons : Nat
  prod : Nat
  guestBudget : Nat
  inputVmid : Nat
  lastEnter : Bool
  vuart : Nat → Vuart

namespace InputState

def start : InputState :=
  { consoleVmid := invalidVmid
    backlog := fun _ => ⟨0, invalidVmid⟩
    cons := 0
    prod := 0
    guestBudget := 0
    inputVmid := invalidVmid
    lastEnter := false
    vuart := fun _ => ⟨false, true, false, []⟩ }

section

variable (s : InputState) (vmid : Nat)

def setVuart (vu : Vuart) : InputState :=
  { s with vuart := Function.update s.vuart vmid vu }

/-! ## The backlog -/

/-- `console_vm_input_reset`. -/
def inputReset : InputState :=
  { s with inputVmid := vmid, cons := 0, prod := 0, guestBudget := 0, lastEnter := false }

/-- `console_vm_input_sync`. -/
def inputSync : InputState :=
  if s.inputVmid ≠ vmid then s.inputReset vmid else s

def inputEmpty : Bool := s.prod == s.cons

/-- The oldest byte makes room in a full backlog. -/
def makeRoom : InputState :=
  if s.prod - s.cons ≥ inputBacklogCapacity then { s with cons := s.cons + 1 } else s

def storeByte (byte : Typed) : InputState :=
  if s.prod - s.cons < inputBacklogCapacity then
    { s with
      backlog := Function.update s.backlog (s.prod % inputBacklogSize) byte
      prod := s.prod + 1
      lastEnter := byte.ch == carriageReturn }
  else s

/-- `console_vm_input_put`: a line end that follows a line end is not stored. -/
def inputPut (byte : Typed) : InputState :=
  if byte.ch = carriageReturn ∧ s.lastEnter then s else s.makeRoom.storeByte byte

def inputPeek : Typed := s.backlog (s.cons % inputBacklogSize)

/-- `console_vm_input_drop_one`. -/
def inputDropOne : InputState :=
  { s with
    cons := s.cons + 1
    lastEnter := if s.inputPeek.ch ≠ carriageReturn then false else s.lastEnter }

/-! ## From the serial port -/

/-- The loop of `console_vm_input_collect` over what the serial port has. -/
def collectLoop : Nat → List Byte → InputState → InputState
  | 0, _, s => s
  | _ + 1, [], s => if s.inputEmpty then { s with lastEnter := false } else s
  | budget + 1, ch :: port, s =>
    if ch = noChar then if s.inputEmpty then { s with lastEnter := false } else s
    else if ch = guestConsoleToHvSwitchKey then
      { s with consoleVmid := invalidVmid }.inputReset invalidVmid
    else collectLoop budget port (s.inputPut ⟨ch, s.consoleVmid⟩)

def inputCollect (targetVmid : Nat) (port : List Byte) : InputState :=
  collectLoop inputCollectBudget port (s.inputSync targetVmid)

/-! ## To the guest -/

/-- `fifo_isfull`. -/
def rxFull (vu : Vuart) : Bool := decide (256 - vu.rxfifo.length < 64)

/-- `vuart_try_putchar`. -/
def tryPutchar (byte : Received) : InputState × Bool :=
  if rxFull (s.vuart vmid) then (s, false)
  else
    let vu := s.vuart vmid
    (s.setVuart vmid { vu with rxfifo := vu.rxfifo ++ [byte] }, true)

/-- `console_vm_input_push_to_guest`. -/
def pushToGuest (targetVmid : Nat) : InputState × Bool :=
  if s.consoleVmid = targetVmid ∧ s.guestBudget > 0 then
    let s := s.inputSync targetVmid
    if !s.inputEmpty && decide ((s.vuart targetVmid).rxfifo.length < rxLowWatermark) then
      match s.tryPutchar targetVmid (.host s.inputPeek) with
      | (s, true) => ({ s.inputDropOne with guestBudget := s.guestBudget - 1 }, true)
      | (s, false) => (s, false)
    else (s, false)
  else (s, false)

/-- The loop of `vuart_console_rx_chars`; every round uses up some of the budget. -/
def pushLoop : Nat → Nat → InputState → InputState
  | 0, _, s => s
  | fuel + 1, vmid, s =>
    match s.pushToGuest vmid with
    | (s, true) => pushLoop fuel vmid s
    | (s, false) => s

/-- `vuart_console_rx_chars`, without the notification. -/
def rxChars (vu : Option Nat) (port : List Byte) : InputState :=
  let s := s.inputCollect s.consoleVmid port
  let s := { s with guestBudget := rxBudget }
  match vu with
  | some vmid => pushLoop (rxBudget + 1) vmid s
  | none => s

/-- `vuart_console_active`. -/
def consoleActive : InputState × Option Nat :=
  if s.consoleVmid < maxVmNum then
    if !(s.vuart s.consoleVmid).paused && !(s.vuart s.consoleVmid).poweroff then
      (s, if (s.vuart s.consoleVmid).active then some s.consoleVmid else none)
    else ({ s with consoleVmid := invalidVmid }, none)
  else (s, none)

/-- `console_vm_kick`, without the drain of the guest's output. -/
def kick (port : List Byte) : InputState :=
  if s.consoleVmid ≠ invalidVmid then
    let s := s.inputSync s.consoleVmid
    let (s, vu) := s.consoleActive
    match vu with
    | some vmid => s.rxChars (some vmid) port
    | none =>
      let s := s.rxChars none port
      s.inputReset s.consoleVmid
  else s

/-! ## What else happens -/

/-- `shell_to_vm_console`. -/
def vsh : InputState :=
  let vmid := if vmid ≥ maxVmNum then 0 else vmid
  if (s.vuart vmid).poweroff then s
  else if !(s.vuart vmid).active then s
  else { s with consoleVmid := vmid }

/-- The guest reads DR: a byte leaves the FIFO, and another one is asked for. -/
def readDr : InputState :=
  let vu := s.vuart vmid
  ((s.setVuart vmid { vu with rxfifo := vu.rxfifo.tail }).pushToGuest vmid).1

/-- `console_vm_inject_cpr_reply`: as much of the reply as the FIFO takes. -/
def injectReply (text : List Byte) : InputState :=
  text.foldl (fun s ch => (s.tryPutchar vmid (.reply ch)).1) s

end

end InputState

inductive InputLabel where
  | kick (port : List Byte)
  | vsh (vmid : Nat)
  | readDr (vmid : Nat)
  | injectReply (vmid : Nat) (text : List Byte)
  /-- A VM is paused, resumed, powered off or its console is set up. -/
  | setVm (vmid : Nat) (paused poweroff active : Bool)
  /-- `init_console_vuart` empties the FIFO. -/
  | initVuart (vmid : Nat)

def InputState.step (s : InputState) : InputLabel → InputState
  | .kick port => s.kick port
  | .vsh vmid => s.vsh vmid
  | .readDr vmid => s.readDr vmid
  | .injectReply vmid text => s.injectReply vmid text
  | .setVm vmid paused poweroff active =>
    s.setVuart vmid ⟨paused, poweroff, active, (s.vuart vmid).rxfifo⟩
  | .initVuart vmid => s.setVuart vmid { s.vuart vmid with rxfifo := [] }

def InputStep (a : InputLabel) (s s' : InputState) : Prop := s' = s.step a

/-! ## The tag of the backlog -/

/-- The bytes in the backlog were read for the VM of the tag, and those in a FIFO for the VM
that it belongs to. -/
structure Isolated (s : InputState) : Prop where
  order : s.cons ≤ s.prod
  room : s.prod - s.cons ≤ inputBacklogCapacity
  backlog : ∀ k, s.cons ≤ k → k < s.prod → (s.backlog (k % inputBacklogSize)).owner = s.inputVmid
  fifo : ∀ v byte, Received.host byte ∈ (s.vuart v).rxfifo → byte.owner = v

namespace Isolated

variable {s : InputState}

theorem start : Isolated .start :=
  ⟨le_rfl, Nat.zero_le _, fun _ _ h => absurd h (Nat.not_lt_zero _),
    fun _ _ h => absurd h List.not_mem_nil⟩

variable (h : Isolated s) {byte : Typed} {port : List Byte} {v : Nat}

include h

/-- The program's other variables do not matter. -/
theorem congr {s' : InputState} (hcons : s'.cons = s.cons)
    (hprod : s'.prod = s.prod) (hback : s'.backlog = s.backlog)
    (hvmid : s'.inputVmid = s.inputVmid) (hvuart : s'.vuart = s.vuart) : Isolated s' := by
  refine ⟨?_, ?_, ?_, ?_⟩
  · rw [hcons, hprod]
    exact h.order
  · rw [hcons, hprod]
    exact h.room
  · rw [hcons, hprod, hback, hvmid]
    exact h.backlog
  · rw [hvuart]
    exact h.fifo

theorem inputReset (vmid : Nat) : Isolated (s.inputReset vmid) :=
  ⟨le_rfl, Nat.zero_le _, fun _ _ hk => absurd hk (Nat.not_lt_zero _), h.fifo⟩

theorem inputSync (vmid : Nat) : Isolated (s.inputSync vmid) := by
  rw [InputState.inputSync]
  split
  · exact h.inputReset vmid
  · exact h

omit h in
theorem inputSync_vmid (vmid : Nat) : (s.inputSync vmid).inputVmid = vmid := by
  rw [InputState.inputSync]
  split
  · rfl
  · next h => exact not_not.mp h

omit h in
theorem inputSync_consoleVmid (vmid : Nat) : (s.inputSync vmid).consoleVmid = s.consoleVmid := by
  rw [InputState.inputSync]
  split <;> rfl

theorem makeRoom : Isolated s.makeRoom := by
  have hroom := h.room
  rw [InputState.makeRoom]
  split
  · next hfull =>
    simp only [inputBacklogCapacity, inputBacklogSize] at hfull
    refine ⟨?_, ?_, fun k hk => h.backlog k (Nat.le_of_succ_le hk), h.fifo⟩
    · show s.cons + 1 ≤ s.prod
      omega
    · show s.prod - (s.cons + 1) ≤ inputBacklogCapacity
      omega
  · exact h

theorem storeByte (hb : byte.owner = s.inputVmid) : Isolated (s.storeByte byte) := by
  have horder := h.order
  rw [InputState.storeByte]
  split
  · next hlt =>
    refine ⟨Nat.le_succ_of_le horder, ?_, fun k hk hkp => ?_, h.fifo⟩
    · show s.prod + 1 - s.cons ≤ inputBacklogCapacity
      omega
    have hk : s.cons ≤ k := hk
    have hkp : k < s.prod + 1 := hkp
    show (Function.update s.backlog (s.prod % inputBacklogSize) byte
      (k % inputBacklogSize)).owner = s.inputVmid
    by_cases hkeq : k = s.prod
    · rw [hkeq, Function.update_self, hb]
    -- at most the capacity apart, so in different places
    have hne : k % inputBacklogSize ≠ s.prod % inputBacklogSize := by
      simp only [inputBacklogCapacity, inputBacklogSize] at hlt ⊢
      omega
    rw [Function.update_of_ne hne]
    exact h.backlog k hk (by omega)
  · exact h

omit h in
theorem inputPut_rest : (s.inputPut byte).inputVmid = s.inputVmid ∧
    (s.inputPut byte).consoleVmid = s.consoleVmid := by
  have hroom : s.makeRoom.inputVmid = s.inputVmid ∧ s.makeRoom.consoleVmid = s.consoleVmid := by
    rw [InputState.makeRoom]
    split <;> exact ⟨rfl, rfl⟩
  rw [InputState.inputPut]
  split
  · exact ⟨rfl, rfl⟩
  · rw [InputState.storeByte]
    split <;> exact hroom

theorem inputPut (hb : byte.owner = s.inputVmid) : Isolated (s.inputPut byte) := by
  rw [InputState.inputPut]
  split
  · exact h
  · refine h.makeRoom.storeByte (hb.trans ?_)
    rw [InputState.makeRoom]
    split <;> rfl

/-! ## From the serial port -/

theorem collectLoop {budget : Nat} (hvmid : s.inputVmid = s.consoleVmid) :
    Isolated (InputState.collectLoop budget port s) := by
  have hempty : ∀ {s}, Isolated s →
      Isolated (if s.inputEmpty then { s with lastEnter := false } else s) := by
    intro s h
    split
    · exact h.congr rfl rfl rfl rfl rfl
    · exact h
  induction budget generalizing port s with
  | zero => exact h
  | succ budget ih =>
    cases port with
    | nil => exact hempty h
    | cons ch port =>
      rw [InputState.collectLoop]
      split
      · exact hempty h
      split
      · have hswitch : Isolated { s with consoleVmid := invalidVmid } :=
          h.congr rfl rfl rfl rfl rfl
        exact hswitch.inputReset invalidVmid
      · refine ih (h.inputPut hvmid.symm) ?_
        rw [inputPut_rest.1, inputPut_rest.2, hvmid]

theorem inputCollect : Isolated (s.inputCollect s.consoleVmid port) := by
  refine (h.inputSync s.consoleVmid).collectLoop ?_
  rw [inputSync_vmid, inputSync_consoleVmid]

/-! ## To the guest -/

theorem setVuart {vu : Vuart} (hvu : ∀ byte, .host byte ∈ vu.rxfifo → byte.owner = v) :
    Isolated (s.setVuart v vu) := by
  refine ⟨h.order, h.room, h.backlog, ?_⟩
  exact (Function.forall_update_iff s.vuart fun w vu =>
    ∀ byte, .host byte ∈ vu.rxfifo → byte.owner = w).mpr ⟨hvu, fun w _ => h.fifo w⟩

theorem tryPutchar {byte : Received} (hb : ∀ r, byte = .host r → r.owner = v) :
    Isolated (s.tryPutchar v byte).1 := by
  rw [InputState.tryPutchar]
  split
  · exact h
  refine h.setVuart fun r hr => ?_
  rcases List.mem_append.mp hr with hr | hr
  · exact h.fifo v r hr
  · exact hb r (List.mem_singleton.mp hr).symm

theorem inputDropOne (hne : s.inputEmpty = false) : Isolated s.inputDropOne := by
  have hlt : s.cons < s.prod := by
    have hneq : s.prod ≠ s.cons := fun he => by
      rw [InputState.inputEmpty, he, beq_self_eq_true] at hne
      cases hne
    have := h.order
    omega
  refine ⟨hlt, ?_, fun k hk => h.backlog k (Nat.le_of_succ_le hk), h.fifo⟩
  have := h.room
  show s.prod - (s.cons + 1) ≤ inputBacklogCapacity
  omega

theorem pushToGuest : Isolated (s.pushToGuest v).1 := by
  have h₁ := h.inputSync v
  have hvmid : (s.inputSync v).inputVmid = v := inputSync_vmid v
  rw [InputState.pushToGuest]
  split
  · generalize s.inputSync v = s₁ at h₁ hvmid ⊢
    simp only
    split
    · next hne =>
      have hempty : s₁.inputEmpty = false := by
        cases he : s₁.inputEmpty with
        | false => rfl
        | true =>
          rw [he] at hne
          cases hne
      -- the oldest byte was read for this VM
      have howner : s₁.inputPeek.owner = v := by
        rw [← hvmid]
        refine h₁.backlog s₁.cons le_rfl (lt_of_le_of_ne h₁.order fun he => ?_)
        rw [InputState.inputEmpty, he, beq_self_eq_true] at hempty
        cases hempty
      have hput : Isolated (s₁.tryPutchar v (.host s₁.inputPeek)).1 :=
        h₁.tryPutchar fun r hr => by cases hr; exact howner
      have hrest : (s₁.tryPutchar v (.host s₁.inputPeek)).1.inputEmpty = false := by
        rw [InputState.tryPutchar]
        split <;> exact hempty
      split
      · next heq =>
        rw [heq] at hput hrest
        exact (hput.inputDropOne hrest).congr rfl rfl rfl rfl rfl
      · next heq =>
        rw [heq] at hput
        exact hput
    · exact h₁
  · exact h

theorem pushLoop {fuel : Nat} : Isolated (InputState.pushLoop fuel v s) := by
  induction fuel generalizing s with
  | zero => exact h
  | succ fuel ih =>
    have hpush : Isolated (s.pushToGuest v).1 := h.pushToGuest
    rw [InputState.pushLoop]
    split
    · next heq =>
      rw [heq] at hpush
      exact ih hpush
    · next heq =>
      rw [heq] at hpush
      exact hpush

theorem rxChars {vu : Option Nat} : Isolated (s.rxChars vu port) := by
  have hcollect : Isolated { s.inputCollect s.consoleVmid port with guestBudget := rxBudget } :=
    h.inputCollect.congr rfl rfl rfl rfl rfl
  cases vu with
  | none => exact hcollect
  | some v => exact hcollect.pushLoop

theorem consoleActive : Isolated s.consoleActive.1 := by
  rw [InputState.consoleActive]
  split
  · split
    · exact h
    · exact h.congr rfl rfl rfl rfl rfl
  · exact h

theorem kick : Isolated (s.kick port) := by
  rw [InputState.kick]
  split
  · have hact := (h.inputSync s.consoleVmid).consoleActive
    simp only
    generalize (s.inputSync s.consoleVmid).consoleActive = r at hact ⊢
    obtain ⟨s₁, vu⟩ := r
    cases vu with
    | none => exact hact.rxChars.inputReset _
    | some v => exact hact.rxChars
  · exact h

theorem injectReply {text : List Byte} : Isolated (s.injectReply v text) := by
  induction text generalizing s with
  | nil => exact h
  | cons ch text ih => exact ih (h.tryPutchar fun r hr => by cases hr)

theorem step {a : InputLabel} : Isolated (s.step a) := by
  cases a with
  | kick port => exact h.kick
  | vsh v =>
    rw [InputState.step, InputState.vsh]
    repeat' split
    all_goals first | exact h | exact h.congr rfl rfl rfl rfl rfl
  | readDr v =>
    have hread : Isolated (s.setVuart v
        { s.vuart v with rxfifo := (s.vuart v).rxfifo.tail }) :=
      h.setVuart fun r hr => h.fifo v r (List.mem_of_mem_tail hr)
    exact hread.pushToGuest
  | injectReply v text => exact h.injectReply
  | setVm v paused poweroff active => exact h.setVuart fun r hr => h.fifo v r hr
  | initVuart v => exact h.setVuart fun r hr => absurd hr List.not_mem_nil

omit h

end Isolated

/-- Along every run, a byte of the host that is in the receive FIFO of a VM was read while
that VM owned the console. -/
theorem host_input_isolated {tr : List InputLabel} {s : InputState}
    (hrun : GuardedRun InputStep (fun _ _ => True) .start tr s) {v : Nat} {byte : Typed}
    (hmem : .host byte ∈ (s.vuart v).rxfifo) : byte.owner = v := by
  have h : Isolated s := by
    clear hmem
    induction hrun with
    | nil => exact .start
    | cons _ _ hs ih =>
      rw [hs]
      exact ih.step
  exact h.fifo v byte hmem

/-- The first key is typed for the first VM. The console is switched to the second one before
that VM has taken the next. -/
def switched : InputState :=
  [InputLabel.setVm 0 false false true, .setVm 1 false false true, .vsh 0, .kick [97, 98],
    .vsh 1, .readDr 0, .kick [99]].foldl InputState.step .start

theorem host_input_isolated_switched :
    (switched.vuart 0).rxfifo = [] ∧ .host ⟨99, 1⟩ ∈ (switched.vuart 1).rxfifo ∧
      ∀ byte, .host byte ∈ (switched.vuart 1).rxfifo → byte.owner = 1 := by
  have hrun : GuardedRun InputStep (fun _ _ => True) .start _ switched :=
    .of_meets (fun _ _ => rfl)
      ⟨trivial, trivial, trivial, trivial, trivial, trivial, trivial, trivial⟩
  exact ⟨by decide +kernel, by decide +kernel, fun byte hmem => host_input_isolated hrun hmem⟩

/-! ## Held Enter keys

A flag stands for the Enter that is the newest byte of the backlog. It is set and cleared where
bytes come in, and cleared where one that is not an Enter goes out, whatever comes behind it; the
last Enter to go out leaves it set. -/

/-- The bytes in the backlog, the oldest first. -/
def InputState.waiting (s : InputState) : List Byte :=
  (List.range' s.cons (s.prod - s.cons)).map fun k => (s.backlog (k % inputBacklogSize)).ch

/-- What happens to the backlog of the VM that owns the console; `idle` is a poll of the serial
port that finds nothing. -/
inductive KeyAct where
  | key (ch : Byte)
  | idle
  | deliver
  deriving DecidableEq

/-- The state, and the bytes that the guest was given. -/
def keyStep (a : KeyAct) (r : InputState × List Byte) : InputState × List Byte :=
  match a with
  | .key ch => (r.1.inputPut ⟨ch, r.1.inputVmid⟩, r.2)
  | .idle => (if r.1.inputEmpty then { r.1 with lastEnter := false } else r.1, r.2)
  | .deliver => if r.1.inputEmpty then r else (r.1.inputDropOne, r.2 ++ [r.1.inputPeek.ch])

def endsInEnter (q : List Byte) : Bool := q.getLast? == some carriageReturn

/-- The queue that is wanted, and what was delivered from it. -/
def queueStep (a : KeyAct) (q : List Byte × List Byte) : List Byte × List Byte :=
  match a with
  | .key ch =>
    if ch = carriageReturn ∧ endsInEnter q.1 then q
    else ((if q.1.length = inputBacklogCapacity then q.1.tail else q.1) ++ [ch], q.2)
  | .idle => q
  | .deliver => (q.1.tail, q.2 ++ q.1.head?.toList)

/-- The last key, and what has happened since: was it an Enter, was a byte other than an Enter
delivered, and has a poll found no key and no byte waiting? -/
structure SinceKey where
  enter : Bool
  other : Bool
  silent : Bool

def noteKeys (a : KeyAct) (r : InputState × List Byte) (n : SinceKey) : SinceKey :=
  match a with
  | .key ch => ⟨ch == carriageReturn, false, false⟩
  | .idle => { n with silent := n.silent || decide (r.1.waiting = []) }
  | .deliver => { n with other := n.other || r.1.waiting.head?.any (· != carriageReturn) }

/-- Of two Enters in a row: while bytes wait, nothing but Enters was delivered between them; and if
none waits, some other byte was, or there was silence. -/
def EntersApart (a : KeyAct) (x : (InputState × List Byte) × SinceKey) : Prop :=
  a = .key carriageReturn → x.2.enter = true →
    (if x.1.1.waiting = [] then x.2.other || x.2.silent else !x.2.other) = true

/-- What the flag says of the last key. -/
structure FlagSays (s : InputState) (n : SinceKey) : Prop where
  flag : s.lastEnter = (n.enter && !n.other && !n.silent)
  newest : s.waiting = [] ∨ endsInEnter s.waiting = n.enter ∧ n.silent = false

section

variable {s : InputState} (h : Isolated s)

theorem length_waiting : s.waiting.length = s.prod - s.cons := by
  simp [InputState.waiting]

theorem waiting_tail : { s with cons := s.cons + 1 }.waiting = s.waiting.tail := by
  simp only [InputState.waiting, ← List.map_tail, List.tail_range', Nat.sub_sub]

/-- Where an Enter arrives, the flag says whether the newest byte is one. -/
theorem FlagSays.agrees {a : KeyAct} {d : List Byte} {n : SinceKey} (hf : FlagSays s n)
    (hok : EntersApart a ((s, d), n)) (ha : a = .key carriageReturn) :
    s.lastEnter = endsInEnter s.waiting := by
  have hn : n.enter = true →
      (if s.waiting = [] then n.other || n.silent else !n.other) = true := hok ha
  rw [hf.flag]
  rcases hf.newest with hempty | ⟨hend, hsilent⟩
  · rw [if_pos hempty] at hn
    rw [hempty]
    cases he : n.enter with
    | false => rfl
    | true => rcases Bool.or_eq_true_iff.mp (hn he) with hn | hn <;> simp [hn, endsInEnter]
  · rw [hend, hsilent]
    cases he : n.enter with
    | false => rfl
    | true =>
      have hwait : s.waiting ≠ [] := fun hempty => by
        rw [hempty, he] at hend
        cases hend
      rw [if_neg hwait] at hn
      rw [hn he]
      rfl

include h

theorem inputEmpty_iff : s.inputEmpty = true ↔ s.waiting = [] := by
  have := h.order
  rw [← List.length_eq_zero_iff, length_waiting, InputState.inputEmpty, beq_iff_eq]
  omega

theorem waiting_head (hne : s.inputEmpty = false) : s.waiting.head? = some s.inputPeek.ch := by
  have hpos : s.prod - s.cons ≠ 0 := by
    rw [← length_waiting, Ne, List.length_eq_zero_iff, ← inputEmpty_iff h, hne]
    decide
  simp [InputState.waiting, List.head?_range', hpos, InputState.inputPeek]

theorem waiting_storeByte {byte : Typed} (hroom : s.prod - s.cons < inputBacklogCapacity) :
    (s.storeByte byte).waiting = s.waiting ++ [byte.ch] := by
  have horder := h.order
  rw [InputState.storeByte, if_pos hroom]
  simp only [InputState.waiting]
  rw [Nat.succ_sub horder, List.range'_1_concat, List.map_append, Nat.add_sub_cancel' horder]
  congr 1
  · refine List.map_congr_left fun k hk => ?_
    have hk := List.mem_range'_1.mp hk
    simp only [inputBacklogCapacity, inputBacklogSize] at hroom ⊢
    rw [Function.update_of_ne (by omega)]
  · simp

theorem makeRoom_room : s.makeRoom.prod - s.makeRoom.cons < inputBacklogCapacity := by
  have hroom := h.room
  have hdec : 0 < inputBacklogCapacity := by decide
  rw [InputState.makeRoom]
  split
  · show s.prod - (s.cons + 1) < _
    omega
  · omega

/-- A byte that is stored is the newest, and costs the oldest of a full backlog. -/
theorem waiting_store (byte : Typed) : (s.makeRoom.storeByte byte).waiting =
    (if s.waiting.length = inputBacklogCapacity then s.waiting.tail else s.waiting) ++
      [byte.ch] := by
  have hroom := h.room
  have hmade : s.makeRoom.waiting =
      if s.waiting.length = inputBacklogCapacity then s.waiting.tail else s.waiting := by
    rw [InputState.makeRoom, length_waiting]
    split
    · rw [if_pos (by omega), waiting_tail]
    · rw [if_neg (by omega)]
  rw [← hmade]
  exact waiting_storeByte h.makeRoom (makeRoom_room h)

theorem Isolated.keyStep (a : KeyAct) (d : List Byte) : Isolated (keyStep a (s, d)).1 := by
  cases a with
  | key ch => exact h.inputPut rfl
  | idle =>
    simp only [Console.keyStep]
    split
    · exact h.congr rfl rfl rfl rfl rfl
    · exact h
  | deliver =>
    simp only [Console.keyStep]
    split
    · exact h
    · next hne => exact h.inputDropOne (by simpa using hne)

theorem FlagSays.step {a : KeyAct} {d : List Byte} {n : SinceKey} (hf : FlagSays s n)
    (hok : EntersApart a ((s, d), n)) : FlagSays (keyStep a (s, d)).1 (noteKeys a (s, d) n) := by
  cases a with
  | key ch =>
    simp only [keyStep, noteKeys, InputState.inputPut]
    split
    · next hset =>
      rw [hset.1]
      exact ⟨hset.2, .inr ⟨(hf.agrees hok (by rw [hset.1])).symm.trans hset.2, rfl⟩⟩
    · constructor
      · rw [InputState.storeByte, if_pos (makeRoom_room h)]
        simp
      · rw [waiting_store h]
        simp [endsInEnter]
  | idle =>
    simp only [keyStep, noteKeys]
    split
    · next he =>
      have hnil := (inputEmpty_iff h).mp he
      exact ⟨by simp [hnil], .inl hnil⟩
    · next hne =>
      have hwait : s.waiting ≠ [] := fun hnil => hne ((inputEmpty_iff h).mpr hnil)
      simpa [hwait] using hf
  | deliver =>
    simp only [keyStep, noteKeys]
    split
    · next he => simpa [(inputEmpty_iff h).mp he] using hf
    · next hne =>
      rw [waiting_head h (by simpa using hne)]
      constructor
      · simp only [InputState.inputDropOne, Option.any_some, hf.flag]
        by_cases hcr : s.inputPeek.ch = carriageReturn <;> simp [hcr]
      · rw [show s.inputDropOne.waiting = s.waiting.tail from waiting_tail, endsInEnter,
          List.getLast?_tail]
        split
        · next hlen =>
          exact .inl (List.eq_nil_of_length_eq_zero (by rw [List.length_tail]; omega))
        · exact hf.newest.imp_left fun hnil => by rw [hnil]; rfl

theorem keyStep_queue {a : KeyAct} {d : List Byte}
    (hflag : a = .key carriageReturn → s.lastEnter = endsInEnter s.waiting) :
    ((keyStep a (s, d)).1.waiting, (keyStep a (s, d)).2) = queueStep a (s.waiting, d) := by
  cases a with
  | key ch =>
    simp only [keyStep, queueStep, InputState.inputPut]
    by_cases hcr : ch = carriageReturn
    · subst hcr
      rw [hflag rfl]
      split
      · rfl
      · rw [waiting_store h]
    · simp only [hcr, false_and, if_false]
      rw [waiting_store h]
  | idle =>
    simp only [keyStep, queueStep]
    split <;> rfl
  | deliver =>
    simp only [keyStep, queueStep]
    split
    · next he => simp [(inputEmpty_iff h).mp he]
    · next hne =>
      rw [waiting_head h (by simpa using hne)]
      exact Prod.ext waiting_tail rfl

omit h

/-- No Enter follows an Enter. -/
def Single (q : List Byte) : Prop :=
  q.IsChain fun a b => ¬(a = carriageReturn ∧ b = carriageReturn)

theorem queueStep_single {q : List Byte × List Byte} (hq : Single q.1) (a : KeyAct) :
    Single (queueStep a q).1 := by
  cases a with
  | key ch =>
    simp only [queueStep]
    split
    · exact hq
    · next hput =>
      have hrest : Single (if q.1.length = inputBacklogCapacity then q.1.tail else q.1) := by
        split
        · exact hq.tail
        · exact hq
      refine List.isChain_append.mpr ⟨hrest, .singleton _, fun x hx y hy hboth => hput ?_⟩
      have hlast : x ∈ q.1.getLast? := by
        split at hx
        · next hfull =>
          rw [List.getLast?_tail, if_neg (by rw [hfull]; decide)] at hx
          exact hx
        · exact hx
      simp_all [endsInEnter]
  | idle => exact hq
  | deliver => exact hq.tail

/-- In every run in which Enters in a row are apart in this way, the backlog is the queue that is
wanted, and holds no two Enters in a row. -/
theorem input_backlog_is_queue {tr : List KeyAct} {r : InputState × List Byte}
    {n : SinceKey}
    (hrun : GuardedRun (Noted (fun a r r' => r' = keyStep a r) noteKeys) EntersApart
      ((.start, []), ⟨false, false, false⟩) tr (r, n)) :
    (r.1.waiting, r.2) = tr.foldr queueStep ([], []) ∧ Single r.1.waiting := by
  refine (hrun.inv (P := fun tr x => Isolated x.1.1 ∧ FlagSays x.1.1 x.2 ∧
    (x.1.1.waiting, x.1.2) = tr.foldr queueStep ([], []) ∧ Single x.1.1.waiting)
    ⟨.start, ⟨rfl, .inl rfl⟩, rfl, .nil⟩ ?_).2.2
  rintro a tr ⟨r, n⟩ ⟨r', n'⟩ ⟨hi, hf, heq, hs⟩ hok ⟨rfl, rfl⟩
  have hstep := keyStep_queue hi (d := r.2) (hf.agrees hok)
  refine ⟨hi.keyStep a r.2, hf.step hi hok, ?_, ?_⟩
  · rw [List.foldr_cons, ← heq, ← hstep]
  · rw [show (keyStep a r).1.waiting = _ from congrArg Prod.fst hstep]
    exact queueStep_single hs a

/-- Two Enters of which one is kept, a silence after it is delivered, and a line. -/
def typedLine : List KeyAct :=
  [.key carriageReturn, .key carriageReturn, .deliver, .idle, .key carriageReturn, .key 0x6c,
    .deliver, .key carriageReturn]

theorem input_backlog_is_queue_line :
    let r := typedLine.foldl (fun r a => keyStep a r) (.start, [])
    (r.1.waiting, r.2) = ([0x6c, carriageReturn], [carriageReturn, carriageReturn]) ∧
      Single r.1.waiting := by
  have hrun : GuardedRun (Noted (fun a r r' => r' = keyStep a r) noteKeys) EntersApart
      ((.start, []), ⟨false, false, false⟩) typedLine.reverse _ :=
    .of_meets (f := fun a x => (keyStep a x.1, noteKeys a x.1 x.2)) (fun _ _ => ⟨rfl, rfl⟩) (by
      simp only [Meets, typedLine, EntersApart]
      decide)
  exact input_backlog_is_queue hrun

/-- The only Enter is delivered, and the next one is discarded. -/
theorem enter_lost_after_delivery :
    let r := [KeyAct.key carriageReturn, .deliver, .key carriageReturn].foldl
      (fun r a => keyStep a r) (.start, [])
    r.1.waiting = [] ∧ r.2 = [carriageReturn] := by
  decide

end

end Sima.Console
