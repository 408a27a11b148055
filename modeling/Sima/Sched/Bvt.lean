import Sima.Lib.StableInsert
import Sima.Sched.Rtds

/-!
# The BVT scheduler (`core/sched_bvt.c`)

Each thread has a virtual time that runs slower the more weight it has, and the
run queue is kept in the order of the effective virtual time: the actual one, less
a credit while the thread is warped. The thread that runs stays in the queue —
`pick_next` charges it, puts it back in its place and takes the first one.

A queue is a list of threads, and a thread is in it at most once: the node is a
field of the thread. `runqueue_add` relies on its callers for that, and `BvtQueue`
proves that they keep to it.

Virtual times are unbounded here. The source argues that they never overflow
(`BVT_VT_RATIO_MIN`). The products that lead up to them are taken as computed, in
64 bits.
-/

namespace Sima.Sched

open Lib

/-- The part of `struct sched_params` that BVT reads. -/
structure BvtParams where
  weight : Nat := 0
  warpValue : Int := 0
  warpLimit : Nat := 0
  unwarpPeriod : Nat := 0
deriving DecidableEq, Repr

/-- `struct sched_bvt_data`. -/
structure BvtData where
  mcu : Nat := 0
  weight : Nat := 0
  vtRatio : Nat := 0
  warpOn : Bool := false
  warpValue : Int := 0
  warpLimit : Nat := 0
  unwarpPeriod : Nat := 0
  warpLeft : Nat := 0
  lastUnwarpTsc : Nat := 0
  avt : Int := 0
  evt : Int := 0
  residual : Nat := 0
  startTsc : Nat := 0
deriving DecidableEq, Repr

/-- `struct sched_bvt_control` and the private data of the threads. -/
structure Bvt where
  data : Tid → BvtData
  runqueue : List Tid
  tickTimer : Option Nat
  svt : Int

def bvtCsaMcu : Nat := 5
def bvtWeightMin : Nat := 1
def bvtWeightMax : Nat := 128
def bvtVtRatioMin : Nat := 8
def bvtVtRatioMax : Nat := bvtWeightMax * bvtVtRatioMin / bvtWeightMin
def bvtWarpLimitDefault : Nat := 1

/-- `BVT_MCU_MS * TICKS_PER_MS`. -/
def bvtMcuTicks (khz : Nat) : Nat := usToTicks khz 1000

def uint64 (n : Nat) : Nat := n % 2 ^ 64

def v2p (virtTime ratio : Nat) : Nat := virtTime / ratio

def p2v (phyTime ratio : Nat) : Nat := uint64 (phyTime * ratio)

namespace BvtData

def updateEvt (d : BvtData) : BvtData :=
  { d with evt := if d.warpOn then d.avt - d.warpValue else d.avt }

/-- `bvt_can_warp`. -/
def canWarp (now : Nat) (d : BvtData) : Bool :=
  if d.warpValue > 0 && d.unwarpPeriod != 0 && d.lastUnwarpTsc != 0 then
    now - d.lastUnwarpTsc ≥ d.unwarpPeriod * d.mcu
  else d.warpValue > 0

/-- `bvt_start_warp`, where it changes anything. -/
def startWarp (d : BvtData) : BvtData :=
  { d with
    warpOn := true
    warpLeft := if d.warpLimit ≠ 0 then d.warpLimit else bvtWarpLimitDefault }.updateEvt

/-- `bvt_update_warp_after_charge`. -/
def updateWarpAfterCharge (chargedMcu now : Nat) (d : BvtData) : BvtData :=
  if !d.warpOn || chargedMcu == 0 then d
  else if chargedMcu ≥ d.warpLeft then
    { d with warpOn := false, warpLeft := 0, lastUnwarpTsc := now }
  else { d with warpLeft := d.warpLeft - chargedMcu }

/-- `update_vt` without the queue: the run time up to `now` is charged. -/
def charge (now : Nat) (d : BvtData) : BvtData :=
  let vDelta := uint64 (p2v (now - d.startTsc) d.vtRatio + d.residual)
  let deltaMcu := if now > d.startTsc then vDelta / d.mcu else 0
  let residual := if now > d.startTsc then vDelta % d.mcu else d.residual
  let d := { d with residual := residual, avt := d.avt + deltaMcu }
  (d.updateWarpAfterCharge deltaMcu now).updateEvt

end BvtData

namespace Bvt

section

variable (khz : Nat) (c : SchedControl) (caller : Caller) (now : Nat) (t : Tid) (s : Bvt)

def modify (t : Tid) (f : BvtData → BvtData) : Bvt :=
  { s with data := Function.update s.data t (f (s.data t)) }

/-! ## The queue -/

def isInqueue (t : Tid) : Bool := decide (t ∈ s.runqueue)

/-- `runqueue_add`: before the first thread with a later virtual time. -/
def runqueueAdd : Bvt :=
  { s with runqueue := stableInsert (fun u => (s.data u).evt) t s.runqueue }

def runqueueRemove : Bvt :=
  { s with runqueue := s.runqueue.erase t }

/-- A thread whose virtual time has changed goes to its new place. -/
def requeue : Bvt :=
  if s.isInqueue t then runqueueAdd t (runqueueRemove t s) else s

/-- `bvt_start_warp`. -/
def startWarp : Bvt :=
  if (s.data t).warpOn then s
  else if (s.data t).canWarp now then requeue t (s.modify t BvtData.startWarp)
  else s

def updateSvt : Bvt :=
  match s.runqueue with
  | [] => s
  | first :: _ => { s with svt := (s.data first).avt }

def updateVt : Bvt :=
  requeue t (s.modify t (BvtData.charge now))

/-- The thread that runs is charged, unless it is the idle one. -/
def chargeCurrent : Bvt :=
  match c.currObj with
  | some current => if !c.isIdleThread current then updateVt now current s else s
  | none => s

/-! ## The hooks -/

def delTimer : Bvt := { s with tickTimer := none }

/-- `update_timer` and `add_timer`. A timeout of 0 is refused. -/
def addTimer (timeout : Nat) (s : Bvt) : Bvt :=
  { s with tickTimer := if timeout = 0 then none else some timeout }

/-- How long the first thread may run before it meets the second. -/
def runCountdown (first second : BvtData) : Nat :=
  let deltaMcu := ((second.evt - first.evt) % 2 ^ 64).toNat
  uint64 (v2p deltaMcu first.vtRatio + bvtCsaMcu)

/-- The end of `sched_bvt_pick_next`: the first thread of the queue is given, and
the timer is armed if there is a second one. -/
def takeFirst : Tid × Bvt :=
  match s.runqueue with
  | [] => (c.idle, s)
  | [first] => (first, s.modify first fun d => { d with startTsc := caller.ticks 0 })
  | first :: second :: _ =>
    let runCountdown := runCountdown (s.data first) (s.data second)
    let s := s.modify first fun d => { d with startTsc := caller.ticks 0 }
    (first,
      if runCountdown ≠ 2 ^ 64 - 1 then
        s.addTimer (uint64 (caller.ticks 2 + runCountdown * bvtMcuTicks khz))
      else s)

/-- `sched_bvt_pick_next`. The clock is read at its start, in `update_vt`, and for
the timer. -/
def pickNext : Tid × Bvt :=
  takeFirst khz c caller (updateSvt (chargeCurrent c (caller.ticks 1) s)).delTimer

/-- `sched_bvt_sleep`. -/
def sleep (_ : SchedControl) (_ : Caller) (t : Tid) (s : Bvt) : Bvt :=
  runqueueRemove t s

/-- `sched_bvt_wake`. -/
def wake (_ : SchedControl) (caller : Caller) (t : Tid) (s : Bvt) : Bvt :=
  let s := s.modify t fun d => { d with avt := if d.avt > s.svt - bvtCsaMcu then d.avt else s.svt }
  let s := startWarp (caller.ticks 0) t s
  runqueueAdd t (s.modify t BvtData.updateEvt)

/-- `sched_bvt_prioritize`. -/
def prioritize (_ : SchedControl) (caller : Caller) (t : Tid) (s : Bvt) : Bvt :=
  startWarp (caller.ticks 0) t s

/-- `sched_bvt_init`, with the private data of no thread written yet. -/
def init : Bvt where
  data _ := {}
  runqueue := []
  tickTimer := none
  svt := 0

/-- `sched_bvt_init_data`. The virtual times are not written. -/
def initData (params : Tid → BvtParams) (_ : SchedControl) (_ : Caller) (t : Tid) (s : Bvt) :
    Bvt :=
  s.modify t fun d =>
    let weight := min (max (params t).weight bvtWeightMin) bvtWeightMax
    { d with
      mcu := bvtMcuTicks khz
      weight := weight
      warpValue := (params t).warpValue
      warpLimit := (params t).warpLimit
      unwarpPeriod := (params t).unwarpPeriod
      warpOn := false
      warpLeft := 0
      lastUnwarpTsc := 0
      vtRatio := bvtVtRatioMax / weight
      residual := 0 }

/-- `sched_tick_handler`. The timer is one-shot: when it fires it is off. -/
def timerHandler (_ : Nat → Nat) (s : Bvt) : Bool × Bvt :=
  let request := match c.currObj with
    | none => false
    | some current => !c.isIdleThread current || !s.runqueue.isEmpty
  (request, s.delTimer)

/-- `sched_bvt_suspend`. -/
def suspend : Bvt := s.delTimer

end

end Bvt

/-- `struct acrn_scheduler sched_bvt`. -/
def schedBvt (khz : Nat) (params : Tid → BvtParams) : AcrnScheduler Bvt where
  initData := Bvt.initData khz params
  pickNext := Bvt.pickNext khz
  sleep := Bvt.sleep
  wake := Bvt.wake
  prioritize := some Bvt.prioritize
  timerHandler := Bvt.timerHandler
  suspend := Bvt.suspend

end Sima.Sched
