import Sima.Sched.Asleep
import Sima.Sched.RtdsQueues

/-!
# Waiting for an event (`core/event.c`)

`wait_event` gives up the event lock between marking itself asleep and switching
away, so a signal can come in between; and it can come while the waiter is
switched out, or before it waits at all. That none is lost rests on two locks
together. The event lock orders the flag and the pointer to the waiter, the
scheduler lock orders `sleep_thread`, `wake_thread` and `schedule`.

The model takes `wait_event` and `signal_event` apart at every place where
somebody else can act. One thread `w` waits; the signallers are numbered and
there is no limit to them. They may be anywhere — in a thread of any pCPU or in
an interrupt — so their steps are always possible. A step of the waiter is
possible while it is the current thread of its pCPU. The scheduler of that pCPU
is arbitrary, and so is what the other threads do.
-/

namespace Sima.Sched

open Function (update update_of_ne update_self)

variable {σ : Type}

/-- `struct sched_event`, without its lock. -/
structure SchedEvent where
  set : Bool
  waitingThread : Option Tid
deriving DecidableEq, Repr

def initEvent : SchedEvent := ⟨false, none⟩

/-- Where the waiter stands in `wait_event`. -/
inductive WaitPc where
  /-- Not in `wait_event`. -/
  | outside
  /-- Before the waiter is recorded. -/
  | entered
  /-- At the condition of the loop. -/
  | testing
  /-- At `sleep_thread`. -/
  | sleeping
  /-- At the release in the loop. -/
  | unlocking
  /-- At `schedule`. -/
  | switching
  /-- At the obtain in the loop. -/
  | resumed
  /-- After the loop. -/
  | finishing
  /-- At the last release. -/
  | leaving
deriving DecidableEq, Repr

/-- Where a signaller stands in `signal_event`. -/
inductive SignalPc where
  | outside
  /-- Before the flag is set. -/
  | entered
  /-- At the test of `waiting_thread` and the call of `wake_thread`. -/
  | waking
  /-- At the release. -/
  | leaving
deriving DecidableEq, Repr

/-- Who holds the event lock. -/
inductive Holder where
  | waiter
  | signaller (i : Nat)
deriving DecidableEq, Repr

/-- The event, its waiter on its pCPU, and the signallers. -/
structure EventSys (σ : Type) where
  event : SchedEvent
  lock : Option Holder
  pcpu : Pcpu σ
  waitPc : WaitPc
  signalPc : Nat → SignalPc

namespace EventSys

def signaller (s : EventSys σ) (i : Nat) (pc : SignalPc) : EventSys σ :=
  { s with signalPc := Function.update s.signalPc i pc }

/-- The waiter executes. -/
def Runs (s : EventSys σ) (w : Tid) : Prop := s.pcpu.ctl.currObj = some w

end EventSys

/-- One step. The first nine are `wait_event`, the next five `signal_event`. The
last is a call of the scheduler by somebody else, or by the waiter while it is
not in `wait_event`; only to put the waiter to sleep is left to itself. -/
inductive EventStep (S : AcrnScheduler σ) (w : Tid) :
    EventSys σ → EventSys σ → Prop where
  | waitObtain {s} : s.Runs w → s.waitPc = .outside → s.lock = none →
      EventStep S w s { s with lock := some .waiter, waitPc := .entered }
  | waitRecord {s} : s.Runs w → s.waitPc = .entered →
      EventStep S w s
        { s with
          event := { s.event with waitingThread := s.pcpu.ctl.currObj }
          waitPc := .testing }
  | waitTest {s} : s.Runs w → s.waitPc = .testing →
      EventStep S w s
        { s with waitPc :=
            if !s.event.set && s.event.waitingThread.isSome then .sleeping
            else .finishing }
  | waitSleep (caller : Caller) {s t} : s.Runs w → s.waitPc = .sleeping →
      s.event.waitingThread = some t →
      EventStep S w s { s with pcpu := sleepThread S caller t s.pcpu, waitPc := .unlocking }
  | waitUnlock {s} : s.Runs w → s.waitPc = .unlocking →
      EventStep S w s { s with lock := none, waitPc := .switching }
  | waitSchedule (ticks : Nat → Nat) {s} : s.Runs w → s.waitPc = .switching →
      EventStep S w s { s with pcpu := schedule S ticks s.pcpu, waitPc := .resumed }
  | waitRelock {s} : s.Runs w → s.waitPc = .resumed → s.lock = none →
      EventStep S w s { s with lock := some .waiter, waitPc := .testing }
  | waitFinish {s} : s.Runs w → s.waitPc = .finishing →
      EventStep S w s { s with event := ⟨false, none⟩, waitPc := .leaving }
  | waitLeave {s} : s.Runs w → s.waitPc = .leaving →
      EventStep S w s { s with lock := none, waitPc := .outside }
  | signalObtain (i : Nat) {s} : s.signalPc i = .outside → s.lock = none →
      EventStep S w s { s.signaller i .entered with lock := some (.signaller i) }
  | signalSet (i : Nat) {s} : s.signalPc i = .entered →
      EventStep S w s { s.signaller i .waking with event := { s.event with set := true } }
  | signalWake (i : Nat) (caller : Caller) {s t} : s.signalPc i = .waking →
      s.event.waitingThread = some t →
      EventStep S w s { s.signaller i .leaving with pcpu := wakeThread S caller t s.pcpu }
  | signalSkip (i : Nat) {s} : s.signalPc i = .waking →
      s.event.waitingThread = none → EventStep S w s (s.signaller i .leaving)
  | signalLeave (i : Nat) {s} : s.signalPc i = .leaving →
      EventStep S w s { s.signaller i .outside with lock := none }
  | other {s op p'} : SchedStep S op s.pcpu p' → op ≠ .sleepThread w →
      (op = .schedule → s.Runs w → s.waitPc = .outside) →
      EventStep S w s { s with pcpu := p' }

variable {S : AcrnScheduler σ} {w : Tid} {op : SchedOp} {p' : Pcpu σ}
  {s s' : EventSys σ}

/-! ## The invariant -/

/-- The waiter holds the event lock. -/
def WaitPc.locked : WaitPc → Bool
  | .outside | .switching | .resumed => false
  | _ => true

/-- `waiting_thread` points to the waiter. -/
def WaitPc.recorded : WaitPc → Bool
  | .outside | .entered | .leaving => false
  | _ => true

structure EventOk (w : Tid) (s : EventSys σ) : Prop where
  member : w ∈ s.pcpu.ctl.threadList
  waiterLock : s.lock = some .waiter ↔ s.waitPc.locked = true
  signallerLock : ∀ i, s.lock = some (.signaller i) ↔ s.signalPc i ≠ .outside
  recorded : s.event.waitingThread = if s.waitPc.recorded then some w else none
  unset : s.waitPc = .sleeping → s.event.set = false
  finish : s.waitPc = .finishing → s.event.set = true
  signalled : ∀ i, s.signalPc i = .waking ∨ s.signalPc i = .leaving → s.event.set = true
  asleep : Asleep s.pcpu.ctl.view w → s.waitPc.recorded = true
  pending : s.event.set = true → Asleep s.pcpu.ctl.view w → ∃ i, s.signalPc i = .waking

variable (h : EventOk w s) {pc : WaitPc} {i : Nat}

include h

/-- While the waiter has the lock, no signaller is on its way. -/
theorem EventOk.outside (hl : s.waitPc.locked = true) (i : Nat) : s.signalPc i = .outside := by
  by_contra hne
  have hlock := (h.signallerLock i).mpr hne
  rw [h.waiterLock.mpr hl] at hlock
  cases hlock

/-- While a signaller has the lock, the others and the waiter have not. -/
theorem EventOk.alone (hi : s.signalPc i ≠ .outside) :
    s.waitPc.locked = false ∧ ∀ j, j ≠ i → s.signalPc j = .outside := by
  have hlock := (h.signallerLock i).mpr hi
  constructor
  · cases hl : s.waitPc.locked with
    | false => rfl
    | true => exact absurd (h.outside hl i) hi
  intro j hne
  by_contra hj
  have hlock' := (h.signallerLock j).mpr hj
  rw [hlock] at hlock'
  injection hlock' with heq
  injection heq with heq
  exact hne heq.symm

/-- A set flag and the lock in the waiter's hands: the waiter is awake. -/
theorem EventOk.awake (hl : s.waitPc.locked = true)
    (hset : s.event.set = true) : ¬ Asleep s.pcpu.ctl.view w := by
  intro ha
  obtain ⟨i, hi⟩ := h.pending hset ha
  rw [h.outside hl i] at hi
  cases hi

/-- A step of the scheduler that does not put the waiter to sleep. -/
theorem EventOk.sched (hstep : SchedStep S op s.pcpu p')
    (hop : op ≠ .sleepThread w) : EventOk w { s with pcpu := p' } :=
  { h with
    member := hstep.mem_threadList h.member
    asleep := fun ha => h.asleep (hstep.asleep h.member hop ha)
    pending := fun hset ha => h.pending hset (hstep.asleep h.member hop ha) }

theorem EventOk.move (hl : pc.locked = s.waitPc.locked) (hr : pc.recorded = s.waitPc.recorded)
    (hunset : pc = .sleeping → s.event.set = false)
    (hfinish : pc = .finishing → s.event.set = true) : EventOk w { s with waitPc := pc } :=
  { h with
    waiterLock := by rw [hl]; exact h.waiterLock
    recorded := by rw [hr]; exact h.recorded
    unset := hunset
    finish := hfinish
    asleep := by rw [hr]; exact h.asleep }

theorem EventOk.obtain (hfree : s.lock = none) (hl : pc.locked = true)
    (hr : pc.recorded = s.waitPc.recorded) (hunset : pc ≠ .sleeping) (hfinish : pc ≠ .finishing) :
    EventOk w { s with lock := some .waiter, waitPc := pc } :=
  { h with
    waiterLock := ⟨fun _ => hl, fun _ => rfl⟩
    signallerLock := fun i => by
      have hi := h.signallerLock i
      rw [hfree] at hi
      simpa using hi
    recorded := by rw [hr]; exact h.recorded
    unset := fun hpc => absurd hpc hunset
    finish := fun hpc => absurd hpc hfinish
    asleep := by rw [hr]; exact h.asleep }

theorem EventOk.release (hheld : s.waitPc.locked = true) (hl : pc.locked = false)
    (hr : pc.recorded = s.waitPc.recorded) : EventOk w { s with lock := none, waitPc := pc } :=
  { h with
    waiterLock := by simp [hl]
    signallerLock := fun i => by simp [h.outside hheld i]
    recorded := by rw [hr]; exact h.recorded
    unset := fun (hpc : pc = .sleeping) => by rw [hpc] at hl; cases hl
    finish := fun (hpc : pc = .finishing) => by rw [hpc] at hl; cases hl
    asleep := by rw [hr]; exact h.asleep }

/-- The waiter goes to sleep. The flag is not set: it was tested under the lock
that is still held. -/
theorem EventOk.sleep (hpc : s.waitPc = .sleeping) (caller : Caller) :
    EventOk w { s with pcpu := sleepThread S caller w s.pcpu, waitPc := .unlocking } :=
  have hset := h.unset hpc
  { h with
    member := (SchedStep.sleepThread caller h.member).mem_threadList h.member
    waiterLock := by rw [h.waiterLock, hpc]; rfl
    recorded := by rw [h.recorded, hpc]; rfl
    unset := fun _ => hset
    finish := by simp
    asleep := fun _ => rfl
    pending := fun hset' => by rw [hset] at hset'; cases hset' }

theorem EventOk.signallerLock_moved {pc : SignalPc} (hi : s.signalPc i ≠ .outside)
    (hpc : pc ≠ .outside) (j : Nat) :
    s.lock = some (.signaller j) ↔ update s.signalPc i pc j ≠ .outside := by
  by_cases hji : j = i
  · subst hji
    simp [(h.signallerLock j).mpr hi, hpc]
  · rw [update_of_ne hji]
    exact h.signallerLock j

/-- A signaller moves on, with the lock in its hands and the event as it is. -/
theorem EventOk.signal {pc : SignalPc} (hi : s.signalPc i = .waking) (hpc : pc = .leaving)
    (hawake : ¬ Asleep s.pcpu.ctl.view w) : EventOk w (s.signaller i pc) := by
  have hne : s.signalPc i ≠ .outside := by rw [hi]; simp
  have hset := h.signalled i (.inl hi)
  subst hpc
  exact { h with
    signallerLock := h.signallerLock_moved hne (by simp)
    signalled := fun _ _ => hset
    pending := fun _ ha => absurd ha hawake }

theorem EventOk.signalEnter (hfree : s.lock = none) :
    EventOk w { s.signaller i .entered with lock := some (.signaller i) } := by
  refine { h with waiterLock := ?_, signallerLock := fun j => ?_,
                  signalled := fun j hj => ?_, pending := fun hset ha => ?_ }
  · show some _ = some Holder.waiter ↔ s.waitPc.locked = true
    have hw := h.waiterLock
    rw [hfree] at hw
    simpa using hw
  · show some _ = some _ ↔ update s.signalPc i _ j ≠ _
    have hj := h.signallerLock j
    rw [hfree] at hj
    by_cases hji : j = i
    · subst hji
      simp
    · rw [update_of_ne hji, ← hj]
      simp [Ne.symm hji]
  · have hj' : update s.signalPc i .entered j = .waking ∨
        update s.signalPc i .entered j = .leaving := hj
    by_cases hji : j = i
    · subst hji
      simp at hj'
    · rw [update_of_ne hji] at hj'
      exact h.signalled j hj'
  · obtain ⟨j, hj⟩ := h.pending hset ha
    have hlock := (h.signallerLock j).mpr (by rw [hj]; simp)
    rw [hfree] at hlock
    cases hlock

theorem EventOk.signalLeave (hi : s.signalPc i = .leaving) :
    EventOk w { s.signaller i .outside with lock := none } := by
  have hne : s.signalPc i ≠ .outside := by rw [hi]; simp
  obtain ⟨hl, hothers⟩ := h.alone hne
  -- everybody is out of the lock now
  have hout : ∀ j, update s.signalPc i .outside j = .outside := by
    intro j
    by_cases hji : j = i
    · simp [hji]
    · rw [update_of_ne hji]
      exact hothers j hji
  refine { h with waiterLock := ?_, signallerLock := fun j => ?_,
                  signalled := fun j hj => ?_, pending := fun hset ha => ?_ }
  · show none = _ ↔ s.waitPc.locked = true
    simp [hl]
  · show none = _ ↔ update s.signalPc i _ j ≠ _
    simp [hout j]
  · have hj' : update s.signalPc i .outside j = .waking ∨
        update s.signalPc i .outside j = .leaving := hj
    rw [hout j] at hj'
    simp at hj'
  · obtain ⟨j, hj⟩ := h.pending hset ha
    by_cases hji : j = i
    · rw [hji, hi] at hj
      cases hj
    · rw [hothers j hji] at hj
      cases hj

theorem EventOk.step (hstep : EventStep S w s s') : EventOk w s' := by
  cases hstep with
  | waitObtain hrun hpc hfree | waitRelock hrun hpc hfree =>
    exact h.obtain hfree rfl (by rw [hpc]; rfl) (by simp) (by simp)
  | waitRecord hrun hpc =>
    exact { h with
      waiterLock := by rw [h.waiterLock, hpc]; rfl
      recorded := hrun
      unset := by simp
      finish := by simp
      asleep := fun _ => rfl }
  | waitTest hrun hpc =>
    have hwait : s.event.waitingThread = some w := by rw [h.recorded, hpc]; rfl
    rw [hwait]
    split
    · next hset =>
      exact h.move (by rw [hpc]; rfl) (by rw [hpc]; rfl) (fun _ => by simpa using hset) (by simp)
    · next hset =>
      exact h.move (by rw [hpc]; rfl) (by rw [hpc]; rfl) (by simp) (fun _ => by simpa using hset)
  | @waitSleep caller _ t hrun hpc ht =>
    have hwait : s.event.waitingThread = some w := by rw [h.recorded, hpc]; rfl
    rw [hwait] at ht
    injection ht with ht
    subst ht
    exact h.sleep hpc caller
  | waitUnlock hrun hpc | waitLeave hrun hpc =>
    exact h.release (by rw [hpc]; rfl) rfl (by rw [hpc]; rfl)
  | waitSchedule ticks hrun hpc =>
    have hcur : s.pcpu.ctl.currObj ≠ none := by rw [hrun]; simp
    have hsched := h.sched (SchedStep.schedule (S := S) ticks hcur) (by simp)
    exact hsched.move (by rw [hpc]; rfl) (by rw [hpc]; rfl) (by simp) (by simp)
  | waitFinish hrun hpc =>
    have hl : s.waitPc.locked = true := by rw [hpc]; rfl
    have hawake := h.awake hl (h.finish hpc)
    exact { h with
      waiterLock := by rw [h.waiterLock, hpc]; rfl
      recorded := rfl
      unset := by simp
      finish := by simp
      signalled := fun i hi => by rw [h.outside hl i] at hi; simp at hi
      asleep := fun ha => absurd ha hawake
      pending := by simp }
  | signalObtain i hi hfree => exact h.signalEnter hfree
  | signalSet i hi =>
    have hne : s.signalPc i ≠ .outside := by rw [hi]; simp
    obtain ⟨hl, -⟩ := h.alone hne
    refine { h with signallerLock := h.signallerLock_moved hne (by simp), unset := fun hpc => ?_,
                    finish := fun _ => rfl, signalled := fun _ _ => rfl,
                    pending := fun _ _ => ⟨i, update_self ..⟩ }
    have hpc' : s.waitPc = .sleeping := hpc
    rw [hpc'] at hl
    cases hl
  | @signalWake i caller _ t hi ht =>
    have hw : t = w := by
      rw [h.recorded] at ht
      split at ht
      · exact (Option.some.inj ht).symm
      · cases ht
    subst hw
    have hsched := h.sched (SchedStep.wakeThread (S := S) caller h.member) (by simp)
    refine hsched.signal hi rfl ?_
    show ¬ Asleep (wakeThread S caller t s.pcpu).ctl.view t
    rw [view_wakeThread]
    exact RunView.wake_not_parked _ t
  | signalSkip i hi ht =>
    refine h.signal hi rfl fun ha => ?_
    rw [h.recorded, h.asleep ha] at ht
    cases ht
  | signalLeave i hi => exact h.signalLeave hi
  | other hsched hop hcur => exact h.sched hsched hop

omit h

/-! ## Every run -/

/-- The event is fresh, nobody is in its functions, and the waiter is a thread
of its pCPU that is awake. -/
structure EventStart (w : Tid) (s : EventSys σ) : Prop where
  event : s.event = initEvent
  lock : s.lock = none
  waitPc : s.waitPc = .outside
  signalPc : ∀ i, s.signalPc i = .outside
  member : w ∈ s.pcpu.ctl.threadList
  awake : ¬ Asleep s.pcpu.ctl.view w

theorem EventStart.ok (h : EventStart w s) : EventOk w s where
  member := h.member
  waiterLock := by rw [h.lock, h.waitPc]; simp [WaitPc.locked]
  signallerLock i := by rw [h.lock, h.signalPc]; simp
  recorded := by rw [h.event, h.waitPc]; rfl
  unset hpc := by rw [h.waitPc] at hpc; cases hpc
  finish hpc := by rw [h.waitPc] at hpc; cases hpc
  signalled i hi := by rw [h.signalPc] at hi; simp at hi
  asleep ha := absurd ha h.awake
  pending _ ha := absurd ha h.awake

/-- A set flag never finds the waiter asleep. In the one place where it could,
the signaller that has set the flag holds the event lock and is about to wake
it; and when a signaller is done, it has. -/
structure NoLostSignal (w : Tid) (s : EventSys σ) : Prop where
  quiet : s.lock = none → s.event.set = true →
    (s.pcpu.ctl.obj w).status ≠ .blocked ∧ (s.pcpu.ctl.obj w).beBlocking = false
  inFlight : s.event.set = true →
    (s.pcpu.ctl.obj w).status = .blocked ∨ (s.pcpu.ctl.obj w).beBlocking = true →
    ∃ i, s.lock = some (.signaller i) ∧ s.signalPc i = .waking ∧ s.event.waitingThread = some w
  delivered : ∀ i, s.signalPc i = .leaving →
    s.event.set = true ∧ (s.pcpu.ctl.obj w).status ≠ .blocked ∧
      (s.pcpu.ctl.obj w).beBlocking = false

theorem not_asleep_iff {c : SchedControl} :
    ¬ Asleep c.view w ↔ (c.obj w).status ≠ .blocked ∧ (c.obj w).beBlocking = false := by
  simp [Asleep]

theorem EventOk.noLostSignal (h : EventOk w s) : NoLostSignal w s := by
  refine ⟨fun hfree hset => ?_, fun hset ha => ?_, fun i hi => ?_⟩
  · rw [← not_asleep_iff]
    intro ha
    obtain ⟨i, hi⟩ := h.pending hset ha
    have hlock := (h.signallerLock i).mpr (by rw [hi]; simp)
    rw [hfree] at hlock
    cases hlock
  · obtain ⟨i, hi⟩ := h.pending hset ha
    refine ⟨i, (h.signallerLock i).mpr (by rw [hi]; simp), hi, ?_⟩
    rw [h.recorded, h.asleep ha]
    rfl
  · have hset := h.signalled i (.inr hi)
    refine ⟨hset, not_asleep_iff.mp fun ha => ?_⟩
    -- the one that still has to wake would hold the lock too
    obtain ⟨j, hj⟩ := h.pending hset ha
    by_cases hji : j = i
    · rw [hji, hi] at hj
      cases hj
    · rw [(h.alone (by rw [hi]; simp)).2 j hji] at hj
      cases hj

/-- Whatever the order of the steps, no signal is lost on the waiter. -/
theorem event_noLostSignal {S : AcrnScheduler σ} (hstart : EventStart w s)
    (hrun : Relation.ReflTransGen (EventStep S w) s s') : NoLostSignal w s' := by
  have hok : EventOk w s' := by
    induction hrun with
    | refl => exact hstart.ok
    | tail _ hstep ih => exact ih.step hstep
  exact hok.noLostSignal

/-! ### A signal between sleep and switch -/

/-- Thread 1 of an RTDS pCPU is current, the event fresh. -/
def awaitingSys : EventSys Rtds where
  event := initEvent
  lock := none
  pcpu := schedule (schedRtds 1000) (fun i => 10 + i)
    (wakeThread (schedRtds 1000) ⟨true, fun i => 8 + i⟩ 1 oneServer)
  waitPc := .outside
  signalPc _ := .outside

theorem awaitingSys_start : EventStart 1 awaitingSys :=
  ⟨rfl, rfl, rfl, fun _ => rfl, by decide, by rw [not_asleep_iff]; decide⟩

/-- The waiter has marked itself and given up the lock, and now the signal
comes. -/
theorem event_noLostSignal_between :
    ∃ s : EventSys Rtds, NoLostSignal 1 s ∧ s.waitPc = .switching ∧ s.signalPc 0 = .leaving ∧
      (s.pcpu.ctl.obj 1).status = .running ∧ (s.pcpu.ctl.obj 1).beBlocking = false := by
  let caller : Caller := ⟨true, fun i => 20 + i⟩
  refine ⟨_, event_noLostSignal (S := schedRtds 1000) awaitingSys_start
    (.tail (.tail (.tail (.tail (.tail (.tail (.tail (.tail .refl
      (.waitObtain ?_ ?_ ?_)) (.waitRecord ?_ ?_)) (.waitTest ?_ ?_))
      (.waitSleep caller (t := 1) ?_ ?_ ?_)) (.waitUnlock ?_ ?_))
      (.signalObtain 0 ?_ ?_)) (.signalSet 0 ?_))
      (.signalWake 0 caller (t := 1) ?_ ?_)), ?_, ?_, ?_, ?_⟩
  all_goals rfl

end Sima.Sched
