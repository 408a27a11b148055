import Mathlib.Data.List.Basic

/-!
# The watchdog of a virtual machine

A guest shows that it is alive by kicking its watchdog. A gap between two kicks that is
longer than the timeout is to be counted once, and there are two that may count it: the kick
that ends the gap, and every poll of the state that falls into it once it is overdue. What
keeps them apart is `timeout_active`, which says that the gap has been counted already.

A poll takes the lock twice. It copies the entry, and if the copy is overdue it looks at the
entry again and records what it finds; kicks and other polls may come in between. So the
machine below has a step for each of the two. Its clock readings are those that the locked
sections work with, in the order in which the sections take the lock. The counters are 64
bits wide in the source and are not seen to wrap; here they are numbers.
-/

namespace Sima.Wdt

/-! ## The entry -/

/-- `struct vm_wdt_entry`. -/
structure Entry where
  startTsc : Nat
  lastKickTsc : Nat
  kickCount : Nat
  timeoutCount : Nat
  lastToken : Nat
  timeoutActive : Bool

/-- `vm_wdt_elapsed_ticks`. -/
def elapsedTicks (now since : Nat) : Nat := if since ≤ now then now - since else 0

/-- `vm_wdt_is_timeout_age`. -/
def isTimeoutAge (timeout age : Nat) : Bool := decide (timeout < age)

inductive Status where
  | unused
  | offline
  | unknown
  | alive
  | stuck

/-- `struct vm_wdt_snapshot`. -/
structure Snapshot where
  status : Status
  ageMs : Nat
  kickCount : Nat
  timeoutCount : Nat
  lastToken : Nat

namespace Entry

/-- `vm_wdt_reset`. -/
def reset (now : Nat) : Entry := ⟨now, 0, 0, 0, 0, false⟩

/-- What the age of the heartbeat is measured from. -/
def since (e : Entry) : Nat := if e.kickCount = 0 then e.startTsc else e.lastKickTsc

/-- `vm_wdt_heartbeat_age_ticks`. -/
def heartbeatAgeTicks (now : Nat) (e : Entry) : Nat := elapsedTicks now e.since

/-- `vm_wdt_record_timeout_locked`. -/
def recordTimeout (timedOut : Bool) (e : Entry) : Entry :=
  if timedOut then
    if e.timeoutActive then e
    else { e with timeoutCount := e.timeoutCount + 1, timeoutActive := true }
  else { e with timeoutActive := false }

/-- `vm_wdt_kick`. -/
def kick (timeout now token : Nat) (e : Entry) : Entry :=
  { e.recordTimeout (isTimeoutAge timeout (e.heartbeatAgeTicks now)) with
    lastKickTsc := now
    kickCount := e.kickCount + 1
    timeoutActive := false
    lastToken := token }

/-- What `vm_wdt_get_snapshot` reports of a running VM. -/
def snapshot (timeout tickrate age : Nat) (e : Entry) : Snapshot :=
  { status :=
      if isTimeoutAge timeout age then .stuck
      else if e.kickCount = 0 then .unknown else .alive
    ageMs := age / tickrate
    kickCount := e.kickCount
    timeoutCount := e.timeoutCount
    lastToken := e.lastToken }

/-- `vm_wdt_get_snapshot` for a running VM, once it has copied the entry. -/
def check (timeout tickrate now : Nat) (e copied : Entry) : Entry × Snapshot :=
  if isTimeoutAge timeout (copied.heartbeatAgeTicks now) then
    let age := e.heartbeatAgeTicks now
    let e := e.recordTimeout (isTimeoutAge timeout age)
    (e, e.snapshot timeout tickrate age)
  else (e, copied.snapshot timeout tickrate (copied.heartbeatAgeTicks now))

end Entry

/-! ## Kicks and polls -/

/-- The entry, and the copies of the polls in progress. -/
structure State where
  entry : Entry
  copies : Nat → Option Entry

inductive Act where
  | kick (now token : Nat)
  | copy (poll : Nat)
  | check (poll now : Nat)

namespace Act

def now : Act → Option Nat
  | kick now _ | check _ now => some now
  | copy _ => none

def kickTime : Act → Option Nat
  | kick now _ => some now
  | _ => none

end Act

def step (timeout tickrate : Nat) (w : State) : Act → State
  | .kick now token => { w with entry := w.entry.kick timeout now token }
  | .copy poll => { w with copies := Function.update w.copies poll (some w.entry) }
  | .check poll now =>
    match w.copies poll with
    | some copied =>
      { entry := (w.entry.check timeout tickrate now copied).1
        copies := Function.update w.copies poll none }
    | none => w

def run (timeout tickrate : Nat) (w : State) (acts : List Act) : State :=
  acts.foldl (step timeout tickrate) w

/-- The clock does not go back. -/
def NonDecreasing (start : Nat) (acts : List Act) : Prop :=
  (start :: acts.filterMap Act.now).Pairwise (· ≤ ·)

instance instDecidableNonDecreasing (start : Nat) (acts : List Act) :
    Decidable (NonDecreasing start acts) :=
  inferInstanceAs (Decidable (List.Pairwise _ _))

def kickTimes (acts : List Act) : List Nat := acts.filterMap Act.kickTime

/-- The gaps longer than the timeout, from `since` to the first of the kicks and from each
kick to the next. -/
def overdueGaps (timeout since : Nat) : List Nat → Nat
  | [] => 0
  | now :: kicks => (if timeout < now - since then 1 else 0) + overdueGaps timeout now kicks

/-! ## Each gap is counted once -/

/-- The gap that is open began at `since`, `n` gaps before it were overdue, and this one has
been counted only if it was overdue at `latest`, the last reading of the clock. -/
structure Counted (timeout since n latest : Nat) (e : Entry) : Prop where
  since_eq : e.since = since
  since_le : since ≤ latest
  count : e.timeoutCount = n + e.timeoutActive.toNat
  active : e.timeoutActive = true → timeout < latest - since

variable {timeout tickrate since n latest now token start : Nat} {e copied : Entry} {w : State}
  {acts : List Act}

namespace Counted

variable (h : Counted timeout since n latest e)

include h

variable (hnow : latest ≤ now)

include hnow

theorem later : Counted timeout since n now e := by
  refine ⟨h.since_eq, Nat.le_trans h.since_le hnow, h.count, fun hact => ?_⟩
  have := h.active hact
  omega

/-- Whoever looks at the entry next marks the gap if it is overdue, and counts it if it is
not marked yet. -/
theorem recordTimeout : Counted timeout since n now
      (e.recordTimeout (isTimeoutAge timeout (e.heartbeatAgeTicks now))) ∧
    (e.recordTimeout (isTimeoutAge timeout (e.heartbeatAgeTicks now))).timeoutActive =
      decide (timeout < now - since) := by
  have hle := Nat.le_trans h.since_le hnow
  have hage : e.heartbeatAgeTicks now = now - since := by
    rw [Entry.heartbeatAgeTicks, h.since_eq, elapsedTicks, if_pos hle]
  rw [hage, isTimeoutAge, Entry.recordTimeout]
  by_cases hover : timeout < now - since
  · rw [decide_eq_true hover]
    by_cases hact : e.timeoutActive = true
    · rw [if_pos hact]
      exact ⟨⟨h.since_eq, hle, h.count, fun _ => hover⟩, hact⟩
    rw [if_neg hact]
    have hcount := h.count
    rw [Bool.eq_false_iff.mpr hact] at hcount
    exact ⟨⟨h.since_eq, hle, congrArg (· + 1) hcount, fun _ => hover⟩, rfl⟩
  rw [decide_eq_false hover]
  -- had it been counted, it would have been overdue before
  have hact : e.timeoutActive = false := by
    rw [Bool.eq_false_iff]
    intro hact
    have := h.active hact
    omega
  have hcount := h.count
  rw [hact] at hcount
  refine ⟨⟨h.since_eq, hle, hcount, ?_⟩, rfl⟩
  intro hact'
  cases hact'

theorem kick : Counted timeout now (n + if timeout < now - since then 1 else 0) now
    (e.kick timeout now token) := by
  obtain ⟨hrec, hact⟩ := h.recordTimeout hnow
  refine ⟨rfl, Nat.le_refl _, ?_, ?_⟩
  · have hcount := hrec.count
    rw [hact] at hcount
    refine hcount.trans ?_
    by_cases hover : timeout < now - since
    · rw [decide_eq_true hover, if_pos hover]
      rfl
    · rw [decide_eq_false hover, if_neg hover]
      rfl
  · intro hact'
    cases hact'

theorem check : Counted timeout since n now (e.check timeout tickrate now copied).1 := by
  rw [Entry.check]
  split
  · exact (h.recordTimeout hnow).1
  · exact h.later hnow

omit hnow

omit h

/-- What a sequence of kicks and polls makes of the count, by induction on the sequence. -/
theorem run (h : Counted timeout since n latest w.entry) (hclock : NonDecreasing latest acts) :
    ∃ since' latest', Counted timeout since' (n + overdueGaps timeout since (kickTimes acts))
      latest' (run timeout tickrate w acts).entry := by
  induction acts generalizing w since n latest with
  | nil => exact ⟨since, latest, h⟩
  | cons a acts ih =>
    cases a with
    | kick now token =>
      obtain ⟨hle, hclock⟩ := List.pairwise_cons.mp hclock
      have hkick : Counted timeout now _ now (step timeout tickrate w (.kick now token)).entry :=
        h.kick (hle now (List.mem_cons_self ..))
      obtain ⟨since', latest', hrun⟩ := ih hkick hclock
      refine ⟨since', latest', ?_⟩
      rw [Nat.add_assoc] at hrun
      exact hrun
    | copy poll => exact ih h hclock
    | check poll now =>
      obtain ⟨hle, hclock⟩ := List.pairwise_cons.mp hclock
      have hnow := hle now (List.mem_cons_self ..)
      have hcheck : Counted timeout since n now
          (step timeout tickrate w (.check poll now)).entry := by
        rw [step]
        split
        · exact h.check hnow
        · exact h.later hnow
      exact ih hcheck hclock

end Counted

theorem run_kick {copies : Nat → Option Entry}
    (h : NonDecreasing start (acts ++ [.kick now token])) :
    (run timeout tickrate ⟨.reset start, copies⟩ (acts ++ [.kick now token])).entry.timeoutCount =
      overdueGaps timeout start (kickTimes (acts ++ [.kick now token])) := by
  have hstart : Counted timeout start 0 start (Entry.reset start) := by
    refine ⟨rfl, Nat.le_refl _, rfl, ?_⟩
    intro hact
    cases hact
  obtain ⟨_, _, hcount⟩ := hstart.run (w := ⟨.reset start, copies⟩) h
  have hact : (run timeout tickrate ⟨.reset start, copies⟩
      (acts ++ [.kick now token])).entry.timeoutActive = false := by
    rw [run, List.foldl_append]
    rfl
  have heq := hcount.count
  rw [hact, Nat.zero_add] at heq
  exact heq

/-- After a kick the count is that of the overdue gaps, the one before the first kick
included, whatever polls there have been. -/
theorem timeoutCount_eq_overdueGaps {copies : Nat → Option Entry}
    (h : NonDecreasing start (acts ++ [.kick now token])) :
    (run timeout tickrate ⟨.reset start, copies⟩ (acts ++ [.kick now token])).entry.timeoutCount =
        overdueGaps timeout start (kickTimes (acts ++ [.kick now token])) ∧
      ∀ acts' token', NonDecreasing start (acts' ++ [.kick now token']) →
        kickTimes acts' = kickTimes acts →
        (run timeout tickrate ⟨.reset start, copies⟩
            (acts' ++ [.kick now token'])).entry.timeoutCount =
          (run timeout tickrate ⟨.reset start, copies⟩
            (acts ++ [.kick now token])).entry.timeoutCount := by
  refine ⟨run_kick h, fun acts' token' h' hkicks => ?_⟩
  rw [run_kick h, run_kick h', kickTimes, kickTimes, List.filterMap_append, List.filterMap_append]
  exact congrArg (fun kicks => overdueGaps timeout start (kicks ++ [now])) hkicks

/-- Two polls of one overdue gap, and no poll. -/
theorem timeoutCount_polled :
    let polled : List Act := [.kick 5 0, .copy 0, .copy 1, .check 0 20, .check 1 21]
    NonDecreasing 0 (polled ++ [.kick 30 0]) ∧
      (run 10 1 ⟨.reset 0, fun _ => none⟩ (polled ++ [.kick 30 0])).entry.timeoutCount = 1 ∧
      (run 10 1 ⟨.reset 0, fun _ => none⟩ ([.kick 5 0] ++ [.kick 30 0])).entry.timeoutCount =
        (run 10 1 ⟨.reset 0, fun _ => none⟩ (polled ++ [.kick 30 0])).entry.timeoutCount := by
  have h : NonDecreasing 0 (([.kick 5 0, .copy 0, .copy 1, .check 0 20, .check 1 21] : List Act) ++
      [.kick 30 0]) := by decide
  exact ⟨h, (timeoutCount_eq_overdueGaps h).1,
    (timeoutCount_eq_overdueGaps h).2 [.kick 5 0] 0 (by decide) rfl⟩

/-- The time before the first kick counts as a gap, though it is not one between kicks. -/
theorem first_gap_counted : NonDecreasing 0 [.kick 20 0] ∧
      (run 10 1 ⟨.reset 0, fun _ => none⟩ [.kick 20 0]).entry.timeoutCount = 1 ∧
      kickTimes [.kick 20 0] = [20] ∧ overdueGaps 10 20 [] = 0 := by
  decide

end Sima.Wdt
