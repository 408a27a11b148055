import Mathlib.Algebra.Order.BigOperators.Group.Finset
import Sima.Sched.Clock
import Sima.Sched.Noop

/-!
# CPU time is conserved

A thread is credited with its run time late, when it is switched out: from
`state_since` on. The same field is written when a thread blocks and when it wakes
up, so it says when a thread was switched in only as long as that thread is current
— a current thread is RUNNING, and neither `sleep_thread` nor `wake_thread` marks
one that is.

So every call but a switch leaves the accounts alone, and a switch credits the
thread that goes with the whole of its stint. From the start of the idle thread on
no tick is lost and none is counted twice.

A `state_since` of 0 stands for a thread that was never marked. A thread that is
switched in when the clock reads 0 therefore is not paid for that stint: the clock
has to be past 0 when the idle thread starts.
-/

namespace Sima.Sched

open Lib SchedControl

variable {σ : Type}

namespace SchedControl

def runtime (c : SchedControl) (t : Tid) : Nat := (c.obj t).latency.runtimeTicks

def stateSince (c : SchedControl) (t : Tid) : Nat := (c.obj t).latency.stateSince

/-- The run time of all threads of the pCPU. -/
def totalRuntime (c : SchedControl) : Nat := ∑ t ∈ c.threadList.toFinset, c.runtime t

end SchedControl

/-- What there is to know of the current thread: when it was switched in, and when
the idle thread had been started. -/
structure Stint where
  idleSince : Nat
  switchedIn : Nat
deriving DecidableEq, Repr

/-- Nothing before the idle thread starts. A switch is made at the reading of
`schedule`, not at one of `pick_next`. -/
def noteSwitch (S : AcrnScheduler σ) :
    ClockOp → Clocked σ → Option Stint → Option Stint
  | .call .runIdle caller, _, _ => some ⟨caller.ticks 0, caller.ticks 0⟩
  | .call .schedule caller, s, g =>
    if s.pcpu.ctl.currObj = some (pick S caller.ticks s.pcpu).1 then g
    else g.map fun g => { g with switchedIn := caller.ticks (s.pcpu.ctl.threadList.length + 3) }
  | _, _, g => g

/-- The idle thread does not start at 0. -/
def ClockOp.StartsPastZero : ClockOp → Prop
  | .call .runIdle caller => 0 < caller.ticks 0
  | _ => True

instance (a : ClockOp) : Decidable a.StartsPastZero := by
  unfold ClockOp.StartsPastZero
  split <;> infer_instance

/-! ## The marks -/

namespace LatencyStats

variable (now : Nat) (l : LatencyStats)

@[simp] theorem markRunning_runtimeTicks : (l.markRunning now).runtimeTicks = l.runtimeTicks := by
  rw [markRunning]
  split <;> rfl

@[simp] theorem markRunning_stateSince : (l.markRunning now).stateSince = now := rfl

theorem le_addRuntime {l : LatencyStats} (h : l.runtimeTicks ≤ uint64Max) (ticks : Nat) :
    l.runtimeTicks ≤ (l.addRuntime ticks).runtimeTicks := by
  simp only [addRuntime]
  split
  · exact h
  · omega

theorem addRuntime_runtimeTicks {l : LatencyStats} {ticks : Nat}
    (h : l.runtimeTicks + ticks < 2 ^ 64) :
    (l.addRuntime ticks).runtimeTicks = l.runtimeTicks + ticks := by
  have hfits : ¬ uint64Max - l.runtimeTicks < ticks := by
    rw [uint64Max]
    omega
  simp only [addRuntime, if_neg hfits]

end LatencyStats

/-! ## Calls that leave the accounts alone -/

/-- No thread is credited, and the current one is not marked. -/
structure KeepsAccounts (c c' : SchedControl) : Prop where
  currObj : c'.currObj = c.currObj
  runtime : ∀ t ∈ c.threadList, c'.runtime t = c.runtime t
  stateSince : ∀ t, c.currObj = some t → c'.stateSince t = c.stateSince t
  total : c'.totalRuntime = c.totalRuntime

section

variable {S : AcrnScheduler σ} {c c' : SchedControl} {p : Pcpu σ} {caller : Caller}
  {ticks : Nat → Nat} {t u next prev : Tid} {f : ThreadObject → ThreadObject}

theorem KeepsAccounts.of_eq (hcur : c'.currObj = c.currObj) (hlist : c'.threadList = c.threadList)
    (hrun : ∀ t ∈ c.threadList, c'.runtime t = c.runtime t)
    (hsince : ∀ t, c.currObj = some t → c'.stateSince t = c.stateSince t) :
    KeepsAccounts c c' := by
  refine ⟨hcur, hrun, hsince, ?_⟩
  rw [totalRuntime, hlist]
  exact Finset.sum_congr rfl fun t ht => hrun t (List.mem_toFinset.mp ht)

/-- One thread object changes, but not the run time in it. Only if it is the current
one `state_since` has to stay too. -/
theorem KeepsAccounts.of_off (t : Tid) (hcur : c'.currObj = c.currObj)
    (hlist : c'.threadList = c.threadList) (hoff : ∀ u, u ≠ t → c'.obj u = c.obj u)
    (hrun : c'.runtime t = c.runtime t)
    (hsince : c.currObj = some t → c'.stateSince t = c.stateSince t) : KeepsAccounts c c' := by
  refine .of_eq hcur hlist (fun u _ => ?_) fun u hu => ?_
  · by_cases hut : u = t
    · rw [hut]
      exact hrun
    · rw [SchedControl.runtime, SchedControl.runtime, hoff u hut]
  · by_cases hut : u = t
    · rw [hut]
      exact hsince (hut ▸ hu)
    · rw [SchedControl.stateSince, SchedControl.stateSince, hoff u hut]

theorem keepsAccounts_initThreadData (hok : p.ctl.view.Ok) (ht : t ∉ p.ctl.threadList) :
    KeepsAccounts p.ctl (initThreadData S caller t p).ctl := by
  have hobj : ∀ {u}, u ∈ p.ctl.threadList →
      (initThreadData S caller t p).ctl.obj u = p.ctl.obj u := by
    intro u hu
    have hut : u ≠ t := fun heq => ht (heq ▸ hu)
    simp [initThreadData, hut]
  have hrun : ∀ u ∈ p.ctl.threadList,
      (initThreadData S caller t p).ctl.runtime u = p.ctl.runtime u := by
    intro u hu
    rw [runtime, runtime, hobj hu]
  refine ⟨rfl, hrun, fun u hu => ?_, ?_⟩
  · rw [stateSince, stateSince, hobj (hok.current u hu)]
  -- the thread that is new has not run yet
  have hnew : (initThreadData S caller t p).ctl.runtime t = 0 := by
    simp [runtime, initThreadData]
  have hset : (initThreadData S caller t p).ctl.threadList.toFinset =
      insert t p.ctl.threadList.toFinset := by
    simp [initThreadData]
  rw [totalRuntime, hset, Finset.sum_insert (fun h => ht (List.mem_toFinset.mp h)), hnew, zero_add]
  exact Finset.sum_congr rfl fun u hu => hrun u (List.mem_toFinset.mp hu)

theorem keepsAccounts_sleepThread (hok : p.ctl.view.Ok) (ht : t ∈ p.ctl.threadList) :
    KeepsAccounts p.ctl (sleepThread S caller t p).ctl := by
  rw [sleepThread]
  split
  · refine .of_off t rfl rfl (fun u hu => by simp [hu]) ?_ fun _ => ?_
    · simp [runtime]
    · simp [stateSince]
  rename_i hrun
  refine .of_off t rfl rfl (fun u hu => by simp [hu]) ?_ fun hcur => ?_
  · simp [runtime, LatencyStats.markBlocked]
  · have hst : (p.ctl.obj t).status = .running := (hok.running t ht).mpr hcur
    exact absurd (by simp [ThreadObject.isRunning, hst]) hrun

theorem keepsAccounts_wakeThread (hok : p.ctl.view.Ok) (ht : t ∈ p.ctl.threadList) :
    KeepsAccounts p.ctl (wakeThread S caller t p).ctl := by
  rw [wakeThread]
  split
  · split
    · next hblk =>
      refine .of_off t rfl rfl (fun u hu => ?_) ?_ fun hcur => ?_
      · simp [hu]
      · simp [runtime, LatencyStats.markRunnable]
      · -- a blocked thread is not current
        have hst : (p.ctl.obj t).status = .running := (hok.running t ht).mpr hcur
        simp [ThreadObject.isBlocked, hst] at hblk
    · refine .of_off t rfl rfl (fun u hu => by simp [hu]) ?_ fun _ => ?_
      · simp [runtime]
      · simp [stateSince]
  · exact .of_eq rfl rfl (fun _ _ => rfl) fun _ _ => rfl

theorem keepsAccounts_requestThreadPriority :
    KeepsAccounts p.ctl (requestThreadPriority S t p).ctl := by
  rw [requestThreadPriority]
  split
  · refine .of_off t rfl rfl (fun u hu => by simp [hu]) ?_ fun _ => ?_
    · simp [runtime]
    · simp [stateSince]
  · exact .of_eq rfl rfl (fun _ _ => rfl) fun _ _ => rfl

theorem keepsAccounts_timerTick : KeepsAccounts p.ctl (timerTick S ticks p).ctl := by
  simp only [timerTick]
  split <;> exact .of_eq rfl rfl (fun _ _ => rfl) fun _ _ => rfl

theorem keepsAccounts_clear : KeepsAccounts c (clearRescheduleIfCurrentOnly c).2 := by
  rw [clearRescheduleIfCurrentOnly]
  split <;> exact .of_eq rfl rfl (fun _ _ => rfl) fun _ _ => rfl

/-! ## The switch -/

theorem latency_consumePriority :
    ((consumePriority S caller t p).ctl.obj u).latency = (p.ctl.obj u).latency := by
  have hflag : ((p.ctl.update t fun o => { o with priorityPending := false }).obj
      u).latency = (p.ctl.obj u).latency := by
    by_cases hut : u = t
    · subst hut
      simp
    · simp [hut]
  rw [consumePriority]
  split
  · split
    · split <;> exact hflag
    · exact hflag
  · rfl

theorem latency_consumePriorities (ts : List Tid) :
    ((consumePriorities S ticks ts p).ctl.obj u).latency = (p.ctl.obj u).latency := by
  induction ts generalizing ticks p with
  | nil => rfl
  | cons t ts ih => rw [consumePriorities, ih, latency_consumePriority]

/-- Priority requests are used up before, and that is all. -/
theorem keepsAccounts_beforePick : KeepsAccounts p.ctl (beforePick S ticks p).ctl := by
  have hview := view_beforePick S ticks p
  refine .of_eq (congrArg RunView.currObj hview) (congrArg RunView.threadList hview)
    (fun u _ => ?_) fun u _ => ?_
  · exact congrArg LatencyStats.runtimeTicks (latency_consumePriorities _)
  · exact congrArg LatencyStats.stateSince (latency_consumePriorities _)

theorem KeepsAccounts.trans {c'' : SchedControl} (h : KeepsAccounts c c')
    (hmem : ∀ t ∈ c.threadList, t ∈ c'.threadList) (h' : KeepsAccounts c' c'') :
    KeepsAccounts c c'' where
  currObj := h'.currObj.trans h.currObj
  runtime t ht := (h'.runtime t (hmem t ht)).trans (h.runtime t ht)
  stateSince t ht := (h'.stateSince t (h.currObj.trans ht)).trans (h.stateSince t ht)
  total := h'.total.trans h.total

theorem latency_switchTo (now : Nat) (hcur : c.currObj = some prev) (hne : prev ≠ next) :
    ((switchTo now next c).obj u).latency = if u = next then (c.obj next).latency.markRunning now
      else if u = prev then (c.obj prev).latency.markNotRunning now !(c.obj prev).beBlocking
      else (c.obj u).latency := by
  simp only [switchTo, hcur]
  by_cases hun : u = next
  · subst hun
    simp [switchOut, Ne.symm hne]
  by_cases hup : u = prev
  · subst hup
    simp [switchOut, hun]
  · simp [switchOut, hun, hup]

theorem totalRuntime_switchTo (now : Nat) (hcur : c.currObj = some prev)
    (hmem : prev ∈ c.threadList) (hne : prev ≠ next) (hmarked : c.stateSince prev ≠ 0)
    (hfits : c.totalRuntime + (now - c.stateSince prev) < 2 ^ 64) :
    (switchTo now next c).totalRuntime = c.totalRuntime + (now - c.stateSince prev) := by
  have hin : prev ∈ c.threadList.toFinset := List.mem_toFinset.mpr hmem
  have hle : c.runtime prev ≤ c.totalRuntime := Finset.single_le_sum (fun _ _ => Nat.zero_le _) hin
  have hprev : (switchTo now next c).runtime prev =
      c.runtime prev + (now - c.stateSince prev) := by
    rw [runtime, latency_switchTo now hcur hne, if_neg hne, if_pos rfl]
    -- the whole stint is credited, for its start was marked
    rw [stateSince] at hmarked
    simp only [LatencyStats.markNotRunning, if_pos hmarked]
    refine LatencyStats.addRuntime_runtimeTicks ?_
    exact lt_of_le_of_lt (Nat.add_le_add_right hle _) hfits
  have hother : ∀ u ∈ c.threadList.toFinset.erase prev,
      (switchTo now next c).runtime u = c.runtime u := by
    intro u hu
    rw [runtime, latency_switchTo now hcur hne]
    by_cases hun : u = next
    · rw [if_pos hun, LatencyStats.markRunning_runtimeTicks, hun, runtime]
    · rw [if_neg hun, if_neg (Finset.ne_of_mem_erase hu), runtime]
  have hlist : (switchTo now next c).threadList = c.threadList := by
    simp [switchTo, hcur, switchOut]
  rw [totalRuntime, hlist, ← Finset.add_sum_erase _ _ hin, hprev,
    Finset.sum_congr rfl hother, totalRuntime,
    ← Finset.add_sum_erase _ c.runtime hin]
  exact add_right_comm _ _ _

theorem ctl_schedule (S : AcrnScheduler σ) (ticks : Nat → Nat) (p : Pcpu σ) :
    (schedule S ticks p).ctl = if p.ctl.currObj = some (pick S ticks p).1 then
        { (beforePick S ticks p).ctl with needReschedule := false }
      else switchTo (ticks (p.ctl.threadList.length + 3)) (pick S ticks p).1
        { (beforePick S ticks p).ctl with needReschedule := false } := by
  rw [← currObj_beforePick S ticks p]
  simp only [schedule]
  split
  · next h => exact (if_pos h).symm
  · next h => exact (if_neg h).symm

end

/-! ## The balance -/

/-- Until the idle thread starts nobody is credited with anything. From then on the
threads have been credited with all the time up to the last switch. -/
inductive Balanced (c : SchedControl) (now : Nat) : Option Stint → Prop where
  | unstarted : c.currObj = none → c.totalRuntime = 0 → Balanced c now none
  | running {t : Tid} {g : Stint} : c.currObj = some t →
      c.stateSince t = g.switchedIn → 0 < g.idleSince →
      g.idleSince + c.totalRuntime = g.switchedIn → g.switchedIn ≤ now →
      Balanced c now (some g)

section

variable {S : AcrnScheduler σ} {I M : RunView → σ → Prop} {c c' : SchedControl}
  {p : Pcpu σ} {now hi : Nat} {g : Option Stint} {caller : Caller} {ticks : Nat → Nat}
  {op : SchedOp} {a : ClockOp} {s s' : Clocked σ} {t : Tid}

variable (h : Balanced c now g)

include h

theorem Balanced.keep (hk : KeepsAccounts c c') (hle : now ≤ hi) : Balanced c' hi g := by
  cases h with
  | unstarted hcur htotal => exact .unstarted (hk.currObj.trans hcur) (hk.total.trans htotal)
  | running hcur hsince hpos hbal hnow =>
    exact .running (hk.currObj.trans hcur) ((hk.stateSince _ hcur).trans hsince) hpos
      (by rw [hk.total]; exact hbal) (hnow.trans hle)

theorem Balanced.totalRuntime_le : c.totalRuntime ≤ now := by
  cases h with
  | unstarted _ htotal => omega
  | running _ _ _ hbal hnow => omega

theorem Balanced.runtime_le (ht : t ∈ c.threadList) : c.runtime t ≤ now :=
  (Finset.single_le_sum (fun _ _ => Nat.zero_le _)
    (List.mem_toFinset.mpr ht)).trans h.totalRuntime_le

omit h

theorem Balanced.runIdle (h : Balanced p.ctl now g) (hcur : p.ctl.currObj = none)
    (hpos : 0 < ticks 0) (hle : ticks 0 ≤ hi) :
    Balanced (runThread ticks p.ctl.idle p).ctl hi (some ⟨ticks 0, ticks 0⟩) := by
  have htotal : p.ctl.totalRuntime = 0 := by
    cases h with
    | unstarted _ htotal => exact htotal
    | running hsome => rw [hcur] at hsome; cases hsome
  refine .running rfl (by simp [stateSince, runThread]) hpos ?_ hle
  have hsame : (runThread ticks p.ctl.idle p).ctl.totalRuntime = p.ctl.totalRuntime := by
    refine Finset.sum_congr rfl fun u _ => ?_
    by_cases hu : u = p.ctl.idle
    · subst hu
      simp [runtime, runThread]
    · simp [runtime, runThread, hu]
  rw [hsame, htotal, add_zero]

theorem Balanced.schedule (h : Balanced p.ctl now g) (hok : p.ctl.view.Ok)
    (hcur : p.ctl.currObj ≠ none) (hr : Readings now hi ticks) (h64 : hi < 2 ^ 64) :
    Balanced (Sched.schedule S ticks p).ctl hi (if p.ctl.currObj = some (pick S ticks p).1 then g
        else g.map fun g => { g with switchedIn := ticks (p.ctl.threadList.length + 3) }) := by
  let c : SchedControl := { (beforePick S ticks p).ctl with needReschedule := false }
  have hkeep : KeepsAccounts p.ctl c :=
    keepsAccounts_beforePick.trans (fun t ht => by
      have hview := view_beforePick S ticks p
      rw [← view_threadList, hview]
      exact ht) (.of_eq rfl rfl (fun _ _ => rfl) fun _ _ => rfl)
  have hnow : now ≤ hi := hr.first.trans (hr.last 0)
  rw [ctl_schedule]
  split
  · exact h.keep hkeep hnow
  rename_i hne
  cases h with
  | unstarted hnone => exact absurd hnone hcur
  | @running prev g hprev hsince hpos hbal hle =>
    have hprev' : c.currObj = some prev := hkeep.currObj.trans hprev
    have hsince' : c.stateSince prev = g.switchedIn := (hkeep.stateSince prev hprev).trans hsince
    have hmem : prev ∈ c.threadList := by
      have hlist : c.threadList = p.ctl.threadList :=
        congrArg RunView.threadList (view_beforePick S ticks p)
      rw [hlist]
      exact hok.current prev hprev
    have hread := hr.le (p.ctl.threadList.length + 3)
    have hlast := hr.last (p.ctl.threadList.length + 3)
    have hpn : prev ≠ (pick S ticks p).1 := fun heq => hne (hprev.trans (congrArg some heq))
    have htotal := totalRuntime_switchTo (ticks (p.ctl.threadList.length + 3)) hprev'
      hmem hpn (by omega) (by rw [hkeep.total]; omega)
    refine .running rfl ?_ hpos ?_ hlast
    · have hlat := latency_switchTo (u := (pick S ticks p).1)
        (ticks (p.ctl.threadList.length + 3)) hprev' hpn
      rw [if_pos rfl] at hlat
      exact congrArg LatencyStats.stateSince hlat
    · rw [htotal, hkeep.total]
      show g.idleSince + _ = ticks _
      omega

theorem Balanced.apply (h : Balanced s.pcpu.ctl s.now g) (hok : s.pcpu.ctl.view.Ok)
    (hal : op.Allowed s.pcpu.ctl) (hr : Readings (s.readsFrom op) hi caller.ticks)
    (hnow : s.now ≤ hi) (h64 : hi < 2 ^ 64) (hstarts : (ClockOp.call op caller).StartsPastZero) :
    Balanced (op.apply S caller s.pcpu).ctl hi (noteSwitch S (.call op caller) s g) := by
  cases op with
  | initThreadData t => exact h.keep (keepsAccounts_initThreadData hok hal) hnow
  | runIdle => exact h.runIdle hal.1 hstarts (hr.last 0)
  | sleepThread t => exact h.keep (keepsAccounts_sleepThread hok hal.1) hnow
  | wakeThread t => exact h.keep (keepsAccounts_wakeThread hok hal.1) hnow
  | requestThreadPriority t => exact h.keep keepsAccounts_requestThreadPriority hnow
  | schedule => exact h.schedule hok hal hr h64
  | timerTick => exact h.keep keepsAccounts_timerTick hnow

theorem Balanced.step (h : Balanced s.pcpu.ctl s.now g) (hok : s.pcpu.ctl.view.Ok)
    (hstep : ClockStep S a s s') (hstarts : a.StartsPastZero) (h64 : s'.now < 2 ^ 64) :
    Balanced s'.pcpu.ctl s'.now (noteSwitch S a s g) := by
  cases hstep with
  | call hal hr hnow => exact h.apply hok hal hr hnow h64 hstarts
  | clear => exact h.keep keepsAccounts_clear le_rfl
  | yield => exact h.keep (.of_eq rfl rfl (fun _ _ => rfl) fun _ _ => rfl) le_rfl
  | suspend => exact h

/-! ## Credit is never taken back -/

theorem runtime_le_schedule (h : Balanced p.ctl now g) (hcur : p.ctl.currObj ≠ none)
    (h64 : now < 2 ^ 64) (ht : t ∈ p.ctl.threadList) :
    p.ctl.runtime t ≤ (schedule S ticks p).ctl.runtime t := by
  obtain ⟨prev, hprev⟩ := Option.ne_none_iff_exists'.mp hcur
  have hbefore : (beforePick S ticks p).ctl.runtime t = p.ctl.runtime t :=
    keepsAccounts_beforePick.runtime t ht
  have hle := h.runtime_le ht
  rw [ctl_schedule]
  split
  · exact hbefore.ge
  rename_i hne
  have hprev' : ({ (beforePick S ticks p).ctl with needReschedule := false } :
      SchedControl).currObj = some prev :=
    keepsAccounts_beforePick.currObj.trans hprev
  have hpn : prev ≠ (pick S ticks p).1 := fun heq => hne (hprev.trans (congrArg some heq))
  rw [← hbefore, runtime, runtime, latency_switchTo _ hprev' hpn]
  split
  · next heq => rw [heq, LatencyStats.markRunning_runtimeTicks]
  split
  · next heq =>
    rw [heq]
    simp only [LatencyStats.markNotRunning]
    split
    · refine LatencyStats.le_addRuntime ?_ _
      rw [heq] at hbefore hle
      have : (beforePick S ticks p).ctl.runtime prev < 2 ^ 64 := by omega
      exact Nat.le_sub_one_of_lt this
    · exact le_rfl
  · exact le_rfl

theorem Balanced.runtime_mono (h : Balanced s.pcpu.ctl s.now g)
    (hok : s.pcpu.ctl.view.Ok) (hstep : ClockStep S a s s') (h64 : s.now < 2 ^ 64)
    (ht : t ∈ s.pcpu.ctl.threadList) : s.pcpu.ctl.runtime t ≤ s'.pcpu.ctl.runtime t := by
  cases hstep with
  | @call op caller hi _ hal hr hnow =>
    cases op with
    | initThreadData u => exact ((keepsAccounts_initThreadData hok hal).runtime t ht).ge
    | runIdle =>
      by_cases hi : t = s.pcpu.ctl.idle
      · subst hi
        simp [runtime, Clocked.call, SchedOp.apply, runThread]
      · simp [runtime, Clocked.call, SchedOp.apply, runThread, hi]
    | sleepThread u => exact ((keepsAccounts_sleepThread hok hal.1).runtime t ht).ge
    | wakeThread u => exact ((keepsAccounts_wakeThread hok hal.1).runtime t ht).ge
    | requestThreadPriority u => exact (keepsAccounts_requestThreadPriority.runtime t ht).ge
    | schedule => exact runtime_le_schedule h hal h64 ht
    | timerTick => exact (keepsAccounts_timerTick.runtime t ht).ge
  | clear => exact (keepsAccounts_clear.runtime t ht).ge
  | yield | suspend => exact le_rfl

/-! ## Every run -/

variable {idle : Tid} {obj : Tid → ThreadObject} {priv : σ} {tr : List ClockOp}
  {x : Clocked σ × Option Stint}

theorem balanced_reach (hL : Lawful S I M) (hsusp : ∀ {v y}, I v y → I v (S.suspend y))
    (hI : I (initSched idle obj priv).ctl.view priv)
    (hrun : GuardedRun (Noted (ClockStep S) (noteSwitch S)) (fun a _ => a.StartsPastZero)
      (.start (initSched idle obj priv) now, none) tr x) (h64 : x.1.now < 2 ^ 64) :
    x.1.pcpu.ctl.view.Ok ∧ I x.1.pcpu.ctl.view x.1.pcpu.priv ∧
      Balanced x.1.pcpu.ctl x.1.now x.2 := by
  induction hrun with
  | nil => exact ⟨⟨nofun, nofun, nofun, fun h => absurd rfl h⟩, hI, .unstarted rfl rfl⟩
  | @cons a tr x y _ hstarts hs ih =>
    obtain ⟨hok, hinv, hbal⟩ := ih (lt_of_le_of_lt hs.1.now_le h64)
    obtain ⟨hok', hinv'⟩ := hL.clockStep hsusp hs.1 hok hinv
    refine ⟨hok', hinv', ?_⟩
    rw [hs.2]
    exact hbal.step hok hs.1 hstarts h64

/-- On a pCPU with any scheduler that keeps the contract: once the idle thread has
been started, past 0, the threads have been credited with all of the time since then
but the stint of the current thread. And no credit is ever taken back. -/
theorem runtime_conserved (hL : Lawful S I M) (hsusp : ∀ {v y}, I v y → I v (S.suspend y))
    (hI : I (initSched idle obj priv).ctl.view priv)
    (hrun : GuardedRun (Noted (ClockStep S) (noteSwitch S)) (fun a _ => a.StartsPastZero)
      (.start (initSched idle obj priv) now, none) tr x) (h64 : x.1.now < 2 ^ 64) :
    (∀ g, x.2 = some g → g.idleSince ≤ g.switchedIn ∧ g.switchedIn ≤ x.1.now ∧
      ∀ later, x.1.now ≤ later →
        x.1.pcpu.ctl.totalRuntime + (later - g.switchedIn) = later - g.idleSince) ∧
    ∀ {a s'}, ClockStep S a x.1 s' → ∀ t ∈ x.1.pcpu.ctl.threadList,
      x.1.pcpu.ctl.runtime t ≤ s'.pcpu.ctl.runtime t := by
  obtain ⟨hok, -, hbal⟩ := balanced_reach hL hsusp hI hrun h64
  refine ⟨fun g hg => ?_, fun hstep t ht => hbal.runtime_mono hok hstep h64 ht⟩
  rw [hg] at hbal
  cases hbal with
  | running _ _ _ hsum hnow => exact ⟨by omega, hnow, fun later hlater => by omega⟩

/-! ### One switch -/

/-- The idle thread starts at `n`, and 10 ticks later thread 1 takes over. -/
def firstSwitch (n : Nat) : List Turn :=
  [⟨.initThreadData 0, n, 0, n⟩, ⟨.runIdle, n, 0, n⟩, ⟨.initThreadData 1, n + 4, 0, n + 4⟩,
    ⟨.wakeThread 1, n + 7, 0, n + 7⟩, ⟨.schedule, n + 10, 0, n + 10⟩]

def noopStart (n : Nat) : Clocked Noop :=
  .start (initSched 0 (fun _ => ⟨.blocked, false, false, {}⟩) Noop.init) n

def playNoted (a : Turn) (x : Clocked Noop × Option Stint) : Clocked Noop × Option Stint :=
  (a.play schedNoop x.1, noteSwitch schedNoop a.label x.1 x.2)

def afterFirstSwitch (n : Nat) : Clocked Noop × Option Stint :=
  (firstSwitch n).foldl (fun x a => playNoted a x) (noopStart n, none)

theorem afterFirstSwitch_run {n : Nat} {ok : ClockOp → Clocked Noop × Option Stint → Prop}
    (h : Meets playNoted (fun a x => a.Can x.1 ∧ ok a.label x) (noopStart n, none)
      (firstSwitch n)) :
    GuardedRun (Noted (ClockStep schedNoop) (noteSwitch schedNoop)) ok (noopStart n, none)
      ((firstSwitch n).map Turn.label).reverse (afterFirstSwitch n) :=
  .of_script (fun _ _ h => ⟨h.2, h.1.step, rfl⟩) h

/-- The idle thread is credited with its 10 ticks. -/
theorem runtime_conserved_first : (afterFirstSwitch 5).2 = some ⟨5, 15⟩ ∧
      (afterFirstSwitch 5).1.pcpu.ctl.runtime 0 = 10 ∧
      ∀ later, 15 ≤ later →
        (afterFirstSwitch 5).1.pcpu.ctl.totalRuntime + (later - 15) = later - 5 := by
  have hnote : (afterFirstSwitch 5).2 = some ⟨5, 15⟩ := by decide
  have hrun : GuardedRun (Noted (ClockStep schedNoop) (noteSwitch schedNoop))
      (fun a _ => a.StartsPastZero) (noopStart 5, none)
      ((firstSwitch 5).map Turn.label).reverse (afterFirstSwitch 5) :=
    afterFirstSwitch_run (by decide)
  have hstart : Noop.Ok (noopStart 5).pcpu.ctl.view Noop.init := by
    intro t ht
    cases ht
  obtain ⟨-, -, hsum⟩ := (runtime_conserved schedNoop_lawful (id) hstart hrun
    (by decide)).1 _ hnote
  exact ⟨hnote, by decide, hsum⟩

/-- At 0 the idle thread starts, and its 10 ticks are lost. -/
theorem runtime_lost_at_zero :
    GuardedRun (Noted (ClockStep schedNoop) (noteSwitch schedNoop)) (fun _ _ => True)
        (noopStart 0, none) ((firstSwitch 0).map Turn.label).reverse (afterFirstSwitch 0) ∧
      (afterFirstSwitch 0).2 = some ⟨0, 10⟩ ∧ (afterFirstSwitch 0).1.now = 10 ∧
      (afterFirstSwitch 0).1.pcpu.ctl.totalRuntime + (10 - 10) ≠ 10 - 0 :=
  ⟨afterFirstSwitch_run (by decide), by decide, by decide, by decide⟩

end

end Sima.Sched
