import Sima.Sched.BvtQueue
import Sima.Sched.RtdsPick
import Sima.Sched.ThreadList

/-!
# The shortcut for a pCPU with one runnable thread

`sched_clear_reschedule_if_current_only` drops a reschedule request when it finds
that `schedule` would come back to the thread that runs. It looks at the status of
each thread on `thread_list`, while `schedule` asks the queues of the scheduler. So
two things have to agree: the queues with the statuses, which is what a lawful
scheduler keeps, and the list with the threads of the pCPU.

The second is not a matter of one pCPU. The list is the one of `ThreadList`, shared
by all of them, and a thread that is set up twice breaks it. Here a pCPU takes its
steps beside that list: the loops over it visit what a walk meets, and the set-up of
a thread anywhere changes it. As long as every thread is set up once, a walk meets
the threads of the pCPU, and this machine does what `ClockStep` says.
-/

namespace Sima.Sched

open Lib ThreadInit

variable {σ : Type}

/-- The threads that the loop visits stand in for the list. -/
def SchedControl.withList (c : SchedControl) (l : List Tid) : SchedControl :=
  { c with threadList := l }

def Clocked.withList (s : Clocked σ) (l : List Tid) : Clocked σ :=
  s.setCtl (s.pcpu.ctl.withList l)

/-- The thread of a node, if it belongs to the pCPU. -/
def ownThread (here : Tid → Bool) : NodeAddr → Option Tid
  | .node t => if here t then some t else none
  | _ => none

/-- A loop over `thread_list` ends, and of the threads that it visits those in `l`
belong to the pCPU. -/
def Sees (here : Tid → Bool) (inits : List ThreadInit) (l : List Tid) : Prop :=
  ∃ n nodes, (Registry.setUp inits).mem.walk .threadList n = some nodes ∧
    nodes.filterMap (ownThread here) = l

/-- A pCPU, and the set-ups of threads on any pCPU so far. -/
structure Host (σ : Type) where
  inits : List ThreadInit
  cpu : Clocked σ

inductive HostOp where
  | setUp (op : ThreadInit) (caller : Caller)
  | act (op : ClockOp)

/-- The calls that go through `thread_list`. -/
def ClockOp.loops : ClockOp → Bool
  | .call .schedule _ | .clear => true
  | _ => false

def ClockOp.setsUp : ClockOp → Bool
  | .call (.initThreadData _) _ => true
  | _ => false

/-- One step. `here` tells the threads of this pCPU. -/
inductive HostStep (here : Tid → Bool) (S : AcrnScheduler σ) :
    HostOp → Host σ → Host σ → Prop where
  | setUp {op : ThreadInit} {caller : Caller} {hi : Nat} {h : Host σ} :
      here op.tid = true → Readings h.cpu.now hi caller.ticks → h.cpu.now ≤ hi →
      HostStep here S (.setUp op caller) h
        ⟨h.inits ++ [op], h.cpu.call S caller hi (.initThreadData op.tid)⟩
  | elsewhere {op : ThreadInit} {caller : Caller} {h : Host σ} :
      here op.tid = false →
      HostStep here S (.setUp op caller) h { h with inits := h.inits ++ [op] }
  | act {op : ClockOp} {h : Host σ} {cpu : Clocked σ} : op.setsUp = false →
      op.loops = false → ClockStep S op h.cpu cpu →
      HostStep here S (.act op) h { h with cpu := cpu }
  | loop {op : ClockOp} {l : List Tid} {h : Host σ} {cpu : Clocked σ} :
      op.loops = true → Sees here h.inits l →
      ClockStep S op (h.cpu.withList l) cpu →
      HostStep here S (.act op) h { h with cpu := cpu.withList h.cpu.pcpu.ctl.threadList }

/-- No thread is set up a second time. -/
def SetUpOnce : HostOp → Host σ → Prop
  | .setUp op _, h => op.tid ∉ h.inits.map tid
  | .act _, _ => True

instance : ∀ (op : HostOp) (h : Host σ), Decidable (SetUpOnce op h)
  | .setUp op _, h => inferInstanceAs (Decidable (op.tid ∉ h.inits.map tid))
  | .act _, _ => inferInstanceAs (Decidable True)

/-! ## What the loops visit -/

theorem filterMap_ownThread (here : Tid → Bool) (ts : List Tid) :
    (ts.map NodeAddr.node).filterMap (ownThread here) = ts.filter here := by
  induction ts with
  | nil => rfl
  | cons t ts ih =>
    rw [List.map_cons, List.filterMap_cons, List.filter_cons, ownThread, ih]
    cases here t with
    | false => rfl
    | true => rfl

variable {here : Tid → Bool} {inits : List ThreadInit} {l : List Tid}

theorem Sees.eq_filter (h : Sees here inits l) (hnodup : (inits.map tid).Nodup) :
    l = (inits.map tid).filter here := by
  obtain ⟨n, nodes, hwalk, rfl⟩ := h
  have hholds := Registry.setUp_holds hnodup
  cases hinit : (Registry.setUp inits).threadListInitialized with
  | false =>
    -- the list is zeroed memory as long as there is no thread
    have hnil : inits = [] := List.map_eq_nil_iff.mp (hholds.clean hinit)
    subst hnil
    have hnone : (Registry.setUp []).mem.walk .threadList n = none :=
      NodeMem.walkFrom_self rfl (by decide) n
    rw [hnone] at hwalk
    cases hwalk
  | true =>
    have hring := hholds.ring
    rw [Registry.initThreadListOnce_idem hinit] at hring
    have hall := hring.walk (Nat.lt_succ_self _)
    rw [NodeMem.walkFrom_unique hwalk hall, filterMap_ownThread]

/-! ## The machine does what its pCPU does -/

variable {S : AcrnScheduler σ} {h h' h₀ : Host σ} {op : HostOp} {cop : ClockOp} {s s' : Clocked σ}
  {tr : List HostOp} {P : Clocked σ → Prop} {c : SchedControl} {cur : Tid}

theorem ClockStep.threadList_eq (hs : ClockStep S cop s s') (hop : cop.setsUp = false) :
    s'.pcpu.ctl.threadList = s.pcpu.ctl.threadList := by
  cases hs with
  | call hal _ _ =>
    refine (SchedOp.step_of_allowed hal _).threadList_eq fun t heq => ?_
    rw [heq] at hop
    cases hop
  | clear =>
    simp only [clearRescheduleIfCurrentOnly]
    split <;> rfl
  | yield => rfl
  | suspend => rfl

theorem ClockOp.setsUp_of_loops (h : cop.loops = true) : cop.setsUp = false := by
  cases cop with
  | call op caller =>
    cases op with
    | schedule => rfl
    | _ => cases h
  | _ => rfl

theorem Clocked.withList_self (s : Clocked σ) : s.withList s.pcpu.ctl.threadList = s := rfl

/-- No thread was set up twice, and the pCPU knows its own. -/
structure HostOk (here : Tid → Bool) (h : Host σ) : Prop where
  nodup : (h.inits.map tid).Nodup
  own : h.cpu.pcpu.ctl.threadList = (h.inits.map tid).filter here

theorem HostOk.sees (h : HostOk here h₀) (hs : Sees here h₀.inits l) :
    l = h₀.cpu.pcpu.ctl.threadList := by
  rw [h.own]
  exact hs.eq_filter h.nodup

theorem HostOk.step (hok : HostOk here h) (honce : SetUpOnce op h) (hs : HostStep here S op h h') :
    HostOk here h' ∧ (h'.cpu = h.cpu ∨ ∃ cop, ClockStep S cop h.cpu h'.cpu) := by
  have hadd : ∀ {i}, i.tid ∉ h.inits.map tid → ((h.inits ++ [i]).map tid).Nodup := by
    intro i hi
    rw [List.map_append, List.nodup_append_comm]
    exact List.nodup_cons.mpr ⟨hi, hok.nodup⟩
  cases hs with
  | @setUp i caller hi _ hhere hr hnow =>
    have hnew : i.tid ∉ h.cpu.pcpu.ctl.threadList := by
      rw [hok.own]
      exact fun hmem => honce (List.mem_of_mem_filter hmem)
    have hal : (SchedOp.initThreadData i.tid).Allowed h.cpu.pcpu.ctl := hnew
    refine ⟨⟨hadd honce, ?_⟩, .inr ⟨_, .call hal hr hnow⟩⟩
    show h.cpu.pcpu.ctl.threadList ++ [i.tid] = _
    rw [List.map_append, List.filter_append, ← hok.own]
    simp [hhere]
  | @elsewhere i caller _ hhere =>
    refine ⟨⟨hadd honce, ?_⟩, .inl rfl⟩
    rw [List.map_append, List.filter_append, ← hok.own]
    simp [hhere]
  | act hop _ hstep =>
    refine ⟨⟨hok.nodup, ?_⟩, .inr ⟨_, hstep⟩⟩
    exact (hstep.threadList_eq hop).trans hok.own
  | @loop cop l _ cpu hloop hsees hstep =>
    rw [hok.sees hsees, Clocked.withList_self] at hstep
    have hlist := hstep.threadList_eq (ClockOp.setsUp_of_loops hloop)
    rw [← hlist]
    exact ⟨⟨hok.nodup, hlist.trans hok.own⟩, .inr ⟨_, hstep⟩⟩

/-- What the steps of a pCPU keep holds on every run on which no thread is set up
twice. -/
theorem HostOk.reach (hok : HostOk here h₀) (hP : P h₀.cpu)
    (hstep : ∀ {cop s s'}, P s → ClockStep S cop s s' → P s')
    (hrun : GuardedRun (HostStep here S) SetUpOnce h₀ tr h) : HostOk here h ∧ P h.cpu := by
  refine hrun.inv (P := fun _ h => HostOk here h ∧ P h.cpu) ⟨hok, hP⟩ ?_
  rintro op tr h h' ⟨hok, hP⟩ honce hs
  obtain ⟨hok', hsame | ⟨cop, hcs⟩⟩ := hok.step honce hs
  · rw [← hsame] at hP
    exact ⟨hok', hP⟩
  · exact ⟨hok', hstep hP hcs⟩

/-! ## What the shortcut finds out -/

theorem onlyRunnableLoop_spec {ts : List Tid} {n : Nat} (h : onlyRunnableLoop c cur ts n = true) :
    ∀ t ∈ ts, t ≠ c.idle → ¬ Asleep c.view t → t = cur := by
  induction ts generalizing n with
  | nil => intro t ht; cases ht
  | cons u ts ih =>
    rw [onlyRunnableLoop] at h
    intro t ht hidle hawake
    split at h
    · next hskip =>
      rcases List.mem_cons.mp ht with rfl | ht
      · -- it was skipped, so it is the idle thread or asleep
        refine absurd ?_ hawake
        cases hst : (c.obj t).status with
        | blocked => exact .inl hst
        | running | runnable =>
          exact .inr (by simpa [SchedControl.isIdleThread, hidle,
            ThreadObject.isRunnableOrRunning, hst] using hskip)
      · exact ih h t ht hidle hawake
    · split at h
      · cases h
      rename_i hcur
      rcases List.mem_cons.mp ht with rfl | ht
      · have hfirst : n = 0 ∧ t = cur := by simpa using hcur
        exact hfirst.2
      · exact ih h t ht hidle hawake

/-- The current thread is awake, and nobody else of the pCPU is. -/
theorem cleared_spec (h : (clearRescheduleIfCurrentOnly c).1 = true) :
    ∃ cur, c.currObj = some cur ∧ cur ≠ c.idle ∧ ¬ Asleep c.view cur ∧
      ∀ t ∈ c.threadList, t ≠ c.idle → ¬ Asleep c.view t → t = cur := by
  rw [clearRescheduleIfCurrentOnly] at h
  split at h
  · next hclear =>
    obtain ⟨-, honly⟩ := Bool.and_eq_true_iff.mp hclear
    rw [currentIsOnlyRunnable] at honly
    split at honly
    · cases honly
    rename_i cur hcur
    split at honly
    · cases honly
    rename_i hcond
    simp only [SchedControl.isIdleThread, ThreadObject.isRunnableOrRunning, Bool.or_eq_true,
      beq_iff_eq, not_or, Bool.not_eq_true] at hcond
    obtain ⟨⟨hidle, hblk⟩, hrun⟩ := hcond
    refine ⟨cur, hcur, hidle, ?_, onlyRunnableLoop_spec honly⟩
    rintro (hst | hb)
    · have hst : (c.obj cur).status = .blocked := hst
      simp [hst] at hrun
    · have hb : (c.obj cur).beBlocking = true := hb
      rw [hblk] at hb
      cases hb
  · cases h

/-! ## `schedule` would have come back -/

/-- Whenever the shortcut clears the request, `schedule` would at once have come
back to the current thread, which is not about to block; and every other thread of
the pCPU is BLOCKED — it is not runnable, not about to block, and a priority request
for it would not be passed on. -/
def ShortcutSound (S : AcrnScheduler σ) (here : Tid → Bool) (h₀ : Host σ) : Prop :=
  ∀ {tr h l}, GuardedRun (HostStep here S) SetUpOnce h₀ tr h → Sees here h.inits l →
    (clearRescheduleIfCurrentOnly (h.cpu.withList l).pcpu.ctl).1 = true →
    ∃ cur, h.cpu.pcpu.ctl.currObj = some cur ∧
      (h.cpu.pcpu.ctl.obj cur).beBlocking = false ∧
      (∀ {hi ticks}, Readings h.cpu.now hi ticks →
        (schedule S ticks (h.cpu.withList l).pcpu).ctl.currObj = some cur) ∧
      ∀ t ∈ h.inits.map tid, here t = true → t ≠ h.cpu.pcpu.ctl.idle →
        t ≠ cur → (h.cpu.pcpu.ctl.obj t).status = .blocked ∧
          (h.cpu.pcpu.ctl.obj t).beBlocking = false

/-- A lawful scheduler that never idles while the current thread can run on keeps
that. -/
theorem shortcutSound_of_busy {I M : RunView → σ → Prop} {cpu : Clocked σ} (hlaw : Lawful S I M)
    (hempty : cpu.pcpu.ctl.threadList = []) (hP : P cpu)
    (hstep : ∀ {cop s s'}, P s → ClockStep S cop s s' → P s')
    (hok : ∀ {s}, P s → s.pcpu.ctl.view.Ok ∧ I s.pcpu.ctl.view s.pcpu.priv)
    (hbusy : ∀ {s cur hi ticks}, P s → s.pcpu.ctl.currObj = some cur →
      cur ≠ s.pcpu.ctl.idle → ¬ Asleep s.pcpu.ctl.view cur → Readings s.now hi ticks →
      (pick S ticks s.pcpu).1 ≠ s.pcpu.ctl.idle) : ShortcutSound S here ⟨[], cpu⟩ := by
  intro tr h l hrun hsees hclear
  have hstart : HostOk here (⟨[], cpu⟩ : Host σ) := ⟨List.nodup_nil, hempty⟩
  obtain ⟨hhost, hPh⟩ := hstart.reach hP hstep hrun
  obtain ⟨hview, hI⟩ := hok hPh
  rw [hhost.sees hsees, Clocked.withList_self] at hclear ⊢
  obtain ⟨cur, hcur, hidle, hawake, honly⟩ := cleared_spec hclear
  have hother : ∀ t, h.cpu.pcpu.ctl.view.beBlocking t = true →
      t ∈ h.cpu.pcpu.ctl.threadList → t = cur := by
    intro t hb hmem
    have heq := hview.blocking t hmem hb
    rw [SchedControl.view_currObj, hcur] at heq
    exact (Option.some.inj heq).symm
  refine ⟨cur, hcur, ?_, fun {hi ticks} hr => ?_, fun t ht hhere htidle htcur => ?_⟩
  · simpa using (not_or.mp hawake).2
  · have hcur' : h.cpu.pcpu.ctl.currObj ≠ none := by simp [hcur]
    obtain ⟨hview', -, hcan⟩ := hlaw.schedule ticks hcur' hview hI
    have hmem := hview'.current _ (currObj_schedule S ticks h.cpu.pcpu)
    rw [view_schedule, RunView.switchTo_threadList] at hmem
    have hne := hbusy hPh hcur hidle hawake hr
    obtain ⟨hst, hb⟩ := hcan.resolve_left hne
    rw [currObj_schedule, honly _ hmem hne]
    rintro (hw | hw)
    · exact hst hw
    · rw [hb] at hw
      cases hw
  · have hmem : t ∈ h.cpu.pcpu.ctl.threadList := by
      rw [hhost.own]
      exact List.mem_filter.mpr ⟨ht, hhere⟩
    have hblk : h.cpu.pcpu.ctl.view.beBlocking t ≠ true := fun hb => htcur (hother t hb hmem)
    have hasleep : Asleep h.cpu.pcpu.ctl.view t := by
      by_contra hw
      exact htcur (honly t hmem htidle hw)
    exact ⟨hasleep.resolve_right hblk, by simpa using hblk⟩

/-- A thread that runs and does not want to block competes for the CPU. -/
theorem contending_of_current {v : RunView} (hok : v.Ok) (hcur : v.currObj = some cur)
    (hidle : cur ≠ v.idle) (hawake : ¬ Asleep v cur) : Rtds.Contending v cur := by
  have hblk := (not_or.mp hawake).2
  exact ⟨hok.current cur hcur, hidle, .inl ⟨hcur, by simpa using hblk⟩⟩

variable {ticks : Nat → Nat} {khz : Nat}

theorem RtdsState.busy {cur hi : Nat} {s : Clocked Rtds} (hkhz : 0 < khz) (h : RtdsState khz s)
    (hcur : s.pcpu.ctl.currObj = some cur) (hidle : cur ≠ s.pcpu.ctl.idle)
    (hawake : ¬ Asleep s.pcpu.ctl.view cur) (hr : Readings s.now hi ticks) :
    (Sched.pick (schedRtds khz) ticks s.pcpu).1 ≠ s.pcpu.ctl.idle := by
  obtain ⟨hchoice, -⟩ := h.pick hkhz (by simp [hcur]) hr
  rw [view_beforePick] at hchoice
  intro heq
  exact hchoice.idle.mp heq cur (contending_of_current h.ok hcur hidle hawake)

theorem BvtState.busy {cur : Nat} {params : Tid → BvtParams} {s : Clocked Bvt} (h : BvtState s)
    (hcur : s.pcpu.ctl.currObj = some cur) (hidle : cur ≠ s.pcpu.ctl.idle)
    (hawake : ¬ Asleep s.pcpu.ctl.view cur) :
    (pick (schedBvt khz params) ticks s.pcpu).1 ≠ s.pcpu.ctl.idle := by
  have hin := h.queue.queued cur (h.ok.current cur hcur) hidle hawake
  have hperm : (beforePick (schedBvt khz params) ticks s.pcpu).priv.runqueue.Perm
      s.pcpu.priv.runqueue := perm_consumePriorities _
  rcases Bvt.pickNext_mem khz (beforePick (schedBvt khz params) ticks s.pcpu).ctl
      ⟨true, fun i => ticks (s.pcpu.ctl.threadList.length + i)⟩
      (beforePick (schedBvt khz params) ticks s.pcpu).priv with hmem | ⟨hnil, -⟩
  · intro heq
    have hmem : (pick (schedBvt khz params) ticks s.pcpu).1 ∈ _ := hmem
    rw [heq] at hmem
    exact h.idle (hperm.mem_iff.mp hmem)
  · rw [hnil] at hperm
    rw [List.nil_perm.mp hperm] at hin
    cases hin

/-- Under RTDS and under BVT: on every run on which no thread object is set up
twice, the shortcut clears a request only where `schedule` would have kept the
current thread, and passes over nobody. -/
theorem shortcut_keeps_current {khz : Nat} (hkhz : 0 < khz) (params : Tid → BvtParams)
    (here : Tid → Bool) (idle : Tid) (obj : Tid → ThreadObject) (now : Nat) :
    ShortcutSound (schedRtds khz) here ⟨[], rtdsStart idle obj now⟩ ∧
      ShortcutSound (schedBvt khz params) here ⟨[], bvtStart idle obj now⟩ := by
  constructor
  · exact shortcutSound_of_busy (P := RtdsState khz) (schedRtds_lawful hkhz) rfl
      (.start idle obj now) (fun h hs => h.step hkhz hs) (fun h => ⟨h.ok, h.free⟩)
      fun h hcur hidle hawake hr => h.busy hkhz hcur hidle hawake hr
  · exact shortcutSound_of_busy (P := BvtState) (schedBvt_lawful khz params) rfl
      (.start idle obj now) (fun h hs => h.step hs) (fun h => ⟨h.ok, h.queue⟩)
      fun h hcur hidle hawake _ => h.busy hcur hidle hawake

/-! ### One thread, and two -/

namespace Host

variable (S : AcrnScheduler σ) (n : Nat)

/-- A thread is set up at time `n`. -/
def setUpAt (op : ThreadInit) (h : Host σ) : Host σ :=
  ⟨h.inits ++ [op], h.cpu.call S ⟨true, fun _ => n⟩ n (.initThreadData op.tid)⟩

/-- A call at time `n` that does not go through the list. -/
def callAt (op : SchedOp) (h : Host σ) : Host σ :=
  { h with cpu := h.cpu.call S ⟨true, fun _ => n⟩ n op }

/-- `schedule` at time `n`, when the list shows `l`. -/
def scheduleAt (l : List Tid) (h : Host σ) : Host σ :=
  { h with
    cpu := ((h.cpu.withList l).call S ⟨true, fun _ => n⟩ n .schedule).withList
      h.cpu.pcpu.ctl.threadList }

variable {S n} {op : SchedOp} {i : ThreadInit}

theorem step_setUpAt (hhere : here i.tid = true) (hnow : h.cpu.now ≤ n) :
    HostStep here S (.setUp i ⟨true, fun _ => n⟩) h (h.setUpAt S n i) :=
  .setUp hhere (.const hnow (le_refl n)) hnow

theorem step_callAt (hset : (ClockOp.call op ⟨true, fun _ => n⟩).setsUp = false)
    (hloop : (ClockOp.call op ⟨true, fun _ => n⟩).loops = false)
    (hal : op.Allowed h.cpu.pcpu.ctl) (hfrom : h.cpu.readsFrom op ≤ n) (hnow : h.cpu.now ≤ n) :
    HostStep here S (.act (.call op ⟨true, fun _ => n⟩)) h (h.callAt S n op) :=
  .act hset hloop (.call hal (.const hfrom (le_refl n)) hnow)

theorem step_scheduleAt (hsees : Sees here h.inits l)
    (hcur : h.cpu.pcpu.ctl.currObj ≠ none) (hnow : h.cpu.now ≤ n) :
    HostStep here S (.act (.call .schedule ⟨true, fun _ => n⟩)) h (h.scheduleAt S n l) := by
  have hal : SchedOp.schedule.Allowed (h.cpu.withList l).pcpu.ctl := hcur
  exact .loop rfl hsees (.call hal (.const hnow (le_refl n)) hnow)

end Host

open Host

/-- Thread 1 runs alone beside the idle thread 0 until the timer goes off. -/
def aloneHost : Host Rtds :=
  callAt (schedRtds 1000) 2010 .timerTick (scheduleAt (schedRtds 1000) 10 [0, 1]
    (callAt (schedRtds 1000) 8 (.wakeThread 1)
      (setUpAt (schedRtds 1000) 6 (.vcpu 1) (callAt (schedRtds 1000) 5 .runIdle
        (setUpAt (schedRtds 1000) 4 (.thread 0) ⟨[], rtdsStart 0 (fun _ => blankThread) 3⟩)))))

theorem aloneHost_run : ∃ tr, GuardedRun (HostStep (fun _ => true) (schedRtds 1000))
    SetUpOnce ⟨[], rtdsStart 0 (fun _ => blankThread) 3⟩ tr aloneHost := by
  refine ⟨_, .cons (.cons (.cons (.cons (.cons (.cons .nil
    ?_ (step_setUpAt ?_ ?_)) ?_ (step_callAt ?_ ?_ ?_ ?_ ?_))
    ?_ (step_setUpAt ?_ ?_)) ?_ (step_callAt ?_ ?_ ?_ ?_ ?_))
    ?_ (step_scheduleAt ⟨4, [.node 0, .node 1], ?_, ?_⟩ ?_ ?_))
    ?_ (step_callAt ?_ ?_ ?_ ?_ ?_)⟩
  all_goals decide

/-- The timer asked for a reschedule, and `schedule` would not change anything. -/
theorem shortcut_keeps_current_alone :
    (clearRescheduleIfCurrentOnly (aloneHost.cpu.withList [0, 1]).pcpu.ctl).1 = true ∧
      ∃ cur, aloneHost.cpu.pcpu.ctl.currObj = some cur ∧ (schedule (schedRtds 1000) (fun _ => 2010)
          (aloneHost.cpu.withList [0, 1]).pcpu).ctl.currObj = some cur := by
  have hclear : (clearRescheduleIfCurrentOnly
      (aloneHost.cpu.withList [0, 1]).pcpu.ctl).1 = true := by decide
  obtain ⟨tr, hrun⟩ := aloneHost_run
  obtain ⟨cur, hcur, -, hsched, -⟩ := (shortcut_keeps_current (show 0 < 1000 by decide)
    (fun _ => {}) (fun _ => true) 0 (fun _ => blankThread) 3).1 hrun
    ⟨4, [.node 0, .node 1], by decide, by decide⟩ hclear
  exact ⟨hclear, cur, hcur, hsched (.const (by decide) (le_refl 2010))⟩

/-- Threads 1 and 2 are set up, thread 1 a second time — its VM was created anew.
Then both are woken, and the timer goes off when thread 1 has used up its budget. -/
def recreatedHost : Host Rtds :=
  callAt (schedRtds 1000) 2010 .timerTick (scheduleAt (schedRtds 1000) 10 [0, 1]
    (callAt (schedRtds 1000) 9 (.wakeThread 2) (callAt (schedRtds 1000) 8 (.wakeThread 1)
      (setUpAt (schedRtds 1000) 7 (.vcpu 1) (setUpAt (schedRtds 1000) 6 (.vcpu 2)
        (setUpAt (schedRtds 1000) 6 (.vcpu 1) (callAt (schedRtds 1000) 5 .runIdle
          (setUpAt (schedRtds 1000) 4 (.thread 0)
            ⟨[], rtdsStart 0 (fun _ => blankThread) 3⟩))))))))

/-- Thread 2 is runnable and has budget, and `schedule` would run it. But the list
shows threads 0 and 1 only, and the shortcut takes the request back. -/
theorem shortcut_skips_runnable : ∃ tr h,
    GuardedRun (HostStep (fun _ => true) (schedRtds 1000)) (fun _ _ => True)
      ⟨[], rtdsStart 0 (fun _ => blankThread) 3⟩ tr h ∧
      Sees (fun _ => true) h.inits [0, 1] ∧
      (clearRescheduleIfCurrentOnly (h.cpu.withList [0, 1]).pcpu.ctl).1 = true ∧
      h.cpu.pcpu.ctl.currObj = some 1 ∧
      (h.cpu.pcpu.ctl.obj 2).status = .runnable ∧
      (schedule (schedRtds 1000) (fun _ => h.cpu.now)
        (h.cpu.withList [0, 1]).pcpu).ctl.currObj = some 2 := by
  refine ⟨_, recreatedHost, .cons (.cons (.cons (.cons (.cons (.cons (.cons (.cons (.cons .nil
    trivial (step_setUpAt ?_ ?_)) trivial (step_callAt ?_ ?_ ?_ ?_ ?_))
    trivial (step_setUpAt ?_ ?_)) trivial (step_setUpAt ?_ ?_))
    trivial (step_setUpAt ?_ ?_)) trivial (step_callAt ?_ ?_ ?_ ?_ ?_))
    trivial (step_callAt ?_ ?_ ?_ ?_ ?_))
    trivial (step_scheduleAt ⟨4, [.node 0, .node 1], ?_, ?_⟩ ?_ ?_))
    trivial (step_callAt ?_ ?_ ?_ ?_ ?_),
    ⟨4, [.node 0, .node 1], ?_, ?_⟩, ?_, ?_, ?_, ?_⟩
  all_goals decide

end Sima.Sched
