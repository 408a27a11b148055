import Sima.Arm64.VcpuSys

/-!
# What a step of the vCPU threads can do

What is to be known of a vCPU thread is about one vCPU while all of them move. So
this module says once what a step does to a pCPU (`PcpuEffect`), to the state of
a vCPU (`StateEffect`) and to its program place, and keeps the invariant
that all of it rests on.
-/

namespace Sima.Arm64

open Sched VcpuSys SchedControl

variable {σ : Type}

namespace VcpuSys

variable {s : VcpuSys σ} {v w : Tid} {n m : Nat}

section

variable (s v n) (pc : VcpuPc) (f : Vcpu → Vcpu) (p : Pcpu σ) (e : El1Regs)

@[simp] theorem goto_pcpu : (s.goto v pc).pcpu = s.pcpu := rfl
@[simp] theorem goto_vcpu : (s.goto v pc).vcpu = s.vcpu := rfl
@[simp] theorem goto_started : (s.goto v pc).started = s.started := rfl
@[simp] theorem goto_pc_self : (s.goto v pc).pc v = pc := by simp [goto]

@[simp] theorem edit_vcpu_self : (s.edit v f).vcpu v = f (s.vcpu v) := by
  simp [edit]

@[simp] theorem setPcpu_el1 : (s.setPcpu n p).el1 = s.el1 := rfl
@[simp] theorem setPcpu_vcpu : (s.setPcpu n p).vcpu = s.vcpu := rfl
@[simp] theorem setPcpu_pc : (s.setPcpu n p).pc = s.pc := rfl
@[simp] theorem setPcpu_started : (s.setPcpu n p).started = s.started := rfl
@[simp] theorem setPcpu_pcpu_self : (s.setPcpu n p).pcpu n = p := by
  simp [setPcpu]

@[simp] theorem setEl1_vcpu : (s.setEl1 n e).vcpu = s.vcpu := rfl
@[simp] theorem setEl1_el1_self : (s.setEl1 n e).el1 n = e := by simp [setEl1]

end

@[simp] theorem goto_pc_of_ne {pc : VcpuPc} (h : v ≠ w) :
    (s.goto w pc).pc v = s.pc v := by simp [goto, h]
@[simp] theorem edit_vcpu_of_ne {f : Vcpu → Vcpu} (h : v ≠ w) :
    (s.edit w f).vcpu v = s.vcpu v := by simp [edit, h]
@[simp] theorem setPcpu_pcpu_of_ne {p : Pcpu σ} (h : n ≠ m) :
    (s.setPcpu m p).pcpu n = s.pcpu n := by simp [setPcpu, h]
@[simp] theorem setEl1_el1_of_ne {e : El1Regs} (h : n ≠ m) :
    (s.setEl1 m e).el1 n = s.el1 n := by simp [setEl1, h]

section

variable (B : Board) (S : AcrnScheduler σ) (k : Nat) (t : Tid)
  (ticks : Nat → Nat) (s : VcpuSys σ)

@[simp] theorem unload_pcpu : (s.unload B k t).pcpu = s.pcpu := by
  rw [unload]; split <;> rfl
@[simp] theorem unload_pc : (s.unload B k t).pc = s.pc := by
  rw [unload]; split <;> rfl
@[simp] theorem unload_el1 : (s.unload B k t).el1 = s.el1 := by
  rw [unload]; split <;> rfl
@[simp] theorem unload_started : (s.unload B k t).started = s.started := by
  rw [unload]; split <;> rfl
@[simp] theorem unload_state (v : Tid) : ((s.unload B k t).vcpu v).state = (s.vcpu v).state := by
  rw [unload]
  split
  · by_cases h : v = t
    · subst h; simp
    · simp [h]
  · rfl
@[simp] theorem load_pcpu : (s.load B k t).pcpu = s.pcpu := by
  rw [load]; split <;> rfl
@[simp] theorem load_pc : (s.load B k t).pc = s.pc := by
  rw [load]; split <;> rfl
@[simp] theorem load_vcpu : (s.load B k t).vcpu = s.vcpu := by
  rw [load]; split <;> rfl
@[simp] theorem load_started : (s.load B k t).started = s.started := by
  rw [load]; split <;> rfl

theorem schedule_cases : s.schedule B S k ticks = s.setPcpu k (Sched.schedule S ticks (s.pcpu k)) ∨
    ∃ prev next, (s.pcpu k).ctl.currObj = some prev ∧
      (Sched.schedule S ticks (s.pcpu k)).ctl.currObj = some next ∧ prev ≠ next ∧
      s.schedule B S k ticks = ((s.unload B k prev).load B k next).setPcpu k
        (Sched.schedule S ticks (s.pcpu k)) := by
  rw [schedule]
  split
  · next prev next hprev hnext =>
    split
    · exact .inl rfl
    · next hne => exact .inr ⟨prev, next, hprev, hnext, hne, rfl⟩
  · exact .inl rfl

@[simp] theorem schedule_pc : (s.schedule B S k ticks).pc = s.pc := by
  rcases s.schedule_cases B S k ticks with h | ⟨_, _, _, _, _, h⟩ <;> rw [h] <;> simp

@[simp] theorem schedule_started : (s.schedule B S k ticks).started = s.started := by
  rcases s.schedule_cases B S k ticks with h | ⟨_, _, _, _, _, h⟩ <;> rw [h] <;> simp

@[simp] theorem schedule_state (v : Tid) :
    ((s.schedule B S k ticks).vcpu v).state = (s.vcpu v).state := by
  rcases s.schedule_cases B S k ticks with h | ⟨_, _, _, _, _, h⟩ <;> rw [h] <;> simp

@[simp] theorem schedule_pcpu_self :
    (s.schedule B S k ticks).pcpu k = Sched.schedule S ticks (s.pcpu k) := by
  rcases s.schedule_cases B S k ticks with h | ⟨_, _, _, _, _, h⟩ <;> rw [h] <;> simp

end

@[simp] theorem schedule_pcpu_of_ne {B : Board} {S : AcrnScheduler σ}
    {ticks : Nat → Nat} (hne : m ≠ n) : (s.schedule B S n ticks).pcpu m = s.pcpu m := by
  rcases s.schedule_cases B S n ticks with h | ⟨_, _, _, _, _, h⟩ <;> rw [h] <;> simp [hne]

end VcpuSys

/-! ## The basic invariant -/

/-- Whom a CPU_ON in progress is about. -/
def VcpuPc.target : VcpuPc → Option Tid
  | .preparing t _ | .launching t _ _ _ | .waking t _ _ _ => some t
  | _ => none

structure SysOk (B : Board) (I : RunView → σ → Prop) (s : VcpuSys σ) : Prop where
  view : ∀ n, (s.pcpu n).ctl.view.Ok
  sched : ∀ n, I (s.pcpu n).ctl.view (s.pcpu n).priv
  busy : ∀ n, (s.pcpu n).ctl.currObj ≠ none
  member : ∀ {v}, B.isVcpu v = true → v ∈ (s.home B v).ctl.threadList
  owner : ∀ {v n}, B.isVcpu v = true → v ∈ (s.pcpu n).ctl.threadList → n = B.pcpuOf v
  notIdle : ∀ {v}, B.isVcpu v = true → v ≠ (s.home B v).ctl.idle
  target : ∀ {v t}, B.isVcpu v = true → (s.pc v).target = some t →
    B.isVcpu t = true ∧ B.vmOf t = B.vmOf v

/-- The call of the scheduler that a step makes on pCPU `n`: on whose behalf. -/
def Causes (B : Board) (a : VcpuAct) (s : VcpuSys σ) (n : Nat) : SchedOp → Prop
  | .initThreadData t => B.isVcpu t = false
  | .runIdle => False
  | .sleepThread t => B.isVcpu t = true → a = .tau t ∧ s.Runs B t ∧
      (s.pc t = .endSleep ∨ ∃ why, s.pc t = .offSleep why)
  | .wakeThread t => B.isVcpu t = true →
      (∃ v entry ctx, a = .success v t entry ctx) ∨ ∃ vm, a = .startVm vm t
  | .requestThreadPriority _ => True
  | .schedule => ∃ t, (s.pcpu n).ctl.currObj = some t ∧
      (B.isVcpu t = true → (a = .tau t ∧ s.pc t = .endSchedule) ∨
        (a = .decide t ∧ s.pc t = .deciding))
  | .timerTick => True

/-- What a step can do to pCPU `n`. -/
inductive PcpuEffect (B : Board) (S : AcrnScheduler σ) (a : VcpuAct)
    (s : VcpuSys σ) (n : Nat) : Pcpu σ → Prop where
  | same : PcpuEffect B S a s n (s.pcpu n)
  | call {op p'} : SchedStep S op (s.pcpu n) p' → Causes B a s n op → PcpuEffect B S a s n p'
  | flag {p'} : p'.ctl.view = (s.pcpu n).ctl.view → p'.priv = (s.pcpu n).priv →
      ((s.pcpu n).ctl.needReschedule = true → p'.ctl.needReschedule = true ∨
        currentIsOnlyRunnable (s.pcpu n).ctl = true) →
      PcpuEffect B S a s n p'

/-- The thread that takes the step. -/
def VcpuAct.actor : VcpuAct → Option Tid
  | .instr v _ _ | .trap v _ _ | .cpuOn v _ | .launch v _ | .success v _ _ _
  | .powerOff v _ | .offAgain v _ | .decide v | .resume v | .tau v => some v
  | .startVm _ _ | .world => none

variable {B : Board} {S : AcrnScheduler σ} {I M : RunView → σ → Prop} {s s' : VcpuSys σ}
  {a : VcpuAct} {v t : Tid} {n m vm : Nat}

theorem PcpuEffect.ofSet {p' : Pcpu σ} (h : PcpuEffect B S a s m p') (n : Nat) :
    PcpuEffect B S a s n ((s.setPcpu m p').pcpu n) := by
  by_cases hn : n = m
  · subst hn
    rw [setPcpu_pcpu_self]
    exact h
  · rw [setPcpu_pcpu_of_ne hn]
    exact .same

theorem PcpuEffect.ofSchedule (ticks : Nat → Nat) (hbusy : (s.pcpu m).ctl.currObj ≠ none)
    (hc : Causes B a s m .schedule) (n : Nat) :
    PcpuEffect B S a s n ((s.schedule B S m ticks).pcpu n) := by
  by_cases hn : n = m
  · subst hn
    rw [schedule_pcpu_self]
    exact .call (.schedule ticks hbusy) hc
  · rw [schedule_pcpu_of_ne hn]
    exact .same

theorem needReschedule_clearIfCurrentOnly {c : SchedControl} (hneed : c.needReschedule = true) :
    (clearRescheduleIfCurrentOnly c).2.needReschedule = true ∨ currentIsOnlyRunnable c = true := by
  rw [clearRescheduleIfCurrentOnly]
  split
  · next h => exact .inr (by simpa [hneed] using h)
  · exact .inl hneed

theorem Board.Foreign.causes {op : SchedOp} (h : B.Foreign op) : Causes B a s n op := by
  cases op with
  | initThreadData t => exact h
  | sleepThread t | wakeThread t =>
    intro hv
    rw [show B.isVcpu t = false from h] at hv
    cases hv
  | requestThreadPriority t | timerTick => exact trivial
  | runIdle | schedule => exact h.elim

theorem Board.isVcpu_of_head (h : (B.vcpus vm).head? = some t) :
    B.isVcpu t = true ∧ B.vmOf t = vm :=
  B.mem_vcpus.mp (List.mem_of_mem_head? h)

theorem VcpuStep.pcpu (h : VcpuStep B S a s s') (hok : SysOk B I s) (n : Nat) :
    PcpuEffect B S a s n (s'.pcpu n) := by
  cases h with
  | loopEnter | loopLeave | instr | trap | irq | handled | psciValue | psciEnd
  | cpuOn | prepare | launch | offRunning | offInit | offAgain | decideStay
  | requests | resume | learn => exact .same
  | endSleep caller hrun hpc =>
    exact .ofSet (.call (.sleepThread caller (hok.member hrun.1)) fun _ => ⟨rfl, hrun, .inl hpc⟩) n
  | offSleep caller hrun hpc =>
    exact .ofSet (.call (.sleepThread caller (hok.member hrun.1))
      fun _ => ⟨rfl, hrun, .inr ⟨_, hpc⟩⟩) n
  | endSchedule ticks hrun hpc =>
    exact .ofSchedule ticks (hok.busy _) ⟨_, hrun.2, fun _ => .inl ⟨rfl, hpc⟩⟩ n
  | decideSwitch ticks hrun hpc =>
    exact .ofSchedule ticks (hok.busy _) ⟨_, hrun.2, fun _ => .inr ⟨rfl, hpc⟩⟩ n
  | schedule ticks hcur ht =>
    exact .ofSchedule ticks (hok.busy _) ⟨_, hcur, fun hv => by rw [ht] at hv; cases hv⟩ n
  | yieldCurrent hrun hpc =>
    refine .ofSet ?_ n
    exact .flag rfl rfl fun _ => .inl rfl
  | @clear _ v hrun hpc =>
    refine .ofSet ?_ n
    refine .flag ?_ rfl fun hneed => ?_
    · show view (if s.wantsReschedule B v then _ else _) = _
      split
      · exact view_clearReschedule _
      · rfl
    · show needReschedule (if s.wantsReschedule B v then _ else _) = true ∨ _
      split
      · exact needReschedule_clearIfCurrentOnly hneed
      · exact .inl hneed
  | success caller hrun hpc =>
    obtain ⟨ht, -⟩ := hok.target hrun.1 (by rw [hpc]; rfl)
    exact .ofSet (.call (.wakeThread caller (hok.member ht)) fun _ => .inl ⟨_, _, _, rfl⟩) n
  | startVm caller hnew hbsp =>
    exact .ofSet (.call (.wakeThread caller
      (hok.member (Board.isVcpu_of_head hbsp).1)) fun _ => .inr ⟨_, rfl⟩) n
  | request hv => exact .ofSet (.call (.requestThreadPriority (hok.member hv)) trivial) n
  | sched hstep hforeign => exact .ofSet (.call hstep hforeign.causes) n

/-! ## Consequences for one pCPU -/

namespace PcpuEffect

variable {p' : Pcpu σ}

variable (h : PcpuEffect B S a s n p')

include h

theorem ok (hL : Lawful S I M) (hok : SysOk B I s) :
    p'.ctl.view.Ok ∧ I p'.ctl.view p'.priv ∧ p'.ctl.currObj ≠ none := by
  cases h with
  | same => exact ⟨hok.view n, hok.sched n, hok.busy n⟩
  | call hstep _ =>
    obtain ⟨hv, hI⟩ := hL.step hstep (hok.view n) (hok.sched n)
    exact ⟨hv, hI, hstep.currObj_ne_none (hok.busy n)⟩
  | flag hview hpriv _ =>
    rw [hview, hpriv]
    refine ⟨hok.view n, hok.sched n, ?_⟩
    rw [← view_currObj, hview]
    exact hok.busy n

theorem idle_eq : p'.ctl.idle = (s.pcpu n).ctl.idle := by
  cases h with
  | same => rfl
  | call hstep _ => exact hstep.idle_eq
  | flag hview _ _ => rw [← view_idle, hview, view_idle]

theorem mem_threadList (ht : t ∈ (s.pcpu n).ctl.threadList) : t ∈ p'.ctl.threadList := by
  cases h with
  | same => exact ht
  | call hstep _ => exact hstep.mem_threadList ht
  | flag hview _ _ =>
    rw [← view_threadList, hview]
    exact ht

theorem mem_of_mem (hv : B.isVcpu v = true)
    (hm : v ∈ p'.ctl.threadList) : v ∈ (s.pcpu n).ctl.threadList := by
  cases h with
  | same => exact hm
  | call hstep hc =>
    have hm' : v ∈ p'.ctl.view.threadList := hm
    cases hstep with
    | @initThreadData caller t _ ht =>
      have hlist : v ∈ (s.pcpu n).ctl.threadList ++ [t] := hm'
      rcases List.mem_append.mp hlist with hin | hin
      · exact hin
      · rw [List.mem_singleton.mp hin] at hv
        rw [show B.isVcpu t = false from hc] at hv
        cases hv
    | runIdle => exact hc.elim
    | @sleepThread caller t _ ht =>
      rwa [view_sleepThread, (RunView.sleep_sameOff _ t).threadList] at hm'
    | @wakeThread caller t _ ht =>
      rwa [view_wakeThread, (RunView.wake_sameOff _ t).threadList] at hm'
    | requestThreadPriority ht => rwa [view_requestThreadPriority] at hm'
    | schedule ticks _ => rwa [view_schedule, RunView.switchTo_threadList] at hm'
    | timerTick ticks _ => rwa [view_timerTick] at hm'
  | flag hview _ _ => rwa [← view_threadList, hview] at hm

section

variable (hL : Lawful S I M) (hok : SysOk B I s) (hv : B.isVcpu v = true) (hn : n = B.pcpuOf v)

include hL hok hv hn

/-- A vCPU that sleeps is woken by CPU_ON or `start_vm` only. -/
theorem asleep (hon : ∀ c e x, a ≠ .success c v e x) (hstart : ∀ vm, a ≠ .startVm vm v)
    (ha : Asleep (s.pcpu n).ctl.view v) : Asleep p'.ctl.view v := by
  subst hn
  cases h with
  | same => exact ha
  | call hstep hc =>
    refine hL.asleep (hok.view _) (hok.sched _) (hok.notIdle hv) ha hstep (hok.member hv) ?_
    rintro rfl
    rcases hc hv with ⟨c, e, x, rfl⟩ | ⟨vm, rfl⟩
    · exact hon c e x rfl
    · exact hstart vm rfl
  | flag hview _ _ =>
    rw [hview]
    exact ha

theorem stays_away (ha : Asleep (s.pcpu n).ctl.view v) (hcur : (s.pcpu n).ctl.currObj ≠ some v) :
    p'.ctl.currObj ≠ some v := by
  subst hn
  cases h with
  | same => exact hcur
  | @call op _ hstep hc =>
    by_cases hop : op = .schedule
    · subst hop
      cases hstep with
      | schedule ticks _ =>
        exact hL.currObj_schedule (hok.view _) (hok.sched _) (hok.notIdle hv) ha ticks (hok.busy _)
    · rw [hstep.currObj_eq hop (hok.busy _)]
      exact hcur
  | flag hview _ _ =>
    rw [← view_currObj, hview]
    exact hcur

end

/-- A vCPU thread leaves its pCPU by its own call of `schedule` only. -/
theorem current (hok : SysOk B I s)
    (hv : B.isVcpu v = true) (hcur : (s.pcpu n).ctl.currObj = some v)
    (hdecide : a ≠ .decide v) (hend : a = .tau v → s.pc v ≠ .endSchedule) :
    p'.ctl.currObj = some v := by
  cases h with
  | same => exact hcur
  | @call op _ hstep hc =>
    by_cases hop : op = .schedule
    · subst hop
      obtain ⟨t, ht, hwhy⟩ := hc
      rw [hcur] at ht
      injection ht with ht
      subst ht
      rcases hwhy hv with ⟨ha, hpc⟩ | ⟨ha, -⟩
      · exact absurd hpc (hend ha)
      · exact absurd ha hdecide
    · rw [hstep.currObj_eq hop (hok.busy n)]
      exact hcur
  | flag hview _ _ =>
    rw [← view_currObj, hview]
    exact hcur

omit h

end PcpuEffect

/-! ## Consequences for one vCPU -/

theorem VcpuStep.runs (h : VcpuStep B S a s s') (ha : a.actor = some v) : s.Runs B v := by
  cases h with
  | startVm | request | sched | schedule | learn => cases ha
  | loopEnter hrun | loopLeave hrun | endSleep _ hrun | endSchedule _ hrun
  | instr _ _ hrun | trap _ _ hrun | irq _ _ _ hrun | handled _ hrun
  | yieldCurrent hrun | psciValue hrun | psciEnd hrun | cpuOn hrun | prepare hrun
  | launch hrun | success _ hrun | offRunning hrun | offInit hrun | offAgain hrun
  | offSleep _ hrun | clear hrun | decideSwitch _ hrun | decideStay hrun
  | requests hrun | resume hrun =>
    injection ha with ha
    exact ha ▸ hrun

theorem VcpuStep.pc_eq (h : VcpuStep B S a s s') (ha : a.actor ≠ some v) : s'.pc v = s.pc v := by
  have hne : ∀ {w}, some w ≠ some v → v ≠ w := fun hw heq => hw (by rw [heq])
  cases h with
  | startVm | request | sched | learn => rfl
  | schedule ticks => rw [schedule_pc]
  | yieldCurrent => rfl
  | endSchedule ticks | decideSwitch ticks => rw [goto_pc_of_ne (hne ha), schedule_pc]
  | loopEnter | loopLeave | endSleep | instr | trap | irq | handled | psciValue
  | psciEnd | cpuOn | prepare | launch | success | offRunning | offInit | offAgain
  | offSleep | clear | decideStay | requests | resume => exact goto_pc_of_ne (hne ha)

/-- The vCPU that a step puts into VCPU_RUNNING. -/
def VcpuAct.launched : VcpuAct → Option Tid
  | .launch _ t | .startVm _ t => some t
  | _ => none

/-- The state of a vCPU is written by CPU_ON and `start_vm`, and by itself. -/
inductive StateEffect (a : VcpuAct) (v : Tid) (s s' : VcpuSys σ) : Prop where
  | same : a.launched ≠ some v → (∀ why, a ≠ .powerOff v why) →
      (s'.vcpu v).state = (s.vcpu v).state → StateEffect a v s s'
  | launched : a.launched = some v → (s'.vcpu v).state = .running → StateEffect a v s s'
  | powerOff {why} : a = .powerOff v why → (s'.vcpu v).state = .zombie → StateEffect a v s s'
  | ended : a = .tau v → s.pc v = .entry → (s.vcpu v).state ≠ .running →
      (s'.vcpu v).state = .zombie → StateEffect a v s s'

theorem VcpuSys.edit_state {f : Vcpu → Vcpu} {w : Tid}
    (hf : (f (s.vcpu w)).state = (s.vcpu w).state) :
    ((s.edit w f).vcpu v).state = (s.vcpu v).state := by
  by_cases h : v = w
  · subst h
    rw [edit_vcpu_self, hf]
  · rw [edit_vcpu_of_ne h]

theorem VcpuStep.state (h : VcpuStep B S a s s') (v : Tid) : StateEffect a v s s' := by
  cases h with
  | loopEnter | endSleep | instr | yieldCurrent | psciValue | cpuOn | success
  | offAgain | offSleep | clear | decideStay | resume | sched | learn =>
    exact .same (by simp [VcpuAct.launched]) (by simp) rfl
  | endSchedule | decideSwitch | schedule =>
    exact .same (by simp [VcpuAct.launched]) (by simp) (by simp)
  | trap | irq | handled | psciEnd | prepare | request =>
    refine .same (by simp [VcpuAct.launched]) (by simp) ?_
    simp only [goto_vcpu, setPcpu_vcpu]
    exact edit_state rfl
  | requests =>
    refine .same (by simp [VcpuAct.launched]) (by simp) ?_
    exact edit_state processVcpuRequests_state
  | @loopLeave _ w hrun hpc hst =>
    by_cases hv : v = w
    · subst hv
      exact .ended rfl hpc hst (by simp)
    · exact .same (by simp [VcpuAct.launched]) (by simp) (by simp [hv])
  | @launch _ _ t | @startVm _ _ _ t =>
    by_cases hv : v = t
    · subst hv
      exact .launched rfl (by simp)
    · exact .same (by simp [VcpuAct.launched, Ne.symm hv]) (by simp) (by simp [hv])
  | @offRunning _ w why hrun hpc hask hst | @offInit _ w why hrun hpc hask hst =>
    by_cases hv : v = w
    · subst hv
      exact .powerOff rfl (by simp)
    · exact .same (by simp [VcpuAct.launched]) (by simp [Ne.symm hv]) (by simp [hv])

/-- A CPU_ON in progress after a step was in progress before it, was begun by the step, or
was taken by it from one place to the next. -/
theorem VcpuStep.pc_cases (h : VcpuStep B S a s s') (ht : (s'.pc v).target = some t) :
    s'.pc v = s.pc v ∨ (a = .cpuOn v t ∧ s.pc v = .handler ∧ (∃ adv, s'.pc v = .preparing t adv) ∧
      (s.vcpu t).state ≠ .running ∧ B.isVcpu t = true ∧ B.vmOf t = B.vmOf v) ∨
    (∃ root delta e x adv, s.pc v = .preparing t adv ∧ s'.pc v = .launching t e x adv ∧
      s'.vcpu t = prepareLinuxVcpuContext root delta e x (s.vcpu t)) ∨
    ∃ e x adv, s.pc v = .launching t e x adv ∧ s'.pc v = .waking t e x adv ∧
      (s'.vcpu t).state = .running := by
  by_cases ha : a.actor = some v
  · cases h with
    | startVm | request | sched | schedule | learn => cases ha
    | yieldCurrent => exact .inl rfl
    | cpuOn hrun hpc hexit hfn htarget hst =>
      injection ha with ha
      subst ha
      rw [goto_pc_self] at ht ⊢
      injection ht with ht
      subst ht
      exact .inr (.inl ⟨rfl, hpc, ⟨_, rfl⟩, hst,
        B.mem_vcpus.mp (List.mem_of_find?_eq_some htarget)⟩)
    | prepare hrun hpc =>
      injection ha with ha
      subst ha
      rw [goto_pc_self] at ht ⊢
      injection ht with ht
      subst ht
      rw [goto_vcpu, edit_vcpu_self]
      exact .inr (.inr (.inl ⟨_, _, _, _, _, hpc, rfl, rfl⟩))
    | launch hrun hpc =>
      injection ha with ha
      subst ha
      rw [goto_pc_self] at ht ⊢
      injection ht with ht
      subst ht
      refine .inr (.inr (.inr ⟨_, _, _, hpc, rfl, ?_⟩))
      rw [goto_vcpu, edit_vcpu_self]
    | @offInit _ _ why | @offAgain _ _ why | @offSleep _ _ _ why =>
      injection ha with ha
      subst ha
      rw [goto_pc_self] at ht
      cases why <;> cases ht
    | loopEnter | loopLeave | endSleep | endSchedule | instr | trap | irq | handled
    | psciValue | psciEnd | success | offRunning | clear | decideSwitch
    | decideStay | requests | resume =>
      injection ha with ha
      subst ha
      rw [goto_pc_self] at ht
      cases ht
  · exact .inl (h.pc_eq ha)

theorem VcpuStep.target (h : VcpuStep B S a s s') (ht : (s'.pc v).target = some t) :
    (s.pc v).target = some t ∨
      (a = .cpuOn v t ∧ (s.pc v).target = none ∧ (s.vcpu t).state ≠ .running ∧
        B.isVcpu t = true ∧ B.vmOf t = B.vmOf v) := by
  obtain hpc | ⟨ha, hpc, -, hst⟩ | ⟨_, _, _, _, _, hpc, -⟩ | ⟨_, _, _, hpc, -⟩ := h.pc_cases ht
  · exact .inl (hpc ▸ ht)
  · exact .inr ⟨ha, by rw [hpc]; rfl, hst⟩
  · exact .inl (by rw [hpc]; rfl)
  · exact .inl (by rw [hpc]; rfl)

theorem SysOk.step (h : SysOk B I s) (hL : Lawful S I M)
    (hstep : VcpuStep B S a s s') : SysOk B I s' where
  view n := ((hstep.pcpu h n).ok hL h).1
  sched n := ((hstep.pcpu h n).ok hL h).2.1
  busy n := ((hstep.pcpu h n).ok hL h).2.2
  member hv := (hstep.pcpu h _).mem_threadList (h.member hv)
  owner hv hm := h.owner hv ((hstep.pcpu h _).mem_of_mem hv hm)
  notIdle hv := by
    rw [home, (hstep.pcpu h _).idle_eq]
    exact h.notIdle hv
  target hv ht := by
    rcases hstep.target ht with ht | ⟨-, -, -, hvm⟩
    · exact h.target hv ht
    · exact hvm

end Sima.Arm64
