import Sima.Arm64.VcpuInv
import Sima.Sched.Noop

/-!
# A vCPU that is off does not return to its guest

`dispatch_vcpu_trap` and `dispatch_vcpu_irq` do not look at the state of the
vCPU. That a vCPU which has just gone off leaves its pCPU is left to the
scheduler: `sleep_thread` marks the thread and asks for a reschedule, and
`schedule_without_guest_resume` is expected to follow. It does not when the vCPU
has a request pending or when a virtual interrupt asks for forward progress;
then the dispatcher goes on to restore the guest frame. And a CPU_ON that was
overtaken by the next power-off wakes a vCPU that is off again.

Without these three — `Unhindered` — the path is the intended one. The invariant
says where a vCPU that is not RUNNING can be: before its `sleep_thread`, asleep on
its way to `schedule`, or switched out.
-/

namespace Sima.Arm64

open Sched Lib VcpuSys

variable {σ : Type} {B : Board} {S : AcrnScheduler σ} {I M : RunView → σ → Prop} {s s' : VcpuSys σ}
  {a : VcpuAct} {v t : Tid} {tr : List VcpuAct} {ok : VcpuAct → VcpuSys Noop → Prop}

/-- Nothing keeps a vCPU that is off from being scheduled away, and no stale
CPU_ON wakes it. -/
def Unhindered (B : Board) (a : VcpuAct) (s : VcpuSys σ) : Prop :=
  match a with
  | .decide v => (s.vcpu v).state ≠ .running →
      (s.vcpu v).hasPendingRequest = false ∧ s.forwardProgressBlocksReschedule B v = false
  | .success _ t _ _ => (s.vcpu t).state = .running
  | _ => True

/-- The vCPUs are set up and none is launched. -/
structure VcpuStart (B : Board) (I : RunView → σ → Prop) (s : VcpuSys σ) : Prop where
  ok : SysOk B I s
  state : ∀ {v}, B.isVcpu v = true → (s.vcpu v).state = .init
  pendingReq : ∀ {v}, B.isVcpu v = true → (s.vcpu v).pendingReq = 0
  pc : ∀ {v}, B.isVcpu v = true → s.pc v = .entry
  blocked : ∀ {v}, B.isVcpu v = true → ((s.home B v).ctl.obj v).status = .blocked
  started : ∀ vm, s.started vm = false

/-- The vCPU is off: it has gone off, and nobody has launched it since. -/
def isOff (v : Tid) : List VcpuAct → Bool
  | [] => false
  | .powerOff w _ :: tr => if w = v then true else isOff v tr
  | .launch _ w :: tr => if w = v then false else isOff v tr
  | .startVm _ w :: tr => if w = v then false else isOff v tr
  | _ :: tr => isOff v tr

/-! ## Where a vCPU can be that is not running -/

/-- On the way from `sleep_thread` to `schedule`. -/
def VcpuPc.leaving : VcpuPc → Bool
  | .psciEnd _ _ | .clearing | .deciding | .endSchedule => true
  | _ => false

/-- At `sleep_thread`. -/
def VcpuPc.dozing : VcpuPc → Bool
  | .offSleep _ | .endSleep => true
  | _ => false

structure Leaving (B : Board) (s : VcpuSys σ) (v : Tid) : Prop where
  asleep : Asleep (s.home B v).ctl.view v
  current : (s.home B v).ctl.currObj = some v → (s.pc v).leaving = true ∧
    (s.home B v).ctl.needReschedule = true

def OffOk (B : Board) (s : VcpuSys σ) (v : Tid) : Prop :=
  (s.vcpu v).state ≠ .running → (s.Runs B v ∧ (s.pc v).dozing = true) ∨ Leaving B s v

theorem beBlocking_of_asleep (hok : SysOk B I s) (hrun : s.Runs B v)
    (ha : Asleep (s.home B v).ctl.view v) : ((s.home B v).ctl.obj v).beBlocking = true := by
  have hst := ((hok.view _).running v (hok.member hrun.1)).mpr hrun.2
  exact ha.resolve_left (by rw [home, hst]; simp)

/-- The request to reschedule survives until the vCPU follows it. -/
theorem PcpuEffect.needReschedule {n : Nat} {p' : Pcpu σ}
    (h : PcpuEffect B S a s n p') (hv : B.isVcpu v = true)
    (hcur : (s.pcpu n).ctl.currObj = some v) (hb : ((s.pcpu n).ctl.obj v).beBlocking = true)
    (hneed : (s.pcpu n).ctl.needReschedule = true)
    (hdecide : a ≠ .decide v) (hend : a = .tau v → s.pc v ≠ .endSchedule) :
    p'.ctl.needReschedule = true := by
  cases h with
  | same => exact hneed
  | call hstep hc =>
    refine hstep.needReschedule ?_ hneed
    rintro rfl
    obtain ⟨t, ht, hwhy⟩ := hc
    rw [hcur] at ht
    injection ht with ht
    subst ht
    rcases hwhy hv with ⟨ha, hpc⟩ | ⟨ha, -⟩
    · exact hend ha hpc
    · exact hdecide ha
  | flag _ _ hkeep =>
    refine (hkeep hneed).resolve_right ?_
    simp [currentIsOnlyRunnable, hcur, hb]

/-- A step after which the vCPU is no further than before, or has reached
`schedule_without_guest_resume`. -/
theorem Leaving.step (h : Leaving B s v) (hL : Lawful S I M) (hok : SysOk B I s)
    (hv : B.isVcpu v = true) (hstep : VcpuStep B S a s s')
    (hon : ∀ c e x, a ≠ .success c v e x) (hstart : ∀ vm, a ≠ .startVm vm v)
    (hdecide : a ≠ .decide v) (hend : a = .tau v → s.pc v ≠ .endSchedule)
    (hpc : s.Runs B v → (s.pc v).leaving = true → (s'.pc v).leaving = true) : Leaving B s' v := by
  have heffect := hstep.pcpu hok (B.pcpuOf v)
  refine ⟨heffect.asleep hL hok hv rfl hon hstart h.asleep, fun hcur' => ?_⟩
  have hcur : (s.home B v).ctl.currObj = some v := by
    by_contra hne
    exact heffect.stays_away hL hok hv rfl h.asleep hne hcur'
  obtain ⟨hleave, hneed⟩ := h.current hcur
  exact ⟨hpc ⟨hv, hcur⟩ hleave, heffect.needReschedule hv hcur
    (beBlocking_of_asleep hok ⟨hv, hcur⟩ h.asleep) hneed hdecide hend⟩

variable {pc : VcpuPc}

/-- After `sleep_thread` on itself the vCPU is on its way out. -/
theorem leaving_sleepThread (hok : SysOk B I s) (hrun : s.Runs B v) (caller : Caller)
    (hpc : pc.leaving = true) :
    Leaving B ((s.setPcpu (B.pcpuOf v) (sleepThread S caller v (s.home B v))).goto v pc) v := by
  have hst : ((s.home B v).ctl.obj v).isRunning = true := by
    have hrunning : ((s.home B v).ctl.obj v).status = .running :=
      ((hok.view _).running v (hok.member hrun.1)).mpr hrun.2
    simp [ThreadObject.isRunning, hrunning]
  have hhome : ((s.setPcpu (B.pcpuOf v) (sleepThread S caller v (s.home B v))).goto v
      pc).home B v = sleepThread S caller v (s.home B v) := by
    rw [home, goto_pcpu, setPcpu_pcpu_self]
  refine ⟨?_, fun _ => ⟨by rw [goto_pc_self]; exact hpc, ?_⟩⟩
  · rw [hhome, sleepThread, if_pos hst]
    exact .inr (by simp)
  · rw [hhome, sleepThread, if_pos hst]
    rfl

theorem leaving_schedule (h : Leaving B s v) (hL : Lawful S I M) (hok : SysOk B I s)
    (hv : B.isVcpu v = true) (ticks : Nat → Nat) :
    let s' := (s.schedule B S (B.pcpuOf v) ticks).goto v pc
    Leaving B s' v ∧ (s'.home B v).ctl.currObj ≠ some v := by
  have hhome : ((s.schedule B S (B.pcpuOf v) ticks).goto v pc).home B v =
      Sched.schedule S ticks (s.home B v) := by
    rw [home, goto_pcpu, schedule_pcpu_self]
    rfl
  have haway := hL.currObj_schedule (hok.view _) (hok.sched _)
    (hok.notIdle hv) h.asleep ticks (hok.busy _)
  have hasleep := hL.asleep (hok.view _) (hok.sched _) (hok.notIdle hv) h.asleep
    (.schedule ticks (hok.busy _)) (hok.member hv) (by simp)
  intro s'
  refine ⟨⟨?_, fun hcur => ?_⟩, ?_⟩
  · rw [hhome]
    exact hasleep
  · rw [hhome] at hcur
    exact absurd hcur haway
  · rw [hhome]
    exact haway

variable (h : OffOk B s v)

include h

theorem OffOk.running (hrun : s.Runs B v) (hdoze : (s.pc v).dozing = false)
    (hleave : (s.pc v).leaving = false) : (s.vcpu v).state = .running := by
  by_contra hst
  rcases h hst with ⟨-, hd⟩ | hl
  · rw [hdoze] at hd
    cases hd
  · have hd := (hl.current hrun.2).1
    rw [hleave] at hd
    cases hd

theorem OffOk.leaving (hst : (s.vcpu v).state ≠ .running) (hdoze : (s.pc v).dozing = false) :
    Leaving B s v := by
  refine (h hst).resolve_left fun hd => ?_
  rw [hdoze] at hd
  cases hd.2

/-- At the decision about a vCPU that is off, `schedule` is called. -/
theorem OffOk.switches (hrun : s.Runs B v) (hpc : s.pc v = .deciding)
    (hst : (s.vcpu v).state ≠ .running) (hun : Unhindered B (.decide v) s) :
    s.wantsReschedule B v = true ∧ s.forwardProgressBlocksReschedule B v = false := by
  obtain ⟨hpend, hblock⟩ := hun hst
  have hneed := ((h.leaving hst (by rw [hpc]; rfl)).current hrun.2).2
  exact ⟨by simp [wantsReschedule, hneed, hpend], hblock⟩

section

variable (hL : Lawful S I M) (hok : SysOk B I s) (hstep : VcpuStep B S a s s')
  (hun : Unhindered B a s)

include hL hok hstep hun

theorem OffOk.other (hv : B.isVcpu v = true) (ha : a.actor ≠ some v) : OffOk B s' v := by
  intro hst'
  have hdecide : a ≠ .decide v := fun heq => ha (by rw [heq]; rfl)
  have htau : a ≠ .tau v := fun heq => ha (by rw [heq]; rfl)
  obtain ⟨hno, -, hst⟩ | ⟨-, hst⟩ | ⟨heq, -⟩ | ⟨heq, -⟩ := hstep.state v
  · rw [hst] at hst'
    rcases h hst' with ⟨hrun, hdoze⟩ | hleave
    · left
      rw [hstep.pc_eq ha]
      exact ⟨⟨hv, (hstep.pcpu hok _).current hok hv hrun.2 hdecide
        fun heq => absurd heq htau⟩, hdoze⟩
    right
    refine hleave.step hL hok hv hstep ?_ ?_ hdecide (fun heq => absurd heq htau) ?_
    · rintro c e x rfl
      exact hst' hun
    · rintro vm rfl
      exact hno rfl
    · rw [hstep.pc_eq ha]
      exact fun _ => id
  · exact absurd hst hst'
  · exact absurd (by rw [heq]; rfl) ha
  · exact absurd heq htau

theorem OffOk.own (ha : a.actor = some v) : OffOk B s' v := by
  intro hst'
  have hrunv := hstep.runs ha
  have hv := hrunv.1
  -- a step of a vCPU that is RUNNING leaves it RUNNING, unless it goes off
  have hgoes : (s.vcpu v).state = .running → ∃ why, a = .powerOff v why := by
    intro hst
    rcases hstep.state v with ⟨-, -, hsame⟩ | ⟨-, hnow⟩ | ⟨heq, -⟩ | ⟨-, -, hne, -⟩
    · exact absurd (hsame.trans hst) hst'
    · exact absurd hnow hst'
    · exact ⟨_, heq⟩
    · exact absurd hst hne
  have hoff : (∀ why, a ≠ .powerOff v why) → (s.vcpu v).state ≠ .running :=
    fun hne hst => (hgoes hst).elim hne
  have hstep' := hstep
  cases hstep with
  | startVm | request | sched | schedule | learn => cases ha
  | loopEnter _ _ hst =>
    injection ha with ha
    subst ha
    exact absurd hst hst'
  | loopLeave _ _ _ | offRunning _ _ _ _ =>
    injection ha with ha
    subst ha
    exact .inl ⟨hrunv, by rw [goto_pc_self]; rfl⟩
  | instr _ _ _ hpc | trap _ _ _ hpc | irq _ _ _ _ hpc | handled _ _ hpc
  | yieldCurrent _ hpc | psciValue _ hpc | cpuOn _ hpc | prepare _ hpc
  | launch _ hpc | success _ _ hpc | requests _ hpc | resume _ hpc
  | offAgain _ hpc =>
    injection ha with ha
    subst ha
    exact absurd (h.running hrunv (by rw [hpc]; rfl) (by rw [hpc]; rfl)) (hoff (by simp))
  | offInit _ hpc _ hst =>
    injection ha with ha
    subst ha
    have hrunning := h.running hrunv (by rw [hpc]; rfl) (by rw [hpc]; rfl)
    rw [hst] at hrunning
    cases hrunning
  | endSleep caller _ _ =>
    injection ha with ha
    subst ha
    exact .inr (leaving_sleepThread hok hrunv caller rfl)
  | @offSleep caller _ _ why _ _ =>
    injection ha with ha
    subst ha
    exact .inr (leaving_sleepThread hok hrunv caller (by cases why <;> rfl))
  | endSchedule ticks _ hpc | decideSwitch ticks _ hpc _ _ =>
    injection ha with ha
    subst ha
    have hst := hoff (by simp)
    exact .inr (leaving_schedule (h.leaving hst (by rw [hpc]; rfl)) hL hok hv ticks).1
  | decideStay _ hpc hstay =>
    injection ha with ha
    subst ha
    have hst := hoff (by simp)
    exact absurd (h.switches hrunv hpc hst hun) hstay
  | psciEnd _ hpc | clear _ hpc =>
    injection ha with ha
    subst ha
    have hst := hoff (by simp)
    refine .inr ((h.leaving hst (by rw [hpc]; rfl)).step hL hok hv hstep'
      (by simp) (by simp) (by simp) (by simp [hpc]) ?_)
    rw [goto_pc_self]
    exact fun _ _ => rfl

theorem OffOk.step (hv : B.isVcpu v = true) : OffOk B s' v := by
  by_cases ha : a.actor = some v
  · exact h.own hL hok hstep hun ha
  · exact h.other hL hok hstep hun hv ha

end

omit h

/-! ## Every run -/

theorem isOff_launched (h : a.launched = some v) : isOff v (a :: tr) = false := by
  cases a <;> simp_all [VcpuAct.launched, isOff]

theorem isOff_same (h : a.launched ≠ some v) (h' : ∀ why, a ≠ .powerOff v why) :
    isOff v (a :: tr) = isOff v tr := by
  cases a <;> simp_all [VcpuAct.launched, isOff]

/-- What the run keeps: for every vCPU, the trace tells when it is off. -/
structure DispatchOk (B : Board) (I : RunView → σ → Prop) (tr : List VcpuAct)
    (s : VcpuSys σ) : Prop where
  ok : SysOk B I s
  off : ∀ {v}, B.isVcpu v = true → OffOk B s v
  state : ∀ {v}, isOff v tr = true → (s.vcpu v).state ≠ .running

theorem VcpuStart.asleep (h : VcpuStart B I s) (hv : B.isVcpu v = true) :
    Asleep (s.home B v).ctl.view v ∧ (s.home B v).ctl.currObj ≠ some v := by
  refine ⟨.inl (h.blocked hv), fun hcur => ?_⟩
  have hst := ((h.ok.view _).running v (h.ok.member hv)).mpr hcur
  have hblk : ((s.home B v).ctl.view).status v = .blocked := h.blocked hv
  rw [home, hst] at hblk
  cases hblk

theorem DispatchOk.start (h : VcpuStart B I s) : DispatchOk B I [] s where
  ok := h.ok
  off hv _ := .inr ⟨(h.asleep hv).1, fun hcur => absurd hcur (h.asleep hv).2⟩
  state hoff := by cases hoff

theorem DispatchOk.step (h : DispatchOk B I tr s) (hL : Lawful S I M)
    (hun : Unhindered B a s) (hstep : VcpuStep B S a s s') :
    DispatchOk B I (a :: tr) s' where
  ok := h.ok.step hL hstep
  off hv := (h.off hv).step hL h.ok hstep hun hv
  state {v} hoff := by
    rcases hstep.state v with ⟨hno, hno', hsame⟩ | ⟨hon, -⟩ | ⟨-, hz⟩ | ⟨-, -, -, hz⟩
    · rw [isOff_same hno hno'] at hoff
      rw [hsame]
      exact h.state hoff
    · rw [isOff_launched hon] at hoff
      cases hoff
    · rw [hz]
      simp
    · rw [hz]
      simp

theorem DispatchOk.reach (hL : Lawful S I M) {s₀ : VcpuSys σ} (hstart : VcpuStart B I s₀)
    (hrun : GuardedRun (VcpuStep B S) (Unhindered B) s₀ tr s) : DispatchOk B I tr s :=
  hrun.inv (.start hstart) fun h hun hs => h.step hL hun hs

/-- In every run in which no vCPU is hindered, a vCPU that has gone off does not
return to its guest frame before it is launched again: when the dispatcher comes
to decide about it, it calls `schedule`, and another thread is current
afterwards. -/
theorem dispatch_off_switches_away (hL : Lawful S I M) {s₀ : VcpuSys σ}
    (hstart : VcpuStart B I s₀) (hrun : GuardedRun (VcpuStep B S) (Unhindered B) s₀ tr s)
    (hun : Unhindered B a s) (hstep : VcpuStep B S a s s')
    (hv : B.isVcpu v = true) (hoff : isOff v tr = true) :
    a ≠ .resume v ∧ (a = .decide v → (s'.home B v).ctl.currObj ≠ some v) := by
  have h := DispatchOk.reach hL hstart hrun
  have hst := h.state hoff
  constructor
  · rintro rfl
    cases hstep with
    | resume hr hpc => exact hst ((h.off hv).running hr (by rw [hpc]; rfl) (by rw [hpc]; rfl))
  rintro rfl
  cases hstep with
  | decideSwitch ticks hr hpc _ _ =>
    exact (leaving_schedule ((h.off hv).leaving hst (by rw [hpc]; rfl)) hL h.ok hv ticks).2
  | decideStay hr hpc hstay => exact absurd ((h.off hv).switches hr hpc hst hun) hstay

/-! ## A VM with two vCPUs

vCPU 1 has pCPU 0 to itself, vCPU 2 pCPU 1. -/

/-- The idle thread 0 runs. -/
def idlePcpu : Pcpu Noop :=
  runThread (fun _ => 0) 0 (initThreadData schedNoop ⟨true, fun _ => 0⟩ 0
    (initSched 0 (fun _ => ⟨.blocked, false, false, {}⟩) Noop.init))

/-- The same, and thread `t` is set up. -/
def vcpuPcpu (t : Tid) : Pcpu Noop :=
  initThreadData schedNoop ⟨true, fun _ => 0⟩ t idlePcpu

def duoBoard : Board where
  isVcpu t := t == 1 || t == 2
  pcpuOf t := t - 1
  vmOf _ := 0
  vcpus vm := if vm = 0 then [1, 2] else []
  vmpidr t := BitVec.ofNat 64 (t - 1)
  linux _ := false
  rootStg2 _ := 0x40000000
  timeDelta _ := 0
  staticVfdt := true
  kernelEntry _ := 0x80000
  fdtAddr _ := 0x90000
  mem_vcpus {v vm} := by
    by_cases h : vm = 0
    · subst h
      simp
    · simp [h, Ne.symm h]

def zeroRegs : CpuRegs := ⟨fun _ => 0, 0, 0, 0, 0, 0, 0, 0, 0, 0⟩

def duoStart : VcpuSys Noop where
  pcpu n := if n = 0 then vcpuPcpu 1 else if n = 1 then vcpuPcpu 2 else idlePcpu
  el1 _ _ := 0
  vcpu _ :=
    { state := .init
      pendingReq := 0
      irqsPending := 0
      irqsPendingMask := 0
      trap := ⟨0, 0, EXCEPTION_INVALID, 0⟩
      regs := zeroRegs
      gctx := initGuestControlContext 0x40000000 0 }
  pc _ := .entry
  started _ := false
  irqBlocks _ := false
  preemptCount _ := none

/-- An SMC with these arguments. -/
def smcFrame (fn x1 x2 x3 : Reg) : CpuRegs :=
  { zeroRegs with
    x := fun i => if i = 0 then fn else if i = 1 then x1 else if i = 2 then x2
      else if i = 3 then x3 else 0
    elr := 0x80000
    esr := (0x17 <<< 26) ||| ESR_EL2_IL }

theorem idlePcpu_ok : idlePcpu.ctl.view.Ok ∧ Noop.Ok idlePcpu.ctl.view idlePcpu.priv := by
  have hrun : SchedRun schedNoop
      (initSched 0 (fun _ => ⟨.blocked, false, false, {}⟩) Noop.init) idlePcpu :=
    .tail (.tail .refl ⟨_, .initThreadData _ (by decide)⟩) ⟨_, .runIdle _ rfl (by decide)⟩
  refine schedNoop_lawful.reach hrun ⟨?_, ?_, ?_, ?_⟩ (fun t ht => by cases ht)
  · exact fun t ht => absurd ht (by simp [initSched])
  · exact fun t ht => absurd ht (by simp [initSched])
  · exact fun t ht => by cases ht
  · exact fun h => absurd rfl h

theorem vcpuPcpu_ok (ht : t ≠ 0) :
    (vcpuPcpu t).ctl.view.Ok ∧ Noop.Ok (vcpuPcpu t).ctl.view (vcpuPcpu t).priv := by
  have hlist : idlePcpu.ctl.threadList = [0] := by decide
  refine schedNoop_lawful.step (.initThreadData _ ?_) idlePcpu_ok.1 idlePcpu_ok.2
  rw [hlist]
  simpa using ht

theorem duoBoard_vcpus (hv : duoBoard.isVcpu v = true) : v = 1 ∨ v = 2 := by
  rcases Bool.or_eq_true_iff.mp hv with h | h
  · exact .inl (eq_of_beq h)
  · exact .inr (eq_of_beq h)

theorem duoStart_start : VcpuStart duoBoard Noop.Ok duoStart := by
  have hpcpu : ∀ n, (duoStart.pcpu n).ctl.view.Ok ∧
      Noop.Ok (duoStart.pcpu n).ctl.view (duoStart.pcpu n).priv := by
    intro n
    simp only [duoStart]
    split
    · exact vcpuPcpu_ok (by decide)
    · split
      · exact vcpuPcpu_ok (by decide)
      · exact idlePcpu_ok
  have hvcpu : ∀ {P : Tid → Prop} {v}, duoBoard.isVcpu v = true → P 1 → P 2 → P v := by
    intro P v hv h1 h2
    rcases duoBoard_vcpus hv with rfl | rfl
    · exact h1
    · exact h2
  refine ⟨⟨fun n => (hpcpu n).1, fun n => (hpcpu n).2, fun n => ?_, fun hv => ?_,
    fun hv hm => ?_, fun hv => ?_, fun hv ht => ?_⟩, fun _ => rfl, fun _ => rfl,
    fun _ => rfl, fun hv => ?_, fun _ => rfl⟩
  · simp only [duoStart]
    split
    · decide
    · split <;> decide
  · exact hvcpu (P := fun v => v ∈ (duoStart.home duoBoard v).ctl.threadList) hv
      (by decide) (by decide)
  · rename_i v n
    have hidle : idlePcpu.ctl.threadList = [0] := by decide
    have hset : ∀ t, (vcpuPcpu t).ctl.threadList = [0, t] := by
      simp [vcpuPcpu, initThreadData, hidle]
    simp only [duoStart] at hm
    split at hm
    · next hn =>
      revert hm
      refine hvcpu (P := fun v => v ∈ [0, 1] → n = duoBoard.pcpuOf v) hv ?_ ?_
      · exact fun _ => hn
      · intro h
        simp at h
    split at hm
    · next hn =>
      revert hm
      refine hvcpu (P := fun v => v ∈ [0, 2] → n = duoBoard.pcpuOf v) hv ?_ ?_
      · intro h
        simp at h
      · exact fun _ => hn
    · rw [hidle, List.mem_singleton] at hm
      rw [hm] at hv
      cases hv
  · exact hvcpu (P := fun v => v ≠ (duoStart.home duoBoard v).ctl.idle) hv (by decide) (by decide)
  · cases ht
  · exact hvcpu (P := fun v => ((duoStart.home duoBoard v).ctl.obj v).status = .blocked)
      hv (by decide) (by decide)

/-- vCPU 1 is booted and in its guest. -/
def duoGuest : VcpuSys Noop :=
  let s := (duoStart.edit 1 fun c =>
    { prepareBsp duoBoard 0 1 c with state := .running }).setPcpu 0
      (wakeThread schedNoop ⟨true, fun _ => 0⟩ 1 (duoStart.home duoBoard 1))
  let s := { s with started := Function.update duoStart.started 0 true }
  let s := (s.schedule duoBoard schedNoop 0 fun _ => 0).goto 1 .requests
  let s := (s.edit 1 Vcpu.processVcpuRequests).goto 1 .resuming
  s.goto 1 (.guest (s.vcpu 1).regs)

/-- Guards that let a vCPU boot. -/
structure LetsBoot (ok : VcpuAct → VcpuSys Noop → Prop) : Prop where
  startVm : ∀ vm bsp s, ok (.startVm vm bsp) s
  world : ∀ s, ok .world s
  tau : ∀ v s, ok (.tau v) s
  resume : ∀ v s, ok (.resume v) s
  trap : ∀ v r e s, ok (.trap v r e) s

theorem duoGuest_run (h : LetsBoot ok) : GuardedRun (VcpuStep duoBoard schedNoop) ok duoStart
    [.resume 1, .tau 1, .tau 1, .world, .startVm 0 1] duoGuest :=
  .cons (.cons (.cons (.cons (.cons .nil (h.startVm _ _ _) (.startVm ⟨true, fun _ => 0⟩
      (show duoStart.started 0 = false from rfl) rfl))
    (h.world _) (.schedule (fun _ => 0) rfl rfl))
    (h.tau _ _) (.loopEnter ⟨rfl, rfl⟩ rfl rfl))
    (h.tau _ _) (.requests ⟨rfl, rfl⟩ rfl))
    (h.resume _ _) (.resume ⟨rfl, rfl⟩ rfl)

/-- vCPU 1 has called CPU_OFF and is asleep, but still current. -/
def duoOff : VcpuSys Noop :=
  let s := ((duoGuest.setEl1 0 fun _ => 0).edit 1 fun c =>
    { c with regs := smcFrame 0x84000002 0 0 0 }).goto 1 .handler
  let s := (s.edit 1 fun c => { c with state := .zombie }).goto 1 (.offSleep (.psci false true))
  let s := (s.setPcpu 0 (sleepThread schedNoop ⟨true, fun _ => 0⟩ 1
    (s.home duoBoard 1))).goto 1 (.psciEnd PSCI_RET_SUCCESS true)
  (s.edit 1 fun c => { c with regs := psciReturn PSCI_RET_SUCCESS true c.regs }).goto 1 .clearing

def duoOffTrace : List VcpuAct :=
  [.tau 1, .tau 1, .powerOff 1 (.psci false true),
    .trap 1 (duoGuest.vcpu 1).regs (duoGuest.el1 0), .resume 1, .tau 1, .tau 1,
    .world, .startVm 0 1]

theorem duoOff_run (h : LetsBoot ok) (hoff : ∀ v why s, ok (.powerOff v why) s) :
    GuardedRun (VcpuStep duoBoard schedNoop) ok duoStart duoOffTrace duoOff :=
  .cons (.cons (.cons (.cons (duoGuest_run h)
    (h.trap _ _ _ _) (.trap (smcFrame 0x84000002 0 0 0) (fun _ => 0) ⟨rfl, rfl⟩ rfl))
    (hoff _ _ _) (.offRunning ⟨rfl, rfl⟩ rfl ⟨by decide, by decide⟩ rfl))
    (h.tau _ _) (.offSleep ⟨true, fun _ => 0⟩ ⟨rfl, rfl⟩ rfl))
    (h.tau _ _) (.psciEnd ⟨rfl, rfl⟩ rfl)

/-- The dispatcher comes to its decision about vCPU 1. -/
def duoDeciding : VcpuSys Noop :=
  let p := duoOff.home duoBoard 1
  (duoOff.setPcpu 0 ⟨if duoOff.wantsReschedule duoBoard 1 then
    (clearRescheduleIfCurrentOnly p.ctl).2 else p.ctl, p.priv⟩).goto 1 .deciding

/-- vCPU 1 goes off and is switched away from. -/
theorem dispatch_off_switches_away_cpuOff :
    ∃ s', VcpuStep duoBoard schedNoop (.decide 1) duoDeciding s' ∧
      isOff 1 (.tau 1 :: duoOffTrace) = true ∧ (s'.home duoBoard 1).ctl.currObj ≠ some 1 := by
  have hboot : LetsBoot (Unhindered duoBoard) :=
    ⟨fun _ _ _ => trivial, fun _ => trivial, fun _ _ => trivial, fun _ _ => trivial,
      fun _ _ _ _ => trivial⟩
  have hrun : GuardedRun (VcpuStep duoBoard schedNoop) (Unhindered duoBoard) duoStart
      (.tau 1 :: duoOffTrace) duoDeciding :=
    .cons (duoOff_run hboot fun _ _ _ => trivial) trivial (.clear ⟨rfl, rfl⟩ rfl)
  have hun : Unhindered duoBoard (.decide 1) duoDeciding := fun _ => ⟨by decide, by decide⟩
  have hstep := VcpuStep.decideSwitch (B := duoBoard) (S := schedNoop) (fun _ => 0)
    (s := duoDeciding) (v := 1) ⟨rfl, by decide⟩ rfl (by decide) (by decide)
  exact ⟨_, hstep, rfl, (dispatch_off_switches_away schedNoop_lawful duoStart_start
    hrun hun hstep rfl rfl).2 rfl⟩

/-- With an event request pending, the vCPU that is off goes back to its
guest. -/
theorem dispatch_off_resumes : ∃ tr s s',
    GuardedRun (VcpuStep duoBoard schedNoop) (fun _ _ => True) duoStart tr s ∧
      isOff 1 tr = true ∧ VcpuStep duoBoard schedNoop (.resume 1) s s' := by
  have hboot : LetsBoot (fun _ _ => True) :=
    ⟨fun _ _ _ => trivial, fun _ => trivial, fun _ _ => trivial, fun _ _ => trivial,
      fun _ _ _ _ => trivial⟩
  exact ⟨_, _, _, .cons (.cons (.cons (.cons (duoOff_run hboot fun _ _ _ => trivial)
    trivial (.request (v := 1) rfl))
    trivial (.clear (v := 1) ⟨rfl, rfl⟩ rfl))
    trivial (.decideStay (v := 1) ⟨rfl, by decide⟩ rfl (by decide)))
    trivial (.requests (v := 1) ⟨rfl, by decide⟩ rfl), rfl,
    .resume ⟨rfl, by decide⟩ rfl⟩

end Sima.Arm64
