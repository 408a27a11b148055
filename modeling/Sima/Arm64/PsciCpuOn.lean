import Sima.Arm64.Dispatch
import Sima.Arm64.VcpuContext
import Sima.Sched.RtdsPick

/-!
# PSCI CPU_ON

`handle_psci_cpu_on` tests the state of its target and then works on it without
a lock. Two things can go wrong. Two callers can pass the test before either has
written the state, and both return SUCCESS. And the target may have written its
own state to ZOMBIE without having left its pCPU: its `handle_psci64` then puts
the result of CPU_OFF into the `x0` that was prepared for it and advances the
`elr`, and its switch-out saves the old EL1 registers over the new ones.

If the target is switched out when the test passes and no other CPU_ON is about
it (`Settled`), neither happens. From the test to the wake-up the target is
parked and nobody else touches its context; from the wake-up to its first
instruction the context travels through `gctx`, the pCPU and the stack frame, as
often as the vCPU is preempted, and arrives.
-/

namespace Sima.Arm64

open Sched Lib VcpuSys

variable {σ : Type} {B : Board} {S : AcrnScheduler σ} {I M : RunView → σ → Prop} {s s' : VcpuSys σ}
  {a : VcpuAct} {v c t : Tid} {e x : Reg} {tr : List VcpuAct} {vm : Nat}

/-- When CPU_ON passes its test, the target is switched out and no other CPU_ON
is about it. -/
def Settled (B : Board) (a : VcpuAct) (s : VcpuSys σ) : Prop :=
  match a with
  | .cpuOn _ t => ((s.home B t).ctl.obj t).status = .blocked ∧
      ∀ c, B.isVcpu c = true → (s.pc c).target ≠ some t
  | _ => True

/-- The CPU_ONs of `t` that succeeded since it last went off. -/
def successes (t : Tid) : List VcpuAct → Nat
  | [] => 0
  | .success _ w _ _ :: tr => if w = t then successes t tr + 1 else successes t tr
  | .powerOff w _ :: tr => if w = t then 0 else successes t tr
  | _ :: tr => successes t tr

/-- The entry and the context id of the last CPU_ON of `t` that succeeded, until
`t` executes an instruction. -/
def awaited (t : Tid) : List VcpuAct → Option (Reg × Reg)
  | [] => none
  | .success _ w e x :: tr => if w = t then some (e, x) else awaited t tr
  | .instr w _ _ :: tr => if w = t then none else awaited t tr
  | .trap w _ _ :: tr => if w = t then none else awaited t tr
  | _ :: tr => awaited t tr

theorem successes_same (hon : ∀ c e x, a ≠ .success c t e x)
    (hoff : ∀ why, a ≠ .powerOff t why) : successes t (a :: tr) = successes t tr := by
  cases a with
  | success w u e x =>
    have hne : u ≠ t := fun heq => hon w e x (by rw [heq])
    simp [successes, hne]
  | _ => simp_all [successes]

theorem awaited_same (hon : ∀ c e x, a ≠ .success c t e x)
    (hguest : ∀ r e, a ≠ .instr t r e ∧ a ≠ .trap t r e) : awaited t (a :: tr) = awaited t tr := by
  cases a with
  | success w u e x =>
    have hne : u ≠ t := fun heq => hon w e x (by rw [heq])
    simp [awaited, hne]
  | _ => simp_all [awaited]

/-! ## The invariant -/

/-- Switched out, and not about to come back. -/
structure Parked (B : Board) (s : VcpuSys σ) (v : Tid) : Prop where
  asleep : Asleep (s.home B v).ctl.view v
  away : (s.home B v).ctl.currObj ≠ some v

/-- Where a thread can be that is not current. -/
def VcpuPc.resting : VcpuPc → Bool
  | .entry | .requests | .spinning => true
  | _ => false

/-- Between the wake-up and the first instruction. -/
def VcpuPc.onWay : VcpuPc → Bool
  | .entry | .requests | .resuming | .guest _ | .clearing | .deciding => true
  | _ => false

/-- Whom a CPU_ON in progress has prepared, and with what. -/
def VcpuPc.prepared : VcpuPc → Option (Tid × Reg × Reg)
  | .launching t e x _ | .waking t e x _ => some (t, e, x)
  | _ => none

/-- Whom a CPU_ON in progress has put into VCPU_RUNNING. -/
def VcpuPc.launchedTarget : VcpuPc → Option Tid
  | .waking t _ _ _ => some t
  | _ => none

/-- The frame with which the vCPU is in its guest, or will enter it. -/
def VcpuSys.frameOf (s : VcpuSys σ) (v : Tid) : CpuRegs :=
  match s.pc v with
  | .guest r => r
  | _ => (s.vcpu v).regs

def AtEntry (r : CpuRegs) (e x : Reg) : Prop := r.elr = e ∧ r.x 0 = x

/-- The vCPU is about to begin where it was told to. A thread that has left its
loop never begins anything. -/
def Fresh (B : Board) (s : VcpuSys σ) (t : Tid) (e x : Reg) : Prop :=
  s.pc t = .spinning ∨ ((s.pc t).onWay = true ∧ AtEntry (s.frameOf t) e x ∧ s.el1Of B t = resetEl1)

structure CpuOnOk (B : Board) (I : RunView → σ → Prop) (tr : List VcpuAct)
    (s : VcpuSys σ) : Prop where
  ok : SysOk B I s
  noException : ∀ {v}, B.isVcpu v = true → (s.vcpu v).NoException
  resting : ∀ {v}, B.isVcpu v = true → (s.home B v).ctl.currObj ≠ some v → (s.pc v).resting = true
  unstarted : ∀ {v}, B.isVcpu v = true → s.started (B.vmOf v) = false →
    Parked B s v ∧ s.pc v = .entry ∧ (s.vcpu v).state ≠ .running
  window : ∀ {c t}, B.isVcpu c = true → (s.pc c).target = some t →
    Parked B s t ∧ awaited t tr = none ∧ successes t tr = 0
  prepared : ∀ {c t e x}, B.isVcpu c = true → (s.pc c).prepared = some (t, e, x) →
    AtEntry (s.vcpu t).regs e x ∧ (s.vcpu t).gctx.el1 = resetEl1
  launched : ∀ {c t}, B.isVcpu c = true → (s.pc c).launchedTarget = some t →
    (s.vcpu t).state = .running
  alone : ∀ {c c' t}, B.isVcpu c = true → B.isVcpu c' = true →
    (s.pc c).target = some t → (s.pc c').target = some t → c = c'
  off : ∀ {t}, B.isVcpu t = true → (s.vcpu t).state ≠ .running →
    awaited t tr = none ∧ successes t tr = 0
  once : ∀ t, successes t tr ≤ 1
  fresh : ∀ {t e x}, B.isVcpu t = true → awaited t tr = some (e, x) → Fresh B s t e x

/-! ## The parts of a step -/

theorem Parked.step (h : Parked B s t) (hL : Lawful S I M) (hok : SysOk B I s)
    (ht : B.isVcpu t = true) (hstep : VcpuStep B S a s s')
    (hon : ∀ c e x, a ≠ .success c t e x) (hstart : ∀ vm, a ≠ .startVm vm t) : Parked B s' t :=
  ⟨(hstep.pcpu hok _).asleep hL hok ht rfl hon hstart h.asleep,
    (hstep.pcpu hok _).stays_away hL hok ht rfl h.asleep h.away⟩

theorem Parked.not_actor (h : Parked B s t) (hstep : VcpuStep B S a s s') : a.actor ≠ some t :=
  fun ha => h.away (hstep.runs ha).2

theorem Parked.not_guest (h : Parked B s t) (hstep : VcpuStep B S a s s')
    (r : CpuRegs) (e : El1Regs) : a ≠ .instr t r e ∧ a ≠ .trap t r e :=
  ⟨fun ha => h.not_actor hstep (by rw [ha]; rfl), fun ha => h.not_actor hstep (by rw [ha]; rfl)⟩

theorem SysOk.parked (hok : SysOk B I s) (ht : B.isVcpu t = true)
    (hblk : ((s.home B t).ctl.obj t).status = .blocked) : Parked B s t := by
  refine ⟨.inl hblk, fun hcur => ?_⟩
  have hrun : ((s.home B t).ctl.obj t).status = .running :=
    ((hok.view _).running t (hok.member ht)).mpr hcur
  rw [hblk] at hrun
  cases hrun

theorem VcpuStep.success_pc (h : VcpuStep B S (.success c t e x) s s') :
    s.Runs B c ∧ (s.pc c).prepared = some (t, e, x) ∧ (s.pc c).target = some t ∧
      (s.pc c).launchedTarget = some t ∧ (s'.pc c).target = none := by
  cases h with
  | success caller hrun hpc =>
    rw [hpc, goto_pc_self]
    exact ⟨hrun, rfl, rfl, rfl, rfl⟩

theorem VcpuStep.launch_target (h : VcpuStep B S (.launch c t) s s') :
    s.Runs B c ∧ (s.pc c).target = some t := by
  cases h with
  | launch hrun hpc =>
    rw [hpc]
    exact ⟨hrun, rfl⟩

theorem VcpuStep.startVm_bsp (h : VcpuStep B S (.startVm vm t) s s') :
    s.started vm = false ∧ B.vmOf t = vm := by
  cases h with
  | startVm caller hnew hbsp => exact ⟨hnew, (Board.isVcpu_of_head hbsp).2⟩

theorem VcpuStep.powerOff_pc {why : OffReason}
    (h : VcpuStep B S (.powerOff t why) s s') : s.pc t = .handler := by
  cases h with
  | offRunning _ hpc | offInit _ hpc => exact hpc

theorem VcpuStep.not_startVm (h : VcpuStep B S a s s')
    (hst : s.started (B.vmOf t) = true) (vm : Nat) : a ≠ .startVm vm t := by
  rintro rfl
  obtain ⟨hnew, hvm⟩ := h.startVm_bsp
  rw [hvm, hnew] at hst
  cases hst

theorem VcpuStep.started (h : VcpuStep B S a s s') (hnew : s'.started vm = false) :
    s.started vm = false := by
  cases h with
  | @startVm caller _ vm' bsp _ _ =>
    by_cases hvm : vm = vm'
    · subst hvm
      simp at hnew
    · simpa [hvm] using hnew
  | endSchedule | decideSwitch | schedule => simpa using hnew
  | loopEnter | loopLeave | endSleep | instr | trap | irq | handled | yieldCurrent
  | psciValue | psciEnd | cpuOn | prepare | launch | success | offRunning | offInit
  | offAgain | offSleep | clear | decideStay | requests | resume | request | sched
  | learn => exact hnew

/-- Behind `schedule` a thread rests. -/
theorem VcpuStep.pc_decide (h : VcpuStep B S (.decide v) s s') : s'.pc v = .requests := by
  cases h with
  | decideSwitch | decideStay => rw [goto_pc_self]

theorem VcpuStep.pc_endSchedule (h : VcpuStep B S (.tau v) s s')
    (hend : s.pc v = .endSchedule) : s'.pc v = .spinning := by
  cases h with
  | endSchedule => rw [goto_pc_self]
  | loopEnter _ hpc | loopLeave _ hpc | endSleep _ _ hpc | irq _ _ _ _ hpc
  | handled _ _ hpc | yieldCurrent _ hpc | psciValue _ hpc | psciEnd _ hpc
  | prepare _ hpc | offSleep _ _ hpc | clear _ hpc | requests _ hpc =>
    rw [hend] at hpc
    cases hpc

variable {pc : VcpuPc}

theorem VcpuPc.target_of_prepared (h : pc.prepared = some (t, e, x)) : pc.target = some t := by
  cases pc <;> cases h <;> rfl

theorem VcpuPc.target_of_launchedTarget (h : pc.launchedTarget = some t) : pc.target = some t := by
  cases pc <;> cases h
  rfl

theorem VcpuStep.prepared (h : VcpuStep B S a s s') (hp : (s'.pc c).prepared = some (t, e, x)) :
    (s.pc c).prepared = some (t, e, x) ∨
      (AtEntry (s'.vcpu t).regs e x ∧ (s'.vcpu t).gctx.el1 = resetEl1) := by
  obtain hpc | ⟨-, -, ⟨_, hpc⟩, -⟩ | ⟨_, _, _, _, _, -, hpc, hk⟩ | ⟨_, _, _, hold, hpc, -⟩ :=
    h.pc_cases (VcpuPc.target_of_prepared hp)
  · exact .inl (hpc ▸ hp)
  · rw [hpc] at hp
    cases hp
  · rw [hpc] at hp
    cases hp
    rw [hk]
    exact .inr ⟨⟨rfl, by simp [prepareLinuxVcpuContext, initGuestRegs]⟩, rfl⟩
  · rw [hpc] at hp
    rw [hold]
    exact .inl hp

theorem VcpuStep.launchedTarget (h : VcpuStep B S a s s')
    (hp : (s'.pc c).launchedTarget = some t) :
    (s.pc c).launchedTarget = some t ∨ (s'.vcpu t).state = .running := by
  obtain hpc | ⟨-, -, ⟨_, hpc⟩, -⟩ | ⟨_, _, _, _, _, -, hpc, -⟩ | ⟨_, _, _, -, -, hst⟩ :=
    h.pc_cases (VcpuPc.target_of_launchedTarget hp)
  · exact .inl (hpc ▸ hp)
  · rw [hpc] at hp
    cases hp
  · rw [hpc] at hp
    cases hp
  · exact .inr hst

/-! ## The invariant is kept -/

namespace CpuOnOk

variable (h : CpuOnOk B I tr s)

include h

/-- A CPU_ON is only ever in progress in a VM that was started. -/
theorem startedOf (hc : B.isVcpu c = true)
    (ht : (s.pc c).target = some t) : s.started (B.vmOf t) = true := by
  obtain ⟨-, hvm⟩ := h.ok.target hc ht
  by_contra hnew
  obtain ⟨-, hpc, -⟩ := h.unstarted hc (by rw [← hvm]; simpa using hnew)
  rw [hpc] at ht
  cases ht

/-- While the context of `t` is awaited, nobody writes another. -/
theorem not_prepares (hstep : VcpuStep B S a s s')
    (ht : B.isVcpu t = true) (hw : awaited t tr = some (e, x)) : ¬ Prepares a s t := by
  rintro (⟨c, advance, rfl, hpc⟩ | ⟨vm, rfl⟩)
  · obtain ⟨-, hnone, -⟩ := h.window (hstep.runs rfl).1 (by rw [hpc]; rfl)
    rw [hnone] at hw
    cases hw
  obtain ⟨hnew, hvm⟩ := hstep.startVm_bsp
  obtain ⟨-, -, hst⟩ := h.unstarted ht (by rw [hvm]; exact hnew)
  rw [(h.off ht hst).1] at hw
  cases hw

theorem step_resting (hstep : VcpuStep B S a s s')
    (hv : B.isVcpu v = true) (haway : (s'.home B v).ctl.currObj ≠ some v) :
    (s'.pc v).resting = true := by
  by_cases hcur : (s.home B v).ctl.currObj = some v
  · -- it has just left
    by_cases hdecide : a = .decide v
    · subst hdecide
      rw [hstep.pc_decide]
      rfl
    by_cases hend : a = .tau v ∧ s.pc v = .endSchedule
    · obtain ⟨rfl, hpc⟩ := hend
      rw [hstep.pc_endSchedule hpc]
      rfl
    · exact absurd ((hstep.pcpu h.ok _).current h.ok hv hcur hdecide
        fun ha hpc => hend ⟨ha, hpc⟩) haway
  · rw [hstep.pc_eq fun ha => hcur (hstep.runs ha).2]
    exact h.resting hv hcur

theorem step_unstarted (hL : Lawful S I M) (hstep : VcpuStep B S a s s') (hv : B.isVcpu v = true)
    (hnew' : s'.started (B.vmOf v) = false) :
    Parked B s' v ∧ s'.pc v = .entry ∧ (s'.vcpu v).state ≠ .running := by
  have hnew := hstep.started hnew'
  obtain ⟨hpark, hpc, hst⟩ := h.unstarted hv hnew
  have hactor := hpark.not_actor hstep
  -- the callers of a CPU_ON are in a VM that was started, and so is their target
  have hnotarget : ∀ {c}, B.isVcpu c = true → (s.pc c).target ≠ some v := by
    intro c hc ht
    rw [h.startedOf hc ht] at hnew
    cases hnew
  have hnostart : ∀ vm, a ≠ .startVm vm v := by
    rintro vm rfl
    obtain ⟨-, hvm⟩ := hstep.startVm_bsp
    cases hstep with
    | startVm => simp [hvm] at hnew'
  refine ⟨hpark.step hL h.ok hv hstep ?_ hnostart, ?_, ?_⟩
  · rintro c e x rfl
    obtain ⟨hrun, -, ht, -⟩ := hstep.success_pc
    exact hnotarget hrun.1 ht
  · rw [hstep.pc_eq hactor, hpc]
  rcases hstep.state v with ⟨-, -, hsame⟩ | ⟨hon, -⟩ | ⟨heq, -⟩ | ⟨-, -, -, hz⟩
  · rw [hsame]
    exact hst
  · cases a with
    | launch c w =>
      injection hon with hon
      subst hon
      obtain ⟨hrun, ht⟩ := hstep.launch_target
      exact absurd ht (hnotarget hrun.1)
    | startVm vm w =>
      injection hon with hon
      subst hon
      exact absurd rfl (hnostart vm)
    | _ => cases hon
  · exact absurd (by rw [heq]; rfl) hactor
  · rw [hz]
    simp

section

variable (hstep : VcpuStep B S a s s') (hc : B.isVcpu c = true)

include hstep hc

/-- What a step does to a vCPU that a CPU_ON in progress is about. -/
theorem step_target (ht : (s.pc c).target = some t) (ht' : (s'.pc c).target = some t) :
    (∀ c e x, a ≠ .success c t e x) ∧ (∀ vm, a ≠ .startVm vm t) := by
  refine ⟨?_, hstep.not_startVm (h.startedOf hc ht)⟩
  rintro c' e x rfl
  obtain ⟨hrun, -, htarget, -, hnone⟩ := hstep.success_pc
  rw [h.alone hc hrun.1 ht htarget, hnone] at ht'
  cases ht'

theorem step_window (hL : Lawful S I M) (hset : Settled B a s) (ht' : (s'.pc c).target = some t) :
    Parked B s' t ∧ awaited t (a :: tr) = none ∧ successes t (a :: tr) = 0 := by
  rcases hstep.target ht' with ht | ⟨rfl, -, hst, hv, -⟩
  · obtain ⟨hpark, hnone, hzero⟩ := h.window hc ht
    obtain ⟨hon, hstart⟩ := h.step_target hstep hc ht ht'
    obtain ⟨hv, -⟩ := h.ok.target hc ht
    rw [awaited_same hon (hpark.not_guest hstep), successes_same hon
      fun why ha => hpark.not_actor hstep (by rw [ha]; rfl)]
    exact ⟨hpark.step hL h.ok hv hstep hon hstart, hnone, hzero⟩
  · have hpark := h.ok.parked hv hset.1
    exact ⟨hpark.step hL h.ok hv hstep (by simp) (by simp), h.off hv hst⟩

theorem step_alone (hset : Settled B a s) {c' : Tid} (hc' : B.isVcpu c' = true)
    (ht : (s'.pc c).target = some t) (ht' : (s'.pc c').target = some t) : c = c' := by
  rcases hstep.target ht with ht | ⟨rfl, -, -⟩
  · rcases hstep.target ht' with ht' | ⟨rfl, -, -⟩
    · exact h.alone hc hc' ht ht'
    · exact absurd ht (hset.2 c hc)
  · rcases hstep.target ht' with ht' | ⟨heq, -, -⟩
    · exact absurd ht' (hset.2 c' hc')
    · injection heq

theorem step_prepared (hL : Lawful S I M) (hset : Settled B a s)
    (hp' : (s'.pc c).prepared = some (t, e, x)) :
    AtEntry (s'.vcpu t).regs e x ∧ (s'.vcpu t).gctx.el1 = resetEl1 := by
  rcases hstep.prepared hp' with hp | hdone
  · have ht := VcpuPc.target_of_prepared hp
    obtain ⟨hpark, -, -⟩ := h.window hc ht
    obtain ⟨hpark', -, -⟩ := h.step_window hstep hc hL hset (VcpuPc.target_of_prepared hp')
    obtain ⟨hv, -⟩ := h.ok.target hc ht
    have hprep : ¬ Prepares a s t := by
      rintro (⟨c', advance, rfl, hpc⟩ | ⟨vm, rfl⟩)
      · -- another CPU_ON would have to be this one
        have hsame := h.alone hc (hstep.runs rfl).1 ht (by rw [hpc]; rfl)
        rw [hsame, hpc] at hp
        cases hp
      · exact hstep.not_startVm (h.startedOf hc ht) vm rfl
    obtain ⟨hentry, hel1⟩ := h.prepared hc hp
    rw [hstep.regs_eq (hpark.not_actor hstep) hprep, ← el1Of_away hpark'.away,
      hstep.el1Of_eq h.ok hv (hpark.not_guest hstep) hprep,
      el1Of_away hpark.away]
    exact ⟨hentry, hel1⟩
  · exact hdone

theorem step_launched (hp' : (s'.pc c).launchedTarget = some t) :
    (s'.vcpu t).state = .running := by
  rcases hstep.launchedTarget hp' with hp | hdone
  · obtain ⟨hpark, -, -⟩ := h.window hc (VcpuPc.target_of_launchedTarget hp)
    have hst := h.launched hc hp
    rcases hstep.state t with ⟨-, -, hsame⟩ | ⟨-, hon⟩ | ⟨heq, -⟩ | ⟨-, -, hne, -⟩
    · rw [hsame, hst]
    · exact hon
    · exact absurd (by rw [heq]; rfl) (hpark.not_actor hstep)
    · exact absurd hst hne
  · exact hdone

end

/-- A vCPU that goes off is not on its way to a first instruction. -/
theorem awaited_powerOff {why : OffReason}
    (hstep : VcpuStep B S (.powerOff t why) s s') (ht : B.isVcpu t = true) :
    awaited t tr = none := by
  cases hw : awaited t tr with
  | none => rfl
  | some ex =>
    have hpc := hstep.powerOff_pc
    rcases h.fresh ht hw with hf | ⟨hf, -⟩
    · rw [hpc] at hf
      cases hf
    · rw [hpc] at hf
      cases hf

variable (hstep : VcpuStep B S a s s')

include hstep

theorem step_off (ht : B.isVcpu t = true) (hst' : (s'.vcpu t).state ≠ .running) :
    awaited t (a :: tr) = none ∧ successes t (a :: tr) = 0 := by
  by_cases hoff : ∃ why, a = .powerOff t why
  · obtain ⟨why, rfl⟩ := hoff
    exact ⟨h.awaited_powerOff hstep ht, by simp [successes]⟩
  have hst : (s.vcpu t).state ≠ .running := by
    rcases hstep.state t with ⟨-, -, hsame⟩ | ⟨-, hon⟩ | ⟨heq, -⟩ | ⟨-, -, hne, -⟩
    · rw [← hsame]
      exact hst'
    · exact absurd hon hst'
    · exact absurd ⟨_, heq⟩ hoff
    · exact hne
  obtain ⟨hnone, hzero⟩ := h.off ht hst
  have hon : ∀ c e x, a ≠ .success c t e x := by
    rintro c e x rfl
    obtain ⟨hrun, -, -, hlaunched, -⟩ := hstep.success_pc
    exact hst (h.launched hrun.1 hlaunched)
  rw [successes_same hon fun why heq => hoff ⟨why, heq⟩]
  refine ⟨?_, hzero⟩
  by_cases hguest : ∀ r e, a ≠ .instr t r e ∧ a ≠ .trap t r e
  · rw [awaited_same hon hguest, hnone]
  · cases a <;> simp_all [awaited]

theorem step_once (t : Tid) : successes t (a :: tr) ≤ 1 := by
  by_cases hon : ∃ c e x, a = .success c t e x
  · obtain ⟨c, e, x, rfl⟩ := hon
    obtain ⟨hrun, -, htarget, -, -⟩ := hstep.success_pc
    obtain ⟨-, -, hzero⟩ := h.window hrun.1 htarget
    simp [successes, hzero]
  · by_cases hoff : ∃ why, a = .powerOff t why
    · obtain ⟨why, rfl⟩ := hoff
      simp [successes]
    · rw [successes_same (fun c e x heq => hon ⟨c, e, x, heq⟩) fun why heq => hoff ⟨why, heq⟩]
      exact h.once t

theorem fresh_other (ht : B.isVcpu t = true) (hw : awaited t tr = some (e, x))
    (ha : a.actor ≠ some t) : Fresh B s' t e x := by
  have hprep := h.not_prepares hstep ht hw
  have hguest : ∀ r e, a ≠ .instr t r e ∧ a ≠ .trap t r e :=
    fun r e => ⟨fun heq => ha (by rw [heq]; rfl), fun heq => ha (by rw [heq]; rfl)⟩
  have hframe : s'.frameOf t = s.frameOf t := by
    rw [frameOf, frameOf, hstep.pc_eq ha, hstep.regs_eq ha hprep]
  rw [Fresh, hstep.pc_eq ha, hframe, hstep.el1Of_eq h.ok ht hguest hprep]
  exact h.fresh ht hw

/-- Its own steps up to the first instruction carry it along. -/
theorem fresh_own (hw : awaited t tr = some (e, x)) (ha : a.actor = some t)
    (hguest : ∀ r e, a ≠ .instr t r e ∧ a ≠ .trap t r e) : Fresh B s' t e x := by
  have ht := (hstep.runs ha).1
  have hel1 := hstep.el1Of_eq h.ok ht hguest (h.not_prepares hstep ht hw)
  have hrunning : (s.vcpu t).state = .running := by
    by_contra hst
    rw [(h.off ht hst).1] at hw
    cases hw
  have hnone := h.noException ht
  have hfresh := h.fresh ht hw
  have hcarry {p p' : VcpuPc} (hpc : s.pc t = p) (hpc' : s'.pc t = p') (hspin : p ≠ .spinning)
      (hway : p'.onWay = true) (hframe : AtEntry (s.frameOf t) e x → AtEntry (s'.frameOf t) e x) :
      Fresh B s' t e x := by
    obtain ⟨-, hentry, hreset⟩ := hfresh.resolve_left (hpc.trans_ne hspin)
    exact .inr ⟨by rw [hpc', hway], hframe hentry, hel1.trans hreset⟩
  cases hstep with
  | startVm | request | sched | schedule | learn => cases ha
  | loopLeave _ _ hst =>
    injection ha with ha
    subst ha
    exact absurd hrunning hst
  | instr =>
    injection ha with ha
    subst ha
    exact absurd rfl (hguest _ _).1
  | trap =>
    injection ha with ha
    subst ha
    exact absurd rfl (hguest _ _).2
  | endSleep _ _ hpc | endSchedule _ _ hpc | handled _ _ hpc | yieldCurrent _ hpc
  | psciValue _ hpc | psciEnd _ hpc | cpuOn _ hpc | prepare _ hpc | launch _ hpc
  | success _ _ hpc | offRunning _ hpc | offInit _ hpc | offAgain _ hpc
  | offSleep _ _ hpc =>
    injection ha with ha
    subst ha
    rw [Fresh, hpc] at hfresh
    rcases hfresh with hspin | ⟨hway, -⟩
    · cases hspin
    · cases hway
  | loopEnter _ hpc _ | clear _ hpc | decideStay _ hpc _ | resume _ hpc =>
    injection ha with ha
    subst ha
    refine hcarry hpc (goto_pc_self ..) (by simp) rfl ?_
    rw [frameOf, frameOf, hpc, goto_pc_self]
    exact id
  | decideSwitch ticks _ hpc _ _ =>
    injection ha with ha
    subst ha
    refine hcarry hpc (goto_pc_self ..) (by simp) rfl ?_
    rw [frameOf, frameOf, hpc, goto_pc_self]
    simp only [goto_vcpu]
    rw [schedule_keeps Vcpu.regs (fun _ _ => rfl) ticks]
    exact id
  | irq _ _ _ _ hpc =>
    injection ha with ha
    subst ha
    refine hcarry hpc (goto_pc_self ..) (by simp) rfl ?_
    rw [frameOf, frameOf, hpc, goto_pc_self, goto_vcpu, edit_vcpu_self]
    exact id
  | requests _ hpc =>
    injection ha with ha
    subst ha
    refine hcarry hpc (goto_pc_self ..) (by simp) rfl ?_
    rw [frameOf, frameOf, hpc, goto_pc_self, goto_vcpu, edit_vcpu_self]
    simp only [processVcpuRequests_regs hnone]
    exact id

omit hstep

/-- The target of a CPU_ON that has just succeeded. -/
theorem fresh_success (hstep : VcpuStep B S (.success c t e x) s s') (ht : B.isVcpu t = true) :
    Fresh B s' t e x := by
  obtain ⟨hrun, hp, htarget, -, -⟩ := hstep.success_pc
  obtain ⟨hpark, -, -⟩ := h.window hrun.1 htarget
  obtain ⟨hentry, hel1⟩ := h.prepared hrun.1 hp
  have hactor := hpark.not_actor hstep
  have hprep : ¬ Prepares (.success c t e x) s t := by
    rintro (⟨_, _, heq, -⟩ | ⟨_, heq⟩) <;> cases heq
  have hrest := h.resting ht hpark.away
  have hel1' := hstep.el1Of_eq h.ok ht (hpark.not_guest hstep) hprep
  rw [el1Of_away hpark.away, hel1] at hel1'
  rw [Fresh, frameOf, hstep.pc_eq hactor, hstep.regs_eq hactor hprep, hel1']
  cases hpc : s.pc t with
  | entry | requests => exact .inr ⟨rfl, hentry, rfl⟩
  | spinning => exact .inl rfl
  | _ => rw [hpc] at hrest; cases hrest

theorem step_fresh (hstep : VcpuStep B S a s s')
    (ht : B.isVcpu t = true) (hw' : awaited t (a :: tr) = some (e, x)) : Fresh B s' t e x := by
  by_cases hon : ∃ c e x, a = .success c t e x
  · obtain ⟨c, e', x', rfl⟩ := hon
    have heq : some (e', x') = some (e, x) := by simpa [awaited] using hw'
    injection heq with heq
    injection heq with he hx
    subst he hx
    exact h.fresh_success hstep ht
  by_cases hguest : ∀ r e, a ≠ .instr t r e ∧ a ≠ .trap t r e
  · rw [awaited_same (fun c e x heq => hon ⟨c, e, x, heq⟩) hguest] at hw'
    by_cases ha : a.actor = some t
    · exact h.fresh_own hstep hw' ha hguest
    · exact h.fresh_other hstep ht hw' ha
  · cases a <;> simp_all [awaited]

theorem step (hL : Lawful S I M) (hset : Settled B a s)
    (hstep : VcpuStep B S a s s') : CpuOnOk B I (a :: tr) s' where
  ok := h.ok.step hL hstep
  noException hv := hstep.noException (h.noException hv)
  resting hv haway := h.step_resting hstep hv haway
  unstarted hv hnew := h.step_unstarted hL hstep hv hnew
  window hc ht := h.step_window hstep hc hL hset ht
  prepared hc hp := h.step_prepared hstep hc hL hset hp
  launched hc hp := h.step_launched hstep hc hp
  alone hc hc' ht ht' := h.step_alone hstep hc hset hc' ht ht'
  off ht hst := h.step_off hstep ht hst
  once t := h.step_once hstep t
  fresh ht hw := h.step_fresh hstep ht hw

omit h

theorem start (h : VcpuStart B I s) : CpuOnOk B I [] s where
  ok := h.ok
  noException hv := by simp [Vcpu.NoException, h.pendingReq hv]
  resting hv _ := by rw [h.pc hv]; rfl
  unstarted hv _ := ⟨⟨(h.asleep hv).1, (h.asleep hv).2⟩, h.pc hv, by rw [h.state hv]; simp⟩
  window hc ht := by rw [h.pc hc] at ht; cases ht
  prepared hc hp := by rw [h.pc hc] at hp; cases hp
  launched hc hp := by rw [h.pc hc] at hp; cases hp
  alone hc _ ht _ := by rw [h.pc hc] at ht; cases ht
  off _ _ := ⟨rfl, rfl⟩
  once _ := Nat.zero_le 1
  fresh _ hw := by cases hw

theorem reach (hL : Lawful S I M) {s₀ : VcpuSys σ} (hstart : VcpuStart B I s₀)
    (hrun : GuardedRun (VcpuStep B S) (Settled B) s₀ tr s) : CpuOnOk B I tr s :=
  hrun.inv (.start hstart) fun h hset hs => h.step hL hset hs

end CpuOnOk

/-- In every run in which each CPU_ON finds its target settled, a vCPU is turned
on at most once each time it was off, and its next instruction is at the entry
that it was given, with the context id in `x0` and the EL1 registers at reset. -/
theorem cpuOn_once_at_entry (hL : Lawful S I M) {s₀ : VcpuSys σ} (hstart : VcpuStart B I s₀)
    (hrun : GuardedRun (VcpuStep B S) (Settled B) s₀ tr s) (ht : B.isVcpu t = true) :
    successes t tr ≤ 1 ∧ ∀ {a s' frame el1}, VcpuStep B S a s s' →
        a = .instr t frame el1 ∨ a = .trap t frame el1 →
        awaited t tr = some (e, x) →
        frame.elr = e ∧ frame.x 0 = x ∧ el1 = resetEl1 := by
  have h := CpuOnOk.reach hL hstart hrun
  refine ⟨h.once t, ?_⟩
  intro a s' frame el1 hstep ha hw
  have hguest : s.Runs B t ∧ s.pc t = .guest frame ∧ el1 = s.el1 (B.pcpuOf t) := by
    rcases ha with rfl | rfl
    · cases hstep with
      | instr _ _ hr hpc => exact ⟨hr, hpc, rfl⟩
    · cases hstep with
      | trap _ _ hr hpc => exact ⟨hr, hpc, rfl⟩
  obtain ⟨hr, hpc, rfl⟩ := hguest
  rcases h.fresh ht hw with hspin | ⟨-, hentry, hreset⟩
  · rw [hpc] at hspin
    cases hspin
  · rw [frameOf, hpc] at hentry
    rw [el1Of_current hr] at hreset
    exact ⟨hentry.1, hentry.2, hreset⟩

/-- vCPU 1 calls CPU_ON for vCPU 2. -/
def cpuOnFrame : CpuRegs := smcFrame 0xc4000003 1 0x1000 0x2a

/-- vCPU 1 has turned on vCPU 2, which is in its guest. -/
def duoOn : VcpuSys Noop :=
  let s := ((duoGuest.setEl1 0 fun _ => 0).edit 1 fun c =>
    { c with regs := cpuOnFrame }).goto 1 .handler
  let s := s.goto 1 (.preparing 2 true)
  let s := (s.edit 2 (prepareLinuxVcpuContext 0x40000000 0 (cpuOnFrame.x 2)
    (cpuOnFrame.x 3))).goto 1 (.launching 2 (cpuOnFrame.x 2) (cpuOnFrame.x 3) true)
  let s := (s.edit 2 fun c => { c with state := .running }).goto 1
    (.waking 2 (cpuOnFrame.x 2) (cpuOnFrame.x 3) true)
  let s := (s.setPcpu 1 (wakeThread schedNoop ⟨false, fun _ => 0⟩ 2
    (s.home duoBoard 2))).goto 1 (.psciEnd PSCI_RET_SUCCESS true)
  let s := (s.schedule duoBoard schedNoop 1 fun _ => 0).goto 2 .requests
  let s := (s.edit 2 Vcpu.processVcpuRequests).goto 2 .resuming
  s.goto 2 (.guest (s.vcpu 2).regs)

def duoOnTrace : List VcpuAct :=
  [.resume 2, .tau 2, .tau 2, .world,
    .success 1 2 (cpuOnFrame.x 2) (cpuOnFrame.x 3), .launch 1 2, .tau 1, .cpuOn 1 2,
    .trap 1 (duoGuest.vcpu 1).regs (duoGuest.el1 0), .resume 1, .tau 1, .tau 1,
    .world, .startVm 0 1]

theorem settled_cpuOn {s : VcpuSys Noop} (hblk : ((s.home duoBoard t).ctl.obj t).status = .blocked)
    (h1 : (s.pc 1).target ≠ some t) (h2 : (s.pc 2).target ≠ some t) :
    Settled duoBoard (.cpuOn c t) s := by
  refine ⟨hblk, fun c' hc' => ?_⟩
  rcases duoBoard_vcpus hc' with rfl | rfl
  · exact h1
  · exact h2

theorem duoOn_run : GuardedRun (VcpuStep duoBoard schedNoop) (Settled duoBoard)
    duoStart duoOnTrace duoOn := by
  have h : LetsBoot (Settled duoBoard) :=
    ⟨fun _ _ _ => trivial, fun _ => trivial, fun _ _ => trivial, fun _ _ => trivial,
      fun _ _ _ _ => trivial⟩
  refine .cons (.cons (.cons (.cons (.cons (.cons (.cons (.cons (.cons (duoGuest_run h)
    (h.trap _ _ _ _) (.trap cpuOnFrame (fun _ => 0) ⟨rfl, rfl⟩ rfl))
    (settled_cpuOn (by decide) (by simp [VcpuPc.target]) ?_)
      (.cpuOn ⟨rfl, rfl⟩ rfl (by decide) (by decide) (by decide) (by decide)))
    (h.tau _ _) (.prepare ⟨rfl, rfl⟩ rfl))
    trivial (.launch ⟨rfl, rfl⟩ rfl))
    trivial (.success ⟨false, fun _ => 0⟩ ⟨rfl, rfl⟩ rfl))
    (h.world _) (.schedule (fun _ => 0) rfl rfl))
    (h.tau _ _) (.loopEnter ⟨rfl, rfl⟩ rfl rfl))
    (h.tau _ _) (.requests ⟨rfl, rfl⟩ rfl))
    (h.resume _ _) (.resume ⟨rfl, rfl⟩ rfl)
  exact fun hc => by cases hc

/-- vCPU 2 begins as it was told. -/
theorem cpuOn_once_at_entry_first : successes 2 duoOnTrace ≤ 1 ∧ ∃ frame el1 s',
      VcpuStep duoBoard schedNoop (.instr 2 frame el1) duoOn s' ∧
        frame.elr = 0x1000 ∧ frame.x 0 = 0x2a ∧ el1 = resetEl1 := by
  have h := cpuOn_once_at_entry (e := cpuOnFrame.x 2) (x := cpuOnFrame.x 3)
    schedNoop_lawful duoStart_start duoOn_run (t := 2) rfl
  have hstep := VcpuStep.instr (B := duoBoard) (S := schedNoop) (s := duoOn) (v := 2)
    zeroRegs (fun _ => 0) ⟨rfl, rfl⟩ rfl
  exact ⟨h.1, _, _, _, hstep, h.2 hstep (.inl rfl) rfl⟩

/-- vCPU 2 goes off, and before it has left its pCPU vCPU 1 turns it on again:
its next instruction is not at the entry that it was given, and `x0` is the
result of CPU_OFF. -/
theorem cpuOn_misses_entry : ∃ tr s frame el1 s',
    GuardedRun (VcpuStep duoBoard schedNoop) (fun _ _ => True) duoStart tr s ∧
      awaited 2 tr = some (0x1000, 0x2a) ∧
      VcpuStep duoBoard schedNoop (.instr 2 frame el1) s s' ∧
      frame.elr = 0x1002 ∧ frame.x 0 = 0 ∧ el1 ≠ resetEl1 := by
  have hrun : GuardedRun (VcpuStep duoBoard schedNoop) (fun _ _ => True) duoStart
      duoOnTrace duoOn := duoOn_run.mono fun _ => trivial
  refine ⟨_, _, _, _, _, .cons (.cons (.cons (.cons (.cons (.cons (.cons (.cons (.cons
    (.cons (.cons (.cons (.cons (.cons (.cons (.cons (.cons (.cons hrun
    trivial (.trap (smcFrame 0x84000002 0 0 0) (fun _ => 7) (v := 2) ⟨rfl, rfl⟩ rfl))
    trivial (.offRunning ⟨rfl, rfl⟩ rfl
      (show AsksOff _ 2 (.psci false true) from ⟨by decide, by decide⟩) rfl))
    trivial (.offSleep ⟨true, fun _ => 0⟩ (v := 2) ⟨rfl, rfl⟩ rfl))
    trivial (.psciEnd (v := 1) ⟨rfl, rfl⟩ rfl))
    trivial (.clear (v := 1) ⟨rfl, rfl⟩ rfl))
    trivial (.decideStay (v := 1) ⟨rfl, by decide⟩ rfl (by decide)))
    trivial (.requests (v := 1) ⟨rfl, by decide⟩ rfl))
    trivial (.resume (v := 1) ⟨rfl, by decide⟩ rfl))
    trivial (.trap cpuOnFrame (fun _ => 0) (v := 1) ⟨rfl, by decide⟩ rfl))
    trivial (.cpuOn (v := 1) (t := 2) ⟨rfl, by decide⟩ rfl
      (show psciExit _ = some true by decide) (by decide) (by decide) (by decide)))
    trivial (.prepare (v := 1) ⟨rfl, by decide⟩ rfl))
    trivial (.launch (v := 1) ⟨rfl, by decide⟩ rfl))
    trivial (.success ⟨false, fun _ => 0⟩ (v := 1) ⟨rfl, by decide⟩ rfl))
    trivial (.psciEnd (v := 2) ⟨rfl, by decide⟩ rfl))
    trivial (.clear (v := 2) ⟨rfl, by decide⟩ rfl))
    trivial (.decideStay (v := 2) ⟨rfl, by decide⟩ rfl (by decide)))
    trivial (.requests (v := 2) ⟨rfl, by decide⟩ rfl))
    trivial (.resume (v := 2) ⟨rfl, by decide⟩ rfl), by decide,
    .instr zeroRegs (fun _ => 0) ⟨rfl, by decide⟩ rfl, by decide, by decide,
    fun h => ?_⟩
  exact absurd (congrFun h .sctlr) (by decide)

/-! ## Between two instructions -/

/-- The step is no instruction of the vCPU and prepares no new context for it. -/
def Rests (v : Tid) (a : VcpuAct) (s : VcpuSys σ) : Prop :=
  (∀ r e, a ≠ .instr v r e ∧ a ≠ .trap v r e) ∧ ¬ Prepares a s v

/-- Whatever the others do, however often the vCPU is switched out and in, an instruction
finds the EL1 registers that the last one left, unless a new context was prepared. -/
theorem el1_kept {s'' : VcpuSys σ} {r : CpuRegs} {e : El1Regs} (hL : Lawful S I M)
    (hok : SysOk B I s) (hrun : GuardedRun (VcpuStep B S) (Rests v) s tr s')
    (hstep : VcpuStep B S a s' s'') (ha : a = .instr v r e ∨ a = .trap v r e) :
    e = s.el1Of B v := by
  have hr : s'.Runs B v := hstep.runs (by rcases ha with rfl | rfl <;> rfl)
  have hinv := hrun.inv (P := fun _ s' => SysOk B I s' ∧ s'.el1Of B v = s.el1Of B v) ⟨hok, rfl⟩
    fun h hg hs => ⟨h.1.step hL hs, (hs.el1Of_eq h.1 hr.1 hg.1 hg.2).trans h.2⟩
  rw [← hinv.2, el1Of_current hr]
  rcases ha with rfl | rfl <;> cases hstep <;> rfl

/-! ### Two vCPUs on one pCPU -/

def sharedBoard : Board := { duoBoard with pcpuOf := fun _ => 0 }

/-- On pCPU 0 the budget of server 1 has run out; the others are idle. -/
def sharedPcpu (n : Nat) : Clocked Rtds :=
  if n = 0 then rtdsAt 2500 .timerTick twoServers
  else rtdsAt 5 .runIdle (rtdsAt 4 (.initThreadData 0) (rtdsStart 0 (fun _ => blankThread) 3))

/-- vCPU 1 is in its guest, vCPU 2 has been switched out. -/
def sharedStart : VcpuSys Rtds where
  pcpu n := (sharedPcpu n).pcpu
  el1 _ _ := 7
  vcpu _ := { duoStart.vcpu 1 with state := .running }
  pc v := if v = 1 then .guest zeroRegs else .requests
  started _ := true
  irqBlocks _ := false
  preemptCount _ := none

theorem sharedPcpu_state (n : Nat) : RtdsState 1000 (sharedPcpu n) := by
  rw [sharedPcpu]
  split
  · obtain ⟨tr, hrun⟩ := twoServers_run (fun _ _ => True) (fun _ _ _ _ => trivial)
      fun _ _ _ => trivial
    exact .reach (by decide)
      (.cons hrun trivial (rtdsAt_step _ _ (by decide) (by decide) (by decide)))
  · exact .reach (by decide) (show GuardedRun _ (fun _ _ => True) _ _ _ from
      .cons (.cons .nil trivial (rtdsAt_step _ _ (by decide) (by decide) (by decide)))
        trivial (rtdsAt_step _ _ (by decide) (by decide) (by decide)))

theorem sharedStart_ok : SysOk sharedBoard Rtds.LockFree sharedStart := by
  refine ⟨fun n => (sharedPcpu_state n).ok, fun n => (sharedPcpu_state n).free, fun n => ?_,
    fun hv => ?_, fun {v n} hv hm => ?_, fun hv => ?_, fun {v t} _ ht => ?_⟩
  · simp only [sharedStart, sharedPcpu]
    split <;> decide
  · rcases duoBoard_vcpus hv with rfl | rfl <;> decide
  · by_contra hn
    change v ∈ (sharedPcpu n).pcpu.ctl.threadList at hm
    rw [sharedPcpu, if_neg (show n ≠ 0 from hn)] at hm
    obtain rfl : v = 0 := List.mem_singleton.mp hm
    cases hv
  · rcases duoBoard_vcpus hv with rfl | rfl <;> decide
  · simp only [sharedStart] at ht
    split at ht <;> cases ht

theorem rests_tau (hpc : (s.pc c).target = none) : Rests v (.tau c) s := by
  refine ⟨by simp, ?_⟩
  rintro (⟨c', advance, hc, hprep⟩ | ⟨vm, hvm⟩)
  · cases hc
    rw [hprep] at hpc
    cases hpc
  · cases hvm

/-- The pCPU is switched to vCPU 2, whose guest writes every register, and back. -/
theorem el1_kept_switched : ∃ tr s' r e s'',
    GuardedRun (VcpuStep sharedBoard (schedRtds 1000)) (Rests 1) sharedStart tr s' ∧
      (∃ r₂ e₂, VcpuAct.instr 2 r₂ e₂ ∈ tr) ∧
      VcpuStep sharedBoard (schedRtds 1000) (.instr 1 r e) s' s'' ∧ e = fun _ => 7 := by
  have hstart : GuardedRun (VcpuStep sharedBoard (schedRtds 1000)) (Rests 1)
      sharedStart [] sharedStart := .nil
  have hout := ((hstart.cons
    (rests_tau rfl) (.irq 0 0 0 (v := 1) ⟨rfl, rfl⟩ rfl)).cons
    (rests_tau rfl) (.clear (v := 1) ⟨rfl, rfl⟩ rfl)).cons
    (by simp [Rests, Prepares])
    (.decideSwitch (fun _ => 2501) (v := 1) ⟨rfl, rfl⟩ rfl (by decide) (by decide))
  have htwo := ((hout.cons
    (rests_tau rfl) (.requests (v := 2) ⟨rfl, by decide⟩ rfl)).cons
    (by simp [Rests, Prepares]) (.resume (v := 2) ⟨rfl, by decide⟩ rfl)).cons
    (by simp [Rests, Prepares]) (.instr zeroRegs (fun _ => 9) (v := 2) ⟨rfl, by decide⟩ rfl)
  have hin := (((htwo.cons
    (rests_tau rfl) (.irq 0 0 0 (v := 2) ⟨rfl, by decide⟩ rfl)).cons
    (by simp [Rests, Prepares])
    (.sched (n := 0) (.timerTick (fun _ => 4600) (by decide)) trivial)).cons
    (rests_tau rfl) (.clear (v := 2) ⟨rfl, by decide⟩ rfl)).cons
    (by simp [Rests, Prepares])
    (.decideSwitch (fun _ => 4601) (v := 2) ⟨rfl, by decide⟩ rfl (by decide) (by decide))
  have hrun := (hin.cons
    (rests_tau rfl) (.requests (v := 1) ⟨rfl, by decide⟩ rfl)).cons
    (by simp [Rests, Prepares]) (.resume (v := 1) ⟨rfl, by decide⟩ rfl)
  refine ⟨_, _, _, _, _, hrun, by simp, .instr zeroRegs (fun _ => 0) ⟨rfl, by decide⟩ rfl, ?_⟩
  exact el1_kept (schedRtds_lawful (by decide)) sharedStart_ok hrun
    (.instr zeroRegs (fun _ => 0) ⟨rfl, by decide⟩ rfl) (.inl rfl)

end Sima.Arm64
