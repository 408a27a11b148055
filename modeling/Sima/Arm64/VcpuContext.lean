import Sima.Arm64.VcpuInv

/-!
# The EL1 registers of a vCPU

The EL1 system registers of a vCPU are in the pCPU while its thread is current,
and in `gctx` while it is not. `el1Of` is where to look. A context switch —
`unload_vcpu` on one side, `load_vcpu` on the other — moves them between the two
and loses nothing, for the vCPUs that it switches between and for all others
(`el1Of_schedule`). So they change when the guest writes them and when somebody
prepares a new context, and at no other time (`VcpuStep.el1Of_eq`).
-/

namespace Sima.Arm64

open Sched

variable {σ : Type} {B : Board} {S : AcrnScheduler σ} {I M : RunView → σ → Prop} {s s' : VcpuSys σ}
  {a : VcpuAct} {v w t : Tid} {n : Nat} {c : Vcpu}

namespace VcpuSys

/-- The EL1 system registers of a vCPU, wherever they are. -/
def el1Of (B : Board) (s : VcpuSys σ) (v : Tid) : El1Regs :=
  if (s.home B v).ctl.currObj = some v then s.el1 (B.pcpuOf v)
  else (s.vcpu v).gctx.el1

theorem el1Of_current (h : s.Runs B v) : s.el1Of B v = s.el1 (B.pcpuOf v) := if_pos h.2

theorem el1Of_away (h : (s.home B v).ctl.currObj ≠ some v) : s.el1Of B v = (s.vcpu v).gctx.el1 :=
  if_neg h

theorem el1Of_congr (hcur : (s'.home B v).ctl.currObj = (s.home B v).ctl.currObj)
    (hlive : s'.el1 (B.pcpuOf v) = s.el1 (B.pcpuOf v))
    (hsaved : (s'.vcpu v).gctx.el1 = (s.vcpu v).gctx.el1) : s'.el1Of B v = s.el1Of B v := by
  rw [el1Of, el1Of, hcur, hlive, hsaved]

@[simp] theorem el1Of_goto (s : VcpuSys σ) (w : Tid) (pc : VcpuPc) :
    (s.goto w pc).el1Of B v = s.el1Of B v := rfl

variable {f : Vcpu → Vcpu}

theorem edit_gctx (hf : (f (s.vcpu w)).gctx.el1 = (s.vcpu w).gctx.el1) :
    ((s.edit w f).vcpu v).gctx.el1 = (s.vcpu v).gctx.el1 := by
  by_cases h : v = w
  · subst h
    rw [edit_vcpu_self, hf]
  · rw [edit_vcpu_of_ne h]

theorem el1Of_edit (hf : (f (s.vcpu w)).gctx.el1 = (s.vcpu w).gctx.el1) :
    (s.edit w f).el1Of B v = s.el1Of B v :=
  el1Of_congr rfl rfl (edit_gctx hf)

theorem el1Of_setPcpu {p : Pcpu σ} (hcur : p.ctl.currObj = (s.pcpu n).ctl.currObj) :
    (s.setPcpu n p).el1Of B v = s.el1Of B v := by
  refine el1Of_congr ?_ rfl rfl
  by_cases hn : B.pcpuOf v = n
  · rw [home, home, hn, setPcpu_pcpu_self, hcur]
  · rw [home, home, setPcpu_pcpu_of_ne hn]

theorem el1Of_setEl1 (hw : s.Runs B w) (hne : v ≠ w) (e : El1Regs) :
    (s.setEl1 (B.pcpuOf w) e).el1Of B v = s.el1Of B v := by
  by_cases hn : B.pcpuOf v = B.pcpuOf w
  · -- not current, since `w` is
    have hcur : (s.home B v).ctl.currObj ≠ some v := by
      rw [home, hn]
      intro hc
      have := hc.symm.trans hw.2
      injection this with heq
      exact hne heq
    rw [el1Of_away hcur]
    exact el1Of_away hcur
  · exact el1Of_congr rfl (setEl1_el1_of_ne hn) rfl

theorem unload_vcpu_of_ne (hne : v ≠ t) : (s.unload B n t).vcpu v = s.vcpu v := by
  rw [unload]
  split
  · exact edit_vcpu_of_ne hne
  · rfl

theorem load_el1_of_ne {m : Nat} (hne : m ≠ n) : (s.load B n t).el1 m = s.el1 m := by
  rw [load]
  split
  · exact setEl1_el1_of_ne hne
  · rfl

/-- Save and restore lose nothing. -/
theorem el1Of_schedule (hok : SysOk B I s) (hv : B.isVcpu v = true)
    (ticks : Nat → Nat) : (s.schedule B S n ticks).el1Of B v = s.el1Of B v := by
  obtain ⟨prev, hprev⟩ := Option.ne_none_iff_exists'.mp (hok.busy n)
  have hnext := currObj_schedule S ticks (s.pcpu n)
  generalize (pick S ticks (s.pcpu n)).1 = next at hnext
  by_cases hsame : prev = next
  · simp only [schedule, hprev, hnext, if_pos hsame]
    exact el1Of_setPcpu (by rw [hnext, hprev, hsame])
  have heq : s.schedule B S n ticks = ((s.unload B n prev).load B n next).setPcpu n
      (Sched.schedule S ticks (s.pcpu n)) := by
    simp only [schedule, hprev, hnext, if_neg hsame]
  by_cases hn : B.pcpuOf v = n
  · subst hn
    have hcur : ((s.schedule B S (B.pcpuOf v) ticks).home B v).ctl.currObj = some next := by
      rw [home, schedule_pcpu_self, hnext]
    have hother : ∀ {s' : VcpuSys σ} {t}, (s'.home B v).ctl.currObj = some t →
        v ≠ t → (s'.home B v).ctl.currObj ≠ some v := by
      rintro s' t ht hne hc
      exact hne (Option.some.inj (hc.symm.trans ht))
    by_cases hvn : v = next
    · -- switched in: restored
      subst hvn
      rw [el1Of_current ⟨hv, hcur⟩, el1Of_away (hother hprev (Ne.symm hsame)), heq,
        setPcpu_el1, load, if_pos hv, setEl1_el1_self, restoreEl1Sysregs_eq,
        unload_vcpu_of_ne (Ne.symm hsame)]
    rw [el1Of_away (hother hcur hvn), heq, setPcpu_vcpu, load_vcpu]
    by_cases hvp : v = prev
    · -- switched out: saved
      subst hvp
      rw [unload, if_pos hv, edit_vcpu_self, el1Of_current ⟨hv, hprev⟩]
      exact saveEl1Sysregs_eq _ _
    · rw [unload_vcpu_of_ne hvp, el1Of_away (hother hprev hvp)]
  · -- another pCPU: neither of the two is `v`
    have hforeign : ∀ {t}, (s.pcpu n).ctl.currObj = some t → v ≠ t := by
      rintro t ht rfl
      exact hn (hok.owner hv ((hok.view n).current v ht)).symm
    refine el1Of_congr ?_ ?_ ?_
    · rw [home, schedule_pcpu_of_ne hn]
      rfl
    · rw [heq, setPcpu_el1, load_el1_of_ne hn, unload_el1]
    · rw [heq, setPcpu_vcpu, load_vcpu, unload_vcpu_of_ne (hforeign hprev)]

theorem schedule_keeps {α : Type} (get : Vcpu → α)
    (hget : ∀ c g, get { c with gctx := g } = get c) (ticks : Nat → Nat) :
    get ((s.schedule B S n ticks).vcpu v) = get (s.vcpu v) := by
  rcases s.schedule_cases B S n ticks with h | ⟨prev, next, -, -, -, h⟩
  · rw [h, setPcpu_vcpu]
  rw [h, setPcpu_vcpu, load_vcpu, unload]
  split
  · by_cases hv : v = prev
    · subst hv
      rw [edit_vcpu_self, hget]
    · rw [edit_vcpu_of_ne hv]
  · rfl

end VcpuSys

/-- The step writes a new boot context for the vCPU. -/
def Prepares (a : VcpuAct) (s : VcpuSys σ) (v : Tid) : Prop :=
  (∃ c advance, a = .tau c ∧ s.pc c = .preparing v advance) ∨ ∃ vm, a = .startVm vm v

open VcpuSys in
theorem VcpuStep.el1Of_eq (h : VcpuStep B S a s s') (hok : SysOk B I s)
    (hv : B.isVcpu v = true) (hguest : ∀ r e, a ≠ .instr v r e ∧ a ≠ .trap v r e)
    (hprep : ¬ Prepares a s v) : s'.el1Of B v = s.el1Of B v := by
  cases h with
  | loopEnter | psciValue | cpuOn | offAgain | decideStay | resume | learn => rfl
  | loopLeave | irq | handled | psciEnd | launch | offRunning | offInit =>
    rw [el1Of_goto]
    exact el1Of_edit rfl
  | requests =>
    rw [el1Of_goto]
    exact el1Of_edit (by rw [processVcpuRequests_gctx])
  | endSleep caller hrun | offSleep caller hrun =>
    exact el1Of_setPcpu ((SchedStep.sleepThread caller
      (hok.member hrun.1)).currObj_eq (by simp) (hok.busy _))
  | success caller hrun hpc =>
    obtain ⟨ht, -⟩ := hok.target hrun.1 (by rw [hpc]; rfl)
    exact el1Of_setPcpu ((SchedStep.wakeThread caller
      (hok.member ht)).currObj_eq (by simp) (hok.busy _))
  | @startVm caller _ vm bsp _ hbsp =>
    have hne : v ≠ bsp := fun heq => hprep (.inr ⟨vm, by rw [heq]⟩)
    refine (el1Of_setPcpu (s := s.edit bsp _) ((SchedStep.wakeThread caller (hok.member
      (Board.isVcpu_of_head hbsp).1)).currObj_eq (by simp) (hok.busy _))).trans ?_
    exact el1Of_congr rfl rfl (by rw [edit_vcpu_of_ne hne])
  | endSchedule ticks | decideSwitch ticks | schedule ticks => exact el1Of_schedule hok hv ticks
  | @instr frame' el1' _ w frame hrun =>
    have hne : v ≠ w := by
      rintro rfl
      exact (hguest _ _).1 rfl
    exact el1Of_setEl1 hrun hne el1'
  | @trap frame' el1' _ w frame hrun =>
    have hne : v ≠ w := by
      rintro rfl
      exact (hguest _ _).2 rfl
    rw [el1Of_goto, el1Of_edit rfl]
    exact el1Of_setEl1 hrun hne el1'
  | yieldCurrent => exact el1Of_setPcpu rfl
  | clear =>
    refine el1Of_setPcpu ?_
    split
    · rw [← SchedControl.view_currObj, view_clearReschedule, SchedControl.view_currObj]
      rfl
    · rfl
  | @prepare _ w t advance hrun hpc =>
    have hne : v ≠ t := by
      rintro rfl
      exact hprep (.inl ⟨w, advance, rfl, hpc⟩)
    exact el1Of_congr rfl rfl (by rw [goto_vcpu, edit_vcpu_of_ne hne])
  | @request _ w hw =>
    refine (el1Of_setPcpu (s := s.edit w _) ((SchedStep.requestThreadPriority
      (hok.member hw)).currObj_eq (by simp) (hok.busy _))).trans ?_
    exact el1Of_edit rfl
  | @sched _ n op p' hstep hforeign =>
    refine el1Of_setPcpu (hstep.currObj_eq ?_ (hok.busy _))
    rintro rfl
    exact hforeign

open VcpuSys in
theorem VcpuStep.regs_eq (h : VcpuStep B S a s s') (ha : a.actor ≠ some v)
    (hprep : ¬ Prepares a s v) : (s'.vcpu v).regs = (s.vcpu v).regs := by
  have hne : ∀ {w}, some w ≠ some v → v ≠ w := fun hw heq => hw (by rw [heq])
  cases h with
  | loopEnter | endSleep | instr | yieldCurrent | psciValue | cpuOn | success
  | offAgain | offSleep | clear | decideStay | resume | sched | learn => rfl
  | endSchedule ticks | decideSwitch ticks | schedule ticks =>
    exact schedule_keeps Vcpu.regs (fun _ _ => rfl) ticks
  | loopLeave | irq | handled | psciEnd | offRunning | offInit | requests =>
    rw [goto_vcpu, edit_vcpu_of_ne (hne ha)]
  | trap => rw [goto_vcpu, edit_vcpu_of_ne (hne ha), setEl1_vcpu]
  | @launch _ w t _ _ _ hrun hpc =>
    rw [goto_vcpu]
    by_cases hv : v = t
    · subst hv
      rw [edit_vcpu_self]
    · rw [edit_vcpu_of_ne hv]
  | @request _ w hw =>
    rw [setPcpu_vcpu]
    by_cases hv : v = w
    · subst hv
      rw [edit_vcpu_self, setRequest_regs]
    · rw [edit_vcpu_of_ne hv]
  | @prepare _ w t advance hrun hpc =>
    have hvt : v ≠ t := by
      rintro rfl
      exact hprep (.inl ⟨w, advance, rfl, hpc⟩)
    rw [goto_vcpu, edit_vcpu_of_ne hvt]
  | @startVm caller _ vm bsp _ hbsp =>
    have hvb : v ≠ bsp := fun heq => hprep (.inr ⟨vm, by rw [heq]⟩)
    simp only [setPcpu_vcpu, edit_vcpu_of_ne hvb]

/-- An edit after which no exception is queued where none was. -/
theorem VcpuSys.noException_edit {f : Vcpu → Vcpu}
    (hf : (s.vcpu w).NoException → (f (s.vcpu w)).NoException)
    (h : (s.vcpu v).NoException) : ((s.edit w f).vcpu v).NoException := by
  by_cases hv : v = w
  · subst hv
    rw [edit_vcpu_self]
    exact hf h
  · rw [edit_vcpu_of_ne hv]
    exact h

theorem noException_prepare {root delta entry x0 : Reg} :
    (prepareLinuxVcpuContext root delta entry x0 c).NoException := by
  simp [Vcpu.NoException, prepareLinuxVcpuContext]

theorem noException_prepareBsp {vm : Nat} : (VcpuSys.prepareBsp B vm v c).NoException := by
  simp only [VcpuSys.prepareBsp]
  split
  · exact noException_prepare
  · simp [Vcpu.NoException, prepareLinuxVcpuContext]

open VcpuSys in
theorem VcpuStep.noException (h : VcpuStep B S a s s')
    (hv : (s.vcpu v).NoException) : (s'.vcpu v).NoException := by
  cases h with
  | loopEnter | endSleep | instr | yieldCurrent | psciValue | cpuOn | success
  | offAgain | offSleep | clear | decideStay | resume | sched | learn => exact hv
  | endSchedule ticks | decideSwitch ticks | schedule ticks =>
    show Vcpu.NoException (VcpuSys.vcpu (VcpuSys.schedule _ _ _ _ _) v)
    rw [Vcpu.NoException, schedule_keeps Vcpu.pendingReq (fun _ _ => rfl) ticks]
    exact hv
  | loopLeave | irq | handled | psciEnd | offRunning | offInit | launch | trap =>
    rw [goto_vcpu]
    refine noException_edit ?_ hv
    exact id
  | requests =>
    exact noException_edit noException_processVcpuRequests hv
  | request =>
    exact noException_edit noException_setRequest hv
  | prepare =>
    exact noException_edit (fun _ => noException_prepare) hv
  | startVm =>
    simp only [setPcpu_vcpu]
    refine noException_edit ?_ hv
    exact fun _ => noException_prepareBsp

end Sima.Arm64
