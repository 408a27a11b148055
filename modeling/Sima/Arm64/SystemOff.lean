import Sima.Arm64.PsciCpuOn

/-!
# PSCI SYSTEM_OFF and SYSTEM_RESET

Both calls stop the vCPU that makes them, and nothing else. Its siblings run on,
and any of them may turn the caller on again with CPU_ON. The VM stops only if
there is no sibling to do so: when the call comes, no other vCPU of the VM is
RUNNING (`Alone`). Then none ever is until the VM is started anew — a vCPU
becomes RUNNING by `start_vm` or by a CPU_ON from a vCPU of the same VM that is
RUNNING itself.
-/

namespace Sima.Arm64

open Sched Lib

variable {σ : Type} {B : Board} {S : AcrnScheduler σ} {I M : RunView → σ → Prop}
  {s s' : VcpuSys σ} {a : VcpuAct} {u v : Tid} {vm : Nat} {tr : List VcpuAct}

/-- The vCPU whose SYSTEM_OFF or SYSTEM_RESET is handled. -/
def VcpuAct.systemCall : VcpuAct → Option Tid
  | .powerOff v (.psci true _) | .offAgain v (.psci true _) => some v
  | _ => none

/-- No vCPU is hindered, and the siblings of a vCPU that makes a system call are
not RUNNING. -/
def Alone (B : Board) (a : VcpuAct) (s : VcpuSys σ) : Prop :=
  Unhindered B a s ∧ ∀ v, a.systemCall = some v → ∀ u, B.isVcpu u = true →
    B.vmOf u = B.vmOf v → u ≠ v → (s.vcpu u).state ≠ .running

/-- A system call of the VM was handled, and the VM was not started since. -/
def isDown (B : Board) (vm : Nat) : List VcpuAct → Bool
  | [] => false
  | a :: tr =>
    match a with
    | .startVm vm' _ => if vm' = vm then false else isDown B vm tr
    | _ =>
      match a.systemCall with
      | some v => if B.vmOf v = vm then true else isDown B vm tr
      | none => isDown B vm tr

theorem isDown_cons (h : isDown B vm (a :: tr) = true) : (∀ bsp, a ≠ .startVm vm bsp) ∧
    ((∃ v, a.systemCall = some v ∧ B.vmOf v = vm) ∨ isDown B vm tr = true) := by
  cases hc : a.systemCall with
  | some v =>
    have hne : ∀ vm' bsp, a ≠ .startVm vm' bsp := by
      rintro vm' bsp rfl
      cases hc
    refine ⟨hne vm, ?_⟩
    by_cases hv : B.vmOf v = vm
    · exact .inl ⟨v, rfl, hv⟩
    · cases a <;> simp_all [isDown]
  | none =>
    cases a with
    | startVm vm' bsp =>
      by_cases hvm : vm' = vm
      · simp [isDown, hvm] at h
      · exact ⟨by simp [hvm], .inr (by simpa [isDown, hvm] using h)⟩
    | _ => exact ⟨by simp, .inr (by simp_all [isDown])⟩

theorem VcpuAct.systemCall_some (h : a.systemCall = some v) :
    ∃ why, a = .powerOff v why ∨ a = .offAgain v why := by
  cases a with
  | powerOff w why | offAgain w why =>
    cases why with
    | fatal => cases h
    | psci system advance =>
      cases system with
      | false => cases h
      | true =>
        injection h with h
        exact ⟨.psci true advance, by simp [h]⟩
  | _ => cases h

theorem VcpuStep.systemCall_state (h : VcpuStep B S a s s')
    (hcall : a.systemCall = some v) : (s'.vcpu v).state ≠ .running := by
  obtain ⟨why, rfl | rfl⟩ := VcpuAct.systemCall_some hcall
  · cases h with
    | offRunning => simp
    | offInit => simp
  · cases h with
    | offAgain _ _ _ hst => exact hst

structure DownOk (B : Board) (I : RunView → σ → Prop) (tr : List VcpuAct)
    (s : VcpuSys σ) : Prop where
  dispatch : DispatchOk B I tr s
  down : ∀ {v}, B.isVcpu v = true → isDown B (B.vmOf v) tr = true → (s.vcpu v).state ≠ .running

/-- While all vCPUs of a VM are off, none of them turns one on. -/
theorem DownOk.no_launch (h : DownOk B I tr s) (hstep : VcpuStep B S a s s')
    (hdown : isDown B (B.vmOf v) tr = true)
    (hstart : ∀ bsp, a ≠ .startVm (B.vmOf v) bsp) : a.launched ≠ some v := by
  intro hon
  cases a with
  | launch c w =>
    injection hon with hon
    subst hon
    cases hstep with
    | launch hrun hpc =>
      obtain ⟨-, hvm⟩ := h.dispatch.ok.target hrun.1 (by rw [hpc]; rfl)
      refine h.down hrun.1 (by rw [← hvm]; exact hdown) ?_
      exact (h.dispatch.off hrun.1).running hrun (by rw [hpc]; rfl) (by rw [hpc]; rfl)
  | startVm vm' w =>
    injection hon with hon
    subst hon
    exact hstart w (by rw [hstep.startVm_bsp.2])
  | _ => cases hon

theorem DownOk.step (h : DownOk B I tr s) (hL : Lawful S I M) (halone : Alone B a s)
    (hstep : VcpuStep B S a s s') : DownOk B I (a :: tr) s' where
  dispatch := h.dispatch.step hL halone.1 hstep
  down {v} hv hdown' := by
    obtain ⟨hstart, hdown⟩ := isDown_cons hdown'
    -- whatever else happens, `v` is not RUNNING afterwards if it was not before
    have hkeep : (s.vcpu v).state ≠ .running → a.launched ≠ some v →
        (s'.vcpu v).state ≠ .running := by
      intro hst hno
      rcases hstep.state v with ⟨-, -, hsame⟩ | ⟨hon, -⟩ | ⟨-, hz⟩ | ⟨-, -, -, hz⟩
      · rw [hsame]
        exact hst
      · exact absurd hon hno
      · rw [hz]
        simp
      · rw [hz]
        simp
    rcases hdown with ⟨w, hcall, hvm⟩ | hdown
    · have hno : a.launched ≠ some v := by
        cases a <;> simp_all [VcpuAct.systemCall, VcpuAct.launched]
      by_cases hvw : v = w
      · subst hvw
        exact hstep.systemCall_state hcall
      · exact hkeep (halone.2 w hcall v hv hvm.symm hvw) hno
    · exact hkeep (h.down hv hdown) (h.no_launch hstep hdown hstart)

theorem DownOk.reach (hL : Lawful S I M) {s₀ : VcpuSys σ} (hstart : VcpuStart B I s₀)
    (hrun : GuardedRun (VcpuStep B S) (Alone B) s₀ tr s) : DownOk B I tr s :=
  hrun.inv ⟨.start hstart, fun _ hd => by cases hd⟩ fun h halone hs => h.step hL halone hs

/-- In every run in which a system call finds the siblings of its vCPU off, no
vCPU of the VM executes an instruction after it until the VM is started anew. -/
theorem systemOff_stops_vm (hL : Lawful S I M) {s₀ : VcpuSys σ} (hstart : VcpuStart B I s₀)
    (hrun : GuardedRun (VcpuStep B S) (Alone B) s₀ tr s)
    (hstep : VcpuStep B S a s s') (hv : B.isVcpu v = true)
    (hdown : isDown B (B.vmOf v) tr = true) (frame : CpuRegs) (el1 : El1Regs) :
    a ≠ .instr v frame el1 ∧ a ≠ .trap v frame el1 := by
  have h := DownOk.reach hL hstart hrun
  have hguest : ∀ {r}, s.Runs B v → s.pc v ≠ .guest r := fun hr hpc =>
    h.down hv hdown ((h.dispatch.off hv).running hr (by rw [hpc]; rfl) (by rw [hpc]; rfl))
  constructor
  · rintro rfl
    cases hstep with
    | instr _ _ hr hpc => exact hguest hr hpc
  · rintro rfl
    cases hstep with
    | trap _ _ hr hpc => exact hguest hr hpc

/-- vCPU 1 calls SYSTEM_OFF. -/
def duoSystemOff : VcpuSys Noop :=
  ((duoGuest.setEl1 0 fun _ => 0).edit 1 fun c =>
    { c with regs := smcFrame 0x84000008 0 0 0 }).goto 1 .handler

/-- No sibling runs when it does. -/
theorem systemOff_stops_vm_alone : ∃ tr s,
    GuardedRun (VcpuStep duoBoard schedNoop) (Alone duoBoard) duoStart tr s ∧
      isDown duoBoard 0 tr = true ∧
      ∀ {a s'}, VcpuStep duoBoard schedNoop a s s' → ∀ frame el1,
        a ≠ .instr 1 frame el1 ∧ a ≠ .trap 1 frame el1 := by
  have h : LetsBoot (Alone duoBoard) :=
    ⟨fun _ _ _ => ⟨trivial, by simp [VcpuAct.systemCall]⟩,
      fun _ => ⟨trivial, by simp [VcpuAct.systemCall]⟩,
      fun _ _ => ⟨trivial, by simp [VcpuAct.systemCall]⟩,
      fun _ _ => ⟨trivial, by simp [VcpuAct.systemCall]⟩,
      fun _ _ _ _ => ⟨trivial, by simp [VcpuAct.systemCall]⟩⟩
  have htrap : GuardedRun (VcpuStep duoBoard schedNoop) (Alone duoBoard) duoStart _
      duoSystemOff := .cons (duoGuest_run h) (h.trap _ _ _ _)
    (.trap (smcFrame 0x84000008 0 0 0) (fun _ => 0) (v := 1) ⟨rfl, rfl⟩ rfl)
  have halone : Alone duoBoard (.powerOff 1 (.psci true true)) duoSystemOff := by
    refine ⟨trivial, fun v hcall u hu _ hne => ?_⟩
    injection hcall with hcall
    subst hcall
    rcases duoBoard_vcpus hu with rfl | rfl
    · exact absurd rfl hne
    · decide
  have hrun := GuardedRun.cons htrap halone (.offRunning ⟨rfl, rfl⟩ rfl ⟨by decide, by decide⟩ rfl)
  exact ⟨_, _, hrun, rfl, fun hstep frame el1 => systemOff_stops_vm schedNoop_lawful
    duoStart_start hrun hstep rfl rfl frame el1⟩

theorem VcpuStep.instr_self {frame : CpuRegs} (hrun : s.Runs B v)
    (hpc : s.pc v = .guest frame) : VcpuStep B S (.instr v frame (s.el1 (B.pcpuOf v))) s s := by
  have h := VcpuStep.instr (S := S) frame (s.el1 (B.pcpuOf v)) hrun hpc
  have hsame : (s.setEl1 (B.pcpuOf v) (s.el1 (B.pcpuOf v))).goto v (.guest frame) = s := by
    simp [VcpuSys.goto, VcpuSys.setEl1, ← hpc]
  rwa [hsame] at h

/-- With a sibling RUNNING, the VM goes on for as long as it likes. -/
theorem systemOff_leaves_sibling : ∃ tr s frame el1, isDown duoBoard 0 tr = true ∧
    ∀ n, GuardedRun (VcpuStep duoBoard schedNoop) (fun _ _ => True) duoStart
      (List.replicate n (.instr 2 frame el1) ++ tr) s := by
  have hrun : GuardedRun (VcpuStep duoBoard schedNoop) (fun _ _ => True) duoStart
      duoOnTrace duoOn := duoOn_run.mono fun _ => trivial
  refine ⟨_, _, _, _, ?_, fun n => (GuardedRun.cons (.cons (.cons (.cons (.cons (.cons (.cons hrun
    trivial (.psciEnd (v := 1) ⟨rfl, rfl⟩ rfl))
    trivial (.clear (v := 1) ⟨rfl, rfl⟩ rfl))
    trivial (.decideStay (v := 1) ⟨rfl, by decide⟩ rfl (by decide)))
    trivial (.requests (v := 1) ⟨rfl, by decide⟩ rfl))
    trivial (.resume (v := 1) ⟨rfl, by decide⟩ rfl))
    trivial (.trap (smcFrame 0x84000008 0 0 0) (fun _ => 0) (v := 1) ⟨rfl, by decide⟩ rfl))
    trivial (.offRunning ⟨rfl, by decide⟩ rfl
      (show VcpuSys.AsksOff _ 1 (.psci true true) from ⟨by decide, by decide⟩)
      (by decide))).replicate trivial
    (VcpuStep.instr_self ⟨rfl, by decide⟩ rfl) n⟩
  rfl

end Sima.Arm64
