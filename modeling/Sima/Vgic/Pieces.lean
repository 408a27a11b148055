import Sima.Lib.Trace
import Sima.Vgic.ListRegs

/-!
# An access in pieces

A trapped access is one step of the machine, and much happens in it: the accessing vCPU
is synced, a word or two are read or written, every vCPU is flushed, and a write to the
ITS may run a thousand commands. For what is to hold between two of them the step is too
coarse. Here it is cut into its pieces — the sync, an access to each of the frames, the
flush — and every step of the machine is a run of those; the other steps are pieces of
their own.
-/

namespace Sima.Vgic

open Lib

inductive Piece where
  /-- A step that is no access. -/
  | deliver (a : Label)
  | sync (v : Vid)
  | gicd (v : Vid) (req : Mmio)
  | gicr (v : Vid) (req : Mmio)
  | its (v : Vid) (a : ItsAccess)
  | flushAll (v : Vid)

/-- Accesses are made by a vCPU that runs. -/
def Vm.Runs (m : Vm) (v : Vid) : Prop := v < m.env.vcpuCount ∧ m.env.phase v = .running

def Label.isAccess : Label → Bool
  | .mmio .. => true
  | _ => false

inductive PieceStep (cfg : GicConfig) : Piece → Vm → Vm → Prop where
  | deliver {m m' : Vm} {a : Label} : a.isAccess = false → Step cfg a m m' →
      PieceStep cfg (.deliver a) m m'
  | sync {m : Vm} {v : Vid} (line : Samples) : m.Runs v →
      PieceStep cfg (.sync v) m (m.modCore fun e s => s.syncVcpu e line (some v) true v)
  | gicd {m : Vm} {v : Vid} {req : Mmio} : m.Runs v →
      addrInRange req.address cfg.gicdBase cfg.gicdSize = true →
      PieceStep cfg (.gicd v req) m (m.gicdAccess cfg v req).vm
  | gicr {m : Vm} {v : Vid} {req : Mmio} : m.Runs v →
      PieceStep cfg (.gicr v req) m (m.gicrAccess cfg v req).vm
  | its {m : Vm} {v : Vid} (mem : Vm.GuestMem) (lines : Nat → Samples) (a : ItsAccess) :
      m.Runs v → m.env.itsEnabled = true →
      PieceStep cfg (.its v a) m (m.itsDo mem lines v a).1
  | flushAll {m : Vm} {v : Vid} : m.Runs v → PieceStep cfg (.flushAll v) m (m.flushAll v)

variable {m m' : Vm} {cfg : GicConfig} {mem : Vm.GuestMem} {lines : Nat → Samples} {line : Samples}
  {c : Caller} {v : Vid} {req : Mmio} {a : Label}

/-! ## What a piece leaves alone -/

/-- Nothing of the ITS has changed, nor of what fixes the machine. -/
structure ItsKept (m m' : Vm) : Prop where
  its : m'.its = m.its
  fixed : m.env.Fixed m'.env

namespace ItsKept

/-- Neither the ITS nor the environment has been written. -/
theorem plain (hits : m'.its = m.its) (henv : m'.env = m.env) : ItsKept m m' :=
  ⟨hits, henv ▸ .refl _⟩

theorem trans {m'' : Vm} (h : ItsKept m m') (h' : ItsKept m' m'') : ItsKept m m'' :=
  ⟨h'.its.trans h.its, h.fixed.trans h'.fixed⟩

theorem injectFound {deviceId eventId : Nat} :
    ItsKept m (m.injectFound line c deviceId eventId) := by
  rw [Vm.injectFound]
  split
  · rw [Vm.injectEvent]
    split
    · split <;> exact plain rfl rfl
    · exact plain rfl rfl
  · exact plain rfl rfl

end ItsKept

/-- The phases have not changed, either. -/
structure Within (m m' : Vm) : Prop extends ItsKept m m' where
  phase : m'.env.phase = m.env.phase

namespace Within

theorem plain (hits : m'.its = m.its) (henv : m'.env = m.env) : Within m m' :=
  ⟨.plain hits henv, by rw [henv]⟩

theorem trans {m'' : Vm} (h : Within m m') (h' : Within m' m'') : Within m m'' :=
  ⟨h.toItsKept.trans h'.toItsKept, h'.phase.trans h.phase⟩

theorem setSpiTarget {virq t : Nat} : Within m (m.setSpiTarget virq t) := by
  rw [Vm.setSpiTarget]
  split
  · dsimp only
    split <;> exact plain rfl rfl
  · exact plain rfl rfl

theorem writeIrqTarget {irqBase size : Nat} {value : BitVec 64} :
    Within m (m.writeIrqTarget irqBase size value) :=
  List.foldlRecOn (motive := Within m) _ _ (plain rfl rfl) fun _ h _ _ => h.trans setSpiTarget

theorem gicdAccess {cfg : GicConfig} : Within m (m.gicdAccess cfg v req).vm := by
  refine Vm.gicdAccess_rule (plain rfl rfl) (fun _ _ _ _ => plain rfl rfl)
    (fun _ => plain rfl rfl) (fun _ => plain rfl rfl)
    (fun _ => ⟨⟨rfl, rfl, rfl, rfl, rfl, rfl⟩, rfl⟩)
    (fun _ _ _ => writeIrqTarget.trans (plain rfl rfl)) fun _ _ _ _ => ?_
  refine .trans ?_ (setSpiTarget.trans (plain rfl rfl))
  exact plain rfl rfl

theorem gicrAccess {cfg : GicConfig} : Within m (m.gicrAccess cfg v req).vm := by
  refine Vm.gicrAccess_rule (plain rfl rfl) (fun m t h => h.trans ?_)
    (fun _ _ => plain rfl rfl) (fun _ _ => plain rfl rfl) (fun _ _ => plain rfl rfl)
    fun _ _ _ _ => ⟨⟨rfl, rfl, rfl, rfl, rfl, rfl⟩, rfl⟩
  cases t <;> exact plain rfl rfl

end Within

theorem ItsKept.step (ha : a.isAccess = false) (hs : Step cfg a m m') : ItsKept m m' := by
  cases hs with
  | mmio => cases ha
  | injectMsi line => exact .injectFound
  | _ => exact ⟨rfl, rfl, rfl, rfl, rfl, rfl⟩

def Piece.isIts : Piece → Bool
  | .its .. => true
  | _ => false

theorem PieceStep.itsKept {p : Piece} (hp : p.isIts = false) (hs : PieceStep cfg p m m') :
    ItsKept m m' := by
  cases hs with
  | deliver ha hs => exact .step ha hs
  | sync line | flushAll => exact .plain rfl rfl
  | gicd => exact Within.gicdAccess.toItsKept
  | gicr => exact Within.gicrAccess.toItsKept
  | its => cases hp

/-! ## Commands do not touch the environment -/

theorem executeCmd_env {cmd : Vm.Cmd} : (m.executeCmd line c cmd).env = m.env :=
  Vm.executeCmd_rule (Q := fun m' => m'.env = m.env) rfl (fun _ _ => rfl) (fun _ _ _ _ => rfl)
    (fun _ => (injectFound_core m line c _ _).1) fun _ _ => rfl

theorem itsDo_env {a : ItsAccess} : (m.itsDo mem lines v a).1.env = m.env :=
  Vm.itsDo_rule (Q := fun m' => m'.env = m.env) rfl (fun _ => id)
    (fun h => executeCmd_env.trans h) fun h => (injectFound_core ..).1.trans h

theorem Vm.Runs.within (h : m.Runs v) (hw : Within m m') : m'.Runs v := by
  rw [Runs, hw.fixed.vcpuCount, hw.phase]
  exact h

/-! ## Every step is a run of pieces -/

/-- Some pieces lead from one machine to the other, and the vCPU that makes the access
keeps running. -/
def Pieces (cfg : GicConfig) (v : Vid) (m m' : Vm) : Prop :=
  m.Runs v → m'.Runs v ∧ ∃ tr, GuardedRun (PieceStep cfg) (fun _ _ => True) m tr m'

namespace Pieces

theorem nil (m : Vm) : Pieces cfg v m m := fun h => ⟨h, _, .nil⟩

theorem trans {m'' : Vm} (h : Pieces cfg v m m') (h' : Pieces cfg v m' m'') :
    Pieces cfg v m m'' := by
  intro hv
  obtain ⟨hv', _, hrun⟩ := h hv
  obtain ⟨hv'', _, hrun'⟩ := h' hv'
  exact ⟨hv'', _, hrun.trans hrun'⟩

theorem one {p : Piece} (hw : m'.env = m.env) (hs : m.Runs v → PieceStep cfg p m m') :
    Pieces cfg v m m' := by
  intro hv
  refine ⟨?_, _, .cons .nil trivial (hs hv)⟩
  rw [Vm.Runs, hw]
  exact hv

/-- An access to the ITS, and the flush behind it. -/
theorem itsFlushed (hits : m.env.itsEnabled = true) (a : ItsAccess) :
    Pieces cfg v m (Vm.flushAfter (Vm.flushAll v) (m.itsDo mem lines v a)) := by
  have h1 : Pieces cfg v m (m.itsDo mem lines v a).1 :=
    one itsDo_env fun hv => .its mem lines a hv hits
  rw [Vm.flushAfter]
  split
  · exact h1.trans (one rfl fun hv => .flushAll hv)
  · exact h1

theorem access : Pieces cfg v m (m.mmioAccess cfg mem lines v req).vm := by
  refine Vm.mmioAccess_rule (nil m) (fun w _ m' hin h => h.trans fun hv => ?_)
    (fun w _ m' h => h.trans fun hv => ?_) fun _ _ a hits h => h.trans (itsFlushed hits a)
  · exact ⟨hv.within .gicdAccess, _, .cons .nil trivial (.gicd hv hin)⟩
  · exact ⟨hv.within .gicrAccess, _, .cons .nil trivial (.gicr hv)⟩

theorem handler : Pieces cfg v m (m.mmioHandler cfg mem lines v req).vm := by
  have hsync : Pieces cfg v m (m.modCore fun e s => s.syncVcpu e (lines 0) (some v) true v) :=
    one rfl fun hv => .sync _ hv
  rw [Vm.mmioHandler]
  split
  · refine (hsync.trans access).trans (one rfl fun hv => .deliver (a := .flushCurrent v) rfl ?_)
    exact .flushCurrent hv.1 hv.2
  · exact hsync.trans access

end Pieces

theorem pieces_of_step (h : Step cfg a m m') :
    ∃ tr, GuardedRun (PieceStep cfg) (fun _ _ => True) m tr m' := by
  cases ha : a.isAccess with
  | false => exact ⟨_, .cons .nil trivial (.deliver ha h)⟩
  | true =>
    cases h with
    | mmio mem lines hv hph => exact (Pieces.handler ⟨hv, hph⟩).2
    | _ => cases ha

end Sima.Vgic
