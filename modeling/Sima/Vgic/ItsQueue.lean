import Sima.Lib.Circular
import Sima.Vgic.Pieces

/-!
# The command queue of the ITS

The guest writes commands into a ring in its own memory and moves `GITS_CWRITER`; the
ITS executes them and moves `GITS_CREADR` behind. `vits_process_command_queue` does so
at every access that could have made commands available, at most a thousand and
twenty-four at a time, and leaves `GITS_CREADR` at the first command it did not
execute.

That is what it does with a queue it can use. If the ITS is disabled, if the queue has
no valid base, or if one of the two positions is not one at which a command can start,
it moves `GITS_CREADR` to `GITS_CWRITER` and executes nothing: whatever the guest had
queued is skipped, and if the position was a bad one, `GITS_CREADR` is bad from then
on. So commands are executed in order and none is lost exactly as long as every access
that looks at the queue finds it usable, or finds nothing in it.
-/

namespace Sima.Vgic

open Lib Circular ItsAccess Vm

namespace ItsAccess

/-- Does the access look at the queue? -/
def runsQueue : ItsAccess → Bool
  | read offset => offset == 0x90 || offset == 0x94
  | write offset value => (offset == 0x0 && hasBits value 1) || offset == 0x88 || offset == 0x8c
  | writer64 _ => true

/-- The registers as they are when it does. -/
def written : ItsAccess → Its → Its
  | read _, its => its
  | writer64 value, its => { its with cwriter := value }
  | write offset value, its =>
    if 0x100 ≤ offset ∧ offset < 0x100 + itsBaserNum * 8 then
      { its with
        baser := Function.update its.baser ((offset - 0x100) / 8)
          ((if offset % 8 < 4 then setLowWord else setHighWord)
            (its.baser ((offset - 0x100) / 8)) value) }
    else if offset = 0x0 then
      { its with ctlr := if hasBits value 1 then itsCtlrEnable else itsCtlrQuiescent }
    else if offset = 0x80 then setCbaser (setLowWord its.cbaser value) its
    else if offset = 0x84 then setCbaser (setHighWord its.cbaser value) its
    else if offset = 0x88 then { its with cwriter := setLowWord its.cwriter value }
    else if offset = 0x8c then { its with cwriter := setHighWord its.cwriter value }
    else its

end ItsAccess

/-- The commands that are executed, of a queue in this state. -/
def queued (mem : Vm.GuestMem) (its : Its) : List Vm.Cmd :=
  consume (fun r => mem (cmdQueueBase its + r)) itsCmdSize (cmdQueueSize its)
    its.cwriter.toNat itsCmdQueueBudget its.creadr.toNat

/-- The commands that an access executes. -/
def ItsAccess.executed (mem : Vm.GuestMem) (a : ItsAccess) (its : Its) : List Vm.Cmd :=
  if a.runsQueue && queueUsable (a.written its) then queued mem (a.written its) else []

/-- One command after the other. The timer samples are those of the loop. -/
def executeAll (lines : Nat → Samples) (c : Caller) : Nat → List Vm.Cmd → Vm → Vm
  | fuel + 1, cmd :: rest, m => executeAll lines c fuel rest (m.executeCmd (lines fuel) c cmd)
  | _, _, m => m

/-- What each command is a step of, a sequence of them is a run of. -/
theorem executeAll_run {α : Type*} {step : α → Vm → Vm → Prop} {P : Vm → Prop}
    {lab : Vm.Cmd → α} {c : Caller} (hP : ∀ {m : Vm} line cmd, P m → P (m.executeCmd line c cmd))
    (hstep : ∀ {m : Vm} line cmd, P m → step (lab cmd) m (m.executeCmd line c cmd))
    (lines : Nat → Samples) (l : List Vm.Cmd) :
    ∀ (fuel : Nat) (m : Vm), P m → ∃ tr, GuardedRun step (fun _ _ => True) m tr
      (executeAll lines c fuel l m) := by
  induction l with
  | nil =>
    intro fuel m _
    cases fuel <;> exact ⟨_, .nil⟩
  | cons cmd l ih =>
    intro fuel m h
    cases fuel with
    | zero => exact ⟨_, .nil⟩
    | succ fuel =>
      obtain ⟨tr, hrest⟩ := ih fuel _ (hP (lines fuel) cmd h)
      have hone : GuardedRun step (fun _ _ => True) m [lab cmd]
          (m.executeCmd (lines fuel) c cmd) := .cons .nil trivial (hstep _ _ h)
      exact ⟨_, hone.trans hrest⟩

variable {mem : Vm.GuestMem} {lines : Nat → Samples} {c : Caller} {v : Vid} {m m' : Vm} {its : Its}
  {a : ItsAccess} {cfg : GicConfig}

/-! ## The loop -/

theorem processCommands_eq {base size w : Nat} (hd : itsCmdSize ∣ size) (fuel r : Nat)
    (hr : Slot itsCmdSize size r) (m : Vm) :
    processCommands mem lines c base size w fuel r m = (executeAll lines c fuel
          (consume (fun r => mem (base + r)) itsCmdSize size w fuel r) m, (r + itsCmdSize *
          (consume (fun r => mem (base + r)) itsCmdSize size w fuel r).length) % size,
        !(consume (fun r => mem (base + r)) itsCmdSize size w fuel r).isEmpty) := by
  induction fuel generalizing r m with
  | zero =>
    rw [processCommands, consume]
    show _ = (m, (r + itsCmdSize * 0) % size, false)
    rw [mul_zero, add_zero, Nat.mod_eq_of_lt hr.below]
  | succ fuel ih =>
    rw [processCommands, consume]
    split
    · show _ = (m, (r + itsCmdSize * 0) % size, false)
      rw [mul_zero, add_zero, Nat.mod_eq_of_lt hr.below]
    cases hm : mem (base + r) with
    | none =>
      show _ = (m, (r + itsCmdSize * 0) % size, false)
      rw [mul_zero, add_zero, Nat.mod_eq_of_lt hr.below]
    | some cmd =>
      have hnext : (if size ≤ r + itsCmdSize then 0 else r + itsCmdSize) =
          advance itsCmdSize size r := rfl
      simp only [hnext, ih _ hr.advance]
      rw [List.length_cons, Nat.mul_succ, advance_eq hd hr, Nat.mod_add_mod]
      refine Prod.ext rfl (Prod.ext ?_ rfl)
      show _ % size = _ % size
      congr 1
      omega

theorem cmdSize_dvd (its : Its) : itsCmdSize ∣ cmdQueueSize its :=
  Nat.dvd_mul_left_of_dvd (by decide) _

theorem cmdQueueSize_pos (its : Its) : 0 < cmdQueueSize its :=
  Nat.mul_pos (Nat.succ_pos _) (by decide)

theorem cmdQueueSize_lt (its : Its) : cmdQueueSize its < 2 ^ 64 := by
  have hmask : (its.cbaser &&& itsCbaserSizeMask).toNat ≤ 0xff := by
    exact Nat.and_le_right
  rw [cmdQueueSize, show pageSize = 4096 from rfl]
  omega

/-- The position of the reader is one at which a command starts. -/
def ReaderOk (its : Its) : Prop :=
  Slot itsCmdSize (cmdQueueSize its) its.creadr.toNat

theorem queueUsable_slots (h : queueUsable its = true) :
    ReaderOk its ∧ Slot itsCmdSize (cmdQueueSize its) its.cwriter.toNat := by
  simp only [queueUsable, Bool.and_eq_true, decide_eq_true_eq, beq_iff_eq] at h
  exact ⟨⟨h.1.2, h.1.1.1.2⟩, ⟨h.2, h.1.1.2⟩⟩

/-- A queue that can be used: its commands are executed, and the reader stops behind
them. -/
theorem processCommandQueue_usable (h : queueUsable m.its = true) :
    m.processCommandQueue mem lines c =
      ((executeAll lines c itsCmdQueueBudget (queued mem m.its) m).modIts fun its => { its with
          creadr := BitVec.ofNat 64 ((m.its.creadr.toNat +
            itsCmdSize * (queued mem m.its).length) % cmdQueueSize m.its) },
        !(queued mem m.its).isEmpty) := by
  rw [processCommandQueue, if_pos h,
    processCommands_eq (cmdSize_dvd _) _ _ (queueUsable_slots h).1]
  rfl

/-! ## Commands and the queue's registers -/

theorem executeCmd_cbaser {line : Samples} {cmd : Vm.Cmd} :
    (m.executeCmd line c cmd).its.cbaser = m.its.cbaser :=
  executeCmd_rule (Q := fun m' => m'.its.cbaser = m.its.cbaser) rfl (fun _ => id)
    (fun _ _ h _ => h) (fun _ => by rw [ItsKept.injectFound.its]) fun _ _ => rfl

theorem executeAll_cbaser (fuel : Nat) (l : List Vm.Cmd) :
    (executeAll lines c fuel l m).its.cbaser = m.its.cbaser := by
  induction l generalizing fuel m with
  | nil => cases fuel <;> rfl
  | cons cmd l ih =>
    cases fuel with
    | zero => rfl
    | succ fuel => rw [executeAll, ih, executeCmd_cbaser]

/-! ## One access -/

theorem itsDo_queue (h : a.runsQueue = true) :
    m.itsDo mem lines v a = (m.modIts a.written).processCommandQueue mem lines (some v) := by
  cases a with
  | read offset =>
    simp only [runsQueue, Bool.or_eq_true, beq_iff_eq] at h
    exact if_pos h
  | writer64 value => rfl
  | write offset value =>
    simp only [runsQueue, Bool.or_eq_true, Bool.and_eq_true, beq_iff_eq] at h
    obtain (⟨rfl, hv⟩ | rfl) | rfl := h
    · show m.itsWrite mem lines v 0x0 value = _
      rw [itsWrite, if_neg (by omega), if_pos rfl, if_pos hv]
      congr 2
      funext its
      rw [written, if_neg (by omega), if_pos rfl, if_pos hv]
    · rfl
    · rfl

theorem itsDo_plain (h : a.runsQueue = false) : (m.itsDo mem lines v a).1 = m.modIts a.written ∨
    a.written m.its = m.its ∧ ∃ line deviceId eventId,
      (m.itsDo mem lines v a).1 = m.injectFound line (some v) deviceId eventId := by
  cases a with
  | read offset =>
    simp only [runsQueue, Bool.or_eq_false_iff, beq_eq_false_iff_ne] at h
    have hdo : m.itsDo mem lines v (.read offset) = (m, false) := if_neg fun hc => hc.elim h.1 h.2
    rw [hdo]
    exact .inl rfl
  | writer64 value => cases h
  | write offset value =>
    simp only [runsQueue, Bool.or_eq_false_iff, Bool.and_eq_false_iff, beq_eq_false_iff_ne] at h
    obtain ⟨⟨h0, h88⟩, h8c⟩ := h
    show (m.itsWrite mem lines v offset value).1 = { m with its := _ } ∨ _ ∧ ∃ line d e,
      (m.itsWrite mem lines v offset value).1 = _
    rw [itsWrite, written]
    split
    · exact .inl rfl
    split
    · next hoff =>
      have hv : hasBits value 1 = false := h0.resolve_left fun h => h hoff
      rw [hv]
      exact .inl rfl
    split
    · exact .inl rfl
    split
    · exact .inl rfl
    · split
      · exact .inr ⟨rfl, lines 0, 0, (lowWord value).toNat, rfl⟩
      · exact .inl rfl

theorem itsDo_its (h : a.runsQueue = false) : (m.itsDo mem lines v a).1.its = a.written m.its := by
  have hplain : (m.itsDo mem lines v a).1 = m.modIts a.written ∨ _ := itsDo_plain h
  rcases hplain with hdo | ⟨hwr, line, d, e, hdo⟩
  · rw [hdo]
    rfl
  · rw [hdo, hwr]
    exact ItsKept.injectFound.its

theorem written_readerOk (h : ReaderOk its) : ReaderOk (a.written its) := by
  have hnew : ∀ r, ReaderOk (setCbaser r its) := fun r => ⟨Nat.zero_mod _, cmdQueueSize_pos _⟩
  cases a with
  | read offset => exact h
  | writer64 value => exact h
  | write offset value =>
    rw [written]
    split
    · exact h
    split
    · exact h
    split
    · exact hnew _
    split
    · exact hnew _
    · split
      · exact h
      · split <;> exact h

/-- An access executes the commands from where the reader was to where it is after, and
leaves it at the start of a command. -/
structure InOrder (mem : Vm.GuestMem) (a : ItsAccess) (m m' : Vm) : Prop where
  segment : Segment (fun r => mem (cmdQueueBase (a.written m.its) + r)) itsCmdSize
    (cmdQueueSize (a.written m.its)) (a.written m.its).creadr.toNat
    m'.its.creadr.toNat (a.executed mem m.its)
  reader : ReaderOk m'.its

inductive ItsLabel where
  /-- Anything that leaves the ITS alone. -/
  | other
  | access (a : ItsAccess)

/-- An access that looks at the queue can use it, or finds nothing in it. -/
def QueueOk : ItsLabel → Vm → Prop
  | .other, _ => True
  | .access a, m => a.runsQueue = true →
      queueUsable (a.written m.its) = true ∨ (a.written m.its).creadr = (a.written m.its).cwriter

inductive ItsStep : ItsLabel → Vm → Vm → Prop where
  | other {m m' : Vm} : ItsKept m m' → ItsStep .other m m'
  | access {m : Vm} (mem : Vm.GuestMem) (lines : Nat → Samples) (v : Vid)
      (a : ItsAccess) : ItsStep (.access a) m (m.itsDo mem lines v a).1

theorem executed_length : (a.executed mem its).length ≤ itsCmdQueueBudget := by
  rw [executed]
  split
  · exact consume_length_le _
  · exact Nat.zero_le _

theorem itsDo_unusable (hq : a.runsQueue = true) (hu : queueUsable (a.written m.its) = false) :
    m.itsDo mem lines v a =
      ((m.modIts a.written).modIts fun its => { its with creadr := its.cwriter }, false) := by
  rw [itsDo_queue hq, processCommandQueue, if_neg]
  rw [show (m.modIts a.written).its = a.written m.its from rfl, hu]
  exact Bool.false_ne_true

theorem itsDo_effect (hq : a.runsQueue = true) : (m.itsDo mem lines v a).1 =
    (executeAll lines (some v) itsCmdQueueBudget (a.executed mem m.its)
      (m.modIts a.written)).modIts fun its =>
        { its with creadr := (m.itsDo mem lines v a).1.its.creadr } := by
  cases hu : queueUsable (a.written m.its) with
  | true =>
    rw [executed, hq, hu, itsDo_queue hq, processCommandQueue_usable (m := m.modIts a.written) hu]
    rfl
  | false =>
    rw [executed, hu, Bool.and_false, itsDo_unusable hq hu]
    rfl

theorem inOrder_iff (h : ReaderOk m.its) :
    InOrder mem a m (m.itsDo mem lines v a).1 ↔ QueueOk (.access a) m := by
  have hr : ReaderOk (a.written m.its) := written_readerOk h
  constructor
  · intro hin hq
    cases hu : queueUsable (a.written m.its) with
    | true => exact .inl rfl
    | false =>
      -- nothing is executed, so the reader must not have moved
      have hends := hin.segment.ends
      rw [executed, hu, Bool.and_false, itsDo_unusable hq hu] at hends
      refine .inr (BitVec.eq_of_toNat_eq ?_)
      have hends : (a.written m.its).cwriter.toNat =
          ((a.written m.its).creadr.toNat + itsCmdSize * 0) %
            cmdQueueSize (a.written m.its) := hends
      rw [hends, mul_zero, add_zero, Nat.mod_eq_of_lt hr.below]
  · intro hok
    cases hq : a.runsQueue with
    | false =>
      have hits : (m.itsDo mem lines v a).1.its = a.written m.its := itsDo_its hq
      refine ⟨?_, by rw [hits]; exact hr⟩
      rw [hits, executed, hq]
      exact .nil hr.below
    | true =>
      cases hu : queueUsable (a.written m.its) with
      | true =>
        have hslots := queueUsable_slots hu
        have hseg : Segment (fun r => mem (cmdQueueBase (a.written m.its) + r))
            itsCmdSize (cmdQueueSize (a.written m.its)) _ _
            (queued mem (a.written m.its)) :=
          consume_segment (cmdSize_dvd _) hslots.1 itsCmdQueueBudget hslots.2
        have hcreadr : (m.itsDo mem lines v a).1.its.creadr.toNat =
            ((a.written m.its).creadr.toNat + itsCmdSize * (queued mem (a.written m.its)).length) %
                cmdQueueSize (a.written m.its) := by
          rw [itsDo_queue hq, processCommandQueue_usable (m := m.modIts a.written) hu]
          show (BitVec.ofNat 64 (_ % cmdQueueSize (a.written m.its))).toNat = _
          rw [BitVec.toNat_ofNat, Nat.mod_eq_of_lt]
          · rfl
          · exact lt_trans (Nat.mod_lt _ (cmdQueueSize_pos _)) (cmdQueueSize_lt _)
        have hcbaser : (m.itsDo mem lines v a).1.its.cbaser = (a.written m.its).cbaser := by
          rw [itsDo_effect hq]
          exact executeAll_cbaser _ _
        refine ⟨?_, ?_⟩
        · rw [hcreadr, executed, hq, hu]
          exact hseg
        · rw [ReaderOk, hcreadr, cmdQueueSize, hcbaser]
          exact hr.mod (cmdSize_dvd _) _
      | false =>
        have heq := (hok hq).resolve_left (by rw [hu]; exact Bool.false_ne_true)
        have hits : (m.itsDo mem lines v a).1.its = a.written m.its := by
          rw [itsDo_unusable hq hu]
          show { a.written m.its with creadr := (a.written m.its).cwriter } = _
          rw [← heq]
        refine ⟨?_, by rw [hits]; exact hr⟩
        rw [hits, executed, hu, Bool.and_false]
        exact .nil hr.below

/-! ## The machine

Every step of the machine is a sequence of these: an access to the frame of the ITS is
one, or two if it is 64 bits wide, and nothing else touches the ITS. -/

theorem itsStep_piece {p : Piece} (h : PieceStep cfg p m m') : ∃ l, ItsStep l m m' := by
  cases hp : p.isIts with
  | false => exact ⟨_, .other (h.itsKept hp)⟩
  | true =>
    cases h with
    | its mem lines a => exact ⟨_, .access mem lines _ a⟩
    | _ => cases hp

theorem itsRun_step {l : Label} (h : Step cfg l m m') :
    ∃ tr, GuardedRun ItsStep (fun _ _ => True) m tr m' := by
  obtain ⟨_, hrun⟩ := pieces_of_step h
  exact hrun.simulate fun hs => (itsStep_piece hs).elim fun _ h => ⟨_, .cons .nil trivial h⟩

/-! ## Runs -/

theorem readerOk_start (b : Board) : ReaderOk b.start.its := by
  have hzero : b.start.its.creadr.toNat = 0 := rfl
  exact ⟨Nat.zero_mod _, cmdQueueSize_pos _⟩

theorem readerOk_step {l : ItsLabel} (h : ReaderOk m.its) (hok : QueueOk l m)
    (hs : ItsStep l m m') : ReaderOk m'.its := by
  cases hs with
  | other hkept =>
    rw [hkept.its]
    exact h
  | access mem lines v a => exact ((inOrder_iff h).mpr hok).reader

theorem readerOk_run {b : Board} {tr : List ItsLabel}
    (h : GuardedRun ItsStep QueueOk b.start tr m) : ReaderOk m.its := by
  induction h with
  | nil => exact readerOk_start b
  | cons _ hok hs ih => exact readerOk_step ih hok hs

/-- As long as every access that looks at the queue finds it usable or empty, the reader
is at the start of a command inside the queue; and what the next access executes is a
bounded number of commands, which are those between the reader's old and its new place
exactly if that access, too, finds the queue usable or empty. -/
theorem itsQueue_inOrder {b : Board} {tr : List ItsLabel}
    (hrun : GuardedRun ItsStep QueueOk b.start tr m) :
    Slot itsCmdSize (cmdQueueSize m.its) m.its.creadr.toNat ∧
      ∀ mem lines v a, (a.executed mem m.its).length ≤ itsCmdQueueBudget ∧
        (a.runsQueue = true → (m.itsDo mem lines v a).1 =
          (executeAll lines (some v) itsCmdQueueBudget (a.executed mem m.its)
            (m.modIts a.written)).modIts fun its =>
              { its with creadr := (m.itsDo mem lines v a).1.its.creadr }) ∧
        (InOrder mem a m (m.itsDo mem lines v a).1 ↔ QueueOk (.access a) m) :=
  ⟨readerOk_run hrun, fun _ _ _ _ => ⟨executed_length, itsDo_effect,
    inOrder_iff (readerOk_run hrun)⟩⟩

/-! ## A queue that is read, and one that is skipped -/

def itsBoard : Board := { twoVcpus with itsEnabled := true }

def noMemory : Vm.GuestMem := fun _ => none

def lowLines : Nat → Samples := fun _ _ _ => false

/-- A `MAPD` at every place of the queue. -/
def fullQueue : Vm.GuestMem := fun _ => some ⟨0x8, 0x4, 1 <<< 63, 0⟩

/-- The guest has given its queue a place, and has not enabled the ITS. -/
def basedVm : Vm := (itsBoard.start.itsDo noMemory lowLines 0 (.write 0x84 0x80000000)).1

/-- It has enabled the ITS, too. -/
def queueVm : Vm := (basedVm.itsDo noMemory lowLines 0 (.write 0x0 1)).1

theorem itsQueue_inOrder_two : queueVm.its.creadr = 0 ∧
      ((writer64 64).executed fullQueue queueVm.its).length = 2 ∧
      (queueVm.itsDo fullQueue lowLines 0 (.writer64 64)).1.its.creadr = 64 ∧
      InOrder fullQueue (.writer64 64) queueVm
        (queueVm.itsDo fullQueue lowLines 0 (.writer64 64)).1 := by
  have h1 : GuardedRun ItsStep QueueOk itsBoard.start [.access (.write 0x84 0x80000000)] basedVm :=
    .cons .nil (fun h => absurd h (by decide)) (.access ..)
  have h2 : GuardedRun ItsStep QueueOk itsBoard.start
      [.access (.write 0x0 1), .access (.write 0x84 0x80000000)] queueVm :=
    .cons h1 (fun _ => .inl (by decide +kernel)) (.access ..)
  have hok : QueueOk (.access (.writer64 64)) queueVm := fun _ => .inl (by decide +kernel)
  exact ⟨by decide +kernel, by decide +kernel, by decide +kernel,
    ((itsQueue_inOrder h2).2 fullQueue lowLines 0 (.writer64 64)).2.2.mpr hok⟩

/-- Two commands queued while the ITS is disabled are passed over: the reader goes
behind them and neither is executed, then or when the ITS is enabled. A writer that is
not at the start of a command takes the reader with it. -/
theorem itsQueue_skips : (∃ tr, GuardedRun ItsStep (fun _ _ => True) itsBoard.start tr basedVm) ∧
      basedVm.its.creadr = 0 ∧
      (writer64 64).executed fullQueue basedVm.its = [] ∧
      (basedVm.itsDo fullQueue lowLines 0 (.writer64 64)).1.its.creadr = 64 ∧
      (write 0x0 1).executed fullQueue
        (basedVm.itsDo fullQueue lowLines 0 (.writer64 64)).1.its = [] ∧
      (queueVm.itsDo fullQueue lowLines 0 (.writer64 33)).1.its.creadr = 33 :=
  ⟨⟨_, .cons .nil trivial (.access noMemory lowLines 0 (.write 0x84 0x80000000))⟩,
    by decide +kernel, rfl, by decide +kernel, rfl, by decide +kernel⟩

end Sima.Vgic
