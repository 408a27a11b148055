import Sima.Smp.Notify

/-!
# Every target once

In a run without accidents the mask has an owner: the call that took it last. Each bit
that is set stands for one obligation of that call. Before its request has been written
the bit is the caller's to look after; from then on it is the target's, until the handler
there has run the function and cleared the bit. Since no other call can take the mask
while a bit is set, nothing changes hands in between, and a call that finds the mask
zero has been served everywhere.

The counts say this for every call at once: the function of a call that has taken the
mask has been run once on a target, except while the obligation is outstanding, when it
has not been run at all.
-/

namespace Sima.Smp

open Lib
open Function (forall_update_iff update update_eq_self update_of_ne update_self)
open Caller

variable {cfg : SmpConfig} {s s' : State} {h h' : History} {q q' p k c c' : Nat}
  {w mask seen : BitVec 64} {pc : Caller}

/-! ## Bits -/

theorem bitmapClear_bit : (bitmapClear p w).getLsbD k = (w.getLsbD k && decide (k ≠ p)) := by
  rw [bitmapClear, BitVec.getLsbD_and, BitVec.getLsbD_not]
  by_cases hk : k < 64
  · by_cases hp : p = k
    · subst hp
      simp [hk]
    · have hkp : k ≠ p := Ne.symm hp
      simp [hk, hkp]
  · rw [BitVec.getLsbD_of_ge w k (Nat.le_of_not_lt hk), Bool.false_and, Bool.false_and]

theorem ffs64_bit (hf : ffs64 mask < 64) : mask.getLsbD (ffs64 mask) = true := by
  rw [ffs64] at hf ⊢
  cases hfind : (List.range 64).find? mask.getLsbD with
  | none =>
    rw [hfind] at hf
    exact absurd hf (by decide)
  | some i => exact List.find?_some hfind

theorem ffs64_none (hf : ¬ ffs64 mask < cfg.maxPcpuNum) (hk : k < cfg.maxPcpuNum) :
    mask.getLsbD k = false := by
  have hle := cfg.le_64
  rw [ffs64] at hf
  cases hfind : (List.range 64).find? mask.getLsbD with
  | none =>
    have hnot := List.find?_eq_none.mp hfind k (List.mem_range.mpr (by omega))
    exact Bool.eq_false_iff.mpr hnot
  | some i =>
    rw [hfind, Option.getD_some] at hf
    -- a bit below the lowest one is not set
    obtain ⟨-, -, hbefore⟩ := List.find?_range_eq_some.mp hfind
    have hnot := hbefore k (by omega)
    exact Bool.eq_false_iff.mpr (by simpa using hnot)

/-! ## Places -/

namespace Caller

def call : Caller → Option CallId
  | .idle => none
  | .take c | .next c _ | .runSelf c _ _ | .readMask c _ _ | .writeMask c _ _ _
  | .putFunc c _ _ | .putData c _ _ | .kick c _ _ | .sync c | .poll c _ | .verdict c
  | .dropFunc c _ | .dropData c _ _ => some c

def isTake : Caller → Bool
  | .take _ => true
  | _ => false

/-- The caller has run the function itself, and has not cleared its own bit yet. -/
def selfDone (q : Pcpu) : Caller → Pcpu → Bool
  | .readMask _ _ p, k | .writeMask _ _ p _, k => k == p && p == q
  | _, _ => false

/-- What a caller knows of the CPU it is at. -/
def Place (s : State) (h : History) (q : Pcpu) : Caller → Prop
  | .runSelf _ mask p => mask.getLsbD p = false ∧ p = q
  | .readMask c mask p | .writeMask c mask p _ =>
    mask.getLsbD p = false ∧ (p = q ∨ h.skipped c p = true)
  | .putFunc _ mask p => mask.getLsbD p = false
  | .putData c mask p => mask.getLsbD p = false ∧ (s.info p).func = some c
  | _ => True

theorem todo_here (mask : BitVec 64) (p : Pcpu) : (mask.getLsbD p || p == p) = true := by
  rw [beq_self_eq_true, Bool.or_true]

theorem of_selfDone (hs : pc.selfDone q p = true) : pc.todo p = true ∧ p = q := by
  have hboth : ∀ (mask : BitVec 64) (k : Nat), (p == k && k == q) = true →
      (mask.getLsbD p || p == k) = true ∧ p = q := by
    intro mask k hs
    rw [Bool.and_eq_true, beq_iff_eq, beq_iff_eq] at hs
    rw [hs.1]
    exact ⟨todo_here mask k, hs.2⟩
  cases pc with
  | readMask c mask k | writeMask c mask k seen => exact hboth mask k hs
  | _ => cases hs

end Caller

/-- The bit of `p`, if it is set, is no caller's to look after any more. -/
def State.Ready (s : State) (p : Pcpu) : Prop :=
  ∀ q, (s.caller q).todo p = false ∧ (s.caller q).gives = false

/-- A request that is waiting to be served. -/
def Pending (s : State) (h : History) (c : CallId) (p : Pcpu) : Prop :=
  h.owner = some c ∧ s.smpCallMask.getLsbD p = true ∧ s.info p = ⟨some c, some c⟩

/-- A bit that stands for a function that has still to be run. -/
def Outstanding (s : State) (h : History) (c : CallId) (p : Pcpu) : Prop :=
  h.owner = some c ∧ s.smpCallMask.getLsbD p = true ∧ s.handler p ≠ .clear ∧
    ∀ q, (s.caller q).selfDone q p = false

def HandlerOk (h : History) (p : Pcpu) : Handler → Prop
  | .loadData f => h.owner = some f
  | .run f d => h.owner = some f ∧ d = some f
  | .clear => ∃ c, h.owner = some c ∧ 0 < h.runs c (some c) p
  | .fault => False
  | _ => True

structure CallerOk (s : State) (h : History) (q : Pcpu) (pc : Caller) : Prop where
  lt : ∀ c, pc.call = some c → c < s.nextCall
  unreturned : ∀ c, pc.call = some c → h.returned c = none
  taken : ∀ c, pc.call = some c → h.taken c = !pc.isTake
  todo : ∀ p, pc.todo p = true → s.smpCallMask.getLsbD p = true ∧ h.owner = pc.call
  gives : pc.gives = true → h.owner = pc.call ∧ s.smpCallMask ≠ 0 ∧ ∀ p, s.handler p = .idle
  /-- Data is written last. -/
  late : ∀ p c, pc.call = some c → (s.info p).data = some c → pc.todo p = false
  place : pc.Place s h q

/-- A call that has not taken the mask has left no trace. -/
structure Untouched (s : State) (h : History) (c : CallId) : Prop where
  returned : h.returned c = none
  owner : h.owner ≠ some c
  info : ∀ p, (s.info p).func ≠ some c ∧ (s.info p).data ≠ some c
  runs : ∀ d p, h.runs c d p = 0

theorem Untouched.frame (hu : Untouched s h c) (hinfo : s'.info = s.info) : Untouched s' h c :=
  ⟨hu.returned, hu.owner, hinfo ▸ hu.info, hu.runs⟩

/-- Who holds what. -/
structure SmpBase (cfg : SmpConfig) (s : State) (h : History) : Prop where
  callers : ∀ q, CallerOk s h q (s.caller q)
  single : ∀ q q' c, (s.caller q).call = some c → (s.caller q').call = some c → q = q'
  later : ∀ c, s.nextCall ≤ c → h.taken c = false
  untouched : ∀ c, h.taken c = false → Untouched s h c
  returned : ∀ c, h.returned c ≠ none → h.owner = some c → s.smpCallMask = 0
  posted : ∀ p < cfg.maxPcpuNum, s.smpCallMask.getLsbD p = true → s.Ready p →
    ∃ c, h.owner = some c ∧ s.info p = ⟨some c, some c⟩
  handlers : ∀ p, s.handler p ≠ .idle →
    p < cfg.maxPcpuNum ∧ s.smpCallMask.getLsbD p = true ∧ s.Ready p ∧ HandlerOk h p (s.handler p)
  right : ∀ f d p, h.runs f d p ≠ 0 → d = some f

/-- And what has been run. -/
structure SmpInv (cfg : SmpConfig) (s : State) (h : History) : Prop extends
    SmpBase cfg s h where
  runs : ∀ c, h.taken c = true → h.returned c ≠ some false → ∀ p < cfg.maxPcpuNum,
    (cfg.mask c).getLsbD p = true → h.skipped c p = false →
      (Outstanding s h c p → h.runs c (some c) p = 0) ∧
        (¬ Outstanding s h c p → h.runs c (some c) p = 1)

theorem ne_zero_of_bit (hb : w.getLsbD p = true) : w ≠ 0 := by
  rintro rfl
  exact Bool.false_ne_true (BitVec.getLsbD_zero.symm.trans hb)

theorem setCaller_self : (s.setCaller q pc).caller q = pc := update_self ..

theorem setCaller_ne (hq : q' ≠ q) : (s.setCaller q pc).caller q' = s.caller q' :=
  update_of_ne hq ..

theorem CallerOk.idle : CallerOk s h q .idle :=
  ⟨fun _ hc => (by cases hc), fun _ hc => (by cases hc), fun _ hc => (by cases hc),
    fun _ hp => (by cases hp), fun hg => (by cases hg), fun _ _ hc => (by cases hc), trivial⟩

variable (ho : CallerOk s h q pc)

include ho

/-- What a caller relies on of the rest of the machine. -/
theorem CallerOk.congr (hn : s.nextCall ≤ s'.nextCall) (hm : s'.smpCallMask = s.smpCallMask)
    (hinfo : s'.info = s.info) (hh : s'.handler = s.handler) : CallerOk s' h q pc := by
  refine ⟨fun c hc => Nat.lt_of_lt_of_le (ho.lt c hc) hn, ho.unreturned, ho.taken,
    fun p hp => hm ▸ ho.todo p hp, fun hg => hm ▸ hh ▸ ho.gives hg,
    fun p c hc hd => ho.late p c hc (hinfo ▸ hd), ?_⟩
  have hplace := ho.place
  cases pc with
  | putData c mask p => exact ⟨hplace.1, hinfo ▸ hplace.2⟩
  | _ => exact hplace

/-- A caller that has nothing to see to and does not give up relies on nothing. -/
theorem CallerOk.bystander (htodo : ∀ k, pc.todo k = false) (hgives : pc.gives = false)
    (hn : s.nextCall ≤ s'.nextCall) : CallerOk s' h q pc := by
  refine ⟨fun c hc => Nat.lt_of_lt_of_le (ho.lt c hc) hn, ho.unreturned, ho.taken,
    fun p hp => ?_, fun hg => ?_, fun p _ _ _ => htodo p, ?_⟩
  · rw [htodo p] at hp
    cases hp
  · rw [hgives] at hg
    cases hg
  have hplace := ho.place
  cases pc with
  | putData c mask p =>
    have hp : (mask.getLsbD p || p == p) = false := htodo p
    rw [beq_self_eq_true, Bool.or_true] at hp
    cases hp
  | _ => exact hplace

theorem CallerOk.move {pc' : Caller} (hcall : pc'.call = pc.call) (htake : pc'.isTake = pc.isTake)
    (htodo : ∀ k, pc'.todo k = true → pc.todo k = true) (hgives : pc'.gives = pc.gives)
    (hplace : pc'.Place s h q) : CallerOk s h q pc' := by
  refine ⟨fun c hc => ho.lt c (hcall ▸ hc), fun c hc => ho.unreturned c (hcall ▸ hc),
    fun c hc => htake ▸ ho.taken c (hcall ▸ hc), fun k hk => hcall ▸ ho.todo k (htodo k hk),
    fun hg => hcall ▸ ho.gives (hgives ▸ hg), fun k c hc hd => ?_, hplace⟩
  cases hk : pc'.todo k with
  | false => rfl
  | true =>
    rw [← htodo k hk]
    exact ho.late k c (hcall ▸ hc) hd

omit ho

theorem callers_of (hc : s'.caller = update s.caller q pc)
    (hq : CallerOk s' h q pc) (hother : ∀ q', q' ≠ q → CallerOk s' h q' (s.caller q')) :
    ∀ q', CallerOk s' h q' (s'.caller q') := by
  rw [hc]
  exact (forall_update_iff s.caller (CallerOk s' h)).mpr ⟨hq, hother⟩

/-- What one caller leaves as it was at its own place is as it was everywhere. -/
theorem at_update {α : Type} (f : Pcpu → Caller → α)
    (hc : s'.caller = update s.caller q pc) (hf : f q pc = f q (s.caller q))
    (q' : Pcpu) : f q' (s'.caller q') = f q' (s.caller q') := by
  rw [hc]
  by_cases hqq : q' = q
  · rw [hqq, update_self, hf]
  · rw [update_of_ne hqq]

theorem ready_update (hc : s'.caller = update s.caller q pc)
    (htodo : pc.todo p = (s.caller q).todo p) (hgives : pc.gives = (s.caller q).gives) :
    s'.Ready p ↔ s.Ready p := by
  refine forall_congr' fun q' => ?_
  rw [at_update (fun _ pc => pc.todo p) hc htodo, at_update (fun _ pc => pc.gives) hc hgives]

theorem outstanding_congr (hb : s'.smpCallMask.getLsbD p = s.smpCallMask.getLsbD p)
    (hh : s'.handler p ≠ .clear ↔ s.handler p ≠ .clear)
    (hs : ∀ q, (s'.caller q).selfDone q p = (s.caller q).selfDone q p) :
    Outstanding s' h c p ↔ Outstanding s h c p := by
  rw [Outstanding, hb, hh, Outstanding]
  simp [hs]

theorem outstanding_setCaller (hself : pc.selfDone q p = (s.caller q).selfDone q p) :
    Outstanding (s.setCaller q pc) h c p ↔ Outstanding s h c p :=
  outstanding_congr rfl Iff.rfl (at_update (fun q pc => pc.selfDone q p) rfl hself)

theorem SmpInv.start (active : Pcpu → Bool) : SmpInv cfg (.start active) .start := by
  refine ⟨⟨fun q => .idle, fun q q' c hc => (by cases hc), fun c _ => rfl,
    fun c _ => ⟨rfl, fun ho => (by cases ho), fun p => ⟨fun hf => (by cases hf),
      fun hd => (by cases hd)⟩, fun d p => rfl⟩, fun c _ _ => rfl,
    fun p _ hp => absurd rfl (ne_zero_of_bit hp), fun p hp => absurd rfl hp,
    fun f d p hr => absurd rfl hr⟩, fun c hc => (by cases hc)⟩

namespace SmpBase

variable (hi : SmpBase cfg s h)

include hi

theorem not_gives (hm : s.smpCallMask = 0) (q : Pcpu) : (s.caller q).gives = false := by
  refine Bool.eq_false_iff.mpr fun hg => ?_
  exact ((hi.callers q).gives hg).2.1 hm

theorem not_todo (hp : s.smpCallMask.getLsbD p = false) (q : Pcpu) :
    (s.caller q).todo p = false := by
  refine Bool.eq_false_iff.mpr fun ht => ?_
  rw [((hi.callers q).todo p ht).1] at hp
  cases hp

theorem idle_of_zero (hm : s.smpCallMask = 0) (p : Pcpu) : s.handler p = .idle := by
  by_contra hne
  exact ne_zero_of_bit (hi.handlers p hne).2.1 hm

theorem handlerAt {pc : Handler} (hp : s.handler p = pc) (hne : pc ≠ .idle) :
    p < cfg.maxPcpuNum ∧ s.smpCallMask.getLsbD p = true ∧ s.Ready p ∧ HandlerOk h p pc := by
  subst hp
  exact hi.handlers p hne

theorem not_selfDone (hp : s.smpCallMask.getLsbD p = false)
    (q : Pcpu) : (s.caller q).selfDone q p = false := by
  refine Bool.eq_false_iff.mpr fun hd => ?_
  have := hi.not_todo hp q
  rw [(of_selfDone hd).1] at this
  cases this

theorem alone (hq : s.caller q = pc) (hc : pc.call = some c) (hqq : q' ≠ q) :
    (s.caller q').call ≠ some c := fun hc' => hqq (hi.single q' q c hc' (hq ▸ hc))

theorem single_of (hcall : ∀ c, pc.call = some c → ∀ q', q' ≠ q → (s.caller q').call ≠ some c) :
    ∀ q₁ q₂ c, ((s.setCaller q pc).caller q₁).call = some c →
      ((s.setCaller q pc).caller q₂).call = some c → q₁ = q₂ := by
  intro q₁ q₂ c h₁ h₂
  by_cases hq₁ : q₁ = q
  · subst hq₁
    rw [setCaller_self] at h₁
    by_contra hne
    rw [setCaller_ne (Ne.symm hne)] at h₂
    exact hcall c h₁ q₂ (Ne.symm hne) h₂
  · rw [setCaller_ne hq₁] at h₁
    by_cases hq₂ : q₂ = q
    · subst hq₂
      rw [setCaller_self] at h₂
      exact absurd h₁ (hcall c h₂ q₁ hq₁)
    · rw [setCaller_ne hq₂] at h₂
      exact hi.single q₁ q₂ c h₁ h₂

/-! ## Steps of a caller

What matters of the place of a caller is its call, what it has still to see to, whether
it gives up and whether it has run its own part. -/

theorem move {n : Nat} (hn : s.nextCall ≤ n) (hok : CallerOk { s with nextCall := n } h q pc)
    (hcall : ∀ c, pc.call = some c → ∀ q', q' ≠ q → (s.caller q').call ≠ some c)
    (htodo : ∀ p < cfg.maxPcpuNum, pc.todo p = (s.caller q).todo p)
    (hgives : pc.gives = (s.caller q).gives) :
    SmpBase cfg { s.setCaller q pc with nextCall := n } h := by
  have hready : ∀ p < cfg.maxPcpuNum, (s.setCaller q pc).Ready p ↔ s.Ready p :=
    fun p hp => ready_update rfl (htodo p hp) hgives
  refine ⟨callers_of rfl (hok.congr (Nat.le_refl _) rfl rfl rfl)
    fun q' _ => (hi.callers q').congr hn rfl rfl rfl, hi.single_of hcall,
    fun c hc => hi.later c (Nat.le_trans hn hc), fun c hc => (hi.untouched c hc).frame rfl,
    hi.returned, fun p hp hbit hr => hi.posted p hp hbit ((hready p hp).mp hr), fun p hp => ?_,
    hi.right⟩
  obtain ⟨hlt, hbit, hr, hok⟩ := hi.handlers p hp
  exact ⟨hlt, hbit, (hready p hlt).mpr hr, hok⟩

variable (hq : s.caller q = pc)

include hq

theorem callerOk : CallerOk s h q pc := hq ▸ hi.callers q

theorem setCaller {pc' : Caller} (hcall : pc'.call = pc.call) (htake : pc'.isTake = pc.isTake)
    (htodo : ∀ p, pc'.todo p = true → pc.todo p = true)
    (hsame : ∀ p < cfg.maxPcpuNum, pc'.todo p = pc.todo p) (hgives : pc'.gives = pc.gives)
    (hplace : pc'.Place s h q) : SmpBase cfg (s.setCaller q pc') h := by
  subst hq
  exact hi.move (Nat.le_refl _) ((hi.callers q).move hcall htake htodo hgives hplace)
    (fun _ hc _ hq => hi.alone rfl (hcall ▸ hc) hq) hsame hgives

/-- A caller that has something to see to owns the mask, and no handler is at work there, -/
theorem held (ht : pc.todo p = true) :
    s.smpCallMask.getLsbD p = true ∧ h.owner = pc.call ∧ s.handler p = .idle := by
  subst hq
  obtain ⟨hbit, hown⟩ := (hi.callers q).todo p ht
  refine ⟨hbit, hown, ?_⟩
  by_contra hne
  have hr := ((hi.handlers p hne).2.2.1 q).1
  rw [ht] at hr
  cases hr

/-- and then no other has, or gives up. -/
theorem others_of_owner (hc : pc.call = some c) (hown : h.owner = some c) (hqq : q' ≠ q) :
    (∀ k, (s.caller q').todo k = false) ∧ (s.caller q').gives = false := by
  have hne := hi.alone hq hc hqq
  refine ⟨fun k => Bool.eq_false_iff.mpr fun hk => ?_, Bool.eq_false_iff.mpr fun hg => ?_⟩
  · exact hne (((hi.callers q').todo k hk).2.symm.trans hown)
  · exact hne (((hi.callers q').gives hg).1.symm.trans hown)

theorem others_ok (hc : pc.call = some c) (hown : h.owner = some c) (hqq : q' ≠ q)
    (hn : s.nextCall ≤ s'.nextCall) : CallerOk s' h q' (s.caller q') := by
  obtain ⟨htd, hgv⟩ := hi.others_of_owner hq hc hown hqq
  exact (hi.callers q').bystander htd hgv hn

omit hi hq

end SmpBase

namespace SmpInv

variable (hi : SmpInv cfg s h) {d : Option CallId} {f : CallId} {i : SmpCallInfo}

include hi

theorem of_base (hb : SmpBase cfg s' h)
    (hout : ∀ c, ∀ p < cfg.maxPcpuNum, Outstanding s' h c p ↔ Outstanding s h c p) :
    SmpInv cfg s' h := by
  refine ⟨hb, fun c hc hret p hp hm hs => ?_⟩
  rw [hout c p hp]
  exact hi.runs c hc hret p hp hm hs

theorem setCaller {pc' : Caller} (hq : s.caller q = pc) (hcall : pc'.call = pc.call)
    (htake : pc'.isTake = pc.isTake) (htodo : ∀ p, pc'.todo p = true → pc.todo p = true)
    (hsame : ∀ p < cfg.maxPcpuNum, pc'.todo p = pc.todo p) (hgives : pc'.gives = pc.gives)
    (hself : ∀ p, pc'.selfDone q p = pc.selfDone q p) (hplace : pc'.Place s h q) :
    SmpInv cfg (s.setCaller q pc') h :=
  hi.of_base (hi.toSmpBase.setCaller hq hcall htake htodo hsame hgives hplace)
    fun _ p _ => outstanding_setCaller (by rw [hq, hself])

theorem invoke (hq : s.caller q = .idle) :
    SmpInv cfg { s.setCaller q (.take s.nextCall) with nextCall := s.nextCall + 1 } h := by
  have hfresh := hi.later _ (Nat.le_refl s.nextCall)
  have hout : ∀ c p, Outstanding (s.setCaller q (.take s.nextCall)) h c p ↔
      Outstanding s h c p := fun c p => outstanding_setCaller (by rw [hq]; rfl)
  refine hi.of_base (hi.move (Nat.le_succ _) ?_ ?_ (fun p _ => by rw [hq]; rfl)
    (by rw [hq]; rfl)) fun c p _ => hout c p
  · refine ⟨fun c hc => ?_, fun c hc => ?_, fun c hc => ?_, fun _ hp => (by cases hp),
      fun hg => (by cases hg), fun _ _ _ _ => rfl, trivial⟩
    · cases hc
      exact Nat.lt_succ_self _
    · cases hc
      exact (hi.untouched _ hfresh).returned
    · cases hc
      exact hfresh
  · intro c hc q' _ hc'
    cases hc
    exact Nat.lt_irrefl _ ((hi.callers q').lt _ hc')

/-- The mask is taken: every bit is now for this call to see to. -/
theorem take (hq : s.caller q = .take c) (hm : s.smpCallMask = 0) :
    SmpInv cfg ((s.setMask (cfg.mask c)).setCaller q (.next c (cfg.mask c))) (h.take c) := by
  have hme := hi.callerOk hq
  have hu := hi.untouched c (hme.taken c rfl)
  have hbit : ∀ p, s.smpCallMask.getLsbD p = false := fun p => hm ▸ BitVec.getLsbD_zero
  have htaken : ∀ {c'}, c' ≠ c → (h.take c).taken c' = h.taken c' := fun hne => update_of_ne hne ..
  refine ⟨⟨callers_of (s := s) rfl ?_ fun q' hqq => ?_,
    hi.single_of fun c' hc' q' hqq => (Option.some.inj hc') ▸ hi.alone hq rfl hqq,
    fun c' hc' => ?_, fun c' hc' => ?_, fun c' hret ho => ?_, fun p hp hb hr => ?_,
    fun p hp => absurd (hi.idle_of_zero hm p) hp, hi.right⟩,
    fun c' hc' hret p hp hmask hs => ?_⟩
  · refine ⟨hme.lt, hme.unreturned, fun c' hc' => ?_, fun p hp => ⟨hp, rfl⟩,
      fun hg => (by cases hg), fun p c' hc' hd => ?_, trivial⟩
    · cases hc'
      exact update_self ..
    · cases hc'
      exact absurd hd (hu.info p).2
  · have ho := hi.callers q'
    refine ⟨ho.lt, ho.unreturned, fun c' hc' => ?_, fun p hp => ?_, fun hg => ?_, ho.late,
      ho.place⟩
    · rw [htaken fun hcc => hi.alone hq rfl hqq (hcc ▸ hc')]
      exact ho.taken c' hc'
    · rw [hi.not_todo (hbit p)] at hp
      cases hp
    · rw [hi.not_gives hm] at hg
      cases hg
  · have hlt := hme.lt c rfl
    rw [htaken (by rintro rfl; exact absurd hc' (Nat.not_le.mpr hlt))]
    exact hi.later c' hc'
  · by_cases hcc : c' = c
    · rw [hcc] at hc'
      have hc' : update h.taken c true c = false := hc'
      rw [update_self] at hc'
      cases hc'
    · rw [htaken hcc] at hc'
      have hu' := hi.untouched c' hc'
      exact ⟨hu'.returned, fun ho => hcc (Option.some.inj ho).symm, hu'.info, hu'.runs⟩
  · cases ho
    exact absurd hu.returned hret
  · have := (hr q).1
    rw [setCaller_self] at this
    have hb : (cfg.mask c).getLsbD p = true := hb
    have this : (cfg.mask c).getLsbD p = false := this
    rw [hb] at this
    cases this
  · by_cases hcc : c' = c
    · subst hcc
      refine ⟨fun _ => hu.runs _ _, fun hnot => absurd ⟨rfl, hmask, ?_, fun q' => ?_⟩ hnot⟩
      · show s.handler p ≠ .clear
        rw [hi.idle_of_zero hm]
        simp
      by_cases hqq : q' = q
      · rw [hqq, setCaller_self]
        rfl
      · rw [setCaller_ne hqq]
        exact hi.not_selfDone (hbit p) q'
    · rw [htaken hcc] at hc'
      refine ⟨fun hout => absurd (Option.some.inj hout.1).symm hcc, fun _ => ?_⟩
      exact (hi.runs c' hc' hret p hp hmask hs).2 fun hout => ne_zero_of_bit hout.2.1 hm

theorem skip : SmpInv cfg s (h.skip c p) := by
  have hmono : ∀ c' p', h.skipped c' p' = true → (h.skip c p).skipped c' p' = true := by
    intro c' p' hs
    show update h.skipped c (update (h.skipped c) p true) c' p' = true
    by_cases hc : c' = c
    · subst hc
      rw [update_self]
      by_cases hp : p' = p
      · rw [hp, update_self]
      · rwa [update_of_ne hp]
    · rwa [update_of_ne hc]
  refine ⟨⟨fun q => ?_, hi.single, hi.later, fun c hc => ?_, hi.returned, hi.posted,
    hi.handlers, hi.right⟩, fun c' hc hret p' hp hm hs => ?_⟩
  · have ho := hi.callers q
    refine ⟨ho.lt, ho.unreturned, ho.taken, ho.todo, ho.gives, ho.late, ?_⟩
    have hplace := ho.place
    revert hplace
    cases s.caller q with
    | readMask c mask p | writeMask c mask p seen =>
      exact fun hpl => ⟨hpl.1, hpl.2.imp_right (hmono c p)⟩
    | _ => exact id
  · have hu := hi.untouched c hc
    exact ⟨hu.returned, hu.owner, hu.info, hu.runs⟩
  · refine hi.runs c' hc hret p' hp hm ?_
    refine Bool.eq_false_iff.mpr fun hold => ?_
    rw [hmono c' p' hold] at hs
    cases hs

omit hi in
/-- `mask` without `p`, with `p` on the side, is `mask`. -/
theorem todo_clear (hp : mask.getLsbD p = true) (k : Nat) :
    ((bitmapClear p mask).getLsbD k || k == p) = mask.getLsbD k := by
  rw [bitmapClear_bit]
  by_cases hk : k = p
  · rw [hk, hp, beq_self_eq_true, Bool.or_true]
  · rw [decide_eq_true hk, Bool.and_true, beq_false_of_ne hk, Bool.or_false]

/-! ## Running the function -/

omit hi in
theorem ran_le (f' : CallId) (d' : Option CallId) (p' : Pcpu) :
    h.runs f' d' p' ≤ (h.ran f d p).runs f' d' p' := by
  show _ ≤ if _ then _ else _
  split
  · next he =>
    rw [he.1, he.2.1, he.2.2]
    exact Nat.le_succ _
  · exact Nat.le_refl _

omit hi in
theorem handlerOk_ran {pc : Handler} (ho : HandlerOk h p pc) : HandlerOk (h.ran f d k) p pc := by
  cases pc with
  | clear =>
    obtain ⟨c, hown, hpos⟩ := ho
    exact ⟨c, hown, Nat.lt_of_lt_of_le hpos (ran_le ..)⟩
  | _ => exact ho

omit hi in
theorem callerOk_ran (ho : CallerOk s h q pc) : CallerOk s (h.ran f d k) q pc :=
  ⟨ho.lt, ho.unreturned, ho.taken, ho.todo, ho.gives, ho.late, ho.place⟩

omit hi in
theorem base_ran (hi : SmpBase cfg s h) (hown : h.owner = some c) :
    SmpBase cfg s (h.ran c (some c) p) := by
  refine ⟨fun q => callerOk_ran (hi.callers q), hi.single, hi.later, fun c' hc' => ?_,
    hi.returned, hi.posted, fun p' hp' => ?_, fun f d p' hr => ?_⟩
  · have hu := hi.untouched c' hc'
    refine ⟨hu.returned, hu.owner, hu.info, fun d p' => ?_⟩
    have hne : c' ≠ c := fun he => hu.owner (he ▸ hown)
    show (if _ then _ else _) = 0
    rw [if_neg fun he => hne he.1]
    exact hu.runs d p'
  · obtain ⟨hlt, hbit, hr, hok⟩ := hi.handlers p' hp'
    exact ⟨hlt, hbit, hr, handlerOk_ran hok⟩
  · by_cases he : f = c ∧ d = some c ∧ p' = p
    · rw [he.1, he.2.1]
    · have hr : (if _ then _ else _) ≠ 0 := hr
      rw [if_neg he] at hr
      exact hi.right f d p' hr

/-- A function that was outstanding has been run, where it should be. -/
theorem ran (hb : SmpBase cfg s' (h.ran c (some c) p))
    (hout : Outstanding s h c p) (hdone : ¬ Outstanding s' h c p)
    (hother : ∀ c' p', p' ≠ p → (Outstanding s' h c' p' ↔ Outstanding s h c' p')) :
    SmpInv cfg s' (h.ran c (some c) p) := by
  -- of the other calls none is the owner
  have hother : ∀ c' p', ¬ (c' = c ∧ p' = p) →
      (Outstanding s' h c' p' ↔ Outstanding s h c' p') := by
    intro c' p' hne
    by_cases hp : p' = p
    · have hno : h.owner ≠ some c' := fun ho => hne ⟨Option.some.inj (ho.symm.trans hout.1), hp⟩
      exact ⟨fun ho => absurd ho.1 hno, fun ho => absurd ho.1 hno⟩
    · exact hother c' p' hp
  refine ⟨hb, fun c' hc' hret p' hp' hm hs => ?_⟩
  by_cases he : c' = c ∧ p' = p
  · obtain ⟨rfl, rfl⟩ := he
    refine ⟨fun ho => absurd ho hdone, fun _ => ?_⟩
    show (if _ then _ else _) = 1
    rw [if_pos ⟨rfl, rfl, rfl⟩, (hi.runs c' hc' hret p' hp' hm hs).1 hout]
  have hruns := hi.runs c' hc' hret p' hp' hm hs
  rw [← hother c' p' he] at hruns
  have hsame : (h.ran c (some c) p).runs c' (some c') p' = h.runs c' (some c') p' :=
    if_neg fun hc => he ⟨hc.1, hc.2.2⟩
  rw [hsame]
  exact hruns

theorem runSelf (hq : s.caller q = .runSelf c mask p) :
    SmpInv cfg (s.setCaller q (.readMask c mask p)) (h.ran c (some c) q) := by
  obtain ⟨hclear, rfl⟩ : mask.getLsbD p = false ∧ p = q := (hi.callerOk hq).place
  obtain ⟨hbit, howner, hidle⟩ := hi.held hq (todo_here mask p)
  have hb : SmpBase cfg (s.setCaller p (.readMask c mask p)) h :=
    hi.toSmpBase.setCaller hq rfl rfl (fun _ => id) (fun _ _ => rfl) rfl ⟨hclear, .inl rfl⟩
  refine hi.ran (base_ran hb howner) ⟨howner, hbit, ?_, fun q' => ?_⟩
    (fun hout => ?_) fun c' p' hp => ?_
  · rw [hidle]
    simp
  · refine Bool.eq_false_iff.mpr fun hs => ?_
    -- only the caller on `p` runs its part on `p`
    rw [← (of_selfDone hs).2, hq] at hs
    cases hs
  · have hs := hout.2.2.2 p
    rw [setCaller_self] at hs
    have hs : (p == p && p == p) = false := hs
    rw [beq_self_eq_true] at hs
    cases hs
  · refine outstanding_setCaller ?_
    rw [hq]
    show (p' == p && p == p) = false
    rw [beq_false_of_ne hp, Bool.false_and]

/-! ## Clearing a bit -/

omit hi in
theorem clear_true (hk : (bitmapClear p w).getLsbD k = true) : w.getLsbD k = true ∧ k ≠ p := by
  rw [bitmapClear_bit, Bool.and_eq_true, decide_eq_true_iff] at hk
  exact hk

omit hi in
theorem clear_of_ne (hk : k ≠ p) : (bitmapClear p w).getLsbD k = w.getLsbD k := by
  rw [bitmapClear_bit, decide_eq_true hk, Bool.and_true]

theorem cleared (hb : SmpBase cfg s' h) (hm : s'.smpCallMask = bitmapClear p s.smpCallMask)
    (hh : ∀ k, k ≠ p → s'.handler k = s.handler k)
    (hself : ∀ k, k ≠ p → ∀ q, (s'.caller q).selfDone q k = (s.caller q).selfDone q k)
    (hdone : ∀ c, Outstanding s h c p → h.skipped c p = true) : SmpInv cfg s' h := by
  refine ⟨hb, fun c hc hret k hk hmask hs => ?_⟩
  have hold := hi.runs c hc hret k hk hmask hs
  by_cases hkp : k = p
  · subst hkp
    refine ⟨fun ho => ?_, fun _ => hold.2 fun ho => ?_⟩
    · have hbit := ho.2.1
      rw [hm] at hbit
      exact absurd rfl (clear_true hbit).2
    · rw [hdone c ho] at hs
      cases hs
  · rw [outstanding_congr (by rw [hm, clear_of_ne hkp]) (by rw [hh k hkp]) (hself k hkp)]
    exact hold

theorem writeMask (hq : s.caller q = .writeMask c mask p s.smpCallMask) :
    SmpInv cfg ((s.setMask (bitmapClear p s.smpCallMask)).setCaller q (.next c mask)) h := by
  have hme := hi.callerOk hq
  obtain ⟨hclear, hskip⟩ : mask.getLsbD p = false ∧ (p = q ∨ h.skipped c p = true) := hme.place
  obtain ⟨hbit, howner, hidle⟩ := hi.held hq (todo_here mask p)
  have hready : ∀ k, k ≠ p →
      (((s.setMask (bitmapClear p s.smpCallMask)).setCaller q (.next c mask)).Ready k ↔
        s.Ready k) := by
    intro k hk
    refine ready_update rfl ?_ (by rw [hq]; rfl)
    rw [hq]
    show mask.getLsbD k = (mask.getLsbD k || k == p)
    rw [beq_false_of_ne hk, Bool.or_false]
  refine hi.cleared ⟨callers_of rfl ?_ fun q' hqq => ?_,
    hi.single_of fun c' hc' q' hqq => ?_, hi.later,
    fun c' hc' => (hi.untouched c' hc').frame rfl,
    fun c' hret ho => absurd (hi.returned c' hret ho) (ne_zero_of_bit hbit),
    fun k hk hb hr => ?_, fun k hk => ?_, hi.right⟩ rfl (fun _ _ => rfl)
    (fun k hk => at_update (fun q pc => pc.selfDone q k) rfl ?_) fun c' ho => ?_
  · refine ⟨hme.lt, hme.unreturned, hme.taken, fun k hk => ?_, fun hg => (by cases hg),
      fun k c' hc' hd => ?_, trivial⟩
    · have hk : mask.getLsbD k = true := hk
      have hne : k ≠ p := fun he => by rw [he, hclear] at hk; cases hk
      have hold := hme.todo k (by
        show (mask.getLsbD k || k == p) = true
        rw [hk, Bool.true_or])
      exact ⟨(clear_of_ne hne).trans hold.1, hold.2⟩
    · have hold := hme.late k c' hc' hd
      exact (Bool.or_eq_false_iff.mp hold).1
  · exact hi.others_ok hq rfl howner hqq (Nat.le_refl _)
  · cases hc'
    exact hi.alone hq rfl hqq
  · obtain ⟨hb, hne⟩ := clear_true hb
    exact hi.posted k hk hb ((hready k hne).mp hr)
  · obtain ⟨hlt, hb, hr, hok⟩ := hi.handlers k hk
    have hne : k ≠ p := by
      rintro rfl
      exact hk hidle
    exact ⟨hlt, (clear_of_ne hne).trans hb, (hready k hne).mpr hr, hok⟩
  · rw [hq]
    show false = (k == p && p == q)
    rw [beq_false_of_ne hk, Bool.false_and]
  · rw [Option.some.inj (ho.1.symm.trans howner)]
    refine hskip.resolve_left fun hpq => ?_
    -- the caller has run its own part
    have hs := ho.2.2.2 q
    rw [hq] at hs
    have hs : (p == p && p == q) = false := hs
    rw [hpq, beq_self_eq_true] at hs
    cases hs

/-! ## Writing a slot -/

variable {pc₀ : Caller} (hq : s.caller q = pc₀) (hcall : pc₀.call = some c) {a : Label}

include hq hcall

/-- The owner writes a slot whose CPU has no handler at work. -/
theorem write (hown : h.owner = some c) (hidle : s.handler p = .idle)
    (hok : CallerOk ((s.setInfo p i).setCaller q pc) h q pc) (hsame : pc.call = some c)
    (htodo : ∀ k, k ≠ p → pc.todo k = pc₀.todo k) (hgives : pc.gives = pc₀.gives)
    (hself : ∀ k, pc.selfDone q k = pc₀.selfDone q k)
    (hinfo : ∀ c', i.func = some c' ∨ i.data = some c' → c' = c ∨
      (s.info p).func = some c' ∨ (s.info p).data = some c')
    (hpost : s.smpCallMask.getLsbD p = true → pc.todo p = false → pc.gives = false →
      i = ⟨some c, some c⟩) : SmpInv cfg ((s.setInfo p i).setCaller q pc) h := by
  subst hq
  have hready : ∀ k, k ≠ p → (((s.setInfo p i).setCaller q pc).Ready k ↔ s.Ready k) :=
    fun k hk => ready_update rfl (htodo k hk) hgives
  have hother : ∀ k, k ≠ p → ((s.setInfo p i).setCaller q pc).info k = s.info k :=
    fun k hk => update_of_ne hk ..
  have hself' : ((s.setInfo p i).setCaller q pc).info p = i := update_self ..
  refine hi.of_base ⟨callers_of rfl hok fun q' hqq => ?_,
    hi.single_of fun c' hc' q' hqq => ?_, hi.later, fun c' hc' => ?_, hi.returned,
    fun k hk hb hr => ?_, fun k hk => ?_, hi.right⟩ fun c' k _ => ?_
  · exact hi.others_ok rfl hcall hown hqq (Nat.le_refl _)
  · rw [hsame] at hc'
    cases hc'
    exact hi.alone rfl hcall hqq
  · have hu := hi.untouched c' hc'
    refine ⟨hu.returned, hu.owner, fun k => ?_, hu.runs⟩
    by_cases hkp : k = p
    · rw [hkp, hself']
      have hno : ¬ (i.func = some c' ∨ i.data = some c') := by
        intro hc
        rcases hinfo c' hc with rfl | hf | hd
        · exact hu.owner hown
        · exact (hu.info p).1 hf
        · exact (hu.info p).2 hd
      exact not_or.mp hno
    · rw [hother k hkp]
      exact hu.info k
  · by_cases hkp : k = p
    · subst hkp
      have hq := hr q
      rw [setCaller_self] at hq
      exact ⟨c, hown, hself'.trans (hpost hb hq.1 hq.2)⟩
    · rw [hother k hkp]
      exact hi.posted k hk hb ((hready k hkp).mp hr)
  · obtain ⟨hlt, hb, hr, hok⟩ := hi.handlers k hk
    have hkp : k ≠ p := by
      rintro rfl
      exact hk hidle
    exact ⟨hlt, hb, (hready k hkp).mpr hr, hok⟩
  · exact outstanding_setCaller (hself k)

omit hq hcall

theorem putFunc (hq : s.caller q = .putFunc c mask p) :
    SmpInv cfg ((s.setInfo p { s.info p with func := some c }).setCaller q
      (.putData c mask p)) h := by
  have hme := hi.callerOk hq
  have hhere : (putData c mask p).todo p = true := todo_here mask p
  obtain ⟨-, hown, hidle⟩ := hi.held hq hhere
  refine hi.write hq rfl hown hidle ?_ rfl (fun _ _ => rfl) rfl (fun _ => rfl)
    (fun c' hc' => ?_) fun _ ht _ => ?_
  · refine ⟨hme.lt, hme.unreturned, hme.taken, hme.todo, fun hg => (by cases hg),
      fun k c' hc' hd => ?_, ⟨hme.place, ?_⟩⟩
    · refine hme.late k c' hc' ?_
      by_cases hkp : k = p
      · subst hkp
        have hd : (update s.info k _ k).data = some c' := hd
        rwa [update_self] at hd
      · have hd : (update s.info p _ k).data = some c' := hd
        rwa [update_of_ne hkp] at hd
    · show (update s.info p _ p).func = some c
      rw [update_self]
  · rcases hc' with hf | hd
    · exact .inl (Option.some.inj hf).symm
    · exact .inr (.inr hd)
  · rw [hhere] at ht
    cases ht

/-- With the data the request is complete, and the bit is the target's. -/
theorem putData (hq : s.caller q = .putData c mask p) :
    SmpInv cfg ((s.setInfo p { s.info p with data := some c }).setCaller q
      (.kick c mask p)) h := by
  have hme := hi.callerOk hq
  obtain ⟨hclear, hfunc⟩ : mask.getLsbD p = false ∧ (s.info p).func = some c := hme.place
  have hold : ∀ {k}, mask.getLsbD k = true → (Caller.putData c mask p).todo k = true := by
    intro k hk
    show (mask.getLsbD k || k == p) = true
    rw [hk, Bool.true_or]
  obtain ⟨-, hown, hidle⟩ := hi.held hq (todo_here mask p)
  refine hi.write hq rfl hown hidle ?_ rfl (fun k hk => ?_) rfl (fun _ => rfl)
    (fun c' hc' => ?_) fun _ _ _ => ?_
  · refine ⟨hme.lt, hme.unreturned, hme.taken, fun k hk => hme.todo k (hold hk),
      fun hg => (by cases hg), fun k c' hc' hd => ?_, trivial⟩
    by_cases hkp : k = p
    · rw [hkp]
      exact hclear
    have hd : (update s.info p _ k).data = some c' := hd
    rw [update_of_ne hkp] at hd
    have hlate : (mask.getLsbD k || k == p) = false := hme.late k c' hc' hd
    exact (Bool.or_eq_false_iff.mp hlate).1
  · show mask.getLsbD k = (mask.getLsbD k || k == p)
    rw [beq_false_of_ne hk, Bool.or_false]
  · rcases hc' with hf | hd
    · exact .inr (.inl hf)
    · exact .inl (Option.some.inj hd).symm
  · show SmpCallInfo.mk (s.info p).func (some c) = _
    rw [hfunc]

include hq hcall

theorem drop (hgv : pc₀.gives = true) (hpc : pc.call = some c) (htake : pc.isTake = false)
    (hgives : pc.gives = true) (htodo : ∀ k, pc.todo k = false) (hold : ∀ k, pc₀.todo k = false)
    (hself : ∀ k, pc.selfDone q k = pc₀.selfDone q k)
    (hplace : pc.Place ((s.setInfo p i).setCaller q pc) h q)
    (hinfo : ∀ c', i.func = some c' ∨ i.data = some c' →
      (s.info p).func = some c' ∨ (s.info p).data = some c') :
    SmpInv cfg ((s.setInfo p i).setCaller q pc) h := by
  have hme := hi.callerOk hq
  obtain ⟨hown, hne, hidle⟩ := hme.gives hgv
  have hnot : pc₀.isTake = false := by
    revert hgv
    cases pc₀ with
    | take c => exact fun hg => by cases hg
    | _ => exact fun _ => rfl
  refine hi.write hq hcall (hown.trans hcall) (hidle p) ?_ hpc
    (fun k _ => by rw [htodo, hold]) (hgives.trans hgv.symm) hself
    (fun c' hc' => .inr (hinfo c' hc')) fun _ _ hg => ?_
  · refine ⟨fun c' hc' => hme.lt c' (hcall.trans (hpc.symm.trans hc')),
      fun c' hc' => hme.unreturned c' (hcall.trans (hpc.symm.trans hc')), fun c' hc' => ?_,
      fun k hk => ?_, fun _ => ⟨hown.trans (hcall.trans hpc.symm), hne, hidle⟩,
      fun k _ _ _ => htodo k, hplace⟩
    · rw [htake, ← hnot]
      exact hme.taken c' (hcall.trans (hpc.symm.trans hc'))
    · rw [htodo k] at hk
      cases hk
  · rw [hgives] at hg
    cases hg

/-! ## Returning -/

theorem ret {b : Bool} (htake : pc₀.isTake = false) (hothers : ∀ q', q' ≠ q →
      (∀ k, (s.caller q').todo k = false) ∧ (s.caller q').gives = false)
    (hidle : ∀ p, s.handler p = .idle) (hb : s.smpCallMask = 0 ∨ b = false ∧ h.owner = some c) :
    SmpInv cfg ((s.setMask 0).setCaller q .idle) (h.ret c b) := by
  have hme := hi.callerOk hq
  have htaken : h.taken c = true := by
    rw [hme.taken c hcall, htake]
    rfl
  have hret : ∀ {c'}, c' ≠ c → (h.ret c b).returned c' = h.returned c' :=
    fun hne => update_of_ne hne ..
  refine ⟨⟨callers_of rfl .idle fun q' hqq => ?_,
    hi.single_of fun c' hc' => (by cases hc'), hi.later, fun c' hc' => ?_, fun _ _ _ => rfl,
    fun p _ hp => absurd rfl (ne_zero_of_bit hp), fun p hp => absurd (hidle p) hp, hi.right⟩,
    fun c' hc' hr p hp hm hs => ⟨fun ho => absurd rfl (ne_zero_of_bit ho.2.1), fun _ => ?_⟩⟩
  · have ho : CallerOk ((s.setMask 0).setCaller q .idle) h q' (s.caller q') :=
      (hi.callers q').bystander (hothers q' hqq).1 (hothers q' hqq).2 (Nat.le_refl _)
    refine ⟨ho.lt, fun c' hc' => ?_, ho.taken, ho.todo, ho.gives, ho.late, ho.place⟩
    rw [hret fun hcc => hi.alone hq hcall hqq (hcc ▸ hc')]
    exact ho.unreturned c' hc'
  · have hu := hi.untouched c' hc'
    refine ⟨?_, hu.owner, hu.info, hu.runs⟩
    rw [hret fun hcc => ?_]
    · exact hu.returned
    · rw [hcc] at hc'
      exact absurd (hc'.symm.trans htaken) (by decide)
  · -- nothing of a call that returns as it should was outstanding
    have hnot : ¬ Outstanding s h c' p := by
      intro ho
      rcases hb with hzero | ⟨rfl, hown⟩
      · exact ne_zero_of_bit ho.2.1 hzero
      · have hcc : c' = c := Option.some.inj (ho.1.symm.trans hown)
        rw [hcc] at hr
        exact hr (update_self ..)
    refine (hi.runs c' hc' (fun hf => ?_) p hp hm hs).2 hnot
    by_cases hcc : c' = c
    · rw [hcc, hme.unreturned c hcall] at hf
      cases hf
    · rw [hret hcc] at hr
      exact hr hf

theorem done (htake : pc₀.isTake = false) (hm : s.smpCallMask = 0) :
    SmpInv cfg (s.setCaller q .idle) (h.ret c true) := by
  have hsame : s.setMask 0 = s := by rw [State.setMask, ← hm]
  have hdone := hi.ret (b := true) hq hcall htake
    (fun q' _ => ⟨fun k => hi.not_todo (hm ▸ BitVec.getLsbD_zero) q', hi.not_gives hm q'⟩)
    (hi.idle_of_zero hm) (.inl hm)
  rwa [hsame] at hdone

omit hq hcall

theorem reset (hq : s.caller q = .dropFunc c mask) :
    SmpInv cfg ((s.setMask 0).setCaller q .idle) (h.ret c false) := by
  obtain ⟨hown, -, hidle⟩ := (hi.callerOk hq).gives rfl
  exact hi.ret hq rfl rfl (fun q' hqq => hi.others_of_owner hq rfl hown hqq) hidle
    (.inr ⟨rfl, hown⟩)

theorem giveUp (hq : s.caller q = .verdict c)
    (hm : s.smpCallMask ≠ 0) (hown : h.owner = some c) (hidle : ∀ p, s.handler p = .idle) :
    SmpInv cfg (s.setCaller q (.dropFunc c mask)) h := by
  have hme := hi.callerOk hq
  refine hi.of_base ⟨callers_of rfl ?_ fun q' hqq => hi.others_ok hq rfl hown hqq (Nat.le_refl _),
    hi.single_of fun c' hc' q' hqq => ?_, hi.later,
    fun c' hc' => (hi.untouched c' hc').frame rfl, hi.returned, fun p _ _ hr => ?_,
    fun p hp => absurd (hidle p) hp, hi.right⟩
    fun c' p _ => outstanding_setCaller (by rw [hq]; rfl)
  · exact ⟨hme.lt, hme.unreturned, hme.taken, fun p hp => (by cases hp),
      fun _ => ⟨hown, hm, hidle⟩, fun _ _ _ _ => rfl, trivial⟩
  · cases hc'
    exact hi.alone hq rfl hqq
  · have hg := (hr q).2
    rw [setCaller_self] at hg
    cases hg

/-! ## Steps of a handler -/

omit hi in
theorem setHandler_self {pc : Handler} : (s.setHandler p pc).handler p = pc := update_self ..

omit hi in
theorem setHandler_ne {pc : Handler} (hk : k ≠ p) :
    (s.setHandler p pc).handler k = s.handler k := update_of_ne hk ..

omit hi in
theorem base_setHandler {pc : Handler} (hi : SmpBase cfg s h) (hlt : p < cfg.maxPcpuNum)
    (hbit : s.smpCallMask.getLsbD p = true) (hr : s.Ready p) (hok : HandlerOk h p pc) :
    SmpBase cfg (s.setHandler p pc) h := by
  refine ⟨fun q => ?_, hi.single, hi.later, fun c hc => (hi.untouched c hc).frame rfl,
    hi.returned, hi.posted, fun k hk => ?_, hi.right⟩
  · have ho := hi.callers q
    refine ⟨ho.lt, ho.unreturned, ho.taken, ho.todo, fun hg => ?_, ho.late, ho.place⟩
    exact absurd ((hr q).2.symm.trans hg) (by decide)
  by_cases hkp : k = p
  · rw [hkp, setHandler_self]
    exact ⟨hlt, hbit, hr, hok⟩
  · rw [setHandler_ne hkp] at hk ⊢
    exact hi.handlers k hk

omit hi in
theorem outstanding_setHandler {pc : Handler} (hk : k ≠ p ∨ (pc ≠ .clear ∧ s.handler p ≠ .clear)) :
    Outstanding (s.setHandler p pc) h c k ↔ Outstanding s h c k := by
  refine outstanding_congr rfl ?_ fun _ => rfl
  by_cases hkp : k = p
  · obtain ⟨h1, h2⟩ := hk.resolve_left fun hne => hne hkp
    rw [hkp, setHandler_self]
    exact ⟨fun _ => h2, fun _ => h1⟩
  · rw [setHandler_ne hkp]

theorem setHandler {pc : Handler} (hlt : p < cfg.maxPcpuNum)
    (hbit : s.smpCallMask.getLsbD p = true) (hr : s.Ready p) (hok : HandlerOk h p pc)
    (h1 : pc ≠ .clear) (h2 : s.handler p ≠ .clear) : SmpInv cfg (s.setHandler p pc) h :=
  hi.of_base (base_setHandler hi.toSmpBase hlt hbit hr hok)
    fun _ _ _ => outstanding_setHandler (.inr ⟨h1, h2⟩)

theorem run (hp : s.handler p = .run f d) : SmpInv cfg (s.setHandler p .clear) (h.ran f d p) := by
  obtain ⟨hlt, hbit, hr, hown, rfl⟩ := hi.handlerAt hp (by simp)
  have hpos : 0 < (h.ran f (some f) p).runs f (some f) p := by
    show 0 < if _ then _ else _
    rw [if_pos ⟨rfl, rfl, rfl⟩]
    exact Nat.succ_pos _
  have hb : SmpBase cfg (s.setHandler p .clear) (h.ran f (some f) p) :=
    base_setHandler (base_ran hi.toSmpBase hown) hlt hbit hr ⟨f, hown, hpos⟩
  refine hi.ran hb ⟨hown, hbit, ?_, fun q => ?_⟩ (fun ho => ?_)
    fun c' p' hpp => outstanding_setHandler (.inl hpp)
  · rw [hp]
    simp
  · refine Bool.eq_false_iff.mpr fun hs => ?_
    have ht := (hr q).1
    rw [(of_selfDone hs).1] at ht
    cases ht
  · exact ho.2.2.1 setHandler_self

theorem clear (hp : s.handler p = .clear) :
    SmpInv cfg ((s.setMask (bitmapClear p s.smpCallMask)).setHandler p .idle) h := by
  obtain ⟨hlt, hbit, hr, hok⟩ := hi.handlerAt hp (by simp)
  refine hi.cleared ⟨fun q => ?_, hi.single, hi.later, fun c hc => (hi.untouched c hc).frame rfl,
    fun c hret ho => absurd (hi.returned c hret ho) (ne_zero_of_bit hbit),
    fun k hk hb hrk => hi.posted k hk (clear_true hb).1 hrk, fun k hk => ?_, hi.right⟩ rfl
    (fun k hk => setHandler_ne hk) (fun _ _ _ => rfl) fun c ho => absurd hp ho.2.2.1
  · have ho := hi.callers q
    refine ⟨ho.lt, ho.unreturned, ho.taken, fun k hk => ?_, fun hg => ?_, ho.late, ho.place⟩
    · have hkp : k ≠ p := by
        rintro rfl
        exact absurd ((hr q).1.symm.trans hk) (by decide)
      obtain ⟨hb, hown⟩ := ho.todo k hk
      exact ⟨(clear_of_ne hkp).trans hb, hown⟩
    · exact absurd ((hr q).2.symm.trans hg) (by decide)
  · have hkp : k ≠ p := by
      rintro rfl
      exact hk setHandler_self
    rw [setHandler_ne hkp] at hk ⊢
    obtain ⟨hlt', hb', hr', hok'⟩ := hi.handlers k hk
    exact ⟨hlt', (clear_of_ne hkp).trans hb', hr', hok'⟩

/-! ## Every step -/

/-- What only the scheduler of interrupts and of CPUs looks at. -/
theorem other (hm : s'.smpCallMask = s.smpCallMask)
    (hinfo : s'.info = s.info) (hc : s'.caller = s.caller) (hh : s'.handler = s.handler)
    (hn : s'.nextCall = s.nextCall) : SmpInv cfg s' h := by
  obtain ⟨mask, info, caller, handler, kicked, active, nextCall⟩ := s
  obtain ⟨mask', info', caller', handler', kicked', active', nextCall'⟩ := s'
  cases hm
  cases hinfo
  cases hc
  cases hh
  cases hn
  exact ⟨⟨fun q => (hi.callers q).congr (Nat.le_refl _) rfl rfl rfl, hi.single, hi.later,
    fun c hc => (hi.untouched c hc).frame rfl, hi.returned, hi.posted, hi.handlers, hi.right⟩,
    hi.runs⟩

/-- The request of a handler at work is the owner's, and it may go on. -/
theorem served {pc : Handler} (hp : s.handler p = pc) (hne : pc ≠ .idle) (hnot : pc ≠ .clear) :
    ∃ c, h.owner = some c ∧ s.info p = ⟨some c, some c⟩ ∧
      ∀ pc, HandlerOk h p pc → pc ≠ .clear → SmpInv cfg (s.setHandler p pc) h := by
  obtain ⟨hlt, hbit, hr, -⟩ := hi.handlerAt hp hne
  obtain ⟨c, hown, hinfo⟩ := hi.posted p hlt hbit hr
  exact ⟨c, hown, hinfo, fun pc hok hpc => hi.setHandler hlt hbit hr hok hpc (hp ▸ hnot)⟩

theorem handlerStep (hlt : p < cfg.maxPcpuNum) (hok : CleanStep (.handler p) (s, h)) :
    SmpInv cfg (s.handlerStep p) (noteHistory cfg (.handler p) s h) := by
  have hclean : s.handler p = .idle → s.smpCallMask.getLsbD p = true → s.Ready p := hok
  rw [State.handlerStep, noteHistory]
  cases hp : s.handler p with
  | idle =>
    dsimp only
    split
    · have hi' : SmpInv cfg (s.setKicked p false) h := hi.other rfl rfl rfl rfl rfl
      have hidle : (s.setKicked p false).handler p ≠ .clear := by
        show s.handler p ≠ .clear
        rw [hp]
        simp
      split
      · next hbit => exact hi'.setHandler hlt hbit (hclean hp hbit) trivial (by simp) hidle
      have hsame : (s.setKicked p false).setHandler p .idle = s.setKicked p false := by
        rw [← hp]
        exact congrArg (fun f => { s.setKicked p false with handler := f })
          (update_eq_self p s.handler)
      rw [hsame]
      exact hi'
    · exact hi
  | check =>
    obtain ⟨c, -, hinfo, hgo⟩ := hi.served hp (by simp) (by simp)
    rw [hinfo]
    exact hgo _ trivial (by simp)
  | loadFunc =>
    obtain ⟨c, hown, hinfo, hgo⟩ := hi.served hp (by simp) (by simp)
    rw [hinfo]
    exact hgo _ hown (by simp)
  | loadData f =>
    have hf : h.owner = some f := (hi.handlerAt hp (by simp)).2.2.2
    obtain ⟨c, hown, hinfo, hgo⟩ := hi.served hp (by simp) (by simp)
    cases hf.symm.trans hown
    rw [hinfo]
    exact hgo _ ⟨hf, rfl⟩ (by simp)
  | run f d => exact hi.run hp
  | clear => exact hi.clear hp
  | fault => exact (hi.handlerAt hp (by simp)).2.2.2.elim

theorem callerStep (hok : CleanStep (.caller q) (s, h)) :
    SmpInv cfg (s.callerStep cfg q) (noteHistory cfg (.caller q) s h) := by
  have hle := cfg.le_64
  rw [State.callerStep, noteHistory]
  rw [CleanStep] at hok
  cases hq : s.caller q with
  | idle => exact hi
  | take c =>
    dsimp only
    split
    · next hm => exact hi.take hq hm
    · exact hi
  | next c mask =>
    dsimp only
    by_cases hf : ffs64 mask < cfg.maxPcpuNum
    · have hbit : mask.getLsbD (ffs64 mask) = true := ffs64_bit (by omega)
      have hgone : (bitmapClear (ffs64 mask) mask).getLsbD (ffs64 mask) = false := by
        rw [bitmapClear_bit, decide_eq_false fun hne => hne rfl, Bool.and_false]
      -- turning to the next CPU changes nothing of what is to be seen to
      have hsame := fun k (_ : k < cfg.maxPcpuNum) => todo_clear hbit k
      have hsub := fun k => (todo_clear hbit k).symm.trans (c := true)
      rw [if_pos hf]
      by_cases hself : ffs64 mask = q
      · rw [if_pos hself, if_neg fun hc => hc.2.1 hself]
        exact hi.setCaller hq rfl rfl hsub hsame rfl (fun _ => rfl) ⟨hgone, hself⟩
      rw [if_neg hself]
      cases hact : s.active (ffs64 mask) with
      | true =>
        rw [if_pos rfl, if_neg fun hc => by cases hc.2.2]
        exact hi.setCaller hq rfl rfl hsub hsame rfl (fun _ => rfl) hgone
      | false =>
        rw [if_neg Bool.false_ne_true, if_pos ⟨hf, hself, rfl⟩]
        refine (hi.skip).setCaller hq rfl rfl hsub hsame rfl
          (fun k => ?_) ⟨hgone, .inr ?_⟩
        · show (k == ffs64 mask && ffs64 mask == q) = false
          rw [beq_false_of_ne hself, Bool.and_false]
        · show update h.skipped c (update (h.skipped c) _ true) c _ = true
          rw [update_self, update_self]
    · have hnote : ¬ (ffs64 mask < cfg.maxPcpuNum ∧ ffs64 mask ≠ q ∧
          s.active (ffs64 mask) = false) := fun hc => hf hc.1
      rw [if_neg hf]
      split <;> exact hi.setCaller hq rfl rfl (fun _ hk => by cases hk)
        (fun _ hk => (ffs64_none hf hk).symm) rfl (fun _ => rfl) trivial
  | runSelf c mask p => exact hi.runSelf hq
  | readMask c mask p =>
    exact hi.setCaller hq rfl rfl (fun _ => id) (fun _ _ => rfl) rfl (fun _ => rfl)
      (hi.callerOk hq).place
  | writeMask c mask p seen =>
    rw [hq] at hok
    subst hok
    exact hi.writeMask hq
  | putFunc c mask p => exact hi.putFunc hq
  | putData c mask p => exact hi.putData hq
  | kick c mask p =>
    have hi' : SmpInv cfg (s.setKicked p true) h := hi.other rfl rfl rfl rfl rfl
    exact hi'.setCaller hq rfl rfl (fun _ => id) (fun _ _ => rfl) rfl (fun _ => rfl) trivial
  | sync c =>
    dsimp only
    split
    · next hm => exact hi.done hq rfl rfl hm
    · exact hi
  | poll c timeoutUs =>
    dsimp only
    split <;> exact hi.setCaller hq rfl rfl (fun _ => id) (fun _ _ => rfl) rfl (fun _ => rfl)
      trivial
  | verdict c =>
    rw [hq] at hok
    dsimp only
    split
    · next hm => exact hi.done hq rfl rfl hm
    · next hm =>
      obtain ⟨hown, hidle⟩ := hok.resolve_left hm
      exact hi.giveUp hq hm hown hidle
  | dropFunc c mask =>
    dsimp only
    split
    · exact hi.drop hq rfl rfl rfl rfl rfl (fun _ => rfl) (fun _ => rfl) (fun _ => rfl) trivial
        fun c' hc' => .inr (hc'.resolve_left fun hf => by cases hf)
    · exact hi.reset hq
  | dropData c mask p =>
    exact hi.drop hq rfl rfl rfl rfl rfl (fun _ => rfl) (fun _ => rfl) (fun _ => rfl) trivial
      fun c' hc' => .inl (hc'.resolve_right fun hd => by cases hd)

theorem step (hok : CleanStep a (s, h)) (hs : SmpStep cfg a s s') :
    SmpInv cfg s' (noteHistory cfg a s h) := by
  obtain ⟨hlt, rfl⟩ := hs
  cases a with
  | invoke q =>
    show SmpInv cfg (s.invoke q) h
    rw [State.invoke]
    split
    · next hq => exact hi.invoke hq
    · exact hi
  | caller q => exact hi.callerStep hok
  | handler p => exact hi.handlerStep hlt hok
  | notify p | setActive p b => exact hi.other rfl rfl rfl rfl rfl

/-! ## Requests that wait -/

/-- A request stays until it has been served, or its own call gives up. -/
theorem pending_step (hok : CleanStep a (s, h)) (hs : SmpStep cfg a s s') (hp : Pending s h c p) :
    Pending s' (noteHistory cfg a s h) c p ∨ a = .handler p ∧ 0 < h.runs c (some c) p ∨
      ∃ q, a = .caller q ∧ (s.caller q).call = some c ∧ (s.caller q).gives = true := by
  obtain ⟨-, rfl⟩ := hs
  obtain ⟨hown, hbit, hinfo⟩ := hp
  have hm := ne_zero_of_bit hbit
  -- what a caller has still to see to is not this request
  have hne : ∀ {q k pc}, s.caller q = pc → pc.todo k = true → p ≠ k := by
    rintro q k _ rfl hk rfl
    have hc := ((hi.callers q).todo p hk).2.symm.trans hown
    have hlate := (hi.callers q).late p c hc (by rw [hinfo])
    rw [hk] at hlate
    cases hlate
  cases a with
  | invoke q =>
    show Pending (s.invoke q) h c p ∨ _
    rw [State.invoke]
    split <;> exact .inl ⟨hown, hbit, hinfo⟩
  | notify k | setActive k b => exact .inl ⟨hown, hbit, hinfo⟩
  | handler k =>
    show Pending (s.handlerStep k) _ c p ∨ _
    rw [State.handlerStep, noteHistory]
    cases hk : s.handler k with
    | idle | loadFunc =>
      dsimp only
      split <;> exact .inl ⟨hown, hbit, hinfo⟩
    | clear =>
      obtain ⟨-, -, -, c', hown', hruns⟩ := hi.handlerAt hk (by simp)
      cases hown.symm.trans hown'
      by_cases hkp : p = k
      · subst hkp
        exact .inr (.inl ⟨rfl, hruns⟩)
      · exact .inl ⟨hown, (clear_of_ne hkp).trans hbit, hinfo⟩
    | _ => exact .inl ⟨hown, hbit, hinfo⟩
  | caller q =>
    show Pending (s.callerStep cfg q) _ c p ∨ _
    rw [State.callerStep, noteHistory]
    rw [CleanStep] at hok
    cases hq : s.caller q with
    | take c' | sync c' | verdict c' =>
      dsimp only
      rw [if_neg hm, if_neg hm]
      exact .inl ⟨hown, hbit, hinfo⟩
    | next c' mask =>
      -- wherever it goes from here, only its place changes
      have hsame : ∀ pc, Pending (s.setCaller q pc) h c p := fun pc => ⟨hown, hbit, hinfo⟩
      dsimp only
      refine .inl ?_
      split <;> split <;> (try split) <;> (try split) <;> exact hsame _
    | writeMask c' mask k seen =>
      rw [hq] at hok
      subst hok
      have hkp := hne hq (todo_here mask k)
      exact .inl ⟨hown, (clear_of_ne hkp).trans hbit, hinfo⟩
    | putFunc c' mask k | putData c' mask k =>
      have hkp := hne hq (todo_here mask k)
      exact .inl ⟨hown, hbit, (update_of_ne hkp ..).trans hinfo⟩
    | poll c' timeoutUs =>
      dsimp only
      split <;> exact .inl ⟨hown, hbit, hinfo⟩
    | dropFunc c' mask | dropData c' mask k =>
      have hc := ((hi.callerOk hq).gives rfl).1.symm.trans hown
      exact .inr (.inr ⟨q, rfl, by rw [hq]; exact hc, by rw [hq]; rfl⟩)
    | _ => exact .inl ⟨hown, hbit, hinfo⟩

omit hi

end SmpInv

variable {x : State × History}

theorem smpInv_run {active : Pcpu → Bool} {tr : List Label}
    (hrun : GuardedRun (Noted (SmpStep cfg) (noteHistory cfg)) CleanStep
      (.start active, .start) tr x) : SmpInv cfg x.1 x.2 := by
  induction hrun with
  | nil => exact .start active
  | cons _ hok hs ih =>
    rw [hs.2]
    exact ih.step hok hs.1

/-- In every run without accidents: the function of a call that has returned (with a
timeout: has returned true) has been run once on every CPU of its mask that the call found
active; no handler runs a function but the owner's, on its own data; and a request that
waits is neither cleared nor overwritten until it has been served or its own call gives
up. -/
theorem smpCall_once {active : Pcpu → Bool} {tr : List Label}
    (hrun : GuardedRun (Noted (SmpStep cfg) (noteHistory cfg)) CleanStep
      (.start active, .start) tr (s, h)) :
    (∀ c, h.returned c = some true → ∀ p < cfg.maxPcpuNum, (cfg.mask c).getLsbD p = true →
      h.skipped c p = false → h.runs c (some c) p = 1) ∧
    (∀ f d p, h.runs f d p ≠ 0 → d = some f) ∧
    (∀ p, s.handler p ≠ .fault ∧ ∀ f d, s.handler p = .run f d → h.owner = some f ∧ d = some f) ∧
    ∀ a s' c p, SmpStep cfg a s s' → CleanStep a (s, h) → Pending s h c p →
      Pending s' (noteHistory cfg a s h) c p ∨ a = .handler p ∧ 0 < h.runs c (some c) p ∨
        ∃ q, a = .caller q ∧ (s.caller q).call = some c ∧ (s.caller q).gives = true := by
  have hi : SmpInv cfg s h := smpInv_run hrun
  refine ⟨fun c hret p hp hm hs => ?_, hi.right, fun p => ⟨fun hf => ?_, fun f d hr => ?_⟩,
    fun a s' c p hs hok hp => hi.pending_step hok hs hp⟩
  · have htaken : h.taken c = true := by
      by_contra hnot
      have := (hi.untouched c (Bool.eq_false_iff.mpr hnot)).returned
      rw [hret] at this
      cases this
    refine (hi.runs c htaken (by rw [hret]; decide) p hp hm hs).2 fun ho => ?_
    have hzero := hi.returned c (by rw [hret]; exact Option.some_ne_none _) ho.1
    exact ne_zero_of_bit ho.2.1 hzero
  · exact (hi.handlerAt hf (by simp)).2.2.2
  · exact (hi.handlerAt hr (by simp)).2.2.2

/-! ## Two CPUs -/

/-- One step, with what there is to note. -/
def stepNoted (cfg : SmpConfig) (x : State × History) (a : Label) : State × History :=
  (x.1.step cfg a, noteHistory cfg a x.1 x.2)

theorem run_of_meets {ok : Label → State × History → Prop} {labels : List Label}
    (h : Meets (fun a x => stepNoted cfg x a)
      (fun a x => a.pcpu < cfg.maxPcpuNum ∧ ok a x) x labels) :
    GuardedRun (Noted (SmpStep cfg) (noteHistory cfg)) ok x (labels.map id).reverse
      (labels.foldl (stepNoted cfg) x) :=
  .of_script (fun _ _ h => ⟨h.2, ⟨h.1, rfl⟩, rfl⟩) h

/-- CPU 0 calls a function on CPU 1. -/
def twoPcpus : SmpConfig := ⟨2, by decide, fun _ => 2, fun _ => 0⟩

def bothActive : State × History := (.start fun _ => true, .start)

/-- The interrupt arrives when the request has been written. -/
def servedCall : State × History :=
  [Label.invoke 0, .caller 0, .caller 0, .caller 0, .caller 0, .caller 0, .caller 0,
    .handler 1, .handler 1, .handler 1, .handler 1, .handler 1, .handler 1,
    .caller 0].foldl (stepNoted twoPcpus) bothActive

theorem smpCall_once_served :
    servedCall.2.returned 0 = some true ∧ servedCall.2.runs 0 (some 0) 1 = 1 := by
  have hret : servedCall.2.returned 0 = some true := by decide
  have hone : 1 < 2 := by decide
  have hzero : 0 < 2 := by decide
  obtain ⟨_, hrun⟩ : ∃ tr, GuardedRun (Noted (SmpStep twoPcpus) (noteHistory twoPcpus))
      CleanStep bothActive tr servedCall := by
    refine ⟨_, run_of_meets ⟨⟨hzero, trivial⟩, ⟨hzero, trivial⟩, ⟨hzero, trivial⟩,
      ⟨hzero, trivial⟩, ⟨hzero, trivial⟩, ⟨hzero, trivial⟩, ⟨hzero, trivial⟩,
      ⟨hone, fun _ _ q => ?_⟩, ⟨hone, ?_⟩, ⟨hone, ?_⟩, ⟨hone, ?_⟩, ⟨hone, ?_⟩, ⟨hone, ?_⟩,
      ⟨hzero, trivial⟩, trivial⟩⟩
    · -- the only caller waits
      match q with
      | 0 => exact ⟨rfl, rfl⟩
      | q + 1 => exact ⟨rfl, rfl⟩
    all_goals exact fun hidle => by cases hidle
  exact ⟨hret, (smpCall_once hrun).1 0 hret 1 hone (by decide) (by decide)⟩

/-- A request to reschedule arrives in between: CPU 1 finds its bit set and its slot empty,
and clears the bit. The call writes its request, finds the mask zero and returns. -/
def missedCall : State × History :=
  [Label.invoke 0, .caller 0, .notify 1, .handler 1, .handler 1, .handler 1,
    .caller 0, .caller 0, .caller 0, .caller 0, .caller 0,
    .caller 0].foldl (stepNoted twoPcpus) bothActive

theorem smpCall_missed :
    (∃ tr, GuardedRun (Noted (SmpStep twoPcpus) (noteHistory twoPcpus)) (fun _ _ => True)
      bothActive tr missedCall) ∧
      (twoPcpus.mask 0).getLsbD 1 = true ∧ missedCall.1.active 1 = true ∧
      missedCall.2.returned 0 = some true ∧ missedCall.2.skipped 0 1 = false ∧
      missedCall.2.runs 0 (some 0) 1 = 0 ∧ missedCall.1.smpCallMask = 0 := by
  refine ⟨⟨_, run_of_meets ?_⟩, ?_⟩ <;> decide

end Sima.Smp
