import Sima.Sched.Rtds
import Sima.Sched.Status

/-!
# Who is queued, and where

The property of the RTDS queues that everything else rests on: between calls, a
thread that can run is in exactly one queue, the one its budget and its tag say,
and a thread that is blocked or about to block is in none. A thread that this
fails for is lost — `pick_next` looks nowhere else.

The proof is in two layers. `Linked` is about the lists: tag and queue agree and
nobody is in twice. Every list operation keeps it, whatever the thread, and does
nothing else to the data than write the tag. So all that remains is about the
data of one thread at a time, and `ThreadOk` and `Fed` say it.

`Fed` — budget in the ready queue, none in the depleted one — does not hold all
the way through `schedule`. Accounting and a priority request change the budget
of the current thread where it stands, and only `rtds_refresh_thread` puts it in
the right queue. The invariant therefore has a set of threads that are excused,
and `chargeCurrent` is where it becomes empty again.
-/

namespace Sima.Sched

open Lib
open Function (forall_update_iff update update_eq_self update_of_ne update_self)

namespace Rtds

variable {s : Rtds} {c : SchedControl} {t u : Tid} {now : Nat}

/-- Tag and queue agree, and nobody is queued twice. -/
structure Linked (s : Rtds) : Prop where
  readyNodup : s.readyQueue.Nodup
  depletedNodup : s.depletedQueue.Nodup
  ready : ∀ t, t ∈ s.readyQueue ↔ (s.data t).queue = .ready
  depleted : ∀ t, t ∈ s.depletedQueue ↔ (s.data t).queue = .depleted

/-! ## What the list operations do -/

/-- The data after the tag of `t` is written. -/
def tagged (s : Rtds) (t : Tid) (q : RtdsQueue) : Tid → RtdsData :=
  update s.data t { s.data t with queue := q }

theorem tagged_same (s : Rtds) (t : Tid) : s.tagged t (s.data t).queue = s.data := by
  exact update_eq_self t s.data

theorem Linked.modify (h : Linked s) {f : RtdsData → RtdsData}
    (hf : (f (s.data t)).queue = (s.data t).queue) : Linked (s.modify t f) := by
  have hqueue : ∀ u, ((s.modify t f).data u).queue = (s.data u).queue := by
    intro u
    by_cases hu : u = t
    · subst hu
      simp [hf]
    · simp [hu]
  exact ⟨h.readyNodup, h.depletedNodup, fun u => by rw [hqueue]; exact h.ready u,
    fun u => by rw [hqueue]; exact h.depleted u⟩

theorem queueRemove_data (t : Tid) (s : Rtds) : (queueRemove t s).data = s.tagged t .none := by
  rw [queueRemove]
  split
  · rfl
  · next h =>
    have hnone : (s.data t).queue = .none := by simpa using h
    rw [← hnone, tagged_same]

theorem Linked.queueRemove (h : Linked s) (t : Tid) : Linked (queueRemove t s) := by
  have hdata := queueRemove_data t s
  rw [Rtds.queueRemove] at hdata ⊢
  split
  · refine ⟨h.readyNodup.erase t, h.depletedNodup.erase t, fun u => ?_, fun u => ?_⟩
    · show u ∈ s.readyQueue.erase t ↔ (s.tagged t .none u).queue = .ready
      rw [h.readyNodup.mem_erase_iff, h.ready, tagged]
      by_cases hu : u = t <;> simp [hu]
    · show u ∈ s.depletedQueue.erase t ↔ (s.tagged t .none u).queue = .depleted
      rw [h.depletedNodup.mem_erase_iff, h.depleted, tagged]
      by_cases hu : u = t <;> simp [hu]
  · exact h

section

variable (h : Linked s) (hq : (s.data t).queue = .none)

include h hq

/-- Both insertions begin by taking `t` out, if it is in. -/
theorem unqueued_of_linked : t ∉ s.readyQueue ∧ t ∉ s.depletedQueue := by
  rw [h.ready, h.depleted, hq]
  simp

theorem Linked.enqueueReady :
    Linked { s.modify t fun d => { d with queue := .ready } with
      readyQueue := s.edfInsert t } := by
  have hready := (unqueued_of_linked h hq).1
  refine ⟨?_, h.depletedNodup, fun u => ?_, fun u => ?_⟩
  · exact (List.perm_orderedInsert _ _ _).nodup_iff.mpr
      (List.nodup_cons.mpr ⟨hready, h.readyNodup⟩)
  · show u ∈ s.edfInsert t ↔ (s.tagged t .ready u).queue = .ready
    rw [edfInsert, List.mem_orderedInsert, h.ready, tagged]
    by_cases hu : u = t <;> simp [hu]
  · show u ∈ s.depletedQueue ↔ (s.tagged t .ready u).queue = .depleted
    rw [h.depleted, tagged]
    by_cases hu : u = t <;> simp [hu, hq]

theorem Linked.enqueueDepleted :
    Linked { s.modify t fun d => { d with queue := .depleted } with
      depletedQueue := s.depletedQueue ++ [t] } := by
  have hdepl := (unqueued_of_linked h hq).2
  refine ⟨h.readyNodup, ?_, fun u => ?_, fun u => ?_⟩
  · show (s.depletedQueue ++ [t]).Nodup
    rw [List.nodup_append_comm]
    exact List.nodup_cons.mpr ⟨hdepl, h.depletedNodup⟩
  · show u ∈ s.readyQueue ↔ (s.tagged t .depleted u).queue = .ready
    rw [h.ready, tagged]
    by_cases hu : u = t <;> simp [hu, hq]
  · show u ∈ s.depletedQueue ++ [t] ↔ (s.tagged t .depleted u).queue = .depleted
    rw [List.mem_append, h.depleted, tagged]
    by_cases hu : u = t <;> simp [hu]

end

theorem tagged_of_removed (t : Tid) (q : RtdsQueue) (s : Rtds) :
    (queueRemove t s).tagged t q = s.tagged t q := by
  rw [tagged, queueRemove_data, tagged, tagged]
  simp

theorem queueRemove_queue (t : Tid) (s : Rtds) : ((queueRemove t s).data t).queue = .none := by
  rw [queueRemove_data, tagged, update_self]

theorem queueRemove_of_none (hq : (s.data t).queue = .none) : queueRemove t s = s :=
  if_neg (by simp [hq])

theorem readyInsert_eq (t : Tid) (s : Rtds) : readyInsert t s =
    { (queueRemove t s).modify t fun d => { d with queue := .ready } with
      readyQueue := (queueRemove t s).edfInsert t } := by
  rw [readyInsert]
  split
  · rfl
  · next hq => rw [queueRemove_of_none (by simpa using hq)]

theorem depletedInsert_eq (hq : (s.data t).queue ≠ .depleted) : depletedInsert t s =
    { (queueRemove t s).modify t fun d => { d with queue := .depleted } with
      depletedQueue := (queueRemove t s).depletedQueue ++ [t] } := by
  rw [depletedInsert, if_neg hq]
  split
  · rfl
  rename_i hq'
  rw [queueRemove_of_none]
  cases hqueue : (s.data t).queue with
  | none => rfl
  | ready => exact absurd hqueue hq'
  | depleted => exact absurd hqueue hq

theorem readyInsert_spec (h : Linked s) (t : Tid) :
    Linked (readyInsert t s) ∧ (readyInsert t s).data = s.tagged t .ready := by
  rw [readyInsert_eq]
  exact ⟨(h.queueRemove t).enqueueReady (queueRemove_queue t s), tagged_of_removed t .ready s⟩

theorem depletedInsert_spec (h : Linked s) (t : Tid) :
    Linked (depletedInsert t s) ∧ (depletedInsert t s).data = s.tagged t .depleted := by
  by_cases hq : (s.data t).queue = .depleted
  · rw [depletedInsert, if_pos hq]
    exact ⟨h, by rw [← hq, tagged_same]⟩
  · rw [depletedInsert_eq hq]
    exact ⟨(h.queueRemove t).enqueueDepleted (queueRemove_queue t s),
      tagged_of_removed t .depleted s⟩

/-! ## One thread at a time -/

/-- The thread competes for the CPU: `rtds_is_active`. -/
def Active (v : RunView) (t : Tid) : Prop :=
  t ≠ v.idle ∧ ((v.currObj = some t ∧ v.beBlocking t = false) ∨ v.status t = .runnable)

theorem isActive_iff : isActive c t = true ↔ Active c.view t := by
  simp [isActive, Active, isCurrent, SchedControl.isIdleThread]

/-- What holds of a thread at all times. The idle thread always has budget,
since nobody charges it. -/
structure ThreadOk (v : RunView) (t : Tid) (d : RtdsData) : Prop where
  granted : t ∈ v.threadList → 0 < d.budgetTicks ∧ 0 < d.periodTicks
  member : d.queue ≠ .none → t ∈ v.threadList
  idle : t ∈ v.threadList → t = v.idle → 0 < d.remainingTicks
  parked : t ≠ v.idle → v.status t = .blocked ∨ v.beBlocking t = true → d.queue = .none

/-- Budget in the ready queue, none in the depleted one. -/
def Fed (d : RtdsData) : Prop :=
  (d.queue = .ready → 0 < d.remainingTicks) ∧ (d.queue = .depleted → d.remainingTicks = 0)

theorem Fed.of_none {d : RtdsData} (h : d.queue = .none) : Fed d := by
  simp [Fed, h]

/-- The queues are in order: `must` have to be in one, and of `excused` the
budget need not fit. -/
structure QueuesOk (v : RunView) (must excused : Tid → Prop) (s : Rtds) : Prop where
  linked : Linked s
  thread : ∀ t, ThreadOk v t (s.data t)
  queued : ∀ t, must t → (s.data t).queue ≠ .none
  fed : ∀ t, ¬ excused t → Fed (s.data t)

/-- The threads that wait for the CPU. -/
def Waiting (v : RunView) (t : Tid) : Prop :=
  t ∈ v.threadList ∧ t ≠ v.idle ∧ v.status t = .runnable

/-- The threads that `pick_next` has to choose from. -/
def Contending (v : RunView) (t : Tid) : Prop := t ∈ v.threadList ∧ Active v t

/-- The current thread, unless it is the idle one. -/
def Charged (v : RunView) (t : Tid) : Prop := v.currObj = some t ∧ t ≠ v.idle

variable {v v' : RunView} {d d' : RtdsData} {s' : Rtds}
  {must must' excused excused' : Tid → Prop}

theorem Waiting.contending (h : Waiting v t) : Contending v t := ⟨h.1, h.2.1, .inr h.2.2⟩

variable (h : QueuesOk v must excused s) {q : RtdsQueue}

include h

theorem QueuesOk.weaken (hmust : ∀ t, must' t → must t) (hex : ∀ t, excused t → excused' t) :
    QueuesOk v must' excused' s :=
  ⟨h.linked, h.thread, fun t ht => h.queued t (hmust t ht),
    fun t ht => h.fed t fun he => ht (hex t he)⟩

/-- A change of one thread, in the view and in its data. -/
theorem QueuesOk.put (t : Tid) (hl : Linked s') (hdata : s'.data = update s.data t d)
    (hothers : ∀ u, u ≠ t → ThreadOk v u (s.data u) → ThreadOk v' u (s.data u))
    (ht : ThreadOk v' t d) (hqueued : must' t → d.queue ≠ .none)
    (hmust : ∀ u, u ≠ t → must' u → must u) (hfed : ¬ excused' t → Fed d)
    (hex : ∀ u, u ≠ t → excused u → excused' u) : QueuesOk v' must' excused' s' := by
  refine ⟨hl, ?_, ?_, ?_⟩
  · rw [hdata]
    exact (forall_update_iff s.data (ThreadOk v')).mpr
      ⟨ht, fun u hut => hothers u hut (h.thread u)⟩
  · rw [hdata]
    exact (forall_update_iff s.data fun u d => must' u → d.queue ≠ .none).mpr
      ⟨hqueued, fun u hut hu => h.queued u (hmust u hut hu)⟩
  · rw [hdata]
    exact (forall_update_iff s.data fun u d => ¬ excused' u → Fed d).mpr
      ⟨hfed, fun u hut hu => h.fed u fun he => hu (hex u hut he)⟩

theorem QueuesOk.set (t : Tid) (hl : Linked s') (hdata : s'.data = update s.data t d)
    (ht : ThreadOk v t d) (hqueued : must t → d.queue ≠ .none) (hfed : ¬ excused t → Fed d) :
    QueuesOk v must excused s' :=
  h.put t hl hdata (fun _ _ => id) ht hqueued (fun _ _ => id) hfed fun _ _ => id

theorem QueuesOk.timer (timer : Option Nat) :
    QueuesOk v must excused { s with tickTimer := timer } :=
  ⟨⟨h.linked.readyNodup, h.linked.depletedNodup, h.linked.ready, h.linked.depleted⟩,
    h.thread, h.queued, h.fed⟩

theorem QueuesOk.programTimer {caller : Caller} {running : Option Tid} :
    QueuesOk v must excused (programTimer c caller running s) := by
  rw [Rtds.programTimer]
  split
  · exact h.timer _
  · exact h

omit h

/-! ## A new period -/

@[simp] theorem advancePeriod_queue : (advancePeriod now d).2.queue = d.queue := by
  rw [advancePeriod]
  split <;> rfl

@[simp] theorem advancePeriod_budgetTicks :
    (advancePeriod now d).2.budgetTicks = d.budgetTicks := by
  rw [advancePeriod]
  split <;> rfl

@[simp] theorem advancePeriod_periodTicks :
    (advancePeriod now d).2.periodTicks = d.periodTicks := by
  rw [advancePeriod]
  split <;> rfl

theorem advancePeriod_remaining (now : Nat) (d : RtdsData) :
    (advancePeriod now d).2 = d ∨ (advancePeriod now d).2.remainingTicks = d.budgetTicks := by
  rw [advancePeriod]
  split
  · exact .inl rfl
  · exact .inr rfl

/-- A new period never takes budget away for good. -/
theorem ThreadOk.advance (h : ThreadOk v t d) (now : Nat) :
    ThreadOk v t (advancePeriod now d).2 := by
  refine ⟨fun ht => ?_, fun hq => ?_, fun ht hi => ?_, fun hi hp => ?_⟩
  · simpa using h.granted ht
  · exact h.member (by simpa using hq)
  · rcases advancePeriod_remaining now d with hd | hd
    · rw [hd]
      exact h.idle ht hi
    · rw [hd]
      exact (h.granted ht).1
  · simpa using h.parked hi hp

theorem ThreadOk.moved (h : ThreadOk v t d) (hlist : t ∈ v'.threadList ↔ t ∈ v.threadList)
    (hidle : v'.idle = v.idle) (hmem : q ≠ .none → t ∈ v.threadList)
    (hpark : t ≠ v.idle → v'.status t = .blocked ∨ v'.beBlocking t = true →
      q = .none) : ThreadOk v' t { d with queue := q } := by
  refine ⟨?_, ?_, ?_, ?_⟩
  · rw [hlist]
    exact h.granted
  · rw [hlist]
    exact hmem
  · rw [hlist, hidle]
    exact h.idle
  · rw [hidle]
    exact hpark

theorem ThreadOk.unqueued (h : ThreadOk v t d) (hok : v.Ok) (hne : t ≠ v.idle)
    (hact : ¬ Active v t) : d.queue = .none := by
  by_contra hq
  have ht := h.member hq
  have hst : v.status t ≠ .runnable := fun hr => hact ⟨hne, .inr hr⟩
  cases hstatus : v.status t with
  | runnable => exact hst hstatus
  | blocked => exact hq (h.parked hne (.inl hstatus))
  | running =>
    have hcur := (hok.running t ht).mp hstatus
    cases hblk : v.beBlocking t with
    | true => exact hq (h.parked hne (.inr hblk))
    | false => exact hact ⟨hne, .inl ⟨hcur, hblk⟩⟩

theorem Active.not_parked (h : Active v t) (hok : v.Ok) (ht : t ∈ v.threadList) :
    ¬ (v.status t = .blocked ∨ v.beBlocking t = true) := by
  rintro (hst | hblk)
  · rcases h.2 with hcur | hrun
    · rw [(hok.running t ht).mpr hcur.1] at hst
      cases hst
    · rw [hrun] at hst
      cases hst
  · rcases h.2 with hcur | hrun
    · rw [hcur.2] at hblk
      cases hblk
    · rw [(hok.running t ht).mpr (hok.blocking t ht hblk)] at hrun
      cases hrun

/-- With budget it cannot be in the depleted queue, and a new period only adds
to the budget. -/
theorem Fed.advance_idle (hfed : Fed d) (h : ThreadOk v t d) (hidle : t = v.idle)
    (now : Nat) : Fed (advancePeriod now d).2 := by
  constructor
  · intro hq
    rw [advancePeriod_queue] at hq
    exact (h.advance now).idle (h.member (by simp [hq])) hidle
  intro hq
  rw [advancePeriod_queue] at hq
  have hpos := h.idle (h.member (by simp [hq])) hidle
  rw [hfed.2 hq] at hpos
  exact absurd hpos (by omega)

/-! ## Refreshing -/

/-- What `rtds_refresh_thread` makes of the data of its thread. -/
def refreshed (c : SchedControl) (now : Nat) (t : Tid) (d : RtdsData) : RtdsData :=
  let d := (advancePeriod now d).2
  if !isActive c t then d
  else if d.remainingTicks > 0 then { d with queue := .ready }
  else if !(c.obj t).beBlocking then { d with queue := .depleted }
  else d

theorem refreshThread_spec (h : Linked s) (c : SchedControl) (now : Nat) (t : Tid) :
    Linked (refreshThread c now t s) ∧ (refreshThread c now t s).data =
        update s.data t (refreshed c now t (s.data t)) := by
  have hadv : Linked (advance now t s) := h.modify advancePeriod_queue
  have hd : (advance now t s).data t = (advancePeriod now (s.data t)).2 := by simp [advance]
  simp only [refreshThread, refreshed, hd]
  split
  · exact ⟨hadv, rfl⟩
  split
  · obtain ⟨hl, hdata⟩ := readyInsert_spec hadv t
    rw [hdata, tagged, hd]
    exact ⟨hl, by simp [advance]⟩
  split
  · obtain ⟨hl, hdata⟩ := depletedInsert_spec hadv t
    rw [hdata, tagged, hd]
    exact ⟨hl, by simp [advance]⟩
  · exact ⟨hadv, rfl⟩

theorem refreshed_ok (hok : c.view.Ok) (ht : t ∈ c.view.threadList)
    (h : ThreadOk c.view t d) (hidle : t = c.view.idle → Fed d) (now : Nat) :
    ThreadOk c.view t (refreshed c now t d) ∧ Fed (refreshed c now t d) ∧
      (Active c.view t → (refreshed c now t d).queue ≠ .none) := by
  have hadv := h.advance now
  rw [refreshed]
  split
  · next hact =>
    have hnact : ¬ Active c.view t := by
      rw [← isActive_iff]
      simpa using hact
    refine ⟨hadv, ?_, fun hc => absurd hc hnact⟩
    by_cases hi : t = c.view.idle
    · exact (hidle hi).advance_idle h hi now
    · exact .of_none (hadv.unqueued hok hi hnact)
  rename_i hact
  have hactive : Active c.view t := isActive_iff.mp (by simpa using hact)
  have hnot := hactive.not_parked hok ht
  split
  · next hrem =>
    exact ⟨hadv.moved .rfl rfl (fun _ => ht) fun _ hp => absurd hp hnot,
      ⟨fun _ => hrem, fun hq => by simp at hq⟩, by simp⟩
  rename_i hrem
  split
  · exact ⟨hadv.moved .rfl rfl (fun _ => ht) fun _ hp => absurd hp hnot,
      ⟨fun hq => by simp at hq, fun _ => by simpa using hrem⟩, by simp⟩
  · next hblk => exact absurd (.inr (by simpa using hblk)) hnot

theorem QueuesOk.refreshThread (h : QueuesOk c.view must excused s)
    (hok : c.view.Ok) (ht : t ∈ c.threadList) (hidle : t = c.idle → ¬ excused t)
    (hactive : must' t → Active c.view t) (hmust : ∀ u, u ≠ t → must' u → must u)
    (hex : ∀ u, u ≠ t → excused u → excused' u) (now : Nat) :
    QueuesOk c.view must' excused' (refreshThread c now t s) := by
  obtain ⟨hl, hdata⟩ := refreshThread_spec h.linked c now t
  obtain ⟨hthread, hfed, hqueued⟩ := refreshed_ok hok ht (h.thread t)
    (fun hi => h.fed t (hidle hi)) now
  exact h.put t hl hdata (fun _ _ => id) hthread (fun hm => hqueued (hactive hm))
    hmust (fun _ => hfed) hex

theorem QueuesOk.advance (h : QueuesOk v must excused s) (t : Tid) (now : Nat) :
    QueuesOk v must (fun u => excused u ∨ u = t) (advance now t s) :=
  h.put t (h.linked.modify advancePeriod_queue) rfl (fun _ _ => id)
    ((h.thread t).advance now) (fun hm => by simpa using h.queued t hm)
    (fun _ _ => id) (fun hn => absurd (.inr rfl) hn) fun _ _ hu => .inl hu

theorem QueuesOk.queueRemove (h : QueuesOk v must excused s) (t : Tid) :
    QueuesOk v (fun u => must u ∧ u ≠ t) (fun u => excused u ∧ u ≠ t) (queueRemove t s) :=
  h.put t (h.linked.queueRemove t) (queueRemove_data t s) (fun _ _ => id)
    ((h.thread t).moved .rfl rfl (fun hq => absurd rfl hq) fun _ _ => rfl)
    (fun hm => absurd rfl hm.2) (fun _ _ hu => hu.1) (fun _ => Fed.of_none rfl)
    fun _ hne hu => ⟨hu, hne⟩

theorem accountRuntime_spec (h : Linked s) (c : SchedControl) (now : Nat) (t : Tid) :
    ∃ d, Linked (accountRuntime c now t s) ∧ (accountRuntime c now t s).data = update s.data t d ∧
      d.queue = (s.data t).queue ∧ d.budgetTicks = (s.data t).budgetTicks ∧
      d.periodTicks = (s.data t).periodTicks ∧ (t = c.idle → d = s.data t) := by
  rw [accountRuntime]
  split
  · exact ⟨s.data t, h, (update_eq_self t s.data).symm, rfl, rfl, rfl, fun _ => rfl⟩
  · next hrun =>
    refine ⟨_, h.modify rfl, rfl, rfl, rfl, rfl, fun hi => ?_⟩
    simp [SchedControl.isIdleThread, hi] at hrun

theorem ThreadOk.charge (h : ThreadOk v t d) (hq : d'.queue = d.queue)
    (hb : d'.budgetTicks = d.budgetTicks) (hp : d'.periodTicks = d.periodTicks)
    (hi : t = v.idle → d' = d) : ThreadOk v t d' := by
  refine ⟨fun ht => ?_, fun hne => ?_, fun ht hidle => ?_, fun hne hpark => ?_⟩
  · rw [hb, hp]
    exact h.granted ht
  · exact h.member (hq ▸ hne)
  · rw [hi hidle]
    exact h.idle ht hidle
  · rw [hq]
    exact h.parked hne hpark

theorem QueuesOk.accountRuntime (h : QueuesOk c.view must excused s) (t : Tid) (now : Nat) :
    QueuesOk c.view must (fun u => excused u ∨ (u = t ∧ t ≠ c.idle))
      (accountRuntime c now t s) := by
  obtain ⟨d, hl, hdata, hq, hb, hp, hi⟩ := accountRuntime_spec h.linked c now t
  refine h.put t hl hdata (fun _ _ => id) ((h.thread t).charge hq hb hp hi)
    (fun hm => by rw [hq]; exact h.queued t hm) (fun _ _ => id) (fun hn => ?_)
    fun _ _ hu => .inl hu
  by_cases hidle : t = c.idle
  · rw [hi hidle]
    exact h.fed t fun he => hn (.inl he)
  · exact absurd (.inr ⟨rfl, hidle⟩) hn

/-! ## The current thread joins the queues -/

/-- The queues in order with everybody in who competes. -/
abbrev AllQueued (v : RunView) (s : Rtds) : Prop :=
  QueuesOk v (Contending v) (fun _ => False) s

theorem QueuesOk.chargeCurrent
    (h : QueuesOk c.view (Waiting c.view) (Charged c.view) s) (hok : c.view.Ok)
    (now : Nat) : AllQueued c.view (chargeCurrent c now s) := by
  -- whoever competes and is not current waits
  have hwait : ∀ u, c.view.currObj ≠ some u → Contending c.view u → Waiting c.view u := by
    intro u hne hu
    rcases hu.2.2 with hc | hr
    · exact absurd hc.1 hne
    · exact ⟨hu.1, hu.2.1, hr⟩
  rw [Rtds.chargeCurrent]
  split
  · next hcur =>
    have hnone : c.view.currObj = none := hcur
    exact h.weaken (fun u hu => hwait u (by rw [hnone]; simp) hu)
      fun u hu => by simp [Charged, hcur] at hu
  rename_i t hcur
  have hsome : c.view.currObj = some t := hcur
  split
  · next hidle =>
    have hti : t = c.idle := by simpa [SchedControl.isIdleThread] using hidle
    refine h.weaken (fun u hu => hwait u ?_ hu) fun u hu => ?_
    · intro hc
      rw [hsome] at hc
      exact hu.2.1 (Option.some.inj hc ▸ hti)
    · have hut : t = u := Option.some.inj (hsome.symm.trans hu.1)
      exact hu.2 (hut ▸ hti)
  · next hidle =>
    have hti : t ≠ c.idle := by simpa [SchedControl.isIdleThread] using hidle
    refine (h.accountRuntime t now).refreshThread hok (hok.current t hsome)
      (fun hi => absurd hi hti) (fun hm => hm.2) (fun u hne hu => ?_)
      (fun u hne hu => ?_) now
    · refine hwait u (fun hc => hne ?_) hu
      rw [hsome] at hc
      exact (Option.some.inj hc).symm
    · rcases hu with hu | hu
      · exact hne (Option.some.inj (hu.1.symm.trans hsome))
      · exact hne hu.1

theorem AllQueued.mem_ready (h : AllQueued v s) (ht : t ∈ s.readyQueue) : t ∈ v.threadList :=
  (h.thread t).member (by rw [(h.linked.ready t).mp ht]; simp)

theorem AllQueued.mem_depleted (h : AllQueued v s) (ht : t ∈ s.depletedQueue) : t ∈ v.threadList :=
  (h.thread t).member (by rw [(h.linked.depleted t).mp ht]; simp)

theorem AllQueued.refreshThread (h : AllQueued c.view s) (hok : c.view.Ok)
    (ht : t ∈ c.threadList) (now : Nat) : AllQueued c.view (refreshThread c now t s) :=
  QueuesOk.refreshThread h hok ht (fun _ => id) (fun hm => hm.2)
    (fun _ _ => id) (fun _ _ => id) now

theorem AllQueued.refreshReady (h : AllQueued c.view s) (hok : c.view.Ok)
    (ht : t ∈ c.threadList) (now : Nat) : AllQueued c.view (refreshReady c now t s) := by
  rw [Rtds.refreshReady]
  split
  · refine ((h.advance t now).queueRemove t).refreshThread hok ht
      (fun _ hf => hf.2 rfl) (fun hm => hm.2) (fun u hne hu => ⟨hu, hne⟩)
      (fun u hne hu => ?_) now
    rcases hu.1 with hf | hut
    · exact hf
    · exact hne hut
  · exact h

section Walks

variable {P : Rtds → Prop} {M : Tid → Prop}
  (hmr : ∀ {s t}, P s → t ∈ s.readyQueue → M t)
  (hr : ∀ {s t}, M t → P s → P (refreshReady c now t s))

include hmr hr

theorem walkReady_rule (h : P s) : P (forEachSafe readyQueue (refreshReady c now)
    (2 * s.readyQueue.length) s.readyQueue.head? s) :=
  forEachSafe_inv (P := P) hmr hr _ (fun _ hx => hmr h (List.mem_of_mem_head? hx)) h

theorem refreshQueues_rule (hmd : ∀ {s t}, P s → t ∈ s.depletedQueue → M t)
    (ht : ∀ {s t}, M t → P s → P (refreshThread c now t s)) (h : P s) :
    P (refreshQueues c now s) := by
  have hready := walkReady_rule hmr hr h
  exact forEachSafe_inv (P := P) hmd ht _
    (fun _ hx => hmd hready (List.mem_of_mem_head? hx)) hready

end Walks

theorem AllQueued.refreshQueues (h : AllQueued c.view s) (hok : c.view.Ok)
    (now : Nat) : AllQueued c.view (refreshQueues c now s) :=
  refreshQueues_rule (fun hs hx => hs.mem_ready hx) (fun hx hs => hs.refreshReady hok hx now)
    (fun hs hx => hs.mem_depleted hx) (fun hx hs => hs.refreshThread hok hx now) h

/-! ## The choice -/

theorem mem_of_earliestDepleted (h : earliestDepleted s = some t) : t ∈ s.depletedQueue := by
  -- the best so far is one of the queue
  have hfold : ∀ b, earliestDepleted s = some b → b ∈ s.depletedQueue := by
    refine List.foldlRecOn (motive := fun best => ∀ b, best = some b → b ∈ s.depletedQueue)
      _ _ (by simp) ?_
    intro best hbest x hx b hb
    split at hb
    · injection hb with hb
      exact hb ▸ hx
    split at hb
    · injection hb with hb
      exact hb ▸ hx
    · exact hbest b hb
  exact hfold t h

/-- Whom `sched_rtds_pick_next` takes: somebody who can run, or the idle thread.
It is out of the queues then, and all others who compete are in. -/
theorem choose_spec (h : AllQueued c.view s) (hok : c.view.Ok) (hcur : c.currObj ≠ none) :
    (choose c s).1 ∈ c.threadList ∧
      ((choose c s).1 = c.idle ∨ (c.view.status (choose c s).1 ≠ .blocked ∧
        c.view.beBlocking (choose c s).1 = false)) ∧
      QueuesOk c.view (fun u => Contending c.view u ∧ u ≠ (choose c s).1)
        (fun _ => False) (choose c s).2 := by
  -- a queued thread can run
  have hqueued : ∀ {t}, (s.data t).queue ≠ .none →
      t ∈ c.threadList ∧ (t = c.idle ∨ (c.view.status t ≠ .blocked ∧
        c.view.beBlocking t = false)) ∧
      QueuesOk c.view (fun u => Contending c.view u ∧ u ≠ t) (fun _ => False)
        (queueRemove t s) := by
    intro t hq
    refine ⟨(h.thread t).member hq, ?_, ?_⟩
    · by_cases hi : t = c.idle
      · exact .inl hi
      refine .inr ⟨fun hst => hq ((h.thread t).parked hi (.inl hst)), ?_⟩
      cases hb : c.view.beBlocking t with
      | false => rfl
      | true => exact absurd ((h.thread t).parked hi (.inr hb)) hq
    · exact (QueuesOk.queueRemove h t).weaken (fun _ => id) fun u hu => hu.1
  simp only [choose, pickDepletedSlack]
  split
  · next next rest hready =>
    refine hqueued ?_
    rw [(h.linked.ready next).mp (by rw [hready]; simp)]
    simp
  cases hslack : earliestDepleted s with
  | some t =>
    refine hqueued ?_
    rw [(h.linked.depleted t).mp (mem_of_earliestDepleted hslack)]
    simp
  | none => exact ⟨hok.idle hcur, .inl rfl, h.weaken (fun u hu => hu.1) fun _ => id⟩

/-- The threads after the switch, when everybody but the next one is queued. -/
theorem QueuesOk.switchTo {next : Tid}
    (h : QueuesOk v (fun u => Contending v u ∧ u ≠ next) (fun _ => False) s)
    (hok : v.Ok) (hcur : v.currObj ≠ none) :
    QueuesOk (v.switchTo next) (Waiting (v.switchTo next)) (fun _ => False) s := by
  obtain ⟨prev, hprev⟩ := Option.ne_none_iff_exists'.mp hcur
  by_cases hsame : prev = next
  · rw [RunView.switchTo, if_pos (by rw [hprev, hsame])]
    refine h.weaken (fun u hu => ⟨hu.contending, fun hun => ?_⟩) fun _ => id
    -- the current thread is RUNNING, it does not wait
    have hrun := (hok.running u hu.1).mpr (by rw [hprev, hsame, hun])
    rw [hu.2.2] at hrun
    cases hrun
  refine ⟨h.linked, fun u => ?_, fun u hu => ?_, h.fed⟩
  · have hu := h.thread u
    refine hu.moved (by rw [RunView.switchTo_threadList]) (v.switchTo_idle _) hu.member
      fun hne hpark => ?_
    rw [RunView.switchTo_status hprev hsame, RunView.switchTo_beBlocking hprev hsame] at hpark
    refine hu.parked hne ?_
    by_cases hup : u = prev
    · -- it blocks now if it was about to
      rw [hup] at hpark ⊢
      rw [if_neg hsame] at hpark
      cases hb : v.beBlocking prev with
      | true => exact .inr rfl
      | false => simp [hb] at hpark
    · split at hpark
      · exact .inr (by simpa using hpark)
      · exact hpark
  · obtain ⟨hlist, hne, hst⟩ := hu
    rw [RunView.switchTo_threadList] at hlist
    rw [RunView.switchTo_idle] at hne
    rw [RunView.switchTo_status hprev hsame] at hst
    split at hst
    · cases hst
    rename_i hun
    refine h.queued u ⟨⟨hlist, hne, ?_⟩, hun⟩
    split at hst
    · next hup =>
      cases hb : v.beBlocking prev with
      | true => simp [hb] at hst
      | false => exact .inl ⟨by rw [hprev, hup], by rw [hup, hb]⟩
    · exact .inr hst

/-! ## The hooks -/

/-- The invariant while the scheduler lock is free. -/
abbrev LockFree (v : RunView) (s : Rtds) : Prop :=
  QueuesOk v (Waiting v) (fun _ => False) s

theorem QueuesOk.lastStart (h : QueuesOk v must excused s) (t : Tid) (n : Nat) :
    QueuesOk v must excused (s.modify t fun d => { d with lastStartTicks := n }) :=
  have ht := h.thread t
  h.set t (h.linked.modify rfl) rfl ⟨ht.granted, ht.member, ht.idle, ht.parked⟩
    (h.queued t) (h.fed t)

theorem ThreadOk.sameOff (h : ThreadOk v u d) (hoff : RunView.SameOff t v v')
    (hne : u ≠ t) : ThreadOk v' u d := by
  refine h.moved (by rw [hoff.threadList]) hoff.idle h.member ?_
  rw [hoff.status u hne, hoff.beBlocking u hne]
  exact h.parked

theorem Waiting.sameOff (h : Waiting v' u) (hoff : RunView.SameOff t v v')
    (hne : u ≠ t) : Waiting v u := by
  rw [Waiting, hoff.threadList, hoff.idle, hoff.status u hne] at h
  exact h

theorem LockFree.sleep (h : LockFree c.view s) (t : Tid) (caller : Caller) :
    LockFree (c.view.sleep t) (sleep c caller t s) := by
  have hoff := RunView.sleep_sameOff c.view t
  have hcharge : QueuesOk c.view (Waiting c.view) (fun u => u = t)
      (if isCurrent c t then accountRuntime c (caller.ticks 0) t s else s) := by
    split
    · exact (QueuesOk.accountRuntime h t _).weaken (fun _ => id) fun u hu =>
        hu.elim False.elim fun hut => hut.1
    · exact h.weaken (fun _ => id) fun u hf => hf.elim
  have hgone := (hcharge.queueRemove t).lastStart t 0
  refine .programTimer ?_
  refine hgone.put t hgone.linked (update_eq_self t _).symm
    (fun u hne hu => hu.sameOff hoff hne) ?_ (fun hw => ?_)
    (fun u hne hu => ⟨hu.sameOff hoff hne, hne⟩) (fun _ => hgone.fed t fun hf => ?_)
    fun u hne hf => hf.2 hf.1
  · -- it is in no queue, whatever becomes of its status
    have ht := hgone.thread t
    refine ⟨?_, ?_, ?_, fun _ _ => by simp [queueRemove_data, tagged]⟩
    · rw [hoff.threadList]
      exact ht.granted
    · rw [hoff.threadList]
      exact ht.member
    · rw [hoff.threadList, hoff.idle]
      exact ht.idle
  · exact absurd hw.2.2 (RunView.sleep_status_ne_runnable c.view t)
  · exact hf.2 rfl

/-- The thread comes back from a sleep, into the queue `q` of its budget. -/
theorem QueuesOk.wakeInto (h : QueuesOk v (Waiting v) (fun u => u = t) s) (ht : t ∈ v.threadList)
    (hq : q ≠ .none) (hfed : Fed { s.data t with queue := q }) (hl : Linked s')
    (hdata : s'.data = s.tagged t q) : LockFree (v.wake t) s' := by
  have hoff := RunView.wake_sameOff v t
  refine h.put t hl hdata (fun u hne hu => hu.sameOff hoff hne) ?_ (fun _ => hq)
    (fun u hne hu => hu.sameOff hoff hne) (fun _ => hfed) fun u hne hu => hne hu
  exact (h.thread t).moved (by rw [hoff.threadList]) hoff.idle (fun _ => ht)
    fun _ hp => absurd hp (RunView.wake_not_parked v t)

theorem QueuesOk.enqueue (h : QueuesOk v (Waiting v) (fun u => u = t) s) (ht : t ∈ v.threadList) :
    LockFree (v.wake t) (if (s.data t).remainingTicks > 0 then readyInsert t s
        else depletedInsert t s) := by
  split
  · next hrem =>
    obtain ⟨hl, hdata⟩ := readyInsert_spec h.linked t
    exact h.wakeInto ht (q := .ready) (by simp) ⟨fun _ => hrem, by simp⟩ hl hdata
  rename_i hrem
  obtain ⟨hl, hdata⟩ := depletedInsert_spec h.linked t
  exact h.wakeInto ht (q := .depleted) (by simp)
    ⟨fun hq => by (cases hq), fun _ => Nat.eq_zero_of_not_pos hrem⟩ hl hdata

theorem LockFree.wake (h : LockFree c.view s) (ht : t ∈ c.threadList)
    (caller : Caller) : LockFree (c.view.wake t) (wake c caller t s) := by
  have hadv := (QueuesOk.advance h t (caller.ticks 0)).lastStart t 0
  have hfresh := hadv.weaken (fun _ => id) fun u hu => hu.elim False.elim id
  exact .programTimer (hfresh.enqueue ht)

/-- A priority request moves a thread to the ready queue if it has budget. The
current one stays where it is, whatever its budget has become. -/
theorem QueuesOk.prioritize (h : QueuesOk c.view (Waiting c.view) (Charged c.view) s)
    (ht : t ∈ c.threadList) (hnot : ¬ (c.view.status t = .blocked ∨ c.view.beBlocking t = true))
    (caller : Caller) :
    QueuesOk c.view (Waiting c.view) (Charged c.view) (prioritize c caller t s) := by
  have hadv := h.advance t (caller.ticks 0)
  have hd : (Rtds.advance (caller.ticks 0) t s).data t =
      (advancePeriod (caller.ticks 0) (s.data t)).2 := by simp [Rtds.advance]
  rw [Rtds.prioritize]
  split
  · next hins =>
    obtain ⟨-, hrem⟩ := Bool.and_eq_true_iff.mp hins
    obtain ⟨hl, hdata⟩ := readyInsert_spec hadv.linked t
    exact hadv.put t hl hdata (fun _ _ => id)
      ((hadv.thread t).moved .rfl rfl (fun _ => ht) fun _ hp => absurd hp hnot) (by simp)
      (fun _ _ => id) (fun _ => ⟨fun _ => by simpa using hrem, by simp⟩)
      fun u hne hu => hu.elim (id) fun hut => absurd hut hne
  rename_i hins
  refine ⟨hadv.linked, hadv.thread, hadv.queued, fun u hu => ?_⟩
  by_cases hut : u = t
  · subst hut
    rw [hd]
    have hfed := h.fed u hu
    by_cases hi : u = c.view.idle
    · exact hfed.advance_idle (h.thread u) hi _
    -- not current, so it has no budget, and no new period began
    have hcur : isCurrent c u = false := by
      cases hc : isCurrent c u with
      | false => rfl
      | true => exact absurd ⟨by simpa [isCurrent] using hc, hi⟩ hu
    rcases advancePeriod_remaining (caller.ticks 0) (s.data u) with hsame | hnew
    · rw [hsame]
      exact hfed
    · rw [hd] at hins
      simp [hcur] at hins
      exact absurd ((h.thread u).granted ht).1 (by omega)
  · exact hadv.fed u fun hc => hc.elim hu hut

theorem LockFree.initData (h : LockFree c.view s) (ht : t ∉ c.threadList)
    {khz : Nat} (hkhz : 0 < khz) (caller : Caller) :
    LockFree (c.view.init t) (initData khz c caller t s) := by
  have hnone : (s.data t).queue = .none := by
    by_contra hq
    exact ht ((h.thread t).member hq)
  have hlist : (c.view.init t).threadList = c.threadList ++ [t] := rfl
  have hmem : ∀ {u}, u ≠ t → (u ∈ (c.view.init t).threadList ↔ u ∈ c.threadList) := by
    intro u hne
    rw [hlist]
    simp [hne]
  have hst : ∀ {u}, u ≠ t → (c.view.init t).status u = c.view.status u := by
    intro u hne
    simp [RunView.init, RunView.setStatus, RunView.setBlocking, hne]
  have hbl : ∀ {u}, u ≠ t → (c.view.init t).beBlocking u = c.view.beBlocking u := by
    intro u hne
    simp [RunView.init, RunView.setStatus, RunView.setBlocking, hne]
  have hl : Linked (Rtds.initData khz c caller t s) := by
    rw [Rtds.initData]
    exact h.linked.modify hnone.symm
  refine h.put t hl rfl (fun u hne hu => ?_) ?_
    (fun hw => ?_) (fun u hne hu => ?_) (fun _ => Fed.of_none rfl) fun _ _ => id
  · refine hu.moved (hmem hne) rfl hu.member ?_
    rw [hst hne, hbl hne]
    exact hu.parked
  · -- a fresh server has its budget, and is in no queue
    have hbudget : 0 < usToTicks khz 2000 ∧ 0 < usToTicks khz 4000 := by
      simp only [usToTicks]
      omega
    exact ⟨fun _ => hbudget, fun hq => absurd rfl hq, fun _ _ => hbudget.1, fun _ _ => rfl⟩
  · have hblk : (c.view.init t).status t = .blocked := by
      simp [RunView.init, RunView.setStatus, RunView.setBlocking]
    rw [hw.2.2] at hblk
    cases hblk
  · rw [Waiting, hmem hne, hst hne] at hu
    exact hu

theorem LockFree.run (h : LockFree v s) : LockFree (v.run v.idle) s := by
  have hst : ∀ {u}, u ≠ v.idle → (v.run v.idle).status u = v.status u := by
    intro u hne
    simp [RunView.run, RunView.setStatus, hne]
  refine ⟨h.linked, fun u => ?_, fun u hu => ?_, h.fed⟩
  · have hu := h.thread u
    refine ⟨hu.granted, hu.member, hu.idle, fun hne hp => ?_⟩
    rw [hst hne] at hp
    exact hu.parked hne hp
  · refine h.queued u ⟨hu.1, hu.2.1, ?_⟩
    rw [← hst hu.2.1]
    exact hu.2.2

/-- The queues after `sched_rtds_pick_next` and the switch that follows. -/
theorem QueuesOk.pickNext (h : QueuesOk c.view (Waiting c.view) (Charged c.view) s)
    (hok : c.view.Ok) (hcur : c.currObj ≠ none) (caller : Caller) :
    (pickNext c caller s).1 ∈ c.threadList ∧ ((pickNext c caller s).1 = c.idle ∨
        (c.view.status (pickNext c caller s).1 ≠ .blocked ∧
          c.view.beBlocking (pickNext c caller s).1 = false)) ∧
      LockFree (c.view.switchTo (pickNext c caller s).1) (pickNext c caller s).2 := by
  have hall := (h.chargeCurrent hok (caller.ticks 0)).refreshQueues hok (caller.ticks 0)
  obtain ⟨hmem, hcan, hrest⟩ := choose_spec hall hok hcur
  have hswitch := hrest.switchTo hok hcur
  simp only [Rtds.pickNext]
  refine ⟨hmem, hcan, QueuesOk.programTimer ?_⟩
  split
  · exact hswitch.lastStart _ _
  · exact hswitch

theorem LockFree.timerHandler (h : LockFree c.view s) (hok : c.view.Ok)
    (ticks : Nat → Nat) : LockFree c.view (timerHandler c ticks s).2 := by
  have hcharged : QueuesOk c.view (Waiting c.view) (Charged c.view)
      { s with tickTimer := none } :=
    (h.timer none).weaken (fun _ => id) fun _ hf => hf.elim
  have hall := (hcharged.chargeCurrent hok (ticks 0)).refreshQueues hok (ticks 0)
  exact hall.weaken (fun _ hu => hu.contending) fun _ => id

end Rtds

/-! ## Every run -/

open Rtds in
theorem schedRtds_lawful {khz : Nat} (hkhz : 0 < khz) : Lawful (schedRtds khz) LockFree
      (fun v s => QueuesOk v (Waiting v) (Charged v) s) where
  initData ht _ h := h.initData ht hkhz _
  run _ _ h := h.run
  sleep _ _ h := h.sleep _ _
  wake ht _ _ h := h.wake ht _
  enter h := h.weaken (fun _ => id) fun _ hf => hf.elim
  prioritize hf ht hst hb _ h := by
    injection hf with hf
    subst hf
    exact h.prioritize ht (by simp_all) _
  member hcur hok h := (h.pickNext hok hcur _).1
  canRun hcur hok h := (h.pickNext hok hcur _).2.1
  switch hcur hok h := (h.pickNext hok hcur _).2.2
  timerHandler _ hok h := h.timerHandler hok _

/-- The threads and the queues of a pCPU while the scheduler lock is free. -/
structure QueuesInOrder (p : Pcpu Rtds) : Prop where
  running : ∀ t ∈ p.ctl.threadList, (p.ctl.obj t).status = .running ↔ p.ctl.currObj = some t
  blocking : ∀ t ∈ p.ctl.threadList, (p.ctl.obj t).beBlocking = true → p.ctl.currObj = some t
  parked : ∀ t ∈ p.ctl.threadList, t ≠ p.ctl.idle →
    (p.ctl.obj t).status = .blocked ∨ (p.ctl.obj t).beBlocking = true →
    t ∉ p.priv.readyQueue ∧ t ∉ p.priv.depletedQueue
  queued : ∀ t ∈ p.ctl.threadList, t ≠ p.ctl.idle →
    (p.ctl.obj t).status = .runnable →
    (t ∈ p.priv.readyQueue ∧ t ∉ p.priv.depletedQueue ∧ (p.priv.data t).queue = .ready) ∨
    (t ∉ p.priv.readyQueue ∧ t ∈ p.priv.depletedQueue ∧ (p.priv.data t).queue = .depleted)
  once : p.priv.readyQueue.Nodup ∧ p.priv.depletedQueue.Nodup
  budget : ∀ t ∈ p.priv.readyQueue, 0 < (p.priv.data t).remainingTicks
  spent : ∀ t ∈ p.priv.depletedQueue, (p.priv.data t).remainingTicks = 0

theorem Rtds.LockFree.queuesInOrder {p : Pcpu Rtds} (hok : p.ctl.view.Ok)
    (h : LockFree p.ctl.view p.priv) : QueuesInOrder p := by
  refine ⟨hok.running, hok.blocking, fun t _ hne hpark => ?_,
    fun t ht hne hst => ?_, ⟨h.linked.readyNodup, h.linked.depletedNodup⟩,
    fun t ht => ?_, fun t ht => ?_⟩
  · exact unqueued_of_linked h.linked ((h.thread t).parked hne hpark)
  · rw [h.linked.ready, h.linked.depleted]
    cases hq : (p.priv.data t).queue with
    | none => exact absurd hq (h.queued t ⟨ht, hne, hst⟩)
    | ready => exact .inl (by simp)
    | depleted => exact .inr (by simp)
  · exact (h.fed t id).1 ((h.linked.ready t).mp ht)
  · exact (h.fed t id).2 ((h.linked.depleted t).mp ht)

theorem initSched_lockFree (idle : Tid) (obj : Tid → ThreadObject) :
    (initSched idle obj Rtds.init).ctl.view.Ok ∧
      Rtds.LockFree (initSched idle obj Rtds.init).ctl.view Rtds.init := by
  constructor
  · exact ⟨fun t ht => absurd ht (by simp [initSched]),
      fun t ht => absurd ht (by simp [initSched]), fun t ht => by simp [initSched] at ht,
      fun hn => absurd rfl hn⟩
  refine ⟨⟨List.nodup_nil, List.nodup_nil, fun t => ?_, fun t => ?_⟩, fun t => ?_,
    fun t ht => absurd ht.1 (by simp [initSched]), fun t _ => .of_none rfl⟩
  · simp [Rtds.init]
  · simp [Rtds.init]
  · exact ⟨fun ht => absurd ht (by simp [initSched]), fun hq => absurd rfl hq,
      fun ht => absurd ht (by simp [initSched]), fun _ _ => rfl⟩

/-- In every run of an RTDS pCPU, the queues are in order whenever the lock is
free. The readings of the clock are arbitrary: nothing here rests on their
order. -/
theorem rtds_queuesInOrder {khz idle : Nat} {obj : Tid → ThreadObject}
    {p : Pcpu Rtds} (hkhz : 0 < khz)
    (hrun : SchedRun (schedRtds khz) (initSched idle obj Rtds.init) p) : QueuesInOrder p := by
  obtain ⟨hok, hfree⟩ := initSched_lockFree idle obj
  obtain ⟨hok', hfree'⟩ := (schedRtds_lawful hkhz).reach hrun hok hfree
  exact hfree'.queuesInOrder hok'

/-! ### A run -/

/-- A thread object before it is set up. -/
def blankThread : ThreadObject := ⟨.blocked, false, false, {}⟩

/-- The idle thread 0 runs, and thread 1 is set up. -/
def oneServer : Pcpu Rtds :=
  initThreadData (schedRtds 1000) ⟨true, fun _ => 7⟩ 1
    (runThread (fun _ => 5) 0
      (initThreadData (schedRtds 1000) ⟨true, fun _ => 3⟩ 0
        (initSched 0 (fun _ => blankThread) Rtds.init)))

theorem oneServer_run : SchedRun (schedRtds 1000) (initSched 0 (fun _ => blankThread) Rtds.init)
    oneServer := by
  refine .tail (.tail (.tail .refl ⟨_, .initThreadData _ ?_⟩)
    ⟨_, .runIdle _ ?_ ?_⟩) ⟨_, .initThreadData _ ?_⟩
  · decide
  · rfl
  · decide
  · decide

/-- The server is woken, runs out its budget, and waits in the depleted queue
while it runs on. -/
theorem rtds_queuesInOrder_depleted :
    let p := timerTick (schedRtds 1000) (fun _ => 3000)
      (schedule (schedRtds 1000) (fun i => 10 + i)
        (wakeThread (schedRtds 1000) ⟨true, fun i => 8 + i⟩ 1 oneServer))
    QueuesInOrder p ∧ p.ctl.currObj = some 1 ∧ p.priv.depletedQueue = [1] := by
  refine ⟨rtds_queuesInOrder (show 0 < 1000 by decide) (.tail (.tail (.tail
    oneServer_run ⟨_, .wakeThread _ ?_⟩) ⟨_, .schedule _ ?_⟩) ⟨_, .timerTick _ ?_⟩),
    ?_, ?_⟩
  · decide
  · decide
  · decide
  · decide
  · decide

end Sima.Sched
