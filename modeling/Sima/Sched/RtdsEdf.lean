import Sima.Lib.StableInsert
import Sima.Sched.RtdsServer

/-!
# Earliest deadline first

`sched_rtds_pick_next` takes the head of the ready queue, so it is right if the
queue is in the order of the deadlines. The order is threatened wherever a
deadline moves while its server is queued. Mostly the server is taken out and put
back in the same breath, and then all that counts is that the *others* are in
order (`SortedOff`).

The exception is a priority request for the current thread, which the timer may
have left in the ready queue: its deadline moves and it stays where it is until
`rtds_refresh_thread` comes around, while the requests of other threads insert
these into a queue that is out of order. An insertion by comparison could go
wrong there. It does not, because a thread is inserted right after its period was
looked at, and then no deadline is later than its own (`Aligned.latest`): it goes
to the end.
-/

namespace Sima.Sched

open Lib
open Function (update update_eq_self update_of_ne update_self)
open Rtds

namespace Rtds

variable {s s' : Rtds} {c : SchedControl} {t u : Tid} {now : Nat} {d : RtdsData}

/-! ## The order of the ready queue -/

def deadline (s : Rtds) (t : Tid) : Nat := (s.data t).deadlineTicks

def Sorted (s : Rtds) : Prop := SortedBy s.deadline s.readyQueue

/-- Sorted but for `t`. -/
def SortedOff (t : Tid) (s : Rtds) : Prop :=
  SortedBy s.deadline (s.readyQueue.erase t)

theorem Sorted.off (h : Sorted s) (t : Tid) : SortedOff t s := SortedBy.erase h t

theorem SortedOff.sorted (h : SortedOff t s) (hl : Linked s)
    (hq : (s.data t).queue ≠ .ready) : Sorted s := by
  have hnot : t ∉ s.readyQueue := fun hm => hq ((hl.ready t).mp hm)
  rw [SortedOff, List.erase_of_not_mem hnot] at h
  exact h

theorem SortedOff.put (h : SortedOff t s) (hl : Linked s)
    (hqueue : s'.readyQueue.erase t = s.readyQueue.erase t)
    (hdata : s'.data = update s.data t d) : SortedOff t s' := by
  rw [SortedOff, hqueue]
  refine h.congr fun u hu => ?_
  have hne : u ≠ t := fun heq => hl.readyNodup.not_mem_erase (heq ▸ hu)
  rw [deadline, hdata, update_of_ne hne, deadline]

theorem SortedOff.modify (h : SortedOff t s) (hl : Linked s)
    (f : RtdsData → RtdsData) : SortedOff t (s.modify t f) :=
  h.put hl rfl rfl

theorem queueRemove_readyQueue (hl : Linked s) (t : Tid) :
    (queueRemove t s).readyQueue = s.readyQueue.erase t := by
  rw [queueRemove]
  split
  · rfl
  · next hq =>
    have hnone : (s.data t).queue = .none := by simpa using hq
    rw [List.erase_of_not_mem (unqueued_of_linked hl hnone).1]

theorem tagged_deadline (s : Rtds) (t : Tid) (q : RtdsQueue) (u : Tid) :
    (s.tagged t q u).deadlineTicks = (s.data u).deadlineTicks := by
  rw [tagged]
  by_cases hu : u = t
  · rw [hu, update_self]
  · rw [update_of_ne hu]

theorem SortedOff.queueRemove (h : SortedOff t s) (hl : Linked s) : Sorted (queueRemove t s) := by
  rw [Sorted, queueRemove_readyQueue hl]
  refine h.congr fun u _ => ?_
  rw [deadline, queueRemove_data]
  exact tagged_deadline s t .none u

theorem readyInsert_readyQueue (hl : Linked s) (t : Tid) : (readyInsert t s).readyQueue =
    stableInsert s.deadline t (s.readyQueue.erase t) := by
  have hkey : (queueRemove t s).deadline = s.deadline := by
    funext u
    rw [deadline, queueRemove_data]
    exact tagged_deadline s t .none u
  rw [readyInsert_eq, ← queueRemove_readyQueue hl, ← hkey]
  rfl

theorem readyInsert_deadline (hl : Linked s) (t : Tid) :
    (readyInsert t s).deadline = s.deadline := by
  funext u
  rw [deadline, (readyInsert_spec hl t).2]
  exact tagged_deadline s t .ready u

theorem SortedOff.readyInsert (h : SortedOff t s) (hl : Linked s) : Sorted (readyInsert t s) := by
  rw [Sorted, readyInsert_readyQueue hl, readyInsert_deadline hl]
  exact stableInsert_sorted h t

theorem depletedInsert_readyQueue (hl : Linked s) (t : Tid) :
    (depletedInsert t s).readyQueue = s.readyQueue.erase t := by
  have hnot : (s.data t).queue ≠ .ready → s.readyQueue = s.readyQueue.erase t :=
    fun hq => (List.erase_of_not_mem fun hm => hq ((hl.ready t).mp hm)).symm
  rw [depletedInsert]
  split
  · next hq => exact hnot (by rw [hq]; simp)
  · split
    · exact queueRemove_readyQueue hl t
    · next hq => exact hnot hq

theorem SortedOff.depletedInsert (h : SortedOff t s) (hl : Linked s) :
    Sorted (depletedInsert t s) := by
  rw [Sorted, depletedInsert_readyQueue hl]
  refine h.congr fun u _ => ?_
  rw [deadline, (depletedInsert_spec hl t).2]
  exact tagged_deadline s t .depleted u

/-! ## Refreshing sorts -/

/-- Refreshing brings a server to its place, if it competes or is in no queue. -/
theorem SortedOff.refreshThread (h : SortedOff t s) (hl : Linked s) (ht : t ∈ c.threadList)
    (hq : ¬ Contending c.view t → (s.data t).queue = .none) (hok : c.view.Ok)
    (now : Nat) : Sorted (refreshThread c now t s) := by
  have hadv : SortedOff t (advance now t s) := h.modify hl _
  have hladv : Linked (advance now t s) := hl.modify advancePeriod_queue
  simp only [Rtds.refreshThread]
  split
  · next hact =>
    have hnot : ¬ Contending c.view t := fun hc => by simp [hc.active_eq] at hact
    refine hadv.sorted hladv ?_
    simp [advance, hq hnot]
  rename_i hact
  have hc : Contending c.view t := ⟨ht, isActive_iff.mp (by simpa using hact)⟩
  rw [hc.not_blocking hok]
  split
  · exact hadv.readyInsert hladv
  · exact hadv.depletedInsert hladv

/-- The queues in order, sorted, and without the idle thread. -/
structure Ranked (c : SchedControl) (s : Rtds) : Prop where
  all : AllQueued c.view s
  sorted : Sorted s
  idle : (s.data c.idle).queue = .none

theorem QueuesOk.unqueued {v : RunView} {must excused : Tid → Prop}
    (h : QueuesOk v must excused s) (hok : v.Ok) (hne : t ≠ v.idle)
    (hc : ¬ Contending v t) : (s.data t).queue = .none := by
  by_contra hq
  have ht := (h.thread t).member hq
  exact hq ((h.thread t).unqueued hok hne fun hact => hc ⟨ht, hact⟩)

section

variable (h : Ranked c s) (hok : c.view.Ok) (ht : t ∈ c.threadList) (hne : t ≠ c.idle)

include h hok ht hne

theorem Ranked.refreshThread (now : Nat) : Ranked c (refreshThread c now t s) := by
  refine ⟨h.all.refreshThread hok ht now,
    (h.sorted.off t).refreshThread h.all.linked ht (h.all.unqueued hok hne) hok now, ?_⟩
  rw [(refreshThread_spec h.all.linked c now t).2, update_of_ne (Ne.symm hne)]
  exact h.idle

theorem Ranked.refreshReady (now : Nat) : Ranked c (refreshReady c now t s) := by
  have hadv : Linked (advance now t s) := h.all.linked.modify advancePeriod_queue
  have hoff : SortedOff t (advance now t s) := (h.sorted.off t).modify h.all.linked _
  have hrem := hadv.queueRemove t
  refine ⟨h.all.refreshReady hok ht now, ?_, ?_⟩
  · rw [Rtds.refreshReady]
    split
    · refine ((hoff.queueRemove hadv).off t).refreshThread hrem ht (fun _ => ?_) hok now
      simp [queueRemove_data, tagged]
    · exact h.sorted
  · rw [Rtds.refreshReady]
    split
    · rw [(refreshThread_spec hrem c now t).2, update_of_ne (Ne.symm hne),
        queueRemove_data, tagged, update_of_ne (Ne.symm hne), advance,
        modify_data, update_of_ne (Ne.symm hne)]
      exact h.idle
    · exact h.idle

end

theorem Ranked.mem_ready (h : Ranked c s) (ht : t ∈ s.readyQueue) :
    t ∈ c.threadList ∧ t ≠ c.idle := by
  refine ⟨h.all.mem_ready ht, fun heq => ?_⟩
  have := (h.all.linked.ready t).mp ht
  rw [heq, h.idle] at this
  cases this

theorem Ranked.mem_depleted (h : Ranked c s) (ht : t ∈ s.depletedQueue) :
    t ∈ c.threadList ∧ t ≠ c.idle := by
  refine ⟨h.all.mem_depleted ht, fun heq => ?_⟩
  have := (h.all.linked.depleted t).mp ht
  rw [heq, h.idle] at this
  cases this

theorem Ranked.refreshQueues (h : Ranked c s) (hok : c.view.Ok) (now : Nat) :
    Ranked c (refreshQueues c now s) :=
  refreshQueues_rule
    (fun hs hx => hs.mem_ready hx) (fun hx hs => hs.refreshReady hok hx.1 hx.2 now)
    (fun hs hx => hs.mem_depleted hx) (fun hx hs => hs.refreshThread hok hx.1 hx.2 now) h

/-! ## The choice -/

theorem foldl_earliest (key : Tid → Nat) (l : List Tid) (a : Tid) :
    ∃ b, l.foldl (fun best t => match best with
        | none => some t
        | some b => if key t < key b then some t else some b) (some a) = some b ∧
      key b ≤ key a ∧ ∀ t ∈ l, key b ≤ key t := by
  induction l generalizing a with
  | nil => exact ⟨a, rfl, le_rfl, fun t ht => by cases ht⟩
  | cons x l ih =>
    simp only [List.foldl_cons]
    split
    · next hlt =>
      obtain ⟨b, hb, hbx, hl⟩ := ih x
      refine ⟨b, hb, by omega, fun t ht => ?_⟩
      rcases List.mem_cons.mp ht with rfl | ht
      · exact hbx
      · exact hl t ht
    · next hle =>
      obtain ⟨b, hb, hba, hl⟩ := ih a
      refine ⟨b, hb, hba, fun t ht => ?_⟩
      rcases List.mem_cons.mp ht with rfl | ht
      · omega
      · exact hl t ht

theorem earliestDepleted_spec (ht : t ∈ s.depletedQueue) :
    ∃ b, earliestDepleted s = some b ∧ b ∈ s.depletedQueue ∧
      ∀ u ∈ s.depletedQueue, s.deadline b ≤ s.deadline u := by
  have hmin : ∃ b, earliestDepleted s = some b ∧
      ∀ u ∈ s.depletedQueue, s.deadline b ≤ s.deadline u := by
    rw [earliestDepleted]
    cases hl : s.depletedQueue with
    | nil =>
      rw [hl] at ht
      cases ht
    | cons x l =>
      obtain ⟨b, hb, hbx, hbl⟩ := foldl_earliest s.deadline l x
      refine ⟨b, hb, fun u hu => ?_⟩
      rcases List.mem_cons.mp hu with rfl | hu
      · exact hbx
      · exact hbl u hu
  obtain ⟨b, hb, hle⟩ := hmin
  exact ⟨b, hb, mem_of_earliestDepleted hb, hle⟩

/-- `next` is the right one to run if the servers are as in `server`: the
earliest deadline among those with budget, the earliest at all if nobody has
budget, and the idle thread if nobody competes. -/
structure EdfChoice (v : RunView) (server : Tid → RtdsData) (next : Tid) : Prop where
  budget : ∀ t, Contending v t → 0 < (server t).remainingTicks →
    Contending v next ∧ 0 < (server next).remainingTicks ∧
      (server next).deadlineTicks ≤ (server t).deadlineTicks
  slack : (∀ t, Contending v t → (server t).remainingTicks = 0) →
    ∀ t, Contending v t → Contending v next ∧
      (server next).deadlineTicks ≤ (server t).deadlineTicks
  idle : next = v.idle ↔ ∀ t, ¬ Contending v t

theorem EdfChoice.congr {v : RunView} {server server' : Tid → RtdsData} {next : Tid}
    (h : EdfChoice v server next)
    (heq : ∀ t, Contending v t → (server' t).remainingTicks = (server t).remainingTicks ∧
        (server' t).deadlineTicks = (server t).deadlineTicks) : EdfChoice v server' next := by
  refine ⟨fun t ht hpos => ?_, fun hnone t ht => ?_, h.idle⟩
  · obtain ⟨hnext, hrem, hdl⟩ := h.budget t ht (by rw [← (heq t ht).1]; exact hpos)
    rw [(heq t ht).2, (heq next hnext).1, (heq next hnext).2]
    exact ⟨hnext, hrem, hdl⟩
  · obtain ⟨hnext, hdl⟩ := h.slack (fun u hu => by rw [← (heq u hu).1]; exact hnone u hu) t ht
    rw [(heq t ht).2, (heq next hnext).2]
    exact ⟨hnext, hdl⟩

theorem Ranked.contending (h : Ranked c s) (hok : c.view.Ok)
    (hq : (s.data t).queue ≠ .none) : Contending c.view t := by
  by_contra hc
  refine hq (h.all.unqueued hok (fun hi => hq ?_) hc)
  have hidle : t = c.idle := hi
  rw [hidle]
  exact h.idle

theorem Ranked.choose_edf (h : Ranked c s) (hok : c.view.Ok) :
    EdfChoice c.view s.data (choose c s).1 := by
  have hready : ∀ {t}, Contending c.view t → 0 < (s.data t).remainingTicks → t ∈ s.readyQueue := by
    intro t ht hpos
    rw [h.all.linked.ready]
    cases hq : (s.data t).queue with
    | none => exact absurd hq (h.all.queued t ht)
    | ready => rfl
    | depleted => exact absurd ((h.all.fed t id).2 hq) (by omega)
  have hin : ∀ {t}, t ∈ s.readyQueue → Contending c.view t := fun ht =>
    h.contending hok (by rw [(h.all.linked.ready _).mp ht]; simp)
  have hind : ∀ {t}, t ∈ s.depletedQueue → Contending c.view t := fun ht =>
    h.contending hok (by rw [(h.all.linked.depleted _).mp ht]; simp)
  simp only [choose, pickDepletedSlack]
  split
  · next next rest hqueue =>
    have hmem : next ∈ s.readyQueue := by rw [hqueue]; simp
    have hrem : 0 < (s.data next).remainingTicks :=
      (h.all.fed next id).1 ((h.all.linked.ready next).mp hmem)
    have hsorted := h.sorted
    rw [Sorted, hqueue] at hsorted
    obtain ⟨hfirst, -⟩ := List.pairwise_cons.mp hsorted
    refine ⟨fun t ht hpos => ⟨hin hmem, hrem, ?_⟩, fun hnone => ?_, ?_⟩
    · have htq := hready ht hpos
      rw [hqueue] at htq
      rcases List.mem_cons.mp htq with rfl | htq
      · exact le_rfl
      · exact hfirst t htq
    · exact absurd (hnone next (hin hmem)) (by omega)
    · exact iff_of_false (hin hmem).2.1 fun hno => hno next (hin hmem)
  · next hqueue =>
    have hempty : ∀ t, Contending c.view t → (s.data t).remainingTicks = 0 := by
      intro t ht
      by_contra hpos
      have := hready ht (by omega)
      rw [hqueue] at this
      cases this
    have hdepl : ∀ {t}, Contending c.view t → t ∈ s.depletedQueue := by
      intro t ht
      rw [h.all.linked.depleted]
      cases hq : (s.data t).queue with
      | none => exact absurd hq (h.all.queued t ht)
      | depleted => rfl
      | ready =>
        have := (h.all.linked.ready t).mpr hq
        rw [hqueue] at this
        cases this
    cases hslack : earliestDepleted s with
    | some next =>
      have hmem := mem_of_earliestDepleted hslack
      refine ⟨fun t ht hpos => absurd (hempty t ht) (by omega), fun _ t ht => ⟨hind hmem, ?_⟩,
        iff_of_false (hind hmem).2.1 fun hno => hno next (hind hmem)⟩
      obtain ⟨b, hb, -, hle⟩ := earliestDepleted_spec hmem
      rw [hslack] at hb
      injection hb with hb
      rw [hb]
      exact hle t (hdepl ht)
    | none =>
      have hno : ∀ t, ¬ Contending c.view t := by
        intro t ht
        obtain ⟨b, hb, -⟩ := earliestDepleted_spec (hdepl ht)
        rw [hslack] at hb
        cases hb
      exact ⟨fun t ht => absurd ht (hno t), fun _ t ht => absurd ht (hno t), iff_of_true rfl hno⟩

theorem Ranked.choose_sorted (h : Ranked c s) : Sorted (choose c s).2 := by
  simp only [choose, pickDepletedSlack]
  split
  · exact (h.sorted.off _).queueRemove h.all.linked
  · cases earliestDepleted s with
    | some t => exact (h.sorted.off t).queueRemove h.all.linked
    | none => exact h.sorted

theorem queueRemove_unqueued (h : (s.data u).queue = .none) :
    ((queueRemove t s).data u).queue = .none := by
  rw [queueRemove_data, tagged]
  by_cases hu : u = t
  · rw [hu, update_self]
  · rw [update_of_ne hu]
    exact h

theorem choose_unqueued (h : (s.data u).queue = .none) :
    ((choose c s).2.data u).queue = .none := by
  simp only [choose, pickDepletedSlack]
  split
  · exact queueRemove_unqueued h
  · cases earliestDepleted s with
    | some t => exact queueRemove_unqueued h
    | none => exact h

/-! ## What the choice goes by -/

/-- A server as `sched_rtds_pick_next` takes it into account: it has paid for its
run time, and begun a new period if the last one is over. -/
def due (c : SchedControl) (now : Nat) (s : Rtds) (t : Tid) : RtdsData :=
  (advancePeriod now ((accountRuntime c now t s).data t)).2

theorem accountRuntime_of_not_current (hok : c.view.Ok) (ht : t ∈ c.threadList)
    (hcur : c.currObj ≠ some t) : accountRuntime c now t s = s := by
  have hrun : (c.obj t).status ≠ .running := fun hr => hcur ((hok.running t ht).mp hr)
  rw [accountRuntime]
  simp [hrun]

section

variable (h : QueuesOk c.view (Waiting c.view) (Charged c.view) s) (hok : c.view.Ok)
  (ht : Contending c.view t)

include h hok ht

theorem chargeCurrent_data :
    refreshed c now t ((chargeCurrent c now s).data t) =
      refreshed c now t ((accountRuntime c now t s).data t) := by
  by_cases hcur : c.currObj = some t
  · have hidle : c.isIdleThread t = false := by simpa [SchedControl.isIdleThread] using ht.2.1
    obtain ⟨d, hl, hdata, -, -, hp, -⟩ := accountRuntime_spec h.linked c now t
    have hd : (accountRuntime c now t s).data t = d := by simp [hdata]
    have hpos : 0 < ((accountRuntime c now t s).data t).periodTicks := by
      rw [hd, hp]
      exact ((h.thread t).granted ht.1).2
    simp only [chargeCurrent, hcur, hidle, Bool.false_eq_true, if_false]
    rw [(refreshThread_spec hl c now t).2, update_self]
    -- looking at the period twice at the same time changes nothing
    nth_rewrite 2 [refreshed_eq ht hok]
    exact refreshed_idem ht hok hpos
  · rw [accountRuntime_of_not_current hok ht.1 hcur, chargeCurrent]
    split
    · rfl
    rename_i u hu
    split
    · rfl
    · have hne : t ≠ u := fun heq => hcur (heq ▸ hu)
      obtain ⟨d, hl, hdata, -⟩ := accountRuntime_spec h.linked c now u
      rw [(refreshThread_spec hl c now u).2, update_of_ne hne, hdata, update_of_ne hne]

theorem refreshed_due :
    let s' := refreshQueues c now (chargeCurrent c now s)
    (s'.data t).remainingTicks = (due c now s t).remainingTicks ∧
      (s'.data t).deadlineTicks = (due c now s t).deadlineTicks := by
  simp only
  rw [refreshQueues_data (h.chargeCurrent hok now) hok ht,
    chargeCurrent_data h hok ht, refreshed_eq ht hok]
  exact ⟨rfl, rfl⟩

end

/-! ## Before the choice -/

/-- Between the priority requests and `pick_next`: the current thread may be out
of place. -/
structure MidRanked (period now : Nat) (v : RunView) (s : Rtds) : Prop where
  queues : QueuesOk v (Waiting v) (Charged v) s
  sorted : ∀ t, v.currObj = some t → SortedOff t s
  aligned : AllAligned period now v.threadList s
  idle : (s.data v.idle).queue = .none

variable {period hi : Nat} {v : RunView} {caller : Caller}

/-- `t` goes to the end, since no deadline is later; the current thread `u` may
be anywhere. -/
theorem readyInsert_latest (hl : Linked s) (hne : u ≠ t)
    (h : SortedBy s.deadline ((s.readyQueue.erase u).erase t))
    (hlatest : ∀ b ∈ s.readyQueue, s.deadline b ≤ s.deadline t) :
    SortedOff u (readyInsert t s) := by
  have hle : ∀ b ∈ s.readyQueue.erase t, s.deadline b ≤ s.deadline t :=
    fun b hb => hlatest b (List.mem_of_mem_erase hb)
  have hqueue : ((readyInsert t s).readyQueue).erase u =
      (s.readyQueue.erase t).erase u ++ [t] := by
    rw [readyInsert_readyQueue hl, stableInsert_greatest hle, List.erase_append]
    split
    · rfl
    · next hu =>
      have ht : u ∉ [t] := by simpa using hne
      rw [List.erase_of_not_mem ht, List.erase_of_not_mem hu]
  rw [SortedOff, hqueue, readyInsert_deadline hl, List.erase_comm]
  refine List.pairwise_append.mpr ⟨h, List.pairwise_singleton _ t, fun b hb x hx => ?_⟩
  rw [List.mem_singleton.mp hx]
  exact hlatest b (List.mem_of_mem_erase (List.mem_of_mem_erase hb))

theorem MidRanked.advance_linked (h : MidRanked period now v s) (t : Tid) :
    Linked (advance now t s) :=
  h.queues.linked.modify advancePeriod_queue

theorem MidRanked.advance_aligned (h : MidRanked period now v s) (hp : 0 < period)
    (t : Tid) : AllAligned period now v.threadList (advance now t s) :=
  each_update (Q := fun t d => t ∈ v.threadList → Aligned period now d) h.aligned rfl
    fun ht => (h.aligned t ht).advance hp (le_refl now)

section

variable (h : MidRanked period now c.view s) (hp : 0 < period) (ht : t ∈ c.threadList)

include h hp ht

theorem MidRanked.prioritize_sorted (hcur : c.currObj = some u) (hnow : caller.ticks 0 = now) :
    SortedOff u (prioritize c caller t s) := by
  subst hnow
  have hsorted := h.sorted u hcur
  have hgrant := (h.queues.thread t).granted ht
  simp only [prioritize, isCurrent, hcur]
  by_cases hut : u = t
  · -- it stays where it is, with another deadline
    subst hut
    simpa [advance] using hsorted.modify h.queues.linked _
  rw [beq_eq_false_iff_ne.mpr (by simpa using hut)]
  split
  · have hladv := h.advance_linked t
    have hadv := h.advance_aligned hp t
    refine readyInsert_latest hladv hut ((hsorted.erase t).congr fun b hb => ?_) fun b hb => ?_
    · have hbt : b ≠ t := fun heq =>
        (h.queues.linked.readyNodup.erase u).not_mem_erase (heq ▸ hb)
      simp [advance, deadline, hbt]
    have hbt : b ∈ c.threadList := (h.queues.thread b).member (by
      rw [(h.queues.linked.ready b).mp hb]; simp)
    refine (hadv t ht).latest hp (hadv b hbt) ?_
    simpa [advance] using lt_advancePeriod_deadline hgrant.2 (caller.ticks 0)
  · next hrem =>
    -- without budget there was no new period
    rcases advancePeriod_remaining (caller.ticks 0) (s.data t) with hsame | hnew
    · rw [advance, modify, hsame, update_eq_self]
      exact hsorted
    · refine absurd ?_ hrem
      simpa [advance, hnew] using hgrant.1

theorem MidRanked.prioritize (hne : t ≠ c.idle)
    (hnot : ¬ (c.view.status t = .blocked ∨ c.view.beBlocking t = true))
    (hnow : caller.ticks 0 = now) : MidRanked period now c.view (prioritize c caller t s) := by
  refine ⟨h.queues.prioritize ht hnot caller,
    fun u hu => h.prioritize_sorted hp ht hu hnow, ?_, ?_⟩
  · have hadv := h.advance_aligned hp t
    subst hnow
    rw [prioritize]
    split
    · exact (survives_aligned hp le_rfl).readyInsert hadv (h.advance_linked t)
    · exact hadv
  subst hnow
  have hother : (advance (caller.ticks 0) t s).data c.idle = s.data c.idle := by
    simp [advance, Ne.symm hne]
  rw [prioritize]
  split
  · rw [(readyInsert_spec (h.advance_linked t) t).2, tagged,
      SchedControl.view_idle, update_of_ne (Ne.symm hne), hother]
    exact h.idle
  · rw [SchedControl.view_idle, hother]
    exact h.idle

end

theorem MidRanked.chargeCurrent (h : MidRanked period now c.view s)
    (hok : c.view.Ok) (hcur : c.currObj ≠ none) (n : Nat) : Ranked c (chargeCurrent c n s) := by
  obtain ⟨t, ht⟩ := Option.ne_none_iff_exists'.mp hcur
  have hmem : t ∈ c.threadList := hok.current t ht
  have hall := h.queues.chargeCurrent hok n
  by_cases hidle : t = c.idle
  · have heq : Rtds.chargeCurrent c n s = s := by
      simp [Rtds.chargeCurrent, ht, SchedControl.isIdleThread, hidle]
    rw [heq] at hall ⊢
    refine ⟨hall, (h.sorted t ht).sorted h.queues.linked ?_, h.idle⟩
    have := h.idle
    rw [hidle]
    simp only [SchedControl.view_idle] at this
    rw [this]
    simp
  have heq : Rtds.chargeCurrent c n s =
      Rtds.refreshThread c n t (Rtds.accountRuntime c n t s) := by
    simp [Rtds.chargeCurrent, ht, SchedControl.isIdleThread, hidle]
  obtain ⟨d, hl, hdata, hq, -⟩ := accountRuntime_spec h.queues.linked c n t
  have hoff : SortedOff t (accountRuntime c n t s) := by
    refine (h.sorted t ht).put h.queues.linked ?_ hdata
    rw [accountRuntime]
    split <;> rfl
  rw [heq] at hall ⊢
  refine ⟨hall, hoff.refreshThread hl hmem (fun hc => ?_) hok n, ?_⟩
  · rw [hdata, update_self, hq]
    exact h.queues.unqueued hok hidle hc
  · rw [(refreshThread_spec hl c n t).2, update_of_ne (Ne.symm hidle), hdata,
      update_of_ne (Ne.symm hidle)]
    exact h.idle

/-! ## While the lock is free -/

/-- The ready queue is sorted, the deadlines are boundaries, and the idle thread
is not queued. -/
structure EdfOk (period now : Nat) (v : RunView) (s : Rtds) : Prop where
  sorted : Sorted s
  aligned : AllAligned period now v.threadList s
  idle : (s.data v.idle).queue = .none

variable (h : EdfOk period now v s)

include h

theorem EdfOk.midRanked (hfree : LockFree v s) : MidRanked period now v s :=
  ⟨hfree.weaken (fun _ => id) fun _ hf => hf.elim, fun t _ => h.sorted.off t, h.aligned, h.idle⟩

omit h in
theorem MidRanked.later (h : MidRanked period now v s) (hle : now ≤ hi) :
    MidRanked period hi v s :=
  ⟨h.queues, h.sorted, h.aligned.later hle, h.idle⟩

theorem EdfOk.later (hle : now ≤ hi) : EdfOk period hi v s :=
  ⟨h.sorted, h.aligned.later hle, h.idle⟩

/-- The timer, and what only the timer needs, are no part of it. -/
theorem EdfOk.congr (hready : s'.readyQueue = s.readyQueue)
    (hdata : ∀ t, (s'.data t).deadlineTicks = (s.data t).deadlineTicks ∧
      (s'.data t).periodTicks = (s.data t).periodTicks ∧
      (s'.data t).queue = (s.data t).queue) : EdfOk period now v s' := by
  refine ⟨?_, fun t ht => ?_, by rw [(hdata _).2.2]; exact h.idle⟩
  · rw [Sorted, hready]
    exact h.sorted.congr fun t _ => (hdata t).1
  · obtain ⟨hs, hb, hn, hz⟩ := h.aligned t ht
    obtain ⟨hd, hp, -⟩ := hdata t
    exact ⟨by rw [hp]; exact hs, by rw [hd]; exact hb, by rw [hd]; exact hn, by rw [hd]; exact hz⟩

theorem EdfOk.programTimer (caller : Caller)
    (running : Option Tid) : EdfOk period now v (programTimer c caller running s) :=
  h.congr (programTimer_readyQueue c caller running s) fun t => by
    rw [programTimer_data]
    exact ⟨rfl, rfl, rfl⟩

theorem EdfOk.lastStart (t : Tid) (n : Nat) :
    EdfOk period now v (s.modify t fun d => { d with lastStartTicks := n }) :=
  h.congr rfl fun u => by
    by_cases hu : u = t
    · subst hu
      simp
    · simp [hu]

omit h in
/-- The queues after the current thread was charged and everybody refreshed. -/
theorem MidRanked.refresh (h : MidRanked period hi c.view s) (hp : 0 < period)
    (hok : c.view.Ok) (hcur : c.currObj ≠ none) (hle : now ≤ hi) :
    Ranked c (refreshQueues c now (Rtds.chargeCurrent c now s)) ∧
      AllAligned period hi c.threadList (refreshQueues c now (Rtds.chargeCurrent c now s)) := by
  have hcharged := h.chargeCurrent hok hcur now
  refine ⟨hcharged.refreshQueues hok now, ?_⟩
  have hsurv := survives_aligned (l := c.threadList) hp hle
  refine hsurv.refreshQueues ?_ hcharged.all hok
  rw [Rtds.chargeCurrent]
  split
  · exact h.aligned
  rename_i t _
  split
  · exact h.aligned
  obtain ⟨-, hl, -⟩ := accountRuntime_spec h.queues.linked c now t
  refine hsurv.refreshThread ?_ hl
  rw [accountRuntime]
  split
  · exact h.aligned
  refine each_update (Q := fun t d => t ∈ c.threadList → Aligned period hi d)
    h.aligned rfl fun ht => ?_
  obtain ⟨hs, hb, hn, hz⟩ := h.aligned t ht
  exact ⟨hs, hb, hn, hz⟩

omit h in
theorem MidRanked.pickNext (h : MidRanked period hi c.view s) (hp : 0 < period)
    (hok : c.view.Ok) (hcur : c.currObj ≠ none) (caller : Caller) (hle : caller.ticks 0 ≤ hi) :
    EdfChoice c.view (due c (caller.ticks 0) s) (pickNext c caller s).1 ∧
      EdfOk period hi c.view (pickNext c caller s).2 := by
  obtain ⟨hranked, haligned⟩ := h.refresh hp hok hcur hle
  have hchoice : EdfChoice c.view (due c (caller.ticks 0) s)
      (choose c (refreshQueues c (caller.ticks 0)
        (Rtds.chargeCurrent c (caller.ticks 0) s))).1 := by
    refine (hranked.choose_edf hok).congr fun t ht => ?_
    obtain ⟨hr, hd⟩ := refreshed_due h.queues hok ht
    exact ⟨hr.symm, hd.symm⟩
  have hedf : EdfOk period hi c.view (choose c (refreshQueues c (caller.ticks 0)
        (Rtds.chargeCurrent c (caller.ticks 0) s))).2 := by
    exact ⟨hranked.choose_sorted, (survives_aligned hp hle).choose haligned,
      choose_unqueued hranked.idle⟩
  simp only [Rtds.pickNext]
  refine ⟨hchoice, EdfOk.programTimer ?_ caller _⟩
  split
  · exact hedf.lastStart _ _
  · exact hedf

omit h in
theorem EdfOk.timerHandler (h : EdfOk period hi c.view s) (hfree : LockFree c.view s)
    (hp : 0 < period) (hok : c.view.Ok) (hcur : c.currObj ≠ none) {ticks : Nat → Nat}
    (hle : ticks 0 ≤ hi) : EdfOk period hi c.view (timerHandler c ticks s).2 := by
  have hmid : MidRanked period hi c.view { s with tickTimer := none } :=
    EdfOk.midRanked (h.congr rfl fun _ => ⟨rfl, rfl, rfl⟩) (hfree.timer none)
  obtain ⟨hranked, haligned⟩ := hmid.refresh hp hok hcur hle
  exact ⟨hranked.sorted, haligned, hranked.idle⟩

/-- `t` changes and is in no queue after that. -/
theorem EdfOk.unqueue (hl : Linked s) (hl' : Linked s')
    (hqueue : s'.readyQueue.erase t = s.readyQueue.erase t)
    (hdata : s'.data = update s.data t d) (hq : d.queue = .none)
    (ht : t ∈ v.threadList → Aligned period now d) : EdfOk period now v s' := by
  refine ⟨((h.sorted.off t).put hl hqueue hdata).sorted hl' ?_,
    each_update (Q := fun t d => t ∈ v.threadList → Aligned period now d) h.aligned hdata ht, ?_⟩
  · rw [hdata, update_self, hq]
    simp
  rw [hdata]
  by_cases hi : v.idle = t
  · rw [hi, update_self]
    exact hq
  · rw [update_of_ne hi]
    exact h.idle

theorem EdfOk.view {v' : RunView}
    (hlist : v'.threadList = v.threadList) (hidle : v'.idle = v.idle) : EdfOk period now v' s :=
  ⟨h.sorted, by rw [hlist]; exact h.aligned, by rw [hidle]; exact h.idle⟩

theorem EdfOk.accountRuntime (n : Nat) (t : Tid) :
    EdfOk period now v (accountRuntime c n t s) := by
  rw [Rtds.accountRuntime]
  split
  · exact h
  refine h.congr rfl fun u => ?_
  by_cases hu : u = t
  · subst hu
    simp
  · simp [hu]

theorem EdfOk.queueRemove (hl : Linked s) (hp : 0 < period)
    (t : Tid) : EdfOk period now v (queueRemove t s) :=
  ⟨(h.sorted.off t).queueRemove hl, (survives_aligned hp (le_refl now)).queueRemove h.aligned,
    queueRemove_unqueued h.idle⟩

omit h in
theorem EdfOk.sleep (h : EdfOk period now c.view s) (hfree : LockFree c.view s)
    (hp : 0 < period) (t : Tid) (caller : Caller) :
    EdfOk period now (c.view.sleep t) (sleep c caller t s) := by
  have hoff := RunView.sleep_sameOff c.view t
  refine (EdfOk.programTimer (EdfOk.lastStart ?_ t 0) caller _).view hoff.threadList hoff.idle
  obtain ⟨-, hl, -⟩ := accountRuntime_spec hfree.linked c (caller.ticks 0) t
  split
  · exact (h.accountRuntime _ t).queueRemove hl hp t
  · exact h.queueRemove hfree.linked hp t

theorem EdfOk.enqueue (hl : Linked s) (hp : 0 < period) (hne : t ≠ v.idle) : EdfOk period now v
    (if (s.data t).remainingTicks > 0 then readyInsert t s else depletedInsert t s) := by
  have hsurv := survives_aligned (l := v.threadList) hp (le_refl now)
  split
  · refine ⟨(h.sorted.off t).readyInsert hl, hsurv.readyInsert h.aligned hl, ?_⟩
    rw [(readyInsert_spec hl t).2, tagged, update_of_ne (Ne.symm hne)]
    exact h.idle
  · refine ⟨(h.sorted.off t).depletedInsert hl, hsurv.depletedInsert h.aligned hl, ?_⟩
    rw [(depletedInsert_spec hl t).2, tagged, update_of_ne (Ne.symm hne)]
    exact h.idle

omit h

theorem EdfOk.wake (h : EdfOk period now c.view s) (hfree : LockFree c.view s) (hp : 0 < period)
    (hne : t ≠ c.idle) (hpark : c.view.status t = .blocked ∨ c.view.beBlocking t = true)
    (hle : caller.ticks 0 ≤ now) : EdfOk period now (c.view.wake t) (wake c caller t s) := by
  have hoff := RunView.wake_sameOff c.view t
  have hnone := (hfree.thread t).parked hne hpark
  have hadv : Linked (advance (caller.ticks 0) t s) := hfree.linked.modify advancePeriod_queue
  have hl : Linked ((advance (caller.ticks 0) t s).modify t fun d =>
      { d with lastStartTicks := 0 }) := hadv.modify rfl
  have hfresh : EdfOk period now c.view ((advance (caller.ticks 0) t s).modify t
      fun d => { d with lastStartTicks := 0 }) := by
    refine .lastStart (h.unqueue hfree.linked hadv rfl rfl ?_ fun ht => ?_) t 0
    · simpa using hnone
    · exact (h.aligned t ht).advance hp hle
  exact ((hfresh.enqueue hl hp hne).programTimer caller _).view hoff.threadList hoff.idle

end Rtds

/-- `sched_rtds_init_data` gives this period to every server. -/
def rtdsPeriodTicks (khz : Nat) : Nat :=
  usToTicks khz (max rtdsDefaultPeriodUs rtdsMinPeriodUs)

variable {khz : Nat}

theorem rtdsPeriodTicks_pos (hkhz : 0 < khz) : 0 < rtdsPeriodTicks khz := by
  have heq : rtdsPeriodTicks khz = 4000 * khz / 1000 := rfl
  omega

open Rtds in
theorem Rtds.EdfOk.initData {hi : Nat} {c : SchedControl} {s : Rtds} {t : Tid} {caller : Caller}
    (h : EdfOk (rtdsPeriodTicks khz) hi c.view s) (hfree : LockFree c.view s)
    (hp : 0 < rtdsPeriodTicks khz) (ht : t ∉ c.threadList) (hle : caller.ticks 0 ≤ hi) :
    EdfOk (rtdsPeriodTicks khz) hi (c.view.init t) (initData khz c caller t s) := by
  have hnone : (s.data t).queue = .none := by
    by_contra hq
    exact ht ((hfree.thread t).member hq)
  have hnew : Aligned (rtdsPeriodTicks khz) hi ((Rtds.initData khz c caller t s).data t) := by
    have hd : (Rtds.initData khz c caller t s).data t = _ := update_self t _ s.data
    rw [hd]
    refine ⟨rfl, ?_, ?_, ?_⟩
    · show rtdsPeriodTicks khz ∣ rtdsNextPeriodBoundary _ (rtdsPeriodTicks khz)
      rw [rtdsNextPeriodBoundary, if_neg (by omega)]
      exact dvd_mul_left _ _
    · show rtdsNextPeriodBoundary _ (rtdsPeriodTicks khz) ≤ _
      rw [rtdsNextPeriodBoundary, if_neg (by omega)]
      exact Nat.mul_le_mul_right _ (Nat.add_le_add_right (Nat.div_le_div_right hle) 1)
    · show 0 < rtdsNextPeriodBoundary _ (rtdsPeriodTicks khz)
      rw [rtdsNextPeriodBoundary, if_neg (by omega)]
      exact Nat.mul_pos (Nat.succ_pos _) hp
  have hl : Linked (Rtds.initData khz c caller t s) := by
    rw [Rtds.initData]
    exact hfree.linked.modify hnone.symm
  have hold := h.unqueue hfree.linked hl rfl rfl rfl fun hm => absurd hm ht
  refine ⟨hold.sorted, fun u hu => ?_, hold.idle⟩
  rcases List.mem_append.mp hu with hu | hu
  · exact hold.aligned u hu
  · rw [List.mem_singleton.mp hu]
    exact hnew

end Sima.Sched
