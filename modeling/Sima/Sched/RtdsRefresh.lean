import Sima.Sched.RtdsQueues

/-!
# The walks over the queues

`rtds_refresh_queues` walks over two lists while it moves their elements about.
A server whose period is over goes behind the others with its new deadline, and
may be met again there; but then its deadline is in the future and nothing is
done. So each walk treats the servers that were overdue at its start, once and
in list order, and it ends.
-/

namespace Sima.Sched

open Lib

namespace Rtds

variable {s : Rtds} {c : SchedControl} {t u : Tid} {now : Nat}

/-- The period of the server is over. -/
def overdue (now : Nat) (s : Rtds) (t : Tid) : Bool :=
  decide ((s.data t).deadlineTicks ≤ now)

theorem advancePeriod_overdue (now : Nat) (s : Rtds) (t : Tid) :
    (advancePeriod now (s.data t)).1 = overdue now s t := by
  rw [advancePeriod, overdue]
  split
  · next h => simpa using h
  · next h => simpa using h

theorem lt_advancePeriod_deadline {d : RtdsData} (h : 0 < d.periodTicks)
    (now : Nat) : now < (advancePeriod now d).2.deadlineTicks := by
  rw [advancePeriod]
  split
  · next hlt => exact hlt
  rename_i hlt
  show now < d.deadlineTicks + ((now - d.deadlineTicks) / d.periodTicks + 1) * d.periodTicks
  have hdiv := Nat.lt_div_mul_add h (a := now - d.deadlineTicks)
  rw [add_mul]
  omega

theorem refreshed_deadline (c : SchedControl) (now : Nat) (t : Tid) (d : RtdsData) :
    (refreshed c now t d).deadlineTicks = (advancePeriod now d).2.deadlineTicks := by
  rw [refreshed]
  split
  · rfl
  · split
    · rfl
    · split <;> rfl

/-! ## Only the one server moves -/

/-- Apart from `t` the queues are as they were. -/
def Kept (t : Tid) (s s' : Rtds) : Prop :=
  s'.readyQueue.erase t = s.readyQueue.erase t ∧ s'.depletedQueue.erase t = s.depletedQueue.erase t

theorem Kept.trans {s' s'' : Rtds} (h : Kept t s s') (h' : Kept t s' s'') : Kept t s s'' :=
  ⟨h'.1.trans h.1, h'.2.trans h.2⟩

theorem Kept.modify (s : Rtds) (t : Tid) (f : RtdsData → RtdsData) : Kept t s (s.modify t f) :=
  ⟨rfl, rfl⟩

variable (h : Linked s)

include h

theorem Kept.queueRemove (t : Tid) : Kept t s (queueRemove t s) := by
  rw [Rtds.queueRemove]
  split
  · have hready : t ∉ s.readyQueue.erase t := h.readyNodup.not_mem_erase
    have hdepl : t ∉ s.depletedQueue.erase t := h.depletedNodup.not_mem_erase
    exact ⟨List.erase_of_not_mem hready, List.erase_of_not_mem hdepl⟩
  · exact ⟨rfl, rfl⟩

theorem Kept.enqueueReady (hq : (s.data t).queue = .none) :
    Kept t s { s.modify t fun d => { d with queue := .ready } with
      readyQueue := s.edfInsert t } := by
  obtain ⟨hready, -⟩ := unqueued_of_linked h hq
  refine ⟨?_, rfl⟩
  show (s.edfInsert t).erase t = s.readyQueue.erase t
  rw [edfInsert, List.erase_orderedInsert_of_notMem hready, List.erase_of_not_mem hready]

theorem Kept.enqueueDepleted (hq : (s.data t).queue = .none) :
    Kept t s { s.modify t fun d => { d with queue := .depleted } with
      depletedQueue := s.depletedQueue ++ [t] } := by
  obtain ⟨-, hdepl⟩ := unqueued_of_linked h hq
  refine ⟨rfl, ?_⟩
  show (s.depletedQueue ++ [t]).erase t = s.depletedQueue.erase t
  rw [List.erase_append_right _ hdepl, List.erase_of_not_mem hdepl]
  simp

theorem Kept.readyInsert (t : Tid) : Kept t s (readyInsert t s) := by
  rw [readyInsert_eq]
  exact (Kept.queueRemove h t).trans (Kept.enqueueReady (h.queueRemove t) (queueRemove_queue t s))

theorem Kept.depletedInsert (t : Tid) : Kept t s (depletedInsert t s) := by
  by_cases hq : (s.data t).queue = .depleted
  · rw [Rtds.depletedInsert, if_pos hq]
    exact ⟨rfl, rfl⟩
  · rw [depletedInsert_eq hq]
    exact (Kept.queueRemove h t).trans
      (Kept.enqueueDepleted (h.queueRemove t) (queueRemove_queue t s))

theorem Kept.refreshThread (c : SchedControl) (now : Nat) (t : Tid) :
    Kept t s (refreshThread c now t s) := by
  have hadv : Linked (advance now t s) := h.modify advancePeriod_queue
  have hkept : Kept t s (advance now t s) := Kept.modify s t _
  simp only [Rtds.refreshThread]
  split
  · exact hkept
  split
  · exact hkept.trans (Kept.readyInsert hadv t)
  · split
    · exact hkept.trans (Kept.depletedInsert hadv t)
    · exact hkept

omit h

/-! ## The two bodies -/

theorem advance_of_not_overdue (h : overdue now s t = false) : advance now t s = s := by
  have hlt : now < (s.data t).deadlineTicks := by simpa [overdue] using h
  rw [advance, modify, advancePeriod, if_pos hlt, Function.update_eq_self]

theorem refreshReady_spec (h : Linked s) (hod : overdue now s t = true) :
    Linked (refreshReady c now t s) ∧ Kept t s (refreshReady c now t s) ∧
      ∃ d, (refreshReady c now t s).data = Function.update s.data t d ∧
        (0 < (s.data t).periodTicks → now < d.deadlineTicks) := by
  have hadv : Linked (advance now t s) := h.modify advancePeriod_queue
  have hrem := hadv.queueRemove t
  obtain ⟨hl, hdata⟩ := refreshThread_spec hrem c now t
  rw [refreshReady, advancePeriod_overdue, if_pos hod]
  refine ⟨hl, ((Kept.modify s t _).trans (Kept.queueRemove hadv t)).trans
    (Kept.refreshThread hrem c now t),
    refreshed c now t ((queueRemove t (advance now t s)).data t), ?_, fun hp => ?_⟩
  · rw [hdata, queueRemove_data, tagged]
    simp [advance]
  · rw [refreshed_deadline]
    refine lt_advancePeriod_deadline ?_ now
    simpa [queueRemove_data, tagged, advance] using hp

theorem refreshReady_settles (hok : c.view.Ok) (now : Nat) :
    Settles readyQueue (refreshReady c now) (overdue now) (AllQueued c.view) where
  nodup h := h.linked.readyNodup
  inv h hx := h.refreshReady hok (h.mem_ready hx) now
  rest _ _ hst := by
    rw [refreshReady, advancePeriod_overdue, hst]
    rfl
  settled {s x} h hx := by
    cases hod : overdue now s x with
    | false =>
      rw [refreshReady, advancePeriod_overdue, hod]
      exact hod
    | true =>
      obtain ⟨-, -, d, hdata, hd⟩ := refreshReady_spec h.linked hod
      have hp := ((h.thread x).granted (h.mem_ready hx)).2
      rw [overdue, hdata, Function.update_self]
      simpa using hd hp
  others {s x y} h _ hne := by
    cases hod : overdue now s x with
    | false =>
      rw [refreshReady, advancePeriod_overdue, hod]
      rfl
    | true =>
      obtain ⟨-, -, d, hdata, -⟩ := refreshReady_spec h.linked hod
      rw [overdue, hdata, Function.update_of_ne hne, overdue]
  place {s x} h _ := by
    cases hod : overdue now s x with
    | false =>
      rw [refreshReady, advancePeriod_overdue, hod]
      rfl
    | true => exact (refreshReady_spec h.linked hod).2.1.1

theorem refreshDepleted_settles (hok : c.view.Ok) (now : Nat) :
    Settles depletedQueue (refreshThread c now) (overdue now) (AllQueued c.view) where
  nodup h := h.linked.depletedNodup
  inv h hx := h.refreshThread hok (h.mem_depleted hx) now
  rest {s x} h hx hst := by
    have hq := (h.linked.depleted x).mp hx
    have hrem := (h.fed x id).2 hq
    -- nothing to replenish, and it is in the queue it would go to
    simp only [refreshThread, advance_of_not_overdue hst, hrem, depletedInsert, hq]
    simp
  settled {s x} h hx := by
    obtain ⟨-, hdata⟩ := refreshThread_spec h.linked c now x
    have hp := ((h.thread x).granted (h.mem_depleted hx)).2
    rw [overdue, hdata, Function.update_self, refreshed_deadline]
    simpa using lt_advancePeriod_deadline hp now
  others {s x y} h _ hne := by
    obtain ⟨-, hdata⟩ := refreshThread_spec h.linked c now x
    rw [overdue, hdata, Function.update_of_ne hne, overdue]
  place {s x} h _ := (Kept.refreshThread h.linked c now x).2

/-- What `rtds_refresh_queues` comes to: the overdue servers of the ready queue
begin a new period, then those of the depleted queue. -/
theorem refreshQueues_eq (h : AllQueued c.view s) (hok : c.view.Ok) (now : Nat) :
    refreshQueues c now s =
      (let s := (s.readyQueue.filter (overdue now s)).foldl (fun s t => refreshReady c now t s) s
      (s.depletedQueue.filter (overdue now s)).foldl (fun s t => refreshThread c now t s) s) := by
  have hfuel : ∀ (s : Rtds) (l : List Tid),
      l.length + (l.filter (overdue now s)).length ≤ 2 * l.length := by
    intro s l
    have := List.length_filter_le (overdue now s) l
    omega
  have hready := forEachSafe_eq_foldl (refreshReady_settles hok now) (A := []) h rfl
    (hfuel s s.readyQueue)
  have hmid := walkReady_rule (fun hs hx => hs.mem_ready hx)
    (fun hx hs => hs.refreshReady hok hx now) h
  rw [hready] at hmid
  rw [refreshQueues, hready]
  exact forEachSafe_eq_foldl (refreshDepleted_settles hok now) (A := []) hmid rfl (hfuel _ _)

end Rtds

end Sima.Sched
