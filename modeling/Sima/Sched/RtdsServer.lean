import Sima.Sched.Clock
import Sima.Sched.RtdsRefresh

/-!
# One server through a call

A call of an RTDS hook may touch many servers, but what it does to one of them
is little: the tag is written, run time is paid for, a new period begins. So a
property of servers, each by itself, that survives these survives the call, and
what `rtds_refresh_queues` makes of a server that competes can be said without
the queues (`refreshQueues_data`).

All servers are set up with the same period, and every deadline is a boundary of
it. `Aligned` says so, and that no deadline is further away than the next
boundary. Hence a server whose period was just looked at has the latest deadline
of all.
-/

namespace Sima.Sched

open Lib

namespace Rtds

variable {s : Rtds} {c : SchedControl} {t u : Tid} {now : Nat} {d : RtdsData}

/-! ## Each server by itself -/

/-- A property of servers that survives a look at the period at `now`. -/
structure Survives (now : Nat) (Q : Tid → RtdsData → Prop) : Prop where
  tag : ∀ {t d} (q : RtdsQueue), Q t d → Q t { d with queue := q }
  advance : ∀ {t d}, Q t d → Q t (advancePeriod now d).2

variable {Q : Tid → RtdsData → Prop}

theorem each_update (h : ∀ t, Q t (s.data t)) {s' : Rtds}
    (hdata : s'.data = Function.update s.data u d) (hu : Q u d) (t : Tid) : Q t (s'.data t) := by
  rw [hdata]
  exact (Function.forall_update_iff s.data Q).mpr ⟨hu, fun t _ => h t⟩ t

variable (hQ : Survives now Q) {q : RtdsQueue}

include hQ

theorem Survives.refreshed (h : Q t d) : Q t (refreshed c now t d) := by
  have hadv := hQ.advance h
  rw [Rtds.refreshed]
  split
  · exact hadv
  split
  · exact hQ.tag .ready hadv
  · split
    · exact hQ.tag .depleted hadv
    · exact hadv

section

variable (h : ∀ t, Q t (s.data t))

include h

theorem Survives.refreshThread (hl : Linked s) : ∀ t, Q t ((refreshThread c now u s).data t) :=
  each_update h (refreshThread_spec hl c now u).2 (hQ.refreshed (h u))

theorem Survives.queueRemove : ∀ t, Q t ((queueRemove u s).data t) :=
  each_update h (queueRemove_data u s) (hQ.tag .none (h u))

theorem Survives.refreshReady (hl : Linked s) : ∀ t, Q t ((refreshReady c now u s).data t) := by
  rw [Rtds.refreshReady]
  split
  · have hadv : ∀ t, Q t ((Rtds.advance now u s).data t) := each_update h rfl (hQ.advance (h u))
    have hladv : Linked (Rtds.advance now u s) := hl.modify advancePeriod_queue
    exact hQ.refreshThread (hQ.queueRemove hadv) (hladv.queueRemove u)
  · exact h

theorem Survives.refreshQueues (hall : AllQueued c.view s) (hok : c.view.Ok) :
    ∀ t, Q t ((refreshQueues c now s).data t) :=
  (refreshQueues_rule (P := fun s => AllQueued c.view s ∧ ∀ t, Q t (s.data t))
    (fun hs hx => hs.1.mem_ready hx)
    (fun hx hs => ⟨hs.1.refreshReady hok hx now, hQ.refreshReady hs.2 hs.1.linked⟩)
    (fun hs hx => hs.1.mem_depleted hx)
    (fun hx hs => ⟨hs.1.refreshThread hok hx now, hQ.refreshThread hs.2 hs.1.linked⟩)
    ⟨hall, h⟩).2

theorem Survives.readyInsert (hl : Linked s) : ∀ t, Q t ((readyInsert u s).data t) :=
  each_update h (readyInsert_spec hl u).2 (hQ.tag .ready (h u))

theorem Survives.depletedInsert (hl : Linked s) : ∀ t, Q t ((depletedInsert u s).data t) :=
  each_update h (depletedInsert_spec hl u).2 (hQ.tag .depleted (h u))

theorem Survives.choose : ∀ t, Q t ((choose c s).2.data t) := by
  simp only [Rtds.choose, pickDepletedSlack]
  split
  · exact hQ.queueRemove h
  · cases earliestDepleted s with
    | some t => exact hQ.queueRemove h
    | none => exact h

end

omit hQ

@[simp] theorem programTimer_data (c : SchedControl) (caller : Caller)
    (running : Option Tid) (s : Rtds) : (programTimer c caller running s).data = s.data := by
  rw [programTimer]
  split <;> rfl

@[simp] theorem programTimer_readyQueue (c : SchedControl) (caller : Caller)
    (running : Option Tid) (s : Rtds) :
    (programTimer c caller running s).readyQueue = s.readyQueue := by
  rw [programTimer]
  split <;> rfl

/-! ## What refreshing comes to -/

theorem advancePeriod_of_lt (h : now < d.deadlineTicks) : (advancePeriod now d).2 = d := by
  rw [advancePeriod, if_pos h]

theorem advancePeriod_idem (h : 0 < d.periodTicks) :
    (advancePeriod now { (advancePeriod now d).2 with queue := q }).2 =
      { (advancePeriod now d).2 with queue := q } :=
  advancePeriod_of_lt (lt_advancePeriod_deadline h now)

variable (h : Contending c.view t)

include h

theorem Contending.active_eq : isActive c t = true := isActive_iff.mpr h.2

variable (hok : c.view.Ok)

include hok

theorem Contending.not_blocking : (c.obj t).beBlocking = false := by
  cases hb : (c.obj t).beBlocking with
  | false => rfl
  | true => exact absurd (.inr hb) (h.2.not_parked hok h.1)

theorem refreshed_eq : refreshed c now t d = { (advancePeriod now d).2 with
      queue := if 0 < (advancePeriod now d).2.remainingTicks then .ready else .depleted } := by
  rw [refreshed, h.active_eq, h.not_blocking hok]
  simp only [Bool.not_true, Bool.false_eq_true, if_false]
  split <;> rfl

theorem refreshed_rest (hfed : Fed d) (hq : d.queue ≠ .none) (hlt : now < d.deadlineTicks) :
    refreshed c now t d = d := by
  rw [refreshed_eq h hok, advancePeriod_of_lt hlt]
  cases hqueue : d.queue with
  | none => exact absurd hqueue hq
  | ready => rw [if_pos (hfed.1 hqueue), ← hqueue]
  | depleted => rw [hfed.2 hqueue, if_neg (by omega), ← hqueue]

theorem refreshed_idem (hp : 0 < d.periodTicks) :
    refreshed c now t { (advancePeriod now d).2 with queue := q } = refreshed c now t d := by
  rw [refreshed_eq h hok, refreshed_eq h hok, advancePeriod_idem hp]

omit hok

omit h

/-- A walk that treats the servers of `l`, each once and by itself. -/
theorem foldl_data {f : Tid → Rtds → Rtds} {g : Tid → RtdsData → RtdsData}
    {P : Rtds → Prop} {l : List Tid} {R : Tid → RtdsData → Prop} (hl : l.Nodup)
    (hP : P s) (hR : ∀ x ∈ l, R x (s.data x))
    (hbody : ∀ {s x}, x ∈ l → P s → R x (s.data x) → P (f x s) ∧
      (f x s).data = Function.update s.data x (g x (s.data x))) (t : Tid) :
    (l.foldl (fun s x => f x s) s).data t = if t ∈ l then g t (s.data t) else s.data t := by
  induction l generalizing s with
  | nil => simp
  | cons x l ih =>
    obtain ⟨hx, hl⟩ := List.nodup_cons.mp hl
    obtain ⟨hP', hdata⟩ := hbody (by simp) hP (hR x (by simp))
    rw [List.foldl_cons, ih hl hP' ?_ fun hy => hbody (List.mem_cons_of_mem _ hy)]
    · rw [hdata]
      by_cases htx : t = x
      · rw [htx, if_neg hx, if_pos (by simp), Function.update_self]
      · simp [htx]
    · intro y hy
      have hyx : y ≠ x := fun h => hx (h ▸ hy)
      rw [hdata, Function.update_of_ne hyx]
      exact hR y (List.mem_cons_of_mem _ hy)

theorem refreshQueues_data (h : AllQueued c.view s) (hok : c.view.Ok)
    (ht : Contending c.view t) (now : Nat) :
    (refreshQueues c now s).data t = refreshed c now t (s.data t) := by
  have hp := ((h.thread t).granted ht.1).2
  have hfed := h.fed t id
  have hq := h.queued t ht
  rw [refreshQueues_eq h hok]
  -- the first walk
  have hmem : ∀ {s x}, x ∈ List.filter (overdue now s) s.readyQueue →
      x ∈ s.readyQueue := fun hx => List.mem_of_mem_filter hx
  have hreadyAll : AllQueued c.view ((s.readyQueue.filter (overdue now s)).foldl
      (fun s t => refreshReady c now t s) s) :=
    List.foldlRecOn _ _ h fun s' hs' x hx => hs'.refreshReady hok (h.mem_ready (hmem hx)) now
  have hready := foldl_data
    (R := fun x d => d.deadlineTicks ≤ now)
    (g := fun x d => refreshed c now x { (advancePeriod now d).2 with queue := .none })
    (h.linked.readyNodup.filter (overdue now s)) h
    (fun x hx => by simpa [overdue] using (List.mem_filter.mp hx).2)
    (fun {s' x} hx hs' hR => by
      have hod : overdue now s' x = true := by simpa [overdue] using hR
      refine ⟨hs'.refreshReady hok (h.mem_ready (hmem hx)) now, ?_⟩
      have hadv : Linked (advance now x s') := hs'.linked.modify advancePeriod_queue
      rw [refreshReady, advancePeriod_overdue, if_pos hod,
        (refreshThread_spec (hadv.queueRemove x) c now x).2, queueRemove_data, tagged]
      simp [advance]) t
  generalize List.foldl (fun s t => refreshReady c now t s) s
    (s.readyQueue.filter (overdue now s)) = mid at hreadyAll hready ⊢
  rw [foldl_data (R := fun _ _ => True)
    (hreadyAll.linked.depletedNodup.filter (overdue now mid)) hreadyAll
    (fun _ _ => trivial) (fun hx hs' _ => ⟨hs'.refreshThread hok
      (hreadyAll.mem_depleted (List.mem_of_mem_filter hx)) now,
      (refreshThread_spec hs'.linked c now _).2⟩) t]
  cases hqueue : (s.data t).queue with
  | none => exact absurd hqueue hq
  | ready =>
    -- it is treated by the first walk, and does not become depleted there
    have hdone : mid.data t = refreshed c now t (s.data t) := by
      rw [hready]
      split
      · exact refreshed_idem ht hok hp
      rename_i hnot
      have hlt : now < (s.data t).deadlineTicks := by
        simpa [overdue, (h.linked.ready t).mpr hqueue] using hnot
      rw [refreshed_rest ht hok hfed hq hlt]
    have hstays : (refreshed c now t (s.data t)).queue = .ready := by
      rw [refreshed_eq ht hok]
      refine if_pos ?_
      rcases advancePeriod_remaining now (s.data t) with hd | hd
      · rw [hd]
        exact hfed.1 hqueue
      · rw [hd]
        exact ((h.thread t).granted ht.1).1
    rw [if_neg, hdone]
    intro hm
    have := (hreadyAll.linked.depleted t).mp (List.mem_of_mem_filter hm)
    rw [hdone, hstays] at this
    cases this
  | depleted =>
    have hsame : mid.data t = s.data t := by
      rw [hready, if_neg]
      intro hm
      have := (h.linked.ready t).mp (hmem hm)
      rw [hqueue] at this
      cases this
    rw [hsame]
    split
    · rfl
    rename_i hnot
    have hin : t ∈ mid.depletedQueue := by rw [hreadyAll.linked.depleted, hsame, hqueue]
    have hlt : now < (s.data t).deadlineTicks := by simpa [overdue, hin, hsame] using hnot
    rw [refreshed_rest ht hok hfed hq hlt]

/-! ## Deadlines are boundaries -/

/-- The deadline is a boundary of the period, the next one after `now` at the
latest. -/
structure Aligned (period now : Nat) (d : RtdsData) : Prop where
  same : d.periodTicks = period
  boundary : period ∣ d.deadlineTicks
  near : d.deadlineTicks ≤ (now / period + 1) * period
  pos : 0 < d.deadlineTicks

variable {period hi : Nat} {d' : RtdsData}

theorem Aligned.later (h : Aligned period now d) (hle : now ≤ hi) : Aligned period hi d :=
  ⟨h.same, h.boundary, h.near.trans (Nat.mul_le_mul_right _
    (Nat.add_le_add_right (Nat.div_le_div_right hle) 1)), h.pos⟩

theorem Aligned.advance (h : Aligned period hi d) (hp : 0 < period)
    (hle : now ≤ hi) : Aligned period hi (advancePeriod now d).2 := by
  have hpos := h.pos
  refine ⟨by simp [h.same], ?_, ?_, ?_⟩
  · rw [advancePeriod]
    split
    · exact h.boundary
    · rw [h.same]
      exact (Nat.dvd_add_right h.boundary).mpr (dvd_mul_left _ _)
  · rw [advancePeriod]
    split
    · exact h.near
    rename_i hge
    obtain ⟨k, hk⟩ := h.boundary
    have hdiv : (now - period * k) / period = now / period - k := Nat.sub_mul_div now period k
    have hkle : k ≤ now / period := by
      rw [Nat.le_div_iff_mul_le hp, mul_comm, ← hk]
      exact not_lt.mp hge
    calc d.deadlineTicks + ((now - d.deadlineTicks) / d.periodTicks + 1) *
          d.periodTicks
        = (k + (now / period - k + 1)) * period := by
          rw [h.same, hk, hdiv, mul_comm period k, ← add_mul]
      _ = (now / period + 1) * period := by
          rw [← add_assoc, Nat.add_sub_cancel' hkle]
      _ ≤ (hi / period + 1) * period := Nat.mul_le_mul_right _
          (Nat.add_le_add_right (Nat.div_le_div_right hle) 1)
  · rw [advancePeriod]
    split
    · exact hpos
    · exact Nat.lt_add_right _ hpos

theorem Aligned.latest (h : Aligned period now d) (hp : 0 < period)
    (h' : Aligned period now d') (hlt : now < d.deadlineTicks) :
    d'.deadlineTicks ≤ d.deadlineTicks := by
  obtain ⟨k, hk⟩ := h.boundary
  have hdiv : now / period < k := by
    rw [Nat.div_lt_iff_lt_mul hp, mul_comm, ← hk]
    exact hlt
  calc d'.deadlineTicks ≤ (now / period + 1) * period := h'.near
    _ ≤ k * period := Nat.mul_le_mul_right _ hdiv
    _ = d.deadlineTicks := by rw [hk, mul_comm]

/-- The servers of a pCPU are aligned, all of them. -/
def AllAligned (period now : Nat) (threadList : List Tid) (s : Rtds) : Prop :=
  ∀ t, t ∈ threadList → Aligned period now (s.data t)

variable {l : List Tid}

theorem AllAligned.later (h : AllAligned period now l s) (hle : now ≤ hi) :
    AllAligned period hi l s :=
  fun t ht => (h t ht).later hle

theorem survives_aligned (hp : 0 < period) (hle : now ≤ hi) :
    Survives now fun t d => t ∈ l → Aligned period hi d where
  tag _ h ht := ⟨(h ht).same, (h ht).boundary, (h ht).near, (h ht).pos⟩
  advance h ht := (h ht).advance hp hle

end Rtds

end Sima.Sched
