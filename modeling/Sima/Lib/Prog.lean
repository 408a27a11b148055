import Mathlib.Tactic.Common

/-!
# Programs with a state, a failure and a trace

The code under verification is C that reads and writes words of memory, may
stop for good (a panic), and passes through assertions that a release build
compiles away. One monad carries the three: a program takes a state and gives
back a value or a failure, the state it left, and the list of the things it did
on the way that the state does not remember.

The judgement over it is `Sat`. It is a Hoare triple with two twists, and both
come from the trace. Some events are *stopping* events: a failed assertion is
one. What a program does after one is nobody's promise, so `Sat` says nothing
about it — but everything done *before* the first one has to be allowed. And
the postcondition is owed only by runs without a stopping event. Because the
trace of a sequence is the concatenation of the traces, both clauses compose
with no side condition, which is what makes `Sat.bind` usable.
-/

namespace Sima.Lib

/-- What a run leaves behind: its value or its failure, its state, and the
events in the order they happened. -/
structure Outcome (σ ε τ α : Type) where
  val : Except ε α
  st : σ
  trace : List τ

/-- A program over the state `σ`, failing with `ε`, emitting `τ`. -/
def Prog (σ ε τ α : Type) : Type :=
  σ → Outcome σ ε τ α

variable {σ ε τ α β : Type} {a : α} {s : σ} {ok stop ok' : τ → Prop} {ts : List τ}

namespace Prog

open Prog

def ret (a : α) : Prog σ ε τ α := fun s => ⟨.ok a, s, []⟩

/-- Sequencing: a failure stops the run, the traces are appended. -/
def seq (m : Prog σ ε τ α) (f : α → Prog σ ε τ β) : Prog σ ε τ β := fun s =>
  match m s with
  | ⟨.ok a, s', t⟩ =>
    match f a s' with
    | ⟨v, s'', t'⟩ => ⟨v, s'', t ++ t'⟩
  | ⟨.error e, s', t⟩ => ⟨.error e, s', t⟩

instance : Monad (Prog σ ε τ) where
  pure := ret
  bind := seq

/-- Fail: nothing that follows is run. -/
def fail (e : ε) : Prog σ ε τ α := fun s => ⟨.error e, s, []⟩

/-- Emit one event. -/
def emit (t : τ) : Prog σ ε τ Unit := fun s => ⟨.ok (), s, [t]⟩

/-- Read a value off the state. -/
def look (f : σ → α) : Prog σ ε τ α := fun s => ⟨.ok (f s), s, []⟩

/-- Change the state. -/
def change (f : σ → σ) : Prog σ ε τ Unit := fun s => ⟨.ok (), f s, []⟩

end Prog

/-! ## The trace of a sequence -/

variable {f : α → Prog σ ε τ β} {m : Prog σ ε τ α} {e : ε}

theorem Prog.bind_eq (h : (m s).val = .ok a) :
    (m >>= f) s = ⟨(f a (m s).st).val, (f a (m s).st).st,
      (m s).trace ++ (f a (m s).st).trace⟩ := by
  show seq m f s = _
  cases hms : m s with
  | mk v s' t =>
    rw [hms] at h
    have hv : v = .ok a := h
    simp only [seq, hms, hv]

theorem Prog.bind_error (h : (m s).val = .error e) :
    (m >>= f) s = ⟨.error e, (m s).st, (m s).trace⟩ := by
  show seq m f s = _
  cases hms : m s with
  | mk v s' t =>
    rw [hms] at h
    have hv : v = .error e := h
    simp only [seq, hms, hv]

theorem Prog.bind_ok (h : (m s).val = .ok a) : ((m >>= f) s).val = (f a (m s).st).val ∧
    ((m >>= f) s).trace = (m s).trace ++ (f a (m s).st).trace := by
  rw [bind_eq h]
  exact ⟨rfl, rfl⟩

/-- What the first half does, the sequence does first. -/
theorem Prog.trace_begins (m : Prog σ ε τ α) (f : α → Prog σ ε τ β) (s : σ) :
    (m s).trace <+: ((m >>= f) s).trace := by
  cases h : (m s).val with
  | ok a =>
    rw [(bind_ok h).2]
    exact List.prefix_append ..
  | error e =>
    have htrace : ((m >>= f) s).trace = (m s).trace := by rw [bind_error h]
    exact htrace ▸ List.prefix_refl _

theorem Prog.bind_assoc {γ : Type} (m : Prog σ ε τ α) (f : α → Prog σ ε τ β)
    (g : β → Prog σ ε τ γ) : m >>= f >>= g = m >>= fun a => f a >>= g := by
  funext s
  cases hm : (m s).val with
  | error e => rw [bind_error hm, bind_error (by rw [bind_error hm]), bind_error hm]
  | ok a =>
    rw [bind_eq hm]
    cases hf : (f a (m s).st).val with
    | error e => rw [bind_error hf, bind_error (by rw [bind_eq hm, hf]), bind_eq hm]
    | ok b => rw [bind_eq hf, bind_eq (by rw [bind_eq hm, hf]), bind_eq hm, List.append_assoc]

/-! ## Fuel

A loop with fuel is one of its own approximations: given more, it does the same
and goes on. -/

/-- `m'` does what `m` does, and possibly goes on where `m` failed. -/
def Prog.Extends (m m' : Prog σ ε τ α) : Prop :=
  ∀ s, m s = m' s ∨ ((∃ e, (m s).val = .error e) ∧ (m s).trace <+: (m' s).trace)

theorem Prog.Extends.refl (m : Prog σ ε τ α) : m.Extends m := fun _ => .inl rfl

theorem Prog.Extends.trans {m' m'' : Prog σ ε τ α} (h : m.Extends m') (h' : m'.Extends m'') :
    m.Extends m'' := by
  intro s
  rcases h s with heq | ⟨herr, hpre⟩
  · rw [heq]
    exact h' s
  rcases h' s with heq | ⟨-, hpre'⟩
  · rw [← heq]
    exact .inr ⟨herr, hpre⟩
  · exact .inr ⟨herr, hpre.trans hpre'⟩

theorem Prog.Extends.bind (m : Prog σ ε τ α) {f' : α → Prog σ ε τ β}
    (h : ∀ a, (f a).Extends (f' a)) : (m >>= f).Extends (m >>= f') := by
  intro s
  cases hms : m s with
  | mk v s' t =>
    have hrun : ∀ g : α → Prog σ ε τ β, (m >>= g) s = seq m g s := fun _ => rfl
    rw [hrun, hrun]
    cases v with
    | error e => exact .inl (by simp only [seq, hms])
    | ok a =>
      simp only [seq, hms]
      rcases h a s' with heq | ⟨herr, hpre⟩
      · rw [heq]
        exact .inl rfl
      · exact .inr ⟨herr, List.prefix_append_right_inj t |>.mpr hpre⟩

/-- A run that returned is not extended by more fuel, and one that did not is a
beginning of it. -/
theorem Prog.Extends.trace_of_ok {m : Nat → Prog σ ε τ α} {n : Nat}
    (h : ∀ n, (m n).Extends (m (n + 1))) (hn : (m n s).val = .ok a) (k : Nat) :
    (m k s).trace <+: (m n s).trace := by
  have hle : ∀ i j, (m i).Extends (m (i + j)) := by
    intro i j
    induction j with
    | zero => exact .refl _
    | succ j ih => exact ih.trans (h _)
  rcases Nat.le_total k n with hkn | hnk
  · obtain ⟨j, rfl⟩ := Nat.exists_eq_add_of_le hkn
    rcases hle k j s with heq | ⟨-, hpre⟩
    · exact heq ▸ List.prefix_refl _
    · exact hpre
  · obtain ⟨j, rfl⟩ := Nat.exists_eq_add_of_le hnk
    rcases hle n j s with heq | ⟨⟨e, he⟩, -⟩
    · exact heq ▸ List.prefix_refl _
    · rw [hn] at he
      cases he

/-! ## Traces up to the first stopping event -/

/-- Every event before the first stopping one is allowed. -/
def Upto (stop ok : τ → Prop) : List τ → Prop
  | [] => True
  | t :: ts => stop t ∨ (ok t ∧ Upto stop ok ts)

theorem upto_append {us : List τ} (ht : Upto stop ok ts)
    (hu : (∀ t ∈ ts, ¬ stop t) → Upto stop ok us) : Upto stop ok (ts ++ us) := by
  induction ts with
  | nil => exact hu (by simp)
  | cons t ts ih =>
    rcases ht with ht | ⟨hok, ht⟩
    · exact .inl ht
    by_cases hs : stop t
    · exact .inl hs
    refine .inr ⟨hok, ih ht fun hall => hu ?_⟩
    intro u hmem
    rcases List.mem_cons.mp hmem with rfl | hmem
    · exact hs
    · exact hall u hmem

theorem upto_mono (hok : ∀ t, ok t → ok' t) (h : Upto stop ok ts) : Upto stop ok' ts := by
  induction ts with
  | nil => exact trivial
  | cons t ts ih =>
    rcases h with h | ⟨h, hts⟩
    · exact .inl h
    · exact .inr ⟨hok t h, ih hts⟩

theorem upto_forall (h : Upto stop ok ts) (hns : ∀ t ∈ ts, ¬ stop t) : ∀ t ∈ ts, ok t := by
  induction ts with
  | nil => intro t hm; cases hm
  | cons u us ih =>
    rcases h with h | ⟨h, hus⟩
    · exact absurd h (hns u (by simp))
    intro t hm
    rcases List.mem_cons.mp hm with rfl | hm
    · exact h
    · exact ih hus (fun t ht => hns t (List.mem_cons_of_mem _ ht)) t hm

/-! ## The judgement -/

/-- What a run owes when no stopping event happened: the postcondition on a
value, the exceptional one on a failure. -/
def Outcome.Meets (o : Outcome σ ε τ α) (Q : α → σ → Prop) (E : ε → Prop) :
    Prop :=
  match o.val with
  | .ok a => Q a o.st
  | .error e => E e

/-- From `s`, the program `m` does only allowed things before the first
stopping event, and meets `Q` or `E` if there is none. -/
structure Sat (stop ok : τ → Prop) (m : Prog σ ε τ α) (s : σ)
    (Q : α → σ → Prop) (E : ε → Prop) : Prop where
  upto : Upto stop ok (m s).trace
  post : (∀ t ∈ (m s).trace, ¬ stop t) → (m s).Meets Q E

variable {E : ε → Prop} {Q P : α → σ → Prop} {t : τ}

theorem Sat.ret (h : Q a s) : Sat stop ok (pure a : Prog σ ε τ α) s Q E := ⟨trivial, fun _ => h⟩

theorem Sat.look {f : σ → α} (h : Q (f s) s) : Sat stop ok (Prog.look f : Prog σ ε τ α) s Q E :=
  ⟨trivial, fun _ => h⟩

theorem Sat.change {f : σ → σ} {Q : Unit → σ → Prop} (h : Q () (f s)) :
    Sat stop ok (Prog.change f : Prog σ ε τ Unit) s Q E :=
  ⟨trivial, fun _ => h⟩

theorem Sat.emit {Q : Unit → σ → Prop} (ht : ok t) (h : Q () s) :
    Sat stop ok (Prog.emit t : Prog σ ε τ Unit) s Q E :=
  ⟨.inr ⟨ht, trivial⟩, fun _ => h⟩

theorem Sat.emit_stop {Q : Unit → σ → Prop} (ht : stop t) :
    Sat stop ok (Prog.emit t : Prog σ ε τ Unit) s Q E :=
  ⟨.inl ht, fun h => absurd ht (h t (List.mem_singleton.mpr rfl))⟩

theorem Sat.fail (h : E e) : Sat stop ok (Prog.fail e : Prog σ ε τ α) s Q E :=
  ⟨trivial, fun _ => h⟩

theorem Sat.bind {Q : β → σ → Prop} (hm : Sat stop ok m s P E)
    (hf : ∀ a s', P a s' → Sat stop ok (f a) s' Q E) : Sat stop ok (m >>= f) s Q E := by
  obtain ⟨hu, hp⟩ := hm
  show Sat stop ok (Prog.seq m f) s Q E
  cases hms : m s with
  | mk v s' t =>
    rw [hms] at hu hp
    cases v with
    | error e =>
      have hrun : Prog.seq m f s = ⟨.error e, s', t⟩ := by simp only [Prog.seq, hms]
      exact ⟨by rw [hrun]; exact hu, by rw [hrun]; exact hp⟩
    | ok a =>
      have hrun : Prog.seq m f s = ⟨(f a s').val, (f a s').st, t ++ (f a s').trace⟩ := by
        simp only [Prog.seq, hms]
      have hnext : (∀ u ∈ t, ¬ stop u) → Sat stop ok (f a) s' Q E := fun hns => hf a s' (hp hns)
      refine ⟨?_, ?_⟩
      · rw [hrun]
        exact upto_append hu fun hns => (hnext hns).upto
      rw [hrun]
      intro hall
      have hns : ∀ u ∈ t, ¬ stop u := fun u hu => hall u (List.mem_append_left _ hu)
      exact (hnext hns).post fun u hu => hall u (List.mem_append_right _ hu)

theorem Sat.mono {E' : ε → Prop} (h : Sat stop ok m s P E) (hok : ∀ t, ok t → ok' t)
    (hE : ∀ e, E e → E' e) (hQ : ∀ a s', P a s' → Q a s') : Sat stop ok' m s Q E' := by
  refine ⟨upto_mono hok h.upto, fun hns => ?_⟩
  have hp := h.post hns
  unfold Outcome.Meets at hp ⊢
  split at hp
  · exact hQ _ _ hp
  · exact hE _ hp

theorem Sat.post_mono (h : Sat stop ok m s P E) (hQ : ∀ a s', P a s' → Q a s') :
    Sat stop ok m s Q E :=
  h.mono (fun _ => id) (fun _ => id) hQ

theorem Sat.returned (h : Sat stop ok m s Q E) (hns : ∀ t ∈ (m s).trace, ¬ stop t)
    (hval : (m s).val = .ok a) : Q a (m s).st := by
  have hp := h.post hns
  rw [Outcome.Meets, hval] at hp
  exact hp

theorem Sat.run (h : Sat stop ok m s Q fun _ => False) (hns : ∀ t ∈ (m s).trace, ¬ stop t) :
    ∃ a, (m s).val = .ok a ∧ Q a (m s).st := by
  have hp := h.post hns
  unfold Outcome.Meets at hp
  split at hp
  · next a ha => exact ⟨a, ha, hp⟩
  · exact hp.elim

end Sima.Lib
