import Mathlib.Data.List.Basic

/-!
# Guarded runs of a labelled transition system

A run carries the list of its labels, the newest first, so that a property of
what has happened is a function by recursion on that list. Every step of the run
meets a guard, which may look at the label and at the state before the step —
the guard that is always true gives all runs.
-/

namespace Sima.Lib

variable {σ α : Type*} {step : α → σ → σ → Prop} {ok ok' : α → σ → Prop}
  {s₀ s s' : σ} {a : α} {tr : List α}

inductive GuardedRun (step : α → σ → σ → Prop) (ok : α → σ → Prop) (s₀ : σ) :
    List α → σ → Prop where
  | nil : GuardedRun step ok s₀ [] s₀
  | cons {a : α} {tr : List α} {s s' : σ} : GuardedRun step ok s₀ tr s → ok a s →
      step a s s' → GuardedRun step ok s₀ (a :: tr) s'

namespace GuardedRun

variable (h : GuardedRun step ok s₀ tr s)

include h

/-- What holds at the start and is kept by every guarded step, holds. -/
theorem inv {P : List α → σ → Prop} (h₀ : P [] s₀)
    (hstep : ∀ {a tr s s'}, P tr s → ok a s → step a s s' → P (a :: tr) s') : P tr s := by
  induction h with
  | nil => exact h₀
  | cons _ hok hs ih => exact hstep ih hok hs

theorem mono (hle : ∀ {a s}, ok a s → ok' a s) : GuardedRun step ok' s₀ tr s := by
  induction h with
  | nil => exact .nil
  | cons _ hok hs ih => exact .cons ih (hle hok) hs

theorem trans {tr' : List α}
    (h' : GuardedRun step ok s tr' s') : GuardedRun step ok s₀ (tr' ++ tr) s' := by
  induction h' with
  | nil => exact h
  | cons _ hok hs ih => exact .cons ih hok hs

/-- What each step is a run of, the whole run is a run of. -/
theorem simulate {β : Type*} {step' : β → σ → σ → Prop} (hsim : ∀ {a s s'}, step a s s' →
      ∃ tr', GuardedRun step' (fun _ _ => True) s tr' s') :
    ∃ tr', GuardedRun step' (fun _ _ => True) s₀ tr' s := by
  induction h with
  | nil => exact ⟨_, .nil⟩
  | cons _ _ hs ih =>
    obtain ⟨_, h₁⟩ := ih
    obtain ⟨_, h₂⟩ := hsim hs
    exact ⟨_, h₁.trans h₂⟩

theorem replicate (hok : ok a s) (hs : step a s s) (n : Nat) :
    GuardedRun step ok s₀ (List.replicate n a ++ tr) s := by
  induction n with
  | zero => exact h
  | succ n ih => exact .cons ih hok hs

omit h

end GuardedRun

/-! ## Runs of a function -/

/-- Every step of the list meets the guard where it is made. -/
def Meets (f : α → σ → σ) (ok : α → σ → Prop) : σ → List α → Prop
  | _, [] => True
  | s, a :: labels => ok a s ∧ Meets f ok (f a s) labels

theorem GuardedRun.of_meets {f : α → σ → σ} {labels : List α}
    (hf : ∀ a s, step a s (f a s)) (h : Meets f ok s labels) :
    GuardedRun step ok s labels.reverse (labels.foldl (fun s a => f a s) s) := by
  induction labels generalizing s with
  | nil => exact .nil
  | cons a labels ih =>
    rw [List.reverse_cons]
    exact (GuardedRun.nil.cons h.1 (hf a s)).trans (ih h.2)

/-- A script is a list of moves, each with its label and what it leads to. A move
has to be possible where it is made. -/
theorem GuardedRun.of_script {β : Type*} {f : β → σ → σ} {label : β → α}
    {can : β → σ → Prop} {script : List β}
    (hcan : ∀ b s, can b s → ok (label b) s ∧ step (label b) s (f b s))
    (h : Meets f can s script) :
    GuardedRun step ok s (script.map label).reverse (script.foldl (fun s b => f b s) s) := by
  induction script generalizing s with
  | nil => exact .nil
  | cons b script ih =>
    obtain ⟨hok, hs⟩ := hcan b s h.1
    rw [List.map_cons, List.reverse_cons]
    exact (GuardedRun.nil.cons hok hs).trans (ih h.2)

instance decidableMeets {f : α → σ → σ} [∀ a s, Decidable (ok a s)] :
    ∀ (s : σ) (labels : List α), Decidable (Meets f ok s labels)
  | _, [] => inferInstanceAs (Decidable True)
  | s, a :: labels =>
    have : Decidable (Meets f ok (f a s) labels) := decidableMeets (f a s) labels
    inferInstanceAs (Decidable (ok a s ∧ Meets f ok (f a s) labels))

/-! ## History

A note is what a run remembers of its own past: a value beside the state that every
step updates from the label and the state before it, and that no step reads. -/

section Notes

variable {γ : Type*} {note : α → σ → γ → γ} {g₀ : γ} {x y : σ × γ}

def Noted (step : α → σ → σ → Prop) (note : α → σ → γ → γ) (a : α) (x y : σ × γ) : Prop :=
  step a x.1 y.1 ∧ y.2 = note a x.1 x.2

theorem GuardedRun.forget {ok : α → σ × γ → Prop}
    (h : GuardedRun (Noted step note) ok (s₀, g₀) tr x) :
    GuardedRun step (fun _ _ => True) s₀ tr x.1 := by
  induction h with
  | nil => exact .nil
  | cons _ _ hs ih => exact .cons ih trivial hs.1

end Notes

end Sima.Lib
