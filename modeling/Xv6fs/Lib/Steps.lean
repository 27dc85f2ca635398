/-
  Runs of a labelled transition system.

  `Steps step s as t` says that the steps with the labels `as`, in this order, lead from `s` to
  `t`. An invariant of one step is an invariant of every run (`Steps.invariant`), and a run of
  one system whose steps are steps of another is a run of the other (`Steps.simulate`). A run
  whose steps all meet a condition `g` is a run of `GuardedBy g step`.
-/
import Mathlib.Data.List.Basic

/-- A run, with the labels of its steps. -/
inductive Steps {σ α : Type} (step : σ → α → σ → Prop) : σ → List α → σ → Prop
  | nil (s : σ) : Steps step s [] s
  | cons {s t u : σ} {a : α} {as : List α} (h : step s a t) (hs : Steps step t as u) :
      Steps step s (a :: as) u

/-- The steps taken in a state in which their label meets a condition. -/
def GuardedBy {σ α : Type} (g : σ → α → Prop) (step : σ → α → σ → Prop) (s : σ) (a : α) (t : σ) :
    Prop :=
  g s a ∧ step s a t

namespace Steps

variable {σ τ α β : Type} {step : σ → α → σ → Prop} {s t : σ} {as : List α}

theorem single {a : α} (h : step s a t) : Steps step s [a] t := .cons h (.nil t)

/-- What every step keeps every run keeps. -/
theorem invariant {I : σ → Prop} (hI : ∀ s a t, I s → step s a t → I t) (h : Steps step s as t)
    (hs : I s) : I t := by
  induction h with
  | nil => exact hs
  | cons hstep _ ih => exact ih (hI _ _ _ hs hstep)

/-- A run is one of another system over `f s` with the same labels, when in the states of an
    invariant each of its steps is. -/
theorem refine {I : σ → Prop} {step' : τ → α → τ → Prop} (f : σ → τ)
    (hstep : ∀ s a t, I s → step s a t → I t ∧ step' (f s) a (f t)) (h : Steps step s as t)
    (hs : I s) : I t ∧ Steps step' (f s) as (f t) := by
  induction h with
  | nil s => exact ⟨hs, .nil (f s)⟩
  | cons ha _ ih =>
    obtain ⟨ht, ha'⟩ := hstep _ _ _ hs ha
    obtain ⟨hu, hrest⟩ := ih ht
    exact ⟨hu, .cons ha' hrest⟩

/-- A weaker step relation has every run. -/
theorem weaken {step' : σ → α → σ → Prop} (hstep : ∀ s a t, step s a t → step' s a t)
    (h : Steps step s as t) : Steps step' s as t := by
  induction h with
  | nil s => exact .nil s
  | cons ha _ ih => exact .cons (hstep _ _ _ ha) ih

theorem unguard {g : σ → α → Prop} (h : Steps (GuardedBy g step) s as t) : Steps step s as t :=
  h.weaken fun _ _ _ ha => ha.2

/-- A run is one of another system over `f s` when each of its steps is a step with the label
    `l a`, or none when there is no label and `f s` stays. -/
theorem simulate {step' : τ → β → τ → Prop} (f : σ → τ) (l : α → Option β)
    (hstep : ∀ s a t, step s a t → match l a with
      | some b => step' (f s) b (f t)
      | none => f t = f s)
    (h : Steps step s as t) : Steps step' (f s) (as.filterMap l) (f t) := by
  induction h with
  | nil s => exact .nil (f s)
  | @cons s t u a as ha _ ih =>
    have hsim := hstep _ _ _ ha
    cases hl : l a with
    | none =>
      rw [hl] at hsim
      rw [List.filterMap_cons_none hl, ← hsim]
      exact ih
    | some b =>
      rw [hl] at hsim
      rw [List.filterMap_cons_some hl]
      exact .cons hsim ih

end Steps
