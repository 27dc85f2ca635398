/-
  Traversals that can be stopped.

  A traversal visits sites in order. Each visit says whether to go on, and the first that does not
  is the last (`Traversed`). Traversals compose: what is traversed to the end is followed by the
  next part (`append`), and what is stopped is stopped whatever were to follow (`stopped`).
-/
import Mathlib.Data.List.Basic

/-- The visits `ys` of a traversal of the sites `xs`. -/
structure Traversed {α β : Type} (site : β → α) (go : β → Bool) (xs : List α) (ys : List β) :
    Prop where
  order : ∃ rest, xs = ys.map site ++ rest
  stop : ∀ y ∈ ys.dropLast, go y = true
  whole : (∀ y ∈ ys, go y = true) → ys.map site = xs

namespace Traversed

variable {α β : Type} {site : β → α} {go : β → Bool} {xs xs' : List α} {ys ys' : List β}

theorem nil : Traversed site go [] [] :=
  ⟨⟨[], rfl⟩, fun _ h => absurd h List.not_mem_nil, fun _ => rfl⟩

theorem single (y : β) : Traversed site go [site y] [y] :=
  ⟨⟨[], rfl⟩, fun _ h => absurd h List.not_mem_nil, fun _ => rfl⟩

theorem append (h : Traversed site go xs ys) (hgo : ∀ y ∈ ys, go y = true)
    (h' : Traversed site go xs' ys') : Traversed site go (xs ++ xs') (ys ++ ys') where
  order := by
    obtain ⟨rest, hrest⟩ := h'.order
    refine ⟨rest, ?_⟩
    rw [List.map_append, h.whole hgo, hrest, List.append_assoc]
  stop y hy := by
    by_cases hnil : ys' = []
    · rw [hnil, List.append_nil] at hy
      exact hgo y (List.dropLast_subset _ hy)
    · rw [List.dropLast_append_of_ne_nil hnil] at hy
      rcases List.mem_append.mp hy with hy | hy
      · exact hgo y hy
      · exact h'.stop y hy
  whole hall := by
    rw [List.map_append, h.whole hgo, h'.whole fun y hy => hall y (List.mem_append_right ys hy)]

theorem stopped (h : Traversed site go xs ys) (hstop : ¬ ∀ y ∈ ys, go y = true) (xs' : List α) :
    Traversed site go (xs ++ xs') ys where
  order := by
    obtain ⟨rest, hrest⟩ := h.order
    exact ⟨rest ++ xs', by rw [hrest, List.append_assoc]⟩
  stop := h.stop
  whole hall := absurd hall hstop

/-- What is visited is one of the sites. -/
theorem mem (h : Traversed site go xs ys) {y : β} (hy : y ∈ ys) : site y ∈ xs := by
  obtain ⟨rest, rfl⟩ := h.order
  exact List.mem_append_left rest (List.mem_map_of_mem hy)

/-- The visits are made in the order of the sites. -/
theorem pairwise {R : α → α → Prop} (h : Traversed site go xs ys) (hR : xs.Pairwise R) :
    (ys.map site).Pairwise R := by
  obtain ⟨rest, rfl⟩ := h.order
  exact (List.pairwise_append.mp hR).1

/-- Without sites nothing is visited. -/
theorem eq_nil (h : Traversed site go [] ys) : ys = [] := by
  obtain ⟨rest, hrest⟩ := h.order
  have hnil := (List.append_eq_nil_iff.mp hrest.symm).1
  exact List.map_eq_nil_iff.mp hnil

end Traversed
