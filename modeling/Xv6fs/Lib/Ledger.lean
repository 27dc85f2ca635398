/-
  The history of a pool of resources, each of which is taken and given back.

  `after S es` is the set of the resources in use when the history `es` has passed, `Legal S es`
  says that every resource was free when it was taken. In a legal history no resource is taken
  twice without being given back in between (`give_between`).
-/
import Mathlib.Data.Set.Insert

/-- One entry of the history. -/
inductive Entry (α : Type) where
  | take (a : α)
  | give (a : α)
  deriving DecidableEq

namespace Ledger

variable {α : Type}

/-- The resources in use after the history, the oldest entry first. -/
def after (S : Set α) : List (Entry α) → Set α
  | [] => S
  | .take a :: es => after (insert a S) es
  | .give a :: es => after (S \ {a}) es

/-- Every resource was free when it was taken. -/
def Legal (S : Set α) : List (Entry α) → Prop
  | [] => True
  | .take a :: es => a ∉ S ∧ Legal (insert a S) es
  | .give a :: es => Legal (S \ {a}) es

theorem legal_append (S : Set α) (es fs : List (Entry α)) :
    Legal S (es ++ fs) ↔ Legal S es ∧ Legal (after S es) fs := by
  induction es generalizing S with
  | nil => simp [Legal, after]
  | cons e es ih =>
    cases e with
    | take a => simp [Legal, after, ih, and_assoc]
    | give a => simp [Legal, after, ih]

/-- A resource in use stays in use until it is given back. -/
theorem mem_after (S : Set α) {a : α} (es : List (Entry α)) (ha : a ∈ S)
    (hno : Entry.give a ∉ es) : a ∈ after S es := by
  induction es generalizing S with
  | nil => exact ha
  | cons e es ih =>
    rw [List.mem_cons, not_or] at hno
    obtain ⟨hne, hno⟩ := hno
    cases e with
    | take b => exact ih _ (Set.mem_insert_of_mem b ha) hno
    | give b =>
      refine ih _ ⟨ha, ?_⟩ hno
      rintro rfl
      exact hne rfl

/-- Between two takes of a resource it is given back. -/
theorem give_between {S : Set α} {a : α} {pre mid post : List (Entry α)}
    (h : Legal S (pre ++ .take a :: (mid ++ .take a :: post))) : Entry.give a ∈ mid := by
  by_contra hno
  have h₁ := ((legal_append S pre _).mp h).2
  have h₂ := ((legal_append _ mid _).mp h₁.2).2
  exact h₂.1 (mem_after _ mid (Set.mem_insert a _) hno)

end Ledger
