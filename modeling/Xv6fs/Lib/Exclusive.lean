/-
  Exclusive ownership.

  `owns i` is the resource held at place `i`, if any. `Exclusive used owns` says that every
  resource held is in use and that no resource is held at two places. It survives every change
  that gives a place either what it held before or a resource that was not in use (`step`).
-/
import Mathlib.Order.Basic

/-- Every held resource is in use, and held at one place only. -/
structure Exclusive {ι β : Type} (used : β → Prop) (owns : ι → Option β) : Prop where
  held : ∀ {i b}, owns i = some b → used b
  inj : ∀ {i j b}, owns i = some b → owns j = some b → i = j

namespace Exclusive

variable {ι β : Type} {used used' : β → Prop} {owns owns' : ι → Option β}

/-- One place may take a resource that was not in use; the others keep what they held or drop
    it. -/
theorem step (h : Exclusive used owns) (i₀ : ι) (b₀ : β) (hfresh : ¬ used b₀) (hused : used' b₀)
    (hown : ∀ i b, owns' i = some b → (owns i = some b ∧ used' b) ∨ (i = i₀ ∧ b = b₀)) :
    Exclusive used' owns' where
  held := by
    intro i b hi
    rcases hown i b hi with ⟨-, hb⟩ | ⟨-, rfl⟩
    · exact hb
    · exact hused
  inj := by
    intro i j b hi hj
    rcases hown i b hi with ⟨hi', -⟩ | ⟨rfl, rfl⟩
    · rcases hown j b hj with ⟨hj', -⟩ | ⟨rfl, rfl⟩
      · exact h.inj hi' hj'
      · exact absurd (h.held hi') hfresh
    · rcases hown j b hj with ⟨hj', -⟩ | ⟨rfl, -⟩
      · exact absurd (h.held hj') hfresh
      · rfl

/-- Places may drop what they hold, as long as what stays held stays in use. -/
theorem drop (h : Exclusive used owns)
    (hown : ∀ i b, owns' i = some b → owns i = some b ∧ used' b) : Exclusive used' owns' where
  held hi := (hown _ _ hi).2
  inj hi hj := h.inj (hown _ _ hi).1 (hown _ _ hj).1

end Exclusive
