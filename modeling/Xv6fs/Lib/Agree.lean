/-
  Two programs run from two states.

  `Agree q R V m m'` says that runs of `m` and `m'` from states related by `R`, if both return along
  a history that satisfies `q`, return values related by `V` in states related by `R` again. It is
  proved along the text of the two programs.
-/
import Xv6fs.Lib.Prog

namespace Prog

variable {σ ε α β γ δ : Type} [Preorder σ]

/-- From related states the two return related values, in related states. -/
def Agree (q R : σ → σ → Prop) (V : α → β → Prop) (m : Prog σ ε α) (m' : Prog σ ε β) : Prop :=
  ∀ s s' a b t t', R s s' → Via q m s a t → Via q m' s' b t' → V a b ∧ R t t'

namespace Agree

variable {q R : σ → σ → Prop} {V : α → β → Prop} {W : γ → δ → Prop}

theorem ite {c : Prop} [Decidable c] {m n : Prog σ ε α} {m' n' : Prog σ ε β}
    (hm : Agree q R V m m') (hn : Agree q R V n n') :
    Agree q R V (if c then m else n) (if c then m' else n') := by
  split
  · exact hm
  · exact hn

theorem halt (e : ε) (m' : Prog σ ε β) : Agree q R V (Prog.halt e) m' :=
  fun _ _ _ _ _ _ _ h _ => h.halt.elim

variable [Splits q]

theorem pure {a : α} {b : β} (h : V a b) :
    Agree q R V (Pure.pure a : Prog σ ε α) (Pure.pure b) := by
  intro s s' a' b' t t' hR h₁ h₂
  obtain ⟨rfl, rfl⟩ := h₁.pure
  obtain ⟨rfl, rfl⟩ := h₂.pure
  exact ⟨h, hR⟩

theorem lift (x : Except ε α) : Agree q R Eq (Prog.lift x) (Prog.lift x) := by
  intro s s' a b t t' hR h₁ h₂
  obtain ⟨hx, rfl⟩ := h₁.lift
  obtain ⟨hx', rfl⟩ := h₂.lift
  exact ⟨Except.ok.inj (hx.symm.trans hx'), hR⟩

theorem bind {m : Prog σ ε α} {m' : Prog σ ε β} {f : α → Prog σ ε γ} {f' : β → Prog σ ε δ}
    (hm : Agree q R V m m') (hf : ∀ a b, V a b → Agree q R W (f a) (f' b)) :
    Agree q R W (m >>= f) (m' >>= f') := by
  intro s s' c d u u' hR h₁ h₂
  obtain ⟨a, t, ha, h₁⟩ := h₁.bind
  obtain ⟨b, t', hb, h₂⟩ := h₂.bind
  obtain ⟨hV, hR'⟩ := hm s s' a b t t' hR ha hb
  exact hf a b hV t t' c d u u' hR' h₁ h₂

/-- The first parts return the same value. -/
theorem seq {m m' : Prog σ ε α} {f : α → Prog σ ε γ} {f' : α → Prog σ ε δ}
    (hm : Agree q R Eq m m') (hf : ∀ a, Agree q R W (f a) (f' a)) :
    Agree q R W (m >>= f) (m' >>= f') :=
  bind hm fun a _ heq => heq ▸ hf a

end Agree

end Prog
