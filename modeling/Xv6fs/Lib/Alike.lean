/-
  Two programs side by side.

  `Alike R Q m m'` is a triple about two programs: from states related by `R` either both return,
  and the values and states satisfy `Q`, or both stop with the same error. So, unlike `Agree`, it
  carries over that one of them returns. `InStep R m` is the case of one program in two states,
  where the values are the same and the states are related by `R` again.
-/
import Xv6fs.Lib.Prog

namespace Prog

variable {σ ε α β γ δ : Type} [Preorder σ]

/-- Both ends are returns that satisfy `Q`, or the same error. -/
inductive SameEnd (Q : α → β → σ → σ → Prop) :
    Except ε (α × σ) → Except ε (β × σ) → Prop where
  | ok {a : α} {b : β} {t t' : σ} (h : Q a b t t') : SameEnd Q (.ok (a, t)) (.ok (b, t'))
  | error (e : ε) : SameEnd Q (.error e) (.error e)

def Alike (R : σ → σ → Prop) (Q : α → β → σ → σ → Prop) (m : Prog σ ε α) (m' : Prog σ ε β) : Prop :=
  ∀ s s', R s s' → SameEnd Q (m.run s) (m'.run s')

/-- The states are related by `R` again, and the values are equal. -/
abbrev InStep (R : σ → σ → Prop) (m : Prog σ ε α) : Prop :=
  Alike R (fun a b t t' => a = b ∧ R t t') m m

namespace Alike

variable {R R' : σ → σ → Prop} {Q : α → β → σ → σ → Prop} {Q' : γ → δ → σ → σ → Prop}
  {m n : Prog σ ε α} {m' n' : Prog σ ε β}

theorem pure {a : α} {b : β} (h : ∀ s s', R s s' → Q a b s s') :
    Alike R Q (Pure.pure a : Prog σ ε α) (Pure.pure b) :=
  fun s s' hR => .ok (h s s' hR)

theorem ite {c : Prop} [Decidable c] (hm : c → Alike R Q m m') (hn : ¬ c → Alike R Q n n') :
    Alike R Q (if c then m else n) (if c then m' else n') := by
  split
  · exact hm ‹_›
  · exact hn ‹_›

theorem bind {f : α → Prog σ ε γ} {f' : β → Prog σ ε δ} (hm : Alike R Q m m')
    (hf : ∀ a b, Alike (Q a b) Q' (f a) (f' b)) : Alike R Q' (m >>= f) (m' >>= f') := by
  intro s s' hR
  have hend := hm s s' hR
  rw [run_bind, run_bind]
  generalize m.run s = x at hend ⊢
  generalize m'.run s' = x' at hend ⊢
  cases hend with
  | ok h => exact hf _ _ _ _ h
  | error e => exact .error e

/-- The first parts return the same value. -/
theorem seq {l : Prog σ ε γ} {f : γ → Prog σ ε α} {f' : γ → Prog σ ε β} (hl : InStep R l)
    (hf : ∀ c, Alike R Q (f c) (f' c)) : Alike R Q (l >>= f) (l >>= f') :=
  bind hl fun c c' s s' ⟨hc, hR⟩ => by
    subst hc
    exact hf c s s' hR

/-- The rule of consequence. -/
theorem weaken {Q₂ : α → β → σ → σ → Prop} (h : Alike R' Q m m') (hR : ∀ s s', R s s' → R' s s')
    (hQ : ∀ a b t t', Q a b t t' → Q₂ a b t t') : Alike R Q₂ m m' := by
  intro s s' hs
  have hend := h s s' (hR s s' hs)
  generalize m.run s = x at hend ⊢
  generalize m'.run s' = x' at hend ⊢
  cases hend with
  | ok h => exact .ok (hQ _ _ _ _ h)
  | error e => exact .error e

/-- What is known of the runs of the first program is known of both. -/
theorem of_left {F : α → σ → Prop} (h : Alike R Q m m')
    (hF : ∀ s s' a t, R s s' → m.run s = .ok (a, t) → F a t) :
    Alike R (fun a b t t' => Q a b t t' ∧ F a t) m m' := by
  intro s s' hR
  have hend := h s s' hR
  have hleft := fun a t => hF s s' a t hR
  generalize m.run s = x at hend hleft ⊢
  generalize m'.run s' = x' at hend ⊢
  cases hend with
  | ok hQ => exact .ok ⟨hQ, hleft _ _ rfl⟩
  | error e => exact .error e

/-- One program returns when the other does. -/
theorem right_of_left {s s' t : σ} {a : α} (h : Alike R Q m m') (hR : R s s')
    (hm : m.run s = .ok (a, t)) : ∃ b t', m'.run s' = .ok (b, t') ∧ Q a b t t' := by
  have hend := h s s' hR
  rw [hm] at hend
  generalize hm' : m'.run s' = x at hend
  cases hend with
  | ok hQ => exact ⟨_, _, rfl, hQ⟩

theorem left_of_right {s s' t' : σ} {b : β} (h : Alike R Q m m') (hR : R s s')
    (hm' : m'.run s' = .ok (b, t')) : ∃ a t, m.run s = .ok (a, t) ∧ Q a b t t' := by
  have hend := h s s' hR
  rw [hm'] at hend
  generalize hm : m.run s = x at hend
  cases hend with
  | ok hQ => exact ⟨_, _, rfl, hQ⟩

end Alike

namespace InStep

variable {R : σ → σ → Prop} {m n : Prog σ ε α}

theorem pure (a : α) : InStep R (Pure.pure a : Prog σ ε α) := Alike.pure fun _ _ h => ⟨rfl, h⟩

theorem halt (e : ε) : InStep R (Prog.halt e : Prog σ ε α) := fun _ _ _ => .error e

theorem lift (x : Except ε α) : InStep R (Prog.lift x : Prog σ ε α) := by
  intro s s' hR
  cases x with
  | error e => exact .error e
  | ok a => exact .ok ⟨rfl, hR⟩

theorem step {f : σ → α × σ} {hf : ∀ s, s ≤ (f s).2}
    (h : ∀ s s', R s s' → (f s).1 = (f s').1 ∧ R (f s).2 (f s').2) :
    InStep R (Prog.step f hf : Prog σ ε α) :=
  fun s s' hR => .ok (h s s' hR)

theorem ite {c : Prop} [Decidable c] (hm : InStep R m) (hn : InStep R n) :
    InStep R (if c then m else n) :=
  Alike.ite (fun _ => hm) fun _ => hn

theorem seq {f : α → Prog σ ε γ} (hm : InStep R m) (hf : ∀ a, InStep R (f a)) :
    InStep R (m >>= f) :=
  Alike.seq hm hf

/-- What is read of the state is the same. -/
theorem get {f : σ → Prog σ ε γ} (hread : ∀ s s', R s s' → f s' = f s)
    (hf : ∀ s, InStep R (f s)) : InStep R (Prog.get >>= f) :=
  fun s s' hR => by
    rw [run_bind, run_bind, run_get, run_get]
    dsimp only
    rw [hread s s' hR]
    exact hf s s s' hR

end InStep

end Prog
