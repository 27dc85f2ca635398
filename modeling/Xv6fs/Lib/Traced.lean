/-
  Programs that keep a trace.

  A `Traced` program adds entries to a trace, the latest first. `Gives` is a run of it, which is
  taken apart as a run of a program is. Where a program without a trace makes the same calls the
  traced one erases to it (`Erases`), so what it returns does not depend on the trace.
-/
import Xv6fs.Lib.Prog

/-- A program over the states `σ` with errors `ε`, and entries of `τ`. -/
abbrev Traced (σ : Type) [Preorder σ] (ε τ α : Type) : Type := StateT (List τ) (Prog σ ε) α

namespace Traced

variable {σ ε τ α β : Type} [Preorder σ]

/-- Add an entry. -/
def note (e : τ) : Traced σ ε τ Unit := fun t => pure ((), e :: t)

/-- A program that adds none. -/
def call (m : Prog σ ε α) : Traced σ ε τ α := fun t => do
  let a ← m
  return (a, t)

/-- The trace so far. -/
def trace : Traced σ ε τ (List τ) := fun t => pure (t, t)

/-! ## Runs -/

/-- From `s` and the trace `t` the program returns `a` in `s'`, and then the trace is `t'`. -/
def Gives (m : Traced σ ε τ α) (s : σ) (t : List τ) (a : α) (s' : σ) (t' : List τ) : Prop :=
  (m t).run s = .ok ((a, t'), s')

namespace Gives

variable {s s' : σ} {t t' : List τ} {a b : α} {m : Traced σ ε τ α}

theorem pure (h : Gives (Pure.pure a : Traced σ ε τ α) s t b s' t') : a = b ∧ s = s' ∧ t = t' := by
  cases h
  exact ⟨rfl, rfl, rfl⟩

theorem bind {f : α → Traced σ ε τ β} {c : β} (h : Gives (m >>= f) s t c s' t') :
    ∃ a s₁ t₁, Gives m s t a s₁ t₁ ∧ Gives (f a) s₁ t₁ c s' t' := by
  have hrun : (m t >>= fun r => f r.1 r.2).run s = .ok ((c, t'), s') := h
  cases hm : (m t).run s with
  | error e =>
    rw [Prog.run_bind_error hm] at hrun
    cases hrun
  | ok r =>
    obtain ⟨⟨a, t₁⟩, s₁⟩ := r
    rw [Prog.run_bind_ok hm] at hrun
    exact ⟨a, s₁, t₁, hm, hrun⟩

theorem note {e : τ} {u : Unit} (h : Gives (Traced.note e : Traced σ ε τ Unit) s t u s' t') :
    s = s' ∧ e :: t = t' := by
  cases h
  exact ⟨rfl, rfl⟩

theorem call {n : Prog σ ε α} (h : Gives (Traced.call n : Traced σ ε τ α) s t a s' t') :
    n.run s = .ok (a, s') ∧ t = t' := by
  have hrun : (n >>= fun b => (Pure.pure (b, t) : Prog σ ε (α × List τ))).run s =
    .ok ((a, t'), s') := h
  cases hn : n.run s with
  | error e =>
    rw [Prog.run_bind_error hn] at hrun
    cases hrun
  | ok r =>
    rw [Prog.run_bind_ok hn] at hrun
    cases hrun
    exact ⟨rfl, rfl⟩

theorem trace {r : List τ} (h : Gives (Traced.trace : Traced σ ε τ (List τ)) s t r s' t') :
    t = r ∧ s = s' ∧ t = t' := by
  cases h
  exact ⟨rfl, rfl, rfl⟩

theorem ite {c : Prop} [Decidable c] {n : Traced σ ε τ α}
    (h : Gives (if c then m else n) s t a s' t') :
    (c ∧ Gives m s t a s' t') ∨ (¬ c ∧ Gives n s t a s' t') := by
  by_cases hc : c
  · rw [if_pos hc] at h
    exact .inl ⟨hc, h⟩
  · rw [if_neg hc] at h
    exact .inr ⟨hc, h⟩

end Gives

/-! ## Erasing the trace -/

/-- Without the trace `m` runs as `n` does. -/
def Erases (m : Traced σ ε τ α) (n : Prog σ ε α) : Prop :=
  ∀ s t, ((m t).run s).map (fun r => (r.1.1, r.2)) = n.run s

namespace Erases

variable {m : Traced σ ε τ α} {n : Prog σ ε α}

theorem pure (a : α) : Erases (Pure.pure a : Traced σ ε τ α) (Pure.pure a) := fun _ _ => rfl

theorem call (n : Prog σ ε α) : Erases (Traced.call n : Traced σ ε τ α) n := by
  intro s t
  show Except.map _ ((n >>= fun b => (Pure.pure (b, t) : Prog σ ε (α × List τ))).run s) = _
  cases hn : n.run s with
  | error e => rw [Prog.run_bind_error hn]; rfl
  | ok r => rw [Prog.run_bind_ok hn]; rfl

theorem bind {f : α → Traced σ ε τ β} {g : α → Prog σ ε β} (hm : Erases m n)
    (hf : ∀ a, Erases (f a) (g a)) : Erases (m >>= f) (n >>= g) := by
  intro s t
  have hrun := hm s t
  show Except.map _ ((m t >>= fun r => f r.1 r.2).run s) = _
  cases h : (m t).run s with
  | error e =>
    rw [h] at hrun
    rw [Prog.run_bind_error h, Prog.run_bind_error hrun.symm]
    rfl
  | ok r =>
    obtain ⟨⟨a, t₁⟩, s₁⟩ := r
    rw [h] at hrun
    rw [Prog.run_bind_ok h, Prog.run_bind_ok hrun.symm]
    exact hf a s₁ t₁

/-- What only touches the trace is not seen. -/
theorem skip {a : α} {f : α → Traced σ ε τ β} {g : Prog σ ε β} (hm : Erases m (Pure.pure a))
    (hf : Erases (f a) g) : Erases (m >>= f) g := by
  intro s t
  have hrun := hm s t
  show Except.map _ ((m t >>= fun r => f r.1 r.2).run s) = _
  cases h : (m t).run s with
  | error e =>
    rw [h] at hrun
    cases hrun
  | ok r =>
    obtain ⟨⟨b, t₁⟩, s₁⟩ := r
    rw [h] at hrun
    cases hrun
    rw [Prog.run_bind_ok h]
    exact hf s₁ t₁

theorem note (e : τ) : Erases (Traced.note e : Traced σ ε τ Unit) (Pure.pure ()) := fun _ _ => rfl

theorem trace {f : List τ → Traced σ ε τ β} {g : Prog σ ε β} (hf : ∀ t, Erases (f t) g) :
    Erases (Traced.trace >>= f) g :=
  fun s t => hf t s t

/-- The trace is looked after at the end. -/
theorem andThen {f : α → Traced σ ε τ α} (hm : Erases m n)
    (hf : ∀ a, Erases (f a) (Pure.pure a)) : Erases (m >>= f) n := by
  intro s t
  rw [bind hm hf s t, Prog.run_bind]
  cases n.run s with
  | error e => rfl
  | ok r => rfl

theorem ite {c : Prop} [Decidable c] {m' : Traced σ ε τ α} {n' : Prog σ ε α} (h : Erases m n)
    (h' : Erases m' n') : Erases (if c then m else m') (if c then n else n') := by
  split
  · exact h
  · exact h'

/-- What a traced run returns the program returns. -/
theorem run {s s' : σ} {t t' : List τ} {a : α} (h : Erases m n) (hm : Gives m s t a s' t') :
    n.run s = .ok (a, s') := by
  rw [← h s t, hm]
  rfl

end Erases

end Traced
