/-
  Relations between the first and the last state of a run.

  `Keeps R m` says that `R` holds between the two in every run of `m`. For a preorder `R` the parts
  of a program can be taken one by one, so a frame condition of a long program is proved along its
  text (`Keeps.bind`, `Keeps.ite`, …), with no state named on the way.
-/
import Xv6fs.Lib.Prog
import Mathlib.Order.Defs.Unbundled

namespace Prog

variable {σ ε α β : Type} [Preorder σ] {R : σ → σ → Prop}

/-- Every run of `m` leads from a state to one that `R` relates it to. -/
def Keeps (R : σ → σ → Prop) (m : Prog σ ε α) : Prop :=
  ∀ s a t, m.run s = .ok (a, t) → R s t

namespace Keeps

theorem via {q : σ → σ → Prop} {m : Prog σ ε α} {s t : σ} {a : α} (h : Keeps R m)
    (hrun : Via q m s a t) : R s t :=
  h s a t hrun.1

theorem halt (e : ε) : Keeps R (Prog.halt e : Prog σ ε α) := by
  intro s a t h
  cases h

theorem step {f : σ → α × σ} {hf : ∀ s, s ≤ (f s).2} (h : ∀ s, R s (f s).2) :
    Keeps R (Prog.step f hf : Prog σ ε α) := by
  intro s a t hrun
  have hs := h s
  rw [Except.ok.inj hrun] at hs
  exact hs

theorem ite {c : Prop} [Decidable c] {m n : Prog σ ε α} (hm : Keeps R m) (hn : Keeps R n) :
    Keeps R (if c then m else n) := by
  split
  · exact hm
  · exact hn

variable [IsPreorder σ R]

theorem pure (a : α) : Keeps R (Pure.pure a : Prog σ ε α) := by
  intro s b t h
  cases h
  exact refl_of R s

theorem get : Keeps R (Prog.get : Prog σ ε σ) := by
  intro s b t h
  cases h
  exact refl_of R s

theorem lift (x : Except ε α) : Keeps R (Prog.lift x : Prog σ ε α) := by
  cases x with
  | error e => exact halt e
  | ok a => exact pure a

theorem bind {m : Prog σ ε α} {f : α → Prog σ ε β} (hm : Keeps R m) (hf : ∀ a, Keeps R (f a)) :
    Keeps R (m >>= f) := by
  intro s b u h
  cases hrun : m.run s with
  | error e =>
    rw [run_bind_error hrun] at h
    cases h
  | ok r =>
    obtain ⟨a, t⟩ := r
    rw [run_bind_ok hrun] at h
    exact trans_of R (hm s a t hrun) (hf a t b u h)

end Keeps

end Prog
