/-
  What a program ends in.

  `Ends m s Q E` says that from `s` the program `m` either returns, and its result and last state
  satisfy `Q`, or stops, and its error satisfies `E`. One statement of this kind about a function
  tells what it leaves when it returns and why it stops when it does not, so that from facts that
  exclude every error it follows that the function returns. The rules follow the text of a program.
-/
import Xv6fs.Lib.Prog

namespace Prog

variable {σ ε α β : Type} [Preorder σ]

/-- From `s` the program returns with `Q`, or stops with `E`. -/
def Ends (m : Prog σ ε α) (s : σ) (Q : α → σ → Prop) (E : ε → Prop) : Prop :=
  match m.run s with
  | .ok (a, t) => Q a t
  | .error e => E e

namespace Ends

variable {s t : σ} {a : α} {Q Q' : α → σ → Prop} {R : β → σ → Prop} {E E' : ε → Prop}

/-! ## What it gives -/

theorem returned {m : Prog σ ε α} (h : Ends m s Q E) (hrun : m.run s = .ok (a, t)) : Q a t := by
  unfold Ends at h
  rw [hrun] at h
  exact h

theorem stopped {m : Prog σ ε α} {e : ε} (h : Ends m s Q E) (hrun : m.run s = .error e) : E e := by
  unfold Ends at h
  rw [hrun] at h
  exact h

/-- A program that cannot stop returns. -/
theorem returns {m : Prog σ ε α} (h : Ends m s Q E) (hE : ∀ e, ¬ E e) :
    ∃ a t, m.run s = .ok (a, t) ∧ Q a t := by
  cases hrun : m.run s with
  | error e => exact absurd (h.stopped hrun) (hE e)
  | ok r => exact ⟨r.1, r.2, rfl, h.returned hrun⟩

theorem weaken {m : Prog σ ε α} (h : Ends m s Q E) (hQ : ∀ a t, s ≤ t → Q a t → Q' a t)
    (hE : ∀ e, E e → E' e) : Ends m s Q' E' := by
  unfold Ends
  cases hrun : m.run s with
  | error e => exact hE e (h.stopped hrun)
  | ok r => exact hQ r.1 r.2 (m.mono s r.1 r.2 hrun) (h.returned hrun)

/-! ## The rules -/

theorem pure (h : Q a s) : Ends (Pure.pure a : Prog σ ε α) s Q E := h

theorem halt {e : ε} (h : E e) : Ends (Prog.halt e : Prog σ ε α) s Q E := h

theorem halt_bind {e : ε} {f : α → Prog σ ε β} (h : E e) : Ends (Prog.halt e >>= f) s R E := h

theorem step {f : σ → α × σ} {hf : ∀ s, s ≤ (f s).2} (h : Q (f s).1 (f s).2) :
    Ends (Prog.step f hf : Prog σ ε α) s Q E := h

theorem bind {m : Prog σ ε α} {f : α → Prog σ ε β} (hm : Ends m s Q E)
    (hf : ∀ a t, s ≤ t → Q a t → Ends (f a) t R E) : Ends (m >>= f) s R E := by
  unfold Ends
  cases hrun : m.run s with
  | error e =>
    rw [run_bind_error hrun]
    exact hm.stopped hrun
  | ok r =>
    rw [run_bind_ok (a := r.1) (t := r.2) hrun]
    exact hf r.1 r.2 (m.mono s r.1 r.2 hrun) (hm.returned hrun)

/-- A call of a function with a statement of its own. -/
theorem call {m : Prog σ ε α} {f : α → Prog σ ε β} (hm : Ends m s Q E') (hE : ∀ e, E' e → E e)
    (hf : ∀ a t, s ≤ t → Q a t → Ends (f a) t R E) : Ends (m >>= f) s R E :=
  (hm.weaken (fun _ _ _ h => h) hE).bind hf

theorem get_bind {f : σ → Prog σ ε β} (h : Ends (f s) s R E) : Ends (Prog.get >>= f) s R E := h

theorem ite {c : Prop} [Decidable c] {m n : Prog σ ε α} (hm : c → Ends m s Q E)
    (hn : ¬ c → Ends n s Q E) : Ends (if c then m else n) s Q E := by
  split
  · exact hm ‹_›
  · exact hn ‹_›

end Ends

end Prog
