/-
  Sequential programs over a state that only moves forward.

  A `Prog σ ε α` runs from a state of `σ`, stops with an error of `ε` or returns a value of `α`
  in a later state. The order on `σ` says what "later" means (a log that only grows, a
  configuration that never changes) and every program carries the proof that it respects it,
  so a fact of this kind needs no proof for any program built from the primitives.

  `Via q m s a t` says that `m` returns `a` when run from `s`, ends in `t`, and that the part
  of the history between `s` and `t` satisfies `q`. A `q` that can be cut at any state in
  between (`Splits`) passes to the parts of a program, and the lemmas `via_bind`, `via_pure`,
  … take a run of a compound program apart into runs of its parts.
-/
import Mathlib.Order.Defs.PartialOrder

/-- A program over the states `σ` with errors `ε`. `mono`: no run goes back. -/
structure Prog (σ : Type) [Preorder σ] (ε α : Type) where
  run : σ → Except ε (α × σ)
  mono : ∀ s a t, run s = .ok (a, t) → s ≤ t

namespace Prog

variable {σ ε α β : Type} [Preorder σ]

/-! ## Building programs -/

/-- Return `a`, change nothing. -/
protected def pure (a : α) : Prog σ ε α where
  run s := .ok (a, s)
  mono := by
    intro s b t h
    cases h
    exact le_refl s

/-- Run `m`, then what `f` makes of its result. -/
protected def bind (m : Prog σ ε α) (f : α → Prog σ ε β) : Prog σ ε β where
  run s := match m.run s with
    | .ok (a, t) => (f a).run t
    | .error e => .error e
  mono := by
    intro s b u h
    cases hm : m.run s with
    | error e => rw [hm] at h; cases h
    | ok r =>
      obtain ⟨a, t⟩ := r
      rw [hm] at h
      exact le_trans (m.mono s a t hm) ((f a).mono t b u h)

instance : Monad (Prog σ ε) where
  pure := Prog.pure
  bind := Prog.bind

/-- The current state. -/
protected def get : Prog σ ε σ where
  run s := .ok (s, s)
  mono := by
    intro s b t h
    cases h
    exact le_refl s

/-- Replace the state by a later one and return a value read from the old one. -/
def step (f : σ → α × σ) (hf : ∀ s, s ≤ (f s).2) : Prog σ ε α where
  run s := .ok (f s)
  mono := by
    intro s b t h
    have hs := hf s
    rw [Except.ok.inj h] at hs
    exact hs

/-- Stop with the error `e`. -/
def halt (e : ε) : Prog σ ε α where
  run _ := .error e
  mono := by
    intro s b t h
    cases h

/-- A computation that does not touch the state. -/
def lift (x : Except ε α) : Prog σ ε α where
  run s := match x with
    | .ok a => .ok (a, s)
    | .error e => .error e
  mono := by
    intro s b t h
    cases x with
    | error e => cases h
    | ok a => cases h; exact le_refl s

/-! ## How programs run -/

theorem run_bind (m : Prog σ ε α) (f : α → Prog σ ε β) (s : σ) :
    (m >>= f).run s = match m.run s with
      | .ok (a, t) => (f a).run t
      | .error e => .error e := rfl

theorem run_get (s : σ) : (Prog.get : Prog σ ε σ).run s = .ok (s, s) := rfl

theorem run_bind_ok {m : Prog σ ε α} {f : α → Prog σ ε β} {s t : σ} {a : α}
    (h : m.run s = .ok (a, t)) : (m >>= f).run s = (f a).run t := by
  rw [run_bind, h]

theorem run_bind_error {m : Prog σ ε α} {f : α → Prog σ ε β} {s : σ} {e : ε}
    (h : m.run s = .error e) : (m >>= f).run s = .error e := by
  rw [run_bind, h]

/-- Two programs with the same runs are the same. -/
theorem ext_run {m n : Prog σ ε α} (h : ∀ s, m.run s = n.run s) : m = n := by
  cases m with
  | mk f hf =>
    cases n with
    | mk g hg =>
      obtain rfl : f = g := funext h
      rfl

/-- What follows `m` matters where `m` returns. -/
theorem run_bind_congr {m : Prog σ ε α} {f g : α → Prog σ ε β} {s : σ}
    (h : ∀ a t, m.run s = .ok (a, t) → (f a).run t = (g a).run t) :
    (m >>= f).run s = (m >>= g).run s := by
  rw [run_bind, run_bind]
  cases hm : m.run s with
  | error e => rfl
  | ok r => exact h r.1 r.2 hm

/-! ## Taking runs apart -/

/-- A property of the history between two states that can be cut, and glued, at any state
    in between. -/
class Splits (q : σ → σ → Prop) : Prop where
  refl : ∀ s, q s s
  split : ∀ {s t u}, s ≤ t → t ≤ u → (q s u ↔ q s t ∧ q t u)

/-- `m` returns `a` from `s` in `t`, and the history between satisfies `q`. -/
def Via (q : σ → σ → Prop) (m : Prog σ ε α) (s : σ) (a : α) (t : σ) : Prop :=
  m.run s = .ok (a, t) ∧ q s t

theorem Via.mono {q : σ → σ → Prop} {m : Prog σ ε α} {s t : σ} {a : α}
    (h : Via q m s a t) : s ≤ t :=
  m.mono s a t h.1

theorem Via.weaken {q q' : σ → σ → Prop} {m : Prog σ ε α} {s t : σ} {a : α}
    (h : Via q m s a t) (hq : q s t → q' s t) : Via q' m s a t :=
  ⟨h.1, hq h.2⟩

section Inversion

variable {q : σ → σ → Prop}

@[simp] theorem via_pure [hq : Splits q] (a b : α) (s t : σ) :
    Via q (pure a : Prog σ ε α) s b t ↔ b = a ∧ t = s := by
  constructor
  · rintro ⟨h, -⟩
    cases h
    exact ⟨rfl, rfl⟩
  · rintro ⟨rfl, rfl⟩
    exact ⟨rfl, hq.refl _⟩

@[simp] theorem via_bind [hq : Splits q] (m : Prog σ ε α) (f : α → Prog σ ε β) (s u : σ) (b : β) :
    Via q (m >>= f) s b u ↔ ∃ a t, Via q m s a t ∧ Via q (f a) t b u := by
  constructor
  · rintro ⟨h, hs⟩
    cases hm : m.run s with
    | error e => rw [run_bind_error hm] at h; cases h
    | ok r =>
      obtain ⟨a, t⟩ := r
      rw [run_bind_ok hm] at h
      have hcut := (hq.split (m.mono s a t hm) ((f a).mono t b u h)).mp hs
      exact ⟨a, t, ⟨hm, hcut.1⟩, h, hcut.2⟩
  · rintro ⟨a, t, h1, h2⟩
    refine ⟨?_, (hq.split h1.mono h2.mono).mpr ⟨h1.2, h2.2⟩⟩
    rw [run_bind_ok h1.1, h2.1]

@[simp] theorem via_get [Splits q] (s t v : σ) :
    Via q (Prog.get : Prog σ ε σ) s v t ↔ v = s ∧ t = s :=
  via_pure s v s t

@[simp] theorem via_step (f : σ → α × σ) (hf : ∀ s, s ≤ (f s).2) (s t : σ) (a : α) :
    Via q (step f hf : Prog σ ε α) s a t ↔ a = (f s).1 ∧ t = (f s).2 ∧ q s (f s).2 := by
  constructor
  · rintro ⟨h, hs⟩
    have hf' : f s = (a, t) := Except.ok.inj h
    rw [hf']
    exact ⟨rfl, rfl, hs⟩
  · rintro ⟨rfl, rfl, hs⟩
    exact ⟨rfl, hs⟩

@[simp] theorem via_halt (e : ε) (s t : σ) (a : α) :
    Via q (halt e : Prog σ ε α) s a t ↔ False := by
  refine ⟨?_, False.elim⟩
  rintro ⟨h, -⟩
  cases h

@[simp] theorem via_lift [Splits q] (x : Except ε α) (s t : σ) (a : α) :
    Via q (lift x : Prog σ ε α) s a t ↔ x = .ok a ∧ t = s := by
  cases x with
  | error e =>
    refine ⟨?_, ?_⟩
    · rintro ⟨h, -⟩; cases h
    · rintro ⟨h, -⟩; cases h
  | ok b =>
    refine (via_pure b a s t).trans ?_
    refine and_congr_left fun _ => ?_
    exact ⟨fun h => by rw [h], fun h => (Except.ok.inj h).symm⟩

theorem via_ite (c : Prop) [Decidable c] (m n : Prog σ ε α) (s t : σ) (a : α) :
    Via q (if c then m else n) s a t ↔ (c ∧ Via q m s a t) ∨ (¬ c ∧ Via q n s a t) := by
  by_cases hc : c <;> simp [hc]

/-! The same, as steps of a proof that follows a run. -/

namespace Via

variable [Splits q] {s u : σ}

protected theorem bind {m : Prog σ ε α} {f : α → Prog σ ε β} {b : β}
    (h : Via q (m >>= f) s b u) : ∃ a t, Via q m s a t ∧ Via q (f a) t b u :=
  (via_bind m f s u b).mp h

protected theorem pure {a b : α} (h : Via q (pure a : Prog σ ε α) s b u) : a = b ∧ s = u :=
  let ⟨hb, hu⟩ := (via_pure a b s u).mp h
  ⟨hb.symm, hu.symm⟩

omit [Splits q] in
protected theorem halt {e : ε} {a : α} (h : Via q (halt e : Prog σ ε α) s a u) : False :=
  (via_halt e s u a).mp h

protected theorem lift {x : Except ε α} {a : α} (h : Via q (lift x : Prog σ ε α) s a u) :
    x = .ok a ∧ s = u :=
  let ⟨hx, hu⟩ := (via_lift x s u a).mp h
  ⟨hx, hu.symm⟩

omit [Splits q] in
protected theorem ite {c : Prop} [Decidable c] {m n : Prog σ ε α} {a : α}
    (h : Via q (if c then m else n) s a u) : (c ∧ Via q m s a u) ∨ (¬ c ∧ Via q n s a u) :=
  (via_ite c m n s u a).mp h

end Via

end Inversion

/-! ## Programs that always return -/

/-- `m` returns from every state. -/
def Total (m : Prog σ ε α) : Prop := ∀ s, ∃ a t, m.run s = .ok (a, t)

theorem total_pure (a : α) : Total (pure a : Prog σ ε α) := fun s => ⟨a, s, rfl⟩

theorem total_get : Total (Prog.get : Prog σ ε σ) := fun s => ⟨s, s, rfl⟩

theorem total_step (f : σ → α × σ) (hf : ∀ s, s ≤ (f s).2) : Total (step f hf : Prog σ ε α) :=
  fun s => ⟨(f s).1, (f s).2, rfl⟩

theorem Total.bind {m : Prog σ ε α} {f : α → Prog σ ε β} (hm : Total m) (hf : ∀ a, Total (f a)) :
    Total (m >>= f) := by
  intro s
  obtain ⟨a, t, h⟩ := hm s
  obtain ⟨b, u, h'⟩ := hf a t
  exact ⟨b, u, by rw [run_bind_ok h, h']⟩

theorem Total.lift_bind {a : α} {f : α → Prog σ ε β} (hf : Total (f a)) :
    Total (lift (.ok a) >>= f) := by
  intro s
  obtain ⟨b, u, h⟩ := hf s
  exact ⟨b, u, h⟩

theorem Total.ite {c : Prop} [Decidable c] {m n : Prog σ ε α} (hm : Total m) (hn : Total n) :
    Total (if c then m else n) := by
  split
  · exact hm
  · exact hn

/-- The same when a branch needs its condition. -/
theorem Total.dite {c : Prop} [Decidable c] {m n : Prog σ ε α} (hm : c → Total m)
    (hn : ¬ c → Total n) : Total (if c then m else n) := by
  split
  · exact hm ‹_›
  · exact hn ‹_›

end Prog
