/-
  A table of slots as a finite map.

  A slot is empty or holds a key with a value. While no key is held twice, `find` is a finite map:
  filling an empty slot, one behind the last included, maps the new key (`find_put`), and clearing
  a slot unmaps the key it held (`find_clear`).
-/
import Mathlib.Logic.Function.Basic
import Mathlib.Tactic.Common

namespace Table

variable {K V : Type} [DecidableEq K] {t t' : Nat → Option (K × V)} {n n' i : Nat} {k : K} {v : V}

/-- The value held with a key by one of the first `n` slots. -/
def find (t : Nat → Option (K × V)) : Nat → K → Option V
  | 0, _ => none
  | n + 1, k =>
    match t n with
    | some e => if e.1 = k then some e.2 else find t n k
    | none => find t n k

/-- No key is held by two of the first `n` slots. -/
def Distinct (t : Nat → Option (K × V)) (n : Nat) : Prop :=
  ∀ i j k v v', i < n → j < n → t i = some (k, v) → t j = some (k, v') → i = j

theorem find_succ : find t (n + 1) k = match t n with
    | some e => if e.1 = k then some e.2 else find t n k
    | none => find t n k := rfl

theorem find_eq_none : find t n k = none ↔ ∀ i, i < n → ∀ v, t i ≠ some (k, v) := by
  induction n with
  | zero => exact iff_of_true rfl fun i hi => absurd hi (by omega)
  | succ n ih =>
    have hsplit : (∀ i, i < n + 1 → ∀ v, t i ≠ some (k, v)) ↔
        (∀ v, t n ≠ some (k, v)) ∧ ∀ i, i < n → ∀ v, t i ≠ some (k, v) := by
      refine ⟨fun h => ⟨h n (by omega), fun i hi => h i (by omega)⟩, fun h i hi => ?_⟩
      rcases Nat.eq_or_lt_of_le (Nat.le_of_lt_succ hi) with rfl | hlt
      · exact h.1
      · exact h.2 i hlt
    rw [hsplit, ← ih, find_succ]
    cases hslot : t n with
    | none => simp
    | some e =>
      obtain ⟨k', v'⟩ := e
      by_cases hk : k' = k
      · simp [hk]
      · simp [hk]

theorem find_eq_some (hd : Distinct t n) :
    find t n k = some v ↔ ∃ i, i < n ∧ t i = some (k, v) := by
  induction n with
  | zero => exact iff_of_false (by simp [find]) fun ⟨i, hi, _⟩ => absurd hi (by omega)
  | succ n ih =>
    have hrec := ih fun i j k v v' hi hj => hd i j k v v' (by omega) (by omega)
    rw [find_succ]
    cases hslot : t n with
    | none =>
      refine hrec.trans ⟨fun ⟨i, hi, h⟩ => ⟨i, by omega, h⟩, fun ⟨i, hi, h⟩ => ⟨i, ?_, h⟩⟩
      have hne : i ≠ n := fun heq => by rw [heq, hslot] at h; cases h
      omega
    | some e =>
      obtain ⟨k', v'⟩ := e
      by_cases hk : k' = k
      · subst hk
        simp only [if_true, Option.some.injEq]
        constructor
        · rintro rfl
          exact ⟨n, by omega, hslot⟩
        · rintro ⟨i, hi, h⟩
          obtain rfl := hd i n _ _ _ hi (by omega) h hslot
          rw [hslot] at h
          cases h
          rfl
      · simp only [if_neg hk]
        refine hrec.trans ⟨fun ⟨i, hi, h⟩ => ⟨i, by omega, h⟩, fun ⟨i, hi, h⟩ => ⟨i, ?_, h⟩⟩
        have hne : i ≠ n := fun heq => by
          rw [heq, hslot] at h
          cases h
          exact hk rfl
        omega

/-- Tables whose slots agree hold the same map. -/
theorem find_congr (h : ∀ i, i < n → t' i = t i) : find t' n k = find t n k := by
  induction n with
  | zero => rfl
  | succ n ih =>
    rw [find_succ, find_succ, h n (by omega), ih fun i hi => h i (by omega)]

section Put

variable (hd : Distinct t n) (hnew : ∀ j, n ≤ j → j < n' → j = i)
  (hkeep : ∀ j, j < n' → j ≠ i → t' j = t j)

include hd hnew hkeep

theorem distinct_put (hset : t' i = some (k, v)) (hnone : find t n k = none) : Distinct t' n' := by
  have hold : ∀ {j}, j < n' → j ≠ i → j < n := fun {j} hj hne => by
    by_contra hlt
    exact hne (hnew j (by omega) hj)
  have habsent : ∀ {j v'}, j < n' → j ≠ i → t' j ≠ some (k, v') := fun {j v'} hj hne => by
    rw [hkeep j hj hne]
    exact find_eq_none.mp hnone j (hold hj hne) v'
  intro a b k' v₁ v₂ ha hb h1 h2
  by_cases hai : a = i
  · subst hai
    rw [hset] at h1
    cases h1
    by_contra hne
    exact habsent hb (Ne.symm hne) h2
  · by_cases hbi : b = i
    · subst hbi
      rw [hset] at h2
      cases h2
      exact absurd h1 (habsent ha hai)
    · rw [hkeep a ha hai] at h1
      rw [hkeep b hb hbi] at h2
      exact hd a b k' v₁ v₂ (hold ha hai) (hold hb hbi) h1 h2

/-- Filling an empty slot maps the new key. -/
theorem find_put (hle : n ≤ n') (hi : i < n') (hfree : i < n → t i = none)
    (hset : t' i = some (k, v)) (hnone : find t n k = none) :
    find t' n' = Function.update (find t n) k (some v) := by
  have hd' := distinct_put hd hnew hkeep hset hnone
  have hold : ∀ {j}, j < n' → j ≠ i → j < n := fun {j} hj hne => by
    by_contra hlt
    exact hne (hnew j (by omega) hj)
  funext x
  by_cases hx : x = k
  · subst hx
    rw [Function.update_self]
    exact (find_eq_some hd').mpr ⟨i, hi, hset⟩
  · rw [Function.update_of_ne hx]
    refine Option.ext fun y => ?_
    rw [find_eq_some hd', find_eq_some hd]
    constructor
    · rintro ⟨j, hj, h⟩
      have hji : j ≠ i := fun heq => by
        rw [heq, hset] at h
        cases h
        exact hx rfl
      rw [hkeep j hj hji] at h
      exact ⟨j, hold hj hji, h⟩
    · rintro ⟨j, hj, h⟩
      have hji : j ≠ i := fun heq => by
        subst heq
        rw [hfree hj] at h
        cases h
      exact ⟨j, by omega, (hkeep j (by omega) hji).trans h⟩

end Put

section Clear

variable (hd : Distinct t n) (hkeep : ∀ j, j < n → j ≠ i → t' j = t j) (hset : t' i = none)

include hd hkeep hset

omit [DecidableEq K] in
theorem distinct_clear : Distinct t' n := by
  have hne : ∀ {j k v}, t' j = some (k, v) → j ≠ i := fun {j k v} h heq => by
    rw [heq, hset] at h
    cases h
  intro a b k' v₁ v₂ ha hb h1 h2
  rw [hkeep a ha (hne h1)] at h1
  rw [hkeep b hb (hne h2)] at h2
  exact hd a b k' v₁ v₂ ha hb h1 h2

/-- Clearing a slot unmaps the key it held. -/
theorem find_clear (hi : i < n) (hhad : t i = some (k, v)) :
    find t' n = Function.update (find t n) k none := by
  have hd' := distinct_clear hd hkeep hset
  funext x
  refine Option.ext fun y => ?_
  rw [find_eq_some hd']
  by_cases hx : x = k
  · subst hx
    rw [Function.update_self]
    refine iff_of_false (fun ⟨j, hj, h⟩ => ?_) (by simp)
    have hji : j ≠ i := fun heq => by
      rw [heq, hset] at h
      cases h
    rw [hkeep j hj hji] at h
    exact hji (hd j i _ _ _ hj hi h hhad)
  · rw [Function.update_of_ne hx, find_eq_some hd]
    constructor
    · rintro ⟨j, hj, h⟩
      have hji : j ≠ i := fun heq => by
        rw [heq, hset] at h
        cases h
      exact ⟨j, hj, (hkeep j hj hji).symm.trans h⟩
    · rintro ⟨j, hj, h⟩
      have hji : j ≠ i := fun heq => by
        subst heq
        rw [hhad] at h
        cases h
        exact hx rfl
      exact ⟨j, hj, (hkeep j hj hji).trans h⟩

end Clear

end Table
