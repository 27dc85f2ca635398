/-
  When the dentry operations agree with the equality of names.

  `Qstr.bytes` is the name itself. `xv6Cmp` finds two names equal when the bytes at their addresses
  agree up to a NUL or to byte 14, and `xv6Hash` hashes 14 bytes: both go on behind a name that is
  shorter. So they agree with the names when what follows equal names is the same, and what follows
  different ones does not make up for the difference (`hooks_agree_iff`).
-/
import Xv6fs.Model.Dentry
import Mathlib.Order.Nat

namespace Xv6fs

/-- The name, up to 14 bytes. -/
def Qstr.bytes (s : Qstr) : List UInt8 := (List.range (min s.len DIRSIZ)).map s.name

/-- The comparison is that of the names, and names found equal have one hash. -/
def HooksAgree (s t : Qstr) : Prop :=
  (xv6Cmp s.len s.name t = 0 ↔ s.bytes = t.bytes) ∧
    ∀ fullNameHash, xv6Cmp s.len s.name t = 0 →
      (xv6Hash fullNameHash s).hash = (xv6Hash fullNameHash t).hash

/-- What the bytes at the addresses of two names have to be. -/
structure HooksFit (s t : Qstr) : Prop where
  /-- equal names: the same 14 bytes, or a NUL at once (no hash is computed then) -/
  same : s.bytes = t.bytes → (s.name 0 ≠ 0 ∧ ∀ i, i < DIRSIZ → s.name i = t.name i) ∨
    (s.name 0 = 0 ∧ t.name 0 = 0 ∧ s.hash = t.hash)
  /-- different names: a different byte, with no NUL before it -/
  differ : s.bytes ≠ t.bytes → ∃ i, i < DIRSIZ ∧ s.name i ≠ t.name i ∧
    ∀ j, j < i → s.name j ≠ 0

/-! ## The comparison -/

variable {pa pb : Nat → UInt8} {s t : Qstr}

/-- The result is not 0 when there is a different byte, with no NUL before it. -/
theorem cmpLoop_ne_zero_iff : ∀ {n i : Nat}, xv6Cmp.loop pa pb n i ≠ 0 ↔
    ∃ k, i ≤ k ∧ k < i + n ∧ pa k ≠ pb k ∧ ∀ j, i ≤ j → j < k → pb j ≠ 0
  | 0, i => iff_of_false (fun h => h rfl) fun ⟨k, hk, hk', _⟩ => absurd hk' (not_lt.mpr hk)
  | n + 1, i => by
    unfold xv6Cmp.loop
    by_cases hne : pa i = pb i
    · by_cases hnul : pa i = 0
      · rw [if_pos (.inr hnul), ← hne, sub_self]
        refine iff_of_false (fun h => h rfl) fun ⟨k, hk, _, hdiff, hbefore⟩ => ?_
        rcases Nat.eq_or_lt_of_le hk with rfl | hlt
        · exact hdiff hne
        · exact hbefore i (le_refl i) hlt (hne ▸ hnul)
      · rw [if_neg (by simp [hne, hne ▸ hnul]), cmpLoop_ne_zero_iff]
        constructor
        · rintro ⟨k, hk, hk', hdiff, hbefore⟩
          refine ⟨k, by omega, by omega, hdiff, fun j hj hj' => ?_⟩
          rcases Nat.eq_or_lt_of_le hj with rfl | hlt
          · exact fun h => hnul (hne.trans h)
          · exact hbefore j hlt hj'
        · rintro ⟨k, hk, hk', hdiff, hbefore⟩
          have hlt : i < k := lt_of_le_of_ne hk fun h => hdiff (h ▸ hne)
          exact ⟨k, hlt, by omega, hdiff, fun j hj hj' => hbefore j (by omega) hj'⟩
    · rw [if_pos (.inl hne)]
      have hsub : ((pa i).toNat : Int) - (pb i).toNat ≠ 0 := by
        intro h
        exact hne (UInt8.toNat_inj.mp (by omega))
      exact iff_of_true hsub ⟨i, le_refl i, by omega, hne, fun j hj hj' =>
        absurd hj' (not_lt.mpr hj)⟩

theorem cmp_ne_zero_iff : xv6Cmp s.len s.name t ≠ 0 ↔
    ∃ i, i < DIRSIZ ∧ s.name i ≠ t.name i ∧ ∀ j, j < i → s.name j ≠ 0 := by
  refine cmpLoop_ne_zero_iff.trans ⟨?_, ?_⟩
  · rintro ⟨k, -, hk, hdiff, hbefore⟩
    exact ⟨k, by omega, hdiff.symm, fun j hj => hbefore j (Nat.zero_le j) hj⟩
  · rintro ⟨k, hk, hdiff, hbefore⟩
    exact ⟨k, Nat.zero_le k, by omega, hdiff.symm, fun j _ hj => hbefore j hj⟩

theorem cmp_eq_zero_iff : xv6Cmp s.len s.name t = 0 ↔
    ¬ ∃ i, i < DIRSIZ ∧ s.name i ≠ t.name i ∧ ∀ j, j < i → s.name j ≠ 0 :=
  not_iff_not.mp (cmp_ne_zero_iff.trans not_not.symm)

/-! ## The hash -/

/-- All hash functions give the hashes of two names whose bytes agree up to a NUL the same value
    when all 14 bytes agree, or none is hashed. -/
theorem hash_eq_iff (h : xv6Cmp s.len s.name t = 0) :
    (∀ f, (xv6Hash f s).hash = (xv6Hash f t).hash) ↔
      (s.name 0 ≠ 0 ∧ ∀ i, i < DIRSIZ → s.name i = t.name i) ∨
        (s.name 0 = 0 ∧ t.name 0 = 0 ∧ s.hash = t.hash) := by
  have hfirst : s.name 0 = t.name 0 := by
    by_contra hne
    exact cmp_eq_zero_iff.mp h ⟨0, by decide, hne, fun j hj => absurd hj (Nat.not_lt_zero j)⟩
  by_cases hnul : s.name 0 = 0
  · have hnul' : t.name 0 = 0 := hfirst ▸ hnul
    simp [xv6Hash, hnul, hnul']
  · have hnul' : t.name 0 ≠ 0 := hfirst ▸ hnul
    simp only [xv6Hash, if_pos hnul, if_pos hnul']
    constructor
    · intro hall
      refine .inl ⟨hnul, fun i hi => ?_⟩
      -- the hash function that tells byte `i` of the one name from the others
      have hi' := hall fun bytes => if bytes ⟨i, hi⟩ = s.name i then 1 else 0
      by_contra hne
      rw [if_pos rfl, if_neg fun heq => hne heq.symm] at hi'
      cases hi'
    · rintro (⟨-, hall⟩ | ⟨h0, -, -⟩) f
      · exact congrArg f (funext fun i => hall i.val i.isLt)
      · exact absurd h0 hnul

/-- The operations agree with the equality of two names exactly when the bytes behind them fit. -/
theorem hooks_agree_iff (s t : Qstr) : HooksAgree s t ↔ HooksFit s t := by
  constructor
  · rintro ⟨hcmp, hhash⟩
    refine ⟨fun heq => ?_, fun hne => ?_⟩
    · have h := hcmp.mpr heq
      exact (hash_eq_iff h).mp fun f => hhash f h
    · exact cmp_ne_zero_iff.mp fun h => hne (hcmp.mp h)
  · intro hfit
    have hcmp : xv6Cmp s.len s.name t = 0 ↔ s.bytes = t.bytes := by
      constructor
      · intro h
        by_contra hne
        exact cmp_eq_zero_iff.mp h (hfit.differ hne)
      · intro heq
        refine cmp_eq_zero_iff.mpr fun ⟨i, hi, hdiff, hbefore⟩ => ?_
        rcases hfit.same heq with ⟨-, hall⟩ | ⟨h0, h0', -⟩
        · exact hdiff (hall i hi)
        · cases i with
          | zero => exact hdiff (h0.trans h0'.symm)
          | succ i => exact hbefore 0 (Nat.succ_pos i) h0
    exact ⟨hcmp, fun f h => (hash_eq_iff h).mpr (hfit.same (hcmp.mp h)) f⟩

/-- The bytes of a list, and zeros behind them. -/
def Qstr.of (bytes : List UInt8) (len : Nat) : Qstr := ⟨fun i => bytes.getD i 0, len, 0⟩

/-- The component "a" of the path "a/b" is not found equal to the name "a"; and "a" followed by a
    NUL and any byte is found equal to it, but need not have its hash. -/
theorem component_differs :
    ¬ HooksAgree (.of [0x61] 1) (.of [0x61, 0x2f, 0x62] 1) ∧
      xv6Cmp 1 (Qstr.of [0x61] 1).name (.of [0x61, 0, 0x62] 1) = 0 ∧
      ¬ HooksAgree (.of [0x61] 1) (.of [0x61, 0, 0x62] 1) := by
  refine ⟨fun h => ?_, by decide, fun h => ?_⟩
  · have hcmp := h.1.mpr (by decide)
    revert hcmp
    decide
  · have hhash := h.2 (fun bytes => bytes 2 |>.toUInt32) (by decide)
    revert hhash
    decide

end Xv6fs
