/-
  File names and the name fields of directory entries.

  A file name of 1 to 14 bytes without NUL is stored padded with zeros. `strncmp` over the
  field finds it there exactly (`strncmpEq_iff`), and never matches the field of an unused
  entry, whose first byte is 0.
-/
import Xv6fs.Model.Dir

namespace Xv6fs

/-- A file name: not empty, and no byte is NUL. -/
structure NameOk (name : FileName) : Prop where
  nonempty : name ≠ []
  bytes : ∀ b ∈ name, b ≠ 0

/-- A field that is zero from its first zero on. -/
def Padded (nm : Name) : Prop := ∀ i j : Fin 14, i ≤ j → nm i = 0 → nm j = 0

namespace NameOk

variable {name : FileName}

theorem getD_ne_zero (h : NameOk name) {i : Nat} (hi : i < name.length) : name.getD i 0 ≠ 0 := by
  rw [List.getD_eq_getElem _ _ hi]
  exact h.bytes _ (List.getElem_mem hi)

theorem length_pos (h : NameOk name) : 0 < name.length := List.length_pos_iff.mpr h.nonempty

end NameOk

theorem getD_eq_zero {name : FileName} {i : Nat} (hi : name.length ≤ i) : name.getD i 0 = 0 := by
  rw [List.getD_eq_default _ _ hi]

theorem strncpy_padded {name : FileName} (h : NameOk name) : Padded (strncpy name) := by
  intro i j hij hzero
  have hi : name.length ≤ i.val := by
    by_contra hlt
    exact h.getD_ne_zero (not_le.mp hlt) hzero
  exact getD_eq_zero (le_trans hi hij)

theorem strncpy_first {name : FileName} (h : NameOk name) : strncpy name 0 ≠ 0 :=
  h.getD_ne_zero h.length_pos

/-- Names that fit the field are told apart by it. -/
theorem strncpy_inj {a b : FileName} (ha : NameOk a) (hb : NameOk b) (hla : a.length ≤ DIRSIZ)
    (hlb : b.length ≤ DIRSIZ) (h : strncpy a = strncpy b) : a = b := by
  have hget : ∀ i, i < 14 → a.getD i 0 = b.getD i 0 := fun i hi => congrFun h ⟨i, hi⟩
  have hle : ∀ {a b : FileName}, NameOk a → a.length ≤ DIRSIZ →
      (∀ i, i < 14 → a.getD i 0 = b.getD i 0) → a.length ≤ b.length := by
    intro a b ha hla hget
    by_contra hlt
    have hi : b.length < a.length := not_le.mp hlt
    have h14 : b.length < 14 := by
      unfold DIRSIZ at hla
      omega
    exact ha.getD_ne_zero hi ((hget _ h14).trans (getD_eq_zero (le_refl _)))
  have hlen : a.length = b.length :=
    le_antisymm (hle ha hla hget) (hle hb hlb fun i hi => (hget i hi).symm)
  refine List.ext_getElem hlen fun i hi hi' => ?_
  have h14 : i < 14 := by
    unfold DIRSIZ at hla
    omega
  have hg := hget i h14
  rwa [List.getD_eq_getElem _ _ hi, List.getD_eq_getElem _ _ hi'] at hg

/-! ## Comparison -/

/-- The bytes up to the first NUL agree. -/
theorem strncmpEq_go {target : FileName} {nm : Name} :
    ∀ n i, i + n = 14 → (strncmpEq.go target nm n i = true ↔
      ∀ j, i ≤ j → (hj : j < 14) → (∀ m, i ≤ m → m < j → target.getD m 0 ≠ 0) →
        target.getD j 0 = nm ⟨j, hj⟩)
  | 0, i, hi => by
    simp only [strncmpEq.go, true_iff]
    intro j hj hj'
    omega
  | n + 1, i, hi => by
    have hfin : Fin.ofNat 14 i = ⟨i, by omega⟩ := by
      apply Fin.ext
      exact Nat.mod_eq_of_lt (by omega)
    have hstart : ∀ m, i ≤ m → m < i → target.getD m 0 ≠ 0 := fun m h1 h2 => by omega
    unfold strncmpEq.go
    rw [hfin]
    dsimp only
    by_cases hne : target.getD i 0 = nm ⟨i, by omega⟩
    · rw [if_neg (not_not.mpr hne)]
      by_cases hzero : target.getD i 0 = 0
      · rw [if_pos hzero]
        refine iff_of_true rfl fun j hj hj' hbefore => ?_
        rcases Nat.eq_or_lt_of_le hj with rfl | hlt
        · exact hne
        · exact absurd hzero (hbefore i (le_refl i) hlt)
      · rw [if_neg hzero, strncmpEq_go n (i + 1) (by omega)]
        constructor
        · intro hrest j hj hj' hbefore
          rcases Nat.eq_or_lt_of_le hj with rfl | hlt
          · exact hne
          · exact hrest j hlt hj' fun m hm hm' => hbefore m (by omega) hm'
        · intro hall j hj hj' hbefore
          refine hall j (by omega) hj' fun m hm hm' => ?_
          rcases Nat.eq_or_lt_of_le hm with rfl | hlt
          · exact hzero
          · exact hbefore m hlt hm'
    · rw [if_pos hne]
      refine iff_of_false (by decide) fun hall => ?_
      exact hne (hall i (le_refl i) (by omega) hstart)

/-- A field whose first byte is 0 is not the name of anything. -/
theorem strncmpEq_unused {target : FileName} {nm : Name} (ht : NameOk target) (hnm : nm 0 = 0) :
    strncmpEq target nm = false := by
  rw [← Bool.not_eq_true]
  intro h
  have hall := (strncmpEq_go 14 0 rfl).mp h
  have h0 := hall 0 (le_refl 0) (by decide) fun m hm hm' => by omega
  exact ht.getD_ne_zero ht.length_pos (h0.trans hnm)

/-- A padded field matches the name it holds. -/
theorem strncmpEq_iff {target : FileName} {nm : Name} (ht : NameOk target) (hnm : Padded nm) :
    strncmpEq target nm = true ↔ nm = strncpy target := by
  refine (strncmpEq_go 14 0 rfl).trans ⟨fun hall => ?_, ?_⟩
  · have hin : ∀ j (hj : j < 14), j ≤ target.length → target.getD j 0 = nm ⟨j, hj⟩ := by
      intro j hj hle
      refine hall j (Nat.zero_le j) hj fun m _ hm => ?_
      exact ht.getD_ne_zero (by omega)
    funext j
    by_cases hj : j.val ≤ target.length
    · exact (hin j.val j.isLt hj).symm
    · have hlen : target.length < 14 := by omega
      have hzero : nm ⟨target.length, hlen⟩ = 0 :=
        (hin _ hlen (le_refl _)).symm.trans (getD_eq_zero (le_refl _))
      have hle : (⟨target.length, hlen⟩ : Fin 14) ≤ j := Nat.le_of_lt (not_le.mp hj)
      exact (hnm _ j hle hzero).trans (getD_eq_zero (Nat.le_of_lt (not_le.mp hj))).symm
  · rintro rfl j _ hj _
    rfl

end Xv6fs
