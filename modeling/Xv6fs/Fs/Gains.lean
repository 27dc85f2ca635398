/-
  What an inode gains by growing.

  The blocks it gains were free, and are in use then; every other block that is in use, and every
  other bit of the bitmap, is as it was (`Grown.gains`). Other files own and hold what they did
  (`Gains.elsewhere`).
-/
import Xv6fs.Fs.Frame

namespace Xv6fs

/-- An inode with these addresses owns block `x`. -/
def Owns (d : Disk) (addrs : Addrs) (x : Nat) : Prop := ∃ r, ownedAt d addrs r = some x

/-- The inode owns other blocks, and nothing else about the blocks in use has changed. -/
structure Gains (env : Env) (d : Disk) (addrs : Addrs) (d' : Disk) (addrs' : Addrs) : Prop where
  kept : ∀ x, Owns d addrs x → Owns d' addrs' x
  held : ∀ x, Owns d' addrs' x → Held env d' x
  fresh : ∀ x, Owns d' addrs' x → Owns d addrs x ∨ bitSet env d x = false
  bits : ∀ x, InBitmap env x →
    (bitSet env d' x = true ↔ bitSet env d x = true ∨ Owns d' addrs' x)
  blocks : ∀ x, Held env d x → ¬ Owns d addrs x → d' x = d x

section

variable {env : Env} {d d' d'' : Disk} {hint h' m n x : Nat} {addrs addrs' addrs'' other : Addrs}
  {A : Nat → Option Addrs}

theorem Held.inBitmap (h : Held env d x) : InBitmap env x := FsInfo.Sound.inBitmap_of_lt h.1.2

theorem Owned.held_of_owns (ho : Owned env d A) (hA : A n = some addrs) (h : Owns d addrs x) :
    Held env d x := by
  obtain ⟨r, hr⟩ := h
  exact ho.held ((owns_of hA).trans hr)

/-- Two inodes do not own the same block. -/
theorem Owned.not_owns (ho : Owned env d A) (hA : A n = some addrs) (hA' : A m = some other)
    (hne : m ≠ n) (h : Owns d addrs x) : ¬ Owns d other x := by
  rintro ⟨r', hr'⟩
  obtain ⟨r, hr⟩ := h
  exact hne (congrArg Prod.fst (ho.inj ((owns_of hA').trans hr') ((owns_of hA).trans hr)))

/-- The block of the addresses behind the direct ones. -/
theorem owns_indirect (h : addrs.get NDIRECT ≠ 0) : Owns d addrs (addrs.get NDIRECT) :=
  ⟨.indirect, blockNo_eq_some.mpr ⟨rfl, h⟩⟩

theorem owns_bmap {i : Nat} (hi : i < MAXFILE) (h : bmap d addrs i ≠ 0) :
    Owns d addrs (bmap d addrs i) :=
  ⟨dataRole i, (ownedAt_dataRole hi).trans (blockNo_eq_some.mpr ⟨rfl, h⟩)⟩

/-- What a file owns and holds is told by the blocks it owns. -/
theorem owns_congr (h : ∀ x, Owns d addrs x → d' x = d x) :
    Owns d' addrs x ↔ Owns d addrs x := by
  unfold Owns
  simp only [ownedAt_congr fun hne => h _ (owns_indirect hne)]

theorem bmap_congr {i : Nat} (h : ∀ x, Owns d addrs x → d' x = d x) :
    bmap d' addrs i = bmap d addrs i :=
  bmap_of_indirect (fun hz => h _ (owns_indirect hz)) i

theorem fblock_congr {i : Nat} (hi : i < MAXFILE) (h : ∀ x, Owns d addrs x → d' x = d x) :
    fblock d' addrs i = fblock d addrs i := by
  unfold fblock
  rw [bmap_congr h]
  by_cases hb : bmap d addrs i = 0
  · rw [if_pos hb, if_pos hb]
  · rw [if_neg hb, if_neg hb, h _ (owns_bmap hi hb)]

namespace Gains

theorem refl (h : ∀ x, Owns d addrs x → Held env d x) : Gains env d addrs d addrs where
  kept _ hx := hx
  held := h
  fresh _ hx := .inl hx
  bits x _ := ⟨.inl, fun hx => hx.elim id fun hx => (h x hx).2⟩
  blocks _ _ _ := rfl

theorem trans (h : Gains env d addrs d' addrs') (h' : Gains env d' addrs' d'' addrs'') :
    Gains env d addrs d'' addrs'' where
  kept x hx := h'.kept x (h.kept x hx)
  held := h'.held
  fresh x hx := by
    rcases h'.fresh x hx with hold | hfree
    · exact h.fresh x hold
    · refine .inr ?_
      by_contra hset
      rw [(h.bits x (h'.held x hx).inBitmap).mpr (.inl (by simpa using hset))] at hfree
      cases hfree
  bits x hx := by
    rw [h'.bits x hx, h.bits x hx, or_assoc]
    exact or_congr_right ⟨fun ho => ho.elim (h'.kept x) id, .inr⟩
  blocks x hx hno := by
    have hx' : Held env d' x := ⟨hx.1, (h.bits x hx.inBitmap).mpr (.inl hx.2)⟩
    refine (h'.blocks x hx' fun hown => ?_).trans (h.blocks x hx hno)
    rcases h.fresh x hown with hold | hfree
    · exact hno hold
    · rw [hx.2] at hfree
      cases hfree

/-- The blocks of another file are as they were. -/
theorem blocks_of_other (h : Gains env d addrs d' addrs') (ho : Owned env d A)
    (hA : A n = some addrs) (hA' : A m = some other) (hne : m ≠ n) (hx : Owns d other x) :
    d' x = d x :=
  h.blocks x (ho.held_of_owns hA' hx) (ho.not_owns hA' hA hne.symm hx)

theorem elsewhere (h : Gains env d addrs d' addrs') (ho : Owned env d A) (hA : A n = some addrs) :
    Elsewhere d A n d' := by
  intro m other hne hA' j hj
  have hsame : ∀ x, Owns d other x → d' x = d x := fun x hx =>
    h.blocks_of_other ho hA hA' hne hx
  exact ⟨bmap_congr hsame, fblock_congr hj hsame⟩

/-- What becomes of the blocks before the bitmap does not matter. -/
theorem behind (hg : env.info.Sound) (h : Gains env d addrs d' addrs')
    (hsame : ∀ x, env.info.bmapstart ≤ x → d'' x = d' x) : Gains env d addrs d'' addrs' := by
  have hdata : ∀ x, IsData env x → d'' x = d' x := fun x hx => hsame x (hg.data_ge hx)
  have hown : ∀ x, Owns d'' addrs' x ↔ Owns d' addrs' x := fun x =>
    owns_congr fun y hy => hdata y (h.held y hy).1
  have hbit : ∀ x, InBitmap env x → bitSet env d'' x = bitSet env d' x := fun x hx =>
    bitSet_congr (hsame _ (hg.bitmapBlock_ge hx))
  refine ⟨fun x hx => (hown x).mpr (h.kept x hx), fun x hx => ?_,
    fun x hx => h.fresh x ((hown x).mp hx), fun x hx => ?_, fun x hx hno => ?_⟩
  · have hheld := h.held x ((hown x).mp hx)
    exact ⟨hheld.1, (hbit x hheld.inBitmap).trans hheld.2⟩
  · rw [hbit x hx, hown, h.bits x hx]
  · exact (hdata x hx.1).trans (h.blocks x hx hno)

end Gains

/-- Ownership does not depend on the blocks before the bitmap. -/
theorem Owned.behind (hg : env.info.Sound) (ho : Owned env d A)
    (hsame : ∀ x, env.info.bmapstart ≤ x → d' x = d x) : Owned env d' A := by
  have hdata : ∀ x, IsData env x → d' x = d x := fun x hx => hsame x (hg.data_ge hx)
  refine Exclusive.drop ho fun p x hp => ?_
  obtain ⟨m, r⟩ := p
  cases hA : A m with
  | none =>
    unfold owns at hp
    rw [hA] at hp
    cases hp
  | some a =>
    rw [owns_of hA, ownedAt_congr fun hz => hdata _ (ho.held_indirect hA hz).1] at hp
    have hheld := ho.held ((owns_of hA).trans hp)
    exact ⟨(owns_of hA).trans hp, hheld.1,
      (bitSet_congr (hsame _ (hg.bitmapBlock_ge hheld.inBitmap))).trans hheld.2⟩

/-! ## Growth -/

/-- An inode that names one more block owns that block too. -/
theorem owns_gained {r : Role} {a : Nat} (hnone : ownedAt d addrs r = none)
    (hgain : ∀ r', ownedAt d' addrs' r' = if r' = r then some a else ownedAt d addrs r') (x : Nat) :
    Owns d' addrs' x ↔ Owns d addrs x ∨ x = a := by
  constructor
  · rintro ⟨r', hr'⟩
    rw [hgain] at hr'
    split at hr'
    · exact .inr (Option.some.inj hr').symm
    · exact .inl ⟨r', hr'⟩
  · rintro (⟨r', hr'⟩ | rfl)
    · refine ⟨r', (hgain r').trans ((if_neg ?_).trans hr')⟩
      rintro rfl
      rw [hnone] at hr'
      cases hr'
    · exact ⟨r, (hgain r).trans (if_pos rfl)⟩

theorem Attach.gains (hg : env.info.Sound) (ho : Owned env d A) (hA : A n = some addrs)
    (h : Attach env d addrs d' addrs') : Gains env d addrs d' addrs' := by
  have hown := h.owned hg ho hA
  obtain ⟨r, a, ha, hfree, hheld, hbits, hblock, hnone, hgain⟩ := h.gain hg ho hA
  have hiff := owns_gained hnone hgain
  refine ⟨fun x hx => (hiff x).mpr (.inl hx),
    fun x hx => hown.held_of_owns (Function.update_self _ _ _) hx, fun x hx => ?_, fun x hx => ?_,
    fun x hx hno => hblock x hx ?_⟩
  · rcases (hiff x).mp hx with hold | rfl
    · exact .inl hold
    · exact .inr hfree
  · rw [hbits x hx, hiff]
    by_cases hxa : x = a
    · simp [hxa]
    · rw [if_neg hxa]
      constructor
      · exact .inl
      · rintro (hset | hold | hxa')
        · exact hset
        · exact (ho.held_of_owns hA hold).2
        · exact absurd hxa' hxa
  · rintro rfl
    by_cases hz : addrs.get NDIRECT = 0
    · have := hg.pos_of_isData hx.1
      exact this hz
    · exact hno (owns_indirect hz)

theorem gains_store (hg : env.info.Sound) (ho : Owned env d A) (hA : A n = some addrs) {i : Nat}
    (hi : i < MAXFILE) (hb : bmap d addrs i ≠ 0) (blk : Block) :
    Gains env d addrs (Function.update d (bmap d addrs i) blk) addrs := by
  have hdata := (ho.held_bmap hA hi hb).1
  have hiff : ∀ x, Owns (Function.update d (bmap d addrs i) blk) addrs x ↔ Owns d addrs x := by
    intro x
    unfold Owns
    simp only [ownedAt_congr (d := d) fun _ => Function.update_of_ne
      (Owned.bmap_ne_indirect ho hA hA hi hb).symm _ _]
  have hheld : ∀ x, Owns d addrs x → Held env d x := fun x hx => ho.held_of_owns hA hx
  refine ⟨fun x hx => (hiff x).mpr hx, fun x hx => ?_, fun x hx => .inl ((hiff x).mp hx),
    fun x hx => ?_, fun x hx hno => Function.update_of_ne ?_ _ _⟩
  · exact (hheld x ((hiff x).mp hx)).update hg hdata blk
  · rw [hg.bitSet_update d blk hx hdata, hiff]
    exact ⟨.inl, fun h => h.elim id fun h => (hheld x h).2⟩
  · rintro rfl
    exact hno (owns_bmap hi hb)

theorem Grown.gains (hg : env.info.Sound) (ho : Owned env d A) (hA : A n = some addrs)
    (h : Grown env d hint addrs d' h' addrs') : Gains env d addrs d' addrs' := by
  induction h generalizing A with
  | refl => exact .refl fun x hx => ho.held_of_owns hA hx
  | attach h hh hrest ih =>
    exact (h.gains hg ho hA).trans (ih (h.owned hg ho hA) (Function.update_self _ _ _))
  | store hi hb blk hrest ih =>
    exact (gains_store hg ho hA hi hb blk).trans (ih (owned_store hg ho hA hi hb blk) hA)

end

end Xv6fs
