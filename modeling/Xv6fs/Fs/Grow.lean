/-
  How an inode grows.

  When no I/O call fails, what the block map and the iterator do to the disk for one inode is a
  sequence of elementary steps (`Grown`): a free block is handed out and entered at an empty
  place (`Attach`), or a block of the file is overwritten. Each step keeps every block owned
  once, and leaves the blocks of other inodes and everything before the bitmap alone.
-/
import Xv6fs.Fs.Fill

namespace Xv6fs

/-- A free data block is handed out and entered at an empty place of the inode. -/
inductive Attach (env : Env) (d : Disk) (addrs : Addrs) : Disk → Addrs → Prop where
  | direct {i a : Nat} (hi : i < NDIRECT) (hnone : addrs.get i = 0) (ha : IsData env a)
      (hfree : bitSet env d a = false) :
      Attach env d addrs (handOut env d a) (addrs.set i a)
  | indirect {a : Nat} (hnone : addrs.get NDIRECT = 0) (ha : IsData env a)
      (hfree : bitSet env d a = false) :
      Attach env d addrs (handOut env d a) (addrs.set NDIRECT a)
  | entry {z j a : Nat} (hz : addrs.get NDIRECT = z) (hne : z ≠ 0) (hj : j < NINDIRECT)
      (hnone : (d z).u32 j = 0) (ha : IsData env a) (hfree : bitSet env d a = false) :
      Attach env d addrs
        (Function.update (handOut env d a) z ((handOut env d a z).setU32 j a)) addrs

/-- Steps of growth: the disk, the hint and the addresses before and after. -/
inductive Grown (env : Env) : Disk → Nat → Addrs → Disk → Nat → Addrs → Prop where
  | refl (d : Disk) (hint : Nat) (addrs : Addrs) : Grown env d hint addrs d hint addrs
  | attach {d d₁ d' : Disk} {hint h₁ h' : Nat} {addrs addrs₁ addrs' : Addrs}
      (h : Attach env d addrs d₁ addrs₁) (hh : HintOk env h₁)
      (hrest : Grown env d₁ h₁ addrs₁ d' h' addrs') : Grown env d hint addrs d' h' addrs'
  | store {d d' : Disk} {hint h' : Nat} {addrs addrs' : Addrs} {i : Nat} (hi : i < MAXFILE)
      (hb : bmap d addrs i ≠ 0) (blk : Block)
      (hrest : Grown env (Function.update d (bmap d addrs i) blk) hint addrs d' h' addrs') :
      Grown env d hint addrs d' h' addrs'

section

variable {env : Env} {d d' d'' : Disk} {hint h' h'' : Nat} {addrs addrs' addrs'' : Addrs}
  {A : Nat → Option Addrs} {n : Nat}

theorem Grown.trans (h : Grown env d hint addrs d' h' addrs')
    (h₂ : Grown env d' h' addrs' d'' h'' addrs'') : Grown env d hint addrs d'' h'' addrs'' := by
  induction h with
  | refl => exact h₂
  | attach h hh hrest ih => exact .attach h hh (ih h₂)
  | store hi hb blk hrest ih => exact .store hi hb blk (ih h₂)

theorem Grown.hintOk (hh : HintOk env hint) (h : Grown env d hint addrs d' h' addrs') :
    HintOk env h' := by
  induction h with
  | refl => exact hh
  | attach h hh' hrest ih => exact ih hh'
  | store hi hb blk hrest ih => exact ih hh

/-! ## Filling a hole is growth -/

private theorem not_eio {e : Int} (he : e = 0 ∨ e = -ENOSPC) : e ≠ - EIO := by
  rcases he with rfl | rfl <;> decide

/-- An entry of the indirect block `z`, when no call fails. -/
theorem EntryMapped.grown {z i b : Nat} {e : Int} (hg : env.info.Sound) (hh : HintOk env hint)
    (hz : addrs.get NDIRECT = z) (hne : z ≠ 0) (hi : NDIRECT ≤ i) (hi' : i < MAXFILE)
    (h : EntryMapped env d hint z i e b d' h') (he : e = 0 ∨ e = -ENOSPC) :
    Grown env d hint addrs d' h' addrs := by
  cases h with
  | unread => exact absurd rfl (not_eio he)
  | found => exact .refl d hint addrs
  | error h0 hb hne' => exact absurd (hb.error.resolve_left hne') (not_eio he)
  | nospc h0 hb =>
    rcases hb.ok hh with ⟨-, rfl, rfl, -⟩ | ⟨hne', -⟩
    · exact .refl d' h' addrs
    · exact absurd rfl hne'
  | attached h0 hb ha hs =>
    obtain rfl : e = 0 := hs.error.resolve_right (not_eio he)
    rcases hb.ok hh with ⟨hb0, -⟩ | ⟨-, hdata, hfree, rfl⟩
    · exact absurd hb0 ha
    · have hj : i - NDIRECT < NINDIRECT := by
        simp only [MAXFILE, NDIRECT, NINDIRECT] at *
        omega
      rw [hs.ok]
      exact .attach (.entry hz hne hj h0 hdata hfree) (hb.hintOk hg hh) (.refl _ _ _)

/-- Filling a hole, when no call fails. -/
theorem Mapped.grown {i b : Nat} {e : Int} {dirty : Bool} (hg : env.info.Sound)
    (hh : HintOk env hint) (hi : i < MAXFILE)
    (h : Mapped env d hint addrs i e b addrs' dirty d' h') (he : e = 0 ∨ e = -ENOSPC) :
    Grown env d hint addrs d' h' addrs' := by
  have hfull : ∀ {j b : Nat}, addrs.get j = 0 → b = 0 → addrs.set j b = addrs := by
    intro j b h0 hb
    rw [hb, ← h0]
    exact addrs.set_get_self
  cases h with
  | found => exact .refl d hint addrs
  | @direct e _ _ _ hd h0 hb =>
    have he0 : e = 0 := by
      rcases hb.error with rfl | rfl
      · rfl
      · exact absurd (if_neg fun hc => absurd hc.1 (by decide)) (not_eio he)
    subst he0
    rcases hb.ok hh with ⟨hb0, rfl, rfl, -⟩ | ⟨-, hdata, hfree, rfl⟩
    · rw [hfull h0 hb0]
      exact .refl _ _ addrs
    · exact .attach (.direct hd h0 hdata hfree) (hb.hintOk hg hh) (.refl _ _ _)
  | entry hge hne hm => exact hm.grown hg hh rfl hne hge hi he
  | error hge h0 hb hne => exact absurd (hb.error.resolve_left hne) (not_eio he)
  | nospc hge h0 hb =>
    rcases hb.ok hh with ⟨-, rfl, rfl, -⟩ | ⟨hne, -⟩
    · rw [hfull h0 rfl]
      exact .refl _ _ addrs
    · exact absurd rfl hne
  | indirect hge h0 hb ha hm =>
    rcases hb.ok hh with ⟨ha0, -⟩ | ⟨-, hdata, hfree, rfl⟩
    · exact absurd ha0 ha
    · exact .attach (.indirect h0 hdata hfree) (hb.hintOk hg hh)
        (hm.grown hg (hb.hintOk hg hh) (Addrs.get_set_self _) ha hge hi he)

/-! ## Ownership -/

/-- What an inode owns depends on its addresses and its indirect block. -/
theorem ownedAt_congr (h : addrs.get NDIRECT ≠ 0 → d' (addrs.get NDIRECT) = d (addrs.get NDIRECT))
    (r : Role) : ownedAt d' addrs r = ownedAt d addrs r := by
  cases r with
  | direct i => rfl
  | indirect => rfl
  | entry j =>
    by_cases hc : j < NINDIRECT ∧ addrs.get NDIRECT ≠ 0
    · simp only [ownedAt, if_pos hc, h hc.2]
    · simp only [ownedAt, if_neg hc]

theorem Held.handOut (hg : env.info.Sound) {a x : Nat} (ha : IsData env a) (hx : Held env d x) :
    Held env (handOut env d a) x := by
  refine ⟨hx.1, ?_⟩
  rw [bitSet_handOut hg d ha (FsInfo.Sound.inBitmap_of_lt hx.1.2)]
  split
  · rfl
  · exact hx.2

theorem Held.update (hg : env.info.Sound) {y x : Nat} (hy : IsData env y) (blk : Block)
    (hx : Held env d x) : Held env (Function.update d y blk) x := by
  refine ⟨hx.1, ?_⟩
  rw [hg.bitSet_update d blk (FsInfo.Sound.inBitmap_of_lt hx.1.2) hy]
  exact hx.2

/-- Handing out a block leaves every held one as it was. -/
theorem handOut_held (hg : env.info.Sound) {a x : Nat} (ha : IsData env a)
    (hfree : bitSet env d a = false) (hx : Held env d x) : handOut env d a x = d x := by
  refine (handOut_block hg d ha (.inr hx.1.1)).trans (if_neg ?_)
  rintro rfl
  rw [hx.2] at hfree
  cases hfree

/-- Block `a` is entered at a place of the inode that names none, and `d'` is otherwise the same
    disk to the inode. -/
inductive Enters (d : Disk) (addrs : Addrs) (a : Nat) (d' : Disk) : Role → Addrs → Prop where
  | direct {i : Nat} (hi : i < NDIRECT) (hnone : addrs.get i = 0)
      (hsame : addrs.get NDIRECT ≠ 0 → d' (addrs.get NDIRECT) = d (addrs.get NDIRECT)) :
      Enters d addrs a d' (.direct i) (addrs.set i a)
  | indirect (hnone : addrs.get NDIRECT = 0) (hzero : d' a = Buf.zero) :
      Enters d addrs a d' .indirect (addrs.set NDIRECT a)
  | entry {j : Nat} (hne : addrs.get NDIRECT ≠ 0) (hj : j < NINDIRECT)
      (hnone : (d (addrs.get NDIRECT)).u32 j = 0)
      (hset : d' (addrs.get NDIRECT) = (d (addrs.get NDIRECT)).setU32 j a) :
      Enters d addrs a d' (.entry j) addrs

theorem Enters.none {a : Nat} {r : Role} (h : Enters d addrs a d' r addrs') :
    ownedAt d addrs r = none := by
  cases h with
  | direct hi hnone => simp [ownedAt, hi, hnone, blockNo]
  | indirect hnone => simp [ownedAt, hnone, blockNo]
  | entry hne hj hnone => simp [ownedAt, hnone, blockNo]

/-- The inode names the new block at that place, and at the others what it named before. -/
theorem Enters.ownedAt_eq {a : Nat} {r : Role} (h : Enters d addrs a d' r addrs') (ha : a ≠ 0)
    (hlt : a < 2 ^ 32) (r' : Role) :
    ownedAt d' addrs' r' = if r' = r then some a else ownedAt d addrs r' := by
  have hsome : blockNo a = some a := blockNo_eq_some.mpr ⟨rfl, ha⟩
  cases h with
  | @direct i hi hnone hsame =>
    have hi13 : i < 13 := by
      unfold NDIRECT at hi
      omega
    have hget : ∀ j, j < 13 → j ≠ i → (addrs.set i a).get j = addrs.get j := fun j hj hne =>
      addrs.get_set_ne hi13 hj hne
    have hind : (addrs.set i a).get NDIRECT = addrs.get NDIRECT :=
      hget NDIRECT (by decide) (by omega)
    by_cases hr : r' = .direct i
    · subst hr
      rw [if_pos rfl]
      simp only [ownedAt, if_pos hi, Addrs.get_set_self]
      exact hsome
    · rw [if_neg hr, ← ownedAt_congr hsame]
      cases r' with
      | direct j =>
        have hji : j ≠ i := fun hji => hr (by rw [hji])
        by_cases hj : j < NDIRECT
        · have hj13 : j < 13 := by
            unfold NDIRECT at hj
            omega
          simp only [ownedAt, if_pos hj, hget j hj13 hji]
        · simp only [ownedAt, if_neg hj]
      | indirect => simp only [ownedAt, hind]
      | entry j => simp only [ownedAt, hind]
  | indirect hnone hzero =>
    cases r' with
    | direct j =>
      rw [if_neg (by simp)]
      by_cases hj : j < NDIRECT
      · have hget : (addrs.set NDIRECT a).get j = addrs.get j := by
          refine addrs.get_set_ne (by decide) ?_ (by omega)
          unfold NDIRECT at hj
          omega
        simp only [ownedAt, if_pos hj, hget]
      · simp only [ownedAt, if_neg hj]
    | indirect =>
      rw [if_pos rfl]
      simp only [ownedAt, Addrs.get_set_self]
      exact hsome
    | entry j =>
      -- the new indirect block has no entries
      rw [if_neg (by simp)]
      simp [ownedAt, Addrs.get_set_self, hzero, Block.u32_zero, hnone, blockNo]
  | @entry j hne hj hnone hset =>
    cases r' with
    | direct i => simp [ownedAt]
    | indirect => simp [ownedAt]
    | entry k =>
      by_cases hk : k < NINDIRECT
      · simp only [ownedAt, ne_eq, hne, not_false_eq_true, and_true, if_pos hk, hset,
          Block.u32_setU32 _ hj hlt, Role.entry.injEq]
        by_cases hkj : k = j
        · rw [if_pos hkj, if_pos hkj]
          exact hsome
        · rw [if_neg hkj, if_neg hkj]
      · have hkj : k ≠ j := by omega
        simp [ownedAt, hk, hkj]

/-- The shape of an attachment: the inode gains the block `a` at the place `r`, where it had none,
    and every other held block but the inode's own indirect block is as it was. -/
theorem Attach.gain (hg : env.info.Sound) (ho : Owned env d A) (hA : A n = some addrs)
    (h : Attach env d addrs d' addrs') :
    ∃ r a, IsData env a ∧ bitSet env d a = false ∧ Held env d' a ∧
      (∀ x, InBitmap env x → bitSet env d' x = if x = a then true else bitSet env d x) ∧
      (∀ x, Held env d x → x ≠ addrs.get NDIRECT → d' x = d x) ∧
      ownedAt d addrs r = none ∧
      ∀ r', ownedAt d' addrs' r' = if r' = r then some a else ownedAt d addrs r' := by
  have hkept : ∀ {a}, IsData env a → bitSet env d a = false → addrs.get NDIRECT ≠ 0 →
      handOut env d a (addrs.get NDIRECT) = d (addrs.get NDIRECT) := fun ha hfree hne =>
    handOut_held hg ha hfree (Owned.held_indirect ho hA hne)
  have hlt : ∀ {a}, IsData env a → a < 2 ^ 32 := fun ha => lt_trans ha.2 hg.size_lt
  cases h with
  | @direct i a hi hnone ha hfree =>
    have he : Enters d addrs a (handOut env d a) _ _ := .direct hi hnone (hkept ha hfree)
    exact ⟨_, a, ha, hfree, held_handOut hg ha, fun x hx => bitSet_handOut hg d ha hx,
      fun x hx _ => handOut_held hg ha hfree hx, he.none,
      he.ownedAt_eq (hg.pos_of_isData ha) (hlt ha)⟩
  | @indirect a hnone ha hfree =>
    have hzero : handOut env d a a = Buf.zero := by
      rw [handOut_block hg d ha (.inr ha.1), if_pos rfl]
    have he : Enters d addrs a (handOut env d a) _ _ := .indirect hnone hzero
    exact ⟨_, a, ha, hfree, held_handOut hg ha, fun x hx => bitSet_handOut hg d ha hx,
      fun x hx _ => handOut_held hg ha hfree hx, he.none,
      he.ownedAt_eq (hg.pos_of_isData ha) (hlt ha)⟩
  | @entry z j a hz hne hj hnone ha hfree =>
    subst hz
    have hheld := Owned.held_indirect ho hA hne
    have hset : Function.update (handOut env d a) (addrs.get NDIRECT)
        ((handOut env d a (addrs.get NDIRECT)).setU32 j a) (addrs.get NDIRECT) =
          (d (addrs.get NDIRECT)).setU32 j a := by
      rw [Function.update_self, hkept ha hfree hne]
    have he : Enters d addrs a _ _ _ := .entry hne hj hnone hset
    refine ⟨_, a, ha, hfree, (held_handOut hg ha).update hg hheld.1 _, fun x hx => ?_,
      fun x hx hxz => ?_, he.none, he.ownedAt_eq (hg.pos_of_isData ha) (hlt ha)⟩
    · rw [hg.bitSet_update _ _ hx hheld.1]
      exact bitSet_handOut hg d ha hx
    · rw [Function.update_of_ne hxz]
      exact handOut_held hg ha hfree hx

/-- What is owned when an inode gains block `a` and the other indirect blocks stay as they are. -/
theorem owns_after_gain {used : Nat → Prop} {a : Nat} {r : Role} (ho : Exclusive used (owns d A))
    (hA : A n = some addrs) (hblock : ∀ x, used x → x ≠ addrs.get NDIRECT → d' x = d x)
    (hgain : ∀ r', ownedAt d' addrs' r' = if r' = r then some a else ownedAt d addrs r')
    (p : Nat × Role) : owns d' (Function.update A n (some addrs')) p =
      if p = (n, r) then some a else owns d A p := by
  obtain ⟨m, r'⟩ := p
  rw [owns_update]
  by_cases hm : m = n
  · subst hm
    rw [if_pos rfl, owns_of hA]
    dsimp only
    rw [hgain]
    exact if_congr ⟨fun hr => by rw [hr], fun hp => (Prod.mk.inj hp).2⟩ rfl rfl
  · have hmn : ¬ (m, r').1 = n := hm
    rw [if_neg hmn, if_neg fun hp => hm (Prod.mk.inj hp).1]
    cases hAm : A m with
    | none =>
      unfold owns
      rw [hAm, Option.bind_none, Option.bind_none]
    | some other =>
      rw [owns_of hAm, owns_of hAm]
      exact ownedAt_congr (fun hne => hblock _ (used_indirect ho hAm hne)
        (indirect_apart ho hAm hA hne hm)) r'

/-- An inode gains a block that was not in use. -/
theorem exclusive_gained {used used' : Nat → Prop} {a : Nat} {r : Role}
    (ho : Exclusive used (owns d A)) (hA : A n = some addrs) (hfresh : ¬ used a) (hused : used' a)
    (hkeep : ∀ x, used x → used' x)
    (hblock : ∀ x, used x → x ≠ addrs.get NDIRECT → d' x = d x)
    (hgain : ∀ r', ownedAt d' addrs' r' = if r' = r then some a else ownedAt d addrs r') :
    Exclusive used' (owns d' (Function.update A n (some addrs'))) := by
  refine Exclusive.step ho (n, r) a hfresh hused fun p b hp => ?_
  rw [owns_after_gain ho hA hblock hgain] at hp
  by_cases hpn : p = (n, r)
  · rw [if_pos hpn] at hp
    exact .inr ⟨hpn, (Option.some.inj hp).symm⟩
  · rw [if_neg hpn] at hp
    exact .inl ⟨hp, hkeep b (ho.held hp)⟩

theorem Attach.owned (hg : env.info.Sound) (ho : Owned env d A) (hA : A n = some addrs)
    (h : Attach env d addrs d' addrs') :
    Owned env d' (Function.update A n (some addrs')) := by
  obtain ⟨r, a, -, hfree, hheld, hbits, hblock, -, hgain⟩ := h.gain hg ho hA
  refine exclusive_gained ho hA (fun hx => ?_) hheld (fun x hx => ⟨hx.1, ?_⟩) hblock hgain
  · rw [hx.2] at hfree
    cases hfree
  · rw [hbits x (FsInfo.Sound.inBitmap_of_lt hx.1.2)]
    split
    · rfl
    · exact hx.2

/-- Overwriting a block of a file changes nothing about ownership. -/
theorem owns_store {used : Nat → Prop} (ho : Exclusive used (owns d A)) (hA : A n = some addrs)
    {i : Nat} (hi : i < MAXFILE) (hb : bmap d addrs i ≠ 0) (blk : Block) (p : Nat × Role) :
    owns (Function.update d (bmap d addrs i) blk) A p = owns d A p := by
  cases hAp : A p.1 with
  | none =>
    unfold owns
    rw [hAp]
    simp
  | some other =>
    have hsame : Function.update d (bmap d addrs i) blk (other.get NDIRECT) =
        d (other.get NDIRECT) :=
      Function.update_of_ne (bmap_apart_indirect ho hA hAp hi hb).symm _ _
    rw [show p = (p.1, p.2) from rfl, owns_of hAp, owns_of hAp]
    exact ownedAt_congr (fun _ => hsame) p.2

theorem owned_store (hg : env.info.Sound) (ho : Owned env d A) (hA : A n = some addrs) {i : Nat}
    (hi : i < MAXFILE) (hb : bmap d addrs i ≠ 0) (blk : Block) :
    Owned env (Function.update d (bmap d addrs i) blk) A := by
  have hheld := Owned.held_bmap ho hA hi hb
  refine Exclusive.drop ho fun p b hp => ?_
  rw [owns_store ho hA hi hb blk] at hp
  exact ⟨hp, (ho.held hp).update hg hheld.1 blk⟩

theorem update_some_self (hA : A n = some addrs) : Function.update A n (some addrs) = A := by
  rw [← hA]
  exact Function.update_eq_self n A

/-- Growth keeps every block owned once. -/
theorem Grown.owned (hg : env.info.Sound) (ho : Owned env d A) (hA : A n = some addrs)
    (h : Grown env d hint addrs d' h' addrs') :
    Owned env d' (Function.update A n (some addrs')) := by
  induction h generalizing A with
  | refl d hint addrs => rwa [update_some_self hA]
  | attach h hh hrest ih =>
    have hrec := ih (h.owned hg ho hA) (Function.update_self _ _ _)
    rwa [Function.update_idem] at hrec
  | store hi hb blk hrest ih => exact ih (owned_store hg ho hA hi hb blk) hA

/-! ## What growth leaves alone -/

/-- The blocks before the bitmap are as they were. -/
theorem Grown.before (hg : env.info.Sound) (ho : Owned env d A) (hA : A n = some addrs)
    (h : Grown env d hint addrs d' h' addrs') {x : Nat} (hx : x < env.info.bmapstart) :
    d' x = d x := by
  have hout : ∀ {d : Disk} {a : Nat}, IsData env a → handOut env d a x = d x := fun {d a} ha => by
    refine (handOut_block hg d ha (.inl hx)).trans (if_neg ?_)
    have := hg.data_ge ha
    omega
  induction h generalizing A with
  | refl => rfl
  | attach h hh hrest ih =>
    refine (ih (h.owned hg ho hA) (Function.update_self _ _ _)).trans ?_
    cases h with
    | direct hi hnone ha hfree => exact hout ha
    | indirect hnone ha hfree => exact hout ha
    | entry hz hne hj hnone ha hfree =>
      rw [← hz] at hne
      have hge := hg.data_ge (Owned.held_indirect ho hA hne).1
      rw [hz] at hge
      rw [Function.update_of_ne (by omega)]
      exact hout ha
  | store hi hb blk hrest ih =>
    refine (ih (owned_store hg ho hA hi hb blk) hA).trans (Function.update_of_ne ?_ _ _)
    have := hg.data_ge (Owned.held_bmap ho hA hi hb).1
    omega

end

end Xv6fs
