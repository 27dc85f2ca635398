/-
  Filling a hole costs nothing but the blocks it takes.

  A call of the allocator, however it ends, leaves every held block as it was (`KeepsBut`), and
  a block it names is all-zero and was free. So filling a hole leaves the contents of every
  file as they were, whatever fails on the way (`mapped_fblock`).
-/
import Xv6fs.Fs.Own

namespace Xv6fs

/-- The hint is in its range. -/
def HintOk (env : Env) (hint : Nat) : Prop :=
  env.info.dataStart ≤ hint ∧ hint ≤ env.info.size

/-- Every held block but `y` is still held and unchanged. -/
def KeepsBut (env : Env) (y : Nat) (d d' : Disk) : Prop :=
  ∀ x, Held env d x → x ≠ y → Held env d' x ∧ d' x = d x

section

variable {env : Env} {d d' d'' : Disk} {hint h' b y i : Nat} {e : Int} {addrs addrs' : Addrs}
  {dirty : Bool}

theorem FsInfo.Sound.pos_of_isData (hg : env.info.Sound) {x : Nat} (hx : IsData env x) : x ≠ 0 := by
  have h1 := hg.dataStart_eq
  have h2 := hx.1
  unfold BITMAP_BLOCKS BPB at h1
  omega

theorem KeepsBut.refl (env : Env) (y : Nat) (d : Disk) : KeepsBut env y d d :=
  fun _ hx _ => ⟨hx, rfl⟩

theorem KeepsBut.trans (h : KeepsBut env y d d') (h' : KeepsBut env y d' d'') :
    KeepsBut env y d d'' := by
  intro x hx hy
  obtain ⟨h1, h2⟩ := h x hx hy
  obtain ⟨h3, h4⟩ := h' x h1 hy
  exact ⟨h3, h4.trans h2⟩

/-- Storing in a data block keeps every other held block. -/
theorem KeepsBut.update (hg : env.info.Sound) (hy : IsData env y) (blk : Block) :
    KeepsBut env y d (Function.update d y blk) := by
  intro x hx hne
  refine ⟨⟨hx.1, ?_⟩, Function.update_of_ne hne _ _⟩
  rw [hg.bitSet_update d blk (FsInfo.Sound.inBitmap_of_lt hx.1.2) hy]
  exact hx.2

theorem Stored.keepsBut (hg : env.info.Sound) (hy : IsData env y) {blk : Block}
    (h : Stored d y blk e d') : KeepsBut env y d d' := by
  rcases h.disk with rfl | rfl
  · exact .refl env y d'
  · exact .update hg hy blk

/-- A data block still has its bit after a store in a data block. -/
theorem Stored.held (hg : env.info.Sound) (hy : IsData env y) {blk : Block} {x : Nat}
    (h : Stored d y blk e d') (hx : Held env d x) : Held env d' x := by
  rcases h.disk with rfl | rfl
  · exact hx
  · refine ⟨hx.1, ?_⟩
    rw [hg.bitSet_update d blk (FsInfo.Sound.inBitmap_of_lt hx.1.2) hy]
    exact hx.2

/-! ## The allocator -/

/-- A claim of a data block leaves the hint in the data area, and the blocks before the bitmap
    as they were. -/
theorem Claimed.data {a blk : Nat} (hg : env.info.Sound) (ha : IsData env a)
    (h : Claimed env d a blk e b d' h') :
    HintOk env (wrap env h') ∧ (b = blk ∨ b = a) ∧ ∀ x, x < env.info.bmapstart → d' x = d x := by
  have h1 := ha.1
  have h2 := ha.2
  have h3 := hg.size_lt
  have h4 := hg.dataStart_eq
  have hmod : (a + 1) % 2 ^ 32 = a + 1 := Nat.mod_eq_of_lt (by omega)
  have hzero : ∀ x, x < env.info.bmapstart → Function.update d a Buf.zero x = d x :=
    fun x hx => Function.update_of_ne (by omega) _ _
  cases h with
  | unzeroed d' hd =>
    refine ⟨hg.wrap_mem h1, .inl rfl, ?_⟩
    rcases hd with rfl | rfl
    · exact fun _ _ => rfl
    · exact hzero
  | unmarked =>
    rw [hmod]
    exact ⟨hg.wrap_mem (by omega), .inr rfl, hzero⟩
  | marked =>
    rw [hmod]
    refine ⟨hg.wrap_mem (by omega), .inr rfl, fun x hx => ?_⟩
    have hge := hg.bitmapBlock_ge (FsInfo.Sound.inBitmap_of_lt h2)
    exact (markUsed_other env _ (by omega)).trans (hzero x hx)

/-- The blocks before the bitmap are not touched. -/
theorem Balloced.before (hg : env.info.Sound) (hh : HintOk env hint)
    (h : Balloced env d hint e b d' h') {x : Nat} (hx : x < env.info.bmapstart) : d' x = d x := by
  cases h with
  | unread => rfl
  | full => rfl
  | claimed a ha hpos hc =>
    exact (hc.data hg ((InSearch.isData hh.1 hh.2).mp ha.inSearch)).2.2 x hx

/-- A call of the allocator keeps every held block; a block it names was free and is zeroed. -/
theorem Balloced.keeps (hg : env.info.Sound) (hh : HintOk env hint)
    (h : Balloced env d hint e b d' h') :
    (∀ x, Held env d x → Held env d' x ∧ d' x = d x) ∧
      (b ≠ 0 → IsData env b ∧ bitSet env d b = false ∧ d' b = Buf.zero) := by
  cases h with
  | unread x hx _ => exact ⟨fun x hx => ⟨hx, rfl⟩, fun h0 => absurd rfl h0⟩
  | full => exact ⟨fun x hx => ⟨hx, rfl⟩, fun h0 => absurd rfl h0⟩
  | claimed a ha hpos hc =>
    have hdata : IsData env a := (InSearch.isData hh.1 hh.2).mp ha.inSearch
    have hclear := ha.clear
    have hne : ∀ {x}, Held env d x → x ≠ a := by
      rintro x hx rfl
      rw [hx.2] at hclear
      cases hclear
    have hzeroed : ∀ x, Held env d x → Held env (Function.update d a Buf.zero) x ∧
        Function.update d a Buf.zero x = d x :=
      fun x hx => KeepsBut.update hg hdata Buf.zero x hx (hne hx)
    cases hc with
    | unzeroed d' hd =>
      refine ⟨?_, fun h0 => absurd rfl h0⟩
      rcases hd with rfl | rfl
      · exact fun x hx => ⟨hx, rfl⟩
      · exact hzeroed
    | unmarked => exact ⟨hzeroed, fun _ => ⟨hdata, hclear, Function.update_self _ _ _⟩⟩
    | marked =>
      refine ⟨fun x hx => ⟨⟨hx.1, ?_⟩, ?_⟩, fun _ => ⟨hdata, hclear, ?_⟩⟩
      · refine (bitSet_handOut hg d hdata (FsInfo.Sound.inBitmap_of_lt hx.1.2)).trans ?_
        rw [if_neg (hne hx)]
        exact hx.2
      · exact (handOut_block hg d hdata (.inr hx.1.1)).trans (if_neg (hne hx))
      · exact (handOut_block hg d hdata (.inr hdata.1)).trans (if_pos rfl)

/-- A call that reports no error hands out a block, or finds the data area full. -/
theorem Balloced.ok (hh : HintOk env hint)
    (h : Balloced env d hint 0 b d' h') :
    (b = 0 ∧ d' = d ∧ h' = hint ∧ ∀ x, IsData env x → bitSet env d x = true) ∨
      (b ≠ 0 ∧ IsData env b ∧ bitSet env d b = false ∧ d' = handOut env d b) := by
  generalize he : (0 : Int) = e at h
  cases h with
  | unread x hx _ => exact absurd he (by decide)
  | full hall => exact .inl ⟨rfl, rfl, rfl, fun x hx => hall x ((InSearch.isData hh.1 hh.2).mpr hx)⟩
  | claimed a ha hpos hc =>
    have hdata : IsData env a := (InSearch.isData hh.1 hh.2).mp ha.inSearch
    cases hc with
    | unzeroed => exact absurd he (by decide)
    | unmarked => exact absurd he (by decide)
    | marked => exact .inr ⟨hpos, hdata, ha.clear, rfl⟩

theorem Balloced.hintOk (hg : env.info.Sound) (hh : HintOk env hint)
    (h : Balloced env d hint e b d' h') : HintOk env h' :=
  h.hint_mem hg hh.1 hh.2

/-- A block handed out is held. -/
theorem held_handOut (hg : env.info.Sound) {a : Nat} (ha : IsData env a) :
    Held env (handOut env d a) a :=
  ⟨ha, (bitSet_handOut hg d ha (FsInfo.Sound.inBitmap_of_lt ha.2)).trans (if_pos rfl)⟩

/-! ## Filling a hole -/

/-- The access to the indirect block `z` keeps every other held block. Its entry is kept, or it
    was 0 and names a block that was free and is zeroed; the other entries are kept. -/
theorem EntryMapped.keeps {z : Nat} (hg : env.info.Sound) (hh : HintOk env hint)
    (hz : Held env d z) (hi : NDIRECT ≤ i) (hi' : i < MAXFILE)
    (h : EntryMapped env d hint z i e b d' h') :
    HintOk env h' ∧ KeepsBut env z d d' ∧ Held env d' z ∧
      (∀ j, j ≠ i - NDIRECT → (d' z).u32 j = (d z).u32 j) ∧
      ((d' z).u32 (i - NDIRECT) = (d z).u32 (i - NDIRECT) ∨
        ((d z).u32 (i - NDIRECT) = 0 ∧ ∃ a, (d' z).u32 (i - NDIRECT) = a ∧ a ≠ 0 ∧
          IsData env a ∧ bitSet env d a = false ∧ d' a = Buf.zero)) := by
  have hsame : ∀ {d₁ : Disk}, (∀ x, Held env d x → Held env d₁ x ∧ d₁ x = d x) →
      KeepsBut env z d d₁ ∧ Held env d₁ z ∧ d₁ z = d z :=
    fun hk => ⟨fun x hx _ => hk x hx, hk z hz⟩
  cases h with
  | unread => exact ⟨hh, .refl env z d, hz, fun _ _ => rfl, .inl rfl⟩
  | found h => exact ⟨hh, .refl env z d, hz, fun _ _ => rfl, .inl rfl⟩
  | error h0 hb he =>
    obtain ⟨hk, hz', heq⟩ := hsame (hb.keeps hg hh).1
    rw [heq]
    exact ⟨hb.hintOk hg hh, hk, hz', fun _ _ => rfl, .inl rfl⟩
  | nospc h0 hb =>
    obtain ⟨hk, hz', heq⟩ := hsame (hb.keeps hg hh).1
    rw [heq]
    exact ⟨hb.hintOk hg hh, hk, hz', fun _ _ => rfl, .inl rfl⟩
  | attached h0 hb ha hs =>
    obtain ⟨hall, hnew⟩ := hb.keeps hg hh
    obtain ⟨hdata, hclear, hzero⟩ := hnew ha
    obtain ⟨hk, hz', heq⟩ := hsame hall
    have hne : b ≠ z := by
      rintro rfl
      rw [hz.2] at hclear
      cases hclear
    have hlt : b < 2 ^ 32 := lt_trans hdata.2 hg.size_lt
    have hj : i - NDIRECT < 256 := by
      simp only [MAXFILE, NDIRECT] at *
      omega
    refine ⟨hb.hintOk hg hh, hk.trans (hs.keepsBut hg hz.1), hs.held hg hz.1 hz', ?_, ?_⟩
    · intro j hj'
      rcases hs.disk with rfl | rfl
      · rw [heq]
      · rw [Function.update_self, Block.u32_setU32 _ hj hlt, if_neg hj', heq]
    · rcases hs.disk with rfl | rfl
      · exact .inl (by rw [heq])
      · refine .inr ⟨h0, b, ?_, ha, hdata, hclear, ?_⟩
        · rw [Function.update_self, Block.u32_setU32 _ hj hlt, if_pos rfl]
        · rw [Function.update_of_ne hne]
          exact hzero

theorem EntryMapped.before {z x : Nat} (hg : env.info.Sound) (hh : HintOk env hint)
    (hz : IsData env z) (h : EntryMapped env d hint z i e b d' h') (hx : x < env.info.bmapstart) :
    d' x = d x := by
  cases h with
  | unread => rfl
  | found => rfl
  | error _ hb => exact hb.before hg hh hx
  | nospc _ hb => exact hb.before hg hh hx
  | attached _ hb _ hs =>
    have hge := hg.data_ge hz
    rcases hs.disk with rfl | rfl
    · exact hb.before hg hh hx
    · rw [Function.update_of_ne (by omega)]
      exact hb.before hg hh hx

/-- A fresh indirect block has no entries. -/
theorem bmap_set_indirect (hb : b ≠ 0 → d' b = Buf.zero) (hz : addrs.get NDIRECT = 0) (j : Nat) :
    bmap d' (addrs.set NDIRECT b) j = bmap d addrs j := by
  by_cases hj : j < NDIRECT
  · rw [bmap_direct hj, bmap_direct hj]
    exact addrs.get_set_ne (by decide) (by unfold NDIRECT at hj; omega) (by omega)
  · have hge : NDIRECT ≤ j := not_lt.mp hj
    rw [bmap_hole hge hz]
    by_cases h0 : b = 0
    · exact bmap_hole hge (by rw [Addrs.get_set_self, h0])
    · rw [bmap_entry hge (by rw [Addrs.get_set_self]; exact h0), Addrs.get_set_self, hb h0]
      exact Block.u32_zero _

/-- What a change of the map may do to block `i`: nothing, or give the hole a block that was
    free and is zeroed. -/
def Filled (env : Env) (d d' : Disk) (addrs addrs' : Addrs) (i : Nat) : Prop :=
  bmap d' addrs' i = bmap d addrs i ∨
    (bmap d addrs i = 0 ∧ bmap d' addrs' i ≠ 0 ∧ IsData env (bmap d' addrs' i) ∧
      bitSet env d (bmap d' addrs' i) = false ∧ d' (bmap d' addrs' i) = Buf.zero)

/-- `xv6_inode_addr` with `alloc` keeps every held block but the indirect block it may enter a
    block number in, and changes the map nowhere but at `i`. -/
theorem Mapped.keeps (hg : env.info.Sound) (hh : HintOk env hint)
    (hz : addrs.get NDIRECT ≠ 0 → Held env d (addrs.get NDIRECT)) (hi : i < MAXFILE)
    (h : Mapped env d hint addrs i e b addrs' dirty d' h') :
    HintOk env h' ∧ KeepsBut env (addrs.get NDIRECT) d d' ∧
      (∀ j, j < MAXFILE → j ≠ i → bmap d' addrs' j = bmap d addrs j) ∧
      Filled env d d' addrs addrs' i := by
  cases h with
  | found hd hne => exact ⟨hh, .refl env _ d, fun _ _ _ => rfl, .inl rfl⟩
  | direct hd h0 hb =>
    obtain ⟨hall, hnew⟩ := hb.keeps hg hh
    refine ⟨hb.hintOk hg hh, fun x hx _ => hall x hx, fun j hj hne => ?_, ?_⟩
    · have hget : ∀ j, j < 13 → j ≠ i → (addrs.set i b).get j = addrs.get j := fun j hj hne =>
        addrs.get_set_ne (by unfold NDIRECT at hd; omega) hj hne
      have hind : (addrs.set i b).get NDIRECT = addrs.get NDIRECT :=
        hget NDIRECT (by decide) (by omega)
      by_cases hjd : j < NDIRECT
      · rw [bmap_direct hjd, bmap_direct hjd]
        exact hget j (by unfold NDIRECT at hjd; omega) hne
      · have hge : NDIRECT ≤ j := not_lt.mp hjd
        by_cases hz0 : addrs.get NDIRECT = 0
        · rw [bmap_hole hge hz0, bmap_hole hge (hind.trans hz0)]
        · rw [bmap_entry hge hz0, bmap_entry hge (by rw [hind]; exact hz0), hind,
            (hall _ (hz hz0)).2]
    · unfold Filled
      rw [bmap_direct hd, bmap_direct hd, Addrs.get_set_self, h0]
      by_cases hb0 : b = 0
      · exact .inl hb0
      · exact .inr ⟨rfl, hb0, (hnew hb0).1, (hnew hb0).2.1, (hnew hb0).2.2⟩
  | entry hge hne he =>
    obtain ⟨hint', hk, hz', hother, hat⟩ := he.keeps hg hh (hz hne) hge hi
    refine ⟨hint', hk, fun j hj hji => ?_, ?_⟩
    · by_cases hjd : j < NDIRECT
      · rw [bmap_direct hjd, bmap_direct hjd]
      · have hjge : NDIRECT ≤ j := not_lt.mp hjd
        rw [bmap_entry hjge hne, bmap_entry hjge hne]
        exact hother _ (by omega)
    · unfold Filled
      rw [bmap_entry hge hne, bmap_entry hge hne]
      rcases hat with hat | ⟨h0, a, hat, hrest⟩
      · exact .inl hat
      · rw [hat]
        exact .inr ⟨h0, hrest⟩
  | error hge h0 hb he =>
    obtain ⟨hall, hnew⟩ := hb.keeps hg hh
    have hmap := bmap_set_indirect (d := d) (fun hb0 => (hnew hb0).2.2) h0
    exact ⟨hb.hintOk hg hh, fun x hx _ => hall x hx, fun j _ _ => hmap j, .inl (hmap i)⟩
  | nospc hge h0 hb =>
    obtain ⟨hall, hnew⟩ := hb.keeps hg hh
    have hmap := bmap_set_indirect (d := d) (fun hb0 => (hnew hb0).2.2) h0
    exact ⟨hb.hintOk hg hh, fun x hx _ => hall x hx, fun j _ _ => hmap j, .inl (hmap i)⟩
  | @indirect e a b d₁ d' h₁ h' hge h0 hb ha he =>
    obtain ⟨hall, hnew⟩ := hb.keeps hg hh
    obtain ⟨hdata, hclear, hzero⟩ := hnew ha
    have hheld : Held env d₁ a := by
      rcases hb.ok hh with ⟨ha0, -⟩ | ⟨-, -, -, rfl⟩
      · exact absurd ha0 ha
      · exact held_handOut hg hdata
    obtain ⟨hint', hk, -, hother, hat⟩ := he.keeps hg (hb.hintOk hg hh) hheld hge hi
    have hnz : (addrs.set NDIRECT a).get NDIRECT ≠ 0 := by
      rw [Addrs.get_set_self]
      exact ha
    have hget : ∀ j, NDIRECT ≤ j → bmap d' (addrs.set NDIRECT a) j = (d' a).u32 (j - NDIRECT) := by
      intro j hj
      rw [bmap_entry hj hnz, Addrs.get_set_self]
    have hempty : ∀ j, (d₁ a).u32 j = 0 := by
      intro j
      rw [hzero]
      exact Block.u32_zero j
    refine ⟨hint', fun x hx _ => ?_, fun j hj hji => ?_, ?_⟩
    · obtain ⟨hx₁, heq⟩ := hall x hx
      have hxa : x ≠ a := by
        rintro rfl
        rw [hx.2] at hclear
        cases hclear
      obtain ⟨hx', heq'⟩ := hk x hx₁ hxa
      exact ⟨hx', heq'.trans heq⟩
    · by_cases hjd : j < NDIRECT
      · rw [bmap_direct hjd, bmap_direct hjd]
        exact addrs.get_set_ne (by decide) (by unfold NDIRECT at hjd; omega) (by omega)
      · have hjge : NDIRECT ≤ j := not_lt.mp hjd
        rw [hget j hjge, bmap_hole hjge h0, hother _ (by omega), hempty]
    · unfold Filled
      rw [hget i hge, bmap_hole hge h0]
      rcases hat with hat | ⟨-, a₂, hat, hne, hdata₂, hclear₂, hzero₂⟩
      · exact .inl (hat.trans (hempty _))
      · rw [hat]
        refine .inr ⟨rfl, hne, hdata₂, ?_, hzero₂⟩
        by_contra hset
        have hheld₂ : Held env d a₂ := ⟨hdata₂, by simpa using hset⟩
        rw [(hall a₂ hheld₂).1.2] at hclear₂
        cases hclear₂

/-- Filling a hole does not touch the blocks before the bitmap. -/
theorem Mapped.before {x : Nat} (hg : env.info.Sound) (hh : HintOk env hint)
    (hz : addrs.get NDIRECT ≠ 0 → Held env d (addrs.get NDIRECT))
    (h : Mapped env d hint addrs i e b addrs' dirty d' h') (hx : x < env.info.bmapstart) :
    d' x = d x := by
  cases h with
  | found => rfl
  | direct _ _ hb => exact hb.before hg hh hx
  | entry _ hne hm => exact hm.before hg hh (hz hne).1 hx
  | error _ _ hb => exact hb.before hg hh hx
  | nospc _ _ hb => exact hb.before hg hh hx
  | indirect _ _ hb ha hm =>
    exact (hm.before hg (hb.hintOk hg hh) ((hb.keeps hg hh).2 ha).1 hx).trans (hb.before hg hh hx)

/-! ## The errors -/

theorem EntryMapped.errors {z : Nat} (h : EntryMapped env d hint z i e b d' h') :
    e = 0 ∨ e = - EIO ∨ e = -ENOSPC := by
  cases h with
  | unread => exact .inr (.inl rfl)
  | found => exact .inl rfl
  | error _ hb => exact hb.error.imp_right .inl
  | nospc => exact .inr (.inr rfl)
  | attached _ _ _ hs => exact hs.error.imp_right .inl

theorem Mapped.errors (h : Mapped env d hint addrs i e b addrs' dirty d' h') :
    e = 0 ∨ e = - EIO ∨ e = -ENOSPC := by
  cases h with
  | found => exact .inl rfl
  | direct _ _ hb =>
    split
    · exact .inr (.inr rfl)
    · exact hb.error.imp_right .inl
  | entry _ _ hm => exact hm.errors
  | error _ _ hb => exact hb.error.imp_right .inl
  | nospc => exact .inr (.inr rfl)
  | indirect _ _ _ _ hm => exact hm.errors

theorem EntryMapped.full {z : Nat} (hh : HintOk env hint)
    (h : EntryMapped env d hint z i e b d' h') (he : e = -ENOSPC) :
    ∀ x, IsData env x → bitSet env d' x = true := by
  cases h with
  | unread => exact absurd he (by decide)
  | found => exact absurd he (by decide)
  | error _ hb hne =>
    rcases hb.error with rfl | rfl
    · exact absurd rfl hne
    · exact absurd he (by decide)
  | nospc _ hb =>
    rcases hb.ok hh with ⟨-, rfl, -, hall⟩ | ⟨hne, -⟩
    · exact hall
    · exact absurd rfl hne
  | attached _ _ _ hs =>
    rcases hs.error with rfl | rfl
    · exact absurd he (by decide)
    · exact absurd he (by decide)

/-- When there is no block to be had for the hole, every block of the data area is in use. -/
theorem Mapped.full (hg : env.info.Sound) (hh : HintOk env hint)
    (h : Mapped env d hint addrs i e b addrs' dirty d' h') (he : e = -ENOSPC) :
    ∀ x, IsData env x → bitSet env d' x = true := by
  cases h with
  | found => exact absurd he (by decide)
  | @direct e₁ _ _ _ _ _ hb =>
    by_cases hc : e₁ = 0 ∧ b = 0
    · obtain ⟨rfl, rfl⟩ := hc
      rcases hb.ok hh with ⟨-, rfl, -, hall⟩ | ⟨hne, -⟩
      · exact hall
      · exact absurd rfl hne
    · rw [if_neg hc] at he
      rcases hb.error with rfl | rfl
      · exact absurd he (by decide)
      · exact absurd he (by decide)
  | entry _ _ hm => exact hm.full hh he
  | error _ _ hb hne =>
    rcases hb.error with rfl | rfl
    · exact absurd rfl hne
    · exact absurd he (by decide)
  | nospc _ _ hb =>
    rcases hb.ok hh with ⟨-, rfl, -, hall⟩ | ⟨hne, -⟩
    · exact hall
    · exact absurd rfl hne
  | indirect _ _ hb _ hm => exact hm.full (hb.hintOk hg hh) he

/-! ## Contents -/

variable {A : Nat → Option Addrs} {n m : Nat}

/-- A file none of whose blocks is `y` reads as before. -/
theorem fblock_keeps {other : Addrs} (h : KeepsBut env y d d')
    (hz : other.get NDIRECT ≠ 0 → Held env d (other.get NDIRECT) ∧ other.get NDIRECT ≠ y) {j : Nat}
    (hj : bmap d other j ≠ 0 → Held env d (bmap d other j) ∧ bmap d other j ≠ y) :
    bmap d' other j = bmap d other j ∧ fblock d' other j = fblock d other j := by
  have hmap : bmap d' other j = bmap d other j :=
    bmap_of_indirect (fun h0 => (h _ (hz h0).1 (hz h0).2).2) j
  refine ⟨hmap, ?_⟩
  unfold fblock
  rw [hmap]
  by_cases h0 : bmap d other j = 0
  · rw [if_pos h0, if_pos h0]
  · rw [if_neg h0, if_neg h0, (h _ (hj h0).1 (hj h0).2).2]

/-- Filling a hole changes no byte of the file. -/
theorem mapped_fblock (hg : env.info.Sound) (hh : HintOk env hint) (ho : Owned env d A)
    (hA : A n = some addrs) (hi : i < MAXFILE)
    (h : Mapped env d hint addrs i e b addrs' dirty d' h') {j : Nat} (hj : j < MAXFILE) :
    fblock d' addrs' j = fblock d addrs j := by
  obtain ⟨-, hk, hother, hat⟩ := h.keeps hg hh (Owned.held_indirect ho hA) hi
  have hsame : bmap d' addrs' j = bmap d addrs j → fblock d' addrs' j = fblock d addrs j := by
    intro heq
    unfold fblock
    rw [heq]
    by_cases h0 : bmap d addrs j = 0
    · rw [if_pos h0, if_pos h0]
    · rw [if_neg h0, if_neg h0]
      exact (hk _ (Owned.held_bmap ho hA hj h0) (Owned.bmap_ne_indirect ho hA hA hj h0)).2
  by_cases hji : j = i
  · subst hji
    rcases hat with hat | ⟨h0, hne, -, -, hzero⟩
    · exact hsame hat
    · unfold fblock
      rw [if_pos h0, if_neg hne, hzero]
  · exact hsame (hother j hj hji)

/-- Nor any byte of another file. -/
theorem mapped_fblock_other (hg : env.info.Sound) (hh : HintOk env hint) (ho : Owned env d A)
    (hA : A n = some addrs) {other : Addrs} (hA' : A m = some other) (hne : m ≠ n)
    (hi : i < MAXFILE) (h : Mapped env d hint addrs i e b addrs' dirty d' h') {j : Nat}
    (hj : j < MAXFILE) :
    bmap d' other j = bmap d other j ∧ fblock d' other j = fblock d other j := by
  obtain ⟨-, hk, -, -⟩ := h.keeps hg hh (Owned.held_indirect ho hA) hi
  refine fblock_keeps hk (fun h0 => ⟨Owned.held_indirect ho hA' h0, ?_⟩)
    fun h0 => ⟨Owned.held_bmap ho hA' hj h0, Owned.bmap_ne_indirect ho hA' hA hj h0⟩
  exact Owned.indirect_ne ho hA' hA h0 hne

/-- Storing in a block of a file changes that block of that file. -/
theorem fblock_store {used : Nat → Prop} (ho : Exclusive used (owns d A)) (hA : A n = some addrs)
    (hi : i < MAXFILE) (hb : bmap d addrs i ≠ 0) (blk : Block) {other : Addrs}
    (hA' : A m = some other) {j : Nat} (hj : j < MAXFILE) :
    bmap (Function.update d (bmap d addrs i) blk) other j = bmap d other j ∧
      fblock (Function.update d (bmap d addrs i) blk) other j =
        if m = n ∧ j = i then blk else fblock d other j := by
  have hmap : bmap (Function.update d (bmap d addrs i) blk) other j = bmap d other j :=
    bmap_of_indirect (fun _ =>
      Function.update_of_ne (bmap_apart_indirect ho hA hA' hi hb).symm _ _) j
  refine ⟨hmap, ?_⟩
  unfold fblock
  rw [hmap]
  by_cases h0 : bmap d other j = 0
  · have hno : ¬ (m = n ∧ j = i) := by
      rintro ⟨rfl, rfl⟩
      rw [hA] at hA'
      cases hA'
      exact hb h0
    rw [if_pos h0, if_neg hno, if_pos h0]
  · by_cases heq : bmap d other j = bmap d addrs i
    · rw [if_neg h0, heq, Function.update_self, if_pos (bmap_apart ho hA' hA hj hi h0 heq)]
    · have hno : ¬ (m = n ∧ j = i) := by
        rintro ⟨rfl, rfl⟩
        rw [hA] at hA'
        cases hA'
        exact heq rfl
      rw [if_neg h0, Function.update_of_ne heq, if_neg hno, if_neg h0]

/-! ## Ownership -/

/-- What an inode owns when it is the inode whose addresses change. -/
theorem owns_update (d : Disk) (A : Nat → Option Addrs) (n : Nat) (addrs' : Addrs)
    (p : Nat × Role) :
    owns d (Function.update A n (some addrs')) p =
      if p.1 = n then ownedAt d addrs' p.2 else owns d A p := by
  unfold owns
  by_cases hp : p.1 = n
  · rw [if_pos hp, hp, Function.update_self]
    rfl
  · rw [if_neg hp, Function.update_of_ne hp]

end

end Xv6fs
