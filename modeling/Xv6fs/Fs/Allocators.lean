/-
  The block map over any allocator.

  `xv6_inode_addr` takes blocks from the `balloc` of its checker. It needs three things of it
  (`HandsOut`): a block handed out is not one the inode has, it is all-zero, and the bytes of the
  blocks the inode has stay as they are. The block is then entered at one place that named none
  (`Enters`), or two blocks are when the indirect block is missing, and the rest of the map is as
  it was. The allocator of the kernel module is one of these (`xv6Balloc_handsOut`).

  Freshness alone is not enough (`fresh_blocks_do_not_suffice`): what a new indirect block holds
  becomes part of the map.
-/
import Xv6fs.Fs.Attach
import Xv6fs.Fs.Gains
import Xv6fs.File.Contents

namespace Xv6fs

/-- The checker of the kernel module with another allocator. -/
def modcheckWith (balloc : Nat → Fs (Int × Nat)) : Checker := { modcheck with balloc := balloc }

/-! ## What an allocator owes -/

/-- `w'` is reached from `w` on behalf of an inode that has the blocks `S`: blocks are read, the
    inode's own are written, and `got` are the blocks handed out, the latest first. -/
inductive Handed (balloc : Nat → Fs (Int × Nat)) (S : Set Nat) (w : World) :
    List Nat → World → Prop where
  | nil : Handed balloc S w [] w
  | bread {got : List Nat} {w₁ w' : World} {b : Nat} {ok : Bool} (h : Handed balloc S w got w₁)
      (hb : Returns (sbBread b) w₁ ok w') : Handed balloc S w got w'
  | bflush {got : List Nat} {w₁ w' : World} {b : Nat} {blk : Block} {e : Int}
      (h : Handed balloc S w got w₁) (hmine : b ∈ S ∨ b ∈ got)
      (hb : Returns (syncBuffer b blk) w₁ e w') : Handed balloc S w got w'
  | balloc {got : List Nat} {w₁ w' : World} {b a : Nat} (h : Handed balloc S w got w₁)
      (hb : Returns (balloc b) w₁ (0, a) w') (ha : a ≠ 0) : Handed balloc S w (a :: got) w'

/-- The blocks handed out from `w` on are `uint`s, none of them is in `S`, and each is handed out
    once. -/
def HandsOutFresh (balloc : Nat → Fs (Int × Nat)) (w : World) (S : Set Nat) : Prop :=
  ∀ {got : List Nat} {w₁ w₂ : World} {b a : Nat}, Handed balloc S w got w₁ →
    Returns (balloc b) w₁ (0, a) w₂ → a ≠ 0 → a < 2 ^ 32 ∧ a ∉ S ∧ a ∉ got

/-- They are also all-zero, and handing one out leaves the bytes of the others alone. -/
structure HandsOut (balloc : Nat → Fs (Int × Nat)) (w : World) (S : Set Nat) : Prop where
  fresh : HandsOutFresh balloc w S
  zero : ∀ {got : List Nat} {w₁ w₂ : World} {b a : Nat}, Handed balloc S w got w₁ →
    Returns (balloc b) w₁ (0, a) w₂ → a ≠ 0 → w₂.disk a = Buf.zero
  kept : ∀ {got : List Nat} {w₁ w₂ : World} {b a : Nat}, Handed balloc S w got w₁ →
    Returns (balloc b) w₁ (0, a) w₂ → a ≠ 0 → ∀ x, x ∈ S ∨ x ∈ got → w₂.disk x = w₁.disk x

/-- The blocks of an inode are pairwise distinct. -/
abbrev Distinct (d : Disk) (addrs : Addrs) : Prop := Exclusive (Owns d addrs) (ownedAt d addrs)

/-- What an allocating call that returns 0 with the block `b` leaves behind. -/
structure MapFilled (balloc : Nat → Fs (Int × Nat)) (ctx : InodeCtx) (i : Nat) (w : World) (b : Nat)
    (ctx' : InodeCtx) (w' : World) : Prop where
  block : b ≠ 0
  others : ∀ j, j < MAXFILE → j ≠ i → bmap w'.disk ctx'.addrs j = bmap w.disk ctx.addrs j
  lookup : ∃ l, Returns (xv6InodeAddr (modcheckWith balloc) ctx' i false) w'
    (0, b, { ctx' with dirty := false }) { w' with log := l }
  /-- A second allocating call returns the same whatever the allocator would do. -/
  again : ∀ balloc', ∃ l, Returns (xv6InodeAddr (modcheckWith balloc') ctx' i true) w'
    (0, b, { ctx' with dirty := false }) { w' with log := l }
  distinct : Distinct w'.disk ctx'.addrs
  dirty : ctx'.dirty = true ↔ ∃ k, ctx'.addrs k ≠ ctx.addrs k
  few : ∃ got, got.length ≤ 2 ∧ Handed balloc {x | Owns w.disk ctx.addrs x} w got w'

/-- The block map behaves as a partial function that an allocating call extends at one place. -/
structure PartialMap (balloc : Nat → Fs (Int × Nat)) (ctx : InodeCtx) (i : Nat) (w : World) :
    Prop where
  read : ctx.dirty = false → ∃ l, Returns (xv6InodeAddr (modcheckWith balloc) ctx i false) w
    (if i ≥ MAXFILE then (-EFBIG, 0, ctx) else (0, bmap w.disk ctx.addrs i, ctx))
    { w with log := l }
  fill : i < MAXFILE → ∀ b ctx' w',
    Returns (xv6InodeAddr (modcheckWith balloc) ctx i true) w (0, b, ctx') w' →
    MapFilled balloc ctx i w b ctx' w'

section

variable {balloc : Nat → Fs (Int × Nat)} {w w₁ w₂ w' : World} {ctx ctx' : InodeCtx}
  {d d' : Disk} {addrs addrs' : Addrs} {i j a b z : Nat} {r : Role} {S : Set Nat} {got : List Nat}

/-! ## Looking up -/

/-- Without `alloc` the allocator is not called. -/
theorem inodeAddr_with (balloc : Nat → Fs (Int × Nat)) (ctx : InodeCtx) (i : Nat) :
    xv6InodeAddr (modcheckWith balloc) ctx i false = xv6InodeAddr modcheck ctx i false := by
  simp only [xv6InodeAddr, xv6InodeAddr.indirect, modcheckWith, modcheck, Bool.false_eq_true,
    and_false, if_false, Bool.not_false, if_true]

theorem lookup_returns (balloc : Nat → Fs (Int × Nat)) (ctx : InodeCtx) (hq : Quiet w.env)
    (hi : i < MAXFILE) :
    ∃ l, Returns (xv6InodeAddr (modcheckWith balloc) ctx i false) w
      (0, bmap w.disk ctx.addrs i, { ctx with dirty := false }) { w with log := l } := by
  rw [inodeAddr_with]
  exact inodeAddr_returns ctx hq hi

/-- Where a block is mapped the allocator is not called either. -/
theorem mapped_returns (balloc : Nat → Fs (Int × Nat)) (hq : Quiet w.env) (hi : i < MAXFILE)
    (hb : bmap w.disk ctx.addrs i ≠ 0) :
    ∃ l, Returns (xv6InodeAddr (modcheckWith balloc) ctx i true) w
      (0, bmap w.disk ctx.addrs i, { ctx with dirty := false }) { w with log := l } := by
  simp only [xv6InodeAddr, if_neg (not_le.mpr hi), and_true, Bool.not_true, Bool.false_eq_true,
    if_false]
  by_cases hd : i < NDIRECT
  · rw [bmap_direct hd] at hb ⊢
    rw [if_pos hd, if_neg hb]
    exact ⟨w.log, returns_iff.mpr rfl⟩
  · have hge : NDIRECT ≤ i := not_lt.mp hd
    have hz : ctx.addrs.get NDIRECT ≠ 0 := fun hz => hb (bmap_hole hge hz)
    rw [bmap_entry hge hz] at hb ⊢
    rw [if_neg hd, if_neg hz]
    refine ⟨.bread (ctx.addrs.get NDIRECT) .ok :: w.log, ?_⟩
    simp only [xv6InodeAddr.indirect, modcheckWith, modcheck, quiet_bind_sbBread hq, Bool.not_true,
      Bool.false_eq_true, if_false, runs_bind_bdata, true_and]
    exact (Prog.via_ite _ _ _ _ _ _).mpr (.inr ⟨hb, returns_iff.mpr rfl⟩)

/-! ## Filling a hole -/

/-- A block the inode does not have is entered at a place. -/
structure Takes (d : Disk) (addrs : Addrs) (a : Nat) (d' : Disk) (r : Role) (addrs' : Addrs) :
    Prop where
  block : a ≠ 0
  uint : a < 2 ^ 32
  fresh : ¬ Owns d addrs a
  enters : Enters d addrs a d' r addrs'

namespace Takes

theorem ownedAt_eq (h : Takes d addrs a d' r addrs') (r' : Role) :
    ownedAt d' addrs' r' = if r' = r then some a else ownedAt d addrs r' :=
  h.enters.ownedAt_eq h.block h.uint r'

theorem owns_iff (h : Takes d addrs a d' r addrs') (x : Nat) :
    Owns d' addrs' x ↔ Owns d addrs x ∨ x = a :=
  owns_gained h.enters.none h.ownedAt_eq x

theorem distinct (h : Takes d addrs a d' r addrs') (hown : Distinct d addrs) :
    Distinct d' addrs' := by
  refine Exclusive.step hown r a h.fresh ((h.owns_iff a).mpr (.inr rfl)) fun r' x hr' => ?_
  have hx : Owns d' addrs' x := ⟨r', hr'⟩
  rw [h.ownedAt_eq] at hr'
  split at hr'
  · exact .inr ⟨‹_›, (Option.some.inj hr').symm⟩
  · exact .inl ⟨hr', hx⟩

/-- The map of the file blocks that are not reached through that place is as it was. -/
theorem bmap_ne (h : Takes d addrs a d' r addrs') (hj : j < MAXFILE) (hne : dataRole j ≠ r) :
    bmap d' addrs' j = bmap d addrs j := by
  have hown := h.ownedAt_eq (dataRole j)
  rw [if_neg hne, ownedAt_dataRole hj, ownedAt_dataRole hj] at hown
  exact blockNo_inj hown

theorem bmap_self (h : Takes d addrs a d' (dataRole i) addrs') (hi : i < MAXFILE) :
    bmap d' addrs' i = a := by
  have hown := h.ownedAt_eq (dataRole i)
  rw [if_pos rfl, ownedAt_dataRole hi] at hown
  exact (blockNo_eq_some.mp hown).1

end Takes

/-- How a map comes to have file block `i`: `got` are the blocks it took, the latest first. -/
inductive Fills (d : Disk) (addrs : Addrs) (i : Nat) : Disk → Addrs → List Nat → Prop where
  | kept (hb : bmap d addrs i ≠ 0) : Fills d addrs i d addrs []
  | one {a : Nat} {d' : Disk} {addrs' : Addrs} (h : Takes d addrs a d' (dataRole i) addrs') :
      Fills d addrs i d' addrs' [a]
  | two {z a : Nat} {d₁ d' : Disk} {addrs₁ addrs' : Addrs} (h : Takes d addrs z d₁ .indirect addrs₁)
      (h' : Takes d₁ addrs₁ a d' (dataRole i) addrs') : Fills d addrs i d' addrs' [a, z]

namespace Fills

theorem length_le (h : Fills d addrs i d' addrs' got) : got.length ≤ 2 := by
  cases h with
  | kept => exact Nat.zero_le 2
  | one => exact Nat.le_succ 1
  | two => exact le_refl 2

theorem distinct (h : Fills d addrs i d' addrs' got) (hown : Distinct d addrs) :
    Distinct d' addrs' := by
  cases h with
  | kept => exact hown
  | one h => exact h.distinct hown
  | two h h' => exact h'.distinct (h.distinct hown)

theorem mapped (h : Fills d addrs i d' addrs' got) (hi : i < MAXFILE) : bmap d' addrs' i ≠ 0 := by
  cases h with
  | kept hb => exact hb
  | one h =>
    rw [h.bmap_self hi]
    exact h.block
  | two h h' =>
    rw [h'.bmap_self hi]
    exact h'.block

theorem others (h : Fills d addrs i d' addrs' got) (hj : j < MAXFILE) (hne : j ≠ i) :
    bmap d' addrs' j = bmap d addrs j := by
  have hrole : dataRole j ≠ dataRole i := fun hr => hne (dataRole_inj hr)
  cases h with
  | kept => rfl
  | one h => exact h.bmap_ne hj hrole
  | two h h' => exact (h'.bmap_ne hj hrole).trans (h.bmap_ne hj (dataRole_ne_indirect j))

end Fills

/-- What a block handed out to an inode is to it. -/
theorem HandsOut.grants (ha : HandsOut balloc w S) (hh : Handed balloc S w got w₁)
    (hmine : ∀ x, Owns w₁.disk addrs x → x ∈ S ∨ x ∈ got) (hb : Returns (balloc b) w₁ (0, a) w₂)
    (hne : a ≠ 0) :
    a < 2 ^ 32 ∧ ¬ Owns w₁.disk addrs a ∧ w₂.disk a = Buf.zero ∧
      ∀ x, Owns w₁.disk addrs x → w₂.disk x = w₁.disk x := by
  obtain ⟨hlt, hS, hgot⟩ := ha.fresh hh hb hne
  exact ⟨hlt, fun hown => (hmine a hown).elim hS hgot, ha.zero hh hb hne,
    fun x hx => ha.kept hh hb hne x (hmine x hx)⟩

/-- The access to the indirect block returns its entry, or fills it. -/
theorem indirect_takes (hq : Quiet w₁.env)
    (h : Returns (xv6InodeAddr.indirect (modcheckWith balloc) ctx (i - NDIRECT) true) w₁
      (0, b, ctx') w') (ha : HandsOut balloc w S) (hh : Handed balloc S w got w₁)
    (hmine : ∀ x, Owns w₁.disk ctx.addrs x → x ∈ S ∨ x ∈ got)
    (hz : ctx.addrs.get NDIRECT ≠ 0) (hge : NDIRECT ≤ i) (hi : i < MAXFILE) :
    (b = bmap w₁.disk ctx.addrs i ∧ b ≠ 0 ∧ w'.disk = w₁.disk ∧ Handed balloc S w got w') ∨
    (Takes w₁.disk ctx.addrs b w'.disk (dataRole i) ctx.addrs ∧
      Handed balloc S w (b :: got) w') := by
  have hrole : dataRole i = .entry (i - NDIRECT) := if_neg (not_lt.mpr hge)
  have hj : i - NDIRECT < NINDIRECT := by
    simp only [MAXFILE, NDIRECT, NINDIRECT] at *
    omega
  rw [bmap_entry hge hz, hrole]
  generalize hzdef : ctx.addrs.get NDIRECT = z at hz
  have hzown : Owns w₁.disk ctx.addrs z := by
    rw [← hzdef] at hz ⊢
    exact owns_indirect hz
  simp only [xv6InodeAddr.indirect, modcheckWith, modcheck, hzdef] at h
  obtain ⟨ok, w₂, hread, h⟩ := h.bind
  have hread' := hh.bread hread
  obtain ⟨-, l, rfl⟩ := sbBread_spec hread
  rcases h.ite with ⟨-, h⟩ | ⟨-, h⟩
  · obtain ⟨he, -⟩ := h.pure
    have he0 : (- EIO : Int) = 0 := congrArg Prod.fst he
    exact absurd he0 (by decide)
  simp only [runs_bind_bdata, Bool.not_true, Bool.false_eq_true, if_false] at h
  rcases h.ite with ⟨hnone, h⟩ | ⟨hsome, h⟩
  · obtain ⟨⟨e, a⟩, w₃, hballoc, h⟩ := h.bind
    rcases h.ite with ⟨hne, h⟩ | ⟨heq, h⟩
    · obtain ⟨he, -⟩ := h.pure
      exact absurd (congrArg Prod.fst he) hne
    obtain rfl : e = 0 := not_not.mp heq
    rcases h.ite with ⟨-, h⟩ | ⟨hne, h⟩
    · obtain ⟨he, -⟩ := h.pure
      have he0 : (-ENOSPC : Int) = 0 := congrArg Prod.fst he
      exact absurd he0 (by decide)
    simp only [runs_bind_bdata] at h
    obtain ⟨e', w₄, hflush, h⟩ := h.bind
    obtain ⟨he, rfl⟩ := h.pure
    obtain ⟨rfl, rfl, -⟩ : e' = 0 ∧ a = b ∧ ctx = ctx' := by simpa using he
    obtain ⟨hlt, hfresh, -, hkept⟩ := ha.grants hread' hmine hballoc hne
    have hhand := (hread'.balloc hballoc hne).bflush
      ((hmine z hzown).imp_right (List.mem_cons_of_mem a)) hflush
    have hq₃ : Quiet w₃.env := by rwa [Runs.env_eq hballoc]
    obtain ⟨-, -, rfl⟩ := (quiet_syncBuffer hq₃).mp hflush
    refine .inr ⟨⟨hne, hlt, hfresh, .entry (by rwa [hzdef]) hj (by rwa [hzdef]) ?_⟩, hhand⟩
    rw [hzdef]
    exact (Function.update_self _ _ _).trans (by rw [hkept z hzown])
  · obtain ⟨he, rfl⟩ := h.pure
    obtain ⟨rfl, -⟩ : (w₁.disk z).u32 (i - NDIRECT) = b ∧ ctx = ctx' := by simpa using he
    exact .inl ⟨rfl, hsome, rfl, hread'⟩

/-- An allocating call that returns 0 takes the blocks it lacks and no others. -/
theorem inodeAddr_fills (hq : Quiet w.env) (ha : HandsOut balloc w {x | Owns w.disk ctx.addrs x})
    (hi : i < MAXFILE)
    (h : Returns (xv6InodeAddr (modcheckWith balloc) ctx i true) w (0, b, ctx') w') :
    ∃ got, Fills w.disk ctx.addrs i w'.disk ctx'.addrs got ∧ b = bmap w'.disk ctx'.addrs i ∧
      Handed balloc {x | Owns w.disk ctx.addrs x} w got w' := by
  have hmine : ∀ x, Owns w.disk ctx.addrs x → x ∈ {x | Owns w.disk ctx.addrs x} ∨ x ∈ [] :=
    fun x hx => .inl hx
  simp only [xv6InodeAddr, if_neg (not_le.mpr hi), and_true, Bool.not_true, Bool.false_eq_true,
    if_false] at h
  by_cases hd : i < NDIRECT
  · have hrole : dataRole i = .direct i := if_pos hd
    rw [if_pos hd] at h
    rcases h.ite with ⟨hz, h⟩ | ⟨hne, h⟩
    · obtain ⟨⟨e, a⟩, w₁, hballoc, h⟩ := h.bind
      obtain ⟨he, rfl⟩ := h.pure
      obtain ⟨herr, rfl, rfl⟩ : (if e = 0 ∧ a = 0 then -ENOSPC else e) = 0 ∧ a = b ∧
          { ctx with addrs := ctx.addrs.set i a, dirty := true } = ctx' := by simpa using he
      have hne : e = 0 ∧ a ≠ 0 := by
        split at herr
        · exact absurd herr (by decide)
        · exact ⟨herr, fun ha0 => ‹¬ (e = 0 ∧ a = 0)› ⟨herr, ha0⟩⟩
      obtain ⟨rfl, hne⟩ := hne
      obtain ⟨hlt, hfresh, -, hkept⟩ := ha.grants .nil hmine hballoc hne
      have ht : Takes w.disk ctx.addrs a w₁.disk (dataRole i) (ctx.addrs.set i a) := by
        rw [hrole]
        exact ⟨hne, hlt, hfresh, .direct hd hz fun hnz => hkept _ (owns_indirect hnz)⟩
      exact ⟨[a], .one ht, (ht.bmap_self hi).symm, .balloc .nil hballoc hne⟩
    · obtain ⟨he, rfl⟩ := h.pure
      cases he
      have hb : bmap w.disk ctx.addrs i ≠ 0 := by rwa [bmap_direct hd]
      exact ⟨[], .kept hb, (bmap_direct hd).symm, .nil⟩
  · have hge : NDIRECT ≤ i := not_lt.mp hd
    rw [if_neg hd] at h
    rcases h.ite with ⟨hz, h⟩ | ⟨hnz, h⟩
    · obtain ⟨⟨e, z⟩, w₁, hballoc, h⟩ := h.bind
      rcases h.ite with ⟨hne, h⟩ | ⟨heq, h⟩
      · obtain ⟨he, -⟩ := h.pure
        exact absurd (congrArg Prod.fst he) hne
      obtain rfl : e = 0 := not_not.mp heq
      rcases h.ite with ⟨-, h⟩ | ⟨hne, h⟩
      · obtain ⟨he, -⟩ := h.pure
        have he0 : (-ENOSPC : Int) = 0 := congrArg Prod.fst he
        exact absurd he0 (by decide)
      obtain ⟨hlt, hfresh, hzero, hkept⟩ := ha.grants .nil hmine hballoc hne
      have ht : Takes w.disk ctx.addrs z w₁.disk .indirect (ctx.addrs.set NDIRECT z) :=
        ⟨hne, hlt, hfresh, .indirect hz hzero⟩
      have hq₁ : Quiet w₁.env := by rwa [Runs.env_eq hballoc]
      have hctx := indirect_ctx h
      subst hctx
      have hmine₁ : ∀ x, Owns w₁.disk (ctx.addrs.set NDIRECT z) x →
          x ∈ {x | Owns w.disk ctx.addrs x} ∨ x ∈ [z] := fun x hx => by
        rcases (ht.owns_iff x).mp hx with hold | rfl
        · exact .inl hold
        · exact .inr List.mem_cons_self
      rcases indirect_takes hq₁ h ha (.balloc .nil hballoc hne) hmine₁
        (by rwa [Addrs.get_set_self]) hge hi with ⟨rfl, hb, -⟩ | ⟨ht', hhand⟩
      · -- a new indirect block has no entries
        refine absurd ?_ hb
        rw [ht.bmap_ne hi (dataRole_ne_indirect i), bmap_hole hge hz]
      · exact ⟨[b, z], .two ht ht', (ht'.bmap_self hi).symm, hhand⟩
    · have hctx := indirect_ctx h
      subst hctx
      rcases indirect_takes hq h ha .nil hmine hnz hge hi with ⟨rfl, hb, hdisk, hhand⟩ | ⟨ht, hhand⟩
      · rw [hdisk]
        exact ⟨[], .kept hb, rfl, hhand⟩
      · exact ⟨[b], .one ht, (ht.bmap_self hi).symm, hhand⟩

theorem mapFilled (hq : Quiet w.env) (hown : Distinct w.disk ctx.addrs)
    (ha : HandsOut balloc w {x | Owns w.disk ctx.addrs x}) (hi : i < MAXFILE)
    (h : Returns (xv6InodeAddr (modcheckWith balloc) ctx i true) w (0, b, ctx') w') :
    MapFilled balloc ctx i w b ctx' w' := by
  obtain ⟨got, hf, rfl, hhand⟩ := inodeAddr_fills hq ha hi h
  have hb := hf.mapped hi
  have hq' : Quiet w'.env := by rwa [Runs.env_eq h]
  refine ⟨hb, fun j hj hne => hf.others hj hne, lookup_returns balloc ctx' hq' hi,
    fun balloc' => mapped_returns balloc' hq' hi hb, hf.distinct hown, ?_, got, hf.length_le, hhand⟩
  have hctx := inodeAddr_ctx hi h
  have hset : ctx'.addrs.get (viaSlot i) ≠ 0 := fun h0 => hb (bmap_unused h0)
  by_cases h0 : ctx.addrs.get (viaSlot i) = 0
  · rw [if_pos h0] at hctx
    obtain ⟨a, hctx⟩ := hctx
    have hdirty : ctx'.dirty = true := by rw [hctx]
    refine iff_of_true hdirty ⟨Fin.ofNat 13 (viaSlot i), fun heq => hset ?_⟩
    exact Eq.trans heq h0
  · rw [if_neg h0] at hctx
    rw [hctx]
    exact iff_of_false Bool.false_ne_true fun ⟨k, hk⟩ => hk rfl

/-! ## The kernel module's allocator -/

theorem xv6Balloc_tracks (hrw : w.env.rdonly = false) (hg : w.env.info.Sound)
    (hh : HintOk w.env w.hint) (hS : ∀ x ∈ S, Held w.env w.disk x)
    (h : Handed xv6Balloc S w got w') :
    w'.env = w.env ∧ HintOk w.env w'.hint ∧ ∀ x, x ∈ S ∨ x ∈ got → Held w.env w'.disk x := by
  induction h with
  | nil => exact ⟨rfl, hh, fun x hx => hS x (hx.resolve_right List.not_mem_nil)⟩
  | bread _ hb ih =>
    obtain ⟨-, l, rfl⟩ := sbBread_spec hb
    exact ih
  | bflush _ hmine hb ih =>
    obtain ⟨henv, hhint, hheld⟩ := ih
    obtain ⟨f, -, rfl⟩ := syncBuffer_fate hb
    refine ⟨henv, hhint, fun x hx => ?_⟩
    unfold Fate.store
    split
    · exact hheld x hx
    · exact (hheld x hx).update hg (hheld _ hmine).1 _
  | balloc _ hb ha ih =>
    obtain ⟨henv, hhint, hheld⟩ := ih
    rw [← henv] at hrw hg hhint hheld ⊢
    obtain ⟨l, d, hint, rfl, -, hb⟩ := xv6Balloc_spec hrw hg.size_lt hhint.2 hb
    refine ⟨rfl, hb.hintOk hg hhint, fun x hx => ?_⟩
    rw [List.mem_cons, or_left_comm] at hx
    rcases hx with rfl | hx
    · rcases hb.ok hhint with ⟨h0, -⟩ | ⟨-, hdata, -, hd⟩
      · exact absurd h0 ha
      · show Held _ d _
        rw [hd]
        exact held_handOut hg hdata
    · exact ((hb.keeps hg hhint).1 x (hheld x hx)).1

/-- The allocator of the kernel module is one for every inode whose blocks are in use. -/
theorem xv6Balloc_handsOut (hrw : w.env.rdonly = false) (hg : w.env.info.Sound)
    (hh : HintOk w.env w.hint) (hS : ∀ x ∈ S, Held w.env w.disk x) : HandsOut xv6Balloc w S := by
  have hcall : ∀ {got : List Nat} {w₁ w₂ : World} {b a : Nat}, Handed xv6Balloc S w got w₁ →
      Returns (xv6Balloc b) w₁ (0, a) w₂ → a ≠ 0 →
      (IsData w.env a ∧ bitSet w.env w₁.disk a = false ∧ w₂.disk a = Buf.zero) ∧
        ∀ x, x ∈ S ∨ x ∈ got → Held w.env w₁.disk x ∧ w₂.disk x = w₁.disk x := by
    intro got w₁ w₂ b a hhand hb ha
    obtain ⟨henv, hhint, hheld⟩ := xv6Balloc_tracks hrw hg hh hS hhand
    rw [← henv] at hrw hg hhint hheld ⊢
    obtain ⟨l, d, hint, rfl, -, hb⟩ := xv6Balloc_spec hrw hg.size_lt hhint.2 hb
    obtain ⟨hkeep, hnew⟩ := hb.keeps hg hhint
    exact ⟨hnew ha, fun x hx => ⟨hheld x hx, (hkeep x (hheld x hx)).2⟩⟩
  refine ⟨fun hhand hb ha => ?_, fun hhand hb ha => (hcall hhand hb ha).1.2.2,
    fun hhand hb ha x hx => ((hcall hhand hb ha).2 x hx).2⟩
  obtain ⟨⟨hdata, hfree, -⟩, hheld⟩ := hcall hhand hb ha
  have hnot : ∀ x, x ∈ S ∨ x ∈ _ → x ≠ _ := fun x hx hxa => by
    have hset := (hheld x hx).1.2
    rw [hxa, hfree] at hset
    cases hset
  exact ⟨lt_trans hdata.2 hg.size_lt, fun hx => hnot _ (.inl hx) rfl,
    fun hx => hnot _ (.inr hx) rfl⟩

end

/-- The block map is a well-behaved partial function over any allocator that hands out
    all-zero blocks the inode does not have. -/
theorem block_map_is_partial_function (balloc : Nat → Fs (Int × Nat)) (ctx : InodeCtx) (i : Nat)
    (w : World) (hq : Quiet w.env) (hown : Distinct w.disk ctx.addrs)
    (ha : HandsOut balloc w {x | Owns w.disk ctx.addrs x}) : PartialMap balloc ctx i w := by
  refine ⟨fun hclean => ?_, fun hi b ctx' w' h => mapFilled hq hown ha hi h⟩
  by_cases hi : i ≥ MAXFILE
  · rw [if_pos hi]
    refine ⟨w.log, ?_⟩
    unfold xv6InodeAddr
    rw [if_pos hi]
    exact returns_iff.mpr rfl
  · rw [if_neg hi]
    have hctx : { ctx with dirty := false } = ctx := by rw [← hclean]
    have hlook := lookup_returns balloc ctx hq (not_le.mp hi)
    rwa [hctx] at hlook

/-- No block, no size. -/
def emptyCtx : InodeCtx := ⟨fun _ => 0, 0, false⟩

theorem not_owns_emptyCtx (d : Disk) (x : Nat) : ¬ Owns d emptyCtx.addrs x := by
  rintro ⟨r, hr⟩
  cases r <;> simp [ownedAt, emptyCtx, Addrs.get, blockNo] at hr

theorem distinct_emptyCtx (d : Disk) : Distinct d emptyCtx.addrs where
  held h := ⟨_, h⟩
  inj h _ := absurd ⟨_, h⟩ (not_owns_emptyCtx d _)

theorem block_map_is_partial_function_eightBlocks :
    (∃ l, Returns (xv6InodeAddr (modcheckWith xv6Balloc) emptyCtx 20 false) eightBlocks
      (0, 0, emptyCtx) { eightBlocks with log := l }) ∧
    ∃ ctx' w', Returns (xv6InodeAddr (modcheckWith xv6Balloc) emptyCtx 20 true) eightBlocks
      (0, 4, ctx') w' ∧ MapFilled xv6Balloc emptyCtx 20 eightBlocks 4 ctx' w' := by
  have hmap := block_map_is_partial_function xv6Balloc emptyCtx 20 eightBlocks
    (fun _ => rfl) (distinct_emptyCtx _)
    (xv6Balloc_handsOut rfl ⟨by decide, by decide⟩ ⟨by decide, by decide⟩
      fun x hx => absurd hx (not_owns_emptyCtx _ x))
  refine ⟨hmap.read rfl, ?_⟩
  have hrun : Returns (xv6InodeAddr (modcheckWith xv6Balloc) emptyCtx 20 true) eightBlocks
      (0, 4, _) _ := returns_after rfl
  exact ⟨_, _, hrun, hmap.fill (by decide) _ _ _ hrun⟩

/-! ## Blocks that are not zeroed -/

/-- An allocator that hands out the blocks from the hint on with the bytes they have. -/
def nextBlock (_ : Nat) : Fs (Int × Nat) := do
  let hint := (← Prog.get).hint
  if hint < 2 ^ 32 then
    setHint (hint + 1)
    return (0, hint)
  return (0, 0)

theorem nextBlock_spec {w w' : World} {b a : Nat} (h : Returns (nextBlock b) w (0, a) w')
    (ha : a ≠ 0) : a = w.hint ∧ a < 2 ^ 32 ∧ w'.hint = a + 1 := by
  simp only [nextBlock, runs_bind_get] at h
  rcases h.ite with ⟨hlt, h⟩ | ⟨-, h⟩
  · simp only [runs_bind_setHint] at h
    obtain ⟨he, rfl⟩ := h.pure
    obtain rfl : w.hint = a := congrArg Prod.snd he
    exact ⟨rfl, hlt, rfl⟩
  · obtain ⟨he, -⟩ := h.pure
    exact absurd (congrArg Prod.snd he).symm ha

/-- The blocks it has handed out are those before the hint. -/
theorem nextBlock_behind {w w' : World} {S : Set Nat} {got : List Nat}
    (h : Handed nextBlock S w got w') : ∀ x ∈ got, x < w'.hint := by
  induction h with
  | nil => exact fun x hx => absurd hx List.not_mem_nil
  | bread _ hb ih =>
    obtain ⟨-, l, rfl⟩ := sbBread_spec hb
    exact ih
  | bflush _ _ hb ih =>
    obtain ⟨f, -, rfl⟩ := syncBuffer_fate hb
    exact ih
  | balloc _ hb ha ih =>
    obtain ⟨rfl, -, hhint⟩ := nextBlock_spec hb ha
    intro x hx
    rw [hhint]
    rcases List.mem_cons.mp hx with rfl | hx
    · exact Nat.lt_succ_self _
    · exact (ih x hx).trans (Nat.lt_succ_self _)

/-- Eight blocks full of ones. -/
def fullOfOnes : World := { eightBlocks with disk := fun _ _ => 0xff }

/-- It is not enough that the blocks are not the inode's: file block 20 brings a new indirect
    block, and file block 21 is mapped to what it happens to hold. -/
theorem fresh_blocks_do_not_suffice :
    ¬ ∀ (balloc : Nat → Fs (Int × Nat)) (ctx : InodeCtx) (i : Nat) (w : World), Quiet w.env →
      Distinct w.disk ctx.addrs → HandsOutFresh balloc w {x | Owns w.disk ctx.addrs x} →
      PartialMap balloc ctx i w := by
  intro hall
  have hfresh : HandsOutFresh nextBlock fullOfOnes
      {x | Owns fullOfOnes.disk emptyCtx.addrs x} := by
    intro got w₁ w₂ b a hh hb ha
    obtain ⟨rfl, hlt, -⟩ := nextBlock_spec hb ha
    exact ⟨hlt, not_owns_emptyCtx _ _, fun hx => absurd (nextBlock_behind hh _ hx) (lt_irrefl _)⟩
  have hrun : Returns (xv6InodeAddr (modcheckWith nextBlock) emptyCtx 20 true) fullOfOnes
      (0, 4294967295, _) _ := returns_after rfl
  have hmap := hall nextBlock emptyCtx 20 fullOfOnes (fun _ => rfl) (distinct_emptyCtx _) hfresh
  exact absurd ((hmap.fill (by decide) _ _ _ hrun).others 21 (by decide) (by decide)) (by decide)

end Xv6fs
