/-
  Is a block that an insertion attached remembered?

  The insertion goes through the directory block by block. A hole it meets is filled with an
  all-zero block, whose first entry is unused, so the loop does not go on behind it: of all
  lookups only the last one can set an address (`Scanned`). What follows it reads that block and
  writes it (`Tail`).
-/
import Xv6fs.Inode.Recorded

namespace Xv6fs

/-- From `w` to `w'` blocks behind the inode table are read and written; `e` tells whether that
    failed. -/
structure Tail (w : World) (e : Int) (w' : World) : Prop where
  le : w ≤ w'
  inodes : w'.inodes = w.inodes
  before : ∀ x, x < w.env.info.bmapstart → w'.disk x = w.disk x
  behind : World.Along (Behind w.env) w w'
  error : e = 0 ↔ Faultless w w'

/-- The lookup of file block `m`, after some reads, sets an address. `e` is the error of the
    lookup, or else of what follows it. -/
structure SetAt (w : World) (addrs : Addrs) (m : Nat) (e : Int) (new : Addrs) (w' : World) :
    Prop where
  writable : w.env.rdonly = false
  earlier : ∀ j, j < m → j < NDIRECT → addrs.get j ≠ 0
  set : ∃ w₀ w₁ e₁ b, w ≤ w₀ ∧ OnlyReads w w₀ 0 ∧ Attached w₀ addrs m e₁ b new w₁ ∧
    ((e₁ ≠ 0 ∧ e = e₁ ∧ w' = w₁) ∨ (e₁ = 0 ∧ Tail w₁ e w'))

section

variable {φ : Event → Prop} {w w₀ w₁ w' : World} {e : Int}

theorem OnlyReads.tail (hle : w ≤ w') (h : OnlyReads w w' e) : Tail w e w' := by
  have hb : World.Along (Behind w.env) w w' := h.behind
  have he := h.error
  obtain ⟨l, rfl⟩ := h.log
  exact ⟨hle, rfl, fun _ _ => rfl, hb, he⟩

theorem Wrote.tail {b : Nat} {blk : Block} (hb : w.env.info.bmapstart ≤ b) (hle : w ≤ w')
    (h : Wrote w b blk e w') : Tail w e w' := by
  obtain ⟨f, -, hdisk, hall⟩ := h.along (ψ := Behind w.env) (fun _ => trivial) fun _ => trivial
  refine ⟨hle, ?_, fun x hx => ?_, hall.mpr hb, h.error⟩
  · obtain ⟨l, f', -, -, -, rfl⟩ := h
    rfl
  · rw [hdisk]
    unfold Fate.store
    split
    · rfl
    · exact Function.update_of_ne (by omega) _ _

theorem SetAt.prepend {addrs new : Addrs} {m : Nat} (hle : w ≤ w₀) (hr : OnlyReads w w₀ 0)
    (h : SetAt w₀ addrs m e new w') : SetAt w addrs m e new w' := by
  obtain ⟨hrw, hearlier, w₁, w₂, e₁, b, hle₁, hr₁, hset⟩ := h
  refine ⟨?_, hearlier, w₁, w₂, e₁, b, le_trans hle hle₁, hr.trans hle hle₁ hr₁, hset⟩
  rw [← hle.1]
  exact hrw

theorem Attached.isData {addrs new : Addrs} {i b : Nat} (hg : w.env.info.Sound)
    (h : Attached w addrs i 0 b new w₁) : w₁.env.info.bmapstart ≤ b := by
  rw [h.le.1]
  exact hg.data_ge (h.fresh rfl).2.1

/-! ## Lookups that leave the addresses alone -/

section

variable {σ : Type} {check : Checker} {cb : DiterCallback σ} {ctx ctx' : InodeCtx} {i b : Nat}

theorem inodeAddr_addrs (h0 : ctx.addrs.get (viaSlot i) ≠ 0)
    (h : Runs φ (xv6InodeAddr check ctx i true) w (e, b, ctx') w') :
    ctx'.addrs = ctx.addrs ∧ ctx'.size = ctx.size := by
  by_cases hi : i < MAXFILE
  · have hctx := inodeAddr_ctx hi h
    rw [if_neg h0] at hctx
    rw [hctx]
    exact ⟨rfl, rfl⟩
  · rw [(xv6InodeAddr_big (not_lt.mp hi) h).2.2.1]
    exact ⟨rfl, rfl⟩

/-- A direct block that is there is looked up without a call. -/
theorem inodeAddr_found (hi : i < NDIRECT) (h0 : ctx.addrs.get i ≠ 0)
    (h : Runs φ (xv6InodeAddr check ctx i true) w (e, b, ctx') w') :
    e = 0 ∧ b = ctx.addrs.get i ∧ ctx' = { ctx with dirty := false } ∧ w' = w := by
  have hbig : ¬ i ≥ MAXFILE := by
    simp only [NDIRECT, MAXFILE] at *
    omega
  simp only [xv6InodeAddr, if_neg hbig, if_pos hi, h0, false_and, if_false] at h
  obtain ⟨hres, rfl⟩ := h.pure
  cases hres
  exact ⟨rfl, rfl, rfl, rfl⟩

/-- A lookup that succeeds without setting an address goes through one that is in use. -/
theorem inodeAddr_used (hg : w.env.info.Sound) (hh : HintOk w.env w.hint)
    (h : Runs φ (xv6InodeAddr modcheck ctx i true) w (0, b, ctx') w')
    (heq : ctx'.addrs = ctx.addrs) : ctx.addrs.get (viaSlot i) ≠ 0 ∧ b ≠ 0 := by
  have hi : i < MAXFILE := by
    by_contra hbig
    exact absurd (xv6InodeAddr_big (not_lt.mp hbig) h).1 (by decide)
  by_cases hro : w.env.rdonly = true
  · obtain ⟨hb, hmap⟩ := (xv6InodeAddr_rdonly hro hi h).2.2.2.2 rfl
    exact ⟨fun h0 => hb (hmap.trans (bmap_unused h0)), hb⟩
  · obtain ⟨l, d, hint, addrs, dirty, rfl, rfl, -, -, hmap⟩ :=
      xv6InodeAddr_alloc (by simpa using hro) hg hh.1 hh.2 hi h
    obtain rfl : addrs = ctx.addrs := heq
    obtain ⟨hb, hbmap⟩ := hmap.ok hg hh hi
    exact ⟨fun h0 => hb (hbmap.symm.trans (bmap_unused h0)), hb⟩

/-- Behind the direct blocks no address is set once there is an indirect block. -/
theorem blocks_beyond :
    ∀ (rounds i off size : Nat) {dir dir' : InodeCtx} {act act' : DiterAction} {s s' : σ} {e : Int}
      {w w' : World}, NDIRECT ≤ i → dir.addrs.get NDIRECT ≠ 0 →
      Runs φ (xv6DirIterate.blocks check cb true rounds i off size act dir s) w
        (e, act', dir', s') w' →
      dir'.addrs = dir.addrs ∧ dir'.size = dir.size
  | 0, _, _, _, _, _, _, _, _, _, _, _, _, _, _, h => h.halt.elim
  | rounds + 1, i, off, size, dir, dir', act, act', s, s', e, w, w', hi, hind, h => by
    simp only [xv6DirIterate.blocks] at h
    obtain ⟨⟨e₁, b, dir₁⟩, w₁, haddr, h⟩ := h.bind
    obtain ⟨haddrs, hsize⟩ := inodeAddr_addrs (by rwa [viaSlot_indirect hi]) haddr
    rcases h.ite with ⟨-, h⟩ | ⟨-, h⟩
    · obtain ⟨hres, rfl⟩ := h.pure
      cases hres
      exact ⟨haddrs, hsize⟩
    obtain ⟨⟨e₂, act₂, s₂⟩, w₂, hbody, hnext⟩ := h.bind
    clear h
    rcases hnext.ite with ⟨-, h⟩ | ⟨-, h⟩
    · obtain ⟨hres, rfl⟩ := h.pure
      cases hres
      exact ⟨haddrs, hsize⟩
    rcases h.ite with ⟨-, h⟩ | ⟨-, h⟩
    · obtain ⟨hres, rfl⟩ := h.pure
      cases hres
      exact ⟨haddrs, hsize⟩
    · obtain ⟨haddrs', hsize'⟩ :=
        blocks_beyond rounds (i + 1) 0 _ (by omega) (by rwa [haddrs]) h
      exact ⟨haddrs'.trans haddrs, hsize'.trans hsize⟩

end

/-! ## The loop over the blocks -/

variable {nde : Dirent}

/-- How the loop over the blocks of a directory of `total` entries ends, as to the addresses. -/
inductive Scanned (w : World) (dir : InodeCtx) (total : Nat) :
    Int → DiterAction → InodeCtx → World → Prop where
  /-- block `m` was a hole and is attached -/
  | attached {m : Nat} {e : Int} {act : DiterAction} {new : Addrs} {w' : World}
      (h : SetAt w dir.addrs m e new w') (hstop : e ≠ 0 ∨ act.cont = false) :
      Scanned w dir total e act { dir with addrs := new, dirty := true } w'
  /-- the loop stops where it is -/
  | stopped {e : Int} {act : DiterAction} {dir' : InodeCtx} {w' : World}
      (haddrs : dir'.addrs = dir.addrs) (hstop : e ≠ 0 ∨ act.cont = false) :
      Scanned w dir total e act dir' w'
  /-- no entry is unused, in direct blocks only -/
  | passed {act : DiterAction} {dir' : InodeCtx} {w' : World} (haddrs : dir'.addrs = dir.addrs)
      (hsize : dir'.size = dir.size) (hr : OnlyReads w w' 0)
      (hused : ∀ j, j < NDIRECT → j * NENTS < total → dir.addrs.get j ≠ 0) :
      Scanned w dir total 0 act dir' w'
  /-- the loop gets to the blocks behind the indirect block, which is there -/
  | beyond {e : Int} {act : DiterAction} {dir' : InodeCtx} {w' : World}
      (haddrs : dir'.addrs = dir.addrs) (hsize : dir'.size = dir.size)
      (hind : dir.addrs.get NDIRECT ≠ 0) (htotal : NDIRECT * NENTS < total) :
      Scanned w dir total e act dir' w'

theorem Scanned.prepend {dir dir₁ dir' : InodeCtx} {total : Nat} {act : DiterAction}
    (hle : w ≤ w₀) (hr : OnlyReads w w₀ 0) (hle' : w₀ ≤ w') (haddrs : dir₁.addrs = dir.addrs)
    (hsize : dir₁.size = dir.size) (h : Scanned w₀ dir₁ total e act dir' w') :
    Scanned w dir total e act dir' w' := by
  cases h with
  | @attached m _ _ new _ h hstop =>
    have hdir : ({ dir₁ with addrs := new, dirty := true } : InodeCtx) =
        { dir with addrs := new, dirty := true } := by rw [hsize]
    rw [hdir]
    rw [haddrs] at h
    exact .attached (h.prepend hle hr) hstop
  | stopped haddrs' hstop => exact .stopped (haddrs'.trans haddrs) hstop
  | passed haddrs' hsize' hr' hused =>
    rw [haddrs] at hused
    exact .passed (haddrs'.trans haddrs) (hsize'.trans hsize) (hr.trans hle hle' hr') hused
  | beyond haddrs' hsize' hind htotal =>
    rw [haddrs] at hind
    exact .beyond (haddrs'.trans haddrs) (hsize'.trans hsize) hind htotal

theorem blocks_scanned :
    ∀ (rounds i size : Nat) {dir dir' : InodeCtx} {act act' : DiterAction} {s s' : Unit} {e : Int}
      {w w' : World}, size ≠ 0 → (∀ j, j < i → j < NDIRECT → dir.addrs.get j ≠ 0) →
      w.env.info.Sound → HintOk w.env w.hint →
      Runs φ (xv6DirIterate.blocks modcheck (deInsertCallback nde) true rounds i 0 size act dir s)
        w (e, act', dir', s') w' →
      Scanned w dir (i * NENTS + size) e act' dir' w'
  | 0, _, _, _, _, _, _, _, _, _, _, _, _, _, _, _, h => h.halt.elim
  | rounds + 1, i, size, dir, dir', act, act', s, s', e, w, w', hsize, hearlier, hg, hh, h => by
    simp only [xv6DirIterate.blocks] at h
    obtain ⟨⟨e₁, b, dir₁⟩, w₁, haddr, h⟩ := h.bind
    have hle₁ := haddr.mono
    have hlim : xv6Min NENTS (size + 0) = min NENTS size := by
      rw [xv6Min_eq_min, Nat.add_zero]
    have hmin : 0 < min NENTS size := by
      simp only [NENTS]
      omega
    rw [hlim] at h
    by_cases hne : dir₁.addrs ≠ dir.addrs
    · -- block `i` is attached, and an all-zero block ends the loop
      obtain ⟨hdir₁, hatt, hrw, -⟩ := attached_of_alloc hg hh haddr hne
      rcases h.ite with ⟨he, h⟩ | ⟨he, h⟩
      · obtain ⟨hres, rfl⟩ := h.pure
        cases hres
        rw [hdir₁]
        exact .attached ⟨hrw, hearlier, w, w₁, e₁, b, le_refl w, .refl w, hatt,
          .inl ⟨he, rfl, rfl⟩⟩ (.inl he)
      obtain rfl : e₁ = 0 := not_not.mp he
      obtain ⟨⟨e₂, act₂, s₂⟩, w₂, hbody, hnext⟩ := h.bind
      clear h
      have hle₂ := hbody.mono
      have hend : (e₂ ≠ 0 ∨ act₂.cont = false) → Tail w₁ e₂ w₂ →
          Scanned w dir (i * NENTS + size) e act' dir' w' := by
        intro hstop htail
        rcases hnext.ite with ⟨-, h⟩ | ⟨hgo, -⟩
        · obtain ⟨hres, rfl⟩ := h.pure
          cases hres
          rw [hdir₁]
          exact .attached ⟨hrw, hearlier, w, w₁, 0, b, le_refl w, .refl w, hatt,
            .inr ⟨rfl, htail⟩⟩ hstop
        · refine absurd ?_ hgo
          rcases hstop with h0 | h0
          · exact .inr h0
          · exact .inl (by rw [h0]; rfl)
      rcases body_spec (deInsert_seeker nde) (Nat.zero_le _) (Nat.zero_le _)
        (fun h0 => absurd h0 (hatt.fresh rfl).1) hbody with
        ⟨hr₂, -, hmiss⟩ | ⟨j, -, -, -, hhit⟩
      · refine hend (.inl fun h0 => ?_) (hr₂.tail hle₂)
        refine (hmiss h0).2.2 (hatt.fresh rfl).1 0 (le_refl 0) hmin ?_
        rw [(hatt.fresh rfl).2.2, Block.dirent_zero]
        rfl
      · obtain ⟨-, hfree, hstop, de, hcb, ⟨-, hwrote⟩ | ⟨hclean, -⟩⟩ := hhit
        · exact hend (.inr hstop) (hwrote.tail (hatt.isData hg) hle₂)
        · rw [(deInsert_hit hfree hcb).2.2.1] at hclean
          cases hclean
    · have heq : dir₁.addrs = dir.addrs := not_not.mp hne
      rcases h.ite with ⟨he, h⟩ | ⟨he, h⟩
      · obtain ⟨hres, rfl⟩ := h.pure
        cases hres
        exact .stopped heq (.inl he)
      obtain rfl : e₁ = 0 := not_not.mp he
      obtain ⟨hused, hb⟩ := inodeAddr_used hg hh haddr heq
      have hsize₁ := (inodeAddr_addrs hused haddr).2
      obtain ⟨⟨e₂, act₂, s₂⟩, w₂, hbody, hnext⟩ := h.bind
      clear h
      have hle₂ := hbody.mono
      rcases hnext.ite with ⟨hstop, h⟩ | ⟨hgo, h⟩
      · obtain ⟨hres, rfl⟩ := h.pure
        cases hres
        refine .stopped heq ?_
        rcases hstop with h0 | h0
        · exact .inr (by simpa using h0)
        · exact .inl h0
      by_cases hi : i < NDIRECT
      · have h0 : dir.addrs.get i ≠ 0 := by rwa [viaSlot_direct hi] at hused
        obtain ⟨-, -, hdir₁, rfl⟩ := inodeAddr_found hi h0 haddr
        have hhere : ∀ j, j < i + 1 → j < NDIRECT → dir₁.addrs.get j ≠ 0 := by
          intro j hj hj'
          rw [heq]
          rcases Nat.lt_succ_iff_lt_or_eq.mp hj with hlt | rfl
          · exact hearlier j hlt hj'
          · exact h0
        rcases body_spec (deInsert_seeker nde) (Nat.zero_le _) (Nat.zero_le _)
          (fun hb0 => absurd hb0 hb) hbody with ⟨hr, rfl, -⟩ | ⟨j, -, -, -, hhit⟩
        · obtain rfl : e₂ = 0 := not_not.mp fun hne₂ => hgo (.inr hne₂)
          rcases h.ite with ⟨hdone, h⟩ | ⟨hmore, h⟩
          · obtain ⟨hres, rfl⟩ := h.pure
            cases hres
            refine .passed heq hsize₁ hr fun j hj hlt => ?_
            rw [← heq]
            refine hhere j ?_ hj
            simp only [NENTS] at hdone hlt
            omega
          · have hfull : min NENTS size = NENTS := by omega
            rw [hfull] at hmore h
            have hle' := h.mono
            have henv := hle₂.1
            have hhint : w₂.hint = w₁.hint := by
              obtain ⟨l, rfl⟩ := hr.log
              rfl
            have htotal : (i + 1) * NENTS + (size - (NENTS - 0)) = i * NENTS + size := by
              rw [Nat.succ_mul]
              omega
            have hrest := blocks_scanned rounds (i + 1) _ hmore hhere (by rwa [henv])
              (by rwa [henv, hhint]) h
            rw [htotal] at hrest
            exact hrest.prepend hle₂ hr hle' heq hsize₁
        · exact absurd (.inl (by rw [hhit.stop]; rfl)) hgo
      · have hind : dir.addrs.get NDIRECT ≠ 0 := by
          rwa [viaSlot_indirect (not_lt.mp hi)] at hused
        have htotal : NDIRECT * NENTS < i * NENTS + size := by
          have := Nat.mul_le_mul_right NENTS (not_lt.mp hi)
          omega
        rcases h.ite with ⟨-, h⟩ | ⟨-, h⟩
        · obtain ⟨hres, rfl⟩ := h.pure
          cases hres
          exact .beyond heq hsize₁ hind htotal
        · obtain ⟨haddrs', hsize'⟩ :=
            blocks_beyond rounds (i + 1) 0 _ (by omega) (by rwa [heq]) h
          exact .beyond (haddrs'.trans heq) (hsize'.trans hsize₁) hind htotal

/-- What follows the lookup of one more entry does not set an address. -/
theorem extend_addrs {σ : Type} {check : Checker} {cb : DiterCallback σ} {dir dir' : InodeCtx}
    {s s' : σ} (h : Runs φ (xv6DirIterate.extend check cb true dir s) w (e, dir', s') w') :
    ∃ e₁ b dir₁ w₁, Runs φ (xv6InodeAddr check dir (dir.size / 16 / NENTS) true) w (e₁, b, dir₁)
      w₁ ∧ dir'.addrs = dir₁.addrs := by
  simp only [xv6DirIterate.extend] at h
  obtain ⟨⟨e₁, b, dir₁⟩, w₁, haddr, hnext⟩ := h.bind
  refine ⟨e₁, b, dir₁, w₁, haddr, ?_⟩
  clear h
  rcases hnext.ite with ⟨-, h⟩ | ⟨-, h⟩
  · obtain ⟨hres, -⟩ := h.pure
    cases hres
    rfl
  obtain ⟨ok, w₂, -, h⟩ := h.bind
  rcases h.ite with ⟨-, h⟩ | ⟨-, h⟩
  · obtain ⟨hres, -⟩ := h.pure
    cases hres
    rfl
  obtain ⟨data, w₃, -, h⟩ := h.bind
  obtain ⟨⟨act, de, s₁⟩, w₄, -, h⟩ := h.bind
  rcases h.ite with ⟨-, h⟩ | ⟨-, h⟩ <;> obtain ⟨x, w₅, -, h⟩ := h.bind <;>
    obtain ⟨hres, -⟩ := h.pure <;> cases hres <;> dsimp only <;> split <;> rfl

/-- One more entry behind the last one. -/
theorem extend_sets {dir dir' : InodeCtx} {s s' : Unit} (hg : w.env.info.Sound)
    (hh : HintOk w.env w.hint)
    (hearlier : ∀ j, j < dir.size / 16 / NENTS → j < NDIRECT → dir.addrs.get j ≠ 0)
    (h : Runs φ (xv6DirIterate.extend modcheck (deInsertCallback nde) true dir s) w (e, dir', s')
      w') (hne : dir'.addrs ≠ dir.addrs) :
    dir'.dirty = true ∧ SetAt w dir.addrs (dir.size / 16 / NENTS) e dir'.addrs w' := by
  obtain ⟨e₁, b, dir₁, w₁, haddr, heq⟩ := extend_addrs h
  simp only [xv6DirIterate.extend] at h
  obtain ⟨r₁, v₁, haddr', hnext⟩ := h.bind
  clear h
  obtain ⟨rfl, rfl⟩ := Returns.unique (Runs.returns haddr) (Runs.returns haddr')
  rw [heq] at hne ⊢
  obtain ⟨hdir₁, hatt, hrw, -⟩ := attached_of_alloc hg hh haddr hne
  have hset : ∀ {e₂ w₂}, (e₁ ≠ 0 ∧ e₂ = e₁ ∧ w₂ = w₁) ∨ (e₁ = 0 ∧ Tail w₁ e₂ w₂) →
      SetAt w dir.addrs (dir.size / 16 / NENTS) e₂ dir₁.addrs w₂ := fun hor =>
    ⟨hrw, hearlier, w, w₁, e₁, b, le_refl w, .refl w, hatt, hor⟩
  have hdirty : dir₁.dirty = true := by rw [hdir₁]
  rcases hnext.ite with ⟨he, h⟩ | ⟨he, h⟩
  · obtain ⟨hres, rfl⟩ := h.pure
    cases hres
    exact ⟨hdirty, hset (.inl ⟨he, rfl, rfl⟩)⟩
  obtain rfl : e₁ = 0 := not_not.mp he
  simp only [modcheck] at h
  obtain ⟨l₂, hle₂, ⟨hr₂, h⟩ | ⟨hr₂, h⟩⟩ := sbBread_cases h
  · obtain ⟨hres, rfl⟩ := h.pure
    cases hres
    exact ⟨hdirty, hset (.inr ⟨rfl, hr₂.tail hle₂⟩)⟩
  simp only [runs_bind_bdata] at h
  obtain ⟨⟨act, de, s₁⟩, w₃, hlift, hend⟩ := h.bind
  clear h
  obtain ⟨hcb, rfl⟩ := hlift.lift
  have hfree : ((w₁.disk b).dirent (dir.size / 16 % NENTS)).inum = 0 := by
    rw [(hatt.fresh rfl).2.2, Block.dirent_zero]
    rfl
  obtain ⟨-, rfl, hde, hext⟩ := deInsert_hit hfree hcb
  rcases hend.ite with ⟨-, h⟩ | ⟨hclean, -⟩
  · obtain ⟨e₂, w₄, hsync, h⟩ := h.bind
    have hle₄ := hsync.mono
    obtain ⟨f, he, hw₄⟩ := syncBuffer_fate hsync
    have hwrote : Wrote w₁ b _ e₂ w₄ := ⟨l₂, f, hle₂, hr₂, he, hw₄⟩
    obtain ⟨hres, rfl⟩ := h.pure
    cases hres
    simp only [hext, if_true]
    exact ⟨trivial, hset (.inr ⟨rfl, hwrote.tail (hatt.isData hg) (le_trans hle₂ hle₄)⟩)⟩
  · exact absurd hde hclean

/-- An insertion sets an address with its last lookup, and leaves the context dirty. -/
theorem iterate_sets {dir dir' : InodeCtx} {s s' : Unit} (hg : w.env.info.Sound)
    (hh : HintOk w.env w.hint)
    (h : Runs φ (xv6DirIterate modcheck dir (deInsertCallback nde) s 0 true) w (e, dir', s') w')
    (hne : dir'.addrs ≠ dir.addrs) :
    dir'.dirty = true ∧ ∃ m, SetAt w dir.addrs m e dir'.addrs w' := by
  simp only [xv6DirIterate, runs_bind_assert] at h
  obtain ⟨⟨-, htwo⟩, h⟩ := h
  rcases h.ite with ⟨hend, -⟩ | ⟨-, h⟩
  · exact absurd hend (Nat.not_lt_zero _)
  obtain ⟨⟨e₁, act, dir₁, s₁⟩, w₁, hblocks, hnext⟩ := h.bind
  clear h
  have hstart : 0 / NENTS = 0 ∧ 0 % NENTS = 0 := ⟨rfl, rfl⟩
  rw [hstart.1, hstart.2] at hblocks
  have hle := hblocks.mono
  have hscan := blocks_scanned _ 0 _ (by omega) (fun j hj => absurd hj (Nat.not_lt_zero j)) hg hh
    hblocks
  have htotal : 0 * NENTS + (dir.size / 16 - 0) = dir.size / 16 := by omega
  rw [htotal] at hscan
  cases hscan with
  | attached hset hstop =>
    rcases hnext.ite with ⟨⟨h0, hcont, -⟩, -⟩ | ⟨-, h⟩
    · rcases hstop with hstop | hstop
      · exact absurd h0 hstop
      · rw [hstop] at hcont
        cases hcont
    · obtain ⟨hres, rfl⟩ := h.pure
      cases hres
      exact ⟨rfl, _, hset⟩
  | stopped haddrs hstop =>
    rcases hnext.ite with ⟨⟨h0, hcont, -⟩, -⟩ | ⟨-, h⟩
    · rcases hstop with hstop | hstop
      · exact absurd h0 hstop
      · rw [hstop] at hcont
        cases hcont
    · obtain ⟨hres, rfl⟩ := h.pure
      cases hres
      exact absurd haddrs hne
  | passed haddrs hsize hr hused =>
    rcases hnext.ite with ⟨-, h⟩ | ⟨-, h⟩
    · have henv := hle.1
      have hhint : w₁.hint = w.hint := by
        obtain ⟨l, rfl⟩ := hr.log
        rfl
      rw [← haddrs] at hne
      obtain ⟨hdirty, hset⟩ := extend_sets (by rwa [henv]) (by rwa [henv, hhint])
        (fun j hj hj' => by
          rw [haddrs]
          rw [hsize] at hj
          refine hused j hj' ?_
          simp only [NENTS] at hj ⊢
          omega) h hne
      rw [haddrs] at hset
      exact ⟨hdirty, _, hset.prepend hle hr⟩
    · obtain ⟨hres, rfl⟩ := h.pure
      cases hres
      exact absurd haddrs hne
  | beyond haddrs hsize hind hbig =>
    rcases hnext.ite with ⟨-, h⟩ | ⟨-, h⟩
    · have hm : NDIRECT ≤ dir₁.size / 16 / NENTS := by
        rw [hsize]
        simp only [NDIRECT, NENTS] at hbig ⊢
        omega
      obtain ⟨e₂, b, dir₂, w₂, haddr, heq⟩ := extend_addrs h
      have hsame := (inodeAddr_addrs (by rwa [viaSlot_indirect hm, haddrs]) haddr).1
      exact absurd (heq.trans (hsame.trans haddrs)) hne
    · obtain ⟨hres, rfl⟩ := h.pure
      cases hres
      exact absurd haddrs hne

/-- The lookup and what follows it, put together. -/
theorem SetAt.split {addrs new : Addrs} {m : Nat} (h : SetAt w addrs m e new w') :
    ∃ v v₁ e₁ b, w ≤ v ∧ OnlyReads w v 0 ∧ Attached v addrs m e₁ b new v₁ ∧ v₁ ≤ w' ∧
      w'.inodes = v₁.inodes ∧ (∀ x, x < v₁.env.info.bmapstart → w'.disk x = v₁.disk x) ∧
      World.Along (Behind v₁.env) v₁ w' ∧ (e = 0 ↔ e₁ = 0 ∧ Faultless v₁ w') := by
  obtain ⟨-, -, v, v₁, e₁, b, hle, hr, hatt, ⟨hne, rfl, rfl⟩ | ⟨rfl, htail⟩⟩ := h
  · exact ⟨v, w', e, b, hle, hr, hatt, le_refl w', rfl, fun _ _ => rfl, World.along_refl _ w',
      iff_of_false hne fun hc => hne hc.1⟩
  · exact ⟨v, v₁, 0, b, hle, hr, hatt, htail.le, htail.inodes, htail.before, htail.behind,
      htail.error.trans (and_iff_right rfl).symm⟩

/-! ## The call -/

variable {p : Ptr} {new : Addrs}

/-- A block can be attached to the directory: directly, or behind an indirect block. -/
def Roomy (env : Env) (d : Disk) (addrs : Addrs) : Prop :=
  (∃ j, j < NDIRECT ∧ addrs.get j = 0) ∨ TwoFree env d

theorem SetAt.roomy_iff {addrs : Addrs} {m : Nat} (h : SetAt w addrs m e new w')
    (hunused : addrs.get (viaSlot m) = 0) :
    (m < NDIRECT ∨ TwoFree w.env w.disk) ↔ Roomy w.env w.disk addrs := by
  refine or_congr_left ⟨fun hm => ⟨m, hm, ?_⟩, fun ⟨j, hj, h0⟩ => ?_⟩
  · rwa [viaSlot_direct hm] at hunused
  · by_contra hm
    exact h.earlier j (lt_of_lt_of_le hj (not_lt.mp hm)) hj h0

/-- An address that an insertion has set is written back to the inode. -/
theorem SetAt.left {ctx : InodeCtx} {u : Unit} {w₂ : World} {m : Nat} (hr : OnlyReads w w₀ 0)
    (hle : w ≤ w₀) (h : SetAt w₀ (w.addrs p) m e ctx.addrs w₁)
    (hwb : Runs φ (ctx.writeBack p) w₁ u w₂) :
    Left w p ctx.addrs w₂ ∧ w ≤ w₂ ∧ World.Along (Behind w.env) w w₂ ∧
      (e = 0 ↔ Faultless w w₂ ∧ Roomy w.env w.disk (w.addrs p)) ∧
      ((w.inodes p).priv = none → ∀ k, ctx.addrs k < 2 ^ 32) := by
  obtain ⟨v, v₁, e₁, b, hle₁, hr₁, hatt, hle₂, hino, hbefore, hbehind, herr⟩ := h.split
  have hroom := h.roomy_iff hatt.unused
  have hmono := hwb.mono
  obtain rfl := (runs_modifyInode _ _ _ _ _).mp hwb
  have hread := hr.trans hle hle₁ hr₁
  have hlev := le_trans hle hle₁
  have hlev₁ := le_trans hlev hatt.le
  have hall := le_trans hlev₁ hle₂
  have hnodes : v₁.inodes = w.inodes := by
    obtain ⟨l, hv₁⟩ := hatt.frame
    obtain ⟨l', hv⟩ := hread.log
    rw [hv₁, hv]
  have hdisk : ∀ x, x < w.env.info.bmapstart → v₁.disk x = w.disk x := by
    obtain ⟨l, rfl⟩ := hread.log
    exact hatt.before
  rw [hlev₁.1] at hbefore hbehind
  refine ⟨⟨hall.1, ?_, fun x hx => (hbefore x hx).trans (hdisk x hx)⟩, le_trans hall hmono, ?_, ?_,
    fun hpriv => hatt.lt (World.addrs_lt hpriv)⟩
  · simp only [Function.update_self]
    rw [hino, hnodes]
  · have hb := hatt.behind
    rw [hlev.1] at hb
    exact (hread.behind.trans (hb.trans hbehind)).trans (World.along_refl _ w₁)
  · have hcut : Faultless w w₁ ↔ Faultless v v₁ ∧ Faultless v₁ w₁ := by
      rw [faultless_split hlev₁ hle₂, faultless_split hlev hatt.le,
        and_iff_right (hread.error.mp rfl)]
    have hsame : (m < NDIRECT ∨ TwoFree v.env v.disk) ↔ Roomy w.env w.disk (w.addrs p) := by
      obtain ⟨l, rfl⟩ := hread.log
      obtain ⟨l', rfl⟩ := hr.log
      exact hroom
    refine (herr.trans ?_).trans (and_congr_left' ((faultless_congr rfl).trans hcut)).symm
    rw [hatt.ok, hsame]
    exact and_right_comm

/-- The insertion of `name` sets an address. -/
def InsertSets (w : World) (p : Ptr) (name : FileName) (inum : Nat) (new : Addrs) : Prop :=
  (w.inodes p).fmt = .dir ∧ name.length ≤ DIRSIZ ∧ ¬ (name = dot ∨ name = dotdot) ∧
    Sets w p (fun ctx => xv6DirIterate modcheck ctx
      (deInsertCallback ⟨UInt16.ofNat inum, strncpy name⟩) () 0 true) (·.2.1) new

variable {name : FileName} {inum : Nat}

theorem insert_remembers (hg : w.env.info.Sound)
    (ht : w.env.info.TableOk) (hh : HintOk w.env w.hint)
    (hin : (w.inodes p).priv = none → InTable w.env (w.inodes p).ino)
    (hset : InsertSets w p name inum new)
    (h : Returns (xv6DentryInsert p name inum) w e w') :
    Recorded w' p new ↔ Remembers w w' p (Roomy w.env w.disk (w.addrs p)) := by
  obtain ⟨hisdir, hlen, hnodot, ctx, w₀, ⟨e₁, ctx', s⟩, w₁, hinit, hiter, rfl, hne⟩ := hset
  obtain ⟨hr, hctx⟩ := initIctx_reads hinit
  have hle := hinit.mono
  have hold : ctx.addrs = w.addrs p := congrArg InodeCtx.addrs (hctx rfl)
  have hstate : w₀.env = w.env ∧ w₀.hint = w.hint := by
    obtain ⟨l, rfl⟩ := hr.log
    exact ⟨rfl, rfl⟩
  obtain ⟨hdirty, m, hset⟩ := iterate_sets (by rw [hstate.1]; exact hg)
    (by rw [hstate.1, hstate.2]; exact hh) hiter hne
  rw [hold] at hset hne
  simp only [xv6DentryInsert, runs_bind_getInode] at h
  rcases h.ite with ⟨hfmt, -⟩ | ⟨-, h⟩
  · exact absurd hisdir hfmt
  rcases h.ite with ⟨hlong, -⟩ | ⟨-, h⟩
  · exact absurd hlen (not_le.mpr hlong)
  rcases h.ite with ⟨hdot, -⟩ | ⟨-, h⟩
  · exact absurd hdot hnodot
  obtain ⟨r₀, v₀, hinit', h⟩ := h.bind
  obtain ⟨rfl, rfl⟩ := hinit.unique hinit'
  rcases h.ite with ⟨h0, -⟩ | ⟨-, h⟩
  · exact absurd rfl h0
  obtain ⟨r₁, v₁, hiter', h⟩ := h.bind
  obtain ⟨rfl, rfl⟩ := hiter.unique hiter'
  obtain ⟨u, w₂, hwb, hnext⟩ := h.bind
  clear h hinit' hiter'
  obtain ⟨hleft, hle₂, hbehind, hok, hlt⟩ := hset.left hr hle hwb
  rcases hnext.ite with ⟨he, h⟩ | ⟨he, h⟩
  · obtain ⟨hf, hroom⟩ := hok.mp he
    have hctx' : ctx' = ⟨ctx'.addrs, ctx'.size, true⟩ := by rw [← hdirty]
    rw [hctx'] at h
    exact remembers_of_dirty hg ht hin hne (hstate.1 ▸ hset.writable) hlt hleft hle₂ hf hroom h
  · obtain ⟨-, rfl⟩ := h.pure
    exact remembers_of_left hg ht hin hne hleft hbehind fun hc => he (hok.mpr hc)

/-- The cached addresses change only when the insertion sets one. -/
theorem insert_sets {addrs : Addrs} (hpriv : (w.inodes p).priv = some addrs)
    (hnew : (w'.inodes p).priv = some new) (hne : new ≠ addrs)
    (h : Returns (xv6DentryInsert p name inum) w e w') : InsertSets w p name inum new := by
  have hsame : ∀ {e₁}, Returns (pure e₁) w e w' → False := fun hend => by
    obtain ⟨-, rfl⟩ := hend.pure
    exact hne (Option.some.inj (hnew.symm.trans hpriv))
  simp only [xv6DentryInsert, runs_bind_getInode] at h
  rcases h.ite with ⟨-, h⟩ | ⟨hfmt, h⟩
  · exact (hsame h).elim
  rcases h.ite with ⟨-, h⟩ | ⟨hlong, h⟩
  · exact (hsame h).elim
  rcases h.ite with ⟨-, h⟩ | ⟨hdot, h⟩
  · exact (hsame h).elim
  obtain ⟨⟨e₀, ctx⟩, w₀, hinit, h⟩ := h.bind
  obtain ⟨hres, rfl⟩ := xv6InitIctx_spec hpriv hinit
  obtain ⟨rfl, hctx⟩ := Prod.mk.inj hres
  rcases h.ite with ⟨h0, -⟩ | ⟨-, h⟩
  · exact absurd rfl h0
  obtain ⟨⟨e₁, ctx', s⟩, w₁, hiter, h⟩ := h.bind
  obtain ⟨u, w₂, hwb, hnext⟩ := h.bind
  clear h
  have hin := ((keeps_dirIterate (P := fun _ => False) _ ctx () 0 true).via hiter).other p id
  have hpriv₂ := writeBack_priv hin hpriv hwb
  have hlast : (w'.inodes p).priv = some ctx'.addrs := by
    rcases hnext.ite with ⟨-, h⟩ | ⟨-, h⟩
    · exact ictxDirty_priv hpriv₂ h
    · obtain ⟨-, rfl⟩ := h.pure
      exact hpriv₂
  obtain rfl : ctx'.addrs = new := Option.some.inj (hlast.symm.trans hnew)
  exact ⟨not_not.mp hfmt, not_lt.mp hlong, hdot, ctx, w₀, (e₁, ctx', s), w₁, hinit, hiter, rfl,
    by rwa [hctx]⟩

/-- A call that sets an address records it exactly when the inode was dirty before, or no block
    I/O fails and there is room for all the blocks the call takes. -/
theorem recorded_iff (hg : w.env.info.Sound) (ht : w.env.info.TableOk) (hh : HintOk w.env w.hint)
    (hin : (w.inodes p).priv = none → InTable w.env (w.inodes p).ino) :
    (∀ i r, Sets w p (fun ctx => xv6InodeAddr modcheck ctx i true) (·.2.2) new →
        Returns (xv6InodeWblock p i) w r w' →
        (Recorded w' p new ↔ Remembers w w' p (i < NDIRECT ∨ TwoFree w.env w.disk))) ∧
      ∀ name inum e, InsertSets w p name inum new → Returns (xv6DentryInsert p name inum) w e w' →
        (Recorded w' p new ↔ Remembers w w' p (Roomy w.env w.disk (w.addrs p))) :=
  ⟨fun _ _ hset h => wblock_remembers hg ht hh hin hset h,
    fun _ _ _ hset h => insert_remembers hg ht hh hin hset h⟩

end

/-! ## Runs on fixed inodes -/

/-- An inode without blocks, in core. -/
def blockless (fmt : Fmt) (size : Nat) (io : Nat → Fate) : World :=
  { World.blank ⟨64, 0, 32, 0, 1, 1, 4⟩ 6 with
    env := ⟨⟨64, 0, 32, 0, 1, 1, 4⟩, false, .little, io, fun _ => true, 1⟩
    inodes := fun _ => { Inode.fresh with
      ino := 2, fmt := fmt, size := size, priv := some fun _ => 0 } }

/-- The I/O call number 4 fails. -/
def fourthLost (n : Nat) : Fate := if n = 4 then .lost else .ok

/-- The cached addresses. -/
def World.core (w : World) (p : Ptr) : Addrs := (w.inodes p).priv.getD fun _ => 0

theorem World.core_eq {w : World} {p : Ptr} (h : (w.inodes p).priv.isSome = true) :
    (w.inodes p).priv = some (w.core p) := by
  obtain ⟨addrs, ha⟩ := Option.isSome_iff_exists.mp h
  rw [World.core, ha]
  rfl

theorem not_recorded {w : World} {p : Ptr} {new : Addrs} (h : (w.inodes p).priv.isSome = true)
    (hclean : (w.inodes p).dirty = false) : ¬ Recorded w p new := by
  unfold Recorded
  obtain ⟨addrs, ha⟩ := Option.isSome_iff_exists.mp h
  rw [ha, hclean]
  exact fun hc => absurd hc.2 (by decide)

/-- The indirect block is attached and cannot be read: the inode stays clean. The same happens to
    the first block of a directory. -/
theorem attached_and_forgotten :
    (∃ w' new, Returns (xv6InodeWblock 0 12) (blockless .reg 0 fourthLost) (- EIO, none) w' ∧
        Sets (blockless .reg 0 fourthLost) 0 (fun ctx => xv6InodeAddr modcheck ctx 12 true)
          (·.2.2) new ∧ ¬ Recorded w' 0 new) ∧
      ∃ w' new, Returns (xv6DentryInsert 0 [0x61] 3) (blockless .dir 32 fourthLost) (- EIO) w' ∧
        InsertSets (blockless .dir 32 fourthLost) 0 [0x61] 3 new ∧ ¬ Recorded w' 0 new := by
  have hret : Returns (xv6InodeWblock 0 12) (blockless .reg 0 fourthLost) (- EIO, none) _ :=
    returns_after (by decide +kernel)
  have hret' : Returns (xv6DentryInsert 0 [0x61] 3) (blockless .dir 32 fourthLost) (- EIO) _ :=
    returns_after (by decide +kernel)
  refine ⟨⟨_, _, hret, wblock_sets rfl (World.core_eq (by decide +kernel)) (fun h => ?_) hret,
    not_recorded (by decide +kernel) (by decide +kernel)⟩,
    _, _, hret', insert_sets rfl (World.core_eq (by decide +kernel)) (fun h => ?_) hret',
    not_recorded (by decide +kernel) (by decide +kernel)⟩
  · have h12 := congrFun h 12
    revert h12
    decide +kernel
  · have h0 := congrFun h 0
    revert h0
    decide +kernel

/-- Without a failure both blocks are recorded. -/
theorem block_twelve_recorded :
    ∃ w' new, Returns (xv6InodeWblock 0 12) (blockless .reg 0 fun _ => .ok) (0, some 7) w' ∧
      new 12 = 6 ∧ Recorded w' 0 new := by
  have hret : Returns (xv6InodeWblock 0 12) (blockless .reg 0 fun _ => .ok) (0, some 7) _ :=
    returns_after (by decide +kernel)
  have hset : Sets (blockless .reg 0 fun _ => .ok) 0
      (fun ctx => xv6InodeAddr modcheck ctx 12 true) (·.2.2) _ :=
    wblock_sets rfl (World.core_eq (by decide +kernel)) (fun h => by
      have h12 := congrFun h 12
      revert h12
      decide +kernel) hret
  refine ⟨_, _, hret, ?_, ((recorded_iff ⟨by decide, by decide⟩ (by unfold FsInfo.TableOk; decide)
    ⟨by decide, by decide⟩ fun h => absurd h (by decide)).1 12 _ hset hret).mpr
    (.inr ⟨(Returns.calm (fun _ => rfl) hret).2, .inr ⟨6, 7, by decide, by decide, by decide,
      by decide +kernel, by decide +kernel⟩⟩)⟩
  decide +kernel

end Xv6fs
