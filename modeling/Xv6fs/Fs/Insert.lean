/-
  What the directory iterator does with a callback that looks for an unused entry.

  The loop with allocation maps one block after the other. A block that was a hole is all-zero
  and its first entry is unused, so the loop stops there at the latest: before the block it
  stops at, it only reads (`blocks_alloc_spec`). When every entry is used, one more entry is
  tried behind the last (`extend_spec`). `Inserting` lists how the two end together, whatever
  fails on the way.
-/
import Xv6fs.Fs.Fill
import Xv6fs.Model.Dir

namespace Xv6fs

/-- File block `m` is looked up, after some reads, and filled if it is a hole. -/
structure Opened (w : World) (addrs : Addrs) (m : Nat) (e : Int) (b : Nat) (addrs' : Addrs)
    (dirty : Bool) (w₁ : World) : Prop where
  le : w ≤ w₁
  frame : ∃ l, w₁ = { w with disk := w₁.disk, hint := w₁.hint, log := l }
  mapped : Mapped w.env w.disk w.hint addrs m e b addrs' dirty w₁.disk w₁.hint
  faultless : Faultless w w₁ ↔ e = 0 ∨ e = -ENOSPC
  reads : bmap w.disk addrs m ≠ 0 → OnlyReads w w₁ e

theorem Opened.prepend {w w₀ w₁ : World} {addrs addrs' : Addrs} {m b : Nat} {e : Int} {dirty : Bool}
    (hle : w ≤ w₀) (hr : OnlyReads w w₀ 0) (h : Opened w₀ addrs m e b addrs' dirty w₁) :
    Opened w addrs m e b addrs' dirty w₁ := by
  have hf := hr.error.mp rfl
  obtain ⟨l, rfl⟩ := hr.log
  obtain ⟨hle₁, ⟨l₁, hw⟩, hm, hfault, hreads⟩ := h
  refine ⟨le_trans hle hle₁, ⟨l₁, hw⟩, hm, ?_, fun hne => hr.trans hle hle₁ (hreads hne)⟩
  rw [faultless_split hle hle₁, hfault]
  exact and_iff_right hf

section

variable {env : Env} {d d' : Disk} {hint h' i b z : Nat} {e : Int} {addrs addrs' : Addrs}
  {dirty : Bool}

theorem EntryMapped.ok (hg : env.info.Sound) (hh : HintOk env hint) (hi : NDIRECT ≤ i)
    (hi' : i < MAXFILE) (h : EntryMapped env d hint z i 0 b d' h') :
    b ≠ 0 ∧ (d' z).u32 (i - NDIRECT) = b := by
  generalize he : (0 : Int) = e at h
  cases h with
  | unread => exact absurd he (by decide)
  | found h => exact ⟨h, rfl⟩
  | error _ _ hne => exact absurd he.symm hne
  | nospc => exact absurd he (by decide)
  | attached h0 hb ha hs =>
    subst he
    rcases hb.ok hh with ⟨hb0, -⟩ | ⟨-, hdata, -, -⟩
    · exact absurd hb0 ha
    · refine ⟨ha, ?_⟩
      have hj : i - NDIRECT < 256 := by
        simp only [MAXFILE, NDIRECT] at *
        omega
      rw [hs.ok, Function.update_self, Block.u32_setU32 _ hj (lt_trans hdata.2 hg.size_lt),
        if_pos rfl]

theorem EntryMapped.same (hne : (d z).u32 (i - NDIRECT) ≠ 0)
    (h : EntryMapped env d hint z i e b d' h') : d' = d ∧ h' = hint := by
  cases h with
  | unread => exact ⟨rfl, rfl⟩
  | found => exact ⟨rfl, rfl⟩
  | error h0 => exact absurd h0 hne
  | nospc h0 => exact absurd h0 hne
  | attached h0 => exact absurd h0 hne

/-- A block that is looked up without an error is the one the map then names. -/
theorem Mapped.ok (hg : env.info.Sound) (hh : HintOk env hint) (hi : i < MAXFILE)
    (h : Mapped env d hint addrs i 0 b addrs' dirty d' h') : b ≠ 0 ∧ bmap d' addrs' i = b := by
  generalize he : (0 : Int) = e at h
  cases h with
  | found hd hne => exact ⟨hne, bmap_direct hd⟩
  | direct hd h0 hb =>
    refine ⟨fun hb0 => ?_, (bmap_direct hd).trans (Addrs.get_set_self _)⟩
    split at he
    · exact absurd he (by decide)
    · next hne => exact hne ⟨he.symm, hb0⟩
  | entry hge hne hm =>
    subst he
    obtain ⟨hb, hentry⟩ := hm.ok hg hh hge hi
    exact ⟨hb, (bmap_entry hge hne).trans hentry⟩
  | error _ _ _ hne => exact absurd he.symm hne
  | nospc => exact absurd he (by decide)
  | @indirect _ a _ _ _ h₁ _ hge h0 hb ha hm =>
    subst he
    obtain ⟨hb', hentry⟩ := hm.ok hg (hb.hintOk hg hh) hge hi
    refine ⟨hb', (bmap_entry hge ?_).trans ?_⟩
    · rw [Addrs.get_set_self]
      exact ha
    · rw [Addrs.get_set_self]
      exact hentry

/-- A block that is no hole is looked up without a change. -/
theorem Mapped.same (hne : bmap d addrs i ≠ 0)
    (h : Mapped env d hint addrs i e b addrs' dirty d' h') :
    addrs' = addrs ∧ dirty = false ∧ d' = d ∧ h' = hint := by
  cases h with
  | found => exact ⟨rfl, rfl, rfl, rfl⟩
  | direct hd h0 => exact absurd ((bmap_direct hd).trans h0) hne
  | entry hge hz hm =>
    rw [bmap_entry hge hz] at hne
    exact ⟨rfl, rfl, hm.same hne⟩
  | error hge h0 => exact absurd (bmap_hole hge h0) hne
  | nospc hge h0 => exact absurd (bmap_hole hge h0) hne
  | indirect hge h0 => exact absurd (bmap_hole hge h0) hne

/-- A hole is filled with a block that is all-zero. -/
theorem Mapped.fresh (hg : env.info.Sound) (hh : HintOk env hint)
    (hz : addrs.get NDIRECT ≠ 0 → Held env d (addrs.get NDIRECT)) (hi : i < MAXFILE)
    (hhole : bmap d addrs i = 0) (h : Mapped env d hint addrs i 0 b addrs' dirty d' h') :
    d' b = Buf.zero := by
  obtain ⟨hb, hmap⟩ := h.ok hg hh hi
  obtain ⟨-, -, -, hfill⟩ := h.keeps hg hh hz hi
  rcases hfill with heq | ⟨-, -, -, -, hzero⟩
  · rw [hmap, hhole] at heq
    exact absurd heq hb
  · rwa [hmap] at hzero

end

/-! ## The loop with allocation -/

section

variable {σ : Type} {cb : DiterCallback σ} {p : Dirent → Prop} {φ : Event → Prop}

/-- How the loop over the blocks from `i` on, `size` entries of it, ends. -/
inductive Looped (cb : DiterCallback σ) (p : Dirent → Prop) (w : World) (i size : Nat)
    (dir : InodeCtx) (s : σ) : Int → DiterAction → InodeCtx → σ → World → Prop where
  /-- every entry was looked at, and none satisfies `p` -/
  | missed {act : DiterAction} {w' : World} (hr : OnlyReads w w' 0) (hcont : act.cont = true)
      (hext : act.dirExt = true)
      (hall : ∀ k, i * NENTS ≤ k → k < i * NENTS + size → ¬ p (dslot w.disk dir.addrs k)) :
      Looped cb p w i size dir s 0 act { dir with dirty := false } s w'
  /-- block `m` is not to be had -/
  | unmapped {act : DiterAction} {m b : Nat} {e : Int} {addrs' : Addrs} {dirty : Bool} {w' : World}
      (hm : i ≤ m) (hm' : m * NENTS < i * NENTS + size)
      (hbefore : ∀ k, i * NENTS ≤ k → k < m * NENTS → ¬ p (dslot w.disk dir.addrs k))
      (ho : Opened w dir.addrs m e b addrs' dirty w') (he : e ≠ 0) :
      Looped cb p w i size dir s e act { dir with addrs := addrs', dirty := dirty } s w'
  /-- block `m` cannot be read -/
  | unread {act : DiterAction} {m b : Nat} {e : Int} {addrs' : Addrs} {dirty : Bool}
      {w₁ w' : World} (hm : i ≤ m) (hm' : m * NENTS < i * NENTS + size)
      (hbefore : ∀ k, i * NENTS ≤ k → k < m * NENTS → ¬ p (dslot w.disk dir.addrs k))
      (ho : Opened w dir.addrs m 0 b addrs' dirty w₁) (hr : OnlyReads w₁ w' e)
      (he : e ≠ 0) :
      Looped cb p w i size dir s e act { dir with addrs := addrs', dirty := dirty } s w'
  /-- entry `j` of block `m` satisfies `p` -/
  | hit {act : DiterAction} {m j b : Nat} {e : Int} {addrs' : Addrs} {dirty : Bool} {s' : σ}
      {w₁ w' : World} (hm : i ≤ m) (hj : j < NENTS) (hm' : m * NENTS + j < i * NENTS + size)
      (hbefore : ∀ k, i * NENTS ≤ k → k < m * NENTS → ¬ p (dslot w.disk dir.addrs k))
      (ho : Opened w dir.addrs m 0 b addrs' dirty w₁)
      (hbefore' : ∀ k, k < j → ¬ p ((w₁.disk b).dirent k))
      (hhit : HitAt cb p w₁ b (m * NENTS) j s e act s' w') :
      Looped cb p w i size dir s e act { dir with addrs := addrs', dirty := dirty } s' w'

theorem Looped.prepend {w w₀ w' : World} {i size : Nat} {dir dir' : InodeCtx} {s s' : σ} {e : Int}
    {act : DiterAction} (hle : w ≤ w₀) (hle' : w₀ ≤ w') (hr : OnlyReads w w₀ 0)
    (hround : ∀ k, i * NENTS ≤ k → k < (i + 1) * NENTS → ¬ p (dslot w.disk dir.addrs k))
    (hsize : NENTS ≤ size)
    (h : Looped cb p w₀ (i + 1) (size - NENTS) { dir with dirty := false } s e act dir' s' w') :
    Looped cb p w i size dir s e act dir' s' w' := by
  have hdisk : w₀.disk = w.disk := by
    obtain ⟨l, rfl⟩ := hr.log
    rfl
  have hsucc : (i + 1) * NENTS = i * NENTS + NENTS := Nat.succ_mul i NENTS
  have hjoin : ∀ {k' : Nat}, (∀ k, (i + 1) * NENTS ≤ k → k < k' →
      ¬ p (dslot w₀.disk dir.addrs k)) → ∀ k, i * NENTS ≤ k → k < k' →
      ¬ p (dslot w.disk dir.addrs k) := by
    intro k' hrest k hk hk'
    by_cases hlt : k < (i + 1) * NENTS
    · exact hround k hk hlt
    · rw [hdisk] at hrest
      exact hrest k (not_lt.mp hlt) hk'
  cases h with
  | missed hr' hcont hext hall =>
    refine .missed (hr.trans hle hle' hr') hcont hext ?_
    have hend : (i + 1) * NENTS + (size - NENTS) = i * NENTS + size := by omega
    rw [hend] at hall
    exact hjoin hall
  | unmapped hm hm' hbefore ho he =>
    exact .unmapped (by omega) (by omega) (hjoin hbefore) (ho.prepend hle hr) he
  | unread hm hm' hbefore ho hr' he =>
    exact .unread (by omega) (by omega) (hjoin hbefore) (ho.prepend hle hr) hr' he
  | hit hm hj hm' hbefore ho hbefore' hhit =>
    exact .hit (by omega) hj (by omega) (hjoin hbefore) (ho.prepend hle hr) hbefore' hhit

/-- The state in which directories grow: writable, the hint in its range, the indirect block of
    the directory in use. -/
structure GrowReady (w : World) (addrs : Addrs) : Prop where
  writable : w.env.rdonly = false
  sound : w.env.info.Sound
  hint : HintOk w.env w.hint
  indirect : addrs.get NDIRECT ≠ 0 → Held w.env w.disk (addrs.get NDIRECT)

theorem opened_of_alloc {w w' : World} (dir : InodeCtx) {dir' : InodeCtx} {m b : Nat} {e : Int}
    (hw : GrowReady w dir.addrs) (hm : m < MAXFILE)
    (h : Runs φ (xv6InodeAddr modcheck dir m true) w (e, b, dir') w') :
    ∃ addrs' dirty, dir' = { dir with addrs := addrs', dirty := dirty } ∧
      Opened w dir.addrs m e b addrs' dirty w' := by
  obtain ⟨l, d, hint, addrs, dirty, rfl, hdir, hf, hreads, hmap⟩ :=
    xv6InodeAddr_alloc hw.writable hw.sound hw.hint.1 hw.hint.2 hm h
  exact ⟨addrs, dirty, hdir, h.mono, ⟨l, rfl⟩, hmap, hf, hreads⟩

/-- The loop from block `i` on, `size` entries of it. -/
theorem blocks_alloc_spec (hs : Seeker cb p true 0) (hzero : p Dirent.zero) :
    ∀ (rounds i size : Nat) (dir : InodeCtx) {act act' : DiterAction} {dir' : InodeCtx} {s s' : σ}
      {e : Int} {w w' : World}, size ≠ 0 → i * NENTS + size ≤ MAXFILE * NENTS →
      GrowReady w dir.addrs →
      Runs φ (xv6DirIterate.blocks modcheck cb true rounds i 0 size act dir s) w
        (e, act', dir', s') w' →
      Looped cb p w i size dir s e act' dir' s' w'
  | 0, _, _, _, _, _, _, _, _, _, _, _, _, _, _, h => h.halt.elim
  | rounds + 1, i, size, dir, act, act', dir', s, s', e, w, w', hsize, hmax, hw, h => by
    have hi : i < MAXFILE := by
      simp only [NENTS, MAXFILE] at hmax ⊢
      omega
    simp only [xv6DirIterate.blocks] at h
    obtain ⟨⟨e₁, b, dir₁⟩, w₁, haddr, h⟩ := h.bind
    obtain ⟨addrs', dirty, rfl, ho⟩ := opened_of_alloc dir hw hi haddr
    rcases h.ite with ⟨hne, h⟩ | ⟨heq, h⟩
    · obtain ⟨hres, rfl⟩ := h.pure
      cases hres
      exact .unmapped (le_refl i) (by omega) (fun k hk hk' => absurd hk' (by omega)) ho hne
    obtain rfl : e₁ = 0 := not_not.mp heq
    obtain ⟨hb, -⟩ := ho.mapped.ok hw.sound hw.hint hi
    have hlim : xv6Min NENTS (size + 0) = min NENTS size := by
      rw [xv6Min_eq_min, Nat.add_zero]
    have hmin : 0 < min NENTS size := by
      simp only [NENTS]
      omega
    rw [hlim] at h
    obtain ⟨⟨e₂, act₂, s₂⟩, w₂, hbody, hnext⟩ := h.bind
    clear h
    have hmono₂ := hbody.mono
    rcases body_spec hs (Nat.zero_le _) (Nat.zero_le _) (fun h0 => absurd h0 hb) hbody with
      ⟨hr₂, rfl, hmiss⟩ | ⟨j, -, hj, hbefore, hhit⟩
    · by_cases h0 : e₂ = 0
      · -- a block all of whose entries are used was no hole, so nothing has changed
        subst h0
        have hpass := (hmiss rfl).2.2 hb
        have hmap : bmap w.disk dir.addrs i ≠ 0 := by
          intro hhole
          refine hpass 0 (le_refl 0) hmin ?_
          rw [ho.mapped.fresh hw.sound hw.hint hw.indirect hi hhole, Block.dirent_zero]
          exact hzero
        obtain ⟨hcont, hext⟩ := (hmiss rfl).1 (.inl hmin)
        have hr₁ := ho.reads hmap
        obtain ⟨rfl, rfl, -, -⟩ := ho.mapped.same hmap
        have hbmap := (ho.mapped.ok hw.sound hw.hint hi).2
        obtain ⟨l₁, rfl⟩ := hr₁.log
        have hr := hr₁.trans haddr.mono hmono₂ hr₂
        have hround : ∀ k, i * NENTS ≤ k → k < i * NENTS + min NENTS size →
            ¬ p (dslot w.disk dir.addrs k) := by
          intro k hk hk'
          obtain ⟨j, rfl⟩ : ∃ j, k = i * NENTS + j := ⟨k - i * NENTS, by omega⟩
          rw [dslot_eq w.disk dir.addrs (by omega), if_neg hmap, hbmap]
          exact hpass j (Nat.zero_le j) (by omega)
        rcases hnext.ite with ⟨hstop, h⟩ | ⟨-, h⟩
        · rw [hcont] at hstop
          simp at hstop
        · rcases h.ite with ⟨hdone, h⟩ | ⟨hmore, h⟩
          · obtain ⟨hres, rfl⟩ := h.pure
            cases hres
            exact .missed hr hcont hext fun k hk hk' => hround k hk (by omega)
          · have hfull : min NENTS size = NENTS := by omega
            rw [hfull] at hround hmore h
            have hsucc : (i + 1) * NENTS = i * NENTS + NENTS := Nat.succ_mul i NENTS
            have hle' := h.mono
            obtain ⟨l₂, rfl⟩ := hr.log
            have hrest := blocks_alloc_spec hs hzero rounds (i + 1) (size - (NENTS - 0))
              { dir with dirty := false } (w := { w with log := l₂ }) hmore (by omega)
              ⟨hw.writable, hw.sound, hw.hint, hw.indirect⟩ h
            exact hrest.prepend (le_trans haddr.mono hmono₂) hle' hr
              (fun k hk hk' => hround k hk (by omega)) (by omega)
      · rcases hnext.ite with ⟨-, h⟩ | ⟨hgo, -⟩
        · obtain ⟨hres, rfl⟩ := h.pure
          cases hres
          exact .unread (le_refl i) (by omega) (fun k hk hk' => absurd hk' (by omega)) ho hr₂ h0
        · exact absurd (.inr h0) hgo
    · rcases hnext.ite with ⟨-, h⟩ | ⟨hgo, -⟩
      · obtain ⟨hres, rfl⟩ := h.pure
        cases hres
        exact .hit (le_refl i) (by omega) (by omega) (fun k hk hk' => absurd hk' (by omega)) ho
          (fun k hk => hbefore k (Nat.zero_le k) hk) hhit
      · exact absurd (.inl (by rw [hhit.stop]; rfl)) hgo

end

/-! ## Insertion -/

section

variable {φ : Event → Prop} {nde : Dirent}

theorem deInsert_seeker (nde : Dirent) : Seeker (deInsertCallback nde) (·.inum = 0) true 0 where
  miss := by
    intro k de s hused
    unfold deInsertCallback
    rw [if_neg hused]
    exact ⟨_, rfl, rfl, rfl, rfl⟩
  hit := by
    intro k de s act de' s' _ hfree h
    unfold deInsertCallback at h
    rw [if_pos hfree] at h
    split at h
    · cases h
      rfl
    · cases h

/-- What the callback does at an unused entry. -/
theorem deInsert_hit {k : Nat} {de de' : Dirent} {s s' : Unit} {act : DiterAction}
    (hfree : de.inum = 0) (h : deInsertCallback nde k de s = .ok (act, de', s')) :
    de.name 0 = 0 ∧ de' = nde ∧ act.deDirty = true ∧ act.dirDirty = true := by
  unfold deInsertCallback at h
  rw [if_pos hfree] at h
  split at h
  · next hname =>
    cases h
    exact ⟨hname, rfl, rfl, rfl⟩
  · cases h

/-- At a used entry, it asks for the next one. -/
theorem deInsert_miss {k : Nat} {de de' : Dirent} {s s' : Unit} {act : DiterAction}
    (hused : de.inum ≠ 0) (h : deInsertCallback nde k de s = .ok (act, de', s')) :
    de' = de ∧ act.deDirty = false ∧ act.dirDirty = true := by
  unfold deInsertCallback at h
  rw [if_neg hused] at h
  cases h
  exact ⟨rfl, rfl, rfl⟩

/-- How the insertion of `nde` into the directory of `dir` ends: the error, the context and the
    state it leaves. -/
inductive Inserting (w : World) (dir : InodeCtx) (nde : Dirent) :
    Int → InodeCtx → World → Prop where
  /-- the directory has its greatest size -/
  | big {w' : World} (hr : OnlyReads w w' 0) (hn : MAXFILE ≤ dir.size / 16 / NENTS)
      (hall : ∀ k, k < dir.size / 16 → (dslot w.disk dir.addrs k).inum ≠ 0) :
      Inserting w dir nde (-EFBIG) { dir with dirty := false } w'
  /-- block `m` is not to be had -/
  | unmapped {m b : Nat} {e : Int} {addrs' : Addrs} {dirty : Bool} {w' : World}
      (hm : m < MAXFILE) (hm' : m * NENTS ≤ dir.size / 16)
      (hbefore : ∀ k, k < m * NENTS → (dslot w.disk dir.addrs k).inum ≠ 0)
      (ho : Opened w dir.addrs m e b addrs' dirty w') (he : e ≠ 0) :
      Inserting w dir nde e { dir with addrs := addrs', dirty := dirty } w'
  /-- block `m` cannot be read -/
  | unread {m b : Nat} {e : Int} {addrs' : Addrs} {dirty : Bool} {w₁ w' : World}
      (hm : m < MAXFILE) (hm' : m * NENTS ≤ dir.size / 16)
      (hbefore : ∀ k, k < m * NENTS → (dslot w.disk dir.addrs k).inum ≠ 0)
      (ho : Opened w dir.addrs m 0 b addrs' dirty w₁) (hr : OnlyReads w₁ w' e) (he : e ≠ 0) :
      Inserting w dir nde e { dir with addrs := addrs', dirty := dirty } w'
  /-- entry `k` is the first that is unused, and is written -/
  | written {k b : Nat} {e : Int} {addrs' : Addrs} {dirty dirty' : Bool} {size' : Nat}
      {w₁ w' : World} (hk : k / NENTS < MAXFILE) (hk' : k ≤ dir.size / 16)
      (hbefore : ∀ j, j < k → (dslot w.disk dir.addrs j).inum ≠ 0)
      (ho : Opened w dir.addrs (k / NENTS) 0 b addrs' dirty w₁)
      (hfree : ((w₁.disk b).dirent (k % NENTS)).inum = 0)
      (hname : ((w₁.disk b).dirent (k % NENTS)).name 0 = 0)
      (hsize : size' = if k < dir.size / 16 then dir.size else (dir.size + 16) % 2 ^ 32)
      (hdirty : dirty' = false → size' = dir.size ∧ dirty = false)
      (hkept : k < dir.size / 16 → dirty' = dirty)
      (hw : Wrote w₁ b ((w₁.disk b).setDirent (k % NENTS) nde) e w') :
      Inserting w dir nde e ⟨addrs', size', dirty'⟩ w'
  /-- behind the last entry there is one that is used already -/
  | garbage {b : Nat} {addrs' : Addrs} {dirty : Bool} {w₁ w' : World}
      (hn : dir.size / 16 / NENTS < MAXFILE)
      (hall : ∀ k, k < dir.size / 16 → (dslot w.disk dir.addrs k).inum ≠ 0)
      (ho : Opened w dir.addrs (dir.size / 16 / NENTS) 0 b addrs' dirty w₁)
      (hused : ((w₁.disk b).dirent (dir.size / 16 % NENTS)).inum ≠ 0) (hr : OnlyReads w₁ w' 0) :
      Inserting w dir nde 0 ⟨addrs', (dir.size + 16) % 2 ^ 32, true⟩ w'

/-- One more entry behind the last one. -/
theorem extend_spec {w w₀ w' : World} {dir dir₀ dir' : InodeCtx} {s s' : Unit} {e : Int}
    (hw : GrowReady w dir.addrs) (hle : w ≤ w₀) (hr : OnlyReads w w₀ 0)
    (hdir : dir₀ = { dir with dirty := false })
    (hall : ∀ k, k < dir.size / 16 → (dslot w.disk dir.addrs k).inum ≠ 0)
    (h : Runs φ (xv6DirIterate.extend modcheck (deInsertCallback nde) true dir₀ s) w₀
      (e, dir', s') w') :
    Inserting w dir nde e dir' w' := by
  subst hdir
  have hnn : dir.size / 16 / NENTS * NENTS + dir.size / 16 % NENTS = dir.size / 16 :=
    Nat.div_add_mod' _ _
  have hw₀ : GrowReady w₀ dir.addrs := by
    obtain ⟨l, rfl⟩ := hr.log
    exact ⟨hw.writable, hw.sound, hw.hint, hw.indirect⟩
  simp only [xv6DirIterate.extend] at h
  obtain ⟨⟨e₁, b, dir₁⟩, w₁, haddr, hnext⟩ := h.bind
  clear h
  by_cases hbig : MAXFILE ≤ dir.size / 16 / NENTS
  · obtain ⟨rfl, rfl, rfl, rfl⟩ := xv6InodeAddr_big hbig haddr
    rcases hnext.ite with ⟨-, h⟩ | ⟨h0, -⟩
    · obtain ⟨hres, rfl⟩ := h.pure
      cases hres
      exact .big hr hbig hall
    · exact absurd (by decide : (-EFBIG : Int) ≠ 0) h0
  · have hn := not_le.mp hbig
    obtain ⟨addrs', dirty, rfl, ho₀⟩ :=
      opened_of_alloc { dir with dirty := false } hw₀ hn haddr
    have ho := ho₀.prepend hle hr
    have hbefore : ∀ k, k < dir.size / 16 / NENTS * NENTS → (dslot w.disk dir.addrs k).inum ≠ 0 :=
      fun k hk => hall k (by omega)
    rcases hnext.ite with ⟨hne, h⟩ | ⟨heq, h⟩
    · obtain ⟨hres, rfl⟩ := h.pure
      cases hres
      exact .unmapped hn (by omega) hbefore ho hne
    obtain rfl : e₁ = 0 := not_not.mp heq
    simp only [modcheck] at h
    obtain ⟨l₂, hle₂, ⟨hr₂, h⟩ | ⟨hr₂, h⟩⟩ := sbBread_cases h
    · obtain ⟨hres, rfl⟩ := h.pure
      cases hres
      exact .unread hn (by omega) hbefore ho hr₂ (by decide)
    simp only [runs_bind_bdata] at h
    obtain ⟨⟨act, de, s₁⟩, w₃, hlift, hend⟩ := h.bind
    clear h
    obtain ⟨hcb, rfl⟩ := hlift.lift
    by_cases hfree : ((w₁.disk b).dirent (dir.size / 16 % NENTS)).inum = 0
    · obtain ⟨hname, rfl, hdirty, hext⟩ := deInsert_hit hfree hcb
      rcases hend.ite with ⟨-, h⟩ | ⟨hclean, -⟩
      · obtain ⟨e₂, w₄, hsync, h⟩ := h.bind
        obtain ⟨f, he, rfl⟩ := syncBuffer_fate hsync
        obtain ⟨hres, rfl⟩ := h.pure
        cases hres
        simp only [hext, if_true]
        exact .written hn (le_refl _) hall ho hfree hname (if_neg (lt_irrefl _)).symm
          (fun h0 => absurd h0 (by decide)) (fun hk => absurd hk (lt_irrefl _))
          ⟨l₂, f, hle₂, hr₂, he, rfl⟩
      · exact absurd hdirty hclean
    · obtain ⟨rfl, hclean, hext⟩ := deInsert_miss hfree hcb
      rcases hend.ite with ⟨hdirty, -⟩ | ⟨-, h⟩
      · rw [hclean] at hdirty
        cases hdirty
      · simp only [runs_bind_bstore, Block.setDirent_dirent, Function.update_eq_self] at h
        obtain ⟨hres, rfl⟩ := h.pure
        cases hres
        simp only [hext, if_true]
        exact .garbage hn hall ho hfree hr₂

/-- Where the loop over `size / 16` entries stops, the insertion has ended. -/
theorem Looped.inserting {w w' : World} {dir dir' : InodeCtx} {s s' : Unit} {e : Int}
    {act : DiterAction} {size : Nat} (hw : GrowReady w dir.addrs) (hsize : size ≤ MAXFILE * BSIZE)
    (hstop : e ≠ 0 ∨ act.cont = false)
    (h : Looped (deInsertCallback nde) (·.inum = 0) w 0 (size / 16) dir s e act dir' s' w') :
    dir'.size = dir.size ∧
      Inserting w { dir with size := size } nde e { dir' with size := size } w' := by
  have hnotbig : ∀ {m}, m * NENTS < size / 16 → m < MAXFILE := by
    intro m hm
    simp only [MAXFILE, NENTS, BSIZE] at hsize hm ⊢
    omega
  have hfirst : ∀ {m}, (∀ k, 0 * NENTS ≤ k → k < m → ¬ (dslot w.disk dir.addrs k).inum = 0) →
      ∀ k, k < m → (dslot w.disk dir.addrs k).inum ≠ 0 := fun hall k hk => hall k (by omega) hk
  cases h with
  | missed hr hcont =>
    rcases hstop with h0 | hno
    · exact absurd rfl h0
    · rw [hcont] at hno
      cases hno
  | @unmapped _ m b _ addrs' dirty _ hm hm' hbefore ho he =>
    exact ⟨rfl, .unmapped (hnotbig (by omega)) (by dsimp only; omega) (hfirst hbefore) ho he⟩
  | @unread _ m b _ addrs' dirty w₂ _ hm hm' hbefore ho hr he =>
    exact ⟨rfl, .unread (hnotbig (by omega)) (by dsimp only; omega) (hfirst hbefore) ho hr he⟩
  | @hit _ m j b _ addrs' dirty _ w₂ _ hm hj hm' hbefore ho hbefore' hhit =>
    have hmf : m < MAXFILE := hnotbig (by omega)
    have hdiv : (m * NENTS + j) / NENTS = m := by
      simp only [NENTS] at hj ⊢
      omega
    have hmod : (m * NENTS + j) % NENTS = j := by
      simp only [NENTS] at hj ⊢
      omega
    obtain ⟨-, hfree, -, de, hcb, hdone⟩ := hhit
    obtain ⟨hname, rfl, hdirty, -⟩ := deInsert_hit hfree hcb
    rcases hdone with ⟨-, hwrote⟩ | ⟨hclean, -⟩
    · refine ⟨rfl, .written (k := m * NENTS + j) (by rw [hdiv]; exact hmf) (by dsimp only; omega) ?_
        (by rw [hdiv]; exact ho) (by rw [hmod]; exact hfree) (by rw [hmod]; exact hname)
        (if_pos (by dsimp only; omega)).symm (fun h0 => ⟨rfl, h0⟩) (fun _ => rfl)
        (by rw [hmod]; exact hwrote)⟩
      intro k hk
      by_cases hlt : k < m * NENTS
      · exact hfirst hbefore k hlt
      · obtain ⟨i, rfl⟩ : ∃ i, k = m * NENTS + i := ⟨k - m * NENTS, by omega⟩
        have hi : i < j := by omega
        dsimp only
        by_cases hmap : bmap w.disk dir.addrs m = 0
        · -- in a block just filled in the first entry is unused
          exfalso
          refine hbefore' 0 (by omega) ?_
          rw [ho.mapped.fresh hw.sound hw.hint hw.indirect hmf hmap, Block.dirent_zero]
          rfl
        · obtain ⟨-, -, hd, -⟩ := ho.mapped.same hmap
          obtain ⟨-, hb⟩ := ho.mapped.ok hw.sound hw.hint hmf
          obtain ⟨rfl, -⟩ := ho.mapped.same hmap
          rw [dslot_eq w.disk dir.addrs (by omega), if_neg hmap]
          rw [hd] at hb hbefore'
          rw [hb]
          exact hbefore' i hi
    · rw [hdirty] at hclean
      cases hclean

/-- The insertion of an entry, whatever fails on the way. -/
theorem iterate_insert_spec {w w' : World} {dir dir' : InodeCtx} {s s' : Unit} {e : Int}
    (hw : GrowReady w dir.addrs) (hsize : dir.size ≤ MAXFILE * BSIZE)
    (h : Runs φ (xv6DirIterate modcheck dir (deInsertCallback nde) s 0 true) w (e, dir', s') w') :
    Inserting w dir nde e dir' w' := by
  simp only [xv6DirIterate, runs_bind_assert] at h
  obtain ⟨⟨-, htwo⟩, h⟩ := h
  have hn0 : dir.size / 16 - 0 ≠ 0 := by omega
  have hmax : 0 * NENTS + (dir.size / 16 - 0) ≤ MAXFILE * NENTS := by
    simp only [MAXFILE, NENTS, BSIZE] at hsize ⊢
    omega
  rcases h.ite with ⟨hend, -⟩ | ⟨-, h⟩
  · exact absurd hend (Nat.not_lt_zero _)
  obtain ⟨⟨e₁, act, dir₁, s₁⟩, w₁, hblocks, hnext⟩ := h.bind
  clear h
  have hstart : 0 / NENTS = 0 ∧ 0 % NENTS = 0 := ⟨rfl, rfl⟩
  rw [hstart.1, hstart.2] at hblocks
  have hmono := hblocks.mono
  have hloop := blocks_alloc_spec (deInsert_seeker nde) rfl _ _ _ _ hn0 hmax hw hblocks
  rw [Nat.sub_zero] at hloop
  -- the loop's result is the iterator's, unless every entry is used
  by_cases hstop : e₁ ≠ 0 ∨ act.cont = false
  · obtain ⟨hkeep, hins⟩ := hloop.inserting hw hsize hstop
    rcases hnext.ite with ⟨⟨h0, hcont, -⟩, -⟩ | ⟨-, h⟩
    · rcases hstop with hst | hst
      · exact absurd h0 hst
      · rw [hst] at hcont
        cases hcont
    · obtain ⟨hres, rfl⟩ := h.pure
      cases hres
      have hdir : { dir₁ with size := dir.size } = dir₁ := by rw [← hkeep]
      rw [hdir] at hins
      exact hins
  · cases hloop with
    | missed hr hcont hext hall =>
      rcases hnext.ite with ⟨-, h⟩ | ⟨hno, -⟩
      · exact extend_spec hw hmono hr rfl (fun k hk => hall k (by omega) (by omega)) h
      · exact absurd ⟨rfl, hcont, hext⟩ hno
    | unmapped _ _ _ _ he => exact absurd (.inl he) hstop
    | unread _ _ _ _ _ he => exact absurd (.inl he) hstop
    | hit _ _ _ _ _ _ hhit => exact absurd (.inr hhit.stop) hstop

end

end Xv6fs
