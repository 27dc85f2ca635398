/-
  Directories of any size.

  On a big-endian host the size of a new directory is far beyond the largest file. Such a directory
  is used like one of the largest size: the iterator ends with -EFBIG where it would have come to
  the end (`blocks_capped`), so an insertion does there what it does in the largest directory
  (`AnyDir.insert`), and a search that reports success has seen every entry.
-/
import Xv6fs.Dir.Search
import Xv6fs.Dir.Map
import Xv6fs.Fs.Visits

namespace Xv6fs

/-- The part of a size that a file can have. -/
def capped (size : Nat) : Nat := min size (MAXFILE * BSIZE)

section

variable {σ : Type} {φ : Event → Prop} {w w' : World} {p : Ptr} {e : Int} {size k n : Nat}
  {nm : EntryName} {A : Nat → Option Addrs}

theorem capped_le : capped size ≤ MAXFILE * BSIZE := Nat.min_le_right _ _

theorem capped_self (h : size ≤ MAXFILE * BSIZE) : capped size = size := Nat.min_eq_left h

theorem capped_slots (hk : k < capped size / 16) : k < size / 16 ∧ k < MAXFILE * NENTS := by
  have h₁ : capped size ≤ size := Nat.min_le_left _ _
  have h₂ : capped size ≤ MAXFILE * BSIZE := capped_le
  simp only [MAXFILE, BSIZE, NENTS] at h₂ ⊢
  omega

/-! ## The loop over the blocks -/

/-- The loop over more entries than a file can hold is the one over these, which goes on with
    -EFBIG when nothing has stopped it. -/
theorem blocks_capped {check : Checker} {cb : DiterCallback σ} {alloc : Bool} :
    ∀ (rounds i off size : Nat) {act act' : DiterAction} {dir dir' : InodeCtx} {s s' : σ} {e : Int}
      {w w' : World}, i < MAXFILE → off < NENTS → MAXFILE * NENTS < i * NENTS + off + size →
      Runs φ (xv6DirIterate.blocks check cb alloc rounds i off size act dir s) w
        (e, act', dir', s') w' →
      ∃ e₀, Runs φ (xv6DirIterate.blocks check cb alloc rounds i off
          (MAXFILE * NENTS - (i * NENTS + off)) act dir s) w (e₀, act', dir', s') w' ∧
        (e = e₀ ∧ (e₀ ≠ 0 ∨ act'.cont = false) ∨ e = -EFBIG ∧ e₀ = 0 ∧ act'.cont = true)
  | 0, _, _, _, _, _, _, _, _, _, _, _, _, _, _, _, h => h.halt.elim
  | rounds + 1, i, off, size, act, act', dir, dir', s, s', e, w, w', hi, hoff, hmore, h => by
    simp only [xv6DirIterate.blocks] at h ⊢
    obtain ⟨⟨e₁, b, dir₁⟩, w₁, haddr, hround⟩ := h.bind
    clear h
    have hlim : xv6Min NENTS (size + off) = NENTS := by
      rw [xv6Min_eq_min]
      simp only [MAXFILE, NENTS] at *
      omega
    have hlim₀ : xv6Min NENTS (MAXFILE * NENTS - (i * NENTS + off) + off) = NENTS := by
      rw [xv6Min_eq_min]
      simp only [MAXFILE, NENTS] at *
      omega
    rw [hlim] at hround
    rw [hlim₀]
    rcases hround.ite with ⟨hne, hend⟩ | ⟨heq, hround⟩
    · refine ⟨e₁, (Prog.via_bind _ _ _ _ _).mpr ⟨_, _, haddr,
        (Prog.via_ite _ _ _ _ _ _).mpr (.inl ⟨hne, ?_⟩)⟩, ?_⟩
      · obtain ⟨hres, rfl⟩ := hend.pure
        cases hres
        exact hend
      · obtain ⟨hres, -⟩ := hend.pure
        cases hres
        exact .inl ⟨rfl, .inl hne⟩
    obtain ⟨⟨e₂, act₂, s₂⟩, w₂, hbody, hnext⟩ := hround.bind
    clear hround
    suffices htail : ∃ e₀, Runs φ (if !act₂.cont ∨ e₂ ≠ 0 then pure (e₂, act₂, dir₁, s₂)
        else if MAXFILE * NENTS - (i * NENTS + off) - (NENTS - off) = 0 then
          pure (e₂, act₂, dir₁, s₂)
        else xv6DirIterate.blocks check cb alloc rounds (i + 1) 0
          (MAXFILE * NENTS - (i * NENTS + off) - (NENTS - off)) act₂ dir₁ s₂) w₂
          (e₀, act', dir', s') w' ∧
        (e = e₀ ∧ (e₀ ≠ 0 ∨ act'.cont = false) ∨ e = -EFBIG ∧ e₀ = 0 ∧ act'.cont = true) by
      obtain ⟨e₀, hrun, hres⟩ := htail
      exact ⟨e₀, (Prog.via_bind _ _ _ _ _).mpr ⟨_, _, haddr, (Prog.via_ite _ _ _ _ _ _).mpr
        (.inr ⟨heq, (Prog.via_bind _ _ _ _ _).mpr ⟨_, _, hbody, hrun⟩⟩)⟩, hres⟩
    rcases hnext.ite with ⟨hstop, hend⟩ | ⟨hgo, hnext⟩
    · rw [if_pos hstop]
      refine ⟨e₂, ?_, ?_⟩
      · obtain ⟨hres, rfl⟩ := hend.pure
        cases hres
        exact hend
      · obtain ⟨hres, -⟩ := hend.pure
        cases hres
        exact .inl ⟨rfl, hstop.symm.imp id (by simp)⟩
    rw [if_neg hgo]
    rcases hnext.ite with ⟨hdone, -⟩ | ⟨-, hnext⟩
    · simp only [MAXFILE, NENTS] at hi hoff hmore hdone
      omega
    obtain ⟨hcont, hok⟩ := not_or.mp hgo
    by_cases hlast : i + 1 = MAXFILE
    · -- the loop over what a file can hold ends here, and the other one behind it
      have hzero : MAXFILE * NENTS - (i * NENTS + off) - (NENTS - off) = 0 := by
        simp only [MAXFILE, NENTS] at *
        omega
      rw [if_pos hzero]
      obtain ⟨rounds, rfl⟩ : ∃ r, rounds = r + 1 := by
        cases rounds with
        | zero => exact hnext.halt.elim
        | succ r => exact ⟨r, rfl⟩
      rw [blocks_past hlast.ge] at hnext
      obtain ⟨hres, rfl⟩ := hnext.pure
      cases hres
      obtain rfl := not_not.mp hok
      exact ⟨0, (Prog.via_pure _ _ _ _).mpr ⟨rfl, rfl⟩, .inr ⟨rfl, rfl, by simpa using hcont⟩⟩
    · have hzero : MAXFILE * NENTS - (i * NENTS + off) - (NENTS - off) ≠ 0 := by
        simp only [MAXFILE, NENTS] at *
        omega
      have hrest : MAXFILE * NENTS - (i * NENTS + off) - (NENTS - off) =
          MAXFILE * NENTS - ((i + 1) * NENTS + 0) := by
        simp only [MAXFILE, NENTS] at *
        omega
      rw [if_neg hzero, hrest]
      refine blocks_capped rounds (i + 1) 0 _ (by omega) (by decide) ?_ hnext
      simp only [MAXFILE, NENTS] at *
      omega

/-- An insertion into a directory that claims more entries than a file can hold. -/
theorem iterate_insert_large {nde : Dirent} {dir dir' : InodeCtx} {s s' : Unit}
    (hw : GrowReady w dir.addrs) (hsize : MAXFILE * BSIZE < dir.size) (hclean : dir.dirty = false)
    (h : Runs φ (xv6DirIterate modcheck dir (deInsertCallback nde) s 0 true) w (e, dir', s') w') :
    dir'.size = dir.size ∧ Inserting w { dir with size := MAXFILE * BSIZE } nde e
      { dir' with size := MAXFILE * BSIZE } w' := by
  simp only [xv6DirIterate, runs_bind_assert] at h
  obtain ⟨⟨hmul, -⟩, h⟩ := h
  rcases h.ite with ⟨hend, -⟩ | ⟨-, h⟩
  · exact absurd hend (Nat.not_lt_zero _)
  obtain ⟨⟨e₁, act, dir₁, s₁⟩, w₁, hblocks, hnext⟩ := h.bind
  clear h
  have hslots : MAXFILE * NENTS - (0 / NENTS * NENTS + 0 % NENTS) = MAXFILE * BSIZE / 16 := rfl
  have hmore : MAXFILE * NENTS < 0 / NENTS * NENTS + 0 % NENTS + (dir.size / 16 - 0) := by
    simp only [MAXFILE, BSIZE, NENTS] at hsize ⊢
    omega
  obtain ⟨e₀, hcapped, hres⟩ := blocks_capped _ _ _ _ (by decide) (by decide) hmore hblocks
  rw [hslots] at hcapped
  have hloop := blocks_alloc_spec (deInsert_seeker nde) rfl _ _ _ _ (by decide) (by decide) hw
    hcapped
  -- the iterator ends as the loop does
  have hend : (e₁ ≠ 0 ∨ act.cont = false) → e = e₁ ∧ dir' = dir₁ ∧ w' = w₁ := by
    intro hstop
    rcases hnext.ite with ⟨⟨h0, hcont, -⟩, -⟩ | ⟨-, h⟩
    · rcases hstop with hst | hst
      · exact absurd h0 hst
      · rw [hst] at hcont
        cases hcont
    · obtain ⟨hr, rfl⟩ := h.pure
      cases hr
      exact ⟨rfl, rfl, rfl⟩
  rcases hres with ⟨rfl, hstop⟩ | ⟨rfl, rfl, hcont⟩
  · obtain ⟨rfl, rfl, rfl⟩ := hend hstop
    exact hloop.inserting hw (le_refl _) hstop
  · obtain ⟨rfl, rfl, rfl⟩ := hend (.inl (by decide))
    cases hloop with
    | missed hr _ _ hall =>
      refine ⟨rfl, ?_⟩
      rw [hclean] at *
      have hstart : 0 / NENTS * NENTS = 0 := rfl
      refine .big hr (show MAXFILE ≤ MAXFILE * BSIZE / 16 / NENTS by decide) fun k hk => ?_
      exact hall k (Nat.zero_le k) (by rwa [hstart, Nat.zero_add])
    | unmapped _ _ _ _ he => exact absurd rfl he
    | unread _ _ _ _ _ he => exact absurd rfl he
    | hit _ _ _ _ _ _ hhit =>
      have hstop := hhit.stop
      rw [hcont] at hstop
      cases hstop

/-! ## Directories in core -/

/-- The inode at `p` is that of a directory, whose entries that a file can hold are valid. -/
structure AnyDir (w : World) (p : Ptr) : Prop where
  fmt : (w.inodes p).fmt = .dir
  cached : (w.inodes p).priv = some (w.addrs p)
  fits : (w.inodes p).size < 2 ^ 32
  valid : ValidDir w.disk (w.addrs p) (capped (w.inodes p).size)

/-- The entries of the directory that are looked at. -/
theorem AnyDir.whole (h : AnyDir w p) : 2 * 16 ≤ (w.inodes p).size :=
  le_trans h.valid.ge (Nat.min_le_left _ _)

/-- A search that reports that there is no such name is right. -/
theorem AnyDir.find_absent {de : Dirent} (h : AnyDir w p)
    (hrun : Runs φ (xv6FindInum p nm.name) w (0, 0, de) w') :
    dirMap w.disk (w.addrs p) (capped (w.inodes p).size) nm = none := by
  refine h.valid.dirMap_none_iff.mpr fun k hk hmatch => ?_
  obtain ⟨hk', hmax⟩ := capped_slots hk
  have hends : EndsWithin (Matches nm.name) w.disk (w.addrs p) 0 ((w.inodes p).size / 16) :=
    .inr ⟨k, Nat.zero_le k, hk', hmax, hmatch⟩
  rcases (findInum_within h.fmt h.cached (Nat.mod_eq_of_lt h.fits) hends nm.ok hrun).2 rfl with
    ⟨-, hfirst, -⟩ | ⟨-, -, hnone⟩
  · exact h.valid.not_matches_dots.1 hfirst
  · exact hnone k hk' hmatch

/-- A name that is there is erased. -/
theorem AnyDir.erase {inum : UInt16} (h : AnyDir w p) (hq : Quiet w.env)
    (hsome : dirMap w.disk (w.addrs p) (capped (w.inodes p).size) nm = some inum)
    (hrun : Returns (xv6DirErase p nm.name) w e w') :
    e = 0 ∧ ∃ k l, FirstMatch w.disk (w.addrs p) (capped (w.inodes p).size) nm.name k ∧
      (dslot w.disk (w.addrs p) k).inum = inum ∧ bmap w.disk (w.addrs p) (k / NENTS) ≠ 0 ∧
      w' = { w with
        disk := Function.update w.disk (bmap w.disk (w.addrs p) (k / NENTS))
          ((w.disk (bmap w.disk (w.addrs p) (k / NENTS))).setDirent (k % NENTS) Dirent.erased)
        log := l } := by
  have hv := h.valid
  obtain ⟨j, hj, hentry⟩ := hv.dirMap_eq_some.mp hsome
  have hmatch : Matches nm.name (dslot w.disk (w.addrs p) j) := by
    refine (hv.matches_iff hj).mpr ?_
    rw [hentry, (Dirent.binding_eq_some.mp hentry).2.2]
  obtain ⟨hj', hmax⟩ := capped_slots hj
  have hj2 := hv.two_le_match hmatch
  rcases dirErase_within h.fmt h.cached (Nat.mod_eq_of_lt h.fits)
      (.inr ⟨j, hj2, hj', hmax, hmatch⟩) nm.ok hrun with
    ⟨-, e', hr, hno⟩ | ⟨k, hk, hne, hwrote⟩
  · exact absurd hmatch (hno (hr.error.mpr (hrun.faultless hq)) j hj2 hj')
  -- the first entry that matches is the only one
  have hkj : k ≤ j := by
    by_contra hlt
    exact hk.before j hj2 (not_le.mp hlt) hmatch
  have hkc : k < capped (w.inodes p).size / 16 := lt_of_le_of_lt hkj hj
  have hk' := (hv.matches_iff hkc).mp hk.sat
  obtain rfl : k = j := hv.distinct k j _ _ _ hkc hj hk' hentry
  have h0 := hwrote.error.mpr (hrun.faultless hq)
  obtain ⟨l, f, -, -, he, rfl⟩ := hwrote
  obtain rfl := Fate.error_eq_zero.mp (he.symm.trans h0)
  exact ⟨h0, k, _, ⟨hk.ge, hkc, hk.sat, hk.before⟩, (Dirent.binding_eq_some.mp hentry).2.2, hne,
    rfl⟩

/-- A directory that passes the test has no entries behind '.' and '..'. -/
theorem rmtest_empty (hfits : (w.inodes p).size < 2 ^ 32)
    (hcached : (w.inodes p).priv = some (w.addrs p)) (h : Runs φ (xv6DirRmtest p) w 0 w') :
    EmptyDir w.disk (w.addrs p) (capped (w.inodes p).size) := by
  intro k hk hlt
  by_contra hused
  obtain ⟨hlt', hmax⟩ := capped_slots hlt
  simp only [xv6DirRmtest] at h
  obtain ⟨r, w₁, hinit, h⟩ := h.bind
  obtain ⟨rfl, rfl⟩ := xv6InitIctx_spec hcached hinit
  simp only [ne_eq, not_true_eq_false, if_false, Nat.mod_eq_of_lt hfits] at h
  obtain ⟨⟨e, ctx, empty⟩, w₂, hiter, hend⟩ := h.bind
  clear h
  have hends : EndsWithin (·.inum ≠ 0) w₁.disk
      (InodeCtx.addrs ⟨w₁.addrs p, (w₁.inodes p).size, false⟩) 2
      (InodeCtx.size ⟨w₁.addrs p, (w₁.inodes p).size, false⟩ / 16) :=
    .inr ⟨k, hk, hlt', hmax, hused⟩
  have hoff : 2 < MAXFILE * NENTS := by decide
  obtain ⟨rfl, hout⟩ := iterate_within rmtest_seeker (fun h => h rfl) (le_refl 2) hends hoff rfl
    hiter
  obtain ⟨u, w₃, hback, hrest⟩ := hend.bind
  simp only [runs_bind_assert] at hrest
  obtain ⟨-, hrest⟩ := hrest
  rcases hrest.ite with ⟨hne, hend⟩ | ⟨heq, hend⟩
  · exact absurd hend.pure.1 hne
  obtain rfl : e = 0 := not_not.mp heq
  have hempty : empty = true := by
    have hret := hend.pure.1
    cases empty with
    | true => rfl
    | false => exact absurd hret (show -ENOTEMPTY ≠ 0 by decide)
  rcases hout with ⟨-, -, hall⟩ | ⟨j, act, hj, -, -, hhit⟩
  · exact hall rfl k hk hlt' hused
  · -- the first entry in use has been found
    obtain ⟨-, hsat, -, de, hcb, -⟩ := hhit
    have hdiv : j / NENTS * NENTS + j % NENTS = j := Nat.div_add_mod' _ _
    unfold rmtestCallback at hcb
    dsimp only at hcb
    rw [hdiv, if_neg (by omega), if_pos hsat] at hcb
    split at hcb
    · cases hcb
      cases hempty
    · cases hcb

/-- The directory after an insertion: it has the new entry, or is as it was. -/
structure AnyDir.Inserted (w : World) (p : Ptr) (nde : Dirent) (e : Int) (w' : World) :
    Prop where
  fits : (w'.inodes p).size < 2 ^ 32
  entry : e = 0 → ∃ k, k ≤ capped (w.inodes p).size / 16 ∧ k < MAXFILE * NENTS ∧
    (k < capped (w.inodes p).size / 16 → (dslot w.disk (w.addrs p) k).inum = 0) ∧
    capped (w'.inodes p).size = (if k < capped (w.inodes p).size / 16 then
      capped (w.inodes p).size else capped (w.inodes p).size + 16) ∧
    SlotSet w.disk (w.addrs p) k nde w'.disk (w'.addrs p)
  failed : e ≠ 0 → SameFile w.disk (w.addrs p) w'.disk (w'.addrs p) ∧
    (w'.inodes p).size = (w.inodes p).size

theorem AnyDir.insert {inum : UInt16} (h : AnyDir w p) (hw : GrowReady w (w.addrs p))
    (ho : Owned w.env w.disk A) (hA : A n = some (w.addrs p)) (hq : Quiet w.env)
    (hrun : Returns (xv6DentryInsert p nm.name inum.toNat) w e w') :
    AnyDir.Inserted w p ⟨inum, strncpy nm.name⟩ e w' := by
  obtain ⟨ctx, r, w₁, dirty, hiter, rfl⟩ :=
    dentryInsert_iterates h.fmt h.cached nm.fits nm.notDots hrun
  rw [UInt16.ofNat_toNat, Nat.mod_eq_of_lt h.fits] at hiter
  have hcalm := hrun.faultless hq
  have hf : Faultless w w₁ := (faultless_congr rfl).mp hcalm
  have haddrs : ∀ {size'}, (w₁.setMap p ctx.addrs size' dirty).addrs p = ctx.addrs := fun {size'} =>
    World.addrs_of_priv (congrArg Inode.priv (World.setMap_inode ..))
  have hsz : ∀ {size'}, ((w₁.setMap p ctx.addrs size' dirty).inodes p).size = size' :=
    fun {size'} => congrArg Inode.size (World.setMap_inode ..)
  have hwhole := h.whole
  have hfits := h.fits
  by_cases hsize : (w.inodes p).size ≤ MAXFILE * BSIZE
  · have hv := h.valid
    rw [capped_self hsize] at hv
    have hres := (iterate_insert_spec hw hsize hiter).inserted hw ho hA hv hf
    generalize hnew : (if e = 0 ∧ ctx.dirty then ctx.size else (w.inodes p).size) = size' at hres
    have hmul := hv.mul
    refine ⟨?_, fun h0 => ?_, fun hne => ?_⟩
    · rw [hsz]
      by_cases h0 : e = 0
      · obtain ⟨k, -, -, -, hk, -⟩ := hres.entry h0
        simp only [MAXFILE, BSIZE] at hsize
        rw [hk]
        split <;> omega
      · rw [← hnew, if_neg fun hc => h0 hc.1]
        exact hfits
    · obtain ⟨k, hk, hmax, hfree, hk', hset⟩ := hres.entry h0
      have hle : size' ≤ MAXFILE * BSIZE := by
        rw [hk']
        simp only [MAXFILE, BSIZE, NENTS] at hmax hsize ⊢
        split <;> omega
      rw [hsz, haddrs, capped_self hsize, capped_self hle]
      exact ⟨k, hk, hmax, hfree, hk', hset⟩
    · rw [hsz, haddrs, ← hnew, if_neg fun hc => hne hc.1]
      exact ⟨hres.failed hne, rfl⟩
  · have hlarge := not_le.mp hsize
    have hcap : capped (w.inodes p).size = MAXFILE * BSIZE := Nat.min_eq_right hlarge.le
    have hv := h.valid
    rw [hcap] at hv
    obtain ⟨hkeep, hins⟩ := iterate_insert_large hw hlarge rfl hiter
    have hres := hins.inserted hw ho hA hv hf
    dsimp only at hkeep hres
    have hsame : (if e = 0 ∧ ctx.dirty then ctx.size else (w.inodes p).size) =
        (w.inodes p).size := by
      rw [hkeep, ite_self]
    rw [ite_self] at hres
    refine ⟨?_, fun h0 => ?_, fun hne => ?_⟩
    · rw [hsz, hsame]
      exact hfits
    · rw [hsz, haddrs, hsame, hcap]
      exact hres.entry h0
    · rw [hsz, haddrs]
      exact ⟨hres.failed hne, hsame⟩

end

end Xv6fs
