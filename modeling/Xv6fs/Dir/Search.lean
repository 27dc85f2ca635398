/-
  Searches of a directory without I/O errors.

  The directory may have its addresses in core or not, and may be of any size: erasing a name
  returns when the entry is one that a directory can have (`dirErase_first`). `xv6_dir_rmtest`
  returns in a directory whose live entries have names, and tells whether there is one
  (`dirRmtest_answers`).
-/
import Xv6fs.Dir.Lookup

namespace Xv6fs

/-- An in-core directory of whole entries. -/
structure SearchReady (w : World) (dir : Ptr) : Prop where
  fmt : (w.inodes dir).fmt = .dir
  nonzero : (w.inodes dir).ino ≠ 0
  whole : WholeEntries (dirSize w dir)

section

variable {φ : Event → Prop} {σ : Type} {cb : DiterCallback σ} {w w' : World} {dir : Ptr}
  {name : FileName} {e : Int} {k : Nat}

/-! ## Looking at entries -/

/-- The callback looks at entry `k` when it is `de`, and does not ask for anything. -/
def LooksAt (cb : DiterCallback σ) (k : Nat) (de : Dirent) : Prop :=
  ∀ s, ∃ act s', cb k de s = .ok (act, de, s') ∧ act.deDirty = false ∧ act.dirExt = false

theorem entries_looked {base off lim : Nat} {blk : Block}
    (hcb : ∀ j, off ≤ j → j < lim → LooksAt cb (base + j) (blk.dirent j)) :
    ∀ (n j : Nat) (act : DiterAction) (s : σ), off ≤ j → j + n ≤ lim → act.dirExt = false →
      ∃ act' s', xv6DirIterate.entries cb base n j act blk s false = .ok (act', blk, s', false) ∧
        act'.dirExt = false
  | 0, _, act, s, _, _, hext => ⟨act, s, rfl, hext⟩
  | n + 1, j, act, s, hj, hlim, _ => by
    obtain ⟨act₁, s₁, hok, hclean, hext⟩ := hcb j hj (by omega) s
    have hstep : xv6DirIterate.entries cb base (n + 1) j act blk s false =
        if !act₁.cont then .ok (act₁, blk, s₁, false)
        else xv6DirIterate.entries cb base n (j + 1) act₁ blk s₁ false := by
      rw [xv6DirIterate.entries, hok]
      change (if !act₁.cont then Except.ok (act₁, blk.setDirent j (blk.dirent j), s₁,
        false || act₁.deDirty) else _) = _
      rw [hclean, Block.setDirent_dirent]
      rfl
    rw [hstep]
    by_cases hcont : act₁.cont = true
    · rw [if_neg (by simp [hcont])]
      exact entries_looked hcb n (j + 1) act₁ s₁ (by omega) (by omega) hext
    · exact ⟨act₁, s₁, if_pos (by simpa using hcont), hext⟩

theorem body_looked (i : Nat) {off lim b : Nat} {act : DiterAction} (hq : Quiet w.env)
    (hoff : off ≤ lim) (hhole : b = 0 → LooksAt cb (i * NENTS) Dirent.zero)
    (hcb : b ≠ 0 → ∀ j, off ≤ j → j < lim → LooksAt cb (i * NENTS + j) ((w.disk b).dirent j))
    (hact : act.dirExt = false) (s : σ) :
    ∃ act' s' l, Returns (xv6DirIterate.body modcheck cb i off lim b act s) w (0, act', s')
      { w with log := l } ∧ act'.dirExt = false := by
  unfold xv6DirIterate.body
  by_cases hb : b = 0
  · obtain ⟨act₁, s₁, hok, -, hext⟩ := hhole hb s
    refine ⟨act₁, s₁, w.log, ?_, hext⟩
    rw [if_pos hb, hok]
    exact returns_iff.mpr rfl
  · obtain ⟨act₁, s₁, hok, hext⟩ := entries_looked (hcb hb) (lim - off) off act s le_rfl (by omega)
      hact
    refine ⟨act₁, s₁, .bread b .ok :: w.log, ?_, hext⟩
    rw [if_neg hb]
    refine (quiet_bind_sbBread hq).mpr ⟨trivial, ?_⟩
    simp only [modcheck, Bool.not_true, Bool.false_eq_true, if_false, runs_bind_bdata]
    have hdisk : (w.logged (.bread b .ok)).disk b = w.disk b := rfl
    rw [hdisk, hok]
    simp only [runs_bind_lift, Bool.false_eq_true, if_false, runs_bind_bstore]
    refine returns_iff.mpr ?_
    have hsame : Function.update w.disk b (w.disk b) = w.disk := Function.update_eq_self _ _
    exact congrArg (fun d => Except.ok ((0, act₁, s₁),
      ({ w with disk := d, log := .bread b .ok :: w.log } : World))) hsame

/-- The loop of a search in which the callback looks at the entries it is shown. -/
theorem blocks_looked (hhole : ∀ k, LooksAt cb k Dirent.zero) :
    ∀ (rounds i off size : Nat) {w : World} (act : DiterAction) (ctx : InodeCtx) (s : σ),
      Quiet w.env → MAXFILE < rounds + i → i ≤ MAXFILE → off ≤ NENTS → act.dirExt = false →
      (∀ k, i * NENTS + off ≤ k → k < i * NENTS + off + size →
        LooksAt cb k (dslot w.disk ctx.addrs k)) →
      ∃ e act' ctx' s' l, Returns (xv6DirIterate.blocks modcheck cb false rounds i off size act
        ctx s) w (e, act', ctx', s') { w with log := l } ∧ act'.dirExt = false
  | 0, i, _, _, _, _, _, _, _, hr, hi, _, _, _ => absurd hr (by omega)
  | rounds + 1, i, off, size, w, act, ctx, s, hq, hr, hi, hoff, hact, hcb => by
    unfold xv6DirIterate.blocks
    by_cases hmax : MAXFILE ≤ i
    · have hbig : xv6InodeAddr modcheck ctx i false = pure (-EFBIG, 0, ctx) := if_pos hmax
      refine ⟨-EFBIG, act, ctx, s, w.log, ?_, hact⟩
      rw [hbig]
      exact returns_iff.mpr rfl
    obtain ⟨l₁, haddr⟩ := inodeAddr_returns ctx hq (not_le.mp hmax)
    have hlim : off ≤ xv6Min NENTS (size + off) ∧ xv6Min NENTS (size + off) ≤ NENTS ∧
        xv6Min NENTS (size + off) ≤ size + off := by
      rw [xv6Min_eq_min]
      omega
    obtain ⟨act₁, s₁, l₂, hbody, hext⟩ := body_looked i (w := { w with log := l₁ })
      (b := bmap w.disk ctx.addrs i) hq hlim.1 (fun _ => hhole _)
      (fun hb j hj hj' => by
        have hlook := hcb (i * NENTS + j) (by omega) (by omega)
        rwa [dslot_eq w.disk ctx.addrs (by omega), if_neg hb] at hlook) hact s
    by_cases hend : act₁.cont = true ∧ size - (xv6Min NENTS (size + off) - off) ≠ 0
    · have hfull : xv6Min NENTS (size + off) = NENTS := by
        rw [xv6Min_eq_min] at hend ⊢
        omega
      have hsucc : (i + 1) * NENTS = i * NENTS + NENTS := Nat.succ_mul i NENTS
      obtain ⟨e, act₂, ctx₂, s₂, l₃, hrest, hext₂⟩ := blocks_looked hhole rounds (i + 1) 0
        (size - (xv6Min NENTS (size + off) - off)) (w := { w with log := l₂ }) act₁
        { ctx with dirty := false } s₁ hq (by omega) (by omega) (Nat.zero_le _) hext
        (fun k hk hk' => hcb k (by omega) (by omega))
      refine ⟨e, act₂, ctx₂, s₂, l₃, (returns_bind haddr).mpr ?_, hext₂⟩
      dsimp only
      rw [if_neg (by simp)]
      refine (returns_bind hbody).mpr ?_
      dsimp only
      rw [if_neg (by simp [hend.1]), if_neg hend.2]
      exact hrest
    · refine ⟨0, act₁, { ctx with dirty := false }, s₁, l₂, (returns_bind haddr).mpr ?_, hext⟩
      dsimp only
      rw [if_neg (by simp)]
      refine (returns_bind hbody).mpr ?_
      dsimp only
      by_cases hcont : act₁.cont = true
      · have hlast : size - (xv6Min NENTS (size + off) - off) = 0 := by
          by_contra hne
          exact hend ⟨hcont, hne⟩
        rw [if_neg (by simp [hcont]), if_pos hlast]
        exact returns_iff.mpr rfl
      · rw [if_pos (.inl (by simpa using hcont))]
        exact returns_iff.mpr rfl

/-- A search that is ended by the callback, or that finds nothing, returns. -/
theorem iterate_looked (hhole : ∀ k, LooksAt cb k Dirent.zero) (ctx : InodeCtx) {off : Nat}
    (hq : Quiet w.env) (hwhole : WholeEntries ctx.size) (hoff : off ≤ MAXFILE * NENTS)
    (hcb : ∀ k, off ≤ k → k < ctx.size / 16 → LooksAt cb k (dslot w.disk ctx.addrs k)) (s : σ) :
    ∃ r w', Returns (xv6DirIterate modcheck ctx cb s off false) w r w' := by
  simp only [xv6DirIterate, Returns, runs_bind_assert]
  by_cases hend : off > ctx.size / 16
  · exact ⟨_, _, hwhole, by rw [if_pos hend]; exact returns_iff.mpr rfl⟩
  · have hpos : off / NENTS * NENTS + off % NENTS = off := Nat.div_add_mod' off NENTS
    have hbound : off / NENTS ≤ MAXFILE := by
      simp only [MAXFILE, NENTS] at hoff ⊢
      omega
    obtain ⟨e, act, ctx', s', l, hblocks, hext⟩ := blocks_looked hhole (MAXFILE + 1)
      (off / NENTS) (off % NENTS) (ctx.size / 16 - off) .init ctx s hq
      (lt_of_lt_of_le (Nat.lt_succ_self _) (Nat.le_add_right _ _)) hbound
      (Nat.mod_lt _ (by decide)).le rfl fun k hk hk' => hcb k (by omega) (by omega)
    refine ⟨(e, ctx', s'), { w with log := l }, hwhole, ?_⟩
    rw [if_neg hend]
    refine (returns_bind hblocks).mpr ?_
    dsimp only
    rw [if_neg (by simp [hext])]
    exact returns_iff.mpr rfl

/-- Storing the addresses that were in use stores nothing, whatever has become of the disk. -/
theorem writeBack_unchanged {ctx : InodeCtx} (hinodes : w'.inodes = w.inodes)
    (haddrs : ctx.addrs = w.addrs dir) : Returns (ctx.writeBack dir) w' () w' := by
  simp only [Returns, InodeCtx.writeBack, runs_modifyInode, haddrs]
  rw [hinodes, addrs_map_same, Function.update_eq_self, ← hinodes]

theorem writeBack_kept {ctx : InodeCtx} {w'' : World} {u : Unit} (hinodes : w'.inodes = w.inodes)
    (haddrs : ctx.addrs = w.addrs dir) (h : Runs φ (ctx.writeBack dir) w' u w'') : w'' = w' :=
  ((Runs.returns h).unique (writeBack_unchanged hinodes haddrs)).2

/-! ## Erasing a name -/

/-- The first entry of the name is erased, and nothing else. -/
theorem dirErase_first (hd : SearchReady w dir) (hq : Quiet w.env) (hname : NameOk name)
    (hk : FirstMatch w.disk (w.addrs dir) (dirSize w dir) name k) (hmax : k < MAXFILE * NENTS) :
    bmap w.disk (w.addrs dir) (k / NENTS) ≠ 0 ∧ ∃ l, Returns (xv6DirErase dir name) w 0 { w with
      disk := Function.update w.disk (bmap w.disk (w.addrs dir) (k / NENTS))
        ((w.disk (bmap w.disk (w.addrs dir) (k / NENTS))).setDirent (k % NENTS) Dirent.erased)
      log := l } := by
  obtain ⟨l, hinit⟩ := initIctx_returns hq hd.nonzero
  have hwhole : WholeEntries (InodeCtx.size ⟨w.addrs dir, dirSize w dir, false⟩) := hd.whole
  have htotal : Prog.Total (xv6DirIterate modcheck ⟨w.addrs dir, dirSize w dir, false⟩
      (deEraseCallback name) false 2 false) :=
    total_iterate total_sbBread total_bdata
      (fun k de s => by
        unfold deEraseCallback
        split <;> exact ⟨_, rfl, fun _ => total_syncBuffer⟩)
      hwhole (by decide) false
  obtain ⟨⟨e, ctx, success⟩, w₁, hiter⟩ := htotal { w with log := l }
  have hiter := returns_iff.mpr hiter
  have hends : EndsWithin (Matches name) w.disk (w.addrs dir) 2
      (InodeCtx.size ⟨w.addrs dir, dirSize w dir, false⟩ / 16) :=
    .inr ⟨k, hk.ge, hk.lt, hmax, hk.sat⟩
  have hoff : 2 < MAXFILE * NENTS := by decide
  obtain ⟨rfl, hout⟩ := iterate_within (w := { w with log := l }) (deErase_seeker name)
    (not_matches_zero hname) (Nat.zero_le 2) hends hoff rfl hiter
  -- the search stops at entry `k`, which it erases
  obtain ⟨j, act, hj, hj', hbefore, hhit⟩ : ∃ j act, 2 ≤ j ∧ j < dirSize w dir / 16 ∧
      (∀ m, 2 ≤ m → m < j → ¬ Matches name (dslot w.disk (w.addrs dir) m)) ∧
      HitAt (deEraseCallback name) (Matches name) { w with log := l }
        (bmap w.disk (w.addrs dir) (j / NENTS)) (j / NENTS * NENTS) (j % NENTS) false e act
        success w₁ := by
    rcases hout with ⟨hr, -, hall⟩ | hfound
    · exact absurd hk.sat (hall (hr.error.mpr (hiter.faultless hq)) k hk.ge hk.lt)
    · exact hfound
  have he : e = 0 := hhit.error.mpr (hiter.faultless hq)
  obtain ⟨hnz, hsat, -, de, hcb, hdone⟩ := hhit
  have hsat' : Matches name (dslot w.disk (w.addrs dir) j) := by
    unfold dslot fblock
    rw [if_neg hnz]
    exact hsat
  obtain rfl : j = k := by
    rcases Nat.lt_trichotomy j k with hlt | rfl | hlt
    · exact absurd hsat' (hk.before j hj hlt)
    · rfl
    · exact absurd hk.sat (hbefore k hk.ge hlt)
  rw [deEraseCallback, if_pos (show strncmpEq name _ = true from hsat)] at hcb
  cases hcb
  subst he
  rcases hdone with ⟨-, l', f, -, -, hf, rfl⟩ | ⟨hclean, -⟩
  · have hok : f = .ok := by
      by_contra hne
      rw [Fate.error, if_neg hne] at hf
      exact absurd hf (by decide)
    subst hok
    refine ⟨hnz, .sync (bmap w.disk (w.addrs dir) (j / NENTS)) .ok :: l', ?_⟩
    simp only [xv6DirErase, Returns, runs_bind_getInode, hd.fmt, ne_eq, not_true_eq_false, if_false]
    refine (returns_bind hinit).mpr ?_
    dsimp only
    rw [if_neg (by simp)]
    refine (returns_bind hiter).mpr ?_
    have hback : ∀ w' : World, w'.inodes = w.inodes → Returns (InodeCtx.writeBack
        ⟨w.addrs dir, dirSize w dir, false⟩ dir) w' () w' := fun _ h => writeBack_unchanged h rfl
    refine (returns_bind (hback _ (by rfl))).mpr ?_
    simp only [Returns, runs_bind_assert]
    exact ⟨trivial, returns_iff.mpr rfl⟩
  · cases hclean

/-! ## Is a directory empty -/

/-- Every entry from entry 2 on is unused. -/
def EmptyDir (d : Disk) (addrs : Addrs) (size : Nat) : Prop :=
  ∀ k, 2 ≤ k → k < size / 16 → (dslot d addrs k).inum = 0

theorem rmtest_looks (hname : ∀ k, 2 ≤ k → k < dirSize w dir / 16 →
    (dslot w.disk (w.addrs dir) k).inum ≠ 0 → (dslot w.disk (w.addrs dir) k).name 0 ≠ 0) :
    ∀ k, 2 ≤ k → k < dirSize w dir / 16 →
      LooksAt rmtestCallback k (dslot w.disk (w.addrs dir) k) := by
  intro k hk hk' s
  unfold rmtestCallback
  dsimp only
  rw [if_neg (by omega)]
  by_cases hused : (dslot w.disk (w.addrs dir) k).inum ≠ 0
  · rw [if_pos hused, if_pos (hname k hk hk' hused)]
    exact ⟨_, _, rfl, rfl, rfl⟩
  · rw [if_neg hused]
    exact ⟨_, _, rfl, rfl, rfl⟩

theorem rmtest_hole (k : Nat) : LooksAt rmtestCallback k Dirent.zero := by
  intro s
  unfold rmtestCallback
  by_cases hk : k ≤ 1
  · exact ⟨_, _, if_pos hk, rfl, rfl⟩
  · exact ⟨_, _, (if_neg hk).trans (if_neg (by decide)), rfl, rfl⟩

/-- In a directory whose live entries have names, `xv6_dir_rmtest` tells whether it is empty. -/
theorem dirRmtest_answers (hd : SearchReady w dir) (hq : Quiet w.env)
    (hmax : dirSize w dir ≤ MAXFILE * BSIZE)
    (hname : ∀ k, 2 ≤ k → k < dirSize w dir / 16 → (dslot w.disk (w.addrs dir) k).inum ≠ 0 →
      (dslot w.disk (w.addrs dir) k).name 0 ≠ 0) :
    ∃ e l, Returns (xv6DirRmtest dir) w e { w with log := l } ∧ (e = 0 ∨ e = -ENOTEMPTY) ∧
      (e = 0 ↔ EmptyDir w.disk (w.addrs dir) (dirSize w dir)) := by
  obtain ⟨l, hinit⟩ := initIctx_returns hq hd.nonzero
  have hoff : 2 < MAXFILE * NENTS := by decide
  obtain ⟨⟨e, ctx, empty⟩, w₁, hiter⟩ := iterate_looked (w := { w with log := l }) rmtest_hole
    ⟨w.addrs dir, dirSize w dir, false⟩ hq hd.whole hoff.le (rmtest_looks hname) true
  obtain ⟨rfl, hout⟩ := iterate_spec (w := { w with log := l }) rmtest_seeker (fun h => h rfl)
    (le_refl 2) hmax hoff rfl hiter
  have hf : Faultless { w with log := l } w₁ := hiter.faultless hq
  -- what the search says, and that it has read only
  obtain ⟨l₁, rfl, rfl, hempty⟩ : ∃ l₁, w₁ = { w with log := l₁ } ∧ e = 0 ∧
      (empty = true ↔ EmptyDir w.disk (w.addrs dir) (dirSize w dir)) := by
    rcases hout with ⟨hr, rfl, hall⟩ | ⟨k, act, hk, hk', hbefore, hhit⟩
    · obtain ⟨l₁, rfl⟩ := hr.log
      have he : e = 0 := hr.error.mpr hf
      exact ⟨l₁, rfl, he, iff_of_true rfl fun k hk hk' => not_not.mp (hall he k hk hk')⟩
    · have he : e = 0 := hhit.error.mpr hf
      obtain ⟨hnz, hsat, -, de, hcb, hdone⟩ := hhit
      have hslot : dslot w.disk (w.addrs dir) k =
          (w.disk (bmap w.disk (w.addrs dir) (k / NENTS))).dirent (k % NENTS) := by
        unfold dslot fblock
        rw [if_neg hnz]
      have hused : (dslot w.disk (w.addrs dir) k).inum ≠ 0 := by
        rw [hslot]
        exact hsat
      have hnm := hname k hk hk' hused
      rw [hslot] at hnm
      have hdiv : k / NENTS * NENTS + k % NENTS = k := Nat.div_add_mod' _ _
      unfold rmtestCallback at hcb
      dsimp only at hcb
      rw [hdiv, if_neg (by omega), if_pos hsat, if_pos hnm] at hcb
      cases hcb
      rcases hdone with ⟨hdirty, -⟩ | ⟨-, -, l₁, -, -, rfl⟩
      · cases hdirty
      · rw [Block.setDirent_dirent, Function.update_eq_self]
        exact ⟨l₁, rfl, he, iff_of_false (by decide) fun hall => hused (hall k hk hk')⟩
  have hback : ∀ w' : World, w'.inodes = w.inodes → Returns (InodeCtx.writeBack
      ⟨w.addrs dir, dirSize w dir, false⟩ dir) w' () w' := fun _ h => writeBack_unchanged h rfl
  refine ⟨if empty then 0 else -ENOTEMPTY, l₁, ?_, ?_, ?_⟩
  · unfold xv6DirRmtest
    refine (returns_bind hinit).mpr ?_
    dsimp only
    rw [if_neg (by simp)]
    refine (returns_bind hiter).mpr ?_
    refine (returns_bind (hback _ (by rfl))).mpr ?_
    simp only [Returns, runs_bind_assert]
    exact ⟨trivial, returns_iff.mpr rfl⟩
  · cases empty
    · exact .inr rfl
    · exact .inl rfl
  · rw [← hempty]
    cases empty
    · exact iff_of_false (by decide) (by decide)
    · exact iff_of_true rfl rfl

end

end Xv6fs
