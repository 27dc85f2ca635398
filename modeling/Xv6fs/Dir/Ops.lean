/-
  The operations on one directory, whatever fails on the way.

  A directory in use has its addresses in core. Looking an entry up reads and changes nothing;
  erasing one writes one entry of one block; inserting one is described by `Inserting`.
-/
import Xv6fs.Dir.Name
import Xv6fs.Fs.Frame
import Xv6fs.Inode.Nodes

namespace Xv6fs

/-- The in-core inode at `p` is that of a directory with these addresses and this size. -/
structure DirAt (w : World) (p : Ptr) (addrs : Addrs) (size : Nat) : Prop where
  fmt : (w.inodes p).fmt = .dir
  priv : (w.inodes p).priv = some addrs
  size_eq : (w.inodes p).size = size
  size_le : size ≤ MAXFILE * BSIZE

namespace DirAt

variable {w w' : World} {p : Ptr} {addrs : Addrs} {size : Nat}

theorem size_mod (h : DirAt w p addrs size) : (w.inodes p).size % 2 ^ 32 = size := by
  have hle := h.size_le
  rw [h.size_eq]
  simp only [MAXFILE, BSIZE] at hle
  omega

/-- Every search of it ends among the entries a file can hold. -/
theorem endsWithin {q : Dirent → Prop} {off : Nat} (h : DirAt w p addrs size) :
    EndsWithin q w.disk addrs off (size / 16) := by
  have hle := h.size_le
  left
  simp only [MAXFILE, BSIZE, NENTS] at hle ⊢
  omega

end DirAt

section

variable {φ : Event → Prop} {w w' : World} {p : Ptr} {addrs : Addrs} {size : Nat}
  {name : FileName}

/-! ## Looking an entry up -/

/-- An entry whose name field matches. -/
def Matches (name : FileName) (de : Dirent) : Prop := strncmpEq name de.name = true

theorem not_matches_zero (hname : NameOk name) : ¬ Matches name Dirent.zero := by
  unfold Matches
  rw [strncmpEq_unused hname rfl]
  decide

theorem deFind_seeker (name : FileName) : Seeker (deFindCallback name) (Matches name) false 0 where
  miss := by
    intro k de s hno
    have hno' : ¬ strncmpEq name de.name = true := hno
    unfold deFindCallback
    rw [if_neg hno']
    exact ⟨_, rfl, rfl, rfl, rfl⟩
  hit := by
    intro k de s act de' s' _ hyes h
    have hyes' : strncmpEq name de.name = true := hyes
    unfold deFindCallback at h
    rw [if_pos hyes'] at h
    cases h
    rfl

/-- What `xv6_find_inum` finds when no read fails: the first entry that matches, or none. -/
def Found (d : Disk) (addrs : Addrs) (size : Nat) (name : FileName) (k : Nat) (de : Dirent) :
    Prop :=
  (k < size / 16 ∧ Matches name (dslot d addrs k) ∧ de = dslot d addrs k ∧
      ∀ m, m < k → ¬ Matches name (dslot d addrs m)) ∨
    (k = 0 ∧ de = Dirent.zero ∧ ∀ m, m < size / 16 → ¬ Matches name (dslot d addrs m))

/-- The search of a directory of any size that ends among the entries a file can hold. -/
theorem findInum_within {e : Int} {k : Nat} {de : Dirent} (hfmt : (w.inodes p).fmt = .dir)
    (hpriv : (w.inodes p).priv = some addrs) (hsize : (w.inodes p).size % 2 ^ 32 = size)
    (hends : EndsWithin (Matches name) w.disk addrs 0 (size / 16)) (hname : NameOk name)
    (h : Runs φ (xv6FindInum p name) w (e, k, de) w') :
    OnlyReads w w' e ∧ (e = 0 → Found w.disk addrs size name k de) := by
  simp only [xv6FindInum, runs_bind_getInode, hfmt, ne_eq, not_true_eq_false, if_false] at h
  obtain ⟨r, w₁, hinit, h⟩ := h.bind
  obtain ⟨rfl, rfl⟩ := xv6InitIctx_spec hpriv hinit
  rw [hsize] at h
  simp only [not_true_eq_false, if_false] at h
  obtain ⟨⟨e₁, ctx, r⟩, w₂, hiter, hend⟩ := h.bind
  clear h
  have hends' : EndsWithin (Matches name) w₁.disk (InodeCtx.addrs ⟨addrs, size, false⟩) 0
      (InodeCtx.size ⟨addrs, size, false⟩ / 16) := hends
  have hoff : 0 < MAXFILE * NENTS := by decide
  obtain ⟨rfl, hout⟩ := iterate_within (deFind_seeker name) (not_matches_zero hname) (le_refl 0)
    hends' hoff rfl hiter
  have hinodes : w₂.inodes = w₁.inodes := iterate_inodes _ hiter
  obtain ⟨u, w₃, hback, hrest⟩ := hend.bind
  clear hend
  obtain rfl := writeBack_same (by rw [hinodes]; exact hpriv) hback
  simp only [runs_bind_assert] at hrest
  obtain ⟨-, hend⟩ := hrest
  obtain ⟨hres, rfl⟩ := hend.pure
  cases hres
  rcases hout with ⟨hr, hs, hall⟩ | ⟨k', act, -, hk', hbefore, hhit⟩
  · cases hs
    exact ⟨hr, fun h0 => .inr ⟨rfl, rfl, fun m hm => hall h0 m (Nat.zero_le m) hm⟩⟩
  · obtain ⟨hnz, hsat, -, de', hcb, hdone⟩ := hhit
    have hslot : dslot w₁.disk addrs k' =
        (w₁.disk (bmap w₁.disk addrs (k' / NENTS))).dirent (k' % NENTS) := by
      unfold dslot fblock
      rw [if_neg hnz]
    have hdiv : k' / NENTS * NENTS + k' % NENTS = k' := Nat.div_add_mod' _ _
    have hsat' : strncmpEq name ((w₁.disk (bmap w₁.disk addrs (k' / NENTS))).dirent
        (k' % NENTS)).name = true := hsat
    unfold deFindCallback at hcb
    rw [if_pos hsat', hdiv] at hcb
    cases hcb
    rcases hdone with ⟨hdirty, -⟩ | ⟨-, rfl, l, -, hr, rfl⟩
    · cases hdirty
    · rw [Block.setDirent_dirent, Function.update_eq_self] at *
      exact ⟨hr, fun _ => .inl ⟨hk', by rw [hslot]; exact hsat, hslot.symm,
        fun m hm => hbefore m (Nat.zero_le m) hm⟩⟩

theorem xv6FindInum_spec {e : Int} {k : Nat} {de : Dirent} (hdir : DirAt w p addrs size)
    (hname : NameOk name) (h : Runs φ (xv6FindInum p name) w (e, k, de) w') :
    OnlyReads w w' e ∧ (e = 0 → Found w.disk addrs size name k de) :=
  findInum_within hdir.fmt hdir.priv hdir.size_mod hdir.endsWithin hname h

/-! ## Erasing an entry -/

theorem deErase_seeker (name : FileName) :
    Seeker (deEraseCallback name) (Matches name) false 0 where
  miss := by
    intro k de s hno
    have hno' : ¬ strncmpEq name de.name = true := hno
    unfold deEraseCallback
    rw [if_neg hno']
    exact ⟨_, rfl, rfl, rfl, rfl⟩
  hit := by
    intro k de s act de' s' _ hyes h
    have hyes' : strncmpEq name de.name = true := hyes
    unfold deEraseCallback at h
    rw [if_pos hyes'] at h
    cases h
    rfl

/-- Entry `k` is the first from entry 2 on that matches. -/
structure FirstMatch (d : Disk) (addrs : Addrs) (size : Nat) (name : FileName) (k : Nat) :
    Prop where
  ge : 2 ≤ k
  lt : k < size / 16
  sat : Matches name (dslot d addrs k)
  before : ∀ m, 2 ≤ m → m < k → ¬ Matches name (dslot d addrs m)

/-- The file system after entry `k` of the directory has been written. -/
abbrev WroteSlot (w : World) (addrs : Addrs) (k : Nat) (de : Dirent) (e : Int) (w' : World) :
    Prop :=
  Wrote w (bmap w.disk addrs (k / NENTS))
    ((w.disk (bmap w.disk addrs (k / NENTS))).setDirent (k % NENTS) de) e w'

/-- The erasure in a directory of any size whose search ends among the entries a file can hold. -/
theorem dirErase_within {e : Int} (hfmt : (w.inodes p).fmt = .dir)
    (hpriv : (w.inodes p).priv = some addrs) (hsize : (w.inodes p).size % 2 ^ 32 = size)
    (hends : EndsWithin (Matches name) w.disk addrs 2 (size / 16)) (hname : NameOk name)
    (h : Runs φ (xv6DirErase p name) w e w') :
    (e = -ENOENT ∧ ∃ e', OnlyReads w w' e' ∧
        (e' = 0 → ∀ k, 2 ≤ k → k < size / 16 → ¬ Matches name (dslot w.disk addrs k))) ∨
      ∃ k, FirstMatch w.disk addrs size name k ∧ bmap w.disk addrs (k / NENTS) ≠ 0 ∧
        WroteSlot w addrs k Dirent.erased e w' := by
  simp only [xv6DirErase, runs_bind_getInode, hfmt, ne_eq, not_true_eq_false, if_false] at h
  obtain ⟨r, w₁, hinit, h⟩ := h.bind
  obtain ⟨rfl, rfl⟩ := xv6InitIctx_spec hpriv hinit
  rw [hsize] at h
  simp only [not_true_eq_false, if_false] at h
  obtain ⟨⟨e₁, ctx, success⟩, w₂, hiter, hend⟩ := h.bind
  clear h
  have hends' : EndsWithin (Matches name) w₁.disk (InodeCtx.addrs ⟨addrs, size, false⟩) 2
      (InodeCtx.size ⟨addrs, size, false⟩ / 16) := hends
  have hoff : 2 < MAXFILE * NENTS := by decide
  obtain ⟨rfl, hout⟩ := iterate_within (deErase_seeker name) (not_matches_zero hname)
    (Nat.zero_le 2) hends' hoff rfl hiter
  have hinodes : w₂.inodes = w₁.inodes := iterate_inodes _ hiter
  obtain ⟨u, w₃, hback, hrest⟩ := hend.bind
  clear hend
  obtain rfl := writeBack_same (by rw [hinodes]; exact hpriv) hback
  simp only [runs_bind_assert] at hrest
  obtain ⟨-, hend⟩ := hrest
  obtain ⟨rfl, rfl⟩ := hend.pure
  rcases hout with ⟨hr, rfl, hall⟩ | ⟨k, act, hk, hk', hbefore, hhit⟩
  · exact .inl ⟨rfl, _, hr, hall⟩
  · obtain ⟨hnz, hsat, -, de, hcb, hdone⟩ := hhit
    have hslot : dslot w₁.disk addrs k =
        (w₁.disk (bmap w₁.disk addrs (k / NENTS))).dirent (k % NENTS) := by
      unfold dslot fblock
      rw [if_neg hnz]
    have hsat' : strncmpEq name ((w₁.disk (bmap w₁.disk addrs (k / NENTS))).dirent
        (k % NENTS)).name = true := hsat
    unfold deEraseCallback at hcb
    rw [if_pos hsat'] at hcb
    cases hcb
    rcases hdone with ⟨-, hwrote⟩ | ⟨hclean, -⟩
    · exact .inr ⟨k, ⟨hk, hk', by rw [hslot]; exact hsat, hbefore⟩, hnz, hwrote⟩
    · cases hclean

/-- `xv6_dir_erase` writes the first entry that matches. It reports -ENOENT when there is none,
    and when a read fails before it gets there. -/
theorem xv6DirErase_spec {e : Int} (hdir : DirAt w p addrs size) (hname : NameOk name)
    (h : Runs φ (xv6DirErase p name) w e w') :
    (e = -ENOENT ∧ ∃ e', OnlyReads w w' e' ∧
        (e' = 0 → ∀ k, 2 ≤ k → k < size / 16 → ¬ Matches name (dslot w.disk addrs k))) ∨
      ∃ k, FirstMatch w.disk addrs size name k ∧ bmap w.disk addrs (k / NENTS) ≠ 0 ∧
        WroteSlot w addrs k Dirent.erased e w' :=
  dirErase_within hdir.fmt hdir.priv hdir.size_mod hdir.endsWithin hname h

/-! ## Is a directory empty -/

theorem rmtest_seeker : Seeker rmtestCallback (·.inum ≠ 0) false 2 where
  miss := by
    intro k de s hno
    unfold rmtestCallback
    by_cases hk : k ≤ 1
    · exact ⟨_, if_pos hk, rfl, rfl, rfl⟩
    · exact ⟨_, (if_neg hk).trans (if_neg hno), rfl, rfl, rfl⟩
  hit := by
    intro k de s act de' s' hk hused h
    unfold rmtestCallback at h
    dsimp only at h
    rw [if_neg (by omega), if_pos hused] at h
    split at h
    · cases h
      rfl
    · cases h

/-! ## Inserting an entry -/

/-- `xv6_dentry_insert` of a name that fits is a run of the iterator, whose result it stores in
    core. The size is stored only when it reports no error. -/
theorem dentryInsert_iterates {inum : Nat} {e : Int} (hfmt : (w.inodes p).fmt = .dir)
    (hpriv : (w.inodes p).priv = some addrs) (hlen : name.length ≤ DIRSIZ)
    (hdot : ¬ (name = dot ∨ name = dotdot)) (h : Runs φ (xv6DentryInsert p name inum) w e w') :
    ∃ ctx r w₁ dirty, Runs φ (xv6DirIterate modcheck ⟨addrs, (w.inodes p).size % 2 ^ 32, false⟩
        (deInsertCallback ⟨UInt16.ofNat inum, strncpy name⟩) () 0 true) w (e, ctx, r) w₁ ∧
      w' = w₁.setMap p ctx.addrs (if e = 0 ∧ ctx.dirty then ctx.size else (w.inodes p).size)
        dirty := by
  simp only [xv6DentryInsert, runs_bind_getInode, hfmt, ne_eq, not_true_eq_false, if_false,
    gt_iff_lt, not_lt.mpr hlen, hdot] at h
  obtain ⟨r, w₁, hinit, h⟩ := h.bind
  obtain ⟨rfl, rfl⟩ := xv6InitIctx_spec hpriv hinit
  simp only [not_true_eq_false, if_false] at h
  obtain ⟨⟨e₁, ctx, r⟩, w₂, hiter, hend⟩ := h.bind
  clear h
  have hinodes : w₂.inodes = w₁.inodes := iterate_inodes _ hiter
  rw [← hinodes] at hpriv
  obtain ⟨u, w₃, hback, hend⟩ := hend.bind
  obtain rfl := writeBack_spec hpriv hback
  rcases hend.ite with ⟨h0, hend⟩ | ⟨hne, hend⟩
  · subst h0
    simp only [xv6IctxDirty] at hend
    rcases hend.ite with ⟨hclean, hend⟩ | ⟨hdirty, hend⟩
    · obtain ⟨rfl, rfl⟩ := hend.pure
      have hc : ctx.dirty = false := by simpa using hclean
      refine ⟨ctx, r, w₂, (w₂.inodes p).dirty, hiter, ?_⟩
      unfold World.setMap
      rw [hc, if_neg (by simp), hinodes]
    · have hc : ctx.dirty = true := by simpa using hdirty
      simp only [markInodeDirty, runs_bind_modifyInode, Function.update_self,
        Function.update_idem, runs_bind_getInode] at hend
      obtain ⟨rfl, rfl⟩ := hend.pure
      refine ⟨ctx, r, w₂, true, hiter, ?_⟩
      unfold World.setMap
      rw [if_pos ⟨rfl, hc⟩]
  · obtain ⟨rfl, rfl⟩ := hend.pure
    refine ⟨ctx, r, w₂, (w₂.inodes p).dirty, hiter, ?_⟩
    unfold World.setMap
    rw [if_neg fun hc => hne hc.1, hinodes]

/-- In a directory that is not too large the iterator inserts. -/
theorem xv6DentryInsert_spec {inum : Nat} {e : Int} (hw : GrowReady w addrs)
    (hdir : DirAt w p addrs size) (hlen : name.length ≤ DIRSIZ)
    (hdot : ¬ (name = dot ∨ name = dotdot)) (h : Runs φ (xv6DentryInsert p name inum) w e w') :
    ∃ ctx w₁ dirty, Inserting w ⟨addrs, size, false⟩ ⟨UInt16.ofNat inum, strncpy name⟩ e ctx w₁ ∧
      w' = w₁.setMap p ctx.addrs (if e = 0 ∧ ctx.dirty then ctx.size else size) dirty := by
  obtain ⟨ctx, r, w₁, dirty, hiter, hw'⟩ := dentryInsert_iterates hdir.fmt hdir.priv hlen hdot h
  rw [hdir.size_mod] at hiter
  rw [hdir.size_eq] at hw'
  exact ⟨ctx, w₁, dirty, iterate_insert_spec hw hdir.size_le hiter, hw'⟩

end

end Xv6fs
