/-
  Searching, listing, testing and erasing do not change the inode.

  The four directory functions and `xv6_inode_block` are written once more with the checker and the
  check of their context as parameters (`searchWith`). With any allocator in the checker, and with
  any program run when the context is not the one they started with, they are the functions of
  dir.c and inode.c (`search_eq`): the allocator is never called, the context never changes and is
  never dirty, and no assertion that it is clean fails.

  The disk is changed by erasing alone, and then in the first entry that matches
  (`iterate_upto_match`). Names and contents are arbitrary here, so the first entry that matches may
  lie in a hole: the search stops there and nothing is written.
-/
import Xv6fs.Fs.Allocators
import Xv6fs.Fs.Grew
import Xv6fs.Dir.Search
import Xv6fs.Inode.Recorded

namespace Xv6fs

section

variable {σ : Type} {cb : DiterCallback σ} {φ : Event → Prop} {w w' : World}
  {dir dir' ictx : InodeCtx} {p : Ptr} {i off : Nat} {s s' : σ} {e : Int}

/-! ## The allocator is not called -/

theorem blocks_with (balloc : Nat → Fs (Int × Nat)) (cb : DiterCallback σ) :
    ∀ (rounds i off size : Nat) (act : DiterAction) (dir : InodeCtx) (s : σ),
      xv6DirIterate.blocks (modcheckWith balloc) cb false rounds i off size act dir s =
        xv6DirIterate.blocks modcheck cb false rounds i off size act dir s
  | 0, _, _, _, _, _, _ => rfl
  | rounds + 1, i, off, size, act, dir, s => by
    have hbody : @xv6DirIterate.body σ (modcheckWith balloc) = xv6DirIterate.body modcheck := rfl
    simp only [xv6DirIterate.blocks, inodeAddr_with, hbody, blocks_with balloc cb rounds]

theorem iterate_with (balloc : Nat → Fs (Int × Nat)) (cb : DiterCallback σ) (dir : InodeCtx) (s : σ)
    (off : Nat) :
    xv6DirIterate (modcheckWith balloc) dir cb s off false =
      xv6DirIterate modcheck dir cb s off false := by
  have hbread : (modcheckWith balloc).bread = modcheck.bread := rfl
  have hbdata : (modcheckWith balloc).bdata = modcheck.bdata := rfl
  have hbflush : (modcheckWith balloc).bflush = modcheck.bflush := rfl
  simp only [xv6DirIterate, xv6DirIterate.extend, blocks_with, inodeAddr_with, hbread, hbdata,
    hbflush]

/-! ## The context stays as it is -/

theorem inodeAddr_same {r : Int × Nat × InodeCtx} (hclean : dir.dirty = false)
    (h : Runs φ (xv6InodeAddr modcheck dir i false) w r w') : r.2.2 = dir := by
  by_cases hi : i < MAXFILE
  · rw [(xv6InodeAddr_read hi h).1, ← hclean]
  · exact (xv6InodeAddr_big (not_lt.mp hi) h).2.2.1

theorem blocks_same (hclean : dir.dirty = false) :
    ∀ {rounds i off size : Nat} {act : DiterAction} {s : σ} {w : World}
      {r : Int × DiterAction × InodeCtx × σ},
      Runs φ (xv6DirIterate.blocks modcheck cb false rounds i off size act dir s) w r w' →
      r.2.2.1 = dir
  | 0, _, _, _, _, _, _, _, h => h.halt.elim
  | rounds + 1, i, off, size, act, s, w, r, h => by
    obtain ⟨⟨e₁, b, dir₁⟩, w₁, haddr, hrest⟩ := h.bind
    clear h
    obtain rfl : dir = dir₁ := (inodeAddr_same hclean haddr).symm
    rcases hrest.ite with ⟨-, hend⟩ | ⟨-, hrest⟩
    · obtain ⟨rfl, -⟩ := hend.pure
      rfl
    obtain ⟨r₂, w₂, -, hrest⟩ := hrest.bind
    rcases hrest.ite with ⟨-, hend⟩ | ⟨-, hrest⟩
    · obtain ⟨rfl, -⟩ := hend.pure
      rfl
    rcases hrest.ite with ⟨-, hend⟩ | ⟨-, hrest⟩
    · obtain ⟨rfl, -⟩ := hend.pure
      rfl
    · exact blocks_same hclean hrest

theorem iterate_same {r : Int × InodeCtx × σ} (hc : NoExt cb) (hclean : dir.dirty = false)
    (h : Runs φ (xv6DirIterate modcheck dir cb s off false) w r w') : r.2.1 = dir := by
  simp only [xv6DirIterate, runs_bind_assert] at h
  obtain ⟨-, h⟩ := h
  rcases h.ite with ⟨-, hend⟩ | ⟨-, h⟩
  · obtain ⟨rfl, -⟩ := hend.pure
    rfl
  obtain ⟨⟨e₁, act, dir₁, s₁⟩, w₁, hblocks, hrest⟩ := h.bind
  clear h
  obtain rfl : dir = dir₁ := (blocks_same hclean hblocks).symm
  rcases hrest.ite with ⟨⟨-, -, hext⟩, -⟩ | ⟨-, hend⟩
  · rw [blocks_noExt hc rfl hblocks] at hext
    cases hext
  · obtain ⟨rfl, -⟩ := hend.pure
    rfl

/-! ## The functions once more -/

variable {α : Type} {balloc : Nat → Fs (Int × Nat)} {failed : Int → α} {done : Int → σ → Fs α}
  {verify : InodeCtx → InodeCtx → Fs Unit}

/-- What is done with the context at the end: `changed` is run unless it is the one at the start,
    in its 13 addresses and in its size, and clean. -/
def unchanged (changed : Fs Unit) (ictx ictx' : InodeCtx) : Fs Unit :=
  if (∀ k, ictx'.addrs k = ictx.addrs k) ∧ ictx'.size = ictx.size ∧ ictx'.dirty = false then
    pure ()
  else
    changed

/-- A function of dir.c that iterates over a directory, with what is done with the context at the
    end, and with the answers. -/
def searchWith (check : Checker) (verify : InodeCtx → InodeCtx → Fs Unit) (dir : Ptr)
    (callback : DiterCallback σ) (ctx : σ) (off : Nat) (failed : Int → α) (done : Int → σ → Fs α) :
    Fs α := do
  let (error, ictx) ← xv6InitIctx dir
  if error ≠ 0 then
    return failed error
  let (error, ictx', ctx) ← xv6DirIterate check ictx callback ctx off false
  ictx'.writeBack dir
  verify ictx ictx'
  done error ctx

def xv6FindInumWith (check : Checker) (verify : InodeCtx → InodeCtx → Fs Unit) (dir : Ptr)
    (name : FileName) : Fs (Int × Nat × Dirent) := do
  if (← getInode dir).fmt ≠ .dir then
    return (-ENOTDIR, 0, Dirent.zero)
  searchWith check verify dir (deFindCallback name) (0, Dirent.zero) 0
    (fun error => (error, 0, Dirent.zero)) fun error ctx => return (error, ctx)

def xv6ReaddirWith (check : Checker) (verify : InodeCtx → InodeCtx → Fs Unit)
    (dirEmit : Nat → Bool) (dir : Ptr) (pos : Nat) : Fs (Int × DirContext) := do
  if (← getInode dir).fmt ≠ .dir then
    return (-ENOTDIR, ⟨pos, []⟩)
  searchWith check verify dir (readdirCallback dirEmit) ⟨pos, []⟩ (pos % 2 ^ 32)
    (fun error => (error, ⟨pos, []⟩)) fun ret ctx => return (ret, ctx)

def xv6DirEraseWith (check : Checker) (verify : InodeCtx → InodeCtx → Fs Unit) (dir : Ptr)
    (name : FileName) : Fs Int := do
  if (← getInode dir).fmt ≠ .dir then
    return -ENOTDIR
  searchWith check verify dir (deEraseCallback name) false 2 id fun error success =>
    return if success then error else -ENOENT

def xv6DirRmtestWith (check : Checker) (verify : InodeCtx → InodeCtx → Fs Unit) (dir : Ptr) :
    Fs Int :=
  searchWith check verify dir rmtestCallback true 2 id fun error ret => do
    if error ≠ 0 then
      return error
    return if ret then 0 else -ENOTEMPTY

def xv6InodeBlockWith (check : Checker) (verify : InodeCtx → InodeCtx → Fs Unit) (p : Ptr)
    (i : Nat) : Fs (Int × Option Nat) := do
  let (error, ictx) ← xv6InitIctx p
  if error ≠ 0 then
    return (error, none)
  let (error, blockno, ictx') ← xv6InodeAddr check ictx i false
  ictx'.writeBack p
  verify ictx ictx'
  if error ≠ 0 then
    return (error, none)
  if blockno = 0 then
    return (0, none)
  if ← sbBread blockno then
    return (0, some blockno)
  return (- EIO, none)

/-- The assertion at the end of four of them. -/
def assertClean (_ ictx' : InodeCtx) : Fs Unit := xv6Assert (ictx'.dirty = false)

theorem xv6FindInum_def (p : Ptr) (name : FileName) :
    xv6FindInum p name = xv6FindInumWith modcheck assertClean p name := rfl

theorem xv6Readdir_def (dirEmit : Nat → Bool) (p : Ptr) (pos : Nat) :
    xv6Readdir dirEmit p pos = xv6ReaddirWith modcheck (fun _ _ => pure ()) dirEmit p pos := rfl

theorem xv6DirErase_def (p : Ptr) (name : FileName) :
    xv6DirErase p name = xv6DirEraseWith modcheck assertClean p name := rfl

theorem xv6DirRmtest_def (p : Ptr) :
    xv6DirRmtest p = xv6DirRmtestWith modcheck assertClean p := rfl

theorem initIctx_clean {r : Int × InodeCtx} (h : Runs φ (xv6InitIctx p) w r w') :
    r.2.dirty = false := by
  simp only [xv6InitIctx, runs_bind_getInode] at h
  cases hpriv : (w.inodes p).priv with
  | some addrs =>
    simp only [hpriv] at h
    obtain ⟨rfl, -⟩ := h.pure
    rfl
  | none =>
    simp only [hpriv] at h
    obtain ⟨r₁, w₁, -, hend⟩ := h.bind
    obtain ⟨rfl, -⟩ := hend.pure
    rfl

/-- Nothing is done about a context that is clean and the same. -/
def Passes (verify : InodeCtx → InodeCtx → Fs Unit) : Prop :=
  ∀ ictx, ictx.dirty = false → verify ictx ictx = pure ()

theorem unchanged_passes (changed : Fs Unit) : Passes (unchanged changed) := fun _ hclean =>
  if_pos ⟨fun _ => rfl, rfl, hclean⟩

theorem assertClean_passes : Passes assertClean := fun _ hclean => if_pos hclean

theorem pure_passes : Passes fun _ _ => pure () := fun _ _ => rfl

/-- The search ends with the clean context it starts with, whatever the allocator is. -/
theorem search_eq {verify' : InodeCtx → InodeCtx → Fs Unit} (hc : NoExt cb)
    (hv : Passes verify) (hv' : Passes verify') :
    searchWith (modcheckWith balloc) verify p cb s off failed done =
      searchWith modcheck verify' p cb s off failed done := by
  refine Prog.ext_run fun w => ?_
  simp only [searchWith, iterate_with]
  refine Prog.run_bind_congr fun r w₁ hinit => ?_
  obtain ⟨e, ictx⟩ := r
  have hclean : ictx.dirty = false := initIctx_clean (returns_iff.mpr hinit)
  dsimp only
  split
  · rfl
  refine Prog.run_bind_congr fun r w₂ hiter => ?_
  obtain ⟨e', ictx', s'⟩ := r
  obtain rfl : ictx' = ictx := iterate_same hc hclean (returns_iff.mpr hiter)
  dsimp only
  rw [hv ictx' hclean, hv' ictx' hclean]

theorem inodeBlock_eq (balloc : Nat → Fs (Int × Nat)) (hv : Passes verify) :
    xv6InodeBlockWith (modcheckWith balloc) verify p i = xv6InodeBlock p i := by
  refine Prog.ext_run fun w => ?_
  simp only [xv6InodeBlockWith, xv6InodeBlock, inodeAddr_with]
  refine Prog.run_bind_congr fun r w₁ hinit => ?_
  obtain ⟨e, ictx⟩ := r
  have hclean : ictx.dirty = false := initIctx_clean (returns_iff.mpr hinit)
  dsimp only
  split
  · rfl
  refine Prog.run_bind_congr fun r w₂ haddr => ?_
  obtain ⟨e', b, ictx'⟩ := r
  obtain rfl : ictx' = ictx := inodeAddr_same hclean (returns_iff.mpr haddr)
  have hassert : xv6Assert (ictx'.dirty = false) = pure () := if_pos hclean
  dsimp only
  rw [hv ictx' hclean, hassert]
  rfl

/-! ## What is left of the disk -/

/-- A callback that leaves the entries as they are and asks for no further one. -/
structure Looks (cb : DiterCallback σ) : Prop where
  noExt : NoExt cb
  readOnly : ReadOnly cb

theorem looks_of
    (h : ∀ k de s act de' s', cb k de s = .ok (act, de', s') →
      de' = de ∧ act.deDirty = false ∧ act.dirExt = false) : Looks cb where
  noExt hcb := (h _ _ _ _ _ _ hcb).2.2
  readOnly hcb := ⟨(h _ _ _ _ _ _ hcb).1, (h _ _ _ _ _ _ hcb).2.1⟩

/-- The reads in between are all that has happened. -/
def OnlyLogs (w w' : World) : Prop := ∃ l, w' = { w with log := l }

/-- A run of a search ends at once or is one of the iterator. -/
theorem search_run {b : α} (hc : NoExt cb) (hv : Passes verify)
    (hdone : ∀ e s', ∃ b, done e s' = pure b)
    (h : Runs φ (searchWith modcheck verify p cb s off failed done) w b w') :
    OnlyLogs w w' ∨ ∃ l e s', Runs φ (xv6DirIterate modcheck ⟨w.addrs p, dirSize w p, false⟩ cb s
      off false) { w with log := l } (e, ⟨w.addrs p, dirSize w p, false⟩, s') w' := by
  obtain ⟨⟨e, ictx⟩, w₁, hinit, hrest⟩ := h.bind
  clear h
  obtain ⟨hreads, hictx⟩ := initIctx_reads hinit
  obtain ⟨l, rfl⟩ := hreads.log
  rcases hrest.ite with ⟨-, hend⟩ | ⟨hok, hrest⟩
  · obtain ⟨-, rfl⟩ := hend.pure
    exact .inl ⟨l, rfl⟩
  obtain rfl := hictx (not_not.mp hok)
  obtain ⟨⟨e', ictx', s'⟩, w₂, hiter, hrest⟩ := hrest.bind
  obtain rfl : ictx' = _ := iterate_same hc rfl hiter
  obtain ⟨u, w₃, hback, hend⟩ := hrest.bind
  clear hrest
  have hinodes := iterate_inodes _ hiter
  obtain rfl := writeBack_kept (w := w) hinodes rfl hback
  obtain ⟨b', hb'⟩ := hdone e' s'
  rw [hv _ rfl, hb'] at hend
  simp only [runs_bind_pure] at hend
  obtain ⟨-, rfl⟩ := hend.pure
  exact .inr ⟨l, e', s', hiter⟩

theorem search_readOnly {b : α} (hc : Looks cb) (hv : Passes verify)
    (hdone : ∀ e s', ∃ b, done e s' = pure b)
    (h : Runs φ (searchWith modcheck verify p cb s off failed done) w b w') :
    OnlyLogs w w' := by
  rcases search_run hc.noExt hv hdone h with hlog | ⟨l, e, s', hiter⟩
  · exact hlog
  · obtain ⟨l', rfl⟩ := iterate_readOnly hc.readOnly hiter
    exact ⟨l', rfl⟩

theorem inodeBlock_readOnly {r : Int × Option Nat} (h : Runs φ (xv6InodeBlock p i) w r w') :
    OnlyLogs w w' := by
  rw [← inodeBlock_eq xv6Balloc pure_passes] at h
  simp only [xv6InodeBlockWith, inodeAddr_with] at h
  obtain ⟨⟨e, ictx⟩, w₁, hinit, hrest⟩ := h.bind
  clear h
  obtain ⟨hreads, hictx⟩ := initIctx_reads hinit
  obtain ⟨l, rfl⟩ := hreads.log
  rcases hrest.ite with ⟨-, hend⟩ | ⟨hok, hrest⟩
  · obtain ⟨-, rfl⟩ := hend.pure
    exact ⟨l, rfl⟩
  obtain rfl := hictx (not_not.mp hok)
  obtain ⟨⟨e', b, ictx'⟩, w₂, haddr, hrest⟩ := hrest.bind
  obtain rfl : ictx' = _ := inodeAddr_same rfl haddr
  obtain ⟨-, -, l', rfl⟩ := xv6InodeAddr_read_log haddr
  obtain ⟨u, w₃, hback, hnext⟩ := hrest.bind
  clear hrest
  obtain rfl := writeBack_kept (w := w)
    (show ({ w with log := l' } : World).inodes = w.inodes from rfl) rfl hback
  dsimp only at hnext
  simp only [runs_bind_pure] at hnext
  rcases hnext.ite with ⟨-, hend⟩ | ⟨-, hnext⟩
  · obtain ⟨-, rfl⟩ := hend.pure
    exact ⟨l', rfl⟩
  rcases hnext.ite with ⟨-, hend⟩ | ⟨-, hnext⟩
  · obtain ⟨-, rfl⟩ := hend.pure
    exact ⟨l', rfl⟩
  obtain ⟨ok, w₄, hread, hnext⟩ := hnext.bind
  obtain ⟨-, l'', rfl⟩ := sbBread_spec hread
  rcases hnext.ite with ⟨-, hend⟩ | ⟨-, hend⟩
  · obtain ⟨-, rfl⟩ := hend.pure
    exact ⟨l'', rfl⟩
  · obtain ⟨-, rfl⟩ := hend.pure
    exact ⟨l'', rfl⟩

/-! ## Searches that may end in a hole -/

variable {P : Dirent → Prop} {ext : Bool}

/-- One round of a search: it reads, or meets an entry of the block. -/
theorem body_upto_match (hs : Seeker cb P ext 0) {off lim b : Nat} {act act' : DiterAction}
    (hoff : off ≤ lim)
    (h : Runs φ (xv6DirIterate.body modcheck cb i off lim b act s) w (e, act', s') w') :
    (OnlyReads w w' e ∧ (e = 0 → act'.cont = true → s' = s ∧ ∀ j, off ≤ j → j < lim →
        ¬ P (if b = 0 then Dirent.zero else (w.disk b).dirent j))) ∨
      ∃ j, off ≤ j ∧ j < lim ∧ (∀ m, off ≤ m → m < j → ¬ P ((w.disk b).dirent m)) ∧
        HitAt cb P w b (i * NENTS) j s e act' s' w' := by
  by_cases hb : b = 0
  · simp only [xv6DirIterate.body] at h
    rw [if_pos hb] at h
    obtain ⟨⟨act₁, de, s₁⟩, w₁, hlift, hend⟩ := h.bind
    obtain ⟨hcb, rfl⟩ := hlift.lift
    obtain ⟨hres, rfl⟩ := hend.pure
    cases hres
    refine .inl ⟨.refl w, fun _ hcont => ?_⟩
    simp only [if_pos hb]
    have hnot : ¬ P Dirent.zero := fun hp => by
      rw [hs.hit (Nat.zero_le _) hp hcb] at hcont
      cases hcont
    obtain ⟨act₂, hmiss, -⟩ := hs.miss (i * NENTS) Dirent.zero s hnot
    rw [hmiss] at hcb
    cases hcb
    exact ⟨rfl, fun _ _ _ => hnot⟩
  · rcases body_spec hs (Nat.zero_le _) hoff (fun hz => absurd hz hb) h with
      ⟨hreads, hs', hmiss⟩ | hhit
    · refine .inl ⟨hreads, fun h0 _ => ⟨hs', ?_⟩⟩
      simp only [if_neg hb]
      exact (hmiss h0).2.2 hb
    · exact .inr hhit

/-- The loop of a search, over a directory of any size and with any holes. -/
theorem blocks_upto_match (hs : Seeker cb P ext 0) :
    ∀ (rounds i off size : Nat) {act act' : DiterAction} {dir dir' : InodeCtx} {s s' : σ} {e : Int}
      {w : World}, off < NENTS →
      Runs φ (xv6DirIterate.blocks modcheck cb false rounds i off size act dir s) w
        (e, act', dir', s') w' →
      OnlyLogs w w' ∨
        ∃ k, i * NENTS + off ≤ k ∧ k < i * NENTS + off + size ∧
          (∀ m, i * NENTS + off ≤ m → m < k → ¬ P (dslot w.disk dir.addrs m)) ∧
          HitAt cb P w (bmap w.disk dir.addrs (k / NENTS)) (k / NENTS * NENTS) (k % NENTS) s
            e act' s' w'
  | 0, _, _, _, _, _, _, _, _, _, _, _, _, h => h.halt.elim
  | rounds + 1, i, off, size, act, act', dir, dir', s, s', e, w, hoff, h => by
    obtain ⟨⟨e₁, b, dir₁⟩, w₁, haddr, hrest⟩ := h.bind
    clear h
    have hmono₁ := haddr.mono
    by_cases hi : i < MAXFILE
    · obtain ⟨rfl, hr₁, hb⟩ := xv6InodeAddr_read hi haddr
      rcases hrest.ite with ⟨-, hend⟩ | ⟨heq, hrest⟩
      · obtain ⟨hres, rfl⟩ := hend.pure
        exact .inl hr₁.log
      obtain rfl : e₁ = 0 := not_not.mp heq
      obtain rfl := hb rfl
      obtain ⟨l₁, rfl⟩ := hr₁.log
      generalize hlim : xv6Min NENTS (size + off) = lim at hrest
      have hmin : lim = min NENTS (size + off) := hlim.symm.trans (xv6Min_eq_min _ _)
      obtain ⟨⟨e₂, act₂, s₂⟩, w₂, hbody, hnext⟩ := hrest.bind
      clear hrest
      have hmono₂ := hbody.mono
      rcases body_upto_match hs (by omega) hbody with ⟨hr₂, hmiss⟩ | ⟨j, hj, hj', hbefore, hhit⟩
      · have hr := hr₁.trans hmono₁ hmono₂ hr₂
        have hle := le_trans hmono₁ hmono₂
        rcases hnext.ite with ⟨-, hend⟩ | ⟨hgo, hmany⟩
        · obtain ⟨-, rfl⟩ := hend.pure
          exact .inl hr.log
        rcases hmany.ite with ⟨-, hend⟩ | ⟨hmore, hlater⟩
        · obtain ⟨-, rfl⟩ := hend.pure
          exact .inl hr.log
        obtain ⟨hcont, h0⟩ : act₂.cont = true ∧ e₂ = 0 := by simpa using hgo
        obtain rfl := h0
        obtain ⟨rfl, hnone⟩ := hmiss rfl hcont
        obtain ⟨l₂, rfl⟩ := hr.log
        have hsucc : (i + 1) * NENTS = i * NENTS + NENTS := Nat.succ_mul i NENTS
        have hpassed : ∀ m, i * NENTS + off ≤ m → m < (i + 1) * NENTS →
            ¬ P (dslot w.disk dir.addrs m) := fun m hm hm' => by
          obtain ⟨j, rfl⟩ : ∃ j, m = i * NENTS + j := ⟨m - i * NENTS, by omega⟩
          rw [dslot_eq w.disk dir.addrs (by omega)]
          exact hnone j (by omega) (by omega)
        rcases blocks_upto_match hs rounds (i + 1) 0 (size - (lim - off))
          (w := { w with log := l₂ }) (by decide) hlater with ⟨l, rfl⟩ | ⟨k, hk, hk', hbefore, hhit⟩
        · exact .inl ⟨l, rfl⟩
        · refine .inr ⟨k, by omega, by omega, fun m hm hm' => ?_, hhit.prepend hle hr⟩
          by_cases hlt : m < (i + 1) * NENTS
          · exact hpassed m hm hlt
          · exact hbefore m (by omega) hm'
      · have hnz := hhit.nonzero
        have hstop := hhit.stop
        rcases hnext.ite with ⟨-, hend⟩ | ⟨hgo, -⟩
        · obtain ⟨hres, rfl⟩ := hend.pure
          cases hres
          exact .inr ⟨i * NENTS + j, by omega, by omega, not_before (by omega) hnz hbefore,
            (hhit.prepend hmono₁ hr₁).entry (by omega)⟩
        · exact absurd (.inl (by rw [hstop]; rfl)) hgo
    · obtain ⟨rfl, -, -, rfl⟩ := xv6InodeAddr_big (not_lt.mp hi) haddr
      rcases hrest.ite with ⟨-, hend⟩ | ⟨heq, -⟩
      · obtain ⟨-, rfl⟩ := hend.pure
        exact .inl ⟨_, rfl⟩
      · exact absurd (by decide) heq

/-- A search without allocation changes nothing before the first entry it stops at. -/
theorem iterate_upto_match (hs : Seeker cb P ext 0) (hc : NoExt cb)
    (h : Runs φ (xv6DirIterate modcheck dir cb s off false) w (e, dir', s') w') :
    OnlyLogs w w' ∨ ∃ k act, off ≤ k ∧ k < dir.size / 16 ∧
      (∀ m, off ≤ m → m < k → ¬ P (dslot w.disk dir.addrs m)) ∧
      HitAt cb P w (bmap w.disk dir.addrs (k / NENTS)) (k / NENTS * NENTS) (k % NENTS) s
        e act s' w' := by
  simp only [xv6DirIterate, runs_bind_assert] at h
  obtain ⟨-, h⟩ := h
  rcases h.ite with ⟨-, hend⟩ | ⟨hin, hrest⟩
  · obtain ⟨-, rfl⟩ := hend.pure
    exact .inl ⟨_, rfl⟩
  obtain ⟨⟨e₁, act, dir₁, s₁⟩, w₁, hblocks, hnext⟩ := hrest.bind
  have hpos : off / NENTS * NENTS + off % NENTS = off := Nat.div_add_mod' off NENTS
  have hout := blocks_upto_match hs _ _ _ _ (Nat.mod_lt _ (by decide)) hblocks
  rw [hpos, Nat.add_sub_cancel' (not_lt.mp hin)] at hout
  rcases hnext.ite with ⟨⟨-, -, hext⟩, -⟩ | ⟨-, hend⟩
  · rw [blocks_noExt hc rfl hblocks] at hext
    cases hext
  · obtain ⟨hres, rfl⟩ := hend.pure
    cases hres
    rcases hout with hlog | ⟨k, hk, hk', hbefore, hhit⟩
    · exact .inl hlog
    · exact .inr ⟨k, act, hk, hk', hbefore, hhit⟩

end

/-! ## The callbacks of dir.c -/

theorem deFind_looks (name : FileName) : Looks (deFindCallback name) := by
  refine looks_of fun k de s act de' s' h => ?_
  unfold deFindCallback at h
  split at h <;> cases h <;> exact ⟨rfl, rfl, rfl⟩

theorem rmtestCallback_looks : Looks rmtestCallback := by
  refine looks_of fun k de s act de' s' h => ?_
  simp only [rmtestCallback] at h
  repeat' split at h
  all_goals cases h
  all_goals exact ⟨rfl, rfl, rfl⟩

theorem readdir_looks (dirEmit : Nat → Bool) : Looks (readdirCallback dirEmit) := by
  refine looks_of fun k de s act de' s' h => ?_
  simp only [readdirCallback] at h
  repeat' split at h
  all_goals
    cases h
    exact ⟨rfl, rfl, rfl⟩

theorem deErase_noExt (name : FileName) : NoExt (deEraseCallback name) := by
  intro k de s act de' s' h
  unfold deEraseCallback at h
  split at h <;> cases h <;> rfl

/-! ## What they leave -/

/-- The 16 bytes of the first entry of the name are overwritten. -/
def ErasesFirst (w : World) (dir : Ptr) (name : FileName) (w' : World) : Prop :=
  ∃ k l, FirstMatch w.disk (w.addrs dir) (dirSize w dir) name k ∧
    bmap w.disk (w.addrs dir) (k / NENTS) ≠ 0 ∧
    w' = { w with
      disk := Function.update w.disk (bmap w.disk (w.addrs dir) (k / NENTS))
        ((w.disk (bmap w.disk (w.addrs dir) (k / NENTS))).setDirent (k % NENTS) Dirent.erased)
      log := l }

section

variable {φ : Event → Prop} {w w' : World} {p : Ptr} {name : FileName} {e : Int}

theorem findInum_readOnly {r : Int × Nat × Dirent} (h : Runs φ (xv6FindInum p name) w r w') :
    OnlyLogs w w' := by
  rw [xv6FindInum_def] at h
  simp only [xv6FindInumWith, runs_bind_getInode] at h
  rcases h.ite with ⟨-, hend⟩ | ⟨-, h⟩
  · obtain ⟨-, rfl⟩ := hend.pure
    exact ⟨_, rfl⟩
  · exact search_readOnly (deFind_looks name) assertClean_passes (fun _ _ => ⟨_, rfl⟩) h

theorem readdir_readOnly {dirEmit : Nat → Bool} {pos : Nat} {r : Int × DirContext}
    (h : Runs φ (xv6Readdir dirEmit p pos) w r w') : OnlyLogs w w' := by
  rw [xv6Readdir_def] at h
  simp only [xv6ReaddirWith, runs_bind_getInode] at h
  rcases h.ite with ⟨-, hend⟩ | ⟨-, h⟩
  · obtain ⟨-, rfl⟩ := hend.pure
    exact ⟨_, rfl⟩
  · exact search_readOnly (readdir_looks dirEmit) pure_passes (fun _ _ => ⟨_, rfl⟩) h

theorem rmtest_readOnly (h : Runs φ (xv6DirRmtest p) w e w') : OnlyLogs w w' := by
  rw [xv6DirRmtest_def] at h
  refine search_readOnly rmtestCallback_looks assertClean_passes (fun e s => ?_) h
  by_cases he : e = 0
  · exact ⟨_, if_neg (not_not.mpr he)⟩
  · exact ⟨_, if_pos he⟩

/-- Erasing overwrites the first entry of the name, if anything. -/
theorem dirErase_first_or_nothing (h : Runs φ (xv6DirErase p name) w e w') :
    OnlyLogs w w' ∨ ErasesFirst w p name w' := by
  rw [xv6DirErase_def] at h
  simp only [xv6DirEraseWith, runs_bind_getInode] at h
  rcases h.ite with ⟨-, hend⟩ | ⟨-, h⟩
  · obtain ⟨-, rfl⟩ := hend.pure
    exact .inl ⟨_, rfl⟩
  rcases search_run (deErase_noExt name) assertClean_passes (fun _ _ => ⟨_, rfl⟩) h with
    hlog | ⟨l, e', s', hiter⟩
  · exact .inl hlog
  rcases iterate_upto_match (deErase_seeker name) (deErase_noExt name) hiter with
    ⟨l', rfl⟩ | ⟨k, act, hk, hk', hbefore, hnz, hsat, -, de, hcb, hdone⟩
  · exact .inl ⟨l', rfl⟩
  rw [deEraseCallback, if_pos (show strncmpEq name _ = true from hsat)] at hcb
  cases hcb
  rcases hdone with ⟨-, l', f, -, -, -, rfl⟩ | ⟨hclean, -⟩
  · have hmatch : FirstMatch w.disk (w.addrs p) (dirSize w p) name k := by
      refine ⟨hk, hk', ?_, hbefore⟩
      unfold dslot fblock
      rw [if_neg hnz]
      exact hsat
    unfold Fate.store
    split
    · exact .inl ⟨_, rfl⟩
    · exact .inr ⟨k, _, hmatch, hnz, rfl⟩
  · cases hclean

end

/-- Searching, listing, testing, erasing and reading a block call no allocator and end with the
    context they start with, which is clean; erasing alone modifies a block, and there only the
    first entry of the name. -/
theorem searches_leave_inode (p : Ptr) :
    (∀ balloc changed,
      (∀ name, xv6FindInumWith (modcheckWith balloc) (unchanged changed) p name =
        xv6FindInum p name) ∧
      (∀ dirEmit pos, xv6ReaddirWith (modcheckWith balloc) (unchanged changed) dirEmit p pos =
        xv6Readdir dirEmit p pos) ∧
      xv6DirRmtestWith (modcheckWith balloc) (unchanged changed) p = xv6DirRmtest p ∧
      (∀ name, xv6DirEraseWith (modcheckWith balloc) (unchanged changed) p name =
        xv6DirErase p name) ∧
      ∀ i, xv6InodeBlockWith (modcheckWith balloc) (unchanged changed) p i = xv6InodeBlock p i) ∧
    ∀ w w',
      (∀ name r, Returns (xv6FindInum p name) w r w' → OnlyLogs w w') ∧
      (∀ dirEmit pos r, Returns (xv6Readdir dirEmit p pos) w r w' → OnlyLogs w w') ∧
      (∀ e, Returns (xv6DirRmtest p) w e w' → OnlyLogs w w') ∧
      (∀ i r, Returns (xv6InodeBlock p i) w r w' → OnlyLogs w w') ∧
      ∀ name e, Returns (xv6DirErase p name) w e w' → OnlyLogs w w' ∨ ErasesFirst w p name w' := by
  refine ⟨fun balloc changed => ⟨fun name => ?_, fun dirEmit pos => ?_, ?_, fun name => ?_,
    fun i => inodeBlock_eq balloc (unchanged_passes changed)⟩, fun w w' => ?_⟩
  · rw [xv6FindInum_def, xv6FindInumWith, xv6FindInumWith,
      search_eq (deFind_looks name).noExt (unchanged_passes changed) assertClean_passes]
  · rw [xv6Readdir_def, xv6ReaddirWith, xv6ReaddirWith,
      search_eq (readdir_looks dirEmit).noExt (unchanged_passes changed) pure_passes]
  · exact search_eq rmtestCallback_looks.noExt (unchanged_passes changed) assertClean_passes
  · rw [xv6DirErase_def, xv6DirEraseWith, xv6DirEraseWith,
      search_eq (deErase_noExt name) (unchanged_passes changed) assertClean_passes]
  · exact ⟨fun name r => findInum_readOnly, fun dirEmit pos r => readdir_readOnly,
      fun e => rmtest_readOnly, fun i r => inodeBlock_readOnly,
      fun name e => dirErase_first_or_nothing⟩

/-- A directory of three entries. -/
def threeEntriesDir : World :=
  oneBlockDir (Block.setDirent 2 ⟨2, strncpy entryA.name⟩ dotsBlock) (oneBlock 20) 48

theorem searches_leave_inode_threeEntries :
    OnlyLogs threeEntriesDir (threeEntriesDir.after (xv6DirRmtest 0)) ∧
    ErasesFirst threeEntriesDir 0 entryA.name
      (threeEntriesDir.after (xv6DirErase 0 entryA.name)) := by
  obtain ⟨-, -, hrmtest, -⟩ := (searches_leave_inode 0).2 threeEntriesDir
    (threeEntriesDir.after (xv6DirRmtest 0))
  obtain ⟨-, -, -, -, herase⟩ := (searches_leave_inode 0).2 threeEntriesDir
    (threeEntriesDir.after (xv6DirErase 0 entryA.name))
  refine ⟨hrmtest (-ENOTEMPTY) (returns_after (by decide +kernel)), ?_⟩
  refine (herase entryA.name 0 (returns_after (by decide +kernel))).resolve_left ?_
  rintro ⟨l, hlog⟩
  have hbyte : (threeEntriesDir.after (xv6DirErase 0 entryA.name)).disk 20 32 =
      threeEntriesDir.disk 20 32 := by rw [hlog]
  revert hbyte
  decide +kernel

end Xv6fs
