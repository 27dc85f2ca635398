/-
  When `xv6_lookup` says that a name is absent.

  `xv6_find_inum` reports its findings in three parts: a position, a status and an entry. The
  position is 0 when no entry matches, when the search could not be ended, and when the match is the
  first entry; `xv6_lookup` looks at the position first. `blocks_sought` follows the search over
  directories of any size with any pattern of failing reads, and `lookup_honest_iff` says when the
  answer is right.
-/
import Xv6fs.Dir.Listing
import Xv6fs.Super.Checker

namespace Xv6fs

section

variable {σ : Type} {cb : DiterCallback σ} {p : Dirent → Prop} {lo : Nat}

/-- A search that leaves the entry it finds as it is. -/
structure Finder (cb : DiterCallback σ) (p : Dirent → Prop) (lo : Nat) : Prop
    extends Seeker cb p false lo where
  zero : ¬ p Dirent.zero
  clean : ∀ {k de s act de' s'}, p de → cb k de s = .ok (act, de', s') →
    de' = de ∧ act.deDirty = false

/-- What a search of the entries from `lo` to `hi` comes to, and the reads of blocks it made. -/
inductive Sought (cb : DiterCallback σ) (p : Dirent → Prop) (evs : List Event) (w : World)
    (addrs : Addrs) (lo hi : Nat) (s : σ) : Int → σ → World → Prop where
  /-- every block has been read, and no entry satisfies `p` -/
  | missed {w' : World} (hf : Faultless w w') (hmax : hi ≤ MAXFILE * NENTS)
      (hall : ∀ k, lo ≤ k → k < hi → ¬ p (dslot w.disk addrs k))
      (hread : ∀ j, lo < (j + 1) * NENTS → j * NENTS < hi → ∀ x, BlockOf w.disk addrs j x →
        .bread x .ok ∈ evs) : Sought cb p evs w addrs lo hi s 0 s w'
  /-- entry `k` is the first that satisfies `p` -/
  | hit {k : Nat} {act : DiterAction} {s' : σ} {w' : World} (hf : Faultless w w') (hk : lo ≤ k)
      (hk' : k < hi) (hmax : k < MAXFILE * NENTS) (hp : p (dslot w.disk addrs k))
      (hbefore : ∀ m, lo ≤ m → m < k → ¬ p (dslot w.disk addrs m))
      (hcb : cb k (dslot w.disk addrs k) s = .ok (act, dslot w.disk addrs k, s')) :
      Sought cb p evs w addrs lo hi s 0 s' w'
  /-- a block cannot be read -/
  | failed {e : Int} {w' : World} (he : e ≠ 0) (hf : ¬ Faultless w w') :
      Sought cb p evs w addrs lo hi s e s w'
  /-- there are more entries than a directory can have -/
  | big {w' : World} (hf : Faultless w w') (hbig : MAXFILE * NENTS < hi)
      (hall : ∀ k, lo ≤ k → k < MAXFILE * NENTS → ¬ p (dslot w.disk addrs k)) :
      Sought cb p evs w addrs lo hi s (-EFBIG) s w'

variable {evs : List Event} {w w' : World} {s s' : σ} {e : Int}

/-! ## One block -/

/-- A block of the directory is read before its entries are looked at. -/
theorem body_event {i off lim b : Nat} {act : DiterAction} {r : Int × DiterAction × σ}
    (hb : b ≠ 0)
    (h : Runs (· ∈ evs) (xv6DirIterate.body modcheck cb i off lim b act s) w r w') :
    r.1 = 0 → .bread b .ok ∈ evs := by
  simp only [xv6DirIterate.body, modcheck, if_neg hb] at h
  obtain ⟨ok, w₁, hread, hend⟩ := h.bind
  have hev := (modcheck_reading.bread hread).1
  rcases hend.ite with ⟨-, hend⟩ | ⟨hok, -⟩
  · obtain ⟨rfl, -⟩ := hend.pure
    exact fun h0 => absurd h0 (show (- EIO : Int) ≠ 0 by decide)
  · exact fun _ => hev (by simpa using hok)

/-- What one round comes to. -/
theorem body_sought (hs : Finder cb p lo) {i off lim b : Nat} {act act' : DiterAction}
    {addrs : Addrs} (hlo : lo ≤ i * NENTS + off) (hoff : off < lim) (hlim : lim ≤ NENTS)
    (hb : b = bmap w.disk addrs i)
    (h : Runs (· ∈ evs) (xv6DirIterate.body modcheck cb i off lim b act s) w (e, act', s') w') :
    (∃ l, w' = { w with log := l }) ∧
      (((e ≠ 0 ∧ s' = s ∧ ¬ Faultless w w') ∨
        (e = 0 ∧ s' = s ∧ act'.cont = true ∧ act'.dirExt = false ∧ Faultless w w' ∧
          (b ≠ 0 → .bread b .ok ∈ evs) ∧
          ∀ k, i * NENTS + off ≤ k → k < i * NENTS + lim → ¬ p (dslot w.disk addrs k))) ∨
        (e = 0 ∧ act'.cont = false ∧ Faultless w w' ∧ ∃ k, i * NENTS + off ≤ k ∧
          k < i * NENTS + lim ∧ p (dslot w.disk addrs k) ∧
          (∀ m, i * NENTS + off ≤ m → m < k → ¬ p (dslot w.disk addrs m)) ∧
          cb k (dslot w.disk addrs k) s = .ok (act', dslot w.disk addrs k, s'))) := by
  have hslot : ∀ j, j < NENTS → dslot w.disk addrs (i * NENTS + j) =
      if b = 0 then Dirent.zero else (w.disk b).dirent j := by
    rw [hb]
    exact fun j hj => dslot_eq w.disk addrs hj
  rcases body_spec hs.toSeeker hlo hoff.le (fun _ => hs.zero) h with
    ⟨hr, rfl, hmiss⟩ | ⟨j, hj, hj', hbefore, hhit⟩
  · refine ⟨hr.log, .inl ?_⟩
    by_cases h0 : e = 0
    · subst h0
      obtain ⟨hcont, hext⟩ := (hmiss rfl).1 (.inl hoff)
      refine .inr ⟨rfl, rfl, hcont, hext, hr.error.mp rfl, fun hz => body_event hz h rfl,
        fun k hk hk' => ?_⟩
      obtain ⟨j, rfl⟩ : ∃ j, k = i * NENTS + j := ⟨k - i * NENTS, by omega⟩
      rw [hslot j (by omega)]
      by_cases hz : b = 0
      · rw [if_pos hz]
        exact hs.zero
      · rw [if_neg hz]
        exact (hmiss rfl).2.2 hz j (by omega) (by omega)
    · exact .inl ⟨h0, rfl, fun hf => h0 (hr.error.mpr hf)⟩
  · obtain ⟨hz, hsat, hstop, de, hcb, hdone⟩ := hhit
    obtain ⟨rfl, hclean⟩ := hs.clean hsat hcb
    rcases hdone with ⟨hdirty, -⟩ | ⟨-, rfl, l, -, hr, rfl⟩
    · rw [hclean] at hdirty
      cases hdirty
    rw [Block.setDirent_dirent, Function.update_eq_self] at *
    have hat : dslot w.disk addrs (i * NENTS + j) = (w.disk b).dirent j := by
      rw [hslot j (by omega), if_neg hz]
    refine ⟨⟨l, rfl⟩, .inr ⟨rfl, hstop, hr.error.mp rfl, i * NENTS + j, by omega, by omega,
      by rwa [hat], fun m hm hm' => ?_, by rw [hat]; exact hcb⟩⟩
    obtain ⟨m', rfl⟩ : ∃ m', m = i * NENTS + m' := ⟨m - i * NENTS, by omega⟩
    rw [hslot m' (by omega), if_neg hz]
    exact hbefore m' (by omega) (by omega)

/-! ## The loop -/

theorem Sought.prepend {w₀ : World} {addrs : Addrs} {i off hi : Nat} (hle : w ≤ w₀)
    (hle' : w₀ ≤ w') (hlog : ∃ l, w₀ = { w with log := l }) (hf : Faultless w w₀)
    (hoff : off ≤ NENTS)
    (hround : ∀ k, i * NENTS + off ≤ k → k < (i + 1) * NENTS → ¬ p (dslot w.disk addrs k))
    (hread : ∀ x, BlockOf w.disk addrs i x → .bread x .ok ∈ evs)
    (h : Sought cb p evs w₀ addrs ((i + 1) * NENTS) hi s e s' w') :
    Sought cb p evs w addrs (i * NENTS + off) hi s e s' w' := by
  obtain ⟨l, rfl⟩ := hlog
  have hsplit : ∀ {k}, i * NENTS + off ≤ k → ¬ (i + 1) * NENTS ≤ k →
      ¬ p (dslot w.disk addrs k) := fun hk hk' => hround _ hk (not_le.mp hk')
  cases h with
  | missed hf' hmax hall hread' =>
    refine .missed ((faultless_split hle hle').mpr ⟨hf, hf'⟩) hmax (fun k hk hk' => ?_)
      fun j hj hj' => ?_
    · by_cases hge : (i + 1) * NENTS ≤ k
      · exact hall k hge hk'
      · exact hsplit hk hge
    · by_cases hij : j = i
      · rw [hij]
        exact hread
      · refine hread' j ?_ hj'
        simp only [NENTS] at hj ⊢
        omega
  | hit hf' hk hk' hmax hp hbefore hcb =>
    refine .hit ((faultless_split hle hle').mpr ⟨hf, hf'⟩) ?_ hk' hmax hp (fun m hm hm' => ?_) hcb
    · rw [Nat.succ_mul] at hk
      omega
    · by_cases hge : (i + 1) * NENTS ≤ m
      · exact hbefore m hge hm'
      · exact hsplit hm hge
  | failed he hf' => exact .failed he fun hf => hf' ((faultless_split hle hle').mp hf).2
  | big hf' hbig hall =>
    refine .big ((faultless_split hle hle').mpr ⟨hf, hf'⟩) hbig fun k hk hk' => ?_
    by_cases hge : (i + 1) * NENTS ≤ k
    · exact hall k hge hk'
    · exact hsplit hk hge

/-- The search of the entries from `i * NENTS + off` on, `size` of them. -/
theorem blocks_sought (hs : Finder cb p lo) :
    ∀ (rounds i off size : Nat) {act act' : DiterAction} {dir dir' : InodeCtx} {s s' : σ} {e : Int}
      {w w' : World}, lo ≤ i * NENTS + off → off < NENTS → size ≠ 0 →
      Runs (· ∈ evs) (xv6DirIterate.blocks modcheck cb false rounds i off size act dir s) w
        (e, act', dir', s') w' →
      (∃ l, w' = { w with log := l }) ∧ dir'.addrs = dir.addrs ∧
        (dir.dirty = false → dir'.dirty = false) ∧
        (e = 0 → act'.cont = true → act'.dirExt = false) ∧
        Sought cb p evs w dir.addrs (i * NENTS + off) (i * NENTS + (off + size)) s e s' w'
  | 0, _, _, _, _, _, _, _, _, _, _, _, _, _, _, _, h => h.halt.elim
  | rounds + 1, i, off, size, act, act', dir, dir', s, s', e, w, w', hlo, hoff, hsize, h => by
    simp only [xv6DirIterate.blocks] at h
    obtain ⟨⟨e₁, b, dir₁⟩, w₁, haddr, hnext⟩ := h.bind
    clear h
    by_cases hi : MAXFILE ≤ i
    · obtain ⟨rfl, -, rfl, rfl⟩ := xv6InodeAddr_big hi haddr
      have hbig : -EFBIG ≠ 0 := by decide
      have hge : MAXFILE * NENTS ≤ i * NENTS := Nat.mul_le_mul_right _ hi
      rcases hnext.ite with ⟨-, h⟩ | ⟨hno, -⟩
      · obtain ⟨hres, rfl⟩ := h.pure
        cases hres
        exact ⟨⟨_, rfl⟩, rfl, id, fun h0 => absurd h0 hbig, .big (faultless_refl _) (by omega)
          fun k hk hk' => absurd hk' (by omega)⟩
      · exact absurd hbig hno
    have hle := haddr.mono
    obtain ⟨-, -, -, hind⟩ := inodeAddr_reads modcheck_reading (not_le.mp hi) haddr
    obtain ⟨rfl, hr₁, hb⟩ := xv6InodeAddr_read (not_le.mp hi) haddr
    obtain ⟨l₁, rfl⟩ := hr₁.log
    rcases hnext.ite with ⟨hne, h⟩ | ⟨heq, h⟩
    · obtain ⟨hres, rfl⟩ := h.pure
      cases hres
      exact ⟨⟨_, rfl⟩, rfl, fun _ => rfl, fun h0 => absurd h0 hne,
        .failed hne fun hf => hne (hr₁.error.mpr hf)⟩
    obtain rfl : e₁ = 0 := not_not.mp heq
    obtain rfl := hb rfl
    have hf₁ := hr₁.error.mp rfl
    clear hnext hb
    obtain ⟨⟨e₂, act₂, s₂⟩, w₂, hbody, hnext⟩ := h.bind
    clear h
    have hle₂ := hbody.mono
    have hmin : xv6Min NENTS (size + off) = min NENTS (size + off) := xv6Min_eq_min ..
    have hmul : (i + 1) * NENTS = i * NENTS + NENTS := Nat.succ_mul i NENTS
    have hlt : off < xv6Min NENTS (size + off) := by omega
    have hlim : xv6Min NENTS (size + off) ≤ NENTS := by omega
    have hlast : (i + 1) * NENTS ≤ MAXFILE * NENTS := Nat.mul_le_mul_right _ (not_le.mp hi)
    obtain ⟨⟨l₂, rfl⟩, hround⟩ := body_sought (b := bmap w.disk dir.addrs i)
      (w := { w with log := l₁ }) hs hlo hlt hlim rfl hbody
    have hsplit := faultless_split hle hle₂
    rcases hround with (⟨hne, rfl, hbad⟩ | ⟨rfl, rfl, hcont, hext, hf₂, hev, hmiss⟩) |
      ⟨rfl, hstop, hf₂, k, hk, hk', hp, hbefore, hcb⟩
    · rcases hnext.ite with ⟨-, h⟩ | ⟨hgo, -⟩
      · obtain ⟨hres, rfl⟩ := h.pure
        cases hres
        exact ⟨⟨_, rfl⟩, rfl, fun _ => rfl, fun h0 => absurd h0 hne,
          .failed hne fun hf => hbad (hsplit.mp hf).2⟩
      · exact absurd (.inr hne) hgo
    · have hread : ∀ x, BlockOf w.disk dir.addrs i x → .bread x .ok ∈ evs := by
        rintro x ⟨hx, rfl | hx'⟩
        · exact hev hx
        · exact hind x ⟨hx, hx'⟩ rfl
      have hf := hsplit.mpr ⟨hf₁, hf₂⟩
      rcases hnext.ite with ⟨hstop, -⟩ | ⟨-, h⟩
      · rw [hcont] at hstop
        exact absurd hstop (by simp)
      rcases h.ite with ⟨hdone, h⟩ | ⟨hmore, h⟩
      · obtain ⟨hres, rfl⟩ := h.pure
        cases hres
        refine ⟨⟨_, rfl⟩, rfl, fun _ => rfl, fun _ _ => hext, .missed hf (by omega)
          (fun k hk hk' => ?_) fun j hj hj' => ?_⟩
        · exact hmiss k hk (by omega)
        · have hij : j = i := by
            simp only [NENTS] at *
            omega
          rw [hij]
          exact hread
      · have hfull : xv6Min NENTS (size + off) = NENTS := by omega
        rw [hfull] at h hmore hmiss
        have hle₃ := h.mono
        obtain ⟨hlog, haddrs, hdirty, hext', hrest⟩ := blocks_sought hs rounds (i + 1) 0
          (size - (NENTS - off)) (by omega) (by decide) hmore h
        obtain ⟨l, rfl⟩ := hlog
        refine ⟨⟨l, rfl⟩, haddrs, fun _ => hdirty rfl, hext', ?_⟩
        have hend : (i + 1) * NENTS + (0 + (size - (NENTS - off))) = i * NENTS + (off + size) := by
          omega
        rw [hend] at hrest
        exact hrest.prepend (le_trans hle hle₂) hle₃ ⟨_, rfl⟩ hf hoff.le
          (fun k hk hk' => hmiss k hk (by omega)) hread
    · rcases hnext.ite with ⟨-, h⟩ | ⟨hgo, -⟩
      · obtain ⟨hres, rfl⟩ := h.pure
        cases hres
        exact ⟨⟨_, rfl⟩, rfl, fun _ => rfl, fun _ hcont => absurd (hstop.symm.trans hcont)
          (by decide), .hit (hsplit.mpr ⟨hf₁, hf₂⟩) hk (by omega) (by omega) hp hbefore
            hcb⟩
      · rw [hstop] at hgo
        exact absurd (.inl rfl) hgo

/-- The same search, after some reads that did not fail. -/
theorem Sought.later {l : List Event} {addrs : Addrs} {hi : Nat} (hle : w ≤ { w with log := l })
    (hf : Faultless w { w with log := l }) (hle' : { w with log := l } ≤ w')
    (h : Sought cb p evs { w with log := l } addrs lo hi s e s' w') :
    Sought cb p evs w addrs lo hi s e s' w' := by
  have hsplit := faultless_split hle hle'
  cases h with
  | missed hf' hmax hall hread => exact .missed (hsplit.mpr ⟨hf, hf'⟩) hmax hall hread
  | hit hf' hk hk' hmax hp hbefore hcb =>
    exact .hit (hsplit.mpr ⟨hf, hf'⟩) hk hk' hmax hp hbefore hcb
  | failed he hf' => exact .failed he fun h => hf' (hsplit.mp h).2
  | big hf' hbig hall => exact .big (hsplit.mpr ⟨hf, hf'⟩) hbig hall

end

/-! ## The search for a name -/

/-- `inode.size`, a `uint`. -/
def dirSize (w : World) (dir : Ptr) : Nat := (w.inodes dir).size % 2 ^ 32

/-- The entries a directory can have, of those its size covers. -/
def dirEntries (w : World) (dir : Ptr) : Nat := min (dirSize w dir / 16) (MAXFILE * NENTS)

section

variable {φ : Event → Prop} {evs : List Event} {w w' : World} {dir : Ptr} {name : FileName}
  {e : Int} {k : Nat} {de : Dirent}

theorem deFind_finder (hname : NameOk name) : Finder (deFindCallback name) (Matches name) 0 where
  toSeeker := deFind_seeker name
  zero := not_matches_zero hname
  clean hp h := by
    rw [deFindCallback, if_pos (show strncmpEq name _ = true from hp)] at h
    cases h
    exact ⟨rfl, rfl⟩

/-- The search for a name fails at once, or is one of all the entries. -/
theorem findInum_blocks (hname : NameOk name) (hfmt : (w.inodes dir).fmt = .dir)
    (h : Runs (· ∈ evs) (xv6FindInum dir name) w (e, k, de) w') :
    (e ≠ 0 ∧ OnlyReads w w' e ∧ (k, de) = (0, Dirent.zero)) ∨
      ∃ l act dir' l', WholeEntries (dirSize w dir) ∧ OnlyReads w { w with log := l } 0 ∧
        Runs (· ∈ evs) (xv6InitIctx dir) w (0, ⟨w.addrs dir, dirSize w dir, false⟩)
          { w with log := l } ∧
        Runs (· ∈ evs) (xv6DirIterate.blocks modcheck (deFindCallback name) false (MAXFILE + 1) 0 0
          (dirSize w dir / 16) .init ⟨w.addrs dir, dirSize w dir, false⟩ (0, Dirent.zero))
          { w with log := l } (e, act, dir', k, de) { w with log := l' } ∧
        w' = { w with log := l' } := by
  simp only [xv6FindInum, runs_bind_getInode] at h
  rcases h.ite with ⟨hno, -⟩ | ⟨-, h⟩
  · exact absurd hfmt hno
  obtain ⟨⟨e₀, ctx⟩, w₀, hinit, hnext⟩ := h.bind
  clear h
  obtain ⟨hr, hctx⟩ := initIctx_reads hinit
  obtain ⟨l, rfl⟩ := hr.log
  rcases hnext.ite with ⟨hne, h⟩ | ⟨heq, h⟩
  · obtain ⟨hres, rfl⟩ := h.pure
    cases hres
    exact .inl ⟨hne, hr, rfl⟩
  obtain rfl : e₀ = 0 := not_not.mp heq
  obtain rfl := hctx rfl
  clear hnext heq
  obtain ⟨⟨e₁, ctx', s'⟩, w₁, hiter, h⟩ := h.bind
  simp only [xv6DirIterate, runs_bind_assert] at hiter
  obtain ⟨hwhole, hiter⟩ := hiter
  rcases hiter.ite with ⟨hend, -⟩ | ⟨-, hiter⟩
  · exact absurd hend (Nat.not_lt_zero _)
  obtain ⟨⟨e₂, act, dir₂, s₂⟩, w₂, hblocks, hext⟩ := hiter.bind
  obtain ⟨⟨l₂, rfl⟩, haddrs, -, hstop, -⟩ := blocks_sought (deFind_finder hname) _ _ _ _
    (Nat.zero_le _) (by decide) (by omega) hblocks
  -- the callback never asks for one more entry
  rcases hext.ite with ⟨⟨h0, hcont, hdir⟩, -⟩ | ⟨-, hend⟩
  · rw [hstop h0 hcont] at hdir
    cases hdir
  obtain ⟨hres, rfl⟩ := hend.pure
  cases hres
  obtain ⟨u, w₃, hwb, h⟩ := h.bind
  obtain rfl := (runs_modifyInode _ _ _ _ _).mp hwb
  simp only [runs_bind_assert] at h
  obtain ⟨hres, rfl⟩ := h.2.pure
  cases hres
  refine .inr ⟨l, act, dir₂, l₂, hwhole, hr, hinit, hblocks, ?_⟩
  rw [haddrs, addrs_map_same, Function.update_eq_self]

/-- What the search comes to, in a directory of any size, cached or not. -/
theorem findInum_sought (hname : NameOk name) (hfmt : (w.inodes dir).fmt = .dir)
    (h : Runs (· ∈ evs) (xv6FindInum dir name) w (e, k, de) w') :
    (e = 0 → WholeEntries (dirSize w dir)) ∧
      Sought (deFindCallback name) (Matches name) evs w (w.addrs dir) 0 (dirSize w dir / 16)
        (0, Dirent.zero) e (k, de) w' := by
  rcases findInum_blocks hname hfmt h with ⟨hne, hr, hs⟩ |
    ⟨l, act, dir', l', hwhole, hr, hinit, hblocks, rfl⟩
  · rw [hs]
    exact ⟨fun h0 => absurd h0 hne, .failed hne fun hf => hne (hr.error.mpr hf)⟩
  · have hsize : dirSize w dir / 16 ≠ 0 := by
      have := hwhole.2
      omega
    obtain ⟨-, -, -, -, hsought⟩ := blocks_sought (deFind_finder hname) _ _ _ _ (Nat.zero_le _)
      (by decide) hsize hblocks
    have hsought' := hsought.later hinit.mono (hr.error.mp rfl) hblocks.mono
    exact ⟨fun _ => hwhole, by simpa [NENTS] using hsought'⟩

/-! ## The first entry -/

/-- The block that holds the addresses, when they are not in core. -/
def addrsBlock (w : World) (dir : Ptr) : List Nat :=
  match (w.inodes dir).priv with
  | some _ => []
  | none => [inodeBlock w.env (w.inodes dir).ino]

/-- The blocks to read, one after the other, to look at entry 0. -/
def blocksToFirst (w : World) (dir : Ptr) : List Nat :=
  addrsBlock w dir ++ [(w.addrs dir).get 0]

/-- What the log gains by reading `bs` in order. -/
def readsOf (bs : List Nat) : List Event := (bs.map (Event.bread · .ok)).reverse

theorem mem_readsOf {bs : List Nat} {x : Nat} : Event.bread x .ok ∈ readsOf bs ↔ x ∈ bs := by
  simp [readsOf]

theorem initIctx_log {ctx : InodeCtx} (h : Runs φ (xv6InitIctx dir) w (0, ctx) w') :
    w'.log = readsOf (addrsBlock w dir) ++ w.log := by
  unfold addrsBlock
  cases hpriv : (w.inodes dir).priv with
  | some addrs =>
    obtain ⟨-, rfl⟩ := xv6InitIctx_spec hpriv h
    simp [readsOf]
  | none =>
    simp only [xv6InitIctx, runs_bind_getInode, hpriv, xv6Dget] at h
    obtain ⟨⟨e, di⟩, w₁, hdget, h⟩ := h.bind
    obtain ⟨hres, rfl⟩ := h.pure
    cases hres
    simp only [runs_bind_getInode, runs_bind_assert, runs_bind_getEnv] at hdget
    obtain ⟨-, hdget⟩ := hdget
    obtain ⟨ok, w₂, hread, hdget⟩ := hdget.bind
    obtain ⟨-, hok, rfl⟩ := (runs_sbBread _ _ _ _).mp hread
    rcases hdget.ite with ⟨-, h⟩ | ⟨hbuf, h⟩
    · obtain ⟨hdi, -⟩ := h.pure
      cases hdi
    · simp only [runs_bind_bdata] at h
      obtain ⟨-, rfl⟩ := h.pure
      have hio : w.env.io w.log.length = .ok := by
        rw [hok] at hbuf
        simpa using hbuf
      simp [readsOf, World.logged, hio]

section

variable {σ : Type} {cb : DiterCallback σ} {p : Dirent → Prop} {lo : Nat} {s s' : σ}

/-- Of one block that is searched, nothing is done but a read. -/
theorem body_log (hs : Finder cb p lo) {i off lim b : Nat} {act act' : DiterAction}
    (hlo : lo ≤ i * NENTS + off) (hb : b ≠ 0)
    (h : Runs φ (xv6DirIterate.body modcheck cb i off lim b act s) w (0, act', s') w') :
    w'.log = .bread b .ok :: w.log := by
  simp only [xv6DirIterate.body, modcheck, if_neg hb] at h
  obtain ⟨ok, w₁, hread, h⟩ := h.bind
  obtain ⟨-, hok, rfl⟩ := (runs_sbBread _ _ _ _).mp hread
  rcases h.ite with ⟨-, h⟩ | ⟨hbuf, h⟩
  · obtain ⟨hres, -⟩ := h.pure
    cases hres
  have hio : w.env.io w.log.length = .ok := by
    rw [hok] at hbuf
    simpa using hbuf
  simp only [runs_bind_bdata] at h
  obtain ⟨⟨act₁, blk, s₁, flush⟩, w₂, hlift, h⟩ := h.bind
  obtain ⟨hentries, rfl⟩ := hlift.lift
  have hflush : flush = false := by
    rcases entries_spec hs.toSeeker _ _ _ hlo hentries with
      ⟨-, -, hf, -⟩ | ⟨j, de, -, -, hp, -, hcb, -, -, hf⟩
    · exact hf
    · rw [hf, (hs.clean hp hcb).2]
      rfl
  rw [hflush] at h
  simp only [Bool.false_eq_true, if_false, runs_bind_bstore] at h
  obtain ⟨-, rfl⟩ := h.pure
  simp [World.logged, hio]

/-- When entry 0 is the one, the search reads its block and no other. -/
theorem blocks_first (hs : Finder cb p 0) {rounds size : Nat} {act act' : DiterAction}
    {dir dir' : InodeCtx} (hsize : size ≠ 0) (hp : p (dslot w.disk dir.addrs 0))
    (h : Runs (· ∈ evs) (xv6DirIterate.blocks modcheck cb false rounds 0 0 size act dir s) w
      (0, act', dir', s') w') :
    w'.log = .bread (dir.addrs.get 0) .ok :: w.log := by
  cases rounds with
  | zero => exact h.halt.elim
  | succ rounds =>
    have hb : dir.addrs.get 0 ≠ 0 := by
      intro h0
      rw [show (0 : Nat) = 0 * NENTS + 0 from rfl, dslot_eq _ _ (by decide),
        bmap_direct (by decide), if_pos h0] at hp
      exact hs.zero hp
    simp only [xv6DirIterate.blocks] at h
    obtain ⟨⟨e₁, b, dir₁⟩, w₁, haddr, hnext⟩ := h.bind
    clear h
    obtain ⟨⟨rfl, rfl, rfl⟩, rfl⟩ : (e₁ = 0 ∧ b = dir.addrs.get 0 ∧
        dir₁ = { dir with dirty := false }) ∧ w₁ = w := by
      simpa [xv6InodeAddr, MAXFILE, NDIRECT] using haddr
    simp only [ne_eq, not_true_eq_false, if_false] at hnext
    obtain ⟨⟨e₂, act₂, s₂⟩, w₂, hbody, hnext⟩ := hnext.bind
    have hlim : 0 < xv6Min NENTS (size + 0) := by
      rw [xv6Min_eq_min]
      simp only [NENTS]
      omega
    obtain ⟨-, hround⟩ := body_sought (b := dir.addrs.get 0) hs
      (Nat.zero_le _) hlim (by rw [xv6Min_eq_min]; exact Nat.min_le_left _ _)
      (bmap_direct (by decide)).symm hbody
    rcases hround with (⟨hne, -, -⟩ | ⟨-, -, -, -, -, -, hmiss⟩) | ⟨rfl, hstop, -⟩
    · rcases hnext.ite with ⟨-, h⟩ | ⟨hgo, -⟩
      · obtain ⟨hres, -⟩ := h.pure
        cases hres
        exact absurd rfl hne
      · exact absurd (.inr hne) hgo
    · exact absurd hp (hmiss 0 (Nat.zero_le _) (by simpa using hlim))
    · rcases hnext.ite with ⟨-, h⟩ | ⟨hgo, -⟩
      · obtain ⟨hres, rfl⟩ := h.pure
        exact body_log hs (Nat.zero_le _) hb hbody
      · exact absurd (.inl (by simp [hstop])) hgo

end

theorem findInum_first (hname : NameOk name) (hfmt : (w.inodes dir).fmt = .dir)
    (hp : Matches name (dslot w.disk (w.addrs dir) 0))
    (h : Runs (· ∈ evs) (xv6FindInum dir name) w (0, k, de) w') :
    w'.log = readsOf (blocksToFirst w dir) ++ w.log := by
  rcases findInum_blocks hname hfmt h with ⟨hne, -, -⟩ |
    ⟨l, act, dir', l', hwhole, -, hinit, hblocks, rfl⟩
  · exact absurd rfl hne
  · have hsize : dirSize w dir / 16 ≠ 0 := by
      have := hwhole.2
      omega
    have hlog := initIctx_log hinit
    have hlog' := blocks_first (p := Matches name) (w := { w with log := l }) (s := (0, .zero))
      (deFind_finder hname) hsize (by exact hp) hblocks
    dsimp only at hlog hlog'
    rw [hlog', hlog]
    simp [readsOf, blocksToFirst]

/-! ## When "absent" means absent -/

/-- What a lookup that answers `r`, after a search with the status `e`, should do. -/
structure LookupHonest (w w' : World) (dir : Ptr) (name : FileName) (e : Int)
    (r : Except Int (Option Ptr)) : Prop where
  /-- for "absent" every block has been read, and no live entry has the name -/
  absent : r = .ok none →
    (∃ evs, w'.log = evs ++ w.log ∧ ∀ x, Allocated w.disk (w.addrs dir)
      (min (dirSize w dir) (MAXFILE * BSIZE)) x → .bread x .ok ∈ evs) ∧
    ∀ k, k < dirEntries w dir → (dslot w.disk (w.addrs dir) k).inum ≠ 0 →
      ¬ Matches name (dslot w.disk (w.addrs dir) k)
  /-- the error of the search is passed on -/
  error : e ≠ 0 → r = .error e

/-- The searches whose outcome `xv6_lookup` can tell, `w₁` being the state after the search. -/
structure SearchFits (w w₁ : World) (dir : Ptr) (name : FileName) : Prop where
  /-- no read fails -/
  calm : Faultless w w₁
  /-- the search ends before the blocks do -/
  ends : dirSize w dir / 16 ≤ MAXFILE * NENTS ∨
    ∃ k, k < MAXFILE * NENTS ∧ Matches name (dslot w.disk (w.addrs dir) k)
  /-- the match is not the first entry, or this one is unused, the only match, and no other block
      is left to read -/
  first : Matches name (dslot w.disk (w.addrs dir) 0) →
    (∀ x, Allocated w.disk (w.addrs dir) (min (dirSize w dir) (MAXFILE * BSIZE)) x →
      x ∈ blocksToFirst w dir) ∧
    ∀ k, k < dirEntries w dir → (dslot w.disk (w.addrs dir) k).inum ≠ 0 →
      ¬ Matches name (dslot w.disk (w.addrs dir) k)

variable {r : Except Int (Option Ptr)} {w₁ : World}

/-- The position decides first. -/
theorem lookup_none (hfind : Returns (xv6FindInum dir name) w (e, 0, de) w₁) :
    Returns (xv6Lookup dir name) w (.ok none) w₁ :=
  (returns_bind hfind).mpr (by simp)

theorem lookup_some (hk : k ≠ 0) (hfind : Returns (xv6FindInum dir name) w (0, k, de) w₁) :
    ¬ Returns (xv6Lookup dir name) w (.ok none) w' := by
  intro h
  rw [xv6Lookup, returns_bind hfind] at h
  simp only [if_neg hk, ne_eq, not_true_eq_false, if_false] at h
  obtain ⟨u, w₂, -, h⟩ := h.bind
  obtain ⟨res, w₃, -, h⟩ := h.bind
  cases res with
  | error e =>
    obtain ⟨hres, -⟩ := h.pure
    cases hres
  | ok q =>
    obtain ⟨hres, -⟩ := h.pure
    cases hres

theorem lookup_honest_iff (hname : NameOk name) (hfmt : (w.inodes dir).fmt = .dir)
    (hfind : Returns (xv6FindInum dir name) w (e, k, de) w₁)
    (h : Returns (xv6Lookup dir name) w r w') :
    LookupHonest w w' dir name e r ↔ SearchFits w w₁ dir name := by
  obtain ⟨evs, hlog, -⟩ := hfind.2
  have hrun : Runs (· ∈ evs) (xv6FindInum dir name) w (e, k, de) w₁ :=
    ⟨hfind.1, evs, hlog, fun _ he => he⟩
  obtain ⟨hwhole, hsought⟩ := findInum_sought hname hfmt hrun
  cases hsought with
  | missed hf hmax hall hread =>
    obtain ⟨rfl, rfl⟩ := Returns.unique h (lookup_none hfind)
    have hmiss : ∀ m, m < dirSize w dir / 16 → ¬ Matches name (dslot w.disk (w.addrs dir) m) :=
      fun m hm => hall m (Nat.zero_le m) hm
    obtain ⟨hmul, hge⟩ := hwhole rfl
    refine iff_of_true ⟨fun _ => ⟨⟨evs, hlog, ?_⟩, fun m hm _ => hmiss m ?_⟩,
      fun h0 => absurd rfl h0⟩ ⟨hf, .inl hmax, fun h0 => absurd h0 (hmiss 0 (by omega))⟩
    · rintro x ⟨j, hj, hx⟩
      refine hread j ?_ ?_ x hx
      · simp only [NENTS]
        omega
      · simp only [NENTS, BSIZE] at hj ⊢
        omega
    · unfold dirEntries at hm
      omega
  | hit hf hk hk' hmax hp hbefore hcb =>
    rw [deFindCallback, if_pos (show strncmpEq name _ = true from hp)] at hcb
    cases hcb
    by_cases h0 : k = 0
    · subst h0
      obtain ⟨rfl, rfl⟩ := Returns.unique h (lookup_none hfind)
      have hfirst := findInum_first hname hfmt hp hrun
      have hevs : evs = readsOf (blocksToFirst w dir) :=
        List.append_cancel_right (hlog.symm.trans hfirst)
      constructor
      · intro hh
        obtain ⟨⟨evs', hlog', hread⟩, hlive⟩ := hh.absent rfl
        obtain rfl : evs' = evs := List.append_cancel_right (hlog'.symm.trans hlog)
        exact ⟨hf, .inr ⟨0, hmax, hp⟩,
          fun _ => ⟨fun x hx => mem_readsOf.mp (hevs ▸ hread x hx), hlive⟩⟩
      · intro hfit
        obtain ⟨hread, hlive⟩ := hfit.first hp
        exact ⟨fun _ => ⟨⟨evs, hlog, fun x hx => hevs ▸ mem_readsOf.mpr (hread x hx)⟩, hlive⟩,
          fun hne => absurd rfl hne⟩
    · refine iff_of_true ⟨fun hr => absurd (hr ▸ h) (lookup_some h0 hfind),
        fun hne => absurd rfl hne⟩
        ⟨hf, .inr ⟨k, hmax, hp⟩, fun hp0 => ?_⟩
      exact absurd hp0 (hbefore 0 (Nat.zero_le 0) (Nat.pos_of_ne_zero h0))
  | failed he hf =>
    obtain ⟨rfl, rfl⟩ := Returns.unique h (lookup_none hfind)
    refine iff_of_false (fun hh => ?_) fun hfit => hf hfit.calm
    have hres := hh.error he
    cases hres
  | big hf hbig hall =>
    obtain ⟨rfl, rfl⟩ := Returns.unique h (lookup_none hfind)
    refine iff_of_false (fun hh => ?_) fun hfit => ?_
    · have hres := hh.error (show -EFBIG ≠ 0 by decide)
      cases hres
    · rcases hfit.ends with hle | ⟨m, hm, hp⟩
      · omega
      · exact hall m (Nat.zero_le m) hm hp

end

/-- A directory of 64 entries on a disk that cannot be read. -/
def unreadDir : World :=
  { oneBlockDir fullBlock (oneBlock 20) 1024 with
    env := { (oneBlockDir fullBlock (oneBlock 20) 1024).env with io := fun _ => .lost } }

/-- The name of entry 2 is answered with "absent". -/
theorem present_but_absent :
    Matches [130] (dslot unreadDir.disk (unreadDir.addrs 0) 2) ∧
      ∃ w', Returns (xv6FindInum 0 [130]) unreadDir (- EIO, 0, Dirent.zero) w' ∧
        Returns (xv6Lookup 0 [130]) unreadDir (.ok none) w' ∧
        ¬ LookupHonest unreadDir w' 0 [130] (- EIO) (.ok none) := by
  have hfind := returns_after (m := xv6FindInum 0 [130]) (w := unreadDir)
    (a := (- EIO, 0, Dirent.zero)) rfl
  refine ⟨by unfold Matches; decide +kernel, _, hfind, lookup_none hfind, fun hh => ?_⟩
  have hres := hh.error (show (- EIO : Int) ≠ 0 by decide)
  cases hres

theorem lookup_absent_name :
    ∃ w', LookupHonest (oneBlockDir dotsBlock (oneBlock 20) 32) w' 0 [0x61] 0 (.ok none) := by
  have hfind := returns_after (m := xv6FindInum 0 [0x61])
    (w := oneBlockDir dotsBlock (oneBlock 20) 32) (a := (0, 0, Dirent.zero)) rfl
  refine ⟨_, (lookup_honest_iff entryA.ok rfl hfind (lookup_none hfind)).mpr
    ⟨(hfind.calm fun _ => rfl).2, .inl (by decide), fun hp => absurd hp ?_⟩⟩
  unfold Matches
  decide +kernel

end Xv6fs
