/-
  What the checker accepts.

  `Accepted ok d` lists what `xv6_docheck` asks of the image `d` when `ok` says which blocks can
  be read. `docheck_accepts` and `docheck_rejects` say that the checker returns 0 on these images
  and on no others. They hold over any checker that reads: `Reading check φ known` is all they
  use, where `known b r` is what is known once reading block `b` has returned `r`.

  A root inode of another type than `T_DIR` is reported by a call whose behaviour is undefined, and
  the directory iterator makes one assertion, on the size of the directory, which the checker hands
  over as the image has it. So the checker stops without returning on the images whose root inode
  is read and is not a directory of a size the iterator takes (`RootFits`), and on no others.
-/
import Xv6fs.Fs.Total
import Xv6fs.Balloc.Mount
import Mathlib.Order.Interval.Set.Defs

namespace Xv6fs

/-! ## What is asked of an image -/

/-- The size the directory iterator takes: whole entries, two of them at least. -/
def WholeEntries (size : Nat) : Prop := size % 16 = 0 ∧ 2 * 16 ≤ size

instance (size : Nat) : Decidable (WholeEntries size) := by
  unfold WholeEntries
  infer_instance

/-- The inode of the root directory, where the checker looks for it. -/
def rootInode (d : Disk) : Dinode := (d (d 0).superblock.inodestart).dinode 1

/-- `x` is a block of file block `i`, or the indirect block it is reached through. -/
def BlockOf (d : Disk) (addrs : Addrs) (i x : Nat) : Prop :=
  x ≠ 0 ∧ (x = bmap d addrs i ∨ NDIRECT ≤ i ∧ x = addrs.get NDIRECT)

/-- The allocated blocks of a file of `size` bytes. -/
def Allocated (d : Disk) (addrs : Addrs) (size x : Nat) : Prop :=
  ∃ i, i * BSIZE < size ∧ BlockOf d addrs i x

/-- The checker gets as far as the inode of the root directory, when `first` and `second` say
    whether the super block and the inodes can be read. -/
structure RootRead (first second : Prop) (d : Disk) : Prop where
  super : first
  magic : (d 0).superblock.magic = FSMAGIC
  layout : (xv6CheckSb (d 0).superblock).1 = true
  inodes : second
  null : ((d (d 0).superblock.inodestart).dinode 0).type = 0

/-- The inode of the root directory is one the checker gets past. -/
def RootFits (d : Disk) : Prop :=
  (rootInode d).type = T_DIR ∧ WholeEntries (rootInode d).size.toNat

instance (d : Disk) : Decidable (RootFits d) := by
  unfold RootFits
  infer_instance

/-- How the checker stops where it does not get past it. -/
def rootHalt (d : Disk) : Halt :=
  if (rootInode d).type = T_DIR then .panic else .undefined

/-- An image the checker passes. -/
structure Accepted (ok : Nat → Prop) (d : Disk) : Prop where
  reached : RootRead (ok 0) (ok (d 0).superblock.inodestart) d
  dir : (rootInode d).type = T_DIR
  whole : WholeEntries (rootInode d).size.toNat
  le : (rootInode d).size.toNat ≤ MAXFILE * BSIZE
  blocks : ∀ x, Allocated d (rootInode d).addr (rootInode d).size.toNat x → ok x

/-! ## Layouts -/

namespace Superblock

/-- The regions of an image, in the order they lie on it. -/
def regions (sb : Superblock) : List (Set Nat) :=
  [Set.Ico 0 1,
    Set.Ico sb.logstart (sb.logstart + sb.nlog),
    Set.Ico sb.inodestart (sb.inodestart + INODE_BLOCKS sb.ninodes),
    Set.Ico sb.bmapstart (sb.bmapstart + BITMAP_BLOCKS sb.size),
    Set.Ico (sb.bmapstart + BITMAP_BLOCKS sb.size)
      (sb.bmapstart + BITMAP_BLOCKS sb.size + sb.nblocks)]

theorem Ico_apart {a b c d : Nat} (h : b ≤ c) : ∀ x ∈ Set.Ico a b, x ∉ Set.Ico c d :=
  fun _ hx hx' => absurd (lt_of_lt_of_le hx.2 h) (not_lt.mpr hx'.1)

/-- A sound layout. The sums are those of natural numbers, and none of them exceeds `size`, which
    is a `uint`. -/
structure Sound (sb : Superblock) : Prop where
  magic : sb.magic = FSMAGIC
  logstart : sb.logstart = 1
  inodestart : sb.inodestart = 1 + sb.nlog
  bmapstart : sb.bmapstart = sb.inodestart + sb.ninodes / IPB + 1
  fits : sb.bmapstart + sb.size / BPB + 1 + sb.nblocks ≤ sb.size
  size_lt : sb.size < 2 ^ 32

variable {sb : Superblock}

theorem sound_of_check (hmagic : sb.magic = FSMAGIC) (hlt : sb.size < 2 ^ 32)
    (h : (xv6CheckSb sb).1 = true) : sb.Sound := by
  simp only [xv6CheckSb, decide_eq_true_eq] at h
  simp only [INODE_BLOCKS, BITMAP_BLOCKS, IPB, BPB] at h
  refine ⟨hmagic, h.1, h.2.1, ?_, ?_, hlt⟩
  · simp only [IPB]
    omega
  · simp only [BPB]
    omega

namespace Sound

theorem iblock (h : sb.Sound) {inum : Nat} (hi : inum < sb.ninodes) :
    IBLOCK inum sb ∈ Set.Ico sb.inodestart (sb.inodestart + INODE_BLOCKS sb.ninodes) := by
  have h1 := h.bmapstart
  have h2 := h.fits
  have h3 := h.size_lt
  simp only [IBLOCK, INODE_BLOCKS, IPB, BPB] at *
  rw [Nat.mod_eq_of_lt (by omega), Set.mem_Ico]
  omega

theorem bblock (h : sb.Sound) {b : Nat} (hb : b < sb.size) :
    BBLOCK b sb ∈ Set.Ico sb.bmapstart (sb.bmapstart + BITMAP_BLOCKS sb.size) := by
  have h2 := h.fits
  have h3 := h.size_lt
  simp only [BBLOCK, BITMAP_BLOCKS, BPB] at *
  rw [Nat.mod_eq_of_lt (by omega), Set.mem_Ico]
  omega

theorem regions_disjoint (h : sb.Sound) : sb.regions.Pairwise fun r r' => ∀ x ∈ r, x ∉ r' := by
  have h1 := h.logstart
  have h2 := h.inodestart
  have h3 := h.bmapstart
  simp only [IPB] at h3
  simp only [regions, INODE_BLOCKS, BITMAP_BLOCKS, IPB, BPB, List.pairwise_cons, List.mem_cons,
    forall_eq_or_imp, List.not_mem_nil, false_imp_iff, implies_true, and_true, List.Pairwise.nil]
  refine ⟨⟨?_, ?_, ?_, ?_⟩, ⟨?_, ?_, ?_⟩, ⟨?_, ?_⟩, ?_⟩ <;> exact Ico_apart (by omega)

/-- Every region lies inside the image. -/
theorem regions_le (h : sb.Sound) : ∀ r ∈ sb.regions, r ⊆ Set.Iio sb.size := by
  have h1 := h.logstart
  have h2 := h.inodestart
  have h3 := h.bmapstart
  have h4 := h.fits
  simp only [IPB, BPB] at h3 h4
  simp only [regions, INODE_BLOCKS, BITMAP_BLOCKS, IPB, BPB, List.mem_cons, List.not_mem_nil,
    or_false, forall_eq_or_imp, forall_eq]
  refine ⟨?_, ?_, ?_, ?_, ?_⟩ <;>
  · intro x hx
    rw [Set.mem_Ico] at hx
    rw [Set.mem_Iio]
    omega

end Sound

end Superblock

/-! ## Checkers that read -/

/-- Reading changes nothing but the log, and `known b r` holds once reading block `b` has
    returned `r`. -/
structure Reading (check : Checker) (φ : Event → Prop) (known : Nat → Bool → Prop) : Prop where
  bread : ∀ {b r w w'}, Runs φ (check.bread b) w r w' → known b r ∧ ∃ l, w' = { w with log := l }
  bdata : check.bdata = bdata

/-- What is known once every block of a list of blocks that are read has been asked for. -/
def Reads (known : Nat → Bool → Prop) (p : Nat → Prop) (e : Int) : Prop :=
  if e = 0 then ∀ x, p x → known x true else ∃ x, p x ∧ known x false

section

variable {check : Checker} {φ : Event → Prop} {known : Nat → Bool → Prop} {w w' : World} {e : Int}

theorem inodeAddr_reads (hc : Reading check φ known) {dir dir' : InodeCtx} {i b : Nat}
    (hi : i < MAXFILE) (h : Runs φ (xv6InodeAddr check dir i false) w (e, b, dir') w') :
    dir' = { dir with dirty := false } ∧ (∃ l, w' = { w with log := l }) ∧
      (e = 0 → b = bmap w.disk dir.addrs i) ∧
      Reads known (fun x => x ≠ 0 ∧ NDIRECT ≤ i ∧ x = dir.addrs.get NDIRECT) e := by
  unfold bmap Reads
  simp only [xv6InodeAddr, if_neg (not_le.mpr hi), Bool.false_eq_true, and_false, if_false,
    Bool.not_false, if_true] at h
  by_cases hd : i < NDIRECT
  · rw [if_pos hd] at h ⊢
    obtain ⟨hr, rfl⟩ := h.pure
    cases hr
    exact ⟨rfl, ⟨_, rfl⟩, fun _ => rfl, fun x hx => absurd hd (not_lt.mpr hx.2.1)⟩
  · rw [if_neg hd] at h ⊢
    by_cases hz : dir.addrs.get NDIRECT = 0
    · rw [if_pos hz] at h ⊢
      obtain ⟨hr, rfl⟩ := h.pure
      cases hr
      exact ⟨rfl, ⟨_, rfl⟩, fun _ => rfl, fun x hx => absurd (hx.2.2.trans hz) hx.1⟩
    rw [if_neg hz] at h ⊢
    simp only [xv6InodeAddr.indirect, hc.bdata] at h
    obtain ⟨ok, w₁, hread, h⟩ := h.bind
    obtain ⟨hk, l, rfl⟩ := hc.bread hread
    rcases h.ite with ⟨hnull, h⟩ | ⟨hbuf, h⟩
    · obtain ⟨hres, rfl⟩ := h.pure
      cases hres
      have hok : ok = false := by simpa using hnull
      rw [hok] at hk
      refine ⟨rfl, ⟨_, rfl⟩, fun h0 => absurd h0 (by decide), ?_⟩
      rw [if_neg (by decide)]
      exact ⟨_, ⟨hz, not_lt.mp hd, rfl⟩, hk⟩
    · have hok : ok = true := by simpa using hbuf
      rw [hok] at hk
      have hreads : ∀ x, x ≠ 0 ∧ NDIRECT ≤ i ∧ x = dir.addrs.get NDIRECT → known x true := by
        rintro x ⟨-, -, rfl⟩
        exact hk
      simp only [runs_bind_bdata, Bool.not_false, if_true] at h
      rcases h.ite with ⟨hzero, h⟩ | ⟨-, h⟩
      · obtain ⟨hres, rfl⟩ := h.pure
        cases hres
        exact ⟨rfl, ⟨_, rfl⟩, fun _ => hzero.symm, hreads⟩
      · obtain ⟨hres, rfl⟩ := h.pure
        cases hres
        exact ⟨rfl, ⟨_, rfl⟩, fun _ => rfl, hreads⟩

/-! ## The entries of the root directory -/

theorem entries_dirCheck (base : Nat) : ∀ n k {act : DiterAction} {blk : Block} {flush : Bool},
    xv6DirIterate.entries dirCheck base n k act blk () flush =
      .ok (if n = 0 then act else { DiterAction.init with cont := true }, blk, (), flush)
  | 0, _, _, _, _ => rfl
  | n + 1, k, act, blk, flush => by
    unfold xv6DirIterate.entries
    simp only [dirCheck, bind, Except.bind, Block.setDirent_dirent, DiterAction.init, Bool.or_false,
      Bool.not_true, Bool.false_eq_true, if_false, Nat.succ_ne_zero]
    exact (entries_dirCheck base n (k + 1)).trans (by split <;> rfl)

theorem body_reads (hc : Reading check φ known) {i off lim b : Nat} {act act' : DiterAction}
    (hext : act.dirExt = false)
    (h : Runs φ (xv6DirIterate.body check dirCheck i off lim b act ()) w (e, act', ()) w') :
    (∃ l, w' = { w with log := l }) ∧ act'.dirExt = false ∧
      (e = 0 → off < lim → act'.cont = true) ∧
      Reads known (fun x => x ≠ 0 ∧ x = b) e := by
  unfold Reads
  simp only [xv6DirIterate.body, hc.bdata] at h
  rcases h.ite with ⟨hz, h⟩ | ⟨hnz, h⟩
  · simp only [dirCheck, runs_bind_lift] at h
    obtain ⟨hres, rfl⟩ := h.pure
    cases hres
    exact ⟨⟨_, rfl⟩, rfl, fun _ _ => rfl, fun x hx => absurd (hx.2.trans hz) hx.1⟩
  obtain ⟨ok, w₁, hread, h⟩ := h.bind
  obtain ⟨hk, l, rfl⟩ := hc.bread hread
  rcases h.ite with ⟨hnull, h⟩ | ⟨hbuf, h⟩
  · obtain ⟨hres, rfl⟩ := h.pure
    cases hres
    have hok : ok = false := by simpa using hnull
    rw [hok] at hk
    refine ⟨⟨_, rfl⟩, hext, fun h0 => absurd h0 (by decide), ?_⟩
    rw [if_neg (by decide)]
    exact ⟨b, ⟨hnz, rfl⟩, hk⟩
  · have hok : ok = true := by simpa using hbuf
    rw [hok] at hk
    simp only [runs_bind_bdata, entries_dirCheck, runs_bind_lift, Bool.false_eq_true, if_false,
      runs_bind_bstore, Function.update_eq_self] at h
    obtain ⟨hres, rfl⟩ := h.pure
    cases hres
    refine ⟨⟨_, rfl⟩, ?_, fun _ hlt => ?_, ?_⟩
    · split
      · exact hext
      · rfl
    · rw [if_neg (by omega)]
    · rintro x ⟨-, rfl⟩
      exact hk

/-- The entries from `i * NENTS + off` on, `size` of them. -/
theorem blocks_reads (hc : Reading check φ known) :
    ∀ (rounds i off size : Nat) {act act' : DiterAction} {dir dir' : InodeCtx} {e : Int}
      {w w' : World}, act.dirExt = false → off < NENTS → 0 < off + size →
      Runs φ (xv6DirIterate.blocks check dirCheck false rounds i off size act dir ()) w
        (e, act', dir', ()) w' →
      (∃ l, w' = { w with log := l }) ∧ act'.dirExt = false ∧
        if e = 0 then ∀ j, i ≤ j → j * NENTS < i * NENTS + off + size →
            j < MAXFILE ∧ ∀ x, BlockOf w.disk dir.addrs j x → known x true
          else ∃ j, i ≤ j ∧ j * NENTS < i * NENTS + off + size ∧
            (MAXFILE ≤ j ∨ ∃ x, BlockOf w.disk dir.addrs j x ∧ known x false)
  | 0, _, _, _, _, _, _, _, _, _, _, _, _, _, h => h.halt.elim
  | rounds + 1, i, off, size, act, act', dir, dir', e, w, w', hext, hoff, hpos, h => by
    simp only [xv6DirIterate.blocks] at h
    obtain ⟨⟨e₁, b, dir₁⟩, w₁, haddr, hnext⟩ := h.bind
    clear h
    by_cases hi : MAXFILE ≤ i
    · obtain ⟨rfl, -, -, rfl⟩ := xv6InodeAddr_big hi haddr
      have hbig : -EFBIG ≠ 0 := by decide
      rcases hnext.ite with ⟨-, h⟩ | ⟨hno, -⟩
      · obtain ⟨hres, rfl⟩ := h.pure
        cases hres
        rw [if_neg hbig]
        exact ⟨⟨_, rfl⟩, hext, i, le_refl i, by omega, .inl hi⟩
      · exact absurd hbig hno
    obtain ⟨rfl, ⟨l₁, rfl⟩, hb, hind⟩ := inodeAddr_reads hc (not_le.mp hi) haddr
    rcases hnext.ite with ⟨hne, h⟩ | ⟨heq, h⟩
    · obtain ⟨hres, rfl⟩ := h.pure
      cases hres
      unfold Reads at hind
      rw [if_neg hne] at hind ⊢
      obtain ⟨x, ⟨hx, hx'⟩, hk⟩ := hind
      exact ⟨⟨_, rfl⟩, hext, i, le_refl i, by omega, .inr ⟨x, ⟨hx, .inr hx'⟩, hk⟩⟩
    obtain rfl : e₁ = 0 := not_not.mp heq
    obtain rfl := hb rfl
    clear hnext
    obtain ⟨⟨e₂, act₂, u⟩, w₂, hbody, hnext⟩ := h.bind
    clear h
    obtain ⟨⟨l₂, rfl⟩, hext₂, hcont, hdata⟩ := body_reads hc hext hbody
    have hround : e₂ = 0 → ∀ x, BlockOf w.disk dir.addrs i x → known x true := by
      rintro rfl x ⟨hx, hx' | hx'⟩
      · exact hdata x ⟨hx, hx'⟩
      · exact hind x ⟨hx, hx'⟩
    -- the blocks from `i` on that the round has not seen
    have hlast : ∀ j, i ≤ j → j * NENTS < i * NENTS + NENTS → j = i := by
      intro j hj hj'
      simp only [NENTS] at hj'
      omega
    have hlim : xv6Min NENTS (size + off) = min NENTS (size + off) := xv6Min_eq_min ..
    rcases hnext.ite with ⟨hstop, h⟩ | ⟨hgo, h⟩
    · obtain ⟨hres, rfl⟩ := h.pure
      cases hres
      refine ⟨⟨_, rfl⟩, hext₂, ?_⟩
      split
      · rename_i h0
        have hsz : size = 0 := by
          by_contra hsz
          have hstop' : (!act₂.cont) = true ∨ e₂ ≠ 0 := hstop
          rw [hcont h0 (by omega)] at hstop'
          exact hstop'.elim (by decide) fun hne => hne h0
        intro j hj hj'
        obtain rfl := hlast j hj (by omega)
        exact ⟨not_le.mp hi, hround h0⟩
      · rename_i hne
        unfold Reads at hdata
        rw [if_neg hne] at hdata
        obtain ⟨x, ⟨hx, hx'⟩, hk⟩ := hdata
        exact ⟨i, le_refl i, by omega, .inr ⟨x, ⟨hx, .inl hx'⟩, hk⟩⟩
    have h0 : e₂ = 0 := by
      by_contra hne
      exact hgo (.inr hne)
    rcases h.ite with ⟨hdone, h⟩ | ⟨hmore, h⟩
    · obtain ⟨hres, rfl⟩ := h.pure
      cases hres
      refine ⟨⟨_, rfl⟩, hext₂, ?_⟩
      rw [if_pos h0]
      intro j hj hj'
      obtain rfl := hlast j hj (by omega)
      exact ⟨not_le.mp hi, hround h0⟩
    · have hfull : xv6Min NENTS (size + off) = NENTS := by omega
      have hsucc : (i + 1) * NENTS = i * NENTS + NENTS := Nat.succ_mul i NENTS
      rw [hfull] at hmore h
      have hsum : (i + 1) * NENTS + 0 + (size - (NENTS - off)) = i * NENTS + off + size := by omega
      obtain ⟨hlog, hext', hrest⟩ := blocks_reads hc rounds (i + 1) 0 (size - (NENTS - off))
        hext₂ (by decide) (by omega) h
      rw [hsum] at hrest
      refine ⟨?_, hext', ?_⟩
      · obtain ⟨l, rfl⟩ := hlog
        exact ⟨l, rfl⟩
      split
      · rename_i h0'
        rw [if_pos h0'] at hrest
        intro j hj hj'
        rcases Nat.eq_or_lt_of_le hj with rfl | hlt
        · exact ⟨not_le.mp hi, hround h0⟩
        · exact hrest j hlt hj'
      · rename_i hne
        rw [if_neg hne] at hrest
        obtain ⟨j, hj, hj', hbad⟩ := hrest
        exact ⟨j, by omega, hj', hbad⟩

theorem iterate_reads (hc : Reading check φ known) {dir dir' : InodeCtx}
    (h : Runs φ (xv6DirIterate check dir dirCheck () 2 false) w (e, dir', ()) w') :
    WholeEntries dir.size ∧
      if e = 0 then dir.size ≤ MAXFILE * BSIZE ∧
          ∀ x, Allocated w.disk dir.addrs dir.size x → known x true
        else MAXFILE * BSIZE < dir.size ∨
          ∃ x, Allocated w.disk dir.addrs dir.size x ∧ known x false := by
  simp only [xv6DirIterate, runs_bind_assert] at h
  obtain ⟨hwhole, h⟩ := h
  refine ⟨hwhole, ?_⟩
  have hsize : dir.size = dir.size / 16 * 16 := by omega
  have hblock : ∀ j, j * NENTS < dir.size / 16 ↔ j * BSIZE < dir.size := by
    intro j
    simp only [NENTS, BSIZE]
    omega
  rw [if_neg (by omega)] at h
  obtain ⟨⟨e₁, act, dir₁, u⟩, w₁, hblocks, hnext⟩ := h.bind
  clear h
  obtain ⟨-, hext, hreads⟩ := blocks_reads hc _ _ _ _ rfl (by decide)
    (Nat.add_pos_left (by decide) _) hblocks
  have hret : e = e₁ := by
    rcases hnext.ite with ⟨⟨-, -, h⟩, -⟩ | ⟨-, h⟩
    · rw [hext] at h
      cases h
    · obtain ⟨hr, -⟩ := h.pure
      cases hr
      rfl
  subst hret
  have hsum : 2 / NENTS * NENTS + 2 % NENTS + (dir.size / 16 - 2) = dir.size / 16 := by
    have h2 : 2 / NENTS * NENTS + 2 % NENTS = 2 := by decide
    omega
  rw [hsum] at hreads
  split
  · rename_i h0
    rw [if_pos h0] at hreads
    refine ⟨?_, fun x hx => ?_⟩
    · by_contra hbig
      have hmax := (hreads MAXFILE (by decide) ((hblock _).mpr (by omega))).1
      exact absurd hmax (lt_irrefl _)
    · obtain ⟨j, hj, hx⟩ := hx
      exact (hreads j (Nat.zero_le j) ((hblock j).mpr hj)).2 x hx
  · rename_i hne
    rw [if_neg hne] at hreads
    obtain ⟨j, -, hj, hmax | ⟨x, hx, hk⟩⟩ := hreads
    · refine .inl (lt_of_le_of_lt ?_ ((hblock j).mp hj))
      exact Nat.mul_le_mul_right BSIZE hmax
    · exact .inr ⟨x, ⟨j, (hblock j).mp hj, hx⟩, hk⟩

/-! ## The verdict -/

/-- The checker gives up before the root directory, or goes on with its entries. -/
theorem docheck_reads (hc : Reading check φ known) (h : Runs φ (xv6Docheck check) w e w') :
    (e ≠ 0 ∧ ¬ RootRead (¬ known 0 false) (¬ known (w.disk 0).superblock.inodestart false)
        w.disk) ∨
      (RootRead (known 0 true) (known (w.disk 0).superblock.inodestart true) w.disk ∧
        (rootInode w.disk).type = T_DIR ∧ ∃ l dir e₁ w₁, Runs φ (xv6DirIterate check
            ⟨(rootInode w.disk).addr, (rootInode w.disk).size.toNat, false⟩ dirCheck () 2 false)
          { w with log := l } (e₁, dir, ()) w₁ ∧ (e = 0 ↔ e₁ = 0)) := by
  simp only [xv6Docheck, hc.bdata] at h
  obtain ⟨ok₀, w₁, hread₀, h⟩ := h.bind
  obtain ⟨hk₀, l₀, rfl⟩ := hc.bread hread₀
  rcases h.ite with ⟨hno, h⟩ | ⟨hok₀, h⟩
  · obtain ⟨rfl, -⟩ := h.pure
    have hnull : ok₀ = false := by simpa using hno
    rw [hnull] at hk₀
    exact .inl ⟨by decide, fun hr => hr.super hk₀⟩
  have hsuper : ok₀ = true := by simpa using hok₀
  rw [hsuper] at hk₀
  simp only [runs_bind_bdata] at h
  rcases h.ite with ⟨hne, h⟩ | ⟨hmagic, h⟩
  · obtain ⟨rfl, -⟩ := h.pure
    exact .inl ⟨by decide, fun hr => hne hr.magic.symm⟩
  rcases h.ite with ⟨hno, h⟩ | ⟨hlayout, h⟩
  · obtain ⟨rfl, -⟩ := h.pure
    refine .inl ⟨by decide, fun hr => ?_⟩
    have hok := hr.layout
    simp [hok] at hno
  simp only [xv6Docheck.root, hc.bdata] at h
  obtain ⟨ok₁, w₂, hread₁, h⟩ := h.bind
  obtain ⟨hk₁, l₁, rfl⟩ := hc.bread hread₁
  rcases h.ite with ⟨hno, h⟩ | ⟨hok₁, h⟩
  · obtain ⟨rfl, -⟩ := h.pure
    have hnull : ok₁ = false := by simpa using hno
    rw [hnull] at hk₁
    exact .inl ⟨by decide, fun hr => hr.inodes hk₁⟩
  have hinodes : ok₁ = true := by simpa using hok₁
  rw [hinodes] at hk₁
  simp only [runs_bind_bdata] at h
  rcases h.ite with ⟨hne, h⟩ | ⟨hnull, h⟩
  · obtain ⟨rfl, -⟩ := h.pure
    exact .inl ⟨by decide, fun hr => hne hr.null⟩
  rcases h.ite with ⟨-, h⟩ | ⟨hdir, h⟩
  · exact h.halt.elim
  simp only [xv6Docheck.entries] at h
  obtain ⟨⟨e₁, dir, u⟩, w₃, hiter, h⟩ := h.bind
  refine .inr ⟨⟨hk₀, (not_not.mp hmagic).symm, by simpa using hlayout, hk₁, not_not.mp hnull⟩,
    not_not.mp hdir, l₁, dir, e₁, w₃, hiter, ?_⟩
  obtain ⟨rfl, -⟩ := h.pure
  change (if e₁ ≠ 0 then 1 else 0) = 0 ↔ e₁ = 0
  split <;> simp_all

/-- The checker returns 0 only on images it should accept. -/
theorem docheck_accepts (hc : Reading check φ known) (h : Runs φ (xv6Docheck check) w 0 w') :
    Accepted (fun b => known b true) w.disk := by
  rcases docheck_reads hc h with ⟨hne, -⟩ | ⟨hreached, hdir, l, dir, e₁, w₁, hiter, he⟩
  · exact absurd rfl hne
  obtain ⟨hwhole, hreads⟩ := iterate_reads hc hiter
  rw [if_pos (he.mp rfl)] at hreads
  exact ⟨hreached, hdir, hwhole, hreads.1, hreads.2⟩

/-- On an image it should accept it returns nothing but 0. -/
theorem docheck_rejects (hc : Reading check φ known) (h : Runs φ (xv6Docheck check) w e w')
    (ha : Accepted (fun b => ¬ known b false) w.disk) : e = 0 := by
  rcases docheck_reads hc h with ⟨-, hno⟩ | ⟨-, -, l, dir, e₁, w₁, hiter, he⟩
  · exact absurd ha.reached hno
  obtain ⟨-, hreads⟩ := iterate_reads hc hiter
  refine he.mpr ?_
  by_contra hne
  rw [if_neg hne] at hreads
  rcases hreads with hbig | ⟨x, hx, hk⟩
  · exact absurd ha.le (not_le.mpr hbig)
  · exact ha.blocks x hx hk

end

/-! ## Returning -/

section

variable {α β : Type}

/-- A run of `m` from `w` goes on as `m'` from `w'`. -/
def Continues (m : Fs α) (w : World) (m' : Fs α) (w' : World) : Prop := m.run w = m'.run w'

theorem Continues.refl (m : Fs α) (w : World) : Continues m w m w := rfl

theorem Continues.trans {m m' m'' : Fs α} {w w' w'' : World} (h : Continues m w m' w')
    (h' : Continues m' w' m'' w'') : Continues m w m'' w'' :=
  Eq.trans h h'

theorem continues_bind {m : Fs α} {f : α → Fs β} {w w₁ : World} {a : α} (h : Returns m w a w₁) :
    Continues (m >>= f) w (f a) w₁ :=
  Prog.run_bind_ok (returns_iff.mp h)

theorem continues_bind_bdata {b : Nat} {f : Block → Fs β} {w : World} :
    Continues (bdata b >>= f) w (f (w.disk b)) w := rfl

theorem Continues.returns {m m' : Fs α} {w w' w₁ : World} {a : α} (h : Continues m w m' w')
    (h' : Returns m' w' a w₁) : Returns m w a w₁ :=
  returns_iff.mpr (Eq.trans h (returns_iff.mp h'))

end

section

variable {check : Checker} {w w₁ w₂ : World} {r₀ r₁ : Bool}

/-- The checker up to the inode of the root directory. -/
theorem docheck_continues (hdata : check.bdata = bdata) (h₀ : Returns (check.bread 0) w r₀ w₁)
    (hd₁ : w₁.disk = w.disk)
    (h₁ : Returns (check.bread (w.disk 0).superblock.inodestart) w₁ r₁ w₂)
    (hd₂ : w₂.disk = w.disk) :
    (RootRead (r₀ = true) (r₁ = true) w.disk ∧
        Continues (xv6Docheck check) w (if (rootInode w.disk).type ≠ T_DIR
          then Prog.halt .undefined else xv6Docheck.entries check (rootInode w.disk)) w₂) ∨
      (¬ RootRead (r₀ = true) (r₁ = true) w.disk ∧
        ∃ e w', Continues (xv6Docheck check) w (pure e) w') := by
  cases r₀ with
  | false =>
    refine .inr ⟨fun hr => absurd hr.super (by decide), 2, w₁, ?_⟩
    simp only [xv6Docheck]
    refine (continues_bind h₀).trans ?_
    simp only [Bool.not_false, if_true]
    exact .refl _ _
  | true =>
  -- every way out before the entries is a return, every other way leads on
  have hstart : ∀ {m : Fs Int} {w' : World},
      Continues (if FSMAGIC ≠ (w.disk 0).superblock.magic then pure 1
        else if !(xv6CheckSb (w.disk 0).superblock).1 then pure 1
        else xv6Docheck.root check (w.disk 0).superblock.inodestart) w₁ m w' →
      Continues (xv6Docheck check) w m w' := by
    intro m w' h
    simp only [xv6Docheck, hdata]
    refine (continues_bind h₀).trans ?_
    simp only [Bool.not_true, Bool.false_eq_true, if_false]
    refine continues_bind_bdata.trans ?_
    rw [hd₁]
    exact h
  by_cases hmagic : FSMAGIC ≠ (w.disk 0).superblock.magic
  · refine .inr ⟨fun hr => hmagic hr.magic.symm, 1, w₁, hstart ?_⟩
    rw [if_pos hmagic]
    exact .refl _ _
  rw [if_neg hmagic] at hstart
  cases hlayout : (xv6CheckSb (w.disk 0).superblock).1 with
  | false =>
    refine .inr ⟨fun hr => ?_, 1, w₁, hstart ?_⟩
    · have hok := hr.layout
      rw [hlayout] at hok
      cases hok
    · rw [hlayout]
      exact .refl _ _
  | true =>
  rw [hlayout] at hstart
  simp only [Bool.not_true, Bool.false_eq_true, if_false, xv6Docheck.root, hdata] at hstart
  cases r₁ with
  | false =>
    refine .inr ⟨fun hr => absurd hr.inodes (by decide), 2, w₂,
      hstart ((continues_bind h₁).trans ?_)⟩
    simp only [Bool.not_false, if_true]
    exact .refl _ _
  | true =>
  have hroot : ∀ {m : Fs Int} {w' : World},
      Continues (if ((w.disk (w.disk 0).superblock.inodestart).dinode 0).type ≠ 0 then pure 1
        else if (rootInode w.disk).type ≠ T_DIR then Prog.halt .undefined
        else xv6Docheck.entries check (rootInode w.disk)) w₂ m w' →
      Continues (xv6Docheck check) w m w' := by
    intro m w' h
    refine hstart ((continues_bind h₁).trans ?_)
    simp only [Bool.not_true, Bool.false_eq_true, if_false]
    refine continues_bind_bdata.trans ?_
    rw [hd₂]
    exact h
  by_cases hnull : ((w.disk (w.disk 0).superblock.inodestart).dinode 0).type ≠ 0
  · refine .inr ⟨fun hr => hnull hr.null, 1, w₂, hroot ?_⟩
    rw [if_pos hnull]
    exact .refl _ _
  refine .inl ⟨⟨rfl, (not_not.mp hmagic).symm, hlayout, rfl, not_not.mp hnull⟩, hroot ?_⟩
  rw [if_neg hnull]
  exact .refl _ _

theorem entries_panics {root : Dinode} (h : ¬ WholeEntries root.size.toNat) (w : World) :
    (xv6Docheck.entries check root).run w = .error .panic := by
  have hassert : xv6Assert (root.size.toNat % 16 = 0 ∧ 2 * 16 ≤ root.size.toNat) =
      Prog.halt .panic := if_neg h
  simp only [xv6Docheck.entries, xv6DirIterate, hassert]
  rfl

theorem total_entries (hread : ∀ b, Prog.Total (check.bread b)) (hdata : check.bdata = bdata)
    {root : Dinode} (h : WholeEntries root.size.toNat) :
    Prog.Total (xv6Docheck.entries check root) := by
  unfold xv6Docheck.entries
  have hbdata : ∀ b, Prog.Total (check.bdata b) := by
    rw [hdata]
    exact total_bdata
  have hclean : ∀ k de s, ∃ r, dirCheck k de s = .ok r ∧
      (r.1.deDirty = true → ∀ b blk, Prog.Total (check.bflush b blk)) :=
    fun _ _ _ => ⟨_, rfl, fun hdirty => by cases hdirty⟩
  have hiter : Prog.Total (xv6DirIterate check ⟨root.addr, root.size.toNat, false⟩ dirCheck () 2
      false) := by
    refine total_iterate hread hbdata hclean ?_ (by decide) ()
    exact h
  exact .bind hiter fun _ => Prog.total_pure _

/-- The checker returns, or it stops at the inode of the root directory. -/
theorem docheck_outcome (check : Checker) (hread : ∀ b, Prog.Total (check.bread b))
    (hdata : check.bdata = bdata)
    (h₀ : Returns (check.bread 0) w r₀ w₁) (hd₁ : w₁.disk = w.disk)
    (h₁ : Returns (check.bread (w.disk 0).superblock.inodestart) w₁ r₁ w₂)
    (hd₂ : w₂.disk = w.disk) :
    ((RootRead (r₀ = true) (r₁ = true) w.disk → RootFits w.disk) ∧
        ∃ e w', Returns (xv6Docheck check) w e w') ∨
      (RootRead (r₀ = true) (r₁ = true) w.disk ∧ ¬ RootFits w.disk ∧
        (xv6Docheck check).run w = .error (rootHalt w.disk)) := by
  rcases docheck_continues hdata h₀ hd₁ h₁ hd₂ with ⟨hr, hon⟩ | ⟨hno, e, w', hon⟩
  · by_cases hdir : (rootInode w.disk).type = T_DIR
    · rw [if_neg (not_not.mpr hdir)] at hon
      by_cases hwhole : WholeEntries (rootInode w.disk).size.toNat
      · obtain ⟨e, w', hret⟩ := total_entries hread hdata hwhole w₂
        exact .inl ⟨fun _ => ⟨hdir, hwhole⟩, e, w', hon.returns (returns_iff.mpr hret)⟩
      · rw [rootHalt, if_pos hdir]
        exact .inr ⟨hr, fun hfits => hwhole hfits.2, Eq.trans hon (entries_panics hwhole w₂)⟩
    · rw [if_pos hdir] at hon
      rw [rootHalt, if_neg hdir]
      exact .inr ⟨hr, fun hfits => hdir hfits.1, hon⟩
  · exact .inl ⟨fun hr => absurd hr hno, e, w', hon.returns (returns_iff.mpr rfl)⟩

end

/-! ## The kernel module -/

section

variable {w w' : World} {e : Int}

theorem modcheck_reading {evs : List Event} :
    Reading modcheck (· ∈ evs) (fun b r => r = true → .bread b .ok ∈ evs) where
  bread {b r w w'} h := by
    obtain ⟨hmem, hr, hw⟩ := (runs_sbBread b w w' r).mp h
    refine ⟨fun ht => ?_, _, hw⟩
    rw [ht] at hr
    have hok : w.env.io w.log.length = .ok := of_decide_eq_true hr.symm
    rwa [hok] at hmem
  bdata := rfl

theorem modcheck_accepts (h : Returns (xv6Docheck modcheck) w 0 w') :
    ∃ evs, w'.log = evs ++ w.log ∧ Accepted (fun b => .bread b .ok ∈ evs) w.disk := by
  obtain ⟨evs, hlog, -⟩ := h.2
  have hrun : Runs (· ∈ evs) (xv6Docheck modcheck) w 0 w' := ⟨h.1, evs, hlog, fun _ he => he⟩
  have ha := docheck_accepts modcheck_reading hrun
  exact ⟨evs, hlog, ⟨ha.reached.super rfl, ha.reached.magic, ha.reached.layout,
    ha.reached.inodes rfl, ha.reached.null⟩, ha.dir, ha.whole, ha.le,
    fun x hx => ha.blocks x hx rfl⟩

/-- An image on which the checker returns 0 has a sound layout, an inode 0 that is not used, and a
    root directory of a proper size whose allocated blocks have been read. -/
theorem xv6Docheck_sound (h : Returns (xv6Docheck modcheck) w 0 w') :
    (w.disk 0).superblock.Sound ∧
      (∀ inum < (w.disk 0).superblock.ninodes, IBLOCK inum (w.disk 0).superblock ∈
        Set.Ico (w.disk 0).superblock.inodestart
          ((w.disk 0).superblock.inodestart + INODE_BLOCKS (w.disk 0).superblock.ninodes)) ∧
      (∀ b < (w.disk 0).superblock.size, BBLOCK b (w.disk 0).superblock ∈
        Set.Ico (w.disk 0).superblock.bmapstart
          ((w.disk 0).superblock.bmapstart + BITMAP_BLOCKS (w.disk 0).superblock.size)) ∧
      ((w.disk 0).superblock.regions.Pairwise fun r r' => ∀ x ∈ r, x ∉ r') ∧
      (∀ r ∈ (w.disk 0).superblock.regions, r ⊆ Set.Iio (w.disk 0).superblock.size) ∧
      ((w.disk (w.disk 0).superblock.inodestart).dinode 0).type = 0 ∧
      (rootInode w.disk).type = T_DIR ∧
      (rootInode w.disk).size.toNat % 16 = 0 ∧ 32 ≤ (rootInode w.disk).size.toNat ∧
      (rootInode w.disk).size.toNat ≤ MAXFILE * BSIZE ∧
      ∃ evs, w'.log = evs ++ w.log ∧
        ∀ x, Allocated w.disk (rootInode w.disk).addr (rootInode w.disk).size.toNat x →
          .bread x .ok ∈ evs := by
  obtain ⟨evs, hlog, ha⟩ := modcheck_accepts h
  have hs := Superblock.sound_of_check ha.reached.magic (Block.u32_lt _ _) ha.reached.layout
  exact ⟨hs, fun _ hi => hs.iblock hi, fun _ hb => hs.bblock hb, hs.regions_disjoint, hs.regions_le,
    ha.reached.null, ha.dir, ha.whole.1, ha.whole.2, ha.le, evs, hlog, ha.blocks⟩

theorem emptyRoot_sound : (emptyRoot 200 4200 0).superblock.Sound := by
  have hq : Quiet (World.unmounted (Env.calm .little) (emptyRoot 200 4200)).env := fun _ => rfl
  have hsb := emptyRoot_superblock 200 4200 (by decide) (by decide)
  refine (xv6Docheck_sound (xv6Docheck_returns (i := 1) hq hsb rfl ?_ rfl ?_ ?_)).1
  · decide
  · exact emptyRoot_null 200 4200
  · exact Block.dinode_setDinode _ _ (by decide)

theorem modcheck_outcome (w : World) :
    ((RootRead (w.env.io w.log.length = .ok) (w.env.io (w.log.length + 1) = .ok) w.disk →
          RootFits w.disk) ∧
        ∃ e w', Returns (xv6Docheck modcheck) w e w') ∨
      (RootRead (w.env.io w.log.length = .ok) (w.env.io (w.log.length + 1) = .ok) w.disk ∧
        ¬ RootFits w.disk ∧
        (xv6Docheck modcheck).run w = .error (rootHalt w.disk)) := by
  have hbread : ∀ b w, Returns (sbBread b) w (decide (w.env.io w.log.length = .ok))
      (w.logged (.bread b (w.env.io w.log.length))) :=
    fun b w => (runs_sbBread b w _ _).mpr ⟨trivial, rfl, rfl⟩
  have hbread₁ : Returns (sbBread (w.disk 0).superblock.inodestart)
      (w.logged (.bread 0 (w.env.io w.log.length)))
      (decide (w.env.io (w.log.length + 1) = .ok)) _ := hbread _ _
  have hout := docheck_outcome modcheck total_sbBread rfl (hbread 0 w) rfl hbread₁ rfl
  simpa only [decide_eq_true_eq] using hout

/-- The checker of the kernel module returns exactly when the root inode it reads is a directory
    of a size that the iterator takes. -/
theorem xv6Docheck_returns_iff (w : World) :
    (∃ e w', (xv6Docheck modcheck).run w = .ok (e, w')) ↔
      (RootRead (w.env.io w.log.length = .ok) (w.env.io (w.log.length + 1) = .ok) w.disk →
        RootFits w.disk) := by
  rcases modcheck_outcome w with ⟨hfits, e, w', hret⟩ | ⟨hr, hbad, hstop⟩
  · exact iff_of_true ⟨e, w', returns_iff.mp hret⟩ hfits
  · refine iff_of_false ?_ fun hfits => hbad (hfits hr)
    rintro ⟨e, w', hret⟩
    rw [hstop] at hret
    cases hret

/-- An image like `emptyRoot`, but for the inode of its root directory. -/
def rootedImage (root : Dinode) : Disk :=
  Function.update (emptyRoot 200 4200) 1 (Block.setDinode 1 root Buf.zero)

theorem rootedImage_superblock (root : Dinode) : (rootedImage root 0).superblock =
    ⟨FSMAGIC, 4200, 0, 200, 0, 1, 1, 1 + INODE_BLOCKS 200⟩ :=
  emptyRoot_superblock 200 4200 (by decide) (by decide)

theorem rootedImage_null (root : Dinode) : ((rootedImage root 1).dinode 0).type = 0 :=
  (congrArg Dinode.type (Block.dinode_setDinode_ne _ _ (by decide))).trans
    (Block.type_dinode_zero 0)

theorem rootInode_rootedImage (root : Dinode) : rootInode (rootedImage root) = root := by
  unfold rootInode
  rw [rootedImage_superblock]
  exact Block.dinode_setDinode _ _ (by decide)

/-- Nothing need fail for the checker to stop at such an inode, and the kernel with it. -/
theorem rootedImage_stops {root : Dinode}
    (hbad : ¬ (root.type = T_DIR ∧ WholeEntries root.size.toNat)) :
    (xv6Docheck modcheck).run (World.unmounted (Env.calm .little) (rootedImage root)) =
        .error (if root.type = T_DIR then .panic else .undefined) ∧
      xv6FillSuper (World.unmounted (Env.calm .little) (rootedImage root)) =
        .error (if root.type = T_DIR then .panic else .undefined) := by
  have hstop : ∀ w : World, w.disk = rootedImage root → Quiet w.env →
      (xv6Docheck modcheck).run w =
        .error (if root.type = T_DIR then .panic else .undefined) := by
    intro w hd hq
    have hsb := rootedImage_superblock root
    rcases modcheck_outcome w with ⟨hfits, -⟩ | ⟨-, -, h⟩
    · rw [hd] at hfits
      refine absurd (hfits ⟨hq _, ?_, ?_, hq _, ?_⟩) ?_
      · rw [hsb]
      · rw [hsb]
        decide
      · rw [hsb]
        exact rootedImage_null root
      · rw [RootFits, rootInode_rootedImage]
        exact hbad
    · rw [h, hd, rootHalt, rootInode_rootedImage]
  refine ⟨hstop _ rfl fun _ => rfl, ?_⟩
  have hload : Returns xv6FillSuper.superblock
      (World.unmounted (Env.calm .little) (rootedImage root)) (.ok (rootedImage root 0).superblock)
      { World.unmounted (Env.calm .little) (rootedImage root) with
        log := [.bread 0 .ok, .alloc true] } := by
    simp [xv6FillSuper.superblock, Env.calm, World.unmounted, World.logged]
  have hcheck := hstop (World.setFsInfo { World.unmounted (Env.calm .little) (rootedImage root) with
    log := [.bread 0 .ok, .alloc true] } (rootedImage root 0).superblock) rfl fun _ => rfl
  rw [fillSuper_eq (returns_iff.mp hload), xv6FillSuper.root, Prog.run_bind_error hcheck]

/-- The size of the root directory is 0. -/
def zeroRoot : Disk := rootedImage ⟨T_DIR, 0, 0, 1, 0, fun _ => 0⟩

/-- The root directory is a regular file. -/
def fileRoot : Disk := rootedImage ⟨T_FILE, 0, 0, 1, 32, fun _ => 0⟩

/-- Mounting the first panics, and on the second the behaviour of the checker is undefined. -/
theorem bad_roots_stop :
    ((xv6Docheck modcheck).run (World.unmounted (Env.calm .little) zeroRoot) = .error .panic ∧
      xv6FillSuper (World.unmounted (Env.calm .little) zeroRoot) = .error .panic) ∧
    (xv6Docheck modcheck).run (World.unmounted (Env.calm .little) fileRoot) =
        .error .undefined ∧
      xv6FillSuper (World.unmounted (Env.calm .little) fileRoot) = .error .undefined := by
  have hzero := @rootedImage_stops ⟨T_DIR, 0, 0, 1, 0, fun _ => 0⟩ (by decide)
  have hfile := @rootedImage_stops ⟨T_FILE, 0, 0, 1, 32, fun _ => 0⟩ (by decide)
  rw [if_pos rfl] at hzero
  rw [if_neg (by decide)] at hfile
  exact ⟨hzero, hfile⟩

end

end Xv6fs
