/-
  xv6_file_write: calls that transfer nothing.

  Such a call ends in the first round of its loop: with nothing to write, without a block, or
  after one write-back that the user's buffer or the device has spoilt. The end of the function
  is the same for all of these. It raises the size to the position, so a call behind the end of
  the file makes the file longer. And what `copy_from_user` leaves in the buffer when it faults
  is written back: zeros, where the file had its bytes.

  `Harmless` is the condition on the state and the arguments under which none of this shows,
  however the call ends. When it fails, some pattern of failures lets it show: a write-back that
  reports an error may have stored the block.
-/
import Xv6fs.File.Available
import Xv6fs.File.Overlay

namespace Xv6fs

section

variable {φ : Event → Prop} {w w' : World} {p : Ptr} {n i : Nat} {A : Nat → Option Addrs}
  {addrs : Addrs} {buf : UserBuf} {append : Bool} {len pos : Nat} {e : Int}

/-! ## The first block -/

/-- The size is cut to 32 bits by a lookup that attaches a block and reports no error, and by no
    other. -/
theorem wblock_size {bh : Option Nat} (hr : FileReady w p n A addrs) (hi : i < MAXFILE)
    (h : Runs φ (xv6InodeWblock p i) w (e, bh) w') :
    (w'.inodes p).size = if e = 0 ∧ addrs.get (viaSlot i) = 0 then (w.inodes p).size % 2 ^ 32
      else (w.inodes p).size := by
  obtain ⟨e₁, b, ctx, w₁, haddr, hends⟩ := inodeWblock_ends hr.priv h
  obtain ⟨addrs', dirty, rfl, hacc⟩ := accessed_of_alloc _ hr.sound hr.hint
    (Owned.held_indirect hr.owned hr.at_n) hi haddr
  have hctx := inodeAddr_ctx hi haddr
  have hdirty : dirty = true ↔ addrs.get (viaSlot i) = 0 := by
    split at hctx
    · next hz =>
      obtain ⟨a, heq⟩ := hctx
      exact iff_of_true (congrArg InodeCtx.dirty heq) hz
    · next hne =>
      have heq := congrArg InodeCtx.dirty hctx
      dsimp only at heq
      exact iff_of_false (by rw [heq]; decide) hne
  cases hends with
  | failed hne => rw [if_neg fun hc => hne hc.1, World.setMap_inode]
  | hole => rw [if_neg fun hc => absurd hc.1 (by decide), World.setMap_inode]
  | unread =>
    rw [if_neg fun hc => absurd hc.1 (by decide)]
    simp only [World.setMap_inode]
  | opened =>
    simp only [World.setMap_inode, hdirty, true_and]

/-! ## What is stored -/

/-- What a copy stores for byte `j` of the buffer: zeros from the first byte that faults on. -/
def UserBuf.copied (buf : UserBuf) (j : Nat) : UInt8 :=
  if (List.range (j + 1)).all fun i => (buf i).isSome then buf.byte j else 0

theorem copyFromUser_copied (blk : Block) (off k : Nat) :
    (copyFromUser blk off buf 0 k).2 = blk.patch off k buf.copied := by
  simp only [copyFromUser, Nat.zero_add]
  rfl

/-- The count of bytes transferred only grows. -/
theorem writeLoop_nwrite : ∀ {rounds block boff nwrite cpos len k c : Nat} {w : World},
    Runs φ (xv6FileWrite.loop p buf rounds block boff nwrite cpos len) w (e, k, c) w' → nwrite ≤ k
  | 0, _, _, _, _, _, _, _, _, h => by
    cases h.pure.1
    exact le_refl _
  | rounds + 1, _, _, _, _, _, _, _, _, h => by
    unfold xv6FileWrite.loop at h
    rcases h.ite with ⟨-, h⟩ | ⟨-, h⟩
    · cases h.pure.1
      exact le_refl _
    obtain ⟨⟨e₁, bh⟩, w₁, -, h⟩ := h.bind
    rcases h.ite with ⟨-, h⟩ | ⟨-, h⟩
    · cases h.pure.1
      exact le_refl _
    cases bh with
    | none => exact h.halt.elim
    | some b =>
    simp only [runs_bind_bdata] at h
    rcases h.ite with ⟨-, h⟩ | ⟨-, h⟩
    · obtain ⟨e₂, w₂, -, h⟩ := h.bind
      cases h.pure.1
      exact le_refl _
    obtain ⟨e₂, w₂, -, h⟩ := h.bind
    rcases h.ite with ⟨-, h⟩ | ⟨-, h⟩
    · cases h.pure.1
      exact le_refl _
    · exact le_trans (Nat.le_add_right _ _) (writeLoop_nwrite h)

/-- How a write that transfers nothing ends, after which state its size is set. -/
inductive FirstRound (w : World) (p : Ptr) (buf : UserBuf) (start len : Nat) (w' : World) :
    Prop where
  | empty (hlen : len = 0) (hw : w' = w)
  | refused {e : Int} {bh : Option Nat} (hlen : len ≠ 0) (he : e ≠ 0)
      (h : Returns (xv6InodeWblock p (start / BSIZE % 2 ^ 32)) w (e, bh) w')
  | spoilt {b : Nat} {w₁ : World} {f : Fate} (hlen : len ≠ 0)
      (h : Returns (xv6InodeWblock p (start / BSIZE % 2 ^ 32)) w (0, some b) w₁)
      (hf : f = w₁.env.io w₁.log.length)
      (hw : w' = { w₁ with
        disk := f.store w₁.disk b
          ((w₁.disk b).patch (start % BSIZE) (min (BSIZE - start % BSIZE) len) buf.copied)
        log := .sync b f :: w₁.log })

theorem firstRound {r : Int} {c : Nat} (hr : FileReady w p n A addrs)
    (h : Returns (xv6FileWrite p append buf len pos) w (r, c) w') (h0 : r ≤ 0) :
    ∃ w₁, FirstRound w p buf (writeStart w p append pos) len w₁ ∧
      w' = w₁.setSize p (xv6Max (w₁.inodes p).size (writeStart w p append pos)) := by
  have hstart : (if append = true then (w.inodes p).size else pos) =
      writeStart w p append pos := rfl
  simp only [xv6FileWrite, runs_bind_getInode, hstart] at h
  obtain ⟨⟨e, k, c'⟩, w₁, hloop, hend⟩ := h.bind
  simp only [runs_bind_modifyInode] at hend
  obtain ⟨hres, rfl⟩ := hend.pure
  cases hres
  obtain ⟨j, addrs', hk, hc, hwr, -⟩ := writeLoop_spec hr (le_refl len)
    (Nat.mod_lt _ (by decide)) hloop
  have hj : j = 0 := by
    by_contra hne
    rw [if_neg (by omega)] at h0
    omega
  subst hj
  subst hc
  obtain rfl : k = 0 := hk
  refine ⟨w₁, ?_, rfl⟩
  by_cases hlen : len = 0
  · subst hlen
    obtain ⟨-, -, -, rfl⟩ := writeLoop_done hloop
    exact .empty rfl rfl
  obtain ⟨rounds, rfl⟩ : ∃ rounds, len = rounds + 1 := ⟨len - 1, by omega⟩
  unfold xv6FileWrite.loop at hloop
  rw [if_neg hlen] at hloop
  obtain ⟨⟨e₁, bh⟩, w₂, hblock, hnext⟩ := hloop.bind
  clear hloop
  rcases hnext.ite with ⟨hne, hend⟩ | ⟨heq, hend⟩
  · obtain ⟨-, rfl⟩ := hend.pure
    exact .refused hlen hne hblock
  obtain rfl : e₁ = 0 := not_not.mp heq
  cases bh with
  | none => exact hend.halt.elim
  | some b =>
  have hto : xv6Min (BSIZE - writeStart w p append pos % BSIZE) (rounds + 1) =
      min (BSIZE - writeStart w p append pos % BSIZE) (rounds + 1) := xv6Min_eq_min ..
  simp only [runs_bind_bdata, hto, copyFromUser_copied] at hend
  have hspoilt : ∀ {e₂ : Int} {w₃ : World},
      Runs (fun _ => True) (syncBuffer b ((w₂.disk b).patch (writeStart w p append pos % BSIZE)
        (min (BSIZE - writeStart w p append pos % BSIZE) (rounds + 1)) buf.copied)) w₂ e₂ w₃ →
      FirstRound w p buf (writeStart w p append pos) (rounds + 1) w₃ := by
    intro e₂ w₃ hsync
    obtain ⟨-, -, hw⟩ := (runs_syncBuffer ..).mp hsync
    exact .spoilt hlen hblock rfl hw
  rcases hend.ite with ⟨-, hend⟩ | ⟨-, hend⟩
  · obtain ⟨e₂, w₃, hsync, hend⟩ := hend.bind
    obtain ⟨-, rfl⟩ := hend.pure
    exact hspoilt hsync
  obtain ⟨e₂, w₃, hsync, hend⟩ := hend.bind
  rcases hend.ite with ⟨-, hend⟩ | ⟨-, hend⟩
  · obtain ⟨-, rfl⟩ := hend.pure
    exact hspoilt hsync
  · -- a round that goes on has transferred bytes
    have hsome := writeLoop_nwrite hend
    have hpos : 0 < BSIZE - writeStart w p append pos % BSIZE :=
      Nat.sub_pos_of_lt (Nat.mod_lt _ (by decide))
    omega

/-! ## What the user sees -/

/-- The size of the file and its bytes below that size are those of `w`. -/
structure SameSeen (w : World) (p : Ptr) (w' : World) : Prop where
  size : (w'.inodes p).size = (w.inodes p).size
  bytes : ∀ x, x < (w.inodes p).size → x < MAXFILE * BSIZE →
    fbyte w'.disk (w'.addrs p) x = fbyte w.disk (w.addrs p) x

/-- The write starts inside the file. And if its first block is to be had, the size is not cut when
    the block is attached, and what is stored below the size is what is there. -/
structure Harmless (w : World) (p : Ptr) (buf : UserBuf) (start len : Nat) : Prop where
  inside : start ≤ (w.inodes p).size
  first : len ≠ 0 → BlockAvailable w p (start / BSIZE % 2 ^ 32) →
    ((w.inodes p).size < 2 ^ 32 ∨ (w.addrs p).get (viaSlot (start / BSIZE % 2 ^ 32)) ≠ 0 ∨
      start = (w.inodes p).size) ∧
    ∀ j, j < min (BSIZE - start % BSIZE) len → landing start + j < (w.inodes p).size →
      buf.copied j = fbyte w.disk (w.addrs p) (landing start + j)

/-- The same for one run from `w`, in which the write-back may be lost. -/
structure RunHarmless (w : World) (p : Ptr) (buf : UserBuf) (start len : Nat) : Prop where
  inside : start ≤ (w.inodes p).size
  first : len ≠ 0 → ∀ b w₁,
    Returns (xv6InodeWblock p (start / BSIZE % 2 ^ 32)) w (0, some b) w₁ →
    ((w.inodes p).size < 2 ^ 32 ∨ (w.addrs p).get (viaSlot (start / BSIZE % 2 ^ 32)) ≠ 0 ∨
      start = (w.inodes p).size) ∧
    (w₁.env.io w₁.log.length = .lost ∨
      ∀ j, j < min (BSIZE - start % BSIZE) len → landing start + j < (w.inodes p).size →
        buf.copied j = fbyte w.disk (w.addrs p) (landing start + j))

theorem sameSeen_setSize {w₁ : World} {size : Nat} : SameSeen w p (w₁.setSize p size) ↔
    size = (w.inodes p).size ∧ ∀ x, x < (w.inodes p).size → x < MAXFILE * BSIZE →
      fbyte w₁.disk (w₁.addrs p) x = fbyte w.disk (w.addrs p) x := by
  have hsize : ((w₁.setSize p size).inodes p).size = size := by rw [World.setSize_inode]
  constructor
  · rintro ⟨h1, h2⟩
    rw [hsize] at h1
    rw [World.addrs_setSize] at h2
    exact ⟨h1, h2⟩
  · rintro ⟨h1, h2⟩
    refine ⟨hsize.trans h1, ?_⟩
    rw [World.addrs_setSize]
    exact h2

/-- The write-back of a window of a block leaves the bytes of the file alone when it is lost, or
    stores what is there. -/
theorem stored_same_iff {d : Disk} {env : Env} {b off k : Nat} (size : Nat) {f : Fate}
    {g : Nat → UInt8} (ho : Owned env d A) (hA : A n = some addrs) (hi : i < MAXFILE)
    (hb : bmap d addrs i = b) (hne : b ≠ 0) (hk : off + k ≤ BSIZE) :
    (∀ x, x < size → x < MAXFILE * BSIZE →
        fbyte (f.store d b ((d b).patch off k g)) addrs x = fbyte d addrs x) ↔
      f = .lost ∨ ∀ j, j < k → i * BSIZE + off + j < size →
        g j = fbyte d addrs (i * BSIZE + off + j) := by
  have hpos : ∀ {j}, j < k → (i * BSIZE + off + j) / BSIZE = i ∧
      (i * BSIZE + off + j) % BSIZE = off + j ∧ i * BSIZE + off + j < MAXFILE * BSIZE := by
    intro j hj
    simp only [MAXFILE, BSIZE] at hi hk ⊢
    omega
  unfold Fate.store
  by_cases hlost : f = .lost
  · rw [if_pos hlost]
    exact iff_of_true (fun _ _ _ => rfl) (.inl hlost)
  rw [if_neg hlost, or_iff_right hlost]
  have hbyte := fun x hx => fbyte_store (x := x) ho hA hi hb hne ((d b).patch off k g) hx
  constructor
  · intro h j hj hlt
    obtain ⟨hdiv, hmod, hmax⟩ := hpos hj
    have hsame := h _ hlt hmax
    rw [hbyte _ hmax, if_pos hdiv, hmod, Buf.byte_patch_in _ _ (by exact hk) (by omega)
      (by omega), Nat.add_sub_cancel_left] at hsame
    exact hsame
  · intro h x hx hmax
    rw [hbyte x hmax]
    split
    · next heq =>
      have hdm : i * BSIZE + x % BSIZE = x := by
        rw [← heq]
        exact Nat.div_add_mod' _ _
      by_cases hin : off ≤ x % BSIZE ∧ x % BSIZE < off + k
      · obtain ⟨j, hj⟩ : ∃ j, x % BSIZE = off + j := ⟨x % BSIZE - off, by omega⟩
        obtain rfl : x = i * BSIZE + off + j := by omega
        rw [Buf.byte_patch_in _ _ (by exact hk) hin.1 hin.2, hj, Nat.add_sub_cancel_left]
        exact h j (by omega) hx
      · rw [Buf.byte_patch_out _ _ (by omega), fbyte, fblock, heq, hb, if_neg hne]
    · rfl

/-- A lookup of the first block that has ended: the bytes of the file are those before, and it
    has given a buffer only for a block below MAXFILE. -/
theorem wblock_bytes {bh : Option Nat} (hr : FileReady w p n A addrs)
    (h : Returns (xv6InodeWblock p i) w (e, bh) w') :
    ((w'.inodes p).size = if e = 0 ∧ addrs.get (viaSlot i) = 0 then (w.inodes p).size % 2 ^ 32
        else (w.inodes p).size) ∧
      (∀ x, x < MAXFILE * BSIZE → fbyte w'.disk (w'.addrs p) x = fbyte w.disk addrs x) ∧
      (e = 0 → i < MAXFILE ∧ ∃ b, bh = some b ∧ b ≠ 0 ∧ bmap w'.disk (w'.addrs p) i = b ∧
        FileReady w' p n (Function.update A n (some (w'.addrs p))) (w'.addrs p)) := by
  by_cases hi : i < MAXFILE
  · obtain ⟨addrs', htouched, hcase⟩ := xv6InodeWblock_spec hr hi h
    obtain ⟨size, dirty, -, hino⟩ := htouched.inode
    have haddrs : w'.addrs p = addrs' := World.addrs_of_priv (by rw [hino])
    rw [haddrs]
    refine ⟨wblock_size hr hi h, fun x hx => htouched.bytes x hx (.inr (Nat.zero_le x)),
      fun h0 => ?_⟩
    rcases hcase with ⟨hneg, -⟩ | ⟨b, -, rfl, hb, hmap, -, hr₁⟩
    · exact absurd h0 hneg.ne
    · exact ⟨hi, b, rfl, hb, hmap, hr₁⟩
  · obtain ⟨hres, rfl⟩ := h.unique (xv6InodeWblock_big hr.priv (not_lt.mp hi))
    cases hres
    rw [if_neg fun hc => absurd hc.1 (by decide), World.addrs_of_priv hr.priv]
    exact ⟨rfl, fun _ _ => rfl, fun h0 => absurd h0 (by decide)⟩

theorem max_cut_iff (size start : Nat) (cut : Prop) [Decidable cut] :
    xv6Max (if cut then size % 2 ^ 32 else size) start = size ↔
      start ≤ size ∧ (cut → size < 2 ^ 32 ∨ start = size) := by
  unfold xv6Max
  split
  · next hcut =>
    simp only [hcut, forall_const]
    split <;> omega
  · next hcut =>
    simp only [hcut, false_imp_iff, and_true]
    split <;> omega

theorem firstRound_seen_iff {start : Nat} (hr : FileReady w p n A addrs)
    (h : FirstRound w p buf start len w') :
    SameSeen w p (w'.setSize p (xv6Max (w'.inodes p).size start)) ↔
      RunHarmless w p buf start len := by
  have hpriv := World.addrs_of_priv hr.priv
  rw [sameSeen_setSize, hpriv]
  have hplain : ∀ {w₁ : World}, (w₁.inodes p).size = (w.inodes p).size →
      (∀ x, x < MAXFILE * BSIZE → fbyte w₁.disk (w₁.addrs p) x = fbyte w.disk addrs x) →
      (len ≠ 0 → ∀ b w₂,
        ¬ Returns (xv6InodeWblock p (start / BSIZE % 2 ^ 32)) w (0, some b) w₂) →
      (xv6Max (w₁.inodes p).size start = (w.inodes p).size ∧
        (∀ x, x < (w.inodes p).size → x < MAXFILE * BSIZE →
          fbyte w₁.disk (w₁.addrs p) x = fbyte w.disk addrs x) ↔
        RunHarmless w p buf start len) := by
    intro w₁ hsize hbytes hno
    rw [hsize]
    have hmax := max_cut_iff (w.inodes p).size start False
    rw [if_neg not_false] at hmax
    rw [hmax]
    constructor
    · rintro ⟨⟨hin, -⟩, -⟩
      exact ⟨hin, fun hlen b w₂ hb => absurd hb (hno hlen b w₂)⟩
    · rintro ⟨hin, -⟩
      exact ⟨⟨hin, False.elim⟩, fun x _ hx => hbytes x hx⟩
  cases h with
  | empty hlen hw =>
    subst hw
    refine hplain rfl (fun x _ => ?_) fun hne => absurd hlen hne
    rw [hpriv]
  | refused hlen he hret =>
    obtain ⟨hsize, hbytes, -⟩ := wblock_bytes hr hret
    rw [if_neg fun hc => he hc.1] at hsize
    refine hplain hsize hbytes fun _ b w₂ hb => ?_
    cases (hret.unique hb).1
    exact he rfl
  | @spoilt b w₁ f hlen hret hf hw =>
    obtain ⟨hsize, hbytes, hok⟩ := wblock_bytes hr hret
    obtain ⟨hi, b', hb', hb, hmap, hr₁⟩ := hok rfl
    cases hb'
    have hinodes : w'.inodes = w₁.inodes := by rw [hw]
    have haddrs : w'.addrs p = w₁.addrs p := by
      rw [World.addrs_of_priv hr₁.priv, World.addrs_of_priv (by rw [hinodes]; exact hr₁.priv)]
    have hk : start % BSIZE + min (BSIZE - start % BSIZE) len ≤ BSIZE := by
      have hlt : start % BSIZE < BSIZE := Nat.mod_lt _ (by decide)
      omega
    have hstore := stored_same_iff (f := f) (g := buf.copied) (w.inodes p).size hr₁.owned hr₁.at_n
      hi hmap hb hk
    have hdisk : w'.disk = f.store w₁.disk b
        ((w₁.disk b).patch (start % BSIZE) (min (BSIZE - start % BSIZE) len) buf.copied) := by
      rw [hw]
    have hbytes' : (∀ x, x < (w.inodes p).size → x < MAXFILE * BSIZE →
        fbyte w'.disk (w'.addrs p) x = fbyte w.disk addrs x) ↔
        f = .lost ∨ ∀ j, j < min (BSIZE - start % BSIZE) len →
          landing start + j < (w.inodes p).size →
          buf.copied j = fbyte w.disk addrs (landing start + j) := by
      rw [haddrs, hdisk]
      refine Iff.trans (forall₃_congr fun x _ hx => ?_) (hstore.trans (or_congr_right
        (forall₃_congr fun j hj _ => ?_)))
      · rw [hbytes x hx]
      · have hmax : start / BSIZE % 2 ^ 32 * BSIZE + start % BSIZE + j < MAXFILE * BSIZE := by
          simp only [MAXFILE, BSIZE] at hi hk hj ⊢
          omega
        rw [hbytes _ hmax]
        rfl
    have hcut : (w₁.inodes p).size = if addrs.get (viaSlot (start / BSIZE % 2 ^ 32)) = 0 then
        (w.inodes p).size % 2 ^ 32 else (w.inodes p).size := by
      rw [hsize]
      simp only [true_and]
    rw [hinodes, hcut, max_cut_iff, hbytes']
    constructor
    · rintro ⟨⟨hin, hsmall⟩, hsame⟩
      refine ⟨hin, fun _ b₂ w₂ hret₂ => ?_⟩
      obtain ⟨heq, rfl⟩ := hret.unique hret₂
      cases heq
      rw [hpriv, ← hf]
      refine ⟨?_, hsame⟩
      by_cases hz : addrs.get (viaSlot (start / BSIZE % 2 ^ 32)) = 0
      · exact (hsmall hz).imp_right .inr
      · exact .inr (.inl hz)
    · rintro ⟨hin, hfirst⟩
      obtain ⟨hsmall, hsame⟩ := hfirst hlen b w₁ hret
      rw [hpriv, ← hf] at hsame
      rw [hpriv] at hsmall
      refine ⟨⟨hin, fun hz => ?_⟩, hsame⟩
      rcases hsmall with h | h | h
      · exact .inl h
      · exact absurd hz h
      · exact .inr h

theorem run_seen_iff {r : Int} {c : Nat} (hr : FileReady w p n A addrs)
    (h : Returns (xv6FileWrite p append buf len pos) w (r, c) w') (h0 : r ≤ 0) :
    SameSeen w p w' ↔ RunHarmless w p buf (writeStart w p append pos) len := by
  obtain ⟨w₁, hround, rfl⟩ := firstRound hr h h0
  exact firstRound_seen_iff hr hround

/-! ## Runs that transfer nothing -/

theorem wblock_neg {bh : Option Nat} (hr : FileReady w p n A addrs)
    (h : Returns (xv6InodeWblock p i) w (e, bh) w') (hne : e ≠ 0) : e < 0 := by
  by_cases hi : i < MAXFILE
  · obtain ⟨addrs', -, ⟨hneg, -⟩ | ⟨b, h0, -⟩⟩ := xv6InodeWblock_spec hr hi h
    · exact hneg
    · exact absurd h0 hne
  · obtain ⟨hres, -⟩ := h.unique (xv6InodeWblock_big hr.priv (not_lt.mp hi))
    cases hres
    decide

theorem fileWrite_of_loop {c : Nat} (w₁ : World)
    (h : Returns (xv6FileWrite.loop p buf len (writeStart w p append pos / BSIZE % 2 ^ 32)
      (writeStart w p append pos % BSIZE) 0 (writeStart w p append pos) len) w (e, 0, c) w₁)
    (he : e ≤ 0) :
    ∃ r c w', Returns (xv6FileWrite p append buf len pos) w (r, c) w' ∧ r ≤ 0 := by
  have hstart : (if append = true then (w.inodes p).size else pos) =
      writeStart w p append pos := rfl
  refine ⟨if e ≠ 0 ∧ (0 : Nat) = 0 then e else (0 : Nat), c,
    w₁.setSize p (xv6Max (w₁.inodes p).size c), ?_, ?_⟩
  · simp only [xv6FileWrite, Returns, runs_bind_getInode, hstart]
    refine (returns_bind h).mpr ?_
    simp only [Returns, runs_bind_modifyInode]
    exact (Prog.via_pure _ _ _ _).mpr ⟨rfl, rfl⟩
  · split
    · exact he
    · exact le_refl _

/-- With nothing to write. -/
theorem fileWrite_empty (w : World) : ∃ r c w',
    Returns (xv6FileWrite p append buf 0 pos) w (r, c) w' ∧ r ≤ 0 :=
  fileWrite_of_loop w ((Prog.via_pure _ _ _ _).mpr ⟨rfl, rfl⟩) (le_refl 0)

/-- Without a block. -/
theorem fileWrite_refused {bh : Option Nat} {w₁ : World} (hlen : len ≠ 0) (he : e < 0)
    (h : Returns (xv6InodeWblock p (writeStart w p append pos / BSIZE % 2 ^ 32)) w (e, bh) w₁) :
    ∃ r c w', Returns (xv6FileWrite p append buf len pos) w (r, c) w' ∧ r ≤ 0 := by
  obtain ⟨rounds, rfl⟩ : ∃ rounds, len = rounds + 1 := ⟨len - 1, by omega⟩
  refine fileWrite_of_loop w₁ (c := writeStart w p append pos) ?_ he.le
  unfold xv6FileWrite.loop
  rw [if_neg hlen]
  refine (returns_bind h).mpr ?_
  dsimp only
  rw [if_pos he.ne]
  exact (Prog.via_pure _ _ _ _).mpr ⟨rfl, rfl⟩

/-- With a write-back that fails. -/
theorem fileWrite_spoilt {b : Nat} {w₁ : World} (hlen : len ≠ 0)
    (h : Returns (xv6InodeWblock p (writeStart w p append pos / BSIZE % 2 ^ 32)) w (0, some b) w₁)
    (hio : w₁.env.io w₁.log.length ≠ .ok) :
    ∃ r c w', Returns (xv6FileWrite p append buf len pos) w (r, c) w' ∧ r ≤ 0 := by
  obtain ⟨rounds, rfl⟩ : ∃ rounds, len = rounds + 1 := ⟨len - 1, by omega⟩
  have hsync : ∀ blk, ∃ w₂, Returns (syncBuffer b blk) w₁ (- EIO) w₂ := fun blk =>
    ⟨_, (runs_syncBuffer _ _ _ _ _).mpr ⟨trivial, (if_neg hio).symm, rfl⟩⟩
  obtain ⟨fault, data, hcopy⟩ : ∃ fault data, copyFromUser (w₁.disk b)
      (writeStart w p append pos % BSIZE) buf 0
      (xv6Min (BSIZE - writeStart w p append pos % BSIZE) (rounds + 1)) = (fault, data) :=
    ⟨_, _, rfl⟩
  obtain ⟨w₂, hw₂⟩ := hsync data
  refine fileWrite_of_loop w₂ (c := writeStart w p append pos)
    (e := if fault then -EFAULT else - EIO) ?_ (by split <;> decide)
  unfold xv6FileWrite.loop
  rw [if_neg hlen]
  refine (returns_bind h).mpr ?_
  simp only [ne_eq, not_true_eq_false, if_false, Returns, runs_bind_bdata, hcopy]
  cases fault with
  | true =>
    rw [if_pos rfl]
    exact (returns_bind hw₂).mpr ((Prog.via_pure _ _ _ _).mpr ⟨rfl, rfl⟩)
  | false =>
    rw [if_neg (by decide)]
    refine (returns_bind hw₂).mpr ?_
    rw [if_pos (by decide)]
    exact (Prog.via_pure _ _ _ _).mpr ⟨rfl, rfl⟩

/-! ## Every way a call can end -/

theorem FileReady.under (hr : FileReady w p n A addrs) (io : Nat → Fate) (fuel : Nat) :
    FileReady (w.under io fuel) p n A addrs :=
  ⟨hr.sound, hr.hint, hr.priv, hr.at_n, hr.owned⟩

theorem available_under (io : Nat → Fate) (fuel : Nat) :
    BlockAvailable (w.under io fuel) p i ↔ BlockAvailable w p i :=
  and_congr_right fun _ => or_congr Iff.rfl (canTake_congr io fuel w.log _ w)

/-- Calls that transfer nothing, however they end, leave the size and the bytes below it as they
    were exactly when the write is harmless. -/
theorem fileWrite_nothing_iff (hr : FileReady w p n A addrs) :
    (∀ io fuel r c w', Returns (xv6FileWrite p append buf len pos) (w.under io fuel) (r, c) w' →
      r ≤ 0 → SameSeen w p w') ↔ Harmless w p buf (writeStart w p append pos) len := by
  have hstart : ∀ io fuel, writeStart (w.under io fuel) p append pos = writeStart w p append pos :=
    fun _ _ => rfl
  constructor
  · intro hall
    have hseen : ∀ io fuel, (∃ r c w', Returns (xv6FileWrite p append buf len pos)
        (w.under io fuel) (r, c) w' ∧ r ≤ 0) →
        RunHarmless (w.under io fuel) p buf (writeStart w p append pos) len := by
      intro io fuel ⟨r, c, w', hrun, h0⟩
      have hsame := hall io fuel r c w' hrun h0
      exact (run_seen_iff (hr.under io fuel) hrun h0).mp ⟨hsame.size, hsame.bytes⟩
    constructor
    · by_cases hlen : len = 0
      · rw [hlen] at hseen
        exact (hseen w.env.io 0 (fileWrite_empty _)).inside
      · -- on a disk on which everything fails the call ends too
        obtain ⟨fuel, e, bh, w₁, hlost, hne⟩ :=
          wblock_lost hr (writeStart w p append pos / BSIZE % 2 ^ 32)
        have hneg := wblock_neg (hr.under _ fuel) hlost hne
        exact (hseen _ fuel (fileWrite_refused hlen hneg hlost)).inside
    · intro hlen havail
      obtain ⟨b, w₁, hcalm⟩ := wblock_of_available (hr.under (fun _ => .ok) 1) (fun _ => rfl) rfl
        ((available_under _ 1).mpr havail)
      -- the same lookup, and then a write-back that fails and yet stores the block
      obtain ⟨io, hio⟩ : ∃ io : Nat → Fate,
          io = fun k => if k = w₁.log.length then .kept else .ok := ⟨_, rfl⟩
      have hreplay : Replays io (w.under (fun _ => .ok) 1) w₁ := by
        refine Faultless.replays (hcalm.faultless fun _ => rfl) fun k hk => ?_
        rw [hio]
        exact if_neg hk.ne
      have hrun := returns_iff.mpr (local_inodeWblock p _ _ _ _ io (returns_iff.mp hcalm) hreplay)
      have hkept : (w₁.withIo io).env.io (w₁.withIo io).log.length = .kept := by
        show io w₁.log.length = .kept
        rw [hio]
        exact if_pos rfl
      obtain ⟨hsize, hbytes⟩ := (hseen io 1 (fileWrite_spoilt hlen hrun
        (by rw [hkept]; decide))).first hlen b _ hrun
      refine ⟨hsize, hbytes.resolve_left ?_⟩
      rw [hkept]
      decide
  · intro hharm io fuel r c w' hrun h0
    have hseen : SameSeen (w.under io fuel) p w' := by
      refine (run_seen_iff (hr.under io fuel) hrun h0).mpr ⟨hharm.inside, fun hlen b w₁ hb => ?_⟩
      have havail := (available_under io fuel).mp (available_of_wblock (hr.under io fuel) hb)
      obtain ⟨hsize, hbytes⟩ := hharm.first hlen havail
      exact ⟨hsize, .inr hbytes⟩
    exact ⟨hseen.size, hseen.bytes⟩

end

/-! ## Calls that show -/

/-- A write of nothing behind the end makes a file of 5 bytes one of 10. With a buffer that cannot
    be read the first of its bytes, a 1, becomes 0. -/
theorem five_bytes_grow_and_fade :
    (∃ w', Returns (xv6FileWrite 0 false (fun _ => none) 0 10) fiveBytesUsed (0, 10) w' ∧
        ¬ SameSeen fiveBytesUsed 0 w') ∧
      ∃ w', Returns (xv6FileWrite 0 false (fun _ => none) 3 0) fiveBytesUsed (-EFAULT, 0) w' ∧
        ¬ SameSeen fiveBytesUsed 0 w' := by
  refine ⟨⟨_, returns_after (by decide +kernel), fun h => ?_⟩,
    _, returns_after (by decide +kernel), fun h => ?_⟩
  · have hsize := h.size
    revert hsize
    decide +kernel
  · have hbyte := h.bytes 0 (by decide) (by decide)
    revert hbyte
    decide +kernel

/-- At the end of the file a buffer that cannot be read shows nowhere. -/
theorem five_bytes_append_fault : (fiveBytesUsed.inodes 0).size = 5 ∧ ∀ io fuel r c w',
    Returns (xv6FileWrite 0 true (fun _ => none) 3 0) (fiveBytesUsed.under io fuel) (r, c) w' →
      r ≤ 0 → SameSeen fiveBytesUsed 0 w' := by
  refine ⟨rfl, (fileWrite_nothing_iff fiveBytesUsed_ready).mpr
    ⟨by decide, fun _ _ => ⟨.inl (by decide), fun j _ hlt => ?_⟩⟩⟩
  have hland : landing (writeStart fiveBytesUsed 0 true 0) = 5 := by decide
  rw [hland] at hlt
  exact absurd hlt (not_lt.mpr (Nat.le_add_right 5 j))

end Xv6fs
