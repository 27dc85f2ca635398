/-
  xv6_file_write: a byte overlay.

  One round of the loop looks a block up and stores the next part of the data in it
  (`writeRound_spec`); whatever fails, nothing outside the window of that round changes. A round
  that goes on has met no error, so blocks are owned once when the next one starts, and the
  whole loop is an induction over its rounds (`writeLoop_spec`).
-/
import Xv6fs.File.Access

namespace Xv6fs

section

variable {φ : Event → Prop} {w w' : World} {p : Ptr} {n i : Nat} {A : Nat → Option Addrs}
  {addrs : Addrs} {e : Int}

/-! ## Getting a block -/

/-- How the lookup of a block for writing ends: without a buffer, or with that of the block the
    map then names. -/
theorem xv6InodeWblock_spec {bh : Option Nat} (hr : FileReady w p n A addrs) (hi : i < MAXFILE)
    (h : Runs φ (xv6InodeWblock p i) w (e, bh) w') :
    ∃ addrs', Touched w p n A addrs 0 0 addrs' w' ∧
      ((e < 0 ∧ e ≠ -EFBIG ∧
          (e = -ENOSPC → ∀ x, IsData w.env x → bitSet w.env w'.disk x = true) ∧
          (Faultless w w' → e ≠ - EIO ∧ (w.env.rdonly = false → e = -ENOSPC)) ∧
          (e ≠ - EIO → FileReady w' p n (Function.update A n (some addrs')) addrs')) ∨
        ∃ b, e = 0 ∧ bh = some b ∧ b ≠ 0 ∧ bmap w'.disk addrs' i = b ∧ Faultless w w' ∧
          FileReady w' p n (Function.update A n (some addrs')) addrs') := by
  obtain ⟨e₁, b, ctx, w₁, haddr, hends⟩ := inodeWblock_ends hr.priv h
  clear h
  obtain ⟨addrs', dirty, rfl, hacc⟩ := accessed_of_alloc _ hr.sound hr.hint
    (Owned.held_indirect hr.owned hr.at_n) hi haddr
  dsimp only at hacc
  obtain ⟨hsame, helse, hbefore, hhint⟩ := hacc.effect hr.sound hr.hint hr.owned hr.at_n hi
  obtain ⟨l₁, hw₁⟩ := hacc.frame
  have hinodes : w₁.inodes = w.inodes := by rw [hw₁]
  have hlooked : Faultless w (w.looked p ⟨addrs', (w.inodes p).size % 2 ^ 32, dirty⟩ w₁) ↔
      Faultless w w₁ := faultless_congr rfl
  -- whatever follows leaves the disk alone
  have htouched : ∀ {w₃ : World} (size : Nat) (d : Bool) (l : List Event),
      (size = (w.inodes p).size ∨ size = (w.inodes p).size % 2 ^ 32) →
      w₃ = { w₁.setMap p addrs' size d with log := l } →
      Touched w p n A addrs 0 0 addrs' w₃ := by
    intro w₃ size d l hsize hw₃
    subst hw₃
    refine ⟨⟨size, d, l, hsize, ?_⟩, fun x hx _ => hsame.fbyte hx, helse, hbefore, hhint⟩
    unfold World.setMap
    rw [hinodes, hw₁]
  have hready : ∀ {w₃ : World} (size : Nat) (d : Bool) (l : List Event),
      w₃ = { w₁.setMap p addrs' size d with log := l } →
      Owned w.env w₁.disk (Function.update A n (some addrs')) →
      FileReady w₃ p n (Function.update A n (some addrs')) addrs' := by
    intro w₃ size d l hw₃ howned
    subst hw₃
    have henv : w₁.env = w.env := by rw [hw₁]
    refine ⟨?_, ?_, ?_, Function.update_self _ _ _, ?_⟩
    · show w₁.env.info.Sound
      rw [henv]
      exact hr.sound
    · show HintOk w₁.env w₁.hint
      rw [henv]
      exact hhint
    · show ((w₁.setMap p addrs' size d).inodes p).priv = some addrs'
      rw [World.setMap_inode]
    · show Owned w₁.env w₁.disk _
      rw [henv]
      exact howned
  cases hends with
  | failed hne =>
    obtain ⟨hneg, h1, h2, h3⟩ := hacc.error hr.sound hr.hint hne
    refine ⟨addrs', htouched _ _ w₁.log (.inl rfl) rfl, .inl ⟨hneg, h1, fun h0 => (h2 h0).2,
      fun hf => h3 (hlooked.mp hf), fun he => ?_⟩⟩
    exact hready _ _ w₁.log rfl (hacc.owned hr.sound hr.hint hr.owned hr.at_n hi he)
  | hole => exact absurd rfl (hacc.ok hr.sound hr.hint hr.owned hr.at_n hi).1
  | @unread _ l hb hle hread =>
    obtain ⟨-, -, hf, -⟩ := hacc.ok hr.sound hr.hint hr.owned hr.at_n hi
    refine ⟨addrs', htouched (w.inodes p).size (w.inodes p).dirty l (.inl rfl) rfl,
      .inl ⟨by decide, by decide, fun h0 => absurd h0 (by decide), fun hf' => ?_,
        fun h0 => absurd rfl h0⟩⟩
    have hf₃ := ((faultless_split (s := w) hacc.le hle).mp hf').2
    exact absurd (hread.error.mpr hf₃) (by decide)
  | @opened _ l hb hle hread =>
    obtain ⟨-, hmap, hf, howned⟩ := hacc.ok hr.sound hr.hint hr.owned hr.at_n hi
    refine ⟨addrs', htouched _ _ l ?_ rfl, .inr ⟨b, rfl, rfl, hb, hmap, ?_, ?_⟩⟩
    · cases dirty
      · exact .inl rfl
      · exact .inr rfl
    · have hf₃ := (faultless_split (s := w) hacc.le hle).mpr ⟨hlooked.mpr hf, hread.error.mp rfl⟩
      exact (faultless_congr rfl).mp hf₃
    · exact hready _ _ l rfl howned

/-- From block MAXFILE on there is none. -/
theorem xv6InodeWblock_big (hpriv : (w.inodes p).priv = some addrs) (hi : MAXFILE ≤ i) :
    Returns (xv6InodeWblock p i) w (-EFBIG, none) w := by
  have hinit := initIctx_cached hpriv
  have haddr : Returns (xv6InodeAddr modcheck ⟨addrs, (w.inodes p).size % 2 ^ 32, false⟩ i true) w
      (-EFBIG, 0, ⟨addrs, (w.inodes p).size % 2 ^ 32, false⟩) w := by
    unfold xv6InodeAddr
    rw [if_pos (by exact hi)]
    exact returns_iff.mpr rfl
  have hback := writeBack_returns (w := w) (p := p) ⟨addrs, (w.inodes p).size % 2 ^ 32, false⟩
    (World.addrs_of_priv hpriv).symm
  refine (returns_bind hinit).mpr ((returns_bind haddr).mpr ((returns_bind hback).mpr ?_))
  rw [if_pos (by decide)]
  exact returns_iff.mpr rfl

/-! ## Storing bytes -/

theorem fbyte_store {d : Disk} {b x : Nat} {used : Nat → Prop} (ho : Exclusive used (owns d A))
    (hA : A n = some addrs) (hi : i < MAXFILE) (hb : bmap d addrs i = b) (hne : b ≠ 0) (blk : Block)
    (hx : x < MAXFILE * BSIZE) : fbyte (Function.update d b blk) addrs x =
      if x / BSIZE = i then blk.byte (x % BSIZE) else fbyte d addrs x := by
  subst hb
  have hj : x / BSIZE < MAXFILE := by
    simp only [MAXFILE, BSIZE] at hx ⊢
    omega
  unfold fbyte
  rw [(fblock_store ho hA hi hne blk hA hj).2]
  by_cases heq : x / BSIZE = i
  · rw [if_pos ⟨rfl, heq⟩, if_pos heq]
  · rw [if_neg fun hc => heq hc.2, if_neg heq]

/-- Storing a window of a block changes that window of the file. -/
theorem Touched.store {b off k : Nat} {f : Nat → UInt8} {d : Disk} {l : List Event}
    (hr : FileReady w p n A addrs) (hi : i < MAXFILE) (hb : bmap w.disk addrs i = b) (hne : b ≠ 0)
    (hk : off + k ≤ BSIZE) (h : Stored w.disk b ((w.disk b).patch off k f) e d)
    (hw : w' = { w with disk := d, log := l }) :
    Touched w p n A addrs (i * BSIZE + off) (i * BSIZE + off + k) addrs w' ∧
      FileReady w' p n A addrs ∧
      (e = 0 → ∀ j, j < k → fbyte w'.disk addrs (i * BSIZE + off + j) = f j) := by
  subst hw
  have hbyte := fun x hx => fbyte_store (x := x) hr.owned hr.at_n hi hb hne
    ((w.disk b).patch off k f) hx
  refine ⟨⟨?_, fun x hx hout => ?_, h.elsewhere hr.owned hr.at_n hi hb hne,
    h.before hr.sound hr.owned hr.at_n hi hb hne, hr.hint⟩, ⟨hr.sound, hr.hint, hr.priv, hr.at_n,
    h.owned hr.sound hr.owned hr.at_n hi hb hne⟩, ?_⟩
  · refine ⟨(w.inodes p).size, (w.inodes p).dirty, l, .inl rfl, ?_⟩
    unfold World.setMap
    rw [← hr.priv, Function.update_eq_self]
  · rcases h.disk with rfl | rfl
    · rfl
    · refine (hbyte x hx).trans ?_
      split
      · next heq =>
        have hdm : x / BSIZE * BSIZE + x % BSIZE = x := Nat.div_add_mod' _ _
        rw [Buf.byte_patch_out _ _ (by rw [heq] at hdm; omega), fbyte, fblock, heq, hb, if_neg hne]
      · rfl
  · rintro rfl j hj
    obtain rfl := h.ok
    have hdiv : (i * BSIZE + off + j) / BSIZE = i ∧ (i * BSIZE + off + j) % BSIZE = off + j := by
      simp only [BSIZE] at hk ⊢
      omega
    refine (hbyte (i * BSIZE + off + j) ?_).trans ?_
    · simp only [MAXFILE, BSIZE] at hi hk ⊢
      omega
    · rw [if_pos hdiv.1, hdiv.2, Buf.byte_patch_in _ _ (by exact hk) (by omega) (by omega),
        Nat.add_sub_cancel_left]

/-! ## Copying from the user -/

/-- The byte a copy stores. -/
def UserBuf.byte (buf : UserBuf) (k : Nat) : UInt8 := (buf k).getD 0

/-- A copy stores in its window; without a fault it stores the bytes of the buffer. -/
theorem copyFromUser_spec (blk : Block) (off : Nat) (buf : UserBuf) (src k : Nat) :
    ∃ f, (copyFromUser blk off buf src k).2 = blk.patch off k f ∧
      ((copyFromUser blk off buf src k).1 = false →
        ∀ j, j < k → f j = buf.byte (src + j)) ∧
      ((∀ j, j < k → (buf (src + j)).isSome) → (copyFromUser blk off buf src k).1 = false) := by
  have hall : ∀ j, ((List.range j).all fun j => (buf (src + j)).isSome) = true ↔
      ∀ i, i < j → (buf (src + i)).isSome := fun j => by simp
  refine ⟨fun j => if ((List.range (j + 1)).all fun i => (buf (src + i)).isSome) then
    buf.byte (src + j) else 0, rfl, fun hok j hj => ?_, fun hall' => ?_⟩
  · have hok' : ((List.range k).all fun j => (buf (src + j)).isSome) = true := by
      simpa [copyFromUser] using hok
    exact if_pos ((hall (j + 1)).mpr fun i hi => (hall k).mp hok' i (by omega))
  · have := (hall k).mpr hall'
    simp [copyFromUser, this]

/-! ## The loop -/

/-- What the loop has done when it stops with error `e` after `k` of the `len` bytes of `buf` from
    `src` on, which go to offset `lo` of the file. -/
structure Written (w : World) (p : Ptr) (n : Nat) (A : Nat → Option Addrs) (addrs : Addrs)
    (buf : UserBuf) (src lo len : Nat) (e : Int) (k : Nat) (addrs' : Addrs) (w' : World) :
    Prop where
  later : w ≤ w'
  nonpos : e ≤ 0
  le : k ≤ len
  fits : k ≠ 0 → lo + k ≤ MAXFILE * BSIZE
  touched : Touched w p n A addrs lo (lo + len) addrs' w'
  data : ∀ j, j < k → fbyte w'.disk addrs' (lo + j) = buf.byte (src + j)
  io : Faultless w w' → e ≠ - EIO
  ready : e ≠ - EIO → FileReady w' p n (Function.update A n (some addrs')) addrs'
  all : e = 0 ↔ k = len
  full : e = -ENOSPC → ∀ x, IsData w.env x → bitSet w.env w'.disk x = true
  clean : Faultless w w' → (∀ j, j < len → (buf (src + j)).isSome) →
    Touched w p n A addrs lo (lo + k) addrs' w' ∧
      (w.env.rdonly = false → e = 0 ∨ e = -ENOSPC ∨ e = -EFBIG ∧ MAXFILE * BSIZE ≤ lo + k)

namespace Written

variable {buf : UserBuf} {src lo len k : Nat} {addrs' : Addrs}

theorem stop (hr : FileReady w p n A addrs) (buf : UserBuf) (src lo : Nat) :
    Written w p n A addrs buf src lo 0 0 0 addrs w where
  later := le_refl w
  nonpos := le_refl 0
  le := le_refl 0
  fits h := absurd rfl h
  touched := .refl hr _ _
  data j hj := absurd hj (Nat.not_lt_zero j)
  io _ := by decide
  ready _ := by rwa [update_some_self hr.at_n]
  all := iff_of_true rfl rfl
  full h := absurd h (by decide)
  clean _ _ := ⟨.refl hr _ _, fun _ => .inl rfl⟩

/-- A first part that is written, then the rest. -/
theorem cons {m : Nat} {addrs₁ : Addrs} {w₁ : World}
    (h : Written w p n A addrs buf src lo m 0 m addrs₁ w₁)
    (h' : Written w₁ p n (Function.update A n (some addrs₁)) addrs₁ buf (src + m) (lo + m)
      (len - m) e k addrs' w') (hm : 0 < m) (hle : m ≤ len) :
    Written w p n A addrs buf src lo len e (m + k) addrs' w' := by
  have hfits := h.fits (by omega)
  have hk := h'.le
  refine ⟨h.later.trans h'.later, h'.nonpos, by omega, fun _ => ?_, ?_, fun j hj => ?_,
    fun hf => h'.io ((faultless_split h.later h'.later).mp hf).2, fun he => ?_, ?_,
    fun he => ?_, fun hf hread => ?_⟩
  · by_cases h0 : k = 0
    · omega
    · have := h'.fits h0
      omega
  · exact (h.touched.weaken (le_refl lo) (by omega)).trans
      (h'.touched.weaken (by omega) (by omega))
  · by_cases hlt : j < m
    · rw [h'.touched.bytes (lo + j) (by omega) (.inl (by omega))]
      exact h.data j hlt
    · have := h'.data (j - m) (by omega)
      rwa [show lo + m + (j - m) = lo + j by omega, show src + m + (j - m) = src + j by omega]
        at this
  · have := h'.ready he
    rwa [Function.update_idem] at this
  · rw [h'.all]
    omega
  · have := h'.full he
    rwa [h.touched.env_eq] at this
  · have hcut := (faultless_split h.later h'.later).mp hf
    obtain ⟨h1, -⟩ := h.clean hcut.1 fun j hj => hread j (by omega)
    obtain ⟨h2, h3⟩ := h'.clean hcut.2 fun j hj => by
      have := hread (m + j) (by omega)
      rwa [← Nat.add_assoc] at this
    rw [h.touched.env_eq] at h3
    refine ⟨(h1.weaken (le_refl lo) (by omega)).trans (h2.weaken (by omega) (by omega)),
      fun hrw => ?_⟩
    rcases h3 hrw with h0 | h0 | ⟨h0, hmax⟩
    · exact .inl h0
    · exact .inr (.inl h0)
    · exact .inr (.inr ⟨h0, by omega⟩)

end Written

/-- One round, of `m` bytes: it stops with an error, or has written them. -/
theorem writeRound_spec {buf : UserBuf} {rounds boff nwrite cpos len c k : Nat}
    (hr : FileReady w p n A addrs) (hi : i < MAXFILE) (hboff : boff < BSIZE) (hlen : len ≠ 0)
    (h : Runs φ (xv6FileWrite.loop p buf (rounds + 1) i boff nwrite cpos len) w (e, k, c) w') :
    ∃ m addrs₁ w₁, m = min (BSIZE - boff) len ∧
      ((k = nwrite ∧ c = cpos ∧ w' = w₁ ∧ e ≠ -EFBIG ∧
          Written w p n A addrs buf nwrite (i * BSIZE + boff) len e 0 addrs₁ w₁) ∨
        (Written w p n A addrs buf nwrite (i * BSIZE + boff) m 0 m addrs₁ w₁ ∧
          Runs φ (xv6FileWrite.loop p buf rounds ((i + 1) % 2 ^ 32) 0 (nwrite + m) (cpos + m)
            (len - m)) w₁ (e, k, c) w')) := by
  unfold xv6FileWrite.loop at h
  rw [if_neg hlen] at h
  obtain ⟨⟨e₁, bh⟩, w₁, hblock, hnext⟩ := h.bind
  clear h
  obtain ⟨addrs₁, htouched, hcase⟩ := xv6InodeWblock_spec hr hi hblock
  have hwin : ∀ {hi : Nat}, Touched w p n A addrs (i * BSIZE + boff) hi addrs₁ w₁ := fun {hi} =>
    { htouched with bytes := fun x hx _ => htouched.bytes x hx (.inr (Nat.zero_le x)) }
  have henv := htouched.env_eq
  rcases hcase with ⟨hneg, hbig, hspc, hclean, hready⟩ | ⟨b, rfl, rfl, hb, hmap, hf, hr₁⟩
  · have hne : e₁ ≠ 0 := hneg.ne
    dsimp only at hnext
    rw [if_pos hne] at hnext
    obtain ⟨hres, rfl⟩ := hnext.pure
    cases hres
    refine ⟨_, addrs₁, w₁, rfl, .inl ⟨rfl, rfl, rfl, hbig, ?_⟩⟩
    exact ⟨hblock.mono, hneg.le, Nat.zero_le len, fun h0 => absurd rfl h0, hwin,
      fun j hj => absurd hj (Nat.not_lt_zero j), fun hf => (hclean hf).1, hready,
      iff_of_false hne hlen.symm, hspc, fun hf _ =>
        ⟨hwin, fun hrw => .inr (.inl ((hclean hf).2 hrw))⟩⟩
  simp only [ne_eq, not_true_eq_false, if_false, runs_bind_bdata] at hnext
  have hto : xv6Min (BSIZE - boff) len = min (BSIZE - boff) len := by
    unfold xv6Min
    split <;> omega
  rw [hto] at hnext
  generalize hm : min (BSIZE - boff) len = m at hnext ⊢
  have hm' : boff + m ≤ BSIZE ∧ m ≤ len ∧ 0 < m := by omega
  have hend : i * BSIZE + boff + m ≤ MAXFILE * BSIZE := by
    simp only [MAXFILE, BSIZE] at *
    omega
  obtain ⟨f, hdata, hbytes, hok⟩ := copyFromUser_spec (w₁.disk b) (boff) buf nwrite m
  -- whatever the write-back does, only the window changes
  have hstore : ∀ {e₂ : Int} {w₂ : World},
      Runs φ (syncBuffer b (copyFromUser (w₁.disk b) (boff) buf nwrite m).2) w₁ e₂ w₂ →
      Touched w p n A addrs (i * BSIZE + boff) (i * BSIZE + boff + m) addrs₁ w₂ ∧
        FileReady w₂ p n (Function.update A n (some addrs₁)) addrs₁ ∧
        (e₂ = 0 → ∀ j, j < m → fbyte w₂.disk addrs₁ (i * BSIZE + boff + j) = f j) := by
    intro e₂ w₂ hsync
    obtain ⟨fate, he₂, hw₂⟩ := syncBuffer_fate hsync
    obtain ⟨h1, h2, h3⟩ := Touched.store hr₁ hi hmap hb hm'.1 ⟨fate, he₂, by rw [hdata]⟩ hw₂
    exact ⟨hwin.trans h1, h2, h3⟩
  have hw : ∀ {w₂ : World},
      Touched w p n A addrs (i * BSIZE + boff) (i * BSIZE + boff + m) addrs₁ w₂ →
      Touched w p n A addrs (i * BSIZE + boff) (i * BSIZE + boff + len) addrs₁ w₂ := fun ht =>
    ht.weaken (le_refl _) (by omega)
  rcases hnext.ite with ⟨hfault, hrest⟩ | ⟨hnofault, hrest⟩
  · obtain ⟨e₂, w₂, hsync, hrest⟩ := hrest.bind
    obtain ⟨hres, rfl⟩ := hrest.pure
    cases hres
    obtain ⟨h1, h2, -⟩ := hstore hsync
    refine ⟨m, addrs₁, w₂, rfl, .inl ⟨rfl, rfl, rfl, by decide, ?_⟩⟩
    refine ⟨hblock.mono.trans hsync.mono, by decide, Nat.zero_le len,
      fun h0 => absurd rfl h0, hw h1,
      fun j hj => absurd hj (Nat.not_lt_zero j), fun _ => by decide, fun _ => h2,
      iff_of_false (by decide) hlen.symm, fun h0 => absurd h0 (by decide), fun _ hread => ?_⟩
    rw [hok fun j hj => hread j (by omega)] at hfault
    cases hfault
  obtain ⟨e₂, w₂, hsync, hrest⟩ := hrest.bind
  obtain ⟨h1, h2, h3⟩ := hstore hsync
  obtain ⟨he₂, herr, -⟩ := syncBuffer_spec hsync
  rcases hrest.ite with ⟨hne, hstop⟩ | ⟨heq, hgo⟩
  · have hfail : ¬ Faultless w w₂ := fun hf' =>
      hne (he₂.mpr ((faultless_split hblock.mono hsync.mono).mp hf').2)
    obtain ⟨hres, rfl⟩ := hstop.pure
    cases hres
    have heio : e = - EIO := herr.resolve_left hne
    refine ⟨m, addrs₁, w₂, rfl, .inl ⟨rfl, rfl, rfl, by rw [heio]; decide, ?_⟩⟩
    refine ⟨hblock.mono.trans hsync.mono, by rw [heio]; decide, Nat.zero_le len,
      fun h0 => absurd rfl h0, hw h1,
      fun j hj => absurd hj (Nat.not_lt_zero j), fun hf' => absurd hf' hfail,
      fun h0 => absurd heio h0, iff_of_false hne hlen.symm, fun h0 => ?_,
      fun hf' _ => absurd hf' hfail⟩
    rw [heio] at h0
    exact absurd h0 (by decide)
  · obtain rfl : e₂ = 0 := not_not.mp heq
    have hfalse : (copyFromUser (w₁.disk b) (boff) buf nwrite m).1 = false := by
      simpa using hnofault
    refine ⟨m, addrs₁, w₂, rfl, .inr ⟨?_, hgo⟩⟩
    refine ⟨hblock.mono.trans hsync.mono, le_refl 0, le_refl m, fun _ => hend, h1, fun j hj => ?_,
      fun _ => by decide, fun _ => h2, iff_of_true rfl rfl, fun h0 => absurd h0 (by decide),
      fun _ _ => ⟨h1, fun _ => .inl rfl⟩⟩
    exact (h3 rfl j hj).trans (hbytes hfalse j hj)

/-- With nothing left the loop ends. -/
theorem writeLoop_done {buf : UserBuf} {rounds block boff nwrite cpos c k : Nat}
    (h : Runs φ (xv6FileWrite.loop p buf rounds block boff nwrite cpos 0) w (e, k, c) w') :
    e = 0 ∧ k = nwrite ∧ c = cpos ∧ w' = w := by
  have hpure : xv6FileWrite.loop p buf rounds block boff nwrite cpos 0 =
      pure (0, nwrite, cpos) := by
    cases rounds with
    | zero => rfl
    | succ rounds => exact if_pos rfl
  rw [hpure] at h
  obtain ⟨hres, rfl⟩ := h.pure
  cases hres
  exact ⟨rfl, rfl, rfl, rfl⟩

/-- The whole loop. -/
theorem writeLoop_spec {buf : UserBuf} :
    ∀ {rounds block boff nwrite cpos len k c : Nat} {A : Nat → Option Addrs} {addrs : Addrs}
      {w : World}, FileReady w p n A addrs → len ≤ rounds → boff < BSIZE →
      Runs φ (xv6FileWrite.loop p buf rounds block boff nwrite cpos len) w (e, k, c) w' →
      ∃ j addrs', k = nwrite + j ∧ c = cpos + j ∧
        Written w p n A addrs buf nwrite (block * BSIZE + boff) len e j addrs' w' ∧
        (e = -EFBIG → MAXFILE * BSIZE ≤ block * BSIZE + boff + j)
  | 0, _, _, nwrite, cpos, len, k, c, A, addrs, w, hr, hle, _, h => by
    obtain rfl : len = 0 := by omega
    obtain ⟨rfl, rfl, rfl, rfl⟩ := writeLoop_done h
    exact ⟨0, addrs, rfl, rfl, .stop hr buf _ _, fun h0 => absurd h0 (by decide)⟩
  | rounds + 1, block, boff, nwrite, cpos, len, k, c, A, addrs, w, hr, hle, hboff, h => by
    by_cases h0 : len = 0
    · subst h0
      obtain ⟨rfl, rfl, rfl, rfl⟩ := writeLoop_done h
      exact ⟨0, addrs, rfl, rfl, .stop hr buf _ _, fun h0 => absurd h0 (by decide)⟩
    by_cases hi : block < MAXFILE
    · obtain ⟨m, addrs₁, w₁, hm, ⟨rfl, rfl, rfl, hbig, hwr⟩ | ⟨hwr, hgo⟩⟩ :=
        writeRound_spec hr hi hboff h0 h
      · exact ⟨0, addrs₁, rfl, rfl, hwr, fun he => absurd he hbig⟩
      · have hmod : (block + 1) % 2 ^ 32 = block + 1 := by
          unfold MAXFILE at hi
          omega
        rw [hmod] at hgo
        by_cases hlast : len - m = 0
        · rw [hlast] at hgo
          obtain ⟨rfl, rfl, rfl, rfl⟩ := writeLoop_done hgo
          obtain rfl : m = len := by omega
          exact ⟨m, addrs₁, rfl, rfl, hwr, fun h0 => absurd h0 (by decide)⟩
        obtain ⟨j, addrs', rfl, rfl, hrest, hbig⟩ := writeLoop_spec (hwr.ready (by decide))
          (by omega) (by decide) hgo
        -- the round has filled its block
        have hnext : (block + 1) * BSIZE + 0 = block * BSIZE + boff + m := by
          simp only [BSIZE] at *
          omega
        rw [hnext] at hrest hbig
        refine ⟨m + j, addrs', by omega, by omega, hwr.cons hrest (by omega) (by omega), ?_⟩
        rwa [← Nat.add_assoc]
    · unfold xv6FileWrite.loop at h
      rw [if_neg h0] at h
      obtain ⟨r, w₁, hblock, hnext⟩ := h.bind
      obtain ⟨rfl, rfl⟩ := (Runs.returns hblock).unique (xv6InodeWblock_big hr.priv (not_lt.mp hi))
      have hno : -EFBIG ≠ 0 := by decide
      simp only [ne_eq, hno, not_false_eq_true, if_true] at hnext
      obtain ⟨hres, rfl⟩ := hnext.pure
      cases hres
      have hmax : MAXFILE * BSIZE ≤ block * BSIZE + boff + 0 := by
        simp only [MAXFILE, BSIZE] at hi ⊢
        omega
      refine ⟨0, addrs, rfl, rfl, ⟨le_refl _, by decide, Nat.zero_le len, fun h => absurd rfl h,
        .refl hr _ _,
        fun j hj => absurd hj (Nat.not_lt_zero j), fun _ => by decide, fun _ => ?_,
        iff_of_false hno (Ne.symm h0), fun h => absurd h (by decide), fun _ _ =>
          ⟨.refl hr _ _, fun _ => .inr (.inr ⟨rfl, hmax⟩)⟩⟩,
        fun _ => hmax⟩
      rwa [update_some_self hr.at_n]

end

end Xv6fs
