/-
  xv6_file_write: where a call writes, and what it writes.

  A call is its loop followed by the update of the size (`fileWrite_spec`). The block the loop
  starts with is `cpos / BSIZE` taken modulo 2^32, so a call lands at its position as long as
  that block number fits 32 bits (`fileWrite_in_place_iff`), and there it is a byte overlay
  (`fileWrite_overlay`).
-/
import Xv6fs.File.Write
import Xv6fs.File.Read

namespace Xv6fs

section

variable {φ : Event → Prop} {w w' : World} {p : Ptr} {n : Nat} {A : Nat → Option Addrs}
  {addrs : Addrs} {buf : UserBuf} {append : Bool} {len pos : Nat}

/-! ## One call -/

/-- Where a write starts: at the end of the file when it appends. -/
def writeStart (w : World) (p : Ptr) (append : Bool) (pos : Nat) : Nat :=
  if append then (w.inodes p).size else pos

/-- The state after the size of an inode has been stored in core. -/
def World.setSize (w : World) (p : Ptr) (size : Nat) : World :=
  { w with inodes := Function.update w.inodes p { w.inodes p with size := size } }

@[simp] theorem World.setSize_inode (w : World) (p : Ptr) (size : Nat) :
    (w.setSize p size).inodes p = { w.inodes p with size := size } :=
  Function.update_self _ _ _

theorem World.addrs_setSize (w : World) (p : Ptr) (size : Nat) :
    (w.setSize p size).addrs p = w.addrs p := by
  unfold World.addrs
  rw [World.setSize_inode]
  rfl

theorem FileReady.setSize (h : FileReady w p n A addrs) (size : Nat) :
    FileReady (w.setSize p size) p n A addrs where
  sound := h.sound
  hint := h.hint
  priv := by
    rw [World.setSize_inode]
    exact h.priv
  at_n := h.at_n
  owned := h.owned

/-- Where the loop writes when it is to start at `lo`. -/
def landing (lo : Nat) : Nat := lo / BSIZE % 2 ^ 32 * BSIZE + lo % BSIZE

theorem landing_eq {lo : Nat} (h : lo / BSIZE < 2 ^ 32) : landing lo = lo := by
  unfold landing
  rw [Nat.mod_eq_of_lt h]
  exact Nat.div_add_mod' _ _

theorem fileWrite_spec {r : Int} {c : Nat} (hr : FileReady w p n A addrs)
    (h : Runs φ (xv6FileWrite p append buf len pos) w (r, c) w') :
    ∃ e k addrs' w₁,
      Written w p n A addrs buf 0 (landing (writeStart w p append pos)) len e k addrs' w₁ ∧
      (e = -EFBIG → MAXFILE * BSIZE ≤ landing (writeStart w p append pos) + k) ∧
      r = (if e ≠ 0 ∧ k = 0 then e else k) ∧ c = writeStart w p append pos + k ∧
      w' = w₁.setSize p (xv6Max (w₁.inodes p).size c) := by
  simp only [xv6FileWrite, runs_bind_getInode] at h
  obtain ⟨⟨e, k, c'⟩, w₁, hloop, hend⟩ := h.bind
  obtain ⟨j, addrs', hk, rfl, hwr, hbig⟩ := writeLoop_spec hr (le_refl len)
    (Nat.mod_lt _ (by decide)) hloop
  obtain rfl : k = j := by omega
  simp only [runs_bind_modifyInode] at hend
  obtain ⟨hres, rfl⟩ := hend.pure
  cases hres
  exact ⟨e, k, addrs', w₁, hwr, hbig, rfl, rfl, rfl⟩

/-- From block MAXFILE on a write is refused. -/
theorem fileWrite_big {lo : Nat} (hr : FileReady w p n A addrs)
    (hlo : lo = writeStart w p append pos)
    (hlen : 0 < len) (hbig : MAXFILE ≤ lo / BSIZE % 2 ^ 32) :
    Returns (xv6FileWrite p append buf len pos) w (-EFBIG, lo)
      (w.setSize p (xv6Max (w.inodes p).size lo)) := by
  subst hlo
  obtain ⟨rounds, rfl⟩ : ∃ rounds, len = rounds + 1 := ⟨len - 1, by omega⟩
  have hloop : Returns (xv6FileWrite.loop p buf (rounds + 1)
      (writeStart w p append pos / BSIZE % 2 ^ 32) (writeStart w p append pos % BSIZE) 0
      (writeStart w p append pos) (rounds + 1)) w (-EFBIG, 0, writeStart w p append pos) w := by
    unfold xv6FileWrite.loop
    rw [if_neg (Nat.succ_ne_zero rounds)]
    refine (returns_bind (xv6InodeWblock_big hr.priv hbig)).mpr ?_
    exact returns_iff.mpr rfl
  simp only [xv6FileWrite, runs_bind_getInode]
  refine (returns_bind hloop).mpr ?_
  simp only [runs_bind_modifyInode]
  exact returns_iff.mpr rfl

/-! ## Where a call writes -/

/-- A write changes the file between `pos` and `pos + len` only, and from the largest size a file
    can have on it is refused and leaves the disk alone. -/
structure WritesInPlace (w : World) (p : Ptr) (append : Bool) (buf : UserBuf) (len pos : Nat) :
    Prop where
  window : ∀ r c w', Returns (xv6FileWrite p append buf len pos) w (r, c) w' →
    ∀ x, x < MAXFILE * BSIZE →
      x < writeStart w p append pos ∨ writeStart w p append pos + len ≤ x →
      fbyte w'.disk (w'.addrs p) x = fbyte w.disk (w.addrs p) x
  refused : 0 < len → MAXFILE * BSIZE ≤ writeStart w p append pos →
    ∃ c w', Returns (xv6FileWrite p append buf len pos) w (-EFBIG, c) w' ∧ w'.disk = w.disk

/-- The block number of a position past the largest file that is small again modulo 2^32. -/
def Wraps (lo len : Nat) : Prop :=
  0 < len ∧ 2 ^ 32 * BSIZE ≤ lo ∧ lo / BSIZE % 2 ^ 32 < MAXFILE

theorem fileWrite_in_place (hr : FileReady w p n A addrs)
    (h : ¬ Wraps (writeStart w p append pos) len) : WritesInPlace w p append buf len pos where
  window r c w' hret x hx hout := by
    obtain ⟨e, k, addrs', w₁, hwr, -, -, -, rfl⟩ := fileWrite_spec hr hret
    obtain ⟨size, dirty, -, hino⟩ := hwr.touched.inode
    rw [World.addrs_setSize, World.addrs_of_priv (by rw [hino]), World.addrs_of_priv hr.priv]
    refine hwr.touched.bytes x hx ?_
    -- either the loop starts at the position, or it does not get into the file
    by_cases hlt : writeStart w p append pos / BSIZE < 2 ^ 32
    · rwa [landing_eq hlt]
    · by_cases hlen : len = 0
      · omega
      · have hmod : MAXFILE ≤ writeStart w p append pos / BSIZE % 2 ^ 32 := by
          by_contra hno
          refine h ⟨by omega, ?_, by omega⟩
          simp only [BSIZE] at hlt ⊢
          omega
        refine .inl ?_
        simp only [landing, MAXFILE, BSIZE] at hmod hx ⊢
        omega
  refused hlen hbig := by
    have hmod : MAXFILE ≤ writeStart w p append pos / BSIZE % 2 ^ 32 := by
      by_contra hno
      refine h ⟨hlen, ?_, by omega⟩
      simp only [MAXFILE, BSIZE] at hno hbig ⊢
      omega
    exact ⟨_, _, fileWrite_big hr rfl hlen hmod, rfl⟩

/-- A position whose block number wraps is not refused. -/
theorem fileWrite_wraps (hr : FileReady w p n A addrs)
    (h : Wraps (writeStart w p append pos) len) : ¬ WritesInPlace w p append buf len pos := by
  intro hin
  obtain ⟨hlen, hbig, hsmall⟩ := h
  obtain ⟨c, w', hret, -⟩ := hin.refused hlen (by simp only [MAXFILE, BSIZE] at hbig ⊢; omega)
  obtain ⟨e, k, addrs', w₁, -, hfbig, hres, -⟩ := fileWrite_spec hr hret
  by_cases hk : k = 0
  · have he : e = -EFBIG := by
      by_contra hne
      by_cases h0 : e = 0
      · rw [if_neg fun hc => hc.1 h0, hk] at hres
        exact absurd hres (by decide)
      · rw [if_pos ⟨h0, hk⟩] at hres
        exact hne hres.symm
    have hend := hfbig he
    simp only [landing, MAXFILE, BSIZE] at hsmall hend
    omega
  · rw [if_neg fun hc => hk hc.2] at hres
    have : (-EFBIG : Int) < 0 := by decide
    omega

/-- A write lands where it is to exactly when the block number of its position does not wrap. -/
theorem fileWrite_in_place_iff (hr : FileReady w p n A addrs) :
    WritesInPlace w p append buf len pos ↔ ¬ Wraps (writeStart w p append pos) len :=
  ⟨fun hin h => fileWrite_wraps hr h hin, fileWrite_in_place hr⟩

/-! ## What a call writes -/

/-- The bytes past the end of a file are zero. -/
def ZeroTail (d : Disk) (addrs : Addrs) (size : Nat) : Prop :=
  ∀ x, size ≤ x → x < MAXFILE * BSIZE → fbyte d addrs x = 0

/-- The file at `p`, inode `n`, has the first `k` bytes of `buf` laid over it at `lo`, and nothing
    else has changed. `k` is less than `len` only when every data block is in use. -/
structure Overlaid (w : World) (p : Ptr) (n : Nat) (A : Nat → Option Addrs) (buf : UserBuf)
    (lo len k : Nat) (w' : World) : Prop where
  le : k ≤ len
  bytes : ∀ x, x < MAXFILE * BSIZE → fbyte w'.disk (w'.addrs p) x =
    if lo ≤ x ∧ x < lo + k then buf.byte (x - lo) else fbyte w.disk (w.addrs p) x
  size : (w'.inodes p).size = max (w.inodes p).size (lo + k)
  tail : ZeroTail w'.disk (w'.addrs p) (w'.inodes p).size
  full : k < len → w.env.rdonly = false → ∀ x, IsData w.env x → bitSet w.env w'.disk x = true
  elsewhere : Elsewhere w.disk A n w'.disk
  before : SameBefore w.env w.disk w'.disk
  inodes : ∀ q, q ≠ p → w'.inodes q = w.inodes q

/-- A write that returns more than 0 has laid that many bytes over the file. -/
def WritesOverlay (w : World) (p : Ptr) (n : Nat) (A : Nat → Option Addrs) (append : Bool)
    (buf : UserBuf) (len pos : Nat) : Prop :=
  ∀ r c w', Returns (xv6FileWrite p append buf len pos) w (r, c) w' → 0 < r →
    ∃ k : Nat, r = k ∧ c = writeStart w p append pos + k ∧
      Overlaid w p n A buf (writeStart w p append pos) len k w'

/-- A call without I/O errors, whatever it returns. -/
theorem fileWrite_overlaid {r : Int} {c : Nat} (hq : Quiet w.env) (hr : FileReady w p n A addrs)
    (hz : ZeroTail w.disk addrs (w.inodes p).size) (hsize : (w.inodes p).size < 2 ^ 32)
    (hfit : writeStart w p append pos + len ≤ MAXFILE * BSIZE)
    (hbuf : ∀ j, j < len → (buf j).isSome)
    (h : Returns (xv6FileWrite p append buf len pos) w (r, c) w') :
    ∃ (e : Int) (k : Nat), r = (if e ≠ 0 ∧ k = 0 then e else k) ∧ e ≤ 0 ∧
      c = writeStart w p append pos + k ∧ (e = 0 → k = len) ∧
      Overlaid w p n A buf (writeStart w p append pos) len k w' ∧
      FileReady w' p n (Function.update A n (some (w'.addrs p))) (w'.addrs p) := by
  have hfaultless : Faultless w w' := (h.calm hq).2
  obtain ⟨e, k, addrs', w₁, hwr, -, hres, rfl, rfl⟩ := fileWrite_spec hr h
  generalize hlo : writeStart w p append pos = lo at *
  rw [landing_eq (by simp only [MAXFILE, BSIZE] at hfit ⊢; omega)] at hwr
  obtain ⟨htouched, herr⟩ := hwr.clean hfaultless fun j hj => by
    rw [Nat.zero_add]
    exact hbuf j hj
  obtain ⟨size, dirty, hs, hino⟩ := htouched.inode
  rw [Nat.mod_eq_of_lt hsize, or_self] at hs
  subst hs
  have haddrs' : (w₁.setSize p (xv6Max (w₁.inodes p).size (lo + k))).addrs p = addrs' := by
    rw [World.addrs_setSize, World.addrs_of_priv (by rw [hino])]
  have hmax : ((w₁.setSize p (xv6Max (w₁.inodes p).size (lo + k))).inodes p).size =
      max (w.inodes p).size (lo + k) := by
    rw [World.setSize_inode, hino]
    show xv6Max (w.inodes p).size (lo + k) = _
    unfold xv6Max
    split <;> omega
  have hbytes : ∀ x, x < MAXFILE * BSIZE → fbyte w₁.disk addrs' x =
      if lo ≤ x ∧ x < lo + k then buf.byte (x - lo) else fbyte w.disk addrs x := by
    intro x hx
    by_cases hin : lo ≤ x ∧ x < lo + k
    · have hdata := hwr.data (x - lo) (by omega)
      rw [Nat.zero_add, show lo + (x - lo) = x by omega] at hdata
      rw [if_pos hin, hdata]
    · rw [if_neg hin]
      exact htouched.bytes x hx (by omega)
  have hlast := hwr.le
  refine ⟨e, k, hres, hwr.nonpos, rfl, hwr.all.mp, ?_, ?_⟩
  · refine ⟨hwr.le, ?_, hmax, ?_, fun hk hrw => ?_, htouched.elsewhere, htouched.before,
      fun q hq => ?_⟩
    · rw [haddrs', World.addrs_of_priv hr.priv]
      exact hbytes
    · rw [hmax, haddrs']
      intro x hge hx
      refine (hbytes x hx).trans ?_
      rw [if_neg (by omega)]
      exact hz x (by omega) hx
    · rcases herr hrw with h0 | h0 | ⟨-, hbig⟩
      · exact absurd (hwr.all.mp h0) hk.ne
      · exact hwr.full h0
      · omega
    · exact (Function.update_of_ne hq _ _).trans (htouched.inode_ne hq)
  · rw [haddrs']
    exact (hwr.ready (hwr.io hfaultless)).setSize _

/-- A write is a byte overlay. -/
theorem fileWrite_overlay (hq : Quiet w.env) (hr : FileReady w p n A addrs)
    (hz : ZeroTail w.disk addrs (w.inodes p).size) (hsize : (w.inodes p).size < 2 ^ 32)
    (hfit : writeStart w p append pos + len ≤ MAXFILE * BSIZE)
    (hbuf : ∀ j, j < len → (buf j).isSome) : WritesOverlay w p n A append buf len pos := by
  intro r c w' hret hpos
  obtain ⟨e, k, hres, hneg, hc, -, hover, -⟩ := fileWrite_overlaid hq hr hz hsize hfit hbuf hret
  refine ⟨k, ?_, hc, hover⟩
  by_cases hfail : e ≠ 0 ∧ k = 0
  · rw [if_pos hfail] at hres
    omega
  · rwa [if_neg hfail] at hres

end

theorem bmap_oneBlock {d : Disk} {b i : Nat} : bmap d (oneBlock b) i = if i = 0 then b else 0 := by
  by_cases hd : i < NDIRECT
  · rw [bmap_direct hd, oneBlock_get (by unfold NDIRECT at hd; omega)]
  · have h0 : i ≠ 0 := by
      unfold NDIRECT at hd
      omega
    rw [bmap_hole (not_lt.mp hd) rfl, if_neg h0]

theorem zeroTail_oneBlock {d : Disk} {b size : Nat}
    (h : ∀ x, size ≤ x → x < BSIZE → (d b).byte x = 0) : ZeroTail d (oneBlock b) size := by
  intro x hge hx
  unfold fbyte fblock
  rw [bmap_oneBlock]
  by_cases h0 : x / BSIZE = 0
  · rw [if_pos h0]
    split
    · exact Buf.byte_zero _
    · rw [Nat.mod_eq_of_lt (by simp only [BSIZE] at h0 ⊢; omega)]
      exact h x hge (by simp only [BSIZE] at h0 ⊢; omega)
  · rw [if_neg h0, if_pos rfl]
    exact Buf.byte_zero _

/-- The file of the bytes 1 to 5 with its block marked used. -/
def fiveBytesUsed : World :=
  { fiveBytes with disk := markUsed fiveBytes.env fiveBytes.disk 20, hint := 20 }

theorem fiveBytesUsed_ready : FileReady fiveBytesUsed 0 2 (oneFile 2 20) (oneBlock 20) where
  sound := ⟨by decide, by decide⟩
  hint := ⟨by decide, by decide⟩
  priv := rfl
  at_n := rfl
  owned := exclusive_oneFile _ ⟨by decide, by decide +kernel⟩

/-- Block 2^32 of the file is taken for block 0: the byte for offset 2^42 is stored at offset 0. -/
theorem byte_at_2_42_lands_at_0 :
    (∃ w', Returns (xv6FileWrite 0 false (fun _ => some 9) 1 (2 ^ 42)) fiveBytesUsed
        (1, 2 ^ 42 + 1) w' ∧
      fbyte fiveBytesUsed.disk (fiveBytesUsed.addrs 0) 0 = 1 ∧ fbyte w'.disk (w'.addrs 0) 0 = 9) ∧
    ¬ WritesInPlace fiveBytesUsed 0 false (fun _ => some 9) 1 (2 ^ 42) :=
  ⟨⟨_, returns_after (by decide +kernel), by decide +kernel, by decide +kernel⟩,
    fileWrite_wraps fiveBytesUsed_ready ⟨by decide, by decide, by decide⟩⟩

theorem byte_at_5_lands_at_5 : WritesInPlace fiveBytesUsed 0 false (fun _ => some 9) 1 5 :=
  (fileWrite_in_place_iff fiveBytesUsed_ready).mpr fun h => absurd h.2.1 (by decide)

/-- The file of the bytes 1 to 5 when its block is not marked used. -/
def fiveBytesFree : World := { fiveBytes with hint := 20 }

/-- The same with a size of more than 32 bits. -/
def fiveBytesLong : World :=
  { fiveBytesUsed with inodes := fun p => { fiveBytesUsed.inodes p with size := 2 ^ 32 + 5 } }

theorem fiveBytes_tail {d : Disk}
    (hd : d 20 = Buf.patch Buf.zero 0 5 fun i => UInt8.ofNat (i + 1)) :
    ZeroTail d (oneBlock 20) 5 := by
  refine zeroTail_oneBlock fun x hge _ => ?_
  rw [hd, Buf.byte_patch_out _ _ (.inr (by omega))]
  exact Buf.byte_zero _

/-- A block that is not marked used is handed out again, and the byte for offset 1024 is stored at
    offset 0 too; a size of more than 32 bits is cut when a block is added. -/
theorem overlay_needs_used_blocks :
    (Quiet fiveBytesFree.env ∧ fiveBytesFree.env.rdonly = false ∧
      Exclusive (fun _ => True) (owns fiveBytesFree.disk (oneFile 2 20)) ∧
      ZeroTail fiveBytesFree.disk (fiveBytesFree.addrs 0) (fiveBytesFree.inodes 0).size ∧
      ¬ WritesOverlay fiveBytesFree 0 2 (oneFile 2 20) false (fun _ => some 9) 1 1024) ∧
    (Quiet fiveBytesLong.env ∧ FileReady fiveBytesLong 0 2 (oneFile 2 20) (oneBlock 20) ∧
      ZeroTail fiveBytesLong.disk (oneBlock 20) (fiveBytesLong.inodes 0).size ∧
      ¬ WritesOverlay fiveBytesLong 0 2 (oneFile 2 20) false (fun _ => some 9) 1 1024) := by
  refine ⟨⟨fun _ => rfl, rfl, exclusive_oneFile _ trivial, fiveBytes_tail rfl, fun h => ?_⟩,
    fun _ => rfl, { fiveBytesUsed_ready with priv := rfl }, fun x hge hx => ?_, fun h => ?_⟩
  · obtain ⟨k, -, -, hover⟩ := h 1 1025 _ (returns_after (by decide +kernel)) (by decide)
    have hbyte := hover.bytes 0 (by decide)
    rw [if_neg fun hc => absurd hc.1 (by decide)] at hbyte
    revert hbyte
    decide +kernel
  · have hsize : (fiveBytesLong.inodes 0).size = 2 ^ 32 + 5 := rfl
    simp only [MAXFILE, BSIZE] at hx
    omega
  · obtain ⟨k, -, -, hover⟩ := h 1 1025 _ (returns_after (by decide +kernel)) (by decide)
    have hsize := hover.size
    have hcut : ((fiveBytesLong.after
        (xv6FileWrite 0 false (fun _ => some 9) 1 1024)).inodes 0).size = 1025 := by decide +kernel
    rw [hcut] at hsize
    have hlong : (fiveBytesLong.inodes 0).size = 2 ^ 32 + 5 := rfl
    omega

theorem three_bytes_overlaid :
    WritesOverlay fiveBytesUsed 0 2 (oneFile 2 20) true (fun _ => some 9) 3 0 :=
  fileWrite_overlay (fun _ => rfl) fiveBytesUsed_ready (fiveBytes_tail rfl) (by decide) (by decide)
    fun _ _ => rfl

end Xv6fs
