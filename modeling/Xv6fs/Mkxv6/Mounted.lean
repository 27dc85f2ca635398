/-
  Mounting an image that mkxv6 has made.

  The bits that are set in such an image are those of the blocks before the data area and of the
  blocks that the inodes name, each of which is named once (`image_sound`). The image passes the
  checker and mounts (`image_mounts`), and the volume is then in order (`Imaged.inv`).
-/
import Xv6fs.Mkxv6.Main
import Xv6fs.Super.Checker
import Xv6fs.Volume.Runs

namespace Xv6fs.Mkxv6

/-! ## The bitmap -/

theorem bit_mark : ∀ {n i : Nat} {blk : Block} {j : Nat}, i + n ≤ BPB → j < BPB →
    ((balloc.mark n i blk).bit .little j = true ↔
      (i ≤ j ∧ j < i + n) ∨ blk.bit .little j = true)
  | 0, i, blk, j, _, _ => by
    unfold balloc.mark
    exact ⟨.inr, fun h => h.resolve_left fun hc => by omega⟩
  | n + 1, i, blk, j, hn, hj => by
    have hstep : (Block.bit .little (blk.patch (i / 8) 1 fun _ =>
        blk.byte (i / 8) ||| UInt8.ofNat (1 <<< (i % 8))) j = true) ↔
          j = i ∨ blk.bit .little j = true := by
      rw [Block.bit_little, Block.bit_little]
      by_cases hb : j / 8 = i / 8
      · have hmask : (UInt8.ofNat (1 <<< (i % 8))).toNat = 1 <<< (i % 8) := by
          rw [UInt8.toNat_ofNat', Nat.one_shiftLeft]
          exact Nat.mod_eq_of_lt (Nat.pow_lt_pow_right (by decide) (Nat.mod_lt i (by decide)))
        have hin : i / 8 + 1 ≤ 1024 := by
          unfold BPB at hn
          omega
        rw [hb, Buf.byte_patch_in _ _ hin le_rfl (Nat.lt_succ_self _), UInt8.toNat_or, hmask,
          Bits.testBit_or_mask, Bool.or_eq_true, decide_eq_true_iff, or_comm]
        refine or_congr_left ?_
        omega
      · rw [Buf.byte_patch_out _ _ (by omega)]
        exact ⟨.inr, fun h => h.resolve_left fun hc => hb (by rw [hc])⟩
    unfold balloc.mark
    rw [bit_mark (by omega) hj, hstep, ← or_assoc]
    refine or_congr_left ?_
    omega

/-! ## The super block -/

theorem superblock_read :
    (superblockSector .little).superblock = ⟨FSMAGIC, 2000, 1954, 200, 31, 1, 32, 45⟩ :=
  rfl

section

variable {size : Nat → ImageFile → Nat} {d : Disk} {fb : Nat} {files : List ImageFile} {env : Env}
  {args : List Input}

theorem imageEnv_info_eq : imageEnv.info = (superblockSector .little).superblock.fsInfo := by
  rw [superblock_read, imageEnv_info]
  rfl

/-! ## Ownership -/

theorem slot_info (hinfo : env.info = imageEnv.info) (n : Nat) :
    slot env d n = slot imageEnv d n := by
  unfold slot inodeBlock
  rw [hinfo]

/-- The slots in use are those of the files. -/
theorem Stores.slotInUse (h : Stores size d fb files) (hinfo : env.info = imageEnv.info)
    (htype : ∀ f ∈ files, f.type ≠ 0) (n : Nat) :
    SlotInUse env d n ↔ 0 < n ∧ n ≤ files.length := by
  have hslot : HasSlot env n ↔ HasSlot imageEnv n := by
    unfold HasSlot
    rw [hinfo]
  unfold SlotInUse
  rw [hslot, slot_info hinfo]
  constructor
  · rintro ⟨hn, hused⟩
    by_contra hc
    refine hused ?_
    rw [h.free n hn (by omega)]
    rfl
  · rintro ⟨hpos, hle⟩
    refine ⟨h.hasSlot hle, ?_⟩
    obtain ⟨k, rfl⟩ := Nat.exists_eq_succ_of_ne_zero hpos.ne'
    obtain ⟨raw, hdi⟩ := (h.each k files[k] (List.getElem?_eq_getElem hle)).dinode
    rw [hdi]
    exact htype _ (List.getElem_mem hle)

theorem Stores.imageAddrs (h : Stores size d fb files) (hinfo : env.info = imageEnv.info)
    (htype : ∀ f ∈ files, f.type ≠ 0) : imageAddrs env d = addrsIn d files.length := by
  funext n
  unfold Xv6fs.imageAddrs addrsIn
  rw [slot_info hinfo]
  exact if_congr (h.slotInUse hinfo htype n) rfl rfl

/-- The bits that are set are those of the blocks before the counter. -/
theorem bitSet_iff (hinfo : env.info = imageEnv.info) (hhost : env.host = .little)
    (hbm : d 45 = balloc.mark fb 0 Buf.zero) (hfb : fb ≤ FSSIZE) {b : Nat} (hb : b < BPB) :
    bitSet env d b = true ↔ b < fb := by
  have hblock : bitmapBlock env b = 45 := by
    unfold bitmapBlock
    rw [hinfo, imageEnv_info]
    unfold BPB at hb ⊢
    dsimp only
    omega
  have hbit : (balloc.mark fb 0 Buf.zero).bit .little b = true ↔ _ :=
    bit_mark (by unfold FSSIZE BPB at *; omega) hb
  unfold bitSet
  rw [hblock, hhost, hbm, Nat.mod_eq_of_lt hb, hbit, Block.bit_little, Buf.byte_zero]
  simp

theorem Stores.owned (h : Stores size d fb files) (hinfo : env.info = imageEnv.info)
    (hhost : env.host = .little) (hbm : d 45 = balloc.mark fb 0 Buf.zero) :
    Owned env d (addrsIn d files.length) := by
  refine h.laid.owned.drop fun p b hp => ⟨hp, ?_⟩
  have htaken := h.laid.owned.held hp
  have hlt := lt_of_lt_of_le htaken.2 h.room
  refine ⟨⟨?_, ?_⟩, (bitSet_iff hinfo hhost hbm h.room (lt_trans hlt (by decide))).mpr htaken.2⟩
  · rw [hinfo, imageEnv_info]
    exact htaken.1
  · rw [hinfo, imageEnv_info]
    exact hlt

/-! ## The checker -/

theorem direntBytes_length (de : Dirent) : (direntBytes de).length = 16 := by
  unfold direntBytes
  rw [List.length_map, List.length_range]

theorem entriesOf_length : ∀ (fs : List Input) (inum : Nat),
    (entriesOf inum fs).length = 16 * fs.length
  | [], _ => rfl
  | f :: fs, inum => by
    unfold entriesOf
    rw [List.length_append, direntBytes_length, entriesOf_length fs, List.length_cons]
    omega

/-- The root directory. -/
def rootFile (args : List Input) : ImageFile :=
  ⟨T_DIR, dotsBytes ROOTINO ROOTINO ++ entriesOf (ROOTINO + 1) args⟩

theorem rootFile_length (args : List Input) :
    (rootFile args).bytes.length = 16 * (args.length + 2) := by
  unfold rootFile dotsBytes
  dsimp only
  rw [List.length_append, List.length_append, direntBytes_length, direntBytes_length,
    entriesOf_length]
  omega

theorem filesOf_length : ∀ (fs : List Input) (inum : Nat), (filesOf inum fs).length = fs.length
  | [], _ => rfl
  | _ :: fs, inum => congrArg (· + 1) (filesOf_length fs (inum + 1))

theorem imageFiles_length (args : List Input) : (imageFiles args).length = args.length + 1 :=
  congrArg (· + 1) (filesOf_length args _)

theorem file_type (f : Input) (inum : Nat) : (f.file inum).type ≠ 0 := by
  unfold Input.file
  split
  · exact (by decide : T_DIR ≠ 0)
  · exact (by decide : T_FILE ≠ 0)

theorem filesOf_type : ∀ (fs : List Input) (inum : Nat), ∀ g ∈ filesOf inum fs, g.type ≠ 0
  | [], _, g, hg => absurd hg List.not_mem_nil
  | f :: fs, inum, g, hg => by
    rcases List.mem_cons.mp hg with rfl | hg
    · exact file_type f inum
    · exact filesOf_type fs (inum + 1) g hg

theorem imageFiles_type (args : List Input) : ∀ g ∈ imageFiles args, g.type ≠ 0 := by
  intro g hg
  rcases List.mem_cons.mp hg with rfl | hg
  · exact (by decide : T_DIR ≠ 0)
  · exact filesOf_type args _ g hg

/-- When no read fails the checker knows that every block can be read. -/
theorem calm_reading : Reading modcheck Calm fun _ r => r = true where
  bread {b r w w'} h := by
    obtain ⟨hok, hr, hw⟩ := (runs_sbBread b w w' r).mp h
    exact ⟨hr.trans (decide_eq_true hok), _, hw⟩
  bdata := rfl

/-- A checker that can read every block returns 0 for an image in order. -/
theorem docheck_calm {w : World} (hq : Quiet w.env) (ha : Accepted (fun _ => True) w.disk) :
    ∃ w', Returns (xv6Docheck modcheck) w 0 w' := by
  have hreached : RootRead (w.env.io w.log.length = .ok) (w.env.io (w.log.length + 1) = .ok)
      w.disk := ⟨hq _, ha.reached.magic, ha.reached.layout, hq _, ha.reached.null⟩
  rcases modcheck_outcome w with ⟨-, e, w', hret⟩ | ⟨-, hbad, -⟩
  · obtain rfl : e = 0 := docheck_rejects calm_reading (hret.calm hq)
      ⟨⟨Bool.noConfusion, ha.reached.magic, ha.reached.layout, Bool.noConfusion,
        ha.reached.null⟩, ha.dir, ha.whole, ha.le, fun _ _ => Bool.noConfusion⟩
    exact ⟨w', hret⟩
  · exact absurd ⟨ha.dir, ha.whole⟩ hbad

/-- The root directory of an image that has been made. -/
theorem Imaged.root (h : Imaged d args) : ∃ addrs, slot imageEnv d ROOTINO =
    ⟨T_DIR, 0, 0, 1, UInt32.ofNat (finalSize 0 (rootFile args)), addrs⟩ := by
  obtain ⟨fb, hs, -⟩ := h
  exact (hs.each 0 (rootFile args) rfl).dinode

theorem finalSize_root (hcount : args.length + 1 < 208) :
    WholeEntries (finalSize 0 (rootFile args)) ∧ finalSize 0 (rootFile args) ≤ MAXFILE * BSIZE := by
  rw [show finalSize 0 (rootFile args) = ((rootFile args).bytes.length / BSIZE + 1) * BSIZE from
    if_pos rfl, rootFile_length]
  unfold WholeEntries BSIZE MAXFILE
  omega

theorem Imaged.accepted (hcount : args.length + 1 < 208) (h : Imaged d args) :
    Accepted (fun _ => True) d := by
  obtain ⟨raw, hroot⟩ := h.root
  obtain ⟨hwhole, hle⟩ := finalSize_root hcount
  obtain ⟨fb, hs, -⟩ := h
  have hsb : (d 0).superblock = ⟨FSMAGIC, 2000, 1954, 200, 31, 1, 32, 45⟩ := by
    rw [hs.super, superblock_read]
  have hblock : ∀ j, j < 16 → (d (d 0).superblock.inodestart).dinode j = slot imageEnv d j := by
    intro j (hj : j < IPB)
    unfold slot inodeBlock
    rw [hsb, imageEnv_info, Nat.div_eq_of_lt hj, Nat.mod_eq_of_lt hj]
    rfl
  have hsize : (rootInode d).size.toNat = finalSize 0 (rootFile args) := by
    unfold rootInode
    rw [hblock 1 (by decide), show (1 : Nat) = ROOTINO from rfl, hroot]
    exact UInt32.toNat_ofNat_of_lt' (lt_of_le_of_lt hle (by decide))
  refine ⟨⟨trivial, ?_, ?_, trivial, ?_⟩, ?_, hsize ▸ hwhole, hsize ▸ hle, fun _ _ => trivial⟩
  · rw [hsb]
  · rw [hsb]
    decide
  · rw [hblock 0 (by decide), hs.free 0 (hasSlot_iff.mpr (by decide)) (.inl rfl)]
    rfl
  · unfold rootInode
    rw [hblock 1 (by decide), show (1 : Nat) = ROOTINO from rfl, hroot]

/-! ## The mount -/

theorem Imaged.info (h : Imaged d args) : (d 0).superblock.fsInfo = imageEnv.info := by
  obtain ⟨fb, hs, -⟩ := h
  rw [hs.super, imageEnv_info_eq]

theorem Imaged.mounts (hcount : args.length + 1 < 208) (h : Imaged d args) (hq : Quiet env)
    (hmem : ∀ n, env.mem n = true) :
    ∃ w, xv6FillSuper (World.unmounted env d) = .ok ((0, some 0), w) := by
  have ha := h.accepted hcount
  obtain ⟨raw, hroot⟩ := h.root
  obtain ⟨fb, hs, -⟩ := h
  have hsb : (d 0).superblock = ⟨FSMAGIC, 2000, 1954, 200, 31, 1, 32, 45⟩ := by
    rw [hs.super, superblock_read]
  refine fillSuper_returns hq hmem (fun w hd hq' => docheck_calm hq' (hd ▸ ha)) hsb ?_
  exact congrArg Dinode.type hroot

theorem Imaged.inv (h : Imaged d args) (hq : Quiet env) (hhost : env.host = .little) {e : Int}
    {p : Ptr} {w : World} (hm : xv6FillSuper (World.unmounted env d) = .ok ((e, some p), w)) :
    VolumeInv ⟨w, []⟩ := by
  have henv := (fillSuper_mounted hm).env
  have hinfo : w.env.info = imageEnv.info := by
    rw [henv]
    exact h.info
  obtain ⟨fb, hs, hbm⟩ := h
  refine fillSuper_inv hq ?_ hm ?_
  · rw [hs.super, superblock_read]
    decide
  · rw [hs.imageAddrs hinfo (imageFiles_type args)]
    exact hs.owned hinfo (by rw [henv]; exact hhost) hbm

/-! ## Images of the program -/

variable {sys : Nat → Bool}

/-- File `k` of the image. -/
theorem Imaged.file (h : Imaged d args) {k : Nat} {f : ImageFile}
    (hf : (imageFiles args)[k]? = some f) : (slot imageEnv d (k + 1)).type = f.type ∧
      (slot imageEnv d (k + 1)).nlink = 1 ∧
      (slot imageEnv d (k + 1)).size.toNat = finalSize k f ∧ f.bytes.length ≤ MAXFILE * BSIZE ∧
      ∀ x, x < MAXFILE * BSIZE →
        fbyte d (slot imageEnv d (k + 1)).addr x = f.bytes.getD x 0 := by
  obtain ⟨fb, hs, -⟩ := h
  have hkept := hs.each k f hf
  have hlen := hkept.holds.length_le
  have hsize : finalSize k f < 2 ^ 32 := by
    unfold finalSize
    split
    · unfold MAXFILE BSIZE at *
      omega
    · exact lt_of_le_of_lt hlen (by decide)
  have hbytes := hkept.holds.bytes
  refine ⟨?_, ?_, hkept.size_eq hsize, hlen, hbytes⟩
  all_goals
    obtain ⟨raw, hslot⟩ := hkept.dinode
    rw [hslot]

/-- The image has the files of the arguments and no others, each with its bytes and zeros behind
    them. Every block of a file is named once, and the bits that are set are those of the blocks
    before the data area and of the blocks that files have. -/
theorem image_sound (hcount : args.length + 1 < 208) (h : image .little sys args = some d) :
    (∀ n, SlotInUse imageEnv d n ↔ 0 < n ∧ n ≤ args.length + 1) ∧
      (∀ (k : Nat) (f : ImageFile), (imageFiles args)[k]? = some f →
        (slot imageEnv d (k + 1)).type = f.type ∧ (slot imageEnv d (k + 1)).nlink = 1 ∧
        (slot imageEnv d (k + 1)).size.toNat = finalSize k f ∧
        f.bytes.length ≤ MAXFILE * BSIZE ∧
        ∀ x, x < MAXFILE * BSIZE →
          fbyte d (slot imageEnv d (k + 1)).addr x = f.bytes.getD x 0) ∧
      Owned imageEnv d (imageAddrs imageEnv d) ∧
      ∀ b, b < FSSIZE → (bitSet imageEnv d b = true ↔
        b < nmeta ∨ ∃ p, owns d (imageAddrs imageEnv d) p = some b) := by
  have himaged := (image_imaged hcount h).2
  have hfile := fun k f (hf : (imageFiles args)[k]? = some f) => himaged.file hf
  obtain ⟨fb, hs, hbm⟩ := himaged
  have htype := imageFiles_type args
  have haddrs : Xv6fs.imageAddrs imageEnv d = _ := hs.imageAddrs rfl htype
  refine ⟨fun n => ?_, hfile, ?_, fun b hb => ?_⟩
  · rw [hs.slotInUse rfl htype, imageFiles_length]
  · rw [haddrs]
    exact hs.owned rfl rfl hbm
  · rw [bitSet_iff rfl rfl hbm hs.room (lt_trans hb (by decide)), haddrs]
    constructor
    · intro hlt
      by_cases hmeta : b < nmeta
      · exact .inl hmeta
      · exact .inr (hs.laid.covered b ⟨not_lt.mp hmeta, hlt⟩)
    · rintro (hmeta | ⟨p, hp⟩)
      · exact lt_of_lt_of_le hmeta hs.laid.ge
      · exact (hs.laid.owned.held hp).2

/-- The image of a directory and a file. -/
theorem libAndHello_made : ∃ d, image .little (fun _ => true) libAndHello = some d :=
  image_made (fun _ => rfl) (by decide) libAndHello_usable libAndHello_fits

theorem image_sound_libAndHello : ∃ d, image .little (fun _ => true) libAndHello = some d ∧
    (slot imageEnv d 3).size = 3 ∧ Owned imageEnv d (imageAddrs imageEnv d) := by
  obtain ⟨d, hd⟩ := libAndHello_made
  obtain ⟨-, hfiles, howned, -⟩ := image_sound (by decide) hd
  obtain ⟨-, -, hsize, -⟩ := hfiles 2 _ rfl
  exact ⟨d, hd, UInt32.toNat_inj.mp hsize, howned⟩

theorem image_mounts (hcount : args.length + 1 < 208) (h : image .little sys args = some d)
    (hq : Quiet env) (hmem : ∀ n, env.mem n = true) :
    ∃ w, xv6FillSuper (World.unmounted env d) = .ok ((0, some 0), w) :=
  (image_imaged hcount h).2.mounts hcount hq hmem

theorem image_mounts_libAndHello : ∃ d w, image .little (fun _ => true) libAndHello = some d ∧
    xv6FillSuper (World.unmounted (Env.calm .little) d) = .ok ((0, some 0), w) := by
  obtain ⟨d, hd⟩ := libAndHello_made
  have hq : Quiet (Env.calm .little) := fun _ => rfl
  obtain ⟨w, hw⟩ := image_mounts (by decide) hd hq fun _ => rfl
  exact ⟨d, w, hd, hw⟩

end

end Xv6fs.Mkxv6
