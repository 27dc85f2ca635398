/-
  What the kernel module takes for granted of an image.

  An image of at most NINODES - 2 arguments with proper and different names passes the checker, its
  blocks are owned once and marked used, its directories are valid with nothing behind their
  entries, and every entry names an inode that is in use and in range (`image_ready`).
-/
import Xv6fs.Mkxv6.Names

namespace Xv6fs.Mkxv6

/-- The directory of inode `n`, an entry of the root directory or this itself. -/
structure SoundDir (d : Disk) (n : Nat) : Prop where
  valid : ValidDir d (slot imageEnv d n).addr (slot imageEnv d n).size.toNat
  self : (dslot d (slot imageEnv d n).addr 0).inum.toNat = n
  parent : (dslot d (slot imageEnv d n).addr 1).inum.toNat = ROOTINO
  clear : ∀ k, k < MAXFILE * NENTS → (slot imageEnv d n).size.toNat / 16 ≤ k ∨
    (dslot d (slot imageEnv d n).addr k).inum = 0 →
      dslot d (slot imageEnv d n).addr k = Dirent.zero
  named : ∀ k, k < MAXFILE * NENTS → (dslot d (slot imageEnv d n).addr k).inum ≠ 0 →
    SlotInUse imageEnv d (dslot d (slot imageEnv d n).addr k).inum.toNat ∧
      (dslot d (slot imageEnv d n).addr k).inum.toNat < imageEnv.info.ninodes

structure Ready (d : Disk) : Prop where
  checked : ∀ w : World, w.disk = d → Quiet w.env →
    ∃ w', Returns (xv6Docheck modcheck) w 0 w'
  owned : Owned imageEnv d (imageAddrs imageEnv d)
  metadata : ∀ b, b < nmeta → bitSet imageEnv d b = true
  root : SlotInUse imageEnv d ROOTINO ∧ (slot imageEnv d ROOTINO).type = T_DIR
  dirs : ∀ n, SlotInUse imageEnv d n → (slot imageEnv d n).type = T_DIR → SoundDir d n

section

variable {d : Disk} {addrs : Addrs} {args : List Input} {sys : Nat → Bool} {num : Nat → Nat}
  {names : List FileName} {n k : Nat}

/-! ## Entries -/

/-- An entry in use is one of those that were appended. -/
theorem entry_number (h : Holds d addrs ((direntsOf num names).flatMap direntBytes))
    (hk : k < MAXFILE * NENTS) (hne : (dslot d addrs k).inum ≠ 0) :
    k < names.length ∧ (dslot d addrs k).inum = UInt16.ofNat (num k) := by
  by_cases hlt : k < names.length
  · rw [dslot_some h hk (List.getElem?_eq_getElem hlt)]
    exact ⟨hlt, rfl⟩
  · rw [dslot_none h hk (not_lt.mp hlt)] at hne
    exact absurd rfl hne

theorem isdir_of_type {f : Input} (h : (f.file n).type = T_DIR) : f.isdir = true := by
  unfold Input.file at h
  split at h
  · assumption
  · exact absurd (show T_FILE = T_DIR from h) (by decide)

/-- The bytes of a directory of the image are its entries, which name inodes of the image. -/
theorem Imaged.dirBytes (h : Imaged d args) (hn : SlotInUse imageEnv d n)
    (hdir : (slot imageEnv d n).type = T_DIR) : ∃ num names,
      Holds d (slot imageEnv d n).addr ((direntsOf num names).flatMap direntBytes) ∧
      1 < names.length ∧ num 0 = n ∧ num 1 = ROOTINO ∧
      ∀ k, k < names.length → 0 < num k ∧ num k ≤ args.length + 1 := by
  have himaged := h
  obtain ⟨fb, hs, -⟩ := h
  rw [hs.slotInUse rfl (imageFiles_type args), imageFiles_length] at hn
  obtain ⟨hpos, hle⟩ := hn
  obtain ⟨j, rfl⟩ : ∃ j, n = j + 1 := ⟨n - 1, by omega⟩
  cases j with
  | zero =>
    have hholds := (hs.each 0 (rootFile args) rfl).holds
    rw [rootFile_eq] at hholds
    refine ⟨max 1, rootNames args, hholds, ?_, rfl, rfl, fun k hk => ?_⟩
    · exact Nat.succ_lt_succ (Nat.succ_pos _)
    · simp only [rootNames, List.length_cons, List.length_map] at hk
      omega
  | succ i =>
    have hf := List.getElem?_eq_getElem (show i < args.length by omega)
    have hbytes := (hs.each (i + 1) _ (imageFiles_get hf)).holds
    have htype := (himaged.file (imageFiles_get hf)).1.symm.trans hdir
    have hfile : args[i].file (i + 2) = ⟨T_DIR, dotsBytes (i + 2) ROOTINO⟩ :=
      if_pos (isdir_of_type htype)
    rw [hfile] at hbytes
    dsimp only at hbytes
    rw [dotsBytes_eq] at hbytes
    refine ⟨_, _, hbytes, by decide, rfl, rfl, fun k hk => ?_⟩
    unfold ROOTINO
    split <;> omega

/-- An entry of a directory names an inode of the image. -/
theorem Imaged.entry (h : Imaged d args) (hcount : args.length + 1 < 208)
    (hn : SlotInUse imageEnv d n) (hdir : (slot imageEnv d n).type = T_DIR)
    (hk : k < MAXFILE * NENTS) (hne : (dslot d (slot imageEnv d n).addr k).inum ≠ 0) :
    SlotInUse imageEnv d (dslot d (slot imageEnv d n).addr k).inum.toNat ∧
      (dslot d (slot imageEnv d n).addr k).inum.toNat ≤ args.length + 1 := by
  obtain ⟨num, names, hholds, -, -, -, hnum⟩ := h.dirBytes hn hdir
  obtain ⟨hlt, heq⟩ := entry_number hholds hk hne
  obtain ⟨hpos, hle⟩ := hnum k hlt
  rw [heq, UInt16.toNat_ofNat_of_lt' (show num k < 2 ^ 16 by omega)]
  obtain ⟨fb, hs, -⟩ := h
  refine ⟨?_, hle⟩
  rw [hs.slotInUse rfl (imageFiles_type args), imageFiles_length]
  exact ⟨hpos, hle⟩

/-! ## Directories -/

theorem Imaged.validDir (h : Imaged d args) (hcount : args.length + 1 < 208)
    (hu : ∀ f ∈ args, f.Usable) (hnames : WellNamed args) (hn : SlotInUse imageEnv d n)
    (hdir : (slot imageEnv d n).type = T_DIR) :
    ValidDir d (slot imageEnv d n).addr (slot imageEnv d n).size.toNat := by
  have himaged := h
  obtain ⟨fb, hs, -⟩ := h
  rw [hs.slotInUse rfl (imageFiles_type args), imageFiles_length] at hn
  obtain ⟨hpos, hle⟩ := hn
  obtain ⟨j, rfl⟩ : ∃ j, n = j + 1 := ⟨n - 1, by omega⟩
  cases j with
  | zero => exact (himaged.rootDir hcount hu hnames).1
  | succ i =>
    have hf := List.getElem?_eq_getElem (show i < args.length by omega)
    have htype := (himaged.file (imageFiles_get hf)).1.symm.trans hdir
    exact (himaged.subDir hcount hf (isdir_of_type htype)).1

theorem Imaged.soundDir (h : Imaged d args) (hcount : args.length + 1 < NINODES)
    (hu : ∀ f ∈ args, f.Usable) (hnames : WellNamed args) (hn : SlotInUse imageEnv d n)
    (hdir : (slot imageEnv d n).type = T_DIR) : SoundDir d n := by
  have hcount' : args.length + 1 < 208 := lt_trans hcount (by decide)
  have hvalid := h.validDir hcount' hu hnames hn hdir
  obtain ⟨num, names, hholds, htwo, hself, hparent, hnum⟩ := h.dirBytes hn hdir
  have hentry : ∀ {k}, k < names.length → k < MAXFILE * NENTS →
      (dslot d (slot imageEnv d n).addr k).inum.toNat = num k := by
    intro k hlt hk
    rw [dslot_some hholds hk (List.getElem?_eq_getElem hlt)]
    exact UInt16.toNat_ofNat_of_lt' (by have := (hnum k hlt).2; show num k < 2 ^ 16; omega)
  refine ⟨hvalid, ?_, ?_, fun k hk hfree => ?_, fun k hk hne => ?_⟩
  · rw [hentry (lt_trans Nat.zero_lt_one htwo) (by decide), hself]
  · rw [hentry htwo (by decide), hparent]
  · have h0 : (dslot d (slot imageEnv d n).addr k).inum = 0 :=
      hfree.elim (fun hpast => (hvalid.past k hpast hk).1) id
    refine dslot_none hholds hk (not_lt.mp fun hlt => ?_)
    have hzero := hentry hlt hk
    rw [h0] at hzero
    exact (hnum k hlt).1.ne hzero
  · obtain ⟨huse, hle⟩ := h.entry hcount' hn hdir hk hne
    exact ⟨huse, lt_of_le_of_lt hle hcount⟩

/-! ## Images of the program -/

/-- The image of at most NINODES - 2 arguments is one that the kernel module can work on. -/
theorem image_ready (hcount : args.length + 2 ≤ NINODES) (hnames : WellNamed args)
    (h : image .little sys args = some d) : Ready d := by
  have hcount' : args.length + 1 < 208 := lt_of_lt_of_le hcount (by decide)
  obtain ⟨hu, himaged⟩ := image_imaged hcount' h
  have haccepted := himaged.accepted hcount'
  have hdirs := fun n hn hdir => himaged.soundDir (n := n) hcount hu hnames hn hdir
  have htype := imageFiles_type args
  obtain ⟨raw, hroot⟩ := himaged.root
  obtain ⟨fb, hs, hbm⟩ := himaged
  refine ⟨fun w hd hq => docheck_calm hq (hd ▸ haccepted), ?_, fun b hb => ?_, ⟨?_, ?_⟩, hdirs⟩
  · rw [show Xv6fs.imageAddrs imageEnv d = _ from hs.imageAddrs rfl htype]
    exact hs.owned rfl rfl hbm
  · rw [bitSet_iff rfl rfl hbm hs.room (lt_trans hb (by decide))]
    exact lt_of_lt_of_le hb hs.laid.ge
  · rw [hs.slotInUse rfl htype, imageFiles_length]
    exact ⟨by decide, Nat.le_add_left _ _⟩
  · rw [hroot]

theorem image_ready_libAndHello : ∃ d, image .little (fun _ => true) libAndHello = some d ∧
    Ready d := by
  obtain ⟨d, hd⟩ := libAndHello_made
  exact ⟨d, hd, image_ready (by decide) libAndHello_wellNamed hd⟩

end

end Xv6fs.Mkxv6
