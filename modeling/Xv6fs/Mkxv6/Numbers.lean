/-
  The inode numbers that are handed out.

  `ialloc` counts inodes and compares the count with nothing. A run that ends with status 0 has
  handed out a number for the root directory and one for each argument, so the numbers, their
  sectors and the entries that name them stay in the table up to NINODES - 2 arguments, and only on
  a host that reads `inodestart` as it is (`numbers_in_table_iff`).
-/
import Xv6fs.Mkxv6.Counter
import Xv6fs.Mkxv6.Ready

namespace Xv6fs.Mkxv6

/-- The inode has been handed out by `ialloc`. -/
def Maker.Made (t : Maker) (inum : Nat) : Prop := 0 < inum ∧ inum < t.freeinode

/-- The inodes that have been made are below NINODES and were written inside of the inode table, and
    so are those that an entry of a directory among them names. -/
structure InodesFit (t : Maker) : Prop where
  number : ∀ n, t.Made n → n < NINODES
  sector : ∀ n, t.Made n → imageEnv.info.inodestart ≤ inodeSector t.host n ∧
    inodeSector t.host n < imageEnv.info.bmapstart
  entry : ∀ n k, t.Made n → (slot imageEnv t.image n).type = T_DIR → k < MAXFILE * NENTS →
    (dslot t.image (slot imageEnv t.image n).addr k).inum.toNat < NINODES

section

variable {host : ByteOrder} {sys : Nat → Bool} {args : List Input} {t : Maker}

/-- On a little-endian host the table holds the inodes of 206 arguments, and NINODES is less. -/
theorem inodeSector_little {n : Nat} (h : n < NINODES) :
    imageEnv.info.inodestart ≤ inodeSector .little n ∧
      inodeSector .little n < imageEnv.info.bmapstart := by
  unfold NINODES at h
  rw [inodeSector_eq _ (show n ≤ 2 ^ 15 by omega), if_pos rfl, imageEnv_info]
  unfold IPB
  dsimp only
  omega

/-- No inode is given a number out of range exactly when the host is little-endian and there are at
    most NINODES - 2 arguments. -/
theorem numbers_in_table_iff (h : (main args).run (Maker.start host sys) = .ok ((), t)) :
    InodesFit t ↔ host = .little ∧ args.length + 2 ≤ NINODES := by
  obtain ⟨hhost, hnumber, -⟩ := (main_counted host sys args).returned h
  constructor
  · intro hfit
    have hlast := hfit.number (args.length + 1) ⟨Nat.succ_pos _, by rw [hnumber]; omega⟩
    refine ⟨?_, hlast⟩
    have hroot := (hfit.sector ROOTINO ⟨by decide, by rw [hnumber]; exact Nat.le_add_left _ _⟩).1
    rw [hhost] at hroot
    cases host with
    | little => rfl
    | big => exact absurd hroot (by decide)
  · rintro ⟨rfl, hcount⟩
    have hmade : ∀ n, t.Made n → n < NINODES := fun n hn => by
      have hlt := hn.2
      rw [hnumber] at hlt
      exact lt_of_lt_of_le hlt hcount
    have hcount' : args.length + 1 < 208 := lt_of_lt_of_le hcount (by decide)
    have himaged := (image_imaged hcount' (image_eq_some.mpr ⟨t, h, rfl⟩)).2
    refine ⟨hmade, fun n hn => hhost ▸ inodeSector_little (hmade n hn), fun n k hn hdir hk => ?_⟩
    by_cases h0 : (dslot t.image (slot imageEnv t.image n).addr k).inum = 0
    · rw [h0]
      decide
    have huse : SlotInUse imageEnv t.image n :=
      ⟨hasSlot_iff.mpr (lt_trans (hmade n hn) (by decide)), by rw [hdir]; decide⟩
    exact lt_of_le_of_lt (himaged.entry hcount' huse hdir hk h0).2 hcount

/-! ## A few arguments, and too many -/

theorem libAndHello_numbers : ∃ t, (main libAndHello).run (Maker.start .little fun _ => true) =
    .ok ((), t) ∧ InodesFit t := by
  obtain ⟨d, hd⟩ := libAndHello_made
  obtain ⟨t, hrun, -⟩ := image_eq_some.mp hd
  exact ⟨t, hrun, (numbers_in_table_iff hrun).mpr ⟨rfl, by decide⟩⟩

/-- Empty files with names of two letters. -/
def emptyFiles (count : Nat) : List Input :=
  (List.range count).map fun i =>
    ⟨[0x61 + UInt8.ofNat (i / 26), 0x61 + UInt8.ofNat (i % 26)], true, true, false, []⟩

/-- The last of 199 files is given the number 200. -/
theorem number_of_ninodes : ∃ t, (main (emptyFiles 199)).run (Maker.start .little fun _ => true) =
    .ok ((), t) ∧ ¬ InodesFit t := by
  have husable : ∀ f ∈ emptyFiles 199, f.Usable := by
    intro f hf
    obtain ⟨i, hi, rfl⟩ := List.mem_map.mp hf
    clear hf
    refine ⟨?_, rfl, ?_, rfl⟩
    all_goals
      revert i
      decide +kernel
  have hfits : Fits (imageFiles (emptyFiles 199)) := ⟨by decide +kernel, by decide +kernel⟩
  obtain ⟨d, hd⟩ := image_made (fun _ => rfl) (by decide +kernel) husable hfits
  obtain ⟨t, hrun, -⟩ := image_eq_some.mp hd
  obtain ⟨-, hnumber, -⟩ := (main_counted _ _ _).returned hrun
  have hlen : (emptyFiles 199).length = 199 := by decide +kernel
  refine ⟨t, hrun, fun hfit => ?_⟩
  exact absurd (hfit.number 200 ⟨by decide, by rw [hnumber, hlen]; decide⟩) (by decide)

end

end Xv6fs.Mkxv6
