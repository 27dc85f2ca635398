/-
  The checker in user space and the checker of the kernel module, over the same bytes.

  A device of `fsize` bytes is taken as one whose `sb_bread` fails exactly for the blocks that do
  not lie inside it (`devcheck`). Both checkers then refuse to read the same blocks, and they
  see the same bytes in the first 2^22 of them. From there on `block * BSIZE` wraps in
  `checker_bread`, so a file that reaches beyond 4 GiB can be judged by the wrong blocks.

  The verdict rests on three blocks only: the super block, the block of the inodes and the
  indirect block of the root directory. The two checkers agree wherever the last two are
  numbered below 2^22 or cannot be read, but for a root inode of another type than `T_DIR`: then
  neither gives a verdict, because the behaviour of both is undefined (`RootMistyped`).
-/
import Xv6fs.Super.Checker
import Xv6fs.Model.Xv6check

namespace Xv6fs

/-! ## Two checkers over one image -/

/-- Block `b` lies inside a device of `fsize` bytes. -/
def Inside (fsize b : Nat) : Prop := b * BSIZE + BSIZE ≤ fsize

instance (fsize b : Nat) : Decidable (Inside fsize b) := by
  unfold Inside
  infer_instance

/-- The checker of the kernel module over a device of `fsize` bytes. -/
def devcheck (fsize : Nat) : Checker :=
  { modcheck with bread := fun b => pure (decide (Inside fsize b)) }

/-- Both return 0, both return something else, or both panic. -/
def SameVerdict : Except Halt (Int × World) → Except Halt (Int × World) → Prop
  | .ok (e, _), .ok (e', _) => e = 0 ↔ e' = 0
  | .error .panic, .error .panic => True
  | _, _ => False

/-- The bytes of a block below 2^22 are the file's. -/
theorem mapped_eq (file : Disk) {b : Nat} (hb : b < 2 ^ 22) : mapped file b = file b := by
  unfold mapped
  congr 1
  simp only [BSIZE]
  omega

theorem inside_iff {fsize b : Nat} : Inside fsize b ↔ b < fsize / BSIZE := by
  simp only [Inside, BSIZE]
  omega

theorem checkerBread_eq (fsize : Nat) :
    checkerBread fsize = fun b => pure (decide (Inside fsize b)) := by
  funext b
  unfold checkerBread
  by_cases h : b ≥ fsize / BSIZE
  · rw [if_pos h, decide_eq_false fun hb => not_lt.mpr h (inside_iff.mp hb)]
  · rw [if_neg h, decide_eq_true (inside_iff.mpr (not_le.mp h))]

/-! ## The verdict of either -/

section

variable {check : Checker} {φ : Event → Prop} {fsize : Nat} {w w' : World} {e : Int}

theorem inside_reading (hread : check.bread = fun b => pure (decide (Inside fsize b)))
    (hdata : check.bdata = bdata) : Reading check φ (fun b r => r = decide (Inside fsize b)) where
  bread {b r w w'} h := by
    rw [hread] at h
    obtain ⟨hr, rfl⟩ := h.pure
    exact ⟨hr.symm, _, rfl⟩
  bdata := hdata

theorem docheck_zero_iff (hc : Reading check φ (fun b r => r = decide (Inside fsize b)))
    (h : Runs φ (xv6Docheck check) w e w') : e = 0 ↔ Accepted (Inside fsize) w.disk := by
  constructor
  · rintro rfl
    have ha := docheck_accepts hc h
    simpa using ha
  · intro ha
    exact docheck_rejects hc h (by simpa using ha)

/-- The root inode is read and is not a directory of a size the iterator takes. -/
def BadRoot (fsize : Nat) (d : Disk) : Prop :=
  RootRead (Inside fsize 0) (Inside fsize (d 0).superblock.inodestart) d ∧ ¬ RootFits d

/-- The root inode is read and is not a directory. -/
def RootMistyped (fsize : Nat) (d : Disk) : Prop :=
  RootRead (Inside fsize 0) (Inside fsize (d 0).superblock.inodestart) d ∧
    (rootInode d).type ≠ T_DIR

theorem inside_outcome (check : Checker)
    (hread : check.bread = fun b => pure (decide (Inside fsize b)))
    (hdata : check.bdata = bdata) (w : World) :
    (¬ BadRoot fsize w.disk ∧ ∃ e w', (xv6Docheck check).run w = .ok (e, w') ∧
        (e = 0 ↔ Accepted (Inside fsize) w.disk)) ∨
      (BadRoot fsize w.disk ∧ (xv6Docheck check).run w = .error (rootHalt w.disk)) := by
  have htotal : ∀ b, Prog.Total (check.bread b) := by
    rw [hread]
    exact fun b => Prog.total_pure _
  have hret : ∀ b w, Returns (check.bread b) w (decide (Inside fsize b)) w := by
    rw [hread]
    exact fun b w => returns_iff.mpr rfl
  have hout := docheck_outcome check htotal hdata (hret 0 w) rfl (hret _ w) rfl
  simp only [decide_eq_true_eq] at hout
  rcases hout with ⟨hfits, e, w', hrun⟩ | ⟨hr, hbad, hstop⟩
  · refine .inl ⟨fun hb => hb.2 (hfits hb.1), e, w', returns_iff.mp hrun, ?_⟩
    exact docheck_zero_iff (inside_reading hread hdata) hrun
  · exact .inr ⟨⟨hr, hbad⟩, hstop⟩

end

section

variable {fsize : Nat} {w : World}

theorem rootHalt_eq (d : Disk) : rootHalt d = .panic ∨ rootHalt d = .undefined := by
  unfold rootHalt
  split
  · exact .inl rfl
  · exact .inr rfl

theorem rootMistyped_iff (d : Disk) :
    ¬ RootMistyped fsize d ↔ (BadRoot fsize d → rootHalt d = .panic) := by
  unfold rootHalt
  by_cases hdir : (rootInode d).type = T_DIR
  · exact iff_of_true (fun h => h.2 hdir) fun _ => if_pos hdir
  · rw [if_neg hdir]
    exact ⟨fun hno hb => absurd ⟨hb.1, hdir⟩ hno,
      fun hb hm => nomatch hb ⟨hm.1, fun hfits => hdir hfits.1⟩⟩

theorem sameVerdict_iff (file : Disk) (w : World) :
    SameVerdict (xv6check fsize file w)
        ((xv6Docheck (devcheck fsize)).run { w with disk := file }) ↔
      (BadRoot fsize (mapped file) ↔ BadRoot fsize file) ∧
        (¬ BadRoot fsize file →
          (Accepted (Inside fsize) (mapped file) ↔ Accepted (Inside fsize) file)) ∧
        (BadRoot fsize file → rootHalt (mapped file) = .panic ∧ rootHalt file = .panic) := by
  have huser := inside_outcome (usercheck fsize) (checkerBread_eq fsize) rfl
    { w with disk := mapped file }
  have hdev := inside_outcome (devcheck fsize) rfl rfl { w with disk := file }
  unfold xv6check
  rcases huser with ⟨hu, e, w₁, hrun, he⟩ | ⟨hu, hrun⟩ <;>
    rcases hdev with ⟨hd, e', w₂, hrun', he'⟩ | ⟨hd, hrun'⟩ <;>
    rw [hrun, hrun']
  · simp_all [SameVerdict]
  · simp_all [SameVerdict]
  · simp_all [SameVerdict]
  · rcases rootHalt_eq (mapped file) with hm | hm <;> rcases rootHalt_eq file with hf | hf <;>
      simp_all [SameVerdict]

/-! ## Where they agree -/

/-- The block the map of the root directory is continued in. -/
def rootIndirect (d : Disk) : Nat := (rootInode d).addr.get NDIRECT

theorem rootInode_congr {d d' : Disk} (h0 : d' 0 = d 0)
    (hroot : d' (d 0).superblock.inodestart = d (d 0).superblock.inodestart) :
    rootInode d' = rootInode d := by
  unfold rootInode
  rw [h0, hroot]

theorem RootRead.congr {p q : Prop} {d d' : Disk} (h0 : d' 0 = d 0)
    (hroot : d' (d 0).superblock.inodestart = d (d 0).superblock.inodestart)
    (h : RootRead p q d) : RootRead p q d' := by
  obtain ⟨hp, hmagic, hlayout, hq, hnull⟩ := h
  rw [← hroot, ← h0] at hnull
  rw [← h0] at hmagic hlayout
  exact ⟨hp, hmagic, hlayout, hq, hnull⟩

theorem accepted_congr {ok : Nat → Prop} {d d' : Disk} (h0 : d' 0 = d 0)
    (hroot : d' (d 0).superblock.inodestart = d (d 0).superblock.inodestart)
    (hind : ok (rootIndirect d) → d' (rootIndirect d) = d (rootIndirect d))
    (h : Accepted ok d) : Accepted ok d' := by
  have hr := h.reached.congr h0 hroot
  rw [← h0] at hr
  suffices hblocks : ∀ x, Allocated d' (rootInode d).addr (rootInode d).size.toNat x → ok x by
    rw [← rootInode_congr h0 hroot] at hblocks
    have hdir := h.dir
    have hwhole := h.whole
    have hle := h.le
    rw [← rootInode_congr h0 hroot] at hdir hwhole hle
    exact ⟨hr, hdir, hwhole, hle, hblocks⟩
  rintro x ⟨i, hi, hx, hblock⟩
  refine h.blocks x ⟨i, hi, hx, ?_⟩
  rcases hblock with rfl | hblock
  · refine .inl ?_
    unfold bmap at hx ⊢
    by_cases hd : i < NDIRECT
    · rw [if_pos hd, if_pos hd]
    rw [if_neg hd] at hx
    rw [if_neg hd, if_neg hd]
    by_cases hz : (rootInode d).addr.get NDIRECT = 0
    · rw [if_pos hz, if_pos hz]
    · have hok : ok (rootIndirect d) := h.blocks _ ⟨i, hi, hz, .inr ⟨not_lt.mp hd, rfl⟩⟩
      have heq := hind hok
      unfold rootIndirect at heq
      rw [if_neg hz, if_neg hz, heq]
  · exact .inr hblock

theorem badRoot_congr {d d' : Disk} (h0 : d' 0 = d 0)
    (hroot : d' (d 0).superblock.inodestart = d (d 0).superblock.inodestart)
    (h : BadRoot fsize d) : BadRoot fsize d' := by
  obtain ⟨hr, hbad⟩ := h
  rw [RootFits, ← rootInode_congr h0 hroot] at hbad
  have hr' := hr.congr h0 hroot
  rw [← h0] at hr'
  exact ⟨hr', hbad⟩

/-- Where the block of the inodes and the indirect block of the root directory are numbered below
    2^22 or lie outside, the two agree but on a root inode that is not a directory. -/
theorem sameVerdict_iff_of_lt {file : Disk}
    (hinodes : Inside fsize (file 0).superblock.inodestart →
      (file 0).superblock.inodestart < 2 ^ 22)
    (hind : Inside fsize (rootIndirect file) → rootIndirect file < 2 ^ 22) (w : World) :
    SameVerdict (xv6check fsize file w)
      ((xv6Docheck (devcheck fsize)).run { w with disk := file }) ↔ ¬ RootMistyped fsize file := by
  have h0 : mapped file 0 = file 0 := mapped_eq file (by decide)
  rw [sameVerdict_iff]
  by_cases hin : Inside fsize (file 0).superblock.inodestart
  · have hroot := mapped_eq file (hinodes hin)
    have hroot' : mapped file (mapped file 0).superblock.inodestart =
        file (mapped file 0).superblock.inodestart := by
      rw [h0]
      exact hroot
    have hinode : rootIndirect (mapped file) = rootIndirect file := by
      unfold rootIndirect
      rw [rootInode_congr h0 hroot]
    have hhalt : rootHalt (mapped file) = rootHalt file := by
      unfold rootHalt
      rw [rootInode_congr h0 hroot]
    have hacc : Accepted (Inside fsize) (mapped file) ↔ Accepted (Inside fsize) file := by
      refine ⟨accepted_congr h0.symm hroot'.symm ?_, accepted_congr h0 hroot fun hok => ?_⟩
      · rw [hinode]
        exact fun hok => (mapped_eq file (hind hok)).symm
      · exact mapped_eq file (hind hok)
    rw [hhalt, and_self, ← rootMistyped_iff]
    exact ⟨fun h => h.2.2, fun h =>
      ⟨⟨badRoot_congr h0.symm hroot'.symm, badRoot_congr h0 hroot⟩, fun _ => hacc, h⟩⟩
  · have hin' : ¬ Inside fsize (mapped file 0).superblock.inodestart := by
      rw [h0]
      exact hin
    refine iff_of_true ⟨?_, fun _ => ?_, fun h => absurd h.1.inodes hin⟩ fun h => hin h.1.inodes
    · exact iff_of_false (fun h => hin' h.1.inodes) fun h => hin h.1.inodes
    · exact iff_of_false (fun h => hin' h.reached.inodes) fun h => hin h.reached.inodes

/-! ## Where they do not -/

/-- An image whose log reaches up to block 2^22, where its inodes are. -/
def hugeLog : Disk := fun b =>
  if b = 0 then
    ((((((Block.setU32 0 FSMAGIC Buf.zero).setU32 1 (2 ^ 22 + 2000)).setU32 4 (2 ^ 22 - 1)).setU32 5
      1).setU32 6 (2 ^ 22)).setU32 7 (2 ^ 22 + 1))
  else if b = 2 ^ 22 then
    Block.setDinode 1 ⟨T_DIR, 0, 0, 1, 32, fun _ => 0⟩ Buf.zero
  else
    Buf.zero

theorem hugeLog_superblock : (hugeLog 0).superblock =
    ⟨FSMAGIC, 2 ^ 22 + 2000, 0, 0, 2 ^ 22 - 1, 1, 2 ^ 22, 2 ^ 22 + 1⟩ := by
  unfold hugeLog Block.superblock
  simp (disch := first | decide | omega) only [if_true, Block.u32_setU32, Block.u32_zero]
  simp

theorem hugeLog_root : rootInode hugeLog = ⟨T_DIR, 0, 0, 1, 32, fun _ => 0⟩ := by
  unfold rootInode
  rw [hugeLog_superblock]
  exact Block.dinode_setDinode _ _ (by decide)

theorem hugeLog_accepted {ok : Nat → Prop} (h0 : ok 0) (h : ok (2 ^ 22)) :
    Accepted ok hugeLog := by
  have hsb := hugeLog_superblock
  refine ⟨⟨h0, ?_, ?_, ?_, ?_⟩, ?_, ?_, ?_, ?_⟩
  · rw [hsb]
  · rw [hsb]
    decide
  · rw [hsb]
    exact h
  · rw [hsb]
    exact emptyRoot_null 200 4200
  · rw [hugeLog_root]
  · rw [hugeLog_root]
    decide
  · rw [hugeLog_root]
    decide
  · rw [hugeLog_root]
    rintro x ⟨i, hi, hx, hblock | ⟨-, hblock⟩⟩
    · obtain rfl : i = 0 := by
        by_contra hne
        have hge : 1 * BSIZE ≤ i * BSIZE := Nat.mul_le_mul_right _ (Nat.pos_of_ne_zero hne)
        have hlt : i * BSIZE < 1 * BSIZE := lt_trans hi (by decide)
        exact absurd hlt (not_lt.mpr hge)
      exact absurd hblock hx
    · exact absurd hblock hx

/-- The file's block 2^22 is mapped to its block 0, whose first inode is the magic number. -/
theorem hugeLog_rejected {p q : Prop} : ¬ RootRead p q (mapped hugeLog) := by
  intro h
  have hnull := h.null
  have h0 : mapped hugeLog 0 = hugeLog 0 := mapped_eq hugeLog (by decide)
  have hwrap : mapped hugeLog (2 ^ 22) = hugeLog 0 := by
    unfold mapped
    congr 1
  rw [h0, hugeLog_superblock] at hnull
  change ((mapped hugeLog (2 ^ 22)).dinode 0).type = 0 at hnull
  rw [hwrap] at hnull
  revert hnull
  decide +kernel

theorem hugeLog_differs (h : 2 ^ 22 < fsize / BSIZE) (w : World) :
    ¬ RootMistyped fsize hugeLog ∧ ¬ SameVerdict (xv6check fsize hugeLog w)
      ((xv6Docheck (devcheck fsize)).run { w with disk := hugeLog }) := by
  have h0 : Inside fsize 0 := inside_iff.mpr (lt_trans (by decide) h)
  have hacc := hugeLog_accepted h0 (inside_iff.mpr h)
  refine ⟨fun hm => hm.2 hacc.dir, fun hsame => ?_⟩
  have hgood : ¬ BadRoot fsize hugeLog := fun hb => hb.2 ⟨hacc.dir, hacc.whole⟩
  have hacc' := (((sameVerdict_iff hugeLog w).mp hsame).2.1 hgood).mpr hacc
  exact hugeLog_rejected hacc'.reached

/-- The call is one of a device of `fsize` bytes. -/
def OnDevice (fsize : Nat) : Event → Prop
  | .bread b f => f = .ok ↔ Inside fsize b
  | _ => True

/-- A run of the module's checker on which `sb_bread` answers as the device does ends as the
    checker over the device does. -/
theorem modcheck_verdict {w w' : World} {e : Int}
    (h : Runs (OnDevice fsize) (xv6Docheck modcheck) w e w') :
    ∃ e' w'', (xv6Docheck (devcheck fsize)).run w = .ok (e', w'') ∧ (e = 0 ↔ e' = 0) := by
  have hc : Reading modcheck (OnDevice fsize) (fun b r => r = decide (Inside fsize b)) := by
    refine ⟨fun {b r w w'} h => ?_, rfl⟩
    obtain ⟨hev, hr, hw⟩ := (runs_sbBread b w w' r).mp h
    have hev' : w.env.io w.log.length = .ok ↔ Inside fsize b := hev
    exact ⟨by rw [hr, decide_eq_decide.mpr hev'], _, hw⟩
  rcases inside_outcome (devcheck fsize) rfl rfl w with ⟨-, e', w'', hrun, he'⟩ | ⟨hbad, -⟩
  · exact ⟨e', w'', hrun, (docheck_zero_iff hc h).trans he'.symm⟩
  · exfalso
    rcases docheck_reads hc h with ⟨-, hno⟩ | ⟨-, hdir, l, dir, e₁, w₁, hiter, -⟩
    · exact hno (by simpa using hbad.1)
    · exact hbad.2 ⟨hdir, (iterate_reads hc hiter).1⟩

end

end Xv6fs
