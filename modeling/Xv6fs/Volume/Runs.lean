/-
  Whole runs of the file system.

  A mounted image in which every block is owned once stays one, through any number of lookups,
  creations, writes, links, unlinks, removals and renames, in any order and whatever each of them
  returns (`blocks_owned_once`).
-/
import Xv6fs.Balloc.Mount
import Xv6fs.Tree.Unlinked
import Xv6fs.Volume.Create
import Xv6fs.Volume.Unlink

namespace Xv6fs

/-! ## The calls -/

inductive VolumeCall where
  | lookup (dir : Ptr) (name : FileName)
  | create (dir : Ptr) (name : FileName)
  | mkdir (dir : Ptr) (name : FileName)
  | write (p : Ptr) (append : Bool) (buf : UserBuf) (len pos : Nat)
  | link (p dir : Ptr) (name : FileName)
  | unlink (dir p : Ptr) (name : FileName)
  | rmdir (dir p : Ptr) (name : FileName)
  | rename (olddir p : Ptr) (oldname : FileName) (newdir : Ptr) (newname : FileName)
      (badFlags : Bool)

/-- A call, with any result. The inodes it works on are in core, and none of them is gone; nor is
    the inode that a lookup comes across. -/
inductive VolumeStep : Volume → VolumeCall → Volume → Prop where
  | lookup {v : Volume} {dir : Ptr} {name : FileName} {r : Except Int (Option Ptr)} {w : World}
      (hdir : v.Live dir) (h : Returns (xv6Lookup dir name) v.world r w)
      (hgone : ∀ p, r = .ok (some p) → p ∉ v.gone) :
      VolumeStep v (.lookup dir name) { v with world := w }
  | create {v : Volume} {dir : Ptr} {name : FileName} {r : Int × Option Ptr} {w : World}
      (hdir : v.Live dir) (h : Returns (xv6Create dir name false) v.world r w) :
      VolumeStep v (.create dir name) { v with world := w }
  | mkdir {v : Volume} {dir : Ptr} {name : FileName} {r : Int × Option Ptr} {w : World}
      (hdir : v.Live dir) (h : Returns (xv6Mkdir dir name) v.world r w) :
      VolumeStep v (.mkdir dir name) { v with world := w }
  | write {v : Volume} {p : Ptr} {append : Bool} {buf : UserBuf} {len pos : Nat} {r : Int × Nat}
      {w : World} (hp : v.Live p) (h : Returns (xv6FileWrite p append buf len pos) v.world r w) :
      VolumeStep v (.write p append buf len pos) { v with world := w }
  | link {v : Volume} {p dir : Ptr} {name : FileName} {e : Int} {w : World} (hp : v.Live p)
      (hdir : v.Live dir) (h : Returns (xv6Link p dir name) v.world e w) :
      VolumeStep v (.link p dir name) { v with world := w }
  | unlink {v : Volume} {dir p : Ptr} {name : FileName} {e : Int} {w : World} (hdir : v.Live dir)
      (hp : v.Live p) (h : Returns (xv6Unlink dir p name) v.world e w) :
      VolumeStep v (.unlink dir p name) (v.unlinked w p)
  | rmdir {v : Volume} {dir p : Ptr} {name : FileName} {e : Int} {w : World} (hdir : v.Live dir)
      (hp : v.Live p) (h : Returns (xv6Rmdir dir p name) v.world e w) :
      VolumeStep v (.rmdir dir p name) (v.unlinked w p)
  | rename {v : Volume} {olddir p newdir : Ptr} {oldname newname : FileName} {badFlags : Bool}
      {e : Int} {w : World} (hold : v.Live olddir) (hp : v.Live p) (hnew : v.Live newdir)
      (h : Returns (xv6Rename olddir p oldname newdir newname badFlags) v.world e w) :
      VolumeStep v (.rename olddir p oldname newdir newname badFlags) { v with world := w }

theorem VolumeInv.step {v v' : Volume} {c : VolumeCall} (hi : VolumeInv v)
    (h : VolumeStep v c v') : VolumeInv v' := by
  cases h with
  | lookup hdir h hgone => exact hi.lookup hgone h
  | create hdir h => exact hi.create hdir h
  | mkdir hdir h => exact hi.create hdir h
  | write hp h => exact hi.write hp h
  | link hp hdir h => exact hi.link hp hdir h
  | unlink hdir hp h => exact hi.unlink hdir hp h
  | rmdir hdir hp h => exact hi.rmdir hdir hp h
  | rename hold hp hnew h => exact hi.rename hold hnew h

/-! ## The state in which a run begins -/

/-- The addresses of the inodes of an image. -/
def imageAddrs (env : Env) (d : Disk) (n : Nat) : Option Addrs :=
  if SlotInUse env d n then some (slot env d n).addr else none

section

variable {φ : Event → Prop} {w w' : World} {env : Env} {d : Disk} {e : Int} {p : Ptr}

/-- A mount reads the root directory into core. -/
theorem fillSuper_root_core (htree : w.tree = [])
    (h : Runs φ xv6FillSuper.root w (e, some p) w') :
    ∃ dino l, dino = (w.disk ((1 + w.env.info.nlog) % 2 ^ 32)).dinode ROOTINO ∧
      dino.type = T_DIR ∧ w' = { w with
        inodes := Function.update w.inodes w.next
          (Inode.ofDinode { Inode.fresh with refcount := 1, ino := ROOTINO } dino ROOTINO)
        tree := [w.next]
        next := w.next + 1
        log := l } := by
  simp only [xv6FillSuper.root] at h
  obtain ⟨ec, w₁, hcheck, h⟩ := h.bind
  obtain ⟨⟨l, rfl⟩, -⟩ := xv6Docheck_spec hcheck
  rcases h.ite with ⟨-, h⟩ | ⟨-, h⟩
  · cases h.pure.1
  obtain ⟨⟨q, found⟩, w₂, hfind, h⟩ := h.bind
  obtain ⟨-, ⟨p', -, hmem, -⟩ | ⟨-, l₁, ⟨hr, -⟩ | ⟨hr, rfl⟩⟩⟩ :=
    xv6FindInode_spec (by decide) hfind
  · rw [htree] at hmem
    cases hmem
  · cases hr
    cases h.pure.1
  cases hr
  simp only [runs_bind_getEnv] at h
  obtain ⟨ok, w₃, hread, h⟩ := h.bind
  obtain ⟨-, l₂, rfl⟩ := sbBread_spec hread
  rcases h.ite with ⟨-, h⟩ | ⟨-, h⟩
  · obtain ⟨u, w₄, hp, h⟩ := h.bind
    cases h.pure.1
  simp only [runs_bind_bdata] at h
  obtain ⟨ei, w₄, hinit, h⟩ := h.bind
  obtain ⟨-, ino, l₃, rfl, hino⟩ := xv6InitInode_spec hinit
  rcases h.ite with ⟨-, h⟩ | ⟨hok, h⟩
  · obtain ⟨u, w₅, hp, h⟩ := h.bind
    cases h.pure.1
  rcases h.ite with ⟨-, h⟩ | ⟨hdir, h⟩
  · obtain ⟨u, w₅, hp, h⟩ := h.bind
    cases h.pure.1
  obtain ⟨ok₂, w₅, hmem, h⟩ := h.bind
  obtain ⟨-, l₄, rfl⟩ := kmalloc_spec hmem
  rcases h.ite with ⟨-, h⟩ | ⟨-, h⟩
  · obtain ⟨u, w₆, hp, h⟩ := h.bind
    obtain ⟨u', w₇, hp', h⟩ := h.bind
    cases h.pure.1
  obtain ⟨-, rfl⟩ := h.pure
  refine ⟨_, l₄, rfl, not_not.mp hdir, ?_⟩
  obtain ⟨-, -, rfl⟩ | ⟨hbad, -⟩ := hino
  · simp only [Function.update_self, Function.update_idem, htree]
  · rcases hbad with rfl | rfl <;> exact absurd hok (by decide)

namespace Mounted

theorem tableOk (h : Mounted env d w) : w.env.info.TableOk := by
  obtain ⟨hi, hbmap, -⟩ := xv6CheckSb_ok h.ok
  have hle := (FsInfo.Checked.ninodes_le (d 0).superblock).1
  rw [h.env]
  show (d 0).superblock.inodestart + INODE_BLOCKS (d 0).superblock.fsInfo.ninodes ≤
    (d 0).superblock.bmapstart
  unfold INODE_BLOCKS at hbmap ⊢
  simp only [IPB] at hbmap ⊢
  omega

/-- When the number of inodes is not clamped, the hint is the start of the data area. -/
theorem hintOk (hn : (d 0).superblock.ninodes ≤ ninodesMax) (h : Mounted env d w) :
    HintOk w.env w.hint := by
  obtain ⟨-, hbmap, -⟩ := xv6CheckSb_ok h.ok
  have hclamp : (d 0).superblock.fsInfo.ninodes = (d 0).superblock.ninodes :=
    if_neg (not_lt.mpr hn)
  have hhint : w.hint = w.env.info.dataStart := by
    rw [h.hint, h.env]
    unfold FsInfo.hint FsInfo.dataStart
    rw [hclamp, show (d 0).superblock.fsInfo.bmapstart = (d 0).superblock.bmapstart from rfl, hbmap]
    rfl
  rw [hhint]
  exact ⟨le_rfl, h.sound.dataStart_le⟩

end Mounted

/-- The root directory is the only inode in core after a mount. -/
theorem fillSuper_core (h : xv6FillSuper (World.unmounted env d) = .ok ((e, some p), w)) :
    w.tree = [0] ∧ w.next = 1 ∧ (slot w.env w.disk ROOTINO).type = T_DIR ∧
      w.inodes 0 = w.loadedInode ROOTINO := by
  have hm := fillSuper_mounted h
  obtain ⟨l₀, hroot⟩ := fillSuper_root_run h
  generalize hw₀ : World.setFsInfo _ (d 0).superblock = w₀ at hroot
  obtain ⟨dino, l, hdino, htype, hw⟩ := fillSuper_root_core (by rw [← hw₀]; rfl) hroot
  have hfirst : w₀.next = 0 := by rw [← hw₀]; rfl
  have hslot : slot w.env w.disk ROOTINO = dino := by
    obtain ⟨hi, -, -⟩ := xv6CheckSb_ok hm.ok
    have hdisk : w₀.disk = d := by rw [← hw₀]; rfl
    have hnlog : w₀.env.info.nlog = (d 0).superblock.nlog := by rw [← hw₀]; rfl
    rw [hm.disk, hm.env, hdino, hdisk, hnlog]
    unfold slot inodeBlock
    dsimp only [Superblock.fsInfo]
    rw [hi, show ROOTINO / IPB = 0 by decide, show ROOTINO % IPB = ROOTINO by decide, Nat.add_zero]
  refine ⟨by rw [hw, hfirst], by rw [hw, hfirst], by rw [hslot, htype], ?_⟩
  unfold World.loadedInode
  rw [hslot]
  simp only [hw, hfirst, Function.update_self]

theorem fillSuper_inv (hq : Quiet env) (hn : (d 0).superblock.ninodes ≤ ninodesMax)
    (h : xv6FillSuper (World.unmounted env d) = .ok ((e, some p), w))
    (ho : Owned w.env d (imageAddrs w.env d)) : VolumeInv ⟨w, []⟩ := by
  have hm := fillSuper_mounted h
  have hh := hm.hintOk hn
  obtain ⟨htree, hnext, htype, hcore⟩ := fillSuper_core h
  have huse : SlotInUse w.env w.disk ROOTINO := by
    refine ⟨?_, ?_⟩
    · have htable := hm.tableOk
      unfold FsInfo.TableOk INODE_BLOCKS at htable
      show w.env.info.inodestart + ROOTINO / IPB < w.env.info.bmapstart
      rw [show ROOTINO / IPB = 0 by decide]
      exact lt_of_lt_of_le (Nat.add_lt_add_left (Nat.succ_pos _) _) htable
    · rw [htype]
      decide
  -- with nothing in core every inode has the addresses of its slot
  have hnone : ∀ r, ¬ (Volume.mk { w with tree := [] } []).Live r := fun r hr => by cases hr.1
  have haddrs : (Volume.mk { w with tree := [] } []).addrsOf = imageAddrs w.env d := by
    funext n
    unfold Volume.addrsOf imageAddrs
    rw [show (Volume.mk { w with tree := [] } []).cached n = none from rfl, ← hm.disk]
  have hi₀ : VolumeInv ⟨{ w with tree := [] }, []⟩ := by
    refine ⟨?_, hm.sound, hm.tableOk, ?_, fun q hq => absurd hq List.not_mem_nil,
      fun q hq => absurd hq List.not_mem_nil, fun q r hq _ _ => absurd hq (hnone q),
      fun q hq => absurd hq (hnone q), fun q hq => absurd hq (hnone q), ?_⟩
    · intro n
      dsimp only
      rw [hm.env]
      exact hq n
    · exact hh
    · rw [haddrs]
      show Owned w.env w.disk _
      rw [hm.disk]
      exact ho
  have hi := hi₀.enter (q := 0) (by dsimp only; rw [hnext]; decide) (by simp)
    (by dsimp only; rw [hcore]; exact huse) (fun r hr => absurd hr (hnone r))
    (by dsimp only; rw [hcore]; rfl)
  have hw' : { w with tree := 0 :: [] } = w := by rw [← htree]
  dsimp only at hi
  rwa [hw'] at hi

/-- Exclusive block ownership over whole runs. -/
theorem blocks_owned_once {cs : List VolumeCall} {v : Volume} (hq : Quiet env)
    (hn : (d 0).superblock.ninodes ≤ 65535)
    (h : xv6FillSuper (World.unmounted env d) = .ok ((0, some p), w))
    (ho : Owned w.env d (imageAddrs w.env d)) (hrun : Steps VolumeStep ⟨w, []⟩ cs v) :
    Owned v.world.env v.world.disk v.addrsOf :=
  (hrun.invariant (fun _ _ _ hi hstep => hi.step hstep) (fillSuper_inv hq hn h ho)).owned

end

/-! ## A file and a directory in its place -/

/-- The mounted image of an empty file system. -/
def emptyVolume : World :=
  match xv6FillSuper (World.unmounted (Env.calm .little) (emptyRoot 200 4200)) with
  | .ok (_, w) => w
  | .error _ => World.unmounted (Env.calm .little) (emptyRoot 200 4200)

def createdVolume : World := emptyVolume.after (xv6Create 0 fileA false)

def writtenVolume : World := createdVolume.after (xv6FileWrite 1 false (fun _ => some 7) 5 0)

def unlinkedVolume : World := writtenVolume.after (xv6Unlink 0 1 fileA)

def reusedVolume : World := unlinkedVolume.after (xv6Mkdir 0 fileB)

theorem emptyVolume_mounted : xv6FillSuper
    (World.unmounted (Env.calm .little) (emptyRoot 200 4200)) = .ok ((0, some 0), emptyVolume) := by
  obtain ⟨w, hw⟩ := emptyRoot_mounts 200 4200 (by decide) (by decide) (by decide)
  unfold emptyVolume
  rw [hw]

/-- No inode of an empty image has a block. -/
theorem emptyRoot_noBlocks (ninodes size : Nat) {b : Nat} (j : Nat) (hb : b ≠ 0) :
    ((emptyRoot ninodes size b).dinode j).addr = noBlocks := by
  have hzero : (Block.dinode Buf.zero j).addr = noBlocks := by
    funext k
    unfold Block.dinode Dinode.addr
    simp only [Buf.readNum_zero]
    rfl
  unfold emptyRoot
  rw [if_neg hb]
  by_cases hb1 : b = 1
  · rw [if_pos hb1]
    by_cases hj : j = 1
    · rw [hj, Block.dinode_setDinode _ _ (by decide)]
      rfl
    · rw [Block.dinode_setDinode_ne _ _ hj, hzero]
  · rw [if_neg hb1, hzero]

theorem emptyVolume_owned : Owned emptyVolume.env (emptyRoot 200 4200)
    (imageAddrs emptyVolume.env (emptyRoot 200 4200)) := by
  have hm := fillSuper_mounted emptyVolume_mounted
  have hsb := emptyRoot_superblock 200 4200 (by decide) (by decide)
  have hstart : emptyVolume.env.info.inodestart = 1 := by
    rw [hm.env, hsb]
    rfl
  have hnone : ∀ i, owns (emptyRoot 200 4200) (imageAddrs emptyVolume.env (emptyRoot 200 4200)) i =
      none := by
    rintro ⟨n, r⟩
    unfold owns imageAddrs
    split
    · next huse =>
      have hblock : inodeBlock emptyVolume.env n ≠ 0 := by
        rw [huse.1.block_eq hm.sound, hstart]
        exact (Nat.lt_of_lt_of_le Nat.one_pos (Nat.le_add_right _ _)).ne'
      rw [Option.bind_some]
      unfold slot
      rw [emptyRoot_noBlocks 200 4200 _ hblock]
      exact noBlocks_ownedAt _ _
    · rfl
  refine ⟨fun {i b} h => ?_, fun {i j b} h _ => ?_⟩
  · rw [hnone i] at h
    cases h
  · rw [hnone i] at h
    cases h

/-- The directory has the slot and a block of the file, which is gone but still in the tree. -/
theorem blocks_owned_once_reused :
    Steps VolumeStep ⟨emptyVolume, []⟩
      [.create 0 fileA, .write 1 false (fun _ => some 7) 5 0, .unlink 0 1 fileA, .mkdir 0 fileB]
      ⟨reusedVolume, [1]⟩ ∧
    reusedVolume.tree = [2, 1, 0] ∧ (reusedVolume.inodes 2).ino = (reusedVolume.inodes 1).ino ∧
    Owned reusedVolume.env reusedVolume.disk (Volume.mk reusedVolume [1]).addrsOf := by
  have hgone : (Volume.mk writtenVolume []).unlinked unlinkedVolume 1 = ⟨unlinkedVolume, [1]⟩ := by
    unfold Volume.unlinked
    rw [if_neg (by decide +kernel)]
  have hunlink : VolumeStep ⟨writtenVolume, []⟩ (.unlink 0 1 fileA) ⟨unlinkedVolume, [1]⟩ := by
    rw [← hgone]
    exact .unlink ⟨by decide +kernel, by decide⟩ ⟨by decide +kernel, by decide⟩
      (e := 0) (returns_after (by decide +kernel))
  have hrun : Steps VolumeStep ⟨emptyVolume, []⟩
      [.create 0 fileA, .write 1 false (fun _ => some 7) 5 0, .unlink 0 1 fileA, .mkdir 0 fileB]
      ⟨reusedVolume, [1]⟩ :=
    .cons (.create (r := (0, some 1)) ⟨by decide +kernel, by decide⟩
      (returns_after (by decide +kernel))) <|
    .cons (.write (r := (5, 5)) ⟨by decide +kernel, by decide⟩
      (returns_after (by decide +kernel))) <|
    .cons hunlink <| .cons (.mkdir (r := (0, some 2)) ⟨by decide +kernel, by decide⟩
      (returns_after (by decide +kernel))) (.nil _)
  exact ⟨hrun, by decide +kernel, by decide +kernel,
    blocks_owned_once (fun _ => rfl) (by decide +kernel) emptyVolume_mounted emptyVolume_owned hrun⟩

end Xv6fs
