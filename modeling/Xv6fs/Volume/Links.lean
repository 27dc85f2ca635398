/-
  Link counts and parents over whole runs.

  When the calls are made as the VFS makes them (`AsVfs`), each of them is one step of the
  namespace (`NamesInv.step`), and the link counts stay exact (`links_exact`). No call writes the
  '..' of a directory that it moves, so every '..' names the parent as long as no directory is
  moved to another one (`parents_right`).
-/
import Xv6fs.Volume.NameSteps
import Xv6fs.Volume.Runs

namespace Xv6fs

/-! ## What is kept -/

namespace Volume

/-- The entries behind the dots that name inode `n`, each a directory and a position in it. -/
def entriesOf (v : Volume) (n : Nat) : Set (Nat × Nat) := {x | v.entryOf x.1 x.2 = some n}

/-- A number that is named is that of an inode in use, which counts its names. -/
def LinksExact (v : Volume) : Prop :=
  ∀ n, (v.entriesOf n).Nonempty → SlotInUse v.world.env v.world.disk n ∧
    (v.entriesOf n).encard = v.linksOf n ∧ v.linksOf n ≤ 32767

/-- Entries 0 and 1 of a directory that an entry of directory `p` names are those of a directory
    in `p`. The root is left out. -/
def ParentsRight (v : Volume) : Prop :=
  ∀ p i n, v.entryOf p i = some n → SlotInUse v.world.env v.world.disk n → v.typeOf n = T_DIR →
    n ≠ ROOTINO → v.dotsOf n = some (dotsFor n p)

/-- The name stands in the directory at `dir` for the inode at `p`. -/
def Names (v : Volume) (dir : Ptr) (name : FileName) (p : Ptr) : Prop :=
  ∃ (nm : EntryName) (inum : UInt16), nm.name = name ∧
    v.nameIn (v.world.inodes dir).ino nm = some inum ∧ inum.toNat = (v.world.inodes p).ino

end Volume

/-- The calls as the VFS makes them: a name that is created or linked is not there, one that is
    removed or renamed stands for the inode, only files are written, linked and unlinked, and
    neither the root nor the directory itself is removed. Renames are those that succeed. -/
def AsVfs (v : Volume) : VolumeCall → Prop
  | .lookup _ _ => True
  | .create dir name => NameOk name ∧ v.Absent (v.world.inodes dir).ino name
  | .mkdir dir name => NameOk name ∧ v.Absent (v.world.inodes dir).ino name
  | .write p _ _ _ _ => (v.world.inodes p).fmt ≠ .dir
  | .link p dir name => NameOk name ∧ v.Absent (v.world.inodes dir).ino name ∧
      (v.world.inodes p).fmt ≠ .dir ∧ (v.entriesOf (v.world.inodes p).ino).Nonempty
  | .unlink dir p name => v.Names dir name p ∧ (v.world.inodes p).fmt ≠ .dir ∧
      (v.world.inodes p).ino ≠ ROOTINO
  | .rmdir dir p name => v.Names dir name p ∧ (v.world.inodes p).ino ≠ ROOTINO ∧
      (v.world.inodes p).ino ≠ (v.world.inodes dir).ino
  | .rename olddir p oldname newdir newname badFlags => v.Names olddir oldname p ∧
      NameOk newname ∧ ∃ w, Returns (xv6Rename olddir p oldname newdir newname badFlags) v.world 0 w

/-- No directory is moved to another directory. -/
def Stays (v : Volume) : VolumeCall → Prop
  | .rename olddir p _ newdir _ _ =>
    (v.world.inodes olddir).ino ≠ (v.world.inodes newdir).ino → (v.world.inodes p).fmt ≠ .dir
  | _ => True

section

variable {v v' : Volume} {w : World} {env : Env} {d : Disk} {cs : List VolumeCall} {p : Ptr}

theorem namesOf_node (n : Nat) : Namespace.namesOf v.node n = v.entriesOf n := by
  ext x
  unfold Namespace.namesOf Volume.entriesOf
  rw [Set.mem_ofPred_eq, Set.mem_ofPred_eq, nameAt_node]

theorem linksExact_iff : v.LinksExact ↔ Namespace.Exact INT16_MAX v.node := by
  constructor
  · intro h x n hx
    rw [nameAt_node] at hx
    obtain ⟨hu, hcount, hle⟩ := h n ⟨x, hx⟩
    refine ⟨_, if_pos hu, ?_, hle⟩
    rw [namesOf_node]
    exact hcount
  · rintro h n ⟨x, hx⟩
    obtain ⟨y, hy, hcount, hle⟩ := h x n ((nameAt_node x).trans hx)
    rw [namesOf_node] at hcount
    have hu : SlotInUse v.world.env v.world.disk n := by
      by_contra hu
      rw [Volume.node, if_neg hu] at hy
      cases hy
    rw [Volume.node, if_pos hu] at hy
    cases hy
    exact ⟨hu, hcount, hle⟩

theorem parentsRight_iff : v.ParentsRight ↔
    Namespace.AtHome ROOTINO (fun n p => some (dotsFor n p)) v.node := by
  constructor
  · intro h x n y hx hy hisDir hroot
    rw [nameAt_node] at hx
    have hu : SlotInUse v.world.env v.world.disk n := by
      by_contra hu
      rw [Volume.node, if_neg hu] at hy
      cases hy
    rw [Volume.node, if_pos hu] at hy
    cases hy
    exact h x.1 x.2 n hx hu (decide_eq_true_iff.mp hisDir) hroot
  · intro h p i n hx hu ht hroot
    exact h (p, i) n _ ((nameAt_node (p, i)).trans hx) (if_pos hu) (decide_eq_true ht) hroot

/-! ## Runs -/

/-- A call as the VFS makes it is a step of the namespace. -/
theorem NamesInv.step {c : VolumeCall} (hi : NamesInv v) (hE : v.LinksExact) (hc : AsVfs v c)
    (h : VolumeStep v c v') : NamesInv v' ∧ NameStep (Stays v c) v v' := by
  have hE' := linksExact_iff.mp hE
  cases h with
  | lookup hdir h hgone =>
    obtain ⟨hi', hnode⟩ := hi.lookup hgone h
    refine ⟨hi', ?_⟩
    unfold NameStep
    rw [hnode]
    exact .same _
  | create hdir h => exact hi.create hdir hc.1 hc.2 h
  | mkdir hdir h => exact hi.create hdir hc.1 hc.2 h
  | write hp h =>
    obtain ⟨hi', hnode⟩ := hi.write hp hc h
    refine ⟨hi', ?_⟩
    unfold NameStep
    rw [hnode]
    exact .same _
  | link hp hdir h =>
    obtain ⟨hname, habs, hfile, x, hx⟩ := hc
    exact hi.link hp hdir hname habs hfile ⟨x, (nameAt_node x).trans hx⟩ h
  | unlink hdir hp h =>
    obtain ⟨⟨nm, inum, rfl, hsome, hnum⟩, hfile, hroot⟩ := hc
    refine hi.unlink _ hE' hdir hp hsome hnum hroot (fun hne => ?_) (fun y k hy => ?_) h
    · rw [hi.unique _ _ hp hdir hne] at hfile
      exact hfile (hi.fmt_of_nameIn hdir hsome)
    · rw [hi.node_of_fmt hp hfile] at hy
      cases hy
      rfl
  | rmdir hdir hp h =>
    obtain ⟨⟨nm, inum, rfl, hsome, hnum⟩, hroot, hne⟩ := hc
    exact hi.rmdir hE' hdir hp hsome hnum hroot hne h
  | rename hold hp hnew h =>
    obtain ⟨⟨nm, inum, rfl, hsome, hnum⟩, hname, w', hok⟩ := hc
    obtain ⟨rfl, -⟩ := h.unique hok
    exact hi.rename hold hp hnew hsome hnum hname id h

/-- Link counts over whole runs. -/
theorem links_exact (hi : NamesInv v) (hE : v.LinksExact)
    (hrun : Steps (GuardedBy AsVfs VolumeStep) v cs v') : v'.LinksExact := by
  refine (hrun.invariant (I := fun u => NamesInv u ∧ u.LinksExact) (fun u c u' h hstep => ?_)
    ⟨hi, hE⟩).2
  obtain ⟨hi', hs⟩ := h.1.step h.2 hstep.1 hstep.2
  exact ⟨hi', linksExact_iff.mpr ((linksExact_iff.mp h.2).step (by decide) hs)⟩

/-- Parents over whole runs. -/
theorem parents_right (hi : NamesInv v) (hE : v.LinksExact) (hD : v.ParentsRight)
    (hrun : Steps (GuardedBy (fun u c => AsVfs u c ∧ Stays u c) VolumeStep) v cs v') :
    v'.ParentsRight := by
  refine (hrun.invariant (I := fun u => NamesInv u ∧ u.LinksExact ∧ u.ParentsRight)
    (fun u c u' h hstep => ?_) ⟨hi, hE, hD⟩).2.2
  obtain ⟨hu, hEu, hDu⟩ := h
  obtain ⟨hi', hs⟩ := hu.step hEu hstep.1.1 hstep.2
  have hEu' := linksExact_iff.mp hEu
  exact ⟨hi', linksExact_iff.mpr (hEu'.step (by decide) hs),
    parentsRight_iff.mpr ((parentsRight_iff.mp hDu).step hEu' hstep.1.2 hs)⟩

end

/-! ## A file with two names, and a directory that is moved -/

/-- The root directory alone, in core at address 0. -/
def rootVolume : World := { rootDir .little with tree := [0] }

theorem rootVolume_root : SlotInUse rootVolume.env rootVolume.disk 1 ∧
    (∀ n < 48, SlotInUse rootVolume.env rootVolume.disk n → n = 1) ∧
    (Volume.mk rootVolume []).typeOf 1 = T_DIR ∧ (Volume.mk rootVolume []).sizeOf 1 = 32 := by
  decide +kernel

/-- The slots of the table but for that of the root are unused. -/
theorem rootVolume_used {n : Nat} : SlotInUse rootVolume.env rootVolume.disk n ↔ n = 1 := by
  obtain ⟨hroot, hall, -⟩ := rootVolume_root
  constructor
  · intro hu
    refine hall n ?_ hu
    have hslot : 1 + n / 16 < 4 := hu.1
    omega
  · rintro rfl
    exact hroot

theorem rootVolume_addrs : (Volume.mk rootVolume []).addrsOf = oneFile 1 20 := by
  funext n
  unfold Volume.addrsOf oneFile
  by_cases hn : n = 1
  · rw [if_pos (rootVolume_used.mpr hn), if_pos hn, hn]
    rfl
  · rw [if_neg fun hu => hn (rootVolume_used.mp hu), if_neg hn]

theorem rootVolume_inv : NamesInv ⟨rootVolume, []⟩ := by
  have hs := rootDir_site .little
  have hlive : ∀ p, (Volume.mk rootVolume []).Live p → p = 0 := fun p hp =>
    List.mem_singleton.mp hp.1
  have hdir : ∀ n addrs, (Volume.mk rootVolume []).dirAddrs n = some addrs →
      n = 1 ∧ addrs = oneBlock 20 := fun n addrs ha => by
    unfold Volume.dirAddrs at ha
    rw [rootVolume_addrs] at ha
    unfold oneFile at ha
    split at ha
    · split at ha
      · next hn => exact ⟨hn, (Option.some.inj ha).symm⟩
      · cases ha
    · cases ha
  have htable : rootVolume.env.info.TableOk := by
    unfold FsInfo.TableOk
    decide
  refine ⟨⟨hs.quiet, hs.sound, htable, hs.hint, fun p hp => ?_, fun p hp => ?_,
    fun p q hp hq _ => ?_, fun p hp => ?_, fun p hp => ?_, ?_⟩, rfl, by decide, fun p hp => ?_,
    fun n addrs ha => ?_⟩
  · rw [List.mem_singleton.mp hp]
    decide
  · cases hp
  · rw [hlive p hp, hlive q hq]
  · exact rootVolume_used.mpr rfl
  · exact Option.some_ne_none _
  · rw [rootVolume_addrs]
    exact hs.owned
  · exact ⟨show 1 ≠ 0 by decide, iff_of_true rfl rootVolume_root.2.2.1⟩
  · obtain ⟨rfl, rfl⟩ := hdir n addrs ha
    rw [rootVolume_root.2.2.2]
    exact ⟨by decide, hs.valid⟩

/-- The root has no entries behind the dots. -/
theorem rootVolume_entryOf (p i : Nat) : (Volume.mk rootVolume []).entryOf p i = none := by
  unfold Volume.entryOf
  cases ha : (Volume.mk rootVolume []).dirAddrs p with
  | none => rw [Option.bind_none]
  | some addrs =>
    have hp : p = 1 := by
      unfold Volume.dirAddrs at ha
      rw [rootVolume_addrs] at ha
      unfold oneFile at ha
      by_contra hp
      rw [if_neg hp, ite_self] at ha
      cases ha
    rw [Option.bind_some, hp, rootVolume_root.2.2.2]
    refine if_neg fun hc => ?_
    have hlt : i < 2 := hc.2.1
    omega

theorem rootVolume_exact : (Volume.mk rootVolume []).LinksExact := by
  rintro n ⟨x, hx⟩
  have hx' : (Volume.mk rootVolume []).entryOf x.1 x.2 = some n := hx
  rw [rootVolume_entryOf] at hx'
  cases hx'

theorem rootVolume_parents : (Volume.mk rootVolume []).ParentsRight := by
  intro p i n hx
  rw [rootVolume_entryOf] at hx
  cases hx

/-- A name of one entry name only. -/
theorem Volume.absent_of {v : Volume} {n : Nat} (nm : EntryName) (h : v.nameIn n nm = none) :
    v.Absent n nm.name := by
  rintro nm' heq
  obtain rfl : nm' = nm := EntryName.field_inj (congrArg strncpy heq)
  exact h

def entryB : EntryName := ⟨fileB, ⟨by simp [fileB], by simp [fileB]⟩, by decide, by decide +kernel⟩

/-- A file "a" in the root. -/
def namedVolume : World := rootVolume.after (xv6Create 0 fileA false)

def linkedVolume : World := namedVolume.after (xv6Link 1 0 fileB)

/-- The file has a second name, and loses the first. -/
def relinkedVolume : World := linkedVolume.after (xv6Unlink 0 1 fileA)

theorem links_exact_relinked : (Volume.mk relinkedVolume []).LinksExact := by
  have hfile : (namedVolume.inodes 1).fmt ≠ .dir := by decide +kernel
  have hnamed : (Volume.mk namedVolume []).entryOf 1 2 = some (namedVolume.inodes 1).ino := by
    decide +kernel
  have hgone : (Volume.mk linkedVolume []).unlinked relinkedVolume 1 = ⟨relinkedVolume, []⟩ := by
    unfold Volume.unlinked
    rw [if_pos (by decide +kernel)]
  have hunlink : VolumeStep ⟨linkedVolume, []⟩ (.unlink 0 1 fileA) ⟨relinkedVolume, []⟩ := by
    rw [← hgone]
    exact .unlink ⟨by decide +kernel, by decide⟩ ⟨by decide +kernel, by decide⟩
      (e := 0) (returns_after (by decide +kernel))
  have hrun : Steps (GuardedBy AsVfs VolumeStep) ⟨rootVolume, []⟩
      [.create 0 fileA, .link 1 0 fileB, .unlink 0 1 fileA] ⟨relinkedVolume, []⟩ :=
    .cons ⟨⟨entryA.ok, Volume.absent_of entryA (by decide +kernel)⟩,
      .create (r := (0, some 1)) ⟨by decide +kernel, by decide⟩
        (returns_after (by decide +kernel))⟩ <|
    .cons ⟨⟨entryB.ok, Volume.absent_of entryB (by decide +kernel), hfile, (1, 2), hnamed⟩,
      .link (e := 0) ⟨by decide +kernel, by decide⟩ ⟨by decide +kernel, by decide⟩
        (returns_after (by decide +kernel))⟩ <|
    .cons ⟨⟨⟨entryA, 2, rfl, by decide +kernel, by decide +kernel⟩, by decide +kernel,
      by decide +kernel⟩, hunlink⟩ (.nil _)
  exact links_exact rootVolume_inv rootVolume_exact hrun

/-- The root, whose first two addresses both name block 20: entries 64 and 65 are '.' and '..'
    once more, and its link count is 2. -/
def mirrorVolume : World :=
  { rootVolume with inodes := fun _ =>
      ⟨1, .dir, 2, 67 * 16, some fun i => if i.val < 2 then 20 else 0, false, true, 1⟩ }

theorem mirrorVolume_root : (Volume.mk mirrorVolume []).sizeOf 1 = 67 * 16 ∧
    (Volume.mk mirrorVolume []).linksOf 1 = 2 ∧
    ∀ i < 67, (Volume.mk mirrorVolume []).entryOf 1 i =
      if i = 64 ∨ i = 65 then some 1 else none := by
  decide +kernel

theorem mirrorVolume_entryOf (p i : Nat) : (Volume.mk mirrorVolume []).entryOf p i =
    if p = 1 ∧ (i = 64 ∨ i = 65) then some 1 else none := by
  by_cases hp : p = 1
  · subst hp
    obtain ⟨hsize, -, hall⟩ := mirrorVolume_root
    by_cases hi : i < 67
    · rw [hall i hi]
      simp
    · rw [if_neg (by omega)]
      unfold Volume.entryOf
      cases (Volume.mk mirrorVolume []).dirAddrs 1 with
      | none => rw [Option.bind_none]
      | some addrs =>
        rw [Option.bind_some, hsize]
        exact if_neg fun hc => hi hc.2.1
  · rw [if_neg fun hc => hp hc.1]
    have hunused : ¬ SlotInUse mirrorVolume.env mirrorVolume.disk p := fun hu =>
      hp (rootVolume_used.mp hu)
    unfold Volume.entryOf Volume.dirAddrs
    rw [addrsOf_unused hunused, ite_self, Option.bind_none]

theorem mirrorVolume_exact : (Volume.mk mirrorVolume []).LinksExact := by
  rintro n ⟨x, hx⟩
  have hx' : (Volume.mk mirrorVolume []).entryOf x.1 x.2 = some n := hx
  rw [mirrorVolume_entryOf] at hx'
  split at hx'
  · obtain rfl := Option.some.inj hx'
    have hpair : (Volume.mk mirrorVolume []).entriesOf 1 = {(1, 64), (1, 65)} := by
      ext ⟨p, i⟩
      unfold Volume.entriesOf
      rw [Set.mem_ofPred_eq, mirrorVolume_entryOf]
      simp only [ite_eq_left_iff, reduceCtorEq, imp_false, not_not, Set.mem_insert_iff,
        Set.mem_singleton_iff, Prod.mk.injEq]
      tauto
    rw [hpair, mirrorVolume_root.2.1, Set.encard_pair (by decide)]
    exact ⟨rootVolume_used.mpr rfl, rfl, by decide⟩
  · cases hx'

/-- The new entry is stored once and stands in two places. -/
theorem links_exact_mirrored : (Volume.mk mirrorVolume []).LinksExact ∧
    (Volume.mk mirrorVolume []).Absent 1 fileA ∧ ∃ w,
      Returns (xv6Create 0 fileA false) mirrorVolume (0, some 1) w ∧
      Steps VolumeStep ⟨mirrorVolume, []⟩ [.create 0 fileA] ⟨w, []⟩ ∧
      ¬ (Volume.mk w []).LinksExact := by
  have hrun : Returns (xv6Create 0 fileA false) mirrorVolume (0, some 1)
      (mirrorVolume.after (xv6Create 0 fileA false)) := returns_after (by decide +kernel)
  refine ⟨mirrorVolume_exact, Volume.absent_of entryA (by decide +kernel), _, hrun,
    .single (.create ⟨by decide +kernel, by decide⟩ hrun), fun hE => ?_⟩
  have hfirst : (Volume.mk (mirrorVolume.after (xv6Create 0 fileA false)) []).entryOf 1 2 =
      some 2 := by decide +kernel
  have hsecond : (Volume.mk (mirrorVolume.after (xv6Create 0 fileA false)) []).entryOf 1 66 =
      some 2 := by decide +kernel
  have hlinks : (Volume.mk (mirrorVolume.after (xv6Create 0 fileA false)) []).linksOf 2 = 1 := by
    decide +kernel
  obtain ⟨-, hcount, -⟩ := hE 2 ⟨(1, 2), hfirst⟩
  rw [hlinks, Nat.cast_one, Set.encard_eq_one] at hcount
  obtain ⟨x, hx⟩ := hcount
  have h₁ : ((1, 2) : Nat × Nat) ∈ ({x} : Set (Nat × Nat)) := hx ▸ hfirst
  have h₂ : ((1, 66) : Nat × Nat) ∈ ({x} : Set (Nat × Nat)) := hx ▸ hsecond
  cases Set.mem_singleton_iff.mp h₁
  cases Set.mem_singleton_iff.mp h₂

/-! ## A directory that is moved -/

/-- A directory "a" in the root. -/
def subdirVolume : World := rootVolume.after (xv6Mkdir 0 fileA)

/-- The same under the name "b". -/
def renamedVolume : World := subdirVolume.after (xv6Rename 0 1 fileA 0 fileB false)

theorem parents_right_renamed : (Volume.mk renamedVolume []).ParentsRight := by
  have hren : Returns (xv6Rename 0 1 fileA 0 fileB false) subdirVolume 0 renamedVolume :=
    returns_after (by decide +kernel)
  have hrun : Steps (GuardedBy (fun u c => AsVfs u c ∧ Stays u c) VolumeStep) ⟨rootVolume, []⟩
      [.mkdir 0 fileA, .rename 0 1 fileA 0 fileB false] ⟨renamedVolume, []⟩ :=
    .cons ⟨⟨⟨entryA.ok, Volume.absent_of entryA (by decide +kernel)⟩, trivial⟩,
      .mkdir (r := (0, some 1)) ⟨by decide +kernel, by decide⟩
        (returns_after (by decide +kernel))⟩ <|
    .cons ⟨⟨⟨⟨entryA, 2, rfl, by decide +kernel, by decide +kernel⟩, entryB.ok, _, hren⟩,
      fun hne => absurd rfl hne⟩, .rename ⟨by decide +kernel, by decide⟩
        ⟨by decide +kernel, by decide⟩ ⟨by decide +kernel, by decide⟩ hren⟩ (.nil _)
  exact parents_right rootVolume_inv rootVolume_exact rootVolume_parents hrun

/-- The directory "a" is moved into the directory "b", and its '..' is the root still. -/
theorem parents_right_moved : (Volume.mk rootVolume []).ParentsRight ∧ ∃ w₁ w₂ w₃,
    Returns (xv6Mkdir 0 fileA) rootVolume (0, some 1) w₁ ∧
    Returns (xv6Mkdir 0 fileB) w₁ (0, some 2) w₂ ∧
    Returns (xv6Rename 0 1 fileA 2 fileA false) w₂ 0 w₃ ∧
    ¬ (Volume.mk w₃ []).ParentsRight := by
  refine ⟨rootVolume_parents, _, _, _, returns_after (by decide +kernel),
    returns_after (by decide +kernel), returns_after (by decide +kernel), fun hD => ?_⟩
  have h := hD 3 2 2 (by decide +kernel) (by decide +kernel) (by decide +kernel) (by decide)
  have hparent := congrArg (Option.map fun x => x.2.inum) h
  revert hparent
  decide +kernel

end Xv6fs
