/-
  Inodes as the nodes of a namespace.

  With the entries of its directories behind '.' and '..', the link counts and the dots a file
  system is a namespace (`Volume.node`). A call changes the nodes it works on; of every other
  inode the slot, the link count, the addresses and the blocks are kept, and so is its node
  (`NodeKept`).
-/
import Xv6fs.Dir.Large
import Xv6fs.Lib.Namespace
import Xv6fs.Volume.Kept

namespace Xv6fs

/-! ## Definitions -/

/-- The inode that entry `i` of a directory names. Entries 0 and 1, '.' and '..', are left out. -/
def dirEntry (d : Disk) (addrs : Addrs) (size i : Nat) : Option Nat :=
  if 2 ≤ i ∧ i < capped size / 16 ∧ (dslot d addrs i).inum ≠ 0 then
    some (dslot d addrs i).inum.toNat
  else
    none

/-- Entries 0 and 1 of directory `n` in directory `p`. -/
def dotsFor (n p : Nat) : Dirent × Dirent :=
  (⟨UInt16.ofNat n, strncpy dot⟩, ⟨UInt16.ofNat p, strncpy dotdot⟩)

namespace Volume

def typeOf (v : Volume) (n : Nat) : UInt16 := (slot v.world.env v.world.disk n).type

/-- The link count of an inode: that in core when the inode is cached. -/
def linksOf (v : Volume) (n : Nat) : Nat :=
  match v.cached n with
  | some p => (v.world.inodes p).nlink
  | none => (slot v.world.env v.world.disk n).nlink.toNat

/-- The addresses of the directories. -/
def dirAddrs (v : Volume) (n : Nat) : Option Addrs :=
  if v.typeOf n = T_DIR then v.addrsOf n else none

/-- The inode that entry `i` of directory `n` names. -/
def entryOf (v : Volume) (n i : Nat) : Option Nat :=
  (v.dirAddrs n).bind fun addrs => dirEntry v.world.disk addrs (v.sizeOf n) i

/-- Entries 0 and 1 of directory `n`. -/
def dotsOf (v : Volume) (n : Nat) : Option (Dirent × Dirent) :=
  (v.dirAddrs n).map fun addrs => (dslot v.world.disk addrs 0, dslot v.world.disk addrs 1)

/-- The inode number that directory `n` maps a name to. -/
def nameIn (v : Volume) (n : Nat) (nm : EntryName) : Option UInt16 :=
  (v.dirAddrs n).bind fun addrs => dirMap v.world.disk addrs (capped (v.sizeOf n)) nm

/-- An inode in use as a node of a namespace. -/
def node (v : Volume) (n : Nat) : Option (Namespace.Node Nat Nat (Option (Dirent × Dirent))) :=
  if SlotInUse v.world.env v.world.disk n then
    some ⟨v.typeOf n = T_DIR, v.linksOf n, v.entryOf n, v.dotsOf n⟩
  else
    none

/-- The entries of directory `n` are valid, as far as a file can hold them. -/
def DirOk (v : Volume) (n : Nat) : Prop :=
  ∀ addrs, v.dirAddrs n = some addrs →
    v.sizeOf n < 2 ^ 32 ∧ ValidDir v.world.disk addrs (capped (v.sizeOf n))

end Volume

/-- Inode `n` has the type that it has in `v`, and its addresses, its size and its blocks. -/
structure DirKept (n : Nat) (v v' : Volume) : Prop where
  env : v'.world.env = v.world.env
  type : HasSlot v.world.env n → v'.typeOf n = v.typeOf n
  file : SlotInUse v.world.env v.world.disk n → FileKept n v v'

/-- Inode `n` is the same node in `v'`. -/
structure NodeKept (n : Nat) (v v' : Volume) : Prop extends DirKept n v v' where
  links : SlotInUse v.world.env v.world.disk n → v'.linksOf n = v.linksOf n

section

variable {v v' v'' : Volume} {w w' : World} {g g' : List Ptr} {p q dir : Ptr} {n m : Nat} {e : Int}
  {name : FileName} {nm : EntryName} {addrs addrs' : Addrs} {d d' : Disk} {size size' k : Nat}
  {inum : UInt16}

/-! ## Entries -/

/-- Entries that read as before. -/
theorem SameFile.dirEntry (h : SameFile d addrs d' addrs') :
    dirEntry d' addrs' size = dirEntry d addrs size := by
  funext i
  unfold Xv6fs.dirEntry
  by_cases hi : i < capped size / 16
  · rw [h.slots (capped_slots hi).2]
  · rw [if_neg fun hc => hi hc.2.1, if_neg fun hc => hi hc.2.1]

/-- Erasing an entry drops one name. -/
theorem dirEntry_clear (hk : k < MAXFILE * NENTS)
    (h : SlotSet d addrs k Dirent.erased d' addrs') :
    dirEntry d' addrs' size = Function.update (dirEntry d addrs size) k none := by
  funext i
  by_cases hik : i = k
  · subst hik
    rw [Function.update_self]
    unfold dirEntry
    rw [h i hk, if_pos rfl]
    exact if_neg fun hc => hc.2.2 rfl
  · rw [Function.update_of_ne hik]
    unfold dirEntry
    by_cases hi : i < capped size / 16
    · rw [h i (capped_slots hi).2, if_neg hik]
    · rw [if_neg fun hc => hi hc.2.1, if_neg fun hc => hi hc.2.1]

/-- Writing an entry adds one name. -/
theorem dirEntry_put {nm : Name} (hk : 2 ≤ k) (hmax : k < MAXFILE * NENTS) (hinum : inum ≠ 0)
    (hle : k ≤ capped size / 16) (hmul : capped size % 16 = 0)
    (hsize : capped size' = if k < capped size / 16 then capped size else capped size + 16)
    (h : SlotSet d addrs k ⟨inum, nm⟩ d' addrs') :
    dirEntry d' addrs' size' = Function.update (dirEntry d addrs size) k (some inum.toNat) := by
  have hdiv : k < capped size' / 16 ∧
      ∀ i, i ≠ k → (i < capped size' / 16 ↔ i < capped size / 16) := by
    rw [hsize]
    split
    · next hlt => exact ⟨hlt, fun _ _ => Iff.rfl⟩
    · next hge => exact ⟨by omega, fun i hi => by omega⟩
  funext i
  by_cases hik : i = k
  · subst hik
    rw [Function.update_self]
    unfold dirEntry
    rw [h i hmax, if_pos rfl]
    exact if_pos ⟨hk, hdiv.1, hinum⟩
  · rw [Function.update_of_ne hik]
    unfold dirEntry
    simp only [hdiv.2 i hik]
    by_cases hi : i < capped size / 16
    · rw [h i (capped_slots hi).2, if_neg hik]
    · rw [if_neg fun hc => hi hc.2.1, if_neg fun hc => hi hc.2.1]

/-- From `w` to `w'` the directory at `p` has got other entries behind the dots. -/
structure Rewritten (w : World) (p : Ptr) (names : Nat → Option Nat) (w' : World) : Prop where
  fits : (w'.inodes p).size < 2 ^ 32
  valid : ValidDir w'.disk (w'.addrs p) (capped (w'.inodes p).size)
  dots : ∀ i, i < 2 → dslot w'.disk (w'.addrs p) i = dslot w.disk (w.addrs p) i
  entries : dirEntry w'.disk (w'.addrs p) (w'.inodes p).size = names

theorem Rewritten.same {w'' : World} {names : Nat → Option Nat} (h : Rewritten w p names w')
    (hsize : (w''.inodes p).size = (w'.inodes p).size)
    (hsame : SameFile w'.disk (w'.addrs p) w''.disk (w''.addrs p)) : Rewritten w p names w'' := by
  refine ⟨by rw [hsize]; exact h.fits, ?_, fun i hi => ?_, ?_⟩
  · rw [hsize]
    exact (hsame.validDir h.valid).1
  · rw [hsame.slots (by simp only [MAXFILE, NENTS]; omega), h.dots i hi]
  · rw [hsize, hsame.dirEntry, h.entries]

/-- Erasing a name that is there drops the entry that it stands for. -/
theorem AnyDir.erased {A : Nat → Option Addrs} (h : AnyDir w p) (hq : Quiet w.env)
    (ho : Owned w.env w.disk A) (hA : A n = some (w.addrs p))
    (hsome : dirMap w.disk (w.addrs p) (capped (w.inodes p).size) nm = some inum)
    (hrun : Returns (xv6DirErase p nm.name) w e w') :
    e = 0 ∧ ∃ k, dirEntry w.disk (w.addrs p) (w.inodes p).size k = some inum.toNat ∧
      Rewritten w p
        (Function.update (dirEntry w.disk (w.addrs p) (w.inodes p).size) k none) w' := by
  obtain ⟨h0, k, l, hk, hinum, hne, hw'⟩ := h.erase hq hsome hrun
  obtain ⟨-, hmax⟩ := capped_slots hk.lt
  have hset : SlotSet w.disk (w.addrs p) k Dirent.erased w'.disk (w.addrs p) := by
    rw [hw']
    exact slotSet_update ho hA (slot_block hmax) rfl hne
  have haddrs : w'.addrs p = w.addrs p := by
    rw [hw']
    exact World.addrs_of_priv h.cached
  have hsize : (w'.inodes p).size = (w.inodes p).size := by rw [hw']
  have hge := hk.ge
  have hused : (dslot w.disk (w.addrs p) k).inum ≠ 0 := by
    have hmatch := (h.valid.matches_iff hk.lt).mp hk.sat
    exact (Dirent.binding_eq_some.mp hmatch).1
  refine ⟨h0, k, ?_, by rw [hsize]; exact h.fits, ?_, fun i hi => ?_, ?_⟩
  · rw [← hinum]
    exact if_pos ⟨hge, hk.lt, hused⟩
  · rw [haddrs, hsize]
    exact (h.valid.clear hk hset).1
  · rw [haddrs, hset i (by simp only [MAXFILE, NENTS]; omega), if_neg (by omega)]
  · rw [haddrs, hsize, dirEntry_clear hmax hset]

/-- Inserting a name that is not there adds an entry, unless it fails. -/
theorem AnyDir.inserted {A : Nat → Option Addrs} (h : AnyDir w p)
    (hw : GrowReady w (w.addrs p)) (ho : Owned w.env w.disk A) (hA : A n = some (w.addrs p))
    (hq : Quiet w.env) (hinum : inum ≠ 0)
    (hnone : dirMap w.disk (w.addrs p) (capped (w.inodes p).size) nm = none)
    (hrun : Returns (xv6DentryInsert p nm.name inum.toNat) w e w') :
    (e ≠ 0 → Rewritten w p (dirEntry w.disk (w.addrs p) (w.inodes p).size) w') ∧
      (e = 0 → ∃ k, dirEntry w.disk (w.addrs p) (w.inodes p).size k = none ∧ Rewritten w p
        (Function.update (dirEntry w.disk (w.addrs p) (w.inodes p).size) k (some inum.toNat))
        w') := by
  have hins := h.insert hw ho hA hq hrun
  have hv := h.valid
  have hslots := hv.two_le
  refine ⟨fun hne => ?_, fun h0 => ?_⟩
  · obtain ⟨hsame, hsize⟩ := hins.failed hne
    refine ⟨hins.fits, ?_, fun i hi => ?_, ?_⟩
    · rw [hsize]
      exact (hsame.validDir hv).1
    · exact hsame.slots (by simp only [MAXFILE, NENTS]; omega)
    · rw [hsize, hsame.dirEntry]
  · obtain ⟨k, hk, hmax, hfree, hsize, hset⟩ := hins.entry h0
    -- the dots are in use
    have hdot : ∀ {i} {target : FileName}, i < 2 → NameOk target →
        (dslot w.disk (w.addrs p) i).name = strncpy target → k ≠ i := by
      rintro i target hi hok hslot rfl
      have hz := hv.unused k (by omega) (hfree (by omega))
      rw [hslot] at hz
      exact strncpy_first hok hz
    have hk0 := hdot (by decide) nameOk_dot hv.dot
    have hk1 := hdot (by decide) nameOk_dotdot hv.dotdot
    refine ⟨k, if_neg fun hc => hc.2.2 (hfree hc.2.1), hins.fits, ?_, fun i hi => ?_, ?_⟩
    · exact (hv.put hk hmax hfree hinum hnone hsize hset).1
    · rw [hset i (by simp only [MAXFILE, NENTS]; omega), if_neg (by omega)]
    · exact dirEntry_put (by omega) hmax hinum hk hv.mul hsize hset

/-- Growth changes no type. -/
theorem FileGrew.type (hi : VolumeInv ⟨w, g⟩) (hp : (Volume.mk w g).Live p)
    (h : FileGrew w p (w.addrs p) addrs' w') (hn : HasSlot w.env n) :
    (Volume.mk w' g).typeOf n = (Volume.mk w g).typeOf n := by
  unfold Volume.typeOf
  dsimp only
  rw [h.env, h.slots hi hp hn]

/-! ## The same node -/

/-- What a name stands for. -/
theorem nameAt_node (x : Nat × Nat) : Namespace.nameAt v.node x = v.entryOf x.1 x.2 := by
  unfold Namespace.nameAt Volume.node
  by_cases hu : SlotInUse v.world.env v.world.disk x.1
  · rw [if_pos hu, Option.bind_some]
  · unfold Volume.entryOf Volume.dirAddrs Volume.addrsOf
    rw [if_neg hu, if_neg hu, ite_self, Option.bind_none, Option.bind_none]

/-- What an inode that is not in use lacks. -/
theorem addrsOf_unused (hu : ¬ SlotInUse v.world.env v.world.disk n) : v.addrsOf n = none :=
  if_neg hu

/-- An inode that is no directory has no names. -/
theorem Volume.node_file (hu : SlotInUse v.world.env v.world.disk n) (ht : v.typeOf n ≠ T_DIR) :
    v.node n = some ⟨false, v.linksOf n, fun _ => none, none⟩ := by
  have hdir : v.dirAddrs n = none := if_neg ht
  have hentry : v.entryOf n = fun _ => none := by
    funext i
    unfold Volume.entryOf
    rw [hdir, Option.bind_none]
  have hdots : v.dotsOf n = none := by
    unfold Volume.dotsOf
    rw [hdir, Option.map_none]
  unfold Volume.node
  rw [if_pos hu, hentry, hdots, decide_eq_false ht]

namespace DirKept

theorem used (h : DirKept n v v') :
    SlotInUse v'.world.env v'.world.disk n ↔ SlotInUse v.world.env v.world.disk n := by
  have htype := h.type
  unfold Volume.typeOf at htype
  unfold SlotInUse
  rw [h.env] at htype ⊢
  exact and_congr_right fun hn => by rw [htype hn]

theorem dirAddrs (h : DirKept n v v') : v'.dirAddrs n = v.dirAddrs n := by
  unfold Volume.dirAddrs
  by_cases hu : SlotInUse v.world.env v.world.disk n
  · rw [h.type hu.1, (h.file hu).addrs]
  · rw [addrsOf_unused hu, addrsOf_unused fun hc => hu (h.used.mp hc), ite_self, ite_self]

/-- A directory that is kept. -/
theorem sameDir (h : DirKept n v v') (ha : v.dirAddrs n = some addrs) :
    v'.sizeOf n = v.sizeOf n ∧ SameFile v.world.disk addrs v'.world.disk addrs := by
  unfold Volume.dirAddrs at ha
  by_cases ht : v.typeOf n = T_DIR
  · rw [if_pos ht] at ha
    have hu : SlotInUse v.world.env v.world.disk n := by
      by_contra hu
      rw [addrsOf_unused hu] at ha
      cases ha
    exact ⟨(h.file hu).size, (h.file hu).sameFile ha⟩
  · rw [if_neg ht] at ha
    cases ha

theorem entryOf (h : DirKept n v v') : v'.entryOf n = v.entryOf n := by
  funext i
  unfold Volume.entryOf
  rw [h.dirAddrs]
  cases ha : v.dirAddrs n with
  | none => rw [Option.bind_none, Option.bind_none]
  | some addrs =>
    obtain ⟨hsize, hsame⟩ := h.sameDir ha
    rw [Option.bind_some, Option.bind_some, hsize, hsame.dirEntry]

theorem dotsOf (h : DirKept n v v') : v'.dotsOf n = v.dotsOf n := by
  unfold Volume.dotsOf
  rw [h.dirAddrs]
  cases ha : v.dirAddrs n with
  | none => rw [Option.map_none, Option.map_none]
  | some addrs =>
    obtain ⟨-, hsame⟩ := h.sameDir ha
    rw [Option.map_some, Option.map_some, hsame.slots (by decide), hsame.slots (by decide)]

theorem dirOk (h : DirKept n v v') (hd : v.DirOk n) : v'.DirOk n := by
  intro addrs ha
  rw [h.dirAddrs] at ha
  obtain ⟨hsize, hsame⟩ := h.sameDir ha
  rw [hsize]
  exact ⟨(hd addrs ha).1, (hsame.validDir (hd addrs ha).2).1⟩

theorem nameIn (h : DirKept n v v') (hd : v.DirOk n) : v'.nameIn n = v.nameIn n := by
  funext nm
  unfold Volume.nameIn
  rw [h.dirAddrs]
  cases ha : v.dirAddrs n with
  | none => rw [Option.bind_none, Option.bind_none]
  | some addrs =>
    obtain ⟨hsize, hsame⟩ := h.sameDir ha
    rw [Option.bind_some, Option.bind_some, hsize, (hsame.validDir (hd addrs ha).2).2]

end DirKept

namespace NodeKept

theorem refl : NodeKept n v v := ⟨⟨rfl, fun _ => rfl, .refl⟩, fun _ => rfl⟩

theorem trans (h : NodeKept n v v') (h' : NodeKept n v' v'') : NodeKept n v v'' where
  env := h'.env.trans h.env
  type hn := (h'.type (by rw [h.env]; exact hn)).trans (h.type hn)
  links hu := (h'.links (h.used.mpr hu)).trans (h.links hu)
  file hu := (h.file hu).trans (h'.file (h.used.mpr hu))

theorem node (h : NodeKept n v v') : v'.node n = v.node n := by
  unfold Volume.node
  by_cases hu : SlotInUse v.world.env v.world.disk n
  · rw [if_pos hu, if_pos (h.used.mpr hu), h.type hu.1, h.links hu, h.entryOf, h.dotsOf]
  · rw [if_neg hu, if_neg fun hc => hu (h.used.mp hc)]

/-- The inode is cached in both states, or in neither. -/
theorem of_cached (henv : w'.env = w.env)
    (htype : HasSlot w.env n → (slot w.env w'.disk n).type = (slot w.env w.disk n).type)
    (hcached : (Volume.mk w' g').cached n = (Volume.mk w g).cached n)
    (hslot : (Volume.mk w g).cached n = none → SlotInUse w.env w.disk n →
      slot w.env w'.disk n = slot w.env w.disk n)
    (hnlink : ∀ q, (Volume.mk w g).cached n = some q →
      (w'.inodes q).nlink = (w.inodes q).nlink)
    (hfile : SlotInUse w.env w.disk n → FileKept n ⟨w, g⟩ ⟨w', g'⟩) :
    NodeKept n ⟨w, g⟩ ⟨w', g'⟩ := by
  refine ⟨⟨henv, fun hn => ?_, hfile⟩, fun hu => ?_⟩
  · unfold Volume.typeOf
    dsimp only
    rw [henv]
    exact htype hn
  · unfold Volume.linksOf
    rw [hcached]
    cases hc : (Volume.mk w g).cached n with
    | none =>
      dsimp only
      rw [henv, hslot hc hu]
    | some q => exact hnlink q hc

/-! ## Calls that keep a node -/

/-- Neither the disk nor the tree has changed, nor what counts of its nodes. -/
theorem nodes (hi : VolumeInv ⟨w, g⟩) (henv : w'.env = w.env) (hdisk : w'.disk = w.disk)
    (htree : w'.tree = w.tree) (hino : ∀ q, q ∈ w.tree → (w'.inodes q).ino = (w.inodes q).ino)
    (hpriv : ∀ q, q ∈ w.tree → (w'.inodes q).priv = (w.inodes q).priv)
    (hsize : ∀ q, q ∈ w.tree → (w'.inodes q).size = (w.inodes q).size)
    (hnlink : ∀ q, (Volume.mk w g).cached n = some q →
      (w'.inodes q).nlink = (w.inodes q).nlink) : NodeKept n ⟨w, g⟩ ⟨w', g⟩ :=
  of_cached henv (fun _ => by rw [hdisk]) (Volume.cached_congr htree hino)
    (fun _ _ => by rw [hdisk]) hnlink
    fun hu => .nodes hi hu henv hdisk htree hino hpriv hsize

theorem outside (hi : VolumeInv ⟨w, g⟩) (henv : w'.env = w.env) (hdisk : w'.disk = w.disk)
    (htree : w'.tree = w.tree) (hsame : ∀ q, q ∈ w.tree → w'.inodes q = w.inodes q) :
    NodeKept n ⟨w, g⟩ ⟨w', g⟩ :=
  nodes hi henv hdisk htree (fun q hq => congrArg Inode.ino (hsame q hq))
    (fun q hq => congrArg Inode.priv (hsame q hq)) (fun q hq => congrArg Inode.size (hsame q hq))
    fun q hc => congrArg Inode.nlink (hsame q (Volume.cached_eq_some hc).1.1)

theorem logs (hi : VolumeInv ⟨w, g⟩) (h : OnlyLogs w w') : NodeKept n ⟨w, g⟩ ⟨w', g⟩ := by
  obtain ⟨l, rfl⟩ := h
  exact outside hi rfl rfl rfl fun _ _ => rfl

/-- Fields of one in-core inode. The link count may change when it is that of another inode. -/
theorem setInode {ino : Inode} (hi : VolumeInv ⟨w, g⟩) (hino : ino.ino = (w.inodes p).ino)
    (hpriv : ino.priv = (w.inodes p).priv) (hsize : ino.size = (w.inodes p).size)
    (hnlink : (w.inodes p).ino = n → ino.nlink = (w.inodes p).nlink) :
    NodeKept n ⟨w, g⟩ ⟨w.setInode p ino, g⟩ := by
  refine nodes hi rfl rfl rfl (fun q _ => World.setInode_field _ hino q)
    (fun q _ => World.setInode_field _ hpriv q) (fun q _ => World.setInode_field _ hsize q)
    fun q hc => ?_
  by_cases hqp : q = p
  · subst hqp
    rw [World.setInode_self, hnlink (Volume.cached_eq_some hc).2]
  · exact congrArg Inode.nlink (Function.update_of_ne hqp _ _)

/-- A node is entered into the tree. If it is that of the inode it has been loaded from the slot. -/
theorem enter (hi : VolumeInv ⟨w, g⟩) (hgone : q ∉ g)
    (hnone : ∀ r, (Volume.mk w g).Live r → (w.inodes r).ino ≠ (w.inodes q).ino)
    (hload : (w.inodes q).ino = n → (w.inodes q).priv = some (slot w.env w.disk n).addr ∧
      (w.inodes q).size = (slot w.env w.disk n).size.toNat ∧
      (w.inodes q).nlink = (slot w.env w.disk n).nlink.toNat) :
    NodeKept n ⟨w, g⟩ ⟨{ w with tree := q :: w.tree }, g⟩ := by
  refine ⟨⟨rfl, fun _ => rfl, fun hu => .enter hi hu hgone hnone fun hn => ?_⟩, fun _ => ?_⟩
  · exact ⟨(hload hn).1, (hload hn).2.1⟩
  · unfold Volume.linksOf
    by_cases hn : (w.inodes q).ino = n
    · have hnew : (Volume.mk { w with tree := q :: w.tree } g).cached n = some q := by
        unfold Volume.cached
        exact List.find?_cons_of_pos (by simpa using ⟨hgone, hn⟩)
      have hold : (Volume.mk w g).cached n = none :=
        Volume.cached_eq_none.mpr fun r hr => hn ▸ hnone r hr
      rw [hnew, hold]
      exact (hload hn).2.2
    · have hsame : (Volume.mk { w with tree := q :: w.tree } g).cached n =
          (Volume.mk w g).cached n := by
        unfold Volume.cached
        exact List.find?_cons_of_neg (by simpa using fun _ => hn)
      rw [hsame]

/-- Another file grows. -/
theorem grew (hi : VolumeInv ⟨w, g⟩) (hp : (Volume.mk w g).Live p) (hne : (w.inodes p).ino ≠ n)
    (h : FileGrew w p (w.addrs p) addrs' w') : NodeKept n ⟨w, g⟩ ⟨w', g⟩ := by
  refine of_cached h.env (fun hn => congrArg Dinode.type (h.slots hi hp hn))
    (h.reworked hi hp).nodes.cached (fun _ hu => h.slots hi hp hu.1) (fun q hc => ?_)
    fun hu => .grew hi hp hu hne h
  have hqp : q ≠ p := by
    rintro rfl
    exact hne (Volume.cached_eq_some hc).2
  exact congrArg Inode.nlink (h.other hqp)

theorem sync (hi : VolumeInv ⟨w, g⟩) (hp : (Volume.mk w g).Live p)
    (h : Returns (xv6SyncInode p) w e w') : NodeKept n ⟨w, g⟩ ⟨w', g⟩ := by
  cases hro : w.env.rdonly with
  | true =>
    obtain ⟨-, rfl⟩ := xv6SyncInode_rdonly hro h
    exact refl
  | false =>
    have hn := (hi.allocated p hp).1
    have hfile : SlotInUse w.env w.disk n → FileKept n ⟨w, g⟩ ⟨w', g⟩ := fun hu =>
      .sync hi hp hu h
    obtain ⟨hino, -⟩ := xv6SyncInode_spec hro h
    obtain ⟨l, hret⟩ := xv6SyncInode_returns hi.quiet hro hino
    obtain ⟨-, rfl⟩ := h.unique hret
    refine of_cached rfl (fun hslot => ?_) rfl (fun hc hu => ?_) (fun _ _ => rfl) hfile
    · by_cases hnp : n = (w.inodes p).ino
      · rw [hnp]
        change (slot w.env (syncDisk w.env w.disk (w.inodes p)) (w.inodes p).ino).type = _
        rw [slot_syncDisk]
        rfl
      · exact congrArg Dinode.type (hn.setSlot_ne hi.sound hslot hnp)
    · apply hn.setSlot_ne hi.sound hu.1
      rintro rfl
      exact Volume.cached_eq_none.mp hc p hp rfl

/-- The blocks in use are as they were, and so is the slot. -/
theorem newDisk {hint : Nat} (hi : VolumeInv ⟨w, g⟩)
    (hfront : ∀ x, x < w.env.info.inodestart → d x = w.disk x)
    (hslot : HasSlot w.env n → slot w.env d n = slot w.env w.disk n)
    (hheld : ∀ x, Held w.env w.disk x → d x = w.disk x) (l : List Event) :
    NodeKept n ⟨w, g⟩ ⟨{ w with disk := d, hint := hint, log := l }, g⟩ :=
  of_cached rfl (fun hn => congrArg Dinode.type (hslot hn)) rfl (fun _ hu => hslot hu.1)
    (fun _ _ => rfl) fun hu => .newDisk hi hu hfront (hslot hu.1) hheld l

end NodeKept

/-! ## Inodes in core -/

section

variable (hi : VolumeInv ⟨w, g⟩) (hp : (Volume.mk w g).Live p)

include hi hp

theorem VolumeInv.sizeOf_live :
    (Volume.mk w g).sizeOf (w.inodes p).ino = (w.inodes p).size := by
  unfold Volume.sizeOf
  rw [hi.cached_live hp]

theorem VolumeInv.linksOf_live :
    (Volume.mk w g).linksOf (w.inodes p).ino = (w.inodes p).nlink := by
  unfold Volume.linksOf
  rw [hi.cached_live hp]

theorem VolumeInv.dirAddrs_live (ht : (Volume.mk w g).typeOf (w.inodes p).ino = T_DIR) :
    (Volume.mk w g).dirAddrs (w.inodes p).ino = some (w.addrs p) :=
  (if_pos ht).trans (hi.addrsOf_live hp)

/-- A directory in core as a node. -/
theorem VolumeInv.node_dir (ht : (Volume.mk w g).typeOf (w.inodes p).ino = T_DIR) :
    (Volume.mk w g).node (w.inodes p).ino = some ⟨true, (w.inodes p).nlink,
      dirEntry w.disk (w.addrs p) (w.inodes p).size,
      some (dslot w.disk (w.addrs p) 0, dslot w.disk (w.addrs p) 1)⟩ := by
  have hentry : (Volume.mk w g).entryOf (w.inodes p).ino =
      dirEntry w.disk (w.addrs p) (w.inodes p).size := by
    funext i
    unfold Volume.entryOf
    rw [hi.dirAddrs_live hp ht, Option.bind_some, hi.sizeOf_live hp]
  have hdots : (Volume.mk w g).dotsOf (w.inodes p).ino =
      some (dslot w.disk (w.addrs p) 0, dslot w.disk (w.addrs p) 1) := by
    unfold Volume.dotsOf
    rw [hi.dirAddrs_live hp ht, Option.map_some]
  unfold Volume.node
  rw [if_pos (hi.allocated p hp), hentry, hdots, hi.linksOf_live hp, decide_eq_true ht]

/-- A file in core as a node. -/
theorem VolumeInv.node_file (ht : (Volume.mk w g).typeOf (w.inodes p).ino ≠ T_DIR) :
    (Volume.mk w g).node (w.inodes p).ino =
      some ⟨false, (w.inodes p).nlink, fun _ => none, none⟩ := by
  rw [Volume.node_file (hi.allocated p hp) ht, hi.linksOf_live hp]

end

end

end Xv6fs
