/-
  Files that no call works on.

  A call works on the file that it writes, on the directories whose entries it changes, and on the
  inode that loses its last link. It changes the addresses, the size and the blocks of these and of
  no other inode that is in use, so an inode that no call of a run works on is the same in every
  state of the run (`file_kept`).
-/
import Xv6fs.Volume.Runs

namespace Xv6fs

/-- The size of an inode: that in core when the inode is cached. -/
def Volume.sizeOf (v : Volume) (n : Nat) : Nat :=
  match v.cached n with
  | some p => (v.world.inodes p).size
  | none => (slot v.world.env v.world.disk n).size.toNat

/-- Inode `n` is in use in `v'`, and has the addresses, the size and the blocks it has in `v`. The
    blocks in front of the inode table are the same too. -/
structure FileKept (n : Nat) (v v' : Volume) : Prop where
  env : v'.world.env = v.world.env
  front : ∀ x, x < v.world.env.info.inodestart → v'.world.disk x = v.world.disk x
  used : SlotInUse v'.world.env v'.world.disk n
  node : ∀ p, v.cached n = some p → v'.cached n = some p
  addrs : v'.addrsOf n = v.addrsOf n
  size : v'.sizeOf n = v.sizeOf n
  blocks : ∀ a x, v.addrsOf n = some a → Owns v.world.disk a x →
    v'.world.disk x = v.world.disk x

section

variable {v v' v'' : Volume} {w w' : World} {g g' : List Ptr} {p q dir : Ptr} {n : Nat} {e : Int}
  {name : FileName} {a : Addrs}

/-- Growth writes nothing in front of the table. -/
theorem FileGrew.front {addrs' : Addrs} (hi : VolumeInv ⟨w, g⟩) (hp : (Volume.mk w g).Live p)
    (h : FileGrew w p (w.addrs p) addrs' w') {x : Nat} (hx : x < w.env.info.inodestart) :
    w'.disk x = w.disk x :=
  h.grown.before hi.sound hi.owned (hi.addrsOf_live hp)
    (hx.trans (hi.allocated p hp).1.start_lt)

namespace FileKept

theorem refl (hu : SlotInUse v.world.env v.world.disk n) : FileKept n v v :=
  ⟨rfl, fun _ _ => rfl, hu, fun _ h => h, rfl, rfl, fun _ _ _ _ => rfl⟩

theorem trans (h : FileKept n v v') (h' : FileKept n v' v'') : FileKept n v v'' where
  env := h'.env.trans h.env
  front x hx := by
    have hx' : x < v'.world.env.info.inodestart := by
      rw [h.env]
      exact hx
    exact (h'.front x hx').trans (h.front x hx)
  used := h'.used
  node p hp := h'.node p (h.node p hp)
  addrs := h'.addrs.trans h.addrs
  size := h'.size.trans h.size
  blocks a x ha hx := by
    have hx' : Owns v'.world.disk a x := (owns_congr fun y hy => h.blocks a y ha hy).mpr hx
    rw [h'.blocks a x (h.addrs.trans ha) hx', h.blocks a x ha hx]

theorem sameFile (h : FileKept n v v') (ha : v.addrsOf n = some a) :
    SameFile v.world.disk a v'.world.disk a := fun _ hj =>
  fblock_congr hj fun y hy => h.blocks a y ha hy

theorem fbyte (h : FileKept n v v') (ha : v.addrsOf n = some a) {x : Nat}
    (hx : x < MAXFILE * BSIZE) : fbyte v'.world.disk a x = fbyte v.world.disk a x :=
  (h.sameFile ha).fbyte hx

/-- The inode is cached in both states, or in neither, and is the same there. -/
theorem of_cached (hi : VolumeInv ⟨w, g⟩) (hu : SlotInUse w.env w.disk n) (henv : w'.env = w.env)
    (hfront : ∀ x, x < w.env.info.inodestart → w'.disk x = w.disk x)
    (hcached : (Volume.mk w' g').cached n = (Volume.mk w g).cached n)
    (htype : (slot w.env w'.disk n).type = (slot w.env w.disk n).type)
    (hslot : (Volume.mk w g).cached n = none → slot w.env w'.disk n = slot w.env w.disk n)
    (hnode : ∀ q, (Volume.mk w g).cached n = some q →
      (w'.inodes q).priv = (w.inodes q).priv ∧ (w'.inodes q).size = (w.inodes q).size)
    (hblocks : ∀ a x, (Volume.mk w g).addrsOf n = some a → Owns w.disk a x →
      w'.disk x = w.disk x) : FileKept n ⟨w, g⟩ ⟨w', g'⟩ := by
  have hused : SlotInUse w'.env w'.disk n := by
    rw [henv]
    exact ⟨hu.1, htype ▸ hu.2⟩
  refine ⟨henv, hfront, hused, fun p hp => hcached.trans hp, ?_, ?_, hblocks⟩
  · apply Volume.addrsOf_congr (iff_of_true hused hu) hcached
    · intro _ hc
      dsimp only
      rw [henv, hslot hc]
    · intro q hc
      exact World.addrs_congr (hnode q hc).1 (hi.priv q (Volume.cached_eq_some hc).1)
  · unfold Volume.sizeOf
    rw [hcached]
    cases hc : (Volume.mk w g).cached n with
    | none =>
      dsimp only
      rw [henv, hslot hc]
    | some q => exact (hnode q hc).2

/-! ## Changes in core -/

/-- Neither the disk nor the tree has changed, nor the number, the addresses and the size of a
    node. -/
theorem nodes (hi : VolumeInv ⟨w, g⟩) (hu : SlotInUse w.env w.disk n) (henv : w'.env = w.env)
    (hdisk : w'.disk = w.disk) (htree : w'.tree = w.tree)
    (hino : ∀ q, q ∈ w.tree → (w'.inodes q).ino = (w.inodes q).ino)
    (hpriv : ∀ q, q ∈ w.tree → (w'.inodes q).priv = (w.inodes q).priv)
    (hsize : ∀ q, q ∈ w.tree → (w'.inodes q).size = (w.inodes q).size) :
    FileKept n ⟨w, g⟩ ⟨w', g⟩ := by
  refine of_cached hi hu henv (fun _ _ => by rw [hdisk]) (Volume.cached_congr htree hino)
    (by rw [hdisk]) (fun _ => by rw [hdisk]) ?_ fun _ _ _ _ => by rw [hdisk]
  intro q hc
  have hq := (Volume.cached_eq_some hc).1.1
  exact ⟨hpriv q hq, hsize q hq⟩

theorem outside (hi : VolumeInv ⟨w, g⟩) (hu : SlotInUse w.env w.disk n) (henv : w'.env = w.env)
    (hdisk : w'.disk = w.disk) (htree : w'.tree = w.tree)
    (hsame : ∀ q, q ∈ w.tree → w'.inodes q = w.inodes q) : FileKept n ⟨w, g⟩ ⟨w', g⟩ :=
  nodes hi hu henv hdisk htree (fun q hq => congrArg Inode.ino (hsame q hq))
    (fun q hq => congrArg Inode.priv (hsame q hq)) fun q hq => congrArg Inode.size (hsame q hq)

theorem logs (hi : VolumeInv ⟨w, g⟩) (hu : SlotInUse w.env w.disk n) (h : OnlyLogs w w') :
    FileKept n ⟨w, g⟩ ⟨w', g⟩ := by
  obtain ⟨l, rfl⟩ := h
  exact outside hi hu rfl rfl rfl fun _ _ => rfl

theorem setInode {ino : Inode} (hi : VolumeInv ⟨w, g⟩) (hu : SlotInUse w.env w.disk n)
    (hino : ino.ino = (w.inodes p).ino) (hpriv : ino.priv = (w.inodes p).priv)
    (hsize : ino.size = (w.inodes p).size) : FileKept n ⟨w, g⟩ ⟨w.setInode p ino, g⟩ :=
  nodes hi hu rfl rfl rfl (fun q _ => World.setInode_field _ hino q)
    (fun q _ => World.setInode_field _ hpriv q) fun q _ => World.setInode_field _ hsize q

theorem setNlink (hi : VolumeInv ⟨w, g⟩) (hu : SlotInUse w.env w.disk n) (nlink : Nat)
    (dirty : Bool) : FileKept n ⟨w, g⟩
      ⟨w.setInode p { w.inodes p with nlink := nlink, dirty := dirty }, g⟩ :=
  setInode hi hu rfl rfl rfl

/-- A node is entered into the tree. If it is that of the inode it has been loaded from the slot. -/
theorem enter (hi : VolumeInv ⟨w, g⟩) (hu : SlotInUse w.env w.disk n) (hgone : q ∉ g)
    (hnone : ∀ r, (Volume.mk w g).Live r → (w.inodes r).ino ≠ (w.inodes q).ino)
    (hload : (w.inodes q).ino = n → (w.inodes q).priv = some (slot w.env w.disk n).addr ∧
      (w.inodes q).size = (slot w.env w.disk n).size.toNat) :
    FileKept n ⟨w, g⟩ ⟨{ w with tree := q :: w.tree }, g⟩ := by
  by_cases hn : (w.inodes q).ino = n
  · have hnew : (Volume.mk { w with tree := q :: w.tree } g).cached n = some q := by
      unfold Volume.cached
      exact List.find?_cons_of_pos (by simpa using ⟨hgone, hn⟩)
    have hold : (Volume.mk w g).cached n = none :=
      Volume.cached_eq_none.mpr fun r hr => hn ▸ hnone r hr
    obtain ⟨hpriv, hsize⟩ := hload hn
    refine ⟨rfl, fun _ _ => rfl, hu, fun p hp => ?_, ?_, ?_, fun _ _ _ _ => rfl⟩
    · rw [hold] at hp
      cases hp
    · unfold Volume.addrsOf
      rw [if_pos hu, if_pos hu, hnew, hold]
      exact congrArg some (World.addrs_of_priv hpriv)
    · unfold Volume.sizeOf
      rw [hnew, hold]
      exact hsize
  · refine of_cached hi hu rfl (fun _ _ => rfl) ?_ rfl (fun _ => rfl) (fun _ _ => ⟨rfl, rfl⟩)
      fun _ _ _ _ => rfl
    unfold Volume.cached
    exact List.find?_cons_of_neg (by simpa using fun _ => hn)

theorem igot {m : Nat} {r : Except Int Ptr} (hi : VolumeInv ⟨w, g⟩)
    (hu : SlotInUse w.env w.disk n) (hgone : ∀ p, r = .ok p → p ∉ g) (h : Igot w m r w') :
    FileKept n ⟨w, g⟩ ⟨w', g⟩ := by
  have hfresh : ∀ {q}, q ∈ w.tree → q ≠ w.next := fun hq => (hi.below _ hq).ne
  cases h with
  | @found p hmem hino => exact setInode hi hu rfl rfl rfl
  | nomem => exact logs hi hu ⟨_, rfl⟩
  | failed =>
    exact outside hi hu rfl rfl rfl fun q hq => Function.update_of_ne (hfresh hq) _ _
  | @loaded l hnone htype =>
    have hold : ∀ q, q ∈ w.tree →
        Function.update w.inodes w.next (w.loadedInode m) q = w.inodes q :=
      fun q hq => Function.update_of_ne (hfresh hq) _ _
    have hi₁ : VolumeInv ⟨{ w with
        inodes := Function.update w.inodes w.next (w.loadedInode m)
        next := w.next + 1
        log := l }, g⟩ :=
      hi.outside rfl rfl rfl rfl (Nat.le_succ _) hold
    have hload : FileKept n ⟨w, g⟩ ⟨{ w with
        inodes := Function.update w.inodes w.next (w.loadedInode m)
        next := w.next + 1
        log := l }, g⟩ :=
      outside hi hu rfl rfl rfl hold
    have hnew : Function.update w.inodes w.next (w.loadedInode m) w.next = w.loadedInode m :=
      Function.update_self _ _ _
    refine hload.trans (enter (q := w.next) hi₁ hu (hgone w.next rfl) ?_ ?_)
    · intro r hr
      dsimp only
      rw [hnew, hold r hr.1]
      exact hnone r hr.1
    · dsimp only
      rw [hnew]
      rintro rfl
      exact ⟨rfl, rfl⟩

theorem lookup {r : Except Int (Option Ptr)} (hi : VolumeInv ⟨w, g⟩)
    (hu : SlotInUse w.env w.disk n) (hgone : ∀ p, r = .ok (some p) → p ∉ g)
    (h : Returns (xv6Lookup dir name) w r w') : FileKept n ⟨w, g⟩ ⟨w', g⟩ := by
  simp only [xv6Lookup, Returns] at h
  obtain ⟨⟨reason, dnum, de⟩, w₁, hfind, hrest⟩ := h.bind
  have hlogs := findInum_readOnly hfind
  have hi₁ := hi.logs hlogs
  have hk₁ : FileKept n ⟨w, g⟩ ⟨w₁, g⟩ := logs hi hu hlogs
  rcases hrest.ite with ⟨-, hend⟩ | ⟨-, hrest⟩
  · obtain ⟨-, rfl⟩ := hend.pure
    exact hk₁
  rcases hrest.ite with ⟨-, hend⟩ | ⟨-, hrest⟩
  · obtain ⟨-, rfl⟩ := hend.pure
    exact hk₁
  simp only [runs_bind_assert] at hrest
  obtain ⟨-, hrest⟩ := hrest
  obtain ⟨r', w₂, hget, hend⟩ := hrest.bind
  obtain ⟨-, -, hgot⟩ := xv6Iget_spec hget
  cases r' with
  | error e =>
    obtain ⟨-, rfl⟩ := hend.pure
    exact hk₁.trans (igot hi₁ hk₁.used (fun _ hq => by cases hq) hgot)
  | ok p =>
    obtain ⟨hr, rfl⟩ := hend.pure
    refine hk₁.trans (igot hi₁ hk₁.used (fun q hq => ?_) hgot)
    cases hq
    exact hgone p hr.symm

/-! ## Another file grows -/

theorem grew {addrs' : Addrs} (hi : VolumeInv ⟨w, g⟩) (hp : (Volume.mk w g).Live p)
    (hu : SlotInUse w.env w.disk n) (hne : (w.inodes p).ino ≠ n)
    (h : FileGrew w p (w.addrs p) addrs' w') : FileKept n ⟨w, g⟩ ⟨w', g⟩ := by
  have hslot := h.slots hi hp hu.1
  refine of_cached hi hu h.env (fun _ hx => h.front hi hp hx) (h.reworked hi hp).nodes.cached
    (by rw [hslot]) (fun _ => hslot) ?_ ?_
  · intro q hc
    obtain ⟨hq, hino⟩ := Volume.cached_eq_some hc
    have hqp : q ≠ p := by
      rintro rfl
      exact hne hino
    have hsame := h.other hqp
    exact ⟨congrArg Inode.priv hsame, congrArg Inode.size hsame⟩
  · intro a x ha hx
    have hA := hi.addrsOf_live hp
    exact (h.grown.gains hi.sound hi.owned hA).blocks_of_other hi.owned hA ha hne.symm hx

theorem write {append : Bool} {buf : UserBuf} {len pos : Nat} {r : Int × Nat}
    (hi : VolumeInv ⟨w, g⟩) (hp : (Volume.mk w g).Live p) (hu : SlotInUse w.env w.disk n)
    (hne : (w.inodes p).ino ≠ n) (h : Returns (xv6FileWrite p append buf len pos) w r w') :
    FileKept n ⟨w, g⟩ ⟨w', g⟩ := by
  obtain ⟨addrs', hgrew⟩ := fileWrite_grew hi.quiet (hi.fileReady hp) h
  exact grew hi hp hu hne hgrew

theorem insert {m : Nat} (hi : VolumeInv ⟨w, g⟩) (hp : (Volume.mk w g).Live p)
    (hu : SlotInUse w.env w.disk n) (hne : (w.inodes p).ino ≠ n)
    (h : Returns (xv6DentryInsert p name m) w e w') : FileKept n ⟨w, g⟩ ⟨w', g⟩ := by
  obtain ⟨addrs', hgrew, -⟩ := dentryInsert_grew (.inl hi.quiet) (hi.fileReady hp) h
  exact grew hi hp hu hne hgrew

theorem erase (hi : VolumeInv ⟨w, g⟩) (hp : (Volume.mk w g).Live p)
    (hu : SlotInUse w.env w.disk n) (hne : (w.inodes p).ino ≠ n)
    (h : Returns (xv6DirErase p name) w e w') : FileKept n ⟨w, g⟩ ⟨w', g⟩ :=
  grew hi hp hu hne (dirErase_grew (.inl hi.quiet) (hi.fileReady hp) h).1

/-! ## Write-back -/

theorem sync (hi : VolumeInv ⟨w, g⟩) (hp : (Volume.mk w g).Live p)
    (hu : SlotInUse w.env w.disk n) (h : Returns (xv6SyncInode p) w e w') :
    FileKept n ⟨w, g⟩ ⟨w', g⟩ := by
  cases hro : w.env.rdonly with
  | true =>
    obtain ⟨-, rfl⟩ := xv6SyncInode_rdonly hro h
    exact refl hu
  | false =>
    have hn := (hi.allocated p hp).1
    obtain ⟨hino, -⟩ := xv6SyncInode_spec hro h
    obtain ⟨l, hret⟩ := xv6SyncInode_returns hi.quiet hro hino
    obtain ⟨-, rfl⟩ := h.unique hret
    refine of_cached hi hu rfl (fun x hx => hn.setSlot_front hi.sound hx) rfl ?_ ?_
      (fun _ _ => ⟨rfl, rfl⟩) ?_
    · by_cases hnp : n = (w.inodes p).ino
      · rw [hnp]
        change (slot w.env (syncDisk w.env w.disk (w.inodes p)) (w.inodes p).ino).type = _
        rw [slot_syncDisk]
        rfl
      · exact congrArg Dinode.type (hn.setSlot_ne hi.sound hu.1 hnp)
    · intro hc
      apply hn.setSlot_ne hi.sound hu.1
      rintro rfl
      exact Volume.cached_eq_none.mp hc p hp rfl
    · intro a x ha hx
      exact hn.setSlot_block hi.sound (hi.sound.data_ge (hi.owned.held_of_owns ha hx).1)

theorem link (hi : VolumeInv ⟨w, g⟩) (hp : (Volume.mk w g).Live p)
    (hdir : (Volume.mk w g).Live dir) (hu : SlotInUse w.env w.disk n)
    (hne : (w.inodes dir).ino ≠ n) (h : Returns (xv6Link p dir name) w e w') :
    FileKept n ⟨w, g⟩ ⟨w', g⟩ := by
  simp only [xv6Link, Returns, runs_bind_getInode] at h
  rcases h.ite with ⟨-, hend⟩ | ⟨-, h⟩
  · obtain ⟨-, rfl⟩ := hend.pure
    exact refl hu
  obtain ⟨e₁, w₁, hins, hrest⟩ := h.bind
  have hi₁ := hi.insert hdir hins
  have hk₁ := insert hi hdir hu hne hins
  rcases hrest.ite with ⟨-, hend⟩ | ⟨-, hrest⟩
  · obtain ⟨-, rfl⟩ := hend.pure
    exact hk₁
  have hp₁ : (Volume.mk w₁ g).Live p :=
    ((keeps_dentryInsert (P := (· = dir)) rfl name _).via hins).live.mpr hp
  obtain ⟨u, w₂, hinc, hsync⟩ := hrest.bind
  obtain rfl := (runs_incLinkCount u).mp hinc
  have hk₂ := hk₁.trans
    (setNlink (p := p) hi₁ hk₁.used (((w₁.inodes p).nlink + 1) % 2 ^ 32) true)
  exact hk₂.trans (sync (hi₁.setNlink _ true) hp₁ hk₂.used hsync)

theorem rename {oldino newdir : Ptr} {newname : FileName} {badFlags : Bool}
    (hi : VolumeInv ⟨w, g⟩) (hold : (Volume.mk w g).Live dir) (hnew : (Volume.mk w g).Live newdir)
    (hu : SlotInUse w.env w.disk n) (hne : (w.inodes dir).ino ≠ n)
    (hne' : (w.inodes newdir).ino ≠ n)
    (h : Returns (xv6Rename dir oldino name newdir newname badFlags) w e w') :
    FileKept n ⟨w, g⟩ ⟨w', g⟩ := by
  simp only [xv6Rename, Returns] at h
  rcases h.ite with ⟨-, hend⟩ | ⟨-, h⟩
  · obtain ⟨-, rfl⟩ := hend.pure
    exact refl hu
  rcases h.ite with ⟨-, hend⟩ | ⟨-, h⟩
  · obtain ⟨-, rfl⟩ := hend.pure
    exact refl hu
  obtain ⟨e₁, w₁, herase, hrest⟩ := h.bind
  have hi₁ := hi.erase hold herase
  have hk₁ := erase hi hold hu hne herase
  have hs₁ := (keeps_dirErase (P := (· = dir)) rfl name).via herase
  rcases hrest.ite with ⟨-, hend⟩ | ⟨-, hrest⟩
  · obtain ⟨-, rfl⟩ := hend.pure
    exact hk₁
  obtain ⟨r, w₂, hfind, hrest⟩ := hrest.bind
  have hlogs := findInum_readOnly hfind
  have hi₂ := hi₁.logs hlogs
  have hk₂ := hk₁.trans (logs hi₁ hk₁.used hlogs)
  have hnew₂ : (Volume.mk w₂ g).Live newdir ∧ (w₂.inodes newdir).ino ≠ n := by
    obtain ⟨l, rfl⟩ := hlogs
    refine ⟨hs₁.live.mpr hnew, ?_⟩
    dsimp only
    rwa [hs₁.ino newdir]
  obtain ⟨e₂, dnum, de⟩ := r
  rcases hrest.ite with ⟨-, hend⟩ | ⟨-, hrest⟩
  · obtain ⟨-, rfl⟩ := hend.pure
    exact hk₂
  rcases hrest.ite with ⟨-, hend⟩ | ⟨-, hrest⟩
  · obtain ⟨-, rfl⟩ := hend.pure
    exact hk₂
  simp only [runs_bind_getInode] at hrest
  exact hk₂.trans (insert hi₂ hnew₂.1 hk₂.used hnew₂.2 hrest)

/-! ## Creation -/

/-- The blocks in use and the slots are as they were. -/
theorem newDisk {d : Disk} {hint : Nat} (hi : VolumeInv ⟨w, g⟩) (hu : SlotInUse w.env w.disk n)
    (hfront : ∀ x, x < w.env.info.inodestart → d x = w.disk x)
    (hslot : slot w.env d n = slot w.env w.disk n)
    (hheld : ∀ x, Held w.env w.disk x → d x = w.disk x) (l : List Event) :
    FileKept n ⟨w, g⟩ ⟨{ w with disk := d, hint := hint, log := l }, g⟩ := by
  refine of_cached hi hu rfl hfront rfl (congrArg Dinode.type hslot) (fun _ => hslot)
    (fun _ _ => ⟨rfl, rfl⟩) ?_
  intro a x ha hx
  exact hheld x (hi.owned.held_of_owns ha hx)

/-- Up to `create_fini`. The new inode is another one. -/
theorem createAlloc {isdir : Bool} (hi : VolumeInv ⟨w, g⟩) (hdir : (Volume.mk w g).Live dir)
    (hu : SlotInUse w.env w.disk n) (hne : (w.inodes dir).ino ≠ n) (hq : q ∉ w.tree)
    (h : Returns (xv6Create.alloc dir q name isdir) w e w') :
    FileKept n ⟨w, g⟩ ⟨w', g⟩ ∧ (e = 0 → (w'.inodes q).ino ≠ n) := by
  have hqd : q ≠ dir := by
    rintro rfl
    exact hq hdir.1
  cases createAlloc_ends hi.quiet hi.sound hi.hint
    (by exact (Nat.le_add_right _ _).trans hi.table) h with
  | stopped he hh hd hw =>
    subst hw
    refine ⟨?_, fun h0 => absurd h0 he⟩
    rcases hd with rfl | ⟨b, hb, hfree, rfl⟩
    · exact newDisk hi hu (fun _ _ => rfl) rfl (fun _ _ => rfl) _
    · have hbefore : SameBefore w.env w.disk (handOut w.env w.disk b) := by
        intro x hx
        have hds : w.env.info.bmapstart ≤ b := hi.sound.data_ge hb
        rw [handOut_block hi.sound w.disk hb (.inl hx), if_neg (by omega)]
      exact newDisk hi hu (fun x hx => hbefore x (hx.trans hu.1.start_lt))
        (hu.1.same hi.sound hbefore) (fun x hx => handOut_held hi.sound hb hfree hx) _
  | @entered m b d hint l hrw hm hh hprep h =>
    have hnm : n ≠ m := by
      rintro rfl
      exact hu.2 hm.unused
    have hi₁ := hi.prepared hm hh hprep l
    have hk₁ : FileKept n ⟨w, g⟩ ⟨{ w with disk := d, hint := hint, log := l }, g⟩ :=
      newDisk hi hu hprep.front ((hprep.slots n hu.1).trans (if_neg hnm))
        (fun x hx => (hprep.held hx).2.1) l
    obtain ⟨e₁, w₁, hinit, hrest⟩ := Prog.Via.bind h
    obtain ⟨-, ino, l₁, rfl, hino⟩ := xv6InitInode_spec hinit
    have hi₂ := hi₁.setNew hq ino l₁
    have hold : ∀ r, r ∈ w.tree → Function.update w.inodes q ino r = w.inodes r := by
      intro r hr
      have hrq : r ≠ q := by
        rintro rfl
        exact hq hr
      exact Function.update_of_ne hrq _ _
    have hk₂ : FileKept n ⟨w, g⟩ ⟨{ w with
        disk := d, hint := hint, inodes := Function.update w.inodes q ino, log := l₁ }, g⟩ :=
      hk₁.trans (outside hi₁ hk₁.used rfl rfl rfl hold)
    rcases hrest.ite with ⟨he, hend⟩ | ⟨he, hins⟩
    · obtain ⟨rfl, rfl⟩ := hend.pure
      exact ⟨hk₂, fun h0 => absurd h0 he⟩
    have hdino : Function.update w.inodes q ino dir = w.inodes dir := hold dir hdir.1
    refine ⟨hk₂.trans (insert hi₂ hdir hk₂.used ?_ hins), fun h0 => ?_⟩
    · dsimp only
      rwa [hdino]
    · obtain ⟨-, -, rfl⟩ | ⟨hbad, -⟩ := hino
      · have hs := (keeps_dentryInsert (P := (· = dir)) rfl name m).via hins
        have hnew := (hs.other q hqd).trans (Function.update_self _ _ _)
        have hnum : (w'.inodes q).ino = m := congrArg Inode.ino hnew
        rw [hnum]
        exact hnm.symm
      · rcases hbad with rfl | rfl <;> exact absurd he (by decide)

theorem create {isdir : Bool} {r : Int × Option Ptr} (hi : VolumeInv ⟨w, g⟩)
    (hdir : (Volume.mk w g).Live dir) (hu : SlotInUse w.env w.disk n)
    (hne : (w.inodes dir).ino ≠ n) (h : Returns (xv6Create dir name isdir) w r w') :
    FileKept n ⟨w, g⟩ ⟨w', g⟩ := by
  rcases Prog.Via.ite h with ⟨-, hend⟩ | ⟨-, hrun⟩
  · obtain ⟨-, rfl⟩ := hend.pure
    exact refl hu
  obtain ⟨o, w₁, hnew, hrest⟩ := hrun.bind
  obtain ⟨-, ⟨rfl, l, rfl⟩ | ⟨rfl, l, rfl⟩⟩ := newInode_spec hnew
  · obtain ⟨-, rfl⟩ := hrest.pure
    exact logs hi hu ⟨l, rfl⟩
  have hnot : w.next ∉ w.tree := fun hmem => Nat.lt_irrefl _ (hi.below _ hmem)
  have hfresh : ∀ r, r ∈ w.tree → Function.update w.inodes w.next .fresh r = w.inodes r :=
    fun r hr => Function.update_of_ne (hi.below r hr).ne _ _
  have hi₁ : VolumeInv ⟨{ w with
      inodes := Function.update w.inodes w.next .fresh, next := w.next + 1, log := l }, g⟩ :=
    hi.outside rfl rfl rfl rfl (Nat.le_succ _) hfresh
  have hk₁ : FileKept n ⟨w, g⟩ ⟨{ w with
      inodes := Function.update w.inodes w.next .fresh, next := w.next + 1, log := l }, g⟩ :=
    outside hi hu rfl rfl rfl hfresh
  obtain ⟨e, w₂, halloc, hrest⟩ := hrest.bind
  obtain ⟨hi₂, htree, hnext, henter⟩ := hi₁.createAlloc hdir hnot halloc
  obtain ⟨hk₂, hother⟩ := createAlloc hi₁ hdir hu
    (by dsimp only; rwa [hfresh dir hdir.1]) hnot halloc
  replace hk₂ := hk₁.trans hk₂
  rcases hrest.ite with ⟨-, hend⟩ | ⟨he, hend⟩
  · -- the new inode is kept, or evicted, but is in no tree
    obtain ⟨u, w₃, hput, hlast⟩ := hend.bind
    obtain ⟨-, rfl⟩ := hlast.pure
    rcases iput_spec hput with ⟨-, -, rfl⟩ | ⟨-, t, ht, rfl⟩
    · exact hk₂
    · have hnot₂ : w.next ∉ w₂.tree := by
        rw [htree]
        exact hnot
      refine hk₂.trans (outside hi₂ hk₂.used rfl rfl ?_ ?_)
      · rcases ht with rfl | rfl
        · rfl
        · exact List.erase_of_not_mem hnot₂
      · intro r hr
        have hrq : r ≠ w.next := by
          rintro rfl
          exact hnot₂ hr
        exact Function.update_of_ne hrq _ _
  · obtain ⟨u, w₃, hadd, hlast⟩ := hend.bind
    obtain rfl := (runs_rbAdd _ _ _ _).mp hadd
    obtain ⟨-, rfl⟩ := hlast.pure
    have henter := henter (not_not.mp he)
    refine hk₂.trans (enter hi₂ hk₂.used ?_ henter.other fun hn => ?_)
    · exact fun hmem => Nat.lt_irrefl _ (hi.gone _ hmem)
    · exact absurd hn (hother (not_not.mp he))

/-! ## Removal -/

/-- From the clearing of the inode on. -/
theorem unlinkLast {w₁ w₂ w₃ : World} {e₁ e₂ : Int} (hi : VolumeInv ⟨w, g⟩)
    (hp : (Volume.mk w g).Live p) (hdir : (Volume.mk w g).Live dir) (hino : (w.inodes p).ino ≠ 0)
    (hdp : (w.inodes p).ino ≠ (w.inodes dir).ino) (hu : SlotInUse w.env w.disk n)
    (hne : (w.inodes dir).ino ≠ n) (hne' : (w.inodes p).ino ≠ n)
    (hclear : Returns (xv6InodeClear p) w e₁ w₁) (herase : Returns (xv6DirErase dir name) w₁ e₂ w₂)
    (hifree : Returns (xv6Ifree (w.inodes p).ino) w₂ e w₃) :
    FileKept n ⟨w, g⟩ ⟨w₃, p :: g⟩ := by
  have hp' := hi.allocated p hp
  obtain ⟨hc, hr, hgrew⟩ := hi.erased hp hdir hino hdp hclear herase
  have henv₂ : w₂.env = w.env := hgrew.env.trans hc.nodes.env
  obtain ⟨l, hret⟩ := ifree_returns (w := w₂) (n := (w.inodes p).ino) (henv₂.symm ▸ hi.quiet)
  obtain ⟨-, rfl⟩ := hifree.unique hret
  have hnodes := removed_nodes hc herase hret
  have hslot := hc.removed_slot hi.sound hp'.1 hr hgrew hu.1 hne'.symm
  refine of_cached hi hu hnodes.env ?_ (hnodes.cached_gone hne') (congrArg Dinode.type hslot)
    (fun _ => hslot) ?_ ?_
  · intro x hx
    have hbefore := hgrew.grown.before hr.sound hr.owned hr.at_n (x := x)
    rw [hc.nodes.env] at hbefore
    change setSlot w₂.env w₂.disk (w.inodes p).ino Dinode.zero x = _
    rw [henv₂, hp'.1.setSlot_front hi.sound hx, hbefore (hx.trans hu.1.start_lt), hc.front x hx]
  · intro q hcq
    obtain ⟨hq, hqn⟩ := Volume.cached_eq_some hcq
    have hother : ¬ (q = p ∨ q = dir) := by
      rintro (rfl | rfl)
      · exact hne' hqn
      · exact hne hqn
    have hsame := hnodes.other q hother
    exact ⟨congrArg Inode.priv hsame, congrArg Inode.size hsame⟩
  · intro a x ha hx
    have hdata := (hi.owned.held_of_owns ha hx).1
    have hx₁ : Owns w₁.disk a x :=
      (owns_congr fun y hy => hc.data y (hi.owned.held_of_owns ha hy).1).mpr hx
    have ha₁ : Function.update (Volume.mk w g).addrsOf (w.inodes p).ino none n = some a := by
      rw [Function.update_of_ne hne'.symm, ha]
    change setSlot w₂.env w₂.disk (w.inodes p).ino Dinode.zero x = _
    rw [henv₂, hp'.1.setSlot_block hi.sound (hi.sound.data_ge hdata),
      (hgrew.grown.gains hr.sound hr.owned hr.at_n).blocks_of_other hr.owned hr.at_n ha₁ hne.symm
        hx₁, hc.data x hdata]

/-- The inode has not lost its slot. -/
theorem unlinked_live (hi : VolumeInv ⟨w', g⟩) (hp : (Volume.mk w' g).Live p)
    (h : FileKept n ⟨w, g⟩ ⟨w', g⟩) : FileKept n ⟨w, g⟩ ((Volume.mk w g).unlinked w' p) := by
  unfold Volume.unlinked
  rw [if_pos (hi.allocated p hp)]
  exact h

theorem unlink (hi : VolumeInv ⟨w, g⟩) (hdir : (Volume.mk w g).Live dir)
    (hp : (Volume.mk w g).Live p) (hu : SlotInUse w.env w.disk n)
    (hne : (w.inodes dir).ino ≠ n)
    (hlinks : (w.inodes p).ino = n → ((w.inodes p).nlink + (2 ^ 32 - 1)) % 2 ^ 32 ≠ 0)
    (h : Returns (xv6Unlink dir p name) w e w') :
    FileKept n ⟨w, g⟩ ((Volume.mk w g).unlinked w' p) := by
  simp only [xv6Unlink, Returns, runs_bind_getInode] at h
  obtain ⟨u, w₁, hdec, hrest⟩ := h.bind
  obtain rfl := (runs_decLinkCount u).mp hdec
  generalize hlink : ((w.inodes p).nlink + (2 ^ 32 - 1)) % 2 ^ 32 = nlink at hlinks hrest
  have hi₁ := hi.setNlink (p := p) nlink true
  have hk₁ : FileKept n ⟨w, g⟩
      ⟨w.setInode p { w.inodes p with nlink := nlink, dirty := true }, g⟩ :=
    setNlink hi hu nlink true
  have hcount : ((w.setInode p { w.inodes p with nlink := nlink, dirty := true }).inodes p).nlink =
      nlink := by
    rw [World.setInode_self]
  have hino : ∀ q, ((w.setInode p { w.inodes p with nlink := nlink, dirty := true }).inodes q).ino =
      (w.inodes q).ino := by
    intro q
    by_cases hqp : q = p
    · rw [hqp, World.setInode_self]
    · exact congrArg Inode.ino (Function.update_of_ne hqp _ _)
  generalize hw₁ : w.setInode p _ = w₁ at hi₁ hk₁ hrest hino hcount
  have hlive : ∀ {q}, (Volume.mk w g).Live q → (Volume.mk w₁ g).Live q := fun hq => by
    rw [← hw₁]
    exact hq
  simp only [runs_bind_getInode] at hrest
  rcases hrest.ite with ⟨-, herase⟩ | ⟨hzero, hrest⟩
  · have hk₂ := hk₁.trans (erase hi₁ (hlive hdir) hk₁.used (by rwa [hino dir]) herase)
    refine unlinked_live (hi₁.erase (hlive hdir) herase) ?_ hk₂
    exact ((keeps_dirErase (P := (· = dir)) rfl name).via herase).live.mpr (hlive hp)
  simp only [runs_bind_assert] at hrest
  obtain ⟨hnonzero, hrest⟩ := hrest
  rcases hrest.ite with ⟨-, hend⟩ | ⟨-, hrest⟩
  · obtain ⟨-, rfl⟩ := hend.pure
    exact unlinked_live hi₁ (hlive hp) hk₁
  simp only [runs_bind_getInode] at hrest
  rcases hrest.ite with ⟨-, hend⟩ | ⟨hother, hrest⟩
  · obtain ⟨-, rfl⟩ := hend.pure
    exact unlinked_live hi₁ (hlive hp) hk₁
  obtain ⟨e₁, w₂, hclear, hrest⟩ := hrest.bind
  rcases hrest.ite with ⟨he, -⟩ | ⟨-, hrest⟩
  · refine absurd (inodeClear_error hi₁.quiet ?_ hclear) he
    rwa [hino p]
  obtain ⟨e₂, w₃, herase, hifree⟩ := hrest.bind
  rw [← hino p] at hnonzero hother hifree
  have hne' : (w₁.inodes p).ino ≠ n := by
    rw [hino p]
    intro hn
    exact hlinks hn (hcount.symm.trans (not_not.mp hzero))
  obtain ⟨-, hgone⟩ := hi₁.unlinkLast (hlive hp) (hlive hdir) hnonzero hother hclear herase hifree
  unfold Volume.unlinked
  rw [if_neg hgone]
  exact hk₁.trans (unlinkLast hi₁ (hlive hp) (hlive hdir) hnonzero hother hk₁.used
    (by rwa [hino dir]) hne' hclear herase hifree)

theorem rmdir (hi : VolumeInv ⟨w, g⟩) (hdir : (Volume.mk w g).Live dir)
    (hp : (Volume.mk w g).Live p) (hu : SlotInUse w.env w.disk n)
    (hne : (w.inodes dir).ino ≠ n)
    (hlinks : (w.inodes p).ino = n → ((w.inodes p).nlink + (2 ^ 32 - 1)) % 2 ^ 32 ≠ 0)
    (h : Returns (xv6Rmdir dir p name) w e w') :
    FileKept n ⟨w, g⟩ ((Volume.mk w g).unlinked w' p) := by
  simp only [xv6Rmdir, Returns, runs_bind_getInode] at h
  rcases h.ite with ⟨-, hend⟩ | ⟨-, h⟩
  · obtain ⟨-, rfl⟩ := hend.pure
    exact unlinked_live hi hp (refl hu)
  rcases h.ite with ⟨-, hend⟩ | ⟨-, h⟩
  · obtain ⟨-, rfl⟩ := hend.pure
    exact unlinked_live hi hp (refl hu)
  obtain ⟨e₁, w₁, htest, hrest⟩ := h.bind
  obtain ⟨l, rfl⟩ := rmtest_readOnly htest
  have hi₁ : VolumeInv ⟨{ w with log := l }, g⟩ := hi.logs ⟨l, rfl⟩
  have hk₁ : FileKept n ⟨w, g⟩ ⟨{ w with log := l }, g⟩ := logs hi hu ⟨l, rfl⟩
  rcases hrest.ite with ⟨-, hend⟩ | ⟨-, hrest⟩
  · obtain ⟨-, rfl⟩ := hend.pure
    exact unlinked_live hi₁ hp hk₁
  · exact hk₁.trans (unlink hi₁ hdir hp hk₁.used hne hlinks hrest)

end FileKept

/-! ## Runs -/

/-- The call does not work on inode `n`: it does not write it, changes no entry in it, and does not
    drop its last link. -/
def Spares (n : Nat) (v : Volume) : VolumeCall → Prop
  | .lookup _ _ => True
  | .create dir _ => (v.world.inodes dir).ino ≠ n
  | .mkdir dir _ => (v.world.inodes dir).ino ≠ n
  | .write p _ _ _ _ => (v.world.inodes p).ino ≠ n
  | .link _ dir _ => (v.world.inodes dir).ino ≠ n
  | .unlink dir p _ => (v.world.inodes dir).ino ≠ n ∧ ((v.world.inodes p).ino = n →
      ((v.world.inodes p).nlink + (2 ^ 32 - 1)) % 2 ^ 32 ≠ 0)
  | .rmdir dir p _ => (v.world.inodes dir).ino ≠ n ∧ ((v.world.inodes p).ino = n →
      ((v.world.inodes p).nlink + (2 ^ 32 - 1)) % 2 ^ 32 ≠ 0)
  | .rename olddir _ _ newdir _ _ => (v.world.inodes olddir).ino ≠ n ∧
      (v.world.inodes newdir).ino ≠ n

theorem FileKept.step {c : VolumeCall} (hi : VolumeInv v)
    (hu : SlotInUse v.world.env v.world.disk n) (hs : Spares n v c) (h : VolumeStep v c v') :
    FileKept n v v' := by
  cases h with
  | lookup hdir h hgone => exact lookup hi hu hgone h
  | create hdir h => exact create hi hdir hu hs h
  | mkdir hdir h => exact create hi hdir hu hs h
  | write hp h => exact write hi hp hu hs h
  | link hp hdir h => exact link hi hp hdir hu hs h
  | unlink hdir hp h => exact unlink hi hdir hp hu hs.1 hs.2 h
  | rmdir hdir hp h => exact rmdir hi hdir hp hu hs.1 hs.2 h
  | rename hold hp hnew h => exact rename hi hold hnew hu hs.1 hs.2 h

/-- The invariant of the volume holds at the end of such a run, and the inode is as it was. -/
theorem FileKept.run {cs : List VolumeCall} (hi : VolumeInv v)
    (hu : SlotInUse v.world.env v.world.disk n)
    (hrun : Steps (GuardedBy (Spares n) VolumeStep) v cs v') : VolumeInv v' ∧ FileKept n v v' := by
  refine hrun.invariant (I := fun u => VolumeInv u ∧ FileKept n v u) (fun u c u' hinv hstep => ?_)
    ⟨hi, .refl hu⟩
  obtain ⟨hi', hk⟩ := hinv
  exact ⟨hi'.step hstep.2, hk.trans (.step hi' hk.used hstep.1 hstep.2)⟩

end

/-- The volume of five bytes with a directory made beside the file. -/
def besideVolume : World := writtenVolume.after (xv6Mkdir 0 fileB)

end Xv6fs
