/-
  The names of a file system.

  Erasing and inserting an entry drop a name and add one, whatever else they do on the disk
  (`NamesInv.erase`, `NamesInv.insert`). The other phases of the calls change one link count, add a
  node without names, or keep every node.
-/
import Xv6fs.Volume.Create
import Xv6fs.Volume.Nodes

namespace Xv6fs

/-- The in-core inode at `p` has a number and is a directory when its slot says so. -/
def Volume.NodeOk (v : Volume) (p : Ptr) : Prop :=
  (v.world.inodes p).ino ≠ 0 ∧
    ((v.world.inodes p).fmt = .dir ↔ v.typeOf (v.world.inodes p).ino = T_DIR)

/-- A writable file system of valid directories, whose inode numbers fit into an entry. -/
structure NamesInv (v : Volume) : Prop extends VolumeInv v where
  writable : v.world.env.rdonly = false
  region : v.world.env.info.bmapstart ≤ v.world.env.info.inodestart + 4096
  nodes : ∀ p, v.Live p → v.NodeOk p
  dirs : ∀ n, v.DirOk n

section

variable {v v' : Volume} {w w' : World} {g g' : List Ptr} {p q dir : Ptr} {n m b : Nat} {e : Int}
  {name : FileName} {nm : EntryName} {addrs' : Addrs} {d : Disk} {names : Nat → Option Nat}
  {inum : UInt16} {isdir : Bool} {blk : Block} {hint : Nat}

namespace NamesInv

/-- The nodes are kept, but for directories that are valid still. -/
theorem of_kept (hi : NamesInv v) (hi' : VolumeInv v') (henv : v'.world.env = v.world.env)
    (hnodes : ∀ q, v'.Live q → v'.NodeOk q) (hdirs : ∀ n, DirKept n v v' ∨ v'.DirOk n) :
    NamesInv v' where
  toVolumeInv := hi'
  writable := henv ▸ hi.writable
  region := henv ▸ hi.region
  nodes := hnodes
  dirs n := (hdirs n).elim (fun h => h.dirOk (hi.dirs n)) id

/-- An in-core inode that is what it was. -/
theorem nodeOk_of_same (hi : NamesInv v) (hq : v.Live q)
    (hino : (v'.world.inodes q).ino = (v.world.inodes q).ino)
    (hfmt : (v'.world.inodes q).fmt = (v.world.inodes q).fmt)
    (htype : v'.typeOf (v.world.inodes q).ino = v.typeOf (v.world.inodes q).ino) :
    v'.NodeOk q := by
  obtain ⟨h0, hiff⟩ := hi.nodes q hq
  unfold Volume.NodeOk
  rw [hino, hfmt, htype]
  exact ⟨h0, hiff⟩

/-- Every node is kept, and the tree has no new ones. -/
theorem same (hi : NamesInv v) (hi' : VolumeInv v') (hkept : ∀ n, NodeKept n v v')
    (hlive : ∀ q, v'.Live q → v.Live q ∧ (v'.world.inodes q).ino = (v.world.inodes q).ino ∧
      (v'.world.inodes q).fmt = (v.world.inodes q).fmt) :
    NamesInv v' ∧ v'.node = v.node := by
  refine ⟨hi.of_kept hi' (hkept 0).env (fun q hq => ?_) fun n => .inl (hkept n).toDirKept,
    funext fun n => (hkept n).node⟩
  obtain ⟨hq', hino, hfmt⟩ := hlive q hq
  exact hi.nodeOk_of_same hq' hino hfmt ((hkept _).type (hi.allocated q hq').1)

theorem type_dir (hi : NamesInv v) (hp : v.Live p) (hdir : (v.world.inodes p).fmt = .dir) :
    v.typeOf (v.world.inodes p).ino = T_DIR :=
  (hi.nodes p hp).2.mp hdir

theorem anyDir (hi : NamesInv ⟨w, g⟩) (hp : (Volume.mk w g).Live p)
    (hdir : (w.inodes p).fmt = .dir) : AnyDir w p := by
  have hok := hi.dirs (w.inodes p).ino (w.addrs p) (hi.dirAddrs_live hp (hi.type_dir hp hdir))
  rw [hi.sizeOf_live hp] at hok
  exact ⟨hdir, hi.priv_live hp, hok.1, hok.2⟩

/-- What a name of a directory in core stands for. -/
theorem nameIn_live (hi : NamesInv ⟨w, g⟩) (hp : (Volume.mk w g).Live p)
    (hdir : (w.inodes p).fmt = .dir) : (Volume.mk w g).nameIn (w.inodes p).ino nm =
      dirMap w.disk (w.addrs p) (capped (w.inodes p).size) nm := by
  unfold Volume.nameIn
  rw [hi.dirAddrs_live hp (hi.type_dir hp hdir), Option.bind_some, hi.sizeOf_live hp]

/-- Only directories have names. -/
theorem fmt_of_nameIn (hi : NamesInv v) (hp : v.Live p)
    (hsome : v.nameIn (v.world.inodes p).ino nm = some inum) : (v.world.inodes p).fmt = .dir := by
  refine (hi.nodes p hp).2.mpr ?_
  by_contra ht
  unfold Volume.nameIn Volume.dirAddrs at hsome
  rw [if_neg ht] at hsome
  cases hsome

/-- A name of a directory in core is that of one of its entries. -/
theorem entry_of_nameIn (hi : NamesInv ⟨w, g⟩) (hp : (Volume.mk w g).Live p)
    (hsome : (Volume.mk w g).nameIn (w.inodes p).ino nm = some inum) :
    ∃ k P, (Volume.mk w g).node (w.inodes p).ino = some P ∧ P.isDir = true ∧
      P.names k = some inum.toNat := by
  have hdir := hi.fmt_of_nameIn hp hsome
  have hv := (hi.anyDir hp hdir).valid
  rw [hi.nameIn_live hp hdir] at hsome
  obtain ⟨k, hk, hentry⟩ := hv.dirMap_eq_some.mp hsome
  obtain ⟨hne, -, rfl⟩ := Dirent.binding_eq_some.mp hentry
  have hmatch : Matches nm.name (dslot w.disk (w.addrs p) k) := (hv.matches_iff hk).mpr hentry
  exact ⟨k, _, hi.node_dir hp (hi.type_dir hp hdir), rfl,
    if_pos ⟨hv.two_le_match hmatch, hk, hne⟩⟩

/-! ## Phases that keep every node -/

theorem logs (hi : NamesInv ⟨w, g⟩) (h : OnlyLogs w w') :
    NamesInv ⟨w', g⟩ ∧ (Volume.mk w' g).node = (Volume.mk w g).node := by
  refine hi.same (hi.toVolumeInv.logs h) (fun n => .logs hi.toVolumeInv h) ?_
  obtain ⟨l, rfl⟩ := h
  exact fun q hq => ⟨hq, rfl, rfl⟩

theorem outside (hi : NamesInv ⟨w, g⟩) (w' : World) (henv : w'.env = w.env)
    (hdisk : w'.disk = w.disk) (hhint : w'.hint = w.hint) (htree : w'.tree = w.tree)
    (hnext : w.next ≤ w'.next) (hsame : ∀ q, q ∈ w.tree → w'.inodes q = w.inodes q) :
    NamesInv ⟨w', g⟩ ∧ (Volume.mk w' g).node = (Volume.mk w g).node := by
  refine hi.same (hi.toVolumeInv.outside henv hdisk hhint htree hnext hsame)
    (fun n => .outside hi.toVolumeInv henv hdisk htree hsame) fun q hq => ?_
  have hmem : q ∈ w.tree := htree ▸ hq.1
  exact ⟨⟨hmem, hq.2⟩, congrArg Inode.ino (hsame q hmem), congrArg Inode.fmt (hsame q hmem)⟩

theorem sync (hi : NamesInv ⟨w, g⟩) (hp : (Volume.mk w g).Live p)
    (h : Returns (xv6SyncInode p) w e w') :
    NamesInv ⟨w', g⟩ ∧ (Volume.mk w' g).node = (Volume.mk w g).node := by
  refine hi.same (hi.toVolumeInv.sync hp h) (fun n => .sync hi.toVolumeInv hp h) ?_
  obtain ⟨hino, -⟩ := xv6SyncInode_spec hi.writable h
  obtain ⟨l, hret⟩ := xv6SyncInode_returns hi.quiet hi.writable hino
  obtain ⟨-, rfl⟩ := h.unique hret
  exact fun q hq => ⟨hq, rfl, rfl⟩

/-- A node that has been loaded from its slot is entered into the tree. -/
theorem enter (hi : NamesInv ⟨w, g⟩) (hlt : q < w.next) (hgone : q ∉ g)
    (henter : Enterable w g q) :
    NamesInv ⟨{ w with tree := q :: w.tree }, g⟩ ∧
      (Volume.mk { w with tree := q :: w.tree } g).node = (Volume.mk w g).node := by
  obtain ⟨ino, hcore⟩ := henter.core
  have hi' := hi.toVolumeInv.enter hlt hgone henter.used henter.other henter.priv
  have hkept : ∀ n, NodeKept n ⟨w, g⟩ ⟨{ w with tree := q :: w.tree }, g⟩ := fun n => by
    refine .enter hi.toVolumeInv hgone henter.other ?_
    rintro rfl
    exact ⟨henter.priv, congrArg Inode.size hcore, congrArg Inode.nlink hcore⟩
  refine ⟨hi.of_kept hi' rfl (fun r hr => ?_) fun n => .inl (hkept n).toDirKept,
    funext fun n => (hkept n).node⟩
  rcases List.mem_cons.mp hr.1 with rfl | hmem
  · refine ⟨henter.nonzero, ?_⟩
    have hfmt := congrArg Inode.fmt hcore
    dsimp only
    rw [hfmt]
    unfold Inode.ofDinode Volume.typeOf
    dsimp only
    split
    · next ht => exact iff_of_true rfl ht
    · next ht => exact iff_of_false (by simp) ht
  · exact hi.nodeOk_of_same (q := r) ⟨hmem, hr.2⟩ rfl rfl rfl

theorem igot {r : Except Int Ptr} (hi : NamesInv ⟨w, g⟩) (hpos : m ≠ 0)
    (hlt : m < w.env.info.ninodes) (hgone : ∀ p, r = .ok p → p ∉ g) (h : Igot w m r w') :
    NamesInv ⟨w', g⟩ ∧ (Volume.mk w' g).node = (Volume.mk w g).node := by
  have hfresh : ∀ {q}, q ∈ w.tree → q ≠ w.next := fun hq => (hi.below _ hq).ne
  cases h with
  | @found p hmem hino =>
    exact hi.same (hi.setInode rfl rfl)
      (fun n => .setInode hi.toVolumeInv rfl rfl rfl fun _ => rfl) fun q hq =>
      ⟨hq, World.setInode_field Inode.ino (by rfl) q, World.setInode_field Inode.fmt (by rfl) q⟩
  | nomem => exact hi.logs ⟨_, rfl⟩
  | failed =>
    exact hi.outside _ rfl rfl rfl rfl (Nat.le_succ _) fun q hq =>
      Function.update_of_ne (hfresh hq) _ _
  | @loaded l hnone htype =>
    -- the inode is filled in first, and entered then
    obtain ⟨hi₁, hsame⟩ := hi.outside { w with
        inodes := Function.update w.inodes w.next (w.loadedInode m)
        next := w.next + 1
        log := l } rfl rfl rfl rfl (Nat.le_succ _) fun q hq =>
      Function.update_of_ne (hfresh hq) _ _
    have hnew : Function.update w.inodes w.next (w.loadedInode m) w.next = w.loadedInode m :=
      Function.update_self _ _ _
    obtain ⟨hi₂, hsame₂⟩ := hi₁.enter (q := w.next) (Nat.lt_succ_self _) (hgone w.next rfl) (by
      refine ⟨?_, ?_, fun r hr => ?_, { Inode.fresh with refcount := 1, ino := m }, ?_⟩
      all_goals dsimp only
      all_goals rw [hnew]
      · exact ⟨InTable.hasSlot hi.table hlt, htype⟩
      · exact hpos
      · rw [Function.update_of_ne (hfresh hr.1)]
        exact hnone r hr.1
      · rfl)
    exact ⟨hi₂, hsame₂.trans hsame⟩

theorem lookup {r : Except Int (Option Ptr)} (hi : NamesInv ⟨w, g⟩)
    (hgone : ∀ p, r = .ok (some p) → p ∉ g) (h : Returns (xv6Lookup dir name) w r w') :
    NamesInv ⟨w', g⟩ ∧ (Volume.mk w' g).node = (Volume.mk w g).node := by
  simp only [xv6Lookup, Returns] at h
  obtain ⟨⟨reason, dnum, de⟩, w₁, hfind, hrest⟩ := h.bind
  obtain ⟨hi₁, hsame⟩ := hi.logs (findInum_readOnly hfind)
  rcases hrest.ite with ⟨-, hend⟩ | ⟨-, hrest⟩
  · obtain ⟨-, rfl⟩ := hend.pure
    exact ⟨hi₁, hsame⟩
  rcases hrest.ite with ⟨-, hend⟩ | ⟨-, hrest⟩
  · obtain ⟨-, rfl⟩ := hend.pure
    exact ⟨hi₁, hsame⟩
  simp only [runs_bind_assert] at hrest
  obtain ⟨-, hrest⟩ := hrest
  obtain ⟨r', w₂, hget, hend⟩ := hrest.bind
  obtain ⟨hpos, hlt, hgot⟩ := xv6Iget_spec hget
  obtain ⟨hi₂, hsame₂⟩ : NamesInv ⟨w₂, g⟩ ∧ (Volume.mk w₂ g).node = (Volume.mk w₁ g).node := by
    refine hi₁.igot hpos hlt ?_ hgot
    rintro q rfl
    exact hgone q hend.pure.1.symm
  cases r' with
  | error e =>
    obtain ⟨-, rfl⟩ := hend.pure
    exact ⟨hi₂, hsame₂.trans hsame⟩
  | ok p =>
    obtain ⟨-, rfl⟩ := hend.pure
    exact ⟨hi₂, hsame₂.trans hsame⟩

/-- A file that is no directory may have other contents. -/
theorem write {append : Bool} {buf : UserBuf} {len pos : Nat} {r : Int × Nat}
    (hi : NamesInv ⟨w, g⟩) (hp : (Volume.mk w g).Live p) (hfile : (w.inodes p).fmt ≠ .dir)
    (h : Returns (xv6FileWrite p append buf len pos) w r w') :
    NamesInv ⟨w', g⟩ ∧ (Volume.mk w' g).node = (Volume.mk w g).node := by
  obtain ⟨addrs', hgrew⟩ := fileWrite_grew hi.quiet (hi.fileReady hp) h
  have hi' := hi.grew hp hgrew
  have hs := (hgrew.reworked hi.toVolumeInv hp).nodes
  have hkept : ∀ n, (w.inodes p).ino ≠ n → NodeKept n ⟨w, g⟩ ⟨w', g⟩ := fun n hne =>
    .grew hi.toVolumeInv hp hne hgrew
  have htype : ∀ {n}, HasSlot w.env n →
      (Volume.mk w' g).typeOf n = (Volume.mk w g).typeOf n := hgrew.type hi.toVolumeInv hp
  have hn := hi.allocated p hp
  have ht : (Volume.mk w g).typeOf (w.inodes p).ino ≠ T_DIR := fun ht =>
    hfile ((hi.nodes p hp).2.mpr ht)
  have ht' : (Volume.mk w' g).typeOf (w.inodes p).ino ≠ T_DIR := by rwa [htype hn.1]
  refine ⟨hi.of_kept hi' hgrew.env (fun q hq => ?_) fun n => ?_, ?_⟩
  · have hq' := hs.live.mp hq
    exact hi.nodeOk_of_same hq' (hs.ino q) (congrArg (fun x => x.2.1) (hs.node q))
      (htype (hi.allocated q hq').1)
  · by_cases hne : (w.inodes p).ino = n
    · right
      rintro addrs ha
      rw [← hne, Volume.dirAddrs, if_neg ht'] at ha
      cases ha
    · exact .inl (hkept n hne).toDirKept
  · funext n
    by_cases hne : (w.inodes p).ino = n
    · have hp' : (Volume.mk w' g).Live p := hs.live.mpr hp
      have hlinks : (w'.inodes p).nlink = (w.inodes p).nlink := by
        obtain ⟨size, dirty, hino⟩ := hgrew.inode
        rw [hino]
      have hnode := hi'.node_file hp' (by rw [hs.ino p]; exact ht')
      rw [hs.ino p, hlinks] at hnode
      rw [← hne, hnode, hi.node_file hp ht]
    · exact (hkept n hne).node

/-! ## Changes of one directory -/

/-- One directory has other entries behind the dots; everything else is kept. -/
theorem rewritten (hi : NamesInv ⟨w, g⟩) (hp : (Volume.mk w g).Live p)
    (hdir : (w.inodes p).fmt = .dir) (h : FileGrew w p (w.addrs p) addrs' w')
    (hr : Rewritten w p names w') :
    NamesInv ⟨w', g⟩ ∧ ∃ P, (Volume.mk w g).node (w.inodes p).ino = some P ∧ P.isDir = true ∧
      P.names = dirEntry w.disk (w.addrs p) (w.inodes p).size ∧
      (Volume.mk w' g).node = Function.update (Volume.mk w g).node (w.inodes p).ino
        (some { P with names := names }) := by
  have hi' := hi.grew hp h
  have hs := (h.reworked hi.toVolumeInv hp).nodes
  have hkept : ∀ n, (w.inodes p).ino ≠ n → NodeKept n ⟨w, g⟩ ⟨w', g⟩ := fun n hne =>
    .grew hi.toVolumeInv hp hne h
  have hp' : (Volume.mk w' g).Live p := hs.live.mpr hp
  have htype : ∀ {n}, HasSlot w.env n →
      (Volume.mk w' g).typeOf n = (Volume.mk w g).typeOf n := h.type hi.toVolumeInv hp
  have ht := hi.type_dir hp hdir
  have ht' : (Volume.mk w' g).typeOf (w'.inodes p).ino = T_DIR := by
    rw [hs.ino p, htype (hi.allocated p hp).1]
    exact ht
  refine ⟨hi.of_kept hi' h.env (fun q hq => ?_) fun n => ?_, _, hi.node_dir hp ht, rfl, rfl, ?_⟩
  · have hq' := hs.live.mp hq
    exact hi.nodeOk_of_same hq' (hs.ino q) (congrArg (fun x => x.2.1) (hs.node q))
      (htype (hi.allocated q hq').1)
  · by_cases hn : (w.inodes p).ino = n
    · right
      intro addrs ha
      have hlive := hi'.dirAddrs_live hp' ht'
      have hsize := hi'.sizeOf_live hp'
      rw [hs.ino p, hn] at hlive hsize
      rw [hlive] at ha
      cases ha
      rw [hsize]
      exact ⟨hr.fits, hr.valid⟩
    · exact .inl (hkept n hn).toDirKept
  · funext n
    by_cases hn : n = (w.inodes p).ino
    · have hnode := hi'.node_dir hp' ht'
      obtain ⟨size, dirty, hino⟩ := h.inode
      have hlinks : (w'.inodes p).nlink = (w.inodes p).nlink := by rw [hino]
      rw [hs.ino p, hr.dots 0 (by decide), hr.dots 1 (by decide), hlinks, hr.entries] at hnode
      rw [hn, Function.update_self, hnode]
    · rw [Function.update_of_ne hn, (hkept n (Ne.symm hn)).node]

/-- A name that is there is dropped. -/
theorem erase (hi : NamesInv ⟨w, g⟩) (hp : (Volume.mk w g).Live p)
    (hsome : (Volume.mk w g).nameIn (w.inodes p).ino nm = some inum)
    (h : Returns (xv6DirErase p nm.name) w e w') :
    e = 0 ∧ NamesInv ⟨w', g⟩ ∧ ∃ k P, (Volume.mk w g).node (w.inodes p).ino = some P ∧
      P.isDir = true ∧ P.names k = some inum.toNat ∧ (Volume.mk w' g).node =
        Function.update (Volume.mk w g).node (w.inodes p).ino (some (P.setName k none)) := by
  have hdir := hi.fmt_of_nameIn hp hsome
  rw [hi.nameIn_live hp hdir] at hsome
  obtain ⟨h0, k, hk, hr⟩ :=
    (hi.anyDir hp hdir).erased hi.quiet hi.owned (hi.addrsOf_live hp) hsome h
  obtain ⟨hi', P, hP, hisDir, hnames, hnode⟩ := hi.rewritten hp hdir
    (dirErase_grew (.inl hi.quiet) (hi.fileReady hp) h).1 hr
  refine ⟨h0, hi', k, P, hP, hisDir, hnames ▸ hk, ?_⟩
  rw [hnode, ← hnames]
  rfl

/-- A name that is not there is added, unless the call fails. -/
theorem insert (hi : NamesInv ⟨w, g⟩) (hp : (Volume.mk w g).Live p) (hname : NameOk name)
    (habs : ∀ nm : EntryName, nm.name = name →
      (Volume.mk w g).nameIn (w.inodes p).ino nm = none)
    (hm : m ≠ 0) (hlt : m < 2 ^ 16) (h : Returns (xv6DentryInsert p name m) w e w') :
    NamesInv ⟨w', g⟩ ∧ (e ≠ 0 → (Volume.mk w' g).node = (Volume.mk w g).node) ∧
      (e = 0 → ∃ k P, (Volume.mk w g).node (w.inodes p).ino = some P ∧ P.isDir = true ∧
        P.names k = none ∧ (Volume.mk w' g).node = Function.update (Volume.mk w g).node
          (w.inodes p).ino (some (P.setName k (some m)))) := by
  -- the calls that do nothing
  have hexit : ∀ {e₁ : Int}, e₁ ≠ 0 → Returns (pure e₁ : Fs Int) w e w' → NamesInv ⟨w', g⟩ ∧
      (e ≠ 0 → (Volume.mk w' g).node = (Volume.mk w g).node) ∧ (e = 0 → ∃ k P,
        (Volume.mk w g).node (w.inodes p).ino = some P ∧ P.isDir = true ∧ P.names k = none ∧
        (Volume.mk w' g).node = Function.update (Volume.mk w g).node (w.inodes p).ino
          (some (P.setName k (some m)))) := by
    rintro e₁ hne hend
    obtain ⟨rfl, rfl⟩ := Prog.Via.pure hend
    exact ⟨hi, fun _ => rfl, fun h0 => absurd h0 hne⟩
  have hrun := h
  simp only [xv6DentryInsert, Returns, runs_bind_getInode] at h
  rcases h.ite with ⟨-, hend⟩ | ⟨hfmt, h⟩
  · exact hexit (by decide) hend
  rcases h.ite with ⟨-, hend⟩ | ⟨hlen, h⟩
  · exact hexit (by decide) hend
  rcases h.ite with ⟨-, hend⟩ | ⟨hdots, -⟩
  · exact hexit (by decide) hend
  clear h hexit
  obtain ⟨nm, rfl⟩ : ∃ nm : EntryName, nm.name = name :=
    ⟨⟨name, hname, not_lt.mp hlen, hdots⟩, rfl⟩
  have hdir : (w.inodes p).fmt = .dir := not_not.mp hfmt
  have hnone := habs nm rfl
  rw [hi.nameIn_live hp hdir] at hnone
  obtain ⟨inum, rfl⟩ : ∃ inum : UInt16, inum.toNat = m :=
    ⟨UInt16.ofNat m, UInt16.toNat_ofNat_of_lt hlt⟩
  have hinum : inum ≠ 0 := by
    rintro rfl
    exact hm rfl
  have hA := hi.addrsOf_live hp
  have hready : GrowReady w (w.addrs p) :=
    ⟨hi.writable, hi.sound, hi.hint, fun hne => Owned.held_indirect hi.owned hA hne⟩
  obtain ⟨hfailed, hdone⟩ :=
    (hi.anyDir hp hdir).inserted hready hi.owned hA hi.quiet hinum hnone hrun
  obtain ⟨addrs', hgrew, -⟩ := dentryInsert_grew (.inl hi.quiet) (hi.fileReady hp) hrun
  by_cases h0 : e = 0
  · obtain ⟨k, hk, hr⟩ := hdone h0
    obtain ⟨hi', P, hP, hisDir, hnames, hnode⟩ := hi.rewritten hp hdir hgrew hr
    refine ⟨hi', fun hne => absurd h0 hne, fun _ => ⟨k, P, hP, hisDir, hnames ▸ hk, ?_⟩⟩
    rw [hnode, ← hnames]
    rfl
  · obtain ⟨hi', P, hP, -, hnames, hnode⟩ := hi.rewritten hp hdir hgrew (hfailed h0)
    refine ⟨hi', fun _ => ?_, fun he => absurd he h0⟩
    rw [hnode, ← hnames]
    exact Function.update_eq_self_iff.mpr hP.symm

/-! ## Changes of one node -/

/-- A link count in core changes. -/
theorem setNlink (hi : NamesInv ⟨w, g⟩) (hp : (Volume.mk w g).Live p) (nlink : Nat)
    (dirty : Bool) :
    let w' := w.setInode p { w.inodes p with nlink := nlink, dirty := dirty }
    NamesInv ⟨w', g⟩ ∧ ∃ y, (Volume.mk w g).node (w.inodes p).ino = some y ∧
      y.links = (w.inodes p).nlink ∧ (y.isDir = true ↔ (w.inodes p).fmt = .dir) ∧
      (Volume.mk w' g).node =
        Function.update (Volume.mk w g).node (w.inodes p).ino (some (y.setLinks nlink)) := by
  intro w'
  have hi' : VolumeInv ⟨w', g⟩ := hi.toVolumeInv.setNlink nlink dirty
  have hkept : ∀ n, DirKept n ⟨w, g⟩ ⟨w', g⟩ := fun n =>
    ⟨rfl, fun _ => rfl, fun hu => .setNlink hi.toVolumeInv hu nlink dirty⟩
  have hino : ∀ q, (w'.inodes q).ino = (w.inodes q).ino := World.setInode_field Inode.ino rfl
  refine ⟨hi.of_kept hi' rfl (fun q hq => ?_) fun n => .inl (hkept n), _,
    if_pos (hi.allocated p hp), hi.linksOf_live hp, ?_, ?_⟩
  · exact hi.nodeOk_of_same (q := q) hq (hino q) (World.setInode_field Inode.fmt (by rfl) q) rfl
  · rw [decide_eq_true_iff]
    exact (hi.nodes p hp).2.symm
  · funext n
    by_cases hn : n = (w.inodes p).ino
    · have hlinks := hi'.linksOf_live hp
      have hnew : w'.inodes p = { w.inodes p with nlink := nlink, dirty := dirty } :=
        World.setInode_self _ _ _
      have hnlink : (w'.inodes p).nlink = nlink := congrArg Inode.nlink hnew
      rw [hino p, hnlink] at hlinks
      have hnode : (Volume.mk w' g).node (w.inodes p).ino = _ := if_pos (hi.allocated p hp)
      rw [hlinks, (hkept _).entryOf, (hkept _).dotsOf] at hnode
      rw [hn, Function.update_self, hnode]
      rfl
    · rw [Function.update_of_ne hn]
      have hother : NodeKept n ⟨w, g⟩ ⟨w', g⟩ :=
        .setInode hi.toVolumeInv rfl rfl rfl fun hc => absurd hc.symm hn
      exact hother.node

end NamesInv

end

end Xv6fs
