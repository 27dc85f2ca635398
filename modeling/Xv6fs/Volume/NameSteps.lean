/-
  The calls as steps of a namespace.

  A creation makes a node with one name, or leaves one without a name when it fails late. A link
  adds a name and counts it. An unlink drops a name, and the node with it when the link was the
  last. A rename moves a name. Each call is one step of the namespace that the volume is
  (`NameStep`), when its names stand for what the caller says.
-/
import Xv6fs.Volume.Names

namespace Xv6fs

/-- The namespace takes one step. `stay` says that no directory moves to another directory. -/
def NameStep (stay : Prop) (v v' : Volume) : Prop :=
  Namespace.Step (fun n p => some (dotsFor n p)) INT16_MAX stay v.node v'.node

/-- Directory `n` does not have the name. -/
def Volume.Absent (v : Volume) (n : Nat) (name : FileName) : Prop :=
  ∀ nm : EntryName, nm.name = name → v.nameIn n nm = none

section

variable {v v' : Volume} {w w' : World} {g : List Ptr} {p q dir : Ptr} {n m b : Nat} {e : Int}
  {name : FileName} {nm : EntryName} {addrs : Addrs} {d : Disk} {inum : UInt16} {isdir : Bool}
  {host : ByteOrder} {hint : Nat} {stay : Prop} {size size' : Nat}

/-! ## A new inode -/

/-- A new directory is valid with any size that it may claim. -/
theorem NewDir.widen (h : NewDir d addrs size n m) (hmul : size' % 16 = 0) (hge : 2 * 16 ≤ size')
    (hle : size' ≤ MAXFILE * BSIZE) : ValidDir d addrs size' := by
  have hv := h.valid
  have htwo : size / 16 = 2 := by rw [h.size_eq]
  have hmax : ∀ {k}, k < size' / 16 → k < MAXFILE * NENTS := fun hk => by
    simp only [MAXFILE, BSIZE, NENTS] at hle ⊢
    omega
  have hdots : ∀ {k}, k < size' / 16 → (dslot d addrs k).inum ≠ 0 → k < size / 16 :=
    fun hk hne => by
      by_contra hno
      exact hne (h.only _ (by omega) (hmax hk))
  refine ⟨hmul, hge, hle, hv.dot, hv.dotdot, fun k hk hne => hv.used k (hdots hk hne) hne, ?_,
    fun k hk hfree => ?_, fun k hk hlt => hv.past k (by omega) hlt⟩
  · intro i j key x y hi hj hx hy
    obtain ⟨hx0, -, rfl⟩ := Dirent.binding_eq_some.mp hx
    obtain ⟨hy0, -, rfl⟩ := Dirent.binding_eq_some.mp hy
    exact hv.distinct i j key _ _ (hdots hi hx0) (hdots hj hy0) hx hy
  · by_cases hlt : k < size / 16
    · exact hv.unused k hlt hfree
    · exact (hv.past k (not_lt.mp hlt) (hmax hk)).2

/-- The size of a new directory, on either host. -/
theorem newSlot_size (host : ByteOrder) : capped (newSlot host true b).size.toNat % 16 = 0 ∧
    2 * 16 ≤ capped (newSlot host true b).size.toNat := by
  have hsize : (newSlot host true b).size = UInt32.ofNat (raw32 host (16 * 2)) := rfl
  rw [hsize]
  cases host <;> decide +kernel

/-- The node of an inode as `xv6_create` writes it. -/
theorem newNode (hn : n < 2 ^ 16) (hn0 : n ≠ 0) (hm : m < 2 ^ 16) (hm0 : m ≠ 0) (hb : b ≠ 0)
    (hb' : b < 2 ^ 32) (hu : SlotInUse v.world.env v.world.disk n) (hcached : v.cached n = none)
    (hslot : slot v.world.env v.world.disk n = newSlot host isdir b)
    (hblk : v.world.disk b = newBlock isdir n m) :
    v.DirOk n ∧ ∃ x, v.node n = some x ∧ (∀ k, x.names k = none) ∧ x.links = 1 ∧
      (x.isDir = true → x.dots = some (dotsFor n m)) := by
  have hlinks : v.linksOf n = 1 := by
    unfold Volume.linksOf
    rw [hcached]
    dsimp only
    rw [hslot]
    rfl
  have htype : v.typeOf n = (newSlot host isdir b).type := congrArg Dinode.type hslot
  cases isdir with
  | false =>
    have ht : v.typeOf n ≠ T_DIR := by
      rw [htype]
      exact show T_FILE ≠ T_DIR by decide
    refine ⟨fun addrs ha => ?_, _, Volume.node_file hu ht, fun _ => rfl, hlinks,
      fun hc => by cases hc⟩
    rw [Volume.dirAddrs, if_neg ht] at ha
    cases ha
  | true =>
    have ht : v.typeOf n = T_DIR := htype
    have haddrs : v.dirAddrs n = some (oneBlock b) := by
      unfold Volume.dirAddrs Volume.addrsOf
      rw [if_pos ht, if_pos hu, hcached]
      dsimp only
      rw [hslot, newSlot_addr hb']
    have hsize : v.sizeOf n = (newSlot host true b).size.toNat := by
      unfold Volume.sizeOf
      rw [hcached]
      dsimp only
      rw [hslot]
    have hnew := newDir_of_block hb hn hn0 hm hm0 hblk
    obtain ⟨hmul, hge⟩ := newSlot_size (b := b) host
    have hdirent : ∀ k, k < MAXFILE * NENTS → dslot v.world.disk (oneBlock b) k =
        if k < NENTS then (newDirBlock n m).dirent k else .zero := fun k hk => by
      have hblk' : v.world.disk b = newDirBlock n m := hblk
      rw [dslot_oneBlock hb hk, hblk']
    refine ⟨fun addrs ha => ?_, _, if_pos hu, fun k => ?_, hlinks, fun _ => ?_⟩
    · rw [haddrs] at ha
      cases ha
      rw [hsize]
      exact ⟨UInt32.toNat_lt _, hnew.widen hmul hge capped_le⟩
    · change v.entryOf n k = none
      unfold Volume.entryOf
      rw [haddrs, Option.bind_some]
      exact if_neg fun hc => hc.2.2 (hnew.only k hc.1 (capped_slots hc.2.1).2)
    · change v.dotsOf n = _
      unfold Volume.dotsOf
      rw [haddrs, Option.map_some, hdirent 0 (by decide), hdirent 1 (by decide),
        if_pos (by decide), if_pos (by decide), newDirBlock_dirent, newDirBlock_dirent]
      rfl

namespace NamesInv

/-- The slot has been written. The new inode has no name yet. -/
theorem prepared (hi : NamesInv ⟨w, g⟩) (hn : FirstUnused w.env w.disk n)
    (hh : HintOk w.env hint) (hm0 : m ≠ 0) (hm : m < 2 ^ 16)
    (hprep : Prepared w n b (newSlot host isdir b) (newBlock isdir n m) d) (l : List Event) :
    let w' : World := { w with disk := d, hint := hint, log := l }
    NamesInv ⟨w', g⟩ ∧ (∀ k, k ≠ n → NodeKept k ⟨w, g⟩ ⟨w', g⟩) ∧ (Volume.mk w g).node n = none ∧
      ∃ x, (∀ k, x.names k = none) ∧ x.links = 1 ∧
        (x.isDir = true → x.dots = some (dotsFor n m)) ∧
        (Volume.mk w' g).node = Function.update (Volume.mk w g).node n (some x) := by
  intro w'
  have hi' : VolumeInv ⟨w', g⟩ := hi.toVolumeInv.prepared hn hh hprep l
  have hkept : ∀ k, k ≠ n → NodeKept k ⟨w, g⟩ ⟨w', g⟩ := fun k hkn =>
    .newDisk hi.toVolumeInv hprep.front (fun hk => (hprep.slots k hk).trans (if_neg hkn))
      (fun x hx => (hprep.held hx).2.1) l
  have hslot : slot w.env d n = newSlot host isdir b := (hprep.slots n hn.lt).trans (if_pos rfl)
  have hu : SlotInUse w.env d n := by
    refine ⟨hn.lt, ?_⟩
    rw [hslot]
    exact newSlot_type
  have hcached : (Volume.mk w' g).cached n = none :=
    Volume.cached_eq_none.mpr fun r hr => hi.ino_ne_unused hn hr
  have hb : b ≠ 0 := by
    rintro rfl
    exact hi.sound.pos_of_isData hprep.data rfl
  have hn0 : n ≠ 0 := (Nat.zero_lt_two.trans_le hn.ge).ne'
  obtain ⟨hok, x, hx, hnames, hlinks, hdots⟩ := newNode (v := ⟨w', g⟩)
    (HasSlot.fits_of_region hn.lt hi.region) hn0 hm hm0 hb
    (hprep.data.2.trans hi.sound.size_lt) hu hcached hslot ((hprep.blocks b hprep.data).trans
      (if_pos rfl))
  refine ⟨hi.of_kept hi' rfl (fun r hr => ?_) fun k => ?_, hkept, if_neg fun hc => hc.2 hn.unused,
    x, hnames, hlinks, hdots, ?_⟩
  · have hne := hi.ino_ne_unused hn (p := r) hr
    exact hi.nodeOk_of_same (q := r) hr rfl rfl ((hkept _ hne).type (hi.allocated r hr).1)
  · by_cases hkn : k = n
    · rw [hkn]
      exact .inr hok
    · exact .inl (hkept k hkn).toDirKept
  · funext k
    by_cases hkn : k = n
    · rw [hkn, Function.update_self, hx]
    · rw [Function.update_of_ne hkn, (hkept k hkn).node]

/-- Up to `create_fini`. -/
theorem createAlloc (hi : NamesInv ⟨w, g⟩) (stay : Prop) (hdir : (Volume.mk w g).Live dir)
    (hq : q ∉ w.tree) (hname : NameOk name) (habs : (Volume.mk w g).Absent (w.inodes dir).ino name)
    (h : Returns (xv6Create.alloc dir q name isdir) w e w') :
    NamesInv ⟨w', g⟩ ∧ NameStep stay ⟨w, g⟩ ⟨w', g⟩ := by
  have hino := hi.nodes dir hdir
  have hslot := (hi.allocated dir hdir).1
  cases createAlloc_ends hi.quiet hi.sound hi.hint
    (by exact (Nat.le_add_right _ _).trans hi.table) h with
  | @stopped d hint l he hh hd hw =>
    obtain ⟨hbefore, hheld⟩ : SameBefore w.env w.disk d ∧
        ∀ x, Held w.env w.disk x → d x = w.disk x := by
      rcases hd with rfl | ⟨b, hb, hfree, rfl⟩
      · exact ⟨fun _ _ => rfl, fun _ _ => rfl⟩
      · refine ⟨fun x hx => ?_, fun x hx => handOut_held hi.sound hb hfree hx⟩
        have hds : w.env.info.bmapstart ≤ b := hi.sound.data_ge hb
        rw [handOut_block hi.sound w.disk hb (.inl hx), if_neg (by omega)]
    have hi' := (hi.toVolumeInv.createAlloc hdir hq h).1
    subst hw
    obtain ⟨hi'', hnode⟩ := hi.same hi' (fun n => .newDisk hi.toVolumeInv
      (fun x hx => hbefore x (hx.trans hslot.start_lt)) (fun hn => hn.same hi.sound hbefore)
      hheld l) fun r hr => ⟨hr, rfl, rfl⟩
    refine ⟨hi'', ?_⟩
    unfold NameStep
    rw [hnode]
    exact .same _
  | @entered n b d hint l hrw hn hh hprep h =>
    obtain ⟨hi₁, hkept, hnone, x, hxnames, hxlinks, hxdots, hnode₁⟩ := hi.prepared hn hh hino.1
      (HasSlot.fits_of_region hslot hi.region) hprep l
    have hdn := hi.ino_ne_unused hn hdir
    obtain ⟨e₁, w₁, hinit, hrest⟩ := Prog.Via.bind h
    obtain ⟨-, ino, l₁, rfl, -⟩ := xv6InitInode_spec hinit
    have hold : ∀ r, r ∈ w.tree → Function.update w.inodes q ino r = w.inodes r := fun r hr => by
      have hrq : r ≠ q := by
        rintro rfl
        exact hq hr
      exact Function.update_of_ne hrq _ _
    obtain ⟨hi₂, hsame⟩ := hi₁.outside { w with
      disk := d, hint := hint, inodes := Function.update w.inodes q ino, log := l₁ } rfl rfl rfl
      rfl le_rfl hold
    have hnode₂ := hsame.trans hnode₁
    rcases hrest.ite with ⟨-, hend⟩ | ⟨-, hins⟩
    · obtain ⟨-, rfl⟩ := hend.pure
      refine ⟨hi₂, ?_⟩
      unfold NameStep
      rw [hnode₂]
      exact .leaked hnone hxnames
    -- the name is not there yet
    have hdino : Function.update w.inodes q ino dir = w.inodes dir := hold dir hdir.1
    have hkeep : NodeKept (w.inodes dir).ino ⟨w, g⟩ ⟨{ w with
        disk := d, hint := hint, inodes := Function.update w.inodes q ino, log := l₁ }, g⟩ :=
      (hkept _ hdn).trans (.outside hi₁.toVolumeInv rfl rfl rfl hold)
    obtain ⟨hi₃, hfailed, hdone⟩ := hi₂.insert hdir hname (by
      dsimp only
      rw [hdino]
      intro nm hnm
      rw [hkeep.nameIn (hi.dirs _)]
      exact habs nm hnm) (Nat.zero_lt_two.trans_le hn.ge).ne'
      (HasSlot.fits_of_region hn.lt hi.region) hins
    refine ⟨hi₃, ?_⟩
    unfold NameStep
    by_cases h0 : e = 0
    · obtain ⟨k, P, hP, -, hk, hnode₃⟩ := hdone h0
      dsimp only at hP hnode₃
      rw [hdino, hnode₂] at hP hnode₃
      rw [Function.update_of_ne hdn] at hP
      rw [hnode₃]
      exact .made hP hk hnone hxnames hxlinks hxdots
    · rw [hfailed h0, hnode₂]
      exact .leaked hnone hxnames

theorem create {r : Int × Option Ptr} (hi : NamesInv ⟨w, g⟩) (hdir : (Volume.mk w g).Live dir)
    (hname : NameOk name) (habs : (Volume.mk w g).Absent (w.inodes dir).ino name)
    (h : Returns (xv6Create dir name isdir) w r w') :
    NamesInv ⟨w', g⟩ ∧ NameStep stay ⟨w, g⟩ ⟨w', g⟩ := by
  rcases Prog.Via.ite h with ⟨-, hend⟩ | ⟨-, hrun⟩
  · obtain ⟨-, rfl⟩ := hend.pure
    exact ⟨hi, .same _⟩
  obtain ⟨o, w₁, hnew, hrest⟩ := hrun.bind
  obtain ⟨-, ⟨rfl, l, rfl⟩ | ⟨rfl, l, rfl⟩⟩ := newInode_spec hnew
  · obtain ⟨-, rfl⟩ := hrest.pure
    obtain ⟨hi₁, hnode⟩ := hi.logs ⟨l, rfl⟩
    refine ⟨hi₁, ?_⟩
    unfold NameStep
    rw [hnode]
    exact .same _
  have hnot : w.next ∉ w.tree := fun hmem => Nat.lt_irrefl _ (hi.below _ hmem)
  have hold : ∀ r, r ∈ w.tree → Function.update w.inodes w.next .fresh r = w.inodes r :=
    fun r hr => Function.update_of_ne (hi.below r hr).ne _ _
  obtain ⟨hi₁, hnode₁⟩ := hi.outside { w with
    inodes := Function.update w.inodes w.next .fresh, next := w.next + 1, log := l } rfl rfl rfl
    rfl (Nat.le_succ _) hold
  have hkeep : NodeKept (w.inodes dir).ino ⟨w, g⟩ ⟨{ w with
      inodes := Function.update w.inodes w.next .fresh, next := w.next + 1, log := l }, g⟩ :=
    .outside hi.toVolumeInv rfl rfl rfl hold
  obtain ⟨e, w₂, halloc, hrest⟩ := hrest.bind
  obtain ⟨-, htree, hnext, henter⟩ := hi₁.toVolumeInv.createAlloc hdir hnot halloc
  obtain ⟨hi₂, hstep⟩ := hi₁.createAlloc stay hdir hnot hname (by
    dsimp only
    rw [hold dir hdir.1]
    intro nm hnm
    rw [hkeep.nameIn (hi.dirs _)]
    exact habs nm hnm) halloc
  unfold NameStep at hstep ⊢
  rw [hnode₁] at hstep
  rcases hrest.ite with ⟨-, hend⟩ | ⟨he, hend⟩
  · -- the new inode is kept, or evicted, but is in no tree
    obtain ⟨u, w₃, hput, hlast⟩ := hend.bind
    obtain ⟨-, rfl⟩ := hlast.pure
    rcases iput_spec hput with ⟨-, -, rfl⟩ | ⟨-, t, ht, rfl⟩
    · exact ⟨hi₂, hstep⟩
    · have hnot₂ : w.next ∉ w₂.tree := by
        rw [htree]
        exact hnot
      obtain ⟨hi₃, hnode₃⟩ := hi₂.outside { w₂ with
        inodes := Function.update w₂.inodes w.next { w₂.inodes w.next with
          priv := none, refcount := (w₂.inodes w.next).refcount - 1 }
        tree := t } rfl rfl rfl (by
          rcases ht with rfl | rfl
          · rfl
          · exact List.erase_of_not_mem hnot₂) le_rfl fun r hr => by
          have hrq : r ≠ w.next := by
            rintro rfl
            exact hnot₂ hr
          exact Function.update_of_ne hrq _ _
      rw [← hnode₃] at hstep
      exact ⟨hi₃, hstep⟩
  · obtain ⟨u, w₃, hadd, hlast⟩ := hend.bind
    obtain rfl := (runs_rbAdd _ _ _ _).mp hadd
    obtain ⟨-, rfl⟩ := hlast.pure
    obtain ⟨hi₃, hnode₃⟩ := hi₂.enter (q := w.next) (by rw [hnext]; exact Nat.lt_succ_self _)
      (fun hmem => Nat.lt_irrefl _ (hi.gone _ hmem)) (henter (not_not.mp he))
    rw [← hnode₃] at hstep
    exact ⟨hi₃, hstep⟩

/-! ## Links and renames -/

/-- A file in core as a node. -/
theorem node_of_fmt (hi : NamesInv ⟨w, g⟩) (hp : (Volume.mk w g).Live p)
    (hfile : (w.inodes p).fmt ≠ .dir) : (Volume.mk w g).node (w.inodes p).ino =
      some ⟨false, (w.inodes p).nlink, fun _ => none, none⟩ :=
  hi.node_file hp fun ht => hfile ((hi.nodes p hp).2.mpr ht)

/-- An inode number in core fits into an entry. -/
theorem ino_fits (hi : NamesInv ⟨w, g⟩) (hp : (Volume.mk w g).Live p) :
    (w.inodes p).ino < 2 ^ 16 :=
  HasSlot.fits_of_region (hi.allocated p hp).1 hi.region

theorem link (hi : NamesInv ⟨w, g⟩) (hp : (Volume.mk w g).Live p)
    (hdir : (Volume.mk w g).Live dir) (hname : NameOk name)
    (habs : (Volume.mk w g).Absent (w.inodes dir).ino name) (hfile : (w.inodes p).fmt ≠ .dir)
    (hnamed : ∃ x, Namespace.nameAt (Volume.mk w g).node x = some (w.inodes p).ino)
    (h : Returns (xv6Link p dir name) w e w') :
    NamesInv ⟨w', g⟩ ∧ NameStep stay ⟨w, g⟩ ⟨w', g⟩ := by
  simp only [xv6Link, Returns, runs_bind_getInode] at h
  rcases h.ite with ⟨-, hend⟩ | ⟨hlim, h⟩
  · obtain ⟨-, rfl⟩ := hend.pure
    exact ⟨hi, .same _⟩
  obtain ⟨e₁, w₁, hins, hrest⟩ := h.bind
  obtain ⟨hi₁, hfailed, hdone⟩ :=
    hi.insert hdir hname habs (hi.nodes p hp).1 (hi.ino_fits hp) hins
  rcases hrest.ite with ⟨hne, hend⟩ | ⟨heq, hrest⟩
  · obtain ⟨-, rfl⟩ := hend.pure
    refine ⟨hi₁, ?_⟩
    unfold NameStep
    rw [hfailed hne]
    exact .same _
  obtain ⟨k, P, hP, hisDir, hk, hnode₁⟩ := hdone (not_not.mp heq)
  -- the file is not the directory
  have hy := hi.node_of_fmt hp hfile
  have hdp : (w.inodes dir).ino ≠ (w.inodes p).ino := by
    intro hc
    rw [hc, hy] at hP
    cases hP
    cases hisDir
  have hs := (keeps_dentryInsert (P := (· = dir)) rfl name _).via hins
  have hsame : w₁.inodes p = w.inodes p := hs.other p fun hc => hdp (by rw [hc])
  have hp₁ : (Volume.mk w₁ g).Live p := hs.live.mpr hp
  obtain ⟨u, w₂, hinc, hsync⟩ := hrest.bind
  obtain rfl := (runs_incLinkCount u).mp hinc
  obtain ⟨hi₂, y, hy₁, -, -, hnode₂⟩ :=
    hi₁.setNlink hp₁ (((w₁.inodes p).nlink + 1) % 2 ^ 32) true
  obtain ⟨hi₃, hnode₃⟩ := hi₂.sync hp₁ hsync
  refine ⟨hi₃, ?_⟩
  have hlinks : ((w.inodes p).nlink + 1) % 2 ^ 32 = (w.inodes p).nlink + 1 :=
    Nat.mod_eq_of_lt (by simp only [INT16_MAX] at hlim; omega)
  rw [hsame, hnode₁, Function.update_of_ne hdp.symm, hy] at hy₁
  cases hy₁
  unfold NameStep
  rw [hnode₃, hnode₂, hsame, hlinks, hnode₁, Function.update_comm hdp]
  exact .linked hP hk hy hdp rfl hnamed (not_le.mp hlim)

theorem rename {oldnm : EntryName} {newname : FileName} {olddir newdir : Ptr} {badFlags : Bool}
    (hi : NamesInv ⟨w, g⟩) (hold : (Volume.mk w g).Live olddir) (hp : (Volume.mk w g).Live p)
    (hnew : (Volume.mk w g).Live newdir)
    (hsome : (Volume.mk w g).nameIn (w.inodes olddir).ino oldnm = some inum)
    (hnum : inum.toNat = (w.inodes p).ino) (hname : NameOk newname)
    (hstay : stay → (w.inodes olddir).ino ≠ (w.inodes newdir).ino → (w.inodes p).fmt ≠ .dir)
    (h : Returns (xv6Rename olddir p oldnm.name newdir newname badFlags) w 0 w') :
    NamesInv ⟨w', g⟩ ∧ NameStep stay ⟨w, g⟩ ⟨w', g⟩ := by
  simp only [xv6Rename, Returns] at h
  rcases h.ite with ⟨-, hend⟩ | ⟨-, h⟩
  · exact absurd hend.pure.1 (by decide)
  rcases h.ite with ⟨-, hend⟩ | ⟨-, h⟩
  · exact absurd hend.pure.1 (by decide)
  obtain ⟨e₁, w₁, herase, hrest⟩ := h.bind
  obtain ⟨-, hi₁, k, P, hP, -, hk, hnode₁⟩ := hi.erase hold hsome herase
  have hs := (keeps_dirErase (P := (· = olddir)) rfl oldnm.name).via herase
  have hnew₁ : (Volume.mk w₁ g).Live newdir := hs.live.mpr hnew
  rcases hrest.ite with ⟨hne, hend⟩ | ⟨-, hrest⟩
  · exact absurd hend.pure.1 hne
  obtain ⟨r, w₂, hfind, hrest⟩ := hrest.bind
  obtain ⟨e₂, dnum, de⟩ := r
  rcases hrest.ite with ⟨hne, hend⟩ | ⟨heq, hrest⟩
  · exact absurd hend.pure.1 hne
  rcases hrest.ite with ⟨-, hend⟩ | ⟨hzero, hrest⟩
  · exact absurd hend.pure.1 (by decide)
  simp only [runs_bind_getInode] at hrest
  have he₂ : e₂ = 0 := not_not.mp heq
  have hdnum : dnum = 0 := not_not.mp hzero
  have hlogs := findInum_readOnly hfind
  obtain ⟨hi₂, hnode₂⟩ := hi₁.logs hlogs
  have hkeep : NodeKept (w.inodes newdir).ino ⟨w₁, g⟩ ⟨w₂, g⟩ := .logs hi₁.toVolumeInv hlogs
  have hinodes : w₂.inodes = w₁.inodes := by
    obtain ⟨l, rfl⟩ := hlogs
    rfl
  have hlive : ∀ {q}, (Volume.mk w₁ g).Live q → (Volume.mk w₂ g).Live q := fun hq => by
    obtain ⟨l, rfl⟩ := hlogs
    exact hq
  have hino : ∀ q, (w₂.inodes q).ino = (w.inodes q).ino := fun q => by
    rw [hinodes]
    exact hs.ino q
  -- the search has found that the new name is not there
  have habs : (Volume.mk w₂ g).Absent (w₂.inodes newdir).ino newname := by
    rintro nm rfl
    rw [he₂, hdnum] at hfind
    have hdir : (w₁.inodes newdir).fmt = .dir := by
      simp only [xv6FindInum, runs_bind_getInode] at hfind
      rcases hfind.ite with ⟨-, hend⟩ | ⟨hdir, -⟩
      · exact absurd (congrArg Prod.fst hend.pure.1) (show -ENOTDIR ≠ 0 by decide)
      · exact not_not.mp hdir
    rw [hino newdir, hkeep.nameIn (hi₁.dirs _), ← hs.ino newdir, hi₁.nameIn_live hnew₁ hdir]
    exact (hi₁.anyDir hnew₁ hdir).find_absent hfind
  have hp₂ : (Volume.mk w₂ g).Live p := hlive (hs.live.mpr hp)
  obtain ⟨hi₃, -, hdone⟩ := hi₂.insert (hlive hnew₁) hname habs (hi₂.nodes p hp₂).1
    (hi₂.ino_fits hp₂) hrest
  obtain ⟨k', Q, hQ, -, hk', hnode₃⟩ := hdone rfl
  rw [hino newdir, hnode₂, hnode₁] at hQ hnode₃
  rw [hino p] at hnode₃
  refine ⟨hi₃, ?_⟩
  unfold NameStep
  rw [hnode₃]
  refine .renamed hP (hnum ▸ hk) hQ hk' fun hst hne y hy => ?_
  rw [hi.node_of_fmt hp (hstay hst hne)] at hy
  cases hy
  rfl

/-! ## Removal -/

/-- The last link is dropped, and the inode with it. -/
theorem removed {w₁ w₂ w₃ : World} {e₁ e₂ : Int} (hi : NamesInv ⟨w, g⟩)
    (hp : (Volume.mk w g).Live p) (hdir : (Volume.mk w g).Live dir)
    (hne : (w.inodes p).ino ≠ (w.inodes dir).ino)
    (hsome : (Volume.mk w g).nameIn (w.inodes dir).ino nm = some inum)
    (hclear : Returns (xv6InodeClear p) w e₁ w₁)
    (herase : Returns (xv6DirErase dir nm.name) w₁ e₂ w₂)
    (hifree : Returns (xv6Ifree (w.inodes p).ino) w₂ e w₃) :
    NamesInv ⟨w₃, p :: g⟩ ∧ ∃ k P, (Volume.mk w g).node (w.inodes dir).ino = some P ∧
      P.names k = some inum.toNat ∧ (Volume.mk w₃ (p :: g)).node =
        Function.update (Function.update (Volume.mk w g).node (w.inodes p).ino none)
          (w.inodes dir).ino (some (P.setName k none)) := by
  have hino := (hi.nodes p hp).1
  have hp' := (hi.allocated p hp).1
  obtain ⟨hi₃, hunused⟩ := hi.toVolumeInv.unlinkLast hp hdir hino hne hclear herase hifree
  obtain ⟨hc, hr, hgrew⟩ := hi.toVolumeInv.erased hp hdir hino hne hclear herase
  have henv₂ : w₂.env = w.env := hgrew.env.trans hc.nodes.env
  obtain ⟨l, hret⟩ := ifree_returns (w := w₂) (n := (w.inodes p).ino) (henv₂.symm ▸ hi.quiet)
  obtain ⟨-, rfl⟩ := hifree.unique hret
  have hnodes := removed_nodes hc herase hret
  have hdp : dir ≠ p := by
    rintro rfl
    exact hne rfl
  -- the directory is as it was when its entry is erased
  have hfmt := hi.fmt_of_nameIn hdir hsome
  have hdir₀ := hi.anyDir hdir hfmt
  have hcore : w₁.inodes dir = w.inodes dir := hc.nodes.other dir hdp
  have haddrs₁ : w₁.addrs dir = w.addrs dir := World.addrs_congr (congrArg Inode.priv hcore)
    (hi.priv dir hdir)
  have hsame : SameFile w.disk (w.addrs dir) w₁.disk (w.addrs dir) := fun j hj =>
    fblock_congr hj fun x hx =>
      hc.data x (hi.owned.held_of_owns (hi.addrsOf_live hdir) hx).1
  obtain ⟨hvalid, hmap⟩ := hsame.validDir hdir₀.valid
  have hdir₁ : AnyDir w₁ dir := by
    refine ⟨by rw [hcore]; exact hfmt, ?_, by rw [hcore]; exact hdir₀.fits, ?_⟩
    · rw [hcore, haddrs₁]
      exact hi.priv_live hdir
    · rw [hcore, haddrs₁]
      exact hvalid
  rw [hi.nameIn_live hdir hfmt, ← hmap, ← haddrs₁, ← hcore] at hsome
  obtain ⟨-, k, hk, hrew⟩ := hdir₁.erased (hc.nodes.env.symm ▸ hi.quiet) hr.owned
    (haddrs₁.symm ▸ hr.at_n) hsome herase
  rw [haddrs₁, hcore, hsame.dirEntry] at hk hrew
  generalize hw₃ : ({ w₂ with
    disk := setSlot w₂.env w₂.disk (w.inodes p).ino Dinode.zero, log := l } : World) = w₃ at *
  have hdisk₃ : w₃.disk = setSlot w₂.env w₂.disk (w.inodes p).ino Dinode.zero := by rw [← hw₃]
  have hinodes₃ : w₃.inodes = w₂.inodes := by rw [← hw₃]
  have hdir₃ : (Volume.mk w₃ (p :: g)).Live dir :=
    ⟨hnodes.tree ▸ hdir.1, fun hmem => (List.mem_cons.mp hmem).elim hdp hdir.2⟩
  have hslot : ∀ m, HasSlot w.env m → m ≠ (w.inodes p).ino →
      slot w.env w₃.disk m = slot w.env w.disk m := fun m hm hmp => by
    rw [hdisk₃]
    exact hc.removed_slot hi.sound hp' hr hgrew hm hmp
  -- the slot that has been freed is none of the directory's blocks
  have hrew₃ : Rewritten w₁ dir
      (Function.update (dirEntry w.disk (w.addrs dir) (w.inodes dir).size) k none) w₃ := by
    have haddrs₃ : w₃.addrs dir = w₂.addrs dir := by
      obtain ⟨size, dirty, hdino⟩ := hgrew.inode
      refine World.addrs_congr (by rw [hinodes₃]) ?_
      rw [hdino]
      simp
    refine hrew.same (by rw [hinodes₃]) fun j hj => ?_
    rw [haddrs₃]
    refine (fblock_congr hj fun x hx => ?_).symm
    rw [← haddrs₃] at hx
    have hdata := (hi₃.owned.held_of_owns (hi₃.addrsOf_live hdir₃) hx).1
    have henv₃ : w₃.env = w.env := hnodes.env
    change IsData w₃.env x at hdata
    rw [henv₃] at hdata
    rw [hdisk₃, henv₂, hp'.setSlot_block hi.sound (hi.sound.data_ge hdata)]
  have ht := hi.type_dir hdir hfmt
  have hnum : (w₃.inodes dir).ino = (w.inodes dir).ino := hnodes.ino dir
  have ht₃ : (Volume.mk w₃ (p :: g)).typeOf (w₃.inodes dir).ino = T_DIR := by
    unfold Volume.typeOf at ht ⊢
    dsimp only at ht ⊢
    rw [hnum, hnodes.env, hslot _ (hi.allocated dir hdir).1 hne.symm]
    exact ht
  have hkept : ∀ m, m ≠ (w.inodes p).ino → m ≠ (w.inodes dir).ino →
      NodeKept m ⟨w, g⟩ ⟨w₃, p :: g⟩ := fun m hmp hmd => by
    refine .of_cached hnodes.env (fun hm => congrArg Dinode.type (hslot m hm hmp))
      (hnodes.cached_gone hmp.symm) (fun _ hu => hslot m hu.1 hmp) (fun q hcq => ?_) fun hu =>
      .unlinkLast hi.toVolumeInv hp hdir hino hne hu hmd.symm hmp.symm hclear herase hret
    obtain ⟨-, hqm⟩ := Volume.cached_eq_some hcq
    refine congrArg Inode.nlink (hnodes.other q ?_)
    rintro (rfl | rfl)
    · exact hmp hqm.symm
    · exact hmd hqm.symm
  refine ⟨hi.of_kept hi₃ hnodes.env (fun q hq => ?_) fun m => ?_, k, _, hi.node_dir hdir ht, hk, ?_⟩
  · have hqp : q ≠ p := by
      rintro rfl
      exact hq.2 List.mem_cons_self
    have hq' : (Volume.mk w g).Live q :=
      ⟨hnodes.tree ▸ hq.1, fun hmem => hq.2 (List.mem_cons_of_mem _ hmem)⟩
    refine hi.nodeOk_of_same hq' (hnodes.ino q) (congrArg (fun x => x.2.1) (hnodes.node q)) ?_
    unfold Volume.typeOf
    dsimp only
    rw [hnodes.env, hslot _ (hi.allocated q hq').1 fun hc => hqp (hi.unique q p hq' hp hc)]
  · by_cases hmp : m = (w.inodes p).ino
    · right
      intro addrs ha
      rw [hmp, ← hnodes.ino p, Volume.dirAddrs, addrsOf_unused hunused, ite_self] at ha
      cases ha
    by_cases hmd : m = (w.inodes dir).ino
    · right
      intro addrs ha
      rw [hmd, ← hnum, hi₃.dirAddrs_live hdir₃ ht₃] at ha
      cases ha
      rw [hmd, ← hnum, hi₃.sizeOf_live hdir₃]
      exact ⟨hrew₃.fits, hrew₃.valid⟩
    · exact .inl (hkept m hmp hmd).toDirKept
  · funext m
    by_cases hmd : m = (w.inodes dir).ino
    · obtain ⟨size, dirty, hdino⟩ := hgrew.inode
      have hlinks : (w₃.inodes dir).nlink = (w.inodes dir).nlink := by
        rw [hinodes₃, hdino, hcore]
      have hdots : ∀ i, i < 2 → dslot w₃.disk (w₃.addrs dir) i =
          dslot w.disk (w.addrs dir) i := fun i hlt => by
        rw [hrew₃.dots i hlt, haddrs₁, hsame.slots (by simp only [MAXFILE, NENTS]; omega)]
      have hnode := hi₃.node_dir hdir₃ ht₃
      rw [hnum, hrew₃.entries, hlinks, hdots 0 (by decide), hdots 1 (by decide)] at hnode
      rw [hmd, Function.update_self, hnode]
      rfl
    rw [Function.update_of_ne hmd]
    by_cases hmp : m = (w.inodes p).ino
    · rw [hmp, Function.update_self, ← hnodes.ino p]
      exact if_neg hunused
    · rw [Function.update_of_ne hmp, (hkept m hmp hmd).node]

/-- The inode that a name stands for loses a link; the last one only when it has no names itself. -/
theorem unlink (hi : NamesInv ⟨w, g⟩) (stay : Prop)
    (hE : Namespace.Exact INT16_MAX (Volume.mk w g).node)
    (hdir : (Volume.mk w g).Live dir) (hp : (Volume.mk w g).Live p)
    (hsome : (Volume.mk w g).nameIn (w.inodes dir).ino nm = some inum)
    (hnum : inum.toNat = (w.inodes p).ino) (hroot : (w.inodes p).ino ≠ ROOTINO)
    (hne : (w.inodes p).ino ≠ (w.inodes dir).ino)
    (hempty : ∀ y k, (Volume.mk w g).node (w.inodes p).ino = some y → y.names k = none)
    (h : Returns (xv6Unlink dir p nm.name) w e w') :
    NamesInv ((Volume.mk w g).unlinked w' p) ∧
      NameStep stay ⟨w, g⟩ ((Volume.mk w g).unlinked w' p) := by
  -- the inode has a name, so its links are counted
  obtain ⟨k, P, hP, -, hk⟩ := hi.entry_of_nameIn hdir hsome
  obtain ⟨y, hy, hcount, hle⟩ := hE ((w.inodes dir).ino, k) _
    (((Namespace.nameAt_eq hP).trans hk).trans (congrArg some hnum))
  simp only [xv6Unlink, Returns, runs_bind_getInode] at h
  obtain ⟨u, w₁, hdec, hrest⟩ := h.bind
  obtain rfl := (runs_decLinkCount u).mp hdec
  obtain ⟨hi₁, y', hy', hlinks, -, hnode₁⟩ :=
    hi.setNlink hp (((w.inodes p).nlink + (2 ^ 32 - 1)) % 2 ^ 32) true
  obtain rfl : y = y' := Option.some.inj (hy.symm.trans hy')
  have hpos : y.links ≠ 0 := by
    intro h0
    rw [h0, Nat.cast_zero, Set.encard_eq_zero] at hcount
    have hmem : ((w.inodes dir).ino, k) ∈
        Namespace.namesOf (Volume.mk w g).node (w.inodes p).ino :=
      ((Namespace.nameAt_eq hP).trans hk).trans (congrArg some hnum)
    rw [hcount] at hmem
    exact hmem
  have hless : ((w.inodes p).nlink + (2 ^ 32 - 1)) % 2 ^ 32 = y.links - 1 := by
    rw [← hlinks]
    simp only [INT16_MAX] at hle
    omega
  rw [hless] at hi₁ hnode₁
  have hkeep : DirKept (w.inodes dir).ino ⟨w, g⟩ ⟨w.setInode p
      { w.inodes p with nlink := y.links - 1, dirty := true }, g⟩ :=
    ⟨rfl, fun _ => rfl, fun hu => .setNlink hi.toVolumeInv hu _ true⟩
  have hino : ∀ q, ((w.setInode p
      { w.inodes p with nlink := y.links - 1, dirty := true }).inodes q).ino =
      (w.inodes q).ino := World.setInode_field Inode.ino (by rfl)
  have hnlink : ((w.setInode p
      { w.inodes p with nlink := y.links - 1, dirty := true }).inodes p).nlink = y.links - 1 :=
    congrArg Inode.nlink (World.setInode_self _ _ _)
  rw [hless] at hrest
  generalize hw₁ : w.setInode p _ = w₁ at hi₁ hnode₁ hkeep hino hnlink hrest
  have hlive : ∀ {q}, (Volume.mk w g).Live q → (Volume.mk w₁ g).Live q := fun hq => by
    rw [← hw₁]
    exact hq
  have hsome₁ : (Volume.mk w₁ g).nameIn (w₁.inodes dir).ino nm = some inum := by
    rw [hino dir, hkeep.nameIn (hi.dirs _)]
    exact hsome
  have hdp := hne.symm
  simp only [runs_bind_getInode] at hrest
  rcases hrest.ite with ⟨hmore, herase⟩ | ⟨hzero, hrest⟩
  · obtain ⟨-, hi₂, k₂, P₂, hP₂, -, hk₂, hnode₂⟩ := hi₁.erase (hlive hdir) hsome₁ herase
    have hp₂ : (Volume.mk w' g).Live p :=
      ((keeps_dirErase (P := (· = dir)) rfl nm.name).via herase).live.mpr (hlive hp)
    have hgone : (Volume.mk w g).unlinked w' p = ⟨w', g⟩ := by
      unfold Volume.unlinked
      rw [if_pos (hi₂.allocated p hp₂)]
    rw [hino dir, hnode₁] at hP₂ hnode₂
    rw [Function.update_of_ne hdp] at hP₂
    rw [hgone]
    refine ⟨hi₂, ?_⟩
    unfold NameStep
    rw [hnode₂]
    refine .unlinked hP₂ (hnum ▸ hk₂) hy hdp fun h1 => hmore ?_
    rw [hnlink, h1]
  have hlast : y.links = 1 := by
    have h0 := not_not.mp hzero
    rw [hnlink] at h0
    omega
  simp only [runs_bind_assert] at hrest
  obtain ⟨-, hrest⟩ := hrest
  rcases hrest.ite with ⟨hc, -⟩ | ⟨-, hrest⟩
  · exact absurd hc hroot
  simp only [runs_bind_getInode] at hrest
  rcases hrest.ite with ⟨hc, -⟩ | ⟨-, hrest⟩
  · exact absurd (hc.trans (hino dir)) hne
  obtain ⟨e₁, w₂, hclear, hrest⟩ := hrest.bind
  rcases hrest.ite with ⟨he, -⟩ | ⟨-, hrest⟩
  · exact absurd (inodeClear_error hi₁.quiet (hi₁.nodes p (hlive hp)).1 hclear) he
  obtain ⟨e₂, w₃, herase, hifree⟩ := hrest.bind
  rw [← hino p] at hifree
  have hne₁ : (w₁.inodes p).ino ≠ (w₁.inodes dir).ino := by
    rw [hino p, hino dir]
    exact hne
  obtain ⟨-, hunused⟩ := hi₁.toVolumeInv.unlinkLast (hlive hp) (hlive hdir)
    (hi₁.nodes p (hlive hp)).1 hne₁ hclear herase hifree
  obtain ⟨hi₂, k₂, P₂, hP₂, hk₂, hnode₂⟩ :=
    hi₁.removed (hlive hp) (hlive hdir) hne₁ hsome₁ hclear herase hifree
  have hgone : (Volume.mk w g).unlinked w' p = ⟨w', p :: g⟩ := by
    unfold Volume.unlinked
    rw [if_neg hunused]
  rw [hino dir, hnode₁] at hP₂ hnode₂
  rw [Function.update_of_ne hdp] at hP₂
  rw [hino p, Function.update_idem] at hnode₂
  rw [hgone]
  refine ⟨hi₂, ?_⟩
  unfold NameStep
  rw [hnode₂]
  exact .removed hP₂ (hnum ▸ hk₂) hy hdp hlast fun k => hempty y k hy

theorem rmdir (hi : NamesInv ⟨w, g⟩) (hE : Namespace.Exact INT16_MAX (Volume.mk w g).node)
    (hdir : (Volume.mk w g).Live dir) (hp : (Volume.mk w g).Live p)
    (hsome : (Volume.mk w g).nameIn (w.inodes dir).ino nm = some inum)
    (hnum : inum.toNat = (w.inodes p).ino) (hroot : (w.inodes p).ino ≠ ROOTINO)
    (hne : (w.inodes p).ino ≠ (w.inodes dir).ino)
    (h : Returns (xv6Rmdir dir p nm.name) w e w') :
    NamesInv ((Volume.mk w g).unlinked w' p) ∧
      NameStep stay ⟨w, g⟩ ((Volume.mk w g).unlinked w' p) := by
  have hstop : ∀ {w''}, OnlyLogs w w'' → NamesInv ((Volume.mk w g).unlinked w'' p) ∧
      NameStep stay ⟨w, g⟩ ((Volume.mk w g).unlinked w'' p) := fun {w''} hlogs => by
    obtain ⟨hi', hnode⟩ := hi.logs hlogs
    have hp' : (Volume.mk w'' g).Live p := by
      obtain ⟨l, rfl⟩ := hlogs
      exact hp
    have hgone : (Volume.mk w g).unlinked w'' p = ⟨w'', g⟩ := by
      unfold Volume.unlinked
      rw [if_pos (hi'.allocated p hp')]
    rw [hgone]
    refine ⟨hi', ?_⟩
    unfold NameStep
    rw [hnode]
    exact .same _
  simp only [xv6Rmdir, Returns, runs_bind_getInode] at h
  rcases h.ite with ⟨-, hend⟩ | ⟨-, h⟩
  · obtain ⟨-, rfl⟩ := hend.pure
    exact hstop ⟨_, rfl⟩
  rcases h.ite with ⟨-, hend⟩ | ⟨hfmt, h⟩
  · obtain ⟨-, rfl⟩ := hend.pure
    exact hstop ⟨_, rfl⟩
  obtain ⟨e₁, w₁, htest, hrest⟩ := h.bind
  have hlogs := rmtest_readOnly htest
  rcases hrest.ite with ⟨-, hend⟩ | ⟨heq, hrest⟩
  · obtain ⟨-, rfl⟩ := hend.pure
    exact hstop hlogs
  -- the directory has passed the test
  rw [not_not.mp heq] at htest
  have hpdir := hi.anyDir hp (not_not.mp hfmt)
  have hnone := rmtest_empty hpdir.fits hpdir.cached htest
  obtain ⟨hi₁, hnode₁⟩ := hi.logs hlogs
  have hkeep : NodeKept (w.inodes dir).ino ⟨w, g⟩ ⟨w₁, g⟩ := .logs hi.toVolumeInv hlogs
  obtain ⟨l, rfl⟩ := hlogs
  obtain ⟨hi', hstep⟩ := hi₁.unlink stay (hnode₁ ▸ hE) hdir hp
    ((congrFun (hkeep.nameIn (hi.dirs _)) nm).trans hsome) hnum hroot hne (fun y k hy => by
      rw [hnode₁] at hy
      have hy' := (hi.node_dir hp (hi.type_dir hp (not_not.mp hfmt))).symm.trans hy
      cases hy'
      exact if_neg fun hc => hc.2.2 (hnone k hc.1 hc.2.1)) hrest
  unfold NameStep at hstep ⊢
  rw [hnode₁] at hstep
  exact ⟨hi', hstep⟩

end NamesInv

end

end Xv6fs
