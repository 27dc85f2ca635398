/-
  What xv6_sync_inode has written is what xv6_iget reads.

  As long as the blocks of an inode are data blocks that are owned once, writes to it, changes of
  its directory and of its link count do not touch the inode table, and its fields fit the slot. So
  an inode that has been written back, discarded and loaded again is the same to every read and
  lookup (`sync_reload`). An inode that names a block of the inode table can write its own slot, and
  comes back as another (`reload_other_kind`).
-/
import Xv6fs.Lib.Steps
import Xv6fs.Dir.Grows
import Xv6fs.File.Overlay
import Xv6fs.Inode.Iget
import Xv6fs.Inode.Nodes
import Xv6fs.Inode.Slot
import Xv6fs.Inode.Views

namespace Xv6fs

/-! ## The calls -/

/-- What is done to an in-core inode between its load and its write-back. -/
inductive FileOp where
  | write (append : Bool) (buf : UserBuf) (len pos : Nat)
  | insert (name : FileName) (inum : Nat)
  | erase (name : FileName)
  | incLink
  | decLink

/-- The calls that succeed. A write that is cut short does if no block I/O has failed. -/
inductive FileStep (p : Ptr) : World → FileOp → World → Prop where
  | write {w w' : World} {append : Bool} {buf : UserBuf} {len pos c : Nat} {r : Int}
      (hend : writeStart w p append pos + len ≤ MAXFILE * BSIZE) (hr : 0 ≤ r)
      (hshort : r = len ∨ Faultless w w')
      (h : Returns (xv6FileWrite p append buf len pos) w (r, c) w') :
      FileStep p w (.write append buf len pos) w'
  | insert {w w' : World} {name : FileName} {inum : Nat}
      (h : Returns (xv6DentryInsert p name inum) w 0 w') : FileStep p w (.insert name inum) w'
  | erase {w w' : World} {name : FileName} (h : Returns (xv6DirErase p name) w 0 w') :
      FileStep p w (.erase name) w'
  | incLink {w w' : World} (hmax : (w'.inodes p).nlink ≤ INT16_MAX)
      (h : Returns (inodeIncLinkCount p) w () w') : FileStep p w .incLink w'
  | decLink {w w' : World} (hmax : (w'.inodes p).nlink ≤ INT16_MAX)
      (h : Returns (inodeDecLinkCount p) w () w') : FileStep p w .decLink w'

/-- `xv6_init_inode` supports these types. -/
def Dinode.Supported (di : Dinode) : Prop := di.type = T_DIR ∨ di.type = T_FILE ∨ di.type = T_DEVICE

/-- Slot `n` of a writable file system can be loaded: its type is supported, and it is not in
    core. -/
structure Loadable (w : World) (n : Nat) : Prop where
  sound : w.env.info.Sound
  table : w.env.info.TableOk
  hint : HintOk w.env w.hint
  writable : w.env.rdonly = false
  supported : (slot w.env w.disk n).Supported
  core : ∀ q, q ∈ w.tree → q < w.next ∧ (w.inodes q).ino ≠ n

/-- The inode at `p` has been loaded from slot `n`, changed, and written back. -/
structure WrittenBack (w : World) (n : Nat) (p : Ptr) (w₁ w₂ : World) : Prop where
  run : ∃ w₀ ops, Returns (xv6Iget n) w (.ok p) w₀ ∧ Steps (FileStep p) w₀ ops w₁
  sync : Returns (xv6SyncInode p) w₁ 0 w₂

/-- The inode at `q` answers like the one at `p`. -/
structure SameInode (p q : Ptr) (w v : World) : Prop where
  fmt : (v.inodes q).fmt = (w.inodes p).fmt
  size : (v.inodes q).size = (w.inodes p).size
  nlink : (v.inodes q).nlink = (w.inodes p).nlink
  priv : (v.inodes q).priv = (w.inodes p).priv
  read : ∀ mem len pos r r' w' v', Runs Calm (xv6FileRead p mem len pos) w r w' →
    Runs Calm (xv6FileRead q mem len pos) v r' v' → r' = r
  find : ∀ name r r' w' v', Runs Calm (xv6FindInum p name) w r w' →
    Runs Calm (xv6FindInum q name) v r' v' → r' = r

/-- What is synced is what is reloaded. -/
structure SyncReload (w : World) (n : Nat) : Prop where
  /-- the inode is discarded and loaded again, unless a call fails -/
  reload : ∀ p w₁ w₂ w₃ r w₄, WrittenBack w n p w₁ w₂ → Returns (evict p) w₂ () w₃ →
    Returns (xv6Iget n) w₃ r w₄ →
    match r with
    | .ok q => SameInode p q w₂ w₄
    | .error e => e = - EIO ∨ e = -ENOMEM
  /-- the write-back changes neither the inode in core, nor another slot, nor the type and the
      device numbers -/
  slots : ∀ p w₁ w₂, WrittenBack w n p w₁ w₂ → w₂.inodes = w₁.inodes ∧
    (∀ m, InTable w.env m → m ≠ n → slot w.env w₂.disk m = slot w.env w₁.disk m) ∧
    (slot w.env w₂.disk n).type = (slot w.env w₁.disk n).type ∧
    (slot w.env w₂.disk n).major = (slot w.env w₁.disk n).major ∧
    (slot w.env w₂.disk n).minor = (slot w.env w₁.disk n).minor
  /-- an inode that has not been changed is written back as it was -/
  fresh : ∀ p w₀ w', Returns (xv6Iget n) w (.ok p) w₀ → Returns (xv6SyncInode p) w₀ 0 w' →
    w'.disk = w₀.disk

section

variable {φ : Event → Prop} {w w₀ w₁ w₂ w₃ w' : World} {p : Ptr} {n : Nat} {e : Int}
  {A : Nat → Option Addrs} {addrs addrs' : Addrs}

/-! ## The invariant -/

/-- The inode at `p`, loaded in `w₀`, has kept its number and its kind, and its fields fit the slot.
    Its blocks are owned once, and the inode table is as it was. -/
structure Cached (w₀ : World) (p : Ptr) (n : Nat) (w : World) : Prop where
  nodes : SameNodes (· = p) w₀ w
  before : SameBefore w₀.env w₀.disk w.disk
  size : (w.inodes p).size < 2 ^ 32
  nlink : (w.inodes p).nlink < 2 ^ 16
  ready : ∃ A addrs, FileReady w p n A addrs

namespace Cached

theorem fits (hc : Cached w₀ p n w) : (w.inodes p).Fits where
  size := hc.size
  nlink := hc.nlink
  addrs addrs haddrs i := by
    obtain ⟨A, addrs', hr⟩ := hc.ready
    obtain rfl := Option.some.inj (haddrs.symm.trans hr.priv)
    exact hr.owned.addr_lt hr.sound hr.at_n i

theorem grew (hc : Cached w₀ p n w) (hr : FileReady w p n A addrs)
    (hg : FileGrew w p addrs addrs' w')
    (hsize : (w'.inodes p).size = (w.inodes p).size ∨ (w'.inodes p).size < 2 ^ 32)
    (hs : SameNodes (· = p) w w') : Cached w₀ p n w' := by
  have hbefore : SameBefore w₀.env w.disk w'.disk :=
    hc.nodes.env ▸ fun _ hx => hg.grown.before hr.sound hr.owned hr.at_n hx
  refine ⟨trans_of _ hc.nodes hs, hc.before.trans hbefore, ?_, ?_, _, addrs', hg.ready hr⟩
  · rcases hsize with hsame | hlt
    · rw [hsame]
      exact hc.size
    · exact hlt
  · obtain ⟨size, dirty, hino⟩ := hg.inode
    rw [hino]
    exact hc.nlink

theorem write {append : Bool} {buf : UserBuf} {len pos c : Nat} {r : Int} (hc : Cached w₀ p n w)
    (hend : writeStart w p append pos + len ≤ MAXFILE * BSIZE) (hr : 0 ≤ r)
    (hshort : r = len ∨ Faultless w w')
    (h : Returns (xv6FileWrite p append buf len pos) w (r, c) w') : Cached w₀ p n w' := by
  have hs : SameNodes (· = p) w w' := (keeps_fileWrite (P := (· = p)) rfl _ _ _ _).via h
  obtain ⟨A, addrs, hready⟩ := hc.ready
  obtain ⟨e, k, addrs', w₁, hwr, -, hres, rfl, rfl⟩ := fileWrite_spec hready h
  have he : e ≠ - EIO := by
    rcases hshort with hall | hf
    · have hk : e = 0 := by
        refine hwr.all.mpr ?_
        by_contra hne
        have hnonpos := hwr.nonpos
        have hle := hwr.le
        split at hres <;> omega
      rw [hk]
      decide
    · exact hwr.io ((faultless_congr rfl).mp hf)
  have hsize : (w₁.inodes p).size < 2 ^ 32 := by
    obtain ⟨size, dirty, hcase, hino⟩ := hwr.touched.inode
    have hold := hc.size
    rw [hino]
    dsimp only
    omega
  have hnlink : (w₁.inodes p).nlink = (w.inodes p).nlink := by
    obtain ⟨size, dirty, -, hino⟩ := hwr.touched.inode
    rw [hino]
  refine ⟨trans_of _ hc.nodes hs, hc.before.trans (hc.nodes.env ▸ hwr.touched.before), ?_, ?_, _,
    addrs', (hwr.ready he).setSize _⟩
  · have hmax : ∀ a b : Nat, a < 2 ^ 32 → b < 2 ^ 32 → xv6Max a b < 2 ^ 32 := fun a b ha hb => by
      unfold xv6Max
      split <;> assumption
    have hk := hwr.le
    simp only [MAXFILE, BSIZE] at hend
    rw [World.setSize_inode]
    exact hmax _ _ hsize (by omega)
  · rw [World.setSize_inode, hnlink]
    exact hc.nlink

theorem insert {name : FileName} {inum : Nat} (hc : Cached w₀ p n w)
    (h : Returns (xv6DentryInsert p name inum) w 0 w') : Cached w₀ p n w' := by
  have hs : SameNodes (· = p) w w' := (keeps_dentryInsert (P := (· = p)) rfl _ _).via h
  obtain ⟨A, addrs, hr⟩ := hc.ready
  obtain ⟨addrs', hgrew, hsize⟩ := dentryInsert_grew unfailed_zero hr h
  exact hc.grew hr hgrew hsize hs

theorem erase {name : FileName} (hc : Cached w₀ p n w) (h : Returns (xv6DirErase p name) w 0 w') :
    Cached w₀ p n w' := by
  have hs : SameNodes (· = p) w w' := (keeps_dirErase (P := (· = p)) rfl _).via h
  obtain ⟨A, addrs, hr⟩ := hc.ready
  obtain ⟨hgrew, hsize⟩ := dirErase_grew (.inr rfl) hr h
  exact hc.grew hr hgrew (.inl hsize) hs

/-- The link count is set. -/
theorem links (hc : Cached w₀ p n w) {nlink : Nat} {dirty : Bool} (hmax : nlink < 2 ^ 16) :
    Cached w₀ p n (w.setInode p { w.inodes p with nlink := nlink, dirty := dirty }) := by
  obtain ⟨A, addrs, hr⟩ := hc.ready
  have hs : SameNodes (· = p) w
      (w.setInode p { w.inodes p with nlink := nlink, dirty := dirty }) := by
    refine ⟨rfl, rfl, rfl, fun q => ?_, fun q hq => Function.update_of_ne hq _ _, fun _ hh => hh⟩
    by_cases hq : q = p
    · rw [hq, World.setInode_self]
      rfl
    · exact congrArg Inode.node (Function.update_of_ne hq _ _)
  refine ⟨trans_of _ hc.nodes hs, hc.before, ?_, ?_, A, addrs, hr.sound, hr.hint, ?_, hr.at_n,
    hr.owned⟩
  · rw [World.setInode_self]
    exact hc.size
  · rw [World.setInode_self]
    exact hmax
  · rw [World.setInode_self]
    exact hr.priv

theorem step {op : FileOp} (hc : Cached w₀ p n w) (h : FileStep p w op w') : Cached w₀ p n w' := by
  cases h with
  | write hend hr hshort h => exact hc.write hend hr hshort h
  | insert h => exact hc.insert h
  | erase h => exact hc.erase h
  | incLink hmax h =>
    obtain rfl := (runs_incLinkCount ()).mp h
    simp only [World.setInode_self, INT16_MAX] at hmax
    exact hc.links (by omega)
  | decLink hmax h =>
    obtain rfl := (runs_decLinkCount ()).mp h
    simp only [World.setInode_self, INT16_MAX] at hmax
    exact hc.links (by omega)

theorem run {ops : List FileOp} (hc : Cached w₀ p n w) (h : Steps (FileStep p) w ops w') :
    Cached w₀ p n w' :=
  h.invariant (fun _ _ _ hc hstep => hc.step hstep) hc

end Cached

/-! ## Loading -/

/-- From `w` to `w₀` slot `n` has been loaded into a new inode at `p`. -/
structure Loaded (w : World) (n : Nat) (p : Ptr) (w₀ : World) : Prop where
  new : p = w.next
  env : w₀.env = w.env
  disk : w₀.disk = w.disk
  hint : w₀.hint = w.hint
  inode : w₀.inodes p = w.loadedInode n
  other : ∀ q, q ≠ p → w₀.inodes q = w.inodes q
  tree : w₀.tree = p :: w.tree

/-- A slot that is not in core is loaded. -/
theorem iget_loaded (hnone : ∀ q, q ∈ w.tree → (w.inodes q).ino ≠ n)
    (h : Runs φ (xv6Iget n) w (.ok p) w₀) : Loaded w n p w₀ := by
  obtain ⟨-, -, hgot⟩ := xv6Iget_spec h
  cases hgot with
  | found hmem hino => exact absurd hino (hnone _ hmem)
  | loaded =>
    exact ⟨rfl, rfl, rfl, rfl, Function.update_self _ _ _, fun q hq => Function.update_of_ne hq _ _,
      rfl⟩

theorem Loadable.loaded (hl : Loadable w n) (h : Runs φ (xv6Iget n) w (.ok p) w₀) :
    Loaded w n p w₀ :=
  iget_loaded (fun q hq => (hl.core q hq).2) h

theorem Loadable.cached (hl : Loadable w n) (hA : A n = some (slot w.env w.disk n).addr)
    (ho : Owned w.env w.disk A) (h : Loaded w n p w₀) : Cached w₀ p n w₀ := by
  refine ⟨refl_of _ _, fun _ _ => rfl, ?_, ?_, A, (slot w.env w.disk n).addr, ?_, ?_, ?_, hA, ?_⟩
  · rw [h.inode]
    exact UInt32.toNat_lt _
  · rw [h.inode]
    exact UInt16.toNat_lt _
  · exact h.env.symm ▸ hl.sound
  · rw [h.env, h.hint]
    exact hl.hint
  · rw [h.inode]
    rfl
  · rw [h.env, h.disk]
    exact ho

/-- A slot of a supported type is loaded unless its block cannot be read or memory is short. -/
theorem xv6Iget_error (hnone : ∀ q, q ∈ w.tree → (w.inodes q).ino ≠ n)
    (hsup : (slot w.env w.disk n).Supported) (h : Runs φ (xv6Iget n) w (.error e) w') :
    e = - EIO ∨ e = -ENOMEM := by
  simp only [xv6Iget, runs_bind_getEnv, runs_bind_assert] at h
  obtain ⟨⟨hpos, -⟩, hrun⟩ := h
  obtain ⟨r₁, w₁, hfind, hrest⟩ := hrun.bind
  obtain ⟨-, ⟨p, rfl, hmem, hino, rfl⟩ | ⟨-, l, ⟨rfl, rfl⟩ | ⟨rfl, rfl⟩⟩⟩ :=
    xv6FindInode_spec hpos hfind
  · exact absurd hino (hnone p hmem)
  · obtain ⟨hres, -⟩ := hrest.pure
    exact .inr (Except.error.inj hres).symm
  obtain ⟨ok, w₂, hread, hload⟩ := hrest.bind
  obtain ⟨-, l₂, rfl⟩ := sbBread_spec hread
  rcases hload.ite with ⟨-, hend⟩ | ⟨-, hend⟩
  · obtain ⟨u, w₃, -, hlast⟩ := hend.bind
    obtain ⟨hres, -⟩ := hlast.pure
    exact .inl (Except.error.inj hres).symm
  simp only [runs_bind_bdata, runs_bind_modifyInode] at hend
  obtain ⟨e₁, w₃, hinit, hlast⟩ := hend.bind
  have hsup' : ¬ ¬ ((w.disk (inodeBlock w.env n)).dinode (n % IPB)).Supported := not_not.mpr hsup
  unfold Dinode.Supported at hsup'
  simp only [xv6InitInode, runs_bind_modifyInode, if_neg hsup'] at hinit
  obtain ⟨ok₁, w₄, -, hinit⟩ := hinit.bind
  have he : e₁ = -ENOMEM ∨ e₁ = 0 := by
    rcases hinit.ite with ⟨-, hend⟩ | ⟨-, hend⟩
    · exact .inl hend.pure.1.symm
    · simp only [runs_bind_modifyInode] at hend
      exact .inr hend.pure.1.symm
  rcases hlast.ite with ⟨hne, hend⟩ | ⟨-, hend⟩
  · obtain ⟨u, w₅, -, hend⟩ := hend.bind
    obtain ⟨hres, -⟩ := hend.pure
    rw [← Except.error.inj hres]
    exact .inr (he.resolve_right hne)
  · cases hend.pure.1

/-! ## Writing back -/

/-- The disk holds the inode in its slot. -/
theorem WrittenBack.disk (hl : Loadable w n) (hA : A n = some (slot w.env w.disk n).addr)
    (ho : Owned w.env w.disk A) (h : WrittenBack w n p w₁ w₂) :
    ∃ w₀, Loaded w n p w₀ ∧ Cached w₀ p n w₁ ∧ (w₁.inodes p).ino = n ∧
      ∃ l, w₂ = { w₁ with disk := syncDisk w.env w₁.disk (w₁.inodes p), log := l } := by
  obtain ⟨w₀, ops, hload, hops⟩ := h.run
  have hld := hl.loaded hload
  have hc := (hl.cached hA ho hld).run hops
  have henv : w₁.env = w.env := hc.nodes.env.trans hld.env
  have hno : (w₁.inodes p).ino = n := by
    rw [hc.nodes.ino, hld.inode]
    rfl
  obtain ⟨-, l, dk, hw₂, -, hdk⟩ := xv6SyncInode_spec (henv ▸ hl.writable) h.sync
  rw [hdk rfl] at hw₂
  exact ⟨w₀, hld, hc, hno, l, henv ▸ hw₂⟩

/-- What a write-back leaves of the table. -/
theorem syncDisk_slots (hl : Loadable w n) (hn : InTable w.env n) {d : Disk} {ino : Inode}
    (hno : ino.ino = n) :
    slot w.env (syncDisk w.env d ino) n = ino.toDinode (slot w.env d n) ∧
      ∀ m, InTable w.env m → m ≠ n → slot w.env (syncDisk w.env d ino) m = slot w.env d m := by
  subst hno
  exact ⟨slot_syncDisk ino, fun m hm hne => slot_setSlot_ne hl.sound hl.table hn hm hne⟩

/-- The inode that is loaded back. -/
theorem WrittenBack.reload (hl : Loadable w n) (hn : InTable w.env n)
    (hA : A n = some (slot w.env w.disk n).addr) (ho : Owned w.env w.disk A)
    (h : WrittenBack w n p w₁ w₂) (hdrop : Returns (evict p) w₂ () w₃) :
    (∀ x, x ∈ w₃.tree → (w₃.inodes x).ino ≠ n) ∧ (slot w₃.env w₃.disk n).Supported ∧
      ∀ q w₄, Loaded w₃ n q w₄ → SameView p q w₂ w₄ ∧
        (w₄.inodes q).nlink = (w₂.inodes p).nlink := by
  obtain ⟨w₀, hld, hc, hno, l, rfl⟩ := h.disk hl hA ho
  obtain rfl := evict_spec hdrop
  have henv : w₁.env = w.env := hc.nodes.env.trans hld.env
  obtain ⟨hslot, -⟩ := syncDisk_slots hl hn (d := w₁.disk) hno
  have hold : slot w.env w₁.disk n = slot w.env w.disk n := by
    have hb := hc.before
    rw [hld.env, hld.disk] at hb
    exact hb.slot hl.sound hl.table hn
  have href : (w₁.inodes p).refcount - 1 = 0 := by
    rw [hc.nodes.refcount, hld.inode]
    rfl
  have htree : w₁.tree = p :: w.tree := hc.nodes.tree.trans hld.tree
  obtain ⟨A₁, addrs, hr⟩ := hc.ready
  have hfits := hc.fits
  refine ⟨fun x hx => ?_, ?_, fun q w₄ hq => ?_⟩
  · simp only [href, if_true, htree, List.erase_cons_head] at hx
    have hne : x ≠ p := hld.new.symm ▸ (hl.core x hx).1.ne
    have hnum : (w₁.inodes x).ino = (w.inodes x).ino := by
      rw [hc.nodes.other x hne, hld.other x hne]
    simp only [Function.update_of_ne hne, hnum]
    exact (hl.core x hx).2
  · simp only [henv, hslot]
    exact hold.symm ▸ hl.supported
  · have hino := hq.inode
    simp only [World.loadedInode, henv, hslot] at hino
    -- the kind is the one of the type, which has not changed
    have hfmt : (w₁.inodes p).fmt = if (slot w.env w₁.disk n).type = T_DIR then .dir else .reg := by
      rw [hc.nodes.fmt, hld.inode, hold]
      rfl
    refine ⟨⟨hq.env, hq.disk, ?_, ?_⟩, ?_⟩
    · rw [hino]
      simp only [Inode.view, Inode.ofDinode, hfits.size_toDinode, hfits.addr_toDinode, hfmt,
        hr.priv,
        Option.getD_some]
      rfl
    · rw [hr.priv]
      exact Option.some_ne_none _
    · rw [hino]
      exact hfits.nlink_toDinode (slot w.env w₁.disk n)

/-- A freshly loaded inode fills its slot with what is there. -/
theorem Loaded.syncDisk (h : Loaded w n p w₀) :
    Xv6fs.syncDisk w₀.env w₀.disk (w₀.inodes p) = w₀.disk := by
  have hino : (w₀.inodes p).toDinode (slot w₀.env w₀.disk n) = slot w₀.env w₀.disk n := by
    rw [h.inode, h.env, h.disk]
    simp only [World.loadedInode, Inode.toDinode, Inode.ofDinode, Dinode.addr,
      UInt32.ofNat_toNat, UInt16.ofNat_toNat]
  have hno : (w₀.inodes p).ino = n := by
    rw [h.inode]
    rfl
  unfold Xv6fs.syncDisk setSlot
  rw [hno, hino]
  unfold slot
  rw [Block.setDinode_dinode, Function.update_eq_self]

/-- What is synced is what is reloaded, when the blocks of the inode are owned once. -/
theorem sync_reload (hl : Loadable w n) (hA : A n = some (slot w.env w.disk n).addr)
    (ho : Owned w.env w.disk A) : SyncReload w n where
  reload p w₁ w₂ w₃ r w₄ hsync hdrop hget := by
    have hn : InTable w.env n := by
      obtain ⟨w₀, ops, hload, -⟩ := hsync.run
      exact (xv6Iget_spec hload).2.1
    obtain ⟨hnone, hsup, hsame⟩ := hsync.reload hl hn hA ho hdrop
    cases r with
    | error e => exact xv6Iget_error hnone hsup hget
    | ok q =>
      obtain ⟨hview, hnlink⟩ := hsame q w₄ (iget_loaded hnone hget)
      exact ⟨congrArg (·.1) hview.view, congrArg (·.2.1) hview.view, hnlink,
        congrArg (·.2.2) hview.view,
        fun mem len pos r r' w' v' h h' =>
          (fileRead_agree mem len pos _ _ _ _ _ _ hview h h').1.symm,
        fun name r r' w' v' h h' => (findInum_agree name _ _ _ _ _ _ hview h h').1.symm⟩
  slots p w₁ w₂ hsync := by
    have hn : InTable w.env n := by
      obtain ⟨w₀, ops, hload, -⟩ := hsync.run
      exact (xv6Iget_spec hload).2.1
    obtain ⟨w₀, -, -, hno, l, rfl⟩ := hsync.disk hl hA ho
    obtain ⟨hslot, hother⟩ := syncDisk_slots hl hn (d := w₁.disk) hno
    refine ⟨rfl, hother, ?_, ?_, ?_⟩
    · exact (congrArg Dinode.type hslot).trans rfl
    · exact (congrArg Dinode.major hslot).trans rfl
    · exact (congrArg Dinode.minor hslot).trans rfl
  fresh p w₀ w' hload hsync := by
    have hld := hl.loaded hload
    obtain ⟨-, l, dk, rfl, -, hdk⟩ := xv6SyncInode_spec (hld.env ▸ hl.writable) hsync
    exact (hdk rfl).trans hld.syncDisk

end

/-! ## A file that names one block -/

/-- Slot 2 is a file of one block, `b`, which is marked used. -/
def fileOnDisk (b : Nat) : World :=
  { World.blank ⟨64, 0, 32, 0, 1, 1, 4⟩ 6 with
    disk := setSlot (World.blank ⟨64, 0, 32, 0, 1, 1, 4⟩ 6).env
      (markUsed (World.blank ⟨64, 0, 32, 0, 1, 1, 4⟩ 6).env (fun _ => Buf.zero) b) 2
      { Dinode.zero with
        type := T_FILE
        nlink := 1
        size := 1024
        addrs := fun i => if i = 0 then UInt32.ofNat b else 0 } }

theorem fileOnDisk_loadable (b : Nat) : Loadable (fileOnDisk b) 2 where
  sound := show FsInfo.Sound ⟨64, 0, 32, 0, 1, 1, 4⟩ from ⟨by decide, by decide⟩
  table := by
    show 1 + INODE_BLOCKS 32 ≤ 4
    decide
  hint := show HintOk (World.blank ⟨64, 0, 32, 0, 1, 1, 4⟩ 6).env 6 from ⟨by decide, by decide⟩
  writable := rfl
  supported := by
    refine .inr (.inl ?_)
    exact congrArg Dinode.type slot_setSlot_self
  core q hq := absurd hq List.not_mem_nil

/-- A file that names the block of its own slot is written, and is a directory when it is loaded
    again. -/
theorem reload_other_kind : ¬ ∀ w n, Loadable w n → SyncReload w n := by
  intro h
  have hload := returns_after (m := xv6Iget 2) (w := fileOnDisk 1) (a := .ok 0) (by decide +kernel)
  let w₀ := (fileOnDisk 1).after (xv6Iget 2)
  have hwrite := returns_after (m := xv6FileWrite 0 false (fun _ => some 1) 1 128) (w := w₀)
    (a := (1, 129)) (by decide +kernel)
  let w₁ := w₀.after (xv6FileWrite 0 false (fun _ => some 1) 1 128)
  have hsync := returns_after (m := xv6SyncInode 0) (w := w₁) (a := 0) (by decide +kernel)
  let w₂ := w₁.after (xv6SyncInode 0)
  have hdrop := returns_after (m := evict 0) (w := w₂) (a := ()) (by decide +kernel)
  let w₃ := w₂.after (evict 0)
  have hget := returns_after (m := xv6Iget 2) (w := w₃) (a := .ok 1) (by decide +kernel)
  have hrun : Steps (FileStep 0) w₀ [.write false (fun _ => some 1) 1 128] w₁ :=
    .single (.write (by decide) (by decide) (.inl rfl) hwrite)
  have hsame := (h _ _ (fileOnDisk_loadable 1)).reload _ _ _ _ _ _ ⟨⟨w₀, _, hload, hrun⟩, hsync⟩
    hdrop hget
  have hkind : ((w₃.after (xv6Iget 2)).inodes 1).fmt ≠ (w₂.inodes 0).fmt := by decide +kernel
  exact hkind hsame.fmt

/-- A file with a block of its own, which can be written. -/
theorem file_reload : SyncReload (fileOnDisk 20) 2 ∧
    ∃ w₁ w₂, WrittenBack (fileOnDisk 20) 2 0 w₁ w₂ ∧ (w₁.inodes 0).size = 1025 := by
  have haddr : (slot (fileOnDisk 20).env (fileOnDisk 20).disk 2).addr = oneBlock 20 := by
    refine (congrArg Dinode.addr slot_setSlot_self).trans (funext fun i => ?_)
    by_cases h0 : i = 0
    · simp only [Dinode.addr, oneBlock, if_pos h0]
      rfl
    · simp only [Dinode.addr, oneBlock, if_neg h0]
      rfl
  have howned : Owned (fileOnDisk 20).env (fileOnDisk 20).disk (oneFile 2 20) :=
    exclusive_oneFile _ ⟨by decide, by decide +kernel⟩
  have hload := returns_after (m := xv6Iget 2) (w := fileOnDisk 20) (a := .ok 0)
    (by decide +kernel)
  let w₀ := (fileOnDisk 20).after (xv6Iget 2)
  have hwrite := returns_after (m := xv6FileWrite 0 true (fun _ => some 9) 1 0) (w := w₀)
    (a := (1, 1025)) (by decide +kernel)
  let w₁ := w₀.after (xv6FileWrite 0 true (fun _ => some 9) 1 0)
  have hsync := returns_after (m := xv6SyncInode 0) (w := w₁) (a := 0) (by decide +kernel)
  have hend : writeStart w₀ 0 true 0 + 1 ≤ MAXFILE * BSIZE := by decide +kernel
  have hrun : Steps (FileStep 0) w₀ [.write true (fun _ => some 9) 1 0] w₁ :=
    .single (.write hend (by decide) (.inl rfl) hwrite)
  exact ⟨sync_reload (A := oneFile 2 20) (fileOnDisk_loadable 20) (by rw [haddr]; rfl) howned,
    w₁, _, ⟨⟨w₀, _, hload, hrun⟩, hsync⟩, by decide +kernel⟩

end Xv6fs
