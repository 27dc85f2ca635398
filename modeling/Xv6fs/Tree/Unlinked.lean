/-
  A file that is unlinked while it is open.

  xv6_unlink clears the slot of the inode with the last link, and xv6_create can give it to another
  inode. The handle stays usable: xv6_file_flush writes the old inode to the slot by its number, and
  xv6_file_write allocates blocks that xv6_evict_inode does not free. As long as the old inode is
  not flushed after the slot has been given away, and no write finds a block, it damages nothing
  (`unlinked_undamaged`); otherwise the flush overwrites the new inode (`flush_overwrites`).
-/
import Xv6fs.Lib.Steps
import Xv6fs.Inode.Slot
import Xv6fs.Inode.Iget
import Xv6fs.Inode.Create
import Xv6fs.File.Access
import Mathlib.Data.Fintype.Basic

namespace Xv6fs

open Prog (Keeps)

/-! ## The system -/

/-- Calls that are given in-core inodes and neither make nor drop one. -/
inductive InodeCall where
  | read (q : Ptr) (mem : UserMem) (len pos : Nat)
  | write (q : Ptr) (append : Bool) (buf : UserBuf) (len pos : Nat)
  | flush (q : Ptr)
  | find (dir : Ptr) (name : FileName)
  | link (q dir : Ptr) (name : FileName)
  | unlink (dir q : Ptr) (name : FileName)
  | rename (olddir q : Ptr) (oldname : FileName) (newdir : Ptr) (newname : FileName)
      (badFlags : Bool)
  | rmdir (dir q : Ptr) (name : FileName)

namespace InodeCall

/-- The inodes a call is given. -/
def inodes : InodeCall → List Ptr
  | read q _ _ _ => [q]
  | write q _ _ _ _ => [q]
  | flush q => [q]
  | find dir _ => [dir]
  | link q dir _ => [q, dir]
  | unlink dir q _ => [dir, q]
  | rename olddir q _ newdir _ _ => [olddir, q, newdir]
  | rmdir dir q _ => [dir, q]

def run : InodeCall → Fs Unit
  | read q mem len pos => do let _ ← xv6FileRead q mem len pos
  | write q append buf len pos => do let _ ← xv6FileWrite q append buf len pos
  | flush q => do let _ ← xv6FileFlush q
  | find dir name => do let _ ← xv6FindInum dir name
  | link q dir name => do let _ ← xv6Link q dir name
  | unlink dir q name => do let _ ← xv6Unlink dir q name
  | rename olddir q oldname newdir newname badFlags => do
    let _ ← xv6Rename olddir q oldname newdir newname badFlags
  | rmdir dir q name => do let _ ← xv6Rmdir dir q name

end InodeCall

deriving instance DecidableEq for Dinode

/-- The state of a run that goes on after inode `p` has lost the slot `n`.

    `given` tells whether the slot has been given to another inode. `synced` is an inode of this
    number as it was last written to the slot, as long as no call for another inode than `p` has
    changed the slot since. `attached` holds of the blocks that `p` has come to name. -/
structure OpenState where
  world : World
  given : Bool
  synced : Option Inode
  attached : Nat → Prop
  evicted : Bool

inductive OpenLabel where
  | create (dir : Ptr) (name : FileName) (isdir : Bool)
  | iget (m : Nat)
  | call (c : InodeCall)
  | sync (q : Ptr)
  | drop (q : Ptr)
  | write (append : Bool) (buf : UserBuf) (len pos : Nat)
  | flush
  | evict

namespace OpenState

def init (w : World) : OpenState := ⟨w, false, none, fun _ => False, false⟩

/-- After a call for another inode. -/
def other (s : OpenState) (n : Nat) (w : World) : OpenState :=
  { s with
    world := w
    synced := if slot w.env w.disk n = slot s.world.env s.world.disk n then s.synced else none }

/-- After a creation. -/
def create (s : OpenState) (n : Nat) (w : World) : Option Ptr → OpenState
  | some q => { s.other n w with given := s.given || (w.inodes q).ino = n }
  | none => s.other n w

/-- After a write through the handle. -/
def write (s : OpenState) (p : Ptr) (w : World) : OpenState :=
  { s with
    world := w
    attached := fun b => s.attached b ∨ ∃ r, ownedAt w.disk (w.addrs p) r = some b }

end OpenState

/-- The steps for inode `p` are those through its handle, and its eviction when the handle is
    closed. -/
inductive OpenStep (p : Ptr) (n : Nat) : OpenState → OpenLabel → OpenState → Prop where
  | create {s : OpenState} {dir : Ptr} {name : FileName} {isdir : Bool} {r : Int × Option Ptr}
      {w : World} (hdir : dir ≠ p) (hlt : dir < s.world.next)
      (h : Returns (xv6Create dir name isdir) s.world r w) :
      OpenStep p n s (.create dir name isdir) (s.create n w r.2)
  | iget {s : OpenState} {m : Nat} {r : Except Int Ptr} {w : World}
      (h : Returns (xv6Iget m) s.world r w) : OpenStep p n s (.iget m) (s.other n w)
  | call {s : OpenState} {c : InodeCall} {w : World} (hc : p ∉ c.inodes)
      (h : Returns c.run s.world () w) : OpenStep p n s (.call c) (s.other n w)
  | sync {s : OpenState} {q : Ptr} {w : World} (hq : q ≠ p) (hn : (s.world.inodes q).ino = n)
      (hgiven : s.given = true) (hrw : s.world.env.rdonly = false)
      (h : Returns (xv6FileFlush q) s.world 0 w) :
      OpenStep p n s (.sync q) { s with world := w, synced := some (s.world.inodes q) }
  | drop {s : OpenState} {q : Ptr} {w : World} (hq : q ≠ p)
      (h : Returns (Xv6fs.evict q) s.world () w) : OpenStep p n s (.drop q) (s.other n w)
  | write {s : OpenState} {append : Bool} {buf : UserBuf} {len pos : Nat} {r : Int × Nat}
      {w : World} (hopen : s.evicted = false)
      (h : Returns (xv6FileWrite p append buf len pos) s.world r w) :
      OpenStep p n s (.write append buf len pos) (s.write p w)
  | flush {s : OpenState} {e : Int} {w : World} (hopen : s.evicted = false)
      (h : Returns (xv6FileFlush p) s.world e w) : OpenStep p n s .flush { s with world := w }
  | evict {s : OpenState} {w : World} (hopen : s.evicted = false)
      (h : Returns (Xv6fs.evict p) s.world () w) :
      OpenStep p n s .evict { s with world := w, evicted := true }

def OpenLabel.OnBehalf : OpenLabel → Prop
  | .write _ _ _ _ => True
  | .flush => True
  | .evict => True
  | _ => False

/-- A step for `p` leaves the slot alone when it has been given away. -/
def SlotKept (n : Nat) (s : OpenState) (a : OpenLabel) (t : OpenState) : Prop :=
  a.OnBehalf → s.given = true →
    slot t.world.env t.world.disk n = slot s.world.env s.world.disk n

/-- An inode that has been written to the slot is loaded as it was. When `p` has been evicted the
    blocks it had come to name are free. -/
structure Undamaged (n : Nat) (s : OpenState) : Prop where
  reload : ∀ ino q w, s.synced = some ino → ino.Fits → q ∉ s.world.tree →
    Returns (xv6Iget n) s.world (.ok q) w →
    (w.inodes q).size = ino.size ∧ (w.inodes q).nlink = ino.nlink ∧
      ∀ addrs, ino.priv = some addrs → (w.inodes q).priv = some addrs
  freed : s.evicted = true → ∀ b, s.attached b → bitSet s.world.env s.world.disk b = false

/-- The allocator has no block. -/
def NoBlock (w : World) : Prop := ∀ e b w', Returns (xv6Balloc 0) w (e, b) w' → b = 0

/-- `xv6_sync_inode` reads its block, and the write reaches the device. -/
def SyncWrites (w : World) : Prop :=
  w.env.rdonly = false ∧ w.env.io w.log.length = .ok ∧ w.env.io (w.log.length + 1) ≠ .lost

/-- No flush through the handle writes the slot when it has been given away, and a write through the
    handle writes nothing, begins at a block no file has, or finds no free block. -/
def LateOk (p : Ptr) (s : OpenState) : OpenLabel → Prop
  | .flush => s.given = true → ¬ SyncWrites s.world
  | .write append _ len pos => len = 0 ∨
      MAXFILE ≤ (if append then (s.world.inodes p).size else pos) / BSIZE % 2 ^ 32 ∨
      NoBlock s.world
  | _ => True

/-- `xv6_unlink` drops the last link of the in-core inode `p` of number `n`. -/
structure UnlinkedOpen (w : World) (dir p : Ptr) (name : FileName) (n : Nat) (w' : World) :
    Prop where
  sound : w.env.info.Sound
  table : w.env.info.TableOk
  hint : HintOk w.env w.hint
  slot : InTable w.env n
  num : (w.inodes p).ino = n
  cached : (w.inodes p).priv ≠ none
  last : (w.inodes p).nlink = 1
  core : p < w.next
  below : ∀ q, q ∈ w.tree → q < w.next
  unlink : Returns (xv6Unlink dir p name) w 0 w'

/-! ## The unlinked inode -/

/-- The addresses of a file without blocks. -/
def noBlocks : Addrs := fun _ => 0

theorem noBlocks_ownedAt (d : Disk) (r : Role) : ownedAt d noBlocks r = none := by
  cases r with
  | direct i => exact ite_self _
  | indirect => rfl
  | entry j => exact if_neg fun h => h.2 rfl

section

variable {φ : Event → Prop} {w w' : World} {p : Ptr} {e : Int}

theorem clearDirect_zero : ∀ {n i : Nat} {addrs addrs' : Addrs} {w : World}, i + n ≤ 13 →
    (∀ k, k < i → addrs.get k = 0) → Runs φ (xv6InodeClear.direct n i addrs) w addrs' w' →
    ∀ k, k < i + n → addrs'.get k = 0
  | 0, _, _, _, _, _, hzero, h => by
    obtain ⟨rfl, -⟩ := h.pure
    exact hzero
  | n + 1, i, addrs, _, _, hle, hzero, h => by
    have hnext : i + (n + 1) = i + 1 + n := by omega
    rw [hnext]
    rcases h.ite with ⟨-, hrun⟩ | ⟨h0, hrun⟩
    · obtain ⟨_, w₁, -, hrest⟩ := hrun.bind
      refine clearDirect_zero (by omega) (fun k hk => ?_) hrest
      rcases Nat.lt_succ_iff_lt_or_eq.mp hk with hlt | rfl
      · rw [addrs.get_set_ne (by omega) (by omega) hlt.ne]
        exact hzero k hlt
      · exact addrs.get_set_self
    · refine clearDirect_zero (by omega) (fun k hk => ?_) hrun
      rcases Nat.lt_succ_iff_lt_or_eq.mp hk with hlt | rfl
      · exact hzero k hlt
      · exact not_not.mp h0

theorem eq_noBlocks {addrs : Addrs} (h : ∀ k, k < NDIRECT → addrs.get k = 0) :
    addrs.set NDIRECT 0 = noBlocks := by
  funext i
  have hi : i = Fin.ofNat 13 i.val := by
    rw [Fin.ext_iff, Fin.val_ofNat, Nat.mod_eq_of_lt i.isLt]
  have hget : ∀ a : Addrs, a i = a.get i.val := fun a => congrArg a hi
  refine (hget _).trans ?_
  by_cases hlast : i.val = NDIRECT
  · rw [hlast]
    exact addrs.get_set_self
  · have hlt : i.val < NDIRECT := by
      have hmax := i.isLt
      simp only [NDIRECT] at hlast ⊢
      omega
    rw [addrs.get_set_ne (by decide) i.isLt hlast]
    exact h _ hlt

theorem clearFinish_priv {addrs : Addrs} (hcached : (w.inodes p).priv ≠ none)
    (hzero : ∀ k, k < NDIRECT → addrs.get k = 0)
    (h : Runs φ (xv6InodeClear.finish p addrs) w e w') : (w'.inodes p).priv = some noBlocks := by
  obtain ⟨old, hold⟩ := Option.ne_none_iff_exists'.mp hcached
  simp only [xv6InodeClear.finish, InodeCtx.writeBack, markInodeDirty, runs_bind_modifyInode,
    runs_bind_getInode, Function.update_self, Function.update_idem, hold, Option.map_some] at h
  have hs : SameNodes (fun _ => False) _ w' := keeps_syncInode.via h
  rw [hs.other p not_false, eq_noBlocks hzero]
  exact (congrArg Inode.priv (Function.update_self p _ w.inodes)).trans rfl

theorem xv6InodeClear_priv (hcached : (w.inodes p).priv ≠ none)
    (h : Runs φ (xv6InodeClear p) w 0 w') : (w'.inodes p).priv = some noBlocks := by
  obtain ⟨⟨e₁, ictx⟩, w₁, hinit, hrest⟩ := h.bind
  have hs₁ : SameNodes (fun _ => False) w w₁ := keeps_initIctx.via hinit
  rcases hrest.ite with ⟨hne, hend⟩ | ⟨-, hend⟩
  · exact absurd hend.pure.1 hne
  obtain ⟨addrs, w₂, hdirect, hrest⟩ := hend.bind
  have hs₂ : SameNodes (fun _ => False) w₁ w₂ := (keeps_inodeClear_direct _ _ _).via hdirect
  have hzero : ∀ k, k < NDIRECT → addrs.get k = 0 := by
    have hall := clearDirect_zero (by decide) (fun k hk => absurd hk (Nat.not_lt_zero k)) hdirect
    simpa using hall
  have hcached₂ : (w₂.inodes p).priv ≠ none := by
    rw [hs₂.other p not_false, hs₁.other p not_false]
    exact hcached
  simp only [InodeCtx.writeBack, runs_bind_modifyInode] at hrest
  -- the inode stays cached while the indirect block is read and freed
  have hmap : ∀ w₃ : World, SameNodes (fun _ => False)
      { w₂ with
        inodes := Function.update w₂.inodes p
          { w₂.inodes p with priv := (w₂.inodes p).priv.map fun _ => addrs } } w₃ →
      (w₃.inodes p).priv ≠ none := by
    intro w₃ hs
    have hp := hs.other p not_false
    rw [hp]
    simp only [Function.update_self, ne_eq, Option.map_eq_none_iff]
    exact hcached₂
  rcases hrest.ite with ⟨-, hrun⟩ | ⟨-, hend⟩
  · obtain ⟨ok, w₃, hread, hrest⟩ := hrun.bind
    rcases hrest.ite with ⟨-, hend⟩ | ⟨-, hend⟩
    · exact absurd hend.pure.1 (by decide)
    · obtain ⟨u, w₄, hentries, hrest⟩ := hend.bind
      obtain ⟨e₂, w₅, hfree, hlast⟩ := hrest.bind
      refine clearFinish_priv (hmap w₅ ?_) hzero hlast
      exact trans_of _ (trans_of _ ((keeps_sbBread _).via hread)
        ((keeps_inodeClear_entries _ _ _).via hentries)) ((keeps_bfree _).via hfree)
  · exact clearFinish_priv (hmap _ (refl_of _ _)) hzero hend

/-- An inode without links has no blocks. -/
theorem UnlinkedOpen.priv {dir : Ptr} {name : FileName} {n : Nat}
    (h : UnlinkedOpen w dir p name n w') : (w'.inodes p).priv = some noBlocks := by
  have hrun := h.unlink
  simp only [xv6Unlink, runs_bind_getInode] at hrun
  obtain ⟨u, w₁, hdec, hrun⟩ := hrun.bind
  obtain rfl := (runs_decLinkCount u).mp hdec
  simp only [runs_bind_getInode, World.setInode_self] at hrun
  rcases hrun.ite with ⟨hne, -⟩ | ⟨-, hrun⟩
  · exact absurd (by rw [h.last]; decide) hne
  simp only [runs_bind_assert] at hrun
  obtain ⟨-, hrun⟩ := hrun
  rcases hrun.ite with ⟨-, hend⟩ | ⟨-, hrun⟩
  · exact absurd hend.pure.1 (by decide)
  simp only [runs_bind_getInode] at hrun
  rcases hrun.ite with ⟨-, hend⟩ | ⟨hdir, hrun⟩
  · exact absurd hend.pure.1 (by decide)
  have hne : p ≠ dir := by
    rintro rfl
    exact hdir (by rw [World.setInode_self])
  obtain ⟨e, w₁, hclear, hrest⟩ := hrun.bind
  rcases hrest.ite with ⟨he, hend⟩ | ⟨he, hend⟩
  · exact absurd hend.pure.1 he
  obtain rfl := not_not.mp he
  have hpriv : (w₁.inodes p).priv = some noBlocks := by
    refine xv6InodeClear_priv ?_ hclear
    rw [World.setInode_self]
    exact h.cached
  obtain ⟨e₁, w₂, herase, hlast⟩ := hend.bind
  have hs : SameNodes (· = dir) w₁ w₂ := (keeps_dirErase (P := (· = dir)) rfl name).via herase
  have hs' : SameNodes (· = dir) w₂ w' := (keeps_ifree _).via hlast
  rw [hs'.other p hne, hs.other p hne]
  exact hpriv

/-! ## Late writes and flushes -/

/-- No block is found for an inode without blocks. -/
theorem inodeAddr_noBlocks {i b : Nat} {ctx ctx' : InodeCtx} (hg : w.env.info.Sound)
    (hh : HintOk w.env w.hint) (hctx : ctx.addrs = noBlocks) (hno : MAXFILE ≤ i ∨ NoBlock w)
    (h : Runs φ (xv6InodeAddr modcheck ctx i true) w (e, b, ctx') w') :
    e ≠ 0 ∧ ctx'.addrs = noBlocks ∧ SameBefore w.env w.disk w'.disk := by
  rcases h.ite with ⟨-, hend⟩ | ⟨hlt, hrun⟩
  · obtain ⟨heq, rfl⟩ := hend.pure
    cases heq
    exact ⟨by decide, hctx, fun _ _ => rfl⟩
  have hnone := hno.resolve_left (by omega)
  have hget : ∀ k, ctx.addrs.get k = 0 := fun k => by
    rw [hctx]
    rfl
  have hset : ∀ k, ctx.addrs.set k 0 = noBlocks := fun k => by
    rw [← hget k, Addrs.set_get_self, hctx]
  have hbefore : ∀ {e₁ b₁ w₁}, Runs φ (xv6Balloc 0) w (e₁, b₁) w₁ →
      SameBefore w.env w.disk w₁.disk := fun {e₁ b₁ w₁} halloc => by
    cases hro : w.env.rdonly with
    | true =>
      obtain ⟨-, rfl⟩ := xv6Balloc_rdonly hro halloc
      exact fun _ _ => rfl
    | false =>
      obtain ⟨l, d, hint, rfl, -, hb⟩ := xv6Balloc_spec hro hg.size_lt hh.2 halloc
      exact fun x hx => hb.before hg hh hx
  simp only [hget, modcheck, true_and, if_true, Bool.not_true, Bool.false_eq_true, if_false] at hrun
  rcases hrun.ite with ⟨-, hrun⟩ | ⟨-, hrun⟩
  · obtain ⟨⟨e₁, b₁⟩, w₁, halloc, hend⟩ := hrun.bind
    obtain rfl : b₁ = 0 := hnone _ _ _ (Runs.returns halloc)
    obtain ⟨heq, rfl⟩ := hend.pure
    cases heq
    refine ⟨?_, hset i, hbefore halloc⟩
    by_cases he : e₁ = 0
    · simp [he, ENOSPC]
    · simp [he]
  · obtain ⟨⟨e₁, b₁⟩, w₁, halloc, hend⟩ := hrun.bind
    obtain rfl : b₁ = 0 := hnone _ _ _ (Runs.returns halloc)
    rcases hend.ite with ⟨he, hend⟩ | ⟨-, hend⟩
    · obtain ⟨heq, rfl⟩ := hend.pure
      cases heq
      exact ⟨he, hset NDIRECT, hbefore halloc⟩
    · simp only [if_true] at hend
      obtain ⟨heq, rfl⟩ := hend.pure
      cases heq
      exact ⟨by decide, hset NDIRECT, hbefore halloc⟩

theorem inodeWblock_noBlocks {i : Nat} {r : Int × Option Nat} (hg : w.env.info.Sound)
    (hh : HintOk w.env w.hint) (hpriv : (w.inodes p).priv = some noBlocks)
    (hno : MAXFILE ≤ i ∨ NoBlock w) (h : Runs φ (xv6InodeWblock p i) w r w') :
    r.1 ≠ 0 ∧ (w'.inodes p).priv = some noBlocks ∧ SameBefore w.env w.disk w'.disk := by
  obtain ⟨e, bh⟩ := r
  obtain ⟨e₁, b, ctx, w₁, haddr, hends⟩ := inodeWblock_ends hpriv h
  obtain ⟨he, hctx, hbefore⟩ := inodeAddr_noBlocks hg hh rfl hno haddr
  cases hends with
  | failed hne =>
    refine ⟨hne, ?_, hbefore⟩
    rw [World.setMap_inode, hctx]
  | hole => exact absurd rfl he
  | unread => exact absurd rfl he
  | opened => exact absurd rfl he

/-- A late write that finds no block leaves the unlinked inode without blocks, and the inode table
    as it is. -/
theorem xv6FileWrite_noBlocks {append : Bool} {buf : UserBuf} {len pos : Nat} {r : Int × Nat}
    (hg : w.env.info.Sound) (hh : HintOk w.env w.hint)
    (hpriv : (w.inodes p).priv = some noBlocks)
    (hno : len = 0 ∨ MAXFILE ≤ (if append then (w.inodes p).size else pos) / BSIZE % 2 ^ 32 ∨
      NoBlock w)
    (h : Runs φ (xv6FileWrite p append buf len pos) w r w') :
    (w'.inodes p).priv = some noBlocks ∧ SameBefore w.env w.disk w'.disk := by
  simp only [xv6FileWrite, runs_bind_getInode] at h
  obtain ⟨⟨e₁, nwrite, cpos⟩, w₁, hloop, hrest⟩ := h.bind
  simp only [runs_bind_modifyInode] at hrest
  obtain ⟨-, rfl⟩ := hrest.pure
  suffices hw : (w₁.inodes p).priv = some noBlocks ∧ SameBefore w.env w.disk w₁.disk by
    simp only [Function.update_self]
    exact hw
  cases len with
  | zero =>
    obtain ⟨-, rfl⟩ := hloop.pure
    exact ⟨hpriv, fun _ _ => rfl⟩
  | succ rounds =>
    rcases hloop.ite with ⟨h0, -⟩ | ⟨-, hrun⟩
    · exact absurd h0 (Nat.succ_ne_zero _)
    obtain ⟨⟨e₂, bh⟩, w₂, hblock, hrest⟩ := hrun.bind
    obtain ⟨he, hpriv₂, hbefore⟩ := inodeWblock_noBlocks hg hh hpriv
      (hno.resolve_left (Nat.succ_ne_zero _)) hblock
    rcases hrest.ite with ⟨-, hend⟩ | ⟨h0, -⟩
    · obtain ⟨-, rfl⟩ := hend.pure
      exact ⟨hpriv₂, hbefore⟩
    · exact absurd he h0

theorem xv6FileFlush_disk (hno : ¬ SyncWrites w) (h : Runs φ (xv6FileFlush p) w e w') :
    w'.disk = w.disk := by
  simp only [xv6FileFlush, xv6WriteInode, xv6SyncInode, runs_bind_getEnv] at h
  rcases h.ite with ⟨-, hend⟩ | ⟨hrw, hrun⟩
  · obtain ⟨-, rfl⟩ := hend.pure
    rfl
  simp only [runs_bind_getInode, runs_bind_assert] at hrun
  obtain ⟨-, hrun⟩ := hrun
  obtain ⟨ok, w₁, hread, hrest⟩ := hrun.bind
  obtain ⟨-, rfl, rfl⟩ := (runs_sbBread _ _ _ _).mp hread
  rcases hrest.ite with ⟨-, hend⟩ | ⟨hok, hend⟩
  · obtain ⟨-, rfl⟩ := hend.pure
    rfl
  · simp only [runs_bind_bdata] at hend
    obtain ⟨-, -, rfl⟩ := (runs_syncBuffer _ _ _ _ _).mp hend
    have hlost : w.env.io (w.log.length + 1) = .lost := by
      by_contra hne
      exact hno ⟨by simpa using hrw, by simpa using hok, hne⟩
    exact if_pos hlost

end

/-! ## The invariant -/

/-- What a call for another inode leaves of inode `p`. -/
structure LeavesOpen (p : Ptr) (w w' : World) : Prop where
  env : w'.env = w.env
  num : (w'.inodes p).ino = (w.inodes p).ino
  priv : (w'.inodes p).priv = (w.inodes p).priv
  next : w.next ≤ w'.next
  below : (∀ q, q ∈ w.tree → q < w.next) → ∀ q, q ∈ w'.tree → q < w'.next
  hint : w.env.info.Sound → HintOk w.env w.hint → HintOk w.env w'.hint

section

variable {φ : Event → Prop} {w w' : World} {p : Ptr}

theorem SameNodes.leavesOpen (h : SameNodes (· ≠ p) w w') : LeavesOpen p w w' := by
  have hp : w'.inodes p = w.inodes p := h.other p (not_not.mpr rfl)
  refine ⟨h.env, congrArg Inode.ino hp, congrArg Inode.priv hp, h.next.ge, fun hb q hq => ?_,
    h.hint⟩
  rw [h.tree] at hq
  exact lt_of_lt_of_eq (hb q hq) h.next.symm

/-- A new in-core inode has been made, and entered into the tree or not. -/
theorem OtherNodes.leavesOpen {dir : Ptr} (hlt : p < w.next) (hdir : p ≠ dir)
    (h : OtherNodes dir w.next w w') (hnext : w'.next = w.next + 1)
    (htree : w'.tree = w.tree ∨ w'.tree = w.next :: w.tree) : LeavesOpen p w w' := by
  have hp : w'.inodes p = w.inodes p := h.other p hlt.ne hdir
  refine ⟨h.env, congrArg Inode.ino hp, congrArg Inode.priv hp, hnext ▸ Nat.le_succ _,
    fun hb q hq => ?_, h.hint⟩
  rw [hnext]
  rcases htree with htree | htree
  · exact Nat.lt_succ_of_lt (hb q (htree ▸ hq))
  · rcases List.mem_cons.mp (htree ▸ hq) with rfl | hq
    · exact Nat.lt_succ_self _
    · exact Nat.lt_succ_of_lt (hb q hq)

theorem Created.leavesOpen {dir : Ptr} {isdir : Bool} {r : Int × Option Ptr} (hlt : p < w.next)
    (hdir : p ≠ dir) (h : Created w dir isdir r w') : LeavesOpen p w w' := by
  cases h with
  | refused => exact ⟨rfl, rfl, rfl, le_rfl, fun hb => hb, fun _ hh => hh⟩
  | dropped _ ho htree hnext => exact ho.leavesOpen hlt hdir hnext (.inl htree)
  | kept _ ho htree hnext => exact ho.leavesOpen hlt hdir hnext (.inl htree)
  | made ho htree hnext => exact ho.leavesOpen hlt hdir hnext (.inr htree)

theorem Igot.leavesOpen {m : Nat} {r : Except Int Ptr} (hlt : p < w.next) (h : Igot w m r w') :
    LeavesOpen p w w' := by
  have hnew : ∀ ino : Inode, Function.update w.inodes w.next ino p = w.inodes p := fun ino =>
    Function.update_of_ne hlt.ne ino w.inodes
  cases h with
  | @found q _ _ =>
    have hq : ∀ {α : Type} (f : Inode → α),
        f { w.inodes q with refcount := (w.inodes q).refcount + 1 } = f (w.inodes q) →
        f (Function.update w.inodes q
          { w.inodes q with refcount := (w.inodes q).refcount + 1 } p) = f (w.inodes p) := by
      intro α f hf
      by_cases hpq : p = q
      · rw [hpq, Function.update_self, hf]
      · rw [Function.update_of_ne hpq]
    exact ⟨rfl, hq Inode.ino rfl, hq Inode.priv rfl, le_rfl, fun hb => hb, fun _ hh => hh⟩
  | nomem => exact ⟨rfl, rfl, rfl, le_rfl, fun hb => hb, fun _ hh => hh⟩
  | failed =>
    exact ⟨rfl, congrArg Inode.ino (hnew _), congrArg Inode.priv (hnew _), Nat.le_succ _,
      fun hb q hq => Nat.lt_succ_of_lt (hb q hq), fun _ hh => hh⟩
  | loaded =>
    refine ⟨rfl, congrArg Inode.ino (hnew _), congrArg Inode.priv (hnew _), Nat.le_succ _,
      fun hb q hq => ?_, fun _ hh => hh⟩
    rcases List.mem_cons.mp hq with rfl | hq
    · exact Nat.lt_succ_self _
    · exact Nat.lt_succ_of_lt (hb q hq)

theorem evict_leavesOpen {q : Ptr} (hq : q ≠ p) (h : Runs φ (evict q) w () w') :
    LeavesOpen p w w' := by
  obtain rfl := evict_spec h
  have hp : ∀ ino : Inode, Function.update w.inodes q ino p = w.inodes p := fun ino =>
    Function.update_of_ne hq.symm ino w.inodes
  refine ⟨rfl, congrArg Inode.ino (hp _), congrArg Inode.priv (hp _), le_rfl, fun hb x hx => ?_,
    fun _ hh => hh⟩
  dsimp only at hx
  split at hx
  · exact hb x (List.mem_of_mem_erase hx)
  · exact hb x hx

theorem InodeCall.leavesOpen {c : InodeCall} (hc : p ∉ c.inodes) (h : Runs φ c.run w () w') :
    LeavesOpen p w w' := by
  have hdrop : ∀ {α : Type} {m : Fs α}, Keeps (SameNodes (· ≠ p)) m →
      Runs φ (do let _ ← m) w () w' → SameNodes (· ≠ p) w w' := fun hm hrun =>
    (Keeps.bind hm fun _ => .pure _).via hrun
  have hfirst : ∀ {q : Ptr} {l : List Ptr}, p ∉ q :: l → q ≠ p := fun hl heq =>
    hl (heq ▸ List.mem_cons_self)
  have hrest : ∀ {q : Ptr} {l : List Ptr}, p ∉ q :: l → p ∉ l := fun hl hmem =>
    hl (List.mem_cons_of_mem _ hmem)
  refine SameNodes.leavesOpen ?_
  cases c with
  | read q mem len pos => exact hdrop (keeps_fileRead (P := (· ≠ p)) (hfirst hc) mem len pos) h
  | write q append buf len pos =>
    exact hdrop (keeps_fileWrite (P := (· ≠ p)) (hfirst hc) append buf len pos) h
  | flush q => exact hdrop (m := xv6FileFlush q) keeps_syncInode h
  | find dir name => exact hdrop (keeps_findInum (P := (· ≠ p)) (hfirst hc) name) h
  | link q dir name =>
    exact hdrop (keeps_link (P := (· ≠ p)) (hfirst hc) (hfirst (hrest hc)) name) h
  | unlink dir q name =>
    exact hdrop (keeps_unlink (P := (· ≠ p)) (hfirst (hrest hc)) (hfirst hc) name) h
  | rename olddir q oldname newdir newname badFlags =>
    exact hdrop (keeps_rename (P := (· ≠ p)) (hfirst hc) (hfirst (hrest (hrest hc))) oldname newname
      badFlags) h
  | rmdir dir q name =>
    exact hdrop (keeps_rmdir (P := (· ≠ p)) (hfirst (hrest hc)) (hfirst hc) name) h

end

/-- As long as the handle is open, `p` has no blocks. The slot holds what was last written to it for
    an inode of its number. -/
structure OpenInv (p : Ptr) (n : Nat) (s : OpenState) : Prop where
  sound : s.world.env.info.Sound
  table : s.world.env.info.TableOk
  hint : HintOk s.world.env s.world.hint
  slot : InTable s.world.env n
  core : p < s.world.next
  below : ∀ q, q ∈ s.world.tree → q < s.world.next
  num : (s.world.inodes p).ino = n
  priv : s.evicted = false → (s.world.inodes p).priv = some noBlocks
  attached : ∀ b, ¬ s.attached b
  given : s.given = false → s.synced = none
  synced : ∀ ino, s.synced = some ino →
    ∃ old, Xv6fs.slot s.world.env s.world.disk n = ino.toDinode old

section

variable {w w' : World} {p dir : Ptr} {name : FileName} {n : Nat} {s t : OpenState} {a : OpenLabel}
  {as : List OpenLabel}

theorem UnlinkedOpen.inv (h : UnlinkedOpen w dir p name n w') : OpenInv p n (.init w') := by
  have hs : SameNodes (fun _ => True) w w' := (keeps_unlink trivial trivial name).via h.unlink
  refine ⟨?_, ?_, ?_, ?_, ?_, fun q hq => ?_, ?_, fun _ => h.priv, fun _ => not_false, fun _ => rfl,
    fun ino hsync => by cases hsync⟩
  · exact hs.env.symm ▸ h.sound
  · exact hs.env.symm ▸ h.table
  · exact hs.env.symm ▸ hs.hint h.sound h.hint
  · exact hs.env.symm ▸ h.slot
  · exact lt_of_lt_of_eq h.core hs.next.symm
  · exact lt_of_lt_of_eq (h.below q (hs.tree ▸ hq)) hs.next.symm
  · exact (hs.ino p).trans h.num

namespace OpenInv

theorem other (hi : OpenInv p n s) (h : LeavesOpen p s.world w) : OpenInv p n (s.other n w) where
  sound := h.env.symm ▸ hi.sound
  table := h.env.symm ▸ hi.table
  hint := h.env.symm ▸ h.hint hi.sound hi.hint
  slot := h.env.symm ▸ hi.slot
  core := lt_of_lt_of_le hi.core h.next
  below := h.below hi.below
  num := h.num.trans hi.num
  priv he := h.priv.trans (hi.priv he)
  attached := hi.attached
  given hg := by
    have hnone := hi.given hg
    unfold OpenState.other
    split
    · exact hnone
    · rfl
  synced ino hsync := by
    simp only [OpenState.other] at hsync ⊢
    split at hsync
    · next hslot =>
      rw [hslot]
      exact hi.synced ino hsync
    · cases hsync

theorem create (hi : OpenInv p n s) (h : LeavesOpen p s.world w) (r : Option Ptr) :
    OpenInv p n (s.create n w r) := by
  have hi' := hi.other h
  cases r with
  | none => exact hi'
  | some q =>
    refine { hi' with given := fun hg => ?_ }
    exact hi'.given (Bool.or_eq_false_iff.mp hg).1

/-- A step for `p` itself. The blocks it names and the slot have to be looked at. -/
theorem onBehalf (hi : OpenInv p n s) {P : Ptr → Prop} (hs : SameNodes P s.world w)
    (hpriv : s.evicted = false → (w.inodes p).priv = some noBlocks)
    (hslot : s.given = true →
      Xv6fs.slot w.env w.disk n = Xv6fs.slot s.world.env s.world.disk n) :
    OpenInv p n { s with world := w } where
  sound := hs.env.symm ▸ hi.sound
  table := hs.env.symm ▸ hi.table
  hint := hs.env.symm ▸ hs.hint hi.sound hi.hint
  slot := hs.env.symm ▸ hi.slot
  core := lt_of_lt_of_eq hi.core hs.next.symm
  below q hq := lt_of_lt_of_eq (hi.below q (hs.tree ▸ hq)) hs.next.symm
  num := (hs.ino p).trans hi.num
  priv := hpriv
  attached := hi.attached
  given := hi.given
  synced ino hsync := by
    have hgiven : s.given = true := by
      by_contra hne
      have hnone := hi.given (by simpa using hne)
      rw [hnone] at hsync
      cases hsync
    rw [hslot hgiven]
    exact hi.synced ino hsync

/-- One step keeps the invariant, and one for `p` leaves the slot alone when it has been given
    away. -/
theorem step (hi : OpenInv p n s) (hg : LateOk p s a) (h : OpenStep p n s a t) :
    OpenInv p n t ∧ SlotKept n s a t := by
  cases h with
  | create hdir hlt h =>
    have hnew : s.world.next ∉ s.world.tree := fun hmem => Nat.lt_irrefl _ (hi.below _ hmem)
    exact ⟨hi.create ((xv6Create_spec hlt hnew h).leavesOpen hi.core hdir.symm) _,
      fun hb => hb.elim⟩
  | iget h => exact ⟨hi.other ((xv6Iget_spec h).2.2.leavesOpen hi.core), fun hb => hb.elim⟩
  | call hc h => exact ⟨hi.other (InodeCall.leavesOpen hc h), fun hb => hb.elim⟩
  | drop hq h => exact ⟨hi.other (evict_leavesOpen hq h), fun hb => hb.elim⟩
  | @sync q w hq hn hgiven hrw h =>
    have hs : SameNodes (· ≠ p) s.world w := keeps_syncInode.via h
    have hl := hi.other hs.leavesOpen
    refine ⟨{ hl with given := fun h0 => ?_, synced := fun ino hsync => ?_ }, fun hb => hb.elim⟩
    · rw [hgiven] at h0
      cases h0
    · obtain rfl := Option.some.inj hsync
      obtain ⟨-, l, dk, rfl, -, hdk⟩ := xv6SyncInode_spec hrw h
      refine ⟨Xv6fs.slot s.world.env s.world.disk n, ?_⟩
      show Xv6fs.slot s.world.env dk n = _
      rw [hdk rfl, ← hn]
      exact slot_syncDisk _
  | @write append buf len pos r w hopen h =>
    have hs : SameNodes (· = p) s.world w := (keeps_fileWrite (P := (· = p)) rfl _ _ _ _).via h
    obtain ⟨hpriv, hbefore⟩ := xv6FileWrite_noBlocks hi.sound hi.hint (hi.priv hopen) hg h
    have hslot : Xv6fs.slot w.env w.disk n = Xv6fs.slot s.world.env s.world.disk n := by
      rw [hs.env]
      exact hbefore.slot hi.sound hi.table hi.slot
    refine ⟨{ hi.onBehalf hs (fun _ => hpriv) (fun _ => hslot) with attached := ?_ },
      fun _ _ => hslot⟩
    rintro b (hb | ⟨r, hr⟩)
    · exact hi.attached b hb
    · rw [World.addrs_of_priv hpriv, noBlocks_ownedAt] at hr
      cases hr
  | @flush e w hopen h =>
    have hs : SameNodes (fun _ => False) s.world w := keeps_syncInode.via h
    have hslot : s.given = true →
        Xv6fs.slot w.env w.disk n = Xv6fs.slot s.world.env s.world.disk n := fun hgiven => by
      rw [hs.env, xv6FileFlush_disk (hg hgiven) h]
    refine ⟨hi.onBehalf hs (fun _ => ?_) hslot, fun _ => hslot⟩
    rw [hs.other p not_false]
    exact hi.priv hopen
  | @evict w hopen h =>
    obtain rfl := evict_spec h
    refine ⟨{ hi with below := fun q hq => ?_, num := ?_, priv := fun he => by cases he },
      fun _ _ => rfl⟩
    · dsimp only at hq
      split at hq
      · exact hi.below q (List.mem_of_mem_erase hq)
      · exact hi.below q hq
    · exact (congrArg Inode.ino (Function.update_self p _ s.world.inodes)).trans hi.num

theorem undamaged (hi : OpenInv p n s) : Undamaged n s where
  reload ino q w hsync hfits hq h := by
    obtain ⟨old, hold⟩ := hi.synced ino hsync
    cases (xv6Iget_spec h).2.2 with
    | found hmem => exact absurd hmem hq
    | loaded =>
      simp only [Function.update_self, World.loadedInode, Inode.ofDinode, hold,
        hfits.size_toDinode, hfits.nlink_toDinode, hfits.addr_toDinode, true_and]
      intro addrs hpriv
      rw [hpriv]
      rfl
  freed _ b hb := absurd hb (hi.attached b)

end OpenInv

/-- Whatever is created, called and flushed in whatever order, an unlinked file does not damage the
    one that has got its slot, as long as it is not flushed then and no late write finds a block. -/
theorem unlinked_undamaged (hw : UnlinkedOpen w dir p name n w')
    (h : Steps (GuardedBy (LateOk p) (OpenStep p n)) (.init w') as t) :
    Undamaged n t ∧ ∀ a u, LateOk p t a → OpenStep p n t a u → SlotKept n t a u := by
  have hi : OpenInv p n t :=
    h.invariant (fun _ _ _ hi hstep => (hi.step hstep.1 hstep.2).1) hw.inv
  exact ⟨hi.undamaged, fun a u hg hstep => (hi.step hg hstep).2⟩

end

/-! ## Two files with one slot -/

/-- The state of `oneFileDir` after its file has been unlinked. -/
def unlinkedFile : World := oneFileDir.after (xv6Unlink 0 1 fileA)

theorem unlinkedFile_open : UnlinkedOpen oneFileDir 0 1 fileA 2 unlinkedFile where
  sound := ⟨by decide, by decide⟩
  table := by
    show 1 + INODE_BLOCKS 32 ≤ 4
    decide
  hint := by
    have hs : OtherNodes 0 1 emptyRootDir oneFileDir := by
      cases xv6Create_spec (by decide) (by decide) oneFileDir_created with
      | made ho => exact ho
    exact hs.env.symm ▸ hs.hint ⟨by decide, by decide⟩ ⟨by decide, by decide⟩
  slot := by
    show 2 < 32
    decide
  num := by decide +kernel
  cached := by decide +kernel
  last := by decide +kernel
  core := by decide +kernel
  below q hq := by
    have htree : oneFileDir.tree = [1, 0] := by decide +kernel
    have hnext : oneFileDir.next = 2 := by decide +kernel
    rw [htree] at hq
    rw [hnext]
    rcases List.mem_cons.mp hq with rfl | hq
    · decide
    · rw [List.mem_singleton.mp hq]
      decide
  unlink := returns_after (by decide +kernel)

/-- The file that is created next gets the slot, and closing the old handle writes to it. -/
theorem flush_overwrites :
    ¬ ∀ (w : World) (dir p : Ptr) (name : FileName) (n : Nat) (w' : World) (as : List OpenLabel)
        (t : OpenState), UnlinkedOpen w dir p name n w' → Steps (OpenStep p n) (.init w') as t →
      Undamaged n t ∧ ∀ a u, OpenStep p n t a u → SlotKept n t a u := by
  intro h
  have hcreate := returns_after (m := xv6Create 0 fileB false) (w := unlinkedFile)
    (a := (0, some 2)) (by decide +kernel)
  let w₁ := unlinkedFile.after (xv6Create 0 fileB false)
  have hflush := returns_after (m := xv6FileFlush 1) (w := w₁) (a := 0) (by decide +kernel)
  let w₂ := w₁.after (xv6FileFlush 1)
  let s : OpenState := (OpenState.init unlinkedFile).create 2 w₁ (some 2)
  have hdir : (0 : Ptr) < unlinkedFile.next := by decide +kernel
  have hrun : Steps (OpenStep 1 2) (.init unlinkedFile) [.create 0 fileB false] s :=
    .single (.create (r := (0, some 2)) Nat.zero_ne_one hdir hcreate)
  have hkept := (h _ _ _ _ _ _ _ _ unlinkedFile_open hrun).2 .flush _ (.flush rfl hflush) trivial
    (by decide +kernel)
  have hlinks : (slot w₂.env w₂.disk 2).nlink ≠ (slot w₁.env w₁.disk 2).nlink := by decide +kernel
  exact hlinks (congrArg Dinode.nlink hkept)

/-- A file is created and written to its slot, and dropped; the old handle is written to, past the
    largest file, and closed for good. -/
theorem create_sync_evict :
    ∃ s, Steps (GuardedBy (LateOk 1) (OpenStep 1 2)) (.init unlinkedFile)
        [.create 0 fileB false, .sync 2, .write false (fun _ => some 0) 1 (MAXFILE * BSIZE),
          .drop 2, .evict] s ∧
      s.given = true ∧ s.evicted = true ∧
      Undamaged 2 s ∧ ∀ a u, LateOk 1 s a → OpenStep 1 2 s a u → SlotKept 2 s a u := by
  have hdir : (0 : Ptr) < unlinkedFile.next := by decide +kernel
  have hcreate := returns_after (m := xv6Create 0 fileB false) (w := unlinkedFile)
    (a := (0, some 2)) (by decide +kernel)
  let w₁ := unlinkedFile.after (xv6Create 0 fileB false)
  have hsync := returns_after (m := xv6FileFlush 2) (w := w₁) (a := 0) (by decide +kernel)
  let w₂ := w₁.after (xv6FileFlush 2)
  have hwrite := returns_after (m := xv6FileWrite 1 false (fun _ => some 0) 1 (MAXFILE * BSIZE))
    (w := w₂) (a := (-EFBIG, MAXFILE * BSIZE)) (by decide +kernel)
  let w₃ := w₂.after (xv6FileWrite 1 false (fun _ => some 0) 1 (MAXFILE * BSIZE))
  have hdrop := returns_after (m := evict 2) (w := w₃) (a := ()) (by decide +kernel)
  let w₄ := w₃.after (evict 2)
  have hevict := returns_after (m := evict 1) (w := w₄) (a := ()) (by decide +kernel)
  have hrun : Steps (GuardedBy (LateOk 1) (OpenStep 1 2)) (.init unlinkedFile)
      [.create 0 fileB false, .sync 2, .write false (fun _ => some 0) 1 (MAXFILE * BSIZE),
        .drop 2, .evict] _ :=
    .cons ⟨trivial, .create Nat.zero_ne_one hdir hcreate⟩ <|
      .cons ⟨trivial, .sync (by decide) (by decide +kernel) (by decide +kernel) (by decide +kernel)
        hsync⟩ <|
      .cons ⟨.inr (.inl (by decide)), .write rfl hwrite⟩ <|
      .cons ⟨trivial, .drop (by decide) hdrop⟩ <| .single ⟨trivial, .evict rfl hevict⟩
  exact ⟨_, hrun, by decide +kernel, rfl, unlinked_undamaged unlinkedFile_open hrun⟩

end Xv6fs
