/-
  xv6_create: what it leaves of the in-core inodes.

  The new in-core inode gets the number of the first unused slot. It is entered into the tree when
  everything has succeeded; otherwise `iput` evicts it, or keeps it in core but outside of the tree
  when it has been filled in and only its directory entry could not be inserted
  (`xv6Create_spec`).
-/
import Xv6fs.Fs.Core
import Xv6fs.Fs.Own
import Xv6fs.Inode.Alloc
import Xv6fs.Inode.Nodes

namespace Xv6fs

open Prog (Keeps)

section

variable {φ : Event → Prop} {w w' : World} {dir q : Ptr} {name : FileName} {isdir : Bool} {e : Int}

/-- The allocator and the inode table do not get in each other's way. -/
structure World.TableReady (w : World) : Prop where
  sound : w.env.info.Sound
  table : w.env.info.inodestart ≤ w.env.info.bmapstart
  hint : HintOk w.env w.hint

/-- What `xv6_init_inode` makes of a fresh inode for a new file. -/
def Inode.Created (ino : Inode) (isdir : Bool) (n : Nat) : Prop :=
  ino.node = (n, if isdir then .dir else .reg, true, 1) ∧ ino.nlink = 1

/-- xv6_balloc hands out a block. -/
def World.GetsBlock (w : World) : Prop := ∃ b w₁, Returns (xv6Balloc 0) w (0, b) w₁ ∧ b ≠ 0

/-- There are an in-core inode and a block for a new file, so the call gets as far as xv6_ialloc. -/
def World.ReachesIalloc (w : World) : Prop :=
  ∃ q w₁, Returns newInode w (some q) w₁ ∧ w₁.GetsBlock

/-- The outcomes of the part before `create_fini`. -/
inductive CreateAlloced (w : World) (dir q : Ptr) (isdir : Bool) : Int → World → Prop where
  /-- the inode has not been touched -/
  | before {e : Int} {w' : World} (hs : SameNodes (fun _ => False) w w') (he : e ≠ 0) :
      CreateAlloced w dir q isdir e w'
  /-- `xv6_init_inode` has failed -/
  | unfilled {e : Int} {n : Nat} {ino : Inode} {l : List Event} {w₁ : World}
      (hb : w.GetsBlock) (hn : w.TableReady → FirstUnused w.env w.disk n)
      (hs : SameNodes (fun _ => False) w w₁)
      (he : e ≠ 0) (hino : ino.ino = n) (hhash : ino.hashed = false) :
      CreateAlloced w dir q isdir e
        { w₁ with inodes := Function.update w₁.inodes q ino, log := l }
  /-- the inode has been filled in, and the entry has been inserted, or not -/
  | filled {e : Int} {n : Nat} {ino : Inode} {l : List Event} {w₁ w' : World}
      (hb : w.GetsBlock) (hn : w.TableReady → FirstUnused w.env w.disk n)
      (hs : SameNodes (fun _ => False) w w₁)
      (hino : ino.Created isdir n)
      (hs' : SameNodes (· = dir)
        { w₁ with inodes := Function.update w₁.inodes q ino, log := l } w') :
      CreateAlloced w dir q isdir e w'

theorem createEnter_spec {w₁ : World} {n : Nat} {host : ByteOrder} {addrs : Fin 13 → UInt32}
    (hb : w.GetsBlock) (hn : w.TableReady → FirstUnused w.env w.disk n)
    (hs : SameNodes (fun _ => False) w w₁)
    (hfresh : w.inodes q = .fresh)
    (h : Runs φ (xv6Create.enter dir q name { newDinode host isdir with addrs := addrs } n) w₁
      e w') : CreateAlloced w dir q isdir e w' := by
  have hq : w₁.inodes q = .fresh := (hs.other q not_false).trans hfresh
  obtain ⟨e₁, w₂, hinit, hrest⟩ := h.bind
  obtain ⟨-, ino, l, rfl, hino⟩ := xv6InitInode_spec hinit
  rw [hq] at hino
  rcases hrest.ite with ⟨hne, hend⟩ | ⟨heq, hend⟩
  · obtain ⟨rfl, rfl⟩ := hend.pure
    rcases hino with ⟨h0, -⟩ | ⟨-, hnum, hhash, -⟩
    · exact absurd h0 hne
    · exact .unfilled hb hn hs hne hnum hhash
  · rcases hino with ⟨-, -, rfl⟩ | ⟨he, -⟩
    · refine .filled hb hn hs ?_ ((keeps_dentryInsert (P := (· = dir)) rfl name n).via hend)
      refine ⟨?_, rfl⟩
      cases isdir <;> rfl
    · rcases he with rfl | rfl <;> exact absurd heq (by decide)

/-- A block that has been allocated is a data block, so the inode table is as it was. -/
theorem FirstUnused.balloc {w₁ : World} {n b : Nat} (hg : w.env.info.Sound)
    (hh : HintOk w.env w.hint) (hrun : Runs φ (xv6Balloc 0) w (e, b) w₁) (hb : b ≠ 0)
    (hn : FirstUnused w₁.env w₁.disk n) : FirstUnused w.env w.disk n := by
  cases hro : w.env.rdonly with
  | true =>
    obtain ⟨heq, -⟩ := xv6Balloc_rdonly hro hrun
    cases heq
    exact absurd rfl hb
  | false =>
    obtain ⟨l, d, hint, rfl, -, hb⟩ := xv6Balloc_spec hro hg.size_lt hh.2 hrun
    have hlt : ∀ m, m ≤ n → inodeBlock w.env m < w.env.info.bmapstart := fun m hm => by
      have hn := hn.lt
      have hdiv : m / IPB ≤ n / IPB := Nat.div_le_div_right hm
      exact lt_of_le_of_lt (Nat.mod_le _ _) (lt_of_le_of_lt (Nat.add_le_add_left hdiv _) hn)
    have hslot : ∀ m, m ≤ n → slot w.env d m = slot w.env w.disk m := fun m hm => by
      unfold slot
      rw [hb.before hg hh (hlt m hm)]
    refine ⟨hn.ge, hn.lt, ?_, fun m hm hm' => ?_⟩
    · rw [← hslot n le_rfl]
      exact hn.unused
    · rw [← hslot m hm'.le]
      exact hn.before m hm hm'

theorem createAlloc_spec (hfresh : w.inodes q = .fresh)
    (h : Runs φ (xv6Create.alloc dir q name isdir) w e w') : CreateAlloced w dir q isdir e w' := by
  simp only [xv6Create.alloc, runs_bind_getEnv] at h
  obtain ⟨⟨e₁, b⟩, w₁, halloc, hrest⟩ := h.bind
  have hs₁ : SameNodes (fun _ => False) w w₁ := (keeps_balloc 0).via halloc
  rcases hrest.ite with ⟨hne, hend⟩ | ⟨heq, hend⟩
  · obtain ⟨rfl, rfl⟩ := hend.pure
    exact .before hs₁ hne
  have hb : b ≠ 0 := by
    rintro rfl
    exact heq (by rw [if_pos rfl]; decide)
  have hgets : w.GetsBlock := by
    rw [if_neg hb, not_not] at heq
    subst heq
    exact ⟨b, w₁, Runs.returns halloc, hb⟩
  obtain ⟨⟨e₂, n⟩, w₂, hialloc, hrest⟩ := hend.bind
  have hs₂ : SameNodes (fun _ => False) w w₂ :=
    trans_of _ hs₁ ((keeps_ialloc _).via hialloc)
  rcases hrest.ite with ⟨hne, hend⟩ | ⟨heq₂, hend⟩
  · obtain ⟨rfl, rfl⟩ := hend.pure
    exact .before hs₂ hne
  have hn : w.TableReady → FirstUnused w.env w.disk n := by
    rintro ⟨hg, hle, hh⟩
    obtain ⟨d, l, -, hia⟩ := xv6Ialloc_spec (by rw [hs₁.env]; exact hg.bmapstart_lt)
      (by rw [hs₁.env]; exact hle) hialloc
    refine .balloc hg hh halloc hb ?_
    cases hia with
    | failed he => rcases he with rfl | rfl <;> exact absurd heq₂ (by decide)
    | unwritten => exact absurd heq₂ (by decide)
    | written hn => exact hn
  rcases hend.ite with ⟨-, hend⟩ | ⟨-, hend⟩
  · simp only [runs_bind_getInode] at hend
    obtain ⟨e₃, w₃, hdir, hrest⟩ := hend.bind
    have hs₃ : SameNodes (fun _ => False) w w₃ := trans_of _ hs₂ ((keeps_dirInit _ _ _).via hdir)
    rcases hrest.ite with ⟨hne, hend⟩ | ⟨-, hend⟩
    · obtain ⟨rfl, rfl⟩ := hend.pure
      exact .before hs₃ hne
    · exact createEnter_spec hgets hn hs₃ hfresh hend
  · exact createEnter_spec hgets hn hs₂ hfresh hend

/-! ## The whole call -/

/-- The inodes other than the one at `q` are known by what they were, and those other than the
    directory as well have not changed. -/
structure OtherNodes (dir q : Ptr) (w w' : World) : Prop where
  env : w'.env = w.env
  node : ∀ p, p ≠ q → (w'.inodes p).node = (w.inodes p).node
  other : ∀ p, p ≠ q → p ≠ dir → w'.inodes p = w.inodes p
  hint : w.env.info.Sound → HintOk w.env w.hint → HintOk w.env w'.hint

theorem SameNodes.others (h : SameNodes (fun _ => False) w w') : OtherNodes dir q w w' :=
  ⟨h.env, fun p _ => h.node p, fun p _ _ => h.other p not_false, h.hint⟩

theorem node_update_ne {w : World} {ino : Inode} {p : Ptr} (hp : p ≠ q) :
    (Function.update w.inodes q ino p).node = (w.inodes p).node :=
  congrArg Inode.node (Function.update_of_ne hp _ _)

/-- The state when `create_fini` is reached. -/
theorem CreateAlloced.fini (hdir : dir ≠ q) (hfresh : w.inodes q = .fresh)
    (h : CreateAlloced w dir q isdir e w') :
    OtherNodes dir q w w' ∧ w'.tree = w.tree ∧ w'.next = w.next ∧
      ((e ≠ 0 ∧ (w'.inodes q).hashed = false ∧ ((w'.inodes q).ino = 0 ∨ w.GetsBlock ∧
          (w.TableReady → FirstUnused w.env w.disk (w'.inodes q).ino))) ∨
        ∃ n, w.GetsBlock ∧ (w.TableReady → FirstUnused w.env w.disk n) ∧
          (w'.inodes q).Created isdir n) := by
  cases h with
  | before hs he =>
    refine ⟨hs.others, hs.tree, hs.next, .inl ⟨he, ?_, .inl ?_⟩⟩
    · rw [hs.hashed, hfresh]
      rfl
    · rw [hs.ino, hfresh]
      rfl
  | @unfilled n ino l w₁ hb hn hs he hino hhash =>
    have hnum : (Function.update w₁.inodes q ino q).ino = n :=
      (congrArg Inode.ino (Function.update_self _ _ _)).trans hino
    refine ⟨⟨hs.env, fun p hp => (node_update_ne hp).trans (hs.node p), fun p hp _ => ?_, hs.hint⟩,
      hs.tree, hs.next, .inl ⟨he, ?_, .inr ⟨hb, ?_⟩⟩⟩
    · exact (Function.update_of_ne hp _ _).trans (hs.other p not_false)
    · exact (congrArg Inode.hashed (Function.update_self _ _ _)).trans hhash
    · exact hnum ▸ hn
  | @filled n ino l w₁ _ hb hn hs hino hs' =>
    have hq : w'.inodes q = ino := (hs'.other q fun h => hdir h.symm).trans
      (Function.update_self _ _ _)
    have henv : w₁.env = w.env := hs.env
    refine ⟨⟨hs'.env.trans henv, fun p hp => ?_, fun p hp hpd => ?_, fun hg hh => ?_⟩,
      hs'.tree.trans hs.tree, hs'.next.trans hs.next, .inr ⟨n, hb, hn, by rw [hq]; exact hino⟩⟩
    · exact (hs'.node p).trans ((node_update_ne hp).trans (hs.node p))
    · exact (hs'.other p hpd).trans
        ((Function.update_of_ne hp _ _).trans (hs.other p not_false))
    · have hhint : w₁.env.info.Sound → HintOk w₁.env w₁.hint → HintOk w₁.env w'.hint := hs'.hint
      rw [henv] at hhint
      exact hhint hg (hs.hint hg hh)

/-- The same, from the state in which the new inode has not been allocated. -/
theorem createAlloc_new {w₁ w₂ : World} (hdir : dir < w.next) (hnew : Runs φ newInode w (some q) w₁)
    (halloc : Runs φ (xv6Create.alloc dir q name isdir) w₁ e w₂) :
    q = w.next ∧ OtherNodes dir q w w₂ ∧ w₂.tree = w.tree ∧ w₂.next = w.next + 1 ∧
      ((e ≠ 0 ∧ (w₂.inodes q).hashed = false ∧ ((w₂.inodes q).ino = 0 ∨ w.ReachesIalloc ∧
          (w.TableReady → FirstUnused w.env w.disk (w₂.inodes q).ino))) ∨
        ∃ n, w.ReachesIalloc ∧ (w.TableReady → FirstUnused w.env w.disk n) ∧
          (w₂.inodes q).Created isdir n) := by
  obtain ⟨-, ⟨h, -⟩ | ⟨hq, l, rfl⟩⟩ := newInode_spec hnew
  · cases h
  obtain rfl := Option.some.inj hq
  let w₀ : World := { w with
    inodes := Function.update w.inodes w.next .fresh
    next := w.next + 1
    log := l }
  have hreach : w₀.GetsBlock → w.ReachesIalloc := fun hb => ⟨_, w₀, Runs.returns hnew, hb⟩
  have hfresh : w₀.inodes w.next = .fresh := Function.update_self _ _ _
  have hca : CreateAlloced w₀ dir w.next isdir e w₂ := createAlloc_spec hfresh halloc
  obtain ⟨ho, htree, hnext, hcase⟩ := CreateAlloced.fini (w := w₀) hdir.ne hfresh hca
  refine ⟨rfl, ⟨ho.env, fun p hp => (ho.node p hp).trans (node_update_ne hp), fun p hp hpd => ?_,
    ho.hint⟩, htree, hnext, hcase.imp (fun ⟨he, hhash, hnum⟩ => ⟨he, hhash, ?_⟩)
      fun ⟨n, hb, hn, hino⟩ => ⟨n, hreach hb, ?_, hino⟩⟩
  · exact (ho.other p hp hpd).trans (Function.update_of_ne hp _ _)
  · exact hnum.imp_right fun ⟨hb, hn⟩ =>
      ⟨hreach hb, fun hw => hn ⟨hw.sound, hw.table, hw.hint⟩⟩
  · exact fun hw => hn ⟨hw.sound, hw.table, hw.hint⟩

/-- The outcomes of a call. -/
inductive Created (w : World) (dir : Ptr) (isdir : Bool) : Int × Option Ptr → World → Prop where
  | refused {e : Int} {l : List Event} (he : e ≠ 0) :
      Created w dir isdir (e, none) { w with log := l }
  /-- the new inode has been evicted -/
  | dropped {e : Int} {w' : World} (he : e ≠ 0) (ho : OtherNodes dir w.next w w')
      (htree : w'.tree = w.tree) (hnext : w'.next = w.next + 1)
      (hhash : (w'.inodes w.next).hashed = false) : Created w dir isdir (e, none) w'
  /-- the new inode is in core, but not in the tree -/
  | kept {e : Int} {n : Nat} {w' : World} (he : e ≠ 0) (ho : OtherNodes dir w.next w w')
      (htree : w'.tree = w.tree) (hnext : w'.next = w.next + 1) (hr : w.ReachesIalloc)
      (hn : w.TableReady → FirstUnused w.env w.disk n)
      (hino : (w'.inodes w.next).Created isdir n) : Created w dir isdir (e, none) w'
  | made {n : Nat} {w' : World} (ho : OtherNodes dir w.next w w')
      (htree : w'.tree = w.next :: w.tree) (hnext : w'.next = w.next + 1)
      (hr : w.ReachesIalloc) (hn : w.TableReady → FirstUnused w.env w.disk n)
      (hino : (w'.inodes w.next).Created isdir n) : Created w dir isdir (0, some w.next) w'

theorem xv6Create_spec {r : Int × Option Ptr} (hdir : dir < w.next) (hnew : w.next ∉ w.tree)
    (h : Runs φ (xv6Create dir name isdir) w r w') : Created w dir isdir r w' := by
  rcases h.ite with ⟨-, hend⟩ | ⟨-, hrun⟩
  · obtain ⟨rfl, rfl⟩ := hend.pure
    exact .refused (by decide)
  obtain ⟨r₁, w₁, halloc, hrest⟩ := hrun.bind
  cases r₁ with
  | none =>
    obtain ⟨-, ⟨-, l, rfl⟩ | ⟨hq, -⟩⟩ := newInode_spec halloc
    · obtain ⟨rfl, rfl⟩ := hrest.pure
      exact .refused (by decide)
    · cases hq
  | some q =>
  obtain ⟨e, w₂, hfill, hrest⟩ := hrest.bind
  obtain ⟨rfl, ho, htree, hnext, hcase⟩ := createAlloc_new hdir halloc hfill
  rcases hrest.ite with ⟨hne, hend⟩ | ⟨heq, hend⟩
  · obtain ⟨u, w₃, hput, hlast⟩ := hend.bind
    obtain ⟨rfl, rfl⟩ := hlast.pure
    rcases iput_spec hput with ⟨-, hhash, rfl⟩ | ⟨hgo, t, ht, rfl⟩
    · rcases hcase with ⟨-, hhash', -⟩ | ⟨n, hr, hn, hino⟩
      · rw [hhash] at hhash'
        cases hhash'
      · exact .kept hne ho htree hnext hr hn hino
    · have ht' : t = w.tree := by
        rcases ht with rfl | rfl
        · exact htree
        · rw [htree, List.erase_of_not_mem hnew]
      refine .dropped hne ⟨ho.env, fun p hp => (node_update_ne hp).trans (ho.node p hp),
        fun p hp hpd => (Function.update_of_ne hp _ _).trans (ho.other p hp hpd), ho.hint⟩
        ht' hnext ?_
      rcases hcase with ⟨-, hhash, -⟩ | ⟨n, -, -, hino⟩
      · exact (congrArg Inode.hashed (Function.update_self w.next _ w₂.inodes)).trans hhash
      · refine absurd ⟨?_, ?_⟩ hgo
        · rw [hino.2]
          decide
        · exact congrArg (·.2.2.1) hino.1
  · obtain rfl : e = 0 := not_not.mp heq
    rcases hcase with ⟨h0, -⟩ | ⟨n, hr, hn, hino⟩
    · exact absurd rfl h0
    · obtain ⟨u, w₃, hadd, hlast⟩ := hend.bind
      obtain rfl := (runs_rbAdd _ _ _ _).mp hadd
      obtain ⟨rfl, rfl⟩ := hlast.pure
      refine .made ⟨ho.env, ho.node, ho.other, ho.hint⟩ ?_ hnext hr hn hino
      exact congrArg (w.next :: ·) htree

/-- A name that is too long is refused at once. -/
theorem xv6Create_long {r : Int × Option Ptr} (hname : DIRSIZ < name.length)
    (h : Runs φ (xv6Create dir name isdir) w r w') : r = (-ENAMETOOLONG, none) ∧ w' = w := by
  rcases h.ite with ⟨-, hend⟩ | ⟨hno, -⟩
  · obtain ⟨rfl, rfl⟩ := hend.pure
    exact ⟨rfl, rfl⟩
  · exact absurd hname hno

end

/-- A file system with a root directory, which is in core at address 0, and no files. -/
def emptyRootDir : World :=
  { World.blank ⟨64, 0, 32, 0, 1, 1, 4⟩ 21 with
    disk := fun b => if b = 20 then
        Block.setDirent 1 ⟨1, strncpy dotdot⟩ (Block.setDirent 0 ⟨1, strncpy dot⟩ Buf.zero)
      else Buf.zero
    inodes := fun _ => ⟨1, .dir, 1, 32, some (oneBlock 20), false, true, 1⟩
    tree := [0]
    next := 1 }

def fileA : FileName := [0x61]

def fileB : FileName := [0x62]

/-- The same with a file, inode 2, which is in core at address 1. -/
def oneFileDir : World := emptyRootDir.after (xv6Create 0 fileA false)

theorem oneFileDir_created :
    Returns (xv6Create 0 fileA false) emptyRootDir (0, some 1) oneFileDir :=
  returns_after (by decide +kernel)

end Xv6fs
