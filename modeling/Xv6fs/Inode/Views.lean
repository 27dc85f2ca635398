/-
  Two in-core inodes with the same kind, size and addresses.

  Reading a file and searching a directory look at nothing else of an in-core inode. Without I/O
  errors they give the same answer through either (`fileRead_agree`, `findInum_agree`).
-/
import Xv6fs.Lib.Agree
import Xv6fs.Model.File

namespace Xv6fs

open Prog (Agree)

/-- What reads and lookups see of an in-core inode. -/
def Inode.view (ino : Inode) : Fmt × Nat × Option Addrs := (ino.fmt, ino.size, ino.priv)

/-- The cached inode at `p` in the first state looks like the one at `q` in the second, and the
    disks are the same. -/
structure SameView (p q : Ptr) (w v : World) : Prop where
  env : v.env = w.env
  disk : v.disk = w.disk
  view : (v.inodes q).view = (w.inodes p).view
  cached : (w.inodes p).priv ≠ none

/-- Two programs give the same answer through the two inodes. -/
abbrev SameAnswer (p q : Ptr) {α : Type} (m m' : Fs α) : Prop :=
  Agree (World.Along Calm) (SameView p q) Eq m m'

section

variable {p q : Ptr}

/-! ## Primitives -/

theorem SameView.of_log {w v : World} (h : SameView p q w v) (l l' : List Event) :
    SameView p q { w with log := l } { v with log := l' } :=
  ⟨h.env, h.disk, h.view, h.cached⟩

theorem agree_sbBread (b : Nat) : SameAnswer p q (sbBread b) (sbBread b) := by
  intro w v r r' w' v' hs h h'
  obtain ⟨hok, rfl, rfl⟩ := (runs_sbBread _ _ _ _).mp h
  obtain ⟨hok', rfl, rfl⟩ := (runs_sbBread _ _ _ _).mp h'
  refine ⟨?_, hs.of_log _ _⟩
  rw [show w.env.io w.log.length = .ok from hok, show v.env.io v.log.length = .ok from hok']

theorem agree_bdata (b : Nat) : SameAnswer p q (bdata b) (bdata b) := by
  intro w v r r' w' v' hs h h'
  obtain ⟨rfl, rfl⟩ := (runs_bdata _ _ _ _).mp h
  obtain ⟨rfl, rfl⟩ := (runs_bdata _ _ _ _).mp h'
  exact ⟨(congrFun hs.disk b).symm, hs⟩

theorem agree_bstore (b : Nat) (blk : Block) :
    SameAnswer p q (bstore b blk) (bstore b blk) := by
  intro w v r r' w' v' hs h h'
  obtain rfl := (runs_bstore _ _ _ _ _).mp h
  obtain rfl := (runs_bstore _ _ _ _ _).mp h'
  exact ⟨rfl, hs.env, by simp only [hs.disk], hs.view, hs.cached⟩

theorem agree_syncBuffer (b : Nat) (blk : Block) :
    SameAnswer p q (syncBuffer b blk) (syncBuffer b blk) := by
  intro w v r r' w' v' hs h h'
  obtain ⟨hok, rfl, rfl⟩ := (runs_syncBuffer _ _ _ _ _).mp h
  obtain ⟨hok', rfl, rfl⟩ := (runs_syncBuffer _ _ _ _ _).mp h'
  have hio : w.env.io w.log.length = .ok := hok
  have hio' : v.env.io v.log.length = .ok := hok'
  refine ⟨by rw [hio, hio'], hs.env, ?_, hs.view, hs.cached⟩
  simp only [hio, hio', hs.disk]

theorem agree_assert (c : Prop) [Decidable c] : SameAnswer p q (xv6Assert c) (xv6Assert c) :=
  .ite (.pure rfl) (.halt _ _)

theorem agree_getInode : Agree (World.Along Calm) (SameView p q)
    (fun ino ino' => ino'.view = ino.view ∧ ino.priv ≠ none) (getInode p) (getInode q) := by
  intro w v ino ino' w' v' hs h h'
  obtain ⟨rfl, rfl⟩ := (runs_getInode _ _ _ _).mp h
  obtain ⟨rfl, rfl⟩ := (runs_getInode _ _ _ _).mp h'
  exact ⟨⟨hs.view, hs.cached⟩, hs⟩

theorem agree_writeBack (ctx : InodeCtx) :
    SameAnswer p q (ctx.writeBack p) (ctx.writeBack q) := by
  intro w v u u' w' v' hs h h'
  obtain rfl := (runs_modifyInode _ _ _ _ _).mp h
  obtain rfl := (runs_modifyInode _ _ _ _ _).mp h'
  refine ⟨rfl, hs.env, hs.disk, ?_, ?_⟩
  · have hfmt : (v.inodes q).fmt = (w.inodes p).fmt := congrArg (·.1) hs.view
    have hsize : (v.inodes q).size = (w.inodes p).size := congrArg (·.2.1) hs.view
    have hpriv : (v.inodes q).priv = (w.inodes p).priv := congrArg (·.2.2) hs.view
    simp only [Function.update_self, Inode.view, hfmt, hsize, hpriv]
  · simp only [Function.update_self, ne_eq, Option.map_eq_none_iff]
    exact hs.cached

/-! ## Blocks -/

theorem agree_initIctx : SameAnswer p q (xv6InitIctx p) (xv6InitIctx q) :=
  .bind agree_getInode fun ino ino' ⟨hview, hcached⟩ => by
    have hsize : ino'.size = ino.size := congrArg (·.2.1) hview
    have hpriv : ino'.priv = ino.priv := congrArg (·.2.2) hview
    obtain ⟨addrs, haddrs⟩ := Option.ne_none_iff_exists'.mp hcached
    rw [hpriv, hsize, haddrs]
    exact .pure rfl

theorem agree_indirect (ctx : InodeCtx) (i : Nat) :
    SameAnswer p q (xv6InodeAddr.indirect modcheck ctx i false)
      (xv6InodeAddr.indirect modcheck ctx i false) :=
  .seq (agree_sbBread _) fun _ => .ite (.pure rfl) <| .seq (agree_bdata _) fun _ =>
    .ite (.pure rfl) (.pure rfl)

theorem agree_inodeAddr (ctx : InodeCtx) (i : Nat) :
    SameAnswer p q (xv6InodeAddr modcheck ctx i false) (xv6InodeAddr modcheck ctx i false) := by
  unfold xv6InodeAddr
  simp only [Bool.false_eq_true, and_false, if_false, Bool.not_false, if_true]
  exact .ite (.pure rfl) <| .ite (.pure rfl) <| .ite (.pure rfl) (agree_indirect _ _)

/-! ## Directories -/

section Iterate

variable {τ : Type} (cb : DiterCallback τ)

theorem agree_body (i off lim blockno : Nat) (act : DiterAction) (ctx : τ) :
    SameAnswer p q (xv6DirIterate.body modcheck cb i off lim blockno act ctx)
      (xv6DirIterate.body modcheck cb i off lim blockno act ctx) :=
  .ite (.seq (.lift _) fun _ => .pure rfl) <| .seq (agree_sbBread _) fun _ => .ite (.pure rfl) <|
    .seq (agree_bdata _) fun _ => .seq (.lift _) fun _ =>
      .ite (.seq (agree_syncBuffer _ _) fun _ => .pure rfl) <|
        .seq (agree_bstore _ _) fun _ => .pure rfl

theorem agree_blocks : ∀ (rounds i off size : Nat) (act : DiterAction) (dir : InodeCtx) (ctx : τ),
    SameAnswer p q (xv6DirIterate.blocks modcheck cb false rounds i off size act dir ctx)
      (xv6DirIterate.blocks modcheck cb false rounds i off size act dir ctx)
  | 0, _, _, _, _, _, _ => .halt _ _
  | rounds + 1, i, _, _, _, _, _ => .seq (agree_inodeAddr _ _) fun _ => .ite (.pure rfl) <|
      .seq (agree_body cb _ _ _ _ _ _) fun _ => .ite (.pure rfl) <| .ite (.pure rfl) <|
        agree_blocks rounds (i + 1) 0 _ _ _ _

theorem agree_extend (dir : InodeCtx) (ctx : τ) :
    SameAnswer p q (xv6DirIterate.extend modcheck cb false dir ctx)
      (xv6DirIterate.extend modcheck cb false dir ctx) :=
  .seq (agree_inodeAddr _ _) fun _ => .ite (.pure rfl) <| .seq (agree_sbBread _) fun _ =>
    .ite (.pure rfl) <| .seq (agree_bdata _) fun _ => .seq (.lift _) fun _ =>
      .ite (.seq (agree_syncBuffer _ _) fun _ => .pure rfl) <|
        .seq (agree_bstore _ _) fun _ => .pure rfl

theorem agree_dirIterate (dir : InodeCtx) (ctx : τ) (off : Nat) :
    SameAnswer p q (xv6DirIterate modcheck dir cb ctx off false)
      (xv6DirIterate modcheck dir cb ctx off false) :=
  .seq (agree_assert _) fun _ => .ite (.pure rfl) <| .seq (agree_blocks cb _ _ _ _ _ _ _) fun _ =>
    .ite (agree_extend cb _ _) (.pure rfl)

end Iterate

theorem findInum_agree (name : FileName) :
    SameAnswer p q (xv6FindInum p name) (xv6FindInum q name) :=
  .bind agree_getInode fun ino ino' ⟨hview, _⟩ => by
    have hfmt : ino'.fmt = ino.fmt := congrArg (·.1) hview
    rw [hfmt]
    exact .ite (.pure rfl) <| .seq agree_initIctx fun _ => .ite (.pure rfl) <|
      .seq (agree_dirIterate _ _ _ _) fun _ => .seq (agree_writeBack _) fun _ =>
        .seq (agree_assert _) fun _ => .pure rfl

/-! ## Files -/

theorem agree_inodeBlock (i : Nat) : SameAnswer p q (xv6InodeBlock p i) (xv6InodeBlock q i) :=
  .seq agree_initIctx fun _ => .ite (.pure rfl) <| .seq (agree_inodeAddr _ _) fun _ =>
    .seq (agree_writeBack _) fun _ => .ite (.pure rfl) <|
      .ite (.seq (agree_assert _) fun _ => .pure rfl) <| .seq (agree_sbBread _) fun _ =>
        .seq (agree_assert _) fun _ => .ite (.pure rfl) (.pure rfl)

theorem agree_source (boff : Nat) : ∀ bh : Option Nat,
    SameAnswer p q (xv6FileRead.source boff bh) (xv6FileRead.source boff bh)
  | none => .pure rfl
  | some _ => .seq (agree_bdata _) fun _ => .pure rfl

theorem agree_readLoop (fileSize : Nat) : ∀ (rounds block boff nread cpos len : Nat)
    (mem : UserMem),
    SameAnswer p q (xv6FileRead.loop p fileSize rounds block boff nread cpos len mem)
      (xv6FileRead.loop q fileSize rounds block boff nread cpos len mem)
  | 0, _, _, _, _, _, _ => .pure rfl
  | rounds + 1, _, _, _, _, _, _ => .ite (.pure rfl) <| .seq (agree_inodeBlock _) fun _ =>
      .ite (.pure rfl) <| .seq (agree_source _ _) fun _ => .ite (.pure rfl) <|
        agree_readLoop fileSize rounds _ _ _ _ _ _

theorem fileRead_agree (mem : UserMem) (len pos : Nat) :
    SameAnswer p q (xv6FileRead p mem len pos) (xv6FileRead q mem len pos) :=
  .bind agree_getInode fun ino ino' ⟨hview, _⟩ => by
    have hsize : ino'.size = ino.size := congrArg (·.2.1) hview
    simp only [hsize]
    exact .seq (agree_readLoop _ _ _ _ _ _ _ _) fun _ => .pure rfl

end

end Xv6fs
