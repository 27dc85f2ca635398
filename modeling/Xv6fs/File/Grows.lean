/-
  Writing to a file only makes it grow.

  Without I/O errors every block that `xv6_file_write` changes is one of the file or one that it has
  just taken, wherever it stops (`fileWrite_grew`), and so for any number of writes
  (`writes_grew`).
-/
import Xv6fs.File.Write
import Xv6fs.Fs.Grew
import Xv6fs.Lib.Steps

namespace Xv6fs

/-- From `w` to `w'` the file at `p` has grown, and of the in-core inodes only that of the file may
    have a new map, size and dirty flag. -/
structure FileGrew (w : World) (p : Ptr) (addrs addrs' : Addrs) (w' : World) : Prop where
  frame : ∃ size dirty l,
    w' = { w.setMap p addrs' size dirty with disk := w'.disk, hint := w'.hint, log := l }
  grown : Grown w.env w.disk w.hint addrs w'.disk w'.hint addrs'

/-- A call of `xv6_file_write` on the file at `p`, with its result. -/
inductive WriteStep (p : Ptr) : World → Int × Nat → World → Prop
  | write {append : Bool} {buf : UserBuf} {len pos : Nat} {w w' : World} {r : Int × Nat}
      (h : Returns (xv6FileWrite p append buf len pos) w r w') : WriteStep p w r w'

section

variable {w w₁ w' : World} {p : Ptr} {n i : Nat} {A : Nat → Option Addrs}
  {addrs addrs' addrs'' : Addrs} {e : Int}

namespace FileGrew

theorem refl (hpriv : (w.inodes p).priv = some addrs) (l : List Event) :
    FileGrew w p addrs addrs { w with log := l } where
  frame := by
    refine ⟨(w.inodes p).size, (w.inodes p).dirty, l, ?_⟩
    unfold World.setMap
    rw [← hpriv, Function.update_eq_self]
  grown := .refl _ _ _

theorem env (h : FileGrew w p addrs addrs' w') : w'.env = w.env := by
  obtain ⟨size, dirty, l, hw⟩ := h.frame
  rw [hw]
  rfl

theorem inode (h : FileGrew w p addrs addrs' w') : ∃ size dirty,
    w'.inodes p = { w.inodes p with priv := some addrs', size := size, dirty := dirty } := by
  obtain ⟨size, dirty, l, hw⟩ := h.frame
  rw [hw]
  exact ⟨size, dirty, World.setMap_inode w p addrs' size dirty⟩

theorem other (h : FileGrew w p addrs addrs' w') {q : Ptr} (hq : q ≠ p) :
    w'.inodes q = w.inodes q := by
  obtain ⟨size, dirty, l, hw⟩ := h.frame
  rw [hw]
  exact Function.update_of_ne hq _ _

theorem trans (h : FileGrew w p addrs addrs' w₁) (h' : FileGrew w₁ p addrs' addrs'' w') :
    FileGrew w p addrs addrs'' w' where
  frame := by
    obtain ⟨size, dirty, l, hw⟩ := h.frame
    obtain ⟨size', dirty', l', hw'⟩ := h'.frame
    refine ⟨size', dirty', l', ?_⟩
    rw [hw', hw]
    simp only [World.setMap, Function.update_self, Function.update_idem]
  grown := by
    have hg := h'.grown
    rw [h.env] at hg
    exact h.grown.trans hg

/-- The next call finds the file as this one did. -/
theorem ready (hr : FileReady w p n A addrs) (h : FileGrew w p addrs addrs' w') :
    FileReady w' p n (Function.update A n (some addrs')) addrs' where
  sound := h.env.symm ▸ hr.sound
  hint := h.env.symm ▸ h.grown.hintOk hr.hint
  priv := by
    obtain ⟨size, dirty, hino⟩ := h.inode
    rw [hino]
  at_n := Function.update_self _ _ _
  owned := h.env.symm ▸ h.grown.owned hr.sound hr.owned hr.at_n

/-- A block of the file is stored. -/
theorem store (hr : FileReady w p n A addrs) (hi : i < MAXFILE) (hb : bmap w.disk addrs i ≠ 0)
    (blk : Block) (l : List Event) : FileGrew w p addrs addrs { w with
      disk := Function.update w.disk (bmap w.disk addrs i) blk, log := l } where
  frame := by
    refine ⟨(w.inodes p).size, (w.inodes p).dirty, l, ?_⟩
    unfold World.setMap
    rw [← hr.priv, Function.update_eq_self]
  grown := .store hi hb blk (.refl _ _ _)

end FileGrew

/-- The lookup of a block for writing. -/
theorem inodeWblock_grew {bh : Option Nat} (hq : Quiet w.env) (hr : FileReady w p n A addrs)
    (h : Returns (xv6InodeWblock p i) w (e, bh) w') : ∃ addrs', FileGrew w p addrs addrs' w' ∧
      (e = 0 → ∃ b, bh = some b ∧ i < MAXFILE ∧ b ≠ 0 ∧ bmap w'.disk addrs' i = b) := by
  by_cases hi : MAXFILE ≤ i
  · obtain ⟨hres, hw'⟩ := h.unique (xv6InodeWblock_big hr.priv hi)
    cases hres
    rw [hw']
    exact ⟨addrs, .refl hr.priv w.log, fun h0 => absurd h0 (by decide)⟩
  rw [not_le] at hi
  obtain ⟨e₁, b, ctx, w₁, haddr, hends⟩ := inodeWblock_ends hr.priv h
  obtain ⟨addrs', dirty, rfl, hacc⟩ := accessed_of_alloc _ hr.sound hr.hint
    (Owned.held_indirect hr.owned hr.at_n) hi haddr
  obtain ⟨l₁, hw₁⟩ := hacc.frame
  have hinodes : w₁.inodes = w.inodes := by rw [hw₁]
  have hf : Faultless w w₁ := Returns.faultless hq haddr
  have he : e₁ ≠ - EIO := by
    intro h0
    exact ((hacc.error hr.sound hr.hint (by rw [h0]; decide)).2.2.2 hf).1 h0
  have hgrown := hacc.grown ⟨hr.sound, hr.hint, hr.at_n, hr.owned⟩ hi he
  have hgrew : ∀ {w₃ : World} (size : Nat) (d : Bool) (l : List Event),
      w₃ = { w₁.setMap p addrs' size d with log := l } → FileGrew w p addrs addrs' w₃ := by
    intro w₃ size d l hw₃
    subst hw₃
    refine ⟨⟨size, d, l, ?_⟩, hgrown⟩
    unfold World.setMap
    rw [hinodes, hw₁]
  cases hends with
  | failed hne => exact ⟨addrs', hgrew _ _ w₁.log rfl, fun h0 => absurd h0 hne⟩
  | hole => exact ⟨addrs', hgrew _ _ w₁.log rfl, fun h0 => absurd h0 (by decide)⟩
  | @unread _ l => exact ⟨addrs', hgrew _ _ l rfl, fun h0 => absurd h0 (by decide)⟩
  | @opened _ l hb =>
    have hmap := (hacc.ok hr.sound hr.hint hr.owned hr.at_n hi).2.1
    exact ⟨addrs', hgrew _ _ l rfl, fun _ => ⟨b, rfl, hi, hb, hmap⟩⟩

/-! ## The loop -/

theorem writeLoop_grew {buf : UserBuf} : ∀ {rounds block boff nwrite cpos len k c : Nat}
    {A : Nat → Option Addrs} {addrs : Addrs} {w : World}, Quiet w.env → FileReady w p n A addrs →
      Returns (xv6FileWrite.loop p buf rounds block boff nwrite cpos len) w (e, k, c) w' →
      ∃ addrs', FileGrew w p addrs addrs' w'
  | 0, _, _, _, _, _, _, _, A, addrs, w, hq, hr, h => by
    obtain ⟨-, rfl⟩ := Prog.Via.pure h
    exact ⟨addrs, .refl hr.priv w.log⟩
  | rounds + 1, block, boff, nwrite, cpos, len, k, c, A, addrs, w, hq, hr, h => by
    unfold xv6FileWrite.loop at h
    rcases Prog.Via.ite h with ⟨-, hend⟩ | ⟨-, h⟩
    · obtain ⟨-, rfl⟩ := hend.pure
      exact ⟨addrs, .refl hr.priv w.log⟩
    obtain ⟨⟨e₁, bh⟩, w₁, hblock, h⟩ := h.bind
    obtain ⟨addrs₁, hgrew, hbuf⟩ := inodeWblock_grew hq hr hblock
    rcases h.ite with ⟨-, hend⟩ | ⟨heq, h⟩
    · obtain ⟨-, rfl⟩ := hend.pure
      exact ⟨addrs₁, hgrew⟩
    obtain ⟨b, rfl, hi, hb, hmap⟩ := hbuf (not_not.mp heq)
    subst hmap
    have hr₁ := hgrew.ready hr
    have hq₁ : Quiet w₁.env := hgrew.env ▸ hq
    -- the write-back stores a block of the file
    have hstore : ∀ {blk : Block} {e₂ : Int} {w₂ : World},
        Returns (syncBuffer (bmap w₁.disk addrs₁ block) blk) w₁ e₂ w₂ →
        FileGrew w p addrs addrs₁ w₂ := by
      intro blk e₂ w₂ hsync
      obtain ⟨-, -, rfl⟩ := (quiet_syncBuffer hq₁).mp hsync
      exact hgrew.trans (.store hr₁ hi hb blk _)
    simp only [runs_bind_bdata] at h
    rcases h.ite with ⟨-, h⟩ | ⟨-, h⟩
    · obtain ⟨e₂, w₂, hsync, hend⟩ := h.bind
      obtain ⟨-, rfl⟩ := hend.pure
      exact ⟨addrs₁, hstore hsync⟩
    obtain ⟨e₂, w₂, hsync, h⟩ := h.bind
    have hgrew₂ := hstore hsync
    rcases h.ite with ⟨-, hend⟩ | ⟨-, hgo⟩
    · obtain ⟨-, rfl⟩ := hend.pure
      exact ⟨addrs₁, hgrew₂⟩
    obtain ⟨addrs', hrest⟩ := writeLoop_grew (hgrew₂.env ▸ hq) (hgrew₂.ready hr) hgo
    exact ⟨addrs', hgrew₂.trans hrest⟩

theorem fileWrite_grew {append : Bool} {buf : UserBuf} {len pos : Nat} {r : Int × Nat}
    (hq : Quiet w.env) (hr : FileReady w p n A addrs)
    (h : Returns (xv6FileWrite p append buf len pos) w r w') :
    ∃ addrs', FileGrew w p addrs addrs' w' := by
  simp only [xv6FileWrite, Returns, runs_bind_getInode] at h
  obtain ⟨⟨e, k, c⟩, w₁, hloop, hend⟩ := h.bind
  obtain ⟨addrs', hgrew⟩ := writeLoop_grew hq hr hloop
  simp only [runs_bind_modifyInode] at hend
  obtain ⟨-, rfl⟩ := hend.pure
  obtain ⟨size, dirty, l, hw⟩ := hgrew.frame
  refine ⟨addrs', ⟨xv6Max (w₁.inodes p).size c, dirty, l, ?_⟩, hgrew.grown⟩
  rw [hw]
  simp only [World.setMap, Function.update_self, Function.update_idem]

/-- Any number of writes. -/
theorem writes_grew {rs : List (Int × Nat)} (h : Steps (WriteStep p) w rs w') (hq : Quiet w.env)
    (hr : FileReady w p n A addrs) : ∃ addrs', FileGrew w p addrs addrs' w' := by
  induction h generalizing A addrs with
  | nil w => exact ⟨addrs, .refl hr.priv w.log⟩
  | cons hstep _ ih =>
    obtain ⟨hwrite⟩ := hstep
    obtain ⟨addrs₁, hgrew⟩ := fileWrite_grew hq hr hwrite
    obtain ⟨addrs', hrest⟩ := ih (hgrew.env ▸ hq) (hgrew.ready hr)
    exact ⟨addrs', hgrew.trans hrest⟩

end

end Xv6fs
