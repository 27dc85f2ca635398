/-
  Inserting and erasing entries only makes a directory grow.

  When the block layer does not fail, every block that `xv6_dentry_insert` or `xv6_dir_erase`
  changes is one of the directory or one that it has just taken, whatever is returned and whatever
  the entries are (`dentryInsert_grew`, `dirErase_grew`).
-/
import Xv6fs.Dir.Unchanged
import Xv6fs.File.Grows

namespace Xv6fs

variable {w w₁ w' : World} {p : Ptr} {n inum : Nat} {A : Nat → Option Addrs}
  {addrs addrs' : Addrs} {name : FileName} {e : Int}

/-- The addresses that an iteration leaves are stored in core. -/
theorem Grew.fileGrew {ino : Inode} (h : Grew w addrs addrs' w₁)
    (hino : ∃ size dirty, ino = { w.inodes p with
      priv := some addrs', size := size, dirty := dirty })
    (hw : w' = { w₁ with inodes := Function.update w.inodes p ino }) :
    FileGrew w p addrs addrs' w' := by
  obtain ⟨l, hw₁⟩ := h.frame
  obtain ⟨size, dirty, rfl⟩ := hino
  have hgrown := h.grown
  subst hw
  refine ⟨⟨size, dirty, l, ?_⟩, hgrown⟩
  rw [hw₁]
  rfl

theorem dentryInsert_grew (hu : Unfailed w e) (hr : FileReady w p n A addrs)
    (h : Returns (xv6DentryInsert p name inum) w e w') : ∃ addrs', FileGrew w p addrs addrs' w' ∧
      ((w'.inodes p).size = (w.inodes p).size ∨ (w'.inodes p).size < 2 ^ 32) := by
  have hsame : FileGrew w p addrs addrs w := .refl hr.priv w.log
  have hm : MapReady w n A addrs := ⟨hr.sound, hr.hint, hr.at_n, hr.owned⟩
  simp only [xv6DentryInsert, runs_bind_getInode] at h
  rcases h.ite with ⟨-, hend⟩ | ⟨-, h⟩
  · obtain ⟨-, rfl⟩ := hend.pure
    exact ⟨addrs, hsame, .inl rfl⟩
  rcases h.ite with ⟨-, hend⟩ | ⟨-, h⟩
  · obtain ⟨-, rfl⟩ := hend.pure
    exact ⟨addrs, hsame, .inl rfl⟩
  rcases h.ite with ⟨-, hend⟩ | ⟨-, h⟩
  · obtain ⟨-, rfl⟩ := hend.pure
    exact ⟨addrs, hsame, .inl rfl⟩
  obtain ⟨r, w₁, hinit, h⟩ := h.bind
  obtain ⟨rfl, rfl⟩ := xv6InitIctx_spec hr.priv hinit
  simp only [ne_eq, not_true_eq_false, if_false] at h
  obtain ⟨⟨e₁, ctx, u⟩, w₂, hiter, hrest⟩ := h.bind
  obtain ⟨u₂, w₃, hback, hnext⟩ := hrest.bind
  clear h hrest
  rcases hnext.ite with ⟨rfl, hstore⟩ | ⟨-, hend⟩
  · obtain ⟨hsize, hgrew⟩ := iterate_grew hm (.inl rfl) unfailed_zero hiter
    have hinodes := hgrew.inodes
    obtain rfl := writeBack_spec (by rw [hinodes]; exact hr.priv) hback
    simp only [xv6IctxDirty] at hstore
    rcases hstore.ite with ⟨-, hend⟩ | ⟨-, hstore⟩
    · obtain ⟨-, rfl⟩ := hend.pure
      refine ⟨ctx.addrs, hgrew.fileGrew ⟨_, _, rfl⟩ (by rw [hinodes]), .inl ?_⟩
      simp only [Function.update_self, hinodes]
    · simp only [markInodeDirty, runs_bind_modifyInode, runs_bind_getInode, Function.update_self,
        Function.update_idem] at hstore
      obtain ⟨-, rfl⟩ := hstore.pure
      refine ⟨ctx.addrs, hgrew.fileGrew ⟨_, _, rfl⟩ (by rw [hinodes]), .inr ?_⟩
      simp only [Function.update_self]
      dsimp only at hsize
      omega
  · obtain ⟨rfl, rfl⟩ := hend.pure
    obtain ⟨-, hgrew⟩ := iterate_grew hm (.inl rfl) hu hiter
    have hinodes := hgrew.inodes
    obtain rfl := writeBack_spec (by rw [hinodes]; exact hr.priv) hback
    refine ⟨ctx.addrs, hgrew.fileGrew ⟨_, _, rfl⟩ (by rw [hinodes]), .inl ?_⟩
    simp only [Function.update_self, hinodes]

theorem dirErase_grew (hu : Quiet w.env ∨ e = 0) (hr : FileReady w p n A addrs)
    (h : Returns (xv6DirErase p name) w e w') :
    FileGrew w p addrs addrs w' ∧ (w'.inodes p).size = (w.inodes p).size := by
  simp only [xv6DirErase, runs_bind_getInode] at h
  rcases h.ite with ⟨-, hend⟩ | ⟨-, h⟩
  · obtain ⟨-, rfl⟩ := hend.pure
    exact ⟨.refl hr.priv w.log, rfl⟩
  obtain ⟨r, w₁, hinit, h⟩ := h.bind
  obtain ⟨rfl, rfl⟩ := xv6InitIctx_spec hr.priv hinit
  simp only [ne_eq, not_true_eq_false, if_false] at h
  obtain ⟨⟨e₁, ctx, success⟩, w₂, hiter, hrest⟩ := h.bind
  obtain ⟨u₂, w₃, hback, hnext⟩ := hrest.bind
  simp only [runs_bind_assert] at hnext
  obtain ⟨-, hend⟩ := hnext
  obtain ⟨he, rfl⟩ := hend.pure
  -- the error of the iteration is lost when nothing was erased, but an entry was erased if 0 is
  -- returned
  have hu₁ : Unfailed w₁ e₁ := by
    rcases hu with hq | rfl
    · exact .inl hq
    · cases success with
      | true =>
        obtain rfl : e₁ = 0 := he
        exact unfailed_zero
      | false => exact absurd he (show (-ENOENT : Int) ≠ 0 by decide)
  obtain ⟨-, hgrew⟩ := iterate_grew ⟨hr.sound, hr.hint, hr.at_n, hr.owned⟩
    (.inr (deErase_noExt name)) hu₁ hiter
  obtain rfl : ctx = _ := iterate_same (deErase_noExt name) rfl hiter
  have hinodes := hgrew.inodes
  obtain rfl := writeBack_spec (by rw [hinodes]; exact hr.priv) hback
  refine ⟨hgrew.fileGrew ⟨_, _, rfl⟩ (by rw [hinodes]), ?_⟩
  simp only [Function.update_self, hinodes]

end Xv6fs
