/-
  The calls that give every inode they work on the blocks it has, or more.

  Reading a slot into core, entering an inode into the tree, and the searches change no owner.
  Writing a file, inserting and erasing an entry let one inode grow. So `xv6_lookup`,
  `xv6_file_write`, `xv6_link` and `xv6_rename` keep the invariant of the volume, whatever they
  return.
-/
import Xv6fs.Volume.State
import Xv6fs.Inode.Iget

namespace Xv6fs

section

variable {v : Volume} {w w' : World} {g : List Ptr} {p q dir : Ptr} {n : Nat} {e : Int}
  {name : FileName}

namespace VolumeInv

/-! ## The inode tree -/

/-- The inodes outside of the tree do not matter. -/
theorem outside (hi : VolumeInv ⟨w, g⟩) (henv : w'.env = w.env) (hdisk : w'.disk = w.disk)
    (hhint : w'.hint = w.hint) (htree : w'.tree = w.tree) (hnext : w.next ≤ w'.next)
    (hsame : ∀ q, q ∈ w.tree → w'.inodes q = w.inodes q) : VolumeInv ⟨w', g⟩ :=
  hi.sameMaps henv hdisk hhint htree hnext (fun q hq => congrArg Inode.ino (hsame q hq))
    fun q hq => congrArg Inode.priv (hsame q hq)

theorem logs (hi : VolumeInv ⟨w, g⟩) (h : OnlyLogs w w') : VolumeInv ⟨w', g⟩ := by
  obtain ⟨l, rfl⟩ := h
  exact hi.outside rfl rfl rfl rfl le_rfl fun _ _ => rfl

/-- An inode that has been loaded from its slot, or made for it, is entered into the tree. -/
theorem enter (hi : VolumeInv ⟨w, g⟩) (hlt : q < w.next) (hgone : q ∉ g)
    (huse : SlotInUse w.env w.disk (w.inodes q).ino)
    (hnone : ∀ r, (Volume.mk w g).Live r → (w.inodes r).ino ≠ (w.inodes q).ino)
    (hpriv : (w.inodes q).priv = some (slot w.env w.disk (w.inodes q).ino).addr) :
    VolumeInv ⟨{ w with tree := q :: w.tree }, g⟩ := by
  have hlive : ∀ r, (Volume.mk { w with tree := q :: w.tree } g).Live r →
      r = q ∨ (Volume.mk w g).Live r := fun r hr =>
    (List.mem_cons.mp hr.1).imp id fun hmem => ⟨hmem, hr.2⟩
  have haddrs : (Volume.mk { w with tree := q :: w.tree } g).addrsOf =
      (Volume.mk w g).addrsOf := by
    funext n
    unfold Volume.addrsOf
    dsimp only
    by_cases hn : (w.inodes q).ino = n
    · have hnew : (Volume.mk { w with tree := q :: w.tree } g).cached n = some q := by
        unfold Volume.cached
        exact List.find?_cons_of_pos (by simpa using ⟨hgone, hn⟩)
      have hold : (Volume.mk w g).cached n = none :=
        Volume.cached_eq_none.mpr fun r hr => hn ▸ hnone r hr
      have hq : ({ w with tree := q :: w.tree } : World).addrs q = (slot w.env w.disk n).addr :=
        World.addrs_of_priv (by rw [← hn]; exact hpriv)
      rw [hnew, hold]
      simp only [hq]
    · have hsame : (Volume.mk { w with tree := q :: w.tree } g).cached n =
          (Volume.mk w g).cached n := by
        unfold Volume.cached
        exact List.find?_cons_of_neg (by simpa using fun _ => hn)
      rw [hsame]
      rfl
  refine ⟨hi.quiet, hi.sound, hi.table, hi.hint, fun r hr => ?_, hi.gone, fun r s hr hs heq => ?_,
    fun r hr => ?_, fun r hr => ?_, ?_⟩
  · rcases List.mem_cons.mp hr with rfl | hr
    · exact hlt
    · exact hi.below r hr
  · dsimp only at heq
    rcases hlive r hr with rfl | hr'
    · rcases hlive s hs with rfl | hs'
      · rfl
      · exact absurd heq.symm (hnone s hs')
    · rcases hlive s hs with rfl | hs'
      · exact absurd heq (hnone r hr')
      · exact hi.unique r s hr' hs' heq
  · rcases hlive r hr with rfl | hr'
    · exact huse
    · exact hi.allocated r hr'
  · rcases hlive r hr with rfl | hr'
    · change (w.inodes r).priv ≠ none
      rw [hpriv]
      simp
    · exact hi.priv r hr'
  · rw [haddrs]
    exact hi.owned

/-! ## Lookup -/

theorem igot {r : Except Int Ptr} (hi : VolumeInv ⟨w, g⟩) (hlt : n < w.env.info.ninodes)
    (hgone : ∀ p, r = .ok p → p ∉ g) (h : Igot w n r w') : VolumeInv ⟨w', g⟩ := by
  have hfresh : ∀ {q}, q ∈ w.tree → q ≠ w.next := fun hq => (hi.below _ hq).ne
  cases h with
  | @found p hmem hino => exact hi.setInode rfl rfl
  | nomem => exact hi.logs ⟨_, rfl⟩
  | failed =>
    exact hi.outside rfl rfl rfl rfl (Nat.le_succ _) fun q hq =>
      Function.update_of_ne (hfresh hq) _ _
  | @loaded l hnone htype =>
    -- the inode is filled in first, and entered then
    have hload : VolumeInv ⟨{ w with
        inodes := Function.update w.inodes w.next (w.loadedInode n)
        next := w.next + 1
        log := l }, g⟩ :=
      hi.outside rfl rfl rfl rfl (Nat.le_succ _) fun q hq => Function.update_of_ne (hfresh hq) _ _
    have hnew : Function.update w.inodes w.next (w.loadedInode n) w.next = w.loadedInode n :=
      Function.update_self _ _ _
    refine hload.enter (q := w.next) (Nat.lt_succ_self _) (hgone w.next rfl) ?_ (fun r hr => ?_) ?_
    · dsimp only
      rw [hnew]
      exact ⟨InTable.hasSlot hi.table hlt, htype⟩
    · dsimp only
      rw [hnew, Function.update_of_ne (hfresh hr.1)]
      exact hnone r hr.1
    · dsimp only
      rw [hnew]
      rfl

theorem lookup {r : Except Int (Option Ptr)} (hi : VolumeInv ⟨w, g⟩)
    (hgone : ∀ p, r = .ok (some p) → p ∉ g) (h : Returns (xv6Lookup dir name) w r w') :
    VolumeInv ⟨w', g⟩ := by
  simp only [xv6Lookup, Returns] at h
  obtain ⟨⟨reason, dnum, de⟩, w₁, hfind, hrest⟩ := h.bind
  have hi₁ := hi.logs (findInum_readOnly hfind)
  rcases hrest.ite with ⟨-, hend⟩ | ⟨-, hrest⟩
  · obtain ⟨-, rfl⟩ := hend.pure
    exact hi₁
  rcases hrest.ite with ⟨-, hend⟩ | ⟨-, hrest⟩
  · obtain ⟨-, rfl⟩ := hend.pure
    exact hi₁
  simp only [runs_bind_assert] at hrest
  obtain ⟨-, hrest⟩ := hrest
  obtain ⟨r', w₂, hget, hend⟩ := hrest.bind
  obtain ⟨-, hlt, hgot⟩ := xv6Iget_spec hget
  cases r' with
  | error e =>
    obtain ⟨-, rfl⟩ := hend.pure
    exact hi₁.igot hlt (fun _ hq => by cases hq) hgot
  | ok p =>
    obtain ⟨hr, rfl⟩ := hend.pure
    refine hi₁.igot hlt (fun q hq => ?_) hgot
    cases hq
    exact hgone p hr.symm

/-! ## Files and directories -/

theorem write {append : Bool} {buf : UserBuf} {len pos : Nat} {r : Int × Nat}
    (hi : VolumeInv ⟨w, g⟩) (hp : (Volume.mk w g).Live p)
    (h : Returns (xv6FileWrite p append buf len pos) w r w') : VolumeInv ⟨w', g⟩ := by
  obtain ⟨addrs', hgrew⟩ := fileWrite_grew hi.quiet (hi.fileReady hp) h
  exact hi.grew hp hgrew

theorem insert (hi : VolumeInv ⟨w, g⟩) (hp : (Volume.mk w g).Live p)
    (h : Returns (xv6DentryInsert p name n) w e w') : VolumeInv ⟨w', g⟩ := by
  obtain ⟨addrs', hgrew, -⟩ := dentryInsert_grew (.inl hi.quiet) (hi.fileReady hp) h
  exact hi.grew hp hgrew

theorem erase (hi : VolumeInv ⟨w, g⟩) (hp : (Volume.mk w g).Live p)
    (h : Returns (xv6DirErase p name) w e w') : VolumeInv ⟨w', g⟩ :=
  hi.grew hp (dirErase_grew (.inl hi.quiet) (hi.fileReady hp) h).1

theorem setNlink (hi : VolumeInv ⟨w, g⟩) (nlink : Nat) (dirty : Bool) :
    VolumeInv ⟨w.setInode p { w.inodes p with nlink := nlink, dirty := dirty }, g⟩ :=
  hi.setInode rfl rfl

theorem link (hi : VolumeInv ⟨w, g⟩) (hp : (Volume.mk w g).Live p)
    (hdir : (Volume.mk w g).Live dir) (h : Returns (xv6Link p dir name) w e w') :
    VolumeInv ⟨w', g⟩ := by
  simp only [xv6Link, Returns, runs_bind_getInode] at h
  rcases h.ite with ⟨-, hend⟩ | ⟨-, h⟩
  · obtain ⟨-, rfl⟩ := hend.pure
    exact hi
  obtain ⟨e₁, w₁, hins, hrest⟩ := h.bind
  have hi₁ := hi.insert hdir hins
  rcases hrest.ite with ⟨-, hend⟩ | ⟨-, hrest⟩
  · obtain ⟨-, rfl⟩ := hend.pure
    exact hi₁
  have hp₁ : (Volume.mk w₁ g).Live p :=
    ((keeps_dentryInsert (P := (· = dir)) rfl name _).via hins).live.mpr hp
  obtain ⟨u, w₂, hinc, hsync⟩ := hrest.bind
  obtain rfl := (runs_incLinkCount u).mp hinc
  exact (hi₁.setNlink _ true).sync hp₁ hsync

theorem rename {oldino newdir : Ptr} {newname : FileName} {badFlags : Bool}
    (hi : VolumeInv ⟨w, g⟩) (hold : (Volume.mk w g).Live dir) (hnew : (Volume.mk w g).Live newdir)
    (h : Returns (xv6Rename dir oldino name newdir newname badFlags) w e w') :
    VolumeInv ⟨w', g⟩ := by
  simp only [xv6Rename, Returns] at h
  rcases h.ite with ⟨-, hend⟩ | ⟨-, h⟩
  · obtain ⟨-, rfl⟩ := hend.pure
    exact hi
  rcases h.ite with ⟨-, hend⟩ | ⟨-, h⟩
  · obtain ⟨-, rfl⟩ := hend.pure
    exact hi
  obtain ⟨e₁, w₁, herase, hrest⟩ := h.bind
  have hi₁ := hi.erase hold herase
  have hnew₁ : (Volume.mk w₁ g).Live newdir :=
    ((keeps_dirErase (P := (· = dir)) rfl name).via herase).live.mpr hnew
  rcases hrest.ite with ⟨-, hend⟩ | ⟨-, hrest⟩
  · obtain ⟨-, rfl⟩ := hend.pure
    exact hi₁
  obtain ⟨r, w₂, hfind, hrest⟩ := hrest.bind
  have hlogs := findInum_readOnly hfind
  have hi₂ := hi₁.logs hlogs
  have hnew₂ : (Volume.mk w₂ g).Live newdir := by
    obtain ⟨l, rfl⟩ := hlogs
    exact hnew₁
  obtain ⟨e₂, dnum, de⟩ := r
  rcases hrest.ite with ⟨-, hend⟩ | ⟨-, hrest⟩
  · obtain ⟨-, rfl⟩ := hend.pure
    exact hi₂
  rcases hrest.ite with ⟨-, hend⟩ | ⟨-, hrest⟩
  · obtain ⟨-, rfl⟩ := hend.pure
    exact hi₂
  simp only [runs_bind_getInode] at hrest
  exact hi₂.insert hnew₂ hrest

end VolumeInv

end

end Xv6fs
