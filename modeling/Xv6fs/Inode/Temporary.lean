/-
  A file that is created, written and unlinked again.

  Creation takes the first block of the file, and maybe blocks for its directory; the writes take
  more for the file; and removing the last link gives back those that the file owns by then. What
  stays in use is what was, and what the directory has gained (`last_link_gives_back`).
-/
import Xv6fs.File.Grows
import Xv6fs.Inode.Made
import Xv6fs.Inode.Removed

namespace Xv6fs

section

variable {w w₁ w₂ w' : World} {A : Nat → Option Addrs} {dir p : Ptr} {nm : EntryName}
  {isdir : Bool} {n b : Nat} {addrs : Addrs}

/-- A name that is mapped is that of one entry. -/
theorem ValidDir.firstMatch {d : Disk} {size : Nat} {inum : UInt16} (hv : ValidDir d addrs size)
    (h : dirMap d addrs size nm = some inum) : ∃ k, FirstMatch d addrs size nm.name k := by
  obtain ⟨k, hk, htable⟩ := hv.dirMap_eq_some.mp h
  have hinum := (Dirent.binding_eq_some.mp htable).2.2
  have hmatch : Matches nm.name (dslot d addrs k) :=
    (hv.matches_iff hk).mpr (by rw [htable, hinum])
  refine ⟨k, hv.two_le_match hmatch, hk, hmatch, fun m _ hmk hm => ?_⟩
  have hother := (hv.matches_iff (by omega)).mp hm
  exact hmk.ne (hv.distinct m k _ _ _ (by omega) hk hother htable)

/-- The addresses of the inodes after a creation. -/
def madeAddrs (w : World) (A : Nat → Option Addrs) (dir : Ptr) (n b : Nat) (w' : World) :
    Nat → Option Addrs :=
  Function.update (Function.update A n (some (oneBlock b))) (w.inodes dir).ino (some (w'.addrs dir))

namespace MadeAs

variable (hs : CreateSite w A dir) (h : MadeAs w A dir nm isdir n b w₁)

include hs h

theorem ne_dir : n ≠ (w.inodes dir).ino := by
  rintro rfl
  exact hs.used h.unused.unused

/-- The new inode is ready to be written. -/
theorem fileReady : FileReady w₁ w.next n (madeAddrs w A dir n b w₁) (oneBlock b) where
  sound := h.env.symm ▸ hs.sound
  hint := h.env.symm ▸ h.hint
  priv := by
    rw [h.core]
    exact congrArg some (h.newSlot_addr hs _)
  at_n := by
    unfold madeAddrs
    rw [Function.update_of_ne (h.ne_dir hs), Function.update_self]
  owned := h.env.symm ▸ h.owned

/-- After it has been written the entry is its last link. -/
theorem lastLink (hrw : w.env.rdonly = false) (hfmt : (w.inodes dir).fmt = .dir)
    (hgrew : FileGrew w₁ w.next (oneBlock b) addrs w₂) :
    ∃ k, LastLink w₂ (Function.update (madeAddrs w A dir n b w₁) n (some addrs)) dir w.next
      nm.name k := by
  have hg := hs.sound
  have hne := h.ne_dir hs
  have hr := h.fileReady hs
  have henv : w₂.env = w.env := hgrew.env.trans h.env
  have hdir : w₂.inodes dir = w₁.inodes dir := hgrew.other hs.next.ne
  have hnum : (w₁.inodes dir).ino = (w.inodes dir).ino := congrArg Prod.fst h.node
  have hfmt₁ : (w₁.inodes dir).fmt = .dir :=
    (congrArg (fun node => node.2.1) h.node).trans hfmt
  obtain ⟨size, dirty, hfile⟩ := hgrew.inode
  rw [h.core] at hfile
  have hready := hgrew.ready hr
  -- the directory has not changed
  have hat : madeAddrs w A dir n b w₁ (w.inodes dir).ino = some (w₁.addrs dir) :=
    Function.update_self _ _ _
  have hgains := hgrew.grown.gains hr.sound hr.owned hr.at_n
  have hsame : SameFile w₁.disk (w₁.addrs dir) w₂.disk (w₁.addrs dir) := fun j hj =>
    (hgains.elsewhere hr.owned hr.at_n _ _ hne.symm hat j hj).2
  have haddrs : w₂.addrs dir = w₁.addrs dir := by
    have hslot : slot w₁.env w₂.disk (w.inodes dir).ino = slot w₁.env w₁.disk (w.inodes dir).ino :=
      HasSlot.same (by rw [h.env]; exact hg) (by rw [h.env]; exact hs.dirSlot) fun _ hx =>
        hgrew.grown.before hr.sound hr.owned hr.at_n hx
    simp only [World.addrs, hdir, hgrew.env, hnum, hslot]
  obtain ⟨hvalid, hmap⟩ := hsame.validDir h.parent
  have hentry : dirMap w₂.disk (w₁.addrs dir) (w₁.inodes dir).size nm = some (UInt16.ofNat n) := by
    rw [hmap]
    exact (congrFun h.map nm).trans (Function.update_self _ _ _)
  obtain ⟨k, hk⟩ := hvalid.firstMatch hentry
  have hle := hvalid.le
  have hsize : dirSize w₂ dir = (w₁.inodes dir).size := by
    simp only [MAXFILE, BSIZE] at hle
    unfold dirSize
    rw [hdir]
    exact Nat.mod_eq_of_lt (by omega)
  have hino : (w₂.inodes w.next).ino = n := by rw [hfile]; rfl
  have htwo := h.unused.ge
  refine ⟨k, ?_⟩
  constructor
  · exact ⟨henv.symm ▸ hrw, henv.symm ▸ hs.quiet, henv.symm ▸ hg⟩
  · exact hready.owned
  · rw [hino, World.addrs_of_priv hready.priv, Function.update_self]
  · rw [hdir, hnum, haddrs, Function.update_of_ne hne.symm]
    exact hat
  · rw [henv, hino]
    exact h.unused.lt
  · rw [henv, hdir, hnum]
    exact hs.dirSlot
  · rw [hfile]
    rfl
  · rw [hino]
    omega
  · rw [hino]
    simp only [ROOTINO]
    omega
  · rw [hino, hdir, hnum]
    exact hne
  · refine ⟨by rw [hdir]; exact hfmt₁, by rw [hdir, hnum]; exact hs.nonzero, ?_⟩
    rw [hsize]
    exact ⟨hvalid.mul, hvalid.ge⟩
  · exact nm.ok
  · rw [haddrs, hsize]
    exact hk
  · exact hk.lt.trans_le (size_slots hle)

end MadeAs

/-- The blocks in use after the creation, the writes and the removal. -/
theorem MadeAs.bits_restored {w₃ : World} {k : Nat} (hs : CreateSite w A dir)
    (h : MadeAs w A dir nm isdir n b w₁) (hgrew : FileGrew w₁ w.next (oneBlock b) addrs w₂)
    (hrem : Removed w₂ (Function.update (madeAddrs w A dir n b w₁) n (some addrs)) dir w.next k w₃)
    {x : Nat} (hx : InBitmap w.env x) : bitSet w.env w₃.disk x = true ↔
      bitSet w.env w.disk x = true ∨ Owns w₁.disk (w₁.addrs dir) x := by
  have hr := h.fileReady hs
  have hready := hgrew.ready hr
  have henv : w₂.env = w.env := hgrew.env.trans h.env
  have haddrs : w₂.addrs w.next = addrs := World.addrs_of_priv hready.priv
  have hgains := hgrew.grown.gains hr.sound hr.owned hr.at_n
  rw [h.env] at hgains
  have hbits := hrem.bits x (by rw [henv]; exact hx)
  rw [henv, haddrs] at hbits
  -- the file owns its first block, and what was free before it was created
  have hfirst : Owns w₂.disk addrs b := by
    refine hgains.kept b (owns_bmap (i := 0) (by decide) ?_)
    exact hs.sound.pos_of_isData h.data
  have hown : ∀ y, Owns w₁.disk (oneBlock b) y → y = b := by
    rintro y ⟨r, hy⟩
    refine (owns_oneFile (d := w₁.disk) (n := n) (q := (n, r)) ?_).2
    rw [owns_of (if_pos rfl)]
    exact hy
  have hfree : ∀ y, InBitmap w.env y → Owns w₂.disk addrs y → bitSet w.env w.disk y = false := by
    intro y hy hyo
    rcases hgains.fresh y hyo with hold | hnew
    · rw [hown y hold]
      exact h.free
    · by_contra hset
      rw [(h.bits y hy).mpr (.inl (by simpa using hset))] at hnew
      cases hnew
  -- the directory owns other blocks
  have hat : madeAddrs w A dir n b w₁ (w.inodes dir).ino = some (w₁.addrs dir) :=
    Function.update_self _ _ _
  have hkeep : ∀ y, Owns w₁.disk (w₁.addrs dir) y → w₂.disk y = w₁.disk y := fun y hy =>
    hgains.blocks y (h.owned.held_of_owns hat hy)
      (h.owned.not_owns hat hr.at_n (h.ne_dir hs) hy)
  have hdir : Owns w₁.disk (w₁.addrs dir) x → ¬ Owns w₂.disk addrs x := fun hd => by
    have hat₂ : Function.update (madeAddrs w A dir n b w₁) n (some addrs) (w.inodes dir).ino =
        some (w₁.addrs dir) := (Function.update_of_ne (h.ne_dir hs).symm _ _).trans hat
    exact hready.owned.not_owns hat₂ hready.at_n (h.ne_dir hs) ((owns_congr hkeep).mpr hd)
  rw [hbits, hgains.bits x hx, h.bits x hx]
  constructor
  · rintro ⟨((hset | rfl | hd) | ho), hno⟩
    · exact .inl hset
    · exact absurd hfirst hno
    · exact .inr hd
    · exact absurd ho hno
  · rintro (hset | hd)
    · refine ⟨.inl (.inl hset), fun ho => ?_⟩
      have hclear := hfree x hx ho
      rw [hset] at hclear
      cases hclear
    · exact ⟨.inl (.inr (.inr hd)), hdir hd⟩

/-- Removing the last link gives back what the file held; so a file that is created, written and
    unlinked leaves nothing in use but what its directory has gained. -/
theorem last_link_gives_back :
    (∀ {w A dir file name k}, LastLink w A dir file name k →
      ∃ w', Returns (xv6Unlink dir file name) w 0 w' ∧ Removed w A dir file k w') ∧
    (∀ {w w₁ w₂ A dir p rs} {nm : EntryName}, CreateSite w A dir → (w.inodes dir).fmt = .dir →
      dirMapAt w dir nm = none → Returns (xv6Create dir nm.name false) w (0, some p) w₁ →
      Steps (WriteStep p) w₁ rs w₂ →
      ∃ w₃, Returns (xv6Unlink dir p nm.name) w₂ 0 w₃ ∧
        ∀ x, InBitmap w.env x → (bitSet w.env w₃.disk x = true ↔
          bitSet w.env w.disk x = true ∨ Owns w₁.disk (w₁.addrs dir) x)) := by
  constructor
  · intro w A dir file name k hl
    obtain ⟨w', hrun, -, hrem⟩ := lastLink_removed hl
    exact ⟨w', hrun, hrem⟩
  · intro w w₁ w₂ A dir p rs nm hs hfmt hnone hcreate hwrites
    obtain ⟨hp, hrw, ⟨n, b, hmade⟩, -⟩ := create_made hs hnone hcreate
    cases hp
    obtain ⟨addrs, hgrew⟩ := writes_grew hwrites (hmade.env ▸ hs.quiet) (hmade.fileReady hs)
    obtain ⟨k, hl⟩ := hmade.lastLink hs hrw hfmt hgrew
    obtain ⟨w₃, hrun, -, hrem⟩ := lastLink_removed hl
    exact ⟨w₃, hrun, fun x hx => hmade.bits_restored hs hgrew hrem hx⟩

end

/-- A directory is unlinked; and a file of the root directory is created, three bytes are written
    to it, and it is unlinked. -/
theorem unlinked_files : (∃ w', Returns (xv6Unlink 0 1 entryA.name) twoDirs 0 w' ∧
    Removed twoDirs (Function.update (oneFile 1 20) 2 (some (oneBlock 21))) 0 1 2 w') ∧
    ∃ w₁ w₂ w₃ r, Returns (xv6Create 0 entryA.name false) (rootDir .little) (0, some 1) w₁ ∧
      Steps (WriteStep 1) w₁ [r] w₂ ∧ Returns (xv6Unlink 0 1 entryA.name) w₂ 0 w₃ ∧
      ∀ x, InBitmap (rootDir .little).env x → (bitSet (rootDir .little).env w₃.disk x = true ↔
        bitSet (rootDir .little).env (rootDir .little).disk x = true ∨
          Owns w₁.disk (w₁.addrs 0) x) := by
  refine ⟨last_link_gives_back.1 twoDirs_lastLink, ?_⟩
  have hcreate := returns_after (m := xv6Create 0 entryA.name false) (w := rootDir .little)
    (a := (0, some 1)) (by decide +kernel)
  generalize hw₁ : World.after (rootDir .little) (xv6Create 0 entryA.name false) = w₁ at hcreate
  have hwrite := returns_after (m := xv6FileWrite 1 false (fun _ => some 7) 3 0) (w := w₁)
    (a := (3, 3)) (by rw [← hw₁]; decide +kernel)
  have hsteps : Steps (WriteStep 1) w₁ [((3 : Int), 3)] _ := .single ⟨hwrite⟩
  obtain ⟨w₃, hrun, hbits⟩ :=
    last_link_gives_back.2 (rootDir_site _) rfl (by decide +kernel) hcreate hsteps
  exact ⟨_, _, w₃, _, hcreate, hsteps, hrun, hbits⟩

end Xv6fs
