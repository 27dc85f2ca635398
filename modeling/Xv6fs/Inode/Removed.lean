/-
  What removing the last link takes away.

  `xv6_unlink` of the last link clears the bits of the blocks that the inode owns, its slot, and
  the directory entry, and nothing else (`lastLink_removed`). `xv6_rmdir` gets that far exactly when
  the directory is empty (`rmdir_iff_empty`).
-/
import Xv6fs.Dir.Search
import Xv6fs.Inode.Clear
import Xv6fs.Inode.Numbers

namespace Xv6fs

/-- Entry `k` of `dir` is the one that `xv6_unlink` erases, and the link to `file` is its last. -/
structure LastLink (w : World) (A : Nat → Option Addrs) (dir file : Ptr) (name : FileName)
    (k : Nat) : Prop where
  ready : FreeReady w
  owned : Owned w.env w.disk A
  at_file : A (w.inodes file).ino = some (w.addrs file)
  at_dir : A (w.inodes dir).ino = some (w.addrs dir)
  fileSlot : HasSlot w.env (w.inodes file).ino
  dirSlot : HasSlot w.env (w.inodes dir).ino
  nlink : (w.inodes file).nlink = 1
  nonzero : (w.inodes file).ino ≠ 0
  notRoot : (w.inodes file).ino ≠ ROOTINO
  other : (w.inodes file).ino ≠ (w.inodes dir).ino
  search : SearchReady w dir
  nameOk : NameOk name
  entry : FirstMatch w.disk (w.addrs dir) (dirSize w dir) name k
  lt : k < MAXFILE * NENTS

/-- The inode at `file` and entry `k` of the directory are gone, and nothing else. -/
structure Removed (w : World) (A : Nat → Option Addrs) (dir file : Ptr) (k : Nat) (w' : World) :
    Prop where
  bits : ∀ x, InBitmap w.env x → (bitSet w.env w'.disk x = true ↔
    bitSet w.env w.disk x = true ∧ ¬ Owns w.disk (w.addrs file) x)
  slots : ∀ m, HasSlot w.env m → slot w.env w'.disk m =
    if m = (w.inodes file).ino then Dinode.zero else slot w.env w.disk m
  entries : SlotSet w.disk (w.addrs dir) k Dirent.erased w'.disk (w.addrs dir)
  elsewhere : Elsewhere w.disk (Function.update A (w.inodes file).ino none) (w.inodes dir).ino
    w'.disk
  owned : Owned w.env w'.disk (Function.update A (w.inodes file).ino none)
  inodes : ∀ q, q ≠ file → w'.inodes q = w.inodes q
  dirAddrs : w'.addrs dir = w.addrs dir

section

variable {w w' : World} {A : Nat → Option Addrs} {dir file : Ptr} {name : FileName} {k : Nat}
  {d D : Disk} {di : Dinode}

theorem ifree_returns {n : Nat} (hq : Quiet w.env) : ∃ l, Returns (xv6Ifree n) w 0
    { w with disk := setSlot w.env w.disk n Dinode.zero, log := l } := by
  obtain ⟨e, w', h⟩ := total_ifree n w
  have h := returns_iff.mpr h
  obtain ⟨rfl, l, rfl⟩ := ifree_spec (fun _ h => h) (Returns.calm hq h)
  exact ⟨l, h⟩

/-! ## The disk -/

/-- The disk on which entry `k` of the directory has been erased. -/
def erasedEntry (d : Disk) (addrs : Addrs) (k : Nat) : Disk :=
  Function.update d (bmap d addrs (k / NENTS))
    ((d (bmap d addrs (k / NENTS))).setDirent (k % NENTS) Dirent.erased)

/-- Freeing the blocks, writing the slot, erasing the entry and zeroing the slot. -/
structure RemovedDisk (w : World) (dir file : Ptr) (k : Nat) (D : Disk) : Prop where
  bits : ∀ x, InBitmap w.env x → (bitSet w.env D x = true ↔
    bitSet w.env w.disk x = true ∧ ¬ Owns w.disk (w.addrs file) x)
  slots : ∀ m, HasSlot w.env m → slot w.env D m =
    if m = (w.inodes file).ino then Dinode.zero else slot w.env w.disk m
  data : ∀ x, IsData w.env x → D x = erasedEntry w.disk (w.addrs dir) k x

theorem LastLink.removed_disk (di : Dinode) (hl : LastLink w A dir file name k)
    (hb : IsData w.env (bmap w.disk (w.addrs dir) (k / NENTS)))
    (hfree : Frees w.env w.disk (Owns w.disk (w.addrs file)) d)
    (hD : D = setSlot w.env (Function.update (setSlot w.env d (w.inodes file).ino di)
      (bmap w.disk (w.addrs dir) (k / NENTS))
      ((w.disk (bmap w.disk (w.addrs dir) (k / NENTS))).setDirent (k % NENTS) Dirent.erased))
      (w.inodes file).ino Dinode.zero) : RemovedDisk w dir file k D := by
  have hg := hl.ready.sound
  have hb' := hg.data_ge hb
  refine ⟨fun x hx => ?_, fun m hm => ?_, fun x hx => ?_⟩
  · have hge := hg.bitmapBlock_ge hx
    rw [hD, bitSet_congr (hl.fileSlot.setSlot_block hg hge), hg.bitSet_update _ _ hx hb,
      bitSet_congr (hl.fileSlot.setSlot_block hg hge)]
    exact hfree.bits x hx
  · by_cases hmn : m = (w.inodes file).ino
    · rw [if_pos hmn, hmn, hD]
      exact slot_setSlot_self
    · have hlt := hm.block_lt hg
      rw [if_neg hmn, hD, hl.fileSlot.setSlot_ne hg hm hmn]
      unfold slot
      rw [Function.update_of_ne (by omega)]
      refine (hl.fileSlot.setSlot_ne hg hm hmn).trans ?_
      unfold slot
      rw [hfree.blocks _ (.inl hlt)]
  · have hge := hg.data_ge hx
    rw [hD, hl.fileSlot.setSlot_block hg (by omega)]
    unfold erasedEntry
    by_cases hxb : x = bmap w.disk (w.addrs dir) (k / NENTS)
    · rw [hxb, Function.update_self, Function.update_self]
    · rw [Function.update_of_ne hxb, Function.update_of_ne hxb,
        hl.fileSlot.setSlot_block hg (by omega)]
      exact hfree.data hx

/-- Such a disk differs from the old one in what is removed only. -/
theorem LastLink.removed (hl : LastLink w A dir file name k)
    (hne : bmap w.disk (w.addrs dir) (k / NENTS) ≠ 0) (hD : RemovedDisk w dir file k w'.disk)
    (hinodes : ∀ q, q ≠ file → w'.inodes q = w.inodes q) (henv : w'.env = w.env) :
    Removed w A dir file k w' := by
  have hg := hl.ready.sound
  have hk := slot_block hl.lt
  have hheld := hl.owned.held_bmap hl.at_dir hk hne
  -- the blocks of every inode but the directory are as they were
  have hkeep : ∀ m a, A m = some a → m ≠ (w.inodes dir).ino → ∀ x, Owns w.disk a x →
      w'.disk x = w.disk x := by
    intro m a hA hm x hx
    rw [hD.data x (hl.owned.held_of_owns hA hx).1]
    refine Function.update_of_ne ?_ _ _
    rintro rfl
    exact hl.owned.not_owns hl.at_dir hA hm (owns_bmap hk hne) hx
  have hwrote : Owned w.env (erasedEntry w.disk (w.addrs dir) k) A :=
    owned_store hg hl.owned hl.at_dir hk hne _
  refine ⟨hD.bits, hD.slots, ?_, ?_, ?_, hinodes, ?_⟩
  · have hset : SlotSet w.disk (w.addrs dir) k Dirent.erased (erasedEntry w.disk (w.addrs dir) k)
        (w.addrs dir) := slotSet_update hl.owned hl.at_dir hk rfl hne
    intro i hi
    rw [← hset i hi]
    exact (hwrote.sameFile hl.at_dir hD.data).slots hi
  · intro m a hm hA j hj
    have hmf : m ≠ (w.inodes file).ino := by
      rintro rfl
      rw [Function.update_self] at hA
      cases hA
    rw [Function.update_of_ne hmf] at hA
    exact ⟨bmap_congr (hkeep m a hA hm), fblock_congr hj (hkeep m a hA hm)⟩
  · refine Exclusive.drop hl.owned fun p x hp => ?_
    obtain ⟨m, r⟩ := p
    have hmf : m ≠ (w.inodes file).ino := by
      rintro rfl
      unfold owns at hp
      rw [Function.update_self] at hp
      cases hp
    cases hA : A m with
    | none =>
      unfold owns at hp
      rw [Function.update_of_ne hmf, hA] at hp
      cases hp
    | some a =>
      rw [owns_of (by rwa [Function.update_of_ne hmf])] at hp
      have hind : a.get NDIRECT ≠ 0 → w'.disk (a.get NDIRECT) = w.disk (a.get NDIRECT) := by
        intro hz
        rw [hD.data _ (hl.owned.held_indirect hA hz).1]
        exact Function.update_of_ne (hl.owned.bmap_ne_indirect hl.at_dir hA hk hne).symm _ _
      rw [ownedAt_congr hind] at hp
      have hown : Owns w.disk a x := ⟨r, hp⟩
      have hold := hl.owned.held_of_owns hA hown
      exact ⟨(owns_of hA).trans hp, hold.1, (hD.bits x hold.inBitmap).mpr
        ⟨hold.2, hl.owned.not_owns hA hl.at_file (Ne.symm hmf) hown⟩⟩
  · unfold World.addrs
    rw [hinodes dir fun h => hl.other (by rw [h]), henv, hD.slots _ hl.dirSlot,
      if_neg hl.other.symm]

/-! ## The call -/

/-- The directory is found as it was after the inode has been cleared. -/
theorem LastLink.dir_after (hl : LastLink w A dir file name k)
    (hfree : Frees w.env w.disk (Owns w.disk (w.addrs file)) d)
    (henv : w'.env = w.env) (hdir : w'.inodes dir = w.inodes dir)
    (hdisk : w'.disk = setSlot w.env d (w.inodes file).ino di) :
    w'.addrs dir = w.addrs dir ∧ dirSize w' dir = dirSize w dir ∧ SearchReady w' dir ∧
      (∀ x, IsData w.env x → w'.disk x = w.disk x) ∧
      FirstMatch w'.disk (w.addrs dir) (dirSize w dir) name k := by
  have hg := hl.ready.sound
  have hdata : ∀ x, IsData w.env x → w'.disk x = w.disk x := fun x hx => by
    rw [hdisk, hl.fileSlot.setSlot_block hg (hg.data_ge hx)]
    exact hfree.data hx
  have hsize : dirSize w' dir = dirSize w dir := by
    unfold dirSize
    rw [hdir]
  have hslot : slot w.env w'.disk (w.inodes dir).ino = slot w.env w.disk (w.inodes dir).ino := by
    rw [hdisk, hl.fileSlot.setSlot_ne hg hl.dirSlot hl.other.symm]
    unfold slot
    rw [hfree.blocks _ (.inl (hl.dirSlot.block_lt hg))]
  have hsame : ∀ {i}, i < MAXFILE * NENTS →
      dslot w'.disk (w.addrs dir) i = dslot w.disk (w.addrs dir) i := fun hi =>
    (hl.owned.sameFile hl.at_dir hdata).slots hi
  have hmax := hl.lt
  refine ⟨?_, hsize, ⟨by rw [hdir]; exact hl.search.fmt, by rw [hdir]; exact hl.search.nonzero,
    by rw [hsize]; exact hl.search.whole⟩, hdata, hl.entry.ge, hl.entry.lt, ?_, fun m hm hm' => ?_⟩
  · unfold World.addrs
    rw [hdir, henv, hslot]
  · rw [hsame hmax]
    exact hl.entry.sat
  · rw [hsame (by omega)]
    exact hl.entry.before m hm hm'

/-- `xv6_unlink` of the last link returns, and what it removes is the inode and the entry. -/
theorem lastLink_removed (hl : LastLink w A dir file name k) :
    ∃ w', Returns (xv6Unlink dir file name) w 0 w' ∧ w'.env = w.env ∧
      Removed w A dir file k w' := by
  have hne : dir ≠ file := fun h => hl.other (by rw [h])
  -- the link count
  let w₁ : World := { w with
    inodes := Function.update w.inodes file { w.inodes file with nlink := 0, dirty := true } }
  have hfile₁ : w₁.inodes file = { w.inodes file with nlink := 0, dirty := true } :=
    Function.update_self _ _ _
  have hdir₁ : w₁.inodes dir = w.inodes dir := Function.update_of_ne hne _ _
  have haddrs₁ : w₁.addrs file = w.addrs file := by
    unfold World.addrs
    rw [hfile₁]
  have hdec : Returns (inodeDecLinkCount file) w () w₁ := by
    refine (runs_decLinkCount ()).mpr ?_
    rw [hl.nlink]
    rfl
  -- the inode is cleared
  obtain ⟨d, di, w₂, hclear, henv₂, hfree, hdisk₂, hother₂⟩ := inodeClear_frees (w := w₁)
    (hl.ready.of_env rfl) (by rw [hfile₁]; exact hl.nonzero) hl.owned
    (by rw [haddrs₁]; exact hl.at_file)
  rw [haddrs₁] at hfree
  rw [hfile₁] at hdisk₂
  have hdir₂ : w₂.inodes dir = w.inodes dir := (hother₂ dir hne).trans hdir₁
  obtain ⟨haddrs, hsize, hsearch, hdata, hfirst⟩ := hl.dir_after hfree henv₂ hdir₂ hdisk₂
  -- the entry is erased
  have hq₂ : Quiet w₂.env := henv₂ ▸ hl.ready.quiet
  obtain ⟨hnz, l₃, herase⟩ := dirErase_first hsearch hq₂ hl.nameOk (by rw [haddrs, hsize]; exact
    hfirst) hl.lt
  have hmap : bmap w₂.disk (w₂.addrs dir) (k / NENTS) = bmap w.disk (w.addrs dir) (k / NENTS) := by
    rw [haddrs]
    exact bmap_congr fun x hx => hdata x (hl.owned.held_of_owns hl.at_dir hx).1
  rw [hmap] at hnz herase
  have hb := (hl.owned.held_bmap hl.at_dir (slot_block hl.lt) hnz).1
  rw [hdata _ hb] at herase
  -- the slot is zeroed
  obtain ⟨l₄, hifree⟩ := ifree_returns (n := (w.inodes file).ino) (w := { w₂ with
    disk := Function.update w₂.disk (bmap w.disk (w.addrs dir) (k / NENTS))
      ((w.disk (bmap w.disk (w.addrs dir) (k / NENTS))).setDirent (k % NENTS) Dirent.erased)
    log := l₃ }) hq₂
  refine ⟨{ w₂ with
    disk := setSlot w₂.env (Function.update w₂.disk (bmap w.disk (w.addrs dir) (k / NENTS))
      ((w.disk (bmap w.disk (w.addrs dir) (k / NENTS))).setDirent (k % NENTS) Dirent.erased))
      (w.inodes file).ino Dinode.zero
    log := l₄ }, ?_, henv₂, hl.removed hnz (hl.removed_disk di hb hfree ?_) ?_ henv₂⟩
  · simp only [xv6Unlink, Returns, runs_bind_getInode]
    refine (returns_bind hdec).mpr ?_
    simp only [Returns, runs_bind_getInode, hfile₁, ne_eq, not_true_eq_false, if_false,
      runs_bind_assert, hl.nonzero, not_false_eq_true, true_and, hl.notRoot, hdir₁, hl.other]
    refine (returns_bind hclear).mpr ?_
    simp only [not_true_eq_false, if_false]
    exact (returns_bind herase).mpr hifree
  · change w₂.disk = setSlot w.env d (w.inodes file).ino di at hdisk₂
    rw [← hdisk₂, henv₂]
  · exact fun q hq => (hother₂ q hq).trans (Function.update_of_ne hq _ _)

/-! ## Directories -/

theorem LastLink.logged (hl : LastLink w A dir file name k) (l : List Event) :
    LastLink { w with log := l } A dir file name k :=
  ⟨hl.ready.of_env rfl, hl.owned, hl.at_file, hl.at_dir, hl.fileSlot, hl.dirSlot, hl.nlink,
    hl.nonzero, hl.notRoot, hl.other, ⟨hl.search.fmt, hl.search.nonzero, hl.search.whole⟩,
    hl.nameOk, hl.entry, hl.lt⟩

/-- A directory that `xv6_dir_rmtest` can look through. -/
structure Testable (w : World) (p : Ptr) : Prop where
  fmt : (w.inodes p).fmt = .dir
  mul : (w.inodes p).size % 16 = 0
  ge : 2 * 16 ≤ (w.inodes p).size
  le : (w.inodes p).size ≤ MAXFILE * BSIZE
  names : ∀ j, j < (w.inodes p).size / 16 → (dslot w.disk (w.addrs p) j).inum ≠ 0 →
    (dslot w.disk (w.addrs p) j).name 0 ≠ 0

theorem Testable.dirSize_eq (ht : Testable w file) : dirSize w file = (w.inodes file).size := by
  have hle := ht.le
  simp only [MAXFILE, BSIZE] at hle
  exact Nat.mod_eq_of_lt (by omega)

/-- `xv6_rmdir` removes a directory when it is empty, and otherwise changes nothing. -/
theorem rmdir_iff_empty (hl : LastLink w A dir file name k) (ht : Testable w file) :
    ∃ e w', Returns (xv6Rmdir dir file name) w e w' ∧
      (e = 0 ↔ EmptyDir w.disk (w.addrs file) (w.inodes file).size) ∧
      (e = 0 → Removed w A dir file k w') ∧
      (e ≠ 0 → e = -ENOTEMPTY ∧ ∃ l, w' = { w with log := l }) := by
  have hsize := ht.dirSize_eq
  have hsearch : SearchReady w file :=
    ⟨ht.fmt, hl.nonzero, by rw [hsize]; exact ⟨ht.mul, ht.ge⟩⟩
  obtain ⟨e, l, htest, he, hempty⟩ := dirRmtest_answers hsearch hl.ready.quiet
    (by rw [hsize]; exact ht.le) fun j _ hj => ht.names j (by rwa [← hsize])
  rw [hsize] at hempty
  have hstart : ∀ {e' : Int} {w' : World}, Returns (if e ≠ 0 then return e
      else xv6Unlink dir file name) { w with log := l } e' w' →
      Returns (xv6Rmdir dir file name) w e' w' := by
    intro e' w' h
    simp only [xv6Rmdir, Returns, runs_bind_getInode, hl.search.fmt, ht.fmt, ne_eq,
      not_true_eq_false, if_false]
    exact (returns_bind htest).mpr h
  rcases he with rfl | rfl
  · obtain ⟨w', hunlink, -, hrem⟩ := lastLink_removed (hl.logged l)
    refine ⟨0, w', hstart ?_, hempty, fun _ => ?_, fun h => absurd rfl h⟩
    · rw [if_neg (by simp)]
      exact hunlink
    · exact ⟨hrem.bits, hrem.slots, hrem.entries, hrem.elsewhere, hrem.owned, hrem.inodes,
        hrem.dirAddrs⟩
  · refine ⟨-ENOTEMPTY, _, hstart ?_, hempty, fun h => absurd h (by decide), fun _ => ⟨rfl, l, rfl⟩⟩
    rw [if_pos (by decide)]
    exact returns_iff.mpr rfl

end

/-! ## Two directories -/

/-- Two inodes of one block each. -/
theorem owned_two {env : Env} {d : Disk} {n m b c : Nat} (hbc : b ≠ c) (hb : Held env d b)
    (hc : Held env d c) : Owned env d (Function.update (oneFile n b) m (some (oneBlock c))) := by
  have hown : ∀ {p : Nat × Role} {x : Nat},
      owns d (Function.update (oneFile n b) m (some (oneBlock c))) p = some x →
        (p = (n, .direct 0) ∧ x = b) ∨ (p = (m, .direct 0) ∧ x = c) := by
    rintro ⟨q, r⟩ x hp
    rw [owns_update] at hp
    split at hp
    · next hq =>
      refine .inr (owns_oneFile (d := d) ?_)
      rw [owns_of (if_pos hq)]
      exact hp
    · exact .inl (owns_oneFile hp)
  refine ⟨fun hp => ?_, fun hp hp' => ?_⟩
  · rcases hown hp with ⟨-, rfl⟩ | ⟨-, rfl⟩
    · exact hb
    · exact hc
  · rcases hown hp with ⟨rfl, rfl⟩ | ⟨rfl, rfl⟩ <;> rcases hown hp' with ⟨rfl, h⟩ | ⟨rfl, h⟩
    · rfl
    · exact absurd h hbc
    · exact absurd h.symm hbc
    · rfl

/-- Directory 2, with its block at 21, is the entry `a` of the root directory. -/
def twoDirs : World :=
  let w := World.blank ⟨64, 0, 32, 0, 1, 1, 4⟩ 6
  { w with
    disk := markUsed w.env (markUsed w.env (fun b =>
      if b = 20 then Block.setDirent 2 ⟨2, strncpy entryA.name⟩ dotsBlock
      else if b = 21 then dotsBlock else Buf.zero) 20) 21
    inodes := fun p => ⟨p + 1, .dir, 1, if p = 0 then 48 else 32, some (oneBlock (20 + p)), false,
      true, 1⟩ }

theorem twoDirs_lastLink :
    LastLink twoDirs (Function.update (oneFile 1 20) 2 (some (oneBlock 21))) 0 1 entryA.name 2 where
  ready := ⟨rfl, fun _ => rfl, by decide, by decide⟩
  owned := owned_two (by decide) ⟨by decide, by decide +kernel⟩ ⟨by decide, by decide +kernel⟩
  at_file := rfl
  at_dir := rfl
  fileSlot := by unfold HasSlot; decide
  dirSlot := by unfold HasSlot; decide
  nlink := rfl
  nonzero := by decide
  notRoot := by decide
  other := by decide
  search := ⟨rfl, by decide, by decide⟩
  nameOk := entryA.ok
  entry := ⟨by decide, by decide, by unfold Matches; decide +kernel, fun m h h' => by omega⟩
  lt := by decide

theorem twoDirs_removed : ∃ e w', Returns (xv6Rmdir 0 1 entryA.name) twoDirs e w' ∧
    (e = 0 ↔ EmptyDir twoDirs.disk (twoDirs.addrs 1) (twoDirs.inodes 1).size) ∧
    (e = 0 → Removed twoDirs (Function.update (oneFile 1 20) 2 (some (oneBlock 21))) 0 1 2 w') ∧
    (e ≠ 0 → e = -ENOTEMPTY ∧ ∃ l, w' = { twoDirs with log := l }) :=
  rmdir_iff_empty twoDirs_lastLink ⟨rfl, by decide, by decide, by decide, by decide +kernel⟩

end Xv6fs
