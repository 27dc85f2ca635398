/-
  In-core inodes: what the operations on them leave behind.

  None of them touches the disk or the allocation hint, and none of them does block I/O except
  for the reads and the write-back of an inode's slot.
-/
import Xv6fs.Model.Super

namespace Xv6fs

/-- The block layer and the allocator are as they were. -/
structure SameDisk (w w' : World) : Prop where
  env : w'.env = w.env
  disk : w'.disk = w.disk
  hint : w'.hint = w.hint

theorem SameDisk.refl (w : World) : SameDisk w w := ⟨rfl, rfl, rfl⟩

theorem SameDisk.trans {w w' w'' : World} (h : SameDisk w w') (h' : SameDisk w' w'') :
    SameDisk w w'' :=
  ⟨h'.env.trans h.env, h'.disk.trans h.disk, h'.hint.trans h.hint⟩

section

variable {φ : Event → Prop} {w w' : World} {p : Ptr}

/-! ## Allocation -/

theorem kmalloc_spec {ok : Bool} (h : Runs φ kmalloc w ok w') :
    Faultless w w' ∧ ∃ l, w' = { w with log := l } := by
  obtain ⟨-, -, hw⟩ := (runs_kmalloc w w' ok).mp h
  refine ⟨?_, _, hw⟩
  rw [hw]
  refine (along_single w (.alloc (w.env.mem w.log.length)) _ rfl).mpr ?_
  trivial

/-- `new_inode` hands out a fresh inode at a new address, or fails. -/
theorem newInode_spec {r : Option Ptr} (h : Runs φ newInode w r w') :
    Faultless w w' ∧ ((r = none ∧ ∃ l, w' = { w with log := l }) ∨
      (r = some w.next ∧ ∃ l, w' = { w with
        inodes := Function.update w.inodes w.next .fresh, next := w.next + 1, log := l })) := by
  unfold newInode at h
  obtain ⟨ok, w₁, hmem, h⟩ := h.bind
  obtain ⟨hf, l, rfl⟩ := kmalloc_spec hmem
  rcases h.ite with ⟨-, h⟩ | ⟨-, h⟩
  · obtain ⟨rfl, rfl⟩ := h.pure
    exact ⟨hf, .inl ⟨rfl, l, rfl⟩⟩
  · simp only [runs_bind_get] at h
    obtain ⟨u, w₂, hchange, h⟩ := h.bind
    obtain rfl := (runs_change _ _ _ _ _).mp hchange
    obtain ⟨rfl, rfl⟩ := h.pure
    exact ⟨(faultless_congr rfl).mpr hf, .inr ⟨rfl, l, rfl⟩⟩

/-! ## Link counts -/

theorem runs_incLinkCount (u : Unit) : Runs φ (inodeIncLinkCount p) w u w' ↔
    w' = w.setInode p { w.inodes p with
      nlink := ((w.inodes p).nlink + 1) % 2 ^ 32, dirty := true } := by
  simp only [inodeIncLinkCount, markInodeDirty, runs_bind_modifyInode, runs_modifyInode,
    Function.update_self, Function.update_idem, World.setInode]

theorem runs_decLinkCount (u : Unit) : Runs φ (inodeDecLinkCount p) w u w' ↔
    w' = w.setInode p { w.inodes p with
      nlink := ((w.inodes p).nlink + (2 ^ 32 - 1)) % 2 ^ 32, dirty := true } := by
  simp only [inodeDecLinkCount, markInodeDirty, runs_bind_modifyInode, runs_modifyInode,
    Function.update_self, Function.update_idem, World.setInode]

/-! ## Dropping an inode -/

/-- `iput` keeps a hashed inode that has links, and evicts any other. -/
theorem iput_spec {u : Unit} (h : Runs φ (iput p) w u w') :
    ((w.inodes p).nlink ≠ 0 ∧ (w.inodes p).hashed = true ∧ w' = w) ∨
    (¬ ((w.inodes p).nlink ≠ 0 ∧ (w.inodes p).hashed = true) ∧
      ∃ t, (t = w.tree ∨ t = w.tree.erase p) ∧ w' = { w with
        inodes := Function.update w.inodes p
          { w.inodes p with priv := none, refcount := (w.inodes p).refcount - 1 }
        tree := t }) := by
  simp only [iput, runs_bind_getInode] at h
  rcases h.ite with ⟨hkeep, h⟩ | ⟨hgo, h⟩
  · obtain ⟨-, rfl⟩ := h.pure
    exact .inl ⟨hkeep.1, hkeep.2, rfl⟩
  · refine .inr ⟨hgo, ?_⟩
    simp only [xv6EvictInode, xv6FreeInode, runs_bind_modifyInode, Function.update_self,
      Function.update_idem, runs_bind_get] at h
    rcases h.ite with ⟨-, h⟩ | ⟨-, h⟩
    · obtain ⟨-, rfl⟩ := h.pure
      exact ⟨_, .inl rfl, rfl⟩
    · split at h
      · next q hq =>
        obtain ⟨u₁, w₁, hchange, h⟩ := h.bind
        obtain rfl := (runs_change _ _ _ _ _).mp hchange
        obtain ⟨rfl, rfl⟩ := (runs_assert _ _ _ _).mp h
        exact ⟨_, .inr rfl, rfl⟩
      · obtain ⟨-, rfl⟩ := h.pure
        exact ⟨_, .inl rfl, rfl⟩

theorem iput_sameDisk {u : Unit} (h : Runs φ (iput p) w u w') : SameDisk w w' := by
  rcases iput_spec h with ⟨-, -, rfl⟩ | ⟨-, t, -, rfl⟩
  · exact .refl _
  · exact ⟨rfl, rfl, rfl⟩

/-- `xv6_free_inode` of the last reference removes the inode from the tree, and is asserted to
    remove no other. -/
theorem xv6FreeInode_last {u : Unit} (href : (w.inodes p).refcount = 1) (hmem : p ∈ w.tree)
    (h : Runs φ (xv6FreeInode p) w u w') : w' = { w with
      inodes := Function.update w.inodes p { w.inodes p with refcount := 0 }
      tree := w.tree.erase p } := by
  simp only [xv6FreeInode, runs_bind_modifyInode, runs_bind_get, Function.update_self, href,
    Nat.sub_self, gt_iff_lt, Nat.lt_irrefl, if_false] at h
  split at h
  · obtain ⟨u₁, w₁, hchange, hend⟩ := h.bind
    obtain rfl := (runs_change _ _ _ _ _).mp hchange
    obtain ⟨rfl, rfl⟩ := (runs_assert _ _ _ _).mp hend
    rfl
  · next hnone =>
    have hno := List.find?_eq_none.mp hnone p hmem
    simp at hno

/-- `iput` of an inode that is not hashed and has one reference. -/
theorem iput_last {u : Unit} (hhash : (w.inodes p).hashed = false)
    (href : (w.inodes p).refcount = 1) (hmem : p ∈ w.tree) (h : Runs φ (iput p) w u w') :
    w' = { w with
      inodes := Function.update w.inodes p { w.inodes p with priv := none, refcount := 0 }
      tree := w.tree.erase p } := by
  simp only [iput, runs_bind_getInode] at h
  rcases h.ite with ⟨⟨-, hkeep⟩, -⟩ | ⟨-, hgo⟩
  · rw [hhash] at hkeep
    cases hkeep
  simp only [xv6EvictInode, runs_bind_modifyInode] at hgo
  have hfree := xv6FreeInode_last (w := w.setInode p { w.inodes p with priv := none })
    (by rw [World.setInode_self]; exact href) hmem hgo
  rw [hfree]
  simp only [World.setInode, Function.update_self, Function.update_idem]

/-! ## Filling in an inode -/

/-- The in-core inode of the slot `dino`. -/
def Inode.ofDinode (ino : Inode) (dino : Dinode) (inum : Nat) : Inode :=
  { ino with
    ino := inum
    nlink := dino.nlink.toNat
    fmt := if dino.type = T_DIR then .dir else .reg
    size := dino.size.toNat
    priv := some dino.addr
    hashed := true }

/-- `xv6_init_inode` fills in the inode, or stops before it is hashed. -/
theorem xv6InitInode_spec {dino : Dinode} {inum : Nat} {e : Int}
    (h : Runs φ (xv6InitInode p dino inum) w e w') :
    Faultless w w' ∧ ∃ ino l,
      w' = { w with inodes := Function.update w.inodes p ino, log := l } ∧
      ((e = 0 ∧ dino.type ≠ 0 ∧ ino = (w.inodes p).ofDinode dino inum) ∨
        ((e = -EINVAL ∨ e = -ENOMEM) ∧ ino.ino = inum ∧ ino.hashed = (w.inodes p).hashed ∧
          ino.priv = (w.inodes p).priv ∧ ino.refcount = (w.inodes p).refcount)) := by
  simp only [xv6InitInode, runs_bind_modifyInode] at h
  rcases h.ite with ⟨-, h⟩ | ⟨htype, h⟩
  · obtain ⟨rfl, rfl⟩ := h.pure
    exact ⟨(faultless_congr rfl).mpr (faultless_refl w), _, _, rfl,
      .inr ⟨.inl rfl, rfl, rfl, rfl, rfl⟩⟩
  · simp only [runs_bind_modifyInode, Function.update_self, Function.update_idem] at h
    obtain ⟨ok, w₁, hmem, h⟩ := h.bind
    obtain ⟨hf, l, rfl⟩ := kmalloc_spec hmem
    have hf' : ∀ w₂ : World, w₂.log = l → Faultless w w₂ := fun w₂ hl =>
      (faultless_congr (t := { w with log := l }) hl).mpr hf
    rcases h.ite with ⟨-, h⟩ | ⟨-, h⟩
    · obtain ⟨rfl, rfl⟩ := h.pure
      exact ⟨hf' _ rfl, _, _, rfl, .inr ⟨.inr rfl, rfl, rfl, rfl, rfl⟩⟩
    · simp only [runs_bind_modifyInode, Function.update_self, Function.update_idem] at h
      obtain ⟨rfl, rfl⟩ := h.pure
      refine ⟨hf' _ rfl, _, _, rfl, .inl ⟨rfl, ?_, rfl⟩⟩
      intro hzero
      rw [hzero] at htype
      exact htype (by decide)

theorem xv6InitInode_sameDisk {dino : Dinode} {inum : Nat} {e : Int}
    (h : Runs φ (xv6InitInode p dino inum) w e w') : SameDisk w w' := by
  obtain ⟨-, ino, l, rfl, -⟩ := xv6InitInode_spec h
  exact ⟨rfl, rfl, rfl⟩

/-! ## Finding an inode -/

/-- `xv6_find_inode` returns a cached inode of that number, or a fresh one, which it enters into
    the tree, or nothing. -/
theorem xv6FindInode_spec {inum : Nat} {r : Option Ptr × Bool} (hinum : inum ≠ 0)
    (h : Runs φ (xv6FindInode inum) w r w') :
    Faultless w w' ∧
    ((∃ p, r = (some p, true) ∧ p ∈ w.tree ∧ (w.inodes p).ino = inum ∧ w' = { w with
        inodes := Function.update w.inodes p
          { w.inodes p with refcount := (w.inodes p).refcount + 1 } }) ∨
      ((∀ p ∈ w.tree, (w.inodes p).ino ≠ inum) ∧ ∃ l,
        ((r = (none, false) ∧ w' = { w with log := l }) ∨
          (r = (some w.next, false) ∧ w' = { w with
            inodes := Function.update w.inodes w.next
              { Inode.fresh with refcount := 1, ino := inum }
            tree := w.next :: w.tree
            next := w.next + 1
            log := l })))) := by
  simp only [xv6FindInode, if_neg hinum, runs_bind_get] at h
  split at h
  · next p hp =>
    rw [runs_bind_modifyInode] at h
    obtain ⟨rfl, rfl⟩ := h.pure
    refine ⟨(faultless_congr rfl).mpr (faultless_refl w),
      .inl ⟨p, rfl, List.mem_of_find?_eq_some hp, ?_,
      rfl⟩⟩
    simpa using List.find?_some hp
  · next hnone =>
    have hnot : ∀ p ∈ w.tree, (w.inodes p).ino ≠ inum := by
      intro p hp
      simpa using List.find?_eq_none.mp hnone p hp
    obtain ⟨q, w₁, hnew, h⟩ := h.bind
    obtain ⟨hf, ⟨rfl, l, rfl⟩ | ⟨rfl, l, rfl⟩⟩ := newInode_spec hnew
    · obtain ⟨rfl, rfl⟩ := h.pure
      exact ⟨hf, .inr ⟨hnot, l, .inl ⟨rfl, rfl⟩⟩⟩
    · simp only [runs_bind_modifyInode, Function.update_self, Function.update_idem] at h
      obtain ⟨u, w₂, hchange, h⟩ := h.bind
      obtain rfl := (runs_change _ _ _ _ _).mp hchange
      obtain ⟨rfl, rfl⟩ := h.pure
      exact ⟨(faultless_congr rfl).mpr hf, .inr ⟨hnot, l, .inr ⟨rfl, rfl⟩⟩⟩

theorem xv6FindInode_sameDisk {inum : Nat} {r : Option Ptr × Bool} (hinum : inum ≠ 0)
    (h : Runs φ (xv6FindInode inum) w r w') : SameDisk w w' := by
  obtain ⟨-, ⟨p, -, -, -, rfl⟩ | ⟨-, l, ⟨-, rfl⟩ | ⟨-, rfl⟩⟩⟩ := xv6FindInode_spec hinum h
  all_goals exact ⟨rfl, rfl, rfl⟩

end

end Xv6fs
