/-
  xv6_iget and xv6_free_inode.

  A call of xv6_iget finds a node, or loads the slot into a new inode, or fails and leaves the tree
  as it was (`xv6Iget_spec`). It always returns (`xv6Iget_returns`): the assertion of xv6_free_inode
  can only fail when another node has the number of the inode (`xv6FreeInode_own`).
-/
import Xv6fs.Fs.Core
import Xv6fs.File.Contents
import Xv6fs.Balloc.Termination

namespace Xv6fs

section

variable {φ : Event → Prop} {w w' : World} {p : Ptr} {n : Nat}

/-! ## Freeing an inode -/

/-- The state after `xv6_free_inode`, when no other node has the number of the inode. -/
def World.freed (w : World) (p : Ptr) : World :=
  { w with
    inodes := Function.update w.inodes p
      { w.inodes p with refcount := (w.inodes p).refcount - 1 }
    tree := if (w.inodes p).refcount - 1 = 0 then w.tree.erase p else w.tree }

theorem xv6FreeInode_own (hown : ∀ q, q ∈ w.tree → (w.inodes q).ino = (w.inodes p).ino → q = p) :
    Returns (xv6FreeInode p) w () (w.freed p) := by
  simp only [xv6FreeInode, runs_bind_modifyInode, runs_bind_get, Function.update_self]
  by_cases href : (w.inodes p).refcount - 1 = 0
  · simp only [href, gt_iff_lt, Nat.lt_irrefl, if_false]
    -- the number of an inode is not changed
    have hnum : ∀ q, (Function.update w.inodes p { w.inodes p with refcount := 0 } q).ino =
        (w.inodes q).ino := by
      intro q
      by_cases hq : q = p
      · rw [hq, Function.update_self]
      · rw [Function.update_of_ne hq]
    simp only [hnum]
    cases hfind : w.tree.find? fun q => (w.inodes q).ino = (w.inodes p).ino with
    | some q =>
      obtain rfl : q = p := by
        refine hown q (List.mem_of_find?_eq_some hfind) ?_
        simpa using List.find?_some hfind
      refine (runs_bind_change _).mpr ((runs_assert _ _ _ _).mpr ⟨rfl, ?_⟩)
      simp only [World.freed, href, if_true]
    | none =>
      have hno : p ∉ w.tree := fun hmem => by
        have := List.find?_eq_none.mp hfind p hmem
        simp at this
      simp only [World.freed, href, if_true, List.erase_of_not_mem hno]
      exact returns_iff.mpr rfl
  · rw [if_pos (Nat.pos_of_ne_zero href)]
    simp only [World.freed, href, if_false]
    exact returns_iff.mpr rfl

/-- A call that returns has removed the inode, and no other, when this was the last reference. -/
theorem xv6FreeInode_spec {u : Unit} (h : Runs φ (xv6FreeInode p) w u w') : w' = w.freed p := by
  simp only [xv6FreeInode, runs_bind_modifyInode, runs_bind_get, Function.update_self] at h
  rcases h.ite with ⟨hpos, hend⟩ | ⟨hzero, hend⟩
  · obtain ⟨-, rfl⟩ := hend.pure
    simp only [World.freed, if_neg hpos.ne']
  · have href : (w.inodes p).refcount - 1 = 0 := by omega
    split at hend
    · obtain ⟨u₁, w₁, hchange, hlast⟩ := hend.bind
      obtain rfl := (runs_change _ _ _ _ _).mp hchange
      obtain ⟨rfl, rfl⟩ := (runs_assert _ _ _ _).mp hlast
      simp only [World.freed, if_pos href]
    · next hnone =>
      obtain ⟨-, rfl⟩ := hend.pure
      have hno : p ∉ w.tree := fun hmem => by
        have hp := List.find?_eq_none.mp hnone p hmem
        simp at hp
      simp only [World.freed, if_pos href, List.erase_of_not_mem hno]

/-- What the last `iput` does. -/
def evict (p : Ptr) : Fs Unit := do
  xv6EvictInode p
  xv6FreeInode p

/-- `evict` takes away one reference of the module's own, and removes the inode with the last. -/
theorem evict_spec {u : Unit} (h : Runs φ (evict p) w u w') :
    w' = { w with
      inodes := Function.update w.inodes p
        { w.inodes p with priv := none, refcount := (w.inodes p).refcount - 1 }
      tree := if (w.inodes p).refcount - 1 = 0 then w.tree.erase p else w.tree } := by
  simp only [evict, xv6EvictInode, runs_bind_modifyInode] at h
  rw [xv6FreeInode_spec h]
  simp only [World.freed, Function.update_self, Function.update_idem]

/-! ## Finding or loading an inode -/

/-- The inode at `p` after a load of number `n`. -/
def World.loadedInode (w : World) (n : Nat) : Inode :=
  Inode.ofDinode { Inode.fresh with refcount := 1, ino := n } (slot w.env w.disk n) n

/-- The outcomes of a call. -/
inductive Igot (w : World) (n : Nat) : Except Int Ptr → World → Prop where
  | found {p : Ptr} (hmem : p ∈ w.tree) (hino : (w.inodes p).ino = n) :
      Igot w n (.ok p) (w.setInode p { w.inodes p with refcount := (w.inodes p).refcount + 1 })
  | nomem {l : List Event} (hnone : ∀ p ∈ w.tree, (w.inodes p).ino ≠ n) :
      Igot w n (.error (-ENOMEM)) { w with log := l }
  | failed {e : Int} {ino : Inode} {l : List Event} (hnone : ∀ p ∈ w.tree, (w.inodes p).ino ≠ n)
      (he : e = - EIO ∨ e = -EINVAL ∨ e = -ENOMEM) (hpriv : ino.priv = none)
      (hhash : ino.hashed = false) :
      Igot w n (.error e)
        { w with inodes := Function.update w.inodes w.next ino, next := w.next + 1, log := l }
  | loaded {l : List Event} (hnone : ∀ p ∈ w.tree, (w.inodes p).ino ≠ n)
      (htype : (slot w.env w.disk n).type ≠ 0) :
      Igot w n (.ok w.next)
        { w with
          inodes := Function.update w.inodes w.next (w.loadedInode n)
          tree := w.next :: w.tree
          next := w.next + 1
          log := l }

/-- A new node that could not be loaded is dropped, and leaves the tree. -/
theorem iput_new {u : Unit} {ino : Inode} {t : List Ptr} {q : Ptr} {w₁ : World}
    (hw : w₁.inodes q = ino) (htree : w₁.tree = q :: t) (hhash : ino.hashed = false)
    (href : ino.refcount = 1) (h : Runs φ (iput q) w₁ u w') :
    w' = { w₁ with
      inodes := Function.update w₁.inodes q { ino with priv := none, refcount := 0 }
      tree := t } := by
  subst hw
  rw [iput_last hhash href (by rw [htree]; exact List.mem_cons_self) h, htree,
    List.erase_cons_head]

theorem xv6Iget_spec {r : Except Int Ptr} (h : Runs φ (xv6Iget n) w r w') :
    n ≠ 0 ∧ n < w.env.info.ninodes ∧ Igot w n r w' := by
  simp only [xv6Iget, runs_bind_getEnv, runs_bind_assert] at h
  obtain ⟨⟨hpos, hlt⟩, hrun⟩ := h
  refine ⟨hpos, hlt, ?_⟩
  obtain ⟨r₁, w₁, hfind, hrest⟩ := hrun.bind
  obtain ⟨-, ⟨p, rfl, hmem, hino, rfl⟩ | ⟨hnone, l, ⟨rfl, rfl⟩ | ⟨rfl, rfl⟩⟩⟩ :=
    xv6FindInode_spec hpos hfind
  · obtain ⟨rfl, rfl⟩ := hrest.pure
    exact .found hmem hino
  · obtain ⟨rfl, rfl⟩ := hrest.pure
    exact .nomem hnone
  obtain ⟨ok, w₂, hread, hload⟩ := hrest.bind
  obtain ⟨-, l₂, rfl⟩ := sbBread_spec hread
  rcases hload.ite with ⟨-, hend⟩ | ⟨-, hend⟩
  · obtain ⟨u, w₃, hput, hlast⟩ := hend.bind
    obtain ⟨rfl, rfl⟩ := hlast.pure
    rw [iput_new (t := w.tree) (Function.update_self _ _ _) rfl rfl rfl hput]
    simp only [Function.update_idem]
    exact .failed hnone (.inl rfl) rfl rfl
  · simp only [runs_bind_bdata, runs_bind_modifyInode, Function.update_self,
      Function.update_idem] at hend
    obtain ⟨e, w₃, hinit, hlast⟩ := hend.bind
    obtain ⟨-, ino, l₃, rfl, hino⟩ := xv6InitInode_spec hinit
    simp only [Function.update_self, Function.update_idem] at hino hlast ⊢
    rcases hino with ⟨rfl, htype, rfl⟩ | ⟨he, -, hhash, -, href⟩
    · obtain ⟨rfl, rfl⟩ := hlast.pure
      exact .loaded hnone htype
    · rcases hlast.ite with ⟨-, hend⟩ | ⟨heq, -⟩
      · obtain ⟨u, w₄, hput, hend⟩ := hend.bind
        obtain ⟨rfl, rfl⟩ := hend.pure
        rw [iput_new (t := w.tree) (Function.update_self _ _ _) rfl hhash href hput]
        simp only [Function.update_idem]
        exact .failed hnone (.inr he) rfl hhash
      · rcases he with rfl | rfl <;> exact absurd heq (by decide)

/-! ## A call returns -/

theorem total_kmalloc : Prog.Total kmalloc := Prog.total_step _ _

theorem total_newInode : Prog.Total newInode :=
  .bind total_kmalloc fun _ => .ite (Prog.total_pure _) <| .bind Prog.total_get fun _ =>
    .bind total_change fun _ => Prog.total_pure _

theorem total_findInode (n : Nat) : Prog.Total (xv6FindInode n) :=
  .ite (.bind total_newInode fun _ => Prog.total_pure _) <| .bind Prog.total_get fun w => by
    cases w.tree.find? fun p => (w.inodes p).ino = n with
    | some p =>
      dsimp only
      exact .bind total_change fun _ => Prog.total_pure _
    | none =>
      refine .bind total_newInode fun r => ?_
      cases r with
      | none => exact Prog.total_pure _
      | some p =>
        dsimp only
        exact .bind total_change fun _ => .bind total_change fun _ => Prog.total_pure _

theorem total_initInode (p : Ptr) (dino : Dinode) (n : Nat) :
    Prog.Total (xv6InitInode p dino n) :=
  .bind total_change fun _ => .ite (Prog.total_pure _) <| .bind total_change fun _ =>
    .bind total_kmalloc fun _ => .ite (Prog.total_pure _) <| .bind total_change fun _ =>
      Prog.total_pure _

/-- `iput` of an inode whose number no other node has. -/
theorem iput_returns (hown : ∀ q, q ∈ w.tree → (w.inodes q).ino = (w.inodes p).ino → q = p) :
    ∃ w', Returns (iput p) w () w' := by
  simp only [iput, runs_bind_getInode]
  split
  · exact ⟨w, returns_iff.mpr rfl⟩
  · simp only [xv6EvictInode, runs_bind_modifyInode]
    refine ⟨_, xv6FreeInode_own fun q hq hnum => hown q hq ?_⟩
    have hnode : ∀ x, (Function.update w.inodes p { w.inodes p with priv := none } x).ino =
        (w.inodes x).ino := by
      intro x
      by_cases hx : x = p
      · rw [hx, Function.update_self]
      · rw [Function.update_of_ne hx]
    simp only [hnode] at hnum
    exact hnum

theorem xv6Iget_returns (hpos : n ≠ 0) (hlt : n < w.env.info.ninodes) :
    ∃ r w', Returns (xv6Iget n) w r w' := by
  simp only [xv6Iget, runs_bind_getEnv, runs_bind_assert, exists_and_left]
  refine ⟨⟨hpos, hlt⟩, ?_⟩
  obtain ⟨r₁, w₁, hrun⟩ := total_findInode n w
  have hfind : Returns (xv6FindInode n) w r₁ w₁ := returns_iff.mpr hrun
  refine returns_bind_exists hfind ?_
  obtain ⟨-, ⟨p, rfl, hmem, hino, rfl⟩ | ⟨hnone, l, ⟨rfl, rfl⟩ | ⟨rfl, rfl⟩⟩⟩ :=
    xv6FindInode_spec hpos hfind
  · exact ⟨_, _, returns_iff.mpr rfl⟩
  · exact ⟨_, _, returns_iff.mpr rfl⟩
  -- the only node of this number is the new one, so it can be dropped
  have hdrop : ∀ ino (w₂ : World) (r : Except Int Ptr), ino.ino = n →
      w₂.tree = w.next :: w.tree → w₂.inodes = Function.update w.inodes w.next ino →
      ∃ r' w₃, Returns (do iput w.next; return r) w₂ r' w₃ := by
    intro ino w₂ r hino htree hinodes
    obtain ⟨w₃, hput⟩ := iput_returns (p := w.next) (w := w₂) fun q hq hnum => by
      by_contra hne
      rw [hinodes, Function.update_self, Function.update_of_ne hne, hino] at hnum
      rw [htree] at hq
      exact hnone q ((List.mem_cons.mp hq).resolve_left hne) hnum
    exact returns_bind_exists hput ⟨_, _, returns_iff.mpr rfl⟩
  obtain ⟨ok, w₂, hrun₂⟩ := total_sbBread (inodeBlock w.env n) _
  refine returns_bind_exists (returns_iff.mpr hrun₂) ?_
  obtain ⟨-, l₂, rfl⟩ := sbBread_spec (returns_iff.mpr hrun₂)
  cases ok with
  | false => exact hdrop _ _ _ rfl rfl rfl
  | true =>
    simp only [Bool.not_true, Bool.false_eq_true, if_false, runs_bind_bdata, runs_bind_modifyInode]
    obtain ⟨e, w₃, hrun₃⟩ := total_initInode w.next
      ((w.disk (inodeBlock w.env n)).dinode (n % IPB)) n _
    refine returns_bind_exists (returns_iff.mpr hrun₃) ?_
    obtain ⟨-, ino, l₃, rfl, hino⟩ := xv6InitInode_spec (returns_iff.mpr hrun₃)
    by_cases he : e = 0
    · rw [if_neg (not_not.mpr he)]
      exact ⟨_, _, returns_iff.mpr rfl⟩
    · rw [if_pos he]
      have hnum : ino.ino = n := by
        rcases hino with ⟨h0, -⟩ | ⟨-, hnum, -⟩
        · exact absurd h0 he
        · exact hnum
      refine hdrop ino _ _ hnum rfl ?_
      simp only [Function.update_idem]

/-! ## A call in which nothing fails -/

theorem xv6InitInode_returns {dino : Dinode} (hmem : ∀ k, w.env.mem k = true)
    (htype : dino.type = T_DIR ∨ dino.type = T_FILE ∨ dino.type = T_DEVICE) :
    ∃ l, Returns (xv6InitInode p dino n) w 0 { w with
      inodes := Function.update w.inodes p (Inode.ofDinode (w.inodes p) dino n), log := l } := by
  simp [xv6InitInode, hmem, htype, World.logged, Inode.ofDinode]

/-- When nothing fails an inode that is not in core is loaded. -/
theorem xv6Iget_loads (hq : Quiet w.env) (hmem : ∀ k, w.env.mem k = true) (hpos : n ≠ 0)
    (hlt : n < w.env.info.ninodes) (hnone : ∀ p ∈ w.tree, (w.inodes p).ino ≠ n)
    (htype : (slot w.env w.disk n).type = T_DIR ∨ (slot w.env w.disk n).type = T_FILE ∨
      (slot w.env w.disk n).type = T_DEVICE) :
    ∃ l, Returns (xv6Iget n) w (.ok w.next) { w with
      inodes := Function.update w.inodes w.next (w.loadedInode n)
      tree := w.next :: w.tree
      next := w.next + 1
      log := l } := by
  have hfind : w.tree.find? (fun p => decide ((w.inodes p).ino = n)) = none :=
    List.find?_eq_none.mpr fun q hq' => by simpa using hnone q hq'
  have hload : ∃ l, Returns (xv6FindInode n) w (some w.next, false) { w with
      inodes := Function.update w.inodes w.next { Inode.fresh with refcount := 1, ino := n }
      tree := w.next :: w.tree
      next := w.next + 1
      log := l } := by
    simp [xv6FindInode, newInode, rbAdd, hfind, hmem, hpos, World.logged]
  obtain ⟨l, hload⟩ := hload
  simp only [xv6Iget, runs_bind_getEnv, runs_bind_assert, exists_and_left]
  refine ⟨⟨hpos, hlt⟩, ?_⟩
  simp only [returns_bind hload]
  obtain ⟨l', hinit⟩ := xv6InitInode_returns (p := w.next) (n := n) (w := { w with
    inodes := Function.update
      (Function.update w.inodes w.next { Inode.fresh with refcount := 1, ino := n }) w.next
      { Inode.fresh with refcount := 1, ino := n }
    tree := w.next :: w.tree
    next := w.next + 1
    log := .bread (inodeBlock w.env n) .ok :: l }) hmem htype
  refine ⟨l', (quiet_bind_sbBread (by exact hq)).mpr ⟨trivial, ?_⟩⟩
  simp only [Function.update_self] at hinit
  simp only [Bool.not_true, Bool.false_eq_true, if_false, runs_bind_bdata, runs_bind_modifyInode,
    Function.update_self, World.logged]
  rw [show (w.disk (inodeBlock w.env n)).dinode (n % IPB) = slot w.env w.disk n from rfl]
  refine (returns_bind hinit).mpr ?_
  simp only [ne_eq, not_true_eq_false, if_false, Function.update_idem]
  exact (Prog.via_pure _ _ _ _).mpr ⟨rfl, rfl⟩

end

end Xv6fs
