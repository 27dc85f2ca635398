/-
  The inode tree over whole runs of xv6_iget, xv6_create, xv6_unlink and xv6_free_inode.

  A slot number is free for xv6_create as soon as xv6_ifree has cleared the slot, while the node of
  the unlinked inode stays in the tree until the inode is freed. As long as no creation takes the
  number of an inode that is still in core, and xv6_iget is not called for the number of an inode in
  core that has been unlinked or that a failed creation has left there, the tree is a map from
  numbers to inodes, and xv6_iget returns the inode that owns the slot (`tree_is_map`). Unlinking an
  open file and creating another puts two nodes of one number into it (`unlink_create_same_number`);
  which of the two rb_find meets depends on the shape of the tree, which is not modelled, so only
  the presence of both is stated there.

  An inode that could not be loaded or created is freed within the call that drops it.
-/
import Xv6fs.Lib.Steps
import Xv6fs.Inode.Iget
import Xv6fs.Inode.Create

namespace Xv6fs

/-! ## The system -/

/-- `core` holds the in-core inodes that have not been freed, and `owner` the inode that a slot has
    last been given to, or loaded into, until it is cleared or the inode freed. `lost` holds the
    inodes that serve no slot: `xv6_unlink` has cleared it, or `xv6_create` has failed and left the
    inode in core. -/
structure TreeState where
  world : World
  core : List Ptr
  owner : Nat → Option Ptr
  lost : List Ptr

inductive TreeLabel where
  | iget (n : Nat) (r : Except Int Ptr)
  | create (dir : Ptr) (name : FileName) (isdir : Bool)
  | unlink (dir p : Ptr) (name : FileName)
  | free (p : Ptr)

namespace TreeState

/-- An inode that `xv6_iget` has returned. -/
def enter (s : TreeState) (w : World) (n : Nat) (p : Ptr) : TreeState :=
  if p ∈ s.core then { s with world := w }
  else { s with world := w, core := p :: s.core, owner := Function.update s.owner n (some p) }

/-- The new inode of `xv6_create`, which is in core when it is returned, or when `iput` has kept
    it. -/
def create (s : TreeState) (w : World) : Option Ptr → TreeState
  | some q =>
    { s with
      world := w
      core := q :: s.core
      owner := Function.update s.owner (w.inodes q).ino (some q) }
  | none =>
    if s.world.next < w.next ∧ (w.inodes s.world.next).hashed then
      { s with world := w, core := s.world.next :: s.core, lost := s.world.next :: s.lost }
    else { s with world := w }

/-- `xv6_unlink` returns 0 for an inode that has no links left when the slot has been cleared. -/
def unlink (s : TreeState) (w : World) (p : Ptr) (e : Int) : TreeState :=
  if e = 0 ∧ (w.inodes p).nlink = 0 then
    { s with
      world := w
      owner := Function.update s.owner (w.inodes p).ino none
      lost := p :: s.lost }
  else { s with world := w }

/-- `kmem_cache_free` is reached when no reference is left. -/
def free (s : TreeState) (w : World) (p : Ptr) : TreeState :=
  if (w.inodes p).refcount = 0 then
    { s with
      world := w
      core := s.core.erase p
      owner := fun n => if s.owner n = some p then none else s.owner n }
  else { s with world := w }

end TreeState

inductive TreeStep : TreeState → TreeLabel → TreeState → Prop where
  | iget {s : TreeState} {n : Nat} {p : Ptr} {w : World}
      (h : Returns (xv6Iget n) s.world (.ok p) w) : TreeStep s (.iget n (.ok p)) (s.enter w n p)
  | igetError {s : TreeState} {n : Nat} {e : Int} {w : World}
      (h : Returns (xv6Iget n) s.world (.error e) w) :
      TreeStep s (.iget n (.error e)) { s with world := w }
  | create {s : TreeState} {dir : Ptr} {name : FileName} {isdir : Bool} {r : Int × Option Ptr}
      {w : World} (hdir : dir ∈ s.core) (h : Returns (xv6Create dir name isdir) s.world r w) :
      TreeStep s (.create dir name isdir) (s.create w r.2)
  | unlink {s : TreeState} {dir p : Ptr} {name : FileName} {e : Int} {w : World}
      (hp : p ∈ s.core) (h : Returns (xv6Unlink dir p name) s.world e w) :
      TreeStep s (.unlink dir p name) (s.unlink w p e)
  | free {s : TreeState} {p : Ptr} {w : World} (hp : p ∈ s.core)
      (h : Returns (xv6FreeInode p) s.world () w) : TreeStep s (.free p) (s.free w p)

/-- `xv6_iget` is not called for the number of an in-core inode that has lost its slot; a creation
    that gets as far as `xv6_ialloc` does not take the slot number of an in-core inode. -/
def SlotsKept (s : TreeState) : TreeLabel → Prop
  | .iget n _ => ∀ p, p ∈ s.core → (s.world.inodes p).ino = n → p ∉ s.lost
  | .create _ name _ => name.length ≤ DIRSIZ → s.world.ReachesIalloc → ∀ p, p ∈ s.core →
      ¬ FirstUnused s.world.env s.world.disk (s.world.inodes p).ino
  | _ => True

/-- The tree holds one node for a number at most, and freeing an in-core inode, also at the end of
    `xv6_iget` and `xv6_create`, fails no assertion and removes no other node. -/
structure TreeIsMap (s : TreeState) : Prop where
  nodup : s.world.tree.Nodup
  unique : ∀ p q, p ∈ s.world.tree → q ∈ s.world.tree →
    (s.world.inodes p).ino = (s.world.inodes q).ino → p = q
  free : ∀ p, p ∈ s.core → ∃ w, Returns (xv6FreeInode p) s.world () w ∧
    ∀ q, q ≠ p → (q ∈ w.tree ↔ q ∈ s.world.tree)
  iget : ∀ n r, SlotsKept s (.iget n r) → n ≠ 0 → n < s.world.env.info.ninodes →
    ∃ r' w, Returns (xv6Iget n) s.world r' w ∧ ∀ q, q ∈ s.world.tree → q ∈ w.tree
  create : ∀ dir name isdir, dir ∈ s.core → name.length ≤ DIRSIZ →
    SlotsKept s (.create dir name isdir) → ∀ q w₁ e w₂, Returns newInode s.world (some q) w₁ →
      Returns (xv6Create.alloc dir q name isdir) w₁ e w₂ → e ≠ 0 →
        ∃ w₃, Returns (iput q) w₂ () w₃ ∧ w₃.tree = s.world.tree

/-- `xv6_iget` returns the inode that owns the slot, or when none does a new one, with what is in
    the slot, which owns it from then on. -/
def ServesOwner (s : TreeState) (a : TreeLabel) (t : TreeState) : Prop :=
  ∀ n p, a = .iget n (.ok p) → t.owner n = some p ∧ (∀ q, s.owner n = some q → p = q) ∧
    (s.owner n = none → p ∉ s.core ∧ (slot s.world.env s.world.disk n).type ≠ 0 ∧
      t.world.inodes p = s.world.loadedInode n)

/-! ## The invariant -/

/-- The nodes of the tree are in core, the in-core inodes have different numbers, a slot is owned by
    the node of its number, and an in-core inode owns its slot unless it has lost it. -/
structure TreeInv (s : TreeState) : Prop where
  ready : s.world.TableReady
  nodup : s.world.tree.Nodup
  nodup_core : s.core.Nodup
  core : ∀ p, p ∈ s.world.tree → p ∈ s.core
  below : ∀ p, p ∈ s.core → p < s.world.next
  pos : ∀ p, p ∈ s.core → (s.world.inodes p).ino ≠ 0
  unique : ∀ p q, p ∈ s.core → q ∈ s.core →
    (s.world.inodes p).ino = (s.world.inodes q).ino → p = q
  owned : ∀ n p, s.owner n = some p → p ∈ s.world.tree ∧ (s.world.inodes p).ino = n
  owner : ∀ p, p ∈ s.core → p ∉ s.lost → s.owner (s.world.inodes p).ino = some p

/-- The tree has been a map so far, and its nodes own their slots. -/
def TreeState.init (w : World) : TreeState :=
  ⟨w, w.tree, fun n => w.tree.find? fun p => (w.inodes p).ino = n, []⟩

/-- What is asked of the state in which a run begins: a mounted file system whose tree is a map. -/
structure TreeStart (w : World) : Prop where
  ready : w.TableReady
  nodup : w.tree.Nodup
  below : ∀ p, p ∈ w.tree → p < w.next
  pos : ∀ p, p ∈ w.tree → (w.inodes p).ino ≠ 0
  unique : ∀ p q, p ∈ w.tree → q ∈ w.tree → (w.inodes p).ino = (w.inodes q).ino → p = q

variable {s t : TreeState} {a : TreeLabel} {as : List TreeLabel}

theorem TreeInv.init {w : World} (h : TreeStart w) : TreeInv (.init w) where
  ready := h.ready
  nodup := h.nodup
  nodup_core := h.nodup
  core _ hp := hp
  below := h.below
  pos := h.pos
  unique := h.unique
  owned n p hp := by
    have hfind : w.tree.find? (fun p => (w.inodes p).ino = n) = some p := hp
    have hnum : (w.inodes p).ino = n := by simpa using List.find?_some hfind
    exact ⟨List.mem_of_find?_eq_some hfind, hnum⟩
  owner p hp _ := by
    show w.tree.find? (fun q => (w.inodes q).ino = (w.inodes p).ino) = some p
    cases hfind : w.tree.find? fun q => (w.inodes q).ino = (w.inodes p).ino with
    | none =>
      have hno := List.find?_eq_none.mp hfind p hp
      simp at hno
    | some q =>
      have hnum : (w.inodes q).ino = (w.inodes p).ino := by simpa using List.find?_some hfind
      rw [h.unique q p (List.mem_of_find?_eq_some hfind) hp hnum]

namespace TreeInv

/-- The number of an in-core inode is that of no other node. -/
theorem own (hi : TreeInv s) {p : Ptr} (hp : p ∈ s.core) {q : Ptr} (hq : q ∈ s.world.tree)
    (hnum : (s.world.inodes q).ino = (s.world.inodes p).ino) : q = p :=
  hi.unique q p (hi.core q hq) hp hnum

theorem next_not_mem (hi : TreeInv s) : s.world.next ∉ s.world.tree := fun hmem =>
  Nat.lt_irrefl _ (hi.below _ (hi.core _ hmem))

/-- Neither the tree nor the numbers of the inodes in core have changed. -/
theorem congr (hi : TreeInv s) {w : World} {owner : Nat → Option Ptr} {lost : List Ptr}
    (henv : w.env = s.world.env) (hhint : HintOk s.world.env w.hint)
    (htree : w.tree = s.world.tree) (hnext : s.world.next ≤ w.next)
    (hino : ∀ q, q ∈ s.core → (w.inodes q).ino = (s.world.inodes q).ino)
    (howner : ∀ n p, owner n = some p → s.owner n = some p)
    (hlost : ∀ p, p ∈ s.core → p ∉ lost → p ∉ s.lost ∧
      owner (s.world.inodes p).ino = s.owner (s.world.inodes p).ino) :
    TreeInv ⟨w, s.core, owner, lost⟩ where
  ready := ⟨henv ▸ hi.ready.sound, henv ▸ hi.ready.table, henv ▸ hhint⟩
  nodup := htree ▸ hi.nodup
  nodup_core := hi.nodup_core
  core p hp := hi.core p (htree ▸ hp)
  below p hp := lt_of_lt_of_le (hi.below p hp) hnext
  pos p hp := by
    rw [hino p hp]
    exact hi.pos p hp
  unique p q hp hq h := by
    rw [hino p hp, hino q hq] at h
    exact hi.unique p q hp hq h
  owned n p h := by
    obtain ⟨hmem, hnum⟩ := hi.owned n p (howner n p h)
    rw [htree, hino p (hi.core p hmem)]
    exact ⟨hmem, hnum⟩
  owner p hp hl := by
    obtain ⟨hold, heq⟩ := hlost p hp hl
    rw [hino p hp]
    exact heq.trans (hi.owner p hp hold)

/-- The same when no slot changes its owner. -/
theorem congr_owner (hi : TreeInv s) {w : World} (henv : w.env = s.world.env)
    (hhint : HintOk s.world.env w.hint) (htree : w.tree = s.world.tree)
    (hnext : s.world.next ≤ w.next)
    (hino : ∀ q, q ∈ s.core → (w.inodes q).ino = (s.world.inodes q).ino) :
    TreeInv { s with world := w } :=
  hi.congr henv hhint htree hnext hino (fun _ _ h => h) fun _ _ h => ⟨h, rfl⟩

/-- A new inode in core, whose number no other has. -/
theorem add (hi : TreeInv s) {w : World} {n : Nat} {owner : Nat → Option Ptr} {lost : List Ptr}
    (henv : w.env = s.world.env) (hhint : HintOk s.world.env w.hint)
    (htree : w.tree = s.world.next :: s.world.tree ∨ w.tree = s.world.tree)
    (hnext : w.next = s.world.next + 1)
    (hino : ∀ q, q ∈ s.core → (w.inodes q).ino = (s.world.inodes q).ino)
    (hnew : (w.inodes s.world.next).ino = n) (hpos : n ≠ 0)
    (hother : ∀ q, q ∈ s.core → (s.world.inodes q).ino ≠ n)
    (howner : ∀ m p, owner m = some p → s.owner m = some p ∨
      (m = n ∧ p = s.world.next ∧ s.world.next ∈ w.tree))
    (hlost : ∀ p, p ∉ lost → p ∉ s.lost) (hkept : ∀ m, m ≠ n → owner m = s.owner m)
    (hgiven : s.world.next ∉ lost → owner n = some s.world.next) :
    TreeInv ⟨w, s.world.next :: s.core, owner, lost⟩ where
  ready := ⟨henv ▸ hi.ready.sound, henv ▸ hi.ready.table, henv ▸ hhint⟩
  nodup := by
    rcases htree with h | h
    · rw [h]
      exact List.nodup_cons.mpr ⟨hi.next_not_mem, hi.nodup⟩
    · rw [h]
      exact hi.nodup
  nodup_core := List.nodup_cons.mpr
    ⟨fun hmem => Nat.lt_irrefl _ (hi.below _ hmem), hi.nodup_core⟩
  core p hp := by
    rcases htree with h | h
    · rw [h] at hp
      rcases List.mem_cons.mp hp with rfl | hp
      · exact List.mem_cons_self
      · exact List.mem_cons_of_mem _ (hi.core p hp)
    · rw [h] at hp
      exact List.mem_cons_of_mem _ (hi.core p hp)
  below p hp := by
    rw [hnext]
    rcases List.mem_cons.mp hp with rfl | hp
    · exact Nat.lt_succ_self _
    · exact Nat.lt_succ_of_lt (hi.below p hp)
  pos p hp := by
    rcases List.mem_cons.mp hp with rfl | hp
    · rw [hnew]
      exact hpos
    · rw [hino p hp]
      exact hi.pos p hp
  unique p q hp hq h := by
    rcases List.mem_cons.mp hp with rfl | hp
    · rcases List.mem_cons.mp hq with rfl | hq
      · rfl
      · rw [hnew, hino q hq] at h
        exact absurd h.symm (hother q hq)
    · rcases List.mem_cons.mp hq with rfl | hq
      · rw [hnew, hino p hp] at h
        exact absurd h (hother p hp)
      · rw [hino p hp, hino q hq] at h
        exact hi.unique p q hp hq h
  owned m p h := by
    rcases howner m p h with hold | ⟨rfl, rfl, hmem⟩
    · obtain ⟨hmem, hnum⟩ := hi.owned m p hold
      rw [hino p (hi.core p hmem)]
      refine ⟨?_, hnum⟩
      rcases htree with h | h
      · rw [h]
        exact List.mem_cons_of_mem _ hmem
      · rw [h]
        exact hmem
    · exact ⟨hmem, hnew⟩
  owner p hp hl := by
    rcases List.mem_cons.mp hp with rfl | hp
    · rw [hnew]
      exact hgiven hl
    · rw [hino p hp]
      exact (hkept _ (hother p hp)).trans (hi.owner p hp (hlost p hl))

/-- The in-core inode of a number owns the slot, unless it has lost it. -/
theorem owner_eq (hi : TreeInv s) {n : Nat} {r : Except Int Ptr} (hg : SlotsKept s (.iget n r))
    {p : Ptr} (hp : p ∈ s.core) (hino : (s.world.inodes p).ino = n) : s.owner n = some p := by
  have hown := hi.owner p hp (hg p hp hino)
  rwa [hino] at hown

theorem iget (hi : TreeInv s) {n : Nat} {r : Except Int Ptr} {w : World}
    (hg : SlotsKept s (.iget n r)) (h : Igot s.world n r w) (hpos : n ≠ 0) :
    match r with
    | .ok p => TreeInv (s.enter w n p) ∧ ServesOwner s (.iget n (.ok p)) (s.enter w n p)
    | .error _ => TreeInv { s with world := w } := by
  cases h with
  | @found p hmem hino =>
    have hp := hi.core p hmem
    have howner := hi.owner_eq hg hp hino
    simp only [TreeState.enter, if_pos hp]
    refine ⟨hi.congr_owner rfl hi.ready.hint rfl le_rfl fun q _ => ?_, ?_⟩
    · by_cases hq : q = p
      · rw [hq, World.setInode_self]
      · exact congrArg Inode.ino (Function.update_of_ne hq _ _)
    · intro m q heq
      cases heq
      refine ⟨howner, fun q hq => ?_, fun hnone => ?_⟩
      · rw [howner] at hq
        exact Option.some.inj hq
      · rw [howner] at hnone
        cases hnone
  | nomem => exact hi.congr_owner rfl hi.ready.hint rfl le_rfl fun _ _ => rfl
  | failed =>
    refine hi.congr_owner rfl hi.ready.hint rfl (Nat.le_succ _) fun q hq => ?_
    exact congrArg Inode.ino (Function.update_of_ne (hi.below q hq).ne _ _)
  | loaded hnone htype =>
    have hnew : s.world.next ∉ s.core := fun hmem => Nat.lt_irrefl _ (hi.below _ hmem)
    simp only [TreeState.enter, if_neg hnew]
    refine ⟨hi.add rfl hi.ready.hint (.inl rfl) rfl (fun q hq => ?_) ?_ hpos (fun q hq hnum => ?_)
      (fun m p hm => ?_) (fun _ h => h) (fun m hm => Function.update_of_ne hm _ _)
      fun _ => Function.update_self _ _ _, ?_⟩
    · exact congrArg Inode.ino (Function.update_of_ne (hi.below q hq).ne _ _)
    · exact (congrArg Inode.ino (Function.update_self s.world.next _ s.world.inodes)).trans rfl
    · -- such an inode would own the slot, and then its node would have been found
      exact hnone q (hi.owned n q (hi.owner_eq hg hq hnum)).1 hnum
    · by_cases hmn : m = n
      · rw [hmn, Function.update_self] at hm
        exact .inr ⟨hmn, (Option.some.inj hm).symm, List.mem_cons_self⟩
      · rw [Function.update_of_ne hmn] at hm
        exact .inl hm
    · intro m q heq
      cases heq
      refine ⟨Function.update_self _ _ _, fun q hq => ?_, fun _ =>
        ⟨hnew, htype, Function.update_self _ _ _⟩⟩
      obtain ⟨hmem, hnum⟩ := hi.owned n q hq
      exact absurd hnum (hnone q hmem)

theorem create (hi : TreeInv s) {dir : Ptr} {isdir : Bool} {r : Int × Option Ptr} {w : World}
    (hg : s.world.ReachesIalloc → ∀ p, p ∈ s.core →
      ¬ FirstUnused s.world.env s.world.disk (s.world.inodes p).ino)
    (h : Created s.world dir isdir r w) : TreeInv (s.create w r.2) := by
  have hino : OtherNodes dir s.world.next s.world w → ∀ q, q ∈ s.core →
      (w.inodes q).ino = (s.world.inodes q).ino := fun ho q hq =>
    congrArg Prod.fst (ho.node q (hi.below q hq).ne)
  have hnum : ∀ {n}, (w.inodes s.world.next).Created isdir n →
      (w.inodes s.world.next).ino = n := fun h => congrArg Prod.fst h.1
  have hother : ∀ {n}, s.world.ReachesIalloc →
      (s.world.TableReady → FirstUnused s.world.env s.world.disk n) →
      ∀ q, q ∈ s.core → (s.world.inodes q).ino ≠ n := by
    rintro n hr hn q hq rfl
    exact hg hr q hq (hn hi.ready)
  have hpos : ∀ {n}, (s.world.TableReady → FirstUnused s.world.env s.world.disk n) → n ≠ 0 :=
    fun hn h0 => by
      have := (hn hi.ready).ge
      omega
  have hhint : OtherNodes dir s.world.next s.world w → HintOk s.world.env w.hint := fun ho =>
    ho.hint hi.ready.sound hi.ready.hint
  cases h with
  | refused he =>
    simp only [TreeState.create, Nat.lt_irrefl, false_and, if_false]
    exact hi.congr_owner rfl hi.ready.hint rfl le_rfl fun _ _ => rfl
  | dropped he ho htree hnext hhash =>
    simp only [TreeState.create, hhash, Bool.false_eq_true, and_false, if_false]
    exact hi.congr_owner ho.env (hhint ho) htree (hnext ▸ Nat.le_succ _) (hino ho)
  | kept he ho htree hnext hr hn hnew =>
    have hhash : (w.inodes s.world.next).hashed = true := congrArg (·.2.2.1) hnew.1
    simp only [TreeState.create, hhash, hnext, Nat.lt_succ_self, and_self, if_true]
    exact hi.add ho.env (hhint ho) (.inr htree) hnext (hino ho) (hnum hnew) (hpos hn)
      (hother hr hn) (fun _ _ h => .inl h) (fun _ hl h => hl (List.mem_cons_of_mem _ h))
      (fun _ _ => rfl) fun hl => absurd List.mem_cons_self hl
  | @made n _ ho htree hnext hr hn hnew =>
    simp only [TreeState.create, hnum hnew]
    refine hi.add ho.env (hhint ho) (.inl htree) hnext (hino ho) (hnum hnew) (hpos hn)
      (hother hr hn) (fun m p hm => ?_) (fun _ h => h) (fun m hm => Function.update_of_ne hm _ _)
      fun _ => Function.update_self _ _ _
    by_cases hmn : m = n
    · rw [hmn, Function.update_self] at hm
      refine .inr ⟨hmn, (Option.some.inj hm).symm, ?_⟩
      rw [htree]
      exact List.mem_cons_self
    · rw [Function.update_of_ne hmn] at hm
      exact .inl hm

theorem unlink (hi : TreeInv s) {P : Ptr → Prop} {p : Ptr} {e : Int} {w : World} (hp : p ∈ s.core)
    (h : SameNodes P s.world w) : TreeInv (s.unlink w p e) := by
  have hhint := h.hint hi.ready.sound hi.ready.hint
  unfold TreeState.unlink
  split
  · refine hi.congr h.env hhint h.tree h.next.ge (fun q _ => h.ino q) (fun n q hq => ?_)
      fun q hq hl => ?_
    · by_cases hn : n = (w.inodes p).ino
      · rw [hn, Function.update_self] at hq
        cases hq
      · rwa [Function.update_of_ne hn] at hq
    · obtain ⟨hne, hold⟩ := not_or.mp (List.mem_cons.not.mp hl)
      refine ⟨hold, Function.update_of_ne (fun hnum => hne ?_) _ _⟩
      rw [h.ino p] at hnum
      exact hi.unique q p hq hp hnum
  · exact hi.congr_owner h.env hhint h.tree h.next.ge fun q _ => h.ino q

/-- The number of an inode stays when it is freed. -/
theorem ino_freed (w : World) (p q : Ptr) : ((w.freed p).inodes q).ino = (w.inodes q).ino := by
  by_cases hq : q = p
  · rw [hq]
    exact (congrArg Inode.ino (Function.update_self p _ w.inodes)).trans rfl
  · exact congrArg Inode.ino (Function.update_of_ne hq _ _)

theorem free (hi : TreeInv s) {p : Ptr} (hp : p ∈ s.core) :
    TreeInv (s.free (s.world.freed p) p) := by
  have href : ((s.world.freed p).inodes p).refcount = (s.world.inodes p).refcount - 1 :=
    (congrArg Inode.refcount (Function.update_self p _ s.world.inodes)).trans rfl
  unfold TreeState.free
  rw [href]
  by_cases h0 : (s.world.inodes p).refcount - 1 = 0
  · rw [if_pos h0]
    have htree : (s.world.freed p).tree = s.world.tree.erase p := if_pos h0
    have hcore : ∀ {q}, q ∈ s.core.erase p → q ∈ s.core := fun h => List.mem_of_mem_erase h
    refine ⟨⟨hi.ready.sound, hi.ready.table, hi.ready.hint⟩, ?_, hi.nodup_core.erase p,
      fun q hq => ?_,
      fun q hq => hi.below q (hcore hq), fun q hq => ?_, fun q r hq hr h => ?_, fun n q hq => ?_,
      fun q hq hl => ?_⟩
    · rw [htree]
      exact hi.nodup.erase p
    · rw [htree] at hq
      obtain ⟨hne, hmem⟩ := hi.nodup.mem_erase_iff.mp hq
      exact hi.nodup_core.mem_erase_iff.mpr ⟨hne, hi.core q hmem⟩
    · rw [ino_freed]
      exact hi.pos q (hcore hq)
    · rw [ino_freed, ino_freed] at h
      exact hi.unique q r (hcore hq) (hcore hr) h
    · by_cases howner : s.owner n = some p
      · simp only [howner, if_true] at hq
        cases hq
      · simp only [if_neg howner] at hq
        obtain ⟨hmem, hnum⟩ := hi.owned n q hq
        have hne : q ≠ p := by
          rintro rfl
          exact howner hq
        rw [htree, ino_freed]
        exact ⟨hi.nodup.mem_erase_iff.mpr ⟨hne, hmem⟩, hnum⟩
    · have hown := hi.owner q (hcore hq) hl
      have hne : q ≠ p := (hi.nodup_core.mem_erase_iff.mp hq).1
      rw [ino_freed]
      show (if _ then none else _) = _
      rw [hown, if_neg fun heq => hne (Option.some.inj heq)]
  · rw [if_neg h0]
    exact hi.congr_owner rfl hi.ready.hint (if_neg h0) le_rfl fun q _ => ino_freed _ p q

/-- One step. -/
theorem step (hi : TreeInv s) (hg : SlotsKept s a) (h : TreeStep s a t) :
    TreeInv t ∧ ServesOwner s a t := by
  cases h with
  | iget hret =>
    obtain ⟨hpos, -, hgot⟩ := xv6Iget_spec hret
    exact hi.iget hg hgot hpos
  | igetError hret =>
    obtain ⟨hpos, -, hgot⟩ := xv6Iget_spec hret
    exact ⟨hi.iget hg hgot hpos, fun m q heq => by cases heq⟩
  | @create dir name isdir r w hdir hret =>
    refine ⟨?_, fun m q heq => by cases heq⟩
    by_cases hname : name.length ≤ DIRSIZ
    · exact hi.create (hg hname) (xv6Create_spec (hi.below _ hdir) hi.next_not_mem hret)
    · obtain ⟨rfl, rfl⟩ := xv6Create_long (not_le.mp hname) hret
      simp only [TreeState.create, Nat.lt_irrefl, false_and, if_false]
      exact hi
  | unlink hp hret =>
    exact ⟨hi.unlink hp ((keeps_unlink (P := fun _ => True) trivial trivial _).via hret),
      fun m q heq => by cases heq⟩
  | free hp hret =>
    obtain ⟨-, rfl⟩ := hret.unique (xv6FreeInode_own fun q hq h => hi.own hp hq h)
    exact ⟨hi.free hp, fun m q heq => by cases heq⟩

/-! ## What the invariant says -/

theorem isMap (hi : TreeInv s) : TreeIsMap s where
  nodup := hi.nodup
  unique p q hp hq h := hi.unique p q (hi.core p hp) (hi.core q hq) h
  free p hp := by
    refine ⟨_, xv6FreeInode_own fun q hq h => hi.own hp hq h, fun q hq => ?_⟩
    show q ∈ (if _ then _ else _) ↔ _
    split
    · exact List.mem_erase_of_ne hq
    · exact Iff.rfl
  iget n r hg hpos hlt := by
    obtain ⟨r', w, hret⟩ := xv6Iget_returns hpos hlt
    refine ⟨r', w, hret, fun q hq => ?_⟩
    cases (xv6Iget_spec hret).2.2 with
    | found => exact hq
    | nomem => exact hq
    | failed => exact hq
    | loaded => exact List.mem_cons_of_mem _ hq
  create dir name isdir hdir hname hg q w₁ e w₂ hnew halloc _ := by
    obtain ⟨rfl, ho, htree, -, hcase⟩ := createAlloc_new (hi.below _ hdir) hnew halloc
    have hnum : ∀ x, x ∈ s.world.tree → (w₂.inodes x).ino = (s.world.inodes x).ino := fun x hx =>
      congrArg Prod.fst (ho.node x (hi.below x (hi.core x hx)).ne)
    -- no node has the number of the new inode
    have hown : ∀ x, x ∈ w₂.tree → (w₂.inodes x).ino = (w₂.inodes s.world.next).ino →
        x = s.world.next := by
      intro x hx h
      rw [htree] at hx
      rw [hnum x hx] at h
      have hfirst : s.world.ReachesIalloc →
          ¬ FirstUnused s.world.env s.world.disk (s.world.inodes x).ino :=
        fun hr => hg hname hr x (hi.core x hx)
      rcases hcase with ⟨-, -, hzero | ⟨hr, hn⟩⟩ | ⟨n, hr, hn, hino⟩
      · rw [hzero] at h
        exact absurd h (hi.pos x (hi.core x hx))
      · rw [← h] at hn
        exact absurd (hn hi.ready) (hfirst hr)
      · have hnew : (w₂.inodes s.world.next).ino = n := congrArg Prod.fst hino.1
        rw [← hnew, ← h] at hn
        exact absurd (hn hi.ready) (hfirst hr)
    obtain ⟨w₃, hput⟩ := iput_returns hown
    refine ⟨w₃, hput, ?_⟩
    rcases iput_spec hput with ⟨-, -, rfl⟩ | ⟨-, t, rfl | rfl, rfl⟩
    · exact htree
    · exact htree
    · show w₂.tree.erase s.world.next = s.world.tree
      rw [htree, List.erase_of_not_mem hi.next_not_mem]

end TreeInv

theorem emptyRootDir_start : TreeStart emptyRootDir where
  ready := ⟨⟨by decide, by decide⟩, by decide, ⟨by decide, by decide⟩⟩
  nodup := by decide
  below p hp := by
    rw [List.mem_singleton.mp hp]
    decide
  pos _ _ := Nat.one_ne_zero
  unique p q hp hq _ := (List.mem_singleton.mp hp).trans (List.mem_singleton.mp hq).symm

end Xv6fs
