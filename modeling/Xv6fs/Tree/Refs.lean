/-
  The references the kernel counts for an in-core inode, over whole runs of xv6_lookup, xv6_create,
  xv6_link and dentry drops.

  The kernel gives a new inode one reference, `d_splice_alias` and `d_instantiate` take one over, a
  dentry that is dropped gives one back, and the last one evicts the inode. xv6_find_inode counts
  the references of a node it finds in a counter of its own, and takes none of the kernel's, nor
  does xv6_link. As long as no call reaches an in-core regular file a second time its references are
  its dentries (`refs_balanced`); a second link makes two dentries share one reference
  (`link_unbalanced`).
-/
import Xv6fs.Lib.Steps
import Xv6fs.Inode.Iget
import Xv6fs.Inode.Create

namespace Xv6fs

/-! ## The system -/

/-- `count` is `i_count`, and `dentries` holds the inode of each positive dentry. -/
structure RefState where
  world : World
  count : Ptr → Nat
  dentries : List Ptr
  evicted : Ptr → Bool

inductive RefLabel where
  | lookup (dir : Ptr) (name : FileName)
  | create (dir : Ptr) (name : FileName) (isdir : Bool)
  | link (old dir : Ptr) (name : FileName)
  | drop (p : Ptr)

/-- Does `xv6_link` reach `d_instantiate`? -/
def LinkInstantiates (w : World) (old dir : Ptr) (name : FileName) : Prop :=
  (w.inodes old).nlink < INT16_MAX ∧
    ∃ w', Returns (xv6DentryInsert dir name (w.inodes old).ino) w 0 w'

namespace RefState

/-- A dentry takes over the reference to `p`. An inode that is new has one. -/
def attach (s : RefState) (w : World) (p : Ptr) : RefState :=
  { s with
    world := w
    count := if p < s.world.next then s.count else Function.update s.count p 1
    dentries := p :: s.dentries }

/-- A new inode that is not returned has been dropped, which evicts it unless it is kept in core. -/
def fail (s : RefState) (w : World) : RefState :=
  if s.world.next < w.next then
    { s with
      world := w
      count := Function.update s.count s.world.next 0
      evicted := Function.update s.evicted s.world.next (!(w.inodes s.world.next).hashed) }
  else { s with world := w }

end RefState

inductive RefStep : RefState → RefLabel → RefState → Prop where
  | lookup {s : RefState} {dir p : Ptr} {name : FileName} {w : World}
      (h : Returns (xv6Lookup dir name) s.world (.ok (some p)) w) :
      RefStep s (.lookup dir name) (s.attach w p)
  | lookupFail {s : RefState} {dir : Ptr} {name : FileName} {r : Except Int (Option Ptr)}
      {w : World} (hr : ∀ p, r ≠ .ok (some p)) (h : Returns (xv6Lookup dir name) s.world r w) :
      RefStep s (.lookup dir name) (s.fail w)
  | create {s : RefState} {dir p : Ptr} {name : FileName} {isdir : Bool} {e : Int} {w : World}
      (hdir : dir ∈ s.dentries) (h : Returns (xv6Create dir name isdir) s.world (e, some p) w) :
      RefStep s (.create dir name isdir) (s.attach w p)
  | createFail {s : RefState} {dir : Ptr} {name : FileName} {isdir : Bool} {e : Int} {w : World}
      (hdir : dir ∈ s.dentries) (h : Returns (xv6Create dir name isdir) s.world (e, none) w) :
      RefStep s (.create dir name isdir) (s.fail w)
  | link {s : RefState} {old dir : Ptr} {name : FileName} {e : Int} {w : World}
      (hold : old ∈ s.dentries) (hi : LinkInstantiates s.world old dir name)
      (h : Returns (xv6Link old dir name) s.world e w) :
      RefStep s (.link old dir name) { s with world := w, dentries := old :: s.dentries }
  | linkFail {s : RefState} {old dir : Ptr} {name : FileName} {e : Int} {w : World}
      (hold : old ∈ s.dentries) (hi : ¬ LinkInstantiates s.world old dir name)
      (h : Returns (xv6Link old dir name) s.world e w) :
      RefStep s (.link old dir name) { s with world := w }
  | drop {s : RefState} {p : Ptr} (hp : p ∈ s.dentries) (hc : 1 < s.count p) :
      RefStep s (.drop p)
        { s with
          count := Function.update s.count p (s.count p - 1)
          dentries := s.dentries.erase p }
  | dropLast {s : RefState} {p : Ptr} {w : World} (hp : p ∈ s.dentries) (hc : s.count p ≤ 1)
      (h : Returns (evict p) s.world () w) :
      RefStep s (.drop p) ⟨w, Function.update s.count p 0, s.dentries.erase p,
        Function.update s.evicted p true⟩

/-- No lookup resolves to the number of a regular file in the tree, and no link to a regular file is
    made. -/
def FirstUse (s : RefState) : RefLabel → Prop
  | .lookup dir name => ∀ k de w, Returns (xv6FindInum dir name) s.world (0, k, de) w → k ≠ 0 →
      ∀ p, p ∈ s.world.tree → (s.world.inodes p).ino = de.inum.toNat →
        (s.world.inodes p).fmt ≠ .reg
  | .link old dir name => (s.world.inodes old).fmt = .reg →
      ¬ LinkInstantiates s.world old dir name
  | _ => True

/-- The references of an in-core regular file are its dentries. None is evicted while a dentry
    points to it, and `xv6_iget` hands out no evicted one. -/
structure Balanced (s : RefState) : Prop where
  count : ∀ p, p < s.world.next → s.evicted p = false → (s.world.inodes p).fmt = .reg →
    s.count p = s.dentries.count p
  alive : ∀ p, p ∈ s.dentries → (s.world.inodes p).fmt = .reg → s.evicted p = false
  served : ∀ n p w, Returns (xv6Iget n) s.world (.ok p) w → (w.inodes p).fmt = .reg →
    s.evicted p = false

/-! ## The invariant -/

/-- A regular file in the tree has not been evicted, and has been returned once. -/
structure RefInv (s : RefState) : Prop where
  nodup : s.world.tree.Nodup
  below : ∀ p, p ∈ s.world.tree → p < s.world.next
  dentry : ∀ p, p ∈ s.dentries → p < s.world.next
  fresh : ∀ p, s.world.next ≤ p → s.evicted p = false
  count : ∀ p, p < s.world.next → s.evicted p = false → (s.world.inodes p).fmt = .reg →
    s.count p = s.dentries.count p
  alive : ∀ p, p ∈ s.dentries → (s.world.inodes p).fmt = .reg → s.evicted p = false
  tree : ∀ p, p ∈ s.world.tree → (s.world.inodes p).fmt = .reg →
    s.evicted p = false ∧ (s.world.inodes p).refcount = 1

variable {s t : RefState} {a : RefLabel} {as : List RefLabel}

/-- Lookups, as far as the inodes are concerned. -/
theorem xv6Lookup_spec {φ : Event → Prop} {w w' : World} {dir : Ptr} {name : FileName}
    {r : Except Int (Option Ptr)} (h : Runs φ (xv6Lookup dir name) w r w') :
    ∃ e k de w₁, Runs φ (xv6FindInum dir name) w (e, k, de) w₁ ∧
      (((∀ p, r ≠ .ok (some p)) ∧ w' = w₁) ∨
        (k ≠ 0 ∧ e = 0 ∧ ∃ r', Igot w₁ de.inum.toNat r' w' ∧
          match r' with
          | .ok p => r = .ok (some p)
          | .error e => r = .error e)) := by
  obtain ⟨⟨e, k, de⟩, w₁, hfind, hrest⟩ := h.bind
  refine ⟨e, k, de, w₁, hfind, ?_⟩
  rcases hrest.ite with ⟨-, hend⟩ | ⟨hk, hend⟩
  · obtain ⟨rfl, rfl⟩ := hend.pure
    exact .inl ⟨by simp, rfl⟩
  rcases hend.ite with ⟨-, hend⟩ | ⟨he, hend⟩
  · obtain ⟨rfl, rfl⟩ := hend.pure
    exact .inl ⟨by simp, rfl⟩
  simp only [runs_bind_assert] at hend
  obtain ⟨-, hend⟩ := hend
  obtain ⟨r', w₂, higet, hlast⟩ := hend.bind
  obtain ⟨-, -, hgot⟩ := xv6Iget_spec higet
  refine .inr ⟨hk, not_not.mp he, r', ?_⟩
  cases r' with
  | error e =>
    obtain ⟨rfl, rfl⟩ := hlast.pure
    exact ⟨hgot, rfl⟩
  | ok p =>
    obtain ⟨rfl, rfl⟩ := hlast.pure
    exact ⟨hgot, rfl⟩

namespace RefInv

theorem next_not_mem (hi : RefInv s) : s.world.next ∉ s.world.tree := fun h =>
  Nat.lt_irrefl _ (hi.below _ h)

theorem next_not_dentry (hi : RefInv s) : s.world.next ∉ s.dentries := fun h =>
  Nat.lt_irrefl _ (hi.dentry _ h)

/-- Neither the tree nor the nodes have changed. -/
theorem same (hi : RefInv s) {w : World} (htree : w.tree = s.world.tree)
    (hnext : w.next = s.world.next)
    (hnode : ∀ p, p < s.world.next → (w.inodes p).node = (s.world.inodes p).node) :
    RefInv { s with world := w } := by
  have hfmt : ∀ {p}, p < s.world.next → (w.inodes p).fmt = (s.world.inodes p).fmt := fun hp =>
    congrArg (·.2.1) (hnode _ hp)
  have href : ∀ {p}, p < s.world.next →
      (w.inodes p).refcount = (s.world.inodes p).refcount := fun hp =>
    congrArg (·.2.2.2) (hnode _ hp)
  refine ⟨htree ▸ hi.nodup, fun p hp => ?_, fun p hp => ?_, fun p hp => ?_, fun p hp he hf => ?_,
    fun p hp hf => ?_, fun p hp hf => ?_⟩
  · exact hnext ▸ hi.below p (htree ▸ hp)
  · exact hnext ▸ hi.dentry p hp
  · exact hi.fresh p (hnext ▸ hp)
  · have hlt : p < s.world.next := hnext ▸ hp
    exact hi.count p hlt he (hfmt hlt ▸ hf)
  · exact hi.alive p hp (hfmt (hi.dentry p hp) ▸ hf)
  · have hmem : p ∈ s.world.tree := htree ▸ hp
    obtain ⟨h1, h2⟩ := hi.tree p hmem (hfmt (hi.below p hmem) ▸ hf)
    exact ⟨h1, (href (hi.below p hmem)).trans h2⟩

/-- A new inode is entered into the tree and returned. -/
theorem attachNew (hi : RefInv s) {w : World} (htree : w.tree = s.world.next :: s.world.tree)
    (hnext : w.next = s.world.next + 1)
    (hnode : ∀ p, p ≠ s.world.next → (w.inodes p).node = (s.world.inodes p).node)
    (href : (w.inodes s.world.next).refcount = 1) : RefInv (s.attach w s.world.next) := by
  have hold : ∀ {p}, p ≠ s.world.next → (w.inodes p).fmt = (s.world.inodes p).fmt ∧
      (w.inodes p).refcount = (s.world.inodes p).refcount := fun hp =>
    ⟨congrArg (·.2.1) (hnode _ hp), congrArg (·.2.2.2) (hnode _ hp)⟩
  have hcount : (s.attach w s.world.next).count = Function.update s.count s.world.next 1 :=
    if_neg (Nat.lt_irrefl _)
  have hzero : s.dentries.count s.world.next = 0 := List.count_eq_zero.mpr hi.next_not_dentry
  refine ⟨?_, fun p hp => ?_, fun p hp => ?_, fun p hp => ?_, fun p hp he hf => ?_,
    fun p hp hf => ?_, fun p hp hf => ?_⟩
  · exact htree ▸ List.nodup_cons.mpr ⟨hi.next_not_mem, hi.nodup⟩
  · show p < w.next
    rw [hnext]
    rcases List.mem_cons.mp (htree ▸ hp) with rfl | hp
    · exact Nat.lt_succ_self _
    · exact Nat.lt_succ_of_lt (hi.below p hp)
  · show p < w.next
    rw [hnext]
    rcases List.mem_cons.mp hp with rfl | hp
    · exact Nat.lt_succ_self _
    · exact Nat.lt_succ_of_lt (hi.dentry p hp)
  · have hp' : s.world.next + 1 ≤ p := hnext ▸ hp
    exact hi.fresh p (Nat.le_of_succ_le hp')
  · rw [hcount]
    by_cases hq : p = s.world.next
    · rw [hq, Function.update_self]
      exact (List.count_cons_self.trans (by rw [hzero])).symm
    · have hlt : p < s.world.next :=
        lt_of_le_of_ne (Nat.le_of_lt_succ (show p < s.world.next + 1 from hnext ▸ hp)) hq
      rw [Function.update_of_ne hq, hi.count p hlt he ((hold hq).1 ▸ hf)]
      exact (List.count_cons_of_ne fun h => hq h.symm).symm
  · rcases List.mem_cons.mp hp with rfl | hp
    · exact hi.fresh _ le_rfl
    · have hq : p ≠ s.world.next := (hi.dentry p hp).ne
      exact hi.alive p hp ((hold hq).1 ▸ hf)
  · rcases List.mem_cons.mp (htree ▸ hp) with rfl | hp
    · exact ⟨hi.fresh _ le_rfl, href⟩
    · have hq : p ≠ s.world.next := (hi.below p hp).ne
      obtain ⟨h1, h2⟩ := hi.tree p hp ((hold hq).1 ▸ hf)
      exact ⟨h1, (hold hq).2.trans h2⟩

/-- A directory that is found gets another dentry. -/
theorem attachDir (hi : RefInv s) {p : Ptr} {ino : Inode} (hmem : p ∈ s.world.tree)
    (hdir : (s.world.inodes p).fmt ≠ .reg) (hino : ino.fmt = (s.world.inodes p).fmt) :
    RefInv (s.attach (s.world.setInode p ino) p) := by
  have hfmt : ∀ q, ((s.world.setInode p ino).inodes q).fmt = (s.world.inodes q).fmt := by
    intro q
    by_cases hq : q = p
    · rw [hq, World.setInode_self]
      exact hino
    · exact congrArg Inode.fmt (Function.update_of_ne hq _ _)
  have hne : ∀ {q}, ((s.world.setInode p ino).inodes q).fmt = .reg → q ≠ p := by
    rintro q hf rfl
    exact hdir (hfmt q ▸ hf)
  have hcount : (s.attach (s.world.setInode p ino) p).count = s.count := if_pos (hi.below p hmem)
  refine ⟨hi.nodup, hi.below, fun q hq => ?_, hi.fresh, fun q hq he hf => ?_, fun q hq hf => ?_,
    fun q hq hf => ?_⟩
  · rcases List.mem_cons.mp hq with rfl | hq
    · exact hi.below _ hmem
    · exact hi.dentry q hq
  · rw [hcount, hi.count q hq he (hfmt q ▸ hf)]
    exact (List.count_cons_of_ne fun h => hne hf h.symm).symm
  · rcases List.mem_cons.mp hq with rfl | hq
    · exact absurd rfl (hne hf)
    · exact hi.alive q hq (hfmt q ▸ hf)
  · obtain ⟨h1, h2⟩ := hi.tree q hq (hfmt q ▸ hf)
    exact ⟨h1, (congrArg Inode.refcount (Function.update_of_ne (hne hf) _ _)).trans h2⟩

/-- A directory that is linked gets another dentry. -/
theorem linkDir (hi : RefInv s) {p : Ptr} (hp : p ∈ s.dentries)
    (hdir : (s.world.inodes p).fmt ≠ .reg) : RefInv { s with dentries := p :: s.dentries } where
  nodup := hi.nodup
  below := hi.below
  dentry q hq := by
    rcases List.mem_cons.mp hq with rfl | hq
    · exact hi.dentry _ hp
    · exact hi.dentry q hq
  fresh := hi.fresh
  count q hq he hf := by
    have hne : p ≠ q := by
      rintro rfl
      exact hdir hf
    exact (hi.count q hq he hf).trans (List.count_cons_of_ne hne).symm
  alive q hq hf := by
    rcases List.mem_cons.mp hq with rfl | hq
    · exact absurd hf hdir
    · exact hi.alive q hq hf
  tree := hi.tree

/-- Nothing is returned; a new inode is in core without a dentry, or evicted. -/
theorem fail (hi : RefInv s) {w : World} (htree : w.tree = s.world.tree)
    (hnext : w.next = s.world.next ∨ w.next = s.world.next + 1)
    (hnode : ∀ p, p < s.world.next → (w.inodes p).node = (s.world.inodes p).node) :
    RefInv (s.fail w) := by
  have hfmt : ∀ {p}, p < s.world.next → (w.inodes p).fmt = (s.world.inodes p).fmt := fun hp =>
    congrArg (·.2.1) (hnode _ hp)
  have href : ∀ {p}, p < s.world.next →
      (w.inodes p).refcount = (s.world.inodes p).refcount := fun hp =>
    congrArg (·.2.2.2) (hnode _ hp)
  have hzero : s.dentries.count s.world.next = 0 := List.count_eq_zero.mpr hi.next_not_dentry
  unfold RefState.fail
  rcases hnext with hnext | hnext
  · rw [if_neg (by rw [hnext]; exact Nat.lt_irrefl _)]
    exact hi.same htree hnext hnode
  · rw [if_pos (by rw [hnext]; exact Nat.lt_succ_self _)]
    have hev : ∀ {p}, p ≠ s.world.next →
        Function.update s.evicted s.world.next (!(w.inodes s.world.next).hashed) p = s.evicted p :=
      fun hp => Function.update_of_ne hp _ _
    refine ⟨htree ▸ hi.nodup, fun p hp => ?_, fun p hp => ?_, fun p hp => ?_, fun p hp he hf => ?_,
      fun p hp hf => ?_, fun p hp hf => ?_⟩
    · have hlt := hi.below p (htree ▸ hp)
      exact hnext ▸ Nat.lt_succ_of_lt hlt
    · exact hnext ▸ Nat.lt_succ_of_lt (hi.dentry p hp)
    · have hp' : s.world.next + 1 ≤ p := hnext ▸ hp
      exact (hev (Nat.lt_of_succ_le hp').ne').trans (hi.fresh p (Nat.le_of_succ_le hp'))
    · by_cases hq : p = s.world.next
      · rw [hq]
        exact (Function.update_self _ _ _).trans hzero.symm
      · have hlt : p < s.world.next :=
          lt_of_le_of_ne (Nat.le_of_lt_succ (show p < s.world.next + 1 from hnext ▸ hp)) hq
        refine (Function.update_of_ne hq _ _).trans (hi.count p hlt ?_ (hfmt hlt ▸ hf))
        exact (hev hq).symm.trans he
    · have hlt := hi.dentry p hp
      exact (hev hlt.ne).trans (hi.alive p hp (hfmt hlt ▸ hf))
    · have hmem : p ∈ s.world.tree := htree ▸ hp
      have hlt := hi.below p hmem
      obtain ⟨h1, h2⟩ := hi.tree p hmem (hfmt hlt ▸ hf)
      exact ⟨(hev hlt.ne).trans h1, (href hlt).trans h2⟩

theorem lookup (hi : RefInv s) {dir : Ptr} {name : FileName} {r : Except Int (Option Ptr)}
    {w : World} (hg : FirstUse s (.lookup dir name))
    (h : Returns (xv6Lookup dir name) s.world r w) :
    (∀ p, r = .ok (some p) → RefInv (s.attach w p)) ∧
      ((∀ p, r ≠ .ok (some p)) → RefInv (s.fail w)) := by
  obtain ⟨e, k, de, w₁, hfind, ⟨hr, rfl⟩ | ⟨hk, rfl, r', hgot, hr⟩⟩ := xv6Lookup_spec h
  · have hs : SameNodes (fun _ => True) s.world w := (keeps_findInum trivial name).via hfind
    refine ⟨fun p hp => absurd hp (hr p), fun _ => ?_⟩
    exact hi.fail hs.tree (.inl hs.next) fun p _ => hs.node p
  · have hs : SameNodes (fun _ => True) s.world w₁ := (keeps_findInum trivial name).via hfind
    have hi₁ : RefInv { s with world := w₁ } := hi.same hs.tree hs.next fun p _ => hs.node p
    have hnext : w₁.next = s.world.next := hs.next
    -- what is stated of the state before the call holds of the state in which the directory has
    -- been searched
    have hattach : ∀ p, ({ s with world := w₁ } : RefState).attach w p = s.attach w p := fun p => by
      simp only [RefState.attach, hnext]
    have hfail : ({ s with world := w₁ } : RefState).fail w = s.fail w := by
      simp only [RefState.fail, hnext]
    cases hgot with
    | @found p hmem hino =>
      refine ⟨fun q hq => ?_, fun hne => absurd hr (hne p)⟩
      obtain rfl : p = q := by
        rw [hr] at hq
        exact Option.some.inj (Except.ok.inj hq)
      have hmem' : p ∈ s.world.tree := hs.tree ▸ hmem
      have hdir : (s.world.inodes p).fmt ≠ .reg :=
        hg k de w₁ hfind hk p hmem' ((hs.ino p).symm.trans hino)
      rw [← hattach]
      exact hi₁.attachDir hmem (by rw [hs.fmt p]; exact hdir) rfl
    | nomem =>
      refine ⟨fun q hq => absurd (hr.symm.trans hq) (by simp), fun _ => ?_⟩
      rw [← hfail]
      exact hi₁.fail rfl (.inl rfl) fun _ _ => rfl
    | failed =>
      refine ⟨fun q hq => absurd (hr.symm.trans hq) (by simp), fun _ => ?_⟩
      rw [← hfail]
      exact hi₁.fail rfl (.inr rfl) fun p hp => node_update_ne hp.ne
    | loaded =>
      refine ⟨fun q hq => ?_, fun hne => absurd hr (hne _)⟩
      obtain rfl : w₁.next = q := by
        rw [hr] at hq
        exact Option.some.inj (Except.ok.inj hq)
      rw [← hattach]
      refine hi₁.attachNew rfl rfl (fun p hp => node_update_ne hp) ?_
      exact (congrArg Inode.refcount (Function.update_self w₁.next _ w₁.inodes)).trans rfl

theorem create (hi : RefInv s) {dir : Ptr} {isdir : Bool} {r : Int × Option Ptr} {w : World}
    (h : Created s.world dir isdir r w) :
    match r.2 with
    | some p => RefInv (s.attach w p)
    | none => RefInv (s.fail w) := by
  cases h with
  | refused => exact hi.fail rfl (.inl rfl) fun _ _ => rfl
  | dropped _ ho htree hnext => exact hi.fail htree (.inr hnext) fun p hp => ho.node p hp.ne
  | kept _ ho htree hnext => exact hi.fail htree (.inr hnext) fun p hp => ho.node p hp.ne
  | made ho htree hnext _ _ hino =>
    exact hi.attachNew htree hnext ho.node (congrArg (·.2.2.2) hino.1)

/-- A dentry is dropped that is not the last. -/
theorem drop (hi : RefInv s) {p : Ptr} (hp : p ∈ s.dentries) :
    RefInv { s with
      count := Function.update s.count p (s.count p - 1)
      dentries := s.dentries.erase p } where
  nodup := hi.nodup
  below := hi.below
  dentry q hq := hi.dentry q (List.mem_of_mem_erase hq)
  fresh := hi.fresh
  count q hq he hf := by
    have hold := hi.count q hq he hf
    by_cases hqp : q = p
    · subst hqp
      exact (Function.update_self _ _ _).trans (by rw [hold, List.count_erase_self])
    · exact (Function.update_of_ne hqp _ _).trans
        (by rw [hold, List.count_erase_of_ne fun h => hqp h])
  alive q hq hf := hi.alive q (List.mem_of_mem_erase hq) hf
  tree := hi.tree

/-- The last reference is dropped. -/
theorem dropLast (hi : RefInv s) {p : Ptr} (hp : p ∈ s.dentries) (hc : s.count p ≤ 1) {w : World}
    (h : Returns (evict p) s.world () w) :
    RefInv ⟨w, Function.update s.count p 0, s.dentries.erase p,
      Function.update s.evicted p true⟩ := by
  have hw := evict_spec h
  have hinode : ∀ {q}, q ≠ p → w.inodes q = s.world.inodes q := fun hq => by
    rw [hw]
    exact Function.update_of_ne hq _ _
  have hfmt : (w.inodes p).fmt = (s.world.inodes p).fmt := by
    rw [hw]
    exact (congrArg Inode.fmt (Function.update_self p _ s.world.inodes)).trans rfl
  have hnext : w.next = s.world.next := by rw [hw]
  have hev : ∀ {q}, q ≠ p → Function.update s.evicted p true q = s.evicted q := fun hq =>
    Function.update_of_ne hq _ _
  have hself : ∀ {q}, Function.update s.evicted p true q = false → q ≠ p := by
    rintro q hq rfl
    rw [Function.update_self] at hq
    cases hq
  have hsub : ∀ {q}, q ∈ w.tree → q ∈ s.world.tree := fun {q} hq => by
    rw [hw] at hq
    dsimp only at hq
    split at hq
    · exact List.mem_of_mem_erase hq
    · exact hq
  -- a regular file has one dentry left, and one reference of the module's own
  have hone : (s.world.inodes p).fmt = .reg → s.dentries.count p = 1 := fun hf => by
    have hcount := hi.count p (hi.dentry p hp) (hi.alive p hp hf) hf
    have hpos := List.count_pos_iff.mpr hp
    omega
  have hgone : (s.world.inodes p).fmt = .reg → p ∉ w.tree := fun hf hmem => by
    have href := (hi.tree p (hsub hmem) hf).2
    rw [hw] at hmem
    simp only [href, Nat.sub_self, if_true] at hmem
    exact hi.nodup.not_mem_erase hmem
  refine ⟨?_, fun q hq => ?_, fun q hq => ?_, fun q hq => ?_, fun q hq he hf => ?_,
    fun q hq hf => ?_, fun q hq hf => ?_⟩
  · rw [hw]
    dsimp only
    split
    · exact hi.nodup.erase p
    · exact hi.nodup
  · exact hnext ▸ hi.below q (hsub hq)
  · exact hnext ▸ hi.dentry q (List.mem_of_mem_erase hq)
  · have hq' : s.world.next ≤ q := hnext ▸ hq
    have hne : q ≠ p := (lt_of_lt_of_le (hi.dentry p hp) hq').ne'
    exact (hev hne).trans (hi.fresh q hq')
  · have hne := hself he
    refine (Function.update_of_ne hne _ _).trans ?_
    rw [hi.count q (hnext ▸ hq) ((hev hne).symm.trans he) (hinode hne ▸ hf)]
    exact (List.count_erase_of_ne fun h => hne h).symm
  · by_cases hne : q = p
    · subst hne
      have hleft : 0 < (s.dentries.erase q).count q := List.count_pos_iff.mpr hq
      rw [List.count_erase_self, hone (hfmt ▸ hf)] at hleft
      exact absurd hleft (Nat.lt_irrefl _)
    · exact (hev hne).trans (hi.alive q (List.mem_of_mem_erase hq) (hinode hne ▸ hf))
  · have hne : q ≠ p := by
      rintro rfl
      exact hgone (hfmt ▸ hf) hq
    obtain ⟨h1, h2⟩ := hi.tree q (hsub hq) (hinode hne ▸ hf)
    exact ⟨(hev hne).trans h1, (congrArg Inode.refcount (hinode hne)).trans h2⟩

/-- One step. -/
theorem step (hi : RefInv s) (hg : FirstUse s a) (h : RefStep s a t) : RefInv t := by
  cases h with
  | lookup h => exact (hi.lookup hg h).1 _ rfl
  | lookupFail hr h => exact (hi.lookup hg h).2 hr
  | create hdir h => exact hi.create (xv6Create_spec (hi.dentry _ hdir) hi.next_not_mem h)
  | createFail hdir h => exact hi.create (xv6Create_spec (hi.dentry _ hdir) hi.next_not_mem h)
  | @link old dir name e w hold hl h =>
    have hs : SameNodes (fun _ => True) s.world w := (keeps_link trivial trivial name).via h
    exact (hi.same hs.tree hs.next fun p _ => hs.node p).linkDir hold
      fun hf => hg ((hs.fmt old).symm.trans hf) hl
  | @linkFail old dir name e w hold hl h =>
    have hs : SameNodes (fun _ => True) s.world w := (keeps_link trivial trivial name).via h
    exact hi.same hs.tree hs.next fun p _ => hs.node p
  | drop hp => exact hi.drop hp
  | dropLast hp hc h => exact hi.dropLast hp hc h

end RefInv

/-- In every run in which no call reaches an in-core regular file a second time, its references are
    its dentries, it is evicted after the last of them only, and no evicted one is handed out. -/
theorem refs_balanced (hs : RefInv s) (h : Steps (GuardedBy FirstUse RefStep) s as t) :
    Balanced t := by
  have hi : RefInv t := h.invariant (fun _ _ _ hi hstep => hi.step hstep.1 hstep.2) hs
  refine ⟨hi.count, hi.alive, fun n p w hget hf => ?_⟩
  cases (xv6Iget_spec hget).2.2 with
  | @found p hmem =>
    refine (hi.tree p hmem ?_).1
    rw [World.setInode_self] at hf
    exact hf
  | loaded => exact hi.fresh _ le_rfl

/-! ## A second link -/

/-- The root, with the reference that `d_make_root` has taken over. -/
def rootRefs : RefState :=
  ⟨emptyRootDir, Function.update (fun _ => 0) 0 1, [0], fun _ => false⟩

theorem rootRefs_inv : RefInv rootRefs where
  nodup := by decide
  below p hp := by
    rw [List.mem_singleton.mp hp]
    decide
  dentry p hp := by
    rw [List.mem_singleton.mp hp]
    decide
  fresh _ _ := rfl
  count _ _ _ hf := by cases hf
  alive _ _ _ := rfl
  tree _ _ hf := by cases hf

/-- `xv6_link` hands `d_instantiate` an inode without a reference for the new dentry. When the first
    name is dropped the inode is evicted, and the second dentry still points to it. -/
theorem link_unbalanced :
    ¬ ∀ (s : RefState) (as : List RefLabel) (t : RefState), RefInv s → Steps RefStep s as t →
      Balanced t := by
  intro h
  have hinsert := returns_after (m := xv6DentryInsert 0 fileB (oneFileDir.inodes 1).ino)
    (w := oneFileDir) (a := 0) (by decide +kernel)
  have hlink := returns_after (m := xv6Link 1 0 fileB) (w := oneFileDir) (a := 0)
    (by decide +kernel)
  let w₂ := oneFileDir.after (xv6Link 1 0 fileB)
  have hevict := returns_after (m := evict 1) (w := w₂) (a := ()) (by decide +kernel)
  let w₃ := w₂.after (evict 1)
  let s₁ := rootRefs.attach oneFileDir 1
  let s₂ : RefState := { s₁ with world := w₂, dentries := 1 :: s₁.dentries }
  let s₃ : RefState :=
    ⟨w₃, Function.update s₂.count 1 0, s₂.dentries.erase 1, Function.update s₂.evicted 1 true⟩
  have hrun : Steps RefStep rootRefs [.create 0 fileA false, .link 1 0 fileB, .drop 1] s₃ :=
    .cons (.create List.mem_cons_self oneFileDir_created) <|
      .cons (.link List.mem_cons_self ⟨by decide +kernel, _, hinsert⟩ hlink) <|
        .single (.dropLast List.mem_cons_self (by decide +kernel) hevict)
  have halive := (h _ _ _ rootRefs_inv hrun).alive 1 (by decide +kernel) (by decide +kernel)
  have hgone : s₃.evicted 1 = true := by decide +kernel
  rw [hgone] at halive
  cases halive

/-- A file that is created and dropped, and looked up again. -/
theorem create_drop_lookup :
    ∃ s, Steps (GuardedBy FirstUse RefStep) rootRefs
        [.create 0 fileA false, .drop 1, .lookup 0 fileA] s ∧
      s.dentries = [2, 0] ∧ Balanced s := by
  have hevict := returns_after (m := evict 1) (w := oneFileDir) (a := ()) (by decide +kernel)
  let w₂ := oneFileDir.after (evict 1)
  have hlookup := returns_after (m := xv6Lookup 0 fileA) (w := w₂) (a := .ok (some 2))
    (by decide +kernel)
  let s₁ := rootRefs.attach oneFileDir 1
  let s₂ : RefState :=
    ⟨w₂, Function.update s₁.count 1 0, s₁.dentries.erase 1, Function.update s₁.evicted 1 true⟩
  have htree : s₂.world.tree = [0] := by decide +kernel
  have hfirst : FirstUse s₂ (.lookup 0 fileA) := by
    intro k de w _ _ p hp _
    rw [htree] at hp
    rw [List.mem_singleton.mp hp]
    decide +kernel
  have hrun : Steps (GuardedBy FirstUse RefStep) rootRefs
      [.create 0 fileA false, .drop 1, .lookup 0 fileA] _ :=
    .cons ⟨trivial, .create List.mem_cons_self oneFileDir_created⟩ <|
      .cons ⟨trivial, .dropLast List.mem_cons_self (by decide +kernel) hevict⟩ <|
        .single ⟨hfirst, .lookup hlookup⟩
  exact ⟨_, hrun, by decide +kernel, refs_balanced rootRefs_inv hrun⟩

end Xv6fs
