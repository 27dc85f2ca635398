/-
  The whole file system, and what its inodes own.

  A `Volume` is the state of the module together with the in-core inodes whose last link an unlink
  has dropped. Those are not used again, but they stay in the tree, and their numbers may be given
  to new inodes meanwhile. `Volume.addrsOf` gives the addresses of every allocated inode: those in
  core when the inode is cached, and those of its slot otherwise.

  `VolumeInv` is the invariant of all calls. A call that works on one cached inode keeps it when
  the blocks are owned once with the new addresses of that inode (`VolumeInv.reworked`); growth,
  a change of the fields in core, and a write-back are calls of this kind.
-/
import Xv6fs.Dir.Grows
import Xv6fs.Inode.Nodes
import Xv6fs.Inode.Slot

namespace Xv6fs

structure Volume where
  world : World
  gone : List Ptr

instance (env : Env) (n : Nat) : Decidable (HasSlot env n) :=
  inferInstanceAs (Decidable (_ < _))

/-- A slot of the table that is in use. -/
def SlotInUse (env : Env) (d : Disk) (n : Nat) : Prop := HasSlot env n ∧ (slot env d n).type ≠ 0

instance (env : Env) (d : Disk) (n : Nat) : Decidable (SlotInUse env d n) :=
  inferInstanceAs (Decidable (_ ∧ _))

namespace Volume

/-- An inode of the tree that has not lost its last link. -/
def Live (v : Volume) (p : Ptr) : Prop := p ∈ v.world.tree ∧ p ∉ v.gone

/-- The in-core inode of a number. -/
def cached (v : Volume) (n : Nat) : Option Ptr :=
  v.world.tree.find? fun p => p ∉ v.gone ∧ (v.world.inodes p).ino = n

/-- The addresses of the allocated inodes. -/
def addrsOf (v : Volume) (n : Nat) : Option Addrs :=
  if SlotInUse v.world.env v.world.disk n then
    match v.cached n with
    | some p => some (v.world.addrs p)
    | none => some (slot v.world.env v.world.disk n).addr
  else
    none

end Volume

/-- The inodes in core are allocated, have their addresses and different numbers, and every block
    is owned once. -/
structure VolumeInv (v : Volume) : Prop where
  quiet : Quiet v.world.env
  sound : v.world.env.info.Sound
  table : v.world.env.info.TableOk
  hint : HintOk v.world.env v.world.hint
  below : ∀ p, p ∈ v.world.tree → p < v.world.next
  gone : ∀ p, p ∈ v.gone → p < v.world.next
  unique : ∀ p q, v.Live p → v.Live q → (v.world.inodes p).ino = (v.world.inodes q).ino → p = q
  allocated : ∀ p, v.Live p → SlotInUse v.world.env v.world.disk (v.world.inodes p).ino
  priv : ∀ p, v.Live p → (v.world.inodes p).priv ≠ none
  owned : Owned v.world.env v.world.disk v.addrsOf

section

variable {v : Volume} {w w' : World} {g : List Ptr} {p q : Ptr} {n : Nat}

/-! ## In-core inodes -/

theorem Volume.cached_eq_some (h : v.cached n = some p) :
    v.Live p ∧ (v.world.inodes p).ino = n := by
  have hsat : p ∉ v.gone ∧ (v.world.inodes p).ino = n := by
    simpa using List.find?_some h
  exact ⟨⟨List.mem_of_find?_eq_some h, hsat.1⟩, hsat.2⟩

theorem Volume.cached_eq_none :
    v.cached n = none ↔ ∀ p, v.Live p → (v.world.inodes p).ino ≠ n := by
  unfold Volume.cached Volume.Live
  rw [List.find?_eq_none]
  simp only [decide_eq_true_eq, not_and, and_imp]

/-- The tree is the same, and the numbers of its nodes. -/
theorem Volume.cached_congr (htree : w'.tree = w.tree)
    (hino : ∀ q, q ∈ w.tree → (w'.inodes q).ino = (w.inodes q).ino) :
    (Volume.mk w' g).cached n = (Volume.mk w g).cached n := by
  unfold Volume.cached
  dsimp only
  rw [htree, ← List.head?_filter, ← List.head?_filter]
  exact congrArg List.head? (List.filter_congr fun q hq => by rw [hino q hq])

/-- What the addresses of an inode depend on. -/
theorem Volume.addrsOf_congr {v' : Volume}
    (huse : SlotInUse v'.world.env v'.world.disk n ↔ SlotInUse v.world.env v.world.disk n)
    (hcached : v'.cached n = v.cached n)
    (hslot : SlotInUse v.world.env v.world.disk n → v.cached n = none →
      slot v'.world.env v'.world.disk n = slot v.world.env v.world.disk n)
    (haddrs : ∀ q, v.cached n = some q → v'.world.addrs q = v.world.addrs q) :
    v'.addrsOf n = v.addrsOf n := by
  unfold Volume.addrsOf
  rw [hcached]
  by_cases hall : SlotInUse v.world.env v.world.disk n
  · rw [if_pos hall, if_pos (huse.mpr hall)]
    cases hc : v.cached n with
    | none => simp only [hslot hall hc]
    | some q => simp only [haddrs q hc]
  · rw [if_neg hall, if_neg fun hall' => hall (huse.mp hall')]

namespace VolumeInv

theorem cached_live (hi : VolumeInv v) (hp : v.Live p) :
    v.cached (v.world.inodes p).ino = some p := by
  cases hc : v.cached (v.world.inodes p).ino with
  | none => exact absurd rfl (Volume.cached_eq_none.mp hc p hp)
  | some q =>
    obtain ⟨hq, hino⟩ := Volume.cached_eq_some hc
    rw [hi.unique q p hq hp hino]

theorem addrsOf_live (hi : VolumeInv v) (hp : v.Live p) :
    v.addrsOf (v.world.inodes p).ino = some (v.world.addrs p) := by
  unfold Volume.addrsOf
  rw [if_pos (hi.allocated p hp), hi.cached_live hp]

theorem priv_live (hi : VolumeInv v) (hp : v.Live p) :
    (v.world.inodes p).priv = some (v.world.addrs p) := by
  unfold World.addrs
  cases h : (v.world.inodes p).priv with
  | none => exact absurd h (hi.priv p hp)
  | some addrs => rfl

theorem fileReady (hi : VolumeInv v) (hp : v.Live p) :
    FileReady v.world p (v.world.inodes p).ino v.addrsOf (v.world.addrs p) :=
  ⟨hi.sound, hi.hint, hi.priv_live hp, hi.addrsOf_live hp, hi.owned⟩

end VolumeInv

/-! ## Calls that work on one inode -/

/-- From `w` to `w'` only the in-core inode at `p` and its slot have changed, but for blocks behind
    the table. -/
structure Reworked (p : Ptr) (w w' : World) : Prop where
  nodes : SameNodes (· = p) w w'
  slots : ∀ m, HasSlot w.env m → m ≠ (w.inodes p).ino →
    slot w.env w'.disk m = slot w.env w.disk m
  type : (slot w.env w'.disk (w.inodes p).ino).type = (slot w.env w.disk (w.inodes p).ino).type
  priv : (w'.inodes p).priv ≠ none

theorem SameNodes.cached {P : Ptr → Prop} (h : SameNodes P w w') :
    (Volume.mk w' g).cached n = (Volume.mk w g).cached n := by
  unfold Volume.cached
  simp only [h.tree, h.ino]

theorem SameNodes.live {P : Ptr → Prop} (h : SameNodes P w w') :
    (Volume.mk w' g).Live q ↔ (Volume.mk w g).Live q := by
  unfold Volume.Live
  simp only [h.tree]

theorem World.addrs_congr (hsame : (w'.inodes q).priv = (w.inodes q).priv)
    (hpriv : (w.inodes q).priv ≠ none) : w'.addrs q = w.addrs q := by
  unfold World.addrs
  rw [hsame]
  cases h : (w.inodes q).priv with
  | none => exact absurd h hpriv
  | some addrs => rfl

namespace Reworked

theorem allocated (h : Reworked p w w') (hn : HasSlot w.env n) :
    SlotInUse w.env w'.disk n ↔ SlotInUse w.env w.disk n := by
  unfold SlotInUse
  by_cases hnp : n = (w.inodes p).ino
  · rw [hnp, h.type]
  · rw [h.slots n hn hnp]

/-- Of the addresses only those of the inode are new. -/
theorem addrsOf (hi : VolumeInv ⟨w, g⟩) (hp : (Volume.mk w g).Live p) (h : Reworked p w w') :
    (Volume.mk w' g).addrsOf =
      Function.update (Volume.mk w g).addrsOf (w.inodes p).ino (some (w'.addrs p)) := by
  funext n
  by_cases hnp : n = (w.inodes p).ino
  · have hall : SlotInUse w.env w.disk n := hnp ▸ hi.allocated p hp
    have hcached : (Volume.mk w g).cached n = some p := hnp ▸ hi.cached_live hp
    unfold Volume.addrsOf
    dsimp only
    rw [h.nodes.env, h.nodes.cached, if_pos ((h.allocated hall.1).mpr hall), hcached, hnp,
      Function.update_self]
  · rw [Function.update_of_ne hnp]
    refine Volume.addrsOf_congr ?_ h.nodes.cached (fun hall _ => ?_) fun q hc => ?_
    · dsimp only
      rw [h.nodes.env]
      exact ⟨fun hall => (h.allocated hall.1).mp hall, fun hall => (h.allocated hall.1).mpr hall⟩
    · dsimp only
      rw [h.nodes.env, h.slots n hall.1 hnp]
    · obtain ⟨hq, hino⟩ := Volume.cached_eq_some hc
      have hqp : q ≠ p := by
        rintro rfl
        exact hnp hino.symm
      exact World.addrs_congr (congrArg Inode.priv (h.nodes.other q hqp)) (hi.priv q hq)

end Reworked

theorem VolumeInv.reworked (hi : VolumeInv ⟨w, g⟩) (hp : (Volume.mk w g).Live p)
    (h : Reworked p w w')
    (ho : Owned w.env w'.disk
      (Function.update (Volume.mk w g).addrsOf (w.inodes p).ino (some (w'.addrs p)))) :
    VolumeInv ⟨w', g⟩ where
  quiet := h.nodes.env.symm ▸ hi.quiet
  sound := h.nodes.env.symm ▸ hi.sound
  table := h.nodes.env.symm ▸ hi.table
  hint := h.nodes.env.symm ▸ h.nodes.hint hi.sound hi.hint
  below q hq := by
    have hmem : q ∈ w.tree := h.nodes.tree ▸ hq
    exact lt_of_lt_of_eq (hi.below q hmem) h.nodes.next.symm
  gone q hq := lt_of_lt_of_eq (hi.gone q hq) h.nodes.next.symm
  unique q r hq hr heq := by
    refine hi.unique q r (h.nodes.live.mp hq) (h.nodes.live.mp hr) ?_
    exact (h.nodes.ino q).symm.trans (heq.trans (h.nodes.ino r))
  allocated q hq := by
    have hall := hi.allocated q (h.nodes.live.mp hq)
    change SlotInUse w'.env w'.disk (w'.inodes q).ino
    rw [h.nodes.ino q, h.nodes.env]
    exact (h.allocated hall.1).mpr hall
  priv q hq := by
    by_cases hqp : q = p
    · rw [hqp]
      exact h.priv
    · change (w'.inodes q).priv ≠ none
      rw [h.nodes.other q hqp]
      exact hi.priv q (h.nodes.live.mp hq)
  owned := by
    change Owned w'.env w'.disk _
    rw [h.nodes.env, h.addrsOf hi hp]
    exact ho

/-! ## Growth -/

/-- Growth writes no slot. -/
theorem FileGrew.slots {addrs' : Addrs} (hi : VolumeInv ⟨w, g⟩) (hp : (Volume.mk w g).Live p)
    (h : FileGrew w p (w.addrs p) addrs' w') (hn : HasSlot w.env n) :
    slot w.env w'.disk n = slot w.env w.disk n :=
  hn.same hi.sound fun _ hx => h.grown.before hi.sound hi.owned (hi.addrsOf_live hp) hx

theorem FileGrew.reworked {addrs' : Addrs} (hi : VolumeInv ⟨w, g⟩) (hp : (Volume.mk w g).Live p)
    (h : FileGrew w p (w.addrs p) addrs' w') : Reworked p w w' := by
  obtain ⟨size, dirty, l, hw⟩ := h.frame
  refine ⟨⟨h.env, ?_, ?_, fun q => ?_, fun q hq => h.other hq, fun _ hh => ?_⟩,
    fun m hm _ => h.slots hi hp hm, ?_, ?_⟩
  · rw [hw]
    rfl
  · rw [hw]
    rfl
  · by_cases hqp : q = p
    · obtain ⟨size', dirty', hino⟩ := h.inode
      rw [hqp, hino]
      rfl
    · rw [h.other hqp]
  · exact h.grown.hintOk hh
  · rw [h.slots hi hp (hi.allocated p hp).1]
  · obtain ⟨size', dirty', hino⟩ := h.inode
    rw [hino]
    simp

theorem VolumeInv.grew {addrs' : Addrs} (hi : VolumeInv ⟨w, g⟩) (hp : (Volume.mk w g).Live p)
    (h : FileGrew w p (w.addrs p) addrs' w') : VolumeInv ⟨w', g⟩ := by
  refine hi.reworked hp (h.reworked hi hp) ?_
  have haddrs : w'.addrs p = addrs' := by
    obtain ⟨size, dirty, hino⟩ := h.inode
    exact World.addrs_of_priv (by rw [hino])
  rw [haddrs]
  exact h.grown.owned hi.sound hi.owned (hi.addrsOf_live hp)

/-! ## In-core inodes with the same addresses -/

/-- Neither the disk nor the tree has changed, nor the number and the addresses of a node. -/
theorem VolumeInv.sameMaps (hi : VolumeInv ⟨w, g⟩) (henv : w'.env = w.env)
    (hdisk : w'.disk = w.disk) (hhint : w'.hint = w.hint) (htree : w'.tree = w.tree)
    (hnext : w.next ≤ w'.next)
    (hino : ∀ q, q ∈ w.tree → (w'.inodes q).ino = (w.inodes q).ino)
    (hpriv : ∀ q, q ∈ w.tree → (w'.inodes q).priv = (w.inodes q).priv) : VolumeInv ⟨w', g⟩ := by
  have hlive : ∀ {q}, (Volume.mk w' g).Live q → (Volume.mk w g).Live q := fun hq =>
    ⟨htree ▸ hq.1, hq.2⟩
  have haddrs : (Volume.mk w' g).addrsOf = (Volume.mk w g).addrsOf := by
    funext n
    refine Volume.addrsOf_congr ?_ (Volume.cached_congr htree hino) (fun _ _ => ?_) fun q hc => ?_
    · dsimp only
      rw [henv, hdisk]
    · dsimp only
      rw [henv, hdisk]
    · have hq := (Volume.cached_eq_some hc).1
      exact World.addrs_congr (hpriv q hq.1) (hi.priv q hq)
  refine ⟨henv ▸ hi.quiet, henv ▸ hi.sound, henv ▸ hi.table, ?_, fun q hq => ?_,
    fun q hq => lt_of_lt_of_le (hi.gone q hq) hnext, fun q r hq hr heq => ?_, fun q hq => ?_,
    fun q hq => ?_, ?_⟩
  · change HintOk w'.env w'.hint
    rw [henv, hhint]
    exact hi.hint
  · exact lt_of_lt_of_le (hi.below q (htree ▸ hq)) hnext
  · refine hi.unique q r (hlive hq) (hlive hr) ?_
    dsimp only at heq ⊢
    rwa [hino q (hlive hq).1, hino r (hlive hr).1] at heq
  · change SlotInUse w'.env w'.disk (w'.inodes q).ino
    rw [henv, hdisk, hino q (hlive hq).1]
    exact hi.allocated q (hlive hq)
  · change (w'.inodes q).priv ≠ none
    rw [hpriv q (hlive hq).1]
    exact hi.priv q (hlive hq)
  · change Owned w'.env w'.disk _
    rw [henv, hdisk, haddrs]
    exact hi.owned

/-- A field that another inode at `p` has in common with the old one. -/
theorem World.setInode_field {α : Type} (f : Inode → α) {ino : Inode}
    (h : f ino = f (w.inodes p)) (q : Ptr) : f ((w.setInode p ino).inodes q) = f (w.inodes q) := by
  by_cases hqp : q = p
  · rw [hqp, World.setInode_self, h]
  · exact congrArg f (Function.update_of_ne hqp _ _)

theorem VolumeInv.setInode {ino : Inode} (hi : VolumeInv ⟨w, g⟩)
    (hino : ino.ino = (w.inodes p).ino) (hpriv : ino.priv = (w.inodes p).priv) :
    VolumeInv ⟨w.setInode p ino, g⟩ :=
  hi.sameMaps rfl rfl rfl rfl le_rfl (fun q _ => World.setInode_field _ hino q)
    fun q _ => World.setInode_field _ hpriv q

/-! ## The write-back -/

theorem VolumeInv.sync {e : Int} (hi : VolumeInv ⟨w, g⟩) (hp : (Volume.mk w g).Live p)
    (h : Returns (xv6SyncInode p) w e w') : VolumeInv ⟨w', g⟩ := by
  cases hro : w.env.rdonly with
  | true =>
    obtain ⟨-, rfl⟩ := xv6SyncInode_rdonly hro h
    exact hi
  | false =>
    have hn := (hi.allocated p hp).1
    obtain ⟨hino, -⟩ := xv6SyncInode_spec hro h
    obtain ⟨l, hret⟩ := xv6SyncInode_returns hi.quiet hro hino
    obtain ⟨-, rfl⟩ := h.unique hret
    refine hi.reworked hp ⟨.of_disk w _ l, fun m hm hne => hn.setSlot_ne hi.sound hm hne, ?_,
      hi.priv p hp⟩ ?_
    · change (slot w.env (syncDisk w.env w.disk (w.inodes p)) (w.inodes p).ino).type = _
      rw [slot_syncDisk]
      rfl
    · have haddrs : World.addrs { w with
          disk := syncDisk w.env w.disk (w.inodes p), log := l } p = w.addrs p :=
        World.addrs_congr rfl (hi.priv p hp)
      rw [haddrs, update_some_self (hi.addrsOf_live hp)]
      exact hi.owned.behind hi.sound fun x hx => hn.setSlot_block hi.sound hx

end

end Xv6fs
