/-
  Creation.

  `xv6_create` takes a block first, which nobody owns until the slot is written. From then on the
  new inode owns it, also when the rest fails: no exit gives the block or the slot back, and an
  inode that has not been entered into the tree is known by its slot.
-/
import Xv6fs.Volume.Calls
import Xv6fs.Inode.Made

namespace Xv6fs

section

variable {w w' : World} {g : List Ptr} {p q dir : Ptr} {n b : Nat} {e : Int} {name : FileName}
  {A : Nat → Option Addrs} {isdir : Bool} {d : Disk} {hint : Nat} {blk : Block}

theorem newSlot_type {host : ByteOrder} : (newSlot host isdir b).type ≠ 0 := by
  cases isdir with
  | false => exact show T_FILE ≠ 0 by decide
  | true => exact show T_DIR ≠ 0 by decide

/-- A block that nobody owns is marked. -/
theorem Owned.handOut (hg : w.env.info.Sound) (ho : Owned w.env w.disk A) (hb : IsData w.env b)
    (hfree : bitSet w.env w.disk b = false) : Owned w.env (Xv6fs.handOut w.env w.disk b) A := by
  refine Exclusive.drop ho fun r x hr => ?_
  obtain ⟨m, role⟩ := r
  cases hAm : A m with
  | none =>
    unfold owns at hr
    rw [hAm] at hr
    cases hr
  | some other =>
    rw [owns_of hAm, ownedAt_congr fun hz =>
      handOut_held hg hb hfree (ho.held_indirect hAm hz)] at hr
    have hold := (owns_of hAm).trans hr
    exact ⟨hold, (ho.held hold).handOut hg hb⟩

/-- The inode at `q`, which is not in the tree, has been filled in from a slot in use. -/
structure Enterable (w : World) (g : List Ptr) (q : Ptr) : Prop where
  used : SlotInUse w.env w.disk (w.inodes q).ino
  nonzero : (w.inodes q).ino ≠ 0
  other : ∀ r, (Volume.mk w g).Live r → (w.inodes r).ino ≠ (w.inodes q).ino
  core : ∃ ino : Inode, w.inodes q =
    ino.ofDinode (slot w.env w.disk (w.inodes q).ino) (w.inodes q).ino

theorem Enterable.priv (h : Enterable w g q) :
    (w.inodes q).priv = some (slot w.env w.disk (w.inodes q).ino).addr := by
  obtain ⟨ino, hcore⟩ := h.core
  exact congrArg Inode.priv hcore

namespace VolumeInv

/-- The inodes have the blocks they had, and so do the slots. -/
theorem newDisk (hi : VolumeInv ⟨w, g⟩) (hh : HintOk w.env hint)
    (hbefore : SameBefore w.env w.disk d) (ho : Owned w.env d (Volume.mk w g).addrsOf)
    (l : List Event) :
    VolumeInv ⟨{ w with disk := d, hint := hint, log := l }, g⟩ := by
  have huse : ∀ m, SlotInUse w.env d m ↔ SlotInUse w.env w.disk m := fun m =>
    and_congr_right fun hm => by rw [hm.same hi.sound hbefore]
  have haddrs : (Volume.mk { w with disk := d, hint := hint, log := l } g).addrsOf =
      (Volume.mk w g).addrsOf := by
    funext m
    refine Volume.addrsOf_congr (huse m) rfl (fun hall _ => hall.1.same hi.sound hbefore)
      fun q hc => ?_
    exact World.addrs_congr rfl (hi.priv q (Volume.cached_eq_some hc).1)
  refine ⟨hi.quiet, hi.sound, hi.table, hh, hi.below, hi.gone, hi.unique,
    fun q hq => (huse _).mpr (hi.allocated q hq), hi.priv, ?_⟩
  rw [haddrs]
  exact ho

/-- No inode in core has the number of a slot that is not in use. -/
theorem ino_ne_unused (hi : VolumeInv ⟨w, g⟩) (hn : FirstUnused w.env w.disk n)
    (hp : (Volume.mk w g).Live p) : (w.inodes p).ino ≠ n := by
  rintro rfl
  exact (hi.allocated p hp).2 hn.unused

/-- The slot has been written, and the new inode owns its block. -/
theorem prepared {host : ByteOrder} (hi : VolumeInv ⟨w, g⟩) (hn : FirstUnused w.env w.disk n)
    (hh : HintOk w.env hint) (hprep : Prepared w n b (newSlot host isdir b) blk d)
    (l : List Event) : VolumeInv ⟨{ w with disk := d, hint := hint, log := l }, g⟩ := by
  have hslot : ∀ m, HasSlot w.env m → m ≠ n → slot w.env d m = slot w.env w.disk m :=
    fun m hm hmn => (hprep.slots m hm).trans (if_neg hmn)
  have huse : ∀ m, m ≠ n → (SlotInUse w.env d m ↔ SlotInUse w.env w.disk m) := fun m hmn =>
    and_congr_right fun hm => by rw [hslot m hm hmn]
  have hnew : slot w.env d n = newSlot host isdir b := (hprep.slots n hn.lt).trans (if_pos rfl)
  have haddrs : (Volume.mk { w with disk := d, hint := hint, log := l } g).addrsOf =
      Function.update (Volume.mk w g).addrsOf n (some (oneBlock b)) := by
    funext m
    by_cases hm : m = n
    · subst hm
      have hin : SlotInUse w.env d m := by
        refine ⟨hn.lt, ?_⟩
        rw [hnew]
        exact newSlot_type
      have hcached : (Volume.mk { w with disk := d, hint := hint, log := l } g).cached m = none :=
        Volume.cached_eq_none.mpr fun r hr => hi.ino_ne_unused hn hr
      unfold Volume.addrsOf
      dsimp only
      rw [if_pos hin, hcached, Function.update_self]
      dsimp only
      rw [hnew, newSlot_addr (lt_trans hprep.data.2 hi.sound.size_lt)]
    · rw [Function.update_of_ne hm]
      refine Volume.addrsOf_congr (huse m hm) rfl (fun hall _ => hslot m hall.1 hm) fun q hc => ?_
      exact World.addrs_congr rfl (hi.priv q (Volume.cached_eq_some hc).1)
  refine ⟨hi.quiet, hi.sound, hi.table, hh, hi.below, hi.gone, hi.unique, fun r hr => ?_, hi.priv,
    ?_⟩
  · exact (huse _ (hi.ino_ne_unused hn hr)).mpr (hi.allocated r hr)
  · rw [haddrs]
    exact hprep.owned hi.owned

/-- A change of an inode outside of the tree. -/
theorem setNew (hi : VolumeInv ⟨w, g⟩) (hq : q ∉ w.tree) (ino : Inode) (l : List Event) :
    VolumeInv ⟨{ w with inodes := Function.update w.inodes q ino, log := l }, g⟩ :=
  hi.outside rfl rfl rfl rfl le_rfl fun r hr => by
    have hrq : r ≠ q := by
      rintro rfl
      exact hq hr
    exact Function.update_of_ne hrq _ _

/-- Up to `create_fini`. -/
theorem createAlloc (hi : VolumeInv ⟨w, g⟩) (hdir : (Volume.mk w g).Live dir) (hq : q ∉ w.tree)
    (h : Returns (xv6Create.alloc dir q name isdir) w e w') :
    VolumeInv ⟨w', g⟩ ∧ w'.tree = w.tree ∧ w'.next = w.next ∧ (e = 0 → Enterable w' g q) := by
  have hqd : q ≠ dir := by
    rintro rfl
    exact hq hdir.1
  cases createAlloc_ends hi.quiet hi.sound hi.hint
    (by exact (Nat.le_add_right _ _).trans hi.table) h with
  | stopped he hh hd hw =>
    subst hw
    refine ⟨?_, rfl, rfl, fun h0 => absurd h0 he⟩
    rcases hd with rfl | ⟨b, hb, hfree, rfl⟩
    · exact hi.newDisk hh (fun _ _ => rfl) hi.owned _
    · refine hi.newDisk hh (fun x hx => ?_) (hi.owned.handOut hi.sound hb hfree) _
      have hds : w.env.info.bmapstart ≤ b := hi.sound.data_ge hb
      rw [handOut_block hi.sound w.disk hb (.inl hx), if_neg (by omega)]
  | @entered n b d hint l hrw hn hh hprep h =>
    have hi₁ := hi.prepared hn hh hprep l
    obtain ⟨e₁, w₁, hinit, hrest⟩ := Prog.Via.bind h
    obtain ⟨-, ino, l₁, rfl, hino⟩ := xv6InitInode_spec hinit
    have hi₂ := hi₁.setNew hq ino l₁
    rcases hrest.ite with ⟨he, hend⟩ | ⟨he, hins⟩
    · obtain ⟨rfl, rfl⟩ := hend.pure
      exact ⟨hi₂, rfl, rfl, fun h0 => absurd h0 he⟩
    -- the slot is that of the inode, and stays as it is when the name is entered
    obtain ⟨-, -, rfl⟩ | ⟨hbad, -⟩ := hino
    · have hs := (keeps_dentryInsert (P := (· = dir)) rfl name n).via hins
      refine ⟨hi₂.insert hdir hins, hs.tree, hs.next, fun _ => ?_⟩
      obtain ⟨addrs', hgrew, -⟩ := dentryInsert_grew (.inl hi₂.quiet) (hi₂.fileReady hdir) hins
      have hslot := (hgrew.slots hi₂ hdir hn.lt).trans
        ((hprep.slots n hn.lt).trans (if_pos rfl))
      have hnew := (hs.other q hqd).trans (Function.update_self _ _ _)
      have hnum : (w'.inodes q).ino = n := congrArg Inode.ino hnew
      refine ⟨?_, ?_, fun r hr => ?_, w.inodes q, ?_⟩
      · rw [hnum, hs.env]
        refine ⟨hn.lt, ?_⟩
        rw [hslot]
        exact newSlot_type
      · rw [hnum]
        exact (Nat.zero_lt_two.trans_le hn.ge).ne'
      · have hr' : (Volume.mk w g).Live r := hs.live.mp hr
        have hrq : r ≠ q := by
          rintro rfl
          exact hq hr'.1
        rw [hnum, hs.ino r]
        dsimp only
        rw [Function.update_of_ne hrq]
        exact hi.ino_ne_unused hn hr'
      · rw [hnum, hs.env, hslot]
        exact hnew
    · rcases hbad with rfl | rfl <;> exact absurd he (by decide)

theorem create {r : Int × Option Ptr} (hi : VolumeInv ⟨w, g⟩) (hdir : (Volume.mk w g).Live dir)
    (h : Returns (xv6Create dir name isdir) w r w') : VolumeInv ⟨w', g⟩ := by
  rcases Prog.Via.ite h with ⟨-, hend⟩ | ⟨-, hrun⟩
  · obtain ⟨-, rfl⟩ := hend.pure
    exact hi
  obtain ⟨o, w₁, hnew, hrest⟩ := hrun.bind
  obtain ⟨-, ⟨rfl, l, rfl⟩ | ⟨rfl, l, rfl⟩⟩ := newInode_spec hnew
  · obtain ⟨-, rfl⟩ := hrest.pure
    exact hi.logs ⟨l, rfl⟩
  have hnot : w.next ∉ w.tree := fun hmem => Nat.lt_irrefl _ (hi.below _ hmem)
  have hi₁ : VolumeInv ⟨{ w with
      inodes := Function.update w.inodes w.next .fresh, next := w.next + 1, log := l }, g⟩ :=
    hi.outside rfl rfl rfl rfl (Nat.le_succ _) fun r hr =>
      Function.update_of_ne (hi.below r hr).ne _ _
  obtain ⟨e, w₂, halloc, hrest⟩ := hrest.bind
  obtain ⟨hi₂, htree, hnext, henter⟩ := hi₁.createAlloc hdir hnot halloc
  rcases hrest.ite with ⟨-, hend⟩ | ⟨he, hend⟩
  · -- the new inode is kept, or evicted, but is in no tree
    obtain ⟨u, w₃, hput, hlast⟩ := hend.bind
    obtain ⟨-, rfl⟩ := hlast.pure
    rcases iput_spec hput with ⟨-, -, rfl⟩ | ⟨-, t, ht, rfl⟩
    · exact hi₂
    · have hnot₂ : w.next ∉ w₂.tree := by
        rw [htree]
        exact hnot
      refine hi₂.outside rfl rfl rfl ?_ le_rfl fun r hr => ?_
      · rcases ht with rfl | rfl
        · rfl
        · exact List.erase_of_not_mem hnot₂
      · have hrq : r ≠ w.next := by
          rintro rfl
          exact hnot₂ hr
        exact Function.update_of_ne hrq _ _
  · obtain ⟨u, w₃, hadd, hlast⟩ := hend.bind
    obtain rfl := (runs_rbAdd _ _ _ _).mp hadd
    obtain ⟨-, rfl⟩ := hlast.pure
    have henter := henter (not_not.mp he)
    refine hi₂.enter ?_ (fun hmem => ?_) henter.used henter.other henter.priv
    · rw [hnext]
      exact Nat.lt_succ_self _
    · exact Nat.lt_irrefl _ (hi.gone _ hmem)

end VolumeInv

end

end Xv6fs
