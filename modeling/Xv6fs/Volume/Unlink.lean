/-
  Unlinking and removing directories.

  The unlink that drops the last link frees the blocks of the inode and its slot, and from then on
  the in-core inode is one of those that are gone. On a read-only file system `xv6_bfree` refuses
  and the blocks stay marked, which harms nobody. Every other unlink erases an entry at most.
-/
import Xv6fs.Volume.Calls
import Xv6fs.Inode.Recorded
import Xv6fs.Inode.Removed

namespace Xv6fs

/-- The state after an unlink of the inode at `p`, which is gone when its slot is free. -/
def Volume.unlinked (v : Volume) (w : World) (p : Ptr) : Volume :=
  ⟨w, if SlotInUse w.env w.disk (w.inodes p).ino then v.gone else p :: v.gone⟩

section

variable {w w' : World} {g : List Ptr} {p q dir : Ptr} {n : Nat} {e : Int} {name : FileName}
  {A : Nat → Option Addrs}

/-! ## Clearing an inode of a read-only file system -/

/-- On a read-only file system the disk stays as it is. -/
def RdonlySame (w w' : World) : Prop := w'.env = w.env ∧ (w.env.rdonly = true → w'.disk = w.disk)

instance : IsPreorder World RdonlySame where
  refl _ := ⟨rfl, fun _ => rfl⟩
  trans _ _ _ h h' := ⟨h'.1.trans h.1, fun hro => (h'.2 (h.1 ▸ hro)).trans (h.2 hro)⟩

open Prog (Keeps)

private theorem rdonly_of {α : Type} {m : Fs α}
    (h : ∀ w a w', w.env.rdonly = true → Returns m w a w' → w'.disk = w.disk) :
    Keeps RdonlySame m := fun w a w' hrun =>
  ⟨(m.mono w a w' hrun).1, fun hro => h w a w' hro (returns_iff.mpr hrun)⟩

private theorem rdonly_sbBread (b : Nat) : Keeps RdonlySame (sbBread b) :=
  .step fun _ => ⟨rfl, fun _ => rfl⟩

private theorem rdonly_bfree (b : Nat) : Keeps RdonlySame (xv6Bfree b) :=
  rdonly_of fun w a w' hro h => by
    simp only [xv6Bfree, xv6BfreeUnsafe, Returns, runs_bind_getEnv, hro, if_true] at h
    exact congrArg World.disk h.pure.2.symm

private theorem rdonly_modifyInode (f : Inode → Inode) : Keeps RdonlySame (modifyInode p f) :=
  keeps_change fun _ => ⟨rfl, fun _ => rfl⟩

private theorem rdonly_getInode : Keeps RdonlySame (getInode p) := .bind .get fun _ => .pure _

private theorem rdonly_syncInode : Keeps RdonlySame (xv6SyncInode p) :=
  rdonly_of fun w a w' hro h => by rw [(xv6SyncInode_rdonly hro h).2]

private theorem rdonly_clearDirect : ∀ (n i : Nat) (addrs : Addrs),
    Keeps RdonlySame (xv6InodeClear.direct n i addrs)
  | 0, _, _ => .pure _
  | n + 1, i, _ => .ite (.bind (rdonly_bfree _) fun _ => rdonly_clearDirect n (i + 1) _)
      (rdonly_clearDirect n (i + 1) _)

private theorem rdonly_clearEntries (iaddr : Nat) : ∀ (n i : Nat),
    Keeps RdonlySame (xv6InodeClear.entries iaddr n i)
  | 0, _ => .pure _
  | n + 1, i => .bind (.bind .get fun _ => .pure _) fun _ =>
      .ite (.bind (rdonly_bfree _) fun _ => rdonly_clearEntries iaddr n (i + 1))
        (rdonly_clearEntries iaddr n (i + 1))

private theorem rdonly_clearFinish (addrs : Addrs) :
    Keeps RdonlySame (xv6InodeClear.finish p addrs) :=
  .bind (rdonly_modifyInode _) fun _ => .bind (rdonly_modifyInode _) fun _ =>
    .bind (rdonly_modifyInode _) fun _ => .bind rdonly_getInode fun ino => by
      cases ino.priv with
      | none =>
        dsimp only
        exact .bind (rdonly_modifyInode _) fun _ => .bind rdonly_syncInode fun _ =>
          .bind (rdonly_modifyInode _) fun _ => .pure _
      | some addrs => exact rdonly_syncInode

private theorem rdonly_reads (h : OnlyReads w w' e) : w'.disk = w.disk := by
  obtain ⟨l, rfl⟩ := h.log
  rfl

theorem inodeClear_rdonly : Keeps RdonlySame (xv6InodeClear p) :=
  .bind (rdonly_of fun _ _ _ _ h => rdonly_reads (initIctx_reads h).1) fun _ => .ite (.pure _) <|
    .bind (rdonly_clearDirect _ _ _) fun _ => .bind (rdonly_modifyInode _) fun _ => .ite
      (.bind (rdonly_sbBread _) fun _ => .ite (.pure _) <|
        .bind (rdonly_clearEntries _ _ _) fun _ => .bind (rdonly_bfree _) fun _ =>
          rdonly_clearFinish _)
      (rdonly_clearFinish _)

/-! ## Clearing an inode -/

theorem clearFinish_error {addrs : Addrs} (hq : Quiet w.env) (hino : (w.inodes p).ino ≠ 0)
    (h : Returns (xv6InodeClear.finish p addrs) w e w') : e = 0 := by
  cases hpriv : (w.inodes p).priv with
  | some B =>
    obtain ⟨w₁, hret, -⟩ := finish_cached (I := w.inodes p) (A := B) addrs hq hino
      (by rw [← hpriv])
    exact (h.unique hret).1
  | none =>
    obtain ⟨w₁, hret, -⟩ := finish_uncached (I := w.inodes p) addrs hq hino (by rw [← hpriv])
    exact (h.unique hret).1

/-- Without I/O errors `xv6_inode_clear` returns 0. -/
theorem inodeClear_error (hq : Quiet w.env) (hino : (w.inodes p).ino ≠ 0)
    (h : Returns (xv6InodeClear p) w e w') : e = 0 := by
  have hend : ∀ {addrs : Addrs} {w₁ : World}, SameNodes (· = p) w w₁ →
      Returns (xv6InodeClear.finish p addrs) w₁ e w' → e = 0 := fun hs hfinish =>
    clearFinish_error (hs.env.symm ▸ hq) (hs.ino p ▸ hino) hfinish
  obtain ⟨⟨e₁, ictx⟩, w₁, hinit, hrest⟩ := Prog.Via.bind h
  have hs₁ : SameNodes (· = p) w w₁ := keeps_initIctx.via hinit
  rcases hrest.ite with ⟨he, -⟩ | ⟨-, hrest⟩
  · exact absurd ((initIctx_reads hinit).1.error.mpr (Returns.faultless hq hinit)) he
  obtain ⟨addrs, w₂, hdirect, hrest⟩ := hrest.bind
  obtain ⟨u, w₃, hback, hrest⟩ := hrest.bind
  have hs₃ : SameNodes (· = p) w w₃ := trans_of _ hs₁ (trans_of _
    ((keeps_inodeClear_direct _ _ _).via hdirect)
    ((keeps_writeBack (P := (· = p)) rfl _).via hback))
  rcases hrest.ite with ⟨-, hrest⟩ | ⟨-, hfinish⟩
  · obtain ⟨ok, w₄, hread, hrest⟩ := hrest.bind
    rcases hrest.ite with ⟨hok, -⟩ | ⟨-, hrest⟩
    · rw [((runs_sbBread _ _ _ _).mp hread).2.1, hs₃.env] at hok
      simp [hq _] at hok
    obtain ⟨u', w₅, hentries, hrest⟩ := hrest.bind
    obtain ⟨e₂, w₆, hbfree, hfinish⟩ := hrest.bind
    exact hend (trans_of _ hs₃ (trans_of _ ((keeps_sbBread _).via hread) (trans_of _
      ((keeps_inodeClear_entries _ _ _).via hentries) ((keeps_bfree _).via hbfree)))) hfinish
  · exact hend hs₃ hfinish

/-- The other inodes are as they were, and keep their blocks. -/
structure Cleared (w : World) (p : Ptr) (w' : World) : Prop where
  nodes : SameNodes (· = p) w w'
  held : ∀ x, Held w.env w.disk x → ¬ Owns w.disk (w.addrs p) x → Held w.env w'.disk x
  data : ∀ x, IsData w.env x → w'.disk x = w.disk x
  slots : ∀ m, HasSlot w.env m → m ≠ (w.inodes p).ino →
    slot w.env w'.disk m = slot w.env w.disk m
  front : ∀ x, x < w.env.info.inodestart → w'.disk x = w.disk x

theorem inodeClear_cleared (hq : Quiet w.env) (hg : w.env.info.Sound)
    (hino : (w.inodes p).ino ≠ 0) (hslot : HasSlot w.env (w.inodes p).ino)
    (ho : Owned w.env w.disk A) (hA : A n = some (w.addrs p))
    (h : Returns (xv6InodeClear p) w e w') : Cleared w p w' := by
  have hnodes : SameNodes (· = p) w w' := (keeps_inodeClear (P := (· = p)) rfl).via h
  cases hro : w.env.rdonly with
  | true =>
    have hdisk := (inodeClear_rdonly.via h).2 hro
    refine ⟨hnodes, fun x hx _ => ?_, fun x _ => by rw [hdisk], fun m _ _ => by rw [hdisk],
      fun x _ => by rw [hdisk]⟩
    rw [hdisk]
    exact hx
  | false =>
    obtain ⟨d, di, w₁, hret, -, hfree, hdisk, -⟩ := inodeClear_frees ⟨hro, hq, hg⟩ hino ho hA
    obtain ⟨-, rfl⟩ := h.unique hret
    have hbehind : ∀ x, w.env.info.bmapstart ≤ x → w'.disk x = d x := fun x hx => by
      rw [hdisk]
      exact hslot.setSlot_block hg hx
    refine ⟨hnodes, fun x hx hno => ⟨hx.1, ?_⟩, fun x hx => ?_, fun m hm hne => ?_, fun x hx => ?_⟩
    · rw [bitSet_congr (hbehind _ (hg.bitmapBlock_ge hx.inBitmap))]
      exact (hfree.bits x hx.inBitmap).mpr ⟨hx.2, hno⟩
    · rw [hbehind x (hg.data_ge hx), hfree.data hx]
    · rw [hdisk, hslot.setSlot_ne hg hm hne]
      exact hm.same hg fun x hx => hfree.blocks x (.inl hx)
    · rw [hdisk, hslot.setSlot_front hg hx, hfree.blocks x (.inl (hx.trans hslot.start_lt))]

/-- Without the inode the blocks are owned once still. -/
theorem Cleared.owned (ho : Owned w.env w.disk A) (hA : A n = some (w.addrs p))
    (h : Cleared w p w') : Owned w.env w'.disk (Function.update A n none) := by
  refine Exclusive.drop ho fun r x hr => ?_
  obtain ⟨m, role⟩ := r
  have hmn : m ≠ n := by
    rintro rfl
    unfold owns at hr
    rw [Function.update_self] at hr
    cases hr
  unfold owns at hr
  rw [Function.update_of_ne hmn] at hr
  cases hAm : A m with
  | none =>
    rw [hAm] at hr
    cases hr
  | some other =>
    rw [hAm] at hr
    have hold : ownedAt w.disk other role = some x := by
      rw [← ownedAt_congr fun hz => h.data _ (ho.held_indirect hAm hz).1]
      exact hr
    have howns : Owns w.disk other x := ⟨role, hold⟩
    refine ⟨(owns_of hAm).trans hold, h.held x (ho.held_of_owns hAm howns) ?_⟩
    exact ho.not_owns hAm hA hmn.symm howns

/-! ## The inode is gone -/

/-- The in-core inodes of other numbers are where they were. -/
theorem SameNodes.cached_gone {P : Ptr → Prop} (hs : SameNodes P w w')
    (hne : (w.inodes p).ino ≠ n) :
    (Volume.mk w' (p :: g)).cached n = (Volume.mk w g).cached n := by
  unfold Volume.cached
  dsimp only
  rw [hs.tree, ← List.head?_filter, ← List.head?_filter]
  refine congrArg List.head? (List.filter_congr fun q _ => ?_)
  rw [hs.ino q, decide_eq_decide, List.mem_cons, not_or]
  constructor
  · exact fun h => ⟨h.1.2, h.2⟩
  · refine fun h => ⟨⟨?_, h.1⟩, h.2⟩
    rintro rfl
    exact hne h.2

namespace VolumeInv

/-- The slot of the inode at `p` is free, and the other inodes have the addresses they had. -/
theorem removed {P : Ptr → Prop} (hi : VolumeInv ⟨w, g⟩) (hp : (Volume.mk w g).Live p)
    (hs : SameNodes P w w')
    (hpriv : ∀ q, (Volume.mk w g).Live q → q ≠ p → (w'.inodes q).priv = (w.inodes q).priv)
    (hslots : ∀ m, HasSlot w.env m → m ≠ (w.inodes p).ino →
      slot w.env w'.disk m = slot w.env w.disk m)
    (hfree : (slot w.env w'.disk (w.inodes p).ino).type = 0)
    (ho : Owned w.env w'.disk
      (Function.update (Volume.mk w g).addrsOf (w.inodes p).ino none)) :
    VolumeInv ⟨w', p :: g⟩ := by
  have hlive : ∀ q, (Volume.mk w' (p :: g)).Live q → (Volume.mk w g).Live q ∧ q ≠ p :=
    fun q hq => by
      have hmem : q ∈ w.tree := hs.tree ▸ hq.1
      have hnot : q ≠ p ∧ q ∉ g := by simpa using hq.2
      exact ⟨⟨hmem, hnot.2⟩, hnot.1⟩
  have hother : ∀ q, (Volume.mk w g).Live q → q ≠ p → (w.inodes q).ino ≠ (w.inodes p).ino :=
    fun q hq hne heq => hne (hi.unique q p hq hp heq)
  have huse : ∀ m, m ≠ (w.inodes p).ino →
      (SlotInUse w.env w'.disk m ↔ SlotInUse w.env w.disk m) := fun m hm =>
    and_congr_right fun hslot => by rw [hslots m hslot hm]
  have haddrs : (Volume.mk w' (p :: g)).addrsOf =
      Function.update (Volume.mk w g).addrsOf (w.inodes p).ino none := by
    funext m
    by_cases hm : m = (w.inodes p).ino
    · unfold Volume.addrsOf
      dsimp only
      rw [hs.env, hm, Function.update_self, if_neg fun hall => hall.2 hfree]
    · rw [Function.update_of_ne hm]
      refine Volume.addrsOf_congr ?_ ?_ (fun hall _ => ?_) fun q hc => ?_
      · dsimp only
        rw [hs.env]
        exact huse m hm
      · exact hs.cached_gone (Ne.symm hm)
      · dsimp only
        rw [hs.env, hslots m hall.1 hm]
      · obtain ⟨hq, hino⟩ := Volume.cached_eq_some hc
        have hqp : q ≠ p := by
          rintro rfl
          exact hm hino.symm
        exact World.addrs_congr (hpriv q hq hqp) (hi.priv q hq)
  refine ⟨hs.env ▸ hi.quiet, hs.env ▸ hi.sound, hs.env ▸ hi.table, ?_, fun q hq => ?_,
    fun q hq => ?_, fun q r hq hr heq => ?_, fun q hq => ?_, fun q hq => ?_, ?_⟩
  · change HintOk w'.env w'.hint
    rw [hs.env]
    exact hs.hint hi.sound hi.hint
  · exact lt_of_lt_of_eq (hi.below q (hs.tree ▸ hq)) hs.next.symm
  · rcases List.mem_cons.mp hq with rfl | hq
    · exact lt_of_lt_of_eq (hi.below q hp.1) hs.next.symm
    · exact lt_of_lt_of_eq (hi.gone q hq) hs.next.symm
  · refine hi.unique q r (hlive q hq).1 (hlive r hr).1 ?_
    exact (hs.ino q).symm.trans (heq.trans (hs.ino r))
  · obtain ⟨hq', hqp⟩ := hlive q hq
    change SlotInUse w'.env w'.disk (w'.inodes q).ino
    rw [hs.env, hs.ino q]
    exact (huse _ (hother q hq' hqp)).mpr (hi.allocated q hq')
  · obtain ⟨hq', hqp⟩ := hlive q hq
    change (w'.inodes q).priv ≠ none
    rw [hpriv q hq' hqp]
    exact hi.priv q hq'
  · change Owned w'.env w'.disk _
    rw [hs.env, haddrs]
    exact ho

/-- After the clearing the directory finds its blocks as they were. -/
theorem erased {w₁ w₂ : World} {e₁ e₂ : Int} (hi : VolumeInv ⟨w, g⟩)
    (hp : (Volume.mk w g).Live p) (hdir : (Volume.mk w g).Live dir) (hino : (w.inodes p).ino ≠ 0)
    (hne : (w.inodes p).ino ≠ (w.inodes dir).ino)
    (hclear : Returns (xv6InodeClear p) w e₁ w₁)
    (herase : Returns (xv6DirErase dir name) w₁ e₂ w₂) :
    Cleared w p w₁ ∧
      FileReady w₁ dir (w.inodes dir).ino
        (Function.update (Volume.mk w g).addrsOf (w.inodes p).ino none) (w.addrs dir) ∧
      FileGrew w₁ dir (w.addrs dir) (w.addrs dir) w₂ := by
  have hA := hi.addrsOf_live hp
  have hc := inodeClear_cleared hi.quiet hi.sound hino (hi.allocated p hp).1 hi.owned hA hclear
  have hdp : dir ≠ p := by
    rintro rfl
    exact hne rfl
  have hr : FileReady w₁ dir (w.inodes dir).ino
      (Function.update (Volume.mk w g).addrsOf (w.inodes p).ino none) (w.addrs dir) := by
    refine ⟨hc.nodes.env.symm ▸ hi.sound, ?_, ?_, ?_, ?_⟩
    · rw [hc.nodes.env]
      exact hc.nodes.hint hi.sound hi.hint
    · rw [hc.nodes.other dir hdp]
      exact hi.priv_live hdir
    · rw [Function.update_of_ne hne.symm]
      exact hi.addrsOf_live hdir
    · rw [hc.nodes.env]
      exact hc.owned hi.owned hA
  exact ⟨hc, hr, (dirErase_grew (.inl (hc.nodes.env.symm ▸ hi.quiet)) hr herase).1⟩

end VolumeInv

/-- An erased entry is in no slot. -/
theorem Cleared.erased_slot {w₁ w₂ : World} {addrs : Addrs} (hg : w.env.info.Sound)
    (hc : Cleared w p w₁) (hr : FileReady w₁ dir n A addrs) (h : FileGrew w₁ dir addrs addrs w₂)
    {m : Nat} (hm : HasSlot w.env m) : slot w.env w₂.disk m = slot w.env w₁.disk m :=
  hm.same hg fun x hx => by
    have hbefore := h.grown.before hr.sound hr.owned hr.at_n (x := x)
    rw [hc.nodes.env] at hbefore
    exact hbefore hx

/-- Nor has the freed slot written another. -/
theorem Cleared.removed_slot {w₁ w₂ : World} {addrs : Addrs} (hg : w.env.info.Sound)
    (hp : HasSlot w.env (w.inodes p).ino) (hc : Cleared w p w₁) (hr : FileReady w₁ dir n A addrs)
    (h : FileGrew w₁ dir addrs addrs w₂) {m : Nat} (hm : HasSlot w.env m)
    (hne : m ≠ (w.inodes p).ino) :
    slot w.env (setSlot w₂.env w₂.disk (w.inodes p).ino Dinode.zero) m = slot w.env w.disk m := by
  have henv : w₂.env = w.env := h.env.trans hc.nodes.env
  rw [henv, hp.setSlot_ne hg hm hne, hc.erased_slot hg hr h hm, hc.slots m hm hne]

theorem removed_nodes {w₁ w₂ w₃ : World} {e₂ : Int} {m : Nat} (hc : Cleared w p w₁)
    (herase : Returns (xv6DirErase dir name) w₁ e₂ w₂) (hifree : Returns (xv6Ifree m) w₂ e w₃) :
    SameNodes (fun q => q = p ∨ q = dir) w w₃ :=
  trans_of _ (hc.nodes.weaken fun _ hq => .inl hq) (trans_of _
    (((keeps_dirErase (P := (· = dir)) rfl name).via herase).weaken fun _ hq => .inr hq)
    ((keeps_ifree (P := fun q => q = p ∨ q = dir) m).via hifree))

namespace VolumeInv

/-- From the clearing of the inode on. -/
theorem unlinkLast {w₁ w₂ w₃ : World} {e₁ e₂ : Int} (hi : VolumeInv ⟨w, g⟩)
    (hp : (Volume.mk w g).Live p) (hdir : (Volume.mk w g).Live dir) (hino : (w.inodes p).ino ≠ 0)
    (hne : (w.inodes p).ino ≠ (w.inodes dir).ino)
    (hclear : Returns (xv6InodeClear p) w e₁ w₁) (herase : Returns (xv6DirErase dir name) w₁ e₂ w₂)
    (hifree : Returns (xv6Ifree (w.inodes p).ino) w₂ e w₃) :
    VolumeInv ⟨w₃, p :: g⟩ ∧ ¬ SlotInUse w₃.env w₃.disk (w₃.inodes p).ino := by
  have hp' := hi.allocated p hp
  obtain ⟨hc, hr, hgrew⟩ := hi.erased hp hdir hino hne hclear herase
  have henv₂ : w₂.env = w.env := hgrew.env.trans hc.nodes.env
  obtain ⟨l, hret⟩ := ifree_returns (w := w₂) (n := (w.inodes p).ino) (henv₂.symm ▸ hi.quiet)
  obtain ⟨-, rfl⟩ := hifree.unique hret
  have hnodes := removed_nodes hc herase hret
  have hfree : (slot w.env (setSlot w₂.env w₂.disk (w.inodes p).ino Dinode.zero)
      (w.inodes p).ino).type = 0 := by
    rw [← henv₂, slot_setSlot_self]
    rfl
  refine ⟨hi.removed hp hnodes (fun q hq hqp => ?_) (fun m hm hmp => ?_) hfree ?_, fun hall => ?_⟩
  · by_cases hqd : q = dir
    · obtain ⟨size, dirty, hino'⟩ := hgrew.inode
      rw [hqd]
      change (w₂.inodes dir).priv = _
      rw [hino', hi.priv_live hdir]
    · exact congrArg Inode.priv (hnodes.other q (by simp [hqp, hqd]))
  · exact hc.removed_slot hi.sound hp'.1 hr hgrew hm hmp
  · have howned := hgrew.grown.owned hr.sound hr.owned hr.at_n
    rw [update_some_self hr.at_n, hc.nodes.env] at howned
    refine howned.behind hi.sound fun x hx => ?_
    change setSlot w₂.env w₂.disk (w.inodes p).ino Dinode.zero x = _
    rw [henv₂, hp'.1.setSlot_block hi.sound hx]
  · refine hall.2 ?_
    rw [hnodes.env, hnodes.ino p]
    rw [henv₂] at hfree
    exact hfree

/-- An inode that keeps its slot is not gone. -/
theorem unlinked_live (hi : VolumeInv ⟨w', g⟩) (hp : (Volume.mk w' g).Live p) :
    VolumeInv ((Volume.mk w g).unlinked w' p) := by
  unfold Volume.unlinked
  rw [if_pos (hi.allocated p hp)]
  exact hi

theorem unlink (hi : VolumeInv ⟨w, g⟩) (hdir : (Volume.mk w g).Live dir)
    (hp : (Volume.mk w g).Live p) (h : Returns (xv6Unlink dir p name) w e w') :
    VolumeInv ((Volume.mk w g).unlinked w' p) := by
  simp only [xv6Unlink, Returns, runs_bind_getInode] at h
  obtain ⟨u, w₁, hdec, hrest⟩ := h.bind
  obtain rfl := (runs_decLinkCount u).mp hdec
  have hi₁ := hi.setNlink (p := p) (((w.inodes p).nlink + (2 ^ 32 - 1)) % 2 ^ 32) true
  generalize hw₁ : w.setInode p _ = w₁ at hi₁ hrest
  have hlive : ∀ {q}, (Volume.mk w g).Live q → (Volume.mk w₁ g).Live q := fun hq => by
    rw [← hw₁]
    exact hq
  have hino : ∀ q, (w₁.inodes q).ino = (w.inodes q).ino := fun q => by
    rw [← hw₁]
    by_cases hqp : q = p
    · rw [hqp, World.setInode_self]
    · exact congrArg Inode.ino (Function.update_of_ne hqp _ _)
  simp only [runs_bind_getInode] at hrest
  rcases hrest.ite with ⟨-, herase⟩ | ⟨-, hrest⟩
  · refine unlinked_live (hi₁.erase (hlive hdir) herase) ?_
    exact ((keeps_dirErase (P := (· = dir)) rfl name).via herase).live.mpr (hlive hp)
  simp only [runs_bind_assert] at hrest
  obtain ⟨hnonzero, hrest⟩ := hrest
  rcases hrest.ite with ⟨-, hend⟩ | ⟨-, hrest⟩
  · obtain ⟨-, rfl⟩ := hend.pure
    exact hi₁.unlinked_live (hlive hp)
  simp only [runs_bind_getInode] at hrest
  rcases hrest.ite with ⟨-, hend⟩ | ⟨hother, hrest⟩
  · obtain ⟨-, rfl⟩ := hend.pure
    exact hi₁.unlinked_live (hlive hp)
  obtain ⟨e₁, w₂, hclear, hrest⟩ := hrest.bind
  rcases hrest.ite with ⟨he, -⟩ | ⟨-, hrest⟩
  · refine absurd (inodeClear_error hi₁.quiet ?_ hclear) he
    rwa [hino p]
  obtain ⟨e₂, w₃, herase, hifree⟩ := hrest.bind
  rw [← hino p] at hnonzero hother hifree
  obtain ⟨hi', hgone⟩ := hi₁.unlinkLast (hlive hp) (hlive hdir) hnonzero hother hclear herase hifree
  unfold Volume.unlinked
  rw [if_neg hgone]
  exact hi'

theorem rmdir (hi : VolumeInv ⟨w, g⟩) (hdir : (Volume.mk w g).Live dir)
    (hp : (Volume.mk w g).Live p) (h : Returns (xv6Rmdir dir p name) w e w') :
    VolumeInv ((Volume.mk w g).unlinked w' p) := by
  simp only [xv6Rmdir, Returns, runs_bind_getInode] at h
  rcases h.ite with ⟨-, hend⟩ | ⟨-, h⟩
  · obtain ⟨-, rfl⟩ := hend.pure
    exact hi.unlinked_live hp
  rcases h.ite with ⟨-, hend⟩ | ⟨-, h⟩
  · obtain ⟨-, rfl⟩ := hend.pure
    exact hi.unlinked_live hp
  obtain ⟨e₁, w₁, htest, hrest⟩ := h.bind
  obtain ⟨l, rfl⟩ := rmtest_readOnly htest
  have hi₁ : VolumeInv ⟨{ w with log := l }, g⟩ := hi.logs ⟨l, rfl⟩
  rcases hrest.ite with ⟨-, hend⟩ | ⟨-, hrest⟩
  · obtain ⟨-, rfl⟩ := hend.pure
    exact hi₁.unlinked_live hp
  · exact hi₁.unlink hdir hp hrest

end VolumeInv

end

end Xv6fs
