/-
  Insertion, erasure and lookup as operations on a finite map.

  In a valid directory whose blocks are data blocks in use, each named once, a run of
  xv6_dentry_insert, xv6_dir_erase and xv6_find_inum is a run on the map (`dir_is_map`). When a
  block is named twice an insertion can add two entries (`insert_shared_block`).
-/
import Xv6fs.Dir.Valid
import Xv6fs.File.Contents
import Xv6fs.Fs.Total
import Xv6fs.Lib.Steps

namespace Xv6fs

/-! ## The operations and the map -/

/-- A call on a directory with what it returns. -/
inductive DirCall where
  | insert (n : EntryName) (inum : UInt16) (e : Int)
  | erase (n : EntryName) (e : Int)
  | find (n : EntryName) (e : Int) (k : Nat) (de : Dirent)

/-- The map of the directory at `p`. -/
def dirMapAt (w : World) (p : Ptr) : EntryName → Option UInt16 :=
  dirMap w.disk (w.addrs p) (w.inodes p).size

/-- A call on the directory at `p`. Only a name that is not there is inserted. -/
inductive DirStep (p : Ptr) : World → DirCall → World → Prop where
  | insert {w w' : World} {n : EntryName} {inum : UInt16} {e : Int} (hinum : inum ≠ 0)
      (hnone : dirMapAt w p n = none)
      (h : Returns (xv6DentryInsert p n.name inum.toNat) w e w') :
      DirStep p w (.insert n inum e) w'
  | erase {w w' : World} {n : EntryName} {e : Int} (h : Returns (xv6DirErase p n.name) w e w') :
      DirStep p w (.erase n e) w'
  | find {w w' : World} {n : EntryName} {e : Int} {k : Nat} {de : Dirent}
      (h : Returns (xv6FindInum p n.name) w (e, k, de) w') : DirStep p w (.find n e k de) w'

/-- What the calls do to a finite map, and what they may return. -/
inductive MapStep : (EntryName → Option UInt16) → DirCall → (EntryName → Option UInt16) → Prop where
  | inserted {m : EntryName → Option UInt16} {n : EntryName} {inum : UInt16} (hnone : m n = none) :
      MapStep m (.insert n inum 0) (Function.update m n (some inum))
  | notInserted {m : EntryName → Option UInt16} {n : EntryName} {inum : UInt16} {e : Int}
      (he : e ≠ 0) : MapStep m (.insert n inum e) m
  | erased {m : EntryName → Option UInt16} {n : EntryName} {inum : UInt16}
      (hsome : m n = some inum) : MapStep m (.erase n 0) (Function.update m n none)
  | notErased {m : EntryName → Option UInt16} {n : EntryName} (hnone : m n = none) :
      MapStep m (.erase n (-ENOENT)) m
  | found {m : EntryName → Option UInt16} {n : EntryName} {k : Nat} {de : Dirent} (hk : k ≠ 0)
      (hsome : m n = some de.inum) : MapStep m (.find n 0 k de) m
  | notFound {m : EntryName → Option UInt16} {n : EntryName} {de : Dirent} (hnone : m n = none) :
      MapStep m (.find n 0 0 de) m

/-- One inode with these addresses. -/
def alone (addrs : Addrs) : Nat → Option Addrs := Function.update (fun _ => none) 0 (some addrs)

/-- The inode at `p` is that of a valid directory in use on a writable mount, and its blocks are
    data blocks in use, each named once. -/
structure DirReady (w : World) (p : Ptr) : Prop where
  fmt : (w.inodes p).fmt = .dir
  cached : (w.inodes p).priv = some (w.addrs p)
  valid : ValidDir w.disk (w.addrs p) (w.inodes p).size
  owned : Owned w.env w.disk (alone (w.addrs p))
  writable : w.env.rdonly = false
  sound : w.env.info.Sound
  hint : HintOk w.env w.hint

section

variable {φ : Event → Prop} {w w' w₁ : World} {p : Ptr} {addrs : Addrs} {size n k : Nat} {e : Int}
  {A : Nat → Option Addrs} {nm : EntryName} {inum : UInt16}

/-! ## What an insertion does to a valid directory -/

/-- The directory after an insertion: it has the new entry, or is as it was. -/
structure Inserted (w : World) (A : Nat → Option Addrs) (n : Nat) (addrs : Addrs) (size : Nat)
    (nde : Dirent) (e : Int) (addrs' : Addrs) (size' : Nat) (w' : World) : Prop where
  frame : ∃ l, w' = { w with disk := w'.disk, hint := w'.hint, log := l }
  hint : HintOk w.env w'.hint
  owned : Owned w.env w'.disk (Function.update A n (some addrs'))
  elsewhere : Elsewhere w.disk A n w'.disk
  before : SameBefore w.env w.disk w'.disk
  entry : e = 0 → ∃ k, k ≤ size / 16 ∧ k < MAXFILE * NENTS ∧
    (k < size / 16 → (dslot w.disk addrs k).inum = 0) ∧
    size' = (if k < size / 16 then size else size + 16) ∧
    SlotSet w.disk addrs k nde w'.disk addrs'
  failed : e ≠ 0 → SameFile w.disk addrs w'.disk addrs'

theorem Opened.faultless_after {m b : Nat} {addrs' : Addrs} {dirty : Bool}
    (h : Opened w addrs m e b addrs' dirty w₁) (hlog : ∃ es, w'.log = es ++ w₁.log)
    (hf : Faultless w w') : Faultless w₁ w' := by
  obtain ⟨es, hes, -⟩ := h.le.2
  exact ((World.along_append ⟨es, hes⟩ hlog).mp hf).2

/-- The block that is looked up is the one that holds the entry. -/
theorem Opened.slot {b : Nat} {addrs' : Addrs} {dirty : Bool} (hw : GrowReady w addrs)
    (hk : k / NENTS < MAXFILE) (h : Opened w addrs (k / NENTS) 0 b addrs' dirty w₁) :
    b ≠ 0 ∧ bmap w₁.disk addrs' (k / NENTS) = b ∧
      dslot w₁.disk addrs' k = (w₁.disk b).dirent (k % NENTS) := by
  obtain ⟨hb, hmap⟩ := h.mapped.ok hw.sound hw.hint hk
  refine ⟨hb, hmap, ?_⟩
  unfold dslot fblock
  rw [hmap, if_neg hb]

theorem Inserting.inserted {nde : Dirent} {ctx : InodeCtx} (hw : GrowReady w addrs)
    (ho : Owned w.env w.disk A) (hA : A n = some addrs) (hv : ValidDir w.disk addrs size)
    (h : Inserting w ⟨addrs, size, false⟩ nde e ctx w') (hf : Faultless w w') :
    Inserted w A n addrs size nde e ctx.addrs (if e = 0 ∧ ctx.dirty then ctx.size else size)
      w' := by
  cases h with
  | big hr hn hall =>
    obtain ⟨l, rfl⟩ := hr.log
    refine ⟨⟨l, rfl⟩, hw.hint, ?_, .refl _ A n, fun _ _ => rfl, fun h0 => absurd h0 (by decide),
      fun _ _ _ => rfl⟩
    rwa [update_some_self hA]
  | unmapped hm hm' hbefore hop he =>
    obtain ⟨hsame, helse, hbefore', hhint, hown⟩ := hop.effect hw ho hA hm
    exact ⟨hop.frame, hhint, hown (hop.faultless.mp hf), helse, hbefore', fun h0 => absurd h0 he,
      fun _ => hsame⟩
  | unread hm hm' hbefore hop hr he =>
    obtain ⟨es, hes, -⟩ := hr.reads
    exact absurd (hr.error.mpr (hop.faultless_after ⟨es, hes⟩ hf)) he
  | @written k b _ addrs' dirty dirty' size' w₁ _ hk hk' hbefore hop hfree hname hsize hdirty
      _ hwr =>
    obtain rfl : e = 0 := hwr.error.mpr (hop.faultless_after hwr.log hf)
    obtain ⟨hsame, helse, hbefore', hhint, hown⟩ := hop.effect hw ho hA hk
    obtain ⟨hb, hmap, hslot⟩ := hop.slot hw hk
    obtain ⟨l, hw₁⟩ := hop.frame
    have henv : w₁.env = w.env := by
      rw [hw₁]
    have hself : Function.update A n (some addrs') n = some addrs' := Function.update_self _ _ _
    have hown' := hown (.inl rfl)
    have hst := hwr.stored
    have hkmax : k < MAXFILE * NENTS := by
      simp only [MAXFILE, NENTS] at hk ⊢
      omega
    have helse' := Stored.elsewhere hown' hself hk hmap hb hst
    rw [← henv] at hown'
    refine ⟨?_, ?_, ?_, helse.trans helse', ?_, fun _ => ⟨k, hk', hkmax, fun _ => ?_, ?_, ?_⟩,
      fun hne => absurd rfl hne⟩
    · obtain ⟨l', f, -, -, -, rfl⟩ := hwr
      rw [hw₁]
      exact ⟨_, rfl⟩
    · obtain ⟨l', f, -, -, -, rfl⟩ := hwr
      exact hhint
    · have := Stored.owned (henv ▸ hw.sound) hown' hself hk hmap hb hst
      rwa [henv] at this
    · have := Stored.before (henv ▸ hw.sound) hown' hself hk hmap hb hst
      rw [henv] at this
      exact hbefore'.trans this
    · rw [← hsame.slots hkmax, hslot]
      exact hfree
    · have hle := hv.le
      simp only [MAXFILE, BSIZE] at hle
      have hmod : (size + 16) % 2 ^ 32 = size + 16 := Nat.mod_eq_of_lt (by omega)
      dsimp only at hsize hdirty ⊢
      rw [hmod] at hsize
      rw [← hsize]
      cases dirty' with
      | true => exact if_pos ⟨rfl, rfl⟩
      | false =>
        rw [if_neg fun hc => absurd hc.2 (by decide)]
        exact (hdirty rfl).1.symm
    · exact hsame.slotSet ((Stored.slot hown' hself hk hmap hb hst).2 rfl)
  | garbage hn hall hop hused hr =>
    -- every entry behind the last is unused
    have hend : size / 16 < MAXFILE * NENTS := by
      simp only [MAXFILE, NENTS] at hn ⊢
      omega
    obtain ⟨hsame, -⟩ := hop.effect hw ho hA hn
    obtain ⟨-, -, hslot⟩ := hop.slot hw hn
    rw [← hslot, hsame.slots hend] at hused
    exact absurd (hv.past _ le_rfl hend).1 hused

/-! ## The calls -/

theorem alone_self : alone addrs 0 = some addrs := Function.update_self _ _ _

theorem alone_update {addrs' : Addrs} :
    Function.update (alone addrs) 0 (some addrs') = alone addrs' :=
  Function.update_idem _ _ _

/-- On a disk where no read fails a search finds what the map has. -/
theorem DirAt.find_map (h : DirAt w p addrs size) (hv : ValidDir w.disk addrs size)
    (hrun : Runs Calm (xv6FindInum p nm.name) w (e, k, de) w') :
    e = 0 ∧ (∃ l, w' = { w with log := l }) ∧
      ((k ≠ 0 ∧ dirMap w.disk addrs size nm = some de.inum) ∨
        (k = 0 ∧ dirMap w.disk addrs size nm = none)) := by
  obtain ⟨hr, hfound⟩ := xv6FindInum_spec h nm.ok hrun
  obtain rfl : e = 0 := hr.error.mpr hrun.2
  exact ⟨rfl, hr.log, hv.found_map (hfound rfl)⟩

namespace DirReady

variable (h : DirReady w p)

include h

theorem dirAt : DirAt w p (w.addrs p) (w.inodes p).size := ⟨h.fmt, h.cached, rfl, h.valid.le⟩

theorem growReady : GrowReady w (w.addrs p) :=
  ⟨h.writable, h.sound, h.hint, fun hne => Owned.held_indirect h.owned alone_self hne⟩

/-- A state that differs in the log only. -/
theorem logged (l : List Event) : DirReady { w with log := l } p :=
  ⟨h.fmt, h.cached, h.valid, h.owned, h.writable, h.sound, h.hint⟩

/-- A state whose disk has the directory valid and its blocks in use. -/
theorem of_disk {d : Disk} {l : List Event} (hv : ValidDir d (w.addrs p) (w.inodes p).size)
    (ho : Owned w.env d (alone (w.addrs p))) :
    DirReady { w with disk := d, log := l } p ∧
      dirMapAt { w with disk := d, log := l } p = dirMap d (w.addrs p) (w.inodes p).size := by
  have haddrs : World.addrs { w with disk := d, log := l } p = w.addrs p :=
    World.addrs_of_priv h.cached
  unfold dirMapAt
  rw [haddrs]
  refine ⟨⟨h.fmt, ?_, ?_, ?_, h.writable, h.sound, h.hint⟩, rfl⟩
  · rw [haddrs]
    exact h.cached
  · rw [haddrs]
    exact hv
  · rw [haddrs]
    exact ho

/-- A search changes nothing. -/
theorem find (hrun : Runs Calm (xv6FindInum p nm.name) w (e, k, de) w') :
    DirReady w' p ∧ MapStep (dirMapAt w p) (.find nm e k de) (dirMapAt w' p) := by
  obtain ⟨rfl, ⟨l, rfl⟩, hfound⟩ := h.dirAt.find_map h.valid hrun
  refine ⟨h.logged l, ?_⟩
  rcases hfound with ⟨hk, hsome⟩ | ⟨rfl, hnone⟩
  · exact .found hk hsome
  · exact .notFound hnone

/-- Erasing removes the name, or reports that it is not there. -/
theorem erase (hrun : Runs Calm (xv6DirErase p nm.name) w e w') :
    DirReady w' p ∧ MapStep (dirMapAt w p) (.erase nm e) (dirMapAt w' p) := by
  rcases xv6DirErase_spec h.dirAt nm.ok hrun with ⟨rfl, e', hr, hno⟩ | ⟨k, hk, hne, hwrote⟩
  · obtain rfl : e' = 0 := hr.error.mpr hrun.2
    obtain ⟨l, rfl⟩ := hr.log
    refine ⟨h.logged l, .notErased (h.valid.dirMap_none_iff.mpr fun k hk hmatch => ?_)⟩
    exact hno rfl k (h.valid.two_le_match hmatch) hk hmatch
  · obtain rfl : e = 0 := hwrote.error.mpr hrun.2
    have hkmax : k / NENTS < MAXFILE := slot_block (by
      have := h.valid.slots_le
      have := hk.lt
      omega)
    have hst := hwrote.stored
    have hset := (Stored.slot h.owned alone_self hkmax rfl hne hst).2 rfl
    have hown := Stored.owned h.sound h.owned alone_self hkmax rfl hne hst
    obtain ⟨hvalid, hmap⟩ := h.valid.clear hk hset
    obtain ⟨l, f, -, -, -, rfl⟩ := hwrote
    obtain ⟨hready, hmapAt⟩ := h.of_disk hvalid hown
    refine ⟨hready, ?_⟩
    have hafter := MapStep.erased (h.valid.dirMap_some_of_match hk.lt hk.sat)
    rw [← hmap, ← hmapAt] at hafter
    exact hafter

/-- A successful insertion adds the name, and a failed one changes nothing. -/
theorem insert (hinum : inum ≠ 0) (hnone : dirMapAt w p nm = none)
    (hrun : Runs Calm (xv6DentryInsert p nm.name inum.toNat) w e w') :
    DirReady w' p ∧ MapStep (dirMapAt w p) (.insert nm inum e) (dirMapAt w' p) := by
  obtain ⟨ctx, w₁, dirty, hins, rfl⟩ :=
    xv6DentryInsert_spec h.growReady h.dirAt nm.fits nm.notDots hrun
  rw [UInt16.ofNat_toNat] at hins
  have hf : Faultless w w₁ := (faultless_congr rfl).mp hrun.2
  have hres := hins.inserted h.growReady h.owned alone_self h.valid hf
  obtain ⟨l, hw₁⟩ := hres.frame
  have hown := hres.owned
  rw [alone_update] at hown
  generalize hsize : (if e = 0 ∧ ctx.dirty then ctx.size else (w.inodes p).size) = size' at hres
  have haddrs : (w₁.setMap p ctx.addrs size' dirty).addrs p = ctx.addrs :=
    World.addrs_of_priv (congrArg Inode.priv (World.setMap_inode ..))
  have hmapAt : dirMapAt (w₁.setMap p ctx.addrs size' dirty) p =
      dirMap w₁.disk ctx.addrs size' := by
    unfold dirMapAt
    rw [haddrs, World.setMap_inode]
    rfl
  have hready : ValidDir w₁.disk ctx.addrs size' →
      DirReady (w₁.setMap p ctx.addrs size' dirty) p := by
    intro hv
    have henv : w₁.env = w.env := by
      rw [hw₁]
    have hino : w₁.inodes = w.inodes := by
      rw [hw₁]
    refine ⟨?_, ?_, ?_, ?_, ?_, ?_, ?_⟩
    · rw [World.setMap_inode, hino]
      exact h.fmt
    · rw [haddrs, World.setMap_inode]
    · rw [haddrs, World.setMap_inode]
      exact hv
    · rw [haddrs]
      exact henv ▸ hown
    · exact henv ▸ h.writable
    · exact henv ▸ h.sound
    · exact henv ▸ hres.hint
  by_cases h0 : e = 0
  · subst h0
    obtain ⟨k, hk, hmax, hfree, hsz, hset⟩ := hres.entry rfl
    obtain ⟨hvalid, hmap⟩ := h.valid.put hk hmax hfree hinum hnone hsz hset
    refine ⟨hready hvalid, ?_⟩
    rw [hmapAt, hmap]
    exact .inserted hnone
  · rw [if_neg fun hc => h0 hc.1] at hsize
    subst hsize
    obtain ⟨hvalid, hmap⟩ := (hres.failed h0).validDir h.valid
    refine ⟨hready hvalid, ?_⟩
    rw [hmapAt, hmap]
    exact .notInserted h0

end DirReady

/-! ## Searches return -/

/-- The iterator returns, and leaves the context as it was. -/
theorem search_returns {σ : Type} {cb : DiterCallback σ} {q : Dirent → Prop} {lo off : Nat}
    (hs : Seeker cb q false lo) (hzero : ¬ q Dirent.zero) (hcb : ∀ k de s, ∃ r, cb k de s = .ok r)
    (hv : ValidDir w.disk addrs size) (hlo : lo ≤ off) (hoff : off < MAXFILE * NENTS) (s : σ) :
    ∃ e s' w', Returns (xv6DirIterate modcheck ⟨addrs, size, false⟩ cb s off false) w
      (e, ⟨addrs, size, false⟩, s') w' := by
  have htotal : Prog.Total (xv6DirIterate modcheck ⟨addrs, size, false⟩ cb s off false) :=
    total_iterate total_sbBread total_bdata
      (fun k de s => (hcb k de s).imp fun _ hr => ⟨hr, fun _ => total_syncBuffer⟩)
      ⟨hv.mul, hv.ge⟩ hoff.le s
  obtain ⟨⟨e, dir', s'⟩, w', hrun⟩ := htotal w
  obtain ⟨rfl, -⟩ := iterate_spec hs hzero hlo hv.le hoff rfl (returns_iff.mpr hrun)
  exact ⟨e, s', w', returns_iff.mpr hrun⟩

theorem DirAt.opens (h : DirAt w p addrs size) :
    Returns (xv6InitIctx p) w (0, ⟨addrs, size, false⟩) w := by
  have hinit := initIctx_cached h.priv
  rwa [h.size_mod] at hinit

theorem DirAt.find_returns (h : DirAt w p addrs size) (hv : ValidDir w.disk addrs size) :
    ∃ r w', Returns (xv6FindInum p nm.name) w r w' := by
  obtain ⟨e, s', w₁, hiter⟩ := search_returns (deFind_seeker nm.name) (not_matches_zero nm.ok)
    (fun k de s => by
      unfold deFindCallback
      split <;> exact ⟨_, rfl⟩) hv (le_refl 0) (by decide) (0, Dirent.zero)
  simp only [xv6FindInum, runs_bind_getInode, h.fmt, ne_eq, not_true_eq_false, if_false]
  refine returns_bind_exists h.opens ?_
  simp only [not_true_eq_false, if_false]
  refine returns_bind_exists hiter ?_
  exact returns_bind_exists (returns_iff.mpr rfl) ⟨_, _, returns_iff.mpr rfl⟩

theorem DirReady.find_returns (h : DirReady w p) :
    ∃ r w', Returns (xv6FindInum p nm.name) w r w' :=
  h.dirAt.find_returns h.valid

theorem DirReady.erase_returns (h : DirReady w p) :
    ∃ e w', Returns (xv6DirErase p nm.name) w e w' := by
  obtain ⟨e, s', w₁, hiter⟩ := search_returns (deErase_seeker nm.name) (not_matches_zero nm.ok)
    (fun k de s => by
      unfold deEraseCallback
      split <;> exact ⟨_, rfl⟩) h.valid (Nat.zero_le 2) (by decide) false
  simp only [xv6DirErase, runs_bind_getInode, h.fmt, ne_eq, not_true_eq_false, if_false]
  refine returns_bind_exists h.dirAt.opens ?_
  simp only [not_true_eq_false, if_false]
  refine returns_bind_exists hiter ?_
  exact returns_bind_exists (returns_iff.mpr rfl) ⟨_, _, returns_iff.mpr rfl⟩

end

/-! ## Runs -/

theorem DirStep.ready {w w' : World} {p : Ptr} {a : DirCall} (hq : Quiet w.env) (h : DirReady w p)
    (hs : DirStep p w a w') :
    (Quiet w'.env ∧ DirReady w' p) ∧ MapStep (dirMapAt w p) a (dirMapAt w' p) := by
  cases hs with
  | insert hinum hnone hrun =>
    obtain ⟨hready, hmap⟩ := h.insert hinum hnone (hrun.calm hq)
    exact ⟨⟨Runs.env_eq hrun ▸ hq, hready⟩, hmap⟩
  | erase hrun =>
    obtain ⟨hready, hmap⟩ := h.erase (hrun.calm hq)
    exact ⟨⟨Runs.env_eq hrun ▸ hq, hready⟩, hmap⟩
  | find hrun =>
    obtain ⟨hready, hmap⟩ := h.find (hrun.calm hq)
    exact ⟨⟨Runs.env_eq hrun ▸ hq, hready⟩, hmap⟩

/-- A run on a valid directory is a run on its map and leaves it valid, and searches and erasures
    return. -/
theorem dir_is_map {w w' : World} {p : Ptr} {as : List DirCall} (hq : Quiet w.env)
    (h : DirReady w p) (hrun : Steps (DirStep p) w as w') :
    DirReady w' p ∧ Steps MapStep (dirMapAt w p) as (dirMapAt w' p) ∧
      ∀ n : EntryName, (∃ r w'', Returns (xv6FindInum p n.name) w' r w'') ∧
        ∃ e w'', Returns (xv6DirErase p n.name) w' e w'' := by
  obtain ⟨⟨-, hready⟩, hmap⟩ := hrun.refine (I := fun w => Quiet w.env ∧ DirReady w p)
    (fun w => dirMapAt w p) (fun w a w' hw hstep => hstep.ready hw.1 hw.2) ⟨hq, h⟩
  exact ⟨hready, hmap, fun n => ⟨hready.find_returns, hready.erase_returns⟩⟩

/-! ## Two directories -/

/-- A directory of one block, in core at address 0, with the block at 20 and a writable mount. -/
def oneBlockDir (blk : Block) (addrs : Addrs) (size : Nat) : World :=
  { World.blank ⟨64, 0, 32, 0, 1, 1, 4⟩ 6 with
    disk := markUsed (World.blank ⟨64, 0, 32, 0, 1, 1, 4⟩ 6).env
      (fun b => if b = 20 then blk else Buf.zero) 20
    inodes := fun _ => ⟨1, .dir, 1, size, some addrs, false, true, 1⟩ }

/-- The entries '.' and '..'. -/
def dotsBlock : Block :=
  Block.setDirent 1 ⟨1, strncpy dotdot⟩ (Block.setDirent 0 ⟨1, strncpy dot⟩ Buf.zero)

/-- A block of 64 entries in use. -/
def fullBlock : Block := fun j =>
  if j.val % 16 = 0 then 1
  else if j.val % 16 = 2 then if j.val / 16 < 2 then 0x2e else UInt8.ofNat (128 + j.val / 16)
  else if j.val = 19 then 0x2e
  else 0

/-- A full block, and twice the empty block 21. -/
def sharedAddrs : Addrs := fun i => if i = 0 then 20 else if i = 1 ∨ i = 2 then 21 else 0

def entryA : EntryName := ⟨[0x61], ⟨by simp, by simp⟩, by decide, by decide⟩

/-- The first block of the directory, when no block behind it has an entry. -/
theorem oneBlockDir_slot {blk : Block} {addrs : Addrs} {size : Nat} (h20 : addrs 0 = 20)
    (hrest : ∀ i : Fin 13, i ≠ 0 → addrs i ≠ 20 ∧ addrs i ≠ 4) (h12 : addrs 12 = 0) (k : Nat) :
    dslot (oneBlockDir blk addrs size).disk addrs k = if k < 64 then blk.dirent k else .zero := by
  have hdisk : ∀ b, b ≠ 4 → (oneBlockDir blk addrs size).disk b =
      if b = 20 then blk else Buf.zero := by
    intro b hb
    exact markUsed_other (World.blank ⟨64, 0, 32, 0, 1, 1, 4⟩ 6).env (b := 20)
      (fun b => if b = 20 then blk else Buf.zero) hb
  unfold dslot fblock
  by_cases hk : k < 64
  · have hdiv : k / NENTS = 0 := by simp only [NENTS]; omega
    have hmod : k % NENTS = k := Nat.mod_eq_of_lt hk
    have hmap : bmap (oneBlockDir blk addrs size).disk addrs 0 = 20 := h20
    rw [hdiv, hmod, hmap, if_neg (by decide), hdisk 20 (by decide), if_pos rfl, if_pos hk]
  · rw [if_neg hk]
    have hdiv : k / NENTS ≠ 0 := by simp only [NENTS]; omega
    split
    · exact Block.dirent_zero _
    · next hne =>
      have hlt : k / NENTS < NDIRECT := by
        by_contra hge
        exact hne (bmap_hole (not_lt.mp hge) h12)
      rw [bmap_direct hlt] at hne ⊢
      have hi : Fin.ofNat 13 (k / NENTS) ≠ 0 := by
        intro h
        have hv := congrArg Fin.val h
        have hz : (k / NENTS) % 13 = 0 := hv
        simp only [NDIRECT, NENTS] at hlt hdiv hz
        omega
      obtain ⟨hne20, hne4⟩ := hrest _ hi
      have hget : (oneBlockDir blk addrs size).disk (addrs.get (k / NENTS)) = Buf.zero :=
        (hdisk _ hne4).trans (if_neg hne20)
      rw [hget]
      exact Block.dirent_zero _

/-- A directory of one block whose entries are in use with different names, up to the size. -/
theorem oneBlockDir_valid {blk : Block} {addrs : Addrs} {size : Nat} (h20 : addrs 0 = 20)
    (hrest : ∀ i : Fin 13, i ≠ 0 → addrs i ≠ 20 ∧ addrs i ≠ 4) (h12 : addrs 12 = 0)
    (hmul : size % 16 = 0) (hge : 2 * 16 ≤ size) (hle : size ≤ 1024)
    (hdot : (blk.dirent 0).name = strncpy dot) (hdotdot : (blk.dirent 1).name = strncpy dotdot)
    (hused : ∀ k, k < size / 16 → (blk.dirent k).inum ≠ 0 ∧ (blk.dirent k).name 0 ≠ 0 ∧
      Padded (blk.dirent k).name)
    (hinj : ∀ i, i < size / 16 → ∀ j, j < size / 16 →
      (blk.dirent i).name 0 = (blk.dirent j).name 0 →
      (blk.dirent i).name 1 = (blk.dirent j).name 1 → i = j)
    (hpast : ∀ k, k < 64 → size / 16 ≤ k → (blk.dirent k).inum = 0 ∧ (blk.dirent k).name 0 = 0) :
    ValidDir (oneBlockDir blk addrs size).disk addrs size := by
  have hslot : ∀ k, dslot (oneBlockDir blk addrs size).disk addrs k =
      if k < 64 then blk.dirent k else .zero := oneBlockDir_slot h20 hrest h12
  have hin : ∀ k, k < size / 16 →
      dslot (oneBlockDir blk addrs size).disk addrs k = blk.dirent k := fun k hk =>
    (hslot k).trans (if_pos (by omega))
  refine ⟨hmul, hge, by simp only [MAXFILE, BSIZE]; omega, ?_, ?_, fun k hk _ => ?_, ?_,
    fun k hk h0 => ?_, fun k hk _ => ?_⟩
  · rw [hin 0 (by omega)]
    exact hdot
  · rw [hin 1 (by omega)]
    exact hdotdot
  · rw [hin k hk]
    exact (hused k hk).2
  · intro i j nm v v' hi hj h1 h2
    obtain ⟨-, hni, -⟩ := Dirent.binding_eq_some.mp h1
    obtain ⟨-, hnj, -⟩ := Dirent.binding_eq_some.mp h2
    rw [hin i hi] at hni
    rw [hin j hj] at hnj
    exact hinj i hi j hj (by rw [hni, hnj]) (by rw [hni, hnj])
  · rw [hin k hk] at h0
    exact absurd h0 (hused k hk).1
  · rw [hslot k]
    split
    · next hlt => exact hpast k hlt hk
    · exact ⟨rfl, rfl⟩

/-- A new entry in a block that the directory names twice is there twice. -/
theorem insert_shared_block :
    let w := oneBlockDir fullBlock sharedAddrs 1024
    Quiet w.env ∧ ValidDir w.disk (w.addrs 0) (w.inodes 0).size ∧ dirMapAt w 0 entryA = none ∧
      ∃ w', Returns (xv6DentryInsert 0 entryA.name 2) w 0 w' ∧
        ¬ ValidDir w'.disk (w'.addrs 0) (w'.inodes 0).size := by
  refine ⟨fun _ => rfl, ?_, by decide +kernel, _, returns_after (by decide +kernel), fun h => ?_⟩
  · exact oneBlockDir_valid rfl (by decide) rfl rfl (by decide) (by decide) (by decide +kernel)
      (by decide +kernel) (by unfold Padded; decide +kernel) (by decide +kernel) (by decide)
  · have hpast := (h.past 128 (by decide +kernel) (by decide)).1
    revert hpast
    decide +kernel

theorem dotsDir_ready : DirReady (oneBlockDir dotsBlock (oneBlock 20) 32) 0 where
  fmt := rfl
  cached := rfl
  valid := oneBlockDir_valid rfl (by decide) rfl rfl (by decide) (by decide) (by decide +kernel)
    (by decide +kernel) (by unfold Padded; decide +kernel) (by decide +kernel)
    (by decide +kernel)
  owned := by
    have halone : alone (oneBlock 20) = oneFile 0 20 := funext fun m => Function.update_apply ..
    show Owned _ _ (alone (oneBlock 20))
    rw [halone]
    exact exclusive_oneFile _ ⟨by decide, by decide +kernel⟩
  writable := rfl
  sound := ⟨by decide, by decide⟩
  hint := ⟨by decide, by decide⟩

/-- A name is inserted, and can be found then. -/
theorem insert_find : ∃ w', Steps (DirStep 0) (oneBlockDir dotsBlock (oneBlock 20) 32)
      [.insert entryA 2 0] w' ∧ DirReady w' 0 ∧ dirMapAt w' 0 entryA = some 2 ∧
    Steps MapStep (dirMapAt (oneBlockDir dotsBlock (oneBlock 20) 32) 0) [.insert entryA 2 0]
      (dirMapAt w' 0) ∧
    ∃ r w'', Returns (xv6FindInum 0 entryA.name) w' r w'' := by
  have hinsert := returns_after (m := xv6DentryInsert 0 entryA.name 2)
    (w := oneBlockDir dotsBlock (oneBlock 20) 32) (a := 0) (by decide +kernel)
  have hrun : Steps (DirStep 0) (oneBlockDir dotsBlock (oneBlock 20) 32) [.insert entryA 2 0] _ :=
    .single (.insert (by decide) (by decide +kernel) hinsert)
  obtain ⟨hready, hmap, hsearch⟩ := dir_is_map (fun _ => rfl) dotsDir_ready hrun
  exact ⟨_, hrun, hready, by decide +kernel, hmap, (hsearch entryA).1⟩

end Xv6fs
