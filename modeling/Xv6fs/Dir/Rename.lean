/-
  Renaming an entry.

  `xv6_rename` erases the old entry before it looks the new name up, and puts nothing back. A rename
  that has erased the entry is an update of both maps or loses the entry, so it is atomic exactly
  when nothing reaches the device or every pass after the erasure succeeds (`rename_atomic_iff`).
-/
import Xv6fs.Dir.Room
import Xv6fs.Model.File

namespace Xv6fs

/-! ## Definitions -/

/-- The addresses of two directories, or of one. -/
def World.pair (w : World) (p q : Ptr) : Nat → Option Addrs :=
  fun m => if m = p ∨ m = q then some (w.addrs m) else none

/-- The inode at `p` is that of a valid directory in use. -/
structure DirIn (w : World) (p : Ptr) : Prop where
  fmt : (w.inodes p).fmt = .dir
  cached : (w.inodes p).priv = some (w.addrs p)
  valid : ValidDir w.disk (w.addrs p) (w.inodes p).size

/-- Two valid directories, possibly the same one, on a writable mount; their blocks are data blocks
    in use, each named once. -/
structure RenameReady (w : World) (olddir newdir : Ptr) : Prop where
  old : DirIn w olddir
  new : DirIn w newdir
  owned : Owned w.env w.disk (w.pair olddir newdir)
  writable : w.env.rdonly = false
  sound : w.env.info.Sound
  hint : HintOk w.env w.hint

/-- A rename is an update of both maps when it returns 0, and no change when it does not. -/
structure RenameAtomic (w : World) (olddir : Ptr) (old : EntryName) (newdir : Ptr)
    (newname : FileName) (inum : UInt16) (e : Int) (w' : World) : Prop where
  done : e = 0 → ∃ new : EntryName, new.name = newname ∧ dirMapAt w' newdir new = some inum ∧
    dirMapAt w' olddir old = none ∧
    (∀ n, n ≠ old → (olddir = newdir → n ≠ new) → dirMapAt w' olddir n = dirMapAt w olddir n) ∧
    ∀ n, n ≠ new → (olddir = newdir → n ≠ old) → dirMapAt w' newdir n = dirMapAt w newdir n
  failed : e ≠ 0 → dirMapAt w' olddir = dirMapAt w olddir ∧ dirMapAt w' newdir = dirMapAt w newdir

/-- A call that stores nothing on the device. -/
def Event.StoresNothing : Event → Prop
  | .sync _ f => f = .lost
  | _ => True

/-- Between `w` and `w'` the device stores nothing. -/
abbrev StoresNothing (w w' : World) : Prop := World.Along Event.StoresNothing w w'

/-- Entry `k` of the new directory is unused once the old entry is erased. -/
def Vacated (w : World) (olddir : Ptr) (old : EntryName) (newdir : Ptr) (k : Nat) : Prop :=
  Unused w.disk (w.addrs newdir) k ∨
    olddir = newdir ∧ Matches old.name (dslot w.disk (w.addrs newdir) k)

/-- No call fails, the new name can be that of an entry and is not in the new directory, and there
    is room for it. -/
structure Renameable (w : World) (olddir : Ptr) (old : EntryName) (newdir : Ptr)
    (newname : FileName) : Prop where
  notDots : ¬ (newname = dot ∨ newname = dotdot)
  absent : ∀ n : EntryName, n.name = newname → dirMapAt w newdir n = none
  room : Room w.env w.disk (w.addrs newdir) (w.inodes newdir).size (Vacated w olddir old newdir)

section

variable {φ : Event → Prop} {w w' : World} {olddir oldino newdir p : Ptr} {old new : EntryName}
  {newname : FileName} {inum : UInt16} {e : Int} {addrs : Addrs} {badFlags : Bool}

/-! ## The two directories -/

theorem DirIn.dirAt (h : DirIn w p) : DirAt w p (w.addrs p) (w.inodes p).size :=
  ⟨h.fmt, h.cached, rfl, h.valid.le⟩

theorem World.pair_left : w.pair olddir newdir olddir = some (w.addrs olddir) := if_pos (.inl rfl)

theorem World.pair_right : w.pair olddir newdir newdir = some (w.addrs newdir) := if_pos (.inr rfl)

/-- The same inodes with their addresses cached. -/
theorem DirIn.of_disk {d : Disk} {l : List Event} (h : DirIn w p)
    (hv : ValidDir d (w.addrs p) (w.inodes p).size) :
    DirIn { w with disk := d, log := l } p ∧
      dirMapAt { w with disk := d, log := l } p = dirMap d (w.addrs p) (w.inodes p).size := by
  have haddrs : World.addrs { w with disk := d, log := l } p = w.addrs p :=
    World.addrs_of_priv h.cached
  unfold dirMapAt
  refine ⟨⟨h.fmt, ?_, ?_⟩, ?_⟩ <;> rw [haddrs]
  · exact h.cached
  · exact hv

theorem Wrote.frame {b : Nat} {blk : Block} (h : Wrote w b blk e w') :
    ∃ l, w' = { w with disk := w'.disk, log := l } := by
  obtain ⟨l, f, -, -, -, rfl⟩ := h
  exact ⟨_, rfl⟩

theorem OnlyReads.storesNothing (h : OnlyReads w w' e) : StoresNothing w w' :=
  h.reads.weaken fun ev hev => by
    cases ev with
    | sync b f => exact hev.elim
    | bread b f => trivial
    | alloc ok => trivial

namespace RenameReady

variable (h : RenameReady w olddir newdir)

include h

theorem growReady : GrowReady w (w.addrs newdir) :=
  ⟨h.writable, h.sound, h.hint, fun hne => Owned.held_indirect h.owned World.pair_right hne⟩

/-- A state whose disk has both directories valid and their blocks in use. -/
theorem of_disk {d : Disk} {l : List Event}
    (hold : ValidDir d (w.addrs olddir) (w.inodes olddir).size)
    (hnew : ValidDir d (w.addrs newdir) (w.inodes newdir).size)
    (ho : Owned w.env d (w.pair olddir newdir)) :
    RenameReady { w with disk := d, log := l } olddir newdir := by
  refine ⟨(h.old.of_disk hold).1, (h.new.of_disk hnew).1, ?_, h.writable, h.sound, h.hint⟩
  have hpair : World.pair { w with disk := d, log := l } olddir newdir =
      w.pair olddir newdir := by
    funext m
    unfold World.pair
    by_cases hm : m = olddir ∨ m = newdir
    · rw [if_pos hm, if_pos hm]
      rcases hm with rfl | rfl
      · exact congrArg some (World.addrs_of_priv h.old.cached)
      · exact congrArg some (World.addrs_of_priv h.new.cached)
    · rw [if_neg hm, if_neg hm]
  rw [hpair]
  exact ho

/-- An entry that matches the old name in a directory of the two is the one that is erased. -/
theorem vacated_iff {d : Disk} {k j : Nat}
    (hk : FirstMatch w.disk (w.addrs olddir) (w.inodes olddir).size old.name k)
    (hj : j < MAXFILE * NENTS) (hother : olddir ≠ newdir → dslot d (w.addrs newdir) j =
      dslot w.disk (w.addrs newdir) j)
    (hset : SlotSet w.disk (w.addrs olddir) k Dirent.erased d (w.addrs olddir)) :
    Unused d (w.addrs newdir) j ↔ Vacated w olddir old newdir j := by
  unfold Vacated Unused
  by_cases hsame : olddir = newdir
  · subst hsame
    have hv := h.old.valid
    rw [hset j hj]
    by_cases hjk : j = k
    · subst hjk
      rw [if_pos rfl]
      exact iff_of_true rfl (.inr ⟨rfl, hk.sat⟩)
    · rw [if_neg hjk]
      refine ⟨.inl, fun hor => hor.elim id fun hc => ?_⟩
      -- no other entry has the name
      exfalso
      have hlt : j < (w.inodes olddir).size / 16 := by
        by_contra hge
        have hpast := (hv.past j (not_lt.mp hge) hj).2
        have hno := strncmpEq_unused old.ok hpast
        exact absurd (hno.symm.trans hc.2) (by decide)
      exact hjk (hv.distinct j k _ _ _ hlt hk.lt ((hv.matches_iff hlt).mp hc.2)
        ((hv.matches_iff hk.lt).mp hk.sat))
  · rw [hother hsame]
    exact (or_iff_left fun hc => hsame hc.1).symm

end RenameReady

/-- The state after the old entry has been erased. -/
structure Vacates (w : World) (olddir : Ptr) (old : EntryName) (newdir : Ptr) (e : Int)
    (w' : World) : Prop where
  stored : ¬ StoresNothing w w'
  error : e = 0 ↔ Faultless w w'
  frame : ∃ l, w' = { w with disk := w'.disk, log := l }
  ready : RenameReady w' olddir newdir
  map : dirMapAt w' olddir = Function.update (dirMapAt w olddir) old none
  other : olddir ≠ newdir → dirMapAt w' newdir = dirMapAt w newdir
  room : Room w'.env w'.disk (w'.addrs newdir) (w'.inodes newdir).size
      (Unused w'.disk (w'.addrs newdir)) ↔
    Room w.env w.disk (w.addrs newdir) (w.inodes newdir).size (Vacated w olddir old newdir)

/-- Erasing the old entry stores nothing, and then it fails, or removes the name. -/
theorem RenameReady.erase (h : RenameReady w olddir newdir)
    (hrun : Runs φ (xv6DirErase olddir old.name) w e w') :
    (e ≠ 0 ∧ StoresNothing w w' ∧ ∃ l, w' = { w with log := l }) ∨
      Vacates w olddir old newdir e w' := by
  have hv := h.old.valid
  rcases xv6DirErase_spec h.old.dirAt old.ok hrun with ⟨rfl, e', hr, -⟩ | ⟨k, hk, hne, hwrote⟩
  · exact .inl ⟨by decide, hr.storesNothing, hr.log⟩
  obtain ⟨f, he, hdisk, hst⟩ := hwrote.along (ψ := Event.StoresNothing) (fun _ => trivial)
    fun _ => trivial
  have herror := hwrote.error
  have hstored := hwrote.stored
  obtain ⟨l, hframe⟩ := hwrote.frame
  by_cases hlost : f = .lost
  · refine .inl ⟨?_, hst.mpr hlost, l, ?_⟩
    · rw [he, hlost]
      decide
    · have hsame : w'.disk = w.disk := hdisk.trans (if_pos hlost)
      rwa [hsame] at hframe
  · have hkmax : k < MAXFILE * NENTS := by
      have := hv.slots_le
      have := hk.lt
      omega
    have hblock := slot_block hkmax
    have hdata := (Owned.held_bmap h.owned World.pair_left hblock hne).1
    have hupd : w'.disk = Function.update w.disk (bmap w.disk (w.addrs olddir) (k / NENTS))
        ((w.disk (bmap w.disk (w.addrs olddir) (k / NENTS))).setDirent (k % NENTS)
          Dirent.erased) := hdisk.trans (if_neg hlost)
    have hset : SlotSet w.disk (w.addrs olddir) k Dirent.erased w'.disk (w.addrs olddir) := by
      rw [hupd]
      exact slotSet_update h.owned World.pair_left hblock rfl hne
    obtain ⟨hvalid, hmap⟩ := hv.clear hk hset
    have helse := Stored.elsewhere h.owned World.pair_left hblock rfl hne hstored
    have hown := Stored.owned h.sound h.owned World.pair_left hblock rfl hne hstored
    have hslots : olddir ≠ newdir → ∀ i, i < MAXFILE * NENTS →
        dslot w'.disk (w.addrs newdir) i = dslot w.disk (w.addrs newdir) i :=
      fun hne i hi => helse.slots (Ne.symm hne) World.pair_right hi
    have hbmap : ∀ i, i < MAXFILE →
        bmap w'.disk (w.addrs newdir) i = bmap w.disk (w.addrs newdir) i := fun i hi => by
      rw [hupd]
      exact (fblock_store h.owned World.pair_left hblock hne _ World.pair_right hi).1
    have hbits : ∀ x, IsData w.env x → bitSet w.env w'.disk x = bitSet w.env w.disk x :=
      fun x hx => by
        rw [hupd]
        exact h.sound.bitSet_update _ _ (FsInfo.Sound.inBitmap_of_lt hx.2) hdata
    have hnew : ValidDir w'.disk (w.addrs newdir) (w.inodes newdir).size ∧
        (olddir ≠ newdir → dirMap w'.disk (w.addrs newdir) (w.inodes newdir).size =
          dirMap w.disk (w.addrs newdir) (w.inodes newdir).size) := by
      by_cases hsame : olddir = newdir
      · subst hsame
        exact ⟨hvalid, fun hc => absurd rfl hc⟩
      · have hfile : SameFile w.disk (w.addrs newdir) w'.disk (w.addrs newdir) := fun j hj =>
          (helse newdir _ (Ne.symm hsame) World.pair_right j hj).2
        exact ⟨(hfile.validDir h.new.valid).1, fun _ => (hfile.validDir h.new.valid).2⟩
    have hroom : Room w.env w'.disk (w.addrs newdir) (w.inodes newdir).size
        (Unused w'.disk (w.addrs newdir)) ↔ Room w.env w.disk (w.addrs newdir)
        (w.inodes newdir).size (Vacated w olddir old newdir) :=
      Room.congr (fun j hj => h.vacated_iff hk hj (fun hne => hslots hne j hj) hset) hbmap hbits
    clear hupd hbmap hbits hslots helse hset hstored hdisk hwrote
    generalize w'.disk = d at *
    subst hframe
    have haddrs : World.addrs { w with disk := d, log := l } newdir = w.addrs newdir :=
      World.addrs_of_priv h.new.cached
    refine .inr ⟨fun hc => hlost (hst.mp hc), herror, ⟨_, rfl⟩, h.of_disk hvalid hnew.1 hown,
      (h.old.of_disk hvalid).2.trans hmap, fun hne => (h.new.of_disk hnew.1).2.trans (hnew.2 hne),
      ?_⟩
    rw [haddrs]
    exact hroom

/-! ## The insertion -/

/-- What the insertion of the new name does to the two maps, whatever fails. -/
structure Puts (w : World) (olddir newdir : Ptr) (new : EntryName) (inum : UInt16) (e : Int)
    (w' : World) : Prop where
  ok : e = 0 ↔ Faultless w w' ∧ Room w.env w.disk (w.addrs newdir) (w.inodes newdir).size
    (Unused w.disk (w.addrs newdir))
  map : e = 0 → dirMapAt w' newdir = Function.update (dirMapAt w newdir) new (some inum)
  other : olddir ≠ newdir → dirMapAt w' olddir = dirMapAt w olddir
  absent : ∀ n, n ≠ new → dirMapAt w newdir n = none → dirMapAt w' newdir n = none

/-- Writing one entry adds no other name. -/
theorem SlotSet.absent {d d' : Disk} {addrs' : Addrs} {size k : Nat} {n : EntryName}
    (hle : size ≤ MAXFILE * BSIZE) (h : SlotSet d addrs k ⟨inum, strncpy new.name⟩ d' addrs')
    (hn : n ≠ new) (hnone : dirMap d addrs size n = none) : dirMap d' addrs' size n = none := by
  have hslots := size_slots hle
  obtain ⟨hkeep, hset⟩ := h.table
  refine dirMap_eq_none.mpr fun i hi v hv => ?_
  by_cases hik : i = k
  · subst hik
    rw [hset (by omega)] at hv
    exact hn (EntryName.field_inj (Dirent.binding_eq_some.mp hv).2.1).symm
  · rw [hkeep i (by omega) hik] at hv
    exact dirMap_eq_none.mp hnone i hi v hv

theorem RenameReady.insert (h : RenameReady w olddir newdir) (hinum : inum ≠ 0)
    (hnone : dirMapAt w newdir new = none)
    (hrun : Runs φ (xv6DentryInsert newdir new.name inum.toNat) w e w') :
    Puts w olddir newdir new inum e w' := by
  obtain ⟨ctx, w₁, dirty, hins, rfl⟩ :=
    xv6DentryInsert_spec h.growReady h.new.dirAt new.fits new.notDots hrun
  rw [UInt16.ofNat_toNat] at hins
  have hv := h.new.valid
  have hkeep := hins.keeps h.growReady h.owned World.pair_right
  have hok := hins.ok_iff h.growReady h.owned World.pair_right hv
  obtain ⟨l, hframe⟩ := hkeep.frame
  have hino : w₁.inodes = w.inodes := by
    rw [hframe]
  -- the maps after the call
  have hnewMap : ∀ {size'}, dirMapAt (w₁.setMap newdir ctx.addrs size' dirty) newdir =
      dirMap w₁.disk ctx.addrs size' := fun {size'} => by
    unfold dirMapAt
    rw [World.addrs_of_priv (congrArg Inode.priv (World.setMap_inode ..)), World.setMap_inode]
    rfl
  have holdMap : ∀ {size'}, olddir ≠ newdir →
      dirMapAt (w₁.setMap newdir ctx.addrs size' dirty) olddir =
        dirMap w₁.disk (w.addrs olddir) (w.inodes olddir).size := fun {size'} hne => by
    have hsame : (w₁.setMap newdir ctx.addrs size' dirty).inodes olddir = w.inodes olddir :=
      (Function.update_of_ne hne _ _).trans (congrFun hino olddir)
    unfold dirMapAt
    rw [World.addrs_of_priv (by rw [hsame]; exact h.old.cached), hsame]
    rfl
  have hmap : e = 0 → dirMap w₁.disk ctx.addrs
      (if e = 0 ∧ ctx.dirty then ctx.size else (w.inodes newdir).size) =
        Function.update (dirMapAt w newdir) new (some inum) := by
    intro h0
    have hres := hins.inserted h.growReady h.owned World.pair_right hv (hok.mp h0).1
    obtain ⟨k, hk, hmax, hfree, hsz, hset⟩ := hres.entry h0
    exact (hv.put hk hmax hfree hinum hnone hsz hset).2
  refine ⟨hok.trans (and_congr_left' (faultless_congr rfl).symm), fun h0 => ?_, fun hne => ?_,
    fun n hn hnone' => ?_⟩
  · rw [hnewMap]
    exact hmap h0
  · rw [holdMap hne]
    have hfile : SameFile w.disk (w.addrs olddir) w₁.disk (w.addrs olddir) := fun j hj =>
      (hkeep.elsewhere olddir _ hne World.pair_left j hj).2
    exact (hfile.validDir h.old.valid).2
  · rw [hnewMap]
    by_cases h0 : e = 0
    · rw [hmap h0, Function.update_of_ne hn]
      exact hnone'
    · rw [if_neg fun hc => h0 hc.1]
      rcases hkeep.entries with hsame | ⟨k, hset⟩
      · rw [(hsame.validDir hv).2]
        exact hnone'
      · exact hset.absent hv.le hn hnone'

/-! ## The rest of a rename -/

/-- What follows the erasure, with what it does to the two maps. -/
structure Rest (w : World) (olddir : Ptr) (old : EntryName) (newdir : Ptr) (newname : FileName)
    (inum : UInt16) (e : Int) (w' : World) : Prop where
  ok : e = 0 ↔ Faultless w w' ∧ ¬ (newname = dot ∨ newname = dotdot) ∧
    (∀ n : EntryName, n.name = newname → dirMapAt w newdir n = none) ∧
    Room w.env w.disk (w.addrs newdir) (w.inodes newdir).size (Unused w.disk (w.addrs newdir))
  map : e = 0 → ∃ new : EntryName, new.name = newname ∧
    dirMapAt w' newdir = Function.update (dirMapAt w newdir) new (some inum)
  other : olddir ≠ newdir → dirMapAt w' olddir = dirMapAt w olddir
  gone : dirMapAt w' olddir old = none

/-- The name is not there, so entry 0 of the directory is what a search of it may find. -/
theorem RenameReady.rest {w₁ : World} {e₁ : Int} {k : Nat} {de : Dirent}
    (h : RenameReady w olddir newdir) (hname : NameOk newname) (hlen : newname.length ≤ DIRSIZ)
    (hinum : inum ≠ 0) (hino : (w.inodes oldino).ino = inum.toNat)
    (hgone : dirMapAt w olddir old = none) (hne : olddir = newdir → old.name ≠ newname)
    (hfind : Runs φ (xv6FindInum newdir newname) w (e₁, k, de) w₁)
    (hrun : Runs φ (if e₁ ≠ 0 then pure e₁ else if k ≠ 0 then pure (-EEXIST) else
      getInode oldino >>= fun i => xv6DentryInsert newdir newname i.ino) w₁ e w') :
    Rest w olddir old newdir newname inum e w' := by
  obtain ⟨hr, hfound⟩ := xv6FindInum_spec h.new.dirAt hname hfind
  have hle := hfind.mono
  have hle' := hrun.mono
  have herror := hr.error
  obtain ⟨l, rfl⟩ := hr.log
  have hready : RenameReady { w with log := l } olddir newdir :=
    h.of_disk h.old.valid h.new.valid h.owned
  -- an exit without a change
  have hexit : e ≠ 0 → (¬ Faultless w w' ∨ (newname = dot ∨ newname = dotdot) ∨
      ∃ n : EntryName, n.name = newname ∧ dirMapAt w newdir n ≠ none) →
      w' = { w with log := l } → Rest w olddir old newdir newname inum e w' := by
    rintro he hwhy rfl
    refine ⟨iff_of_false he ?_, fun h0 => absurd h0 he, fun _ => rfl, hgone⟩
    rintro ⟨hf, hdots, habsent, -⟩
    rcases hwhy with hc | hc | ⟨n, hn, hc⟩
    · exact hc hf
    · exact hdots hc
    · exact hc (habsent n hn)
  rcases hrun.ite with ⟨he, hret⟩ | ⟨he, hnext⟩
  · obtain ⟨rfl, rfl⟩ := hret.pure
    exact hexit he (.inl fun hf => he (herror.mpr hf)) rfl
  clear hrun
  obtain rfl : e₁ = 0 := not_not.mp he
  by_cases hdots : newname = dot ∨ newname = dotdot
  · rcases hnext.ite with ⟨-, hret⟩ | ⟨-, hins⟩
    · obtain ⟨rfl, rfl⟩ := hret.pure
      exact hexit (by decide) (.inr (.inl hdots)) rfl
    · simp only [runs_bind_getInode, xv6DentryInsert, h.new.fmt, ne_eq, not_true_eq_false,
        if_false, gt_iff_lt, not_lt.mpr hlen, hdots, if_true] at hins
      obtain ⟨rfl, rfl⟩ := hins.pure
      exact hexit (by decide) (.inr (.inl hdots)) rfl
  obtain ⟨new, rfl⟩ : ∃ new : EntryName, new.name = newname := ⟨⟨newname, hname, hlen, hdots⟩, rfl⟩
  rcases h.new.valid.found_map (hfound rfl) with ⟨hk, hsome⟩ | ⟨rfl, hnone⟩
  · rw [if_pos hk] at hnext
    obtain ⟨rfl, rfl⟩ := hnext.pure
    refine hexit (by decide) (.inr (.inr ⟨new, rfl, fun hnone => ?_⟩)) rfl
    exact absurd (hnone.symm.trans hsome) (by simp)
  · rw [if_neg fun hc => hc rfl] at hnext
    simp only [runs_bind_getInode, hino] at hnext
    obtain ⟨hok, hmap, hother, habsent⟩ := hready.insert hinum hnone hnext
    refine ⟨?_, fun h0 => ⟨new, rfl, hmap h0⟩, hother, ?_⟩
    · rw [hok, faultless_split hle hle', and_iff_right (herror.mp rfl)]
      refine and_congr_right fun _ => (and_iff_right hdots).symm.trans
        (and_congr_right fun _ => (and_iff_right ?_).symm)
      intro n hn
      obtain rfl : n = new := EntryName.field_inj (congrArg strncpy hn)
      exact hnone
    · by_cases hsame : olddir = newdir
      · subst hsame
        exact habsent old (fun hc => hne rfl (congrArg EntryName.name hc)) hgone
      · rw [hother hsame]
        exact hgone

/-! ## Renames -/

/-- A call that fails and has lost the old entry is not atomic. -/
theorem RenameAtomic.not_lost (hsome : dirMapAt w olddir old = some inum) (he : e ≠ 0)
    (hgone : dirMapAt w' olddir old = none) :
    ¬ RenameAtomic w olddir old newdir newname inum e w' := by
  intro h
  rw [(h.failed he).1, hsome] at hgone
  cases hgone

/-- Erasing the old name and adding the new one is a rename. -/
theorem RenameAtomic.of_updates {w₁ : World} (hne : olddir = newdir → old ≠ new)
    (hmap : dirMapAt w₁ olddir = Function.update (dirMapAt w olddir) old none)
    (hother : olddir ≠ newdir → dirMapAt w₁ newdir = dirMapAt w newdir)
    (hmap' : dirMapAt w' newdir = Function.update (dirMapAt w₁ newdir) new (some inum))
    (hother' : olddir ≠ newdir → dirMapAt w' olddir = dirMapAt w₁ olddir)
    (hgone : dirMapAt w' olddir old = none) :
    RenameAtomic w olddir old newdir new.name inum 0 w' where
  done _ := by
    refine ⟨new, rfl, by rw [hmap', Function.update_self], hgone, fun n hn hn' => ?_,
      fun n hn hn' => ?_⟩
    · by_cases hsame : olddir = newdir
      · subst hsame
        rw [hmap', Function.update_of_ne (hn' rfl), hmap, Function.update_of_ne hn]
      · rw [hother' hsame, hmap, Function.update_of_ne hn]
    · rw [hmap', Function.update_of_ne hn]
      by_cases hsame : olddir = newdir
      · subst hsame
        rw [hmap, Function.update_of_ne (hn' rfl)]
      · rw [hother hsame]
  failed h := absurd rfl h

/-- What the rest of a rename needs, in terms of the state before it. -/
theorem Vacates.renameable {e₁ : Int} {w₁ : World} (h : Vacates w olddir old newdir e₁ w₁)
    (hne : olddir = newdir → old.name ≠ newname) :
    (¬ (newname = dot ∨ newname = dotdot) ∧
      (∀ n : EntryName, n.name = newname → dirMapAt w₁ newdir n = none) ∧
      Room w₁.env w₁.disk (w₁.addrs newdir) (w₁.inodes newdir).size
        (Unused w₁.disk (w₁.addrs newdir))) ↔ Renameable w olddir old newdir newname := by
  have hmap : ∀ n : EntryName, n.name = newname →
      dirMapAt w₁ newdir n = dirMapAt w newdir n := by
    intro n hn
    by_cases hsame : olddir = newdir
    · subst hsame
      rw [h.map, Function.update_of_ne]
      rintro rfl
      exact hne rfl hn
    · rw [h.other hsame]
  constructor
  · rintro ⟨hdots, habsent, hroom⟩
    exact ⟨hdots, fun n hn => (hmap n hn).symm.trans (habsent n hn), h.room.mp hroom⟩
  · rintro ⟨hdots, habsent, hroom⟩
    exact ⟨hdots, fun n hn => (hmap n hn).trans (habsent n hn), h.room.mpr hroom⟩

/-- A rename is atomic exactly when it is refused before the erasure, nothing reaches the device,
    or no call fails and the new name is free, can be had and has room. -/
theorem rename_atomic_iff (h : RenameReady w olddir newdir) (hname : NameOk newname)
    (hsome : dirMapAt w olddir old = some inum) (hino : (w.inodes oldino).ino = inum.toNat)
    (hne : olddir = newdir → old.name ≠ newname)
    (hrun : Returns (xv6Rename olddir oldino old.name newdir newname badFlags) w e w') :
    RenameAtomic w olddir old newdir newname inum e w' ↔
      badFlags = true ∨ DIRSIZ < newname.length ∨ StoresNothing w w' ∨
        Faultless w w' ∧ Renameable w olddir old newdir newname := by
  have hinum : inum ≠ 0 := by
    obtain ⟨k, -, hk⟩ := h.old.valid.dirMap_eq_some.mp hsome
    exact (Dirent.binding_eq_some.mp hk).1
  simp only [xv6Rename] at hrun
  rcases hrun.ite with ⟨hbad, hret⟩ | ⟨hbad, hrun⟩
  · obtain ⟨rfl, rfl⟩ := hret.pure
    exact iff_of_true ⟨fun h0 => absurd h0 (by decide), fun _ => ⟨rfl, rfl⟩⟩ (.inl hbad)
  rcases hrun.ite with ⟨hlong, hret⟩ | ⟨hlong, hrun⟩
  · obtain ⟨rfl, rfl⟩ := hret.pure
    exact iff_of_true ⟨fun h0 => absurd h0 (by decide), fun _ => ⟨rfl, rfl⟩⟩ (.inr (.inl hlong))
  rw [or_iff_right hbad, or_iff_right hlong]
  obtain ⟨e₁, w₁, herase, hrun⟩ := hrun.bind
  have hle := herase.mono
  rcases h.erase herase with ⟨he, hnothing, l, rfl⟩ | hvac
  · rw [if_pos he] at hrun
    obtain ⟨rfl, rfl⟩ := hrun.pure
    exact iff_of_true ⟨fun h0 => absurd h0 he, fun _ => ⟨rfl, rfl⟩⟩ (.inl hnothing)
  have hle' := hrun.mono
  have hgone : dirMapAt w₁ olddir old = none := by
    rw [hvac.map, Function.update_self]
  have hstored : ¬ StoresNothing w w' := fun hc =>
    hvac.stored (((World.along_splits _).split hle hle').mp hc).1
  rw [or_iff_right hstored, faultless_split hle hle', ← hvac.error]
  by_cases he : e₁ = 0
  · subst he
    rw [if_neg fun hc => hc rfl] at hrun
    obtain ⟨⟨e₂, k, de⟩, w₂, hfind, hrun⟩ := hrun.bind
    have hino₁ : (w₁.inodes oldino).ino = inum.toNat := by
      obtain ⟨l, hw₁⟩ := hvac.frame
      rw [hw₁]
      exact hino
    obtain ⟨hok, hmap, hother, hlost⟩ := hvac.ready.rest hname (not_lt.mp hlong) hinum hino₁ hgone
      hne hfind hrun
    rw [hvac.renameable hne] at hok
    rw [and_iff_right rfl, ← hok]
    by_cases h0 : e = 0
    · refine iff_of_true ?_ h0
      subst h0
      obtain ⟨new, rfl, hnew⟩ := hmap rfl
      exact .of_updates (fun hsame hc => hne hsame (congrArg EntryName.name hc)) hvac.map
        hvac.other hnew hother hlost
    · exact iff_of_false (RenameAtomic.not_lost hsome h0 hlost) h0
  · rw [if_pos he] at hrun
    obtain ⟨rfl, rfl⟩ := hrun.pure
    exact iff_of_false (RenameAtomic.not_lost hsome he hgone) fun hc => he hc.1.1

end

/-! ## One directory -/

/-- The entries '.' and '..', and `a` and `b` with the inodes 2 and 3. -/
def fourEntries : Block :=
  Block.setDirent 3 ⟨3, strncpy [0x62]⟩ (Block.setDirent 2 ⟨2, strncpy [0x61]⟩ dotsBlock)

/-- The directory at address 0, and the inode of `a` at address 1. -/
def twoNames : World :=
  { oneBlockDir fourEntries (oneBlock 20) 64 with
    inodes := fun p => ⟨if p = 0 then 1 else 2, if p = 0 then .dir else .reg, 1,
      if p = 0 then 64 else 0, some (oneBlock (if p = 0 then 20 else 0)), false, true, 1⟩ }

theorem twoNames_ready : RenameReady twoNames 0 0 := by
  have hdir : DirIn twoNames 0 := ⟨rfl, rfl, oneBlockDir_valid rfl (by decide) rfl rfl (by decide)
    (by decide) (by decide +kernel) (by decide +kernel) (by unfold Padded; decide +kernel)
    (by decide +kernel) (by decide +kernel)⟩
  refine ⟨hdir, hdir, ?_, rfl, ⟨by decide, by decide⟩, ⟨by decide, by decide⟩⟩
  have hpair : twoNames.pair 0 0 = oneFile 0 20 := by
    funext m
    unfold World.pair
    by_cases hm : m = 0
    · subst hm
      rfl
    · rw [if_neg fun hc => hc.elim hm hm]
      exact (if_neg hm).symm
  rw [hpair]
  exact exclusive_oneFile _ ⟨by decide, by decide +kernel⟩

def entryC : EntryName := ⟨[0x63], ⟨by simp, by simp⟩, by decide, by decide⟩

theorem twoNames_renameable : Renameable twoNames 0 entryA 0 [0x63] where
  notDots := by decide
  absent n hn := by
    obtain rfl : n = entryC := EntryName.field_inj (congrArg strncpy hn)
    decide +kernel
  room := by
    unfold Room Vacated Unused Matches
    exact ⟨2, by decide, by decide, by decide +kernel, by decide +kernel, .inl (by decide +kernel)⟩

/-- Renaming `a` to `c` is atomic. -/
theorem rename_to_free :
    ∃ w', Returns (xv6Rename 0 1 entryA.name 0 [0x63] false) twoNames 0 w' ∧
      RenameAtomic twoNames 0 entryA 0 [0x63] 2 0 w' := by
  obtain ⟨w', hrun⟩ : ∃ w', Returns (xv6Rename 0 1 entryA.name 0 [0x63] false) twoNames 0 w' :=
    ⟨_, returns_after (by decide +kernel)⟩
  have hsome : dirMapAt twoNames 0 entryA = some 2 := by decide +kernel
  have hino : (twoNames.inodes 1).ino = (2 : UInt16).toNat := rfl
  have hcalm : Faultless twoNames w' := (hrun.calm fun _ => rfl).2
  have hiff := rename_atomic_iff twoNames_ready ⟨by simp, by simp⟩ hsome hino
    (fun _ => by decide) hrun
  exact ⟨w', hrun, hiff.mpr (.inr (.inr (.inr ⟨hcalm, twoNames_renameable⟩)))⟩

/-- Renaming `a` to `b`, which exists, loses `a`. -/
theorem rename_to_existing : RenameReady twoNames 0 0 ∧ dirMapAt twoNames 0 entryA = some 2 ∧
    ∃ w', Returns (xv6Rename 0 1 entryA.name 0 [0x62] false) twoNames (-EEXIST) w' ∧
      dirMapAt w' 0 entryA = none ∧
      ¬ RenameAtomic twoNames 0 entryA 0 [0x62] 2 (-EEXIST) w' := by
  have hrun := returns_after (m := xv6Rename 0 1 entryA.name 0 [0x62] false) (w := twoNames)
    (a := -EEXIST) (by decide +kernel)
  have hsome : dirMapAt twoNames 0 entryA = some 2 := by decide +kernel
  have hgone : dirMapAt (twoNames.after (xv6Rename 0 1 entryA.name 0 [0x62] false)) 0 entryA =
      none := by
    decide +kernel
  exact ⟨twoNames_ready, hsome, _, hrun, hgone, RenameAtomic.not_lost hsome (by decide) hgone⟩

end Xv6fs
