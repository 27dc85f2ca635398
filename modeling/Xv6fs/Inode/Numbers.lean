/-
  The number that `xv6_ialloc` hands out.

  On a mounted file system it is that of the first unused slot, which is written and nothing else
  (`ialloc_lowest`). The table of an accepted super block has at most 2^28 blocks, so the number,
  a `uint`, does not wrap. The table is scanned to the end of its last block, though, which has
  slots for numbers from `ninodes` on: such a number is handed out when no lower slot is unused
  (`number_usable_iff`).
-/
import Xv6fs.Inode.Alloc
import Xv6fs.Super.Checker

namespace Xv6fs

/-! ## A mounted file system -/

/-- The parameters are those of a super block that the checker accepts. -/
def FsInfo.Checked (fi : FsInfo) : Prop :=
  ∃ w w', Returns (xv6Docheck modcheck) w 0 w' ∧ fi = (w.disk 0).superblock.fsInfo

namespace FsInfo.Checked

variable {fi : FsInfo}

theorem superblock (h : fi.Checked) : ∃ sb : Superblock, sb.Sound ∧ fi = sb.fsInfo :=
  let ⟨_, _, hret, hfi⟩ := h
  ⟨_, (xv6Docheck_sound hret).1, hfi⟩

theorem ninodes_le (sb : Superblock) :
    sb.fsInfo.ninodes ≤ sb.ninodes ∧ sb.fsInfo.ninodes ≤ ninodesMax := by
  show (if sb.ninodes > ninodesMax then ninodesMax else sb.ninodes) ≤ sb.ninodes ∧
    (if sb.ninodes > ninodesMax then ninodesMax else sb.ninodes) ≤ ninodesMax
  split <;> omega

theorem sound (h : fi.Checked) : fi.Sound := by
  obtain ⟨sb, hsb, rfl⟩ := h.superblock
  exact ⟨le_trans (Nat.le_add_right _ sb.nblocks) hsb.fits, hsb.size_lt⟩

theorem tableOk (h : fi.Checked) : fi.TableOk := by
  obtain ⟨sb, hsb, rfl⟩ := h.superblock
  have hle := (ninodes_le sb).1
  have hbmap := hsb.bmapstart
  show sb.inodestart + INODE_BLOCKS sb.fsInfo.ninodes ≤ sb.bmapstart
  unfold INODE_BLOCKS
  simp only [IPB] at hbmap ⊢
  omega

theorem ninodes_lt (h : fi.Checked) : fi.ninodes < 2 ^ 16 := by
  obtain ⟨sb, -, rfl⟩ := h.superblock
  exact lt_of_le_of_lt (ninodes_le sb).2 (by decide)

theorem bmapstart_lt (h : fi.Checked) : fi.bmapstart < 2 ^ 32 := h.sound.bmapstart_lt

theorem inodestart_le (h : fi.Checked) : fi.inodestart ≤ fi.bmapstart :=
  le_trans (Nat.le_add_right _ _) h.tableOk

end FsInfo.Checked

/-! ## Returning -/

theorem total_allocBlocks (dino : Option Dinode) :
    ∀ n block off node, Prog.Total (xv6Ialloc.blocks dino n block off node)
  | 0, _, _, _ => Prog.total_pure _
  | n + 1, block, off, node => (total_sbBread _).bind fun _ => .ite (Prog.total_pure _) <|
      (total_bdata _).bind fun blk => by
        cases xv6Ialloc.slot blk (IPB - off) off with
        | none => exact total_allocBlocks dino n (block + 1) 0 _
        | some i =>
          cases dino with
          | none => exact Prog.total_pure _
          | some di =>
            exact (total_syncBuffer _ _).bind fun _ => .ite (Prog.total_pure _) (Prog.total_pure _)

theorem total_ialloc (dino : Option Dinode) : Prog.Total (xv6Ialloc dino) :=
  total_getEnv.bind fun _ => total_allocBlocks dino _ _ _ _

theorem total_ifree (n : Nat) : Prog.Total (xv6Ifree n) :=
  total_getEnv.bind fun _ => (total_sbBread _).bind fun _ => .ite (Prog.total_pure _) <|
    (total_bdata _).bind fun _ => total_syncBuffer _ _

/-! ## The bytes of the table -/

section

variable {φ : Event → Prop} {w w' : World} {env : Env} {d : Disk} {di : Dinode} {n : Nat} {e : Int}

/-- Byte `j` of block `b` is one of slot `n`. -/
def InSlot (fi : FsInfo) (n b j : Nat) : Prop :=
  b = fi.inodestart + n / IPB ∧ 64 * (n % IPB) ≤ j ∧ j < 64 * (n % IPB) + 64

instance (fi : FsInfo) (n b j : Nat) : Decidable (InSlot fi n b j) :=
  inferInstanceAs (Decidable (_ ∧ _ ∧ _))

/-- Of the whole disk, `d'` differs from `d` in slot `n`, which holds `di`. -/
def SlotBytes (fi : FsInfo) (d : Disk) (n : Nat) (di : Dinode) (d' : Disk) : Prop :=
  ∀ b j, (d' b).byte j =
    if InSlot fi n b j then di.byte (j - 64 * (n % IPB)) else (d b).byte j

theorem inodeBlock_table (hc : env.info.Checked)
    (hn : env.info.inodestart + n / IPB < env.info.bmapstart) :
    inodeBlock env n = env.info.inodestart + n / IPB :=
  Nat.mod_eq_of_lt (lt_trans hn hc.bmapstart_lt)

theorem setSlot_bytes (hc : env.info.Checked)
    (hn : env.info.inodestart + n / IPB < env.info.bmapstart) :
    SlotBytes env.info d n di (setSlot env d n di) := by
  intro b j
  have hmod : n % IPB < 16 := Nat.mod_lt _ (by decide)
  unfold setSlot
  rw [inodeBlock_table hc hn]
  by_cases hb : b = env.info.inodestart + n / IPB
  · subst hb
    rw [Function.update_self]
    unfold Block.setDinode
    by_cases hj : 64 * (n % IPB) ≤ j ∧ j < 64 * (n % IPB) + 64
    · rw [if_pos (show InSlot _ _ _ _ from ⟨rfl, hj⟩)]
      exact Buf.byte_patch_in _ _ (by omega) hj.1 hj.2
    · rw [if_neg fun h : InSlot _ _ _ _ => hj h.2]
      exact Buf.byte_patch_out _ _ (by omega)
  · rw [Function.update_of_ne hb, if_neg fun h : InSlot _ _ _ _ => hb h.1]

theorem ifree_spec (hf : ∀ ev, φ ev → Calm ev) (h : Runs φ (xv6Ifree n) w e w') :
    e = 0 ∧ ∃ l, w' = { w with disk := setSlot w.env w.disk n Dinode.zero, log := l } := by
  simp only [xv6Ifree, runs_bind_getEnv] at h
  obtain ⟨ok, w₁, hread, hend⟩ := h.bind
  clear h
  have hcalm := hread.2.weaken hf
  obtain ⟨hok, l₁, rfl⟩ := sbBread_spec hread
  rw [hok.mpr hcalm] at hend
  simp only [Bool.not_true, Bool.false_eq_true, if_false, runs_bind_bdata] at hend
  have hcalm₂ := hend.2.weaken hf
  obtain ⟨he, -, l₂, d, rfl, -, hd⟩ := syncBuffer_spec hend
  obtain rfl := he.mpr hcalm₂
  rw [hd rfl]
  exact ⟨rfl, l₂, rfl⟩

/-! ## The allocator -/

/-- A call without I/O errors. -/
theorem ialloc_calm {r : Nat} (hc : w.env.info.Checked) (hf : ∀ ev, φ ev → Calm ev)
    (h : Runs φ (xv6Ialloc (some di)) w (e, r) w') :
    (∃ l, FirstUnused w.env w.disk r ∧ e = 0 ∧
        w' = { w with disk := setSlot w.env w.disk r di, log := l }) ∨
      (∃ l, TableUsed w.env w.disk ∧ e = -ENOSPC ∧ w' = { w with log := l }) := by
  obtain ⟨hfull, herr, -⟩ := xv6Ialloc_errors hc.bmapstart_lt hc.inodestart_le h
  obtain ⟨d, l, rfl, ha⟩ := xv6Ialloc_spec hc.bmapstart_lt hc.inodestart_le h
  cases ha with
  | failed he =>
    rcases he with rfl | rfl
    · exact absurd rfl (herr hf)
    · exact .inr ⟨l, hfull rfl, rfl, rfl⟩
  | unwritten hn hd => exact absurd rfl (herr hf)
  | written hn => exact .inl ⟨l, hn, rfl, rfl⟩

theorem FirstUnused.not_full (h : FirstUnused env d n) : ¬ TableUsed env d :=
  fun hfull => hfull n h.ge h.lt h.unused

/-- On a mounted file system without I/O errors, `xv6_ialloc` returns the number of the first unused
    slot from slot 2 on, which then holds the inode it was given, or `-ENOSPC` when there is none;
    and `xv6_ifree` zeroes the slot of its number. Neither changes another byte of the disk. -/
theorem ialloc_lowest (hc : w.env.info.Checked) (hq : Quiet w.env) :
    (∀ di, ∃ e n w', Returns (xv6Ialloc (some di)) w (e, n) w') ∧
    (∀ di e n w', Returns (xv6Ialloc (some di)) w (e, n) w' →
      (e = 0 ∧ 2 ≤ n ∧ inodeBlock w.env n = w.env.info.inodestart + n / IPB ∧
          inodeBlock w.env n < w.env.info.bmapstart ∧ (slot w.env w.disk n).type = 0 ∧
          (∀ m, 2 ≤ m → m < n → (slot w.env w.disk m).type ≠ 0) ∧
          slot w.env w'.disk n = di ∧ SlotBytes w.env.info w.disk n di w'.disk ∨
        e = -ENOSPC ∧ w'.disk = w.disk) ∧
      (e = -ENOSPC ↔ TableUsed w.env w.disk)) ∧
    ∀ n, w.env.info.inodestart + n / IPB < w.env.info.bmapstart →
      ∃ w', Returns (xv6Ifree n) w 0 w' ∧ slot w.env w'.disk n = Dinode.zero ∧
        SlotBytes w.env.info w.disk n Dinode.zero w'.disk := by
  refine ⟨fun di => ?_, fun di e n w' h => ?_, fun n hn => ?_⟩
  · obtain ⟨⟨e, n⟩, w', h⟩ := total_ialloc (some di) w
    exact ⟨e, n, w', returns_iff.mpr h⟩
  · rcases ialloc_calm hc (fun _ hev => hev) (Returns.calm hq h) with
      ⟨l, hn, rfl, rfl⟩ | ⟨l, hfull, rfl, rfl⟩
    · have hb := inodeBlock_table hc hn.lt
      exact ⟨.inl ⟨rfl, hn.ge, hb, by rw [hb]; exact hn.lt, hn.unused, hn.before, slot_setSlot_self,
        setSlot_bytes hc hn.lt⟩, iff_of_false (by decide) hn.not_full⟩
    · exact ⟨.inr ⟨rfl, rfl⟩, iff_of_true rfl hfull⟩
  · obtain ⟨e, w', h⟩ := total_ifree n w
    have hret := returns_iff.mpr h
    obtain ⟨rfl, l, rfl⟩ := ifree_spec (fun _ hev => hev) (Returns.calm hq hret)
    exact ⟨_, hret, slot_setSlot_self, setSlot_bytes hc hn⟩

/-! ## Numbers that can be used -/

/-- What is asked of a call: a number that is handed out is that of an inode, fits an entry, and its
    slot is the one written; and `-ENOSPC` when no such number is unused. -/
def NumberUsable (w : World) (di : Dinode) (e : Int) (n : Nat) (w' : World) : Prop :=
  (e = 0 → 2 ≤ n ∧ n < w.env.info.ninodes ∧ (UInt16.ofNat n).toNat = n ∧
    slot w.env w'.disk n = di) ∧
  (Faultless w w' → (∀ m, 2 ≤ m → m < w.env.info.ninodes → (slot w.env w.disk m).type ≠ 0) →
    e = -ENOSPC)

/-- A slot is unused whose number can be used, or none is whose number cannot. -/
def NumbersFit (env : Env) (d : Disk) : Prop :=
  (∃ m, 2 ≤ m ∧ m < env.info.ninodes ∧ (slot env d m).type = 0) ∨
    ∀ m, 2 ≤ m → env.info.ninodes ≤ m → env.info.inodestart + m / IPB < env.info.bmapstart →
      (slot env d m).type ≠ 0

theorem NumbersFit.lt (h : NumbersFit env d) (hn : FirstUnused env d n) : n < env.info.ninodes := by
  by_contra hge
  rcases h with ⟨m, hm, hlt, hfree⟩ | hall
  · exact hn.before m hm (by omega) hfree
  · exact hall n hn.ge (not_lt.mp hge) hn.lt hn.unused

theorem FirstUnused.fits (h : FirstUnused env d n) (hlt : n < env.info.ninodes) :
    NumbersFit env d :=
  .inl ⟨n, h.ge, hlt, h.unused⟩

/-- The assertion of `xv6_iget`. -/
theorem iget_panics (h : w.env.info.ninodes ≤ n) : (xv6Iget n).run w = .error .panic := by
  unfold xv6Iget
  rw [Prog.run_bind_ok (show getEnv.run w = .ok (w.env, w) from rfl)]
  refine Prog.run_bind_error ?_
  rw [xv6Assert, if_neg fun hn => absurd hn.2 (not_lt.mpr h)]
  rfl

/-- On a mounted file system a call hands out a number that can be used exactly when one is unused,
    or none is that cannot be used, or a block cannot be read or written. -/
theorem number_usable_iff {r : Nat} (hc : w.env.info.Checked)
    (h : Returns (xv6Ialloc (some di)) w (e, r) w') :
    NumberUsable w di e r w' ↔ NumbersFit w.env w.disk ∨ ¬ Faultless w w' := by
  obtain ⟨-, -, hf⟩ := xv6Ialloc_errors hc.bmapstart_lt hc.inodestart_le h
  by_cases hcalm : Faultless w w'
  · rw [or_iff_left (not_not.mpr hcalm)]
    rcases ialloc_calm hc (fun _ hev => hev) ⟨h.1, hcalm⟩ with
      ⟨l, hn, rfl, rfl⟩ | ⟨l, hfull, rfl, rfl⟩
    · constructor
      · exact fun hu => hn.fits (hu.1 rfl).2.1
      · intro hfit
        have hlt := hfit.lt hn
        refine ⟨fun _ => ⟨hn.ge, hlt, ?_, slot_setSlot_self⟩, fun _ hall => ?_⟩
        · exact UInt16.toNat_ofNat_of_lt' (lt_trans hlt hc.ninodes_lt)
        · exact absurd hn.unused (hall r hn.ge hlt)
    · refine iff_of_true ⟨fun h0 => absurd h0 (by decide), fun _ _ => rfl⟩ ?_
      exact .inr fun m hm _ hlt => hfull m hm hlt
  · refine iff_of_true ⟨fun h0 => absurd (hf h0) hcalm, fun h' => absurd h' hcalm⟩ (.inr hcalm)

end

/-- A file system with an empty root directory, mounted. -/
def emptyMount (ninodes size : Nat) : World :=
  { World.unmounted (Env.calm .little) (emptyRoot ninodes size) with
    env := { Env.calm .little with info := (emptyRoot ninodes size 0).superblock.fsInfo } }

theorem emptyMount_checked {ninodes size : Nat} (hn : ninodes < 2 ^ 31)
    (hsize : 1 + INODE_BLOCKS ninodes + BITMAP_BLOCKS size ≤ size) (hs : size < 2 ^ 32) :
    (emptyMount ninodes size).env.info.Checked := by
  have hq : Quiet (World.unmounted (Env.calm .little) (emptyRoot ninodes size)).env := fun _ => rfl
  have hsb := emptyRoot_superblock ninodes size hn hs
  refine ⟨World.unmounted (Env.calm .little) (emptyRoot ninodes size), _,
    xv6Docheck_returns (i := 1) hq hsb rfl ?_ rfl ?_ ?_, rfl⟩
  · exact decide_eq_true ⟨rfl, rfl, rfl, not_lt.mpr hsize⟩
  · exact emptyRoot_null ninodes size
  · exact Block.dinode_setDinode _ _ (by decide)

/-- The inode of a new file. -/
def newFile : Dinode := newDinode .little false

/-- With two inodes, number 2 is handed out, and `xv6_iget` panics. -/
theorem number_two_of_two : (emptyMount 2 4200).env.info.Checked ∧
    ∃ w', Returns (xv6Ialloc (some newFile)) (emptyMount 2 4200) (0, 2) w' ∧
      ¬ NumberUsable (emptyMount 2 4200) newFile 0 2 w' ∧ (xv6Iget 2).run w' = .error .panic := by
  have hret : Returns (xv6Ialloc (some newFile)) (emptyMount 2 4200) (0, 2) _ :=
    returns_after (by decide +kernel)
  have hninodes : (emptyMount 2 4200).env.info.ninodes = 2 := by decide +kernel
  refine ⟨emptyMount_checked (by decide) (by decide) (by decide), _, hret, fun h => ?_, ?_⟩
  · have hlt := (h.1 rfl).2.1
    rw [hninodes] at hlt
    exact absurd hlt (by decide)
  · exact iget_panics (by decide +kernel)

theorem emptyMount_200 : (emptyMount 200 4200).env.info.Checked :=
  emptyMount_checked (by decide) (by decide) (by decide)

/-- With 200 inodes, number 2 can be used. -/
theorem number_two_of_many : ∃ w', Returns (xv6Ialloc (some newFile)) (emptyMount 200 4200) (0, 2)
      w' ∧ NumberUsable (emptyMount 200 4200) newFile 0 2 w' := by
  have hret : Returns (xv6Ialloc (some newFile)) (emptyMount 200 4200) (0, 2) _ :=
    returns_after (by decide +kernel)
  refine ⟨_, hret, (number_usable_iff emptyMount_200 hret).mpr ?_⟩
  exact .inl (.inl ⟨2, by decide, by decide +kernel, by decide +kernel⟩)

/-- The first file of a new file system gets number 2. -/
theorem ialloc_two : ∃ w', Returns (xv6Ialloc (some newFile)) (emptyMount 200 4200) (0, 2) w' ∧
    slot (emptyMount 200 4200).env w'.disk 2 = newFile ∧
    SlotBytes (emptyMount 200 4200).env.info (emptyMount 200 4200).disk 2 newFile w'.disk ∧
    ∃ w'', Returns (xv6Ifree 2) (emptyMount 200 4200) 0 w'' := by
  have hret : Returns (xv6Ialloc (some newFile)) (emptyMount 200 4200) (0, 2) _ :=
    returns_after (by decide +kernel)
  obtain ⟨-, halloc, hfree⟩ := ialloc_lowest (w := emptyMount 200 4200) emptyMount_200 fun _ => rfl
  rcases (halloc _ _ _ _ hret).1 with ⟨-, -, -, -, -, -, hslot, hbytes⟩ | ⟨he, -⟩
  · obtain ⟨w'', hret', -⟩ := hfree 2 (by decide +kernel)
    exact ⟨_, hret, hslot, hbytes, w'', hret'⟩
  · exact absurd he (by decide)

end Xv6fs
