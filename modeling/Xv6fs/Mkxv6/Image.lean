/-
  The files of the image.

  An image stores a list of files when the `k`-th has inode number `k + 1` and its bytes, the other
  slots of the inode table are free, the blocks of different files are different, and the blocks
  handed out are exactly those that the files cost (`Stores`). On a little-endian host `ialloc` adds
  an empty file, and `iappend` appends to one; they die only when an access fails or when the files
  do not fit in the image (`Fits`).
-/
import Xv6fs.Balloc.Mount
import Xv6fs.Tree.Unlinked
import Xv6fs.Mkxv6.Append

namespace Xv6fs.Mkxv6

open Prog (Ends)

/-- The image as the file system sees it. -/
def imageEnv : Env := { Env.calm .little with info := (superblock .little).fsInfo }

/-! ## The inode table -/

theorem imageEnv_info : imageEnv.info = ⟨2000, 1954, 200, 31, 1, 32, 45⟩ := by
  decide +kernel

theorem imageEnv_sound : imageEnv.info.Sound := by
  rw [imageEnv_info]
  exact ⟨by decide, by decide⟩

theorem hasSlot_iff {n : Nat} : HasSlot imageEnv n ↔ n < 208 := by
  unfold HasSlot
  rw [imageEnv_info]
  unfold IPB
  dsimp only
  omega

section

variable {s t : Maker} {d d' : Disk} {n : Nat} {di : Dinode}

theorem iblock_eq (hhost : s.host = .little) (n : Nat) :
    IBLOCK n (superblock s.host) = inodeBlock imageEnv n := by
  unfold IBLOCK inodeBlock
  rw [hhost, Nat.add_comm]
  rfl

/-- A slot is before the first data block. -/
theorem inodeBlock_lt_nmeta (hn : HasSlot imageEnv n) : inodeBlock imageEnv n < 45 := by
  have h := hn.block_lt imageEnv_sound
  rwa [imageEnv_info] at h

theorem slot_before (hn : HasSlot imageEnv n) (h : ∀ b, b < nmeta → d' b = d b) :
    slot imageEnv d' n = slot imageEnv d n := by
  unfold slot
  rw [h _ (lt_trans (inodeBlock_lt_nmeta hn) (by decide))]

theorem setSlot_data (hn : HasSlot imageEnv n) {b : Nat} (hb : 45 ≤ b) :
    setSlot imageEnv d n di b = d b := by
  refine hn.setSlot_block imageEnv_sound ?_
  rw [imageEnv_info]
  exact hb

theorem rinode_ends (hhost : s.host = .little) (hfile : s.nsect = FSSIZE)
    (hn : HasSlot imageEnv n) :
    Ends (rinode n) s (fun din t => din = slot imageEnv s.image n ∧ ∃ k, t = s.accessed k)
      fun _ => Faulty s := by
  have hlt := inodeBlock_lt_nmeta hn
  unfold rinode
  refine .get_bind ?_
  rw [iblock_eq hhost]
  refine .call (rsect_ends (lt_trans hlt (by decide))) (fun _ he => ?_) fun buf t _ ht => .pure ?_
  · rcases he with hf | hend
    · exact hf
    · rw [hfile] at hend
      exact absurd (lt_of_le_of_lt hend hlt) (by decide)
  · obtain ⟨rfl, -, hk⟩ := ht
    exact ⟨rfl, hk⟩

theorem winode_ends (hhost : s.host = .little) (hfile : s.nsect = FSSIZE)
    (hn : HasSlot imageEnv n) (di : Dinode) :
    Ends (winode n di) s (fun _ t => ∃ k, t = { s with
      accesses := k, image := setSlot imageEnv s.image n di }) fun _ => Faulty s := by
  have hlt := inodeBlock_lt_nmeta hn
  unfold winode
  refine .get_bind ?_
  dsimp only
  rw [iblock_eq hhost]
  refine .call (rsect_ends (lt_trans hlt (by decide))) (fun _ he => ?_) fun buf t hle ht => ?_
  · rcases he with hf | hend
    · exact hf
    · rw [hfile] at hend
      exact absurd (lt_of_le_of_lt hend hlt) (by decide)
  obtain ⟨rfl, -, k, rfl⟩ := ht
  refine (wsect_ends _ (lt_trans hlt (by decide))).weaken (fun _ t _ ht => ?_) fun _ hf =>
    hf.of_le hle
  obtain ⟨k', rfl⟩ := ht
  refine ⟨k', ?_⟩
  unfold Maker.accessed
  dsimp only
  rw [max_eq_left (by rw [hfile]; exact le_trans (Nat.succ_le_of_lt hlt) (by decide))]
  rfl

end

/-! ## Lists of files -/

structure ImageFile where
  type : UInt16
  bytes : List UInt8

/-- The file with `p` behind its bytes. -/
def ImageFile.append (f : ImageFile) (p : List UInt8) : ImageFile :=
  { f with bytes := f.bytes ++ p }

/-- The data blocks that the files take. -/
def total (files : List ImageFile) : Nat :=
  (files.map fun f => cost (blocksOf f.bytes.length)).sum

/-- The files fit in the image. -/
structure Fits (files : List ImageFile) : Prop where
  each : ∀ f, f ∈ files → f.bytes.length ≤ MAXFILE * BSIZE
  room : nmeta + total files ≤ FSSIZE

/-- There are no fewer files in `files'`, and none is shorter. -/
def Within (files files' : List ImageFile) : Prop :=
  ∀ (k : Nat) (f : ImageFile), files[k]? = some f →
    ∃ f', files'[k]? = some f' ∧ f.bytes.length ≤ f'.bytes.length

section

variable {files files' files'' : List ImageFile} {f : ImageFile} {k : Nat} {p : List UInt8}

theorem Within.trans (h : Within files files') (h' : Within files' files'') :
    Within files files'' := by
  intro k f hf
  obtain ⟨f', hf', hle⟩ := h k f hf
  obtain ⟨f'', hf'', hle'⟩ := h' k f' hf'
  exact ⟨f'', hf'', le_trans hle hle'⟩

theorem Within.append (files rest : List ImageFile) : Within files (files ++ rest) := by
  intro k f hf
  obtain ⟨hk, -⟩ := List.getElem?_eq_some_iff.mp hf
  exact ⟨f, by rw [List.getElem?_append_left hk, hf], le_rfl⟩

theorem Within.set (hf : files[k]? = some f) : Within files (files.set k (f.append p)) := by
  intro j g hg
  rw [List.getElem?_set]
  obtain ⟨hj, -⟩ := List.getElem?_eq_some_iff.mp hg
  by_cases hjk : k = j
  · subst hjk
    rw [if_pos rfl, if_pos hj]
    cases hf.symm.trans hg
    exact ⟨_, rfl, List.length_append ▸ Nat.le_add_right _ _⟩
  · rw [if_neg hjk]
    exact ⟨g, hg, le_rfl⟩

theorem Within.total_le : ∀ {files files' : List ImageFile}, Within files files' →
    total files ≤ total files'
  | [], _, _ => Nat.zero_le _
  | f :: files, files', h => by
    obtain ⟨f', hf', hle⟩ := h 0 f rfl
    cases files' with
    | nil => cases hf'
    | cons g rest =>
      cases hf'
      have htail : Within files rest := fun k f hf => h (k + 1) f hf
      unfold total
      rw [List.map_cons, List.map_cons, List.sum_cons, List.sum_cons]
      exact Nat.add_le_add (cost_mono (blocksOf_mono hle)) htail.total_le

/-- Files that fit did so before they grew. -/
theorem Within.fits (h : Within files files') (hf : Fits files') : Fits files where
  each f hmem := by
    obtain ⟨k, hk⟩ := List.mem_iff_getElem?.mp hmem
    obtain ⟨f', hf', hle⟩ := h k f hk
    exact le_trans hle (hf.each f' (List.mem_of_getElem? hf'))
  room := le_trans (Nat.add_le_add_left h.total_le _) hf.room

theorem total_set : ∀ {files : List ImageFile} {k : Nat}, files[k]? = some f → ∀ g : ImageFile,
    total (files.set k g) + cost (blocksOf f.bytes.length) =
      total files + cost (blocksOf g.bytes.length)
  | [], _, hf, _ => by cases hf
  | f' :: files, 0, hf, g => by
    cases hf
    unfold total
    rw [List.set_cons_zero, List.map_cons, List.map_cons, List.sum_cons, List.sum_cons]
    omega
  | f' :: files, k + 1, hf, g => by
    have hf' : files[k]? = some f := hf
    have ih := total_set hf' g
    unfold total at ih ⊢
    rw [List.set_cons_succ, List.map_cons, List.map_cons, List.sum_cons, List.sum_cons]
    omega

theorem total_concat (files : List ImageFile) (type : UInt16) :
    total (files ++ [⟨type, []⟩]) = total files := by
  unfold total
  rw [List.map_append, List.sum_append, List.map_singleton, List.sum_singleton]
  exact Nat.add_eq_left.mpr (by decide : cost (blocksOf 0) = 0)

end

/-! ## Images that store files -/

/-- Inode `n` is that of the file `f`, with the size `size`. -/
structure Kept (d : Disk) (n : Nat) (f : ImageFile) (size : Nat) : Prop where
  dinode : ∃ addrs, slot imageEnv d n = ⟨f.type, 0, 0, 1, UInt32.ofNat size, addrs⟩
  holds : Holds d (slot imageEnv d n).addr f.bytes

/-- The addresses of the first inodes, `count` of them. -/
def addrsIn (d : Disk) (count n : Nat) : Option Addrs :=
  if 0 < n ∧ n ≤ count then some (slot imageEnv d n).addr else none

/-- The image stores the files, the `k`-th with the size `size k`. -/
structure Stores (size : Nat → ImageFile → Nat) (d : Disk) (freeblock : Nat)
    (files : List ImageFile) : Prop where
  super : d 0 = superblockSector .little
  count : HasSlot imageEnv files.length
  each : ∀ (k : Nat) (f : ImageFile), files[k]? = some f → Kept d (k + 1) f (size k f)
  free : ∀ n, HasSlot imageEnv n → n = 0 ∨ files.length < n → slot imageEnv d n = Dinode.zero
  laid : Laid freeblock d (addrsIn d files.length)
  cost : freeblock = nmeta + total files
  room : freeblock ≤ FSSIZE

/-- What the program has made so far. -/
structure Built (s : Maker) (files : List ImageFile) : Prop where
  host : s.host = .little
  nsect : s.nsect = FSSIZE
  freeinode : s.freeinode = files.length + 1
  stores : Stores (fun _ f => f.bytes.length) s.image s.freeblock files

section

variable {s t : Maker} {d d' : Disk} {files : List ImageFile} {f : ImageFile} {n k fb : Nat}
  {size size' : Nat → ImageFile → Nat} {addrs : Addrs} {bytes : List UInt8}

theorem Holds.congr (h : Holds d addrs bytes) (hsame : ∀ j, j < MAXFILE →
    bmap d' addrs j = bmap d addrs j ∧ fblock d' addrs j = fblock d addrs j) :
    Holds d' addrs bytes where
  spans := ⟨h.spans.le, fun i hi => by rw [(hsame i hi).1]; exact h.spans.mapped i hi,
    h.spans.indirect⟩
  bytes x hx := by
    unfold fbyte
    rw [(hsame _ (Nat.div_lt_of_lt_mul (by rwa [Nat.mul_comm] at hx))).2]
    exact h.bytes x hx

theorem Kept.congr {m : Nat} (h : Kept d n f m) (hslot : slot imageEnv d' n = slot imageEnv d n)
    (hsame : ∀ j, j < MAXFILE →
      bmap d' (slot imageEnv d n).addr j = bmap d (slot imageEnv d n).addr j ∧
      fblock d' (slot imageEnv d n).addr j = fblock d (slot imageEnv d n).addr j) :
    Kept d' n f m where
  dinode := by rw [hslot]; exact h.dinode
  holds := by rw [hslot]; exact h.holds.congr hsame

theorem Kept.size_eq {m : Nat} (h : Kept d n f m) (hm : m < 2 ^ 32) :
    (slot imageEnv d n).size.toNat = m := by
  obtain ⟨addrs, hslot⟩ := h.dinode
  rw [hslot]
  exact UInt32.toNat_ofNat_of_lt' hm

theorem addrsIn_of (hn : 0 < n) (hle : n ≤ k) : addrsIn d k n = some (slot imageEnv d n).addr :=
  if_pos ⟨hn, hle⟩

namespace Stores

variable (h : Stores size d fb files)

include h

/-- Files that are stored fit. -/
theorem fits : Fits files where
  each f hf := by
    obtain ⟨k, hk⟩ := List.mem_iff_getElem?.mp hf
    exact (h.each k f hk).holds.length_le
  room := by
    have hroom := h.room
    rwa [h.cost] at hroom

theorem hasSlot (hk : k ≤ files.length) : HasSlot imageEnv k := by
  have hcount := h.count
  rw [hasSlot_iff] at hcount ⊢
  omega

end Stores

/-- The addresses of the inodes when slot `n` is written. -/
theorem addrsIn_setSlot {count count' : Nat} {di : Dinode} (hn : HasSlot imageEnv n)
    (hslot : HasSlot imageEnv count) (hpos : 0 < n) (hle : n ≤ count')
    (hcount : ∀ m, m ≠ n → (m ≤ count' ↔ m ≤ count)) (hbefore : ∀ b, b < nmeta → d' b = d b) :
    addrsIn (setSlot imageEnv d' n di) count' =
      Function.update (addrsIn d count) n (some di.addr) := by
  funext m
  by_cases hm : m = n
  · rw [hm, Function.update_self, addrsIn_of hpos hle, slot_setSlot_self]
  · rw [Function.update_of_ne hm]
    unfold addrsIn
    by_cases hin : 0 < m ∧ m ≤ count
    · have hm' : HasSlot imageEnv m := by
        rw [hasSlot_iff] at hslot ⊢
        omega
      rw [if_pos ⟨hin.1, (hcount m hm).mpr hin.2⟩, if_pos hin, hn.setSlot_ne imageEnv_sound hm' hm,
        slot_before hm' hbefore]
    · rw [if_neg hin, if_neg fun hc => hin ⟨hc.1, (hcount m hm).mp hc.2⟩]

/-- One file has changed, and its slot is written. -/
theorem Stores.write {fb' : Nat} {files' : List ImageFile} {di : Dinode}
    (h : Stores size d fb files) (hcount : HasSlot imageEnv files'.length)
    (hf : files'[k]? = some f)
    (hfiles : ∀ j, j ≠ k → files'[j]? = files[j]?) (hsize : ∀ j f, j ≠ k → size' j f = size j f)
    (hbefore : ∀ b, b < nmeta → d' b = d b)
    (helse : Elsewhere d (addrsIn d files.length) (k + 1) d')
    (hl : Laid fb' d' (Function.update (addrsIn d files.length) (k + 1) (some di.addr)))
    (hdi : ∃ addrs, di = ⟨f.type, 0, 0, 1, UInt32.ofNat (size' k f), addrs⟩)
    (hholds : Holds d' di.addr f.bytes) (hcost : fb' = nmeta + total files')
    (hroom : fb' ≤ FSSIZE) : Stores size' (setSlot imageEnv d' (k + 1) di) fb' files' := by
  obtain ⟨hk, -⟩ := List.getElem?_eq_some_iff.mp hf
  have hslots : ∀ m, m ≤ files'.length → HasSlot imageEnv m := fun m hm => by
    rw [hasSlot_iff] at hcount ⊢
    omega
  have hn : HasSlot imageEnv (k + 1) := hslots _ hk
  have hother : ∀ m, HasSlot imageEnv m → m ≠ k + 1 →
      slot imageEnv (setSlot imageEnv d' (k + 1) di) m = slot imageEnv d m := fun m hm hne => by
    rw [hn.setSlot_ne imageEnv_sound hm hne, slot_before hm hbefore]
  have hlen : ∀ j, j ≠ k → (j < files'.length ↔ j < files.length) := fun j hj => by
    rw [← not_le, ← not_le, ← List.getElem?_eq_none_iff, ← List.getElem?_eq_none_iff, hfiles j hj]
  have hle : ∀ m, m ≠ k + 1 → (m ≤ files'.length ↔ m ≤ files.length) := fun m hm => by
    cases m with
    | zero => exact iff_of_true (Nat.zero_le _) (Nat.zero_le _)
    | succ j => exact hlen j fun hc => hm (congrArg (· + 1) hc)
  have hsame : ∀ b, nmeta ≤ b → setSlot imageEnv d' (k + 1) di b = d' b := fun b hb =>
    setSlot_data hn (le_trans (by decide) hb)
  obtain ⟨hlaid, hdata⟩ := hl.congr hsame
  have haddrs : addrsIn (setSlot imageEnv d' (k + 1) di) files'.length = _ :=
    addrsIn_setSlot hn h.count (Nat.succ_pos k) hk hle hbefore
  refine ⟨?_, hcount, fun j g hg => ?_, fun m hm hfree => ?_, haddrs ▸ hlaid, hcost, hroom⟩
  · have hne : inodeBlock imageEnv (k + 1) ≠ 0 := by
      rw [hn.block_eq imageEnv_sound, imageEnv_info]
      exact (Nat.add_pos_left (by decide) _).ne'
    unfold setSlot
    rw [Function.update_of_ne hne.symm, hbefore 0 (by decide), h.super]
  · by_cases hj : j = k
    · subst hj
      cases hf.symm.trans hg
      have hself : slot imageEnv (setSlot imageEnv d' (j + 1) di) (j + 1) = di := slot_setSlot_self
      refine ⟨by rwa [hself], ?_⟩
      rw [hself]
      exact hholds.congr (hdata (j + 1) di.addr (Function.update_self _ _ _))
    · have hg' : files[j]? = some g := (hfiles j hj).symm.trans hg
      obtain ⟨hj', -⟩ := List.getElem?_eq_some_iff.mp hg'
      have hne : j + 1 ≠ k + 1 := fun hc => hj (Nat.succ.inj hc)
      have hA := addrsIn_of (d := d) (Nat.succ_pos j) hj'
      have hA' : Function.update (addrsIn d files.length) (k + 1) (some di.addr) (j + 1) = some _ :=
        (Function.update_of_ne hne _ _).trans hA
      rw [hsize j g hj]
      refine (h.each j g hg').congr (hother (j + 1) (h.hasSlot hj') hne) fun i hi => ?_
      obtain ⟨hmap, hblk⟩ := hdata (j + 1) _ hA' i hi
      obtain ⟨hmap', hblk'⟩ := helse (j + 1) _ hne hA i hi
      exact ⟨hmap.trans hmap', hblk.trans hblk'⟩
  · have hne : m ≠ k + 1 := by omega
    rw [hother m hm hne]
    refine h.free m hm (hfree.imp_right fun hlt => ?_)
    exact not_le.mp fun hc => absurd ((hle m hne).mpr hc) (not_le.mpr hlt)

/-! ## Appending and adding a file -/

theorem iappend_ends (h : Built s files) (hf : files[k]? = some f) (p : List UInt8) :
    Ends (iappend (k + 1) p) s (fun _ t => Built t (files.set k (f.append p)))
      fun _ => Faulty s ∨ ¬ Fits (files.set k (f.append p)) := by
  obtain ⟨hk, -⟩ := List.getElem?_eq_some_iff.mp hf
  have hkept := h.stores.each k f hf
  have hlen := hkept.holds.length_le
  have hn := h.stores.hasSlot hk
  have hset : (files.set k (f.append p))[k]? = some (f.append p) := by
    rw [List.getElem?_set, if_pos rfl, if_pos hk]
  unfold iappend
  refine .call (rinode_ends h.host h.nsect hn) (fun _ hf => .inl hf) fun din t₁ hle₁ ht₁ => ?_
  obtain ⟨rfl, k₁, rfl⟩ := ht₁
  rw [hkept.size_eq (lt_of_le_of_lt hlen (by decide))]
  have hA := addrsIn_of (d := s.image) (Nat.succ_pos k) hk
  refine .call (loop_ends (s := s.accessed k₁) le_rfl h.stores.laid hA hkept.holds h.nsect
    h.stores.room) (fun _ hr => ?_) fun r t₂ hle₂ ht₂ => ?_
  · -- what does not fit in the file or in the image
    rcases hr with hf' | hlong | hroom
    · exact .inl (hf'.of_le hle₁)
    · exact .inr fun hfits => absurd (hfits.each _ (List.mem_of_getElem? hset)) (not_le.mpr hlong)
    · refine .inr fun hfits => ?_
      have htotal := total_set hf (f.append p)
      have hcost := h.stores.cost
      have hfit := hfits.room
      have hroom' : FSSIZE + cost (blocksOf f.bytes.length) <
          s.freeblock + cost (blocksOf (f.bytes ++ p).length) := hroom
      unfold ImageFile.append at htotal hfit
      dsimp only at htotal hfit
      omega
  obtain ⟨happ, hoff, raw, hdin⟩ := ht₂
  have hle := le_trans hle₁ hle₂
  refine (winode_ends (hle.1.trans h.host) (happ.nsect.trans h.nsect) hn _).weaken
    (fun _ t _ ht => ?_) fun _ hf' => .inl (hf'.of_le hle)
  obtain ⟨k₃, rfl⟩ := ht
  refine ⟨hle.1.trans h.host, happ.nsect.trans h.nsect, ?_, ?_⟩
  · rw [List.length_set]
    exact happ.freeinode.trans h.freeinode
  have hcost : t₂.freeblock = nmeta + total (files.set k (f.append p)) := by
    have htotal := total_set hf (f.append p)
    have happcost : t₂.freeblock + cost (blocksOf f.bytes.length) =
        s.freeblock + cost (blocksOf (f.append p).bytes.length) := happ.cost
    have hcost := h.stores.cost
    omega
  refine h.stores.write (by rw [List.length_set]; exact h.stores.count) hset
    (fun j hj => List.getElem?_set_ne (Ne.symm hj)) (fun _ _ _ => rfl) happ.before happ.elsewhere
    happ.laid ?_ happ.holds hcost happ.room
  obtain ⟨raw₀, hslot⟩ := hkept.dinode
  exact ⟨raw, by rw [hdin, hoff, hslot]; rfl⟩

/-- An inode that names no block. -/
theorem Laid.empty {A : Nat → Option Addrs} (h : Laid fb d A) (hA : A n = none) :
    Laid fb d (Function.update A n (some noBlocks)) := by
  refine h.of_owns (fun p => ?_) h.fresh
  rw [owns_update]
  by_cases hp : p.1 = n
  · unfold owns
    rw [if_pos hp, noBlocks_ownedAt, hp, hA, Option.bind_none]
  · rw [if_neg hp]

theorem bmap_noBlocks (d : Disk) (i : Nat) : bmap d noBlocks i = 0 := by
  by_cases hi : i < NDIRECT
  · exact bmap_direct hi
  · exact bmap_hole (not_lt.mp hi) rfl

theorem holds_empty (d : Disk) : Holds d noBlocks [] where
  spans := ⟨Nat.zero_le _, fun i _ =>
    iff_of_false (not_not.mpr (bmap_noBlocks d i)) (Nat.not_lt_zero i), by decide⟩
  bytes x _ := by
    unfold fbyte fblock
    rw [if_pos (bmap_noBlocks d _), Buf.byte_zero]
    rfl

theorem emptyDinode_addr (type : UInt16) :
    Dinode.addr { Dinode.zero with type := type, nlink := 1, size := 0 } = noBlocks := rfl

theorem ialloc_ends (h : Built s files) (hcount : HasSlot imageEnv (files.length + 1))
    (type : UInt16) :
    Ends (ialloc type) s
      (fun inum t => inum = files.length + 1 ∧ Built t (files ++ [⟨type, []⟩]))
      fun _ => Faulty s := by
  have hlt : files.length + 1 < 208 := hasSlot_iff.mp hcount
  unfold ialloc
  refine .bind (Q := fun inum t => inum = files.length + 1 ∧
    t = { s with freeinode := files.length + 2 }) (.step ⟨h.freeinode, ?_⟩) fun inum t₁ _ ht₁ => ?_
  · rw [h.freeinode, Nat.mod_eq_of_lt (by omega)]
  obtain ⟨rfl, rfl⟩ := ht₁
  refine .call (winode_ends (s := { s with freeinode := files.length + 2 }) h.host h.nsect hcount _)
    (fun _ hf => hf) fun _ t₂ hle₂ ht₂ =>
    .pure ⟨rfl, ?_⟩
  obtain ⟨k, rfl⟩ := ht₂
  have hlen : (files ++ [(⟨type, []⟩ : ImageFile)]).length = files.length + 1 :=
    List.length_append
  refine ⟨h.host, h.nsect, by rw [hlen], ?_⟩
  have hlast : (files ++ [(⟨type, []⟩ : ImageFile)])[files.length]? = some ⟨type, []⟩ := by
    rw [List.getElem?_append_right le_rfl, Nat.sub_self]
    rfl
  refine h.stores.write (hlen ▸ hcount) hlast (fun j hj => ?_) (fun _ _ _ => rfl) (fun _ _ => rfl)
    (.refl _ _ _) ?_ ⟨_, rfl⟩ ?_ ?_ h.stores.room
  · by_cases hj' : j < files.length
    · exact List.getElem?_append_left hj'
    · rw [List.getElem?_eq_none (not_lt.mp hj'), List.getElem?_eq_none]
      rw [hlen]
      omega
  · rw [emptyDinode_addr]
    exact h.stores.laid.empty (if_neg fun hc => Nat.not_succ_le_self _ hc.2)
  · rw [emptyDinode_addr]
    exact holds_empty _
  · rw [total_concat]
    exact h.stores.cost

end

end Xv6fs.Mkxv6
