/-
  The directories of an image.

  When the arguments have different proper names, the root directory is a valid directory that maps
  the name of argument `i` to inode `i + 2`, and the directory of an argument is a valid directory
  without entries (`image_directories`).
-/
import Xv6fs.Dir.Valid
import Xv6fs.Mkxv6.Mounted

namespace Xv6fs.Mkxv6

/-! ## Entries -/

/-- Entries with these names, the `k`-th for inode `num k`. -/
def direntsOf (num : Nat → Nat) (names : List FileName) : List Dirent :=
  names.mapIdx fun k nm => newDirent (num k) nm

theorem getD_direntBytes : ∀ (des : List Dirent) (k : Nat) {r : Nat}, r < 16 →
    (des.flatMap direntBytes).getD (16 * k + r) 0 = (des.getD k Dirent.zero).byte r
  | [], k, r, hr => by
    have hzero : Dirent.byte Dirent.zero r = 0 := by
      unfold Dirent.byte Dirent.zero
      split
      · next h2 =>
        unfold Buf.digit
        rw [show (0 : UInt16).toNat = 0 from rfl, Nat.zero_div]
        rfl
      · rfl
    exact hzero.symm
  | de :: des, 0, r, hr => by
    have hlt : r < (direntBytes de).length := by
      rwa [direntBytes_length]
    rw [List.flatMap_cons, Nat.mul_zero, Nat.zero_add, List.getD_append _ _ _ _ hlt,
      List.getD_cons_zero]
    unfold direntBytes
    rw [List.getD_eq_getElem?_getD, List.getElem?_map, List.getElem?_range hr]
    rfl
  | de :: des, k + 1, r, hr => by
    have hle : (direntBytes de).length ≤ 16 * (k + 1) + r := by
      rw [direntBytes_length]
      omega
    rw [List.flatMap_cons, List.getD_append_right _ _ _ _ hle, direntBytes_length,
      show 16 * (k + 1) + r - 16 = 16 * k + r by omega, getD_direntBytes des k hr,
      List.getD_cons_succ]

theorem dslot_eq {d : Disk} {addrs : Addrs} {des : List Dirent}
    (h : Holds d addrs (des.flatMap direntBytes)) {k : Nat} (hk : k < MAXFILE * NENTS) :
    dslot d addrs k = des.getD k Dirent.zero := by
  unfold dslot
  refine Block.dirent_eq (Nat.mod_lt k (by decide)) fun r hr => ?_
  rw [← getD_direntBytes des k hr]
  have hx : 16 * k + r < MAXFILE * BSIZE := by
    unfold MAXFILE NENTS at hk
    unfold MAXFILE BSIZE
    omega
  rw [← h.bytes _ hx]
  unfold fbyte NENTS BSIZE
  rw [show (16 * k + r) / 1024 = k / 64 by omega,
    show (16 * k + r) % 1024 = 16 * (k % 64) + r by omega]

theorem getD_direntsOf (num : Nat → Nat) (names : List FileName) (k : Nat) :
    (direntsOf num names).getD k Dirent.zero =
      match names[k]? with
      | some nm => newDirent (num k) nm
      | none => Dirent.zero := by
  unfold direntsOf
  rw [List.getD_eq_getElem?_getD, List.getElem?_mapIdx]
  cases names[k]? <;> rfl

/-- Names that a directory can have. -/
structure DirNames (names : List FileName) : Prop where
  dot : names[0]? = some dot
  dotdot : names[1]? = some dotdot
  ok : ∀ nm ∈ names, NameOk nm ∧ nm.length ≤ DIRSIZ
  nodup : names.Nodup

section

variable {d : Disk} {addrs : Addrs} {num : Nat → Nat} {names : List FileName} {size k : Nat}

theorem dslot_some {nm : FileName} (h : Holds d addrs ((direntsOf num names).flatMap direntBytes))
    (hk : k < MAXFILE * NENTS) (hnm : names[k]? = some nm) :
    dslot d addrs k = newDirent (num k) nm := by
  rw [dslot_eq h hk, getD_direntsOf, hnm]

theorem dslot_none (h : Holds d addrs ((direntsOf num names).flatMap direntBytes))
    (hk : k < MAXFILE * NENTS) (hle : names.length ≤ k) : dslot d addrs k = Dirent.zero := by
  rw [dslot_eq h hk, getD_direntsOf, List.getElem?_eq_none hle]

/-- Such entries make a valid directory. -/
theorem DirNames.validDir (hn : DirNames names)
    (h : Holds d addrs ((direntsOf num names).flatMap direntBytes))
    (hnum : ∀ k, k < names.length → UInt16.ofNat (num k) ≠ 0) (hmul : size % 16 = 0)
    (hlen : names.length ≤ size / 16) (hle : size ≤ MAXFILE * BSIZE) :
    ValidDir d addrs size ∧ ∀ (n : EntryName) (inum : UInt16),
      dirMap d addrs size n = some inum ↔
        ∃ k, names[k]? = some n.name ∧ inum = UInt16.ofNat (num k) := by
  have hslots : size / 16 ≤ MAXFILE * NENTS := size_slots hle
  have htwo : 1 < names.length := (List.getElem?_eq_some_iff.mp hn.dotdot).1
  -- the entry of a name, or an unused one
  have hcases : ∀ k, k < MAXFILE * NENTS → (∃ nm, names[k]? = some nm ∧ NameOk nm ∧
      nm.length ≤ DIRSIZ ∧ dslot d addrs k = newDirent (num k) nm ∧ UInt16.ofNat (num k) ≠ 0) ∨
      (names.length ≤ k ∧ dslot d addrs k = Dirent.zero) := by
    intro k hk
    by_cases hlt : k < names.length
    · have hnm := List.getElem?_eq_getElem hlt
      obtain ⟨hok, hshort⟩ := hn.ok _ (List.getElem_mem hlt)
      exact .inl ⟨_, hnm, hok, hshort, dslot_some h hk hnm, hnum k hlt⟩
    · exact .inr ⟨not_lt.mp hlt, dslot_none h hk (not_lt.mp hlt)⟩
  have htable : ∀ i, i < size / 16 → ∀ key v, dirTable d addrs i = some (key, v) ↔
      ∃ nm, names[i]? = some nm ∧ UInt16.ofNat (num i) ≠ 0 ∧ v = UInt16.ofNat (num i) ∧
        strncpy nm = key := by
    intro i hi key v
    unfold dirTable
    rw [Dirent.binding_eq_some]
    rcases hcases i (lt_of_lt_of_le hi hslots) with ⟨nm, hnm, -, -, hde, hne⟩ | ⟨hlong, hde⟩
    · rw [hde, hnm]
      constructor
      · rintro ⟨-, hkey, hv⟩
        exact ⟨nm, rfl, hne, hv.symm, hkey⟩
      · rintro ⟨nm', hnm', -, rfl, hkey⟩
        cases hnm'
        exact ⟨hne, hkey, rfl⟩
    · rw [hde, List.getElem?_eq_none hlong]
      constructor
      · rintro ⟨hv, -, rfl⟩
        exact absurd rfl hv
      · rintro ⟨nm', hnm', -⟩
        cases hnm'
  have hvalid : ValidDir d addrs size := by
    refine ⟨hmul, by omega, hle, ?_, ?_, fun k hk hused => ?_, fun i j key v v' hi hj h₁ h₂ => ?_,
      fun k hk hfree => ?_, fun k hlow hk => ?_⟩
    · rw [dslot_some h (by decide) hn.dot]
      rfl
    · rw [dslot_some h (by decide) hn.dotdot]
      rfl
    · rcases hcases k (lt_of_lt_of_le hk hslots) with ⟨nm, -, hok, -, hde, -⟩ | ⟨-, hde⟩
      · rw [hde]
        exact ⟨strncpy_first hok, strncpy_padded hok⟩
      · rw [hde] at hused
        exact absurd rfl hused
    · obtain ⟨a, ha, -, -, hnm⟩ := (htable i hi key v).mp h₁
      obtain ⟨b, hb, -, -, hnm'⟩ := (htable j hj key v').mp h₂
      obtain ⟨hlt, -⟩ := List.getElem?_eq_some_iff.mp ha
      obtain ⟨hoka, hla⟩ := hn.ok a (List.mem_of_getElem? ha)
      obtain ⟨hokb, hlb⟩ := hn.ok b (List.mem_of_getElem? hb)
      obtain rfl := strncpy_inj hoka hokb hla hlb (hnm.trans hnm'.symm)
      exact (List.getElem?_inj hlt hn.nodup).mp (ha.trans hb.symm)
    · rcases hcases k (lt_of_lt_of_le hk hslots) with ⟨nm, -, -, -, hde, hne⟩ | ⟨-, hde⟩
      · rw [hde] at hfree
        exact absurd hfree hne
      · rw [hde]
        rfl
    · rw [dslot_none h hk (le_trans hlen hlow)]
      exact ⟨rfl, rfl⟩
  refine ⟨hvalid, fun n inum => ?_⟩
  rw [hvalid.dirMap_eq_some]
  constructor
  · rintro ⟨i, hi, hentry⟩
    obtain ⟨nm, hnm, -, hv, hkey⟩ := (htable i hi _ _).mp hentry
    obtain ⟨hok, hshort⟩ := hn.ok nm (List.mem_of_getElem? hnm)
    obtain rfl := strncpy_inj hok n.ok hshort n.fits hkey
    exact ⟨i, hnm, hv⟩
  · rintro ⟨i, hnm, hv⟩
    obtain ⟨hlt, -⟩ := List.getElem?_eq_some_iff.mp hnm
    have hi : i < size / 16 := lt_of_lt_of_le hlt hlen
    exact ⟨i, hi, (htable i hi _ _).mpr ⟨n.name, hnm, hnum i hlt, hv, rfl⟩⟩

/-! ## The directories of an image -/

/-- The names of the root directory. -/
def rootNames (args : List Input) : List FileName :=
  dot :: dotdot :: args.map fun f => imageName f.path

/-- The names of the arguments are proper and different. -/
structure WellNamed (args : List Input) : Prop where
  ok : ∀ f ∈ args, NameOk (imageName f.path)
  nodup : (rootNames args).Nodup

theorem entriesOf_eq : ∀ (fs : List Input) (inum : Nat), entriesOf inum fs =
    (direntsOf (inum + ·) (fs.map fun f => imageName f.path)).flatMap direntBytes
  | [], _ => rfl
  | f :: fs, inum => by
    have hshift : (fun k => newDirent (inum + (k + 1))) = fun k => newDirent (inum + 1 + k) := by
      funext k
      rw [Nat.add_assoc, Nat.add_comm 1]
    unfold entriesOf direntsOf
    rw [entriesOf_eq fs, List.map_cons, List.mapIdx_cons, List.flatMap_cons, hshift]
    rfl

theorem rootFile_eq (args : List Input) : (rootFile args).bytes =
    (direntsOf (max 1) (rootNames args)).flatMap direntBytes := by
  have hmax : (fun k => newDirent (max 1 (k + 1 + 1))) = fun k => newDirent (ROOTINO + 1 + k) := by
    funext k
    rw [show max 1 (k + 1 + 1) = ROOTINO + 1 + k by unfold ROOTINO; omega]
  unfold rootFile dotsBytes direntsOf rootNames
  rw [entriesOf_eq, List.mapIdx_cons, List.mapIdx_cons, List.flatMap_cons, List.flatMap_cons, hmax,
    List.append_assoc]
  rfl

theorem dotsBytes_eq (inum parent : Nat) : dotsBytes inum parent =
    (direntsOf (fun k => if k = 0 then inum else parent) [dot, dotdot]).flatMap direntBytes := by
  unfold dotsBytes direntsOf
  rw [List.mapIdx_cons, List.mapIdx_cons, List.flatMap_cons, List.flatMap_cons, List.mapIdx_nil,
    List.flatMap_nil, List.append_nil]
  rfl

theorem filesOf_get : ∀ (fs : List Input) (inum i : Nat),
    (filesOf inum fs)[i]? = fs[i]?.map fun f => f.file (inum + i)
  | [], _, _ => rfl
  | f :: fs, inum, 0 => rfl
  | f :: fs, inum, i + 1 => by
    unfold filesOf
    rw [List.getElem?_cons_succ, filesOf_get fs, List.getElem?_cons_succ, Nat.add_assoc,
      Nat.add_comm 1]

variable {args : List Input} {sys : Nat → Bool} {f : Input} {i : Nat}

theorem imageFiles_get (hf : args[i]? = some f) :
    (imageFiles args)[i + 1]? = some (f.file (i + 2)) := by
  have hget := filesOf_get args (ROOTINO + 1) i
  rw [hf, Option.map_some, show ROOTINO + 1 + i = i + 2 by unfold ROOTINO; omega] at hget
  exact hget

theorem WellNamed.dirNames (h : WellNamed args) (hu : ∀ f ∈ args, f.Usable) :
    DirNames (rootNames args) where
  dot := rfl
  dotdot := rfl
  ok nm hnm := by
    rcases List.mem_cons.mp hnm with rfl | hnm
    · exact ⟨nameOk_dot, by decide⟩
    rcases List.mem_cons.mp hnm with rfl | hnm
    · exact ⟨nameOk_dotdot, by decide⟩
    obtain ⟨f, hf, rfl⟩ := List.mem_map.mp hnm
    exact ⟨h.ok f hf, (hu f hf).short⟩
  nodup := h.nodup

theorem dirNames_dots : DirNames [dot, dotdot] where
  dot := rfl
  dotdot := rfl
  ok nm hnm := by
    rcases List.mem_cons.mp hnm with rfl | hnm
    · exact ⟨nameOk_dot, by decide⟩
    · rw [List.mem_singleton.mp hnm]
      exact ⟨nameOk_dotdot, by decide⟩
  nodup := by decide

theorem rootNames_get (args : List Input) (i : Nat) :
    (rootNames args)[i + 2]? = args[i]?.map fun f => imageName f.path :=
  List.getElem?_map

theorem ofNat_ne_zero {k : Nat} (hpos : 0 < k) (hlt : k < 2 ^ 16) : UInt16.ofNat k ≠ 0 := by
  intro hc
  have h := congrArg UInt16.toNat hc
  rw [UInt16.toNat_ofNat_of_lt' hlt] at h
  exact hpos.ne' h

theorem Imaged.rootDir {d : Disk} (h : Imaged d args) (hcount : args.length + 1 < 208)
    (hu : ∀ f ∈ args, f.Usable) (hnames : WellNamed args) :
    ValidDir d (slot imageEnv d ROOTINO).addr (slot imageEnv d ROOTINO).size.toNat ∧
      ∀ (n : EntryName) (inum : UInt16),
        dirMap d (slot imageEnv d ROOTINO).addr (slot imageEnv d ROOTINO).size.toNat n =
            some inum ↔
          ∃ i f, args[i]? = some f ∧ imageName f.path = n.name ∧ inum = UInt16.ofNat (i + 2) := by
  obtain ⟨fb, hs, -⟩ := h
  obtain ⟨hwhole, hle⟩ := finalSize_root hcount
  have hroot := hs.each 0 (rootFile args) rfl
  have hholds := hroot.holds
  rw [rootFile_eq] at hholds
  have hlen : (rootNames args).length = args.length + 2 := by
    unfold rootNames
    rw [List.length_cons, List.length_cons, List.length_map]
  have hfit : (rootNames args).length ≤ finalSize 0 (rootFile args) / 16 := by
    rw [show finalSize 0 (rootFile args) = ((rootFile args).bytes.length / BSIZE + 1) * BSIZE from
      if_pos rfl, rootFile_length, hlen]
    unfold BSIZE
    omega
  obtain ⟨hvalid, hmap⟩ := (hnames.dirNames hu).validDir hholds
    (fun k hk => ofNat_ne_zero (by omega) (by omega)) hwhole.1 hfit hle
  rw [← hroot.size_eq (lt_of_le_of_lt hle (by decide))] at hvalid hmap
  refine ⟨hvalid, fun n inum => (hmap n inum).trans ⟨?_, ?_⟩⟩
  · rintro ⟨k, hk, rfl⟩
    match k, hk with
    | 0, hk => exact absurd (.inl (Option.some.inj hk).symm) n.notDots
    | 1, hk => exact absurd (.inr (Option.some.inj hk).symm) n.notDots
    | i + 2, hk =>
      rw [rootNames_get] at hk
      obtain ⟨f, hf, hname⟩ := Option.map_eq_some_iff.mp hk
      exact ⟨i, f, hf, hname, by rw [max_eq_right (by omega)]⟩
  · rintro ⟨i, f, hf, hname, rfl⟩
    refine ⟨i + 2, ?_, by rw [max_eq_right (by omega)]⟩
    rw [rootNames_get, hf, ← hname]
    rfl

theorem Imaged.subDir {d : Disk} (h : Imaged d args) (hcount : args.length + 1 < 208)
    (hf : args[i]? = some f) (hdir : f.isdir = true) :
    ValidDir d (slot imageEnv d (i + 2)).addr (slot imageEnv d (i + 2)).size.toNat ∧
      ∀ n : EntryName, dirMap d (slot imageEnv d (i + 2)).addr
        (slot imageEnv d (i + 2)).size.toNat n = none := by
  obtain ⟨fb, hs, -⟩ := h
  have hkept := hs.each (i + 1) _ (imageFiles_get hf)
  obtain ⟨hi, -⟩ := List.getElem?_eq_some_iff.mp hf
  have hfile : f.file (i + 2) = ⟨T_DIR, dotsBytes (i + 2) ROOTINO⟩ := if_pos hdir
  have hsize : finalSize (i + 1) (f.file (i + 2)) = 32 := by
    rw [show finalSize (i + 1) (f.file (i + 2)) = _ from if_neg (Nat.succ_ne_zero i), hfile]
    unfold dotsBytes
    rw [List.length_append, direntBytes_length, direntBytes_length]
  have hholds := hkept.holds
  rw [hfile] at hholds
  dsimp only at hholds
  rw [dotsBytes_eq] at hholds
  rw [hsize] at hkept
  have hnum : (slot imageEnv d (i + 2)).size.toNat = 32 := hkept.size_eq (by decide)
  have hmul : (slot imageEnv d (i + 2)).size.toNat % 16 = 0 := by rw [hnum]
  obtain ⟨hvalid, hmap⟩ := dirNames_dots.validDir hholds (fun k _ => by
    split
    · exact ofNat_ne_zero (by omega) (by omega)
    · decide) hmul (by rw [hnum]; decide) (by rw [hnum]; decide)
  refine ⟨hvalid, fun n => Option.eq_none_iff_forall_ne_some.mpr fun inum hsome => ?_⟩
  obtain ⟨k, hk, -⟩ := (hmap n inum).mp hsome
  rcases List.mem_cons.mp (List.mem_of_getElem? hk) with hname | hname
  · exact n.notDots (.inl hname)
  · exact n.notDots (.inr (List.mem_singleton.mp hname))

/-- The root directory maps the names of the arguments to their numbers, and the directories of the
    arguments are empty. -/
theorem image_directories {d : Disk} (hcount : args.length + 1 < 208)
    (h : image .little sys args = some d) (hnames : WellNamed args) :
    ValidDir d (slot imageEnv d ROOTINO).addr (slot imageEnv d ROOTINO).size.toNat ∧
      (∀ (n : EntryName) (inum : UInt16),
        dirMap d (slot imageEnv d ROOTINO).addr (slot imageEnv d ROOTINO).size.toNat n =
            some inum ↔
          ∃ i f, args[i]? = some f ∧ imageName f.path = n.name ∧ inum = UInt16.ofNat (i + 2)) ∧
      ∀ i f, args[i]? = some f → f.isdir = true →
        ValidDir d (slot imageEnv d (i + 2)).addr (slot imageEnv d (i + 2)).size.toNat ∧
          ∀ n : EntryName, dirMap d (slot imageEnv d (i + 2)).addr
            (slot imageEnv d (i + 2)).size.toNat n = none := by
  obtain ⟨hu, himaged⟩ := image_imaged hcount h
  obtain ⟨hvalid, hmap⟩ := himaged.rootDir hcount hu hnames
  exact ⟨hvalid, hmap, fun i f hf hdir => himaged.subDir hcount hf hdir⟩

theorem libAndHello_wellNamed : WellNamed libAndHello where
  ok := by
    intro f hf
    rcases List.mem_cons.mp hf with rfl | hf
    · exact show NameOk [0x6c, 0x69, 0x62] from ⟨by simp, by simp⟩
    · rw [List.mem_singleton.mp hf]
      exact show NameOk [0x68, 0x69] from ⟨by simp, by simp⟩
  nodup := by decide

theorem image_directories_libAndHello : ∃ d,
    image .little (fun _ => true) libAndHello = some d ∧
    ValidDir d (slot imageEnv d 1).addr (slot imageEnv d 1).size.toNat ∧
    ValidDir d (slot imageEnv d 2).addr (slot imageEnv d 2).size.toNat := by
  obtain ⟨d, hd⟩ := libAndHello_made
  obtain ⟨hroot, -, hsub⟩ := image_directories (by decide) hd libAndHello_wellNamed
  exact ⟨d, hd, hroot, (hsub 0 _ rfl rfl).1⟩

end

end Xv6fs.Mkxv6
