/-
  What mkxv6 makes of its arguments.

  Argument `i` becomes inode `i + 2`, and the root directory has its name (`imageFiles`). On a
  little-endian host, with arguments that have slots in the inode table, the program exits with
  status 0 only with an image that stores these files, and the bits of the blocks handed out are set
  (`main_ends`). When no access to the image fails, it does so exactly when every argument can be
  used and the files fit (`main_exits_iff`).
-/
import Xv6fs.Mkxv6.Image

namespace Xv6fs.Mkxv6

open Prog (Ends)

/-! ## The files of an image -/

/-- The bytes of a directory with no entries but '.' and '..'. -/
def dotsBytes (inum parent : Nat) : List UInt8 :=
  direntBytes (newDirent inum dot) ++ direntBytes (newDirent parent dotdot)

def Input.contents (f : Input) : List UInt8 := f.reads.flatMap Chunk.bytes

def Input.file (f : Input) (inum : Nat) : ImageFile :=
  if f.isdir then ⟨T_DIR, dotsBytes inum ROOTINO⟩ else ⟨T_FILE, f.contents⟩

def Input.entry (f : Input) (inum : Nat) : Dirent := newDirent inum (imageName f.path)

/-- The files of the arguments, from inode `inum` on. -/
def filesOf : Nat → List Input → List ImageFile
  | _, [] => []
  | inum, f :: fs => f.file inum :: filesOf (inum + 1) fs

/-- Their entries in the root directory. -/
def entriesOf : Nat → List Input → List UInt8
  | _, [] => []
  | inum, f :: fs => direntBytes (f.entry inum) ++ entriesOf (inum + 1) fs

def imageFiles (args : List Input) : List ImageFile :=
  ⟨T_DIR, dotsBytes ROOTINO ROOTINO ++ entriesOf (ROOTINO + 1) args⟩ :: filesOf (ROOTINO + 1) args

/-- The program does not die on the argument or its name. -/
structure Input.Usable (f : Input) : Prop where
  noSlash : (0x2f : UInt8) ∉ shortname f.path
  opens : f.opens = true
  short : (imageName f.path).length ≤ DIRSIZ
  stats : f.stats = true

section

variable {s t : Maker} {files : List ImageFile} {root g : ImageFile} {f : Input} {fs : List Input}
  {k : Nat}

theorem ImageFile.append_append (g : ImageFile) (p q : List UInt8) :
    (g.append p).append q = g.append (p ++ q) := by
  unfold ImageFile.append
  dsimp only
  rw [List.append_assoc]

/-- Two appends to one file. -/
theorem set_append_append (hg : files[k]? = some g) (p q : List UInt8) :
    (files.set k (g.append p))[k]? = some (g.append p) ∧
      (files.set k (g.append p)).set k ((g.append p).append q) =
        files.set k (g.append (p ++ q)) := by
  obtain ⟨hk, -⟩ := List.getElem?_eq_some_iff.mp hg
  refine ⟨by rw [List.getElem?_set, if_pos rfl, if_pos hk], ?_⟩
  rw [List.set_set, ImageFile.append_append]

theorem readAll_ends : ∀ {cs : List Chunk} {s : Maker} {files : List ImageFile} {g : ImageFile},
    Built s files → files[k]? = some g →
    Ends (main.readAll (k + 1) cs) s
      (fun _ t => Built t (files.set k (g.append (cs.flatMap Chunk.bytes))))
      fun _ => Faulty s ∨ ¬ Fits (files.set k (g.append (cs.flatMap Chunk.bytes)))
  | [], s, files, g, h, hg => by
    have hsame : files.set k (g.append ([].flatMap Chunk.bytes)) = files := by
      obtain ⟨hk, rfl⟩ := List.getElem?_eq_some_iff.mp hg
      unfold ImageFile.append
      rw [List.flatMap_nil, List.append_nil]
      exact List.set_getElem_self hk
    rw [hsame]
    exact .pure h
  | c :: cs, s, files, g, h, hg => by
    have hall : g.append ((c :: cs).flatMap Chunk.bytes) =
        (g.append c.bytes).append (cs.flatMap Chunk.bytes) := by
      rw [ImageFile.append_append, List.flatMap_cons]
    obtain ⟨hset, hset'⟩ := set_append_append hg c.bytes (cs.flatMap Chunk.bytes)
    rw [hall, ImageFile.append_append, ← hset']
    unfold main.readAll
    refine .call (iappend_ends h hg c.bytes) (fun _ he => ?_) fun _ t hle ht => ?_
    · exact he.imp_right fun hn hfits => hn ((Within.set hset).fits hfits)
    · exact (readAll_ends ht hset).weaken (fun _ _ _ hu => hu) fun _ he =>
        he.imp_left fun hf => hf.of_le hle

theorem dots_ends (parent : Nat) (h : Built s files) (hg : files[k]? = some g) :
    Ends (main.dots (k + 1) parent) s
      (fun _ t => Built t (files.set k (g.append (dotsBytes (k + 1) parent))))
      fun _ => Faulty s ∨ ¬ Fits (files.set k (g.append (dotsBytes (k + 1) parent))) := by
  obtain ⟨hset, hset'⟩ := set_append_append hg (direntBytes (newDirent (k + 1) dot))
    (direntBytes (newDirent parent dotdot))
  unfold main.dots dotsBytes
  rw [← hset']
  refine .call (iappend_ends h hg _) (fun _ he => ?_) fun _ t hle ht => ?_
  · exact he.imp_right fun hn hfits => hn ((Within.set hset).fits hfits)
  · exact (iappend_ends ht hset _).weaken (fun _ _ _ hu => hu) fun _ he =>
      he.imp_left fun hf => hf.of_le hle

/-- The files when an argument has been copied. -/
def addFile (files : List ImageFile) (root : ImageFile) (f : Input) : List ImageFile :=
  (files ++ [f.file (files.length + 1)]).set 0
    (root.append (direntBytes (f.entry (files.length + 1))))

theorem copy_ends (h : Built s files) (hroot : files[0]? = some root)
    (hcount : HasSlot imageEnv (files.length + 1)) :
    Ends (main.copy ROOTINO f) s (fun _ t => f.Usable ∧ Built t (addFile files root f))
      fun _ => Faulty s ∨ ¬ f.Usable ∨ ¬ Fits (addFile files root f) := by
  obtain ⟨hpos, -⟩ := List.getElem?_eq_some_iff.mp hroot
  have hroot' : (files ++ [f.file (files.length + 1)])[0]? = some root := by
    rw [List.getElem?_append_left hpos, hroot]
  have hwithin : Within (files ++ [f.file (files.length + 1)]) (addFile files root f) :=
    .set hroot'
  unfold main.copy
  refine .bind (Q := fun _ t => s = t ∧ (0x2f : UInt8) ∉ shortname f.path) ?_ fun _ t _ ht => ?_
  · unfold assert
    exact .ite (fun hc => .pure ⟨rfl, hc⟩) fun hc => .halt (.inr (.inl fun hu => hc hu.noSlash))
  obtain ⟨rfl, hslash⟩ := ht
  refine .ite (fun hopen => .halt_bind (.inr (.inl fun hu => ?_))) fun hopen => ?_
  · rw [hu.opens] at hopen
    cases hopen
  refine .bind (Q := fun _ t => s = t ∧ (imageName f.path).length ≤ DIRSIZ) ?_ fun _ t _ ht => ?_
  · unfold assert
    exact .ite (fun hc => .pure ⟨rfl, hc⟩) fun hc => .halt (.inr (.inl fun hu => hc hu.short))
  obtain ⟨rfl, hshort⟩ := ht
  refine .ite (fun hstat => .halt_bind (.inr (.inl fun hu => ?_))) fun hstat => ?_
  · rw [hu.stats] at hstat
    cases hstat
  have husable : f.Usable := ⟨hslash, by simpa using hopen, hshort, by simpa using hstat⟩
  refine .call (ialloc_ends h hcount _) (fun _ hf => .inl hf) fun inum t₁ hle₁ ht₁ => ?_
  obtain ⟨rfl, h₁⟩ := ht₁
  generalize htype : (if f.isdir then T_DIR else T_FILE) = type at h₁
  have hlast : (files ++ [(⟨type, []⟩ : ImageFile)])[files.length]? = some ⟨type, []⟩ := by
    rw [List.getElem?_append_right le_rfl, Nat.sub_self]
    rfl
  have hset : ∀ g, (files ++ [(⟨type, []⟩ : ImageFile)]).set files.length g = files ++ [g] := by
    intro g
    rw [List.set_append_right _ _ le_rfl, Nat.sub_self, List.set_cons_zero]
  -- the entry is appended whatever the file is
  have hentry : ∀ u, s ≤ u → Built u (files ++ [f.file (files.length + 1)]) →
      Ends (iappend ROOTINO (direntBytes (newDirent (files.length + 1) (imageName f.path)))) u
        (fun _ t => f.Usable ∧ Built t (addFile files root f))
        fun _ => Faulty s ∨ ¬ f.Usable ∨ ¬ Fits (addFile files root f) := fun u hle hu =>
    (iappend_ends hu hroot' _).weaken (fun _ _ _ ht => ⟨husable, ht⟩) fun _ he =>
      he.imp (fun hf => hf.of_le hle) .inr
  have hunfit : ∀ u, s ≤ u → Faulty u ∨ ¬ Fits (files ++ [f.file (files.length + 1)]) →
      Faulty s ∨ ¬ f.Usable ∨ ¬ Fits (addFile files root f) := fun u hle he =>
    he.imp (fun hf => hf.of_le hle) fun hn => .inr fun hfits => hn (hwithin.fits hfits)
  refine .ite (fun hdir => ?_) fun hreg => ?_
  · have hfile : f.file (files.length + 1) =
        ImageFile.append ⟨type, []⟩ (dotsBytes (files.length + 1) ROOTINO) := by
      unfold Input.file
      rw [← htype, if_pos hdir, if_pos hdir]
      rfl
    have hends := dots_ends ROOTINO h₁ hlast
    rw [hset, ← hfile] at hends
    exact .call hends (fun _ he => hunfit t₁ hle₁ he) fun _ u hle hu =>
      hentry u (le_trans hle₁ hle) hu
  · have hfile : f.file (files.length + 1) = ImageFile.append ⟨type, []⟩ f.contents := by
      unfold Input.file
      rw [← htype, if_neg hreg, if_neg hreg]
      rfl
    have hends : Ends (main.readAll _ f.reads) _ _ _ := readAll_ends h₁ hlast
    rw [hset, show f.reads.flatMap Chunk.bytes = f.contents from rfl, ← hfile] at hends
    exact .call hends (fun _ he => hunfit t₁ hle₁ he) fun _ u hle hu =>
      hentry u (le_trans hle₁ hle) hu

/-- The files when the arguments have been copied. -/
def addFiles (files : List ImageFile) (root : ImageFile) (fs : List Input) : List ImageFile :=
  (files ++ filesOf (files.length + 1) fs).set 0 (root.append (entriesOf (files.length + 1) fs))

theorem addFile_root :
    (addFile files root f)[0]? = some (root.append (direntBytes (f.entry (files.length + 1)))) := by
  unfold addFile
  rw [List.getElem?_set, if_pos rfl, if_pos]
  rw [List.length_append]
  exact Nat.succ_pos _

theorem addFile_length : (addFile files root f).length = files.length + 1 := by
  unfold addFile
  rw [List.length_set, List.length_append]
  rfl

theorem addFiles_nil (hroot : files[0]? = some root) : addFiles files root [] = files := by
  obtain ⟨hpos, rfl⟩ := List.getElem?_eq_some_iff.mp hroot
  unfold addFiles filesOf entriesOf ImageFile.append
  rw [List.append_nil, List.append_nil]
  exact List.set_getElem_self hpos

theorem addFiles_cons : addFiles files root (f :: fs) = addFiles (addFile files root f)
    (root.append (direntBytes (f.entry (files.length + 1)))) fs := by
  have hpos : 0 < (files ++ [f.file (files.length + 1)]).length := by
    rw [List.length_append]
    exact Nat.succ_pos _
  unfold addFiles
  rw [addFile_length, ImageFile.append_append]
  unfold addFile
  rw [← List.set_append_left _ _ hpos, List.set_set, List.append_assoc]
  rfl

theorem within_addFiles (hroot : files[0]? = some root) :
    Within files (addFiles files root fs) := by
  obtain ⟨hpos, -⟩ := List.getElem?_eq_some_iff.mp hroot
  refine (Within.append files _).trans (.set ?_)
  rw [List.getElem?_append_left hpos, hroot]

theorem copyAll_ends : ∀ {fs : List Input} {s : Maker} {files : List ImageFile} {root : ImageFile},
    Built s files → files[0]? = some root → HasSlot imageEnv (files.length + fs.length) →
    Ends (main.copyAll ROOTINO fs) s
      (fun _ t => (∀ f ∈ fs, f.Usable) ∧ Built t (addFiles files root fs))
      fun _ => Faulty s ∨ ¬ (∀ f ∈ fs, f.Usable) ∨ ¬ Fits (addFiles files root fs)
  | [], s, files, root, h, hroot, _ => by
    rw [addFiles_nil hroot]
    exact .pure ⟨fun f hf => absurd hf List.not_mem_nil, h⟩
  | f :: fs, s, files, root, h, hroot, hcount => by
    have hroot₁ : (addFile files root f)[0]? = some _ := addFile_root
    have hcount₁ : HasSlot imageEnv (files.length + 1) := by
      rw [hasSlot_iff, List.length_cons] at hcount
      rw [hasSlot_iff]
      omega
    have hlen : (addFile files root f).length + fs.length = files.length + (f :: fs).length := by
      rw [addFile_length, List.length_cons]
      omega
    rw [addFiles_cons]
    unfold main.copyAll
    refine .call (copy_ends h hroot hcount₁) (fun _ he => ?_) fun _ t hle ht => ?_
    · rcases he with hf | hu | hfits
      · exact .inl hf
      · exact .inr (.inl fun hall => hu (hall f List.mem_cons_self))
      · exact .inr (.inr fun hc => hfits ((within_addFiles hroot₁).fits hc))
    · obtain ⟨hu, h₁⟩ := ht
      refine (copyAll_ends h₁ hroot₁ (hlen ▸ hcount)).weaken (fun _ u _ hu' => ?_) fun _ he => ?_
      · exact ⟨fun g hg => (List.mem_cons.mp hg).elim (fun he => he ▸ hu) (hu'.1 g), hu'.2⟩
      · exact he.imp (fun hf => hf.of_le hle) fun he => he.imp_left fun hn hall =>
          hn fun g hg => hall g (List.mem_cons_of_mem _ hg)

/-! ## The whole program -/

theorem zeroes_ends : ∀ {n : Nat} {s : Maker}, s.image = (fun _ => Buf.zero) →
    s.nsect + n < 2 ^ 22 → Ends (main.zeroes n s.nsect) s (fun _ t => ∃ k, t = { s with
      accesses := k, nsect := s.nsect + n }) fun _ => Faulty s
  | 0, s, _, _ => .pure ⟨_, rfl⟩
  | n + 1, s, hzero, hlt => by
    unfold main.zeroes
    refine .call (wsect_ends _ (by omega)) (fun _ hf => hf) fun _ t hle ht => ?_
    obtain ⟨k, rfl⟩ := ht
    rw [max_eq_right (Nat.le_add_right _ 1)] at hle ⊢
    have hsame : Function.update s.image s.nsect Buf.zero = s.image := by
      rw [hzero]
      exact Function.update_eq_self_iff.mpr rfl
    rw [hsame] at hle ⊢
    refine (zeroes_ends (n := n) (s := { s with accesses := k, nsect := s.nsect + 1 }) hzero
      (by dsimp only; omega)).weaken (fun _ u _ hu => ?_) fun _ hf => hf.of_le hle
    obtain ⟨k', rfl⟩ := hu
    exact ⟨k', by dsimp only; rw [Nat.add_right_comm]; rfl⟩

/-- The size of the `k`-th file when the program is done: that of the root directory is rounded. -/
def finalSize (k : Nat) (f : ImageFile) : Nat :=
  if k = 0 then (f.bytes.length / BSIZE + 1) * BSIZE else f.bytes.length

theorem addr_size (di : Dinode) (size : UInt32) : Dinode.addr { di with size := size } = di.addr :=
  rfl

theorem fixRoot_ends (h : Built s files) (hroot : files[0]? = some root) :
    Ends (main.fixRoot ROOTINO) s (fun _ t => t.host = .little ∧ t.nsect = FSSIZE ∧
        t.freeblock = s.freeblock ∧ Stores finalSize t.image s.freeblock files)
      fun _ => Faulty s := by
  obtain ⟨hpos, -⟩ := List.getElem?_eq_some_iff.mp hroot
  have hkept : Kept s.image ROOTINO root root.bytes.length := h.stores.each 0 root hroot
  have hn : HasSlot imageEnv ROOTINO := h.stores.hasSlot hpos
  have hlen : root.bytes.length < 2 ^ 32 := lt_of_le_of_lt hkept.holds.length_le (by decide)
  have hA : addrsIn s.image files.length ROOTINO = some (slot imageEnv s.image ROOTINO).addr :=
    addrsIn_of (by decide) hpos
  have hsize := hkept.size_eq hlen
  have hholds := hkept.holds
  obtain ⟨raw, hslot⟩ := hkept.dinode
  unfold main.fixRoot
  refine .call (rinode_ends h.host h.nsect hn) (fun _ hf => hf) fun din t₁ hle₁ ht₁ => ?_
  obtain ⟨rfl, k₁, rfl⟩ := ht₁
  rw [hsize]
  generalize slot imageEnv s.image ROOTINO = din at hA hslot hholds ⊢
  refine (winode_ends (s := s.accessed k₁) h.host h.nsect hn _).weaken (fun _ t _ ht => ?_)
    fun _ hf => hf.of_le hle₁
  obtain ⟨k₂, rfl⟩ := ht
  refine ⟨h.host, h.nsect, rfl, h.stores.write h.stores.count hroot (fun _ _ => rfl)
    (fun j f hj => if_neg hj) (fun _ _ => rfl) (.refl _ _ _) ?_ ⟨raw, ?_⟩
    (by rwa [addr_size]) h.stores.cost h.stores.room⟩
  · rw [addr_size]
    exact (update_some_self hA).symm ▸ h.stores.laid
  · rw [hslot, show finalSize 0 root = (root.bytes.length / BSIZE + 1) * BSIZE from if_pos rfl]

/-- Storing in the bitmap block. -/
theorem Stores.bitmap {size : Nat → ImageFile → Nat} {d d' : Disk} {fb : Nat}
    (h : Stores size d fb files) (hsame : ∀ b, b ≠ 45 → d' b = d b) : Stores size d' fb files := by
  have hslot : ∀ n, HasSlot imageEnv n → slot imageEnv d' n = slot imageEnv d n := fun n hn => by
    unfold slot
    rw [hsame _ (inodeBlock_lt_nmeta hn).ne]
  have hbehind : ∀ b, nmeta ≤ b → d' b = d b := fun b hb =>
    hsame b (lt_of_lt_of_le (by decide) hb).ne'
  obtain ⟨hlaid, hdata⟩ := h.laid.congr hbehind
  have haddrs : addrsIn d' files.length = addrsIn d files.length := by
    funext m
    unfold addrsIn
    by_cases hm : 0 < m ∧ m ≤ files.length
    · rw [if_pos hm, if_pos hm, hslot m (h.hasSlot hm.2)]
    · rw [if_neg hm, if_neg hm]
  refine ⟨(hsame 0 (by decide)).trans h.super, h.count, fun k f hf => ?_,
    fun n hn hfree => (hslot n hn).trans (h.free n hn hfree), haddrs ▸ hlaid, h.cost, h.room⟩
  obtain ⟨hk, -⟩ := List.getElem?_eq_some_iff.mp hf
  exact (h.each k f hf).congr (hslot _ (h.hasSlot hk))
    (hdata (k + 1) _ (addrsIn_of (Nat.succ_pos k) hk))

/-- The image of the arguments: their files, and the bits of the blocks that were handed out. -/
def Imaged (d : Disk) (args : List Input) : Prop :=
  ∃ freeblock, Stores finalSize d freeblock (imageFiles args) ∧
    d 45 = balloc.mark freeblock 0 Buf.zero

theorem slot_zero (n : Nat) {d : Disk} (h : d (inodeBlock imageEnv n) = Buf.zero) :
    slot imageEnv d n = Dinode.zero := by
  unfold slot Block.dinode
  rw [h]
  simp only [Buf.readNum_zero]
  rfl

theorem stores_nil {d : Disk} (hsuper : d 0 = superblockSector .little)
    (hzero : ∀ b, b ≠ 0 → d b = Buf.zero) :
    Stores (fun _ f => f.bytes.length) d nmeta [] where
  super := hsuper
  count := hasSlot_iff.mpr (by decide)
  each k f hf := by cases hf
  free n hn _ := by
    refine slot_zero n (hzero _ ?_)
    rw [hn.block_eq imageEnv_sound, imageEnv_info]
    exact (Nat.add_pos_left (by decide) _).ne'
  laid := by
    have hnone : ∀ p, owns d (addrsIn d ([] : List ImageFile).length) p = none := fun p => by
      unfold owns
      rw [show addrsIn d ([] : List ImageFile).length p.1 = none from
        if_neg fun hc => absurd hc.1 (not_lt.mpr hc.2)]
      rfl
    refine ⟨⟨fun {i b} h => ?_, fun {i j b} h _ => ?_⟩,
      fun b hb => absurd hb.2 (not_lt.mpr hb.1),
      fun b hb => hzero b (lt_of_lt_of_le (by decide) hb).ne', le_rfl⟩
    · rw [hnone i] at h
      cases h
    · rw [hnone i] at h
      cases h
  cost := rfl
  room := by decide

theorem balloc_ends {used : Nat} (hhost : s.host = .little) (hused : used < BPB) :
    Ends (balloc used) s (fun _ t => t.image =
      Function.update s.image 45 (balloc.mark used 0 Buf.zero)) fun _ => Faulty s := by
  unfold balloc assert
  rw [if_pos hused]
  refine .bind (Q := fun _ t => s = t) (.pure rfl) fun _ t _ ht => .get_bind ?_
  obtain rfl := ht
  have hstart : (superblock s.host).bmapstart = 45 := by
    rw [hhost]
    exact congrArg FsInfo.bmapstart imageEnv_info
  rw [hstart]
  refine (wsect_ends _ (by decide)).weaken (fun _ t _ ht => ?_) fun _ hf => hf
  obtain ⟨k, rfl⟩ := ht
  rfl

/-- Up to the super block. -/
theorem start_ends {α : Type} {m : Mk α} {Q : α → Maker → Prop} {E : Stop → Prop} {sys : Nat → Bool}
    (hE : ∀ e, Faulty (Maker.start .little sys) → E e)
    (hm : ∀ t, Maker.start .little sys ≤ t → Built t [] → Ends m t Q E) :
    Ends (do
      access
      Prog.step (fun s => ((), { s with freeblock := nmeta })) fun _ => ⟨rfl, rfl⟩
      main.zeroes FSSIZE 0
      wsect 0 (superblockSector (← Prog.get).host)
      m) (Maker.start .little sys) Q E := by
  refine .call (access_ends _) hE fun _ t₁ hle₁ ht₁ => ?_
  obtain ⟨k₁, rfl⟩ := ht₁
  refine .bind (Q := fun _ t => t =
    { (Maker.start .little sys).accessed k₁ with freeblock := nmeta }) (.step rfl)
    fun _ t₂ hle₂ ht₂ => ?_
  obtain rfl := ht₂
  have hle := le_trans hle₁ hle₂
  refine .call (zeroes_ends (n := FSSIZE)
    (s := { (Maker.start .little sys).accessed k₁ with freeblock := nmeta }) rfl
    (show 0 + FSSIZE < 2 ^ 22 by decide))
    (fun e hf => hE e (hf.of_le hle)) fun _ t₃ hle₃ ht₃ => ?_
  obtain ⟨k₃, rfl⟩ := ht₃
  have hle' := le_trans hle hle₃
  refine .get_bind (.call (wsect_ends _ (by decide)) (fun e hf => hE e (hf.of_le hle'))
    fun _ t₄ hle₄ ht₄ => hm t₄ (le_trans hle' hle₄) ?_)
  obtain ⟨k₄, rfl⟩ := ht₄
  refine ⟨rfl, show max (0 + FSSIZE) (0 + 1) = FSSIZE by decide, rfl, stores_nil
    (d := Function.update (fun _ => Buf.zero) 0 (superblockSector .little))
    (Function.update_self _ _ _) fun b hb => Function.update_of_ne hb _ _⟩

theorem main_ends {args : List Input} {sys : Nat → Bool}
    (hcount : HasSlot imageEnv (args.length + 1)) :
    Ends (main args) (Maker.start .little sys)
      (fun _ t => (∀ f ∈ args, f.Usable) ∧ Imaged t.image args)
      fun _ => Faulty (Maker.start .little sys) ∨ ¬ (∀ f ∈ args, f.Usable) ∨
        ¬ Fits (imageFiles args) := by
  unfold main
  refine start_ends (fun _ hf => .inl hf) fun t hle h => ?_
  refine .call (ialloc_ends h (hasSlot_iff.mpr (by decide)) T_DIR)
    (fun _ hf => .inl (hf.of_le hle)) fun rootino t₁ hle₁ ht₁ => ?_
  obtain ⟨rfl, h₁⟩ := ht₁
  replace hle₁ := le_trans hle hle₁
  refine .bind (Q := fun _ t => t₁ = t) (.pure rfl) fun _ t₂ _ ht₂ => ?_
  obtain rfl := ht₂
  -- the root directory
  generalize hroot : (⟨T_DIR, dotsBytes ROOTINO ROOTINO⟩ : ImageFile) = root
  have hfinal : addFiles [root] root args = imageFiles args := by
    rw [← hroot]
    rfl
  have hdots := dots_ends ROOTINO h₁ (k := 0) rfl
  have hset : ([] ++ [(⟨T_DIR, []⟩ : ImageFile)]).set 0
      (ImageFile.append ⟨T_DIR, []⟩ (dotsBytes (0 + 1) ROOTINO)) = [root] := by
    rw [← hroot]
    rfl
  rw [hset] at hdots
  have hwithin : Within [root] (imageFiles args) := by
    rw [← hfinal]
    exact within_addFiles rfl
  refine .call hdots (fun _ he => ?_) fun _ t₂ hle₂ h₂ => ?_
  · exact he.imp (fun hf => hf.of_le hle₁) fun hn => .inr fun hfits => hn (hwithin.fits hfits)
  replace hle₂ := le_trans hle₁ hle₂
  have hall : Ends (main.copyAll ROOTINO args) _ _ _ :=
    copyAll_ends h₂ rfl (by rwa [Nat.add_comm] at hcount)
  rw [hfinal] at hall
  refine .call hall (fun _ he => he.imp_left fun hf => hf.of_le hle₂) fun _ t₃ hle₃ ht₃ => ?_
  obtain ⟨hu, h₃⟩ := ht₃
  replace hle₃ := le_trans hle₂ hle₃
  refine .call (fixRoot_ends h₃ rfl) (fun _ hf => .inl (hf.of_le hle₃)) fun _ t₄ hle₄ h₄ => ?_
  obtain ⟨hhost, -, hfb, hstores⟩ := h₄
  replace hle₄ := le_trans hle₃ hle₄
  rw [← hfb] at hstores
  refine .get_bind ((balloc_ends hhost (lt_of_le_of_lt hstores.room (by decide))).weaken
    (fun _ t₅ _ ht₅ => ⟨hu, t₄.freeblock, ?_, ?_⟩) fun _ hf => .inl (hf.of_le hle₄))
  · rw [ht₅]
    exact hstores.bitmap fun b hb => Function.update_of_ne hb _ _
  · rw [ht₅, Function.update_self]

theorem image_eq_some {host : ByteOrder} {sys : Nat → Bool} {args : List Input} {d : Disk} :
    image host sys args = some d ↔
      ∃ s, (main args).run (Maker.start host sys) = .ok ((), s) ∧ s.image = d := by
  unfold image
  constructor
  · intro h
    cases hrun : (main args).run (Maker.start host sys) with
    | ok r =>
      rw [hrun] at h
      exact ⟨r.2, rfl, Option.some.inj h⟩
    | error e =>
      rw [hrun] at h
      cases h
  · rintro ⟨s, hrun, rfl⟩
    rw [hrun]

theorem image_imaged {args : List Input} {sys : Nat → Bool} {d : Disk}
    (hcount : args.length + 1 < 208) (h : image .little sys args = some d) :
    (∀ f ∈ args, f.Usable) ∧ Imaged d args := by
  obtain ⟨s, hrun, rfl⟩ := image_eq_some.mp h
  exact (main_ends (hasSlot_iff.mpr hcount)).returned hrun

theorem image_made {args : List Input} {sys : Nat → Bool} (hsys : ∀ n, sys n = true)
    (hcount : args.length + 1 < 208) (hu : ∀ f ∈ args, f.Usable) (hfits : Fits (imageFiles args)) :
    ∃ d, image .little sys args = some d := by
  have hends : Ends (main args) (Maker.start .little sys) _ _ := main_ends (hasSlot_iff.mpr hcount)
  obtain ⟨_, s, hrun, -⟩ := hends.returns fun _ he => by
    rcases he with ⟨n, hn⟩ | hu' | hfits'
    · exact Bool.noConfusion (hn.symm.trans (hsys n))
    · exact hu' hu
    · exact hfits' hfits
  exact ⟨_, image_eq_some.mpr ⟨s, hrun, rfl⟩⟩

/-- When no access to the image fails, the program exits with status 0 exactly when every argument
    can be used and the files fit. -/
theorem main_exits_iff {args : List Input} {sys : Nat → Bool} (hsys : ∀ n, sys n = true)
    (hcount : args.length + 1 < 208) : (∃ d, image .little sys args = some d) ↔
      (∀ f ∈ args, f.Usable) ∧ Fits (imageFiles args) := by
  constructor
  · rintro ⟨d, hd⟩
    obtain ⟨hu, fb, hstores, -⟩ := image_imaged hcount hd
    exact ⟨hu, hstores.fits⟩
  · rintro ⟨hu, hfits⟩
    exact image_made hsys hcount hu hfits

/-- A directory and a file of three bytes that comes in two parts. -/
def libAndHello : List Input :=
  [⟨[0x6c, 0x69, 0x62], true, true, true, []⟩,
    ⟨[0x75, 0x73, 0x65, 0x72, 0x2f, 0x5f, 0x68, 0x69], true, true, false,
      [⟨[0x68, 0x69], by decide, by decide⟩, ⟨[0x0a], by decide, by decide⟩]⟩]

theorem libAndHello_usable : ∀ f ∈ libAndHello, f.Usable := by
  intro f hf
  rcases List.mem_cons.mp hf with rfl | hf
  · exact ⟨by decide, rfl, by decide, rfl⟩
  · rw [List.mem_singleton.mp hf]
    exact ⟨by decide, rfl, by decide, rfl⟩

theorem libAndHello_fits : Fits (imageFiles libAndHello) where
  each := by decide
  room := by decide

theorem main_exits_libAndHello : ∃ d, image .little (fun _ => true) libAndHello = some d :=
  (main_exits_iff (fun _ => rfl) (by decide)).mpr ⟨libAndHello_usable, libAndHello_fits⟩

end

end Xv6fs.Mkxv6
