/-
  Files of an image that are read back.

  On a mounted image a lookup in the root directory finds the inode of every argument whose number
  is below the number of inodes, and a read of it gives the bytes of the argument
  (`image_read_back`). The program does not compare the numbers it gives with the number of inodes:
  a lookup of an argument from the 199th on stops the kernel (`lookup_returns_iff`).
-/
import Xv6fs.File.Read
import Xv6fs.Mkxv6.Names

namespace Xv6fs.Mkxv6

section

variable {d : Disk} {env : Env} {args : List Input} {sys : Nat → Bool} {w : World} {f : Input}
  {i : Nat}

/-- An image that has just been mounted, and nothing fails any more. -/
structure JustMounted (args : List Input) (w : World) : Prop where
  count : args.length + 1 < 208
  usable : ∀ f ∈ args, f.Usable
  imaged : Imaged w.disk args
  quiet : Quiet w.env
  memory : ∀ k, w.env.mem k = true
  info : w.env.info = imageEnv.info
  tree : w.tree = [0]
  next : w.next = 1
  root : w.inodes 0 = w.loadedInode ROOTINO
  type : (slot w.env w.disk ROOTINO).type = T_DIR

theorem justMounted (hcount : args.length + 1 < 208) (h : image .little sys args = some d)
    (hq : Quiet env) (hmem : ∀ k, env.mem k = true)
    (hm : xv6FillSuper (World.unmounted env d) = .ok ((0, some 0), w)) : JustMounted args w := by
  have hmount := fillSuper_mounted hm
  obtain ⟨htree, hnext, htype, hroot⟩ := fillSuper_core hm
  obtain ⟨hu, himaged⟩ := image_imaged hcount h
  have henv := hmount.env
  have hinfo := himaged.info
  refine ⟨hcount, hu, ?_, ?_, ?_, ?_, htree, hnext, hroot, htype⟩
  · rwa [hmount.disk]
  · intro k
    rw [henv]
    exact hq k
  · intro k
    rw [henv]
    exact hmem k
  · rw [henv, ← hinfo]

namespace JustMounted

variable (h : JustMounted args w)

include h

theorem slot_eq (k : Nat) : slot w.env w.disk k = slot imageEnv w.disk k := slot_info h.info k

theorem type_arg (hf : args[i]? = some f) :
    (slot w.env w.disk (i + 2)).type = if f.isdir then T_DIR else T_FILE := by
  obtain ⟨htype, -⟩ := h.imaged.file (imageFiles_get hf)
  rw [h.slot_eq]
  refine htype.trans ?_
  unfold Input.file
  split <;> rfl

/-- The inode of an argument that is a file. -/
theorem slot_arg (hf : args[i]? = some f) (hreg : f.isdir = false) :
    (slot w.env w.disk (i + 2)).size.toNat = f.contents.length ∧
      f.contents.length ≤ MAXFILE * BSIZE ∧ ∀ x, x < MAXFILE * BSIZE →
        fbyte w.disk (slot w.env w.disk (i + 2)).addr x = f.contents.getD x 0 := by
  obtain ⟨-, -, hsize, hlen, hbytes⟩ := h.imaged.file (imageFiles_get hf)
  have hfile : f.file (i + 2) = ⟨T_FILE, f.contents⟩ := if_neg (by rw [hreg]; decide)
  rw [hfile] at hsize hlen hbytes
  rw [h.slot_eq]
  exact ⟨hsize.trans (if_neg (Nat.succ_ne_zero i)), hlen, hbytes⟩

/-- The inode of argument `i` is loaded. -/
theorem iget_arg (hf : args[i]? = some f) (hi : i + 2 < NINODES) (l : List Event) : ∃ l',
    Returns (xv6Iget (i + 2)) { w with log := l } (.ok w.next) { w with
      inodes := Function.update w.inodes w.next (w.loadedInode (i + 2))
      tree := w.next :: w.tree
      next := w.next + 1
      log := l' } := by
  have hnodir : ∀ p ∈ w.tree, (w.inodes p).ino ≠ i + 2 := by
    intro p hp
    rw [h.tree, List.mem_singleton] at hp
    rw [hp, h.root]
    exact Nat.ne_of_lt (show ROOTINO < i + 2 by unfold ROOTINO; omega)
  have htypes : (slot w.env w.disk (i + 2)).type = T_DIR ∨
      (slot w.env w.disk (i + 2)).type = T_FILE ∨ (slot w.env w.disk (i + 2)).type = T_DEVICE := by
    rw [h.type_arg hf]
    split
    · exact .inl rfl
    · exact .inr (.inl rfl)
  exact xv6Iget_loads (w := { w with log := l }) h.quiet h.memory (Nat.succ_ne_zero (i + 1))
    (by rw [h.info, imageEnv_info]; exact hi) hnodir htypes

/-- A read of argument `i` gives its bytes. -/
theorem read_arg {w' : World} {q : Ptr} {mem : UserMem} {len pos : Nat} (hf : args[i]? = some f)
    (hreg : f.isdir = false) (henv : w'.env = w.env) (hdisk : w'.disk = w.disk)
    (hcore : w'.inodes q = w.loadedInode (i + 2))
    (hwritable : ∀ j, j < len → mem.writable j = true) (hpos : pos ≤ f.contents.length) :
    ∃ n mem' l, n = min len (f.contents.length - pos) ∧
      Returns (xv6FileRead q mem len pos) w' ((n : Int), pos + n, mem') { w' with log := l } ∧
      ∀ j, j < n → mem'.byte j = f.contents.getD (pos + j) 0 := by
  obtain ⟨hsize, hlen, hbytes⟩ := h.slot_arg hf hreg
  have hsize' : (w'.inodes q).size = f.contents.length := by
    rw [hcore]
    exact hsize
  have haddrs : w'.addrs q = (slot w.env w.disk (i + 2)).addr :=
    World.addrs_of_priv (by rw [hcore]; rfl)
  have hreads : ReadsSlice w' q mem len pos := fileRead_slice
    (by rw [henv]; exact h.quiet) (by rw [hcore]; exact Nat.succ_ne_zero (i + 1))
    (by rw [hsize']; exact hlen) hwritable (by rw [hsize']; exact hpos)
  obtain ⟨n, mem', l₂, hn, hread, hslice, -⟩ := hreads
  rw [hsize'] at hn
  refine ⟨n, mem', l₂, hn, hread, fun j hj => ?_⟩
  rw [hslice j hj, haddrs, hdisk]
  exact hbytes _ (by omega)

/-! ## Names -/

variable (hnames : WellNamed args)

include hnames

theorem dirAt : DirAt w 0 (slot imageEnv w.disk ROOTINO).addr
    (slot imageEnv w.disk ROOTINO).size.toNat := by
  have htype := h.type
  rw [h.slot_eq] at htype
  have hroot := h.root
  unfold World.loadedInode at hroot
  rw [h.slot_eq] at hroot
  refine ⟨?_, ?_, ?_, (h.imaged.rootDir h.count h.usable hnames).1.le⟩
  · rw [hroot]
    exact if_pos htype
  · rw [hroot]
    rfl
  · rw [hroot]
    rfl

/-- The search of the root directory gives the number of the argument, if there is one. -/
theorem find (n : EntryName) : ∃ k de l, Returns (xv6FindInum 0 n.name) w (0, k, de)
      { w with log := l } ∧
    ((k ≠ 0 ∧ ∃ i f, args[i]? = some f ∧ imageName f.path = n.name ∧
        de.inum.toNat = i + 2) ∨
      (k = 0 ∧ ∀ f ∈ args, imageName f.path ≠ n.name)) := by
  obtain ⟨hvalid, hmap⟩ := h.imaged.rootDir h.count h.usable hnames
  obtain ⟨⟨e, k, de⟩, w', hret⟩ : ∃ r w', Returns (xv6FindInum 0 n.name) w r w' :=
    (h.dirAt hnames).find_returns hvalid
  obtain ⟨rfl, ⟨l, rfl⟩, hfound⟩ := (h.dirAt hnames).find_map hvalid (hret.calm h.quiet)
  refine ⟨k, de, l, hret, ?_⟩
  rcases hfound with ⟨hk, hsome⟩ | ⟨hk, hnone⟩
  · obtain ⟨i, f, hf, hname, hnum⟩ := (hmap n _).mp hsome
    obtain ⟨hi, -⟩ := List.getElem?_eq_some_iff.mp hf
    refine .inl ⟨hk, i, f, hf, hname, ?_⟩
    have hcount := h.count
    rw [hnum]
    exact UInt16.toNat_ofNat_of_lt' (by show i + 2 < 2 ^ 16; omega)
  · refine .inr ⟨hk, fun f hf hname => ?_⟩
    obtain ⟨i, hi⟩ := List.mem_iff_getElem?.mp hf
    rw [(hmap n _).mpr ⟨i, f, hi, hname, rfl⟩] at hnone
    cases hnone

/-- The search for the name of argument `i`. -/
theorem find_arg (hf : args[i]? = some f) : ∃ k de l,
    Returns (xv6FindInum 0 (imageName f.path)) w (0, k, de) { w with log := l } ∧ k ≠ 0 ∧
      de.inum.toNat = i + 2 := by
  have hmem := List.mem_of_getElem? hf
  have hnodup := hnames.nodup
  have hin : imageName f.path ∈ args.map fun f => imageName f.path :=
    List.mem_map.mpr ⟨f, hmem, rfl⟩
  unfold rootNames at hnodup
  rw [List.nodup_cons, List.nodup_cons] at hnodup
  obtain ⟨hdot, hdotdot, hdistinct⟩ := hnodup
  have hdots : ¬ (imageName f.path = dot ∨ imageName f.path = dotdot) := by
    rintro (hc | hc)
    · exact hdot (List.mem_cons_of_mem _ (hc ▸ hin))
    · exact hdotdot (hc ▸ hin)
  obtain ⟨k, de, l, hret, hfound⟩ :=
    h.find hnames ⟨_, hnames.ok f hmem, (h.usable f hmem).short, hdots⟩
  rcases hfound with ⟨hk, j, g, hg, hname, hnum⟩ | ⟨-, hnone⟩
  · refine ⟨k, de, l, hret, hk, ?_⟩
    have hget : (args.map fun f => imageName f.path)[j]? =
        (args.map fun f => imageName f.path)[i]? := by
      rw [List.getElem?_map, List.getElem?_map, hg, hf]
      exact congrArg some hname
    obtain ⟨hj, -⟩ := List.getElem?_eq_some_iff.mp hg
    rw [hnum, (List.getElem?_inj (by rwa [List.length_map]) hdistinct).mp hget]
  · exact absurd rfl (hnone f hmem)

/-- A lookup loads the inode of argument `i`. -/
theorem lookup_arg (hf : args[i]? = some f) (hi : i + 2 < NINODES) : ∃ w',
    Returns (xv6Lookup 0 (imageName f.path)) w (.ok (some w.next)) w' ∧
      w'.tree = w.next :: w.tree ∧ w'.env = w.env ∧ w'.disk = w.disk ∧
      w'.inodes w.next = w.loadedInode (i + 2) := by
  obtain ⟨k, de, l, hfind, hk, hnum⟩ := h.find_arg hnames hf
  obtain ⟨l', hload⟩ := h.iget_arg hf hi l
  refine ⟨{ w with
    inodes := Function.update w.inodes w.next (w.loadedInode (i + 2))
    tree := w.next :: w.tree, next := w.next + 1, log := l' }, ?_, rfl, rfl, rfl,
    Function.update_self _ _ _⟩
  simp only [xv6Lookup, returns_bind hfind]
  rw [if_neg hk, if_neg (not_not.mpr rfl), hnum]
  refine (runs_bind_assert _ _).mpr ⟨Nat.succ_ne_zero (i + 1), (returns_bind hload).mpr ?_⟩
  exact (Prog.via_pure _ _ _ _).mpr ⟨rfl, rfl⟩

end JustMounted

/-- On a mounted image a lookup finds the inode of an argument, and a read gives its bytes. -/
theorem image_read_back (hcount : args.length + 1 < 208) (himage : image .little sys args = some d)
    (hnames : WellNamed args) (hq : Quiet env) (hmem : ∀ k, env.mem k = true)
    (hm : xv6FillSuper (World.unmounted env d) = .ok ((0, some 0), w)) (hf : args[i]? = some f)
    (hi : i + 2 < NINODES) :
    ∃ q w', Returns (xv6Lookup 0 (imageName f.path)) w (.ok (some q)) w' ∧
      (w'.inodes q).ino = i + 2 ∧ (w'.inodes q).fmt = (if f.isdir then .dir else .reg) ∧
      (f.isdir = false → (w'.inodes q).size = f.contents.length ∧
        ∀ mem len pos, (∀ j, j < len → mem.writable j = true) → pos ≤ f.contents.length →
          ∃ n mem' l, n = min len (f.contents.length - pos) ∧
            Returns (xv6FileRead q mem len pos) w' ((n : Int), pos + n, mem')
              { w' with log := l } ∧
            ∀ j, j < n → mem'.byte j = f.contents.getD (pos + j) 0) := by
  have h := justMounted hcount himage hq hmem hm
  obtain ⟨w', hlookup, -, henv, hdisk, hcore⟩ := h.lookup_arg hnames hf hi
  refine ⟨w.next, w', hlookup, ?_, ?_, fun hreg => ?_⟩
  · rw [hcore]
    rfl
  · rw [hcore]
    show (if (slot w.env w.disk (i + 2)).type = T_DIR then Fmt.dir else Fmt.reg) = _
    rw [h.type_arg hf]
    cases f.isdir <;> rfl
  refine ⟨?_, fun mem len pos hwritable hpos =>
    h.read_arg hf hreg henv hdisk hcore hwritable hpos⟩
  rw [hcore]
  exact (h.slot_arg hf hreg).1

theorem libAndHello_mounted : ∃ d w, image .little (fun _ => true) libAndHello = some d ∧
    xv6FillSuper (World.unmounted (Env.calm .little) d) = .ok ((0, some 0), w) := by
  obtain ⟨d, hd⟩ := libAndHello_made
  have hq : Quiet (Env.calm .little) := fun _ => rfl
  obtain ⟨w, hw⟩ := (image_imaged (by decide) hd).2.mounts (by decide) hq fun _ => rfl
  exact ⟨d, w, hd, hw⟩

/-- The three bytes of the file. -/
theorem image_read_back_hello : ∃ w q w' mem' l,
    Returns (xv6Lookup 0 [0x68, 0x69]) w (.ok (some q)) w' ∧
    Returns (xv6FileRead q ⟨fun _ => true, fun _ => 0⟩ 8 0) w' (3, 3, mem') { w' with log := l } ∧
    mem'.byte 0 = 0x68 ∧ mem'.byte 1 = 0x69 ∧ mem'.byte 2 = 0x0a := by
  obtain ⟨d, w, hd, hw⟩ := libAndHello_mounted
  obtain ⟨q, w', hlookup, -, -, hfile⟩ := image_read_back (by decide) hd libAndHello_wellNamed
    (fun _ => rfl) (fun _ => rfl) hw (i := 1) rfl (by decide)
  obtain ⟨-, hread⟩ := hfile rfl
  obtain ⟨n, mem', l, rfl, hret, hbytes⟩ :=
    hread ⟨fun _ => true, fun _ => 0⟩ 8 0 (fun _ _ => rfl) (by decide)
  exact ⟨w, q, w', mem', l, hlookup, hret, hbytes 0 (by decide), hbytes 1 (by decide),
    hbytes 2 (by decide)⟩

/-- A lookup returns unless it finds an argument whose number is out of range. -/
theorem lookup_returns_iff (hcount : args.length + 1 < 208)
    (himage : image .little sys args = some d) (hnames : WellNamed args) (hq : Quiet env)
    (hmem : ∀ k, env.mem k = true)
    (hm : xv6FillSuper (World.unmounted env d) = .ok ((0, some 0), w)) (n : EntryName) :
    (∃ r w', Returns (xv6Lookup 0 n.name) w r w') ↔
      ∀ i f, args[i]? = some f → imageName f.path = n.name → i + 2 < NINODES := by
  have h := justMounted hcount himage hq hmem hm
  have hninodes : w.env.info.ninodes = NINODES := by
    rw [h.info, imageEnv_info]
    rfl
  constructor
  · rintro ⟨r, w', hret⟩ i f hf hname
    obtain ⟨k, de, l, hfind, hk, hnum⟩ := h.find_arg hnames hf
    rw [hname] at hfind
    simp only [xv6Lookup, returns_bind hfind] at hret
    rw [if_neg hk, if_neg (not_not.mpr rfl), hnum] at hret
    obtain ⟨r', w₁, hget, -⟩ := ((runs_bind_assert _ _).mp hret).2.bind
    rw [← hninodes]
    exact (xv6Iget_spec hget).2.1
  · intro hall
    obtain ⟨k, de, l, hfind, ⟨hk, i, f, hf, hname, hnum⟩ | ⟨hk, -⟩⟩ := h.find hnames n
    · obtain ⟨r, w₁, hget⟩ := xv6Iget_returns (w := { w with log := l })
        (Nat.succ_ne_zero (i + 1)) (by rw [hninodes]; exact hall i f hf hname)
      simp only [xv6Lookup, returns_bind hfind]
      rw [if_neg hk, if_neg (not_not.mpr rfl), hnum]
      cases r with
      | error e =>
        exact ⟨_, _, (runs_bind_assert _ _).mpr
          ⟨Nat.succ_ne_zero (i + 1), (returns_bind hget).mpr (returns_iff.mpr rfl)⟩⟩
      | ok p =>
        exact ⟨_, _, (runs_bind_assert _ _).mpr
          ⟨Nat.succ_ne_zero (i + 1), (returns_bind hget).mpr (returns_iff.mpr rfl)⟩⟩
    · exact ⟨_, _, lookup_none (hk ▸ hfind)⟩

theorem lookup_returns_libAndHello : ∃ w r w', Returns (xv6Lookup 0 [0x68, 0x69]) w r w' := by
  obtain ⟨d, w, hd, hw⟩ := libAndHello_mounted
  have hiff := lookup_returns_iff (by decide) hd libAndHello_wellNamed (fun _ => rfl)
    (fun _ => rfl) hw ⟨[0x68, 0x69], ⟨by simp, by simp⟩, by decide, by decide⟩
  obtain ⟨r, w', hret⟩ := hiff.mpr fun i f hf _ => by
    have hi := (List.getElem?_eq_some_iff.mp hf).1
    exact lt_of_lt_of_le (Nat.add_lt_add_right hi 2) (by decide)
  exact ⟨w, r, w', hret⟩

end

end Xv6fs.Mkxv6
