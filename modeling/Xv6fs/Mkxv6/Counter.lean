/-
  The counter of blocks, and images that are made on a big-endian host.

  On every host the counter stays between the first data block and the end of the image, since a
  block that is handed out is read before the next one is (`main_counted`).

  The super block holds the layout in little-endian order, and the program uses two members as the
  host reads them. On a big-endian host `bmapstart * BSIZE` is a multiple of 2^32, so the bitmap is
  written to sector 0, over the super block, and the image never mounts (`big_endian_unmountable`).
-/
import Xv6fs.Mkxv6.Mounted

namespace Xv6fs.Mkxv6

open Prog (Ends)

/-- The sector that `winode` writes. -/
def inodeSector (host : ByteOrder) (inum : Nat) : Nat := sector (IBLOCK inum (superblock host))

/-- The image has all its sectors, the counter of blocks is in the data area or at its end, and `k`
    is the next inode number. -/
structure Counted (k : Nat) (s : Maker) : Prop where
  nsect : s.nsect = FSSIZE
  ge : nmeta ≤ s.freeblock
  le : s.freeblock ≤ FSSIZE
  number : s.freeinode = k

/-- Block `x` may be one that has been handed out since. -/
structure Handed (k x : Nat) (s : Maker) : Prop where
  nsect : s.nsect = FSSIZE
  ge : nmeta ≤ s.freeblock
  le : s.freeblock ≤ FSSIZE ∨ s.freeblock = x + 1 ∧ x < 2 ^ 22
  number : s.freeinode = k

/-- A run keeps the counter of blocks in its range, and hands out no inode. -/
abbrev Counts {α : Type} (k : Nat) (m : Mk α) (s : Maker) : Prop :=
  Ends m s (fun _ t => Counted k t) fun _ => True

section

variable {s t : Maker} {k x : Nat}

theorem Counted.handed (h : Counted k s) : Handed k x s := ⟨h.nsect, h.ge, .inl h.le, h.number⟩

/-! ## Sectors -/

/-- On a big-endian host `inodestart * BSIZE` is a multiple of 2^32. -/
theorem inodeSector_eq (host : ByteOrder) {inum : Nat} (h : inum ≤ 2 ^ 15) :
    inodeSector host inum = inum / IPB + if host = .little then 32 else 0 := by
  have hstart : (superblock host).inodestart = if host = .little then 32 else 2 ^ 29 := by
    cases host <;> decide
  unfold inodeSector sector IBLOCK
  rw [hstart]
  unfold IPB BSIZE
  split <;> omega

/-- A block that can be read is in the image. -/
theorem rsect_handed (h : Handed k x s) :
    Ends (rsect x) s (fun _ t => Counted k t ∧ sector x < t.nsect) fun _ => True := by
  refine (rsect_sector x).weaken (fun _ t _ ht => ?_) fun _ _ => trivial
  obtain ⟨-, hin, l, rfl⟩ := ht
  have hend := h.nsect
  refine ⟨⟨h.nsect, h.ge, ?_, h.number⟩, hin⟩
  show s.freeblock ≤ FSSIZE
  rcases h.le with hle | ⟨hx, hlt⟩
  · exact hle
  · rw [sector_eq hlt] at hin
    omega

theorem rsect_counted (h : Counted k s) (sec : Nat) :
    Ends (rsect sec) s (fun _ t => Counted k t ∧ sector sec < t.nsect) fun _ => True :=
  rsect_handed h.handed

/-- A sector in the image is written. -/
theorem wsect_keeps {sec : Nat} (hin : sector sec < s.nsect) (buf : Block) :
    Ends (wsect sec buf) s (fun _ t => t.nsect = s.nsect ∧ t.freeblock = s.freeblock ∧
      t.freeinode = s.freeinode) fun _ => True := by
  refine (wsect_sector sec buf).weaken (fun _ t _ ht => ?_) fun _ _ => trivial
  obtain ⟨l, rfl⟩ := ht
  exact ⟨max_eq_left (Nat.succ_le_of_lt hin), rfl, rfl⟩

theorem wsect_counted (h : Counted k s) {sec : Nat} (hin : sector sec < s.nsect) (buf : Block) :
    Counts k (wsect sec buf) s := by
  refine (wsect_keeps hin buf).weaken (fun _ t _ ht => ?_) fun _ hE => hE
  obtain ⟨hnsect, hblock, hnumber⟩ := ht
  exact ⟨hnsect.trans h.nsect, hblock ▸ h.ge, hblock ▸ h.le, hnumber.trans h.number⟩

/-- An inode that is written lies in the image. -/
theorem winode_inside (h : Counted k s) (inum : Nat) (di : Dinode) : Ends (winode inum di) s
    (fun _ t => Counted k t ∧ inodeSector s.host inum < FSSIZE) fun _ => True := by
  unfold winode
  refine .get_bind (.bind (rsect_counted h _) fun buf t _ ht => ?_)
  refine (wsect_counted ht.1 ht.2 _).weaken (fun _ u _ hu => ⟨hu, ?_⟩) fun _ hE => hE
  rw [← ht.1.nsect]
  exact ht.2

theorem winode_counted (h : Counted k s) (inum : Nat) (di : Dinode) :
    Counts k (winode inum di) s :=
  (winode_inside h inum di).weaken (fun _ _ _ ht => ht.1) fun _ hE => hE

theorem rinode_counted (h : Counted k s) (inum : Nat) : Counts k (rinode inum) s := by
  unfold rinode
  exact .get_bind (.bind (rsect_counted h _) fun buf t _ ht => .pure ht.1)

/-- Inode `k` is handed out. -/
theorem ialloc_counted (h : Counted k s) (hk : k ≤ 2 ^ 15) (type : UInt16) :
    Ends (ialloc type) s (fun inum t => inum = k ∧ k < 2 ^ 15 ∧ Counted (k + 1) t)
      fun _ => True := by
  unfold ialloc
  refine .bind (Q := fun inum t => inum = k ∧ Counted (k + 1) t) (.step ?_) fun inum t _ ht => ?_
  · refine ⟨h.number, h.nsect, h.ge, h.le, ?_⟩
    show (s.freeinode + 1) % 2 ^ 32 = k + 1
    rw [h.number]
    exact Nat.mod_eq_of_lt (by omega)
  · obtain ⟨rfl, ht⟩ := ht
    refine .bind (winode_inside ht _ _) fun _ u _ hu => .pure ⟨rfl, ?_, hu.1⟩
    have hlt := hu.2
    rw [inodeSector_eq _ hk] at hlt
    unfold FSSIZE IPB at hlt
    split at hlt <;> omega

/-! ## Appending -/

theorem nextBlock_handed (h : Counted k s) :
    Ends nextBlock s (fun b t => Handed k b t ∧ b < 2 ^ 22) fun _ => True := by
  have hle := h.le
  have hge := h.ge
  refine .step ⟨⟨h.nsect, ?_, .inr ⟨?_, ?_⟩, h.number⟩, ?_⟩
  all_goals
    dsimp only
    unfold FSSIZE at hle
    omega

theorem indirect_handed (h : Counted k s) (din : Dinode) : Ends (iappend.indirect din) s
    (fun din' t => Handed k (din'.addr.get NDIRECT) t) fun _ => True := by
  unfold iappend.indirect
  refine .ite (fun _ => ?_) fun _ => .pure h.handed
  refine .bind (nextBlock_handed h) fun b t _ ht => .pure ?_
  rw [setAddr_addr (lt_trans ht.2 (by decide)), Addrs.get_set_self]
  exact ht.1

/-- The block that is entered in the indirect block has been handed out. -/
theorem entry_handed (h : Counted k s) {ind : Nat} (hin : sector ind < s.nsect) (blk : Nat → Block)
    (din : Dinode) : Ends (do
      let b ← nextBlock
      wsect ind (blk b)
      return (b, din)) s (fun r t => Handed k r.1 t) fun _ => True := by
  refine .bind (Q := fun b t => Handed k b t ∧ t.nsect = s.nsect) ?_ fun b t _ ht => ?_
  · have hnext := nextBlock_handed h
    exact ⟨hnext.1, rfl⟩
  · refine .bind (wsect_keeps (by rw [ht.2]; exact hin) _) fun _ u _ hu => .pure ?_
    obtain ⟨hnsect, hblock, hnumber⟩ := hu
    exact ⟨hnsect.trans ht.1.nsect, hblock ▸ ht.1.ge, hblock ▸ ht.1.le,
      hnumber.trans ht.1.number⟩

theorem block_handed (h : Counted k s) (din : Dinode) (fbn : Nat) : Ends (iappend.block din fbn) s
    (fun r t => Handed k r.1 t) fun _ => True := by
  unfold iappend.block
  refine .ite (fun _ => .ite (fun _ => ?_) fun _ => .pure h.handed) fun _ => ?_
  · exact .bind (nextBlock_handed h) fun b t _ ht => .pure ht.1
  · refine .bind (indirect_handed h din) fun din₁ t₁ _ h₁ => ?_
    refine .bind (rsect_handed h₁) fun ind t₂ _ h₂ => .ite (fun _ => ?_) fun _ => .pure h₂.1.handed
    exact entry_handed h₂.1 h₂.2 _ din₁

theorem assert_counted (h : Counted k s) (c : Prop) [Decidable c] : Counts k (assert c) s := by
  unfold assert
  exact .ite (fun _ => .pure h) fun _ => .halt trivial

theorem loop_counted : ∀ (rounds : Nat) {s : Maker} (p : List UInt8) (off : Nat) (din : Dinode),
    Counted k s → Counts k (iappend.loop rounds p off din) s
  | 0, _, _, _, _, h => .pure h
  | rounds + 1, s, p, off, din, h => by
    unfold iappend.loop
    refine .ite (fun _ => .pure h) fun _ => ?_
    refine .bind (assert_counted h _) fun _ t₁ _ h₁ => ?_
    refine .bind (block_handed h₁ din _) fun r t₂ _ h₂ => ?_
    refine .bind (rsect_handed h₂) fun buf t₃ _ h₃ => ?_
    refine .bind (wsect_counted h₃.1 h₃.2 _) fun _ t₄ _ h₄ => ?_
    exact loop_counted rounds _ _ _ h₄

theorem iappend_counted (h : Counted k s) (inum : Nat) (xp : List UInt8) :
    Counts k (iappend inum xp) s := by
  unfold iappend
  refine .bind (rinode_counted h inum) fun din t₁ _ h₁ => ?_
  refine .bind (loop_counted _ _ _ _ h₁) fun r t₂ _ h₂ => ?_
  exact winode_counted h₂ _ _

/-! ## The arguments -/

theorem readAll_counted (inum : Nat) : ∀ (cs : List Chunk) {s : Maker}, Counted k s →
    Counts k (main.readAll inum cs) s
  | [], _, h => .pure h
  | c :: cs, _, h => by
    unfold main.readAll
    exact .bind (iappend_counted h _ _) fun _ t _ ht => readAll_counted inum cs ht

theorem dots_counted (h : Counted k s) (inum parent : Nat) :
    Counts k (main.dots inum parent) s := by
  unfold main.dots
  exact .bind (iappend_counted h _ _) fun _ t _ ht => iappend_counted ht _ _

theorem copy_counted (h : Counted k s) (hk : k ≤ 2 ^ 15) (rootino : Nat) (f : Input) :
    Ends (main.copy rootino f) s (fun _ t => k < 2 ^ 15 ∧ Counted (k + 1) t) fun _ => True := by
  unfold main.copy
  refine .bind (assert_counted h _) fun _ t₁ _ h₁ => .ite (fun _ => .halt_bind trivial) fun _ => ?_
  refine .bind (assert_counted h₁ _) fun _ t₂ _ h₂ => .ite (fun _ => .halt_bind trivial) fun _ => ?_
  refine .bind (ialloc_counted h₂ hk _) fun inum t₃ _ h₃ => ?_
  obtain ⟨-, hlt, h₃⟩ := h₃
  refine .ite (fun _ => ?_) fun _ => ?_
  · refine .bind (dots_counted h₃ _ _) fun _ t₄ _ h₄ => ?_
    exact (iappend_counted h₄ _ _).weaken (fun _ _ _ ht => ⟨hlt, ht⟩) fun _ hE => hE
  · refine .bind (readAll_counted inum _ h₃) fun _ t₄ _ h₄ => ?_
    exact (iappend_counted h₄ _ _).weaken (fun _ _ _ ht => ⟨hlt, ht⟩) fun _ hE => hE

/-- An inode is handed out for each argument. -/
theorem copyAll_counted (rootino : Nat) : ∀ (fs : List Input) {k : Nat} {s : Maker}, Counted k s →
    k ≤ 2 ^ 15 → Ends (main.copyAll rootino fs) s
      (fun _ t => k + fs.length ≤ 2 ^ 15 ∧ Counted (k + fs.length) t) fun _ => True
  | [], _, _, h, hk => .pure ⟨hk, h⟩
  | f :: fs, k, _, h, hk => by
    unfold main.copyAll
    refine .bind (copy_counted h hk rootino f) fun _ t _ ht => ?_
    have hrest := copyAll_counted rootino fs ht.2 ht.1
    rw [Nat.add_right_comm, Nat.add_assoc] at hrest
    exact hrest

theorem fixRoot_counted (h : Counted k s) (rootino : Nat) : Counts k (main.fixRoot rootino) s := by
  unfold main.fixRoot
  exact .bind (rinode_counted h rootino) fun din t _ ht => winode_counted ht _ _

/-- The loop that zeroes the image leaves it with `n` sectors more. -/
theorem zeroes_counted : ∀ (n i : Nat) {s : Maker}, s.nsect = i → s.freeblock = nmeta →
    i + n < 2 ^ 22 → Ends (main.zeroes n i) s (fun _ t => t.nsect = i + n ∧
      t.freeblock = nmeta ∧ t.freeinode = s.freeinode) fun _ => True
  | 0, _, _, hi, hfb, _ => .pure ⟨hi, hfb, rfl⟩
  | n + 1, i, s, hi, hfb, hlt => by
    unfold main.zeroes
    refine .call (wsect_ends _ (by omega)) (fun _ _ => trivial) fun _ t _ ht => ?_
    obtain ⟨k, rfl⟩ := ht
    refine .weaken (zeroes_counted n (i + 1) ?_ hfb (by omega)) (fun _ t _ ht => ?_) fun _ hE => hE
    · dsimp only
      rw [hi]
      exact max_eq_right (Nat.le_succ i)
    · exact ⟨ht.1.trans (by omega), ht.2⟩

/-! ## main -/

/-- An inode has been handed out for the root directory and for each argument. The image ends up
    with the bitmap for a counter in its range, in the sector that the host reads from the super
    block. -/
theorem main_counted (host : ByteOrder) (sys : Nat → Bool) (args : List Input) :
    Ends (main args) (Maker.start host sys) (fun _ t => t.host = host ∧
      t.freeinode = args.length + 2 ∧ args.length + 2 ≤ 2 ^ 15 ∧
      ∃ d fb, nmeta ≤ fb ∧ fb ≤ FSSIZE ∧ t.image = Function.update d
        (sector (superblock host).bmapstart) (balloc.mark fb 0 Buf.zero)) fun _ => True := by
  unfold main
  refine .call (access_ends _) (fun _ _ => trivial) fun _ t₁ hle₁ ht₁ => ?_
  obtain ⟨k₁, rfl⟩ := ht₁
  refine .bind (Q := fun _ t => t.nsect = 0 ∧ t.freeblock = nmeta ∧ t.freeinode = 1)
    (.step ⟨rfl, rfl, rfl⟩) fun _ t₂ hle₂ h₂ => ?_
  obtain ⟨hnsect, hblock, hnumber⟩ := h₂
  refine .bind (zeroes_counted FSSIZE 0 hnsect hblock (by decide)) fun _ t₃ hle₃ h₃ => ?_
  have hcounted : Counted 1 t₃ := ⟨h₃.1.trans (Nat.zero_add _), h₃.2.1.ge, h₃.2.1 ▸ (by decide),
    h₃.2.2.trans hnumber⟩
  refine .get_bind (.bind (wsect_counted hcounted ?_ _) fun _ t₄ hle₄ h₄ => ?_)
  · rw [hcounted.nsect]
    decide
  refine .bind (ialloc_counted h₄ (by decide) _) fun rootino t₅ hle₅ h₅ => ?_
  obtain ⟨-, -, h₅⟩ := h₅
  refine .bind (assert_counted h₅ _) fun _ t₆ hle₆ h₆ => ?_
  refine .bind (dots_counted h₆ _ _) fun _ t₇ hle₇ h₇ => ?_
  refine .bind (copyAll_counted _ _ h₇ (by decide)) fun _ t₈ hle₈ h₈ => ?_
  obtain ⟨hsmall, h₈⟩ := h₈
  refine .bind (fixRoot_counted h₈ _) fun _ t₉ hle₉ h₉ => .get_bind ?_
  have hhost : t₉.host = host := (hle₁.trans <| hle₂.trans <| hle₃.trans <| hle₄.trans <|
    hle₅.trans <| hle₆.trans <| hle₇.trans <| hle₈.trans hle₉).1
  unfold balloc assert
  refine .bind (Q := fun _ t => t₉ = t) (.ite (fun _ => .pure rfl) fun _ => .halt trivial)
    fun _ t _ ht => .get_bind ?_
  obtain rfl := ht
  refine (wsect_sector _ _).weaken (fun _ u _ hu => ?_) fun _ _ => trivial
  obtain ⟨k, rfl⟩ := hu
  refine ⟨hhost, h₉.number.trans (by omega), by omega, t₉.image, t₉.freeblock, h₉.ge, h₉.le, ?_⟩
  rw [← hhost]

/-! ## A big-endian host -/

/-- A bitmap whose first bit is set is no super block: the magic number is even. -/
theorem magic_mark {fb : Nat} (hpos : 0 < fb) (hfb : fb ≤ FSSIZE) :
    (balloc.mark fb 0 Buf.zero).superblock.magic ≠ FSMAGIC := by
  intro hmagic
  have hbit : (balloc.mark fb 0 Buf.zero).bit .little 0 = true :=
    (bit_mark (by unfold FSSIZE BPB at *; omega) (by decide)).mpr (.inl ⟨le_rfl, by omega⟩)
  rw [Block.bit_little] at hbit
  have hnum : (balloc.mark fb 0 Buf.zero).superblock.magic.testBit 0 = true :=
    (Buf.testBit_num _ (by decide)).trans hbit
  rw [hmagic] at hnum
  exact absurd hnum (by decide)

/-- What has been mounted has the magic number. -/
theorem mounted_magic {env : Env} {d : Disk} {e : Int} {p : Ptr} {w : World}
    (h : xv6FillSuper (World.unmounted env d) = .ok ((e, some p), w)) :
    (d 0).superblock.magic = FSMAGIC := by
  obtain ⟨l, hroot⟩ := fillSuper_root_run h
  unfold xv6FillSuper.root at hroot
  obtain ⟨ec, w₁, hcheck, hroot⟩ := hroot.bind
  rcases hroot.ite with ⟨-, hroot⟩ | ⟨h0, -⟩
  · cases hroot.pure.1
  · rw [not_not.mp h0] at hcheck
    obtain ⟨_, -, ha⟩ := modcheck_accepts hcheck
    exact ha.reached.magic

theorem access_run (h : s.sys s.accesses = true) :
    access.run s = .ok ((), s.accessed (s.accesses + 1)) := by
  have hstep : (Prog.step (fun s => (s.sys s.accesses, { s with accesses := s.accesses + 1 }))
      fun _ => ⟨rfl, rfl⟩ : Mk Bool).run s = .ok (true, s.accessed (s.accesses + 1)) :=
    congrArg (fun ok => Except.ok (ok, s.accessed (s.accesses + 1))) h
  unfold access
  rw [Prog.run_bind_ok hstep]
  rfl

/-- The loop that zeroes the image, when no access fails. -/
theorem zeroes_run : ∀ (n : Nat) {s : Maker}, (∀ k, s.sys k = true) →
    s.image = (fun _ => Buf.zero) → s.nsect + n < 2 ^ 22 → (main.zeroes n s.nsect).run s =
      .ok ((), { s with accesses := s.accesses + n, nsect := s.nsect + n })
  | 0, _, _, _, _ => rfl
  | n + 1, s, hsys, hzero, hlt => by
    have hsame : Function.update s.image s.nsect Buf.zero = s.image := by
      rw [hzero]
      exact Function.update_eq_self_iff.mpr rfl
    have hwrite : (wsect s.nsect Buf.zero).run s =
        .ok ((), { s with accesses := s.accesses + 1, nsect := s.nsect + 1 }) := by
      unfold wsect
      rw [Prog.run_bind_ok (access_run (hsys _)), sector_eq (show s.nsect < 2 ^ 22 by omega)]
      refine congrArg (fun t => Except.ok ((), t)) ?_
      dsimp only [Maker.accessed]
      rw [hsame, max_eq_right (Nat.le_succ s.nsect)]
    have hrest := zeroes_run n (s := { s with accesses := s.accesses + 1, nsect := s.nsect + 1 })
      hsys hzero (by dsimp only; omega)
    unfold main.zeroes
    rw [Prog.run_bind_ok hwrite]
    dsimp only at hrest
    rw [hrest, Nat.add_right_comm s.nsect, Nat.add_right_comm s.accesses]
    rfl

theorem exists_ok {ε α : Type} {x : Except ε α} (h : x.isOk = true) : ∃ a, x = .ok a := by
  cases x with
  | error e => cases h
  | ok a => exact ⟨a, rfl⟩

/-- What `main` does with the zeroed image. -/
def filling (args : List Input) : Mk Unit := do
  wsect 0 (superblockSector (← Prog.get).host)
  let rootino ← ialloc T_DIR
  assert (rootino = ROOTINO)
  main.dots rootino rootino
  main.copyAll rootino args
  main.fixRoot rootino
  balloc (← Prog.get).freeblock

/-- The image has been zeroed, and no access fails. -/
def zeroed (host : ByteOrder) : Maker := { Maker.start host fun _ => true with
  accesses := 1 + FSSIZE, nsect := 0 + FSSIZE, freeblock := nmeta }

theorem made_of_zeroed {host : ByteOrder} {args : List Input}
    (h : ((filling args).run (zeroed host)).isOk = true) :
    ∃ d, image host (fun _ => true) args = some d := by
  obtain ⟨s, hs⟩ : ∃ s : Maker, s =
      { Maker.start host fun _ => true with accesses := 1, freeblock := nmeta } := ⟨_, rfl⟩
  have hstart : s.nsect = 0 := by rw [hs]; rfl
  have hzeroes := zeroes_run FSSIZE (s := s) (by rw [hs]; exact fun _ => rfl) (by rw [hs]; rfl)
    (by rw [hstart]; decide)
  have hend : { s with accesses := s.accesses + FSSIZE, nsect := s.nsect + FSSIZE } =
      zeroed host := by
    rw [hs]
    rfl
  rw [hend, hstart] at hzeroes
  obtain ⟨r, hrest⟩ := exists_ok h
  unfold filling at hrest
  refine ⟨r.2.image, image_eq_some.mpr ⟨r.2, ?_, rfl⟩⟩
  unfold main
  rw [Prog.run_bind_ok (access_run rfl), Prog.run_bind_ok (t := s) (a := ()) (by rw [hs]; rfl),
    Prog.run_bind_ok hzeroes, hrest]

/-- On a big-endian host too the program makes an image. -/
theorem big_endian_made : ∃ d, image .big (fun _ => true) [] = some d := by
  have h : ((filling []).run (zeroed .big)).isOk = true := by decide +kernel
  exact made_of_zeroed h

theorem big_endian_magic {sys : Nat → Bool} {args : List Input} {d : Disk}
    (h : image .big sys args = some d) : (d 0).superblock.magic ≠ FSMAGIC := by
  obtain ⟨t, hrun, rfl⟩ := image_eq_some.mp h
  obtain ⟨-, -, -, d, fb, hge, hle, himage⟩ := (main_counted .big sys args).returned hrun
  have hsector : sector (superblock .big).bmapstart = 0 := by decide
  rw [himage, hsector, Function.update_self]
  exact magic_mark (lt_of_lt_of_le (by decide) hge) hle

/-- No image that is made on a big-endian host can be mounted. -/
theorem big_endian_unmountable {sys : Nat → Bool} {args : List Input} {d : Disk}
    (h : image .big sys args = some d) (env : Env) (e : Int) (p : Ptr) (w : World) :
    xv6FillSuper (World.unmounted env d) ≠ .ok ((e, some p), w) :=
  fun hm => big_endian_magic h (mounted_magic hm)

theorem big_endian_empty_unmountable : ∃ d, image .big (fun _ => true) [] = some d ∧
    ∀ env e p w, xv6FillSuper (World.unmounted env d) ≠ .ok ((e, some p), w) := by
  obtain ⟨d, hd⟩ := big_endian_made
  exact ⟨d, hd, big_endian_unmountable hd⟩

end

end Xv6fs.Mkxv6
