/-
  xv6_file_read: the slice of the file that is returned.

  Within the file one round of the loop copies the rest of a block or of the request, and the
  whole loop copies the bytes of the file from the position on (`readLoop_returns`). Up to the
  end of the file that is what a read has to return (`fileRead_slice`). Past the end
  `file_size - cpos` is negative, the comparisons take it for a huge `size_t`, and the request is
  served with bytes from behind the end (`fileRead_past_end`).
-/
import Xv6fs.File.Contents

namespace Xv6fs

theorem fbyte_add (d : Disk) (addrs : Addrs) {x j : Nat} (hj : x % BSIZE + j < BSIZE) :
    fbyte d addrs (x + j) = (fblock d addrs (x / BSIZE)).byte (x % BSIZE + j) := by
  have hdiv : (x + j) / BSIZE = x / BSIZE ∧ (x + j) % BSIZE = x % BSIZE + j := by
    simp only [BSIZE] at hj ⊢
    omega
  unfold fbyte
  rw [hdiv.1, hdiv.2]

/-! ## Copying to the user -/

theorem copyToUser_ok {mem : UserMem} {dst n : Nat} {data : Nat → UInt8}
    (hw : ∀ j, j < n → mem.writable (dst + j) = true) :
    copyToUser mem dst n data = (false, { mem with
      byte := fun a => if dst ≤ a ∧ a < dst + n then data (a - dst) else mem.byte a }) := by
  have hall : ∀ k, k ≤ n → ((List.range k).all fun j => mem.writable (dst + j)) = true := by
    intro k hk
    rw [List.all_eq_true]
    intro j hj
    exact hw j (lt_of_lt_of_le (List.mem_range.mp hj) hk)
  unfold copyToUser
  dsimp only
  rw [hall n (le_refl n)]
  refine Prod.ext rfl ?_
  refine congrArg (UserMem.mk mem.writable) (funext fun a => if_congr ?_ rfl rfl)
  constructor
  · rintro ⟨h1, h2, -⟩
    exact ⟨h1, h2⟩
  · rintro ⟨h1, h2⟩
    exact ⟨h1, h2, hall _ (by omega)⟩

/-! ## The loop -/

/-- Does `file_size - cpos`, taken modulo 2^64, leave a request for `len` bytes alone? -/
def Unclamped (size cpos len : Nat) : Prop :=
  cpos + len ≤ size ∨ (size < cpos ∧ cpos + len < 2 ^ 64)

theorem toRead_eq {size boff cpos len : Nat} (h : Unclamped size cpos len) (hsize : size < 2 ^ 63) :
    xv6FileRead.toRead size boff cpos len = min (BSIZE - boff) len := by
  have hmod : len ≤ (size + 2 ^ 64 - cpos) % 2 ^ 64 := by
    rcases h with h | ⟨h, h'⟩ <;> omega
  unfold xv6FileRead.toRead
  dsimp only
  split <;> split <;> omega

section

variable {w : World} {p : Ptr} {size : Nat}

/-- The bytes a round copies are those of the file. -/
theorem source_returns (cpos : Nat) {i boff : Nat} (hi : i = cpos / BSIZE)
    (hb : boff = cpos % BSIZE) :
    ∃ data, Returns (xv6FileRead.source boff (blockNo (bmap w.disk (w.addrs p) i))) w data w ∧
      ∀ j, boff + j < BSIZE → data j = fbyte w.disk (w.addrs p) (cpos + j) := by
  subst hi hb
  unfold blockNo
  by_cases hz : bmap w.disk (w.addrs p) (cpos / BSIZE) = 0
  · rw [if_pos hz]
    refine ⟨_, returns_iff.mpr rfl, fun j hj => ?_⟩
    rw [fbyte_add _ _ hj, fblock, if_pos hz, Buf.byte_zero]
  · rw [if_neg hz]
    refine ⟨_, returns_iff.mpr rfl, fun j hj => ?_⟩
    rw [fbyte_add _ _ hj, fblock, if_neg hz]

/-- The loop copies `len` bytes of the file from `cpos` on. -/
theorem readLoop_returns (hq : Quiet w.env) (hino : (w.inodes p).ino ≠ 0) (hsize : size < 2 ^ 63) :
    ∀ (rounds block boff nread cpos len : Nat) (mem : UserMem) (l : List Event),
      len ≤ rounds → Unclamped size cpos len → cpos + len ≤ MAXFILE * BSIZE →
      (len ≠ 0 → block = cpos / BSIZE ∧ boff = cpos % BSIZE) →
      (∀ j, j < len → mem.writable (nread + j) = true) →
      ∃ mem' l', Returns (xv6FileRead.loop p size rounds block boff nread cpos len mem)
          { w with log := l } (0, nread + len, cpos + len, mem') { w with log := l' } ∧
        (∀ j, j < len → mem'.byte (nread + j) = fbyte w.disk (w.addrs p) (cpos + j)) ∧
        ∀ a, a < nread ∨ nread + len ≤ a → mem'.byte a = mem.byte a
  | 0, _, _, nread, cpos, len, mem, l, hlen, _, _, _, _ => by
    obtain rfl : len = 0 := by omega
    exact ⟨mem, l, returns_iff.mpr rfl, fun j hj => absurd hj (Nat.not_lt_zero j), fun _ _ => rfl⟩
  | rounds + 1, block, boff, nread, cpos, len, mem, l, hlen, hun, hmax, hpos, hmem => by
    unfold xv6FileRead.loop
    by_cases h0 : len = 0
    · subst h0
      rw [if_pos rfl]
      exact ⟨mem, l, returns_iff.mpr rfl, fun j hj => absurd hj (Nat.not_lt_zero j),
        fun _ _ => rfl⟩
    rw [if_neg h0]
    obtain ⟨rfl, rfl⟩ := hpos h0
    have hi : cpos / BSIZE < MAXFILE := by
      simp only [MAXFILE, BSIZE] at hmax ⊢
      omega
    have hmod : cpos % BSIZE < BSIZE := Nat.mod_lt _ (by decide)
    have hdm : cpos / BSIZE * BSIZE + cpos % BSIZE = cpos := Nat.div_add_mod' _ _
    generalize hn : min (BSIZE - cpos % BSIZE) len = n
    have hn1 : 0 < n ∧ n ≤ len ∧ cpos % BSIZE + n ≤ BSIZE ∧
        (n ≠ len → n = BSIZE - cpos % BSIZE) := by omega
    -- one block, or a hole
    obtain ⟨l₁, hblock⟩ := inodeBlock_returns (w := { w with log := l }) hq hino hi
    obtain ⟨data, hsource, hdata⟩ :=
      source_returns (w := { w with log := l₁ }) (p := p) cpos rfl rfl
    have hcopy : copyToUser mem nread n data = _ := copyToUser_ok fun j hj => hmem j (by omega)
    -- the rest of the request
    have hnext : len - n ≠ 0 → (cpos / BSIZE + 1) % 2 ^ 32 = (cpos + n) / BSIZE ∧
        0 = (cpos + n) % BSIZE := by
      intro hrest
      have hfull := hn1.2.2.2 (by omega)
      simp only [BSIZE, MAXFILE] at *
      omega
    obtain ⟨mem', l', hrun, hin, hout⟩ := readLoop_returns hq hino hsize rounds
      ((cpos / BSIZE + 1) % 2 ^ 32) 0 (nread + n) (cpos + n) (len - n)
      { mem with byte := fun a => if nread ≤ a ∧ a < nread + n then data (a - nread)
          else mem.byte a } l₁ (by omega) (by unfold Unclamped at *; omega) (by omega) hnext
      (fun j hj => by
        have := hmem (n + j) (by omega)
        rwa [← Nat.add_assoc] at this)
    rw [show nread + n + (len - n) = nread + len by omega,
      show cpos + n + (len - n) = cpos + len by omega] at hrun
    refine ⟨mem', l', (returns_bind hblock).mpr ?_, fun j hj => ?_, fun a ha => ?_⟩
    · simp only [ne_eq, not_true_eq_false, if_false]
      refine (returns_bind hsource).mpr ?_
      rw [toRead_eq hun hsize, hn, hcopy]
      exact hrun
    · by_cases hlt : j < n
      · refine (hout (nread + j) (.inl (by omega))).trans ((if_pos (by omega)).trans ?_)
        rw [Nat.add_sub_cancel_left]
        exact hdata j (by omega)
      · have := hin (j - n) (by omega)
        rwa [show nread + n + (j - n) = nread + j by omega,
          show cpos + n + (j - n) = cpos + j by omega] at this
    · exact (hout a (by omega)).trans (if_neg (by omega))

/-! ## The whole call -/

/-- A read returns the bytes of the file from `pos` on, `len` of them or up to the end of the
    file, and changes nothing else. -/
def ReadsSlice (w : World) (p : Ptr) (mem : UserMem) (len pos : Nat) : Prop :=
  ∃ n mem' l, n = min len ((w.inodes p).size - pos) ∧
    Returns (xv6FileRead p mem len pos) w ((n : Int), pos + n, mem') { w with log := l } ∧
    (∀ j, j < n → mem'.byte j = fbyte w.disk (w.addrs p) (pos + j)) ∧
    ∀ a, n ≤ a → mem'.byte a = mem.byte a

/-- What is returned is what the loop copies, `n` bytes. -/
theorem fileRead_returns (mem : UserMem) (len pos n : Nat) (hq : Quiet w.env)
    (hino : (w.inodes p).ino ≠ 0) (hsize : (w.inodes p).size < 2 ^ 63)
    (hn : n = min len (((w.inodes p).size + 2 ^ 64 - pos) % 2 ^ 64))
    (hun : Unclamped (w.inodes p).size pos n) (hmax : pos + n ≤ MAXFILE * BSIZE)
    (hmem : ∀ j, j < n → mem.writable j = true) :
    ∃ mem' l, Returns (xv6FileRead p mem len pos) w ((n : Int), pos + n, mem')
        { w with log := l } ∧
      (∀ j, j < n → mem'.byte j = fbyte w.disk (w.addrs p) (pos + j)) ∧
      ∀ a, n ≤ a → mem'.byte a = mem.byte a := by
  have hlt : n ≠ 0 → pos / BSIZE % 2 ^ 32 = pos / BSIZE ∧ pos % BSIZE = pos % BSIZE := by
    intro _
    refine ⟨Nat.mod_eq_of_lt ?_, rfl⟩
    simp only [MAXFILE, BSIZE] at hmax ⊢
    omega
  obtain ⟨mem', l, hrun, hin, hout⟩ := readLoop_returns hq hino hsize n (pos / BSIZE % 2 ^ 32)
    (pos % BSIZE) 0 pos n mem w.log (le_refl n) hun hmax hlt fun j hj => by
      rw [Nat.zero_add]
      exact hmem j hj
  simp only [Nat.zero_add] at hrun hin hout
  refine ⟨mem', l, ?_, hin, fun a ha => hout a (.inr ha)⟩
  have hclamp : (if len > ((w.inodes p).size + 2 ^ 64 - pos) % 2 ^ 64 then
      ((w.inodes p).size + 2 ^ 64 - pos) % 2 ^ 64 else len) = n := by
    split <;> omega
  simp only [xv6FileRead, runs_bind_getInode, hclamp]
  exact (returns_bind hrun).mpr (returns_iff.mpr rfl)

/-- Up to the end of the file a read returns what it has to. -/
theorem fileRead_slice {mem : UserMem} {len pos : Nat} (hq : Quiet w.env)
    (hino : (w.inodes p).ino ≠ 0) (hsize : (w.inodes p).size ≤ MAXFILE * BSIZE)
    (hmem : ∀ j, j < len → mem.writable j = true) (h : pos ≤ (w.inodes p).size) :
    ReadsSlice w p mem len pos := by
  have hlt : (w.inodes p).size < 2 ^ 63 := by
    simp only [MAXFILE, BSIZE] at hsize
    omega
  obtain ⟨mem', l, hrun⟩ := fileRead_returns mem len pos
    (min len ((w.inodes p).size - pos)) hq hino hlt (by omega) (.inl (by omega)) (by omega)
    fun j hj => hmem j (by omega)
  exact ⟨_, mem', l, rfl, hrun⟩

/-! ## Past the end of the file -/

/-- The loop never takes back what it has copied. -/
theorem readLoop_nread {φ : Event → Prop} :
    ∀ (rounds block boff nread cpos len : Nat) (mem : UserMem) {w w' : World} {e : Int}
      {n c : Nat} {mem' : UserMem},
      Runs φ (xv6FileRead.loop p size rounds block boff nread cpos len mem) w (e, n, c, mem') w' →
      nread ≤ n
  | 0, _, _, nread, _, _, _, _, _, _, _, _, _, h => by
    obtain ⟨hres, -⟩ := h.pure
    cases hres
    exact le_refl nread
  | rounds + 1, block, boff, nread, cpos, len, mem, w, w', e, n, c, mem', h => by
    unfold xv6FileRead.loop at h
    rcases h.ite with ⟨-, h⟩ | ⟨-, h⟩
    · obtain ⟨hres, -⟩ := h.pure
      cases hres
      exact le_refl nread
    obtain ⟨⟨e₁, bh⟩, w₁, -, h⟩ := h.bind
    rcases h.ite with ⟨-, h⟩ | ⟨-, h⟩
    · obtain ⟨hres, -⟩ := h.pure
      cases hres
      exact le_refl nread
    obtain ⟨data, w₂, -, h⟩ := h.bind
    rcases h.ite with ⟨-, h⟩ | ⟨-, h⟩
    · obtain ⟨hres, -⟩ := h.pure
      cases hres
      exact le_refl nread
    · exact le_trans (Nat.le_add_right _ _) (readLoop_nread rounds _ _ _ _ _ _ h)

/-- A round past the end of the file copies something, or fails. -/
theorem readLoop_past_end {φ : Event → Prop} {rounds block boff cpos len n c : Nat}
    {mem mem' : UserMem} {w' : World} {e : Int} (hlen : len ≠ 0) (hboff : boff < BSIZE)
    (hsize : size < cpos) (hcpos : cpos < 2 ^ 63) (hmem : ∀ j, j < len → mem.writable j = true)
    (h : Runs φ (xv6FileRead.loop p size (rounds + 1) block boff 0 cpos len mem) w
      (e, n, c, mem') w') : e ≠ 0 ∨ n ≠ 0 := by
  have hto : 0 < xv6FileRead.toRead size boff cpos len ∧
      xv6FileRead.toRead size boff cpos len ≤ len := by
    unfold xv6FileRead.toRead
    dsimp only
    split <;> split <;> omega
  unfold xv6FileRead.loop at h
  rw [if_neg hlen] at h
  obtain ⟨⟨e₁, bh⟩, w₁, -, h⟩ := h.bind
  rcases h.ite with ⟨hne, h⟩ | ⟨-, h⟩
  · obtain ⟨hres, -⟩ := h.pure
    cases hres
    exact .inl hne
  obtain ⟨data, w₂, -, h⟩ := h.bind
  rw [copyToUser_ok fun j hj => by rw [Nat.zero_add]; exact hmem j (by omega)] at h
  simp only [Bool.false_eq_true, if_false] at h
  have hn := readLoop_nread _ _ _ _ _ _ _ h
  exact .inr (by omega)

/-- Past the end of the file a read does not return 0. -/
theorem fileRead_past_end {mem : UserMem} {len pos : Nat} (hlen : 0 < len) (hlen' : len < 2 ^ 64)
    (hpos : pos < 2 ^ 63) (hmem : ∀ j, j < len → mem.writable j = true)
    (h : (w.inodes p).size < pos) : ¬ ReadsSlice w p mem len pos := by
  rintro ⟨n, mem', l, hn, hret, -, -⟩
  obtain rfl : n = 0 := by omega
  simp only [xv6FileRead, runs_bind_getInode] at hret
  generalize hclamp : (if len > ((w.inodes p).size + 2 ^ 64 - pos) % 2 ^ 64 then
    ((w.inodes p).size + 2 ^ 64 - pos) % 2 ^ 64 else len) = k at hret
  have hk : k ≠ 0 ∧ k ≤ len := by
    rw [← hclamp]
    split <;> omega
  obtain ⟨r, rfl⟩ : ∃ r, k = r + 1 := ⟨k - 1, by omega⟩
  obtain ⟨⟨e, n, c, m⟩, w₁, hloop, hend⟩ := hret.bind
  have hprog := readLoop_past_end hk.1 (Nat.mod_lt _ (by decide)) h hpos
    (fun j hj => hmem j (by omega)) hloop
  obtain ⟨hres, -⟩ := hend.pure
  have hzero := congrArg Prod.fst hres
  dsimp only at hzero
  split at hzero
  · next hc => exact hc.1 (by simpa using hzero)
  · next hc =>
    have hn0 : n = 0 := by simpa using hzero
    exact hc ⟨hprog.resolve_right (not_not.mpr hn0), hn0⟩

/-- A read returns the slice of the file it is asked for exactly when it does not start past the
    end. -/
theorem fileRead_slice_iff {mem : UserMem} {len pos : Nat} (hq : Quiet w.env)
    (hino : (w.inodes p).ino ≠ 0) (hsize : (w.inodes p).size ≤ MAXFILE * BSIZE)
    (hpos : pos < 2 ^ 63) (hlen : len < 2 ^ 64) (hmem : ∀ j, j < len → mem.writable j = true) :
    ReadsSlice w p mem len pos ↔ pos ≤ (w.inodes p).size ∨ len = 0 := by
  constructor
  · intro h
    by_contra hno
    exact fileRead_past_end (by omega) hlen hpos hmem (by omega) h
  · rintro (h | rfl)
    · exact fileRead_slice hq hino hsize hmem h
    · refine ⟨0, mem, w.log, (Nat.zero_min _).symm, ?_, fun j hj => absurd hj (Nat.not_lt_zero j),
        fun _ _ => rfl⟩
      simp only [xv6FileRead, runs_bind_getInode, if_neg (Nat.not_lt_zero _)]
      exact returns_iff.mpr rfl

end

/-- A file of the bytes 1 to 5, in block 20. -/
def fiveBytes : World :=
  { World.blank ⟨64, 0, 32, 0, 1, 1, 4⟩ 6 with
    disk := Function.update (fun _ => Buf.zero) 20
      (Buf.patch Buf.zero 0 5 fun i => UInt8.ofNat (i + 1))
    inodes := fun _ =>
      { Inode.fresh with ino := 2, size := 5, priv := some fun i => if i = 0 then 20 else 0 } }

/-- A writable buffer of zeros. -/
def zeroed : UserMem := ⟨fun _ => true, fun _ => 0⟩

/-- The request for three bytes from offset 6 of five is served with three bytes. -/
theorem five_bytes_past_end :
    (∃ mem' l, Returns (xv6FileRead 0 zeroed 3 6) fiveBytes (3, 9, mem')
      { fiveBytes with log := l }) ∧ ¬ ReadsSlice fiveBytes 0 zeroed 3 6 := by
  have hq : Quiet fiveBytes.env := fun _ => rfl
  have hsize : (fiveBytes.inodes 0).size = 5 := rfl
  have hino : (fiveBytes.inodes 0).ino ≠ 0 := by decide
  constructor
  · obtain ⟨mem', l, hrun, -⟩ := fileRead_returns (w := fiveBytes) (p := 0) zeroed 3 6 3 hq hino
      (by decide) (by decide) (.inr (by decide))
      (by decide) fun _ _ => rfl
    exact ⟨mem', l, hrun⟩
  · exact fileRead_past_end (by decide) (by decide) (by decide) (fun _ _ => rfl) (by decide)

/-- Three bytes from offset 1 are bytes 2, 3 and 4. -/
theorem five_bytes_slice : ReadsSlice fiveBytes 0 zeroed 3 1 :=
  (fileRead_slice_iff (fun _ => rfl) (by decide) (by decide) (by decide) (by decide)
    fun _ _ => rfl).mpr (.inl (by decide))

end Xv6fs
