/-
  Appending to a file of the image.

  The loop of `iappend` appends: the file's bytes are those it had and the new ones, the other files
  are as they were, and the blocks it takes are those that the longer file costs (`loop_ends`). It
  stops when an access fails, when the file would be longer than `MAXFILE` blocks, or when the image
  has no sector for a block that is taken.
-/
import Xv6fs.Lib.Ends
import Xv6fs.Mkxv6.Laid

namespace Xv6fs.Mkxv6

open Prog (Ends)

/-- Some access to the image file fails. -/
def Faulty (s : Maker) : Prop := ∃ n, s.sys n = false

/-- A state that differs in the number of accesses. -/
def Maker.accessed (s : Maker) (k : Nat) : Maker := { s with accesses := k }

section

variable {s t : Maker} {A : Nat → Option Addrs} {n l fbn : Nat} {addrs : Addrs} {din : Dinode}
  {bytes p : List UInt8}

theorem Faulty.of_le (hle : s ≤ t) (h : Faulty t) : Faulty s := by
  obtain ⟨n, hn⟩ := h
  exact ⟨n, hle.2 ▸ hn⟩

/-! ## Accesses -/

theorem access_ends (s : Maker) :
    Ends access s (fun _ t => ∃ k, t = s.accessed k) fun _ => Faulty s := by
  unfold access
  refine .bind (Q := fun ok t => ok = s.sys s.accesses ∧ t = s.accessed (s.accesses + 1)) ⟨rfl, rfl⟩
    fun ok t _ h => ?_
  obtain ⟨rfl, rfl⟩ := h
  refine .ite (fun hok => .halt ⟨s.accesses, by simpa using hok⟩) fun _ => .pure ⟨_, rfl⟩

theorem sector_eq {sec : Nat} (h : sec < 2 ^ 22) : sector sec = sec := by
  unfold sector BSIZE
  omega

theorem rsect_sector (sec : Nat) : Ends (rsect sec) s
    (fun buf t => buf = s.image (sector sec) ∧ sector sec < s.nsect ∧ ∃ k, t = s.accessed k)
    fun _ => Faulty s ∨ s.nsect ≤ sector sec := by
  unfold rsect
  refine .call (access_ends s) (fun _ => .inl) fun _ t _ ht => ?_
  obtain ⟨k, rfl⟩ := ht
  exact .get_bind (.ite (fun hle => .halt (.inr hle)) fun hlt => .pure ⟨rfl, not_le.mp hlt, k, rfl⟩)

theorem wsect_sector (sec : Nat) (buf : Block) :
    Ends (wsect sec buf) s (fun _ t => ∃ k, t = { s with
      accesses := k, image := Function.update s.image (sector sec) buf
      nsect := max s.nsect (sector sec + 1) }) fun _ => Faulty s := by
  unfold wsect
  refine .call (access_ends s) (fun _ h => h) fun _ t _ ht => ?_
  obtain ⟨k, rfl⟩ := ht
  exact .step ⟨k, rfl⟩

theorem rsect_ends {sec : Nat} (h : sec < 2 ^ 22) :
    Ends (rsect sec) s (fun buf t => buf = s.image sec ∧ sec < s.nsect ∧ ∃ k, t = s.accessed k)
      fun _ => Faulty s ∨ s.nsect ≤ sec := by
  have hends := rsect_sector (s := s) sec
  rwa [sector_eq h] at hends

theorem wsect_ends {sec : Nat} (buf : Block) (h : sec < 2 ^ 22) :
    Ends (wsect sec buf) s (fun _ t => ∃ k, t = { s with
      accesses := k, image := Function.update s.image sec buf, nsect := max s.nsect (sec + 1) })
      fun _ => Faulty s := by
  have hends := wsect_sector (s := s) sec buf
  rwa [sector_eq h] at hends

/-! ## Attaching a block -/

/-- The file of inode `n` has grown from `l` blocks to `l'`, with no byte of any file changed. -/
structure Grows (A : Nat → Option Addrs) (n : Nat) (s : Maker) (addrs : Addrs) (l : Nat) (t : Maker)
    (addrs' : Addrs) (l' : Nat) : Prop where
  laid : Laid t.freeblock t.image (Function.update A n (some addrs'))
  spans : Spans t.image addrs' l'
  same : SameFile s.image addrs t.image addrs'
  elsewhere : Elsewhere s.image A n t.image
  before : ∀ b, b < nmeta → t.image b = s.image b
  cost : t.freeblock + cost l = s.freeblock + cost l'
  nsect : t.nsect = s.nsect
  freeinode : t.freeinode = s.freeinode

theorem nextBlock_ends {E : Stop → Prop} (h : s.freeblock < 2 ^ 32 - 1) :
    Ends nextBlock s (fun b t => b = s.freeblock ∧ t = { s with freeblock := s.freeblock + 1 })
      E := by
  refine .step ⟨rfl, ?_⟩
  dsimp only
  rw [Nat.mod_eq_of_lt (by omega)]

theorem setAddr_addr {i b : Nat} (hb : b < 2 ^ 32) : (setAddr din i b).addr = din.addr.set i b := by
  funext k
  unfold setAddr Dinode.addr Addrs.set
  by_cases hk : k = Fin.ofNat 13 i
  · subst hk
    simp only [Function.update_self]
    exact UInt32.toNat_ofNat_of_lt' hb
  · simp only [Function.update_of_ne hk]

/-- The file has its block already. -/
theorem Grows.refl (hl : Laid s.freeblock s.image A) (hA : A n = some addrs)
    (hs : Spans s.image addrs l) (k : Nat) : Grows A n s addrs l (s.accessed k) addrs l where
  laid := by rwa [update_some_self hA]
  spans := hs
  same _ _ := rfl
  elsewhere := .refl s.image A n
  before _ _ := rfl
  cost := rfl
  nsect := rfl
  freeinode := rfl

/-- The next block is one of the first twelve. -/
theorem grows_direct (hl : Laid s.freeblock s.image A) (hA : A n = some addrs)
    (hs : Spans s.image addrs l) (hd : l < NDIRECT) (hle : s.freeblock < 2 ^ 32) :
    Grows A n s addrs l { s with freeblock := s.freeblock + 1 } (addrs.set l s.freeblock) (l + 1) ∧
      bmap s.image (addrs.set l s.freeblock) l = s.freeblock := by
  have hmax : l < MAXFILE := by
    unfold NDIRECT at hd
    unfold MAXFILE
    omega
  have hnone : addrs.get l = 0 := by
    have hmap := hs.mapped l hmax
    rw [bmap_direct hd] at hmap
    by_contra hne
    exact lt_irrefl l (hmap.mp hne)
  have he : Enters s.image addrs s.freeblock s.image (.direct l) (addrs.set l s.freeblock) :=
    .direct hd hnone fun _ => rfl
  have hmap := fun j hj => bmap_attach (j := j) he hl.pos hle hj
  have hrole : ∀ j, dataRole j = .direct l ↔ j = l := by
    intro j
    have hl' : dataRole l = .direct l := if_pos hd
    rw [← hl']
    exact ⟨dataRole_inj, congrArg dataRole⟩
  simp only [hrole] at hmap
  refine ⟨⟨hl.attach hA hle he fun _ _ => rfl, hs.next hmax hl.pos hmap ?_,
    hl.attach_same hA hle he (fun _ _ => rfl) rfl, .refl s.image A n, fun _ _ => rfl, ?_, rfl, rfl⟩,
    (hmap l hmax).trans (if_pos rfl)⟩
  · rw [indirect_attach he hl.pos hle, if_neg (by simp), hs.indirect]
    omega
  · unfold Mkxv6.cost
    rw [if_neg (by omega), if_neg (by omega)]
    dsimp only
    omega

/-- The next block is in the indirect block. -/
theorem grows_entry {d : Disk} {a : Nat} (hl : Laid a d A) (hA : A n = some addrs)
    (hs : ∀ i, i < MAXFILE → (bmap d addrs i ≠ 0 ↔ i < l)) (hd : NDIRECT ≤ l) (hmax : l < MAXFILE)
    (hne : addrs.get NDIRECT ≠ 0) (hle : a < 2 ^ 32) {d' : Disk}
    (hd' : d' = Function.update d (addrs.get NDIRECT)
      ((d (addrs.get NDIRECT)).setU32 (l - NDIRECT) a)) :
    Laid (a + 1) d' (Function.update A n (some addrs)) ∧ Spans d' addrs (l + 1) ∧
      SameFile d addrs d' addrs ∧ Elsewhere d A n d' ∧ (∀ b, b < nmeta → d' b = d b) ∧
      bmap d' addrs l = a := by
  have htaken := used_indirect hl.owned hA hne
  have hnone : (d (addrs.get NDIRECT)).u32 (l - NDIRECT) = 0 := by
    have hmap := hs l hmax
    rw [bmap_entry hd hne] at hmap
    by_contra hc
    exact lt_irrefl l (hmap.mp hc)
  have hj : l - NDIRECT < NINDIRECT := by
    unfold MAXFILE at hmax
    unfold NINDIRECT NDIRECT
    omega
  have hset : d' (addrs.get NDIRECT) = (d (addrs.get NDIRECT)).setU32 (l - NDIRECT) a := by
    rw [hd', Function.update_self]
  have hother : ∀ b, b ≠ addrs.get NDIRECT → d' b = d b := fun b hb => by
    rw [hd', Function.update_of_ne hb]
  have he : Enters d addrs a d' (.entry (l - NDIRECT)) addrs := .entry hne hj hnone hset
  have hnew : d' a = d a := hother a (ne_of_gt htaken.2)
  have hrole : ∀ j, dataRole j = .entry (l - NDIRECT) ↔ j = l := by
    intro j
    have hl' : dataRole l = .entry (l - NDIRECT) := if_neg (not_lt.mpr hd)
    rw [← hl']
    exact ⟨dataRole_inj, congrArg dataRole⟩
  have hmap := fun j hj => bmap_attach (j := j) he hl.pos hle hj
  simp only [hrole] at hmap
  refine ⟨hl.attach hA hle he hother, ⟨hmax, fun j hj' => ?_, ?_⟩,
    hl.attach_same hA hle he hother hnew, hl.elsewhere hA hother, fun b hb => hother b ?_,
    (hmap l hmax).trans (if_pos rfl)⟩
  · rw [hmap j hj']
    by_cases hjl : j = l
    · rw [if_pos hjl]
      exact iff_of_true hl.pos (by omega)
    · rw [if_neg hjl, hs j hj']
      omega
  · exact iff_of_true hne (Nat.lt_succ_of_le hd)
  · exact (lt_of_lt_of_le hb htaken.1).ne

/-- The indirect block is attached. It is zero already, so nothing is written. -/
theorem attach_indirect {d : Disk} {a : Nat} (hl : Laid a d A) (hA : A n = some addrs)
    (hs : Spans d addrs l) (hz : addrs.get NDIRECT = 0) (hle : a < 2 ^ 32) :
    Laid (a + 1) d (Function.update A n (some (addrs.set NDIRECT a))) ∧
      SameFile d addrs d (addrs.set NDIRECT a) ∧
      ∀ i, i < MAXFILE → (bmap d (addrs.set NDIRECT a) i ≠ 0 ↔ i < l) := by
  have he : Enters d addrs a d .indirect (addrs.set NDIRECT a) := .indirect hz (hl.fresh a le_rfl)
  refine ⟨hl.attach hA hle he fun _ _ => rfl, hl.attach_same hA hle he (fun _ _ => rfl) rfl,
    fun i hi => ?_⟩
  rw [bmap_attach he hl.pos hle hi, if_neg (dataRole_ne_indirect i)]
  exact hs.mapped i hi

/-- What `iappend.block` leaves: the file has the block, which is `x`. -/
structure GotBlock (A : Nat → Option Addrs) (n : Nat) (s : Maker) (din : Dinode) (l fbn : Nat)
    (r : Nat × Dinode) (t : Maker) : Prop where
  grows : Grows A n s din.addr l t r.2.addr (max l (fbn + 1))
  map : bmap t.image r.2.addr fbn = r.1
  last : l ≤ fbn → t.freeblock = r.1 + 1
  rest : ∃ addrs, r.2 = { din with addrs := addrs }

/-- What the first part leaves when the block is in the indirect block: there is one. -/
structure HasIndirect (A : Nat → Option Addrs) (n : Nat) (s : Maker) (din : Dinode) (l : Nat)
    (din' : Dinode) (t : Maker) : Prop where
  laid : Laid t.freeblock t.image (Function.update A n (some din'.addr))
  indirect : din'.addr.get NDIRECT ≠ 0
  mapped : ∀ i, i < MAXFILE → (bmap t.image din'.addr i ≠ 0 ↔ i < l)
  same : SameFile s.image din.addr t.image din'.addr
  rest : ∃ addrs, din' = { din with addrs := addrs }
  state : ∃ freeblock, t = { s with freeblock := freeblock }
  cost : t.freeblock + cost l + 1 = s.freeblock + cost (l + 1)

theorem indirect_ends {E : Stop → Prop} (hl : Laid s.freeblock s.image A) (hA : A n = some din.addr)
    (hs : Spans s.image din.addr l) (hd : NDIRECT ≤ l) (hle : s.freeblock < 2 ^ 22) :
    Ends (iappend.indirect din) s (HasIndirect A n s din l) E := by
  have hle' : s.freeblock < 2 ^ 32 := lt_trans hle (by decide)
  unfold iappend.indirect
  refine .ite (fun hz => ?_) fun hne => .pure ?_
  · have hl12 : l = NDIRECT := by
      by_contra hne
      exact hs.indirect.mpr (lt_of_le_of_ne hd (Ne.symm hne)) hz
    refine .bind (nextBlock_ends (by omega)) fun b t _ ht => .pure ?_
    obtain ⟨rfl, rfl⟩ := ht
    obtain ⟨hlaid, hsame, hmapped⟩ := attach_indirect hl hA hs hz hle'
    rw [← setAddr_addr hle'] at hlaid hsame hmapped
    refine ⟨hlaid, ?_, hmapped, hsame, ⟨_, rfl⟩, ⟨_, rfl⟩, ?_⟩
    · rw [setAddr_addr hle', Addrs.get_set_self]
      exact hl.pos
    · rw [hl12]
      rfl
  · refine ⟨by rwa [update_some_self hA], hne, hs.mapped, fun _ _ => rfl, ⟨_, rfl⟩, ⟨_, rfl⟩, ?_⟩
    have hlt := hs.indirect.mp hne
    unfold Mkxv6.cost
    rw [if_pos hlt, if_pos (Nat.lt_succ_of_lt hlt)]
    omega

namespace HasIndirect

variable {din' : Dinode}

theorem image_eq (h : HasIndirect A n s din l din' t) : t.image = s.image := by
  obtain ⟨freeblock, ht⟩ := h.state
  rw [ht]

theorem nsect_eq (h : HasIndirect A n s din l din' t) : t.nsect = s.nsect := by
  obtain ⟨freeblock, ht⟩ := h.state
  rw [ht]

theorem freeinode_eq (h : HasIndirect A n s din l din' t) : t.freeinode = s.freeinode := by
  obtain ⟨freeblock, ht⟩ := h.state
  rw [ht]

/-- Nothing is taken when the file is in the indirect block already. -/
theorem freeblock_eq (h : HasIndirect A n s din l din' t) (hl : NDIRECT < l) :
    t.freeblock = s.freeblock := by
  have hcost := h.cost
  unfold Mkxv6.cost at hcost
  rw [if_pos hl, if_pos (Nat.lt_succ_of_lt hl)] at hcost
  omega

/-- The block is in the indirect block. -/
theorem found (h : HasIndirect A n s din l din' t) (hmax : l ≤ MAXFILE) (hd : NDIRECT ≤ fbn)
    (hlt : fbn < l) (k : Nat) :
    GotBlock A n s din l fbn (bmap t.image din'.addr fbn, din') (t.accessed k) := by
  have hl : NDIRECT < l := lt_of_le_of_lt hd hlt
  have hspans : Spans t.image din'.addr l := ⟨hmax, h.mapped, iff_of_true h.indirect hl⟩
  have helse : Elsewhere s.image A n t.image := by
    rw [h.image_eq]
    exact .refl s.image A n
  have hcost : t.freeblock + Mkxv6.cost l = s.freeblock + Mkxv6.cost l := by
    rw [h.freeblock_eq hl]
  refine ⟨?_, rfl, fun hge => absurd hlt (not_lt.mpr hge), h.rest⟩
  rw [max_eq_left (Nat.succ_le_of_lt hlt)]
  exact ⟨h.laid, hspans, h.same, helse, fun b _ => congrFun h.image_eq b, hcost, h.nsect_eq,
    h.freeinode_eq⟩

/-- The block is entered in the indirect block. -/
theorem entered (h : HasIndirect A n s din l din' t) (hd : NDIRECT ≤ l) (hmax : l < MAXFILE)
    (hlt : t.freeblock < 2 ^ 32) (hin : din'.addr.get NDIRECT < t.nsect) (k : Nat) :
    GotBlock A n s din l l (t.freeblock, din') { t with
      freeblock := t.freeblock + 1, accesses := k
      image := Function.update t.image (din'.addr.get NDIRECT)
        ((t.image (din'.addr.get NDIRECT)).setU32 (l - NDIRECT) t.freeblock)
      nsect := max t.nsect (din'.addr.get NDIRECT + 1) } := by
  have hA : Function.update A n (some din'.addr) n = some din'.addr := Function.update_self _ _ _
  obtain ⟨hlaid, hspans, hsame, helse, hbefore, hmap⟩ :=
    grows_entry h.laid hA h.mapped hd hmax h.indirect hlt rfl
  rw [Function.update_idem] at hlaid
  rw [h.image_eq] at helse hbefore
  have hcost := h.cost
  refine ⟨?_, hmap, fun _ => rfl, h.rest⟩
  rw [max_eq_right (Nat.le_add_right l 1)]
  refine ⟨hlaid, hspans, h.same.trans hsame, ?_, ?_, ?_, ?_, h.freeinode_eq⟩
  · dsimp only
    rw [h.image_eq]
    exact (Elsewhere.refl s.image A n).trans helse
  · dsimp only
    rw [h.image_eq]
    exact hbefore
  · dsimp only
    omega
  · dsimp only
    rw [max_eq_left (Nat.succ_le_of_lt hin)]
    exact h.nsect_eq

end HasIndirect

theorem block_ends (hl : Laid s.freeblock s.image A) (hA : A n = some din.addr)
    (hs : Spans s.image din.addr l) (hfbn : fbn ≤ l) (hmax : fbn < MAXFILE)
    (hfile : s.nsect = FSSIZE) (hle : s.freeblock ≤ FSSIZE) :
    Ends (iappend.block din fbn) s (GotBlock A n s din l fbn)
      fun _ => Faulty s ∨ FSSIZE + cost l < s.freeblock + cost (max l (fbn + 1)) := by
  have hsmall : s.freeblock < 2 ^ 22 := lt_of_le_of_lt hle (by decide)
  have hsmall' : s.freeblock < 2 ^ 32 := lt_trans hsmall (by decide)
  -- a block that the file has already
  have hold : ∀ k, bmap s.image din.addr fbn ≠ 0 →
      GotBlock A n s din l fbn (bmap s.image din.addr fbn, din) (s.accessed k) := by
    intro k hne
    have hlt := (hs.mapped fbn hmax).mp hne
    refine ⟨?_, rfl, fun hge => absurd hlt (not_lt.mpr hge), _, rfl⟩
    rw [max_eq_left (Nat.succ_le_of_lt hlt)]
    exact .refl hl hA hs k
  -- otherwise it is the next
  have hnext : bmap s.image din.addr fbn = 0 → fbn = l := by
    intro hz
    by_contra hne
    exact (hs.mapped fbn hmax).mpr (lt_of_le_of_ne hfbn hne) hz
  have hmaxl : max l (l + 1) = l + 1 := max_eq_right (Nat.le_succ l)
  unfold iappend.block
  refine .ite (fun hd => .ite (fun hz => ?_) fun hne => ?_) fun hd => ?_
  · obtain rfl := hnext ((bmap_direct hd).trans hz)
    refine .bind (nextBlock_ends (by omega)) fun b t _ ht => .pure ?_
    obtain ⟨rfl, rfl⟩ := ht
    obtain ⟨hgrows, hmap⟩ := grows_direct hl hA hs hd hsmall'
    refine ⟨?_, ?_, fun _ => rfl, _, rfl⟩
    · rw [hmaxl, setAddr_addr hsmall']
      exact hgrows
    · rw [setAddr_addr hsmall']
      exact hmap
  · have hmap : bmap s.image din.addr fbn = din.addr.get fbn := bmap_direct hd
    have h := hold s.accesses (by rwa [hmap])
    rw [hmap] at h
    exact .pure h
  · rw [not_lt] at hd
    refine .bind (indirect_ends hl hA hs (le_trans hd hfbn) hsmall) fun din₁ t₁ hst₁ h₁ => ?_
    have hA₁ : Function.update A n (some din₁.addr) n = some din₁.addr := Function.update_self _ _ _
    have htaken := used_indirect h₁.laid.owned hA₁ h₁.indirect
    have hlow := htaken.2
    have hcost := h₁.cost
    have hgap : Mkxv6.cost (l + 1) ≤ Mkxv6.cost l + 2 := by
      unfold Mkxv6.cost
      split <;> split <;> omega
    have hsmall₁ : t₁.freeblock < 2 ^ 22 - 1 := by
      unfold FSSIZE at hle
      omega
    have hind : din₁.addr.get NDIRECT < 2 ^ 22 := by omega
    refine .call (rsect_ends hind) (fun _ he => ?_) fun indirect t₂ hst₂ h₂ => ?_
    · rcases he with hf | hend
      · exact .inl (hf.of_le hst₁)
      -- the indirect block has just been taken
      · rw [h₁.nsect_eq, hfile] at hend
        obtain rfl : fbn = l := by
          by_contra hne
          have := h₁.freeblock_eq (lt_of_le_of_lt hd (lt_of_le_of_ne hfbn hne))
          omega
        rw [hmaxl]
        exact .inr (by omega)
    obtain ⟨rfl, hin, k₂, rfl⟩ := h₂
    have hmap₁ := bmap_entry (d := t₁.image) hd h₁.indirect
    refine .ite (fun hz => ?_) fun hne => .pure ?_
    · rw [hz] at hmap₁
      obtain rfl : fbn = l := by
        by_contra hne
        exact (h₁.mapped fbn hmax).mpr (lt_of_le_of_ne hfbn hne) hmap₁
      refine .bind (nextBlock_ends (show t₁.freeblock < 2 ^ 32 - 1 by omega)) fun b t₃ hst₃ h₃ => ?_
      obtain ⟨rfl, rfl⟩ := h₃
      refine .call (wsect_ends _ hind) (fun _ hf => .inl (hf.of_le (le_trans hst₁ hst₃)))
        fun _ t₄ _ h₄ => .pure ?_
      obtain ⟨k₄, rfl⟩ := h₄
      exact h₁.entered hd hmax (by omega) hin k₄
    · rw [← hmap₁] at hne ⊢
      exact h₁.found hs.le hd ((h₁.mapped fbn hmax).mp hne) k₂

/-! ## The loop -/

/-- The blocks of a file of `len` bytes. -/
def blocksOf (len : Nat) : Nat := (len + (BSIZE - 1)) / BSIZE

/-- The file's bytes are `bytes`, and zeros behind them. -/
structure Holds (d : Disk) (addrs : Addrs) (bytes : List UInt8) : Prop where
  spans : Spans d addrs (blocksOf bytes.length)
  bytes : ∀ x, x < MAXFILE * BSIZE → fbyte d addrs x = bytes.getD x 0

/-- From `s` to `t` the file of inode `n` has become `bytes'`. -/
structure Appended (A : Nat → Option Addrs) (n : Nat) (s : Maker) (bytes : List UInt8) (t : Maker)
    (addrs' : Addrs) (bytes' : List UInt8) : Prop where
  laid : Laid t.freeblock t.image (Function.update A n (some addrs'))
  holds : Holds t.image addrs' bytes'
  elsewhere : Elsewhere s.image A n t.image
  before : ∀ b, b < nmeta → t.image b = s.image b
  cost : t.freeblock + cost (blocksOf bytes.length) = s.freeblock + cost (blocksOf bytes'.length)
  room : t.freeblock ≤ FSSIZE
  nsect : t.nsect = s.nsect
  freeinode : t.freeinode = s.freeinode

theorem Appended.trans {u : Maker} {addrs'' : Addrs} {bytes' bytes'' : List UInt8}
    (h : Appended A n s bytes t addrs bytes')
    (h' : Appended (Function.update A n (some addrs)) n t bytes' u addrs'' bytes'') :
    Appended A n s bytes u addrs'' bytes'' where
  laid := by
    have hl := h'.laid
    rwa [Function.update_idem] at hl
  holds := h'.holds
  elsewhere := h.elsewhere.trans h'.elsewhere
  before b hb := (h'.before b hb).trans (h.before b hb)
  cost := by
    have h1 := h.cost
    have h2 := h'.cost
    omega
  room := h'.room
  nsect := h'.nsect.trans h.nsect
  freeinode := h'.freeinode.trans h.freeinode

theorem Appended.refl (hl : Laid s.freeblock s.image A) (hA : A n = some addrs)
    (hh : Holds s.image addrs bytes) (hle : s.freeblock ≤ FSSIZE) (k : Nat) :
    Appended A n s bytes (s.accessed k) addrs bytes where
  laid := by rwa [update_some_self hA]
  holds := hh
  elsewhere := .refl s.image A n
  before _ _ := rfl
  cost := rfl
  room := hle
  nsect := rfl
  freeinode := rfl

theorem cost_mono {l l' : Nat} (h : l ≤ l') : cost l ≤ cost l' := by
  unfold cost
  split <;> split <;> omega

theorem blocksOf_mono {k k' : Nat} (h : k ≤ k') : blocksOf k ≤ blocksOf k' :=
  Nat.div_le_div_right (Nat.add_le_add_right h _)

/-- The bytes of one round. -/
def roundLen (bytes p : List UInt8) : Nat :=
  min p.length ((bytes.length / BSIZE + 1) * BSIZE - bytes.length)

theorem roundLen_pos (hp : p ≠ []) : 0 < roundLen bytes p := by
  have hpos := List.length_pos_iff.mpr hp
  unfold roundLen BSIZE
  omega

theorem blocksOf_round (hp : p ≠ []) : max (blocksOf bytes.length) (bytes.length / BSIZE + 1) =
    blocksOf (bytes ++ p.take (roundLen bytes p)).length := by
  have hpos : 0 < roundLen bytes p := roundLen_pos hp
  have hle : roundLen bytes p ≤ p.length := min_le_left _ _
  have hle' : roundLen bytes p ≤ (bytes.length / BSIZE + 1) * BSIZE - bytes.length :=
    min_le_right _ _
  rw [List.length_append, List.length_take, min_eq_left hle]
  unfold blocksOf BSIZE at *
  omega

/-- The bytes of the file after the round. -/
theorem getD_append_take (x : Nat) :
    (bytes ++ p.take (roundLen bytes p)).getD x 0 =
      if bytes.length ≤ x ∧ x < bytes.length + roundLen bytes p then p.getD (x - bytes.length) 0
      else bytes.getD x 0 := by
  by_cases hlow : bytes.length ≤ x
  · rw [List.getD_append_right _ _ _ _ hlow]
    by_cases hin : x < bytes.length + roundLen bytes p
    · rw [if_pos ⟨hlow, hin⟩, List.getD_eq_getElem?_getD, List.getD_eq_getElem?_getD,
        List.getElem?_take_of_lt (by omega)]
    · rw [if_neg fun hc => hin hc.2, List.getD_eq_default _ _ hlow]
      exact List.getD_eq_default _ _ (by rw [List.length_take]; omega)
  · rw [if_neg fun hc => hlow hc.1, List.getD_append _ _ _ _ (not_le.mp hlow)]

/-- A byte is one of the round when its position in the block is in the window that is stored. -/
theorem inRound_iff {x : Nat} : (bytes.length ≤ x ∧ x < bytes.length + roundLen bytes p) ↔
    x / BSIZE = bytes.length / BSIZE ∧
      bytes.length - bytes.length / BSIZE * BSIZE ≤ x % BSIZE ∧
      x % BSIZE < bytes.length - bytes.length / BSIZE * BSIZE + roundLen bytes p := by
  have hle : roundLen bytes p ≤ (bytes.length / BSIZE + 1) * BSIZE - bytes.length :=
    min_le_right _ _
  unfold BSIZE at *
  omega

/-- The bytes of the round are stored. -/
theorem GotBlock.stored {r : Nat × Dinode} (hp : p ≠ []) (hh : Holds s.image din.addr bytes)
    (hmax : bytes.length / BSIZE < MAXFILE) (hle : s.freeblock ≤ FSSIZE) (hfile : s.nsect = FSSIZE)
    (h : GotBlock A n s din (blocksOf bytes.length) (bytes.length / BSIZE) r t)
    (hin : r.1 < t.nsect) (k : Nat) :
    Appended A n s bytes { t with
        accesses := k
        image := Function.update t.image r.1 ((t.image r.1).patch
          (bytes.length - bytes.length / BSIZE * BSIZE) (roundLen bytes p) fun i => p.getD i 0)
        nsect := max t.nsect (r.1 + 1) } r.2.addr (bytes ++ p.take (roundLen bytes p)) := by
  have hg := h.grows
  have hmap := h.map
  have hA' : Function.update A n (some r.2.addr) n = some r.2.addr := Function.update_self _ _ _
  have hround : max (blocksOf bytes.length) (bytes.length / BSIZE + 1) = _ := blocksOf_round hp
  have hne : bmap t.image r.2.addr (bytes.length / BSIZE) ≠ 0 :=
    (hg.spans.mapped _ hmax).mpr (lt_of_lt_of_le (Nat.lt_succ_self _) (le_max_right _ _))
  have htaken := used_bmap hg.laid.owned hA' hmax hne
  -- the bytes before the store
  have hold : ∀ x, x < MAXFILE * BSIZE → fbyte t.image r.2.addr x = bytes.getD x 0 := fun x hx =>
    (hg.same.fbyte hx).trans (hh.bytes x hx)
  generalize hblk : (t.image r.1).patch (bytes.length - bytes.length / BSIZE * BSIZE)
    (roundLen bytes p) (fun i => p.getD i 0) = blk
  have hwrite := fun x hx => fbyte_store (x := x) hg.laid.owned hA' hmax hmap (hmap ▸ hne) blk hx
  have hlaid := hg.laid.store hA' hmax hne blk
  have helse : Elsewhere t.image (Function.update A n (some r.2.addr)) n
      (Function.update t.image r.1 blk) := by
    intro m other hm hA'' j hj
    have hst := fblock_store hg.laid.owned hA' hmax hne blk hA'' hj
    rw [hmap, if_neg fun hc => hm hc.1] at hst
    exact hst
  have hspans : Spans (Function.update t.image r.1 blk) _ _ := hg.spans.congr fun _ => by
    rw [← hmap]
    exact Function.update_of_ne (bmap_apart_indirect hg.laid.owned hA' hA' hmax hne).symm _ _
  rw [hmap] at hlaid htaken
  rw [hround] at hspans
  refine ⟨hlaid, ⟨hspans, fun x hx => ?_⟩, hg.elsewhere.trans helse, fun b hb => ?_, ?_, ?_, ?_,
    hg.freeinode⟩
  · dsimp only
    rw [hwrite x hx, getD_append_take]
    by_cases hwin : bytes.length ≤ x ∧ x < bytes.length + roundLen bytes p
    · obtain ⟨hblock, hlow, hhigh⟩ := inRound_iff.mp hwin
      have hfit : roundLen bytes p ≤ (bytes.length / BSIZE + 1) * BSIZE - bytes.length :=
        min_le_right _ _
      have hpos : x % BSIZE - (bytes.length - bytes.length / BSIZE * BSIZE) = x - bytes.length := by
        unfold BSIZE at *
        omega
      rw [if_pos hblock, if_pos hwin, ← hblk,
        Buf.byte_patch_in _ _ (by unfold BSIZE at *; omega) hlow hhigh, hpos]
    · rw [if_neg hwin]
      by_cases hblock : x / BSIZE = bytes.length / BSIZE
      · have hout : x % BSIZE < bytes.length - bytes.length / BSIZE * BSIZE ∨
            bytes.length - bytes.length / BSIZE * BSIZE + roundLen bytes p ≤ x % BSIZE := by
          by_contra hc
          rw [not_or, not_lt, not_le] at hc
          exact hwin (inRound_iff.mpr ⟨hblock, hc⟩)
        rw [if_pos hblock, ← hblk, Buf.byte_patch_out _ _ hout, ← hold x hx]
        unfold fbyte fblock
        rw [hblock, if_neg hne, hmap]
      · rw [if_neg hblock, hold x hx]
  · dsimp only
    rw [Function.update_of_ne (lt_of_lt_of_le hb htaken.1).ne]
    exact hg.before b hb
  · dsimp only
    rw [← hround]
    exact hg.cost
  · -- the last block that was taken has a sector
    dsimp only
    have hcost := hg.cost
    have hnsect := hg.nsect
    by_cases hlast : blocksOf bytes.length ≤ bytes.length / BSIZE
    · have := h.last hlast
      omega
    · rw [max_eq_left (by omega)] at hcost
      omega
  · dsimp only
    rw [max_eq_left (Nat.succ_le_of_lt hin)]
    exact hg.nsect

/-- Why an append of `p` stops: an access fails, the file would be too long, or the image has no
    sector for one of its blocks. -/
def Refused (s : Maker) (bytes p : List UInt8) : Prop :=
  Faulty s ∨ MAXFILE * BSIZE < (bytes ++ p).length ∨
    FSSIZE + cost (blocksOf bytes.length) < s.freeblock + cost (blocksOf (bytes ++ p).length)

theorem Refused.of_appended {addrs' : Addrs} {bytes' : List UInt8} (hle : s ≤ t)
    (h : Appended A n s bytes t addrs' bytes') {p' : List UInt8} (hp : bytes' ++ p' = bytes ++ p)
    (hr : Refused t bytes' p') : Refused s bytes p := by
  have hcost := h.cost
  unfold Refused at hr ⊢
  rw [hp] at hr
  rcases hr with hf | hlen | hroom
  · exact .inl (hf.of_le hle)
  · exact .inr (.inl hlen)
  · exact .inr (.inr (by omega))

theorem Holds.length_le {d : Disk} (h : Holds d addrs bytes) : bytes.length ≤ MAXFILE * BSIZE := by
  have hle := h.spans.le
  unfold blocksOf at hle
  unfold MAXFILE BSIZE at *
  omega

theorem loop_ends : ∀ {rounds : Nat} {p bytes : List UInt8} {s : Maker} {A : Nat → Option Addrs}
    {din : Dinode}, p.length ≤ rounds → Laid s.freeblock s.image A → A n = some din.addr →
    Holds s.image din.addr bytes → s.nsect = FSSIZE → s.freeblock ≤ FSSIZE →
    Ends (iappend.loop rounds p bytes.length din) s
      (fun r t => Appended A n s bytes t r.2.addr (bytes ++ p) ∧ r.1 = (bytes ++ p).length ∧
        ∃ addrs, r.2 = { din with addrs := addrs })
      fun _ => Refused s bytes p
  | 0, p, bytes, s, A, din, hlen, hl, hA, hh, _, hle => by
    obtain rfl := List.length_eq_zero_iff.mp (Nat.le_zero.mp hlen)
    rw [List.append_nil]
    exact .pure ⟨.refl hl hA hh hle s.accesses, rfl, _, rfl⟩
  | rounds + 1, p, bytes, s, A, din, hlen, hl, hA, hh, hfile, hle => by
    unfold iappend.loop
    refine .ite (fun hnil => ?_) fun hne => ?_
    · obtain rfl := List.length_eq_zero_iff.mp hnil
      rw [List.append_nil]
      exact .pure ⟨.refl hl hA hh hle s.accesses, rfl, _, rfl⟩
    have hp : p ≠ [] := fun hc => hne (List.length_eq_zero_iff.mpr hc)
    have hpos : 0 < roundLen bytes p := roundLen_pos hp
    have hshort : roundLen bytes p ≤ p.length := min_le_left _ _
    refine .bind (Q := fun _ t => t = s ∧ bytes.length / BSIZE < MAXFILE) ?_ fun _ t _ ht => ?_
    · unfold assert
      refine .ite (fun hmax => .pure ⟨rfl, hmax⟩) fun hmax => .halt (.inr (.inl ?_))
      rw [List.length_append]
      unfold BSIZE MAXFILE at *
      omega
    obtain ⟨rfl, hmax⟩ := ht
    have hround : max (blocksOf bytes.length) (bytes.length / BSIZE + 1) = _ := blocksOf_round hp
    have hcost : cost (max (blocksOf bytes.length) (bytes.length / BSIZE + 1)) ≤
        cost (blocksOf (bytes ++ p).length) := by
      rw [hround]
      refine cost_mono (blocksOf_mono ?_)
      rw [List.length_append, List.length_append, List.length_take]
      omega
    have hfbn : bytes.length / BSIZE ≤ blocksOf bytes.length :=
      Nat.div_le_div_right (Nat.le_add_right _ _)
    refine .call (block_ends hl hA hh.spans hfbn hmax hfile hle) (fun _ he => ?_)
      fun r t₁ hst₁ h₁ => ?_
    · rcases he with hf | hroom
      · exact .inl hf
      · exact .inr (.inr (by omega))
    obtain ⟨x, din₁⟩ := r
    have hg := h₁.grows
    have hcost₁ := hg.cost
    have hA₁ : Function.update A n (some din₁.addr) n = some din₁.addr := Function.update_self _ _ _
    have hne₁ : bmap t₁.image din₁.addr (bytes.length / BSIZE) ≠ 0 :=
      (hg.spans.mapped _ hmax).mpr (lt_of_lt_of_le (Nat.lt_succ_self _) (le_max_right _ _))
    have htaken := used_bmap hg.laid.owned hA₁ hmax hne₁
    have hmap : bmap t₁.image din₁.addr (bytes.length / BSIZE) = x := h₁.map
    rw [hmap] at htaken
    have hx : x < 2 ^ 22 := by
      have hbound :
          cost (max (blocksOf bytes.length) (bytes.length / BSIZE + 1)) ≤ MAXFILE + 1 := by
        have hspan := hg.spans.le
        unfold cost
        split <;> omega
      have hlow := htaken.2
      unfold FSSIZE at hle
      unfold MAXFILE at hbound
      omega
    refine .call (rsect_ends hx) (fun _ he => ?_) fun buf t₂ hst₂ h₂ => ?_
    · rcases he with hf | hend
      · exact .inl (hf.of_le hst₁)
      · have hlow := htaken.2
        rw [hg.nsect, hfile] at hend
        exact .inr (.inr (by omega))
    obtain ⟨rfl, hin, k₂, rfl⟩ := h₂
    refine .call (wsect_ends _ hx) (fun _ hf => .inl (hf.of_le hst₁)) fun _ t₃ hst₃ h₃ => ?_
    obtain ⟨k₃, rfl⟩ := h₃
    have happ := h₁.stored hp hh hmax hle hfile hin k₃
    have hp' : (bytes ++ p.take (roundLen bytes p)) ++ p.drop (roundLen bytes p) = bytes ++ p := by
      rw [List.append_assoc, List.take_append_drop]
    have hoff : (bytes.length + roundLen bytes p) % 2 ^ 32 =
        (bytes ++ p.take (roundLen bytes p)).length := by
      have hlen' := happ.holds.length_le
      rw [List.length_append, List.length_take, min_eq_left hshort] at hlen' ⊢
      refine Nat.mod_eq_of_lt ?_
      unfold MAXFILE BSIZE at hlen'
      omega
    have hle₃ := le_trans hst₁ (le_trans hst₂ hst₃)
    have hdrop : (p.drop (roundLen bytes p)).length ≤ rounds := by
      rw [List.length_drop]
      omega
    have hrest := loop_ends hdrop happ.laid (Function.update_self _ _ _) happ.holds
      (happ.nsect.trans hfile) happ.room
    rw [← hoff, hp'] at hrest
    refine hrest.weaken (fun r u _ hu => ?_) fun _ hr => hr.of_appended hle₃ happ hp'
    obtain ⟨happ', hr, addrs, hrest'⟩ := hu
    obtain ⟨addrs₁, hdin₁⟩ := h₁.rest
    exact ⟨happ.trans happ', hr, addrs, by rw [hrest', show din₁ = _ from hdin₁]⟩

end

end Xv6fs.Mkxv6
