/-
  Block ownership.

  An inode owns a block once for each occurrence of its number: in a direct slot, in the
  indirect slot, or as an entry of the indirect block (`Role`). `Owned env d A` says that every
  block owned by one of the inodes whose addresses are `A n` is a data block with its bit set
  and is owned once. So no block of a file is an indirect block, and different places of the
  files have different blocks.
-/
import Xv6fs.Fs.Iterate
import Xv6fs.Balloc.UsedSet
import Xv6fs.Lib.Exclusive

namespace Xv6fs

/-- The places of an inode that can name a block. -/
inductive Role where
  | direct (i : Nat)
  | indirect
  | entry (j : Nat)
  deriving DecidableEq

/-- A block number as an option: 0 names no block. -/
def blockNo (b : Nat) : Option Nat := if b = 0 then none else some b

theorem blockNo_eq_some {a b : Nat} : blockNo a = some b ↔ a = b ∧ b ≠ 0 := by
  unfold blockNo
  by_cases h : a = 0
  · rw [if_pos h]
    constructor
    · intro h0
      cases h0
    · rintro ⟨rfl, hb⟩
      exact absurd h hb
  · rw [if_neg h, Option.some.injEq]
    exact ⟨fun hab => ⟨hab, hab ▸ h⟩, fun hab => hab.1⟩

theorem blockNo_inj {a b : Nat} (h : blockNo a = blockNo b) : a = b := by
  by_cases hb : b = 0
  · by_contra hne
    have hsome : blockNo a = some a := blockNo_eq_some.mpr ⟨rfl, fun ha => hne (ha.trans hb.symm)⟩
    rw [h, hb] at hsome
    cases hsome
  · exact (blockNo_eq_some.mp (h.trans (blockNo_eq_some.mpr ⟨rfl, hb⟩))).1

/-- The block an inode with these addresses names at a place. -/
def ownedAt (d : Disk) (addrs : Addrs) : Role → Option Nat
  | .direct i => if i < NDIRECT then blockNo (addrs.get i) else none
  | .indirect => blockNo (addrs.get NDIRECT)
  | .entry j =>
    if j < NINDIRECT ∧ addrs.get NDIRECT ≠ 0 then blockNo ((d (addrs.get NDIRECT)).u32 j) else none

/-- What the inodes of `A` own, by inode number and place. -/
def owns (d : Disk) (A : Nat → Option Addrs) (p : Nat × Role) : Option Nat :=
  (A p.1).bind fun addrs => ownedAt d addrs p.2

/-- A data block whose bit is set. -/
def Held (env : Env) (d : Disk) (b : Nat) : Prop := IsData env b ∧ bitSet env d b = true

/-- Every owned block is a data block with its bit set, and is owned once. -/
abbrev Owned (env : Env) (d : Disk) (A : Nat → Option Addrs) : Prop :=
  Exclusive (Held env d) (owns d A)

theorem owns_of {d : Disk} {A : Nat → Option Addrs} {n : Nat} {addrs : Addrs} {r : Role}
    (hA : A n = some addrs) : owns d A (n, r) = ownedAt d addrs r := by
  unfold owns
  rw [hA]
  rfl

/-- The place that names the block of file block `i`. -/
def dataRole (i : Nat) : Role := if i < NDIRECT then .direct i else .entry (i - NDIRECT)

theorem ownedAt_dataRole {d : Disk} {addrs : Addrs} {i : Nat} (hi : i < MAXFILE) :
    ownedAt d addrs (dataRole i) = blockNo (bmap d addrs i) := by
  unfold dataRole bmap
  by_cases hd : i < NDIRECT
  · rw [if_pos hd, if_pos hd]
    exact if_pos hd
  · rw [if_neg hd, if_neg hd]
    have hj : i - NDIRECT < NINDIRECT := by
      simp only [NDIRECT, MAXFILE, NINDIRECT] at *
      omega
    by_cases hz : addrs.get NDIRECT = 0
    · rw [if_pos hz]
      exact if_neg fun h => h.2 hz
    · rw [if_neg hz]
      exact if_pos ⟨hj, hz⟩

theorem dataRole_ne_indirect (i : Nat) : dataRole i ≠ .indirect := by
  unfold dataRole
  split <;> exact fun h => by cases h

theorem dataRole_inj {i j : Nat} (h : dataRole i = dataRole j) : i = j := by
  unfold dataRole at h
  split at h <;> split at h
  · cases h
    rfl
  · cases h
  · cases h
  · have := Role.entry.inj h
    omega

/-! ## What inodes name, used by whatever is in use -/

section

variable {used : Nat → Prop} {d : Disk} {A : Nat → Option Addrs} {n m i : Nat}
  {addrs addrs' : Addrs}

theorem used_bmap (h : Exclusive used (owns d A)) (hA : A n = some addrs) (hi : i < MAXFILE)
    (hne : bmap d addrs i ≠ 0) : used (bmap d addrs i) := by
  refine h.held (i := (n, dataRole i)) ?_
  rw [owns_of hA, ownedAt_dataRole hi]
  exact blockNo_eq_some.mpr ⟨rfl, hne⟩

theorem used_indirect (h : Exclusive used (owns d A)) (hA : A n = some addrs)
    (hne : addrs.get NDIRECT ≠ 0) : used (addrs.get NDIRECT) := by
  refine h.held (i := (n, .indirect)) ?_
  rw [owns_of hA]
  exact blockNo_eq_some.mpr ⟨rfl, hne⟩

/-- No block of a file is an indirect block. -/
theorem bmap_apart_indirect (h : Exclusive used (owns d A)) (hA : A n = some addrs)
    (hA' : A m = some addrs') (hi : i < MAXFILE) (hne : bmap d addrs i ≠ 0) :
    bmap d addrs i ≠ addrs'.get NDIRECT := by
  intro heq
  have h1 : owns d A (n, dataRole i) = some (bmap d addrs i) := by
    rw [owns_of hA, ownedAt_dataRole hi]
    exact blockNo_eq_some.mpr ⟨rfl, hne⟩
  have h2 : owns d A (m, .indirect) = some (bmap d addrs i) := by
    rw [owns_of hA']
    exact blockNo_eq_some.mpr ⟨heq.symm, hne⟩
  exact dataRole_ne_indirect i (congrArg Prod.snd (h.inj h1 h2))

/-- Different inodes have different indirect blocks. -/
theorem indirect_apart (h : Exclusive used (owns d A)) (hA : A n = some addrs)
    (hA' : A m = some addrs') (hne : addrs.get NDIRECT ≠ 0) (hnm : n ≠ m) :
    addrs.get NDIRECT ≠ addrs'.get NDIRECT := by
  intro heq
  have h1 : owns d A (n, .indirect) = some (addrs.get NDIRECT) := by
    rw [owns_of hA]
    exact blockNo_eq_some.mpr ⟨rfl, hne⟩
  have h2 : owns d A (m, .indirect) = some (addrs.get NDIRECT) := by
    rw [owns_of hA']
    exact blockNo_eq_some.mpr ⟨heq.symm, hne⟩
  exact hnm (congrArg Prod.fst (h.inj h1 h2))

/-- Different places of the files have different blocks. -/
theorem bmap_apart (h : Exclusive used (owns d A)) (hA : A n = some addrs)
    (hA' : A m = some addrs') {j : Nat} (hi : i < MAXFILE) (hj : j < MAXFILE)
    (hne : bmap d addrs i ≠ 0) (heq : bmap d addrs i = bmap d addrs' j) : n = m ∧ i = j := by
  have h1 : owns d A (n, dataRole i) = some (bmap d addrs i) := by
    rw [owns_of hA, ownedAt_dataRole hi]
    exact blockNo_eq_some.mpr ⟨rfl, hne⟩
  have h2 : owns d A (m, dataRole j) = some (bmap d addrs i) := by
    rw [owns_of hA', ownedAt_dataRole hj]
    exact blockNo_eq_some.mpr ⟨heq.symm, hne⟩
  have hinj := h.inj h1 h2
  exact ⟨congrArg Prod.fst hinj, dataRole_inj (congrArg Prod.snd hinj)⟩

end

namespace Owned

variable {env : Env} {d : Disk} {A : Nat → Option Addrs} {n m i : Nat} {addrs addrs' : Addrs}

theorem held_bmap (h : Owned env d A) (hA : A n = some addrs) (hi : i < MAXFILE)
    (hne : bmap d addrs i ≠ 0) : Held env d (bmap d addrs i) :=
  used_bmap h hA hi hne

theorem held_indirect (h : Owned env d A) (hA : A n = some addrs) (hne : addrs.get NDIRECT ≠ 0) :
    Held env d (addrs.get NDIRECT) :=
  used_indirect h hA hne

/-- The addresses are `uint`s. -/
theorem addr_lt (hg : env.info.Sound) (h : Owned env d A) (hA : A n = some addrs) (k : Fin 13) :
    addrs k < 2 ^ 32 := by
  have hlt : ∀ b, Held env d b → b < 2 ^ 32 := fun b hb => lt_trans hb.1.2 hg.size_lt
  have hk : Fin.ofNat 13 k.val = k := Fin.ofNat_val_eq_self k
  by_cases h0 : addrs k = 0
  · rw [h0]
    decide
  · by_cases hlast : k.val < NDIRECT
    · have hmap : bmap d addrs k.val = addrs k := by
        rw [bmap_direct hlast, Addrs.get, hk]
      rw [← hmap] at h0 ⊢
      exact hlt _ (h.held_bmap hA (by simp only [MAXFILE, NDIRECT] at *; omega) h0)
    · have hind : addrs.get NDIRECT = addrs k := by
        have : k = 12 := by
          simp only [NDIRECT] at hlast
          omega
        rw [this]
        rfl
      rw [← hind] at h0 ⊢
      exact hlt _ (h.held_indirect hA h0)

theorem bmap_ne_indirect (h : Owned env d A) (hA : A n = some addrs) (hA' : A m = some addrs')
    (hi : i < MAXFILE) (hne : bmap d addrs i ≠ 0) : bmap d addrs i ≠ addrs'.get NDIRECT :=
  bmap_apart_indirect h hA hA' hi hne

theorem indirect_ne (h : Owned env d A) (hA : A n = some addrs) (hA' : A m = some addrs')
    (hne : addrs.get NDIRECT ≠ 0) (hnm : n ≠ m) : addrs.get NDIRECT ≠ addrs'.get NDIRECT :=
  indirect_apart h hA hA' hne hnm

end Owned

/-! ## A file of one block -/

def oneBlock (b : Nat) : Addrs := fun i => if i = 0 then b else 0

/-- Inode `n` has block `b` and no other inode has one. -/
def oneFile (n b : Nat) : Nat → Option Addrs := fun m => if m = n then some (oneBlock b) else none

theorem oneBlock_get {b i : Nat} (hi : i < 13) : (oneBlock b).get i = if i = 0 then b else 0 := by
  unfold oneBlock Addrs.get
  refine if_congr ?_ rfl rfl
  rw [Fin.ext_iff, Fin.val_ofNat, Nat.mod_eq_of_lt hi]
  rfl

theorem owns_oneFile {d : Disk} {n b x : Nat} {q : Nat × Role}
    (h : owns d (oneFile n b) q = some x) : q = (n, .direct 0) ∧ x = b := by
  obtain ⟨m, r⟩ := q
  have hm : m = n := by
    by_contra hne
    simp [owns, oneFile, hne] at h
  subst hm
  rw [owns_of (if_pos rfl)] at h
  cases r with
  | direct i =>
    have hif : (if i < NDIRECT then blockNo ((oneBlock b).get i) else none) = some x := h
    by_cases hi : i < NDIRECT
    · rw [if_pos hi] at hif
      obtain ⟨hx, hne⟩ := blockNo_eq_some.mp hif
      rw [oneBlock_get (by unfold NDIRECT at hi; omega)] at hx
      by_cases h0 : i = 0
      · rw [if_pos h0] at hx
        exact ⟨by rw [h0], hx.symm⟩
      · rw [if_neg h0] at hx
        exact absurd hx.symm hne
    · rw [if_neg hi] at hif
      cases hif
  | indirect =>
    obtain ⟨hx, hne⟩ := blockNo_eq_some.mp h
    exact absurd hx.symm hne
  | entry j =>
    have hif : (if j < NINDIRECT ∧ (oneBlock b).get NDIRECT ≠ 0 then
        blockNo ((d ((oneBlock b).get NDIRECT)).u32 j) else none) = some x := h
    rw [if_neg fun hc => hc.2 rfl] at hif
    cases hif

theorem exclusive_oneFile {used : Nat → Prop} {n b : Nat} (d : Disk) (hb : used b) :
    Exclusive used (owns d (oneFile n b)) where
  held h := by
    rw [(owns_oneFile h).2]
    exact hb
  inj h h' := (owns_oneFile h).1.trans (owns_oneFile h').1.symm

end Xv6fs
