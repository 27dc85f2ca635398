/-
  Valid directories and the map they hold.

  The entries in use of a valid directory are a table whose keys are the name fields, so it maps a
  name to at most one inode number (`dirMap`). Writing a new entry into the first unused one adds a
  name (`ValidDir.put`), and erasing an entry removes one (`ValidDir.clear`).
-/
import Xv6fs.Dir.Contents
import Xv6fs.Lib.Table
import Mathlib.Data.Fintype.Basic

namespace Xv6fs

/-! ## Definitions -/

/-- A name that an entry behind '.' and '..' can have. -/
structure EntryName where
  name : FileName
  ok : NameOk name
  fits : name.length ≤ DIRSIZ
  notDots : ¬ (name = dot ∨ name = dotdot)

instance : DecidableEq EntryName := fun a b =>
  decidable_of_iff (a.name = b.name) ⟨fun h => by cases a; cases b; cases h; rfl, congrArg _⟩

/-- The name field and the inode number of an entry in use. -/
def Dirent.binding (de : Dirent) : Option (Name × UInt16) :=
  if de.inum = 0 then none else some (de.name, de.inum)

/-- The entries of a directory as a table. -/
def dirTable (d : Disk) (addrs : Addrs) (k : Nat) : Option (Name × UInt16) :=
  (dslot d addrs k).binding

/-- The inode number that a directory maps a name to. -/
def dirMap (d : Disk) (addrs : Addrs) (size : Nat) (n : EntryName) : Option UInt16 :=
  Table.find (dirTable d addrs) (size / 16) (strncpy n.name)

structure ValidDir (d : Disk) (addrs : Addrs) (size : Nat) : Prop where
  mul : size % 16 = 0
  ge : 2 * 16 ≤ size
  le : size ≤ MAXFILE * BSIZE
  dot : (dslot d addrs 0).name = strncpy dot
  dotdot : (dslot d addrs 1).name = strncpy dotdot
  /-- an entry in use has a name that is not empty, padded with zeros -/
  used : ∀ k, k < size / 16 → (dslot d addrs k).inum ≠ 0 →
    (dslot d addrs k).name 0 ≠ 0 ∧ Padded (dslot d addrs k).name
  distinct : Table.Distinct (dirTable d addrs) (size / 16)
  unused : ∀ k, k < size / 16 → (dslot d addrs k).inum = 0 → (dslot d addrs k).name 0 = 0
  /-- behind the last entry no entry is in use; in a hole every entry reads as unused -/
  past : ∀ k, size / 16 ≤ k → k < MAXFILE * NENTS →
    (dslot d addrs k).inum = 0 ∧ (dslot d addrs k).name 0 = 0

section

variable {d d' : Disk} {addrs addrs' : Addrs} {size size' k : Nat} {n : EntryName} {inum : UInt16}

theorem nameOk_dot : NameOk dot := ⟨by simp [Xv6fs.dot], by simp [Xv6fs.dot]⟩

theorem nameOk_dotdot : NameOk dotdot := ⟨by simp [Xv6fs.dotdot], by simp [Xv6fs.dotdot]⟩

theorem EntryName.field_inj {a b : EntryName} (h : strncpy a.name = strncpy b.name) : a = b := by
  have hname := strncpy_inj a.ok b.ok a.fits b.fits h
  cases a
  cases b
  cases hname
  rfl

theorem Dirent.binding_eq_some {de : Dirent} {nm : Name} :
    de.binding = some (nm, inum) ↔ inum ≠ 0 ∧ de.name = nm ∧ de.inum = inum := by
  unfold Dirent.binding
  by_cases h : de.inum = 0
  · rw [if_pos h]
    exact iff_of_false (by simp) fun hc => hc.1 (hc.2.2.symm.trans h)
  · rw [if_neg h, Option.some.injEq, Prod.mk.injEq]
    exact ⟨fun hc => ⟨hc.2 ▸ h, hc⟩, fun hc => hc.2⟩

theorem dirMap_eq_none : dirMap d addrs size n = none ↔
    ∀ i, i < size / 16 → ∀ v, dirTable d addrs i ≠ some (strncpy n.name, v) :=
  Table.find_eq_none

theorem size_slots (h : size ≤ MAXFILE * BSIZE) : size / 16 ≤ MAXFILE * NENTS := by
  simp only [MAXFILE, BSIZE, NENTS] at h ⊢
  omega

namespace ValidDir

variable (hv : ValidDir d addrs size)

include hv

theorem slots_le : size / 16 ≤ MAXFILE * NENTS := size_slots hv.le

theorem two_le : 2 ≤ size / 16 := by
  have := hv.ge
  omega

theorem dirMap_eq_some : dirMap d addrs size n = some inum ↔
    ∃ i, i < size / 16 ∧ dirTable d addrs i = some (strncpy n.name, inum) :=
  Table.find_eq_some hv.distinct

/-- The field matches a name exactly when the entry is in use and holds it. -/
theorem matches_iff (hk : k < size / 16) : Matches n.name (dslot d addrs k) ↔
    dirTable d addrs k = some (strncpy n.name, (dslot d addrs k).inum) := by
  unfold dirTable Matches
  rw [Dirent.binding_eq_some]
  by_cases h : (dslot d addrs k).inum = 0
  · rw [strncmpEq_unused n.ok (hv.unused k hk h)]
    exact iff_of_false (by decide) fun hc => hc.1 h
  · rw [strncmpEq_iff n.ok (hv.used k hk h).2]
    exact ⟨fun hname => ⟨h, hname, rfl⟩, fun hc => hc.2.1⟩

theorem not_matches_dots : ¬ Matches n.name (dslot d addrs 0) ∧
    ¬ Matches n.name (dslot d addrs 1) := by
  have htwo := hv.two_le
  have hne : ∀ {k} {target : FileName}, k < size / 16 → NameOk target → target.length ≤ DIRSIZ →
      (dslot d addrs k).name = strncpy target → n.name ≠ target →
      ¬ Matches n.name (dslot d addrs k) := by
    intro k target hk hok hfits hslot hname hmatch
    have hfield := (Dirent.binding_eq_some.mp ((hv.matches_iff hk).mp hmatch)).2.1
    exact hname (strncpy_inj n.ok hok n.fits hfits (hfield.symm.trans hslot))
  refine ⟨hne (by omega) nameOk_dot (by decide) hv.dot fun h => n.notDots (.inl h),
    hne (by omega) nameOk_dotdot (by decide) hv.dotdot fun h => n.notDots (.inr h)⟩

/-- No entry from the first on matches a name that is not mapped. -/
theorem dirMap_none_iff : dirMap d addrs size n = none ↔
    ∀ k, k < size / 16 → ¬ Matches n.name (dslot d addrs k) := by
  rw [dirMap_eq_none]
  constructor
  · intro h k hk hmatch
    exact h k hk _ ((hv.matches_iff hk).mp hmatch)
  · intro h k hk v hslot
    have hinum := (Dirent.binding_eq_some.mp hslot).2.2
    refine h k hk ((hv.matches_iff hk).mpr ?_)
    rw [hslot, hinum]

theorem dirMap_some_of_match (hk : k < size / 16) (h : Matches n.name (dslot d addrs k)) :
    dirMap d addrs size n = some (dslot d addrs k).inum :=
  hv.dirMap_eq_some.mpr ⟨k, hk, (hv.matches_iff hk).mp h⟩

/-- What `xv6_find_inum` finds is the map. -/
theorem found_map {de : Dirent} (h : Found d addrs size n.name k de) :
    (k ≠ 0 ∧ dirMap d addrs size n = some de.inum) ∨ (k = 0 ∧ dirMap d addrs size n = none) := by
  rcases h with ⟨hk, hmatch, rfl, -⟩ | ⟨rfl, -, hno⟩
  · refine .inl ⟨?_, hv.dirMap_some_of_match hk hmatch⟩
    rintro rfl
    exact hv.not_matches_dots.1 hmatch
  · exact .inr ⟨rfl, hv.dirMap_none_iff.mpr hno⟩

/-- An entry that matches has an index from 2 on. -/
theorem two_le_match (h : Matches n.name (dslot d addrs k)) : 2 ≤ k := by
  rcases Nat.lt_or_ge k 2 with hlt | hge
  · obtain rfl | rfl : k = 0 ∨ k = 1 := by omega
    · exact absurd h hv.not_matches_dots.1
    · exact absurd h hv.not_matches_dots.2
  · exact hge

end ValidDir

/-- A table that differs in one name stands for a map that differs there. -/
theorem dirMap_update {size' : Nat} {o : Option UInt16}
    (h : Table.find (dirTable d' addrs') (size' / 16) =
      Function.update (Table.find (dirTable d addrs) (size / 16)) (strncpy n.name) o) :
    dirMap d' addrs' size' = Function.update (dirMap d addrs size) n o := by
  funext m
  unfold dirMap
  rw [h]
  by_cases hm : m = n
  · subst hm
    rw [Function.update_self, Function.update_self]
  · rw [Function.update_of_ne hm, Function.update_of_ne fun hf => hm (EntryName.field_inj hf)]

/-! ## Writing an entry -/

theorem SlotSet.table {de : Dirent} (h : SlotSet d addrs k de d' addrs') :
    (∀ i, i < MAXFILE * NENTS → i ≠ k → dirTable d' addrs' i = dirTable d addrs i) ∧
      (k < MAXFILE * NENTS → dirTable d' addrs' k = de.binding) := by
  refine ⟨fun i hi hne => ?_, fun hk => ?_⟩
  · unfold dirTable
    rw [h i hi, if_neg hne]
  · unfold dirTable
    rw [h k hk, if_pos rfl]

namespace ValidDir

variable (hv : ValidDir d addrs size)

include hv

/-- Erasing the entry that matches a name leaves a valid directory without that name. -/
theorem clear (hk : FirstMatch d addrs size n.name k)
    (h : SlotSet d addrs k Dirent.erased d' addrs) :
    ValidDir d' addrs size ∧
      dirMap d' addrs size = Function.update (dirMap d addrs size) n none := by
  have hslots := hv.slots_le
  have hk2 := hk.ge
  have hklt := hk.lt
  have htwo := hv.two_le
  obtain ⟨hkeep, hset⟩ := h.table
  have hold : ∀ i, i < MAXFILE * NENTS → i ≠ k → dslot d' addrs i = dslot d addrs i :=
    fun i hi hne => (h i hi).trans (if_neg hne)
  have hkeep' : ∀ i, i < size / 16 → i ≠ k → dirTable d' addrs i = dirTable d addrs i :=
    fun i hi => hkeep i (by omega)
  have hcleared : dirTable d' addrs k = none := (hset (by omega)).trans (if_pos rfl)
  have hhad := (hv.matches_iff hklt).mp hk.sat
  have herased : dslot d' addrs k = Dirent.erased := (h k (by omega)).trans (if_pos rfl)
  refine ⟨⟨hv.mul, hv.ge, hv.le, ?_, ?_, ?_, Table.distinct_clear hv.distinct hkeep' hcleared, ?_,
    ?_⟩, ?_⟩
  · rw [hold 0 (by omega) (by omega)]
    exact hv.dot
  · rw [hold 1 (by omega) (by omega)]
    exact hv.dotdot
  · intro i hi hinum
    by_cases hik : i = k
    · subst hik
      rw [herased] at hinum
      exact absurd rfl hinum
    · rw [hold i (by omega) hik] at hinum ⊢
      exact hv.used i hi hinum
  · intro i hi hinum
    by_cases hik : i = k
    · subst hik
      rw [herased]
      rfl
    · rw [hold i (by omega) hik] at hinum ⊢
      exact hv.unused i hi hinum
  · intro i hi hi'
    rw [hold i hi' (by omega)]
    exact hv.past i hi hi'
  · exact dirMap_update (Table.find_clear hv.distinct hkeep' hcleared hklt hhad)

/-- Writing an unused entry, the one behind the last included, adds a name. -/
theorem put (hk : k ≤ size / 16) (hmax : k < MAXFILE * NENTS)
    (hfree : k < size / 16 → (dslot d addrs k).inum = 0) (hinum : inum ≠ 0)
    (hnone : dirMap d addrs size n = none)
    (hsize : size' = if k < size / 16 then size else size + 16)
    (h : SlotSet d addrs k ⟨inum, strncpy n.name⟩ d' addrs') :
    ValidDir d' addrs' size' ∧
      dirMap d' addrs' size' = Function.update (dirMap d addrs size) n (some inum) := by
  have hslots := hv.slots_le
  have htwo := hv.two_le
  have hmul := hv.mul
  obtain ⟨hkeep, hset⟩ := h.table
  -- entries 0 and 1 are in use
  have hdots : ∀ {i} {target : FileName}, i < size / 16 → NameOk target →
      (dslot d addrs i).name = strncpy target → i ≠ k := by
    intro i target hi htarget hslot heq
    subst heq
    have hz := hv.unused i hi (hfree hi)
    rw [hslot] at hz
    exact strncpy_first htarget hz
  have hk0 : 0 ≠ k := hdots (by omega) nameOk_dot hv.dot
  have hk1 : 1 ≠ k := hdots (by omega) nameOk_dotdot hv.dotdot
  have hold : ∀ i, i < MAXFILE * NENTS → i ≠ k → dslot d' addrs' i = dslot d addrs i :=
    fun i hi hne => (h i hi).trans (if_neg hne)
  have hnew : dslot d' addrs' k = ⟨inum, strncpy n.name⟩ := (h k hmax).trans (if_pos rfl)
  have hdiv : size / 16 ≤ size' / 16 ∧ size' / 16 ≤ MAXFILE * NENTS ∧ k < size' / 16 ∧
      (∀ j, size / 16 ≤ j → j < size' / 16 → j = k) ∧ size' % 16 = 0 ∧ size ≤ size' := by
    rw [hsize]
    split
    · next hlt => exact ⟨le_rfl, hslots, hlt, fun j h1 h2 => absurd h2 (by omega), hmul, le_rfl⟩
    · next hge =>
      refine ⟨by omega, by omega, by omega, fun j h1 h2 => by omega, by omega, by omega⟩
  obtain ⟨hle, hle', hk', honly, hmul', hgrow⟩ := hdiv
  have hfreeT : k < size / 16 → dirTable d addrs k = none := fun hlt => if_pos (hfree hlt)
  have hsetT : dirTable d' addrs' k = some (strncpy n.name, inum) :=
    (hset hmax).trans (if_neg hinum)
  have hkeepT : ∀ j, j < size' / 16 → j ≠ k → dirTable d' addrs' j = dirTable d addrs j :=
    fun j hj => hkeep j (by omega)
  refine ⟨⟨hmul', le_trans hv.ge hgrow, ?_, ?_, ?_, ?_,
    Table.distinct_put hv.distinct honly hkeepT hsetT hnone, ?_, ?_⟩, ?_⟩
  · simp only [MAXFILE, BSIZE, NENTS] at hle' ⊢
    omega
  · rw [hold 0 (by omega) hk0]
    exact hv.dot
  · rw [hold 1 (by omega) hk1]
    exact hv.dotdot
  · intro i hi hused
    by_cases hik : i = k
    · subst hik
      rw [hnew]
      exact ⟨strncpy_first n.ok, strncpy_padded n.ok⟩
    · have hlt : i < size / 16 := by
        by_contra hge
        exact hik (honly i (by omega) hi)
      rw [hold i (by omega) hik] at hused ⊢
      exact hv.used i hlt hused
  · intro i hi hunused
    by_cases hik : i = k
    · subst hik
      rw [hnew] at hunused
      exact absurd hunused hinum
    · have hlt : i < size / 16 := by
        by_contra hge
        exact hik (honly i (by omega) hi)
      rw [hold i (by omega) hik] at hunused ⊢
      exact hv.unused i hlt hunused
  · intro i hi hi'
    rw [hold i hi' (by omega)]
    exact hv.past i (by omega) hi'
  · exact dirMap_update (Table.find_put hv.distinct honly hkeepT hle hk' hfreeT hsetT hnone)

end ValidDir

/-- A directory whose entries read as before. -/
theorem SameFile.validDir (h : SameFile d addrs d' addrs') (hv : ValidDir d addrs size) :
    ValidDir d' addrs' size ∧ dirMap d' addrs' size = dirMap d addrs size := by
  have hslots := hv.slots_le
  have htwo := hv.two_le
  have hold : ∀ i, i < MAXFILE * NENTS → dslot d' addrs' i = dslot d addrs i := fun i hi =>
    h.slots hi
  have htable : ∀ i, i < size / 16 → dirTable d' addrs' i = dirTable d addrs i := fun i hi => by
    unfold dirTable
    rw [hold i (by omega)]
  refine ⟨⟨hv.mul, hv.ge, hv.le, ?_, ?_, fun i hi => ?_, ?_, fun i hi => ?_, fun i hi hi' => ?_⟩,
    ?_⟩
  · rw [hold 0 (by omega)]
    exact hv.dot
  · rw [hold 1 (by omega)]
    exact hv.dotdot
  · rw [hold i (by omega)]
    exact hv.used i hi
  · intro i j a v v' hi hj h1 h2
    rw [htable i hi] at h1
    rw [htable j hj] at h2
    exact hv.distinct i j a v v' hi hj h1 h2
  · rw [hold i (by omega)]
    exact hv.unused i hi
  · rw [hold i hi']
    exact hv.past i hi hi'
  · funext m
    exact Table.find_congr htable

end

end Xv6fs
