/-
  What the operations do to the entries of their directory.

  Writing one entry of a directory changes that entry and nothing else of any file.
-/
import Xv6fs.Dir.Ops
import Xv6fs.Fs.Frame

namespace Xv6fs

/-- The directory has entry `k` set to `de`. -/
def SlotSet (d : Disk) (addrs : Addrs) (k : Nat) (de : Dirent) (d' : Disk) (addrs' : Addrs) :
    Prop :=
  ∀ i, i < MAXFILE * NENTS → dslot d' addrs' i = if i = k then de else dslot d addrs i

section

variable {d d' d'' : Disk} {k m n b : Nat} {e : Int} {env : Env}
  {addrs addrs' addrs'' : Addrs} {A : Nat → Option Addrs} {de : Dirent}

theorem slot_block (hk : k < MAXFILE * NENTS) : k / NENTS < MAXFILE := by
  simp only [MAXFILE, NENTS] at hk ⊢
  omega

theorem SameFile.slots (h : SameFile d addrs d' addrs') {i : Nat} (hi : i < MAXFILE * NENTS) :
    dslot d' addrs' i = dslot d addrs i := by
  unfold dslot
  rw [h _ (slot_block hi)]

theorem SameFile.slotSet (h : SameFile d addrs d' addrs')
    (h₂ : SlotSet d' addrs' k de d'' addrs'') : SlotSet d addrs k de d'' addrs'' := by
  intro i hi
  rw [h₂ i hi, h.slots hi]

/-- The entries of another directory are as they were. -/
theorem Elsewhere.slots (h : Elsewhere d A n d') (hm : m ≠ n) (hA : A m = some addrs) {i : Nat}
    (hi : i < MAXFILE * NENTS) : dslot d' addrs i = dslot d addrs i := by
  unfold dslot
  rw [(h m addrs hm hA _ (slot_block hi)).2]

/-! ## Writing one entry -/

section Store

variable (ho : Owned env d A) (hA : A n = some addrs) (hk : k / NENTS < MAXFILE)
  (hb : bmap d addrs (k / NENTS) = b) (hne : b ≠ 0)

include ho hA hk hb hne

/-- Writing entry `k` sets it. -/
theorem slotSet_update :
    SlotSet d addrs k de (Function.update d b ((d b).setDirent (k % NENTS) de)) addrs := by
  subst hb
  intro i hi
  unfold dslot
  rw [(fblock_store ho hA hk hne _ hA (slot_block hi)).2]
  have hfk : fblock d addrs (k / NENTS) = d (bmap d addrs (k / NENTS)) := if_neg hne
  have hmod : k % NENTS < 64 := Nat.mod_lt _ (by decide)
  by_cases hik : i / NENTS = k / NENTS
  · rw [if_pos ⟨rfl, hik⟩, hik, hfk]
    by_cases hmodeq : i % NENTS = k % NENTS
    · have heq : i = k := by
        rw [← Nat.div_add_mod' i NENTS, hik, hmodeq, Nat.div_add_mod']
      rw [if_pos heq, hmodeq, Block.dirent_setDirent _ _ hmod]
    · have hneq : i ≠ k := fun heq => hmodeq (by rw [heq])
      rw [if_neg hneq, Block.dirent_setDirent_ne _ _ hmodeq]
  · have hneq : i ≠ k := fun heq => hik (by rw [heq])
    rw [if_neg fun hc => hik hc.2, if_neg hneq]

theorem Stored.slot (h : Stored d b ((d b).setDirent (k % NENTS) de) e d') :
    (d' = d ∨ SlotSet d addrs k de d' addrs) ∧ (e = 0 → SlotSet d addrs k de d' addrs) := by
  have hset : SlotSet d addrs k de (Function.update d b ((d b).setDirent (k % NENTS) de)) addrs :=
    slotSet_update ho hA hk hb hne
  constructor
  · rcases h.disk with h | h
    · exact .inl h
    · rw [h]
      exact .inr hset
  · rintro rfl
    rw [h.ok]
    exact hset

end Store

end

end Xv6fs
