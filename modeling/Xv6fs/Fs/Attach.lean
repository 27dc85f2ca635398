/-
  Which address a lookup with allocation sets.

  File block `i` is reached through one of the 13 addresses, `viaSlot i`. A lookup with `alloc`
  marks the context dirty exactly when that address is not in use, and sets no other. This is read
  off `xv6_inode_addr` and holds over any checker, whatever its allocator and its blocks do.
-/
import Xv6fs.Fs.Map

namespace Xv6fs

/-- The address through which file block `i` is reached. -/
def viaSlot (i : Nat) : Nat := min i NDIRECT

theorem viaSlot_direct {i : Nat} (hi : i < NDIRECT) : viaSlot i = i := min_eq_left hi.le

theorem viaSlot_indirect {i : Nat} (hi : NDIRECT ≤ i) : viaSlot i = NDIRECT := min_eq_right hi

theorem bmap_unused {d : Disk} {addrs : Addrs} {i : Nat} (h : addrs.get (viaSlot i) = 0) :
    bmap d addrs i = 0 := by
  by_cases hi : i < NDIRECT
  · rw [viaSlot_direct hi] at h
    exact (bmap_direct hi).trans h
  · rw [viaSlot_indirect (not_lt.mp hi)] at h
    exact bmap_hole (not_lt.mp hi) h

section

variable {φ : Event → Prop} {check : Checker} {w w' : World} {ctx ctx' : InodeCtx} {i b : Nat}
  {e : Int}

theorem indirect_ctx {alloc : Bool}
    (h : Runs φ (xv6InodeAddr.indirect check ctx i alloc) w (e, b, ctx') w') : ctx' = ctx := by
  simp only [xv6InodeAddr.indirect] at h
  obtain ⟨ok, w₁, -, h⟩ := h.bind
  rcases h.ite with ⟨-, h⟩ | ⟨-, h⟩
  · cases h.pure.1
    rfl
  obtain ⟨data, w₂, -, h⟩ := h.bind
  rcases h.ite with ⟨-, h⟩ | ⟨-, h⟩
  · rcases h.ite with ⟨-, h⟩ | ⟨-, h⟩
    · cases h.pure.1
      rfl
    obtain ⟨⟨e₁, datano⟩, w₃, -, h⟩ := h.bind
    rcases h.ite with ⟨-, h⟩ | ⟨-, h⟩
    · cases h.pure.1
      rfl
    rcases h.ite with ⟨-, h⟩ | ⟨-, h⟩
    · cases h.pure.1
      rfl
    obtain ⟨data', w₄, -, h⟩ := h.bind
    obtain ⟨e₂, w₅, -, h⟩ := h.bind
    cases h.pure.1
    rfl
  · cases h.pure.1
    rfl

/-- The context a lookup leaves is dirty when the address was not in use, and then may have a
    block there. -/
theorem inodeAddr_ctx (hi : i < MAXFILE)
    (h : Runs φ (xv6InodeAddr check ctx i true) w (e, b, ctx') w') :
    if ctx.addrs.get (viaSlot i) = 0 then
      ∃ a, ctx' = { ctx with addrs := ctx.addrs.set (viaSlot i) a, dirty := true }
    else ctx' = { ctx with dirty := false } := by
  simp only [xv6InodeAddr, if_neg (not_le.mpr hi), and_true, Bool.not_true, Bool.false_eq_true,
    if_false] at h
  by_cases hd : i < NDIRECT
  · rw [if_pos hd] at h
    rw [viaSlot_direct hd]
    rcases h.ite with ⟨hz, h⟩ | ⟨hne, h⟩
    · rw [if_pos hz]
      obtain ⟨⟨e₁, a⟩, w₁, -, h⟩ := h.bind
      cases h.pure.1
      exact ⟨a, rfl⟩
    · rw [if_neg hne]
      cases h.pure.1
      rfl
  · rw [if_neg hd] at h
    rw [viaSlot_indirect (not_lt.mp hd)]
    rcases h.ite with ⟨hz, h⟩ | ⟨hne, h⟩
    · rw [if_pos hz]
      obtain ⟨⟨e₁, a⟩, w₁, -, h⟩ := h.bind
      rcases h.ite with ⟨-, h⟩ | ⟨-, h⟩
      · cases h.pure.1
        exact ⟨a, rfl⟩
      rcases h.ite with ⟨-, h⟩ | ⟨-, h⟩
      · cases h.pure.1
        exact ⟨_, rfl⟩
      · exact ⟨_, indirect_ctx h⟩
    · rw [if_neg hne]
      exact indirect_ctx h

end

end Xv6fs
