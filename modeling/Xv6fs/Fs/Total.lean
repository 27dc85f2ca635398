/-
  Searches return.

  Without allocation the block map and the directory iterator return from every state when the
  callback never fails: from block MAXFILE on `xv6_inode_addr` fails, so the loop ends. This is
  so over any checker whose `bread` and `bdata` return; `bflush` has to where it is called.
-/
import Xv6fs.Balloc.Termination
import Xv6fs.Model.Dir

namespace Xv6fs

open Prog (Total total_pure)

section

variable {check : Checker} (hread : ∀ b, Total (check.bread b)) (hdata : ∀ b, Total (check.bdata b))

include hread hdata

theorem total_indirect (ictx : InodeCtx) (i : Nat) :
    Total (xv6InodeAddr.indirect check ictx i false) := by
  unfold xv6InodeAddr.indirect
  refine .bind (hread _) fun _ => .ite (total_pure _) ?_
  refine .bind (hdata _) fun _ => .ite ?_ (total_pure _)
  rw [Bool.not_false, if_pos rfl]
  exact total_pure _

theorem total_inodeAddr (ictx : InodeCtx) (i : Nat) :
    Total (xv6InodeAddr check ictx i false) := by
  unfold xv6InodeAddr
  refine .ite (total_pure _) <| .ite ?_ <| .ite ?_ (total_indirect hread hdata _ _)
  · rw [if_neg fun h => absurd h.2 (by decide)]
    exact total_pure _
  · rw [Bool.not_false, if_pos rfl]
    exact total_pure _

variable {σ : Type} {cb : DiterCallback σ}
  (hcb : ∀ k de s, ∃ r, cb k de s = .ok r ∧
    (r.1.deDirty = true → ∀ b blk, Total (check.bflush b blk)))

include hcb

omit hread hdata in
theorem entries_ok (base : Nat) : ∀ n k act blk s flush,
    (flush = true → ∀ b blk, Total (check.bflush b blk)) →
    ∃ r, xv6DirIterate.entries cb base n k act blk s flush = .ok r ∧
      (r.2.2.2 = true → ∀ b blk, Total (check.bflush b blk))
  | 0, _, _, _, _, _, hf => ⟨_, rfl, hf⟩
  | n + 1, k, _, blk, s, flush, hf => by
    obtain ⟨⟨act, de, s'⟩, hr, hdirty⟩ := hcb (base + k) (blk.dirent k) s
    have hf' : (flush || act.deDirty) = true → ∀ b blk, Total (check.bflush b blk) := by
      intro hor
      rcases (Bool.or_eq_true _ _).mp hor with h | h
      · exact hf h
      · exact hdirty h
    unfold xv6DirIterate.entries
    rw [hr]
    change ∃ r, (if !act.cont then _ else _) = Except.ok r ∧ _
    split
    · exact ⟨_, rfl, hf'⟩
    · exact entries_ok base n (k + 1) _ _ _ _ hf'

theorem total_body (i off lim b : Nat) (act : DiterAction) (s : σ) :
    Total (xv6DirIterate.body check cb i off lim b act s) := by
  unfold xv6DirIterate.body
  refine .ite ?_ <| .bind (hread b) fun _ => .ite (total_pure _) <|
    .bind (hdata b) fun data => ?_
  · obtain ⟨r, hr, -⟩ := hcb (i * NENTS) Dirent.zero s
    rw [hr]
    exact .lift_bind (total_pure _)
  · obtain ⟨⟨act', blk, s', flush⟩, hr, hf⟩ := entries_ok hcb (i * NENTS) (lim - off) off act
      data s false (fun h => absurd h (by decide))
    rw [hr]
    refine .lift_bind <| .dite (fun hflush => ?_) fun _ => ?_
    · exact .bind (hf hflush _ _) fun _ => total_pure _
    · exact .bind total_change fun _ => total_pure _

theorem total_blocks : ∀ rounds i off size act dir s, MAXFILE < rounds + i → i ≤ MAXFILE →
    Total (xv6DirIterate.blocks check cb false rounds i off size act dir s)
  | 0, i, _, _, _, _, _, h, hi => absurd h (by omega)
  | rounds + 1, i, off, size, act, dir, s, h, hi => by
    unfold xv6DirIterate.blocks
    by_cases hmax : i < MAXFILE
    · refine .bind (total_inodeAddr hread hdata dir i) fun _ => .ite (total_pure _) <|
        .bind (total_body hread hdata hcb _ _ _ _ _ _) fun _ => .ite (total_pure _) <|
          .ite (total_pure _) ?_
      exact total_blocks rounds (i + 1) _ _ _ _ _ (by omega) (by omega)
    · have hbig : xv6InodeAddr check dir i false = pure (-EFBIG, 0, dir) :=
        if_pos (not_lt.mp hmax)
      rw [hbig]
      exact fun w => ⟨_, w, rfl⟩

theorem total_extend (dir : InodeCtx) (s : σ) :
    Total (xv6DirIterate.extend check cb false dir s) := by
  unfold xv6DirIterate.extend
  refine .bind (total_inodeAddr hread hdata dir _) fun _ => .ite (total_pure _) <|
    .bind (hread _) fun _ => .ite (total_pure _) <| .bind (hdata _) fun data => ?_
  obtain ⟨⟨act, de, s'⟩, hr, hf⟩ :=
    hcb (dir.size / 16) (data.dirent (dir.size / 16 % NENTS)) s
  rw [hr]
  refine .lift_bind <| .dite (fun hdirty => ?_) fun _ => ?_
  · exact .bind (hf hdirty _ _) fun _ => total_pure _
  · exact .bind total_change fun _ => total_pure _

/-- A search returns in a directory of whole entries. -/
theorem total_iterate {dir : InodeCtx} (hdir : dir.size % 16 = 0 ∧ 2 * 16 ≤ dir.size) {off : Nat}
    (hoff : off ≤ MAXFILE * NENTS) (s : σ) :
    Total (xv6DirIterate check dir cb s off false) := by
  unfold xv6DirIterate
  have hassert : Total (xv6Assert (dir.size % 16 = 0 ∧ 2 * 16 ≤ dir.size)) := by
    unfold xv6Assert
    rw [if_pos hdir]
    exact total_pure _
  have hi : off / NENTS ≤ MAXFILE := by
    simp only [MAXFILE, NENTS] at hoff ⊢
    omega
  have hrounds : MAXFILE < MAXFILE + 1 + off / NENTS :=
    lt_of_lt_of_le (Nat.lt_succ_self _) (Nat.le_add_right _ _)
  exact .bind hassert fun _ => .ite (total_pure _) <|
    .bind (total_blocks hread hdata hcb _ _ _ _ _ _ _ hrounds hi) fun _ =>
      .ite (total_extend hread hdata hcb _ _) (total_pure _)

end

end Xv6fs
