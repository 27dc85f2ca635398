/-
  xv6_ialloc: the first unused slot of the inode table.

  The scan of one block is `xv6Ialloc.slot` (`allocSlot_spec`), and the loop over the blocks goes on
  from the number after the last slot of a block in which every slot is used (`allocBlocks_spec`).
-/
import Xv6fs.Inode.Slot

namespace Xv6fs

/-! ## One block -/

theorem allocSlot_spec {blk : Block} : ∀ {n i : Nat} {r : Option Nat},
    xv6Ialloc.slot blk n i = r →
      (r = none ∧ ∀ j, i ≤ j → j < i + n → (blk.dinode j).type ≠ 0) ∨
      ∃ k, r = some k ∧ i ≤ k ∧ k < i + n ∧ (blk.dinode k).type = 0 ∧
        ∀ j, i ≤ j → j < k → (blk.dinode j).type ≠ 0
  | 0, i, r, h => .inl ⟨h.symm, fun j h1 h2 => absurd h2 (by omega)⟩
  | n + 1, i, r, h => by
    unfold xv6Ialloc.slot at h
    by_cases hfree : (blk.dinode i).type = 0
    · rw [if_pos hfree] at h
      exact .inr ⟨i, h.symm, le_rfl, by omega, hfree, fun j h1 h2 => absurd h2 (by omega)⟩
    · rw [if_neg hfree] at h
      have hfirst : ∀ j, i ≤ j → ¬ i + 1 ≤ j → (blk.dinode j).type ≠ 0 := by
        intro j h1 h2
        obtain rfl : j = i := by omega
        exact hfree
      rcases allocSlot_spec h with ⟨hr, hall⟩ | ⟨k, hr, hk, hk', hzero, hall⟩
      · refine .inl ⟨hr, fun j h1 h2 => ?_⟩
        by_cases hj : i + 1 ≤ j
        · exact hall j hj (by omega)
        · exact hfirst j h1 hj
      · refine .inr ⟨k, hr, by omega, by omega, hzero, fun j h1 h2 => ?_⟩
        by_cases hj : i + 1 ≤ j
        · exact hall j hj h2
        · exact hfirst j h1 hj

/-! ## The table -/

/-- Slot `n` is the first unused one from slot 2 on. -/
structure FirstUnused (env : Env) (d : Disk) (n : Nat) : Prop where
  ge : 2 ≤ n
  lt : env.info.inodestart + n / IPB < env.info.bmapstart
  unused : (slot env d n).type = 0
  before : ∀ m, 2 ≤ m → m < n → (slot env d m).type ≠ 0

/-- No slot from slot 2 on is unused. -/
def TableUsed (env : Env) (d : Disk) : Prop :=
  ∀ n, 2 ≤ n → env.info.inodestart + n / IPB < env.info.bmapstart → (slot env d n).type ≠ 0

/-- What a call leaves: an error, with the disk as it was or with the slot written, or the number of
    the slot. -/
inductive Ialloced (env : Env) (d : Disk) : Option Dinode → Int → Nat → Disk → Prop where
  | failed {dino : Option Dinode} {e : Int} (he : e = - EIO ∨ e = -ENOSPC) :
      Ialloced env d dino e 0 d
  | unwritten {di : Dinode} {n : Nat} {d' : Disk} (hn : FirstUnused env d n)
      (hd : d' = d ∨ d' = setSlot env d n di) : Ialloced env d (some di) (- EIO) 0 d'
  | looked {n : Nat} (hn : FirstUnused env d n) : Ialloced env d none 0 n d
  | written {di : Dinode} {n : Nat} (hn : FirstUnused env d n) :
      Ialloced env d (some di) 0 n (setSlot env d n di)

section

variable {φ : Event → Prop} {w w' : World} {dino : Option Dinode} {e : Int} {r : Nat}

/-- Slot `j` of a block of the table. -/
theorem dinode_block {env : Env} {d : Disk} {block node j : Nat}
    (hsize : env.info.bmapstart < 2 ^ 32)
    (hblock : block = env.info.inodestart + node / IPB) (hlt : block < env.info.bmapstart)
    (hj : j = node % IPB) : (d block).dinode j = slot env d node := by
  unfold slot inodeBlock
  rw [← hblock, Nat.mod_eq_of_lt (by omega), hj]

theorem allocBlocks_spec (hsize : w.env.info.bmapstart < 2 ^ 32) :
    ∀ {n block off node : Nat} {l : List Event}, block + n = w.env.info.bmapstart → off < IPB →
      2 ≤ node → block = w.env.info.inodestart + node / IPB → off = node % IPB →
      (∀ m, 2 ≤ m → m < node → (slot w.env w.disk m).type ≠ 0) →
      Runs φ (xv6Ialloc.blocks dino n block off node) { w with log := l } (e, r) w' →
      (∃ d l', w' = { w with disk := d, log := l' } ∧ Ialloced w.env w.disk dino e r d) ∧
        (e = -ENOSPC → TableUsed w.env w.disk) ∧ ((∀ ev, φ ev → Calm ev) → e ≠ - EIO) ∧
        (e = 0 → Faultless { w with log := l } w')
  | 0, _, _, node, l, hlen, _, _, hblock, _, hbefore, h => by
    obtain ⟨hr, rfl⟩ := h.pure
    cases hr
    refine ⟨⟨_, _, rfl, .failed (.inr rfl)⟩, fun _ m hm hm' => hbefore m hm ?_, fun _ => by decide,
      fun h => absurd h (by decide)⟩
    simp only [IPB] at hm' hblock
    omega
  | n + 1, block, off, node, l, hlen, hoff, hnode, hblock, hmod, hbefore, h => by
    simp only [xv6Ialloc.blocks] at h
    obtain ⟨ok, w₁, hread, hrest⟩ := h.bind
    have hcalm := hread.2
    have hmono := hread.mono
    obtain ⟨hok, l₁, rfl⟩ := sbBread_spec hread
    rcases hrest.ite with ⟨hno, hend⟩ | ⟨hyes, hend⟩
    · obtain ⟨hr, rfl⟩ := hend.pure
      cases hr
      refine ⟨⟨_, _, rfl, .failed (.inl rfl)⟩, fun h => absurd h (by decide), fun hφ => ?_,
        fun h => absurd h (by decide)⟩
      rw [hok.mpr (hcalm.weaken hφ)] at hno
      exact absurd hno (by decide)
    have hf₁ := hok.mp (by simpa using hyes)
    simp only [runs_bind_bdata] at hend
    -- slot `off + k` of the block is that of number `node + k`
    have hslot : ∀ k, off + k < IPB →
        (w.disk block).dinode (off + k) = slot w.env w.disk (node + k) := by
      intro k hk
      simp only [IPB] at hblock hmod hk
      exact dinode_block hsize (by simp only [IPB]; omega) (by omega) (by simp only [IPB]; omega)
    have hused : ∀ b, (∀ j, off ≤ j → j < b → ((w.disk block).dinode j).type ≠ 0) → b ≤ IPB →
        ∀ m, 2 ≤ m → m < node + (b - off) → (slot w.env w.disk m).type ≠ 0 := by
      intro b hall hb m hm hm'
      by_cases hlt : m < node
      · exact hbefore m hm hlt
      · have hk := hall (off + (m - node)) (by omega) (by omega)
        rw [hslot _ (by omega)] at hk
        rwa [show node + (m - node) = m by omega] at hk
    rcases allocSlot_spec (Eq.refl (xv6Ialloc.slot (w.disk block) (IPB - off) off)) with
      ⟨hnone, hall⟩ | ⟨i, hsome, hi, hi', hzero, hall⟩
    · rw [hnone] at hend
      have hmono₂ := hend.mono
      have hrec := allocBlocks_spec hsize (l := l₁) (by omega) (by decide) (by omega) ?_ ?_
        (hused IPB (fun j h1 h2 => hall j h1 (by omega)) le_rfl) hend
      · exact ⟨hrec.1, hrec.2.1, hrec.2.2.1, fun h0 =>
          (faultless_split hmono hmono₂).mpr ⟨hf₁, hrec.2.2.2 h0⟩⟩
      · simp only [IPB] at hblock hmod hoff ⊢
        omega
      · simp only [IPB] at hmod hoff ⊢
        omega
    · rw [hsome] at hend
      have hfirst : FirstUnused w.env w.disk (node + (i - off)) := by
        refine ⟨by omega, ?_, ?_, hused i hall (by omega)⟩
        · simp only [IPB] at hblock hmod hi' ⊢
          omega
        · rw [← hslot _ (by omega), show off + (i - off) = i by omega]
          exact hzero
      cases dino with
      | none =>
        obtain ⟨hr, rfl⟩ := hend.pure
        cases hr
        exact ⟨⟨_, _, rfl, .looked hfirst⟩, fun h => absurd h (by decide), fun _ => by decide,
          fun _ => hf₁⟩
      | some di =>
        have hset : Function.update w.disk block ((w.disk block).setDinode i di) =
            setSlot w.env w.disk (node + (i - off)) di := by
          have hb : inodeBlock w.env (node + (i - off)) = block := by
            unfold inodeBlock
            simp only [IPB] at hblock hmod hi' ⊢
            rw [Nat.mod_eq_of_lt (by omega)]
            omega
          have hmod' : (node + (i - off)) % IPB = i := by
            simp only [IPB] at hmod hi' ⊢
            omega
          unfold setSlot
          rw [hb, hmod']
        obtain ⟨e₁, w₂, hsync, hlast⟩ := hend.bind
        have hcalm₂ := hsync.2
        have hmono₂ := hsync.mono
        obtain ⟨hf, herr, l₂, d, rfl, hd, hok⟩ := syncBuffer_spec hsync
        rw [hset] at hd hok
        rcases hlast.ite with ⟨hne, hlast⟩ | ⟨heq, hlast⟩
        · obtain ⟨hr, rfl⟩ := hlast.pure
          cases hr
          obtain rfl := herr.resolve_left hne
          refine ⟨⟨d, l₂, rfl, .unwritten hfirst hd⟩, fun h => absurd h (by decide), fun hφ => ?_,
            fun h => absurd h (by decide)⟩
          exact absurd (hf.mpr (hcalm₂.weaken hφ)) hne
        · obtain ⟨hr, rfl⟩ := hlast.pure
          cases hr
          refine ⟨⟨d, l₂, rfl, ?_⟩, fun h => absurd h (by decide), fun _ => by decide,
            fun _ => (faultless_split hmono hmono₂).mpr ⟨hf₁, hf.mp (not_not.mp heq)⟩⟩
          rw [hok (not_not.mp heq)]
          exact .written hfirst

/-- A number is returned for the first unused slot only, which then holds the new inode. -/
theorem xv6Ialloc_spec (hsize : w.env.info.bmapstart < 2 ^ 32)
    (hle : w.env.info.inodestart ≤ w.env.info.bmapstart)
    (h : Runs φ (xv6Ialloc dino) w (e, r) w') :
    ∃ d l, w' = { w with disk := d, log := l } ∧ Ialloced w.env w.disk dino e r d := by
  simp only [xv6Ialloc, runs_bind_getEnv] at h
  exact (allocBlocks_spec hsize (Nat.add_sub_cancel' hle) (by decide) le_rfl rfl rfl
    (fun m h1 h2 => absurd h2 (by omega)) h).1

/-- The errors. -/
theorem xv6Ialloc_errors (hsize : w.env.info.bmapstart < 2 ^ 32)
    (hle : w.env.info.inodestart ≤ w.env.info.bmapstart)
    (h : Runs φ (xv6Ialloc dino) w (e, r) w') :
    (e = -ENOSPC → TableUsed w.env w.disk) ∧ ((∀ ev, φ ev → Calm ev) → e ≠ - EIO) ∧
      (e = 0 → Faultless w w') := by
  simp only [xv6Ialloc, runs_bind_getEnv] at h
  exact (allocBlocks_spec hsize (Nat.add_sub_cancel' hle) (by decide) le_rfl rfl rfl
    (fun m h1 h2 => absurd h2 (by omega)) h).2

end

end Xv6fs
