/-
  What the directory iterator does to the disk, for any callback.

  Unless a block could not be read or written, it has mapped blocks and written blocks of the
  directory, and nothing else (`iterate_grew`), whatever the callback stores into the entries,
  however large the directory is and whatever the error.
-/
import Xv6fs.Fs.Grow
import Xv6fs.Fs.Iterate
import Xv6fs.File.Access

namespace Xv6fs

/-- From `w` to `w'` an inode has grown, and otherwise only the log has changed. -/
structure Grew (w : World) (addrs addrs' : Addrs) (w' : World) : Prop where
  frame : ∃ l, w' = { w with disk := w'.disk, hint := w'.hint, log := l }
  grown : Grown w.env w.disk w.hint addrs w'.disk w'.hint addrs'

/-- Inode `n` has these addresses, and blocks are owned once. -/
structure MapReady (w : World) (n : Nat) (A : Nat → Option Addrs) (addrs : Addrs) : Prop where
  sound : w.env.info.Sound
  hint : HintOk w.env w.hint
  at_n : A n = some addrs
  owned : Owned w.env w.disk A

section

variable {σ : Type} {cb : DiterCallback σ} {φ : Event → Prop} {w w₁ w' : World} {n i b : Nat}
  {A : Nat → Option Addrs} {addrs addrs' addrs'' : Addrs}

namespace Grew

theorem refl (w : World) (addrs : Addrs) (l : List Event) :
    Grew w addrs addrs { w with log := l } :=
  ⟨⟨l, rfl⟩, .refl _ _ _⟩

theorem env (h : Grew w addrs addrs' w') : w'.env = w.env := by
  obtain ⟨l, hw⟩ := h.frame
  rw [hw]

theorem inodes (h : Grew w addrs addrs' w') : w'.inodes = w.inodes := by
  obtain ⟨l, hw⟩ := h.frame
  rw [hw]

theorem trans (h : Grew w addrs addrs' w₁) (h' : Grew w₁ addrs' addrs'' w') :
    Grew w addrs addrs'' w' where
  frame := by
    obtain ⟨l, hw⟩ := h.frame
    obtain ⟨l', hw'⟩ := h'.frame
    refine ⟨l', ?_⟩
    rw [hw', hw]
  grown := by
    have hg := h'.grown
    rw [h.env] at hg
    exact h.grown.trans hg

/-- Blocks are still owned once. -/
theorem ready (hm : MapReady w n A addrs) (h : Grew w addrs addrs' w') :
    MapReady w' n (Function.update A n (some addrs')) addrs' where
  sound := h.env.symm ▸ hm.sound
  hint := h.env.symm ▸ h.grown.hintOk hm.hint
  at_n := Function.update_self _ _ _
  owned := h.env.symm ▸ h.grown.owned hm.sound hm.owned hm.at_n

/-- What lies before the bitmap has not changed. -/
theorem before (hm : MapReady w n A addrs) (h : Grew w addrs addrs' w') :
    SameBefore w.env w.disk w'.disk :=
  fun _ hx => h.grown.before hm.sound hm.owned hm.at_n hx

/-- A block of the file has been written. -/
theorem store (hi : i < MAXFILE) (hb : bmap w.disk addrs i = b) (hne : b ≠ 0) (blk : Block)
    (l : List Event) :
    Grew w addrs addrs { w with disk := Function.update w.disk b blk, log := l } := by
  subst hb
  exact ⟨⟨l, rfl⟩, .store hi hne blk (.refl _ _ _)⟩

end Grew

/-! ## One block -/

/-- Looking a block up, when no block could not be read or written. -/
theorem Accessed.grown {e : Int} {dirty : Bool} (hm : MapReady w n A addrs) (hi : i < MAXFILE)
    (h : Accessed w addrs i e b addrs' dirty w₁) (he : e ≠ - EIO) :
    Grown w.env w.disk w.hint addrs w₁.disk w₁.hint addrs' := by
  cases h with
  | opened hrw ho =>
    refine ho.mapped.grown hm.sound hm.hint hi ?_
    rcases ho.mapped.errors with h | h | h
    · exact .inl h
    · exact absurd h he
    · exact .inr h
  | readonly => exact .refl _ _ _

/-- Nothing could fail, or the error is not that of the block layer. -/
def Unfailed (w : World) (e : Int) : Prop := Quiet w.env ∨ e ≠ - EIO

theorem unfailed_zero : Unfailed w 0 := .inr (by decide)

theorem Unfailed.of_env {e : Int} (h : Unfailed w e) (henv : w₁.env = w.env) : Unfailed w₁ e := by
  unfold Unfailed
  rwa [henv]

/-- An error that tells whether a call has failed is not that of the block layer. -/
theorem Unfailed.ne_eio {α : Type} {m : Fs α} {e : Int} {a : α} (hu : Unfailed w e)
    (h : Runs φ m w a w') (hf : Faultless w w' → e ≠ - EIO) : e ≠ - EIO := by
  rcases hu with hq | hne
  · exact hf (h.returns.faultless hq)
  · exact hne

/-- Looking block `i` up. -/
theorem inodeAddr_grew {alloc : Bool} {e : Int} {dir dir' : InodeCtx}
    (hm : MapReady w n A dir.addrs) (hu : Unfailed w e)
    (h : Runs φ (xv6InodeAddr modcheck dir i alloc) w (e, b, dir') w') :
    dir'.size = dir.size ∧ Grew w dir.addrs dir'.addrs w' ∧
      (e = 0 → i < MAXFILE ∧ b = bmap w'.disk dir'.addrs i ∧ (alloc = true → b ≠ 0)) := by
  by_cases hi : i < MAXFILE
  · cases alloc with
    | false =>
      obtain ⟨rfl, hr, hb⟩ := xv6InodeAddr_read hi h
      obtain ⟨l, rfl⟩ := hr.log
      exact ⟨rfl, .refl w dir.addrs l, fun h0 => ⟨hi, hb h0, fun hc => by cases hc⟩⟩
    | true =>
      have hz := Owned.held_indirect hm.owned hm.at_n
      obtain ⟨addrs', dirty, rfl, ha⟩ := accessed_of_alloc dir hm.sound hm.hint hz hi h
      have he : e ≠ - EIO := hu.ne_eio h fun hf => by
        by_cases h0 : e = 0
        · rw [h0]
          decide
        · exact ((ha.error hm.sound hm.hint h0).2.2.2 hf).1
      refine ⟨rfl, ⟨ha.frame, ha.grown hm hi he⟩, fun h0 => ?_⟩
      subst h0
      obtain ⟨hne, hb, -⟩ := ha.ok hm.sound hm.hint hm.owned hm.at_n hi
      exact ⟨hi, hb.symm, fun _ => hne⟩
  · obtain ⟨rfl, -, rfl, rfl⟩ := xv6InodeAddr_big (not_lt.mp hi) h
    exact ⟨rfl, .refl _ _ _, fun h0 => absurd h0 (by decide)⟩

/-- A block of the file is written. -/
theorem syncBuffer_grew {blk : Block} {e : Int} (hu : Unfailed w e) (hi : i < MAXFILE)
    (hb : bmap w.disk addrs i = b) (hne : b ≠ 0) (h : Runs φ (syncBuffer b blk) w e w') :
    Grew w addrs addrs w' := by
  have hrun := h
  obtain ⟨hf, he, l, d, rfl, -, hd⟩ := syncBuffer_spec h
  have h0 : e = 0 := he.resolve_right (hu.ne_eio hrun fun hf' => by
    rw [hf.mpr hf']
    decide)
  rw [hd h0]
  exact .store hi hb hne blk l

/-- A block that cannot be read. -/
theorem Unfailed.bread {b : Nat} {ok : Bool} (hu : Unfailed w (- EIO))
    (h : Runs φ (sbBread b) w ok w') : ok = true := by
  have hrun := h
  obtain ⟨hok, -⟩ := sbBread_spec h
  rcases hu with hq | hne
  · exact hok.mpr (hrun.returns.faultless hq)
  · exact absurd rfl hne

theorem body_grew {off lim : Nat} {e : Int} {act act' : DiterAction} {s s' : σ}
    (hu : Unfailed w e) (hi : i < MAXFILE) (hb : b = bmap w.disk addrs i)
    (h : Runs φ (xv6DirIterate.body modcheck cb i off lim b act s) w (e, act', s') w') :
    Grew w addrs addrs w' := by
  rcases h.ite with ⟨-, h⟩ | ⟨hne, h⟩
  · obtain ⟨r, w₁, hlift, hend⟩ := h.bind
    obtain ⟨-, rfl⟩ := hlift.lift
    obtain ⟨-, rfl⟩ := hend.pure
    exact .refl w addrs w.log
  obtain ⟨ok, w₁, hread, hrest⟩ := h.bind
  rcases hrest.ite with ⟨hno, hend⟩ | ⟨-, hrest⟩
  · obtain ⟨hres, -⟩ := hend.pure
    cases hres
    rw [hu.bread hread] at hno
    exact absurd hno (by decide)
  obtain ⟨-, l, rfl⟩ := sbBread_spec hread
  simp only [modcheck, runs_bind_bdata] at hrest
  obtain ⟨⟨act₁, blk, s₁, flush⟩, w₂, hlift, hrest⟩ := hrest.bind
  obtain ⟨-, rfl⟩ := hlift.lift
  rcases hrest.ite with ⟨-, hrest⟩ | ⟨-, hend⟩
  · obtain ⟨e₁, w₃, hsync, hend⟩ := hrest.bind
    obtain ⟨hres, rfl⟩ := hend.pure
    cases hres
    exact (Grew.refl w addrs l).trans (syncBuffer_grew (hu.of_env rfl) hi hb.symm hne hsync)
  · simp only [runs_bind_bstore] at hend
    obtain ⟨-, rfl⟩ := hend.pure
    exact .store hi hb.symm hne blk l

/-! ## The iterator -/

theorem blocks_grew {alloc : Bool} : ∀ {rounds i off size : Nat} {e : Int} {act act' : DiterAction}
    {dir dir' : InodeCtx} {s s' : σ} {A : Nat → Option Addrs} {w : World},
    MapReady w n A dir.addrs → Unfailed w e →
    Runs φ (xv6DirIterate.blocks modcheck cb alloc rounds i off size act dir s) w
      (e, act', dir', s') w' →
    dir'.size = dir.size ∧ Grew w dir.addrs dir'.addrs w'
  | 0, _, _, _, _, _, _, _, _, _, _, _, _, _, _, h => h.halt.elim
  | rounds + 1, i, off, size, e, act, act', dir, dir', s, s', A, w, hm, hu, h => by
    obtain ⟨⟨e₁, b, dir₁⟩, w₁, haddr, hrest⟩ := h.bind
    clear h
    rcases hrest.ite with ⟨hne, hend⟩ | ⟨heq, hrest⟩
    · obtain ⟨hres, rfl⟩ := hend.pure
      cases hres
      obtain ⟨hsize, hgrew, -⟩ := inodeAddr_grew hm hu haddr
      exact ⟨hsize, hgrew⟩
    obtain rfl : e₁ = 0 := not_not.mp heq
    obtain ⟨hsize, hgrew, hmapped⟩ := inodeAddr_grew hm unfailed_zero haddr
    obtain ⟨hi, hb, -⟩ := hmapped rfl
    obtain ⟨⟨e₂, act₂, s₂⟩, w₂, hbody, hnext⟩ := hrest.bind
    clear hrest
    have hgrew₂ : Unfailed w e₂ → Grew w dir.addrs dir₁.addrs w₂ := fun hu₂ =>
      hgrew.trans (body_grew (hu₂.of_env hgrew.env) hi hb hbody)
    rcases hnext.ite with ⟨-, hend⟩ | ⟨hgo, hnext⟩
    · obtain ⟨hres, rfl⟩ := hend.pure
      cases hres
      exact ⟨hsize, hgrew₂ hu⟩
    obtain rfl : e₂ = 0 := by
      by_contra hne
      exact hgo (.inr hne)
    have hgrew₃ := hgrew₂ unfailed_zero
    rcases hnext.ite with ⟨-, hend⟩ | ⟨-, hlater⟩
    · obtain ⟨hres, rfl⟩ := hend.pure
      cases hres
      exact ⟨hsize, hgrew₃⟩
    obtain ⟨hsize', hgrew'⟩ := blocks_grew (hgrew₃.ready hm) (hu.of_env hgrew₃.env) hlater
    exact ⟨hsize'.trans hsize, hgrew₃.trans hgrew'⟩

/-- The entry past the last. Its block has been mapped, so block 0 is not written. -/
theorem extend_grew {e : Int} {dir dir' : InodeCtx} {s s' : σ} (hm : MapReady w n A dir.addrs)
    (hu : Unfailed w e)
    (h : Runs φ (xv6DirIterate.extend modcheck cb true dir s) w (e, dir', s') w') :
    (dir'.size = dir.size ∨ dir'.size < 2 ^ 32) ∧ Grew w dir.addrs dir'.addrs w' := by
  obtain ⟨⟨e₁, b, dir₁⟩, w₁, haddr, hrest⟩ := h.bind
  clear h
  rcases hrest.ite with ⟨hne, hend⟩ | ⟨heq, hrest⟩
  · obtain ⟨hres, rfl⟩ := hend.pure
    cases hres
    obtain ⟨hsize, hgrew, -⟩ := inodeAddr_grew hm hu haddr
    exact ⟨.inl hsize, hgrew⟩
  obtain rfl : e₁ = 0 := not_not.mp heq
  obtain ⟨hsize, hgrew, hmapped⟩ := inodeAddr_grew hm unfailed_zero haddr
  obtain ⟨hi, hb, hne⟩ := hmapped rfl
  obtain ⟨ok, w₂, hread, hnext⟩ := hrest.bind
  clear hrest
  rcases hnext.ite with ⟨hno, hend⟩ | ⟨-, hnext⟩
  · obtain ⟨hres, -⟩ := hend.pure
    cases hres
    rw [(hu.of_env hgrew.env).bread hread] at hno
    exact absurd hno (by decide)
  obtain ⟨-, l, rfl⟩ := sbBread_spec hread
  simp only [modcheck, runs_bind_bdata] at hnext
  obtain ⟨⟨act, de, s₁⟩, w₃, hlift, hrest⟩ := hnext.bind
  obtain ⟨-, rfl⟩ := hlift.lift
  have hgrew₁ := hgrew.trans (.refl w₁ dir₁.addrs l)
  have hdir : ∀ c : Bool,
      (if c then { dir₁ with dirty := true, size := (dir₁.size + 16) % 2 ^ 32 } else dir₁).addrs =
        dir₁.addrs ∧
      ((if c then { dir₁ with dirty := true, size := (dir₁.size + 16) % 2 ^ 32 }
        else dir₁).size = dir.size ∨
      (if c then { dir₁ with dirty := true, size := (dir₁.size + 16) % 2 ^ 32 }
        else dir₁).size < 2 ^ 32) := fun c => by
    cases c with
    | true => exact ⟨rfl, .inr (Nat.mod_lt _ (by decide))⟩
    | false => exact ⟨rfl, .inl hsize⟩
  rcases hrest.ite with ⟨-, hrest⟩ | ⟨-, hend⟩
  · obtain ⟨e₂, w₄, hsync, hend⟩ := hrest.bind
    obtain ⟨hres, rfl⟩ := hend.pure
    cases hres
    rw [(hdir act.dirDirty).1]
    exact ⟨(hdir act.dirDirty).2, hgrew₁.trans
      (syncBuffer_grew (hu.of_env hgrew.env) hi hb.symm (hne rfl) hsync)⟩
  · simp only [runs_bind_bstore] at hend
    obtain ⟨hres, rfl⟩ := hend.pure
    cases hres
    rw [(hdir act.dirDirty).1]
    exact ⟨(hdir act.dirDirty).2, hgrew.trans (.store hi hb.symm (hne rfl) _ l)⟩

/-! ## Callbacks that ask for no further entry -/

/-- The callback never asks for an entry past the last. -/
def NoExt (cb : DiterCallback σ) : Prop :=
  ∀ {k de s act de' s'}, cb k de s = .ok (act, de', s') → act.dirExt = false

theorem entries_noExt (hc : NoExt cb) (base : Nat) :
    ∀ (m k : Nat) {act act' : DiterAction} {blk blk' : Block} {s s' : σ} {flush flush' : Bool},
      act.dirExt = false →
      xv6DirIterate.entries cb base m k act blk s flush = .ok (act', blk', s', flush') →
      act'.dirExt = false
  | 0, _, _, _, _, _, _, _, _, _, hact, h => by
    cases h
    exact hact
  | m + 1, k, act, act', blk, blk', s, s', flush, flush', _, h => by
    unfold xv6DirIterate.entries at h
    cases hcb : cb (base + k) (blk.dirent k) s with
    | error e =>
      rw [hcb] at h
      cases h
    | ok r =>
      obtain ⟨act₁, de, s₁⟩ := r
      have hact := hc hcb
      rw [hcb] at h
      simp only [bind, Except.bind] at h
      split at h
      · cases h
        exact hact
      · exact entries_noExt hc base m (k + 1) hact h

theorem body_noExt (hc : NoExt cb) {off lim : Nat} {act : DiterAction} {s : σ}
    {r : Int × DiterAction × σ} (hact : act.dirExt = false)
    (h : Runs φ (xv6DirIterate.body modcheck cb i off lim b act s) w r w') :
    r.2.1.dirExt = false := by
  rcases h.ite with ⟨-, h⟩ | ⟨-, h⟩
  · obtain ⟨r₁, w₁, hlift, hend⟩ := h.bind
    obtain ⟨hcb, -⟩ := hlift.lift
    obtain ⟨rfl, -⟩ := hend.pure
    exact hc hcb
  obtain ⟨ok, w₁, -, hrest⟩ := h.bind
  rcases hrest.ite with ⟨-, hend⟩ | ⟨-, hrest⟩
  · obtain ⟨rfl, -⟩ := hend.pure
    exact hact
  simp only [modcheck, runs_bind_bdata] at hrest
  obtain ⟨⟨act₁, blk, s₁, flush⟩, w₂, hlift, hrest⟩ := hrest.bind
  have hact₁ := entries_noExt hc _ _ _ hact hlift.lift.1
  rcases hrest.ite with ⟨-, hrest⟩ | ⟨-, hend⟩
  · obtain ⟨e, w₃, -, hend⟩ := hrest.bind
    obtain ⟨rfl, -⟩ := hend.pure
    exact hact₁
  · simp only [runs_bind_bstore] at hend
    obtain ⟨rfl, -⟩ := hend.pure
    exact hact₁

theorem blocks_noExt (hc : NoExt cb) {alloc : Bool} : ∀ {rounds i off size : Nat}
    {act : DiterAction} {dir : InodeCtx} {s : σ} {r : Int × DiterAction × InodeCtx × σ}
    {w : World}, act.dirExt = false →
    Runs φ (xv6DirIterate.blocks modcheck cb alloc rounds i off size act dir s) w r w' →
    r.2.1.dirExt = false
  | 0, _, _, _, _, _, _, _, _, _, h => h.halt.elim
  | rounds + 1, i, off, size, act, dir, s, r, w, hact, h => by
    obtain ⟨r₁, w₁, -, hrest⟩ := h.bind
    rcases hrest.ite with ⟨-, hend⟩ | ⟨-, hrest⟩
    · obtain ⟨rfl, -⟩ := hend.pure
      exact hact
    obtain ⟨⟨e₂, act₂, s₂⟩, w₂, hbody, hrest⟩ := hrest.bind
    have hact₂ : act₂.dirExt = false := body_noExt hc hact hbody
    rcases hrest.ite with ⟨-, hend⟩ | ⟨-, hrest⟩
    · obtain ⟨rfl, -⟩ := hend.pure
      exact hact₂
    rcases hrest.ite with ⟨-, hend⟩ | ⟨-, hrest⟩
    · obtain ⟨rfl, -⟩ := hend.pure
      exact hact₂
    · exact blocks_noExt hc hact₂ hrest

/-- An iteration. -/
theorem iterate_grew {alloc : Bool} {off : Nat} {e : Int} {dir dir' : InodeCtx} {s s' : σ}
    (hm : MapReady w n A dir.addrs) (hext : alloc = true ∨ NoExt cb) (hu : Unfailed w e)
    (h : Runs φ (xv6DirIterate modcheck dir cb s off alloc) w (e, dir', s') w') :
    (dir'.size = dir.size ∨ dir'.size < 2 ^ 32) ∧ Grew w dir.addrs dir'.addrs w' := by
  simp only [xv6DirIterate, runs_bind_assert] at h
  obtain ⟨-, h⟩ := h
  rcases h.ite with ⟨-, hend⟩ | ⟨-, h⟩
  · obtain ⟨hres, rfl⟩ := hend.pure
    cases hres
    exact ⟨.inl rfl, .refl w dir.addrs w.log⟩
  obtain ⟨⟨e₁, act, dir₁, s₁⟩, w₁, hblocks, hrest⟩ := h.bind
  rcases hrest.ite with ⟨⟨rfl, -, hact⟩, hend⟩ | ⟨-, hend⟩
  · obtain ⟨hsize, hgrew⟩ := blocks_grew hm unfailed_zero hblocks
    have halloc : alloc = true := hext.resolve_right fun hc => by
      have hno : act.dirExt = false := blocks_noExt (r := (0, act, dir₁, s₁)) hc rfl hblocks
      rw [hno] at hact
      cases hact
    subst halloc
    obtain ⟨hsize', hgrew'⟩ := extend_grew (hgrew.ready hm) (hu.of_env hgrew.env) hend
    rw [hsize] at hsize'
    exact ⟨hsize', hgrew.trans hgrew'⟩
  · obtain ⟨hres, rfl⟩ := hend.pure
    cases hres
    obtain ⟨hsize, hgrew⟩ := blocks_grew hm hu hblocks
    exact ⟨.inl hsize, hgrew⟩

end

end Xv6fs
