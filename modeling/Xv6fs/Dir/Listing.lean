/-
  Listing a directory with `xv6_readdir`, call by call.

  `listing` is the table of the entries in use. One call scans it from its position on, up to the
  first entry that `dir_emit` refuses (`readdir_spec`). Over a run of calls, with insertions and
  removals in between, the entries are listed in the order of their slots, and one that is there all
  the time is listed once by the time a call finds nothing (`listing_complete`).
-/
import Xv6fs.Dir.Map
import Xv6fs.Dir.Recorded
import Xv6fs.Lib.Cursor

namespace Xv6fs

open Cursor

/-- What `dir_emit` is given for an entry in use. -/
def Dirent.shown (de : Dirent) : Option (FileName × Nat) :=
  if de.inum = 0 then none else some (de.name.bytes, de.inum.toNat)

/-- The entries in use of a directory of `n` entries. -/
def shownAt (d : Disk) (addrs : Addrs) (n k : Nat) : Option (FileName × Nat) :=
  if k < n then (dslot d addrs k).shown else none

/-- The entries in use of the directory at `p`. -/
def listing (w : World) (p : Ptr) : Nat → Option (FileName × Nat) :=
  shownAt w.disk (w.addrs p) ((w.inodes p).size / 16)

/-- The scan stopped because `dir_emit` refused the entry at its position. -/
def Refused (f : Nat → Option (FileName × Nat)) (dirEmit : Nat → Bool) (dc : DirContext) : Prop :=
  (f dc.pos).isSome = true ∧ dirEmit dc.emitted.length = false

/-- The scan from `pos` on has got to slot `t`. -/
structure Scanning (f : Nat → Option (FileName × Nat)) (pos t : Nat) (dc : DirContext) : Prop where
  scan : Scan f pos dc.emitted t
  ge : pos ≤ dc.pos
  le : dc.pos ≤ t
  rest : ∀ k, dc.pos ≤ k → k < t → f k = none

theorem Scanning.done {f : Nat → Option (FileName × Nat)} {pos t : Nat} {dc : DirContext}
    (h : Scanning f pos t dc) : Scan f pos dc.emitted dc.pos :=
  h.scan.back h.ge h.le h.rest

section

variable {f : Nat → Option (FileName × Nat)} {dirEmit : Nat → Bool} {pos t : Nat}
  {dc : DirContext} {de : Dirent}

/-! ## One entry -/

/-- What the callback does at the entry it is due. -/
theorem readdir_at (dirEmit : Nat → Bool) (hs : Scanning f pos t dc) (hf : f t = de.shown)
    (ht : t + 1 < 2 ^ 32) :
    ∃ act dc', readdirCallback dirEmit t de dc = .ok (act, de, dc') ∧ act.deDirty = false ∧
      act.dirExt = false ∧
      ((act.cont = true ∧ Scanning f pos (t + 1) dc') ∨
        (act.cont = false ∧ Scanning f pos t dc' ∧ Refused f dirEmit dc')) := by
  have hmod : (t + 1) % 2 ^ 32 = t + 1 := Nat.mod_eq_of_lt ht
  have hmod' : t % 2 ^ 32 = t := Nat.mod_eq_of_lt (by omega)
  unfold readdirCallback
  rw [if_neg (not_lt.mpr hs.le)]
  unfold Dirent.shown at hf
  by_cases hz : de.inum = 0
  · rw [if_pos hz] at hf ⊢
    refine ⟨_, _, rfl, rfl, rfl, .inl ⟨rfl, ?_, ?_, ?_, fun k hk hk' => ?_⟩⟩
    · refine hs.scan.pass (Nat.le_succ t) fun k hk hk' => ?_
      obtain rfl : k = t := by omega
      exact hf
    · rw [hmod]
      exact Nat.le_succ_of_le (le_trans hs.ge hs.le)
    · rw [hmod]
    · rw [hmod] at hk
      exact absurd hk' (not_lt.mpr hk)
  · rw [if_neg hz] at hf ⊢
    by_cases hemit : dirEmit dc.emitted.length = true
    · rw [if_pos hemit]
      refine ⟨_, _, rfl, rfl, rfl, .inl ⟨rfl, hs.scan.emit hf, ?_, ?_, fun k hk hk' => ?_⟩⟩
      · rw [hmod]
        exact Nat.le_succ_of_le (le_trans hs.ge hs.le)
      · rw [hmod]
      · rw [hmod] at hk
        exact absurd hk' (not_lt.mpr hk)
    · rw [if_neg hemit]
      refine ⟨_, _, rfl, rfl, rfl, .inr ⟨rfl, ⟨hs.scan, ?_, ?_, fun k hk hk' => ?_⟩, ?_, ?_⟩⟩
      · rw [hmod']
        exact le_trans hs.ge hs.le
      · rw [hmod']
      · rw [hmod'] at hk
        exact absurd hk' (not_lt.mpr hk)
      · rw [hmod', hf]
        rfl
      · simpa using hemit

/-- What the callback does at a hole: a call with the first entry of its block, which may have been
    passed already. -/
theorem readdir_hole (dirEmit : Nat → Bool) (dnum : Nat) {t' : Nat} (hs : Scanning f pos t dc)
    (hle : t ≤ t') (hd : dnum < t') (ht : dnum + 1 < 2 ^ 32)
    (hnone : ∀ k, t ≤ k → k < t' → f k = none) :
    ∃ act dc', readdirCallback dirEmit dnum Dirent.zero dc = .ok (act, Dirent.zero, dc') ∧
      act.deDirty = false ∧ act.dirExt = false ∧ act.cont = true ∧ Scanning f pos t' dc' := by
  have hmod : (dnum + 1) % 2 ^ 32 = dnum + 1 := Nat.mod_eq_of_lt ht
  have hrest : ∀ k, dc.pos ≤ k → k < t' → f k = none := fun k hk hk' => by
    by_cases hlt : k < t
    · exact hs.rest k hk hlt
    · exact hnone k (not_lt.mp hlt) hk'
  unfold readdirCallback
  by_cases hpast : dnum < dc.pos
  · rw [if_pos hpast]
    exact ⟨_, _, rfl, rfl, rfl, rfl, hs.scan.pass hle hnone, hs.ge, le_trans hs.le hle, hrest⟩
  · rw [if_neg hpast, if_pos (show Dirent.zero.inum = 0 from rfl)]
    refine ⟨_, _, rfl, rfl, rfl, rfl, hs.scan.pass hle hnone, ?_, ?_, fun k hk hk' => ?_⟩
    · rw [hmod]
      exact le_trans hs.ge (le_trans (not_lt.mp hpast) (Nat.le_succ dnum))
    · rw [hmod]
      exact hd
    · rw [hmod] at hk
      exact hrest k (le_trans (not_lt.mp hpast) (Nat.le_of_succ_le hk)) hk'

/-! ## One block -/

/-- The loop over entries `[k, k + n)` of a block. -/
theorem entries_listing (base : Nat) :
    ∀ (n k : Nat) {act act' : DiterAction} {blk blk' : Block} {dc dc' : DirContext}
      {flush flush' : Bool}, Scanning f pos (base + k) dc → base + (k + n) < 2 ^ 32 →
      (∀ j, k ≤ j → j < k + n → f (base + j) = (blk.dirent j).shown) →
      xv6DirIterate.entries (readdirCallback dirEmit) base n k act blk dc flush =
        .ok (act', blk', dc', flush') →
      blk' = blk ∧ flush' = flush ∧ (act.dirExt = false → act'.dirExt = false) ∧
        ((n = 0 → act' = act) ∧ (n ≠ 0 → act'.cont = true) ∧ Scanning f pos (base + (k + n)) dc' ∨
          act'.cont = false ∧ Refused f dirEmit dc' ∧ ∃ t, t ≤ base + (k + n) ∧
            Scanning f pos t dc')
  | 0, k, act, act', blk, blk', dc, dc', flush, flush', hs, _, _, h => by
    cases h
    exact ⟨rfl, rfl, id, .inl ⟨fun _ => rfl, fun h0 => absurd rfl h0, hs⟩⟩
  | n + 1, k, act, act', blk, blk', dc, dc', flush, flush', hs, hlt, hf, h => by
    obtain ⟨act₁, dc₁, hcb, hclean, hext, hor⟩ := readdir_at dirEmit hs
      (hf k (le_refl k) (by omega)) (by omega)
    unfold xv6DirIterate.entries at h
    rw [hcb] at h
    simp only [bind, Except.bind, hclean, Bool.or_false, Block.setDirent_dirent] at h
    rcases hor with ⟨hcont, hs₁⟩ | ⟨hstop, hs₁, href⟩
    · rw [hcont] at h
      have hend : base + (k + 1 + n) = base + (k + (n + 1)) := by omega
      obtain ⟨rfl, rfl, hext', hrest⟩ := entries_listing base n (k + 1) hs₁ (by omega)
        (fun j hj hj' => hf j (by omega) (by omega)) h
      rw [hend] at hrest
      refine ⟨rfl, rfl, fun _ => hext' hext, ?_⟩
      rcases hrest with ⟨h0, h1, h2⟩ | hrefused
      · refine .inl ⟨fun hc => absurd hc (Nat.succ_ne_zero n), fun _ => ?_, h2⟩
        by_cases hn : n = 0
        · rw [h0 hn, hcont]
        · exact h1 hn
      · exact .inr hrefused
    · rw [hstop] at h
      cases h
      exact ⟨rfl, rfl, fun _ => hext, .inr ⟨hstop, href, base + k, by omega, hs₁⟩⟩

/-- How a part of the scan ends that was to get to slot `stop`. -/
inductive ScanEnds (f : Nat → Option (FileName × Nat)) (dirEmit : Nat → Bool)
    (pos stop : Nat) : Int → DiterAction → DirContext → Prop where
  /-- a block cannot be read -/
  | failed {e : Int} {act : DiterAction} {t : Nat} {dc' : DirContext} (he : e ≠ 0) (ht : t ≤ stop)
      (hs : Scanning f pos t dc') : ScanEnds f dirEmit pos stop e act dc'
  /-- every entry is listed -/
  | all {act : DiterAction} {dc' : DirContext} (hcont : act.cont = true)
      (hs : Scanning f pos stop dc') : ScanEnds f dirEmit pos stop 0 act dc'
  /-- an entry is refused -/
  | refused {act : DiterAction} {t : Nat} {dc' : DirContext} (hstop : act.cont = false)
      (href : Refused f dirEmit dc') (ht : t ≤ stop) (hs : Scanning f pos t dc') :
      ScanEnds f dirEmit pos stop 0 act dc'

variable {φ : Event → Prop} {w w' : World} {addrs : Addrs} {e : Int}

theorem body_listing {i off lim b : Nat} {act act' : DiterAction} {dc' : DirContext}
    (hoff : off < lim) (hlim : lim ≤ NENTS) (hi : i < MAXFILE) (hb : b = bmap w.disk addrs i)
    (hs : Scanning f pos (i * NENTS + off) dc)
    (hf : ∀ k, i * NENTS + off ≤ k → k < i * NENTS + lim → f k = (dslot w.disk addrs k).shown)
    (hext : act.dirExt = false)
    (h : Runs φ (xv6DirIterate.body modcheck (readdirCallback dirEmit) i off lim b act dc) w
      (e, act', dc') w') :
    OnlyReads w w' e ∧ act'.dirExt = false ∧
      ScanEnds f dirEmit pos (i * NENTS + lim) e act' dc' := by
  have hbig : i * NENTS + lim < 2 ^ 32 := by
    simp only [NENTS, MAXFILE] at *
    omega
  simp only [xv6DirIterate.body, modcheck] at h
  rcases h.ite with ⟨hz, h⟩ | ⟨hnz, h⟩
  · have hnone : ∀ k, i * NENTS + off ≤ k → k < i * NENTS + lim → f k = none := by
      intro k hk hk'
      rw [hf k hk hk']
      obtain ⟨j, rfl⟩ : ∃ j, k = i * NENTS + j := ⟨k - i * NENTS, by omega⟩
      rw [dslot_eq w.disk addrs (by omega), ← hb, if_pos hz]
      rfl
    obtain ⟨act₁, dc₁, hcb, -, hext₁, hcont, hs₁⟩ := readdir_hole dirEmit (i * NENTS) hs
      (Nat.add_le_add_left hoff.le _) (by omega) (by omega) hnone
    rw [hcb] at h
    obtain ⟨r, w₁, hlift, h⟩ := h.bind
    obtain ⟨hr, rfl⟩ := hlift.lift
    cases hr
    obtain ⟨hres, rfl⟩ := h.pure
    cases hres
    exact ⟨.refl w, hext₁, .all hcont hs₁⟩
  · obtain ⟨l, -, ⟨hr, h⟩ | ⟨hr, h⟩⟩ := sbBread_cases h
    · obtain ⟨hres, rfl⟩ := h.pure
      cases hres
      exact ⟨hr, hext, .failed (by decide) (Nat.add_le_add_left hoff.le _) hs⟩
    simp only [runs_bind_bdata] at h
    obtain ⟨⟨act₁, blk, dc₁, flush⟩, w₂, hlift, h⟩ := h.bind
    obtain ⟨hent, rfl⟩ := hlift.lift
    obtain ⟨hk, hlen⟩ : off + (lim - off) = lim ∧ lim - off ≠ 0 := by omega
    obtain ⟨rfl, rfl, hext₁, hor⟩ := entries_listing (i * NENTS) (lim - off) off hs (by omega)
      (fun j hj hj' => by
        rw [hf _ (by omega) (by omega), dslot_eq w.disk addrs (by omega), ← hb, if_neg hnz]) hent
    rw [hk] at hor
    simp only [Bool.false_eq_true, if_false, runs_bind_bstore, Function.update_eq_self] at h
    obtain ⟨hres, rfl⟩ := h.pure
    cases hres
    refine ⟨hr, hext₁ hext, ?_⟩
    rcases hor with ⟨-, hcont, hs₁⟩ | ⟨hstop, href, t, ht, hs₁⟩
    · exact .all (hcont hlen) hs₁
    · exact .refused hstop href ht hs₁

/-! ## The loop -/

theorem ScanEnds.widen {stop stop' : Nat} {act : DiterAction} {dc' : DirContext}
    (h : ScanEnds f dirEmit pos stop e act dc') (hle : stop ≤ stop')
    (hend : e ≠ 0 ∨ act.cont = false) : ScanEnds f dirEmit pos stop' e act dc' := by
  cases h with
  | failed he ht hs => exact .failed he (le_trans ht hle) hs
  | all hcont =>
    rcases hend with h0 | h0
    · exact absurd rfl h0
    · rw [hcont] at h0
      cases h0
  | refused hstop href ht hs => exact .refused hstop href (le_trans ht hle) hs

/-- The loop from entry `i * NENTS + off` on, `size` entries of it. -/
theorem blocks_listing :
    ∀ (rounds i off size : Nat) {dir dir' : InodeCtx} {act act' : DiterAction}
      {dc dc' : DirContext} {e : Int} {w w' : World}, size ≠ 0 → off < NENTS →
      i * NENTS + (off + size) ≤ MAXFILE * NENTS →
      Scanning f pos (i * NENTS + off) dc →
      (∀ k, i * NENTS + off ≤ k → k < i * NENTS + (off + size) →
        f k = (dslot w.disk dir.addrs k).shown) → act.dirExt = false →
      Runs φ (xv6DirIterate.blocks modcheck (readdirCallback dirEmit) false rounds i off size act
        dir dc) w (e, act', dir', dc') w' →
      OnlyReads w w' e ∧ dir'.addrs = dir.addrs ∧ act'.dirExt = false ∧
        ScanEnds f dirEmit pos (i * NENTS + (off + size)) e act' dc'
  | 0, _, _, _, _, _, _, _, _, _, _, _, _, _, _, _, _, _, _, h => h.halt.elim
  | rounds + 1, i, off, size, dir, dir', act, act', dc, dc', e, w, w', hsize, hoff, hmax, hs, hf,
      hext, h => by
    have hi : i < MAXFILE := by
      simp only [NENTS, MAXFILE] at hmax ⊢
      omega
    simp only [xv6DirIterate.blocks] at h
    obtain ⟨⟨e₁, b, dir₁⟩, w₁, haddr, h⟩ := h.bind
    obtain ⟨rfl, hr₁, hb⟩ := xv6InodeAddr_read hi haddr
    rcases h.ite with ⟨hne, h⟩ | ⟨heq, h⟩
    · obtain ⟨hres, rfl⟩ := h.pure
      cases hres
      exact ⟨hr₁, rfl, hext, .failed hne (by omega) hs⟩
    obtain rfl : e₁ = 0 := not_not.mp heq
    have hlim : xv6Min NENTS (size + off) = min NENTS (off + size) := by
      rw [xv6Min_eq_min, Nat.add_comm]
    rw [hlim] at h
    have hmin : off < min NENTS (off + size) := by omega
    obtain ⟨⟨e₂, act₂, dc₂⟩, w₂, hbody, hnext⟩ := h.bind
    clear h
    have hdisk : w₁.disk = w.disk := by
      obtain ⟨l, rfl⟩ := hr₁.log
      rfl
    obtain ⟨hr₂, hext₂, hlisted⟩ := body_listing hmin (min_le_left _ _) hi
      (by rw [hdisk]; exact hb rfl) hs
      (fun k hk hk' => by rw [hdisk]; exact hf k hk (by omega)) hext hbody
    have hr := hr₁.trans haddr.mono hbody.mono hr₂
    have hle := le_trans haddr.mono hbody.mono
    rcases hnext.ite with ⟨hstop, h⟩ | ⟨hgo, h⟩
    · obtain ⟨hres, rfl⟩ := h.pure
      cases hres
      refine ⟨hr, rfl, hext₂, hlisted.widen (by omega) ?_⟩
      rcases hstop with h0 | h0
      · exact .inr (by simpa using h0)
      · exact .inl h0
    obtain ⟨hcont, h0⟩ : act₂.cont = true ∧ e₂ = 0 := by
      refine ⟨by_contra fun hc => hgo (.inl (by simpa using hc)), by_contra fun hc => hgo (.inr hc)⟩
    subst h0
    have hs₂ : Scanning f pos (i * NENTS + min NENTS (off + size)) dc₂ := by
      cases hlisted with
      | failed he => exact absurd rfl he
      | all _ hs₂ => exact hs₂
      | refused hno =>
        rw [hno] at hcont
        cases hcont
    rcases h.ite with ⟨hdone, h⟩ | ⟨hmore, h⟩
    · obtain ⟨hres, rfl⟩ := h.pure
      cases hres
      have hall : min NENTS (off + size) = off + size := by omega
      rw [hall] at hs₂
      exact ⟨hr, rfl, hext₂, .all hcont hs₂⟩
    · have hfull : min NENTS (off + size) = NENTS := by omega
      rw [hfull] at hmore hs₂ h
      have hstart : (i + 1) * NENTS + 0 = i * NENTS + NENTS := Nat.succ_mul i NENTS
      have hend : (i + 1) * NENTS + (0 + (size - (NENTS - off))) = i * NENTS + (off + size) := by
        omega
      rw [← hstart] at hs₂
      have hle' := h.mono
      have hdisk₂ : w₂.disk = w.disk := by
        obtain ⟨l, rfl⟩ := hr.log
        rfl
      obtain ⟨hr', haddrs', hext', hrest⟩ := blocks_listing rounds (i + 1) 0 _ hmore (by decide)
        (by rw [hend]; exact hmax) hs₂
        (fun k hk hk' => by
          rw [hdisk₂]
          exact hf k (by omega) (by omega)) hext₂ h
      rw [hend] at hrest
      refine ⟨hr.trans hle hle' hr', haddrs', hext', ?_⟩
      cases hrest with
      | failed he ht hs => exact .failed he ht hs
      | all hcont hs => exact .all hcont hs
      | refused hstop href ht hs => exact .refused hstop href ht hs

/-- The loop when no entry is left. -/
theorem blocks_end {rounds i off : Nat} {dir dir' : InodeCtx} {act' : DiterAction}
    {dc' : DirContext} (hoff : off < NENTS) (hmax : i * NENTS + off ≤ MAXFILE * NENTS)
    (h : Runs φ (xv6DirIterate.blocks modcheck (readdirCallback dirEmit) false (rounds + 1) i off 0
      .init dir ⟨i * NENTS + off, []⟩) w (e, act', dir', dc') w') :
    (∃ l, w' = { w with log := l }) ∧ dir'.addrs = dir.addrs ∧ act'.dirExt = false ∧
      dc'.emitted = [] ∧ i * NENTS + off ≤ dc'.pos ∧ dc'.pos ≤ MAXFILE * NENTS := by
  simp only [xv6DirIterate.blocks] at h
  obtain ⟨⟨e₁, b, dir₁⟩, w₁, haddr, hfound⟩ := h.bind
  clear h
  by_cases hi : i < MAXFILE
  swap
  · obtain ⟨rfl, rfl, rfl, rfl⟩ := xv6InodeAddr_big (not_lt.mp hi) haddr
    rcases hfound.ite with ⟨-, h⟩ | ⟨h0, -⟩
    · obtain ⟨hres, rfl⟩ := h.pure
      cases hres
      exact ⟨⟨_, rfl⟩, rfl, rfl, rfl, le_refl _, hmax⟩
    · exact absurd (by decide : (-EFBIG : Int) ≠ 0) h0
  obtain ⟨rfl, hr₁, -⟩ := xv6InodeAddr_read hi haddr
  obtain ⟨l₁, rfl⟩ := hr₁.log
  rcases hfound.ite with ⟨-, hend⟩ | ⟨-, hmore⟩
  · obtain ⟨hres, rfl⟩ := hend.pure
    cases hres
    exact ⟨⟨_, rfl⟩, rfl, rfl, rfl, le_refl _, hmax⟩
  obtain ⟨⟨e₂, act₂, dc₂⟩, w₂, hbody, hnext⟩ := hmore.bind
  have hres : (∃ l, w₂ = { w with log := l }) ∧ act₂.dirExt = false ∧ dc₂.emitted = [] ∧
      i * NENTS + off ≤ dc₂.pos ∧ dc₂.pos ≤ MAXFILE * NENTS := by
    have hlim : xv6Min NENTS (0 + off) = off := by
      rw [xv6Min_eq_min]
      omega
    rw [hlim] at hbody
    simp only [xv6DirIterate.body, modcheck] at hbody
    rcases hbody.ite with ⟨-, hcall⟩ | ⟨-, hcall⟩
    · obtain ⟨r, w₃, hlift, hend⟩ := hcall.bind
      obtain ⟨hr, rfl⟩ := hlift.lift
      obtain ⟨hres, rfl⟩ := hend.pure
      cases hres
      refine ⟨⟨_, rfl⟩, ?_⟩
      unfold readdirCallback at hr
      have hmod : (i * NENTS + 1) % 2 ^ 32 = i * NENTS + 1 := Nat.mod_eq_of_lt (by
        simp only [NENTS, MAXFILE] at hi ⊢
        omega)
      split at hr
      · cases hr
        exact ⟨rfl, rfl, le_refl _, hmax⟩
      · next hpast =>
        rw [if_pos (show Dirent.zero.inum = 0 from rfl)] at hr
        cases hr
        refine ⟨rfl, rfl, ?_, ?_⟩ <;> dsimp only at hpast ⊢ <;> rw [hmod]
        · omega
        · simp only [NENTS, MAXFILE] at hi ⊢
          omega
    · obtain ⟨ok, w₃, hread, hnext⟩ := hcall.bind
      obtain ⟨-, l₃, rfl⟩ := sbBread_spec hread
      rcases hnext.ite with ⟨-, hend⟩ | ⟨-, hmore⟩
      · obtain ⟨hres, rfl⟩ := hend.pure
        cases hres
        exact ⟨⟨_, rfl⟩, rfl, rfl, le_refl _, hmax⟩
      simp only [runs_bind_bdata, Nat.sub_self, xv6DirIterate.entries] at hmore
      obtain ⟨r, w₄, hlift, hend⟩ := hmore.bind
      obtain ⟨hr, rfl⟩ := hlift.lift
      cases hr
      simp only [Bool.false_eq_true, if_false, runs_bind_bstore, Function.update_eq_self] at hend
      obtain ⟨hres, rfl⟩ := hend.pure
      cases hres
      exact ⟨⟨_, rfl⟩, rfl, rfl, le_refl _, hmax⟩
  obtain ⟨⟨l₂, rfl⟩, hext, hemit, hge, hle⟩ := hres
  have hlast : ∀ {e₃ : Int}, Runs φ (pure (e₃, act₂, { dir with dirty := false }, dc₂))
      { w with log := l₂ } (e, act', dir', dc') w' →
      (∃ l, w' = { w with log := l }) ∧ dir'.addrs = dir.addrs ∧ act'.dirExt = false ∧
      dc'.emitted = [] ∧ i * NENTS + off ≤ dc'.pos ∧ dc'.pos ≤ MAXFILE * NENTS := by
    intro e₃ h
    obtain ⟨hres, rfl⟩ := h.pure
    cases hres
    exact ⟨⟨_, rfl⟩, rfl, hext, hemit, hge, hle⟩
  rcases hnext.ite with ⟨-, hend⟩ | ⟨-, hmore⟩
  · exact hlast hend
  rcases hmore.ite with ⟨-, hend⟩ | ⟨hne, -⟩
  · exact hlast hend
  · exact absurd (Nat.zero_sub _) hne

/-! ## One call -/

/-- A scan of a directory from `pos` on, wherever that is. -/
theorem iterate_listing {dir dir' : InodeCtx} {dc' : DirContext}
    (hn : dir.size / 16 ≤ MAXFILE * NENTS) (hpos : pos ≤ MAXFILE * NENTS)
    (h : Runs φ (xv6DirIterate modcheck dir (readdirCallback dirEmit) ⟨pos, []⟩ (pos % 2 ^ 32)
      false) w (e, dir', dc') w') :
    (∃ l, w' = { w with log := l }) ∧ dir'.addrs = dir.addrs ∧ dc'.pos ≤ MAXFILE * NENTS ∧
      Scan (shownAt w.disk dir.addrs (dir.size / 16)) pos dc'.emitted dc'.pos ∧
      (Faultless w w' → Refused (shownAt w.disk dir.addrs (dir.size / 16)) dirEmit dc' ∨
        ∀ k, dc'.pos ≤ k → shownAt w.disk dir.addrs (dir.size / 16) k = none) := by
  have hmod : pos % 2 ^ 32 = pos := Nat.mod_eq_of_lt (by
    simp only [NENTS, MAXFILE] at hpos
    omega)
  have hnone : ∀ {k}, dir.size / 16 ≤ k → shownAt w.disk dir.addrs (dir.size / 16) k = none :=
    fun hk => if_neg (not_lt.mpr hk)
  simp only [xv6DirIterate, runs_bind_assert, hmod] at h
  obtain ⟨-, hstart⟩ := h
  rcases hstart.ite with ⟨hend, h⟩ | ⟨hin, h⟩
  · obtain ⟨hres, rfl⟩ := h.pure
    cases hres
    exact ⟨⟨_, rfl⟩, rfl, hpos, .refl _ _,
      fun _ => .inr fun k hk => hnone (le_trans (le_of_lt hend) hk)⟩
  obtain ⟨⟨e₁, act, dir₁, dc₁⟩, w₁, hblocks, hnext⟩ := h.bind
  clear h hstart
  have hsplit : pos / NENTS * NENTS + pos % NENTS = pos := Nat.div_add_mod' _ _
  have hoff : pos % NENTS < NENTS := Nat.mod_lt _ (by decide)
  -- no entry asks for one behind the last
  have hlast : act.dirExt = false → e = e₁ ∧ dir' = dir₁ ∧ dc' = dc₁ ∧ w' = w₁ := by
    intro hext
    rcases hnext.ite with ⟨⟨-, -, hyes⟩, -⟩ | ⟨-, h⟩
    · rw [hext] at hyes
      cases hyes
    · obtain ⟨hres, rfl⟩ := h.pure
      cases hres
      exact ⟨rfl, rfl, rfl, rfl⟩
  by_cases hz : dir.size / 16 - pos = 0
  · have hctx : (⟨pos, []⟩ : DirContext) = ⟨pos / NENTS * NENTS + pos % NENTS, []⟩ := by
      rw [hsplit]
    rw [hz, hctx] at hblocks
    obtain ⟨hlog, haddrs, hext, hemit, hge, hle⟩ := blocks_end hoff (by rwa [hsplit]) hblocks
    obtain ⟨rfl, rfl, rfl, rfl⟩ := hlast hext
    rw [hsplit] at hge
    refine ⟨hlog, haddrs, hle, ?_, fun _ => .inr fun k hk => hnone (by omega)⟩
    rw [hemit]
    exact (Scan.refl _ pos).pass hge fun k hk _ => hnone (by omega)
  · have hend : pos / NENTS * NENTS + (pos % NENTS + (dir.size / 16 - pos)) = dir.size / 16 := by
      omega
    have hs : Scanning (shownAt w.disk dir.addrs (dir.size / 16)) pos
        (pos / NENTS * NENTS + pos % NENTS) ⟨pos, []⟩ := by
      rw [hsplit]
      exact ⟨.refl _ _, le_refl _, le_refl _, fun k hk hk' => absurd hk (not_le.mpr hk')⟩
    obtain ⟨hr, haddrs, hext, hends⟩ := blocks_listing _ _ _ _ hz hoff (by rw [hend]; exact hn) hs
      (fun k _ hk => if_pos (by rwa [hend] at hk)) rfl hblocks
    obtain ⟨rfl, rfl, rfl, rfl⟩ := hlast hext
    rw [hend] at hends
    obtain ⟨l, hlog⟩ := hr.log
    refine ⟨⟨l, hlog⟩, haddrs, ?_⟩
    cases hends with
    | failed he ht hs => exact ⟨le_trans hs.le (le_trans ht hn), hs.done,
        fun hf => absurd (hr.error.mpr hf) he⟩
    | all _ hs =>
      refine ⟨le_trans hs.le hn, hs.done, fun _ => .inr fun k hk => ?_⟩
      by_cases hlt : k < dir.size / 16
      · exact hs.rest k hk hlt
      · exact hnone (not_lt.mp hlt)
    | refused _ href ht hs => exact ⟨le_trans hs.le (le_trans ht hn), hs.done, fun _ => .inl href⟩

variable {p : Ptr}

/-- A directory whose size is one. -/
structure ListReady (w : World) (p : Ptr) : Prop where
  fmt : (w.inodes p).fmt = .dir
  ino : (w.inodes p).ino ≠ 0
  mul : (w.inodes p).size % 16 = 0
  ge : 2 * 16 ≤ (w.inodes p).size
  le : (w.inodes p).size ≤ MAXFILE * BSIZE

theorem ListReady.size_mod (h : ListReady w p) :
    (w.inodes p).size % 2 ^ 32 = (w.inodes p).size := by
  have hle := h.le
  simp only [MAXFILE, BSIZE] at hle
  omega

/-- The addresses that are in use written back to the inode. -/
theorem addrs_map_same (w : World) (p : Ptr) :
    ({ w.inodes p with priv := (w.inodes p).priv.map fun _ => w.addrs p } : Inode) =
      w.inodes p := by
  unfold World.addrs
  cases h : w.inodes p with
  | mk ino fmt nlink size priv dirty hashed refcount => cases priv <;> rfl

/-- One call lists the entries from its position on, in order, up to the position it leaves; when
    no block read fails it stops at an entry that is refused or behind the last one. -/
theorem readdir_spec (hd : ListReady w p) (hpos : pos ≤ MAXFILE * NENTS)
    (h : Runs φ (xv6Readdir dirEmit p pos) w (e, dc) w') :
    (∃ l, w' = { w with log := l }) ∧ dc.pos ≤ MAXFILE * NENTS ∧
      Scan (listing w p) pos dc.emitted dc.pos ∧
      (Faultless w w' → Refused (listing w p) dirEmit dc ∨
        ∀ k, dc.pos ≤ k → listing w p k = none) := by
  simp only [xv6Readdir, runs_bind_getInode] at h
  rcases h.ite with ⟨hfmt, -⟩ | ⟨-, h⟩
  · exact absurd hd.fmt hfmt
  obtain ⟨⟨e₀, ctx⟩, w₀, hinit, hnext⟩ := h.bind
  clear h
  obtain ⟨hr, hctx⟩ := initIctx_reads hinit
  have hle := hinit.mono
  obtain ⟨l, rfl⟩ := hr.log
  rcases hnext.ite with ⟨hne, h⟩ | ⟨heq, h⟩
  · obtain ⟨hres, rfl⟩ := h.pure
    cases hres
    exact ⟨⟨l, rfl⟩, hpos, .refl _ _, fun hf => absurd (hr.error.mpr hf) hne⟩
  obtain rfl : e₀ = 0 := not_not.mp heq
  obtain rfl := hctx rfl
  obtain ⟨⟨e₁, ctx', dc'⟩, w₁, hiter, h⟩ := h.bind
  have hle₁ := hiter.mono
  obtain ⟨u, w₂, hwb, h⟩ := h.bind
  obtain ⟨hres, rfl⟩ := h.pure
  cases hres
  have hsize : (w.inodes p).size % 2 ^ 32 / 16 = (w.inodes p).size / 16 := by rw [hd.size_mod]
  obtain ⟨⟨l₁, rfl⟩, haddrs, hmax, hscan, hends⟩ := iterate_listing (w := { w with log := l })
    (by rw [hsize]; exact size_slots hd.le) hpos hiter
  rw [hsize] at hscan hends
  obtain rfl := (runs_modifyInode _ _ _ _ _).mp hwb
  refine ⟨⟨l₁, ?_⟩, hmax, hscan, fun hf => hends ?_⟩
  · rw [haddrs]
    dsimp only
    rw [addrs_map_same, Function.update_eq_self]
  · exact ((faultless_chain hle hle₁ rfl).mp hf).2

/-! ## Calls in between -/

theorem inodeAddr_size {check : Checker} {ctx ctx' : InodeCtx} {i b : Nat}
    (h : Runs φ (xv6InodeAddr check ctx i true) w (e, b, ctx') w') : ctx'.size = ctx.size := by
  by_cases hi : i < MAXFILE
  · have hctx := inodeAddr_ctx hi h
    split at hctx
    · obtain ⟨a, rfl⟩ := hctx
      rfl
    · rw [hctx]
  · rw [(xv6InodeAddr_big (not_lt.mp hi) h).2.2.1]

theorem blocks_size {σ : Type} {check : Checker} {cb : DiterCallback σ} :
    ∀ (rounds i off size : Nat) {dir dir' : InodeCtx} {act act' : DiterAction} {s s' : σ} {e : Int}
      {w w' : World}, Runs φ (xv6DirIterate.blocks check cb true rounds i off size act dir s) w
        (e, act', dir', s') w' → dir'.size = dir.size
  | 0, _, _, _, _, _, _, _, _, _, _, _, _, h => h.halt.elim
  | rounds + 1, i, off, size, dir, dir', act, act', s, s', e, w, w', h => by
    simp only [xv6DirIterate.blocks] at h
    obtain ⟨⟨e₁, b, dir₁⟩, w₁, haddr, hfound⟩ := h.bind
    clear h
    have hsize := inodeAddr_size haddr
    rcases hfound.ite with ⟨-, hend⟩ | ⟨-, hmore⟩
    · obtain ⟨hres, -⟩ := hend.pure
      cases hres
      exact hsize
    obtain ⟨⟨e₂, act₂, s₂⟩, w₂, -, hnext⟩ := hmore.bind
    rcases hnext.ite with ⟨-, hend⟩ | ⟨-, hgo⟩
    · obtain ⟨hres, -⟩ := hend.pure
      cases hres
      exact hsize
    rcases hgo.ite with ⟨-, hend⟩ | ⟨-, hrest⟩
    · obtain ⟨hres, -⟩ := hend.pure
      cases hres
      exact hsize
    · exact (blocks_size rounds (i + 1) 0 _ hrest).trans hsize

/-- An iteration makes the directory longer by an entry at most, if a block has room for it. -/
theorem iterate_size {σ : Type} {check : Checker} {cb : DiterCallback σ} {dir dir' : InodeCtx}
    {s s' : σ} {off : Nat}
    (h : Runs φ (xv6DirIterate check dir cb s off true) w (e, dir', s') w') :
    dir'.size = dir.size ∨
      (dir'.size = (dir.size + 16) % 2 ^ 32 ∧ dir.size / 16 / NENTS < MAXFILE) := by
  simp only [xv6DirIterate, runs_bind_assert] at h
  obtain ⟨-, hstart⟩ := h
  rcases hstart.ite with ⟨-, hend⟩ | ⟨-, hmore⟩
  · obtain ⟨hres, -⟩ := hend.pure
    cases hres
    exact .inl rfl
  obtain ⟨⟨e₁, act, dir₁, s₁⟩, w₁, hblocks, hnext⟩ := hmore.bind
  have hsize := blocks_size _ _ _ _ hblocks
  rcases hnext.ite with ⟨-, hext⟩ | ⟨-, hend⟩
  · rw [← hsize]
    simp only [xv6DirIterate.extend] at hext
    obtain ⟨⟨e₂, b, dir₂⟩, w₂, haddr, hfound⟩ := hext.bind
    have hsize₂ := inodeAddr_size haddr
    rcases hfound.ite with ⟨-, hend⟩ | ⟨he, hmapped⟩
    · obtain ⟨hres, -⟩ := hend.pure
      cases hres
      exact .inl hsize₂
    have hroom : dir₁.size / 16 / NENTS < MAXFILE := by
      by_contra hbig
      rw [(xv6InodeAddr_big (not_lt.mp hbig) haddr).1] at he
      exact he (by decide : (-EFBIG : Int) ≠ 0)
    obtain ⟨ok, w₃, -, hread⟩ := hmapped.bind
    rcases hread.ite with ⟨-, hend⟩ | ⟨-, hbuf⟩
    · obtain ⟨hres, -⟩ := hend.pure
      cases hres
      exact .inl hsize₂
    obtain ⟨data, w₄, -, hdata⟩ := hbuf.bind
    obtain ⟨⟨act₂, de, s₂⟩, w₅, -, hcb⟩ := hdata.bind
    have hgrow : (if act₂.dirDirty = true then
          { dir₂ with dirty := true, size := (dir₂.size + 16) % 2 ^ 32 } else dir₂).size =
          dir₁.size ∨
        ((if act₂.dirDirty = true then
          { dir₂ with dirty := true, size := (dir₂.size + 16) % 2 ^ 32 } else dir₂).size =
          (dir₁.size + 16) % 2 ^ 32 ∧ dir₁.size / 16 / NENTS < MAXFILE) := by
      split
      · exact .inr ⟨by rw [hsize₂], hroom⟩
      · exact .inl hsize₂
    rcases hcb.ite with ⟨-, hlast⟩ | ⟨-, hlast⟩ <;> obtain ⟨x, w₆, -, hend⟩ := hlast.bind <;>
      obtain ⟨hres, -⟩ := hend.pure <;> cases hres <;> exact hgrow
  · obtain ⟨hres, -⟩ := hend.pure
    cases hres
    exact .inl hsize

theorem ictxDirty_size {ctx : InodeCtx} (h : Runs φ (xv6IctxDirty p ctx) w e w') :
    (w'.inodes p).size = if ctx.dirty then ctx.size else (w.inodes p).size := by
  simp only [xv6IctxDirty] at h
  rcases h.ite with ⟨hclean, h⟩ | ⟨hdirty, h⟩
  · obtain ⟨-, rfl⟩ := h.pure
    rw [if_neg (by simpa using hclean)]
  · rw [if_pos (by simpa using hdirty)]
    simp only [markInodeDirty, runs_bind_modifyInode, runs_bind_getInode, Function.update_self] at h
    cases hpriv : (w.inodes p).priv with
    | some addrs =>
      simp only [hpriv] at h
      obtain ⟨-, rfl⟩ := h.pure
      simp only [Function.update_self]
    | none =>
      simp only [hpriv, runs_bind_modifyInode, Function.update_self] at h
      obtain ⟨e', w₁, hsync, h⟩ := h.bind
      have hin := (keeps_syncInode (P := fun _ => False).via hsync).other p id
      simp only [runs_bind_modifyInode] at h
      obtain ⟨-, rfl⟩ := h.pure
      simp only [Function.update_self, hin]

variable {name : FileName} {inum : Nat}

theorem insert_ready (hd : ListReady w p) (h : Runs φ (xv6DentryInsert p name inum) w e w') :
    ListReady w' p ∧ (w.inodes p).size ≤ (w'.inodes p).size := by
  have hnodes := (keeps_dentryInsert (P := (· = p)) rfl name inum).via h
  have hsizes : (w'.inodes p).size = (w.inodes p).size ∨
      ((w'.inodes p).size = ((w.inodes p).size + 16) % 2 ^ 32 ∧
        (w.inodes p).size / 16 / NENTS < MAXFILE) := by
    simp only [xv6DentryInsert, runs_bind_getInode] at h
    rcases h.ite with ⟨-, hend⟩ | ⟨-, h⟩
    · obtain ⟨-, rfl⟩ := hend.pure
      exact .inl rfl
    rcases h.ite with ⟨-, hend⟩ | ⟨-, h⟩
    · obtain ⟨-, rfl⟩ := hend.pure
      exact .inl rfl
    rcases h.ite with ⟨-, hend⟩ | ⟨-, h⟩
    · obtain ⟨-, rfl⟩ := hend.pure
      exact .inl rfl
    obtain ⟨⟨e₀, ctx⟩, w₀, hinit, hnext⟩ := h.bind
    obtain ⟨hr, hctx⟩ := initIctx_reads hinit
    obtain ⟨l, rfl⟩ := hr.log
    rcases hnext.ite with ⟨-, hend⟩ | ⟨heq, h⟩
    · obtain ⟨-, rfl⟩ := hend.pure
      exact .inl rfl
    obtain rfl : e₀ = 0 := not_not.mp heq
    obtain rfl := hctx rfl
    obtain ⟨⟨e₁, ctx', s⟩, w₁, hiter, h⟩ := h.bind
    have hgrow := iterate_size hiter
    have hin := ((keeps_dirIterate (P := fun _ => False) _ _ () 0 true).via hiter).other p id
    obtain ⟨u, w₂, hwb, hlast⟩ := h.bind
    have hsize₂ : (w₂.inodes p).size = (w.inodes p).size := by
      obtain rfl := (runs_modifyInode _ _ _ _ _).mp hwb
      simp only [Function.update_self, hin]
    dsimp only at hgrow
    rw [hd.size_mod] at hgrow
    rcases hlast.ite with ⟨-, h⟩ | ⟨-, h⟩
    · rw [ictxDirty_size h, hsize₂]
      split
      · exact hgrow
      · exact .inl rfl
    · obtain ⟨-, rfl⟩ := h.pure
      exact .inl hsize₂
  have hmul := hd.mul
  have hge := hd.ge
  have hle := hd.le
  simp only [MAXFILE, BSIZE, NENTS] at hle hsizes
  refine ⟨⟨(hnodes.fmt p).trans hd.fmt, ?_, by omega, by omega, ?_⟩, by omega⟩
  · rw [hnodes.ino]
    exact hd.ino
  · simp only [MAXFILE, BSIZE]
    omega

/-- Erasing leaves the size as it is. -/
theorem erase_ready (hd : ListReady w p) (h : Runs φ (xv6DirErase p name) w e w') :
    ListReady w' p ∧ (w'.inodes p).size = (w.inodes p).size := by
  have hnodes := (keeps_dirErase (P := (· = p)) rfl name).via h
  have hsize : (w'.inodes p).size = (w.inodes p).size := by
    simp only [xv6DirErase, runs_bind_getInode] at h
    rcases h.ite with ⟨-, hend⟩ | ⟨-, h⟩
    · obtain ⟨-, rfl⟩ := hend.pure
      rfl
    obtain ⟨⟨e₀, ctx⟩, w₀, hinit, hnext⟩ := h.bind
    obtain ⟨hr, -⟩ := initIctx_reads hinit
    obtain ⟨l, rfl⟩ := hr.log
    rcases hnext.ite with ⟨-, hend⟩ | ⟨-, h⟩
    · obtain ⟨-, rfl⟩ := hend.pure
      rfl
    obtain ⟨⟨e₁, ctx', s⟩, w₁, hiter, h⟩ := h.bind
    have hin := ((keeps_dirIterate (P := fun _ => False) _ _ false 2 false).via hiter).other p id
    obtain ⟨u, w₂, hwb, h⟩ := h.bind
    simp only [runs_bind_assert] at h
    obtain ⟨-, rfl⟩ := h.2.pure
    obtain rfl := (runs_modifyInode _ _ _ _ _).mp hwb
    simp only [Function.update_self, hin]
  obtain ⟨h1, h2, h3, h4, h5⟩ := hd
  rw [← hsize] at h3 h4 h5
  exact ⟨⟨(hnodes.fmt p).trans h1, by rwa [hnodes.ino], h3, h4, h5⟩, hsize⟩

/-! ## Calls return -/

theorem initIctx_ends (hino : (w.inodes p).ino ≠ 0) :
    ∃ r w₀, Returns (xv6InitIctx p) w r w₀ := by
  simp only [xv6InitIctx, runs_bind_getInode]
  cases (w.inodes p).priv with
  | some addrs => exact ⟨_, _, returns_iff.mpr rfl⟩
  | none =>
    have hdget : ∃ r w₁, Returns (xv6Dget p) w r w₁ := by
      simp only [xv6Dget, runs_bind_getInode, runs_bind_assert, runs_bind_getEnv]
      obtain ⟨r, w₁, h⟩ := Prog.Total.bind (total_sbBread (inodeBlock w.env (w.inodes p).ino))
        (fun ok => .ite (c := (!ok) = true) (Prog.total_pure (- EIO, Dinode.zero)) <|
          .bind (total_bdata _) fun blk => Prog.total_pure (0, blk.dinode _)) w
      exact ⟨r, w₁, hino, returns_iff.mpr h⟩
    obtain ⟨r, w₁, h⟩ := hdget
    exact returns_bind_exists h ⟨_, _, returns_iff.mpr rfl⟩

theorem readdir_returns (hd : ListReady w p) (hpos : pos ≤ MAXFILE * NENTS) :
    ∃ e dc w', Returns (xv6Readdir dirEmit p pos) w (e, dc) w' := by
  have hmod : pos % 2 ^ 32 = pos := Nat.mod_eq_of_lt (by
    simp only [NENTS, MAXFILE] at hpos
    omega)
  have hcb : ∀ k de s, ∃ r, readdirCallback dirEmit k de s = .ok r ∧
      (r.1.deDirty = true → ∀ b blk, Prog.Total (modcheck.bflush b blk)) := by
    intro k de s
    unfold readdirCallback
    split
    · exact ⟨_, rfl, fun _ => total_syncBuffer⟩
    split
    · exact ⟨_, rfl, fun _ => total_syncBuffer⟩
    split <;> exact ⟨_, rfl, fun _ => total_syncBuffer⟩
  have hall : ∃ r w', Returns (xv6Readdir dirEmit p pos) w r w' := by
    simp only [xv6Readdir, runs_bind_getInode, hd.fmt, ne_eq, not_true_eq_false, if_false]
    obtain ⟨⟨e₀, ctx⟩, w₀, hinit⟩ := initIctx_ends hd.ino
    refine returns_bind_exists hinit ?_
    by_cases h0 : e₀ = 0
    · subst h0
      obtain rfl := (initIctx_reads hinit).2 rfl
      simp only [not_true_eq_false, if_false]
      have htotal : Prog.Total (xv6DirIterate modcheck
          ⟨w.addrs p, (w.inodes p).size % 2 ^ 32, false⟩ (readdirCallback dirEmit) ⟨pos, []⟩ pos
          false) :=
        total_iterate total_sbBread total_bdata hcb
          (by rw [hd.size_mod]; exact ⟨hd.mul, hd.ge⟩) hpos ⟨pos, []⟩
      obtain ⟨⟨e, dir', s'⟩, w₁, hrun⟩ := htotal w₀
      rw [hmod]
      refine returns_bind_exists (returns_iff.mpr hrun) ?_
      exact returns_bind_exists (returns_iff.mpr rfl) ⟨_, _, returns_iff.mpr rfl⟩
    · simp only [h0, not_false_eq_true, if_true]
      exact ⟨_, _, returns_iff.mpr rfl⟩
  obtain ⟨⟨e, dc⟩, w', h⟩ := hall
  exact ⟨e, dc, w', h⟩

end

/-! ## A run of calls -/

/-- Calls, one after another: the kernel holds the directory's lock. -/
inductive ListCall where
  /-- the next piece of the listing, and which of its entries `dir_emit` takes -/
  | readdir (dirEmit : Nat → Bool)
  | insert (name : FileName) (inum : Nat)
  | erase (name : FileName)

/-- An enumeration under way. -/
structure ListState where
  world : World
  /-- where the next call starts -/
  pos : Nat
  /-- the entries listed, each with the state in which its call started -/
  out : List (World × (FileName × Nat))
  /-- the states so far -/
  seen : List World
  /-- the number of calls of `xv6_readdir` -/
  calls : Nat
  /-- a call has listed nothing -/
  ended : Bool

def ListState.init (w : World) : ListState := ⟨w, 0, [], [w], 0, false⟩

/-- One call. A call of `xv6_readdir` starts where the last one stopped, and lists an entry when
    there is one left. -/
inductive ListStep (p : Ptr) : ListState → ListCall → ListState → Prop where
  | readdir {s : ListState} {dirEmit : Nat → Bool} {e : Int} {dc : DirContext} {w' : World}
      (hopen : s.ended = false) (h : Returns (xv6Readdir dirEmit p s.pos) s.world (e, dc) w')
      (hserve : (∃ k, s.pos ≤ k ∧ (listing s.world p k).isSome = true) → dc.emitted ≠ []) :
      ListStep p s (.readdir dirEmit)
        ⟨w', dc.pos, s.out ++ dc.emitted.map (Prod.mk s.world), s.seen ++ [w'], s.calls + 1,
          decide (dc.emitted = [])⟩
  | insert {s : ListState} {name : FileName} {inum : Nat} {e : Int} {w' : World}
      (h : Returns (xv6DentryInsert p name inum) s.world e w') :
      ListStep p s (.insert name inum) { s with world := w', seen := s.seen ++ [w'] }
  | erase {s : ListState} {name : FileName} {e : Int} {w' : World}
      (h : Returns (xv6DirErase p name) s.world e w') :
      ListStep p s (.erase name) { s with world := w', seen := s.seen ++ [w'] }

/-- The table that a call in the state `w` scans. -/
def tagged (p : Ptr) (w : World) (k : Nat) : Option (World × (FileName × Nat)) :=
  (listing w p k).map (Prod.mk w)

variable {p : Ptr} {s t : ListState}

/-- What every call keeps. -/
structure ListInv (p : Ptr) (s : ListState) : Prop where
  ready : ListReady s.world p
  mem : s.world ∈ s.seen
  bound : s.pos ≤ MAXFILE * NENTS
  listed : ∃ vs : List World, (∀ v ∈ vs, v ∈ s.seen) ∧ Listed (vs.map (tagged p)) s.pos s.out
  calls : s.calls ≤ s.out.length + s.ended.toNat
  done : s.ended = true → ∃ v ∈ s.seen, ∀ k, s.pos ≤ k → listing v p k = none

theorem listInv_init {w : World} (h : ListReady w p) : ListInv p (.init w) where
  ready := h
  mem := List.mem_singleton_self w
  bound := Nat.zero_le _
  listed := ⟨[], by simp, listed_nil⟩
  calls := le_refl _
  done := fun hend => nomatch hend

/-- The directory changes between two calls of `xv6_readdir`. -/
theorem ListInv.change {w' : World} (hs : ListInv p s) (h : ListReady w' p) :
    ListInv p { s with world := w', seen := s.seen ++ [w'] } where
  ready := h
  mem := List.mem_append_right _ (List.mem_singleton_self w')
  bound := hs.bound
  listed := by
    obtain ⟨vs, hvs, hlisted⟩ := hs.listed
    exact ⟨vs, fun v hv => List.mem_append_left _ (hvs v hv), hlisted⟩
  calls := hs.calls
  done := fun hend => by
    obtain ⟨v, hv, hnone⟩ := hs.done hend
    exact ⟨v, List.mem_append_left _ hv, hnone⟩

theorem listStep_inv {a : ListCall} (hs : ListInv p s) (h : ListStep p s a t) : ListInv p t := by
  cases h with
  | insert h => exact hs.change (insert_ready hs.ready h).1
  | erase h => exact hs.change (erase_ready hs.ready h).1
  | @readdir dirEmit e dc w' hopen h hserve =>
    obtain ⟨⟨l, rfl⟩, hbound, hscan, -⟩ := readdir_spec hs.ready hs.bound h
    obtain ⟨vs, hvs, hlisted⟩ := hs.listed
    refine ⟨⟨hs.ready.fmt, hs.ready.ino, hs.ready.mul, hs.ready.ge, hs.ready.le⟩,
      List.mem_append_right _ (List.mem_singleton_self _), hbound,
      ⟨vs ++ [s.world], fun v hv => ?_, ?_⟩, ?_, fun hend => ?_⟩
    · rcases List.mem_append.mp hv with hv | hv
      · exact List.mem_append_left _ (hvs v hv)
      · rw [List.mem_singleton.mp hv]
        exact List.mem_append_left _ hs.mem
    · rw [List.map_append]
      exact hlisted.scan (hscan.map (Prod.mk s.world))
    · have hcalls := hs.calls
      rw [hopen] at hcalls
      simp only [Bool.toNat_false, Nat.add_zero] at hcalls
      rw [List.length_append, List.length_map]
      by_cases hnil : dc.emitted = []
      · simp only [hnil, decide_true, Bool.toNat_true, List.length_nil]
        omega
      · have hlen : 0 < dc.emitted.length := List.length_pos_iff.mpr hnil
        simp only [hnil, decide_false, Bool.toNat_false]
        omega
    · refine ⟨s.world, List.mem_append_left _ hs.mem, fun k hk => ?_⟩
      by_contra hsome
      exact hserve ⟨k, le_trans hscan.le hk, Option.isSome_iff_ne_none.mpr hsome⟩
        (of_decide_eq_true hend)

/-- What has been listed: entries in use of the directory as the call found it, in the order of
    their slots; once the enumeration has ended, every entry that was there all the time. -/
theorem ListInv.complete (hs : ListInv p s) :
    ∃ slots : List Nat, slots.Pairwise (· < ·) ∧
      List.Forall₂ (fun k vb => vb.1 ∈ s.seen ∧ listing vb.1 p k = some vb.2) slots s.out ∧
      (s.ended = true → ∀ k b, (∀ v ∈ s.seen, listing v p k = some b) →
        ∃ (i : Nat) (v : World), slots[i]? = some k ∧ s.out[i]? = some (v, b)) := by
  obtain ⟨vs, hvs, hlisted⟩ := hs.listed
  obtain ⟨slots, hsort, -, hout, hall⟩ := hlisted.slots
  have hgood : List.Forall₂ (fun k vb => vb.1 ∈ s.seen ∧ listing vb.1 p k = some vb.2) slots
      s.out := by
    refine hout.imp fun k vb ⟨f, hf, hfk⟩ => ?_
    obtain ⟨v, hv, rfl⟩ := List.mem_map.mp hf
    obtain ⟨b, hb, rfl⟩ := Option.map_eq_some_iff.mp hfk
    exact ⟨hvs v hv, hb⟩
  refine ⟨slots, hsort, hgood, fun hend k b hb => ?_⟩
  have hlt : k < s.pos := by
    by_contra hge
    obtain ⟨v, hv, hnone⟩ := hs.done hend
    have hk := hnone k (not_lt.mp hge)
    rw [hb v hv] at hk
    cases hk
  have hmem : k ∈ slots := by
    refine hall k hlt fun f hf => ?_
    obtain ⟨v, hv, rfl⟩ := List.mem_map.mp hf
    rw [tagged, hb v (hvs v hv)]
    rfl
  obtain ⟨i, ⟨v, b'⟩, hi, hob, hseen, hb'⟩ := exists_of_forall₂ hgood hmem
  rw [hb v hseen] at hb'
  cases hb'
  exact ⟨i, v, hi, hob⟩

/-- Enumerating a directory that changes meanwhile: no free slot is listed, the entries come in the
    order of their slots with the name and inode number they have, and one that is there all the
    time is listed once by the end. The enumeration ends: it cannot go on for ever, and there is
    always a next call, which lists an entry if one is left, `dir_emit` takes the first it is given
    and no block fails. -/
theorem listing_complete {w : World} {calls : List ListCall} (h : ListReady w p)
    (hrun : Steps (ListStep p) (.init w) calls s) :
    (∃ slots : List Nat, slots.Pairwise (· < ·) ∧
      List.Forall₂ (fun k vb => vb.1 ∈ s.seen ∧ listing vb.1 p k = some vb.2) slots s.out ∧
      (s.ended = true → ∀ k b, (∀ v ∈ s.seen, listing v p k = some b) →
        ∃ (i : Nat) (v : World), slots[i]? = some k ∧ s.out[i]? = some (v, b))) ∧
    s.calls ≤ MAXFILE * NENTS + 1 ∧
    ∀ dirEmit, ∃ e dc w', Returns (xv6Readdir dirEmit p s.pos) s.world (e, dc) w' ∧
      (Faultless s.world w' → dirEmit 0 = true →
        (∃ k, s.pos ≤ k ∧ (listing s.world p k).isSome = true) → dc.emitted ≠ []) := by
  have hs : ListInv p s := hrun.invariant (fun _ _ _ hs ha => listStep_inv hs ha) (listInv_init h)
  refine ⟨hs.complete, ?_, fun dirEmit => ?_⟩
  · obtain ⟨vs, -, hlisted⟩ := hs.listed
    have hlen := hlisted.length_le
    have hcalls := hs.calls
    have hone : s.ended.toNat ≤ 1 := Bool.toNat_le _
    have hbound := hs.bound
    omega
  · obtain ⟨e, dc, w', hret⟩ : ∃ e dc w', Returns (xv6Readdir dirEmit p s.pos) s.world (e, dc) w' :=
      readdir_returns hs.ready hs.bound
    refine ⟨e, dc, w', hret, fun hf haccept ⟨k, hk, hsome⟩ hnil => ?_⟩
    obtain ⟨-, -, hscan, hrest⟩ := readdir_spec hs.ready hs.bound hret
    rw [hnil] at hscan
    rcases hrest hf with ⟨-, hrefused⟩ | hnone
    · rw [hnil, List.length_nil, haccept] at hrefused
      cases hrefused
    · by_cases hlt : k < dc.pos
      · obtain ⟨-, slots, -, -, hout, hall⟩ := hscan
        have hmem := hall k hk hlt hsome
        rw [List.forall₂_nil_right_iff.mp hout] at hmem
        cases hmem
      · rw [hnone k (not_lt.mp hlt)] at hsome
        cases hsome

/-- The first call takes one entry; a file comes, and the next call lists it; it goes again,
    and the third call finds nothing. -/
theorem listing_with_insert :
    ∃ s, Steps (ListStep 0) (.init (oneBlockDir dotsBlock (oneBlock 20) 32))
      [.readdir fun n => n < 1, .insert entryA.name 2, .readdir fun _ => true, .erase entryA.name,
        .readdir fun _ => true] s ∧ s.ended = true ∧
      s.out.map Prod.snd = [(dot, 1), (dotdot, 1), (entryA.name, 2)] ∧
      (∃ slots : List Nat, slots.Pairwise (· < ·) ∧
        List.Forall₂ (fun k vb => vb.1 ∈ s.seen ∧ listing vb.1 0 k = some vb.2) slots s.out ∧
        (s.ended = true → ∀ k b, (∀ v ∈ s.seen, listing v 0 k = some b) →
          ∃ (i : Nat) (v : World), slots[i]? = some k ∧ s.out[i]? = some (v, b))) ∧
      s.calls ≤ MAXFILE * NENTS + 1 := by
  have hfirst := returns_after (m := xv6Readdir (fun n => n < 1) 0 0)
    (w := oneBlockDir dotsBlock (oneBlock 20) 32) (a := (0, ⟨1, [(dot, 1)]⟩)) (by decide +kernel)
  generalize hw₁ : World.after _ (xv6Readdir _ 0 0) = w₁ at hfirst
  have hinsert := returns_after (m := xv6DentryInsert 0 entryA.name 2) (w := w₁) (a := 0)
    (by subst hw₁; decide +kernel)
  generalize hw₂ : World.after _ (xv6DentryInsert 0 entryA.name 2) = w₂ at hinsert
  have hsecond := returns_after (m := xv6Readdir (fun _ => true) 0 1) (w := w₂)
    (a := (0, ⟨3, [(dotdot, 1), (entryA.name, 2)]⟩)) (by subst hw₂; subst hw₁; decide +kernel)
  generalize hw₃ : World.after _ (xv6Readdir _ 0 1) = w₃ at hsecond
  have herase := returns_after (m := xv6DirErase 0 entryA.name) (w := w₃) (a := 0)
    (by subst hw₃; subst hw₂; subst hw₁; decide +kernel)
  generalize hw₄ : World.after _ (xv6DirErase 0 entryA.name) = w₄ at herase
  have hthird := returns_after (m := xv6Readdir (fun _ => true) 0 3) (w := w₄)
    (a := (0, ⟨3, []⟩)) (by subst hw₄; subst hw₃; subst hw₂; subst hw₁; decide +kernel)
  have hsize : (w₄.inodes 0).size = 48 := by
    subst hw₄; subst hw₃; subst hw₂; subst hw₁; decide +kernel
  have hleft : ∀ k, 3 ≤ k → listing w₄ 0 k = none := by
    intro k hk
    unfold listing
    rw [hsize]
    exact if_neg (not_lt.mpr hk)
  have hrun : Steps (ListStep 0) (.init (oneBlockDir dotsBlock (oneBlock 20) 32))
      [.readdir fun n => n < 1, .insert entryA.name 2, .readdir fun _ => true,
        .erase entryA.name, .readdir fun _ => true] _ :=
    .cons (.readdir rfl hfirst (by simp)) <| .cons (.insert hinsert) <|
    .cons (.readdir (by simp) hsecond (by simp)) <| .cons (.erase herase) <|
    .single (.readdir (by simp) hthird fun ⟨k, hk, hsome⟩ => by
      rw [hleft k hk] at hsome
      cases hsome)
  obtain ⟨hlisted, hcalls, -⟩ := listing_complete ⟨rfl, by decide, rfl, by decide, by decide⟩ hrun
  exact ⟨_, hrun, by simp, by simp [ListState.init], hlisted, hcalls⟩

end Xv6fs
