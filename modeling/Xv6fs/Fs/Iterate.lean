/-
  What the directory iterator does with a callback that looks for an entry.

  `dslot d addrs k` is entry `k` of a directory, all-zero in a hole. A `Seeker p` passes over
  entries that do not satisfy `p` and stops at one that does. `entries_spec` follows one block,
  `body_spec` one round of the `while` loop, `blocks_spec` the loop without allocation: it
  changes nothing before the first entry that satisfies `p`, which it finds unless a read fails.
-/
import Xv6fs.Fs.Map

namespace Xv6fs

/-- Entry `k` of the directory. -/
def dslot (d : Disk) (addrs : Addrs) (k : Nat) : Dirent :=
  (fblock d addrs (k / NENTS)).dirent (k % NENTS)

/-- A callback that continues past the entries that do not satisfy `p`, leaving them alone, and
    stops at one from entry `lo` on that does; `ext` is the flag it continues with. -/
structure Seeker {σ : Type} (cb : DiterCallback σ) (p : Dirent → Prop) (ext : Bool) (lo : Nat) :
    Prop where
  miss : ∀ k de s, ¬ p de → ∃ act, cb k de s = .ok (act, de, s) ∧ act.cont = true ∧
    act.deDirty = false ∧ act.dirExt = ext
  hit : ∀ {k de s act de' s'}, lo ≤ k → p de → cb k de s = .ok (act, de', s') → act.cont = false

section

variable {σ : Type} {cb : DiterCallback σ} {p : Dirent → Prop} {ext : Bool} {lo : Nat}

/-! ## One block -/

/-- The loop over entries `[k, k + n)` passes them all, or stops at the first that satisfies
    `p`. -/
theorem entries_spec (hs : Seeker cb p ext lo) (base : Nat) :
    ∀ (n k : Nat) {act act' : DiterAction} {blk blk' : Block} {s s' : σ} {flush flush' : Bool},
      lo ≤ base + k →
      xv6DirIterate.entries cb base n k act blk s flush = .ok (act', blk', s', flush') →
      (blk' = blk ∧ s' = s ∧ flush' = flush ∧ (∀ j, k ≤ j → j < k + n → ¬ p (blk.dirent j)) ∧
        (n = 0 → act' = act) ∧ (n ≠ 0 → act'.cont = true ∧ act'.dirExt = ext)) ∨
      ∃ j de, k ≤ j ∧ j < k + n ∧ p (blk.dirent j) ∧ (∀ m, k ≤ m → m < j → ¬ p (blk.dirent m)) ∧
        cb (base + j) (blk.dirent j) s = .ok (act', de, s') ∧ act'.cont = false ∧
        blk' = blk.setDirent j de ∧ flush' = (flush || act'.deDirty)
  | 0, k, act, act', blk, blk', s, s', flush, flush', _, h => by
    cases h
    exact .inl ⟨rfl, rfl, rfl, fun j hj hj' => absurd hj' (by omega), fun _ => rfl,
      fun h0 => absurd rfl h0⟩
  | n + 1, k, act, act', blk, blk', s, s', flush, flush', hlo, h => by
    unfold xv6DirIterate.entries at h
    by_cases hp : p (blk.dirent k)
    · cases hcb : cb (base + k) (blk.dirent k) s with
      | error e => rw [hcb] at h; cases h
      | ok r =>
        obtain ⟨act₁, de, s₁⟩ := r
        have hstop := hs.hit hlo hp hcb
        rw [hcb] at h
        simp only [bind, Except.bind, hstop, Bool.not_false, if_true] at h
        cases h
        exact .inr ⟨k, de, le_refl k, by omega, hp, fun m hm hm' => absurd hm' (by omega), hcb,
          hstop, rfl, rfl⟩
    · obtain ⟨act₁, hcb, hcont, hdirty, hext⟩ := hs.miss (base + k) (blk.dirent k) s hp
      rw [hcb] at h
      simp only [bind, Except.bind, hcont, hdirty, Bool.not_true, Bool.false_eq_true, if_false,
        Bool.or_false, Block.setDirent_dirent] at h
      have hstep : ∀ a, (∀ m, k + 1 ≤ m → m < a → ¬ p (blk.dirent m)) →
          ∀ m, k ≤ m → m < a → ¬ p (blk.dirent m) := by
        intro a ha m hm hma
        rcases Nat.eq_or_lt_of_le hm with rfl | hlt
        · exact hp
        · exact ha m hlt hma
      rcases entries_spec hs base n (k + 1) (by omega) h with
        ⟨rfl, rfl, rfl, hall, hzero, hsucc⟩ | ⟨j, de, hj, hj', hpj, hbefore, hcbj, hstop, rfl, rfl⟩
      · refine .inl ⟨rfl, rfl, rfl, fun m hm hm' => hstep (k + 1 + n) hall m hm (by omega), ?_, ?_⟩
        · exact fun h0 => absurd h0 (Nat.succ_ne_zero n)
        · intro _
          by_cases hn : n = 0
          · rw [hzero hn]
            exact ⟨hcont, hext⟩
          · exact hsucc hn
      · exact .inr ⟨j, de, by omega, by omega, hpj, hstep j hbefore, hcbj, hstop, rfl, rfl⟩

variable {φ : Event → Prop} {w w' : World}

/-- Where the loop meets an entry: after some reads entry `j` of the block at `blockno`
    satisfies `p`, and what the callback makes of it is written back when it says so. -/
structure HitAt (cb : DiterCallback σ) (p : Dirent → Prop) (w : World) (blockno base j : Nat)
    (s : σ) (e : Int) (act : DiterAction) (s' : σ) (w' : World) : Prop where
  nonzero : blockno ≠ 0
  sat : p ((w.disk blockno).dirent j)
  stop : act.cont = false
  done : ∃ de, cb (base + j) ((w.disk blockno).dirent j) s = .ok (act, de, s') ∧
    ((act.deDirty = true ∧ Wrote w blockno ((w.disk blockno).setDirent j de) e w') ∨
      (act.deDirty = false ∧ e = 0 ∧ ∃ l, w ≤ { w with log := l } ∧
        OnlyReads w { w with log := l } 0 ∧ w' = { w with
          disk := Function.update w.disk blockno ((w.disk blockno).setDirent j de), log := l }))

/-- The reads before count as well. -/
theorem HitAt.prepend {w₁ : World} {blockno base j : Nat} {s s' : σ} {e : Int} {act : DiterAction}
    (hle : w ≤ w₁) (hr : OnlyReads w w₁ 0) (h : HitAt cb p w₁ blockno base j s e act s' w') :
    HitAt cb p w blockno base j s e act s' w' := by
  obtain ⟨hne, hsat, hstop, de, hcb, ⟨hdirty, hw⟩ | ⟨hclean, he, l₁, hle₁, hr₁, rfl⟩⟩ := h
  · have hw' := hw.prepend hle hr
    obtain ⟨l, rfl⟩ := hr.log
    exact ⟨hne, hsat, hstop, de, hcb, .inl ⟨hdirty, hw'⟩⟩
  · have hr' := hr.trans hle hle₁ hr₁
    obtain ⟨l, rfl⟩ := hr.log
    exact ⟨hne, hsat, hstop, de, hcb, .inr ⟨hclean, he, l₁, le_trans hle hle₁, hr', rfl⟩⟩

/-- The error tells whether a call failed. -/
theorem HitAt.error {blockno base j : Nat} {s s' : σ} {e : Int} {act : DiterAction}
    (h : HitAt cb p w blockno base j s e act s' w') : e = 0 ↔ Faultless w w' := by
  obtain ⟨-, -, -, de, -, ⟨-, hw⟩ | ⟨-, rfl, l, -, hr, rfl⟩⟩ := h
  · exact hw.error
  · exact iff_of_true rfl ((faultless_congr rfl).mpr (hr.error.mp rfl))

/-- One round of the `while` loop, over entries `[off, lim)` of one block, or over a hole. -/
theorem body_spec (hs : Seeker cb p ext lo) {i off lim blockno : Nat} {act act' : DiterAction}
    {s s' : σ} {e : Int} (hlo : lo ≤ i * NENTS + off) (hoff : off ≤ lim)
    (hhole : blockno = 0 → ¬ p Dirent.zero)
    (h : Runs φ (xv6DirIterate.body modcheck cb i off lim blockno act s) w (e, act', s') w') :
    (OnlyReads w w' e ∧ s' = s ∧
        (e = 0 → (off < lim ∨ blockno = 0 → act'.cont = true ∧ act'.dirExt = ext) ∧
          (off = lim → blockno ≠ 0 → act' = act) ∧
          (blockno ≠ 0 → ∀ j, off ≤ j → j < lim → ¬ p ((w.disk blockno).dirent j)))) ∨
      ∃ j, off ≤ j ∧ j < lim ∧ (∀ m, off ≤ m → m < j → ¬ p ((w.disk blockno).dirent m)) ∧
        HitAt cb p w blockno (i * NENTS) j s e act' s' w' := by
  simp only [xv6DirIterate.body, modcheck] at h
  rcases h.ite with ⟨hz, h⟩ | ⟨hnz, h⟩
  · obtain ⟨act₁, hcb, hcont, -, hext⟩ := hs.miss (i * NENTS) Dirent.zero s (hhole hz)
    rw [hcb] at h
    obtain ⟨r, w₁, hlift, h⟩ := h.bind
    obtain ⟨hr, rfl⟩ := hlift.lift
    cases hr
    obtain ⟨hr, rfl⟩ := h.pure
    cases hr
    refine .inl ⟨.refl w, rfl, fun _ => ?_⟩
    exact ⟨fun _ => ⟨hcont, hext⟩, fun _ hne => absurd hz hne, fun hne => absurd hz hne⟩
  · obtain ⟨l₁, hle, ⟨hr, h⟩ | ⟨hr, h⟩⟩ := sbBread_cases h
    · obtain ⟨hres, rfl⟩ := h.pure
      cases hres
      exact .inl ⟨hr, rfl, fun h0 => absurd h0 (by decide)⟩
    · simp only [runs_bind_bdata] at h
      obtain ⟨⟨act₁, blk, s₁, flush⟩, w₂, hlift, h⟩ := h.bind
      obtain ⟨hentries, rfl⟩ := hlift.lift
      have hlim : off + (lim - off) = lim := by omega
      rcases entries_spec hs _ _ _ hlo hentries with
        ⟨rfl, rfl, rfl, hall, hzero, hsucc⟩ | ⟨j, de, hj, hj', hpj, hbefore, hcb, hstop, rfl, rfl⟩
      · simp only [Bool.false_eq_true, if_false, runs_bind_bstore, Function.update_eq_self] at h
        obtain ⟨hres, rfl⟩ := h.pure
        cases hres
        refine .inl ⟨hr, rfl, fun _ => ⟨fun hlt => ?_, ?_, ?_⟩⟩
        · exact hsucc (by have := hlt.resolve_right hnz; omega)
        · exact fun heq _ => hzero (by omega)
        · exact fun _ m hm hm' => hall m hm (by omega)
      · refine .inr ⟨j, hj, by omega, hbefore, ?_⟩
        rcases h.ite with ⟨hflush, h⟩ | ⟨hflush, h⟩
        · obtain ⟨e₁, w₃, hsync, h⟩ := h.bind
          obtain ⟨f, he, rfl⟩ := syncBuffer_fate hsync
          obtain ⟨hres, rfl⟩ := h.pure
          cases hres
          refine ⟨hnz, hpj, hstop, de, hcb, .inl ⟨?_, l₁, f, hle, hr, he, rfl⟩⟩
          simpa using hflush
        · simp only [runs_bind_bstore] at h
          obtain ⟨hres, rfl⟩ := h.pure
          cases hres
          refine ⟨hnz, hpj, hstop, de, hcb, .inr ⟨?_, rfl, l₁, hle, hr, rfl⟩⟩
          simpa using hflush

/-! ## The loop without allocation -/

/-- Entry `i * NENTS + j` lies in block `i`. -/
theorem dslot_eq (d : Disk) (addrs : Addrs) {i j : Nat} (hj : j < NENTS) :
    dslot d addrs (i * NENTS + j) =
      if bmap d addrs i = 0 then Dirent.zero else (d (bmap d addrs i)).dirent j := by
  have hdiv : (i * NENTS + j) / NENTS = i := by
    simp only [NENTS] at hj ⊢
    omega
  have hmod : (i * NENTS + j) % NENTS = j := by
    simp only [NENTS] at hj ⊢
    omega
  unfold dslot fblock
  rw [hdiv, hmod]
  split
  · exact Block.dirent_zero j
  · rfl

/-- The entries of block `i` before entry `j` are those of the directory. -/
theorem not_before {d : Disk} {addrs : Addrs} {i off j : Nat} (hj : j ≤ NENTS)
    (hb : bmap d addrs i ≠ 0)
    (h : ∀ m, off ≤ m → m < j → ¬ p ((d (bmap d addrs i)).dirent m)) :
    ∀ m, i * NENTS + off ≤ m → m < i * NENTS + j → ¬ p (dslot d addrs m) := by
  intro m hm hm'
  obtain ⟨m', rfl⟩ : ∃ m', m = i * NENTS + m' := ⟨m - i * NENTS, by omega⟩
  rw [dslot_eq d addrs (by omega), if_neg hb]
  exact h m' (by omega) (by omega)

/-- Where block `i` is stopped at, told by the entry's number. -/
theorem HitAt.entry {addrs : Addrs} {i j : Nat} {s s' : σ} {e : Int} {act : DiterAction}
    (hj : j < NENTS) (h : HitAt cb p w (bmap w.disk addrs i) (i * NENTS) j s e act s' w') :
    HitAt cb p w (bmap w.disk addrs ((i * NENTS + j) / NENTS)) ((i * NENTS + j) / NENTS * NENTS)
      ((i * NENTS + j) % NENTS) s e act s' w' := by
  have hdiv : (i * NENTS + j) / NENTS = i := by
    simp only [NENTS] at hj ⊢
    omega
  have hmod : (i * NENTS + j) % NENTS = j := by
    simp only [NENTS] at hj ⊢
    omega
  rwa [hdiv, hmod]

/-- The search of the entries from `start` to `hi` ends among those that a directory can have. -/
def EndsWithin (p : Dirent → Prop) (d : Disk) (addrs : Addrs) (start hi : Nat) : Prop :=
  hi ≤ MAXFILE * NENTS ∨ ∃ k, start ≤ k ∧ k < hi ∧ k < MAXFILE * NENTS ∧ p (dslot d addrs k)

/-- It goes on behind block `i` when there is nothing in the block. -/
theorem EndsWithin.next {d : Disk} {addrs : Addrs} {i off hi : Nat}
    (h : EndsWithin p d addrs (i * NENTS + off) hi) (hi' : (i + 1) * NENTS < hi)
    (hnone : ∀ k, i * NENTS + off ≤ k → k < (i + 1) * NENTS → ¬ p (dslot d addrs k)) :
    i + 1 < MAXFILE ∧ EndsWithin p d addrs ((i + 1) * NENTS + 0) hi := by
  rcases h with hmax | ⟨k, hk, hk', hmax, hp⟩
  · refine ⟨?_, .inl hmax⟩
    simp only [NENTS, MAXFILE] at *
    omega
  · have hge : (i + 1) * NENTS ≤ k := by
      by_contra hlt
      exact hnone k hk (not_le.mp hlt) hp
    refine ⟨?_, .inr ⟨k, hge, hk', hmax, hp⟩⟩
    simp only [NENTS, MAXFILE] at *
    omega

/-- The loop from entry `i * NENTS + off` on, `size` entries of it. -/
theorem blocks_spec (hs : Seeker cb p ext lo) (hzero : ¬ p Dirent.zero) :
    ∀ (rounds i off size : Nat) {act act' : DiterAction} {dir dir' : InodeCtx} {s s' : σ} {e : Int}
      {w w' : World}, lo ≤ i * NENTS + off → off < NENTS →
      EndsWithin p w.disk dir.addrs (i * NENTS + off) (i * NENTS + off + size) → i < MAXFILE →
      Runs φ (xv6DirIterate.blocks modcheck cb false rounds i off size act dir s) w
        (e, act', dir', s') w' →
      dir' = { dir with dirty := false } ∧
      ((OnlyReads w w' e ∧ s' = s ∧
          (e = 0 → (size ≠ 0 → act'.cont = true ∧ act'.dirExt = ext) ∧
            (act.cont = false → act'.cont = true → act'.dirExt = ext) ∧
            ∀ k, i * NENTS + off ≤ k → k < i * NENTS + off + size →
              ¬ p (dslot w.disk dir.addrs k))) ∨
        ∃ k, i * NENTS + off ≤ k ∧ k < i * NENTS + off + size ∧
          (∀ m, i * NENTS + off ≤ m → m < k → ¬ p (dslot w.disk dir.addrs m)) ∧
          HitAt cb p w (bmap w.disk dir.addrs (k / NENTS)) (k / NENTS * NENTS) (k % NENTS) s
            e act' s' w')
  | 0, _, _, _, _, _, _, _, _, _, _, _, _, _, _, _, _, h => h.halt.elim
  | rounds + 1, i, off, size, act, act', dir, dir', s, s', e, w, w', hlo, hoff, hmax, hi, h => by
    simp only [xv6DirIterate.blocks] at h
    obtain ⟨⟨e₁, b, dir₁⟩, w₁, haddr, h⟩ := h.bind
    have hmono₁ := haddr.mono
    obtain ⟨rfl, hr₁, hb⟩ := xv6InodeAddr_read hi haddr
    rcases h.ite with ⟨hne, h⟩ | ⟨heq, h⟩
    · obtain ⟨hres, rfl⟩ := h.pure
      cases hres
      exact ⟨rfl, .inl ⟨hr₁, rfl, fun h0 => absurd h0 hne⟩⟩
    obtain rfl : e₁ = 0 := not_not.mp heq
    obtain rfl := hb rfl
    obtain ⟨l₁, rfl⟩ := hr₁.log
    have hlim : off ≤ xv6Min NENTS (size + off) := by
      rw [xv6Min_eq_min]
      simp only [NENTS] at hoff ⊢
      omega
    have hlim' : xv6Min NENTS (size + off) ≤ NENTS ∧ xv6Min NENTS (size + off) ≤ size + off := by
      rw [xv6Min_eq_min]
      omega
    obtain ⟨⟨e₂, act₂, s₂⟩, w₂, hbody, hnext⟩ := h.bind
    clear h
    have hmono₂ := hbody.mono
    have hout := body_spec hs hlo hlim (fun _ => hzero) hbody
    have hslot : ∀ j, j < NENTS → bmap w.disk dir.addrs i ≠ 0 →
        dslot w.disk dir.addrs (i * NENTS + j) = (w.disk (bmap w.disk dir.addrs i)).dirent j :=
      fun j hj hne => (dslot_eq w.disk dir.addrs hj).trans (if_neg hne)
    have hhole : ∀ j, j < NENTS → bmap w.disk dir.addrs i = 0 →
        dslot w.disk dir.addrs (i * NENTS + j) = Dirent.zero :=
      fun j hj hz => (dslot_eq w.disk dir.addrs hj).trans (if_pos hz)
    rcases hout with ⟨hr₂, rfl, hmiss⟩ | ⟨j, hj, hj', hbefore, hhit⟩
    · -- the round passed all its entries
      have hr := hr₁.trans hmono₁ hmono₂ hr₂
      have hlt : size ≠ 0 → off < xv6Min NENTS (size + off) := by
        intro hsz
        rw [xv6Min_eq_min]
        omega
      have hext : e₂ = 0 → act.cont = false → act₂.cont = true → act₂.dirExt = ext := by
        intro h0 hfalse htrue
        by_cases hround : off < xv6Min NENTS (size + off) ∨ bmap w.disk dir.addrs i = 0
        · exact ((hmiss h0).1 hround).2
        · rw [not_or, not_lt] at hround
          rw [(hmiss h0).2.1 (by omega) hround.2, hfalse] at htrue
          cases htrue
      have hround : e₂ = 0 → ∀ k, i * NENTS + off ≤ k →
          k < i * NENTS + xv6Min NENTS (size + off) → ¬ p (dslot w.disk dir.addrs k) := by
        intro h0 k hk hk'
        obtain ⟨j, rfl⟩ : ∃ j, k = i * NENTS + j := ⟨k - i * NENTS, by omega⟩
        by_cases hz : bmap w.disk dir.addrs i = 0
        · rw [hhole j (by omega) hz]
          exact hzero
        · rw [hslot j (by omega) hz]
          exact (hmiss h0).2.2 hz j (by omega) (by omega)
      rcases hnext.ite with ⟨hstop, h⟩ | ⟨hgo, h⟩
      · obtain ⟨hres, rfl⟩ := h.pure
        cases hres
        refine ⟨rfl, .inl ⟨hr, rfl, fun h0 => ⟨fun hsz => ?_, ?_, ?_⟩⟩⟩
        · exact (hmiss h0).1 (.inl (hlt hsz))
        · exact hext h0
        · have hsz : size = 0 := by
            by_contra hsz
            have hcont := ((hmiss h0).1 (.inl (hlt hsz))).1
            have hstop' : (!act₂.cont) = true ∨ e₂ ≠ 0 := hstop
            rw [hcont] at hstop'
            exact hstop'.elim (by decide) fun hne => hne h0
          exact fun k hk hk' => absurd hk' (by omega)
      · have h0 : e₂ = 0 := by
          by_contra hne
          exact hgo (.inr hne)
        rcases h.ite with ⟨hdone, h⟩ | ⟨hmore, h⟩
        · obtain ⟨hres, rfl⟩ := h.pure
          cases hres
          refine ⟨rfl, .inl ⟨hr, rfl, fun _ => ⟨fun hsz => ?_, hext h0, ?_⟩⟩⟩
          · exact (hmiss h0).1 (.inl (hlt hsz))
          · exact fun k hk hk' => hround h0 k hk (by omega)
        · -- the rest of the entries, from the next block on
          subst h0
          obtain ⟨l₂, rfl⟩ := hr.log
          have hfull : xv6Min NENTS (size + off) = NENTS := by
            rw [xv6Min_eq_min] at hmore ⊢
            omega
          rw [hfull] at hround hmore h
          have hsucc : (i + 1) * NENTS = i * NENTS + NENTS := Nat.succ_mul i NENTS
          have hle := le_trans hmono₁ hmono₂
          have hle' := h.mono
          have hrest' : (i + 1) * NENTS + 0 + (size - (NENTS - off)) = i * NENTS + off + size := by
            omega
          obtain ⟨hi', hmax'⟩ := hmax.next (by omega) fun k hk hk' =>
            hround rfl k hk (by omega)
          obtain ⟨rfl, hrest⟩ := blocks_spec hs hzero rounds (i + 1) 0 (size - (NENTS - off))
            (w := { w with log := l₂ }) (by omega) (by decide) (by rwa [hrest']) hi' h
          refine ⟨rfl, ?_⟩
          rcases hrest with ⟨hr', rfl, hall⟩ | ⟨k, hk, hk', hbefore, hhit⟩
          · refine .inl ⟨hr.trans hle hle' hr', rfl, fun h0 => ⟨fun _ => (hall h0).1 hmore,
              fun _ _ => ((hall h0).1 hmore).2, ?_⟩⟩
            intro k hk hk'
            by_cases hlt : k < i * NENTS + NENTS
            · exact hround rfl k hk hlt
            · exact (hall h0).2.2 k (by omega) (by omega)
          · refine .inr ⟨k, by omega, by omega, fun m hm hm' => ?_, hhit.prepend hle hr⟩
            by_cases hlt : m < i * NENTS + NENTS
            · exact hround rfl m hm hlt
            · exact hbefore m (by omega) hm'
    · -- the round stopped at entry `j` of the block
      have hz := hhit.nonzero
      rcases hnext.ite with ⟨-, h⟩ | ⟨hgo, h⟩
      · obtain ⟨hres, rfl⟩ := h.pure
        cases hres
        exact ⟨rfl, .inr ⟨i * NENTS + j, by omega, by omega, not_before (by omega) hz hbefore,
          (hhit.prepend hmono₁ hr₁).entry (by omega)⟩⟩
      · exact absurd (.inl (by rw [hhit.stop]; rfl)) hgo

/-- A search without allocation: it changes nothing before the first entry from `off` on that
    satisfies `p`. -/
theorem iterate_within (hs : Seeker cb p false lo) (hzero : ¬ p Dirent.zero) {dir dir' : InodeCtx}
    {off : Nat} {s s' : σ} {e : Int} (hlo : lo ≤ off)
    (hends : EndsWithin p w.disk dir.addrs off (dir.size / 16)) (hoff : off < MAXFILE * NENTS)
    (hdirty : dir.dirty = false)
    (h : Runs φ (xv6DirIterate modcheck dir cb s off false) w (e, dir', s') w') :
    dir' = dir ∧
    ((OnlyReads w w' e ∧ s' = s ∧
        (e = 0 → ∀ k, off ≤ k → k < dir.size / 16 → ¬ p (dslot w.disk dir.addrs k))) ∨
      ∃ k act, off ≤ k ∧ k < dir.size / 16 ∧
        (∀ m, off ≤ m → m < k → ¬ p (dslot w.disk dir.addrs m)) ∧
        HitAt cb p w (bmap w.disk dir.addrs (k / NENTS)) (k / NENTS * NENTS) (k % NENTS) s
          e act s' w') := by
  have hdir : { dir with dirty := false } = dir := by
    rw [← hdirty]
  simp only [xv6DirIterate, runs_bind_assert] at h
  obtain ⟨-, h⟩ := h
  rcases h.ite with ⟨hend, h⟩ | ⟨hin, h⟩
  · obtain ⟨hr, rfl⟩ := h.pure
    cases hr
    exact ⟨rfl, .inl ⟨.refl w, rfl, fun _ k hk hk' => absurd hk' (by omega)⟩⟩
  · have hpos : off / NENTS * NENTS + off % NENTS = off := Nat.div_add_mod' off NENTS
    obtain ⟨⟨e₁, act, dir₁, s₁⟩, w₁, hblocks, hnext⟩ := h.bind
    clear h
    have hbound : off / NENTS < MAXFILE := by
      simp only [NENTS, MAXFILE] at hoff ⊢
      omega
    have hmax : EndsWithin p w.disk dir.addrs (off / NENTS * NENTS + off % NENTS)
        (off / NENTS * NENTS + off % NENTS + (dir.size / 16 - off)) := by
      rwa [hpos, Nat.add_sub_cancel' (not_lt.mp hin)]
    obtain ⟨rfl, hout⟩ := blocks_spec hs hzero _ _ _ _ (by rwa [hpos]) (Nat.mod_lt _ (by decide))
      hmax hbound
      hblocks
    rw [hpos, Nat.add_sub_cancel' (not_lt.mp hin)] at hout
    -- no callback of this kind asks for an extension
    have hret : e = e₁ ∧ dir' = dir ∧ s' = s₁ ∧ w' = w₁ := by
      rcases hnext.ite with ⟨⟨h0, hcont, hext⟩, -⟩ | ⟨-, h⟩
      · exfalso
        rcases hout with ⟨-, -, hmiss⟩ | ⟨k, -, -, -, hhit⟩
        · rw [(hmiss h0).2.1 rfl hcont] at hext
          cases hext
        · have hstop := hhit.stop
          rw [hcont] at hstop
          cases hstop
      · obtain ⟨hr, rfl⟩ := h.pure
        cases hr
        exact ⟨rfl, hdir, rfl, rfl⟩
    obtain ⟨rfl, rfl, rfl, rfl⟩ := hret
    refine ⟨rfl, ?_⟩
    rcases hout with ⟨hr, hs', hmiss⟩ | ⟨k, hk, hk', hbefore, hhit⟩
    · exact .inl ⟨hr, hs', fun h0 => (hmiss h0).2.2⟩
    · exact .inr ⟨k, act, hk, hk', hbefore, hhit⟩

/-- The same in a directory that is not too large. -/
theorem iterate_spec (hs : Seeker cb p false lo) (hzero : ¬ p Dirent.zero) {dir dir' : InodeCtx}
    {off : Nat} {s s' : σ} {e : Int} (hlo : lo ≤ off) (hsize : dir.size ≤ MAXFILE * BSIZE)
    (hoff : off < MAXFILE * NENTS) (hdirty : dir.dirty = false)
    (h : Runs φ (xv6DirIterate modcheck dir cb s off false) w (e, dir', s') w') :
    dir' = dir ∧
    ((OnlyReads w w' e ∧ s' = s ∧
        (e = 0 → ∀ k, off ≤ k → k < dir.size / 16 → ¬ p (dslot w.disk dir.addrs k))) ∨
      ∃ k act, off ≤ k ∧ k < dir.size / 16 ∧
        (∀ m, off ≤ m → m < k → ¬ p (dslot w.disk dir.addrs m)) ∧
        HitAt cb p w (bmap w.disk dir.addrs (k / NENTS)) (k / NENTS * NENTS) (k % NENTS) s
          e act s' w') := by
  refine iterate_within hs hzero hlo (.inl ?_) hoff hdirty h
  simp only [MAXFILE, NENTS, BSIZE] at hsize ⊢
  omega

/-! ## Callbacks that change nothing -/

/-- A callback that leaves the entries it is shown as they are. -/
def ReadOnly (cb : DiterCallback σ) : Prop :=
  ∀ {k de s act de' s'}, cb k de s = .ok (act, de', s') → de' = de ∧ act.deDirty = false

theorem entries_readOnly (hc : ReadOnly cb) (base : Nat) :
    ∀ (n k : Nat) {act act' : DiterAction} {blk blk' : Block} {s s' : σ} {flush flush' : Bool},
      xv6DirIterate.entries cb base n k act blk s flush = .ok (act', blk', s', flush') →
      blk' = blk ∧ flush' = flush
  | 0, k, act, act', blk, blk', s, s', flush, flush', h => by
    cases h
    exact ⟨rfl, rfl⟩
  | n + 1, k, act, act', blk, blk', s, s', flush, flush', h => by
    unfold xv6DirIterate.entries at h
    cases hcb : cb (base + k) (blk.dirent k) s with
    | error e => rw [hcb] at h; cases h
    | ok r =>
      obtain ⟨act₁, de, s₁⟩ := r
      obtain ⟨rfl, hdirty⟩ := hc hcb
      rw [hcb] at h
      simp only [bind, Except.bind, hdirty, Bool.or_false, Block.setDirent_dirent] at h
      split at h
      · cases h
        exact ⟨rfl, rfl⟩
      · exact entries_readOnly hc base n (k + 1) h

theorem body_readOnly (hc : ReadOnly cb) {i off lim blockno : Nat} {act : DiterAction} {s : σ}
    {r : Int × DiterAction × σ}
    (h : Runs φ (xv6DirIterate.body modcheck cb i off lim blockno act s) w r w') :
    ∃ l, w' = { w with log := l } := by
  simp only [xv6DirIterate.body, modcheck] at h
  rcases h.ite with ⟨-, h⟩ | ⟨-, h⟩
  · obtain ⟨r₁, w₁, hlift, h⟩ := h.bind
    obtain ⟨-, rfl⟩ := hlift.lift
    obtain ⟨-, rfl⟩ := h.pure
    exact ⟨_, rfl⟩
  · obtain ⟨ok, w₁, hread, h⟩ := h.bind
    obtain ⟨-, l₁, rfl⟩ := sbBread_spec hread
    rcases h.ite with ⟨-, h⟩ | ⟨-, h⟩
    · obtain ⟨-, rfl⟩ := h.pure
      exact ⟨_, rfl⟩
    · simp only [runs_bind_bdata] at h
      obtain ⟨⟨act₁, blk, s₁, flush⟩, w₂, hlift, h⟩ := h.bind
      obtain ⟨hentries, rfl⟩ := hlift.lift
      obtain ⟨rfl, rfl⟩ := entries_readOnly hc _ _ _ hentries
      simp only [Bool.false_eq_true, if_false, runs_bind_bstore, Function.update_eq_self] at h
      obtain ⟨-, rfl⟩ := h.pure
      exact ⟨_, rfl⟩

theorem xv6InodeAddr_read_log {dir : InodeCtx} {i : Nat} {r : Int × Nat × InodeCtx}
    (h : Runs φ (xv6InodeAddr modcheck dir i false) w r w') :
    r.2.2.addrs = dir.addrs ∧ r.2.2.size = dir.size ∧ ∃ l, w' = { w with log := l } := by
  by_cases hi : i < MAXFILE
  · obtain ⟨hd, hr, -⟩ := xv6InodeAddr_read hi h
    rw [hd]
    exact ⟨rfl, rfl, hr.log⟩
  · obtain ⟨-, -, hd, rfl⟩ := xv6InodeAddr_big (not_lt.mp hi) h
    rw [hd]
    exact ⟨rfl, rfl, _, rfl⟩

theorem blocks_readOnly (hc : ReadOnly cb) :
    ∀ (rounds i off size : Nat) {act : DiterAction} {dir : InodeCtx} {s : σ}
      {r : Int × DiterAction × InodeCtx × σ} {w w' : World},
      Runs φ (xv6DirIterate.blocks modcheck cb false rounds i off size act dir s) w r w' →
      ∃ l, w' = { w with log := l }
  | 0, _, _, _, _, _, _, _, _, _, h => h.halt.elim
  | rounds + 1, i, off, size, act, dir, s, r, w, w', h => by
    simp only [xv6DirIterate.blocks] at h
    obtain ⟨r₁, w₁, haddr, h⟩ := h.bind
    obtain ⟨-, -, l₁, rfl⟩ := xv6InodeAddr_read_log haddr
    rcases h.ite with ⟨-, h⟩ | ⟨-, h⟩
    · obtain ⟨-, rfl⟩ := h.pure
      exact ⟨_, rfl⟩
    obtain ⟨r₂, w₂, hbody, h⟩ := h.bind
    obtain ⟨l₂, rfl⟩ := body_readOnly hc hbody
    rcases h.ite with ⟨-, h⟩ | ⟨-, h⟩
    · obtain ⟨-, rfl⟩ := h.pure
      exact ⟨_, rfl⟩
    rcases h.ite with ⟨-, h⟩ | ⟨-, h⟩
    · obtain ⟨-, rfl⟩ := h.pure
      exact ⟨_, rfl⟩
    · obtain ⟨l, rfl⟩ := blocks_readOnly hc rounds _ _ _ h
      exact ⟨l, rfl⟩

/-- Iterating with such a callback and without allocation changes nothing. -/
theorem iterate_readOnly (hc : ReadOnly cb) {dir : InodeCtx} {off : Nat} {s : σ}
    {r : Int × InodeCtx × σ} (h : Runs φ (xv6DirIterate modcheck dir cb s off false) w r w') :
    ∃ l, w' = { w with log := l } := by
  simp only [xv6DirIterate, runs_bind_assert] at h
  obtain ⟨-, h⟩ := h
  rcases h.ite with ⟨-, h⟩ | ⟨-, h⟩
  · obtain ⟨-, rfl⟩ := h.pure
    exact ⟨_, rfl⟩
  obtain ⟨r₁, w₁, hblocks, h⟩ := h.bind
  obtain ⟨l₁, rfl⟩ := blocks_readOnly hc _ _ _ _ hblocks
  rcases h.ite with ⟨-, h⟩ | ⟨-, h⟩
  · simp only [xv6DirIterate.extend, modcheck] at h
    obtain ⟨r₂, w₂, haddr, h⟩ := h.bind
    obtain ⟨-, -, l₂, rfl⟩ := xv6InodeAddr_read_log haddr
    rcases h.ite with ⟨-, h⟩ | ⟨-, h⟩
    · obtain ⟨-, rfl⟩ := h.pure
      exact ⟨_, rfl⟩
    obtain ⟨ok, w₃, hread, h⟩ := h.bind
    obtain ⟨-, l₃, rfl⟩ := sbBread_spec hread
    rcases h.ite with ⟨-, h⟩ | ⟨-, h⟩
    · obtain ⟨-, rfl⟩ := h.pure
      exact ⟨_, rfl⟩
    simp only [runs_bind_bdata] at h
    obtain ⟨⟨act, de, s₁⟩, w₄, hlift, h⟩ := h.bind
    obtain ⟨hcb, rfl⟩ := hlift.lift
    obtain ⟨rfl, hdirty⟩ := hc hcb
    simp only [hdirty, Bool.false_eq_true, if_false, runs_bind_bstore, Block.setDirent_dirent,
      Function.update_eq_self] at h
    obtain ⟨-, rfl⟩ := h.pure
    exact ⟨_, rfl⟩
  · obtain ⟨-, rfl⟩ := h.pure
    exact ⟨_, rfl⟩

end

end Xv6fs
