/-
  When `xv6_balloc` returns.

  A round of `try_balloc` scans up to the next multiple of BPB. From a position that is itself
  such a multiple (or lies so high that the rounding passes 2^32) it scans nothing, so the
  jump back leads to the same position: `stuck_never_returns`. A search of `[s, last)` gets
  past its first round only into such a position, so it returns exactly when its first round
  ends it (`Progress`) or some I/O call ahead of it fails (`Trouble`), which every round
  reaches in the end because it makes one.
-/
import Xv6fs.Balloc.UsedSet

namespace Xv6fs

/-- The same state with another number of rounds granted to the loops. -/
def World.withFuel (w : World) (n : Nat) : World := { w with env := { w.env with fuel := n } }

/-- Some I/O call from the next one on fails. -/
def Trouble (w : World) : Prop := ∃ k, w.log.length ≤ k ∧ w.env.io k ≠ .ok

/-- The first round of a search of `[s, last)` ends it. -/
def Progress (env : Env) (d : Disk) (s last : Nat) : Prop :=
  s % BPB ≠ 0 ∧ s + BPB - 1 < 2 ^ 32 ∧
    (last ≤ boundary s ∨ ∃ x, s ≤ x ∧ x < boundary s ∧ bitSet env d x = false)

/-- Both searches of `xv6_balloc_unsafe` that are made end in their first round. -/
def SearchOk (w : World) : Prop :=
  (w.hint < w.env.info.size → Progress w.env w.disk w.hint w.env.info.size) ∧
  ((∀ x, w.hint ≤ x → x < w.env.info.size → bitSet w.env w.disk x = true) →
    w.env.info.dataStart < w.hint → Progress w.env w.disk w.env.info.dataStart w.hint)

/-! ## The parts that always return -/

theorem total_getEnv : Prog.Total getEnv := .bind Prog.total_get fun _ => Prog.total_pure _

theorem total_bdata (b : Nat) : Prog.Total (bdata b) :=
  .bind Prog.total_get fun _ => Prog.total_pure _

theorem total_sbBread (b : Nat) : Prog.Total (sbBread b) := fun _ => ⟨_, _, rfl⟩

theorem total_syncBuffer (b : Nat) (blk : Block) : Prog.Total (syncBuffer b blk) :=
  fun _ => ⟨_, _, rfl⟩

theorem total_change {f : World → World} {hf : ∀ w, (f w).env = w.env ∧ (f w).log = w.log} :
    Prog.Total (change f hf) :=
  Prog.total_step _ _

theorem total_setHint (n : Nat) : Prog.Total (setHint n) := fun _ => ⟨_, _, rfl⟩

theorem total_xv6Bzero (b : Nat) : Prog.Total (xv6Bzero b) := by
  unfold xv6Bzero
  refine .bind total_getEnv fun env => .ite (Prog.total_pure _) ?_
  exact .bind (total_sbBread b) fun _ => .ite (Prog.total_pure _) (total_syncBuffer _ _)

theorem total_claim (bb index mask blk a : Nat) :
    Prog.Total (xv6BallocRng.claim bb index mask blk a) := by
  unfold xv6BallocRng.claim
  refine .bind total_getEnv fun env => .bind (total_xv6Bzero a) fun e => .ite ?_ ?_
  · exact .bind (total_setHint _) fun _ => Prog.total_pure _
  · refine .bind (total_bdata bb) fun _ => .bind (total_syncBuffer _ _) fun _ => ?_
    exact .bind (total_setHint _) fun _ => Prog.total_pure _

theorem total_scan (bb blk : Nat) : ∀ n s, Prog.Total (xv6BallocRng.scan bb blk n s)
  | 0, _ => Prog.total_pure _
  | n + 1, s => by
    unfold xv6BallocRng.scan
    refine .bind total_getEnv fun env => .bind (total_bdata bb) fun _ => ?_
    exact .ite (total_claim _ _ _ _ _) (total_scan bb blk n (s + 1))

theorem total_wrapHint : Prog.Total xv6BallocUnsafe.wrapHint := by
  unfold xv6BallocUnsafe.wrapHint
  exact .bind total_getEnv fun _ => .bind Prog.total_get fun _ => total_setHint _

/-! ## One round -/

section

variable {w w' : World} {s last fuel k : Nat} {r : Int × Nat}

/-- One round on a disk that lets it read the bitmap: it claims a block, or it finds every bit
    set and either jumps back or is done. -/
theorem tryBalloc_round (s last fuel : Nat) (hrw : w.env.rdonly = false)
    (hok : w.env.io w.log.length = .ok) :
    (∃ a r w', s ≤ a ∧ a < roundEnd s last ∧ bitSet w.env w.disk a = false ∧ r ≠ (0, 0) ∧
      Returns (xv6BallocRng.tryBalloc 0 last (fuel + 1) s) w r w') ∨
    ((∀ x, s ≤ x → x < roundEnd s last → bitSet w.env w.disk x = true) ∧
      ∀ r w', Returns (xv6BallocRng.tryBalloc 0 last (fuel + 1) s) w r w' ↔
        if roundEnd s last < last then
          Returns (xv6BallocRng.tryBalloc 0 last fuel (roundEnd s last))
            (w.logged (.bread (bitmapBlock w.env s) .ok)) r w'
        else r = (0, 0) ∧ w' = w.logged (.bread (bitmapBlock w.env s) .ok)) := by
  obtain ⟨⟨succ, a, e, b⟩, w₂, hrun⟩ := total_scan (bitmapBlock w.env s) 0
    (xv6Min ((s + BPB - 1) % 2 ^ 32 / BPB * BPB) last - s) s
    (w.logged (.bread (bitmapBlock w.env s) .ok))
  have hscan := returns_iff.mpr hrun
  -- the round is a read of the bitmap block and this scan
  have hround : ∀ r w', Returns (xv6BallocRng.tryBalloc 0 last (fuel + 1) s) w r w' ↔
      Returns (if !succ ∧ a < last then xv6BallocRng.tryBalloc b last fuel a
        else pure (e, b)) w₂ r w' := by
    intro r w'
    have hread : Returns (sbBread (bitmapBlock w.env s)) w true
        (w.logged (.bread (bitmapBlock w.env s) .ok)) := by
      simp [hok]
    simp only [xv6BallocRng.tryBalloc, runs_bind_getEnv]
    refine (returns_bind hread).trans ?_
    exact returns_bind hscan
  rcases scan_spec (w := w.logged (.bread (bitmapBlock w.env s) .ok)) hrw _ s
    (fun x hx hend => (bitmapBlock_round w.env last hx hend).1) hscan with
    ⟨hres, rfl, hall⟩ | ⟨a', e', b', l, d, hint, hres, ha, hfirst, hw₂, -, hc⟩
  · cases hres
    refine .inr ⟨hall, fun r w' => (hround r w').trans ?_⟩
    by_cases hlt : roundEnd s last < last
    · rw [if_pos hlt, if_pos ⟨rfl, hlt⟩]
      rfl
    · rw [if_neg hlt, if_neg fun h => hlt h.2]
      exact Prog.via_pure _ _ _ _
  · cases hres
    have hne : a ≠ 0 := by
      rintro rfl
      exact (bitmapBlock_round w.env last hfirst.le ha).2.1 rfl
    refine .inl ⟨a, (e, b), w₂, hfirst.le, ha, hfirst.clear, ?_, (hround _ _).mpr ?_⟩
    · intro h0
      cases h0
      cases hc
      exact hne rfl
    · exact (Prog.via_pure _ _ _ _).mpr ⟨rfl, rfl⟩

/-! ## Positions that make no progress -/

/-- From a position whose round scans nothing the search never returns. -/
theorem stuck_never_returns (hs : s < last) (hend : roundEnd s last = s) :
    ∀ (fuel : Nat) {w : World}, w.env.rdonly = false →
      (∀ k, w.log.length ≤ k → w.env.io k = .ok) →
      ∀ r w', ¬ Returns (xv6BallocRng.tryBalloc 0 last fuel s) w r w'
  | 0, _, _, _, _, _, h => h.halt
  | fuel + 1, w, hrw, hio, r, w', h => by
    rcases tryBalloc_round s last fuel hrw (hio _ (le_refl _)) with
      ⟨a, -, -, hge, hlt, -⟩ | ⟨-, hrun⟩
    · omega
    · have h' := (hrun r w').mp h
      rw [hend, if_pos hs] at h'
      refine stuck_never_returns hs hend fuel
        (w := w.logged (.bread (bitmapBlock w.env s) .ok)) hrw (fun k hk => hio k ?_) r w' h'
      exact le_trans (Nat.le_succ _) hk

/-- On a disk on which nothing fails a search returns only if its first round ends it. -/
theorem progress_of_returns (hlast : last < 2 ^ 32) (hs : s < last) (hrw : w.env.rdonly = false)
    (hio : ∀ k, w.log.length ≤ k → w.env.io k = .ok)
    (h : Returns (xv6BallocRng.tryBalloc 0 last fuel s) w r w') :
    Progress w.env w.disk s last := by
  by_cases hgo : s % BPB ≠ 0 ∧ s + BPB - 1 < 2 ^ 32
  · cases fuel with
    | zero => exact h.halt.elim
    | succ fuel =>
      have hend := roundEnd_eq hs hgo
      refine ⟨hgo.1, hgo.2, ?_⟩
      rcases tryBalloc_round s last fuel hrw (hio _ (le_refl _)) with
        ⟨a, -, -, hge, hlt, hclear, -⟩ | ⟨-, hrun⟩
      · exact .inr ⟨a, hge, by omega, hclear⟩
      · by_cases hlt : roundEnd s last < last
        · -- the jump back is to the boundary, which makes no progress
          have h' := (hrun r w').mp h
          rw [if_pos hlt] at h'
          refine absurd h' (stuck_never_returns hlt (roundEnd_roundEnd hlast hs hlt) fuel
            (by exact hrw) ?_ r w')
          exact fun k hk => hio k (le_trans (Nat.le_succ _) hk)
        · exact .inl (by omega)
  · exact absurd h (stuck_never_returns hs (roundEnd_eq_self hlast hs hgo) fuel hrw hio r w')

/-! ## Searches that return -/

/-- A search whose first read of the bitmap fails returns. -/
theorem tryBalloc_unread (s last fuel : Nat) (hbad : w.env.io w.log.length ≠ .ok) :
    ∃ w', Returns (xv6BallocRng.tryBalloc 0 last (fuel + 1) s) w (- EIO, 0) w' := by
  have hread : Returns (sbBread (bitmapBlock w.env s)) w false
      (w.logged (.bread (bitmapBlock w.env s) (w.env.io w.log.length))) := by
    simp [hbad]
  refine ⟨{ w.logged (.bread (bitmapBlock w.env s) (w.env.io w.log.length)) with hint := s }, ?_⟩
  simp only [xv6BallocRng.tryBalloc, runs_bind_getEnv]
  refine (returns_bind hread).mpr ?_
  simp only [Bool.not_false, if_true, runs_bind_setHint]
  exact (Prog.via_pure _ _ _ _).mpr ⟨rfl, rfl⟩

theorem returns_of_progress (fuel : Nat) (hs : s < last) (hrw : w.env.rdonly = false)
    (h : Progress w.env w.disk s last) :
    ∃ r w', Returns (xv6BallocRng.tryBalloc 0 last (fuel + 1) s) w r w' := by
  obtain ⟨hmod, hlt, hwhy⟩ := h
  have hend := roundEnd_eq hs ⟨hmod, hlt⟩
  by_cases hok : w.env.io w.log.length = .ok
  · rcases tryBalloc_round s last fuel hrw hok with
      ⟨-, r, w', -, -, -, -, hret⟩ | ⟨hset, hrun⟩
    · exact ⟨r, w', hret⟩
    · have hdone : ¬ roundEnd s last < last := by
        rcases hwhy with hb | ⟨x, hge, hx, hclear⟩
        · omega
        · intro hlt'
          rw [hset x hge (by omega)] at hclear
          cases hclear
      refine ⟨(0, 0), w.logged (.bread (bitmapBlock w.env s) .ok), (hrun _ _).mpr ?_⟩
      rw [if_neg hdone]
      exact ⟨rfl, rfl⟩
  · obtain ⟨w', h⟩ := tryBalloc_unread s last fuel hok
    exact ⟨_, w', h⟩

/-- A failing I/O call ahead ends the search: every round makes one. -/
theorem returns_of_trouble (hbad : w.env.io k ≠ .ok) :
    ∀ (fuel s : Nat) (w₁ : World), w₁.env = w.env → w.env.rdonly = false → s < last →
      w₁.log.length ≤ k → k < w₁.log.length + fuel →
      ∃ r w', Returns (xv6BallocRng.tryBalloc 0 last fuel s) w₁ r w' ∧
        (r = (0, 0) → w'.log.length ≤ k)
  | 0, _, _, _, _, _, hle, hlt => absurd hlt (by omega)
  | fuel + 1, s, w₁, henv, hrw, hs, hle, hlt => by
    by_cases hok : w₁.env.io w₁.log.length = .ok
    · have hne : w₁.log.length ≠ k := by
        rintro rfl
        rw [henv] at hok
        exact hbad hok
      rcases tryBalloc_round s last fuel (by rw [henv]; exact hrw) hok with
        ⟨-, r, w', -, -, -, hr, hret⟩ | ⟨-, hrun⟩
      · exact ⟨r, w', hret, fun h0 => absurd h0 hr⟩
      · have hlen : (w₁.logged (.bread (bitmapBlock w₁.env s) .ok)).log.length =
            w₁.log.length + 1 := rfl
        by_cases hgo : roundEnd s last < last
        · obtain ⟨r, w', hret, hk⟩ := returns_of_trouble hbad fuel (roundEnd s last)
            (w₁.logged (.bread (bitmapBlock w₁.env s) .ok)) henv hrw hgo (by omega)
            (by omega)
          refine ⟨r, w', (hrun r w').mpr ?_, hk⟩
          rwa [if_pos hgo]
        · refine ⟨(0, 0), w₁.logged (.bread (bitmapBlock w₁.env s) .ok), (hrun _ _).mpr ?_,
            fun _ => ?_⟩
          · rw [if_neg hgo]
            exact ⟨rfl, rfl⟩
          · omega
    · obtain ⟨w', h⟩ := tryBalloc_unread s last fuel hok
      exact ⟨_, w', h, fun h0 => by cases h0⟩

/-- A search that makes progress through a range whose bits are all set. -/
theorem tryBalloc_full (fuel : Nat) (hs : s < last) (hrw : w.env.rdonly = false)
    (h : Progress w.env w.disk s last) (hset : ∀ x, s ≤ x → x < last → bitSet w.env w.disk x = true)
    (hok : w.env.io w.log.length = .ok) :
    Returns (xv6BallocRng.tryBalloc 0 last (fuel + 1) s) w (0, 0)
      (w.logged (.bread (bitmapBlock w.env s) .ok)) := by
  obtain ⟨hmod, hlt, hwhy⟩ := h
  have hend := roundEnd_eq hs ⟨hmod, hlt⟩
  rcases tryBalloc_round s last fuel hrw hok with
    ⟨a, -, -, hge, ha, hclear, -⟩ | ⟨-, hrun⟩
  · rw [hset a hge (by omega)] at hclear
    cases hclear
  · refine (hrun _ _).mpr ?_
    have hdone : ¬ roundEnd s last < last := by
      rcases hwhy with hb | ⟨x, hge, hx, hclear⟩
      · omega
      · intro hlt'
        rw [hset x hge (by omega)] at hclear
        cases hclear
    rw [if_neg hdone]
    exact ⟨rfl, rfl⟩

/-! ## The two searches -/

/-- A search with what follows it returns if the search does and, when it found nothing, what
    follows does. -/
theorem range_returns {m : Nat → Fs (Int × Nat)} :
    (∃ r w', Returns (do
      let (error, block) ← xv6BallocRng 0 s last
      if block ≠ 0 ∨ error ≠ 0 then
        xv6BallocUnsafe.wrapHint
        return (error, block)
      m block) w r w') ↔
    ∃ r w₁, Returns (xv6BallocRng 0 s last) w r w₁ ∧
      (r = (0, 0) → ∃ r' w', Returns (m 0) w₁ r' w') := by
  constructor
  · rintro ⟨r, w', h⟩
    obtain ⟨⟨e, b⟩, w₁, hsearch, h⟩ := h.bind
    refine ⟨(e, b), w₁, hsearch, fun h0 => ?_⟩
    cases h0
    exact ⟨r, w', h⟩
  · rintro ⟨⟨e, b⟩, w₁, hsearch, hrest⟩
    by_cases hdone : b ≠ 0 ∨ e ≠ 0
    · obtain ⟨u, w₂, hwrap⟩ := total_wrapHint w₁
      refine ⟨(e, b), w₂, (returns_bind hsearch).mpr ?_⟩
      dsimp only
      rw [if_pos hdone]
      exact (returns_bind (returns_iff.mpr hwrap)).mpr ((Prog.via_pure _ _ _ _).mpr ⟨rfl, rfl⟩)
    · obtain ⟨rfl, rfl⟩ : b = 0 ∧ e = 0 := by simpa using hdone
      obtain ⟨r, w', h⟩ := hrest rfl
      refine ⟨r, w', (returns_bind hsearch).mpr ?_⟩
      dsimp only
      rw [if_neg hdone]
      exact h

theorem second_returns {hint : Nat} :
    (∃ r w', Returns (xv6BallocUnsafe.second hint 0) w r w') ↔
      (w.env.info.dataStart < hint →
        ∃ r w', Returns (xv6BallocRng 0 w.env.info.dataStart hint) w r w') := by
  simp only [xv6BallocUnsafe.second, runs_bind_getEnv]
  by_cases hlt : w.env.info.dataStart < hint
  · simp only [hlt, true_implies]
    refine (range_returns (m := fun block => pure (0, block))).trans ?_
    constructor
    · rintro ⟨r, w₁, h, -⟩
      exact ⟨r, w₁, h⟩
    · rintro ⟨r, w₁, h⟩
      exact ⟨r, w₁, h, fun _ => ⟨_, _, (Prog.via_pure _ _ _ _).mpr ⟨rfl, rfl⟩⟩⟩
  · simp only [hlt, false_implies, iff_true]
    exact ⟨_, _, (Prog.via_pure _ _ _ _).mpr ⟨rfl, rfl⟩⟩

/-- `xv6_balloc` returns if the searches it makes do. -/
theorem balloc_returns {blk : Nat} (hrw : w.env.rdonly = false) (hlt : w.hint < 2 ^ 32) :
    (∃ r w', Returns (xv6Balloc blk) w r w') ↔
      if w.hint < w.env.info.size then
        ∃ r w₁, Returns (xv6BallocRng 0 w.hint w.env.info.size) w r w₁ ∧
          (r = (0, 0) → ∃ r' w', Returns (xv6BallocUnsafe.second w.hint 0) w₁ r' w')
      else ∃ r w', Returns (xv6BallocUnsafe.second w.hint 0) w r w' := by
  simp only [xv6Balloc, xv6BallocUnsafe, runs_bind_getEnv, hrw, Bool.false_eq_true, if_false,
    runs_bind_get, Nat.mod_eq_of_lt hlt]
  by_cases hfirst : w.hint < w.env.info.size
  · simp only [if_pos hfirst]
    exact range_returns
  · simp only [if_neg hfirst]

end

/-! ## Termination -/

section

variable {w : World} {blk : Nat}

theorem rng_iff {w w' : World} {s last : Nat} {r : Int × Nat} :
    Returns (xv6BallocRng 0 s last) w r w' ↔
      Returns (xv6BallocRng.tryBalloc 0 last w.env.fuel s) w r w' := by
  unfold xv6BallocRng
  exact runs_bind_getEnv _

/-- What a search that found nothing leaves behind. -/
theorem rng_nothing {w w₁ : World} {s last : Nat} (hrw : w.env.rdonly = false)
    (hlast : last < 2 ^ 32) (hs : s < last)
    (h : Returns (xv6BallocRng 0 s last) w (0, 0) w₁) :
    w₁.env = w.env ∧ w₁.disk = w.disk ∧
      ∀ x, s ≤ x → x < last → bitSet w.env w.disk x = true := by
  obtain ⟨l, d, hint, rfl, -, hout⟩ := tryBalloc_spec hlast _ _ hrw hs (rng_iff.mp h)
  rcases hout.finished with ⟨-, hd, -, hset⟩ | ⟨hstop, -⟩
  · exact ⟨rfl, hd, hset⟩
  · exact absurd hstop (by simp)

theorem terminates_of_trouble (hrw : w.env.rdonly = false) (hlt : w.hint < 2 ^ 32)
    (h : Trouble w) : ∃ n r w', Returns (xv6Balloc blk) (w.withFuel n) r w' := by
  obtain ⟨k, hk, hbad⟩ := h
  have hsecond : ∀ w₁ : World, w₁.env = (w.withFuel (k + 1)).env → w₁.log.length ≤ k →
      ∃ r w', Returns (xv6BallocUnsafe.second w.hint 0) w₁ r w' := by
    intro w₁ henv hle
    refine second_returns.mpr fun hs => ?_
    obtain ⟨r, w', hret, -⟩ := returns_of_trouble (w := w.withFuel (k + 1)) hbad (k + 1)
      w₁.env.info.dataStart w₁ henv hrw hs hle (by omega)
    refine ⟨r, w', rng_iff.mpr ?_⟩
    rw [henv] at hret ⊢
    exact hret
  refine ⟨k + 1, (balloc_returns (w := w.withFuel (k + 1)) hrw hlt).mpr ?_⟩
  split
  · next hfirst =>
    obtain ⟨r, w₁, hret, hle⟩ := returns_of_trouble (w := w.withFuel (k + 1)) hbad (k + 1) w.hint
      (w.withFuel (k + 1)) rfl hrw hfirst hk (by omega)
    refine ⟨r, w₁, rng_iff.mpr hret, fun h0 => ?_⟩
    exact hsecond w₁ hret.env_eq (hle h0)
  · exact hsecond _ rfl hk

/-- One round is enough for searches that end in their first. -/
theorem returns_of_searchOk (blk : Nat) (hrw : w.env.rdonly = false)
    (hsize : w.env.info.size < 2 ^ 32)
    (hlt : w.hint < 2 ^ 32) (h : SearchOk w) :
    ∃ r w', Returns (xv6Balloc blk) (w.withFuel 1) r w' := by
  obtain ⟨hfirst, hnext⟩ := h
  have hsecond : ∀ w₁ : World, w₁.env = (w.withFuel 1).env → w₁.disk = w.disk →
      (∀ x, w.hint ≤ x → x < w.env.info.size → bitSet w.env w.disk x = true) →
      ∃ r w', Returns (xv6BallocUnsafe.second w.hint 0) w₁ r w' := by
    intro w₁ henv hdisk hset
    refine second_returns.mpr fun hs => ?_
    rw [henv] at hs ⊢
    obtain ⟨r, w', hret⟩ := returns_of_progress (w := w₁) 0 hs (by rw [henv]; exact hrw)
      (by rw [henv, hdisk]; exact hnext hset hs)
    refine ⟨r, w', rng_iff.mpr ?_⟩
    rw [henv]
    exact hret
  refine (balloc_returns (w := w.withFuel 1) hrw hlt).mpr ?_
  split
  · next hin =>
    obtain ⟨r, w₁, hret⟩ := returns_of_progress (w := w.withFuel 1) 0 hin hrw (hfirst hin)
    refine ⟨r, w₁, rng_iff.mpr hret, fun h0 => ?_⟩
    subst h0
    obtain ⟨henv, hdisk, hset⟩ := rng_nothing (w := w.withFuel 1) hrw hsize hin (rng_iff.mpr hret)
    exact hsecond w₁ henv hdisk hset
  · next hout => exact hsecond _ rfl rfl fun x hx hx' => absurd hx' (by
      have : ¬ w.hint < w.env.info.size := hout
      omega)

/-- When nothing fails `xv6_balloc` returns only if its searches make progress. -/
theorem searchOk_of_returns {n : Nat} {r : Int × Nat} {w' : World} (hrw : w.env.rdonly = false)
    (hsize : w.env.info.size < 2 ^ 32) (hle : w.hint ≤ w.env.info.size)
    (hio : ∀ k, w.log.length ≤ k → w.env.io k = .ok)
    (h : Returns (xv6Balloc blk) (w.withFuel n) r w') : SearchOk w := by
  have hlt := lt_of_le_of_lt hle hsize
  have hret := (balloc_returns (w := w.withFuel n) hrw hlt).mp ⟨r, w', h⟩
  have hsecond : ∀ w₁ : World, w₁.env = (w.withFuel n).env → w₁.disk = w.disk →
      (∀ k, w₁.log.length ≤ k → w.env.io k = .ok) →
      (∃ r w', Returns (xv6BallocUnsafe.second w.hint 0) w₁ r w') →
      w.env.info.dataStart < w.hint → Progress w.env w.disk w.env.info.dataStart w.hint := by
    intro w₁ henv hdisk hio₁ h₂ hs
    obtain ⟨r, w', h₂⟩ := second_returns.mp h₂ (by rw [henv]; exact hs)
    have hp := progress_of_returns hlt (by rw [henv]; exact hs) (by rw [henv]; exact hrw)
      (by rw [henv]; exact hio₁) (rng_iff.mp h₂)
    rw [henv, hdisk] at hp
    exact hp
  by_cases hin : w.hint < w.env.info.size
  · have hin' : (w.withFuel n).hint < (w.withFuel n).env.info.size := hin
    rw [if_pos hin'] at hret
    obtain ⟨r₁, w₁, h₁, hrest⟩ := hret
    have hp := progress_of_returns (w := w.withFuel n) hsize hin hrw hio (rng_iff.mp h₁)
    refine ⟨fun _ => hp, fun hset hs => ?_⟩
    cases n with
    | zero => exact ((rng_iff.mp h₁).halt).elim
    | succ n =>
      have hfull := tryBalloc_full (w := w.withFuel (n + 1)) n hin hrw hp hset (hio _ (le_refl _))
      obtain ⟨rfl, rfl⟩ := (rng_iff.mp h₁).unique hfull
      refine hsecond ((w.withFuel (n + 1)).logged (.bread
        (bitmapBlock (w.withFuel (n + 1)).env w.hint) .ok)) rfl rfl (fun k hk => hio k ?_)
        (hrest rfl) hs
      exact le_trans (Nat.le_succ _) hk
  · have hin' : ¬ (w.withFuel n).hint < (w.withFuel n).env.info.size := hin
    rw [if_neg hin'] at hret
    exact ⟨fun h => absurd h hin, fun _ => hsecond (w.withFuel n) rfl rfl hio hret⟩

/-- `xv6_balloc` returns after finitely many rounds exactly when the file system is read-only,
    or an I/O call ahead fails, or both its searches end in their first round. -/
theorem balloc_terminates_iff (w : World) (blk : Nat) (hsize : w.env.info.size < 2 ^ 32)
    (hle : w.hint ≤ w.env.info.size) :
    (∃ n r w', Returns (xv6Balloc blk) (w.withFuel n) r w') ↔
      w.env.rdonly = true ∨ Trouble w ∨ SearchOk w := by
  have hlt := lt_of_le_of_lt hle hsize
  have hrdonly : w.env.rdonly = true →
      Returns (xv6Balloc blk) (w.withFuel 0) (-EROFS, blk) (w.withFuel 0) := by
    intro hro
    have hro' : (w.withFuel 0).env.rdonly = true := hro
    simp only [xv6Balloc, xv6BallocUnsafe, runs_bind_getEnv, hro', if_true]
    exact (Prog.via_pure _ _ _ _).mpr ⟨rfl, rfl⟩
  constructor
  · rintro ⟨n, r, w', h⟩
    by_cases hro : w.env.rdonly = true
    · exact .inl hro
    · have hrw : w.env.rdonly = false := by simpa using hro
      by_cases ht : Trouble w
      · exact .inr (.inl ht)
      · refine .inr (.inr (searchOk_of_returns hrw hsize hle (fun k hk => ?_) h))
        by_contra hbad
        exact ht ⟨k, hk, hbad⟩
  · rintro (hro | h)
    · exact ⟨0, _, _, hrdonly hro⟩
    · by_cases hro : w.env.rdonly = true
      · exact ⟨0, _, _, hrdonly hro⟩
      · have hrw : w.env.rdonly = false := by simpa using hro
        rcases h with ht | hok
        · exact terminates_of_trouble hrw hlt ht
        · exact ⟨1, returns_of_searchOk blk hrw hsize hlt hok⟩

end

/-- 8193 blocks, of which the first four are metadata, all free: the search starts at block
    8192, a multiple of BPB. -/
def boundaryWorld : World :=
  World.blank ⟨8193, 8189, 0, 0, 1, 1, 2⟩ 8192

theorem balloc_loops_at_boundary :
    boundaryWorld.env.info.Sound ∧ boundaryWorld.env.info.dataStart ≤ boundaryWorld.hint ∧
      boundaryWorld.hint ≤ boundaryWorld.env.info.size ∧ boundaryWorld.env.rdonly = false ∧
      Quiet boundaryWorld.env ∧
      ∀ n r w', ¬ Returns (xv6Balloc 0) (boundaryWorld.withFuel n) r w' := by
  refine ⟨⟨by decide, by decide⟩, by decide, by decide, rfl, fun _ => rfl, fun n r w' h => ?_⟩
  have hok := searchOk_of_returns (w := boundaryWorld) rfl (by decide) (by decide)
    (fun _ _ => rfl) h
  exact (hok.1 (by decide)).1 (by decide)

/-- One block before the boundary the same search returns. -/
theorem balloc_terminates_at_8191 : ∃ n r w',
    Returns (xv6Balloc 0) (({ boundaryWorld with hint := 8191 } : World).withFuel n) r w' := by
  have hclear : bitSet boundaryWorld.env boundaryWorld.disk 8191 = false := bitSet_zero _ _
  refine (balloc_terminates_iff { boundaryWorld with hint := 8191 } 0 (by decide) (by decide)).mpr
    (.inr (.inr ⟨fun _ => ⟨by decide, by decide, .inr ⟨8191, by decide, by decide, hclear⟩⟩,
      fun hset _ => ?_⟩))
  exact absurd ((hset 8191 (by decide) (by decide)).symm.trans hclear) (by decide)

end Xv6fs
