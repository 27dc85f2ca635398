/-
  What `xv6_balloc` and `xv6_bfree` do, whatever fails on the way.

  `xv6_balloc` searches `[hint, size)` and then `[data_start, hint)`. It ends with a failed
  read of a bitmap block, with every bit of both ranges found set, or with the claim of the
  first clear block in that order (`Balloced`). It reports an error exactly when an I/O call
  failed, and so does `xv6_bfree`.
-/
import Xv6fs.Balloc.Geometry

namespace Xv6fs

/-- `x` is one of the blocks a search from `hint` looks at. -/
def InSearch (env : Env) (hint x : Nat) : Prop :=
  (hint ≤ x ∧ x < env.info.size) ∨ (env.info.dataStart ≤ x ∧ x < hint)

/-- `a` is the first clear block in the order of the search from `hint`. -/
def FirstFree (env : Env) (d : Disk) (hint a : Nat) : Prop :=
  (FirstClear env d hint a ∧ a < roundEnd hint env.info.size ∧ a < env.info.size) ∨
  ((∀ x, hint ≤ x → x < env.info.size → bitSet env d x = true) ∧
    FirstClear env d env.info.dataStart a ∧ a < hint)

/-- Where `xv6_balloc_unsafe` leaves the hint when the search stops at `x`. -/
def wrap (env : Env) (x : Nat) : Nat :=
  if x ≥ env.info.size then env.info.dataStart else x

/-- How `xv6_balloc` ends on a writable file system: the error, `*block`, the disk and the
    hint it leaves. -/
inductive Balloced (env : Env) (d : Disk) (hint : Nat) : Int → Nat → Disk → Nat → Prop where
  | unread (x : Nat) (hx : InSearch env hint x)
      (hstart : x = hint ∨ x = roundEnd hint env.info.size ∨ env.info.dataStart ≤ x) :
      Balloced env d hint (- EIO) 0 d (wrap env x)
  | full (h : ∀ x, InSearch env hint x → bitSet env d x = true) : Balloced env d hint 0 0 d hint
  | claimed {e : Int} {b : Nat} {d' : Disk} {h : Nat} (a : Nat) (ha : FirstFree env d hint a)
      (hpos : a ≠ 0) (hc : Claimed env d a 0 e b d' h) : Balloced env d hint e b d' (wrap env h)

theorem FirstFree.inSearch {env : Env} {d : Disk} {hint a : Nat} (h : FirstFree env d hint a) :
    InSearch env hint a := by
  rcases h with ⟨ha, -, hlt⟩ | ⟨-, ha, hlt⟩
  · exact .inl ⟨ha.le, hlt⟩
  · exact .inr ⟨ha.le, hlt⟩

theorem FirstFree.clear {env : Env} {d : Disk} {hint a : Nat} (h : FirstFree env d hint a) :
    bitSet env d a = false := by
  rcases h with ⟨ha, -⟩ | ⟨-, ha, -⟩
  · exact ha.clear
  · exact ha.clear

/-- The hint a claim leaves is a `uint`. -/
theorem Claimed.hint_lt {env : Env} {d d' : Disk} {a blk b h : Nat} {e : Int}
    (hc : Claimed env d a blk e b d' h) (ha : a < 2 ^ 32) : h < 2 ^ 32 := by
  cases hc with
  | unzeroed => exact ha
  | unmarked => exact Nat.mod_lt _ (by decide)
  | marked => exact Nat.mod_lt _ (by decide)

/-- The test `*block || error` tells a finished search from one that found every bit set. -/
theorem Searched.finished {env : Env} {d d' : Disk} {hint s last b h' : Nat} {e : Int}
    (h : Searched env d hint s last 0 e b d' h') :
    (¬ (b ≠ 0 ∨ e ≠ 0) ∧ d' = d ∧ h' = hint ∧ ∀ x, s ≤ x → x < last → bitSet env d x = true) ∨
    ((b ≠ 0 ∨ e ≠ 0) ∧
      ((e = - EIO ∧ b = 0 ∧ d' = d ∧ (h' = s ∨ h' = roundEnd s last) ∧ h' < last) ∨
        ∃ a, FirstClear env d s a ∧ (a < roundEnd s last ∧ a < last) ∧ a ≠ 0 ∧
          Claimed env d a 0 e b d' h')) := by
  cases h with
  | unread x hx hlast => exact .inr ⟨.inr (by decide), .inl ⟨rfl, rfl, rfl, hx, hlast⟩⟩
  | full h => exact .inl ⟨by simp, rfl, rfl, h⟩
  | claimed a ha hround hlast hpos hc =>
    refine .inr ⟨?_, .inr ⟨a, ha, ⟨hround, hlast⟩, hpos, hc⟩⟩
    cases hc with
    | unzeroed _ hd => exact .inr (by decide)
    | unmarked => exact .inr (by decide)
    | marked => exact .inl hpos

theorem Balloced.error {env : Env} {d d' : Disk} {hint b h' : Nat} {e : Int}
    (h : Balloced env d hint e b d' h') : e = 0 ∨ e = - EIO := by
  cases h with
  | unread => exact .inr rfl
  | full => exact .inl rfl
  | claimed a ha hpos hc =>
    cases hc with
    | unzeroed => exact .inr rfl
    | unmarked => exact .inr rfl
    | marked e he => exact he

theorem FsInfo.Sound.wrap_mem {env : Env} (hg : env.info.Sound) {h : Nat}
    (hh : env.info.dataStart ≤ h) :
    env.info.dataStart ≤ wrap env h ∧ wrap env h ≤ env.info.size := by
  have := hg.dataStart_le
  unfold wrap
  split <;> omega

/-- The hint stays in its range. -/
theorem Balloced.hint_mem {env : Env} {d d' : Disk} {hint b h' : Nat} {e : Int}
    (hg : env.info.Sound) (hge : env.info.dataStart ≤ hint) (hle : hint ≤ env.info.size)
    (h : Balloced env d hint e b d' h') :
    env.info.dataStart ≤ h' ∧ h' ≤ env.info.size := by
  have hsize := hg.size_lt
  have hrange : ∀ x, InSearch env hint x → env.info.dataStart ≤ x ∧ x < env.info.size := by
    intro x hx
    unfold InSearch at hx
    omega
  cases h with
  | unread x hx _ => exact hg.wrap_mem (hrange x hx).1
  | full => exact ⟨hge, hle⟩
  | claimed a ha hpos hc =>
    obtain ⟨h1, h2⟩ := hrange _ ha.inSearch
    have hmod : (a + 1) % 2 ^ 32 = a + 1 := Nat.mod_eq_of_lt (by omega)
    cases hc with
    | unzeroed => exact hg.wrap_mem h1
    | unmarked =>
      rw [hmod]
      exact hg.wrap_mem (by omega)
    | marked =>
      rw [hmod]
      exact hg.wrap_mem (by omega)

section

variable {φ : Event → Prop}

theorem wrapHint_spec {w w' : World} {u : Unit} (hlt : w.hint < 2 ^ 32)
    (h : Runs φ xv6BallocUnsafe.wrapHint w u w') : w' = { w with hint := wrap w.env w.hint } := by
  simp only [xv6BallocUnsafe.wrapHint, runs_bind_getEnv, runs_bind_get, runs_setHint,
    Nat.mod_eq_of_lt hlt] at h
  exact h

/-- One of the two ranges, with what follows when it is finished (`m` is what follows when
    it is not). -/
theorem range_spec {m : Nat → Fs (Int × Nat)} {s last : Nat} {w w' : World} {r : Int × Nat}
    (hrw : w.env.rdonly = false) (hlast : last < 2 ^ 32) (hs : s < last)
    (h : Runs φ (do
      let (error, block) ← xv6BallocRng 0 s last
      if block ≠ 0 ∨ error ≠ 0 then
        xv6BallocUnsafe.wrapHint
        return (error, block)
      m block) w r w') :
    (∃ l, w ≤ { w with log := l } ∧ Faultless w { w with log := l } ∧
      (∀ x, s ≤ x → x < last → bitSet w.env w.disk x = true) ∧
      Runs φ (m 0) { w with log := l } r w') ∨
    ∃ l d hint, w' = { w with disk := d, hint := wrap w.env hint, log := l } ∧
      (r.1 = 0 ↔ Faultless w w') ∧
      ((r = (- EIO, 0) ∧ d = w.disk ∧ (hint = s ∨ hint = roundEnd s last) ∧ hint < last) ∨
        ∃ a, FirstClear w.env w.disk s a ∧ (a < roundEnd s last ∧ a < last) ∧ a ≠ 0 ∧
          Claimed w.env w.disk a 0 r.1 r.2 d hint) := by
  obtain ⟨⟨e, b⟩, w₁, hsearch, h⟩ := h.bind
  have hmono := hsearch.mono
  simp only [xv6BallocRng, runs_bind_getEnv] at hsearch
  obtain ⟨l, d, hint, rfl, he, hout⟩ := tryBalloc_spec hlast _ _ hrw hs hsearch
  rcases hout.finished with ⟨hgo, rfl, rfl, hset⟩ | ⟨hstop, hwhy⟩
  · rcases h.ite with ⟨hc, h⟩ | ⟨-, h⟩
    · exact absurd hc hgo
    · obtain ⟨rfl, rfl⟩ : b = 0 ∧ e = 0 := by simpa using hgo
      exact .inl ⟨l, hmono, he.mp rfl, hset, h⟩
  · rcases h.ite with ⟨-, h⟩ | ⟨hc, h⟩
    · obtain ⟨u, w₂, hwrap, h⟩ := h.bind
      have hlt : hint < 2 ^ 32 := by
        rcases hwhy with ⟨-, -, -, -, hlt⟩ | ⟨a, -, ⟨-, hlt⟩, -, hclaim⟩
        · exact lt_trans hlt hlast
        · exact hclaim.hint_lt (lt_trans hlt hlast)
      obtain rfl := wrapHint_spec hlt hwrap
      obtain ⟨rfl, rfl⟩ := h.pure
      refine .inr ⟨l, d, hint, rfl, ?_, ?_⟩
      · exact he.trans (faultless_congr rfl).symm
      · rcases hwhy with ⟨rfl, rfl, hwhy⟩ | hwhy
        · exact .inl ⟨rfl, hwhy⟩
        · exact .inr hwhy
    · exact absurd hstop hc

theorem second_spec {hint : Nat} {w w' : World} {r : Int × Nat} (hrw : w.env.rdonly = false)
    (hsize : w.env.info.size < 2 ^ 32) (hhint : w.hint = hint) (hle : hint ≤ w.env.info.size)
    (hfirst : ∀ x, hint ≤ x → x < w.env.info.size → bitSet w.env w.disk x = true)
    (h : Runs φ (xv6BallocUnsafe.second hint 0) w r w') :
    ∃ l d hint', w' = { w with disk := d, hint := hint', log := l } ∧
      (r.1 = 0 ↔ Faultless w w') ∧ Balloced w.env w.disk hint r.1 r.2 d hint' := by
  simp only [xv6BallocUnsafe.second, runs_bind_getEnv] at h
  subst hhint
  rcases h.ite with ⟨hlt, h⟩ | ⟨hge, h⟩
  · rcases range_spec (m := fun block => pure (0, block)) hrw (lt_of_le_of_lt hle hsize) hlt h with
      ⟨l, -, hf, hset, h⟩ | ⟨l, d, hint', rfl, he, hwhy⟩
    · obtain ⟨rfl, rfl⟩ := h.pure
      refine ⟨_, _, _, rfl, ⟨fun _ => hf, fun _ => rfl⟩, .full fun x hx => ?_⟩
      rcases hx with ⟨hx, hx'⟩ | ⟨hx, hx'⟩
      · exact hfirst x hx hx'
      · exact hset x hx hx'
    · refine ⟨l, d, _, rfl, he, ?_⟩
      rcases hwhy with ⟨rfl, rfl, hx, hx'⟩ | ⟨a, ha, ⟨-, hlast⟩, hpos, hc⟩
      · have hge : w.env.info.dataStart ≤ hint' := by
          rcases hx with rfl | rfl
          · exact le_refl _
          · exact le_roundEnd _ _
        exact .unread hint' (.inr ⟨hge, hx'⟩) (.inr (.inr hge))
      · exact .claimed a (.inr ⟨hfirst, ha, hlast⟩) hpos hc
  · obtain ⟨rfl, rfl⟩ := h.pure
    refine ⟨_, _, _, rfl, ⟨fun _ => faultless_refl w, fun _ => rfl⟩, .full fun x hx => ?_⟩
    rcases hx with ⟨hx, hx'⟩ | ⟨hx, hx'⟩
    · exact hfirst x hx hx'
    · exact absurd hx' (by omega)

theorem xv6Balloc_rdonly {blk : Nat} {w w' : World} {r : Int × Nat} (hro : w.env.rdonly = true)
    (h : Runs φ (xv6Balloc blk) w r w') : r = (-EROFS, blk) ∧ w' = w := by
  simp only [xv6Balloc, xv6BallocUnsafe, runs_bind_getEnv] at h
  rcases h.ite with ⟨-, h⟩ | ⟨hrw, -⟩
  · obtain ⟨rfl, rfl⟩ := h.pure
    exact ⟨rfl, rfl⟩
  · exact absurd hro hrw

/-- `xv6_balloc` on a writable file system. -/
theorem xv6Balloc_spec {blk : Nat} {w w' : World} {r : Int × Nat} (hrw : w.env.rdonly = false)
    (hsize : w.env.info.size < 2 ^ 32) (hle : w.hint ≤ w.env.info.size)
    (h : Runs φ (xv6Balloc blk) w r w') :
    ∃ l d hint, w' = { w with disk := d, hint := hint, log := l } ∧
      (r.1 = 0 ↔ Faultless w w') ∧ Balloced w.env w.disk w.hint r.1 r.2 d hint := by
  simp only [xv6Balloc, xv6BallocUnsafe, runs_bind_getEnv] at h
  rcases h.ite with ⟨hro, -⟩ | ⟨-, h⟩
  · rw [hrw] at hro
    exact absurd hro (by decide)
  · simp only [runs_bind_get, Nat.mod_eq_of_lt (lt_of_le_of_lt hle hsize)] at h
    rcases h.ite with ⟨hlt, h⟩ | ⟨hge, h⟩
    · rcases range_spec (m := xv6BallocUnsafe.second w.hint) hrw hsize hlt h with
        ⟨l, hmono, hf, hset, h⟩ | ⟨l, d, hint', rfl, he, hwhy⟩
      · have hmono' := h.mono
        obtain ⟨l, d, hint, rfl, he, hb⟩ :=
          second_spec (w := { w with log := l }) hrw hsize rfl hle hset h
        refine ⟨l, d, hint, rfl, ?_, hb⟩
        rw [he, faultless_split hmono hmono']
        exact (and_iff_right hf).symm
      · refine ⟨l, d, _, rfl, he, ?_⟩
        rcases hwhy with ⟨rfl, rfl, hx, hx'⟩ | ⟨a, ha, hlast, hpos, hc⟩
        · have hge : w.hint ≤ hint' := by
            rcases hx with rfl | rfl
            · exact le_refl _
            · exact le_roundEnd _ _
          refine .unread hint' (.inl ⟨hge, hx'⟩) ?_
          rcases hx with hx | hx
          · exact .inl hx
          · exact .inr (.inl hx)
        · exact .claimed a (.inl ⟨ha, hlast⟩) hpos hc
    · exact second_spec hrw hsize rfl hle (fun x hx hx' => absurd hx' (by omega)) h

/-! ## Freeing -/

/-- `xv6_bfree` returns for data blocks only. It clears the bit of the block, unless an I/O
    failure, which it reports, leaves the bit as it was. -/
theorem xv6Bfree_spec {b : Nat} {w w' : World} {e : Int} (hrw : w.env.rdonly = false)
    (h : Runs φ (xv6Bfree b) w e w') :
    w.env.info.dataStart ≤ b ∧ b < w.env.info.size ∧ (e = 0 ↔ Faultless w w') ∧
    ∃ l d, w' = { w with disk := d, log := l } ∧
      (d = w.disk ∨ d = markFree w.env w.disk b) ∧
      (e = 0 → d = if bitSet w.env w.disk b then markFree w.env w.disk b else w.disk) := by
  simp only [xv6Bfree, xv6BfreeUnsafe, runs_bind_getEnv] at h
  rcases h.ite with ⟨hro, -⟩ | ⟨-, h⟩
  · rw [hrw] at hro
    exact absurd hro (by decide)
  simp only [runs_bind_assert] at h
  obtain ⟨hsize, hdata, h⟩ := h
  refine ⟨hdata, hsize, ?_⟩
  obtain ⟨l₁, hle, ⟨hr, h⟩ | ⟨hr, h⟩⟩ := sbBread_cases h
  · obtain ⟨rfl, rfl⟩ := h.pure
    exact ⟨hr.error, _, _, rfl, .inl rfl, fun h0 => absurd h0 (by decide)⟩
  · have hf₁ : Faultless w { w with log := l₁ } := hr.error.mp rfl
    have hbit : (w.disk (bitmapBlock w.env b)).word w.env.host (b % BPB / 32) &&&
        1 <<< (b % 32) = 0 ↔ bitSet w.env w.disk b = false := by
      rw [Nat.and_comm]
      exact mask_and_word_eq_zero w.env w.disk b
    simp only [runs_bind_bdata] at h
    rcases h.ite with ⟨hclear, h⟩ | ⟨hset, h⟩
    · obtain ⟨rfl, rfl⟩ := h.pure
      refine ⟨⟨fun _ => hf₁, fun _ => rfl⟩, _, _, rfl, .inl rfl, fun _ => ?_⟩
      rw [hbit.mp hclear]
      rfl
    · have hmono := h.mono
      obtain ⟨he, -, l, d, rfl, hd, hd0⟩ := syncBuffer_spec h
      have hmark : Function.update w.disk (bitmapBlock w.env b)
          ((w.disk (bitmapBlock w.env b)).setWord w.env.host (b % BPB / 32)
            ((w.disk (bitmapBlock w.env b)).word w.env.host (b % BPB / 32) &&&
              (1 <<< (b % 32) ^^^ 0xffffffff))) = markFree w.env w.disk b := by
        unfold markFree
        rw [mod_BPB_mod]
      have hset' : bitSet w.env w.disk b = true := by
        rw [← Bool.not_eq_false, ← hbit]
        exact hset
      refine ⟨?_, l, d, rfl, ?_, fun h0 => ?_⟩
      · rw [he, faultless_split hle hmono]
        exact (and_iff_right hf₁).symm
      · exact hd.imp_right fun h => h.trans hmark
      · rw [if_pos hset']
        exact (hd0 h0).trans hmark

end

end Xv6fs
