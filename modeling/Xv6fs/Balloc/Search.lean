/-
  What the search of the bitmap does, whatever fails on the way.

  `bitSet env d b` is the bit of block `b` as the allocator addresses it. `scan_spec` describes
  one `while` loop over a bitmap block, `tryBalloc_spec` the loop around it: a search of
  `[alloc, last)` ends with a failed read of a bitmap block, with every bit of the range found
  set, or at the first clear bit `a`, which it then tries to take (`Claimed`).

  `Claimed` separates the three places a claim can get to: the block is not zeroed, it is
  zeroed but its bit is not set, its bit is set. Only a claim that meets no I/O failure on a
  writable file system reports success.
-/
import Xv6fs.Model.Balloc

namespace Xv6fs

/-! ## Bits of the bitmap -/

/-- The bitmap block that holds the bit of block `b`. -/
def bitmapBlock (env : Env) (b : Nat) : Nat := (b / BPB + env.info.bmapstart) % 2 ^ 32

/-- The bit of block `b`. -/
def bitSet (env : Env) (d : Disk) (b : Nat) : Bool :=
  (d (bitmapBlock env b)).bit env.host (b % BPB)

/-- The disk with the bit of `b` set. -/
def markUsed (env : Env) (d : Disk) (b : Nat) : Disk :=
  let bm := d (bitmapBlock env b)
  Function.update d (bitmapBlock env b)
    (bm.setWord env.host (b % BPB / 32) (bm.word env.host (b % BPB / 32) ||| 1 <<< (b % BPB % 32)))

/-- The disk with the bit of `b` cleared. -/
def markFree (env : Env) (d : Disk) (b : Nat) : Disk :=
  let bm := d (bitmapBlock env b)
  Function.update d (bitmapBlock env b)
    (bm.setWord env.host (b % BPB / 32)
      (bm.word env.host (b % BPB / 32) &&& (1 <<< (b % BPB % 32) ^^^ 0xffffffff)))

theorem mod_BPB_mod (b : Nat) : b % BPB % 32 = b % 32 := by
  unfold BPB
  omega

theorem mod_BPB_lt (b : Nat) : b % BPB < 8192 := Nat.mod_lt _ (by decide)

theorem markUsed_other (env : Env) (d : Disk) {b x : Nat} (h : x ≠ bitmapBlock env b) :
    markUsed env d b x = d x :=
  Function.update_of_ne h _ _

theorem markFree_other (env : Env) (d : Disk) {b x : Nat} (h : x ≠ bitmapBlock env b) :
    markFree env d b x = d x :=
  Function.update_of_ne h _ _

/-- The bit of `b` depends on nothing but its bitmap block. -/
theorem bitSet_congr {env : Env} {d d' : Disk} {b : Nat}
    (h : d' (bitmapBlock env b) = d (bitmapBlock env b)) : bitSet env d' b = bitSet env d b := by
  unfold bitSet
  rw [h]

theorem bitSet_zero (env : Env) (b : Nat) : bitSet env (fun _ => Buf.zero) b = false := by
  unfold bitSet Block.bit Block.word
  rw [Buf.readNum_zero]
  exact Nat.zero_testBit _

/-- Setting the bit of `b` sets that bit; `hx`: bits of one bitmap block are told apart by
    their position. -/
theorem bitSet_markUsed (env : Env) (d : Disk) {b x : Nat}
    (hx : bitmapBlock env x = bitmapBlock env b → (x % BPB = b % BPB ↔ x = b)) :
    bitSet env (markUsed env d b) x = if x = b then true else bitSet env d x := by
  by_cases hb : bitmapBlock env x = bitmapBlock env b
  · unfold bitSet markUsed
    rw [hb, Function.update_self, Block.bit_setWord_or _ _ (mod_BPB_lt b)]
    exact if_congr (hx hb) rfl rfl
  · have hne : x ≠ b := by
      rintro rfl
      exact hb rfl
    rw [if_neg hne]
    exact bitSet_congr (markUsed_other env d hb)

theorem bitSet_markFree (env : Env) (d : Disk) {b x : Nat}
    (hx : bitmapBlock env x = bitmapBlock env b → (x % BPB = b % BPB ↔ x = b)) :
    bitSet env (markFree env d b) x = if x = b then false else bitSet env d x := by
  by_cases hb : bitmapBlock env x = bitmapBlock env b
  · unfold bitSet markFree
    rw [hb, Function.update_self, Block.bit_setWord_and_not _ _ (mod_BPB_lt b)]
    exact if_congr (hx hb) rfl rfl
  · have hne : x ≠ b := by
      rintro rfl
      exact hb rfl
    rw [if_neg hne]
    exact bitSet_congr (markFree_other env d hb)

/-- `a` is the first block from `s` on whose bit is clear. -/
structure FirstClear (env : Env) (d : Disk) (s a : Nat) : Prop where
  le : s ≤ a
  clear : bitSet env d a = false
  before : ∀ x, s ≤ x → x < a → bitSet env d x = true

/-! ## Rounds -/

theorem xv6Min_eq_min (a b : Nat) : xv6Min a b = min a b := by
  unfold xv6Min
  split <;> omega

/-- The next multiple of BPB after `s`. -/
def boundary (s : Nat) : Nat := (s / BPB + 1) * BPB

/-- Where the round from `s` stops when it finds every bit set. -/
def roundEnd (s last : Nat) : Nat :=
  s + (xv6Min ((s + BPB - 1) % 2 ^ 32 / BPB * BPB) last - s)

theorem roundEnd_eq {s last : Nat} (hs : s < last) (h : s % BPB ≠ 0 ∧ s + BPB - 1 < 2 ^ 32) :
    roundEnd s last = min (boundary s) last := by
  unfold roundEnd boundary
  rw [xv6Min_eq_min]
  simp only [BPB] at h ⊢
  omega

/-- From a multiple of BPB, and where the rounding passes 2^32, a round scans nothing. -/
theorem roundEnd_eq_self {s last : Nat} (hlast : last < 2 ^ 32) (hs : s < last)
    (h : ¬ (s % BPB ≠ 0 ∧ s + BPB - 1 < 2 ^ 32)) : roundEnd s last = s := by
  unfold roundEnd
  rw [xv6Min_eq_min]
  simp only [BPB] at h ⊢
  omega

theorem le_roundEnd (s last : Nat) : s ≤ roundEnd s last := Nat.le_add_right _ _

/-- The position a round jumps back to makes no further progress. -/
theorem roundEnd_roundEnd {s last : Nat} (hlast : last < 2 ^ 32) (hs : s < last)
    (hlt : roundEnd s last < last) : roundEnd (roundEnd s last) last = roundEnd s last := by
  by_cases h : s % BPB ≠ 0 ∧ s + BPB - 1 < 2 ^ 32
  · have hb : roundEnd s last = boundary s := by
      have := roundEnd_eq hs h
      omega
    refine roundEnd_eq_self hlast hlt fun hne => hne.1 ?_
    rw [hb]
    exact Nat.mul_mod_left _ _
  · rw [roundEnd_eq_self hlast hs h, roundEnd_eq_self hlast hs h]

/-! ## Outcomes -/

/-- How the claim of block `a` ends: the error, `*block`, the disk and the hint it leaves;
    `blk` is `*block` before. -/
inductive Claimed (env : Env) (d : Disk) (a blk : Nat) : Int → Nat → Disk → Nat → Prop where
  | unzeroed (d' : Disk) (hd : d' = d ∨ d' = Function.update d a Buf.zero) :
      Claimed env d a blk (- EIO) blk d' a
  | unmarked : Claimed env d a blk (- EIO) a (Function.update d a Buf.zero) ((a + 1) % 2 ^ 32)
  | marked (e : Int) (he : e = 0 ∨ e = - EIO) :
      Claimed env d a blk e a (markUsed env (Function.update d a Buf.zero) a) ((a + 1) % 2 ^ 32)

/-- How a search of `[s, last)` ends; `hint` and `blk` are the hint and `*block` before. A claim
    is made in the first round; a later round starts where the first one stopped. -/
inductive Searched (env : Env) (d : Disk) (hint s last blk : Nat) :
    Int → Nat → Disk → Nat → Prop where
  | unread (x : Nat) (hx : x = s ∨ x = roundEnd s last) (hlast : x < last) :
      Searched env d hint s last blk (- EIO) blk d x
  | full (h : ∀ x, s ≤ x → x < last → bitSet env d x = true) :
      Searched env d hint s last blk 0 blk d hint
  | claimed {e : Int} {b : Nat} {d' : Disk} {h' : Nat} (a : Nat) (ha : FirstClear env d s a)
      (hround : a < roundEnd s last) (hlast : a < last) (hpos : a ≠ 0)
      (hc : Claimed env d a blk e b d' h') :
      Searched env d hint s last blk e b d' h'

/-- A search whose first round found every bit set goes on where that round stopped. -/
theorem Searched.next {env : Env} {d d' : Disk} {hint s last blk b h' : Nat} {e : Int}
    (hlast : last < 2 ^ 32) (hs : s < last) (hlt : roundEnd s last < last)
    (hset : ∀ x, s ≤ x → x < roundEnd s last → bitSet env d x = true)
    (h : Searched env d hint (roundEnd s last) last blk e b d' h') :
    Searched env d hint s last blk e b d' h' := by
  have hself := roundEnd_roundEnd hlast hs hlt
  cases h with
  | unread x hx hx' =>
    rw [hself, or_self] at hx
    exact .unread _ (.inr hx) hx'
  | full h =>
    refine .full fun x hx hx' => ?_
    by_cases hlt' : x < roundEnd s last
    · exact hset x hx hlt'
    · exact h x (not_lt.mp hlt') hx'
  | claimed a ha hround _ _ _ =>
    rw [hself] at hround
    exact absurd ha.le (not_le.mpr hround)

section

variable {φ : Event → Prop}

/-- `xv6_bzero` succeeds exactly when the file system is writable and nothing fails. -/
theorem xv6Bzero_spec {b : Nat} {w w' : World} {e : Int} (h : Runs φ (xv6Bzero b) w e w') :
    (e = 0 ↔ w.env.rdonly = false ∧ Faultless w w') ∧
    (w.env.rdonly = false → e = 0 ∨ e = - EIO) ∧
    ∃ l d, w' = { w with disk := d, log := l } ∧
      (d = w.disk ∨ d = Function.update w.disk b Buf.zero) ∧
      (e = 0 → d = Function.update w.disk b Buf.zero) := by
  simp only [xv6Bzero, runs_bind_getEnv] at h
  rcases h.ite with ⟨hro, hret⟩ | ⟨hrw, h⟩
  · obtain ⟨rfl, rfl⟩ := hret.pure
    have hne : (-EROFS : Int) ≠ 0 := by decide
    exact ⟨by simp [hro, hne], by simp [hro], _, _, rfl, .inl rfl, fun h => absurd h hne⟩
  · have hro : w.env.rdonly = false := by simpa using hrw
    obtain ⟨l₁, hle, ⟨hr, hret⟩ | ⟨hr, hsync⟩⟩ := sbBread_cases h
    · obtain ⟨rfl, rfl⟩ := hret.pure
      refine ⟨hr.error.trans (and_iff_right hro).symm, fun _ => .inr rfl, _, _, rfl, .inl rfl,
        fun h => absurd h (by decide)⟩
    · obtain ⟨he, hcode, l, d, rfl, hd, hd0⟩ := syncBuffer_spec hsync
      refine ⟨?_, fun _ => hcode, l, d, rfl, hd, hd0⟩
      rw [faultless_split hle hsync.mono, he, and_iff_right hro]
      exact (and_iff_right (hr.error.mp rfl)).symm

/-! ## One bitmap block -/

/-- The test of the loop is the bit of the block. -/
theorem mask_and_word_eq_zero (env : Env) (d : Disk) (a : Nat) :
    1 <<< (a % 32) &&& (d (bitmapBlock env a)).word env.host (a % BPB / 32) = 0 ↔
      bitSet env d a = false := by
  unfold bitSet Block.bit
  rw [Bits.mask_and_eq_zero, mod_BPB_mod]

/-- The claim of a block found clear. -/
theorem claim_spec {a blk : Nat} {w w' : World} {r : Bool × Nat × Int × Nat}
    (hrw : w.env.rdonly = false)
    (h : Runs φ (xv6BallocRng.claim (bitmapBlock w.env a) (a % BPB / 32) (1 <<< (a % 32)) blk a)
      w r w') :
    ∃ e b l d hint, r = (true, a, e, b) ∧ w' = { w with disk := d, hint := hint, log := l } ∧
      (e = 0 ↔ Faultless w w') ∧ Claimed w.env w.disk a blk e b d hint := by
  simp only [xv6BallocRng.claim, runs_bind_getEnv] at h
  obtain ⟨e, w₁, hz, h⟩ := h.bind
  obtain ⟨he, hcode, l₁, d₁, rfl, hd, hd0⟩ := xv6Bzero_spec hz
  simp only [hrw, true_and] at he
  rcases h.ite with ⟨hne, h⟩ | ⟨hzero, h⟩
  · simp only [runs_bind_setHint] at h
    obtain ⟨rfl, rfl⟩ := h.pure
    obtain rfl : e = - EIO := (hcode hrw).resolve_left hne
    exact ⟨_, _, _, _, _, rfl, rfl, he, .unzeroed d₁ hd⟩
  · have he0 : e = 0 := not_not.mp hzero
    simp only [runs_bind_bdata] at h
    obtain ⟨e', w₂, hs, h⟩ := h.bind
    have hmono := hs.mono
    obtain ⟨he', hcode', l₂, d₂, rfl, hd₂, hd₂0⟩ := syncBuffer_spec hs
    simp only [runs_bind_setHint] at h
    obtain ⟨rfl, rfl⟩ := h.pure
    subst he0
    obtain rfl := hd0 rfl
    have hf : e' = 0 ↔ Faultless w { w with disk := d₂, hint := (a + 1) % 2 ^ 32, log := l₂ } :=
      he'.trans ((and_iff_right (he.mp rfl)).symm.trans (faultless_chain hz.mono hmono rfl).symm)
    refine ⟨_, _, _, _, _, rfl, rfl, hf, ?_⟩
    have hmark : Function.update (Function.update w.disk a Buf.zero) (bitmapBlock w.env a)
        ((Function.update w.disk a Buf.zero (bitmapBlock w.env a)).setWord w.env.host
          (a % BPB / 32)
          ((Function.update w.disk a Buf.zero (bitmapBlock w.env a)).word w.env.host
            (a % BPB / 32) ||| 1 <<< (a % 32))) =
        markUsed w.env (Function.update w.disk a Buf.zero) a := by
      unfold markUsed
      rw [mod_BPB_mod]
    rw [hmark] at hd₂ hd₂0
    rcases hd₂ with rfl | rfl
    · by_cases hz' : e' = 0
      · rw [hd₂0 hz']
        exact .marked e' hcode'
      · obtain rfl : e' = - EIO := hcode'.resolve_left hz'
        exact .unmarked
    · exact .marked e' hcode'

/-- The scan of `n` blocks that share the bitmap block `bb`. -/
theorem scan_spec {bb blk : Nat} {w w' : World} (hrw : w.env.rdonly = false) :
    ∀ (n s : Nat) {r : Bool × Nat × Int × Nat},
      (∀ x, s ≤ x → x < s + n → bitmapBlock w.env x = bb) →
      Runs φ (xv6BallocRng.scan bb blk n s) w r w' →
      (r = (false, s + n, 0, blk) ∧ w' = w ∧
        ∀ x, s ≤ x → x < s + n → bitSet w.env w.disk x = true) ∨
      ∃ a e b l d hint, r = (true, a, e, b) ∧ a < s + n ∧ FirstClear w.env w.disk s a ∧
        w' = { w with disk := d, hint := hint, log := l } ∧
        (e = 0 ↔ Faultless w w') ∧ Claimed w.env w.disk a blk e b d hint
  | 0, s, r, _, h => by
    obtain ⟨rfl, rfl⟩ := h.pure
    exact .inl ⟨rfl, rfl, fun x hx hx' => absurd hx' (by omega)⟩
  | n + 1, s, r, hbb, h => by
    simp only [xv6BallocRng.scan, runs_bind_getEnv, runs_bind_bdata] at h
    have hs : bitmapBlock w.env s = bb := hbb s (le_refl s) (by omega)
    subst hs
    simp only [mask_and_word_eq_zero] at h
    rcases h.ite with ⟨hclear, h⟩ | ⟨hset, h⟩
    · obtain ⟨e, b, l, d, hint, rfl, rfl, he, hc⟩ := claim_spec hrw h
      exact .inr ⟨s, e, b, l, d, hint, rfl, by omega,
        ⟨le_refl s, hclear, fun x hx hx' => absurd hx' (by omega)⟩, rfl, he, hc⟩
    · have hset' : bitSet w.env w.disk s = true := by simpa using hset
      have hstep : ∀ a, (∀ x, s + 1 ≤ x → x < a → bitSet w.env w.disk x = true) →
          ∀ x, s ≤ x → x < a → bitSet w.env w.disk x = true := by
        intro a ha x hx hxa
        rcases Nat.eq_or_lt_of_le hx with rfl | hlt
        · exact hset'
        · exact ha x hlt hxa
      rcases scan_spec hrw n (s + 1) (fun x hx hx' => hbb x (by omega) (by omega)) h with
        ⟨rfl, rfl, hall⟩ | ⟨a, e, b, l, d, hint, rfl, ha, hfirst, rfl, he, hc⟩
      · refine .inl ⟨by rw [Nat.add_right_comm, Nat.add_assoc], rfl, ?_⟩
        exact hstep _ fun x hx hx' => hall x hx (by omega)
      · exact .inr ⟨a, e, b, l, d, hint, rfl, by omega,
          ⟨by have := hfirst.le; omega, hfirst.clear, hstep a hfirst.before⟩, rfl, he, hc⟩

/-! ## The search of a range -/

/-- The blocks of one round lie in one bitmap block. -/
theorem bitmapBlock_round (env : Env) (last : Nat) {s x : Nat} (hx : s ≤ x)
    (hend : x < s + (xv6Min ((s + BPB - 1) % 2 ^ 32 / BPB * BPB) last - s)) :
    bitmapBlock env x = (s / BPB + env.info.bmapstart) % 2 ^ 32 ∧ x % BPB ≠ 0 ∧ x < last := by
  have hdiv : x / BPB = s / BPB ∧ x % BPB ≠ 0 ∧ x < last := by
    rw [xv6Min_eq_min] at hend
    simp only [BPB] at hend ⊢
    omega
  unfold bitmapBlock
  rw [hdiv.1]
  exact ⟨rfl, hdiv.2⟩

theorem tryBalloc_spec {blk last : Nat} (hlast : last < 2 ^ 32) :
    ∀ (fuel s : Nat) {w w' : World} {r : Int × Nat}, w.env.rdonly = false → s < last →
      Runs φ (xv6BallocRng.tryBalloc blk last fuel s) w r w' →
      ∃ l d hint, w' = { w with disk := d, hint := hint, log := l } ∧
        (r.1 = 0 ↔ Faultless w w') ∧
        Searched w.env w.disk w.hint s last blk r.1 r.2 d hint
  | 0, _, _, _, _, _, _, h => h.halt.elim
  | fuel + 1, s, w, w', r, hrw, hs, h => by
    simp only [xv6BallocRng.tryBalloc, runs_bind_getEnv] at h
    obtain ⟨l₁, hle, ⟨hr, h⟩ | ⟨hr, h⟩⟩ := sbBread_cases h
    · simp only [runs_bind_setHint] at h
      obtain ⟨rfl, rfl⟩ := h.pure
      exact ⟨_, _, _, rfl, hr.error, .unread s (.inl rfl) hs⟩
    · have hf₁ : Faultless w { w with log := l₁ } := hr.error.mp rfl
      obtain ⟨⟨succ, a, e, b⟩, w₂, hscan, h⟩ := h.bind
      have hmono := hscan.mono
      have hround := fun x (hx : s ≤ x) hend => bitmapBlock_round w.env last hx hend
      rcases scan_spec (w := { w with log := l₁ }) hrw _ s
        (fun x hx hend => (hround x hx hend).1) hscan with
        ⟨hres, rfl, hall⟩ | ⟨a', e', b', l, d, hint, hres, ha, hfirst, rfl, he, hc⟩
      · cases hres
        rcases h.ite with ⟨⟨-, hlt⟩, h⟩ | ⟨hstop, h⟩
        · -- the round found every bit set: the search goes on where it stopped
          obtain ⟨l, d, hint, rfl, he, hsearch⟩ :=
            tryBalloc_spec hlast (w := { w with log := l₁ }) fuel _ hrw hlt h
          refine ⟨l, d, hint, rfl, ?_, ?_⟩
          · rw [he, faultless_split hle h.mono]
            exact (and_iff_right hf₁).symm
          · exact hsearch.next hlast hs hlt hall
        · obtain ⟨rfl, rfl⟩ := h.pure
          refine ⟨_, _, _, rfl, ?_, .full fun x hx hlast => hall x hx ?_⟩
          · exact ⟨fun _ => hf₁, fun _ => rfl⟩
          · have hge : ¬ s + (xv6Min ((s + BPB - 1) % 2 ^ 32 / BPB * BPB) last - s) < last :=
              fun hlt => hstop ⟨rfl, hlt⟩
            omega
      · cases hres
        rcases h.ite with ⟨⟨hsucc, -⟩, h⟩ | ⟨-, h⟩
        · exact absurd hsucc (by simp)
        · obtain ⟨rfl, rfl⟩ := h.pure
          obtain ⟨-, hne, halast⟩ := hround a hfirst.le ha
          refine ⟨_, _, _, rfl, ?_, .claimed a hfirst ha halast ?_ hc⟩
          · refine he.trans ((and_iff_right hf₁).symm.trans ?_)
            exact (faultless_chain hle hmono rfl).symm
          · rintro rfl
            exact hne rfl

end

end Xv6fs
