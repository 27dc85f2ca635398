/-
  Where a lookup with allocation writes.

  Every write of the allocator goes to a block of the bitmap or to the block that is handed out,
  and a lookup writes to the indirect block besides. All of them lie from `bmapstart` on, so no
  write of a lookup is one of the inode table, whatever fails on the way.
-/
import Xv6fs.Fs.Attach
import Xv6fs.File.Access

namespace Xv6fs

/-- A call that does not write before the bitmap. -/
def Behind (env : Env) : Event → Prop
  | .sync b _ => env.info.bmapstart ≤ b
  | _ => True

section

variable {φ : Event → Prop} {env : Env} {w w' : World}

theorem sbBread_behind {b : Nat} {r : Bool} (h : Runs φ (sbBread b) w r w') :
    World.Along (Behind env) w w' := by
  obtain ⟨-, -, rfl⟩ := (runs_sbBread b w w' r).mp h
  exact (along_single w (.bread b _) _ rfl).mpr trivial

theorem syncBuffer_behind {b : Nat} {blk : Block} {e : Int} (hb : env.info.bmapstart ≤ b)
    (h : Runs φ (syncBuffer b blk) w e w') : World.Along (Behind env) w w' := by
  obtain ⟨f, -, rfl⟩ := syncBuffer_fate h
  exact (along_single w (.sync b f) _ rfl).mpr hb

theorem OnlyReads.behind {e : Int} (h : OnlyReads w w' e) : World.Along (Behind env) w w' :=
  h.reads.weaken fun ev hev => by
    cases ev with
    | bread b f => trivial
    | sync b f => exact hev.elim
    | alloc ok => trivial

/-! ## The allocator -/

theorem xv6Bzero_behind {b : Nat} {e : Int} (hb : env.info.bmapstart ≤ b)
    (h : Runs φ (xv6Bzero b) w e w') : World.Along (Behind env) w w' := by
  simp only [xv6Bzero, runs_bind_getEnv] at h
  rcases h.ite with ⟨-, h⟩ | ⟨-, h⟩
  · obtain ⟨-, rfl⟩ := h.pure
    exact World.along_refl _ w
  obtain ⟨ok, w₁, hread, h⟩ := h.bind
  rcases h.ite with ⟨-, h⟩ | ⟨-, h⟩
  · obtain ⟨-, rfl⟩ := h.pure
    exact sbBread_behind hread
  · exact (sbBread_behind hread).trans (syncBuffer_behind hb h)

theorem claim_behind {bitblock index mask block alloc : Nat} {r : Bool × Nat × Int × Nat}
    (hbit : env.info.bmapstart ≤ bitblock) (ha : env.info.bmapstart ≤ alloc)
    (h : Runs φ (xv6BallocRng.claim bitblock index mask block alloc) w r w') :
    World.Along (Behind env) w w' ∧ r.2.1 = alloc := by
  simp only [xv6BallocRng.claim, runs_bind_getEnv] at h
  obtain ⟨e, w₁, hz, h⟩ := h.bind
  have hbz := xv6Bzero_behind ha hz
  rcases h.ite with ⟨-, h⟩ | ⟨-, h⟩
  · simp only [runs_bind_setHint] at h
    obtain ⟨rfl, rfl⟩ := h.pure
    exact ⟨hbz, rfl⟩
  · simp only [runs_bind_bdata] at h
    obtain ⟨e', w₂, hs, h⟩ := h.bind
    have hb := hbz.trans (syncBuffer_behind hbit hs)
    simp only [runs_bind_setHint] at h
    obtain ⟨rfl, rfl⟩ := h.pure
    exact ⟨hb, rfl⟩

theorem scan_behind {bitblock block : Nat} (hbit : env.info.bmapstart ≤ bitblock) :
    ∀ (n alloc : Nat) {r : Bool × Nat × Int × Nat}, env.info.bmapstart ≤ alloc →
      Runs φ (xv6BallocRng.scan bitblock block n alloc) w r w' →
      World.Along (Behind env) w w' ∧ env.info.bmapstart ≤ r.2.1
  | 0, alloc, r, ha, h => by
    obtain ⟨rfl, rfl⟩ := h.pure
    exact ⟨World.along_refl _ w, ha⟩
  | n + 1, alloc, r, ha, h => by
    simp only [xv6BallocRng.scan, runs_bind_getEnv, runs_bind_bdata] at h
    rcases h.ite with ⟨-, h⟩ | ⟨-, h⟩
    · obtain ⟨hb, hr⟩ := claim_behind hbit ha h
      exact ⟨hb, hr ▸ ha⟩
    · exact scan_behind hbit n (alloc + 1) (Nat.le_succ_of_le ha) h

theorem tryBalloc_behind {block last : Nat} (hg : env.info.Sound) (hlast : last ≤ env.info.size) :
    ∀ (fuel alloc : Nat) {w w' : World} {r : Int × Nat}, w.env = env → alloc < last →
      env.info.bmapstart ≤ alloc → Runs φ (xv6BallocRng.tryBalloc block last fuel alloc) w r w' →
      World.Along (Behind env) w w'
  | 0, _, _, _, _, _, _, _, h => h.halt.elim
  | fuel + 1, alloc, w, w', r, henv, hlt, ha, h => by
    simp only [xv6BallocRng.tryBalloc, runs_bind_getEnv, henv] at h
    obtain ⟨ok, w₁, hread, h⟩ := h.bind
    have hr : World.Along (Behind env) w w₁ := sbBread_behind hread
    rcases h.ite with ⟨-, h⟩ | ⟨-, h⟩
    · simp only [runs_bind_setHint] at h
      obtain ⟨-, rfl⟩ := h.pure
      exact hr
    obtain ⟨⟨succ, a, e, b⟩, w₂, hscan, h⟩ := h.bind
    have hbit := hg.bitmapBlock_ge (FsInfo.Sound.inBitmap_of_lt (lt_of_lt_of_le hlt hlast))
    obtain ⟨hs, hge⟩ := scan_behind hbit _ _ ha hscan
    have hsofar := hr.trans hs
    rcases h.ite with ⟨hmore, h⟩ | ⟨-, h⟩
    · exact hsofar.trans (tryBalloc_behind hg hlast fuel a
        (hscan.mono.1.trans (hread.mono.1.trans henv)) hmore.2 hge h)
    · obtain ⟨-, rfl⟩ := h.pure
      exact hsofar

theorem xv6BallocRng_behind {block start last : Nat} {r : Int × Nat} (hg : w.env.info.Sound)
    (hlast : last ≤ w.env.info.size) (hlt : start < last) (hs : w.env.info.dataStart ≤ start)
    (h : Runs φ (xv6BallocRng block start last) w r w') : World.Along (Behind w.env) w w' := by
  simp only [xv6BallocRng, runs_bind_getEnv] at h
  rw [hg.dataStart_eq] at hs
  exact tryBalloc_behind hg hlast _ _ rfl hlt (le_trans (Nat.le_add_right _ _) hs) h

theorem wrapHint_log {u : Unit} (h : Runs φ xv6BallocUnsafe.wrapHint w u w') :
    World.Along (Behind env) w w' := by
  simp only [xv6BallocUnsafe.wrapHint, runs_bind_getEnv, runs_bind_get] at h
  obtain rfl := (runs_setHint _ w w' u).mp h
  exact World.along_refl _ w

theorem second_behind {hint block : Nat} {r : Int × Nat} (hg : w.env.info.Sound)
    (hle : hint ≤ w.env.info.size) (h : Runs φ (xv6BallocUnsafe.second hint block) w r w') :
    World.Along (Behind w.env) w w' := by
  simp only [xv6BallocUnsafe.second, runs_bind_getEnv] at h
  rcases h.ite with ⟨hlt, h⟩ | ⟨-, h⟩
  · obtain ⟨⟨e, b⟩, w₁, hrng, h⟩ := h.bind
    have hb := xv6BallocRng_behind hg hle hlt (le_refl _) hrng
    rcases h.ite with ⟨-, h⟩ | ⟨-, h⟩
    · obtain ⟨u, w₂, hwrap, h⟩ := h.bind
      obtain ⟨-, rfl⟩ := h.pure
      exact hb.trans (wrapHint_log hwrap)
    · obtain ⟨-, rfl⟩ := h.pure
      exact hb
  · obtain ⟨-, rfl⟩ := h.pure
    exact World.along_refl _ w

theorem xv6Balloc_behind {block : Nat} {r : Int × Nat} (hg : w.env.info.Sound)
    (hh : HintOk w.env w.hint) (h : Runs φ (xv6Balloc block) w r w') :
    World.Along (Behind w.env) w w' := by
  have hmod : w.hint % 2 ^ 32 = w.hint := Nat.mod_eq_of_lt (lt_of_le_of_lt hh.2 hg.size_lt)
  simp only [xv6Balloc, xv6BallocUnsafe, runs_bind_getEnv] at h
  rcases h.ite with ⟨-, h⟩ | ⟨-, h⟩
  · obtain ⟨-, rfl⟩ := h.pure
    exact World.along_refl _ w
  simp only [runs_bind_get] at h
  rw [hmod] at h
  rcases h.ite with ⟨hlt, h⟩ | ⟨-, h⟩
  · obtain ⟨⟨e, b⟩, w₁, hrng, h⟩ := h.bind
    have hb := xv6BallocRng_behind hg (le_refl _) hlt hh.1 hrng
    have henv := hrng.mono.1
    rcases h.ite with ⟨-, h⟩ | ⟨-, h⟩
    · obtain ⟨u, w₂, hwrap, h⟩ := h.bind
      obtain ⟨-, rfl⟩ := h.pure
      exact hb.trans (wrapHint_log hwrap)
    · have hnext := second_behind (w := w₁) (by rwa [henv]) (by rw [henv]; exact hh.2) h
      rw [henv] at hnext
      exact hb.trans hnext
  · exact second_behind hg hh.2 h

/-! ## The lookup -/

theorem indirect_behind {ctx : InodeCtx} {i : Nat} {r : Int × Nat × InodeCtx}
    (hg : w.env.info.Sound) (hh : HintOk w.env w.hint)
    (hz : w.env.info.bmapstart ≤ ctx.addrs.get NDIRECT)
    (h : Runs φ (xv6InodeAddr.indirect modcheck ctx i true) w r w') :
    World.Along (Behind w.env) w w' := by
  simp only [xv6InodeAddr.indirect, modcheck] at h
  obtain ⟨ok, w₁, hread, h⟩ := h.bind
  have hr : World.Along (Behind w.env) w w₁ := sbBread_behind hread
  obtain ⟨-, l, rfl⟩ := sbBread_spec hread
  rcases h.ite with ⟨-, h⟩ | ⟨-, h⟩
  · obtain ⟨-, rfl⟩ := h.pure
    exact hr
  simp only [runs_bind_bdata, Bool.not_true, Bool.false_eq_true, if_false] at h
  rcases h.ite with ⟨-, h⟩ | ⟨-, h⟩
  · obtain ⟨⟨e, a⟩, w₂, hballoc, hnext⟩ := h.bind
    clear h
    have hb := hr.trans (xv6Balloc_behind (w := { w with log := l }) hg hh hballoc)
    rcases hnext.ite with ⟨-, h⟩ | ⟨-, h⟩
    · obtain ⟨-, rfl⟩ := h.pure
      exact hb
    rcases h.ite with ⟨-, h⟩ | ⟨-, h⟩
    · obtain ⟨-, rfl⟩ := h.pure
      exact hb
    simp only [runs_bind_bdata] at h
    obtain ⟨e', w₃, hsync, h⟩ := h.bind
    obtain ⟨-, rfl⟩ := h.pure
    exact hb.trans (syncBuffer_behind hz hsync)
  · obtain ⟨-, rfl⟩ := h.pure
    exact hr

/-- The lookup of a block that is reached through an address that is not in use. -/
theorem inodeAddr_behind {ctx : InodeCtx} {i : Nat} {r : Int × Nat × InodeCtx}
    (hg : w.env.info.Sound) (hh : HintOk w.env w.hint) (hrw : w.env.rdonly = false)
    (hi : i < MAXFILE) (h0 : ctx.addrs.get (viaSlot i) = 0)
    (h : Runs φ (xv6InodeAddr modcheck ctx i true) w r w') :
    World.Along (Behind w.env) w w' := by
  simp only [xv6InodeAddr, if_neg (not_le.mpr hi), and_true, Bool.not_true, Bool.false_eq_true,
    if_false] at h
  by_cases hd : i < NDIRECT
  · rw [viaSlot_direct hd] at h0
    simp only [hd, h0, if_true] at h
    obtain ⟨⟨e, a⟩, w₁, hballoc, h⟩ := h.bind
    obtain ⟨-, rfl⟩ := h.pure
    exact xv6Balloc_behind hg hh hballoc
  · rw [viaSlot_indirect (not_lt.mp hd)] at h0
    simp only [hd, h0, if_true, if_false] at h
    obtain ⟨⟨e, a⟩, w₁, hballoc, hnext⟩ := h.bind
    clear h
    have hb := xv6Balloc_behind hg hh hballoc
    obtain ⟨l, d, hint, rfl, -, hbal⟩ := xv6Balloc_spec hrw hg.size_lt hh.2 hballoc
    rcases hnext.ite with ⟨-, h⟩ | ⟨-, h⟩
    · obtain ⟨-, rfl⟩ := h.pure
      exact hb
    rcases h.ite with ⟨-, h⟩ | ⟨ha, h⟩
    · obtain ⟨-, rfl⟩ := h.pure
      exact hb
    · have hdata := hg.data_ge ((hbal.keeps hg hh).2 ha).1
      refine hb.trans (indirect_behind (w := { w with disk := d, hint := hint, log := l }) hg
        (hbal.hintOk hg hh) ?_ h)
      rw [Addrs.get_set_self]
      exact hdata

end

/-! ## A lookup that sets an address -/

/-- Two data blocks are free. -/
def TwoFree (env : Env) (d : Disk) : Prop :=
  ∃ x y, x ≠ y ∧ IsData env x ∧ IsData env y ∧ bitSet env d x = false ∧ bitSet env d y = false

/-- The lookup of file block `i` sets one of the addresses. -/
structure Attached (w : World) (addrs : Addrs) (i : Nat) (e : Int) (b : Nat) (new : Addrs)
    (w₁ : World) : Prop where
  unused : addrs.get (viaSlot i) = 0
  le : w ≤ w₁
  frame : ∃ l, w₁ = { w with disk := w₁.disk, hint := w₁.hint, log := l }
  behind : World.Along (Behind w.env) w w₁
  before : ∀ x, x < w.env.info.bmapstart → w₁.disk x = w.disk x
  lt : (∀ k, addrs k < 2 ^ 32) → ∀ k, new k < 2 ^ 32
  ok : e = 0 ↔ Faultless w w₁ ∧ (i < NDIRECT ∨ TwoFree w.env w.disk)
  fresh : e = 0 → b ≠ 0 ∧ IsData w.env b ∧ w₁.disk b = Buf.zero

section

variable {φ : Event → Prop} {env : Env} {d d' d'' : Disk} {hint h' h'' i a b : Nat} {e : Int}
  {addrs : Addrs}

theorem Addrs.set_lt {k : Nat} (hb : b < 2 ^ 32) (h : ∀ k, addrs k < 2 ^ 32) (j : Fin 13) :
    addrs.set k b j < 2 ^ 32 := by
  unfold Addrs.set
  by_cases hj : j = Fin.ofNat 13 k
  · rw [hj, Function.update_self]
    exact hb
  · rw [Function.update_of_ne hj]
    exact h j

theorem Balloced.lt (hg : env.info.Sound) (hh : HintOk env hint)
    (h : Balloced env d hint e b d' h') : b < 2 ^ 32 := by
  by_cases hb : b = 0
  · rw [hb]
    decide
  · exact lt_trans ((h.keeps hg hh).2 hb).1.2 hg.size_lt

/-- An entry of a fresh indirect block is set when a second block is free. -/
theorem EntryMapped.ok_iff (hg : env.info.Sound) (hh : HintOk env hint) (ha : a ≠ 0)
    (hb : Balloced env d hint 0 a d' h') (h : EntryMapped env d' h' a i e b d'' h'') :
    (e = 0 → TwoFree env d ∧ b ≠ 0 ∧ IsData env b ∧ d'' b = Buf.zero) ∧
      (e = -ENOSPC → ¬ TwoFree env d) := by
  have hh' := hb.hintOk hg hh
  have hdata := ((hb.keeps hg hh).2 ha).1
  have hclear := ((hb.keeps hg hh).2 ha).2.1
  have hzero := ((hb.keeps hg hh).2 ha).2.2
  rcases hb.ok hh with ⟨hb0, -⟩ | ⟨-, -, -, hd'⟩
  · exact absurd hb0 ha
  have hbits : ∀ {x}, IsData env x → x ≠ a → bitSet env d' x = bitSet env d x := by
    intro x hx hne
    rw [hd']
    unfold handOut
    rw [hg.bitSet_markUsed _ (FsInfo.Sound.inBitmap_of_lt hx.2)
      (FsInfo.Sound.inBitmap_of_lt hdata.2), if_neg hne,
      hg.bitSet_update _ _ (FsInfo.Sound.inBitmap_of_lt hx.2) hdata]
  have hheld := held_handOut (d := d) hg hdata
  rw [← hd'] at hheld
  cases h with
  | unread => exact ⟨fun h0 => absurd h0 (by decide), fun h0 => absurd h0 (by decide)⟩
  | found hne =>
    rw [hzero, Block.u32_zero] at hne
    exact absurd rfl hne
  | error _ hb₂ hne =>
    refine ⟨fun h0 => absurd h0 hne, fun h0 => ?_⟩
    rcases hb₂.error with h1 | h1
    · exact absurd h1 hne
    · rw [h0] at h1
      exact absurd h1 (by decide)
  | nospc _ hb₂ =>
    refine ⟨fun h0 => absurd h0 (by decide), fun _ ⟨x, y, hne, hx, hy, hbx, hby⟩ => ?_⟩
    rcases hb₂.ok hh' with ⟨-, -, -, hall⟩ | ⟨hne0, -⟩
    · -- of two free blocks the first allocation takes one
      by_cases hxa : x = a
      · have hya : y ≠ a := fun hy' => hne (hxa.trans hy'.symm)
        have hset := hall y hy
        rw [hbits hy hya, hby] at hset
        cases hset
      · have hset := hall x hx
        rw [hbits hx hxa, hbx] at hset
        cases hset
    · exact absurd rfl hne0
  | attached _ hb₂ hne hs =>
    refine ⟨fun h0 => ?_, fun h0 => ?_⟩
    · subst h0
      obtain ⟨hdata₂, hclear₂, hzero₂⟩ := (hb₂.keeps hg hh').2 hne
      have hba : b ≠ a := by
        rintro rfl
        rw [hheld.2] at hclear₂
        cases hclear₂
      refine ⟨⟨a, b, hba.symm, hdata, hdata₂, hclear, ?_⟩, hne, hdata₂, ?_⟩
      · rw [← hbits hdata₂ hba, hclear₂]
      · rw [hs.ok, Function.update_of_ne hba, hzero₂]
    · rcases hs.error with h1 | h1 <;> rw [h0] at h1 <;> exact absurd h1 (by decide)

theorem attached_of_alloc {w w₁ : World} {ctx ctx' : InodeCtx} (hg : w.env.info.Sound)
    (hh : HintOk w.env w.hint) (h : Runs φ (xv6InodeAddr modcheck ctx i true) w (e, b, ctx') w₁)
    (hne : ctx'.addrs ≠ ctx.addrs) :
    ctx' = { ctx with addrs := ctx'.addrs, dirty := true } ∧
      Attached w ctx.addrs i e b ctx'.addrs w₁ ∧ w.env.rdonly = false ∧ i < MAXFILE := by
  have hi : i < MAXFILE := by
    by_contra hbig
    exact hne (congrArg InodeCtx.addrs (xv6InodeAddr_big (not_lt.mp hbig) h).2.2.1)
  have hrw : w.env.rdonly = false := by
    by_contra hro
    obtain ⟨⟨dirty, rfl⟩, -⟩ := xv6InodeAddr_rdonly (by simpa using hro) hi h
    exact hne rfl
  have hctx := inodeAddr_ctx hi h
  have h0 : ctx.addrs.get (viaSlot i) = 0 := by
    by_contra hused
    rw [if_neg hused] at hctx
    exact hne (by rw [hctx])
  rw [if_pos h0] at hctx
  have hdirty : ctx' = { ctx with addrs := ctx'.addrs, dirty := true } := by
    obtain ⟨a, rfl⟩ := hctx
    rfl
  refine ⟨hdirty, ?_, hrw, hi⟩
  have hbehind := inodeAddr_behind hg hh hrw hi h0 h
  have hle := h.mono
  obtain ⟨l, d, hint, new, dirty, rfl, hctx', hf, -, hmap⟩ :=
    xv6InodeAddr_alloc hrw hg hh.1 hh.2 hi h
  obtain rfl : ctx'.addrs = new := by rw [hctx']
  clear hctx hctx' hdirty h
  generalize ctx'.addrs = new at hmap hne ⊢
  have hsame : ∀ {j}, ctx.addrs.get j = 0 → ctx.addrs.set j 0 = ctx.addrs := fun hz => by
    rw [← hz]
    exact Addrs.set_get_self _
  cases hmap with
  | found => exact absurd rfl hne
  | @direct e b _ _ hd hz hb =>
    have hb0 : b ≠ 0 := by
      rintro rfl
      exact hne (hsame hz)
    rw [if_neg fun hc => hb0 hc.2] at hf ⊢
    refine ⟨h0, hle, ⟨l, rfl⟩, hbehind, fun x hx => hb.before hg hh hx,
      Addrs.set_lt (hb.lt hg hh), ?_, fun _ =>
      ⟨hb0, ((hb.keeps hg hh).2 hb0).1, ((hb.keeps hg hh).2 hb0).2.2⟩⟩
    rw [hf, and_iff_left (.inl hd)]
    refine ⟨.inl, fun hor => hor.resolve_right fun hbad => ?_⟩
    rcases hb.error with h1 | h1 <;> rw [hbad] at h1 <;> exact absurd h1 (by decide)
  | entry => exact absurd rfl hne
  | error hge hz hb he =>
    refine ⟨h0, hle, ⟨l, rfl⟩, hbehind, fun x hx => hb.before hg hh hx,
      Addrs.set_lt (hb.lt hg hh), iff_of_false he fun hc => ?_, fun he0 => absurd he0 he⟩
    have hio := hb.error.resolve_left he
    rcases hf.mp hc.1 with h1 | h1
    · exact he h1
    · rw [hio] at h1
      exact absurd h1 (by decide)
  | nospc hge hz hb => exact absurd (hsame hz) hne
  | @indirect e a b _ _ h₁ _ hge hz hb ha hm =>
    have hdata := ((hb.keeps hg hh).2 ha).1
    obtain ⟨hok, hno⟩ := hm.ok_iff hg hh ha hb
    refine ⟨h0, hle, ⟨l, rfl⟩, hbehind, fun x hx => ?_, Addrs.set_lt (hb.lt hg hh), ?_,
      fun he0 => (hok he0).2⟩
    · exact (hm.before hg (hb.hintOk hg hh) hdata hx).trans (hb.before hg hh hx)
    · rw [hf, or_iff_right (not_lt.mpr hge)]
      exact ⟨fun he0 => ⟨.inl he0, (hok he0).1⟩, fun hc => hc.1.resolve_right fun hn => hno hn hc.2⟩

end

end Xv6fs
