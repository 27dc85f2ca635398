/-
  The allocator refines a set of used blocks.

  On a writable disk without I/O errors `xv6_balloc` moves one clear bit of the data area into
  the set and zeroes the block, or finds every bit of the area set. `xv6_bfree` takes its block
  out of the set. `usedSet_run` carries this over runs: the set follows the ledger of the blocks
  handed out and freed, and no block is handed out while it is in the set.
-/
import Xv6fs.Balloc.Spec
import Xv6fs.Lib.Ledger

namespace Xv6fs

/-! ## One call -/

/-- The state in which the allocator works: writable, no I/O errors, the hint in its range. -/
structure AllocReady (w : World) : Prop where
  writable : w.env.rdonly = false
  quiet : Quiet w.env
  sound : w.env.info.Sound
  hint_ge : w.env.info.dataStart ≤ w.hint
  hint_le : w.hint ≤ w.env.info.size

/-- The disk after `a` is handed out. -/
def handOut (env : Env) (d : Disk) (a : Nat) : Disk :=
  markUsed env (Function.update d a Buf.zero) a

section

variable {w w' : World} {φ : Event → Prop}

theorem InSearch.isData {env : Env} {hint x : Nat} (hge : env.info.dataStart ≤ hint)
    (hle : hint ≤ env.info.size) : InSearch env hint x ↔ IsData env x := by
  unfold InSearch IsData
  omega

/-- `xv6_balloc` when no I/O call fails. -/
theorem balloc_faultless {blk : Nat} {r : Int × Nat} (hrw : w.env.rdonly = false)
    (hg : w.env.info.Sound) (hge : w.env.info.dataStart ≤ w.hint)
    (hle : w.hint ≤ w.env.info.size) (h : Runs φ (xv6Balloc blk) w r w')
    (hf : Faultless w w') :
    (r = (0, 0) ∧ (∃ l, w' = { w with log := l }) ∧
      ∀ x, IsData w.env x → bitSet w.env w.disk x = true) ∨
    ∃ a l hint, r = (0, a) ∧ a ≠ 0 ∧ IsData w.env a ∧ bitSet w.env w.disk a = false ∧
      w' = { w with disk := handOut w.env w.disk a, hint := hint, log := l } ∧
      w.env.info.dataStart ≤ hint ∧ hint ≤ w.env.info.size := by
  obtain ⟨e, b⟩ := r
  obtain ⟨l, d, hint, hw, he, hb⟩ := xv6Balloc_spec hrw hg.size_lt hle h
  have he0 : e = 0 := he.mpr hf
  subst hw
  dsimp only at hb
  cases hb with
  | unread x hx _ => exact absurd he0 (by decide)
  | full hall =>
    refine .inl ⟨rfl, ⟨l, rfl⟩, fun x hx => hall x ?_⟩
    exact (InSearch.isData hge hle).mpr hx
  | claimed a ha hpos hc =>
    have hdata : IsData w.env a := (InSearch.isData hge hle).mp ha.inSearch
    cases hc with
    | unzeroed => exact absurd he0 (by decide)
    | unmarked => exact absurd he0 (by decide)
    | marked =>
      have h1 := hdata.1
      have h2 := hdata.2
      have h3 := hg.size_lt
      have hmod : (b + 1) % 2 ^ 32 = b + 1 := Nat.mod_eq_of_lt (by omega)
      subst he0
      refine .inr ⟨b, l, _, rfl, hpos, hdata, ha.clear, rfl, ?_⟩
      rw [hmod]
      exact hg.wrap_mem (by omega)

theorem Returns.faultless {α : Type} {m : Fs α} {a : α} (hq : Quiet w.env)
    (h : Returns m w a w') : Faultless w w' :=
  (h.calm hq).2

theorem bitSet_handOut {env : Env} (hg : env.info.Sound) (d : Disk) {a x : Nat}
    (ha : IsData env a) (hx : InBitmap env x) :
    bitSet env (handOut env d a) x = if x = a then true else bitSet env d x := by
  unfold handOut
  rw [hg.bitSet_markUsed _ hx (FsInfo.Sound.inBitmap_of_lt ha.2), hg.bitSet_update d _ hx ha]

/-- Outside the bitmap a hand-out touches the block handed out and nothing else. -/
theorem handOut_block {env : Env} (hg : env.info.Sound) (d : Disk) {a x : Nat}
    (ha : IsData env a) (hx : x < env.info.bmapstart ∨ env.info.dataStart ≤ x) :
    handOut env d a x = if x = a then Buf.zero else d x := by
  have hb := FsInfo.Sound.inBitmap_of_lt ha.2
  have h1 := hg.bitmapBlock_lt hb
  have h2 := hg.bitmapBlock_ge hb
  unfold handOut
  rw [markUsed_other env _ (by omega)]
  by_cases hxa : x = a
  · rw [hxa, Function.update_self, if_pos rfl]
  · rw [Function.update_of_ne hxa, if_neg hxa]

theorem markFree_block {env : Env} (hg : env.info.Sound) (d : Disk) {b x : Nat}
    (hb : IsData env b) (hx : x < env.info.bmapstart ∨ env.info.dataStart ≤ x) :
    markFree env d b x = d x := by
  have hbm := FsInfo.Sound.inBitmap_of_lt hb.2
  have h1 := hg.bitmapBlock_lt hbm
  have h2 := hg.bitmapBlock_ge hbm
  exact markFree_other env d (by omega)

/-- `xv6_bfree` when no I/O call fails. -/
theorem bfree_faultless {b : Nat} {e : Int} (hrw : w.env.rdonly = false)
    (h : Runs φ (xv6Bfree b) w e w') (hf : Faultless w w') :
    IsData w.env b ∧ e = 0 ∧ ∃ l, w' = { w with
      disk := if bitSet w.env w.disk b then markFree w.env w.disk b else w.disk
      log := l } := by
  obtain ⟨hge, hlt, he, l, d, rfl, -, hd⟩ := xv6Bfree_spec hrw h
  have he0 : e = 0 := he.mpr hf
  rw [hd he0]
  exact ⟨⟨hge, hlt⟩, he0, l, rfl⟩

/-- Freeing the block of a set bit, or of a clear one, leaves it clear. -/
theorem bitSet_bfree {env : Env} (hg : env.info.Sound) (d : Disk) {b x : Nat}
    (hb : IsData env b) (hx : InBitmap env x) :
    bitSet env (if bitSet env d b then markFree env d b else d) x =
      if x = b then false else bitSet env d x := by
  by_cases hset : bitSet env d b = true
  · rw [if_pos hset]
    exact hg.bitSet_markFree d hx (FsInfo.Sound.inBitmap_of_lt hb.2)
  · rw [if_neg hset]
    by_cases hxb : x = b
    · rw [if_pos hxb, hxb]
      simpa using hset
    · rw [if_neg hxb]

end

/-! ## Runs -/

/-- The blocks whose bit is set. -/
def usedSet (w : World) : Set Nat := {x | InBitmap w.env x ∧ bitSet w.env w.disk x = true}

/-- A sequence of `xv6_balloc` and `xv6_bfree` calls that return, with the blocks handed out
    and freed, the oldest first. -/
inductive AllocRun : World → List (Entry Nat) → World → Prop where
  | nil (w : World) : AllocRun w [] w
  | balloc {w w₁ w' : World} {blk b : Nat} {e : Int} {tr : List (Entry Nat)}
      (h : Returns (xv6Balloc blk) w (e, b) w₁) (hrest : AllocRun w₁ tr w') :
      AllocRun w (if b = 0 then tr else .take b :: tr) w'
  | bfree {w w₁ w' : World} {b : Nat} {e : Int} {tr : List (Entry Nat)}
      (h : Returns (xv6Bfree b) w e w₁) (hrest : AllocRun w₁ tr w') :
      AllocRun w (.give b :: tr) w'

section

variable {w w' : World}

theorem AllocReady.balloc {blk : Nat} {r : Int × Nat} (hr : AllocReady w)
    (h : Returns (xv6Balloc blk) w r w') : AllocReady w' := by
  rcases balloc_faultless hr.writable hr.sound hr.hint_ge hr.hint_le h (h.faultless hr.quiet) with
    ⟨-, ⟨l, rfl⟩, -⟩ | ⟨a, l, hint, -, -, -, -, rfl, hge, hle⟩
  · exact ⟨hr.writable, hr.quiet, hr.sound, hr.hint_ge, hr.hint_le⟩
  · exact ⟨hr.writable, hr.quiet, hr.sound, hge, hle⟩

theorem AllocReady.bfree {b : Nat} {e : Int} (hr : AllocReady w)
    (h : Returns (xv6Bfree b) w e w') : AllocReady w' := by
  obtain ⟨-, -, l, rfl⟩ := bfree_faultless hr.writable h (h.faultless hr.quiet)
  exact ⟨hr.writable, hr.quiet, hr.sound, hr.hint_ge, hr.hint_le⟩

/-- What one `xv6_balloc` does to the used set. -/
theorem usedSet_balloc {blk b : Nat} {e : Int} (hr : AllocReady w)
    (h : Returns (xv6Balloc blk) w (e, b) w') :
    if b = 0 then usedSet w' = usedSet w
    else b ∉ usedSet w ∧ usedSet w' = insert b (usedSet w) := by
  rcases balloc_faultless hr.writable hr.sound hr.hint_ge hr.hint_le h (h.faultless hr.quiet) with
    ⟨hres, ⟨l, rfl⟩, -⟩ | ⟨a, l, hint, hres, hpos, ha, hclear, rfl, -, -⟩
  · cases hres
    rfl
  · cases hres
    rw [if_neg hpos]
    have hin := FsInfo.Sound.inBitmap_of_lt ha.2
    refine ⟨fun hmem => ?_, ?_⟩
    · rw [hmem.2] at hclear
      cases hclear
    · ext x
      simp only [usedSet, Set.mem_ofPred_eq, Set.mem_insert_iff]
      by_cases hx : InBitmap w.env x
      · rw [bitSet_handOut hr.sound w.disk ha hx]
        by_cases hxb : x = b <;> simp [hxb, hx, hin]
      · have hxb : x ≠ b := by
          rintro rfl
          exact hx hin
        simp [hx, hxb]

/-- What one `xv6_bfree` does to the used set. -/
theorem usedSet_bfree {b : Nat} {e : Int} (hr : AllocReady w)
    (h : Returns (xv6Bfree b) w e w') : usedSet w' = usedSet w \ {b} := by
  obtain ⟨hb, -, l, rfl⟩ := bfree_faultless hr.writable h (h.faultless hr.quiet)
  ext x
  simp only [usedSet, Set.mem_ofPred_eq, Set.mem_sdiff, Set.mem_singleton_iff]
  by_cases hx : InBitmap w.env x
  · rw [bitSet_bfree hr.sound w.disk hb hx]
    by_cases hxb : x = b <;> simp [hxb, hx]
  · simp [hx]

/-- Over any run the used set follows the ledger, and the ledger is legal. -/
theorem usedSet_run {tr : List (Entry Nat)} (hr : AllocReady w) (h : AllocRun w tr w') :
    usedSet w' = Ledger.after (usedSet w) tr ∧ Ledger.Legal (usedSet w) tr := by
  induction h with
  | nil w => exact ⟨rfl, trivial⟩
  | @balloc w w₁ w' blk b e tr h hrest ih =>
    have hstep := usedSet_balloc hr h
    have hih := ih (hr.balloc h)
    by_cases hb : b = 0
    · rw [if_pos hb] at hstep ⊢
      rwa [hstep] at hih
    · rw [if_neg hb] at hstep ⊢
      rw [hstep.2] at hih
      exact ⟨hih.1, hstep.1, hih.2⟩
  | @bfree w w₁ w' b e tr h hrest ih =>
    have hih := ih (hr.bfree h)
    rw [usedSet_bfree hr h] at hih
    exact hih

/-- On a writable disk without I/O errors `xv6_bfree` of a data block returns. -/
theorem bfree_returns {b : Nat} (hrw : w.env.rdonly = false) (hq : Quiet w.env)
    (hb : IsData w.env b) : ∃ w', Returns (xv6Bfree b) w 0 w' := by
  simp only [xv6Bfree, xv6BfreeUnsafe, runs_bind_getEnv, hrw, Bool.false_eq_true,
    if_false, runs_bind_assert, hb.1, hb.2, ge_iff_le, true_and, quiet_bind_sbBread hq,
    Bool.not_true,
    runs_bind_bdata, Prog.via_ite]
  by_cases hbit : (w.disk ((b / BPB + w.env.info.bmapstart) % 2 ^ 32)).word w.env.host
      (b % BPB / 32) &&& 1 <<< (b % 32) = 0
  · exact ⟨_, .inl ⟨hbit, (Prog.via_pure ..).mpr ⟨rfl, rfl⟩⟩⟩
  · exact ⟨_, .inr ⟨hbit, (quiet_syncBuffer (by exact hq)).mpr ⟨trivial, rfl, rfl⟩⟩⟩

/-- The allocator refines a set of used blocks: what each call does to the bits, the blocks and
    the hint, and that the set follows the calls over any run. -/
theorem balloc_refines_used_set (w : World) (hr : AllocReady w) :
    (∀ blk e b w', Returns (xv6Balloc blk) w (e, b) w' →
      e = 0 ∧ w.env.info.dataStart ≤ w'.hint ∧ w'.hint ≤ w.env.info.size ∧
      (b ≠ 0 → IsData w.env b ∧
        bitSet w.env w.disk b = false ∧ bitSet w.env w'.disk b = true ∧
        (∀ x, InBitmap w.env x → x ≠ b → bitSet w.env w'.disk x = bitSet w.env w.disk x) ∧
        w'.disk b = Buf.zero ∧
        ∀ x, IsData w.env x → x ≠ b → w'.disk x = w.disk x) ∧
      (b = 0 → ∀ x, IsData w.env x → bitSet w.env w.disk x = true)) ∧
    (∀ b, IsData w.env b →
      (∃ w', Returns (xv6Bfree b) w 0 w') ∧
      ∀ e w', Returns (xv6Bfree b) w e w' →
        e = 0 ∧ bitSet w.env w'.disk b = false ∧
        (∀ x, InBitmap w.env x → x ≠ b → bitSet w.env w'.disk x = bitSet w.env w.disk x) ∧
        ∀ x, IsData w.env x → w'.disk x = w.disk x) ∧
    (∀ tr w', AllocRun w tr w' →
      usedSet w' = Ledger.after (usedSet w) tr ∧
      ∀ a pre mid post, tr = pre ++ .take a :: (mid ++ .take a :: post) → Entry.give a ∈ mid) := by
  refine ⟨?_, ?_, ?_⟩
  · intro blk e b w' h
    rcases balloc_faultless hr.writable hr.sound hr.hint_ge hr.hint_le h
      (h.faultless hr.quiet) with
      ⟨hres, ⟨l, rfl⟩, hall⟩ | ⟨a, l, hint, hres, hpos, ha, hclear, rfl, hge, hle⟩
    · cases hres
      exact ⟨rfl, hr.hint_ge, hr.hint_le, fun h0 => absurd rfl h0, fun _ => hall⟩
    · cases hres
      have hin := FsInfo.Sound.inBitmap_of_lt ha.2
      refine ⟨rfl, hge, hle, fun _ => ⟨ha, hclear, ?_, fun x hx hne => ?_, ?_, fun x hx hne => ?_⟩,
        fun h0 => absurd h0 hpos⟩
      · exact (bitSet_handOut hr.sound w.disk ha hin).trans (if_pos rfl)
      · exact (bitSet_handOut hr.sound w.disk ha hx).trans (if_neg hne)
      · exact (handOut_block hr.sound w.disk ha (.inr ha.1)).trans (if_pos rfl)
      · exact (handOut_block hr.sound w.disk ha (.inr hx.1)).trans (if_neg hne)
  · intro b hb
    refine ⟨bfree_returns hr.writable hr.quiet hb, fun e w' h => ?_⟩
    obtain ⟨-, he, l, rfl⟩ := bfree_faultless hr.writable h (h.faultless hr.quiet)
    refine ⟨he, ?_, fun x hx hne => ?_, fun x hx => ?_⟩
    · exact (bitSet_bfree hr.sound w.disk hb (FsInfo.Sound.inBitmap_of_lt hb.2)).trans (if_pos rfl)
    · exact (bitSet_bfree hr.sound w.disk hb hx).trans (if_neg hne)
    · dsimp only
      split
      · exact markFree_block hr.sound w.disk hb (.inr hx.1)
      · rfl
  · intro tr w' h
    obtain ⟨hset, hlegal⟩ := usedSet_run hr h
    refine ⟨hset, ?_⟩
    rintro a pre mid post rfl
    exact Ledger.give_between hlegal

end

/-- Blocks 0 to 2 are metadata, blocks 3 to 7 free data blocks. -/
def eightBlocks : World :=
  World.blank ⟨8, 5, 0, 0, 1, 1, 2⟩ 3

theorem eightBlocks_ready : AllocReady eightBlocks :=
  ⟨rfl, fun _ => rfl, ⟨by decide, by decide⟩, by decide, by decide⟩

theorem eightBlocks_bfree_returns : ∃ w', Returns (xv6Bfree 5) eightBlocks 0 w' :=
  ((balloc_refines_used_set eightBlocks eightBlocks_ready).2.1 5 (by decide)).1

end Xv6fs
