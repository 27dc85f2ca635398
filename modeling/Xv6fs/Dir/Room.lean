/-
  When a directory has room for one more entry.

  Whatever fails on the way, an insertion leaves the other files alone, and its directory has every
  entry as before but the one it writes (`Inserting.keeps`). It returns 0 exactly when no call
  fails and the block of the first unused entry is there or can be taken (`Inserting.ok_iff`).
-/
import Xv6fs.Dir.Map
import Xv6fs.Fs.Behind

namespace Xv6fs

/-- The blocks that filling the hole at file block `i` takes are free: one, or two when there is no
    indirect block yet. -/
def Attachable (env : Env) (d : Disk) (addrs : Addrs) (i : Nat) : Prop :=
  if NDIRECT ≤ i ∧ addrs.get NDIRECT = 0 then TwoFree env d
  else ∃ x, IsData env x ∧ bitSet env d x = false

section

variable {env : Env} {d d' : Disk} {hint h' i b z n size : Nat} {e : Int}
  {addrs addrs' : Addrs} {dirty : Bool} {w w' : World} {A : Nat → Option Addrs} {nde : Dirent}

/-! ## Filling a hole -/

theorem attachable_one (h : ¬ (NDIRECT ≤ i ∧ addrs.get NDIRECT = 0)) :
    Attachable env d addrs i ↔ ∃ x, IsData env x ∧ bitSet env d x = false := by
  unfold Attachable
  rw [if_neg h]

theorem attachable_two (h : NDIRECT ≤ i ∧ addrs.get NDIRECT = 0) :
    Attachable env d addrs i ↔ TwoFree env d := by
  unfold Attachable
  rw [if_pos h]

theorem Balloced.one_free (hg : env.info.Sound) (hh : HintOk env hint) (hb : b ≠ 0)
    (h : Balloced env d hint e b d' h') : ∃ x, IsData env x ∧ bitSet env d x = false :=
  ⟨b, ((h.keeps hg hh).2 hb).1, ((h.keeps hg hh).2 hb).2.1⟩

/-- The allocator returns 0 and no block only when no data block is free. -/
theorem Balloced.none_free (hh : HintOk env hint) (h : Balloced env d hint 0 0 d' h') :
    ¬ ∃ x, IsData env x ∧ bitSet env d x = false := by
  rintro ⟨x, hx, hfree⟩
  rcases h.ok hh with ⟨-, -, -, hall⟩ | ⟨hne, -⟩
  · rw [hall x hx] at hfree
    cases hfree
  · exact hne rfl

private theorem eio_ne_enospc {e : Int} (he : e = 0 ∨ e = - EIO) : e ≠ -ENOSPC := by
  rcases he with rfl | rfl <;> decide

/-- An entry of an indirect block that is there. -/
theorem EntryMapped.room (hg : env.info.Sound) (hh : HintOk env hint)
    (h0 : (d z).u32 (i - NDIRECT) = 0) (h : EntryMapped env d hint z i e b d' h') :
    (e = 0 → ∃ x, IsData env x ∧ bitSet env d x = false) ∧
      (e = -ENOSPC → ¬ ∃ x, IsData env x ∧ bitSet env d x = false) := by
  cases h with
  | unread => exact ⟨fun he => absurd he (by decide), fun he => absurd he (by decide)⟩
  | found hne => exact absurd h0 hne
  | error _ hb hne => exact ⟨fun he => absurd he hne, fun he => absurd he (eio_ne_enospc hb.error)⟩
  | nospc _ hb => exact ⟨fun he => absurd he (by decide), fun _ => hb.none_free hh⟩
  | attached _ hb ha hs =>
    exact ⟨fun _ => hb.one_free hg hh ha, fun he => absurd he (eio_ne_enospc hs.error)⟩

/-- A hole is filled when the blocks it takes are free, and -ENOSPC says that they are not. -/
theorem Mapped.room (hg : env.info.Sound) (hh : HintOk env hint) (hhole : bmap d addrs i = 0)
    (h : Mapped env d hint addrs i e b addrs' dirty d' h') :
    (e = 0 → Attachable env d addrs i) ∧ (e = -ENOSPC → ¬ Attachable env d addrs i) := by
  cases h with
  | found hd hne => exact absurd ((bmap_direct hd).symm.trans hhole) hne
  | @direct e b _ _ hd hz hb =>
    rw [attachable_one fun hc => absurd hd (not_lt.mpr hc.1)]
    by_cases hfull : e = 0 ∧ b = 0
    · obtain ⟨rfl, rfl⟩ := hfull
      rw [if_pos ⟨rfl, rfl⟩]
      exact ⟨fun he => absurd he (by decide), fun _ => hb.none_free hh⟩
    · rw [if_neg hfull]
      exact ⟨fun he => hb.one_free hg hh fun hb0 => hfull ⟨he, hb0⟩,
        fun he => absurd he (eio_ne_enospc hb.error)⟩
  | entry hge hne hm =>
    rw [attachable_one fun hc => hne hc.2]
    exact hm.room hg hh ((bmap_entry hge hne).symm.trans hhole)
  | error hge hz hb he =>
    exact ⟨fun h0 => absurd h0 he, fun h0 => absurd h0 (eio_ne_enospc hb.error)⟩
  | nospc hge hz hb =>
    rw [attachable_two ⟨hge, hz⟩]
    refine ⟨fun he => absurd he (by decide), fun _ ⟨x, _, _, hx, _, hfree, _⟩ => ?_⟩
    exact hb.none_free hh ⟨x, hx, hfree⟩
  | indirect hge hz hb ha hm =>
    rw [attachable_two ⟨hge, hz⟩]
    exact ⟨fun he => ((hm.ok_iff hg hh ha hb).1 he).1, (hm.ok_iff hg hh ha hb).2⟩

/-! ## Insertions -/

/-- What an insertion leaves alone, whatever fails. -/
structure Inserting.Keeps (w : World) (A : Nat → Option Addrs) (n : Nat) (addrs : Addrs)
    (nde : Dirent) (addrs' : Addrs) (w' : World) : Prop where
  frame : ∃ l, w' = { w with disk := w'.disk, hint := w'.hint, log := l }
  elsewhere : Elsewhere w.disk A n w'.disk
  entries : SameFile w.disk addrs w'.disk addrs' ∨ ∃ k, SlotSet w.disk addrs k nde w'.disk addrs'

theorem Inserting.keeps {ctx : InodeCtx} (hw : GrowReady w addrs) (ho : Owned w.env w.disk A)
    (hA : A n = some addrs) (h : Inserting w ⟨addrs, size, false⟩ nde e ctx w') :
    Inserting.Keeps w A n addrs nde ctx.addrs w' := by
  cases h with
  | big hr hn hall =>
    obtain ⟨l, rfl⟩ := hr.log
    exact ⟨⟨l, rfl⟩, .refl _ A n, .inl fun _ _ => rfl⟩
  | unmapped hm hm' hbefore hop he =>
    obtain ⟨hsame, helse, -⟩ := hop.effect hw ho hA hm
    exact ⟨hop.frame, helse, .inl hsame⟩
  | unread hm hm' hbefore hop hr he =>
    obtain ⟨hsame, helse, -⟩ := hop.effect hw ho hA hm
    obtain ⟨l, hw₁⟩ := hop.frame
    obtain ⟨l', rfl⟩ := hr.log
    exact ⟨⟨l', by rw [hw₁]⟩, helse, .inl hsame⟩
  | @written k b _ addrs' _ _ _ w₁ _ hk hk' hbefore hop hfree hname hsize hdirty _ hwr =>
    obtain ⟨hsame, helse, -, -, hown⟩ := hop.effect hw ho hA hk
    obtain ⟨hb, hmap, -⟩ := hop.slot hw hk
    obtain ⟨l, hw₁⟩ := hop.frame
    have hself : Function.update A n (some addrs') n = some addrs' := Function.update_self _ _ _
    have hown' := hown (.inl rfl)
    have hst := hwr.stored
    have helse' := Stored.elsewhere hown' hself hk hmap hb hst
    refine ⟨?_, helse.trans helse', ?_⟩
    · obtain ⟨l', f, -, -, -, rfl⟩ := hwr
      rw [hw₁]
      exact ⟨_, rfl⟩
    · rcases (Stored.slot hown' hself hk hmap hb hst).1 with heq | hset
      · rw [heq]
        exact .inl hsame
      · exact .inr ⟨k, hsame.slotSet hset⟩
  | garbage hn hall hop hused hr =>
    obtain ⟨hsame, helse, -⟩ := hop.effect hw ho hA hn
    obtain ⟨l, hw₁⟩ := hop.frame
    obtain ⟨l', rfl⟩ := hr.log
    exact ⟨⟨l', by rw [hw₁]⟩, helse, .inl hsame⟩

/-- The first vacant entry of the directory, the one behind the last included, has a block, or one
    can be taken for it. -/
def Room (env : Env) (d : Disk) (addrs : Addrs) (size : Nat) (vacant : Nat → Prop) : Prop :=
  ∃ k, k ≤ size / 16 ∧ k / NENTS < MAXFILE ∧ (∀ j, j < k → ¬ vacant j) ∧ vacant k ∧
    (bmap d addrs (k / NENTS) ≠ 0 ∨ Attachable env d addrs (k / NENTS))

/-- Entry `k` is not in use. -/
def Unused (d : Disk) (addrs : Addrs) (k : Nat) : Prop := (dslot d addrs k).inum = 0

theorem Attachable.congr
    (h : ∀ x, IsData env x → bitSet env d' x = bitSet env d x) :
    Attachable env d' addrs i ↔ Attachable env d addrs i := by
  unfold Attachable TwoFree
  split
  · constructor <;> rintro ⟨x, y, hne, hx, hy, hbx, hby⟩
    · exact ⟨x, y, hne, hx, hy, (h x hx).symm.trans hbx, (h y hy).symm.trans hby⟩
    · exact ⟨x, y, hne, hx, hy, (h x hx).trans hbx, (h y hy).trans hby⟩
  · constructor <;> rintro ⟨x, hx, hbx⟩
    · exact ⟨x, hx, (h x hx).symm.trans hbx⟩
    · exact ⟨x, hx, (h x hx).trans hbx⟩

theorem Room.congr {vacant vacant' : Nat → Prop}
    (hv : ∀ j, j < MAXFILE * NENTS → (vacant' j ↔ vacant j))
    (hmap : ∀ i, i < MAXFILE → bmap d' addrs i = bmap d addrs i)
    (hbits : ∀ x, IsData env x → bitSet env d' x = bitSet env d x) :
    Room env d' addrs size vacant' ↔ Room env d addrs size vacant := by
  unfold Room
  refine exists_congr fun k => and_congr_right fun _ => and_congr_right fun hk => ?_
  have hlt : ∀ {j}, j ≤ k → j < MAXFILE * NENTS := by
    intro j hj
    simp only [MAXFILE, NENTS] at hk ⊢
    omega
  rw [hmap _ hk, Attachable.congr hbits, hv k (hlt le_rfl)]
  exact and_congr_left fun _ => forall_congr' fun j => imp_congr_right fun hj =>
    not_congr (hv j (hlt hj.le))

/-- The block of a used entry is no hole. -/
theorem bmap_of_used {k : Nat} (h : (dslot d addrs k).inum ≠ 0) : bmap d addrs (k / NENTS) ≠ 0 := by
  intro hhole
  refine h ?_
  unfold dslot fblock
  rw [if_pos hhole, Block.dirent_zero]
  rfl

/-- In a valid directory an insertion returns 0 exactly when no call fails and there is room. -/
theorem Inserting.ok_iff {ctx : InodeCtx} (hw : GrowReady w addrs) (ho : Owned w.env w.disk A)
    (hA : A n = some addrs) (hv : ValidDir w.disk addrs size)
    (h : Inserting w ⟨addrs, size, false⟩ nde e ctx w') :
    e = 0 ↔ Faultless w w' ∧ Room w.env w.disk addrs size (Unused w.disk addrs) := by
  cases h with
  | big hr hn hall =>
    refine iff_of_false (by decide) ?_
    rintro ⟨-, k, hk, hmax, -, hfree, -⟩
    rcases Nat.lt_or_ge k (size / 16) with hlt | hge
    · exact hall k hlt hfree
    · obtain rfl : k = size / 16 := le_antisymm hk hge
      exact absurd hn (not_le.mpr hmax)
  | @unmapped m b _ addrs' dirty _ hm hm' hbefore hop he =>
    refine iff_of_false he ?_
    rintro ⟨hf, k, hk, hmax, hused, hfree, hhave⟩
    by_cases hhole : bmap w.disk addrs m = 0
    · have hkm : k / NENTS = m := by
        have hle : m * NENTS ≤ k := by
          by_contra hlt
          exact hbefore k (not_le.mp hlt) hfree
        rcases Nat.eq_or_lt_of_le hle with heq | hlt
        · rw [← heq, Nat.mul_div_cancel _ (by decide)]
        · have hfirst := bmap_of_used (hused (m * NENTS) hlt)
          rw [Nat.mul_div_cancel _ (by decide)] at hfirst
          exact absurd hhole hfirst
      rw [hkm] at hhave
      have hno := (hop.mapped.room hw.sound hw.hint hhole).2
        ((hop.faultless.mp hf).resolve_left he)
      exact hhave.elim (fun hne => hne hhole) hno
    · exact he ((hop.reads hhole).error.mpr hf)
  | unread hm hm' hbefore hop hr he =>
    refine iff_of_false he fun hc => ?_
    obtain ⟨es, hes, -⟩ := hr.reads
    exact he (hr.error.mpr (hop.faultless_after ⟨es, hes⟩ hc.1))
  | @written k b _ addrs' dirty _ _ w₁ _ hk hk' hbefore hop hfree hname hsize hdirty _ hwr =>
    constructor
    · intro h0
      obtain ⟨es, hes, -⟩ := hop.le.2
      have hf : Faultless w w' :=
        (World.along_append ⟨es, hes⟩ hwr.log).mpr ⟨hop.faultless.mpr (.inl rfl),
          hwr.error.mp h0⟩
      have hmax : k < MAXFILE * NENTS := by
        simp only [MAXFILE, NENTS] at hk ⊢
        omega
      have hslot := (hop.slot hw hk).2.2
      rw [(hop.effect hw ho hA hk).1.slots hmax] at hslot
      have hunused : Unused w.disk addrs k := by
        unfold Unused
        rw [hslot]
        exact hfree
      refine ⟨hf, k, hk', hk, hbefore, hunused, ?_⟩
      by_cases hhole : bmap w.disk addrs (k / NENTS) = 0
      · exact .inr ((hop.mapped.room hw.sound hw.hint hhole).1 rfl)
      · exact .inl hhole
    · rintro ⟨hf, -⟩
      exact hwr.error.mpr (hop.faultless_after hwr.log hf)
  | garbage hn hall hop hused hr =>
    -- every entry behind the last is unused
    have hend : size / 16 < MAXFILE * NENTS := by
      simp only [MAXFILE, NENTS] at hn ⊢
      omega
    have hslot := (hop.slot hw hn).2.2
    rw [(hop.effect hw ho hA hn).1.slots hend] at hslot
    rw [← hslot] at hused
    exact absurd (hv.past _ le_rfl hend).1 hused

end

end Xv6fs
