/-
  Clearing an inode.

  `xv6_inode_clear` walks the addresses and frees each block it finds: the direct blocks, the
  entries of the indirect block, and the indirect block itself. On a writable disk without I/O
  errors these are the blocks that the inode owns, wherever the holes are and whether the addresses
  are in core or read from the slot (`inodeClear_frees`).
-/
import Xv6fs.Fs.Gains
import Xv6fs.Inode.Twins

namespace Xv6fs

/-- The bits of the blocks of `P` have been cleared, and nothing else on the disk has changed. -/
structure Frees (env : Env) (d : Disk) (P : Nat → Prop) (d' : Disk) : Prop where
  bits : ∀ x, InBitmap env x → (bitSet env d' x = true ↔ bitSet env d x = true ∧ ¬ P x)
  blocks : ∀ x, x < env.info.bmapstart ∨ env.info.dataStart ≤ x → d' x = d x

/-- The blocks named by `f` from `i` on, `n` of them. -/
def Listed (f : Nat → Nat) (i n x : Nat) : Prop := x ≠ 0 ∧ ∃ k, i ≤ k ∧ k < i + n ∧ f k = x

section

variable {env : Env} {d d' d'' : Disk} {P Q : Nat → Prop} {f : Nat → Nat} {i n x : Nat}

namespace Frees

theorem refl (h : ∀ x, ¬ P x) : Frees env d P d :=
  ⟨fun x _ => ⟨fun hx => ⟨hx, h x⟩, And.left⟩, fun _ _ => rfl⟩

theorem congr (h : Frees env d P d') (hpq : ∀ x, P x ↔ Q x) : Frees env d Q d' :=
  ⟨fun x hx => by rw [h.bits x hx, hpq], h.blocks⟩

theorem trans (h : Frees env d P d') (h' : Frees env d' Q d'') :
    Frees env d (fun x => P x ∨ Q x) d'' where
  bits x hx := by rw [h'.bits x hx, h.bits x hx, not_or, and_assoc]
  blocks x hx := (h'.blocks x hx).trans (h.blocks x hx)

theorem data (h : Frees env d P d') (hx : IsData env x) : d' x = d x := h.blocks x (.inr hx.1)

end Frees

theorem not_listed_zero : ¬ Listed f i 0 x := by
  rintro ⟨-, k, hk, hk', -⟩
  omega

theorem listed_succ : Listed f i (n + 1) x ↔ (x ≠ 0 ∧ x = f i) ∨ Listed f (i + 1) n x := by
  constructor
  · rintro ⟨hx, k, hk, hk', rfl⟩
    rcases Nat.eq_or_lt_of_le hk with rfl | hlt
    · exact .inl ⟨hx, rfl⟩
    · exact .inr ⟨hx, k, hlt, by omega, rfl⟩
  · rintro (⟨hx, rfl⟩ | ⟨hx, k, hk, hk', rfl⟩)
    · exact ⟨hx, i, le_rfl, by omega, rfl⟩
    · exact ⟨hx, k, by omega, by omega, rfl⟩

theorem listed_congr {g : Nat → Nat} (h : ∀ k, i ≤ k → k < i + n → f k = g k) :
    Listed f i n x ↔ Listed g i n x := by
  constructor
  · rintro ⟨hx, k, hk, hk', rfl⟩
    exact ⟨hx, k, hk, hk', (h k hk hk').symm⟩
  · rintro ⟨hx, k, hk, hk', rfl⟩
    exact ⟨hx, k, hk, hk', h k hk hk'⟩

end

section

variable {w w' : World} {p : Ptr} {b n : Nat} {A : Nat → Option Addrs}

/-! ## The loops -/

/-- The state in which blocks can be freed. -/
structure FreeReady (w : World) : Prop where
  writable : w.env.rdonly = false
  quiet : Quiet w.env
  sound : w.env.info.Sound

theorem FreeReady.of_env (hr : FreeReady w) (h : w'.env = w.env) : FreeReady w' :=
  ⟨h ▸ hr.writable, h ▸ hr.quiet, h ▸ hr.sound⟩

theorem bfree_frees (hr : FreeReady w) (hb : IsData w.env b) :
    ∃ d l, Returns (xv6Bfree b) w 0 { w with disk := d, log := l } ∧
      Frees w.env w.disk (· = b) d := by
  obtain ⟨w', h⟩ := bfree_returns hr.writable hr.quiet hb
  obtain ⟨-, -, l, rfl⟩ := bfree_faultless hr.writable h (h.faultless hr.quiet)
  refine ⟨_, l, h, fun x hx => ?_, fun x hx => ?_⟩
  · rw [bitSet_bfree hr.sound w.disk hb hx]
    by_cases hxb : x = b <;> simp [hxb]
  · by_cases hset : bitSet w.env w.disk b = true
    · rw [if_pos hset]
      exact markFree_block hr.sound w.disk hb hx
    · rw [if_neg hset]

/-- The loop over the direct blocks. -/
theorem clearDirect_frees : ∀ (n i : Nat) (addrs : Addrs) {w : World}, FreeReady w →
    i + n ≤ NDIRECT → (∀ k, i ≤ k → k < i + n → addrs.get k ≠ 0 → IsData w.env (addrs.get k)) →
    ∃ addrs' d l, Returns (xv6InodeClear.direct n i addrs) w addrs'
        { w with disk := d, log := l } ∧
      Frees w.env w.disk (Listed addrs.get i n) d ∧ addrs'.get NDIRECT = addrs.get NDIRECT
  | 0, _, addrs, w, _, _, _ =>
    ⟨addrs, w.disk, w.log, returns_iff.mpr rfl, .refl fun _ => not_listed_zero, rfl⟩
  | n + 1, i, addrs, w, hr, hi, hdata => by
    unfold xv6InodeClear.direct
    by_cases hz : addrs.get i = 0
    · obtain ⟨addrs', d, l, hrun, hfree, hind⟩ := clearDirect_frees n (i + 1) addrs hr (by omega)
        fun k hk hk' => hdata k (by omega) (by omega)
      refine ⟨addrs', d, l, by rwa [if_neg (not_not.mpr hz)], hfree.congr fun x => ?_, hind⟩
      rw [listed_succ, hz]
      exact ⟨.inr, fun h => h.elim (fun h => absurd h.2 h.1) id⟩
    · have hb := hdata i le_rfl (by omega) hz
      obtain ⟨d₁, l₁, hbfree, hfree₁⟩ := bfree_frees hr hb
      have hset : ∀ k, i + 1 ≤ k → k < 13 → (addrs.set i 0).get k = addrs.get k := fun k hk hk' =>
        addrs.get_set_ne (by unfold NDIRECT at hi; omega) hk' (by omega)
      unfold NDIRECT at hi
      have hr₁ : FreeReady { w with disk := d₁, log := l₁ } := hr.of_env rfl
      obtain ⟨addrs', d, l, hrun, hfree, hind⟩ := clearDirect_frees n (i + 1) (addrs.set i 0)
        hr₁ (by unfold NDIRECT; omega) fun k hk hk' => by
          rw [hset k hk (by omega)]
          exact hdata k (by omega) (by omega)
      refine ⟨addrs', d, l, ?_, (hfree₁.trans hfree).congr fun x => ?_, ?_⟩
      · rw [if_pos hz]
        exact (returns_bind hbfree).mpr hrun
      · rw [listed_succ, listed_congr fun k hk hk' => hset k hk (by omega)]
        exact or_congr_left ⟨fun h => ⟨h ▸ hz, h⟩, And.right⟩
      · exact hind.trans (hset NDIRECT (by unfold NDIRECT; omega) (by decide))

/-- The loop over the entries of the indirect block, which stays as it is. -/
theorem clearEntries_frees {iaddr : Nat} : ∀ (n i : Nat) {w : World}, FreeReady w →
    IsData w.env iaddr →
    (∀ k, i ≤ k → k < i + n → (w.disk iaddr).u32 k ≠ 0 → IsData w.env ((w.disk iaddr).u32 k)) →
    ∃ d l, Returns (xv6InodeClear.entries iaddr n i) w () { w with disk := d, log := l } ∧
      Frees w.env w.disk (Listed (w.disk iaddr).u32 i n) d
  | 0, _, w, _, _, _ => ⟨w.disk, w.log, returns_iff.mpr rfl, .refl fun _ => not_listed_zero⟩
  | n + 1, i, w, hr, hind, hdata => by
    simp only [xv6InodeClear.entries, Returns, runs_bind_bdata]
    by_cases hz : (w.disk iaddr).u32 i = 0
    · obtain ⟨d, l, hrun, hfree⟩ := clearEntries_frees n (i + 1) hr hind
        fun k hk hk' => hdata k (by omega) (by omega)
      refine ⟨d, l, by rwa [if_neg (not_not.mpr hz)], hfree.congr fun x => ?_⟩
      rw [listed_succ, hz]
      exact ⟨.inr, fun h => h.elim (fun h => absurd h.2 h.1) id⟩
    · obtain ⟨d₁, l₁, hbfree, hfree₁⟩ := bfree_frees hr (hdata i le_rfl (by omega) hz)
      have hsame : d₁ iaddr = w.disk iaddr := hfree₁.data hind
      have hr₁ : FreeReady { w with disk := d₁, log := l₁ } := hr.of_env rfl
      obtain ⟨d, l, hrun, hfree⟩ := clearEntries_frees n (i + 1) hr₁ hind
        fun k hk hk' => by
          dsimp only
          rw [hsame]
          exact hdata k (by omega) (by omega)
      dsimp only at hfree
      rw [hsame] at hfree
      refine ⟨d, l, ?_, (hfree₁.trans hfree).congr fun x => ?_⟩
      · rw [if_pos hz]
        exact (returns_bind hbfree).mpr hrun
      · rw [listed_succ]
        exact or_congr_left ⟨fun h => ⟨h ▸ hz, h⟩, And.right⟩

/-! ## The whole inode -/

/-- What an inode owns is what the two loops come across, and the indirect block. -/
theorem owns_iff_listed {d : Disk} {addrs : Addrs} {x : Nat} :
    Owns d addrs x ↔ Listed addrs.get 0 NDIRECT x ∨ addrs.get NDIRECT ≠ 0 ∧
      (Listed (d (addrs.get NDIRECT)).u32 0 NINDIRECT x ∨ x = addrs.get NDIRECT) := by
  constructor
  · rintro ⟨r, hr⟩
    cases r with
    | direct i =>
      by_cases hi : i < NDIRECT
      · rw [ownedAt, if_pos hi, blockNo_eq_some] at hr
        exact .inl ⟨hr.2, i, Nat.zero_le i, by omega, hr.1⟩
      · rw [ownedAt, if_neg hi] at hr
        cases hr
    | indirect =>
      obtain ⟨rfl, hx⟩ := blockNo_eq_some.mp hr
      exact .inr ⟨hx, .inr rfl⟩
    | entry j =>
      by_cases hj : j < NINDIRECT ∧ addrs.get NDIRECT ≠ 0
      · rw [ownedAt, if_pos hj, blockNo_eq_some] at hr
        exact .inr ⟨hj.2, .inl ⟨hr.2, j, Nat.zero_le j, by omega, hr.1⟩⟩
      · rw [ownedAt, if_neg hj] at hr
        cases hr
  · rintro (⟨hx, i, -, hi, rfl⟩ | ⟨hz, ⟨hx, j, -, hj, rfl⟩ | rfl⟩)
    · exact ⟨.direct i, (if_pos (by omega)).trans (blockNo_eq_some.mpr ⟨rfl, hx⟩)⟩
    · exact ⟨.entry j, (if_pos ⟨by omega, hz⟩).trans (blockNo_eq_some.mpr ⟨rfl, hx⟩)⟩
    · exact owns_indirect hz

/-- The last step writes the slot, and no other inode in core is touched. -/
theorem finish_slots (addrs : Addrs) (hq : Quiet w.env) (hrw : w.env.rdonly = false)
    (hino : (w.inodes p).ino ≠ 0) :
    ∃ w' di, Returns (xv6InodeClear.finish p addrs) w 0 w' ∧ w'.env = w.env ∧
      w'.disk = setSlot w.env w.disk (w.inodes p).ino di ∧
      ∀ q, q ≠ p → w'.inodes q = w.inodes q := by
  cases hpriv : (w.inodes p).priv with
  | some B =>
    obtain ⟨w', h, henv, hin, hdisk⟩ := finish_cached (I := w.inodes p) (A := B) addrs hq hino
      (by rw [← hpriv])
    rw [if_neg (by simp [hrw])] at hdisk
    exact ⟨w', _, h, henv, hdisk, fun q hne => by rw [hin, Function.update_of_ne hne]⟩
  | none =>
    obtain ⟨w', h, henv, hin, hdisk⟩ := finish_uncached (I := w.inodes p) addrs hq hino
      (by rw [← hpriv])
    rw [if_neg (by simp [hrw])] at hdisk
    exact ⟨w', _, h, henv, hdisk, fun q hne => by rw [hin, Function.update_of_ne hne]⟩

/-- `xv6_inode_clear` frees the blocks that the inode owns, and writes its slot. -/
theorem inodeClear_frees (hr : FreeReady w) (hino : (w.inodes p).ino ≠ 0)
    (ho : Owned w.env w.disk A) (hA : A n = some (w.addrs p)) :
    ∃ d di w', Returns (xv6InodeClear p) w 0 w' ∧ w'.env = w.env ∧
      Frees w.env w.disk (Owns w.disk (w.addrs p)) d ∧
      w'.disk = setSlot w.env d (w.inodes p).ino di ∧
      ∀ q, q ≠ p → w'.inodes q = w.inodes q := by
  have hdata : ∀ x, Owns w.disk (w.addrs p) x → IsData w.env x := fun x hx =>
    (ho.held_of_owns hA hx).1
  obtain ⟨l₀, hinit⟩ := initIctx_returns hr.quiet hino
  have hr₀ : FreeReady { w with log := l₀ } := hr.of_env rfl
  obtain ⟨addrs₁, d₁, l₁, hdirect, hfree₁, hlast⟩ := clearDirect_frees NDIRECT 0 (w.addrs p)
    hr₀ (by decide) fun k _ hk hz => by
      exact hdata _ (owns_iff_listed.mpr (.inl ⟨hz, k, Nat.zero_le k, hk, rfl⟩))
  dsimp only at hfree₁
  -- the addresses that are left are stored in core, if they are there
  obtain ⟨w₂, hback, hw₂⟩ : ∃ w₂, Returns (InodeCtx.writeBack ⟨addrs₁, 0, false⟩ p)
      { w with disk := d₁, log := l₁ } () w₂ ∧ w₂ = { w with
        disk := d₁
        log := l₁
        inodes := Function.update w.inodes p
          { w.inodes p with priv := (w.inodes p).priv.map fun _ => addrs₁ } } :=
    ⟨_, (runs_modifyInode _ _ _ _ _).mpr rfl, rfl⟩
  have hino₂ : (w₂.inodes p).ino = (w.inodes p).ino := by
    rw [hw₂]
    simp
  have hother₂ : ∀ q, q ≠ p → w₂.inodes q = w.inodes q := fun q hne => by
    rw [hw₂]
    exact Function.update_of_ne hne _ _
  have henv₂ : w₂.env = w.env := by rw [hw₂]
  have hr₂ := hr.of_env henv₂
  have hdisk₂ : w₂.disk = d₁ := by rw [hw₂]
  have hstart : ∀ {e : Int} {w' : World},
      Returns (if addrs₁.get NDIRECT ≠ 0 then do
        if !(← sbBread (addrs₁.get NDIRECT)) then
          return - EIO
        xv6InodeClear.entries (addrs₁.get NDIRECT) NINDIRECT 0
        let _ ← xv6Bfree (addrs₁.get NDIRECT)
        xv6InodeClear.finish p addrs₁
      else xv6InodeClear.finish p addrs₁) w₂ e w' → Returns (xv6InodeClear p) w e w' := by
    intro e w' h
    unfold xv6InodeClear
    refine (returns_bind hinit).mpr ?_
    dsimp only
    rw [if_neg (by simp)]
    exact (returns_bind hdirect).mpr ((returns_bind hback).mpr h)
  by_cases hz : (w.addrs p).get NDIRECT = 0
  · obtain ⟨w', di, hend, henv, hdisk, hother⟩ := finish_slots addrs₁ hr₂.quiet hr₂.writable
      (by rwa [hino₂])
    refine ⟨d₁, di, w', hstart ?_, henv.trans henv₂, hfree₁.congr fun x => ?_, ?_,
      fun q hne => (hother q hne).trans (hother₂ q hne)⟩
    · rw [hlast, if_neg (not_not.mpr hz)]
      exact hend
    · rw [owns_iff_listed]
      exact ⟨.inl, fun h => h.elim id fun h => absurd hz h.1⟩
    · rw [hdisk, hdisk₂, henv₂, hino₂]
  · have hind : IsData w.env ((w.addrs p).get NDIRECT) := hdata _ (owns_indirect hz)
    have hsame : d₁ ((w.addrs p).get NDIRECT) = w.disk ((w.addrs p).get NDIRECT) :=
      hfree₁.data hind
    rw [hlast] at hstart
    -- the entries of the indirect block
    obtain ⟨d₂, l₂, hentries, hfree₂⟩ := clearEntries_frees NINDIRECT 0
      (w := w₂.logged (.bread ((w.addrs p).get NDIRECT) .ok))
      (hr₂.of_env rfl) (henv₂ ▸ hind)
      fun k _ hk hne => by
        have hlist : (w₂.logged (.bread ((w.addrs p).get NDIRECT) .ok)).disk
            ((w.addrs p).get NDIRECT) = w.disk ((w.addrs p).get NDIRECT) :=
          (congrFun hdisk₂ _).trans hsame
        rw [hlist] at hne ⊢
        exact henv₂ ▸ hdata _ (owns_iff_listed.mpr (.inr ⟨hz, .inl ⟨hne, k, Nat.zero_le k, hk,
          rfl⟩⟩))
    have hr₃ : FreeReady { w₂ with disk := d₂, log := l₂ } := hr₂.of_env rfl
    obtain ⟨d₃, l₃, hbfree, hfree₃⟩ := bfree_frees hr₃ (henv₂ ▸ hind)
    obtain ⟨w', di, hend, henv, hdisk, hother⟩ := finish_slots addrs₁
      (w := { w₂ with disk := d₃, log := l₃ }) (p := p) hr₂.quiet hr₂.writable (by rwa [hino₂])
    refine ⟨d₃, di, w', hstart ?_, henv.trans henv₂, ?_, ?_,
      fun q hne => (hother q hne).trans (hother₂ q hne)⟩
    · rw [if_pos hz]
      refine (quiet_bind_sbBread hr₂.quiet).mpr ⟨trivial, ?_⟩
      rw [if_neg (by simp)]
      exact (returns_bind hentries).mpr ((returns_bind hbfree).mpr hend)
    · have hwalk : Frees w.env d₁ (Listed (w.disk ((w.addrs p).get NDIRECT)).u32 0 NINDIRECT)
          d₂ := by
        have h := hfree₂
        change Frees w₂.env w₂.disk (Listed (w₂.disk _).u32 0 NINDIRECT) d₂ at h
        rwa [henv₂, hdisk₂, hsame] at h
      have hlastfree : Frees w.env d₂ (· = (w.addrs p).get NDIRECT) d₃ := henv₂ ▸ hfree₃
      refine ((hfree₁.trans hwalk).trans hlastfree).congr fun x => ?_
      rw [owns_iff_listed, or_assoc]
      exact or_congr_right (and_iff_right hz).symm
    · rw [hdisk, henv₂, hino₂]

end

end Xv6fs
