/-
  Which file blocks are to be had.

  `xv6_balloc` gives a block when the searches it makes end and one of them finds a clear bit;
  a lookup behind an indirect block that is missing needs two in a row (`CanTake`). So whether
  file block `i` is to be had is a matter of the disk and the hint (`BlockAvailable`): a lookup
  that succeeds tells that it is, whatever fails later (`available_of_wblock`), and when it is and
  no call fails the lookup succeeds (`wblock_of_available`). When every call fails it reports an
  error (`wblock_lost`).
-/
import Xv6fs.Balloc.Termination
import Xv6fs.File.Access
import Xv6fs.Fs.Attach
import Xv6fs.Inode.Local

namespace Xv6fs

/-- The state with another pattern of failures and another number of rounds granted. -/
def World.under (w : World) (io : Nat → Fate) (fuel : Nat) : World :=
  { w with env := { w.env with io := io, fuel := fuel } }

/-- `n` blocks can be taken one after the other when no call fails. -/
def CanTake : Nat → World → Prop
  | 0, _ => True
  | n + 1, w => w.env.rdonly = false ∧ SearchOk w ∧ ∃ a, FirstFree w.env w.disk w.hint a ∧
      CanTake n { w with disk := handOut w.env w.disk a, hint := wrap w.env (a + 1) }

/-- The blocks that a lookup of block `i` takes when it is a hole. -/
def blocksTaken (addrs : Addrs) (i : Nat) : Nat :=
  if i < NDIRECT ∨ addrs.get NDIRECT ≠ 0 then 1 else 2

/-- Block `i` of the file at `p` is there, or can be attached. -/
def BlockAvailable (w : World) (p : Ptr) (i : Nat) : Prop :=
  i < MAXFILE ∧ (bmap w.disk (w.addrs p) i ≠ 0 ∨ CanTake (blocksTaken (w.addrs p) i) w)

section

variable {w w' : World} {p : Ptr} {n i b blk : Nat} {e : Int} {ctx ctx' : InodeCtx}
  {A : Nat → Option Addrs} {addrs : Addrs}

/-! ## The allocator -/

theorem FirstClear.congr {env env' : Env} {d : Disk} {s a : Nat} (h : FirstClear env d s a)
    (hbit : ∀ x, bitSet env' d x = bitSet env d x) : FirstClear env' d s a :=
  ⟨h.le, (hbit a).trans h.clear, fun x hx hlt => (hbit x).trans (h.before x hx hlt)⟩

theorem FirstFree.congr {env env' : Env} {d : Disk} {hint a : Nat} (h : FirstFree env d hint a)
    (hinfo : env'.info = env.info) (hbit : ∀ x, bitSet env' d x = bitSet env d x) :
    FirstFree env' d hint a := by
  unfold FirstFree
  rw [hinfo]
  rcases h with ⟨h, hlt⟩ | ⟨hset, h, hlt⟩
  · exact .inl ⟨h.congr hbit, hlt⟩
  · exact .inr ⟨fun x hx hx' => (hbit x).trans (hset x hx hx'), h.congr hbit, hlt⟩

/-- Neither the pattern of failures nor the history matters. -/
theorem canTake_congr (io : Nat → Fate) (fuel : Nat) (l : List Event) :
    ∀ n (w : World), CanTake n { w.under io fuel with log := l } ↔ CanTake n w
  | 0, _ => Iff.rfl
  | n + 1, w => and_congr Iff.rfl <| and_congr Iff.rfl <| exists_congr fun a =>
      and_congr ⟨fun h => h.congr rfl fun _ => rfl, fun h => h.congr rfl fun _ => rfl⟩ <|
        canTake_congr io fuel l n
          { w with disk := handOut w.env w.disk a, hint := wrap w.env (a + 1) }

theorem canTake_logs (l : List Event) : CanTake n { w with log := l } ↔ CanTake n w :=
  canTake_congr w.env.io w.env.fuel l n w

theorem FirstClear.unique {env : Env} {d : Disk} {s a a' : Nat} (h : FirstClear env d s a)
    (h' : FirstClear env d s a') : a = a' := by
  rcases lt_trichotomy a a' with hlt | heq | hlt
  · exact absurd (h.clear.symm.trans (h'.before a h.le hlt)) (by decide)
  · exact heq
  · exact absurd (h'.clear.symm.trans (h.before a' h'.le hlt)) (by decide)

theorem FirstFree.unique {env : Env} {d : Disk} {hint a a' : Nat} (h : FirstFree env d hint a)
    (h' : FirstFree env d hint a') : a = a' := by
  rcases h with ⟨h, -, hlt⟩ | ⟨hset, h, -⟩ <;> rcases h' with ⟨h', -, hlt'⟩ | ⟨hset', h', -⟩
  · exact h.unique h'
  · exact absurd (h.clear.symm.trans (hset' a h.le hlt)) (by decide)
  · exact absurd (h'.clear.symm.trans (hset a' h'.le hlt')) (by decide)
  · exact h.unique h'

theorem FirstFree.isData {env : Env} {d : Disk} {hint a : Nat} (hh : HintOk env hint)
    (h : FirstFree env d hint a) : IsData env a :=
  (InSearch.isData hh.1 hh.2).mp h.inSearch

/-- A call that gives a block makes searches that end, and the block is the first free one. -/
theorem canTake_of_balloc (hg : w.env.info.Sound) (hh : HintOk w.env w.hint)
    (h : Returns (xv6Balloc blk) w (0, b) w') (hb : b ≠ 0) :
    FirstFree w.env w.disk w.hint b ∧ w'.env = w.env ∧ w'.disk = handOut w.env w.disk b ∧
      HintOk w.env w'.hint ∧ ∀ n, CanTake n w' ↔ CanTake (n + 1) w := by
  have hrw : w.env.rdonly = false := by
    cases hro : w.env.rdonly with
    | false => rfl
    | true =>
      have hzero : (0 : Int) = -EROFS := congrArg Prod.fst (xv6Balloc_rdonly hro h).1
      exact absurd hzero (by decide)
  obtain ⟨l, d, hint, hw, he, hball⟩ := xv6Balloc_spec hrw hg.size_lt hh.2 h
  have hok : SearchOk w := by
    -- the same run on a disk on which nothing fails later either
    have hcalm := local_balloc blk w _ _ (fun _ => .ok) (returns_iff.mp h)
      (Faultless.replays (he.mp rfl) fun _ _ => rfl)
    exact searchOk_of_returns (w := w.withIo fun _ => .ok) (n := w.env.fuel) hrw hg.size_lt hh.2
      (fun _ _ => rfl) (returns_iff.mpr hcalm)
  obtain ⟨hfirst, hd, hhint⟩ : FirstFree w.env w.disk w.hint b ∧ d = handOut w.env w.disk b ∧
      hint = wrap w.env (b + 1) := by
    clear hw he
    generalize he0 : (0 : Int) = e at hball
    cases hball with
    | unread => exact absurd he0 (by decide)
    | full => exact absurd rfl hb
    | claimed a ha hpos hc =>
      cases hc with
      | unzeroed => exact absurd he0 (by decide)
      | unmarked => exact absurd he0 (by decide)
      | marked =>
        have hlt := (ha.isData hh).2
        have hsize := hg.size_lt
        rw [Nat.mod_eq_of_lt (by omega)]
        exact ⟨ha, rfl, rfl⟩
  have hge : w.env.info.dataStart ≤ b + 1 := le_trans (hfirst.isData hh).1 (Nat.le_succ b)
  subst hw hd hhint
  refine ⟨hfirst, rfl, rfl, hg.wrap_mem hge, fun n => ?_⟩
  refine (canTake_logs (w := { w with
    disk := handOut w.env w.disk b
    hint := wrap w.env (b + 1) }) l).trans ?_
  constructor
  · intro hn
    exact ⟨hrw, hok, b, hfirst, hn⟩
  · rintro ⟨-, -, a, ha, hn⟩
    rwa [ha.unique hfirst] at hn

/-- When no call fails, the next block that can be taken is given. -/
theorem balloc_of_canTake (blk : Nat) (hq : Quiet w.env) (hfuel : w.env.fuel = 1)
    (hg : w.env.info.Sound) (hh : HintOk w.env w.hint) (h : CanTake (n + 1) w) :
    ∃ b w', Returns (xv6Balloc blk) w (0, b) w' ∧ b ≠ 0 := by
  obtain ⟨hrw, hok, a, ha, -⟩ := h
  obtain ⟨r, w', hret⟩ := returns_of_searchOk blk hrw hg.size_lt
    (lt_of_le_of_lt hh.2 hg.size_lt) hok
  have hone : w.withFuel 1 = w := by
    unfold World.withFuel
    rw [← hfuel]
  rw [hone] at hret
  rcases balloc_faultless hrw hg hh.1 hh.2 hret (hret.faultless hq) with
    ⟨-, -, hset⟩ | ⟨b, -, -, rfl, hb, -⟩
  · exact absurd (ha.clear.symm.trans (hset a (ha.isData hh))) (by decide)
  · exact ⟨b, w', hret, hb⟩

/-! ## Lookups -/

theorem available_of_indirect (hg : w.env.info.Sound) (hh : HintOk w.env w.hint)
    (h : Returns (xv6InodeAddr.indirect modcheck ctx i true) w (0, b, ctx') w') :
    (w.disk (ctx.addrs.get NDIRECT)).u32 i ≠ 0 ∨ CanTake 1 w := by
  by_cases hz : (w.disk (ctx.addrs.get NDIRECT)).u32 i = 0
  · right
    simp only [xv6InodeAddr.indirect, modcheck] at h
    obtain ⟨l, hle, ⟨-, h⟩ | ⟨-, h⟩⟩ := sbBread_cases h
    · exact absurd (congrArg Prod.fst h.pure.1) (show - EIO ≠ (0 : Int) by decide)
    simp only [runs_bind_bdata, hz, Bool.not_true, Bool.false_eq_true, if_true, if_false] at h
    obtain ⟨⟨e₁, a⟩, w₁, halloc, h⟩ := h.bind
    rcases h.ite with ⟨hne, h⟩ | ⟨heq, h⟩
    · exact absurd (congrArg Prod.fst h.pure.1) hne
    obtain rfl : e₁ = 0 := not_not.mp heq
    rcases h.ite with ⟨-, h⟩ | ⟨ha, -⟩
    · exact absurd (congrArg Prod.fst h.pure.1) (show -ENOSPC ≠ (0 : Int) by decide)
    obtain ⟨-, -, -, -, htake⟩ := canTake_of_balloc (by exact hg) (by exact hh) halloc ha
    exact (canTake_logs l).mp ((htake 0).mp trivial)
  · exact .inl hz

theorem available_of_inodeAddr (hg : w.env.info.Sound) (hh : HintOk w.env w.hint)
    (h : Returns (xv6InodeAddr modcheck ctx i true) w (0, b, ctx') w') (hb : b ≠ 0) :
    i < MAXFILE ∧ (bmap w.disk ctx.addrs i ≠ 0 ∨ CanTake (blocksTaken ctx.addrs i) w) := by
  by_cases hi : i < MAXFILE
  · refine ⟨hi, ?_⟩
    simp only [xv6InodeAddr, if_neg (not_le.mpr hi), and_true, Bool.not_true, Bool.false_eq_true,
      if_false] at h
    by_cases hd : i < NDIRECT
    · rw [if_pos hd] at h
      rw [bmap_direct hd, blocksTaken, if_pos (.inl hd)]
      rcases h.ite with ⟨hz, h⟩ | ⟨hne, -⟩
      · right
        obtain ⟨⟨e₁, a⟩, w₁, halloc, h⟩ := h.bind
        obtain ⟨hres, -⟩ := h.pure
        have he := congrArg Prod.fst hres
        obtain rfl : a = b := congrArg (fun r => r.2.1) hres
        obtain rfl : e₁ = 0 := by
          by_contra hne
          exact hne ((if_neg fun hc => hne hc.1).symm.trans he)
        obtain ⟨-, -, -, -, htake⟩ := canTake_of_balloc hg hh halloc hb
        exact (htake 0).mp trivial
      · exact .inl hne
    · rw [if_neg hd] at h
      have hge := not_lt.mp hd
      rcases h.ite with ⟨hz, h⟩ | ⟨hne, h⟩
      · right
        rw [blocksTaken, if_neg (by simp [hd, hz])]
        obtain ⟨⟨e₁, a⟩, w₁, halloc, h⟩ := h.bind
        rcases h.ite with ⟨hne, h⟩ | ⟨heq, h⟩
        · exact absurd (congrArg Prod.fst h.pure.1) hne
        obtain rfl : e₁ = 0 := not_not.mp heq
        rcases h.ite with ⟨-, h⟩ | ⟨ha, h⟩
        · exact absurd (congrArg Prod.fst h.pure.1) (show -ENOSPC ≠ (0 : Int) by decide)
        obtain ⟨hfirst, henv, hdisk, hhint, htake⟩ := canTake_of_balloc hg hh halloc ha
        refine (htake 1).mp ?_
        have hsecond := available_of_indirect (by rw [henv]; exact hg) (by rw [henv]; exact hhint) h
        refine hsecond.resolve_left fun hne => hne ?_
        -- the indirect block is new and all zero
        have hself : Addrs.get (ctx.addrs.set NDIRECT a) NDIRECT = a := Addrs.get_set_self _
        dsimp only
        have hdata := hfirst.isData hh
        rw [hself, hdisk, handOut_block hg _ hdata (.inr hdata.1), if_pos rfl]
        exact Block.u32_zero _
      · rw [bmap_entry hge hne, blocksTaken, if_pos (.inr hne)]
        have hentry := available_of_indirect hg hh h
        exact hentry
  · exact absurd (xv6InodeAddr_big (not_lt.mp hi) h).1 (by decide)

theorem indirect_of_available (ctx : InodeCtx) (hq : Quiet w.env) (hfuel : w.env.fuel = 1)
    (hg : w.env.info.Sound) (hh : HintOk w.env w.hint)
    (h : (w.disk (ctx.addrs.get NDIRECT)).u32 i ≠ 0 ∨ CanTake 1 w) :
    ∃ b ctx' w', Returns (xv6InodeAddr.indirect modcheck ctx i true) w (0, b, ctx') w' ∧ b ≠ 0 := by
  simp only [xv6InodeAddr.indirect, modcheck, Returns, quiet_bind_sbBread hq, true_and,
    Bool.not_true, Bool.false_eq_true, if_false, runs_bind_bdata]
  generalize hl : w.logged (.bread (ctx.addrs.get NDIRECT) .ok) = w₀
  have henv₀ : w₀.env = w.env := by rw [← hl]; rfl
  have hdisk₀ : w₀.disk = w.disk := by rw [← hl]; rfl
  have hhint₀ : w₀.hint = w.hint := by rw [← hl]; rfl
  rw [hdisk₀]
  by_cases hz : (w.disk (ctx.addrs.get NDIRECT)).u32 i = 0
  · have htake : CanTake 1 w₀ := by
      rw [← hl]
      exact (canTake_logs _).mpr (h.resolve_left (not_not_intro hz))
    obtain ⟨b, w₁, hret, hb⟩ := balloc_of_canTake 0 (henv₀ ▸ hq) (henv₀ ▸ hfuel) (henv₀ ▸ hg)
      (by rw [henv₀, hhint₀]; exact hh) htake
    have hq₁ : Quiet w₁.env := by
      rw [hret.env_eq, henv₀]
      exact hq
    obtain ⟨w₂, hsync⟩ : ∃ w₂, Returns (syncBuffer (ctx.addrs.get NDIRECT)
        ((w₁.disk (ctx.addrs.get NDIRECT)).setU32 i b)) w₁ 0 w₂ :=
      ⟨_, (quiet_syncBuffer hq₁).mpr ⟨trivial, rfl, rfl⟩⟩
    rw [if_pos hz, hz]
    refine ⟨b, ctx, w₂, (returns_bind hret).mpr ?_, hb⟩
    simp only [ne_eq, not_true_eq_false, if_false, hb, runs_bind_bdata]
    exact (returns_bind hsync).mpr ((Prog.via_pure _ _ _ _).mpr ⟨rfl, rfl⟩)
  · refine ⟨_, ctx, w₀, ?_, hz⟩
    rw [if_neg hz]
    exact (Prog.via_pure _ _ _ _).mpr ⟨rfl, rfl⟩

theorem inodeAddr_of_available (ctx : InodeCtx) (hq : Quiet w.env) (hfuel : w.env.fuel = 1)
    (hg : w.env.info.Sound) (hh : HintOk w.env w.hint) (hi : i < MAXFILE)
    (h : bmap w.disk ctx.addrs i ≠ 0 ∨ CanTake (blocksTaken ctx.addrs i) w) :
    ∃ b ctx' w', Returns (xv6InodeAddr modcheck ctx i true) w (0, b, ctx') w' ∧ b ≠ 0 := by
  simp only [xv6InodeAddr, if_neg (not_le.mpr hi), and_true, Bool.not_true, Bool.false_eq_true,
    if_false]
  by_cases hd : i < NDIRECT
  · rw [if_pos hd]
    rw [bmap_direct hd, blocksTaken, if_pos (.inl hd)] at h
    by_cases hz : ctx.addrs.get i = 0
    · rw [if_pos hz]
      obtain ⟨b, w₁, hret, hb⟩ := balloc_of_canTake (ctx.addrs.get i) hq hfuel hg hh
        (h.resolve_left (not_not_intro hz))
      refine ⟨b, ⟨ctx.addrs.set i b, ctx.size, true⟩, w₁, (returns_bind hret).mpr
        ((Prog.via_pure _ _ _ _).mpr ⟨?_, rfl⟩), hb⟩
      rw [if_neg fun hc => hb hc.2]
    · rw [if_neg hz]
      exact ⟨_, _, w, (Prog.via_pure _ _ _ _).mpr ⟨rfl, rfl⟩, hz⟩
  · rw [if_neg hd]
    have hge := not_lt.mp hd
    by_cases hz : ctx.addrs.get NDIRECT = 0
    · rw [bmap_hole hge hz, blocksTaken, if_neg (by simp [hd, hz])] at h
      rw [if_pos hz]
      have htwo := h.resolve_left (not_not_intro rfl)
      obtain ⟨a, w₁, hret, ha⟩ := balloc_of_canTake (ctx.addrs.get NDIRECT) hq hfuel hg hh htwo
      obtain ⟨-, henv, -, hhint, htake⟩ := canTake_of_balloc hg hh hret ha
      obtain ⟨b, ctx', w', hsub, hb⟩ := indirect_of_available (i := i - NDIRECT) (w := w₁)
        ⟨ctx.addrs.set NDIRECT a, ctx.size, true⟩ (henv ▸ hq) (henv ▸ hfuel) (henv ▸ hg)
        (by rw [henv]; exact hhint) (.inr ((htake 1).mpr htwo))
      refine ⟨b, ctx', w', (returns_bind hret).mpr ?_, hb⟩
      simp only [ne_eq, not_true_eq_false, if_false, ha]
      exact hsub
    · rw [bmap_entry hge hz, blocksTaken, if_pos (.inr hz)] at h
      rw [if_neg hz]
      exact indirect_of_available ⟨ctx.addrs, ctx.size, false⟩ hq hfuel hg hh h

/-! ## The whole call -/

/-- A lookup that succeeds tells that the block was to be had. -/
theorem available_of_wblock {bh : Option Nat} (hr : FileReady w p n A addrs)
    (h : Returns (xv6InodeWblock p i) w (0, bh) w') : BlockAvailable w p i := by
  obtain ⟨e₁, b, ctx, w₁, haddr, hends⟩ := inodeWblock_ends hr.priv h
  have haddrs := World.addrs_of_priv hr.priv
  have had : ∀ {e}, e = (0 : Int) → WblockEnds w p ctx w₁ e₁ b e bh w' → e₁ = 0 ∧ b ≠ 0 := by
    intro e he hends
    cases hends with
    | failed hne => exact absurd he hne
    | hole => exact absurd he (by decide)
    | unread => exact absurd he (by decide)
    | opened hb => exact ⟨rfl, hb⟩
  obtain ⟨rfl, hb⟩ := had rfl hends
  unfold BlockAvailable
  rw [haddrs]
  exact available_of_inodeAddr hr.sound hr.hint haddr hb

theorem ictxDirty_cached (ctx : InodeCtx) (h : (w.inodes p).priv = some addrs) :
    ∃ w', Returns (xv6IctxDirty p ctx) w 0 w' := by
  unfold xv6IctxDirty
  cases hd : ctx.dirty with
  | false => exact ⟨w, (Prog.via_pure _ _ _ _).mpr ⟨rfl, rfl⟩⟩
  | true =>
    simp only [Bool.not_true, Bool.false_eq_true, if_false, markInodeDirty, runs_bind_modifyInode,
      runs_bind_getInode, Function.update_self, h]
    exact ⟨_, (Prog.via_pure _ _ _ _).mpr ⟨rfl, rfl⟩⟩

/-- When it is to be had and no call fails, the lookup succeeds. -/
theorem wblock_of_available (hr : FileReady w p n A addrs) (hq : Quiet w.env)
    (hfuel : w.env.fuel = 1) (h : BlockAvailable w p i) :
    ∃ b w', Returns (xv6InodeWblock p i) w (0, some b) w' := by
  obtain ⟨hi, hhad⟩ := h
  rw [World.addrs_of_priv hr.priv] at hhad
  obtain ⟨b, ctx', w₁, haddr, hb⟩ := inodeAddr_of_available
    ⟨addrs, (w.inodes p).size % 2 ^ 32, false⟩ hq hfuel hr.sound hr.hint hi hhad
  have hinit : Returns (xv6InitIctx p) w (0, ⟨addrs, (w.inodes p).size % 2 ^ 32, false⟩) w := by
    simp [Returns, xv6InitIctx, hr.priv]
  obtain ⟨w₂, hw₂⟩ : ∃ w₂, w₂ = w₁.setInode p
      { w₁.inodes p with priv := (w₁.inodes p).priv.map fun _ => ctx'.addrs } := ⟨_, rfl⟩
  have hback : Returns (ctx'.writeBack p) w₁ () w₂ := (runs_modifyInode _ _ _ _ _).mpr hw₂
  have hq₂ : Quiet w₂.env := by
    rw [hback.env_eq, haddr.env_eq]
    exact hq
  have hpriv : ((w₂.logged (.bread b .ok)).inodes p).priv = some ctx'.addrs := by
    have hin : w₁.inodes = w.inodes := inodeAddr_inodes haddr
    rw [hw₂, hin, hr.priv]
    exact congrArg Inode.priv (World.setInode_self _ _ _)
  obtain ⟨w', hdirty⟩ := ictxDirty_cached ctx' hpriv
  have hread : Returns (sbBread b) w₂ true (w₂.logged (.bread b .ok)) := by
    simp [hq₂ _]
  refine ⟨b, w', (returns_bind hinit).mpr ?_⟩
  simp only [ne_eq, not_true_eq_false, if_false]
  refine (returns_bind haddr).mpr ((returns_bind hback).mpr ?_)
  simp only [not_true_eq_false, if_false, hb]
  refine (returns_bind hread).mpr ?_
  simp only [Bool.not_true, Bool.false_eq_true, if_false]
  exact (returns_bind hdirty).mpr ((Prog.via_pure _ _ _ _).mpr ⟨rfl, rfl⟩)

/-! ## A disk on which everything fails -/

theorem indirect_lost (hio : w.env.io w.log.length = .lost) :
    ∃ r w', Returns (xv6InodeAddr.indirect modcheck ctx i true) w r w' := by
  have hread : Returns (sbBread (ctx.addrs.get NDIRECT)) w false
      (w.logged (.bread (ctx.addrs.get NDIRECT) .lost)) := by
    simp [hio]
  exact returns_bind_exists hread ⟨_, _, (Prog.via_pure _ _ _ _).mpr ⟨rfl, rfl⟩⟩

theorem inodeAddr_lost (ctx : InodeCtx) (hio : ∀ k, w.env.io k = .lost)
    (h : ∃ r w', Returns (xv6Balloc 0) w r w') :
    ∃ r w', Returns (xv6InodeAddr modcheck ctx i true) w r w' := by
  obtain ⟨⟨e, a⟩, w₁, halloc⟩ := h
  unfold xv6InodeAddr
  by_cases hbig : i ≥ MAXFILE
  · rw [if_pos hbig]
    exact ⟨_, w, (Prog.via_pure _ _ _ _).mpr ⟨rfl, rfl⟩⟩
  simp only [if_neg hbig, and_true, Bool.not_true, Bool.false_eq_true, if_false]
  by_cases hd : i < NDIRECT
  · rw [if_pos hd]
    by_cases hz : ctx.addrs.get i = 0
    · rw [if_pos hz, hz]
      exact returns_bind_exists halloc ⟨_, _, (Prog.via_pure _ _ _ _).mpr ⟨rfl, rfl⟩⟩
    · rw [if_neg hz]
      exact ⟨_, w, (Prog.via_pure _ _ _ _).mpr ⟨rfl, rfl⟩⟩
  · rw [if_neg hd]
    by_cases hz : ctx.addrs.get NDIRECT = 0
    · rw [if_pos hz, hz]
      refine returns_bind_exists halloc ?_
      split
      · exact ⟨_, w₁, (Prog.via_pure _ _ _ _).mpr ⟨rfl, rfl⟩⟩
      split
      · exact ⟨_, w₁, (Prog.via_pure _ _ _ _).mpr ⟨rfl, rfl⟩⟩
      · exact indirect_lost (by rw [halloc.env_eq]; exact hio _)
    · rw [if_neg hz]
      exact indirect_lost (hio _)

theorem wblock_error (hio : ∀ k, w.env.io k = .lost) (hpriv : (w.inodes p).priv = some addrs)
    (h : ∃ r w', Returns (xv6Balloc 0) w r w') (i : Nat) :
    ∃ e bh w', Returns (xv6InodeWblock p i) w (e, bh) w' ∧ e ≠ 0 := by
  obtain ⟨⟨e, b, ctx'⟩, w₁, haddr⟩ := inodeAddr_lost (i := i)
    ⟨addrs, (w.inodes p).size % 2 ^ 32, false⟩ hio h
  have hinit : Returns (xv6InitIctx p) w (0, ⟨addrs, (w.inodes p).size % 2 ^ 32, false⟩) w := by
    simp [Returns, xv6InitIctx, hpriv]
  obtain ⟨w₂, hback⟩ : ∃ w₂, Returns (ctx'.writeBack p) w₁ () w₂ :=
    ⟨_, (runs_modifyInode _ _ _ _ _).mpr rfl⟩
  have hread : Returns (sbBread b) w₂ false (w₂.logged (.bread b .lost)) := by
    have hhere : w₂.env.io w₂.log.length = .lost := by
      rw [hback.env_eq, haddr.env_eq]
      exact hio _
    simp [hhere]
  have hstart : ∀ (e' : Int) (w' : World), e' ≠ 0 →
      Returns (do
        if e ≠ 0 then
          return (e, none)
        if b = 0 then
          return (-ENOSPC, none)
        if !(← sbBread b) then
          return (- EIO, none)
        let error ← xv6IctxDirty p ctx'
        return (error, some b)) w₂ (e', none) w' →
      ∃ e bh w', Returns (xv6InodeWblock p i) w (e, bh) w' ∧ e ≠ 0 := by
    intro e' w' he' h
    refine ⟨e', none, w', (returns_bind hinit).mpr ?_, he'⟩
    simp only [ne_eq, not_true_eq_false, if_false]
    exact (returns_bind haddr).mpr ((returns_bind hback).mpr h)
  by_cases he : e = 0
  · by_cases hb : b = 0
    · refine hstart (-ENOSPC) w₂ (by decide) ?_
      rw [if_neg (not_not_intro he), if_pos hb]
      exact (Prog.via_pure _ _ _ _).mpr ⟨rfl, rfl⟩
    · refine hstart (- EIO) (w₂.logged (.bread b .lost)) (by decide) ?_
      rw [if_neg (not_not_intro he), if_neg hb]
      exact (returns_bind hread).mpr ((Prog.via_pure _ _ _ _).mpr ⟨rfl, rfl⟩)
  · refine hstart e w₂ he ?_
    rw [if_pos he]
    exact (Prog.via_pure _ _ _ _).mpr ⟨rfl, rfl⟩

/-- The lookup reports an error. -/
theorem wblock_lost (hr : FileReady w p n A addrs) (i : Nat) :
    ∃ fuel e bh w', Returns (xv6InodeWblock p i) (w.under (fun _ => .lost) fuel) (e, bh) w' ∧
      e ≠ 0 := by
  obtain ⟨fuel, hball⟩ := (balloc_terminates_iff (w.withIo fun _ => .lost) 0 hr.sound.size_lt
    hr.hint.2).mpr (.inr (.inl ⟨w.log.length, le_refl _, show Fate.lost ≠ .ok by decide⟩))
  exact ⟨fuel, wblock_error (w := w.under (fun _ => .lost) fuel) (fun _ => rfl) hr.priv hball i⟩

end

end Xv6fs
