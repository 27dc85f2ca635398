/-
  Insertions that report success.

  The step behind the last entry looks at bytes that no check has seen: when they are those of a
  live entry, the callback leaves them and the directory grows over them. `insert_real_iff` says
  when a reported insertion is a real one, for cached and uncached directories alike.
-/
import Xv6fs.Dir.Recorded
import Xv6fs.Dir.Map

namespace Xv6fs

section

variable {φ : Event → Prop} {w w₀ w₁ w₂ w' : World} {p : Ptr} {ctx : InodeCtx} {e : Int}

/-! ## The end of a successful call -/

/-- The file reads as before when the blocks behind the inode table do. -/
theorem Owned.sameFile {env : Env} {d d' : Disk} {A : Nat → Option Addrs} {n : Nat} {addrs : Addrs}
    (ho : Owned env d A) (hA : A n = some addrs) (h : ∀ x, IsData env x → d' x = d x) :
    SameFile d addrs d' addrs := by
  intro j hj
  have hmap : bmap d' addrs j = bmap d addrs j := by
    by_cases hlt : j < NDIRECT
    · rw [bmap_direct hlt, bmap_direct hlt]
    · by_cases hz : addrs.get NDIRECT = 0
      · rw [bmap_hole (not_lt.mp hlt) hz, bmap_hole (not_lt.mp hlt) hz]
      · rw [bmap_entry (not_lt.mp hlt) hz, bmap_entry (not_lt.mp hlt) hz,
          h _ (ho.held_indirect hA hz).1]
  unfold fblock
  rw [hmap]
  by_cases hb : bmap d addrs j = 0
  · rw [if_pos hb, if_pos hb]
  · rw [if_neg hb, if_neg hb, h _ (ho.held_bmap hA hj hb).1]

/-- After a context has been stored: its size and addresses are those of the inode, and nothing
    but the slot of the inode is written. -/
structure Settled (w : World) (p : Ptr) (ctx : InodeCtx) (w' : World) : Prop where
  env : w'.env = w.env
  addrs : w'.addrs p = ctx.addrs
  size : (w'.inodes p).size = if ctx.dirty then ctx.size else (w.inodes p).size
  written : w'.disk = w.disk ∨ (w.inodes p).priv = none ∧
    ∃ di, w'.disk = setSlot w.env w.disk (w.inodes p).ino di
  clean : ctx.dirty = false → w'.disk = w.disk
  stored : ctx.dirty = true → (w.inodes p).priv = none →
    (slot w.env w'.disk (w.inodes p).ino).size = UInt32.ofNat ctx.size ∧
      (slot w.env w'.disk (w.inodes p).ino).addr = ctx.addrs

theorem Settled.disk (h : Settled w p ctx w') {b : Nat}
    (hb : (w.inodes p).priv = none → b ≠ inodeBlock w.env (w.inodes p).ino) :
    w'.disk b = w.disk b := by
  rcases h.written with hsame | ⟨hpriv, di, hset⟩
  · rw [hsame]
  · rw [hset]
    exact Function.update_of_ne (hb hpriv) _ _

/-- `w` is the state before the context is stored. -/
theorem store_settled {u : Unit} (hrw : w.env.rdonly = false)
    (hclean : ctx.dirty = false → (w.inodes p).priv = none → ctx.addrs = w.addrs p)
    (hlt : (w.inodes p).priv = none → ∀ k, ctx.addrs k < 2 ^ 32)
    (hwb : Runs φ (ctx.writeBack p) w u w₂) (h : Runs φ (xv6IctxDirty p ctx) w₂ 0 w') :
    Settled w p ctx w' := by
  obtain rfl := (runs_modifyInode _ _ _ _ _).mp hwb
  unfold xv6IctxDirty at h
  rcases h.ite with ⟨hno, h⟩ | ⟨hyes, h⟩
  · have hdirty : ctx.dirty = false := by simpa using hno
    obtain ⟨-, rfl⟩ := h.pure
    refine ⟨rfl, ?_, by simp [hdirty], .inl rfl, fun _ => rfl,
      fun hd => absurd hd (by simp [hdirty])⟩
    cases hpriv : (w.inodes p).priv with
    | some addrs => simp [World.addrs]
    | none =>
      rw [hclean hdirty hpriv]
      simp [World.addrs, hpriv]
  have hdirty : ctx.dirty = true := by simpa using hyes
  simp only [markInodeDirty, runs_bind_modifyInode, runs_bind_getInode, Function.update_self,
    Function.update_idem] at h
  cases hpriv : (w.inodes p).priv with
  | some addrs =>
    simp only [hpriv, Option.map_some] at h
    obtain ⟨-, rfl⟩ := h.pure
    exact ⟨rfl, by simp [World.addrs], by simp [hdirty], .inl rfl, fun _ => rfl,
      fun _ hnone => absurd (hpriv.symm.trans hnone) (by simp)⟩
  | none =>
    simp only [hpriv, Option.map_none, runs_bind_modifyInode, Function.update_self,
      Function.update_idem] at h
    generalize hu : World.mk _ _ _ _ _ _ _ = u at h
    have henv : u.env = w.env := by rw [← hu]
    have hdisk : u.disk = w.disk := by rw [← hu]
    have hino : u.inodes p =
        { w.inodes p with size := ctx.size, priv := some ctx.addrs, dirty := true } := by
      rw [← hu]
      exact Function.update_self _ _ _
    clear hu
    obtain ⟨e', w₁, hsync, hend⟩ := h.bind
    simp only [runs_bind_modifyInode] at hend
    obtain ⟨rfl, hw'⟩ := hend.pure
    obtain ⟨-, l, d, rfl, -, hd⟩ := xv6SyncInode_spec (by rw [henv]; exact hrw) hsync
    rw [hd rfl] at hw'
    rw [← hw', henv, hdisk, hino]
    have haddr : ∀ d : Disk, (slot w.env (syncDisk w.env d
        { w.inodes p with size := ctx.size, priv := some ctx.addrs, dirty := true })
        (w.inodes p).ino).addr = ctx.addrs := fun d =>
      (congrArg Dinode.addr (slot_syncDisk _)).trans
        (funext fun k => UInt32.toNat_ofNat_of_lt' (hlt hpriv k))
    refine ⟨rfl, ?_, by simp [hdirty], .inr ⟨hpriv, _, rfl⟩,
      fun hc => absurd (hc.symm.trans hdirty) (by decide), fun _ _ => ⟨?_, haddr _⟩⟩
    · simp only [World.addrs, Function.update_self]
      exact haddr _
    · exact congrArg Dinode.size (slot_syncDisk _)

/-! ## The call -/

variable {name : FileName} {inum : Nat}

/-- A reported insertion is a search for room, and the storing of what it leaves. -/
theorem insert_opened (h : Runs φ (xv6DentryInsert p name inum) w 0 w') :
    ∃ l ctx s w₁ u w₂, w ≤ { w with log := l } ∧
      Runs φ (xv6DirIterate modcheck ⟨w.addrs p, (w.inodes p).size % 2 ^ 32, false⟩
        (deInsertCallback ⟨UInt16.ofNat inum, strncpy name⟩) () 0 true) { w with log := l }
        (0, ctx, s) w₁ ∧
      Runs φ (ctx.writeBack p) w₁ u w₂ ∧ Runs φ (xv6IctxDirty p ctx) w₂ 0 w' := by
  simp only [xv6DentryInsert, runs_bind_getInode] at h
  rcases h.ite with ⟨-, h⟩ | ⟨-, h⟩
  · exact absurd h.pure.1 (by decide)
  rcases h.ite with ⟨-, h⟩ | ⟨-, h⟩
  · exact absurd h.pure.1 (by decide)
  rcases h.ite with ⟨-, h⟩ | ⟨-, h⟩
  · exact absurd h.pure.1 (by decide)
  obtain ⟨⟨e₀, ctx₀⟩, w₀, hinit, hnext⟩ := h.bind
  obtain ⟨hr, hctx⟩ := initIctx_reads hinit
  have hle := hinit.mono
  obtain ⟨l, rfl⟩ := hr.log
  clear h
  rcases hnext.ite with ⟨hne, h⟩ | ⟨heq, h⟩
  · exact absurd h.pure.1 hne
  obtain rfl : e₀ = 0 := not_not.mp heq
  obtain rfl := hctx rfl
  obtain ⟨⟨e₁, ctx, s⟩, w₁, hiter, h⟩ := h.bind
  obtain ⟨u, w₂, hwb, hlast⟩ := h.bind
  rcases hlast.ite with ⟨h0, hend⟩ | ⟨hne, hend⟩
  · obtain rfl : e₁ = 0 := h0
    exact ⟨l, ctx, s, w₁, u, w₂, hle, hiter, hwb, hend⟩
  · exact absurd hend.pure.1 hne

theorem Mapped.clean {env : Env} {d d' : Disk} {hint h' i b : Nat} {addrs addrs' : Addrs}
    (h : Mapped env d hint addrs i e b addrs' false d' h') : addrs' = addrs := by
  cases h with
  | found hi h => rfl
  | entry hi h he => rfl

/-! ## When a reported insertion is real -/

/-- The entry of `name` and `inum`. -/
def IsEntry (name : FileName) (inum : Nat) (de : Dirent) : Prop :=
  de.inum.toNat = inum ∧ de.name = strncpy name

/-- From `w` to `w'` the entry of `name` and `inum` has been added. -/
structure InsertReal (w w' : World) (p : Ptr) (name : FileName) (inum : Nat) : Prop where
  added : ∃ k, k < (w'.inodes p).size / 16 ∧ IsEntry name inum (dslot w'.disk (w'.addrs p) k)
  live : ∀ k, k < (w.inodes p).size / 16 → (dslot w.disk (w.addrs p) k).inum ≠ 0 →
    dslot w'.disk (w'.addrs p) k = dslot w.disk (w.addrs p) k
  past : ∀ k, (w.inodes p).size / 16 ≤ k → k < (w'.inodes p).size / 16 →
    (dslot w'.disk (w'.addrs p) k).inum ≠ 0 → IsEntry name inum (dslot w'.disk (w'.addrs p) k)

/-- There is room for the entry, or it is behind the last one already. -/
structure InsertFits (w : World) (p : Ptr) (name : FileName) (inum : Nat) : Prop where
  lt : inum < 2 ^ 16
  room : (∃ k, k < (w.inodes p).size / 16 ∧ (dslot w.disk (w.addrs p) k).inum = 0) ∨
    (dslot w.disk (w.addrs p) ((w.inodes p).size / 16)).inum = 0 ∨
    IsEntry name inum (dslot w.disk (w.addrs p) ((w.inodes p).size / 16))

section

variable {addrs : Addrs} {size : Nat} {nde : Dirent}

/-- What a search for room that ends with success has done, to the state `w₁`. -/
structure Placed (w : World) (addrs : Addrs) (size : Nat) (nde : Dirent) (ctx : InodeCtx)
    (w₁ : World) : Prop where
  env : w₁.env = w.env
  inodes : w₁.inodes = w.inodes
  before : SameBefore w.env w.disk w₁.disk
  owned : Owned w.env w₁.disk (alone ctx.addrs)
  clean : ctx.dirty = false → ctx.addrs = addrs
  /-- an entry is written, or the bytes behind the last entry are taken for it -/
  slots : (∃ k, k ≤ size / 16 ∧ k < MAXFILE * NENTS ∧ (dslot w.disk addrs k).inum = 0 ∧
      (if ctx.dirty then ctx.size else size) = (if k < size / 16 then size else size + 16) ∧
      SlotSet w.disk addrs k nde w₁.disk ctx.addrs) ∨
    ((∀ k, k < size / 16 → (dslot w.disk addrs k).inum ≠ 0) ∧ size / 16 < MAXFILE * NENTS ∧
      (dslot w.disk addrs (size / 16)).inum ≠ 0 ∧ ctx.dirty = true ∧ ctx.size = size + 16 ∧
      SameFile w.disk addrs w₁.disk ctx.addrs)

theorem Inserting.placed (hw : GrowReady w addrs) (ho : Owned w.env w.disk (alone addrs))
    (hle : size ≤ MAXFILE * BSIZE) (h : Inserting w ⟨addrs, size, false⟩ nde 0 ctx w₁) :
    Placed w addrs size nde ctx w₁ := by
  have hmod : (size + 16) % 2 ^ 32 = size + 16 := by
    simp only [MAXFILE, BSIZE] at hle
    omega
  generalize he : (0 : Int) = e at h
  cases h with
  | big hr hn hall => exact absurd he (by decide)
  | unmapped hm hm' hbefore hop hne => exact absurd he.symm hne
  | unread hm hm' hbefore hop hr hne => exact absurd he.symm hne
  | @written k b _ addrs' dirty dirty' size' w₂ _ hk hk' hbefore hop hfree hname hsize hdirty
      _ hwr =>
    subst he
    obtain ⟨hsame, -, hbefore', hhint, hown⟩ := hop.effect hw ho alone_self hk
    obtain ⟨hb, hmap, hslot⟩ := hop.slot hw hk
    obtain ⟨l, hw₂⟩ := hop.frame
    have henv : w₂.env = w.env := by rw [hw₂]
    have hinodes : w₂.inodes = w.inodes := by rw [hw₂]
    have hown' := hown (.inl rfl)
    rw [alone_update] at hown'
    have hself : alone addrs' 0 = some addrs' := alone_self
    have hst := hwr.stored
    have hkmax : k < MAXFILE * NENTS := by
      simp only [MAXFILE, NENTS] at hk ⊢
      omega
    have hstored : w₁.env = w₂.env ∧ w₁.inodes = w₂.inodes := by
      obtain ⟨l', f, -, -, -, rfl⟩ := hwr
      exact ⟨rfl, rfl⟩
    refine ⟨hstored.1.trans henv, hstored.2.trans hinodes, ?_, ?_, fun hclean => ?_,
      .inl ⟨k, hk', hkmax, ?_, ?_, ?_⟩⟩
    · exact hbefore'.trans (Stored.before hw.sound hown' hself hk hmap hb hst)
    · exact Stored.owned hw.sound hown' hself hk hmap hb hst
    · obtain ⟨-, rfl⟩ := hdirty hclean
      exact hop.mapped.clean
    · rw [← hsame.slots hkmax, hslot]
      exact hfree
    · dsimp only at hsize hdirty ⊢
      rw [hmod] at hsize
      rw [← hsize]
      cases dirty' with
      | true => rfl
      | false => exact (hdirty rfl).1.symm
    · exact hsame.slotSet ((Stored.slot hown' hself hk hmap hb hst).2 rfl)
  | garbage hn hall hop hused hr =>
    obtain ⟨hsame, -, hbefore', hhint, hown⟩ := hop.effect hw ho alone_self hn
    obtain ⟨hb, hmap, hslot⟩ := hop.slot hw hn
    obtain ⟨l, hw₂⟩ := hop.frame
    obtain ⟨l', rfl⟩ := hr.log
    have hend : size / 16 < MAXFILE * NENTS := by
      simp only [MAXFILE, NENTS] at hn ⊢
      omega
    have hown' := hown (.inl rfl)
    rw [alone_update] at hown'
    refine ⟨by rw [hw₂], by rw [hw₂], hbefore', hown', fun hc => absurd hc (by simp),
      .inr ⟨hall, hend, ?_, rfl, hmod, hsame⟩⟩
    rw [← hsame.slots hend, hslot]
    exact hused

end

theorem insert_real_iff (hle : (w.inodes p).size ≤ MAXFILE * BSIZE) (hrw : w.env.rdonly = false)
    (hg : w.env.info.Sound) (ht : w.env.info.TableOk) (hh : HintOk w.env w.hint)
    (hin : (w.inodes p).priv = none → InTable w.env (w.inodes p).ino)
    (ho : Owned w.env w.disk (alone (w.addrs p)))
    (h : Returns (xv6DentryInsert p name inum) w 0 w') :
    InsertReal w w' p name inum ↔ InsertFits w p name inum := by
  obtain ⟨l, ctx, s, w₁, u, w₂, -, hiter, hwb, hstore⟩ := insert_opened h
  have hsize : (w.inodes p).size % 2 ^ 32 = (w.inodes p).size := by
    simp only [MAXFILE, BSIZE] at hle
    omega
  rw [hsize] at hiter
  have hready : GrowReady { w with log := l } (w.addrs p) :=
    ⟨hrw, hg, hh, fun h0 => ho.held_indirect alone_self h0⟩
  have hplaced := (iterate_insert_spec hready hle hiter).placed hready ho hle
  obtain ⟨henv, hinodes, hbefore, hown, hclean, hslots⟩ := hplaced
  dsimp only at henv hinodes hbefore hown hclean
  -- what the storing of the context leaves alone
  have hslot : (w.inodes p).priv = none → w₁.addrs p = w.addrs p := by
    intro hpriv
    simp only [World.addrs, hinodes, hpriv, henv, hbefore.slot hg ht (hin hpriv)]
  have hset := store_settled (by rw [henv]; exact hrw)
    (fun hc hpriv => (hclean hc).trans (hslot (hinodes ▸ hpriv)).symm)
    (fun _ => hown.addr_lt hg alone_self) hwb hstore
  have hsame : SameFile w₁.disk ctx.addrs w'.disk ctx.addrs := by
    refine hown.sameFile alone_self fun x hx => hset.disk fun hpriv hxb => ?_
    rw [hinodes] at hpriv hxb
    rw [henv] at hxb
    have hlt := inodeBlock_lt hg ht (hin hpriv)
    have hge := hg.data_ge hx
    omega
  have hsize' : (w'.inodes p).size = if ctx.dirty then ctx.size else (w.inodes p).size := by
    rw [hset.size, hinodes]
  have hmax : (w.inodes p).size / 16 ≤ MAXFILE * NENTS := size_slots hle
  rcases hslots with ⟨k, hk, hkmax, hfree, hgrown, hwritten⟩ |
    ⟨hall, hend, hused, hd, hgrown, hkeep⟩
  · -- entry `k` has been written
    have hat : ∀ j, j < MAXFILE * NENTS → dslot w'.disk (w'.addrs p) j =
        if j = k then ⟨UInt16.ofNat inum, strncpy name⟩ else dslot w.disk (w.addrs p) j := by
      intro j hj
      rw [hset.addrs, hsame.slots hj]
      exact hwritten j hj
    rw [hgrown] at hsize'
    have hlast : (w'.inodes p).size / 16 ≤ (w.inodes p).size / 16 + 1 ∧
        k < (w'.inodes p).size / 16 ∧
        ((w.inodes p).size / 16 < (w'.inodes p).size / 16 → k = (w.inodes p).size / 16) := by
      rw [hsize']
      split <;> omega
    have hroom : inum < 2 ^ 16 → InsertFits w p name inum := by
      refine fun hlt => ⟨hlt, ?_⟩
      rcases Nat.lt_or_eq_of_le hk with hk | rfl
      · exact .inl ⟨k, hk, hfree⟩
      · exact .inr (.inl hfree)
    constructor
    · rintro ⟨⟨j, -, hinum, -⟩, -, -⟩
      exact hroom (hinum ▸ UInt16.toNat_lt _)
    · intro hfit
      have hnew : IsEntry name inum ⟨UInt16.ofNat inum, strncpy name⟩ :=
        ⟨UInt16.toNat_ofNat_of_lt' hfit.lt, rfl⟩
      refine ⟨⟨k, hlast.2.1, ?_⟩, fun j hj hlive => ?_, fun j hj hj' hlive => ?_⟩
      · rw [hat k hkmax, if_pos rfl]
        exact hnew
      · rw [hat j (by omega), if_neg fun hjk : j = k => hlive (hjk ▸ hfree)]
      · obtain rfl : j = k := by omega
        rw [hat j hkmax, if_pos rfl]
        exact hnew
  · -- the directory has grown over an entry
    have hat : ∀ j, j < MAXFILE * NENTS →
        dslot w'.disk (w'.addrs p) j = dslot w.disk (w.addrs p) j := by
      intro j hj
      rw [hset.addrs, hsame.slots hj, hkeep.slots hj]
    rw [if_pos hd, hgrown] at hsize'
    have hlast : (w'.inodes p).size / 16 = (w.inodes p).size / 16 + 1 := by omega
    constructor
    · intro hreal
      have hentry := hreal.past _ le_rfl (by omega) (by rwa [hat _ hend])
      rw [hat _ hend] at hentry
      exact ⟨hentry.1 ▸ UInt16.toNat_lt _, .inr (.inr hentry)⟩
    · intro hfit
      have hentry : IsEntry name inum (dslot w.disk (w.addrs p) ((w.inodes p).size / 16)) := by
        rcases hfit.room with ⟨k, hk, hfree⟩ | hfree | hentry
        · exact absurd hfree (hall k hk)
        · exact absurd hfree hused
        · exact hentry
      refine ⟨⟨(w.inodes p).size / 16, by omega, by rwa [hat _ hend]⟩,
        fun j hj _ => hat j (by omega), fun j hj hj' _ => ?_⟩
      obtain rfl : j = (w.inodes p).size / 16 := by omega
      rwa [hat _ hend]

end

/-- The directory covers '.' and '..' only, and behind them the block is full of live entries:
    the insertion takes the first of these for its own. -/
theorem grown_over_entry :
    ∃ w', Returns (xv6DentryInsert 0 [0x61] 2) (oneBlockDir fullBlock (oneBlock 20) 32) 0 w' ∧
      (w'.inodes 0).size = 48 ∧ (dslot w'.disk (w'.addrs 0) 2).inum = 1 ∧
      ¬ InsertReal (oneBlockDir fullBlock (oneBlock 20) 32) w' 0 [0x61] 2 := by
  have hinsert := returns_after (m := xv6DentryInsert 0 [0x61] 2)
    (w := oneBlockDir fullBlock (oneBlock 20) 32) (a := 0) (by decide +kernel)
  generalize hw' : World.after _ (xv6DentryInsert 0 [0x61] 2) = w' at hinsert
  have hsize : (w'.inodes 0).size = 48 := by subst hw'; decide +kernel
  have hslot : (dslot w'.disk (w'.addrs 0) 2).inum = 1 := by subst hw'; decide +kernel
  refine ⟨w', hinsert, hsize, hslot, fun hreal => ?_⟩
  have hentry := hreal.past 2 (by decide) (by rw [hsize]; decide) (by rw [hslot]; decide)
  have hinum := hentry.1
  rw [hslot] at hinum
  exact absurd hinum (by decide)

theorem insert_into_dots :
    ∃ w', InsertReal (oneBlockDir dotsBlock (oneBlock 20) 32) w' 0 [0x61] 2 := by
  have hinsert := returns_after (m := xv6DentryInsert 0 [0x61] 2)
    (w := oneBlockDir dotsBlock (oneBlock 20) 32) (a := 0) (by decide +kernel)
  exact ⟨_, (insert_real_iff (by decide) rfl dotsDir_ready.sound (by unfold FsInfo.TableOk; decide)
    dotsDir_ready.hint (fun h => absurd h (by decide)) dotsDir_ready.owned hinsert).mpr
    ⟨by decide, .inr (.inl (by decide +kernel))⟩⟩

end Xv6fs
