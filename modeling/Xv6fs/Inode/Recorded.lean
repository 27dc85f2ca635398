/-
  Is a block that was attached remembered?

  A call that changes an address of an inode has to leave a trace of it: the inode marked dirty
  when its addresses are cached, the new addresses in its slot otherwise (`Recorded`). Both are
  the work of `xv6_ictx_dirty`, which the callers skip when the lookup or the access behind it
  fails. `Remembers` is the condition under which a call gets as far.
-/
import Xv6fs.Fs.Behind
import Xv6fs.Inode.Nodes
import Xv6fs.Inode.Slot
import Xv6fs.File.Access

namespace Xv6fs

/-- The addresses `new` are in core and going to be written back, or are in the slot. -/
def Recorded (w : World) (p : Ptr) (new : Addrs) : Prop :=
  match (w.inodes p).priv with
  | some addrs => addrs = new ∧ (w.inodes p).dirty = true
  | none => (slot w.env w.disk (w.inodes p).ino).addr = new

/-- A call that does not fail, or a failed write of block `b` that the device has all the same. -/
def CalmBut (b : Nat) (ev : Event) : Prop := Calm ev ∨ ev = .sync b .kept

/-- No block I/O of the call from `w` to `w'` fails, the write of the slot apart, and there is
    room for the blocks it takes; or the inode is dirty as it is. -/
def Remembers (w w' : World) (p : Ptr) (room : Prop) : Prop :=
  match (w.inodes p).priv with
  | some _ => (w.inodes p).dirty = true ∨ Faultless w w' ∧ room
  | none => World.Along (CalmBut (inodeBlock w.env (w.inodes p).ino)) w w' ∧ room

/-- The lookup of a call on the inode `p` leaves other addresses than it starts with. -/
def Sets {α : Type} (w : World) (p : Ptr) (lookup : InodeCtx → Fs α) (ctxOf : α → InodeCtx)
    (new : Addrs) : Prop :=
  ∃ ctx w₀ r w₁, Returns (xv6InitIctx p) w (0, ctx) w₀ ∧ Returns (lookup ctx) w₀ r w₁ ∧
    (ctxOf r).addrs = new ∧ new ≠ ctx.addrs

/-- The addresses have been written back and nothing else has been done about them. -/
structure Left (w : World) (p : Ptr) (new : Addrs) (w' : World) : Prop where
  env : w'.env = w.env
  inode : w'.inodes p = { w.inodes p with priv := (w.inodes p).priv.map fun _ => new }
  before : ∀ x, x < w.env.info.bmapstart → w'.disk x = w.disk x

section

variable {φ : Event → Prop} {w w₀ v w' : World} {p : Ptr} {new : Addrs} {room : Prop}

theorem initIctx_reads {r : Int × InodeCtx} (h : Runs φ (xv6InitIctx p) w r w₀) :
    OnlyReads w w₀ r.1 ∧
      (r.1 = 0 → r.2 = ⟨w.addrs p, (w.inodes p).size % 2 ^ 32, false⟩) := by
  cases hpriv : (w.inodes p).priv with
  | some addrs =>
    obtain ⟨rfl, rfl⟩ := xv6InitIctx_spec hpriv h
    exact ⟨.refl w₀, fun _ => by rw [World.addrs_of_priv hpriv]⟩
  | none =>
    simp only [xv6InitIctx, runs_bind_getInode, hpriv, xv6Dget] at h
    obtain ⟨⟨e, di⟩, w₁, hdget, h⟩ := h.bind
    obtain ⟨rfl, rfl⟩ := h.pure
    simp only [runs_bind_getInode, runs_bind_assert, runs_bind_getEnv] at hdget
    obtain ⟨-, hdget⟩ := hdget
    obtain ⟨l, -, ⟨hr, h⟩ | ⟨hr, h⟩⟩ := sbBread_cases hdget
    · obtain ⟨hdi, rfl⟩ := h.pure
      cases hdi
      exact ⟨hr, fun h0 => absurd h0 (by decide : (- EIO : Int) ≠ 0)⟩
    · simp only [runs_bind_bdata] at h
      obtain ⟨hdi, rfl⟩ := h.pure
      cases hdi
      refine ⟨hr, fun _ => ?_⟩
      unfold World.addrs slot
      rw [hpriv]

/-- A write-back reaches the slot unless one of its calls fails, the write for good. -/
theorem xv6SyncInode_along {e : Int} (hrw : w.env.rdonly = false)
    (h : Runs φ (xv6SyncInode p) w e w') :
    ∃ d l, w' = { w with disk := d, log := l } ∧
      ((World.Along (CalmBut (inodeBlock w.env (w.inodes p).ino)) w w' ∧
          d = syncDisk w.env w.disk (w.inodes p)) ∨
        (¬ World.Along (CalmBut (inodeBlock w.env (w.inodes p).ino)) w w' ∧ d = w.disk)) := by
  simp only [xv6SyncInode, runs_bind_getEnv, hrw, Bool.false_eq_true, if_false, runs_bind_getInode,
    runs_bind_assert] at h
  obtain ⟨-, hnext⟩ := h
  obtain ⟨ok, w₁, hread, hrest⟩ := hnext.bind
  have hmono := hrest.mono
  obtain ⟨-, hok, rfl⟩ := (runs_sbBread _ w w₁ ok).mp hread
  have hbread : World.Along (CalmBut (inodeBlock w.env (w.inodes p).ino)) w (w.logged _) ↔ _ :=
    along_single w (.bread (inodeBlock w.env (w.inodes p).ino) (w.env.io w.log.length)) _ rfl
  rcases hrest.ite with ⟨hnull, hend⟩ | ⟨hbuf, hend⟩
  · obtain ⟨-, rfl⟩ := hend.pure
    refine ⟨_, _, rfl, .inr ⟨fun hc => ?_, rfl⟩⟩
    rcases hbread.mp hc with hcalm | hsync
    · rw [hok, decide_eq_true (show w.env.io w.log.length = .ok from hcalm)] at hnull
      exact absurd hnull (by decide)
    · cases hsync
  · have hio : w.env.io w.log.length = .ok := by
      rw [hok] at hbuf
      simpa using hbuf
    have hb := hbread.mpr (.inl hio)
    simp only [runs_bind_bdata] at hend
    have hsync := hend
    obtain ⟨f, -, rfl⟩ := syncBuffer_fate hend
    have hall : World.Along (CalmBut (inodeBlock w.env (w.inodes p).ino)) w
        { w with
          disk := f.store w.disk (inodeBlock w.env (w.inodes p).ino)
            ((w.disk (inodeBlock w.env (w.inodes p).ino)).setDinode ((w.inodes p).ino % IPB)
              ((w.inodes p).toDinode ((w.disk (inodeBlock w.env (w.inodes p).ino)).dinode
                ((w.inodes p).ino % IPB))))
          log := .sync (inodeBlock w.env (w.inodes p).ino) f ::
            .bread (inodeBlock w.env (w.inodes p).ino) (w.env.io w.log.length) :: w.log } ↔
          f ≠ .lost := by
      refine ((World.along_splits _).split hread.mono hmono).trans ?_
      rw [and_iff_right hb]
      refine (along_single _ (.sync (inodeBlock w.env (w.inodes p).ino) f) _ rfl).trans ?_
      unfold CalmBut Calm
      cases f <;> simp
    refine ⟨_, _, rfl, ?_⟩
    by_cases hf : f = .lost
    · exact .inr ⟨fun hc => hall.mp hc hf, if_pos hf⟩
    · exact .inl ⟨hall.mpr hf, if_neg hf⟩

theorem along_congr {s s' t t' : World} (hs : s'.log = s.log) (ht : t'.log = t.log) :
    World.Along φ s t ↔ World.Along φ s' t' := by
  unfold World.Along
  rw [hs, ht]

/-! ## The ends of a call -/

theorem Left.slot (hg : w.env.info.Sound) (ht : w.env.info.TableOk)
    (hin : InTable w.env (w.inodes p).ino) (h : Left w p new v) :
    Xv6fs.slot v.env v.disk (w.inodes p).ino = Xv6fs.slot w.env w.disk (w.inodes p).ino := by
  rw [h.env]
  exact SameBefore.slot hg ht hin h.before

variable (hg : w.env.info.Sound) (ht : w.env.info.TableOk)
  (hin : (w.inodes p).priv = none → InTable w.env (w.inodes p).ino) (hne : new ≠ w.addrs p)

include hg ht hin hne

/-- The call ends without `xv6_ictx_dirty`. -/
theorem remembers_of_left (h : Left w p new w') (hb : World.Along (Behind w.env) w w')
    (hno : ¬ (Faultless w w' ∧ room)) : Recorded w' p new ↔ Remembers w w' p room := by
  unfold Recorded Remembers
  rw [h.inode]
  cases hpriv : (w.inodes p).priv with
  | some addrs =>
    simp only [Option.map_some, true_and]
    exact ⟨.inl, fun hor => hor.resolve_right hno⟩
  | none =>
    simp only [Option.map_none]
    refine iff_of_false (fun heq => ?_) fun hc => hno ⟨?_, hc.2⟩
    · rw [h.slot hg ht (hin hpriv)] at heq
      refine hne (heq.symm.trans ?_)
      unfold World.addrs
      rw [hpriv]
    · refine (hc.1.and hb).weaken fun ev hev => ?_
      rcases hev with ⟨hcalm | rfl, hbehind⟩
      · exact hcalm
      · exact absurd (inodeBlock_lt hg ht (hin hpriv)) (not_lt.mpr hbehind)

/-- The call ends with `xv6_ictx_dirty`. -/
theorem remembers_of_dirty {size : Nat} {e : Int} (hrw : w.env.rdonly = false)
    (hlt : (w.inodes p).priv = none → ∀ k, new k < 2 ^ 32) (h : Left w p new v) (hle : w ≤ v)
    (hf : Faultless w v) (hroom : room) (hd : Runs φ (xv6IctxDirty p ⟨new, size, true⟩) v e w') :
    Recorded w' p new ↔ Remembers w w' p room := by
  have hmono := hd.mono
  simp only [xv6IctxDirty, Bool.not_true, Bool.false_eq_true, if_false, markInodeDirty,
    runs_bind_modifyInode, runs_bind_getInode, Function.update_self, h.inode] at hd
  unfold Recorded Remembers
  cases hpriv : (w.inodes p).priv with
  | some addrs =>
    simp only [hpriv, Option.map_some] at hd
    obtain ⟨-, rfl⟩ := hd.pure
    simp only [Function.update_self]
    exact iff_of_true ⟨trivial, trivial⟩ (.inr ⟨(faultless_congr rfl).mpr hf, hroom⟩)
  | none =>
    simp only [hpriv, Option.map_none, runs_bind_modifyInode, Function.update_self,
      Function.update_idem] at hd
    generalize hu : World.mk _ _ _ _ _ _ _ = u at hd
    have henv : u.env = w.env := by rw [← hu, h.env]
    have hdisk : u.disk = v.disk := by rw [← hu]
    have hlog : u.log = v.log := by rw [← hu]
    have hino : u.inodes p =
        { w.inodes p with size := size, priv := some new, dirty := true } := by
      rw [← hu]
      exact Function.update_self _ _ _
    clear hu
    obtain ⟨e', w₁, hsync, hend⟩ := hd.bind
    have hle₁ := hsync.mono
    obtain ⟨d, l, rfl, hor⟩ := xv6SyncInode_along (by rw [henv]; exact hrw) hsync
    simp only [runs_bind_modifyInode] at hend
    obtain ⟨-, hw'⟩ := hend.pure
    have hino' : w'.inodes p = { w.inodes p with size := size, dirty := true } := by
      rw [← hw', ← hpriv]
      simp only [Function.update_self, hino, hpriv]
    have hlog' : w'.log = l := by rw [← hw']
    have hdisk' : w'.disk = d := by rw [← hw']
    have henv' : w'.env = w.env := by rw [← hw', henv]
    clear hw'
    have hcalls := (World.along_splits (CalmBut (inodeBlock w.env (w.inodes p).ino))).split hle
      hmono
    rw [and_iff_right (hf.weaken fun _ => .inl),
      @along_congr _ v u w' { u with disk := d, log := l } hlog hlog'.symm] at hcalls
    rw [hcalls, hino', hpriv, henv', hdisk']
    rw [henv, hino] at hor
    dsimp only at hor ⊢
    rcases hor with ⟨hall, rfl⟩ | ⟨hno, rfl⟩
    · refine iff_of_true ?_ ⟨(along_congr rfl rfl).mp hall, hroom⟩
      refine (congrArg Dinode.addr (slot_syncDisk _)).trans ?_
      exact funext fun k => UInt32.toNat_ofNat_of_lt' (hlt hpriv k)
    · refine iff_of_false (fun heq => ?_) fun hc => hno ((along_congr rfl rfl).mp hc.1)
      rw [hdisk, ← h.env, h.slot hg ht (hin hpriv)] at heq
      refine hne (heq.symm.trans ?_)
      unfold World.addrs
      rw [hpriv]

end

/-! ## Mapping a block for writing -/

section

variable {φ : Event → Prop} {w w₀ w₁ w₂ w' : World} {p : Ptr} {i b : Nat} {e : Int}
  {new : Addrs}

/-- The addresses in a slot are block numbers of 32 bits. -/
theorem World.addrs_lt (hpriv : (w.inodes p).priv = none) (k : Fin 13) :
    w.addrs p k < 2 ^ 32 := by
  unfold World.addrs
  rw [hpriv]
  exact UInt32.toNat_lt _

/-- An address that a lookup has set is written back to the inode. -/
theorem Attached.left {ctx : InodeCtx} {u : Unit} (hr : OnlyReads w w₀ 0) (hle : w ≤ w₀)
    (ha : Attached w₀ (w.addrs p) i e b ctx.addrs w₁) (h : Runs φ (ctx.writeBack p) w₁ u w₂) :
    Left w p ctx.addrs w₂ ∧ w ≤ w₂ ∧ World.Along (Behind w.env) w w₂ ∧
      (e = 0 ↔ Faultless w w₂ ∧ (i < NDIRECT ∨ TwoFree w.env w.disk)) := by
  have hle₂ := h.mono
  obtain rfl := (runs_modifyInode _ _ _ _ _).mp h
  obtain ⟨l₀, rfl⟩ := hr.log
  obtain ⟨l₁, hw₁⟩ := ha.frame
  have hle₁ := le_trans hle ha.le
  refine ⟨⟨hle₁.1, ?_, ha.before⟩, le_trans hle₁ hle₂, ?_, ?_⟩
  · rw [hw₁]
    exact Function.update_self _ _ _
  · exact (hr.behind.trans ha.behind).trans (World.along_refl _ w₁)
  · refine ha.ok.trans (and_congr_left fun _ => ?_)
    have hcut := faultless_split hle ha.le
    rw [and_iff_right (hr.error.mp rfl)] at hcut
    exact hcut.symm.trans (faultless_congr rfl).symm

/-- An attached block is remembered when the call gets to mark the inode dirty. -/
theorem wblock_remembers {r : Int × Option Nat} (hg : w.env.info.Sound) (ht : w.env.info.TableOk)
    (hh : HintOk w.env w.hint)
    (hin : (w.inodes p).priv = none → InTable w.env (w.inodes p).ino)
    (hset : Sets w p (fun ctx => xv6InodeAddr modcheck ctx i true) (·.2.2) new)
    (h : Returns (xv6InodeWblock p i) w r w') :
    Recorded w' p new ↔ Remembers w w' p (i < NDIRECT ∨ TwoFree w.env w.disk) := by
  obtain ⟨ctx, w₀, ⟨e, b, ctx'⟩, w₁, hinit, haddr, rfl, hne⟩ := hset
  obtain ⟨hr, hctx⟩ := initIctx_reads hinit
  have hle := hinit.mono
  have hold : ctx.addrs = w.addrs p := congrArg InodeCtx.addrs (hctx rfl)
  have hstate : w₀.env = w.env ∧ w₀.hint = w.hint := by
    obtain ⟨l, rfl⟩ := hr.log
    exact ⟨rfl, rfl⟩
  obtain ⟨hctx', hatt, hrw, hi⟩ := attached_of_alloc (by rw [hstate.1]; exact hg)
    (by rw [hstate.1, hstate.2]; exact hh) haddr hne
  rw [hold] at hatt hne
  simp only [xv6InodeWblock] at h
  obtain ⟨r₀, v₀, hinit', h⟩ := h.bind
  obtain ⟨rfl, rfl⟩ := hinit.unique hinit'
  rcases h.ite with ⟨h0, -⟩ | ⟨-, h⟩
  · exact absurd rfl h0
  obtain ⟨r₁, v₁, haddr', h⟩ := h.bind
  obtain ⟨rfl, rfl⟩ := haddr.unique haddr'
  obtain ⟨u, w₂, hwb, hnext⟩ := h.bind
  clear h hinit' haddr'
  obtain ⟨hleft, hle₂, hbehind, hok⟩ := hatt.left hr hle hwb
  rcases hnext.ite with ⟨he, h⟩ | ⟨he, h⟩
  · obtain ⟨-, rfl⟩ := h.pure
    exact remembers_of_left hg ht hin hne hleft hbehind fun hc => he (hok.mpr hc)
  have he0 : e = 0 := not_not.mp he
  obtain ⟨hf₂, hroom⟩ := hok.mp he0
  rcases h.ite with ⟨hb0, -⟩ | ⟨-, h⟩
  · exact absurd hb0 (hatt.fresh he0).1
  obtain ⟨l, hle₃, ⟨hr₃, h⟩ | ⟨hr₃, h⟩⟩ := sbBread_cases h
  · obtain ⟨-, rfl⟩ := h.pure
    refine remembers_of_left hg ht hin hne ⟨hleft.env, hleft.inode, hleft.before⟩
      (hbehind.trans hr₃.behind) fun hc => ?_
    rw [faultless_split hle₂ hle₃, ← hr₃.error] at hc
    exact absurd hc.1.2 (by decide)
  · obtain ⟨e', w₄, hdirty, hend⟩ := h.bind
    obtain ⟨-, rfl⟩ := hend.pure
    rw [hctx'] at hdirty
    have hleft₃ : Left w p ctx'.addrs { w₂ with log := l } :=
      ⟨hleft.env, hleft.inode, hleft.before⟩
    exact remembers_of_dirty hg ht hin hne (hstate.1 ▸ hrw)
      (fun hpriv => hatt.lt (World.addrs_lt hpriv)) hleft₃ (le_trans hle₂ hle₃)
      ((faultless_split hle₂ hle₃).mpr ⟨hf₂, hr₃.error.mp rfl⟩) hroom hdirty

/-! ## Addresses in core -/

theorem ictxDirty_priv {ctx : InodeCtx} {addrs : Addrs} (hpriv : (w.inodes p).priv = some addrs)
    (h : Runs φ (xv6IctxDirty p ctx) w e w') : (w'.inodes p).priv = some addrs := by
  simp only [xv6IctxDirty] at h
  rcases h.ite with ⟨-, h⟩ | ⟨-, h⟩
  · obtain ⟨-, rfl⟩ := h.pure
    exact hpriv
  · simp only [markInodeDirty, runs_bind_modifyInode, runs_bind_getInode, Function.update_self,
      hpriv] at h
    obtain ⟨-, rfl⟩ := h.pure
    simp only [Function.update_self]

/-- The cached addresses after a lookup and its write-back. -/
theorem writeBack_priv {ctx : InodeCtx} {addrs : Addrs} {u : Unit} (hin : w₁.inodes p = w.inodes p)
    (hpriv : (w.inodes p).priv = some addrs) (h : Runs φ (ctx.writeBack p) w₁ u w₂) :
    (w₂.inodes p).priv = some ctx.addrs := by
  obtain rfl := (runs_modifyInode _ _ _ _ _).mp h
  simp only [Function.update_self, hin, hpriv, Option.map_some]

/-- The cached addresses change only when the lookup sets one. -/
theorem wblock_sets {addrs : Addrs} {r : Int × Option Nat}
    (hpriv : (w.inodes p).priv = some addrs) (hnew : (w'.inodes p).priv = some new)
    (hne : new ≠ addrs) (h : Returns (xv6InodeWblock p i) w r w') :
    Sets w p (fun ctx => xv6InodeAddr modcheck ctx i true) (·.2.2) new := by
  obtain ⟨e, bh⟩ := r
  obtain ⟨e₁, b, ctx, w₁, haddr, hends⟩ := inodeWblock_ends hpriv h
  have hlast : (w'.inodes p).priv = some ctx.addrs := by
    cases hends <;> simp only [World.setMap_inode]
  obtain rfl : ctx.addrs = new := Option.some.inj (hlast.symm.trans hnew)
  exact ⟨_, w, (e₁, b, ctx), w₁, initIctx_cached hpriv, haddr, rfl, hne⟩

end

end Xv6fs
