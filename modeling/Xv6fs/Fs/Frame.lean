/-
  What a change to one file leaves alone.

  `SameFile`, `Elsewhere` and `SameBefore` say that a file, the other files, and the blocks
  before the bitmap read as before. Overwriting a block of a file keeps the last two and
  ownership (`Stored.elsewhere`, `Stored.before`, `Stored.owned`), and looking a block up with
  allocation keeps all three (`Opened.effect`).
-/
import Xv6fs.Fs.Grow
import Xv6fs.Fs.Insert

namespace Xv6fs

/-- The file reads as before. -/
def SameFile (d : Disk) (addrs : Addrs) (d' : Disk) (addrs' : Addrs) : Prop :=
  ∀ j, j < MAXFILE → fblock d' addrs' j = fblock d addrs j

/-- The files other than that of inode `n` are as they were. -/
def Elsewhere (d : Disk) (A : Nat → Option Addrs) (n : Nat) (d' : Disk) : Prop :=
  ∀ m other, m ≠ n → A m = some other → ∀ j, j < MAXFILE →
    bmap d' other j = bmap d other j ∧ fblock d' other j = fblock d other j

/-- The blocks before the bitmap are as they were. -/
def SameBefore (env : Env) (d d' : Disk) : Prop := ∀ x, x < env.info.bmapstart → d' x = d x

/-- The state after the addresses and the size of an inode have been stored in core. -/
def World.setMap (w : World) (p : Ptr) (addrs : Addrs) (size : Nat) (dirty : Bool) : World :=
  { w with
    inodes := Function.update w.inodes p
      { w.inodes p with priv := some addrs, size := size, dirty := dirty } }

@[simp] theorem World.setMap_inode (w : World) (p : Ptr) (addrs : Addrs) (size : Nat)
    (dirty : Bool) :
    (w.setMap p addrs size dirty).inodes p =
      { w.inodes p with priv := some addrs, size := size, dirty := dirty } :=
  Function.update_self _ _ _

section

variable {env : Env} {d d' d'' : Disk} {hint h' i m n b : Nat} {e : Int}
  {addrs addrs' addrs'' : Addrs} {A : Nat → Option Addrs}

theorem SameFile.trans (h : SameFile d addrs d' addrs') (h₂ : SameFile d' addrs' d'' addrs'') :
    SameFile d addrs d'' addrs'' :=
  fun j hj => (h₂ j hj).trans (h j hj)

theorem Elsewhere.refl (d : Disk) (A : Nat → Option Addrs) (n : Nat) : Elsewhere d A n d :=
  fun _ _ _ _ _ _ => ⟨rfl, rfl⟩

theorem Elsewhere.trans (h : Elsewhere d A n d')
    (h₂ : Elsewhere d' (Function.update A n (some addrs')) n d'') : Elsewhere d A n d'' := by
  intro m other hm hA j hj
  obtain ⟨h1, h2⟩ := h m other hm hA j hj
  obtain ⟨h3, h4⟩ := h₂ m other hm (by rwa [Function.update_of_ne hm]) j hj
  exact ⟨h3.trans h1, h4.trans h2⟩

theorem SameBefore.trans (h : SameBefore env d d') (h₂ : SameBefore env d' d'') :
    SameBefore env d d'' :=
  fun x hx => (h₂ x hx).trans (h x hx)

/-! ## The context of a cached inode -/

section Context

variable {φ : Event → Prop} {w w' : World} {p : Ptr}

theorem xv6InitIctx_spec {r : Int × InodeCtx} (hpriv : (w.inodes p).priv = some addrs)
    (h : Runs φ (xv6InitIctx p) w r w') :
    r = (0, ⟨addrs, (w.inodes p).size % 2 ^ 32, false⟩) ∧ w' = w := by
  simp only [xv6InitIctx, runs_bind_getInode, hpriv] at h
  obtain ⟨rfl, rfl⟩ := h.pure
  exact ⟨rfl, rfl⟩

theorem initIctx_cached (hpriv : (w.inodes p).priv = some addrs) :
    Returns (xv6InitIctx p) w (0, ⟨addrs, (w.inodes p).size % 2 ^ 32, false⟩) w := by
  simp only [xv6InitIctx, runs_bind_getInode, hpriv]
  exact returns_iff.mpr rfl

/-- Storing the addresses back stores them. -/
theorem writeBack_spec {ctx : InodeCtx} {u : Unit} (hpriv : (w.inodes p).priv = some addrs)
    (h : Runs φ (ctx.writeBack p) w u w') : w' = { w with
      inodes := Function.update w.inodes p { w.inodes p with priv := some ctx.addrs } } := by
  simp only [InodeCtx.writeBack, runs_modifyInode, hpriv, Option.map_some] at h
  exact h

theorem writeBack_same {ctx : InodeCtx} {u : Unit} (hpriv : (w.inodes p).priv = some ctx.addrs)
    (h : Runs φ (ctx.writeBack p) w u w') : w' = w := by
  have hino : { w.inodes p with priv := some ctx.addrs } = w.inodes p := by
    rw [← hpriv]
  rw [writeBack_spec hpriv h, hino, Function.update_eq_self]

end Context

/-! ## Overwriting a block -/

section Store

variable (hg : env.info.Sound) (ho : Owned env d A) (hA : A n = some addrs) (hi : i < MAXFILE)
  (hb : bmap d addrs i = b) (hne : b ≠ 0)

include ho hA hi hb hne

theorem Stored.elsewhere {blk : Block} (h : Stored d b blk e d') : Elsewhere d A n d' := by
  rcases h.disk with rfl | rfl
  · exact .refl d' A n
  · subst hb
    intro m other hm hA' j hj
    obtain ⟨h1, h2⟩ := fblock_store ho hA hi hne blk hA' hj
    exact ⟨h1, h2.trans (if_neg fun hc => hm hc.1)⟩

include hg

theorem Stored.owned {blk : Block} (h : Stored d b blk e d') : Owned env d' A := by
  rcases h.disk with rfl | rfl
  · exact ho
  · subst hb
    exact owned_store hg ho hA hi hne blk

theorem Stored.before {blk : Block} (h : Stored d b blk e d') : SameBefore env d d' := by
  intro x hx
  rcases h.disk with rfl | rfl
  · rfl
  · have hge : env.info.bmapstart ≤ b := by
      rw [← hb] at hne ⊢
      exact hg.data_ge (Owned.held_bmap ho hA hi hne).1
    exact Function.update_of_ne (by omega) _ _

end Store

/-! ## Looking a block up -/

theorem Opened.effect {w w₁ : World} {dirty : Bool} (hw : GrowReady w addrs)
    (ho : Owned w.env w.disk A) (hA : A n = some addrs) (hm : m < MAXFILE)
    (h : Opened w addrs m e b addrs' dirty w₁) :
    SameFile w.disk addrs w₁.disk addrs' ∧ Elsewhere w.disk A n w₁.disk ∧
      SameBefore w.env w.disk w₁.disk ∧ HintOk w.env w₁.hint ∧
      (e = 0 ∨ e = -ENOSPC → Owned w.env w₁.disk (Function.update A n (some addrs'))) := by
  have hkeep := h.mapped.keeps hw.sound hw.hint hw.indirect hm
  refine ⟨fun j hj => mapped_fblock hw.sound hw.hint ho hA hm h.mapped hj,
    fun m' other hne hA' j hj => mapped_fblock_other hw.sound hw.hint ho hA hA' hne hm h.mapped hj,
    fun x hx => h.mapped.before hw.sound hw.hint hw.indirect hx, hkeep.1, fun he => ?_⟩
  exact (h.mapped.grown hw.sound hw.hint hm he).owned hw.sound ho hA

end

end Xv6fs
