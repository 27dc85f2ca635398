/-
  Runs and the pattern of failures.

  The `n`-th call that can fail looks at place `n` of the pattern, so a run depends only on the
  places that its own calls have in the history. Under any pattern that gives these calls the
  fate they had the run is the same (`Local`). This holds of all programs that do nothing else
  with the pattern; it is shown here for the lookups of file blocks and what they call.
-/
import Xv6fs.Model.Inode

namespace Xv6fs

/-- The state with another pattern of failures. -/
def World.withIo (w : World) (io : Nat → Fate) : World := { w with env := { w.env with io := io } }

/-- The pattern `io` gives a call at place `k` the fate it had. -/
def Event.Fits (io : Nat → Fate) (k : Nat) : Event → Prop
  | .bread _ f => io k = f
  | .sync _ f => io k = f
  | .alloc _ => True

/-- The pattern fits all calls made between the two states. -/
def Replays (io : Nat → Fate) (w w' : World) : Prop :=
  ∀ es e l, w'.log = es ++ e :: l → w.log.length ≤ l.length → e.Fits io l.length

/-- A run is the same under every pattern that fits its calls. -/
def Local {α : Type} (m : Fs α) : Prop :=
  ∀ (w : World) (a : α) (w' : World) (io : Nat → Fate), m.run w = .ok (a, w') →
    Replays io w w' → m.run (w.withIo io) = .ok (a, w'.withIo io)

/-- Calls that have all succeeded fit a pattern without failures at their places. -/
theorem Faultless.replays {w w' : World} {io : Nat → Fate} (h : Faultless w w')
    (hio : ∀ k, k < w'.log.length → io k = .ok) : Replays io w w' := by
  obtain ⟨es₀, hlog, hcalm⟩ := h
  intro es e l hsplit hle
  have hlt : l.length < w'.log.length := by
    rw [hsplit, List.length_append, List.length_cons]
    omega
  have hmem : e ∈ es₀ := by
    -- the calls made before are too few to reach back to this one
    have hcut : es₀ ++ w.log = (es ++ [e]) ++ l := by
      rw [← hlog, hsplit, List.append_assoc, List.singleton_append]
    rcases List.append_eq_append_iff.mp hcut with ⟨t, ht, hw⟩ | ⟨t, ht, hl⟩
    · have hlen := congrArg List.length hw
      rw [List.length_append] at hlen
      obtain rfl : t = [] := List.eq_nil_of_length_eq_zero (by omega)
      rw [List.append_nil] at ht
      rw [← ht]
      simp
    · rw [ht]
      simp
  have hok := hcalm e hmem
  cases e with
  | bread b f => exact (hio _ hlt).trans hok.symm
  | sync b f => exact (hio _ hlt).trans hok.symm
  | alloc ok => trivial

namespace Local

variable {α β : Type} {m n : Fs α}

theorem pure (a : α) : Local (Pure.pure a : Fs α) := by
  intro w b w' io h _
  cases h
  rfl

theorem halt (e : Halt) : Local (Prog.halt e : Fs α) := by
  intro w a w' io h
  cases h

theorem ite {c : Prop} [Decidable c] (hm : Local m) (hn : Local n) :
    Local (if c then m else n) := by
  split
  · exact hm
  · exact hn

theorem bind {f : α → Fs β} (hm : Local m) (hf : ∀ a, Local (f a)) : Local (m >>= f) := by
  intro w b w' io h hio
  cases hrun : m.run w with
  | error e =>
    rw [Prog.run_bind_error hrun] at h
    cases h
  | ok r =>
    obtain ⟨a, w₁⟩ := r
    rw [Prog.run_bind_ok hrun] at h
    obtain ⟨es₁, hlog, -⟩ := (m.mono w a w₁ hrun).2
    obtain ⟨es₂, hlog', -⟩ := ((f a).mono w₁ b w' h).2
    have hfirst := hm w a w₁ io hrun fun es e l hes => hio (es₂ ++ es) e l (by
      rw [hlog', hes, List.append_assoc])
    rw [Prog.run_bind_ok hfirst]
    refine hf a w₁ b w' io h fun es e l hes hle => hio es e l hes ?_
    have hlen := congrArg List.length hlog
    rw [List.length_append] at hlen
    omega

/-- What is read of the state is not the pattern. -/
theorem get {f : World → Fs β} (hsame : ∀ w io, f (w.withIo io) = f w) (hf : ∀ w, Local (f w)) :
    Local (Prog.get >>= f) := by
  intro w b w' io h hio
  rw [Prog.run_bind_ok (Prog.run_get w)] at h
  rw [Prog.run_bind_ok (Prog.run_get (w.withIo io)), hsame]
  exact hf w w b w' io h hio

theorem getEnv {f : Env → Fs β} (hsame : ∀ env io, f { env with io := io } = f env)
    (hf : ∀ env, Local (f env)) : Local (Xv6fs.getEnv >>= f) := by
  intro w b w' io h hio
  have hrun : ∀ v : World, (Xv6fs.getEnv >>= f).run v = (f v.env).run v := fun _ => rfl
  rw [hrun] at h ⊢
  refine (congrArg (fun g => g.run (w.withIo io)) (hsame w.env io)).trans ?_
  exact hf w.env w b w' io h hio

theorem change {f : World → World} {hf : ∀ w, (f w).env = w.env ∧ (f w).log = w.log}
    (h : ∀ w io, f (w.withIo io) = (f w).withIo io) : Local (change f hf) := by
  intro w u w' io hrun _
  cases hrun
  exact congrArg (fun v => Except.ok ((), v)) (h w io)

end Local

/-! ## Calls -/

theorem local_sbBread (b : Nat) : Local (sbBread b) := by
  intro w ok w' io h hio
  cases h
  have hhere : io w.log.length = w.env.io w.log.length :=
    hio [] _ _ rfl (le_refl _)
  simp only [sbBread, Prog.step, World.withIo, hhere]

theorem local_syncBuffer (b : Nat) (blk : Block) : Local (syncBuffer b blk) := by
  intro w e w' io h hio
  cases h
  have hhere : io w.log.length = w.env.io w.log.length :=
    hio [] _ _ rfl (le_refl _)
  simp only [syncBuffer, Prog.step, World.withIo, hhere]

theorem local_setHint (n : Nat) : Local (setHint n) := .change fun _ _ => rfl

theorem local_modifyInode (p : Ptr) (f : Inode → Inode) : Local (modifyInode p f) :=
  .change fun _ _ => rfl

theorem local_bdata (b : Nat) : Local (bdata b) := .get (fun _ _ => rfl) fun _ => .pure _

theorem local_getInode (p : Ptr) : Local (getInode p) := .get (fun _ _ => rfl) fun _ => .pure _

theorem local_assert (c : Prop) [Decidable c] : Local (xv6Assert c) := .ite (.pure _) (.halt _)

/-! ## The allocator -/

theorem local_bzero (b : Nat) : Local (xv6Bzero b) :=
  .getEnv (fun _ _ => rfl) fun _ => .ite (.pure _) <| .bind (local_sbBread b) fun _ =>
    .ite (.pure _) (local_syncBuffer _ _)

theorem local_claim (bitblock index mask block alloc : Nat) :
    Local (xv6BallocRng.claim bitblock index mask block alloc) :=
  .getEnv (fun _ _ => rfl) fun _ => .bind (local_bzero alloc) fun _ =>
    .ite (.bind (local_setHint _) fun _ => .pure _) <| .bind (local_bdata _) fun _ =>
      .bind (local_syncBuffer _ _) fun _ => .bind (local_setHint _) fun _ => .pure _

theorem local_scan (bitblock block : Nat) :
    ∀ n alloc, Local (xv6BallocRng.scan bitblock block n alloc)
  | 0, _ => .pure _
  | n + 1, alloc => .getEnv (fun _ _ => rfl) fun _ => .bind (local_bdata _) fun _ =>
      .ite (local_claim _ _ _ _ _) (local_scan bitblock block n (alloc + 1))

theorem local_tryBalloc (block last : Nat) :
    ∀ fuel alloc, Local (xv6BallocRng.tryBalloc block last fuel alloc)
  | 0, _ => .halt _
  | fuel + 1, _ => .getEnv (fun _ _ => rfl) fun _ => .bind (local_sbBread _) fun _ =>
      .ite (.bind (local_setHint _) fun _ => .pure _) <| .bind (local_scan _ _ _ _) fun _ =>
        .ite (local_tryBalloc _ last fuel _) (.pure _)

theorem local_rng (block start last : Nat) : Local (xv6BallocRng block start last) :=
  .getEnv (fun _ _ => rfl) fun _ => local_tryBalloc _ _ _ _

theorem local_wrapHint : Local xv6BallocUnsafe.wrapHint :=
  .getEnv (fun _ _ => rfl) fun _ => .get (fun _ _ => rfl) fun _ => local_setHint _

theorem local_second (hint block : Nat) : Local (xv6BallocUnsafe.second hint block) :=
  .getEnv (fun _ _ => rfl) fun _ => .ite (.bind (local_rng _ _ _) fun _ =>
    .ite (.bind local_wrapHint fun _ => .pure _) (.pure _)) (.pure _)

theorem local_balloc (block : Nat) : Local (xv6Balloc block) :=
  .getEnv (fun _ _ => rfl) fun _ => .ite (.pure _) <| .get (fun _ _ => rfl) fun _ =>
    .ite (.bind (local_rng _ _ _) fun _ => .ite (.bind local_wrapHint fun _ => .pure _)
      (local_second _ _)) (local_second _ _)

/-! ## Lookups -/

theorem local_indirect (ctx : InodeCtx) (i : Nat) (alloc : Bool) :
    Local (xv6InodeAddr.indirect modcheck ctx i alloc) :=
  .bind (local_sbBread _) fun _ => .ite (.pure _) <| .bind (local_bdata _) fun _ =>
    .ite (.ite (.pure _) <| .bind (local_balloc _) fun _ => .ite (.pure _) <| .ite (.pure _) <|
      .bind (local_bdata _) fun _ => .bind (local_syncBuffer _ _) fun _ => .pure _) (.pure _)

theorem local_inodeAddr (ctx : InodeCtx) (i : Nat) (alloc : Bool) :
    Local (xv6InodeAddr modcheck ctx i alloc) :=
  .ite (.pure _) <| .ite (.ite (.bind (local_balloc _) fun _ => .pure _) (.pure _)) <|
    .ite (.ite (.pure _) <| .bind (local_balloc _) fun _ => .ite (.pure _) <| .ite (.pure _) <|
      local_indirect _ _ _) (local_indirect _ _ _)

theorem local_syncInode (p : Ptr) : Local (xv6SyncInode p) :=
  .getEnv (fun _ _ => rfl) fun _ => .ite (.pure _) <| .bind (local_getInode p) fun _ =>
    .bind (local_assert _) fun _ => .bind (local_sbBread _) fun _ => .ite (.pure _) <|
      .bind (local_bdata _) fun _ => local_syncBuffer _ _

theorem local_dget (p : Ptr) : Local (xv6Dget p) :=
  .bind (local_getInode p) fun _ => .bind (local_assert _) fun _ => .getEnv (fun _ _ => rfl)
    fun _ => .bind (local_sbBread _) fun _ => .ite (.pure _) <| .bind (local_bdata _) fun _ =>
      .pure _

theorem local_initIctx (p : Ptr) : Local (xv6InitIctx p) := by
  refine .bind (local_getInode p) fun ino => ?_
  cases ino.priv with
  | some addrs => exact .pure _
  | none => exact .bind (local_dget p) fun _ => .pure _

theorem local_ictxDirty (p : Ptr) (ctx : InodeCtx) : Local (xv6IctxDirty p ctx) := by
  refine .ite (.pure _) <| .bind (local_modifyInode _ _) fun _ =>
    .bind (local_modifyInode _ _) fun _ => .bind (local_getInode p) fun ino => ?_
  cases ino.priv with
  | some addrs => exact .pure _
  | none =>
    exact .bind (local_modifyInode _ _) fun _ => .bind (local_syncInode p) fun _ =>
      .bind (local_modifyInode _ _) fun _ => .pure _

theorem local_inodeWblock (p : Ptr) (i : Nat) : Local (xv6InodeWblock p i) :=
  .bind (local_initIctx p) fun _ => .ite (.pure _) <| .bind (local_inodeAddr _ _ _) fun _ =>
    .bind (local_modifyInode _ _) fun _ => .ite (.pure _) <| .ite (.pure _) <|
      .bind (local_sbBread _) fun _ => .ite (.pure _) <| .bind (local_ictxDirty _ _) fun _ =>
        .pure _

end Xv6fs
