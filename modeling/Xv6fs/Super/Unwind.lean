/-
  How a mount that fails unwinds.

  What `xv6_fill_super` has taken is given back behind the label `out_fail`, and `fsinfo` is freed
  there first. From the time the root inode is held this is too early, because giving the inode back
  reads `fsinfo`; and when `d_make_root` fails the inode has been given back already and no error
  is set. A mount on which the checker stops at the root directory does not return at all
  (`mount_clean_iff`).
-/
import Xv6fs.Model.Mount
import Xv6fs.Super.Checker
import Xv6fs.Inode.Iget

namespace Xv6fs

open Traced

/-! ## The mount and its trace -/

theorem erases_getBuffer (block : Nat) : Erases (getBuffer block) (sbBread block) := by
  refine .andThen (.call _) fun ok => ?_
  cases ok with
  | true => exact .skip (.note _) (.pure true)
  | false => exact .pure false

theorem erases_putInode (p : Ptr) : Erases (putInode p) (iput p) := by
  refine .andThen (.call _) fun _ => .skip (.note _) (.trace fun t => ?_)
  split
  · exact .note _
  · exact .pure _

theorem erases_outFail (bh : Option Nat) : Erases (xv6FillSuper.outFail bh none) (pure ()) := by
  refine .skip (.note _) ?_
  cases bh with
  | some b => exact .skip (.note _) (.pure _)
  | none => exact .pure _

theorem erases_outFail_some (bh : Option Nat) (p : Ptr) :
    Erases (xv6FillSuper.outFail bh (some p)) (iput p) := by
  refine .skip (.note _) ?_
  cases bh with
  | some b => exact .skip (.note _) (erases_putInode p)
  | none => exact erases_putInode p

theorem erases_superblock : Erases xv6FillSuper.superblockRefs xv6FillSuper.superblock := by
  refine .bind (.call _) fun ok => .ite (.pure _) (.skip (.note _) ?_)
  refine .bind (erases_getBuffer 0) fun ok => .ite (.skip (erases_outFail none) (.pure _)) ?_
  exact .bind (.call _) fun blk => .skip (.note _) (.skip (.note _) (.pure _))

theorem erases_root : Erases xv6FillSuper.rootRefs xv6FillSuper.root := by
  refine .skip (.note _) (.bind (.call _) fun e => .ite (.skip (erases_outFail none) (.pure _)) ?_)
  refine .skip (.note _) (.bind (.call _) fun r => ?_)
  obtain ⟨root, found⟩ := r
  cases root with
  | none => exact .skip (erases_outFail none) (.pure _)
  | some p =>
    refine .skip (.note _) (.skip (.note _) (.bind (.call _) fun env => ?_))
    refine .bind (erases_getBuffer _) fun ok =>
      .ite (.bind (erases_outFail_some none p) fun _ => .pure _) ?_
    refine .bind (.call _) fun blk => .skip (.note _) (.bind (.call _) fun e => ?_)
    refine .ite (.bind (erases_outFail_some _ p) fun _ => .pure _) ?_
    refine .ite (.bind (erases_outFail_some _ p) fun _ => .pure _) (.skip (.note _) ?_)
    refine .bind (.call _) fun ok => .ite ?_ (.skip (.note _) (.pure _))
    exact .bind (erases_putInode p) fun _ => .bind (erases_outFail_some none p) fun _ => .pure _

/-- Without its trace the mount is `xv6FillSuper`. -/
theorem fillSuper_refs (w : World) :
    (xv6FillSuper.refs w).map (fun r => (r.1.1, r.2)) = xv6FillSuper w := by
  have hload := erases_superblock w []
  unfold xv6FillSuper.refs xv6FillSuper
  rw [← hload]
  cases (xv6FillSuper.superblockRefs []).run w with
  | error e => rfl
  | ok r =>
    obtain ⟨⟨r, t⟩, w₁⟩ := r
    cases r with
    | error e => rfl
    | ok sb => exact erases_root (w₁.setFsInfo sb) t

/-! ## A clean mount -/

/-- Every reference that was taken has been released once. -/
def Released (t : List MountEvent) : Prop :=
  (∀ b, t.count (.putBuffer b) = t.count (.getBuffer b)) ∧
    ∀ p, t.count (.putInode p) = t.count (.getInode p)

/-- `fsinfo` is not used after it has been freed. The latest event comes first. -/
def InfoLive (t : List MountEvent) : Prop :=
  t.Pairwise fun e e' => e = .useInfo → e' ≠ .freeInfo

/-- An error is returned when there is no root, and then everything has been released. -/
structure CleanMount (e : Int) (root : Option Ptr) (t : List MountEvent) : Prop where
  reported : e ≠ 0 ↔ root = none
  released : root = none → Released t
  live : InfoLive t

/-- The mount gets so far that it holds the root inode at `p`, in the state `w₁`. -/
def RootTaken (w : World) (p : Ptr) (w₁ : World) : Prop :=
  ∃ sb w₀ w₂ found, xv6FillSuper.superblock.run w = .ok (.ok sb, w₀) ∧
    (xv6Docheck modcheck).run (w₀.setFsInfo sb) = .ok (0, w₂) ∧
    (xv6FindInode ROOTINO).run w₂ = .ok ((some p, found), w₁)

/-- The first inode block can be read, the root is a directory, and there is memory for its
    addresses and for its dentry. -/
def RootLoads (w : World) : Prop :=
  w.env.io w.log.length = .ok ∧
    ((w.disk ((1 + w.env.info.nlog) % 2 ^ 32)).dinode ROOTINO).type = T_DIR ∧
    w.env.mem (w.log.length + 1) = true ∧ w.env.mem (w.log.length + 2) = true

/-- The checker is called, and does not get past the inode of the root directory. -/
def CheckerStops (w : World) : Prop :=
  RootRead (w.env.mem w.log.length = true ∧ w.env.io (w.log.length + 1) = .ok ∧
      w.env.io (w.log.length + 2) = .ok) (w.env.io (w.log.length + 3) = .ok) w.disk ∧
    ¬ RootFits w.disk

/-- The root inode at `p` is held. -/
def HoldsInode (p : Ptr) (t : List MountEvent) : Prop :=
  t.count (.putInode p) = 0 ∧ t.count (.getInode p) = 1

section

variable {w w' w₁ : World} {t t' : List MountEvent} {p : Ptr} {u : Unit}

theorem infoLive_of_not_mem (h : .freeInfo ∉ t) : InfoLive t :=
  List.pairwise_of_forall_mem_list fun _ _ _ he' _ hfree => h (hfree ▸ he')

theorem getBuffer_gives {b : Nat} {ok : Bool} (h : Gives (getBuffer b) w t ok w' t') :
    ok = decide (w.env.io w.log.length = .ok) ∧
      w' = w.logged (.bread b (w.env.io w.log.length)) ∧
      t' = if ok then .getBuffer b :: t else t := by
  obtain ⟨r, w₁, t₁, hcall, h⟩ := h.bind
  obtain ⟨hrun, rfl⟩ := hcall.call
  cases hrun
  rcases h.ite with ⟨hok, h⟩ | ⟨hno, h⟩
  · obtain ⟨u, w₂, t₂, hnote, h⟩ := h.bind
    obtain ⟨rfl, rfl⟩ := hnote.note
    obtain ⟨rfl, rfl, rfl⟩ := h.pure
    exact ⟨hok.symm, rfl, rfl⟩
  · obtain ⟨rfl, rfl, rfl⟩ := h.pure
    exact ⟨by simpa using hno, rfl, rfl⟩

/-- `iput` of the root inode when `fsinfo` has been freed. -/
theorem putInode_late (hheld : HoldsInode p t) (hfree : .freeInfo ∈ t)
    (h : Gives (putInode p) w t u w' t') : ¬ InfoLive t' := by
  obtain ⟨u₁, w₁, t₁, hcall, hrest⟩ := h.bind
  obtain rfl := hcall.call.2
  obtain ⟨u₂, w₂, t₂, hnote, hrest₂⟩ := hrest.bind
  obtain rfl := hnote.note.2
  obtain ⟨r, w₃, t₃, htrace, hend⟩ := hrest₂.bind
  obtain ⟨rfl, -, rfl⟩ := htrace.trace
  rcases hend.ite with ⟨-, hend⟩ | ⟨hne, -⟩
  · obtain rfl := hend.note.2
    intro hlive
    exact (List.pairwise_cons.mp hlive).1 _ (List.mem_cons_of_mem _ hfree) rfl rfl
  · refine absurd ?_ hne
    rw [List.count_cons_self, List.count_cons_of_ne (by simp), hheld.1, hheld.2]

theorem outFail_none (h : Gives (xv6FillSuper.outFail none none) w t u w' t') :
    t' = .freeInfo :: t := by
  obtain ⟨u₁, w₁, t₁, hnote, h⟩ := h.bind
  obtain ⟨rfl, rfl⟩ := hnote.note
  exact h.pure.2.2.symm

/-- While the root inode is held `out_fail` frees `fsinfo` too early. -/
theorem outFail_late {bh : Option Nat} {e : Int} {root : Option Ptr} (hheld : HoldsInode p t)
    (h : Gives (xv6FillSuper.outFail bh (some p)) w t u w' t') : ¬ CleanMount e root t' := by
  obtain ⟨u₁, w₁, t₁, hnote, hrest⟩ := h.bind
  obtain rfl := hnote.note.2
  cases bh with
  | none =>
    refine fun hclean => putInode_late ?_ (List.mem_cons_self ..) hrest hclean.live
    simpa [HoldsInode] using hheld
  | some b =>
    obtain ⟨u₂, w₂, t₂, hnote, hrest⟩ := hrest.bind
    obtain rfl := hnote.note.2
    refine fun hclean => putInode_late ?_ (List.mem_cons_of_mem _ (List.mem_cons_self ..)) hrest
      hclean.live
    simpa [HoldsInode] using hheld

/-- A mount that ends so is not clean. -/
theorem ends_late {bh : Option Nat} {res r : Int × Option Ptr} (hheld : HoldsInode p t)
    (h : Gives (do xv6FillSuper.outFail bh (some p); return res) w t r w' t') :
    ¬ CleanMount r.1 r.2 t' := by
  obtain ⟨u, w₁, t₁, hfail, hend⟩ := h.bind
  obtain ⟨-, -, rfl⟩ := hend.pure
  exact outFail_late hheld hfail

/-- `out_fail` before the root inode is held. -/
theorem cleanMount_early {e : Int} (he : e ≠ 0) (hlive : .freeInfo ∉ t) (hrel : Released t) :
    CleanMount e none (.freeInfo :: t) where
  reported := iff_of_true he rfl
  released _ := by
    refine ⟨fun b => ?_, fun p => ?_⟩
    · rw [List.count_cons_of_ne (by simp), List.count_cons_of_ne (by simp), hrel.1]
    · rw [List.count_cons_of_ne (by simp), List.count_cons_of_ne (by simp), hrel.2]
  live := List.pairwise_cons.mpr ⟨fun _ _ huse => (nomatch huse), infoLive_of_not_mem hlive⟩

/-! ## Where a mount ends -/

/-- The trace when the super block has been read. -/
def superblockTrace : List MountEvent := [.putBuffer 0, .useInfo, .getBuffer 0, .allocInfo]

theorem released_superblockTrace : Released superblockTrace := by
  refine ⟨fun b => ?_, fun p => ?_⟩ <;> simp [superblockTrace, List.count_cons]

theorem superblockRefs_gives {r : Except Int Superblock}
    (h : Gives xv6FillSuper.superblockRefs w [] r w' t') :
    (∃ e, r = .error e ∧ CleanMount e none t') ∨ ∃ sb, r = .ok sb ∧ t' = superblockTrace := by
  have hnil : Released ([] : List MountEvent) := ⟨fun _ => rfl, fun _ => rfl⟩
  obtain ⟨ok, w₁, t₁, hmem, hrest⟩ := h.bind
  obtain rfl := hmem.call.2
  rcases hrest.ite with ⟨-, hend⟩ | ⟨-, hrest⟩
  · obtain ⟨rfl, -, rfl⟩ := hend.pure
    exact .inl ⟨_, rfl, iff_of_true (by decide) rfl, fun _ => hnil, List.Pairwise.nil⟩
  obtain ⟨u, w₂, t₂, hnote, hrest⟩ := hrest.bind
  obtain rfl := hnote.note.2
  obtain ⟨ok, w₃, t₃, hread, hrest⟩ := hrest.bind
  obtain ⟨-, -, rfl⟩ := getBuffer_gives hread
  rcases hrest.ite with ⟨hno, hrest⟩ | ⟨hyes, hrest⟩
  · obtain ⟨u, w₄, t₄, hfail, hend⟩ := hrest.bind
    obtain rfl := outFail_none hfail
    obtain ⟨rfl, -, rfl⟩ := hend.pure
    obtain rfl : ok = false := by simpa using hno
    exact .inl ⟨_, rfl, cleanMount_early (by decide) (by decide)
      ⟨fun b => by simp, fun p => by simp⟩⟩
  obtain rfl : ok = true := by simpa using hyes
  obtain ⟨blk, w₄, t₄, hdata, hrest⟩ := hrest.bind
  obtain rfl := hdata.call.2
  obtain ⟨u, w₅, t₅, huse, hrest⟩ := hrest.bind
  obtain rfl := huse.note.2
  obtain ⟨u, w₆, t₆, hput, hend⟩ := hrest.bind
  obtain rfl := hput.note.2
  obtain ⟨rfl, -, rfl⟩ := hend.pure
  exact .inr ⟨_, rfl, rfl⟩

/-- A directory's inode is filled in when there is memory for its addresses. -/
theorem initInode_dir {dino : Dinode} {n : Nat} {e : Int} (htype : dino.type = T_DIR)
    (h : (xv6InitInode p dino n).run w = .ok (e, w')) :
    w'.env = w.env ∧ w'.log.length = w.log.length + 1 ∧
      (e = 0 ↔ w.env.mem w.log.length = true) := by
  have hret : Returns (xv6InitInode p dino n) w e w' := returns_iff.mpr h
  simp only [xv6InitInode, Returns, runs_bind_modifyInode] at hret
  rcases hret.ite with ⟨hno, -⟩ | ⟨-, hret⟩
  · exact absurd (.inl htype) hno
  simp only [runs_bind_modifyInode] at hret
  obtain ⟨ok, w₁, hmem, hret⟩ := hret.bind
  obtain ⟨-, hok, rfl⟩ := (runs_kmalloc _ _ _).mp hmem
  rcases hret.ite with ⟨hno, hend⟩ | ⟨hyes, hend⟩
  · obtain ⟨rfl, rfl⟩ := hend.pure
    refine ⟨rfl, rfl, iff_of_false (by decide) ?_⟩
    rw [hok] at hno
    simpa using hno
  · simp only [runs_bind_modifyInode] at hend
    obtain ⟨rfl, rfl⟩ := hend.pure
    refine ⟨rfl, rfl, iff_of_true rfl ?_⟩
    rw [hok] at hyes
    simpa using hyes

/-- The trace when the root inode is held. -/
def heldTrace (p : Ptr) : List MountEvent :=
  .getInode p :: .useInfo :: .useInfo :: superblockTrace

theorem heldTrace_holds : HoldsInode p (heldTrace p) := by
  simp [HoldsInode, heldTrace, superblockTrace]

/-- From then on the mount is clean when the root can be loaded, and is not otherwise. -/
theorem heldRefs_gives {r : Int × Option Ptr}
    (h : Gives (xv6FillSuper.heldRefs p) w (heldTrace p) r w' t') :
    CleanMount r.1 r.2 t' ↔ RootLoads w := by
  have hheld := heldTrace_holds (p := p)
  obtain ⟨u, w₀, t₀, huse, hrest⟩ := h.bind
  obtain ⟨rfl, rfl⟩ := huse.note
  obtain ⟨env, w₁, t₁, henv, hrest⟩ := hrest.bind
  obtain ⟨hrun, rfl⟩ := henv.call
  cases hrun
  -- the first inode block
  obtain ⟨ok, w₂, t₂, hread, hrest⟩ := hrest.bind
  obtain ⟨hok, hw₂, rfl⟩ := getBuffer_gives hread
  rcases hrest.ite with ⟨hno, hrest⟩ | ⟨hyes, hrest⟩
  · obtain rfl : ok = false := by simpa using hno
    refine iff_of_false (ends_late ?_ hrest) fun hloads => ?_
    · simpa [HoldsInode] using hheld
    · rw [decide_eq_true hloads.1] at hok
      cases hok
  obtain rfl : ok = true := by simpa using hyes
  have hio : w.env.io w.log.length = .ok := of_decide_eq_true hok.symm
  obtain ⟨blk, w₃, t₃, hdata, hrest⟩ := hrest.bind
  obtain ⟨hrun, rfl⟩ := hdata.call
  cases hrun
  obtain ⟨u, w₄, t₄, huse, hrest⟩ := hrest.bind
  obtain ⟨rfl, rfl⟩ := huse.note
  -- the root's inode
  obtain ⟨e, w₅, t₅, hcall, hrest⟩ := hrest.bind
  obtain ⟨hinit, rfl⟩ := hcall.call
  have hdir := fun htype => initInode_dir htype hinit
  have hlen : w₂.log.length = w.log.length + 1 := by rw [hw₂]; rfl
  have henv₂ : w₂.env = w.env := by rw [hw₂]; rfl
  have hdisk₂ : w₂.disk = w.disk := by rw [hw₂]; rfl
  rw [henv₂, hlen, hdisk₂] at hdir
  rcases hrest.ite with ⟨hne, hrest⟩ | ⟨heq, hrest⟩
  · refine iff_of_false (ends_late ?_ hrest) fun hloads => ?_
    · simpa [HoldsInode] using hheld
    · exact hne ((hdir hloads.2.1).2.2.mpr hloads.2.2.1)
  obtain rfl : e = 0 := not_not.mp heq
  rcases hrest.ite with ⟨hne, hrest⟩ | ⟨heq, hrest⟩
  · refine iff_of_false (ends_late ?_ hrest) fun hloads => ?_
    · simpa [HoldsInode] using hheld
    · rw [hdisk₂] at hne
      exact hne hloads.2.1
  rw [hdisk₂] at heq
  have htype := not_not.mp heq
  obtain ⟨henv₅, hlen₅, hmem⟩ := hdir htype
  obtain ⟨u, w₆, t₆, hput, hrest⟩ := hrest.bind
  obtain ⟨rfl, rfl⟩ := hput.note
  -- `d_make_root`
  obtain ⟨ok, w₇, t₇, hcall, hrest⟩ := hrest.bind
  obtain ⟨hdentry, rfl⟩ := hcall.call
  have hok₇ := ((runs_kmalloc _ _ _).mp (returns_iff.mpr hdentry)).2.1
  rw [henv₅, hlen₅] at hok₇
  rcases hrest.ite with ⟨hno, hrest⟩ | ⟨hyes, hrest⟩
  · obtain ⟨u, w₈, t₈, -, hrest⟩ := hrest.bind
    obtain ⟨u, w₉, t₉, -, hend⟩ := hrest.bind
    obtain ⟨rfl, -, rfl⟩ := hend.pure
    obtain rfl : ok = false := by simpa using hno
    -- the error is still 0
    refine iff_of_false (fun hclean => hclean.reported.mpr rfl rfl) fun hloads => ?_
    rw [hloads.2.2.2] at hok₇
    cases hok₇
  · obtain ⟨u, w₈, t₈, huse, hend⟩ := hrest.bind
    obtain ⟨-, rfl⟩ := huse.note
    obtain ⟨rfl, -, rfl⟩ := hend.pure
    obtain rfl : ok = true := by simpa using hyes
    refine iff_of_true ⟨iff_of_false (by simp) (by simp), fun hnone => (nomatch hnone), ?_⟩
      ⟨hio, htype, hmem.mp rfl, hok₇.symm⟩
    exact infoLive_of_not_mem (by simp [heldTrace, superblockTrace])

theorem rootRefs_gives {r : Int × Option Ptr}
    (h : Gives xv6FillSuper.rootRefs w superblockTrace r w' t') :
    (CleanMount r.1 r.2 t' ∧ ∀ w₂ p found w₁, (xv6Docheck modcheck).run w = .ok (0, w₂) →
        (xv6FindInode ROOTINO).run w₂ ≠ .ok ((some p, found), w₁)) ∨
      ∃ w₂ p found w₁, (xv6Docheck modcheck).run w = .ok (0, w₂) ∧
        (xv6FindInode ROOTINO).run w₂ = .ok ((some p, found), w₁) ∧
        (CleanMount r.1 r.2 t' ↔ RootLoads w₁) := by
  have hearly : ∀ {e : Int} {n : Nat}, e ≠ 0 →
      CleanMount e none (.freeInfo :: (List.replicate n .useInfo ++ superblockTrace)) := by
    intro e n he
    refine cleanMount_early he ?_ ⟨fun b => ?_, fun p => ?_⟩
    · simp [superblockTrace]
    · simp [List.count_replicate, released_superblockTrace.1 b]
    · simp [List.count_replicate, released_superblockTrace.2 p]
  obtain ⟨u, w₀, t₀, huse, hrest⟩ := h.bind
  obtain ⟨rfl, rfl⟩ := huse.note
  obtain ⟨e, w₂, t₂, hcheck, hrest⟩ := hrest.bind
  obtain ⟨hdoc, rfl⟩ := hcheck.call
  rcases hrest.ite with ⟨hne, hrest⟩ | ⟨heq, hrest⟩
  · obtain ⟨u, w₃, t₃, hfail, hend⟩ := hrest.bind
    obtain rfl := outFail_none hfail
    obtain ⟨rfl, -, rfl⟩ := hend.pure
    refine .inl ⟨hearly (n := 1) (by decide), fun _ _ _ _ hz => ?_⟩
    rw [hdoc] at hz
    cases hz
    exact absurd rfl hne
  obtain rfl : e = 0 := not_not.mp heq
  obtain ⟨u, w₃, t₃, huse, hrest⟩ := hrest.bind
  obtain ⟨rfl, rfl⟩ := huse.note
  obtain ⟨⟨root, found⟩, w₁, t₁, hfind, hrest⟩ := hrest.bind
  obtain ⟨hinode, rfl⟩ := hfind.call
  cases root with
  | none =>
    obtain ⟨u, w₄, t₄, hfail, hend⟩ := hrest.bind
    obtain rfl := outFail_none hfail
    obtain ⟨rfl, -, rfl⟩ := hend.pure
    refine .inl ⟨hearly (n := 2) (by decide), fun _ _ _ _ hz hroot => ?_⟩
    rw [hdoc] at hz
    cases hz
    rw [hinode] at hroot
    cases hroot
  | some p =>
    obtain ⟨u, w₄, t₄, hget, hrest⟩ := hrest.bind
    obtain ⟨rfl, rfl⟩ := hget.note
    exact .inr ⟨_, p, found, _, hdoc, hinode, heldRefs_gives hrest⟩

/-- A mount that returns is clean exactly when it does not fail once it holds the root inode. -/
theorem returned_clean_iff {e : Int} {root : Option Ptr}
    (h : xv6FillSuper.refs w = .ok (((e, root), t), w')) :
    CleanMount e root t ↔ ∀ p w₁, RootTaken w p w₁ → RootLoads w₁ := by
  unfold xv6FillSuper.refs at h
  cases hload : (xv6FillSuper.superblockRefs []).run w with
  | error halt =>
    rw [hload] at h
    cases h
  | ok r =>
    obtain ⟨⟨r, t₁⟩, w₁⟩ := r
    rw [hload] at h
    have hrun := erases_superblock.run hload
    rcases superblockRefs_gives hload with ⟨e', rfl, hclean⟩ | ⟨sb, rfl, rfl⟩
    · cases h
      refine iff_of_true hclean fun p w₂ htaken => ?_
      obtain ⟨sb, w₀, w₃, found, hsb, -⟩ := htaken
      rw [hrun] at hsb
      cases hsb
    · have htaken : ∀ {p w₂}, RootTaken w p w₂ → ∃ w₃ found,
          (xv6Docheck modcheck).run (w₁.setFsInfo sb) = .ok (0, w₃) ∧
            (xv6FindInode ROOTINO).run w₃ = .ok ((some p, found), w₂) := by
        rintro p w₂ ⟨sb', w₀, w₃, found, hsb, hdoc, hinode⟩
        rw [hrun] at hsb
        cases hsb
        exact ⟨w₃, found, hdoc, hinode⟩
      rcases rootRefs_gives h with ⟨hclean, hno⟩ | ⟨w₃, p, found, w₂, hdoc, hinode, hiff⟩
      · refine iff_of_true hclean fun p w₂ hroot => ?_
        obtain ⟨w₃, found, hdoc, hinode⟩ := htaken hroot
        exact absurd hinode (hno w₃ p found w₂ hdoc)
      · refine hiff.trans ⟨fun hloads q w₄ hroot => ?_, fun hall => ?_⟩
        · obtain ⟨w₅, found', hdoc', hinode'⟩ := htaken hroot
          rw [hdoc] at hdoc'
          cases hdoc'
          rw [hinode] at hinode'
          cases hinode'
          exact hloads
        · exact hall p w₂ ⟨sb, w₁, w₃, found, hrun, hdoc, hinode⟩

/-! ## Where a mount returns -/

/-- The super block is read when there is memory for `fsinfo` and block 0 can be read. -/
theorem superblock_ok_iff {sb : Superblock} :
    xv6FillSuper.superblock.run w = .ok (.ok sb, w₁) ↔
      w.env.mem w.log.length = true ∧ w.env.io (w.log.length + 1) = .ok ∧
        sb = (w.disk 0).superblock ∧
        w₁ = { w with log := .bread 0 .ok :: .alloc true :: w.log } := by
  rw [← returns_iff]
  constructor
  · intro h
    obtain ⟨ok, w₂, hmem, h⟩ := h.bind
    obtain ⟨-, hok, rfl⟩ := (runs_kmalloc _ _ _).mp hmem
    rcases h.ite with ⟨-, h⟩ | ⟨hyes, h⟩
    · cases h.pure.1
    obtain ⟨ok', w₃, hread, h⟩ := h.bind
    obtain ⟨-, hok', rfl⟩ := (runs_sbBread 0 _ _ _).mp hread
    rcases h.ite with ⟨-, h⟩ | ⟨hyes', h⟩
    · cases h.pure.1
    simp only [runs_bind_bdata] at h
    obtain ⟨hr, rfl⟩ := h.pure
    cases hr
    have hmem : w.env.mem w.log.length = true := by
      rw [hok] at hyes
      simpa using hyes
    have hio : w.env.io (w.log.length + 1) = .ok := by
      rw [hok'] at hyes'
      rw [Bool.not_eq_true', Bool.not_eq_false, decide_eq_true_eq] at hyes'
      exact hyes'
    refine ⟨hmem, hio, rfl, ?_⟩
    simp [World.logged, hmem, hio]
  · rintro ⟨hmem, hio, rfl, rfl⟩
    simp [xv6FillSuper.superblock, World.logged, hmem, hio]

theorem total_superblock : Prog.Total xv6FillSuper.superblock := by
  unfold xv6FillSuper.superblock
  refine .bind total_kmalloc fun ok => ?_
  cases ok with
  | false => exact Prog.total_pure _
  | true =>
    refine .bind (total_sbBread 0) fun ok => ?_
    cases ok with
    | false => exact Prog.total_pure _
    | true => exact .bind (total_bdata 0) fun blk => Prog.total_pure _

/-- The checker of a mount returns unless it stops at the root directory. -/
theorem docheck_of_superblock {sb : Superblock} {w₀ : World}
    (h : xv6FillSuper.superblock.run w = .ok (.ok sb, w₀)) :
    (∃ e w', (xv6Docheck modcheck).run (w₀.setFsInfo sb) = .ok (e, w')) ↔ ¬ CheckerStops w := by
  obtain ⟨hmem, hio, rfl, rfl⟩ := superblock_ok_iff.mp h
  have hiff := xv6Docheck_returns_iff (World.setFsInfo
    { w with log := .bread 0 .ok :: .alloc true :: w.log } (w.disk 0).superblock)
  refine hiff.trans ⟨fun hfits hstops => ?_, fun hgoes hread => ?_⟩
  · obtain ⟨⟨⟨-, -, h0⟩, hmagic, hlayout, hinodes, hnull⟩, hbad⟩ := hstops
    exact hbad (hfits ⟨h0, hmagic, hlayout, hinodes, hnull⟩)
  · obtain ⟨h0, hmagic, hlayout, hinodes, hnull⟩ := hread
    by_contra hbad
    exact hgoes ⟨⟨⟨hmem, hio, h0⟩, hmagic, hlayout, hinodes, hnull⟩, hbad⟩

/-- A root inode that loads is handed to `d_make_root`. -/
theorem initInode_loads {dino : Dinode} (hdir : dino.type = T_DIR)
    (hmem : w.env.mem w.log.length = true) :
    ∃ w', Returns (xv6InitInode p dino ROOTINO) w 0 w' := by
  simp [xv6InitInode, hmem, World.logged, hdir]

/-- From the call of the checker on the mount returns, when the checker does and a root inode that
    is held can be loaded. -/
theorem root_returns (hcheck : ∃ e w', (xv6Docheck modcheck).run w = .ok (e, w'))
    (hloads : ∀ w₂ p found w₁, (xv6Docheck modcheck).run w = .ok (0, w₂) →
      (xv6FindInode ROOTINO).run w₂ = .ok ((some p, found), w₁) → RootLoads w₁) :
    ∃ r w', Returns xv6FillSuper.root w r w' := by
  obtain ⟨e, w₂, hdoc⟩ := hcheck
  obtain ⟨⟨root, found⟩, w₁, hfind⟩ := total_findInode ROOTINO w₂
  refine returns_bind_exists (returns_iff.mpr hdoc) ?_
  by_cases he : e = 0
  · subst he
    rw [if_neg (not_not.mpr rfl)]
    refine returns_bind_exists (returns_iff.mpr hfind) ?_
    cases root with
    | none => exact ⟨_, _, (Prog.via_pure _ _ _ _).mpr ⟨rfl, rfl⟩⟩
    | some p =>
      obtain ⟨hio, hdir, hmem, hdentry⟩ := hloads w₂ p found w₁ hdoc hfind
      simp only [Returns, runs_bind_getEnv]
      refine returns_bind_exists ((runs_sbBread _ _ _ _).mpr ⟨trivial, rfl, rfl⟩) ?_
      simp only [hio, decide_true, Bool.not_true, Bool.false_eq_true, if_false, Returns,
        runs_bind_bdata]
      obtain ⟨w₃, hinit⟩ := initInode_loads (p := p) (w := w₁.logged (.bread _ .ok)) hdir hmem
      refine returns_bind_exists hinit ?_
      rw [if_neg (not_not.mpr rfl), show ∀ e, (w₁.logged e).disk = w₁.disk from fun _ => rfl,
        if_neg (not_not.mpr hdir)]
      obtain ⟨henv, hlen, -⟩ := initInode_dir hdir (returns_iff.mp hinit)
      refine returns_bind_exists ((runs_kmalloc _ _ _).mpr ⟨trivial, rfl, rfl⟩) ?_
      have hyes : w₃.env.mem w₃.log.length = true := by
        rw [henv, hlen]
        exact hdentry
      rw [hyes]
      exact ⟨_, _, (Prog.via_pure _ _ _ _).mpr ⟨rfl, rfl⟩⟩
  · rw [if_pos he]
    exact ⟨_, _, (Prog.via_pure _ _ _ _).mpr ⟨rfl, rfl⟩⟩

/-- A mount returns clean exactly when the checker does not stop at the root directory and nothing
    fails once the root inode is held. -/
theorem mount_clean_iff (w : World) :
    (∃ e root t w', xv6FillSuper.refs w = .ok (((e, root), t), w') ∧ CleanMount e root t) ↔
      ¬ CheckerStops w ∧ ∀ p w₁, RootTaken w p w₁ → RootLoads w₁ := by
  have herase := fillSuper_refs w
  obtain ⟨r, w₀, hload⟩ := total_superblock w
  constructor
  · rintro ⟨e, root, t, w', hrun, hclean⟩
    refine ⟨fun hstops => ?_, (returned_clean_iff hrun).mp hclean⟩
    have hsb : xv6FillSuper.superblock.run w = .ok (.ok (w.disk 0).superblock, _) :=
      superblock_ok_iff.mpr ⟨hstops.1.super.1, hstops.1.super.2.1, rfl, rfl⟩
    rw [hrun, fillSuper_eq hsb] at herase
    obtain ⟨e₀, w₂, hdoc, -⟩ := (returns_iff.mpr herase.symm).bind
    exact (docheck_of_superblock hsb).mp ⟨e₀, w₂, returns_iff.mp hdoc⟩ hstops
  · rintro ⟨hgoes, hloads⟩
    have hret : ∃ r w', xv6FillSuper w = .ok (r, w') := by
      cases r with
      | error e =>
        refine ⟨(e, none), w₀, ?_⟩
        unfold xv6FillSuper
        rw [hload]
        rfl
      | ok sb =>
        have hheld : ∀ w₂ p found w₁,
            (xv6Docheck modcheck).run (w₀.setFsInfo sb) = .ok (0, w₂) →
            (xv6FindInode ROOTINO).run w₂ = .ok ((some p, found), w₁) → RootLoads w₁ :=
          fun w₂ p found w₁ hdoc hfind => hloads p w₁ ⟨sb, w₀, w₂, found, hload, hdoc, hfind⟩
        obtain ⟨r, w', hroot⟩ := root_returns ((docheck_of_superblock hload).mpr hgoes) hheld
        exact ⟨r, w', (fillSuper_eq hload).trans (returns_iff.mp hroot)⟩
    obtain ⟨r, w', hret⟩ := hret
    rw [hret] at herase
    cases hrun : xv6FillSuper.refs w with
    | error halt =>
      rw [hrun] at herase
      cases herase
    | ok s =>
      obtain ⟨⟨⟨e, root⟩, t⟩, w'⟩ := s
      exact ⟨e, root, t, w', rfl, (returned_clean_iff hrun).mpr hloads⟩

end

/-! ## Two mounts that are not clean -/

theorem refs_of_eq_some {w : World} {r : (Int × Option Ptr) × List MountEvent}
    (h : (xv6FillSuper.refs w).toOption.map Prod.fst = some r) :
    ∃ w', xv6FillSuper.refs w = .ok (r, w') := by
  cases hrun : xv6FillSuper.refs w with
  | error halt =>
    rw [hrun] at h
    cases h
  | ok s =>
    rw [hrun] at h
    cases h
    exact ⟨s.2, rfl⟩

/-- The file system of an empty root directory, before it is mounted. -/
def unmountedRoot (io : Nat → Fate) (mem : Nat → Bool) : World :=
  .unmounted { Env.calm .little with io := io, mem := mem } (emptyRoot 200 4200)

/-- There is no memory for the root's dentry; and the first inode block cannot be read. -/
theorem mount_unclean :
    (∃ t w', xv6FillSuper.refs (unmountedRoot (fun _ => .ok) fun n => n ≠ 7) =
        .ok (((0, none), t), w') ∧ ¬ CleanMount 0 none t) ∧
      ∃ t w', xv6FillSuper.refs
          (unmountedRoot (fun n => if n = 5 then .kept else .ok) fun _ => true) =
        .ok (((- EIO, none), t), w') ∧ ¬ CleanMount (- EIO) none t := by
  constructor
  · obtain ⟨w', hrun⟩ := refs_of_eq_some (w := unmountedRoot (fun _ => .ok) fun n => n ≠ 7)
      (r := ((0, none), .putInode 0 :: .freeInfo :: .useInfo :: .putInode 0 :: .putBuffer 1 ::
        .useInfo :: .getBuffer 1 :: .useInfo :: heldTrace 0)) (by decide +kernel)
    exact ⟨_, w', hrun, fun hclean => hclean.reported.mpr rfl rfl⟩
  · obtain ⟨w', hrun⟩ := refs_of_eq_some
      (w := unmountedRoot (fun n => if n = 5 then .kept else .ok) fun _ => true)
      (r := ((- EIO, none), .useInfo :: .putInode 0 :: .freeInfo :: .useInfo :: heldTrace 0))
      (by decide +kernel)
    refine ⟨_, w', hrun, fun hclean => ?_⟩
    exact (List.pairwise_cons.mp hclean.live).1 .freeInfo (by simp) rfl rfl

end Xv6fs
