/-
  Calls of xv6_iget that run at the same time.

  The critical section of xv6_find_inode is one step, and the read of the slot, xv6_init_inode, the
  iput of an inode that could not be loaded and the xv6_free_inode that follows it are steps of
  their own, so a call is up to five steps (`iget_is_run`). The VFS calls xv6_free_inode from an RCU
  callback, some time after the call has returned its error. A node is in the tree from the first
  of the steps until then. As long as no call finds a node that another one is still loading, or
  that has been evicted and not yet freed, every inode that is returned has been initialised
  (`iget_initialised`); a call that does find one returns it as it is (`iget_uninitialised`).
-/
import Xv6fs.Lib.Steps
import Xv6fs.Inode.Iget

namespace Xv6fs

/-! ## The system -/

/-- How far a call has got. -/
inductive IgetPhase where
  | start
  /-- A node of its own is in the tree. -/
  | reading (p : Ptr)
  /-- The block of the slot has been read. -/
  | filling (p : Ptr)
  /-- The load has failed. -/
  | dropping (p : Ptr) (e : Int)
  /-- The error has been returned, and the inode has been evicted and not yet freed. -/
  | evicted (p : Ptr) (e : Int)
  | done (r : Except Int Ptr)

/-- Is the call loading the inode at `p`, or has it failed to and `p` has not been freed yet? -/
def IgetPhase.Loads (ph : IgetPhase) (p : Ptr) : Prop :=
  ph = .reading p ∨ ph = .filling p ∨ ∃ e, ph = .dropping p e ∨ ph = .evicted p e

/-- `inited` and `failed` record the number for which `xv6_init_inode` of an inode has completed,
    and whether a load of it has failed. -/
structure IgetState (ι : Type) where
  world : World
  phase : ι → IgetPhase
  inited : Ptr → Option Nat
  failed : Ptr → Bool

inductive IgetLabel (ι : Type) where
  | find (i : ι)
  | read (i : ι)
  | fill (i : ι)
  | evict (i : ι)
  | free (i : ι)

/-- From the use of the buffer on: the error of `xv6_init_inode`. -/
def xv6Iget.fill (p : Ptr) (inum : Nat) : Fs Int := do
  let env ← getEnv
  let dino := (← bdata (inodeBlock env inum)).dinode (inum % IPB)
  modifyInode p fun ino => { ino with ino := inum }
  xv6InitInode p dino inum

/-- `iput` up to the eviction of the inode, and whether it is to be freed. -/
def iput.evict (p : Ptr) : Fs Bool := do
  let ino ← getInode p
  if ino.nlink ≠ 0 ∧ ino.hashed then
    return false
  xv6EvictInode p
  return true

/-- What a call does with the result of `xv6_find_inode`. -/
def IgetPhase.found : Option Ptr × Bool → IgetPhase
  | (none, _) => .done (.error (-ENOMEM))
  | (some p, true) => .done (.ok p)
  | (some p, false) => .reading p

section

variable {ι : Type} [DecidableEq ι]

/-- One step of one of the calls, the `i`-th of which is for number `num i`. -/
inductive IgetStep (num : ι → Nat) : IgetState ι → IgetLabel ι → IgetState ι → Prop where
  | find {w w' : World} {phase : ι → IgetPhase} {inited : Ptr → Option Nat} {failed : Ptr → Bool}
      {i : ι} {r : Option Ptr × Bool} (h : phase i = .start)
      (hnum : num i ≠ 0 ∧ num i < w.env.info.ninodes)
      (hret : Returns (xv6FindInode (num i)) w r w') :
      IgetStep num ⟨w, phase, inited, failed⟩ (.find i)
        ⟨w', Function.update phase i (.found r), inited, failed⟩
  | read {w w' : World} {phase : ι → IgetPhase} {inited : Ptr → Option Nat} {failed : Ptr → Bool}
      {i : ι} {p : Ptr} {ok : Bool} (h : phase i = .reading p)
      (hret : Returns (sbBread (inodeBlock w.env (num i))) w ok w') :
      IgetStep num ⟨w, phase, inited, failed⟩ (.read i)
        ⟨w', Function.update phase i (if ok then .filling p else .dropping p (- EIO)), inited,
          Function.update failed p (!ok)⟩
  | fill {w w' : World} {phase : ι → IgetPhase} {inited : Ptr → Option Nat} {failed : Ptr → Bool}
      {i : ι} {p : Ptr} {e : Int} (h : phase i = .filling p)
      (hret : Returns (xv6Iget.fill p (num i)) w e w') :
      IgetStep num ⟨w, phase, inited, failed⟩ (.fill i)
        ⟨w', Function.update phase i (if e = 0 then .done (.ok p) else .dropping p e),
          Function.update inited p (if e = 0 then some (num i) else none),
          Function.update failed p (decide (e ≠ 0))⟩
  | evict {w w' : World} {phase : ι → IgetPhase} {inited : Ptr → Option Nat} {failed : Ptr → Bool}
      {i : ι} {p : Ptr} {e : Int} {last : Bool} (h : phase i = .dropping p e)
      (hret : Returns (iput.evict p) w last w') :
      IgetStep num ⟨w, phase, inited, failed⟩ (.evict i)
        ⟨w', Function.update phase i (if last then .evicted p e else .done (.error e)), inited,
          failed⟩
  | free {w w' : World} {phase : ι → IgetPhase} {inited : Ptr → Option Nat} {failed : Ptr → Bool}
      {i : ι} {p : Ptr} {e : Int} {u : Unit} (h : phase i = .evicted p e)
      (hret : Returns (xv6FreeInode p) w u w') :
      IgetStep num ⟨w, phase, inited, failed⟩ (.free i)
        ⟨w', Function.update phase i (.done (.error e)), inited, failed⟩

/-- No node of the number a call looks for is being loaded, or has been evicted and not yet
    freed. -/
def NotLoading (num : ι → Nat) (s : IgetState ι) : IgetLabel ι → Prop
  | .find i => ∀ p, p ∈ s.world.tree → (s.world.inodes p).ino = num i →
      ∀ j, ¬ (s.phase j).Loads p
  | _ => True

/-- Every inode that a call has returned has been initialised for its number, and no load of it has
    failed. -/
def AllInitialised (num : ι → Nat) (s : IgetState ι) : Prop :=
  ∀ i p, s.phase i = .done (.ok p) → s.inited p = some (num i) ∧ s.failed p = false

/-! ## One call alone -/

/-- The drop of an inode that could not be loaded, with nothing between the eviction and the
    free. -/
theorem dropping_is_run {num : ι → Nat} {w w' : World} {phase : ι → IgetPhase}
    {inited : Ptr → Option Nat} {failed : Ptr → Bool} {i : ι} {p : Ptr} {e : Int} {u : Unit}
    (hphase : phase i = .dropping p e) (h : Returns (iput p) w u w') :
    ∃ as, Steps (IgetStep num) ⟨w, phase, inited, failed⟩ as
      ⟨w', Function.update phase i (.done (.error e)), inited, failed⟩ := by
  simp only [iput, Returns, runs_bind_getInode] at h
  rcases h.ite with ⟨hkeep, hend⟩ | ⟨hgo, hend⟩
  · obtain ⟨-, rfl⟩ := hend.pure
    have hret : Returns (iput.evict p) w false w := by
      simp only [iput.evict, Returns, runs_bind_getInode]
      rw [if_pos hkeep]
      exact (Prog.via_pure _ _ _ _).mpr ⟨rfl, rfl⟩
    exact ⟨_, .single (.evict hphase hret)⟩
  · obtain ⟨v, w₁, hevict, hfree⟩ := hend.bind
    have hret : Returns (iput.evict p) w true w₁ := by
      simp only [iput.evict, Returns, runs_bind_getInode]
      rw [if_neg hgo]
      exact (returns_bind hevict).mpr ((Prog.via_pure _ _ _ _).mpr ⟨rfl, rfl⟩)
    have hstep : IgetStep num ⟨w, phase, inited, failed⟩ (.evict i) ⟨w₁, _, inited, failed⟩ :=
      .evict hphase hret
    have hstep₂ : IgetStep num ⟨w₁, Function.update phase i (.evicted p e), inited, failed⟩
        (.free i) ⟨w', _, inited, failed⟩ := .free (Function.update_self _ _ _) hfree
    rw [Function.update_idem] at hstep₂
    exact ⟨_, .cons hstep (.single hstep₂)⟩

/-- A run of `xv6_iget` is a run of its steps. -/
theorem iget_is_run {num : ι → Nat} {w w' : World} {phase : ι → IgetPhase}
    {inited : Ptr → Option Nat} {failed : Ptr → Bool} {i : ι} {r : Except Int Ptr}
    (hstart : phase i = .start) (h : Returns (xv6Iget (num i)) w r w') :
    ∃ as inited' failed', Steps (IgetStep num) ⟨w, phase, inited, failed⟩ as
      ⟨w', Function.update phase i (.done r), inited', failed'⟩ := by
  have hself : ∀ (ph : ι → IgetPhase) x, Function.update ph i x i = x := fun ph x =>
    Function.update_self _ _ _
  simp only [xv6Iget, runs_bind_getEnv, runs_bind_assert] at h
  obtain ⟨hnum, hrun⟩ := h
  obtain ⟨⟨q, found⟩, w₁, hfind, hrest⟩ := hrun.bind
  have hstep : IgetStep num ⟨w, phase, inited, failed⟩ (.find i) ⟨w₁, _, _, _⟩ :=
    .find hstart hnum hfind
  have henv₁ : w₁.env = w.env := Runs.env_eq hfind
  cases q with
  | none =>
    obtain ⟨rfl, rfl⟩ := hrest.pure
    exact ⟨_, _, _, .single hstep⟩
  | some p =>
    cases found with
    | true =>
      obtain ⟨rfl, rfl⟩ := hrest.pure
      exact ⟨_, _, _, .single hstep⟩
    | false =>
      obtain ⟨ok, w₂, hread, hload⟩ := hrest.bind
      have hread' : Returns (sbBread (inodeBlock w₁.env (num i))) w₁ ok w₂ := by
        rw [henv₁]
        exact hread
      have hstep₂ : IgetStep num ⟨w₁, _, inited, failed⟩ (.read i) ⟨w₂, _, _, _⟩ :=
        .read (hself phase (.reading p)) hread'
      rw [Function.update_idem] at hstep₂
      have henv₂ : w₂.env = w.env := (Runs.env_eq hread).trans henv₁
      rcases hload.ite with ⟨hnull, hend⟩ | ⟨hbuf, hend⟩
      · obtain rfl : ok = false := by simpa using hnull
        obtain ⟨u, w₃, hput, hlast⟩ := hend.bind
        obtain ⟨rfl, rfl⟩ := hlast.pure
        have hdrop : ∃ as, Steps (IgetStep num) ⟨w₂, _, inited, Function.update failed p true⟩ as
            ⟨w₃, _, inited, _⟩ := dropping_is_run (hself phase (.dropping p (- EIO))) hput
        rw [Function.update_idem] at hdrop
        obtain ⟨as, hdrop⟩ := hdrop
        exact ⟨_, _, _, .cons hstep (.cons hstep₂ hdrop)⟩
      · obtain rfl : ok = true := by simpa using hbuf
        simp only [runs_bind_bdata, runs_bind_modifyInode] at hend
        obtain ⟨e, w₃, hinit, hlast⟩ := hend.bind
        have hfill : Returns (xv6Iget.fill p (num i)) w₂ e w₃ := by
          simp only [xv6Iget.fill, runs_bind_getEnv, runs_bind_bdata, runs_bind_modifyInode]
          rw [show inodeBlock w₂.env (num i) = inodeBlock w.env (num i) by rw [henv₂]]
          exact hinit
        have hstep₃ : IgetStep num ⟨w₂, _, inited, Function.update failed p (!true)⟩ (.fill i)
            ⟨w₃, _, _, _⟩ := .fill (hself phase (.filling p)) hfill
        rw [Function.update_idem] at hstep₃
        rcases hlast.ite with ⟨hne, hlast⟩ | ⟨heq, hlast⟩
        · obtain ⟨u, w₄, hput, hlast⟩ := hlast.bind
          obtain ⟨rfl, rfl⟩ := hlast.pure
          rw [if_neg hne] at hstep₃
          have hdrop : ∀ inited failed, ∃ as, Steps (IgetStep num) ⟨w₃, _, inited, failed⟩ as
              ⟨w₄, _, inited, failed⟩ := fun _ _ =>
            dropping_is_run (hself phase (.dropping p e)) hput
          simp only [Function.update_idem] at hdrop
          obtain ⟨as, hdrop⟩ := hdrop _ _
          exact ⟨_, _, _, .cons hstep (.cons hstep₂ (.cons hstep₃ hdrop))⟩
        · obtain rfl : e = 0 := not_not.mp heq
          obtain ⟨rfl, rfl⟩ := hlast.pure
          exact ⟨_, _, _, .cons hstep (.cons hstep₂ (.single hstep₃))⟩

/-! ## The invariant -/

/-- Every node of the tree has been initialised, or is being loaded by exactly one call, which has
    its only reference. -/
structure LoadInv (num : ι → Nat) (s : IgetState ι) : Prop where
  nodup : s.world.tree.Nodup
  below : ∀ p, p ∈ s.world.tree → p < s.world.next
  fresh : ∀ p, s.world.next ≤ p → s.inited p = none
  tree : ∀ p, p ∈ s.world.tree → (∃ j, (s.phase j).Loads p) ∨
    (s.inited p = some (s.world.inodes p).ino ∧ s.failed p = false)
  loads : ∀ j p, (s.phase j).Loads p → p ∈ s.world.tree ∧ s.inited p = none ∧
    (s.world.inodes p).ino = num j ∧ (s.world.inodes p).refcount = 1 ∧
    (s.world.inodes p).hashed = false
  once : ∀ j k p, (s.phase j).Loads p → (s.phase k).Loads p → j = k
  good : AllInitialised num s

/-- No call has started, and the nodes in the tree have been initialised before. -/
def IgetState.init (ι : Type) (w : World) : IgetState ι where
  world := w
  phase _ := .start
  inited p := if p ∈ w.tree then some (w.inodes p).ino else none
  failed _ := false

namespace IgetPhase

theorem not_loads_done {r : Except Int Ptr} {p : Ptr} : ¬ (done r).Loads p := by
  rintro (h | h | ⟨e, h | h⟩) <;> cases h

theorem not_loads_start {p : Ptr} : ¬ start.Loads p := by
  rintro (h | h | ⟨e, h | h⟩) <;> cases h

/-- A call loads one inode at most. -/
theorem Loads.eq {ph : IgetPhase} {p q : Ptr} (h : ph.Loads p) (h' : ph.Loads q) : q = p := by
  rcases h with rfl | rfl | ⟨e, rfl | rfl⟩ <;>
    rcases h' with h' | h' | ⟨e', h' | h'⟩ <;> cases h' <;> rfl

end IgetPhase

variable {num : ι → Nat} {s t : IgetState ι} {a : IgetLabel ι} {as : List (IgetLabel ι)}

omit [DecidableEq ι] in
theorem LoadInv.init {w : World} (hnodup : w.tree.Nodup) (hbelow : ∀ p, p ∈ w.tree → p < w.next) :
    LoadInv num (.init ι w) where
  nodup := hnodup
  below := hbelow
  fresh p hp := if_neg fun hmem => absurd (hbelow p hmem) (not_lt.mpr hp)
  tree p hp := .inr ⟨if_pos hp, rfl⟩
  loads j p h := absurd h IgetPhase.not_loads_start
  once j k p h := absurd h IgetPhase.not_loads_start
  good i p h := by cases h

/-- How a call that loads `p` may go on: it still loads it, or returns it initialised, or has taken
    it out of the tree. -/
inductive GoesOn (n : Nat) (t : IgetState ι) (p : Ptr) : IgetPhase → Prop where
  | loads {ph : IgetPhase} (h : ph.Loads p) (hmem : p ∈ t.world.tree) (hinit : t.inited p = none)
      (hino : (t.world.inodes p).ino = n) (href : (t.world.inodes p).refcount = 1)
      (hhash : (t.world.inodes p).hashed = false) : GoesOn n t p ph
  | returns (hmem : p ∈ t.world.tree) (hino : (t.world.inodes p).ino = n)
      (hinit : t.inited p = some n) (hfail : t.failed p = false) : GoesOn n t p (.done (.ok p))
  | drops {e : Int} (hmem : p ∉ t.world.tree) : GoesOn n t p (.done (.error e))

/-- A step of a call that loads `p` and changes nothing about other inodes. -/
theorem LoadInv.change (hi : LoadInv num s) {i : ι} {p : Ptr} {ph : IgetPhase}
    (hload : (s.phase i).Loads p) (hphase : t.phase = Function.update s.phase i ph)
    (hnext : t.world.next = s.world.next) (hnodup : t.world.tree.Nodup)
    (hother : ∀ q, q ≠ p → t.world.inodes q = s.world.inodes q ∧ t.inited q = s.inited q ∧
      t.failed q = s.failed q ∧ (q ∈ t.world.tree ↔ q ∈ s.world.tree))
    (hself : GoesOn (num i) t p ph) : LoadInv num t := by
  have hpi : t.phase i = ph := by rw [hphase, Function.update_self]
  have hpj : ∀ j, j ≠ i → t.phase j = s.phase j := fun j hj => by
    rw [hphase, Function.update_of_ne hj]
  obtain ⟨hmem, hinit, -⟩ := hi.loads i p hload
  -- the other calls load other inodes
  have hne : ∀ j q, j ≠ i → (t.phase j).Loads q → q ≠ p ∧ (s.phase j).Loads q := by
    intro j q hj hq
    rw [hpj j hj] at hq
    refine ⟨?_, hq⟩
    rintro rfl
    exact hj (hi.once j i _ hq hload)
  have hii : ∀ q, (t.phase i).Loads q → q = p ∧ ph.Loads p := by
    intro q hq
    rw [hpi] at hq
    cases hself with
    | loads h => exact ⟨h.eq hq, h⟩
    | returns => exact absurd hq IgetPhase.not_loads_done
    | drops => exact absurd hq IgetPhase.not_loads_done
  refine ⟨hnodup, fun q hq => ?_, fun q hq => ?_, fun q hq => ?_, fun j q hq => ?_,
    fun j k q hj hk => ?_, fun j q hq => ?_⟩
  · rw [hnext]
    by_cases hqp : q = p
    · rw [hqp]
      exact hi.below p hmem
    · exact hi.below q ((hother q hqp).2.2.2.mp hq)
  · rw [hnext] at hq
    have hqp : q ≠ p := by
      rintro rfl
      exact absurd (hi.below q hmem) (not_lt.mpr hq)
    rw [(hother q hqp).2.1]
    exact hi.fresh q hq
  · by_cases hqp : q = p
    · subst hqp
      cases hself with
      | loads h => exact .inl ⟨i, by rw [hpi]; exact h⟩
      | returns hmem hino hinit hfail => exact .inr ⟨by rw [hinit, hino], hfail⟩
      | drops hnot => exact absurd hq hnot
    · obtain ⟨hinode, hinited, hfailed, hiff⟩ := hother q hqp
      rw [hinode, hinited, hfailed]
      refine (hi.tree q (hiff.mp hq)).imp_left ?_
      rintro ⟨j, hj⟩
      have hji : j ≠ i := by
        rintro rfl
        exact hqp (hload.eq hj)
      exact ⟨j, by rw [hpj j hji]; exact hj⟩
  · by_cases hji : j = i
    · subst hji
      obtain ⟨rfl, hl⟩ := hii q hq
      cases hself with
      | loads _ hmem hinit hino href hhash => exact ⟨hmem, hinit, hino, href, hhash⟩
      | returns => exact absurd hl IgetPhase.not_loads_done
      | drops => exact absurd hl IgetPhase.not_loads_done
    · obtain ⟨hqp, hl⟩ := hne j q hji hq
      obtain ⟨hinode, hinited, -, hiff⟩ := hother q hqp
      rw [hinode, hinited, hiff]
      exact hi.loads j q hl
  · by_cases hji : j = i
    · by_cases hki : k = i
      · rw [hji, hki]
      · rw [hji] at hj
        exact absurd (hii q hj).1 (hne k q hki hk).1
    · by_cases hki : k = i
      · rw [hki] at hk
        exact absurd (hii q hk).1 (hne j q hji hj).1
      · exact hi.once j k q (hne j q hji hj).2 (hne k q hki hk).2
  · by_cases hji : j = i
    · subst hji
      rw [hpi] at hq
      subst hq
      cases hself with
      | loads h => exact absurd h IgetPhase.not_loads_done
      | returns hmem hino hinit hfail => exact ⟨hinit, hfail⟩
    · rw [hpj j hji] at hq
      have hold := hi.good j q hq
      have hqp : q ≠ p := by
        rintro rfl
        rw [hinit] at hold
        cases hold.1
      obtain ⟨-, hinited, hfailed, -⟩ := hother q hqp
      rw [hinited, hfailed]
      exact hold

/-- A step of a call that has not started and loads nothing: it returns an initialised inode, or an
    error. -/
theorem LoadInv.settle (hi : LoadInv num s) {i : ι} {r : Except Int Ptr}
    (hstart : s.phase i = .start) (hphase : t.phase = Function.update s.phase i (.done r))
    (hinited : t.inited = s.inited) (hfailed : t.failed = s.failed)
    (hnext : t.world.next = s.world.next) (htree : t.world.tree = s.world.tree)
    (hino : ∀ q, (t.world.inodes q).ino = (s.world.inodes q).ino)
    (hloads : ∀ j q, (s.phase j).Loads q → t.world.inodes q = s.world.inodes q)
    (hgood : ∀ p, r = .ok p → s.inited p = some (num i) ∧ s.failed p = false) :
    LoadInv num t := by
  -- the calls that load an inode are those that did before
  have hback : ∀ j q, (t.phase j).Loads q → (s.phase j).Loads q := by
    intro j q hq
    by_cases hji : j = i
    · rw [hphase, hji, Function.update_self] at hq
      exact absurd hq IgetPhase.not_loads_done
    · rwa [hphase, Function.update_of_ne hji] at hq
  have hforth : ∀ j q, (s.phase j).Loads q → (t.phase j).Loads q := by
    intro j q hq
    have hji : j ≠ i := by
      rintro rfl
      rw [hstart] at hq
      exact IgetPhase.not_loads_start hq
    rwa [hphase, Function.update_of_ne hji]
  refine ⟨by rw [htree]; exact hi.nodup, fun q hq => ?_, fun q hq => ?_, fun q hq => ?_,
    fun j q hq => ?_, fun j k q hj hk => ?_, fun j q hq => ?_⟩
  · rw [hnext]
    exact hi.below q (htree ▸ hq)
  · rw [hinited]
    exact hi.fresh q (hnext ▸ hq)
  · rw [hinited, hfailed, hino]
    exact (hi.tree q (htree ▸ hq)).imp_left fun ⟨j, hj⟩ => ⟨j, hforth j q hj⟩
  · have hold := hback j q hq
    rw [htree, hinited, hloads j q hold]
    exact hi.loads j q hold
  · exact hi.once j k q (hback j q hj) (hback k q hk)
  · rw [hinited, hfailed]
    by_cases hji : j = i
    · rw [hphase, hji, Function.update_self] at hq
      rw [hji]
      exact hgood q (IgetPhase.done.inj hq)
    · rw [hphase, Function.update_of_ne hji] at hq
      exact hi.good j q hq

/-- A call that finds no node of its number enters a new one. -/
theorem LoadInv.enter (hi : LoadInv num s) {i : ι} (hstart : s.phase i = .start)
    (hphase : t.phase = Function.update s.phase i (.reading s.world.next))
    (hinited : t.inited = s.inited) (hfailed : t.failed = s.failed)
    (hnext : t.world.next = s.world.next + 1) (htree : t.world.tree = s.world.next :: s.world.tree)
    (hinodes : t.world.inodes = Function.update s.world.inodes s.world.next
      { Inode.fresh with refcount := 1, ino := num i }) : LoadInv num t := by
  have hnew : s.world.next ∉ s.world.tree := fun hmem => Nat.lt_irrefl _ (hi.below _ hmem)
  have hold : ∀ q, q ∈ s.world.tree → t.world.inodes q = s.world.inodes q := fun q hq => by
    have hne : q ≠ s.world.next := by
      rintro rfl
      exact hnew hq
    rw [hinodes, Function.update_of_ne hne]
  have hcase : ∀ j q, (t.phase j).Loads q → (j = i ∧ q = s.world.next) ∨
      (j ≠ i ∧ (s.phase j).Loads q) := by
    intro j q hq
    by_cases hji : j = i
    · rw [hphase, hji, Function.update_self] at hq
      exact .inl ⟨hji, IgetPhase.Loads.eq (.inl rfl) hq⟩
    · rw [hphase, Function.update_of_ne hji] at hq
      exact .inr ⟨hji, hq⟩
  refine ⟨?_, fun q hq => ?_, fun q hq => ?_, fun q hq => ?_, fun j q hq => ?_,
    fun j k q hj hk => ?_, fun j q hq => ?_⟩
  · rw [htree]
    exact List.nodup_cons.mpr ⟨hnew, hi.nodup⟩
  · rw [htree] at hq
    rw [hnext]
    rcases List.mem_cons.mp hq with rfl | hq
    · exact Nat.lt_succ_self _
    · exact Nat.lt_succ_of_lt (hi.below q hq)
  · rw [hnext] at hq
    rw [hinited]
    exact hi.fresh q (Nat.le_of_succ_le hq)
  · rw [htree] at hq
    rcases List.mem_cons.mp hq with rfl | hq
    · refine .inl ⟨i, ?_⟩
      rw [hphase, Function.update_self]
      exact .inl rfl
    · rw [hinited, hfailed, hold q hq]
      refine (hi.tree q hq).imp_left ?_
      rintro ⟨j, hj⟩
      have hji : j ≠ i := by
        rintro rfl
        rw [hstart] at hj
        exact IgetPhase.not_loads_start hj
      exact ⟨j, by rw [hphase, Function.update_of_ne hji]; exact hj⟩
  · rcases hcase j q hq with ⟨rfl, rfl⟩ | ⟨-, hl⟩
    · rw [htree, hinited, hinodes, Function.update_self]
      exact ⟨List.mem_cons_self, hi.fresh _ le_rfl, rfl, rfl, rfl⟩
    · obtain ⟨hmem, hrest⟩ := hi.loads j q hl
      rw [htree, hinited, hold q hmem]
      exact ⟨List.mem_cons_of_mem _ hmem, hrest⟩
  · rcases hcase j q hj with ⟨rfl, rfl⟩ | ⟨-, hl⟩
    · rcases hcase k _ hk with ⟨rfl, -⟩ | ⟨-, hl'⟩
      · rfl
      · exact absurd (hi.loads k _ hl').1 hnew
    · rcases hcase k q hk with ⟨rfl, rfl⟩ | ⟨-, hl'⟩
      · exact absurd (hi.loads j _ hl).1 hnew
      · exact hi.once j k q hl hl'
  · by_cases hji : j = i
    · rw [hphase, hji, Function.update_self] at hq
      cases hq
    · rw [hphase, Function.update_of_ne hji] at hq
      rw [hinited, hfailed]
      exact hi.good j q hq

/-- One step keeps the invariant when it finds no node that is being loaded. -/
theorem LoadInv.step (hi : LoadInv num s) (hg : NotLoading num s a) (h : IgetStep num s a t) :
    LoadInv num t := by
  cases h with
  | @find w w' phase inited failed i r hstart hnum hret =>
    obtain ⟨-, ⟨p, rfl, hmem, hino, rfl⟩ | ⟨-, l, ⟨rfl, rfl⟩ | ⟨rfl, rfl⟩⟩⟩ :=
      xv6FindInode_spec hnum.1 hret
    · have hfree := hg p hmem hino
      refine hi.settle hstart rfl rfl rfl rfl rfl (fun q => ?_) (fun j q hq => ?_) ?_
      · by_cases hqp : q = p
        · rw [hqp]
          exact (congrArg Inode.ino (Function.update_self p _ w.inodes)).trans rfl
        · exact congrArg Inode.ino (Function.update_of_ne hqp _ _)
      · have hqp : q ≠ p := by
          rintro rfl
          exact hfree j hq
        exact Function.update_of_ne hqp _ _
      · rintro q hq
        obtain rfl : p = q := Except.ok.inj hq
        rw [← hino]
        exact (hi.tree p hmem).resolve_left fun ⟨j, hj⟩ => hfree j hj
    · exact hi.settle hstart rfl rfl rfl rfl rfl (fun _ => rfl) (fun _ _ _ => rfl)
        fun p hp => by cases hp
    · exact hi.enter hstart rfl rfl rfl rfl rfl rfl
  | @read w w' phase inited failed i p ok hphase hret =>
    obtain ⟨-, -, rfl⟩ := (runs_sbBread _ _ _ _).mp hret
    have hload : (phase i).Loads p := .inl hphase
    obtain ⟨hmem, hinit, hino, href, hhash⟩ := hi.loads i p hload
    refine hi.change hload rfl rfl hi.nodup (fun q hq => ?_) (.loads ?_ hmem hinit hino href hhash)
    · exact ⟨rfl, rfl, Function.update_of_ne hq _ _, Iff.rfl⟩
    · cases ok with
      | true => exact .inr (.inl rfl)
      | false => exact .inr (.inr ⟨_, .inl rfl⟩)
  | @fill w w' phase inited failed i p e hphase hret =>
    have hload : (phase i).Loads p := .inr (.inl hphase)
    obtain ⟨hmem, hinit, hino, href, hhash⟩ := hi.loads i p hload
    simp only [xv6Iget.fill, runs_bind_getEnv, runs_bind_bdata, runs_bind_modifyInode] at hret
    obtain ⟨-, ino, l, rfl, hend⟩ := xv6InitInode_spec hret
    simp only [Function.update_idem, Function.update_self] at hend ⊢
    have hother : ∀ q, q ≠ p → Function.update w.inodes p ino q = w.inodes q ∧
        Function.update inited p (if e = 0 then some (num i) else none) q = inited q ∧
        Function.update failed p (decide (e ≠ 0)) q = failed q ∧ (q ∈ w.tree ↔ q ∈ w.tree) :=
      fun q hq => ⟨Function.update_of_ne hq _ _, Function.update_of_ne hq _ _,
        Function.update_of_ne hq _ _, Iff.rfl⟩
    refine hi.change hload rfl rfl hi.nodup hother ?_
    rcases hend with ⟨rfl, -, rfl⟩ | ⟨herr, hnum, hhashed, -, hcount⟩
    · rw [if_pos rfl]
      refine .returns hmem ?_ ?_ ?_
      · exact (congrArg Inode.ino (Function.update_self p _ w.inodes)).trans rfl
      · exact Function.update_self _ _ _
      · exact Function.update_self _ _ _
    · have hne : e ≠ 0 := by
        rcases herr with rfl | rfl <;> decide
      rw [if_neg hne]
      refine .loads (.inr (.inr ⟨e, .inl rfl⟩)) hmem ?_ ?_ ?_ ?_
      · exact (Function.update_self _ _ _).trans (if_neg hne)
      · exact (congrArg Inode.ino (Function.update_self _ _ _)).trans hnum
      · exact (congrArg Inode.refcount (Function.update_self _ _ _)).trans (hcount.trans href)
      · exact (congrArg Inode.hashed (Function.update_self _ _ _)).trans (hhashed.trans hhash)
  | @evict w w' phase inited failed i p e last hphase hret =>
    have hload : (phase i).Loads p := .inr (.inr ⟨e, .inl hphase⟩)
    obtain ⟨hmem, hinit, hino, href, hhash⟩ := hi.loads i p hload
    simp only [iput.evict, Returns, runs_bind_getInode] at hret
    rcases hret.ite with ⟨⟨-, hkeep⟩, -⟩ | ⟨-, hret⟩
    · -- an inode that is being loaded has not been hashed
      rw [show (w.inodes p).hashed = false from hhash] at hkeep
      cases hkeep
    · simp only [xv6EvictInode, runs_bind_modifyInode] at hret
      obtain ⟨rfl, rfl⟩ := hret.pure
      rw [if_pos rfl]
      refine hi.change hload rfl rfl hi.nodup (fun q hq => ?_)
        (.loads (.inr (.inr ⟨e, .inr rfl⟩)) hmem hinit ?_ ?_ ?_)
      · exact ⟨Function.update_of_ne hq _ _, rfl, rfl, Iff.rfl⟩
      · exact (congrArg Inode.ino (Function.update_self p _ w.inodes)).trans hino
      · exact (congrArg Inode.refcount (Function.update_self p _ w.inodes)).trans href
      · exact (congrArg Inode.hashed (Function.update_self p _ w.inodes)).trans hhash
  | @free w w' phase inited failed i p e u hphase hret =>
    have hload : (phase i).Loads p := .inr (.inr ⟨e, .inr hphase⟩)
    obtain ⟨-, -, -, href, -⟩ := hi.loads i p hload
    obtain rfl := xv6FreeInode_spec hret
    have htree : (w.freed p).tree = w.tree.erase p := if_pos (by rw [href])
    refine hi.change hload rfl rfl ?_ (fun q hq => ?_) (.drops ?_)
    · show (w.freed p).tree.Nodup
      rw [htree]
      exact hi.nodup.erase p
    · refine ⟨Function.update_of_ne hq _ _, rfl, rfl, ?_⟩
      show q ∈ (w.freed p).tree ↔ _
      rw [htree]
      exact List.mem_erase_of_ne hq
    · show p ∉ (w.freed p).tree
      rw [htree]
      exact hi.nodup.not_mem_erase

/-- In every run in which no call finds a node that is being loaded, or that has been evicted and
    not yet freed, every inode that is returned has been initialised for its number and no load of
    it has failed. -/
theorem iget_initialised {w : World} (hnodup : w.tree.Nodup)
    (hbelow : ∀ p, p ∈ w.tree → p < w.next)
    (h : Steps (GuardedBy (NotLoading num) (IgetStep num)) (.init ι w) as t) :
    AllInitialised num t :=
  (h.invariant (I := LoadInv num) (fun _ _ _ hi hstep => hi.step hstep.1 hstep.2)
    (LoadInv.init hnodup hbelow)).good

end

/-! ## Two calls for one number -/

/-- Nothing is in core and the slot of inode 2 is unused. -/
def noInodes : World := World.blank ⟨64, 0, 32, 0, 1, 1, 4⟩ 6

/-- Two calls for inode 2: the second finds the node that the first has just entered, and returns
    it; then the load fails. -/
theorem iget_uninitialised :
    ¬ ∀ (ι : Type) [DecidableEq ι] (num : ι → Nat) (w : World) (as : List (IgetLabel ι))
      (t : IgetState ι), w.tree.Nodup → (∀ p, p ∈ w.tree → p < w.next) →
      Steps (IgetStep num) (.init ι w) as t → AllInitialised num t := by
  intro h
  let num : Bool → Nat := fun _ => 2
  have hfind₁ := returns_after (m := xv6FindInode 2) (w := noInodes) (a := (some 0, false))
    (by decide +kernel)
  let w₁ := noInodes.after (xv6FindInode 2)
  have hfind₂ := returns_after (m := xv6FindInode 2) (w := w₁) (a := (some 0, true))
    (by decide +kernel)
  let w₂ := w₁.after (xv6FindInode 2)
  have hread := returns_after (m := sbBread (inodeBlock w₂.env 2)) (w := w₂) (a := true)
    (by decide +kernel)
  let w₃ := w₂.after (sbBread (inodeBlock w₂.env 2))
  have hfill := returns_after (m := xv6Iget.fill 0 2) (w := w₃) (a := -EINVAL) (by decide +kernel)
  have hrun : Steps (IgetStep num) (.init Bool noInodes)
      [.find false, .find true, .read false, .fill false] _ :=
    .cons (.find rfl (by decide) hfind₁) <| .cons (.find rfl (by decide +kernel) hfind₂) <|
      .cons (.read rfl hread) <| .single (.fill rfl hfill)
  have hgood := h Bool num noInodes _ _ List.nodup_nil (fun p hp => absurd hp List.not_mem_nil) hrun
    true 0 rfl
  cases hgood.2

/-- The same with a file in the slot of inode 2. -/
def oneInode : World :=
  { noInodes with
    disk := Function.update noInodes.disk 1
      (Block.setDinode 2 ⟨T_FILE, 0, 0, 1, 0, fun _ => 0⟩ Buf.zero) }

/-- One call after another: the first loads the inode, the second finds it initialised. -/
theorem iget_twice : ∃ t : IgetState Bool,
    t.phase false = .done (.ok 0) ∧ t.phase true = .done (.ok 0) ∧
      AllInitialised (fun _ => 2) t := by
  have hfind := returns_after (m := xv6FindInode 2) (w := oneInode) (a := (some 0, false))
    (by decide +kernel)
  let w₁ := oneInode.after (xv6FindInode 2)
  have hread := returns_after (m := sbBread (inodeBlock w₁.env 2)) (w := w₁) (a := true)
    (by decide +kernel)
  let w₂ := w₁.after (sbBread (inodeBlock w₁.env 2))
  have hfill := returns_after (m := xv6Iget.fill 0 2) (w := w₂) (a := 0) (by decide +kernel)
  let w₃ := w₂.after (xv6Iget.fill 0 2)
  have hfind' := returns_after (m := xv6FindInode 2) (w := w₃) (a := (some 0, true))
    (by decide +kernel)
  have hrun : Steps (GuardedBy (NotLoading fun _ => 2) (IgetStep fun _ => 2)) (.init Bool oneInode)
      [.find false, .read false, .fill false, .find true] _ :=
    .cons ⟨fun p hp => absurd hp List.not_mem_nil, .find rfl (by decide) hfind⟩ <|
      .cons ⟨trivial, .read rfl hread⟩ <| .cons ⟨trivial, .fill rfl hfill⟩ <|
      .single ⟨fun p _ _ j => ?_, .find rfl (by decide +kernel) hfind'⟩
  · exact ⟨_, rfl, rfl,
      iget_initialised List.nodup_nil (fun p hp => absurd hp List.not_mem_nil) hrun⟩
  · -- the first call has returned, the second has not started
    cases j with
    | false => exact IgetPhase.not_loads_done
    | true => exact IgetPhase.not_loads_start

end Xv6fs
