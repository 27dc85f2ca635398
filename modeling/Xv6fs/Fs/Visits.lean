/-
  The calls the directory iterator makes.

  `recording cb` is `cb` with a record of its calls. An iteration without allocation visits the
  blocks that the entries from its start on touch (`touched`), one after the other, and calls the
  callback for each of these entries of the block, or once for a hole (`sites`), until a call says
  to stop. The callback may write to the entries it is given, and blocks may be shared, so each
  block is looked up and read on the disk as the blocks before it have left it (`Evolves`).

  The test for the end of the directory passes a start just behind the last entry. The iterator then
  looks at the block of that entry, which calls the callback when the block is a hole, and fails
  when there can be no such block (`iterate_visits_iff`).
-/
import Xv6fs.Fs.Grew
import Xv6fs.File.Contents
import Xv6fs.Lib.Traversal
import Mathlib.Data.List.Intervals
import Mathlib.Data.List.Sort

namespace Xv6fs

/-- One call of the callback: what it is given and what it answers. -/
structure Visit where
  dnum : Nat
  de : Dirent
  act : DiterAction

/-- What the callback is given. -/
def Visit.site (v : Visit) : Nat × Dirent := (v.dnum, v.de)

def Visit.cont (v : Visit) : Bool := v.act.cont

section

variable {σ : Type}

/-- `cb` with the list of its calls, the latest last. -/
def recording (cb : DiterCallback σ) : DiterCallback (σ × List Visit) := fun dnum de s => do
  let (act, de', s') ← cb dnum de s.1
  return (act, de', (s', s.2 ++ [⟨dnum, de, act⟩]))

/-! ## What is to be visited -/

/-- The blocks below MAXFILE that hold one of the entries `[off, n)`. -/
def touched (off n : Nat) : List Nat :=
  (List.range MAXFILE).filter fun b => max off (b * NENTS) < min n ((b + 1) * NENTS)

/-- The calls for block `b`: its entries among `[off, n)`, or one with an empty entry for a hole. -/
def blockSites (d : Disk) (addrs : Addrs) (off n b : Nat) : List (Nat × Dirent) :=
  if bmap d addrs b = 0 then [(b * NENTS, Dirent.zero)]
  else (List.Ico (max off (b * NENTS)) (min n ((b + 1) * NENTS))).map fun k =>
    (k, (d (bmap d addrs b)).dirent (k % NENTS))

/-- The calls for the entries `[off, n)`, when block `b` is looked up on `disks b`. -/
def sites (disks : Nat → Disk) (addrs : Addrs) (off n : Nat) : List (Nat × Dirent) :=
  (touched off n).flatMap fun b => blockSites (disks b) addrs off n b

/-- `disks j` is the disk when block `j` is looked up: `d` at block `b`, where the iteration
    starts, and `d'` at its end. A block of the directory changes nothing but itself. -/
structure Evolves (addrs : Addrs) (disks : Nat → Disk) (b : Nat) (d d' : Disk) : Prop where
  first : disks b = d
  step : ∀ j x, x ≠ bmap (disks j) addrs j ∨ x = 0 → disks (j + 1) x = disks j x
  last : disks MAXFILE = d'

/-- The iterator over the entries from `off` on of a directory of `n` makes these calls, returns
    `e`, and leaves the disk `d'`. -/
structure VisitsRange (d : Disk) (addrs : Addrs) (off n : Nat) (calls : List Visit) (e : Int)
    (d' : Disk) : Prop where
  visits : ∃ disks, Evolves addrs disks (off / NENTS) d d' ∧
    Traversed Visit.site Visit.cont (sites disks addrs off n) calls
  increasing : (calls.map Visit.dnum).Pairwise (· < ·)
  inRange : ∀ c ∈ calls, c.dnum < n
  below : ∀ c ∈ calls, c.dnum / NENTS < MAXFILE
  tooBig : e = -EFBIG → MAXFILE * BSIZE / 16 < n ∧ ∀ c ∈ calls, c.cont = true

variable {d d' d₁ : Disk} {addrs : Addrs} {disks : Nat → Disk} {off n i b k : Nat}

theorem mem_touched : b ∈ touched off n ↔
    b < MAXFILE ∧ max off (b * NENTS) < min n ((b + 1) * NENTS) := by
  simp [touched]

theorem touched_pairwise (off n : Nat) : (touched off n).Pairwise (· < ·) :=
  List.pairwise_lt_range.filter _

theorem touched_nil (h : MAXFILE * NENTS ≤ off ∨ n ≤ off) : touched off n = [] := by
  refine List.eq_nil_iff_forall_not_mem.mpr fun b hb => ?_
  obtain ⟨hb, hlt⟩ := mem_touched.mp hb
  have hle : (b + 1) * NENTS ≤ MAXFILE * NENTS := Nat.mul_le_mul_right NENTS hb
  omega

theorem touched_behind (hb : b ∈ touched ((i + 1) * NENTS) n) : i < b := by
  have hmem := (mem_touched.mp hb).2
  have hmul : (i + 1) * NENTS < (b + 1) * NENTS := by omega
  exact Nat.lt_of_succ_lt_succ (Nat.lt_of_mul_lt_mul_right hmul)

/-- The first block is the one of the first entry, and the others are those behind it. -/
theorem touched_cons (hoff : off / NENTS = i) (hlt : off < n) (hi : i < MAXFILE) :
    touched off n = i :: touched ((i + 1) * NENTS) n := by
  have hpos : 0 < NENTS := by decide
  have hlow : i * NENTS ≤ off := hoff ▸ Nat.div_mul_le_self off NENTS
  have hhigh : off < (i + 1) * NENTS := (Nat.div_lt_iff_lt_mul hpos).mp (hoff ▸ Nat.lt_succ_self _)
  refine (touched_pairwise off n).eq_of_mem_iff
    (List.pairwise_cons.mpr ⟨fun b => touched_behind, touched_pairwise _ n⟩) fun b => ?_
  rw [List.mem_cons, mem_touched, mem_touched]
  rcases Nat.lt_trichotomy b i with hb | rfl | hb
  · have hmul : (b + 1) * NENTS ≤ i * NENTS := Nat.mul_le_mul_right NENTS hb
    omega
  · omega
  · have hmul : (i + 1) * NENTS ≤ b * NENTS := Nat.mul_le_mul_right NENTS hb
    omega

/-- Behind the first entry a block does not depend on where the iteration started. -/
theorem blockSites_behind (hoff : off ≤ (i + 1) * NENTS) (hb : i < b) :
    blockSites d addrs off n b = blockSites d addrs ((i + 1) * NENTS) n b := by
  have hmul : (i + 1) * NENTS ≤ b * NENTS := Nat.mul_le_mul_right NENTS hb
  unfold blockSites
  rw [max_eq_right hmul, max_eq_right (le_trans hoff hmul)]

theorem sites_cons (hoff : off / NENTS = i) (hlt : off < n) (hi : i < MAXFILE) :
    sites disks addrs off n =
      blockSites (disks i) addrs off n i ++ sites disks addrs ((i + 1) * NENTS) n := by
  have hhigh : off ≤ (i + 1) * NENTS :=
    ((Nat.div_lt_iff_lt_mul (by decide)).mp (hoff ▸ Nat.lt_succ_self _)).le
  unfold sites
  rw [touched_cons hoff hlt hi, List.flatMap_cons]
  exact congrArg _ (List.flatMap_congr fun b hb => blockSites_behind hhigh (touched_behind hb))

theorem sites_nil (h : MAXFILE * NENTS ≤ off ∨ n ≤ off) : sites disks addrs off n = [] := by
  unfold sites
  rw [touched_nil h]
  rfl

theorem sites_congr {disks' : Nat → Disk} (h : ∀ b, i < b → disks' b = disks b) :
    sites disks' addrs ((i + 1) * NENTS) n = sites disks addrs ((i + 1) * NENTS) n :=
  List.flatMap_congr fun b hb => by rw [h b (touched_behind hb)]

/-- The calls for one block are in order, and for entries of the block before the `n`-th. -/
theorem blockSites_fst {p : Nat × Dirent} (hb : b ∈ touched off n)
    (hp : p ∈ blockSites d addrs off n b) : b * NENTS ≤ p.1 ∧ p.1 < min n ((b + 1) * NENTS) := by
  have hlt := (mem_touched.mp hb).2
  unfold blockSites at hp
  split at hp
  · rw [List.mem_singleton.mp hp]
    exact ⟨le_refl _, by omega⟩
  · obtain ⟨k, hk, rfl⟩ := List.mem_map.mp hp
    rw [List.Ico.mem] at hk
    exact ⟨le_trans (le_max_right _ _) hk.1, hk.2⟩

theorem blockSites_pairwise : (blockSites d addrs off n b).Pairwise fun p q => p.1 < q.1 := by
  unfold blockSites
  split
  · exact List.pairwise_singleton _ _
  · exact List.pairwise_map.mpr (List.Ico.pairwise_lt _ _)

theorem mem_sites {p : Nat × Dirent} (hp : p ∈ sites disks addrs off n) :
    p.1 < n ∧ p.1 / NENTS < MAXFILE := by
  obtain ⟨b, hb, hp⟩ := List.mem_flatMap.mp hp
  obtain ⟨-, hlt⟩ := blockSites_fst hb hp
  have hmax := (mem_touched.mp hb).1
  have hle : (b + 1) * NENTS ≤ MAXFILE * NENTS := Nat.mul_le_mul_right NENTS hmax
  exact ⟨by omega, (Nat.div_lt_iff_lt_mul (by decide)).mpr (by omega)⟩

theorem sites_pairwise : (sites disks addrs off n).Pairwise fun p q => p.1 < q.1 := by
  refine List.pairwise_flatMap.mpr ⟨fun b _ => blockSites_pairwise, ?_⟩
  refine (touched_pairwise off n).imp_of_mem fun {b c} hb hc hlt p hp q hq => ?_
  have hp' := (blockSites_fst hb hp).2
  have hq' := (blockSites_fst hc hq).1
  have hmul : (b + 1) * NENTS ≤ c * NENTS := Nat.mul_le_mul_right NENTS hlt
  omega

namespace Evolves

theorem const (addrs : Addrs) (b : Nat) (d : Disk) : Evolves addrs (fun _ => d) b d d :=
  ⟨rfl, fun _ _ _ => rfl, rfl⟩

/-- Block `i` is visited first. -/
theorem cons (hi : i < MAXFILE) (hblock : ∀ x, x ≠ bmap d addrs i ∨ x = 0 → d₁ x = d x)
    (h : Evolves addrs disks (i + 1) d₁ d') :
    Evolves addrs (fun j => if j ≤ i then d else disks j) i d d' where
  first := if_pos (le_refl i)
  step j x hx := by
    rcases Nat.lt_trichotomy j i with hj | rfl | hj
    · simp only [if_pos hj.le, if_pos (Nat.succ_le_of_lt hj)]
    · simp only [if_pos (le_refl j)] at hx ⊢
      rw [if_neg (Nat.not_succ_le_self j), h.first]
      exact hblock x hx
    · simp only [if_neg (not_le.mpr hj)] at hx ⊢
      rw [if_neg (not_le.mpr (Nat.lt_succ_of_lt hj))]
      exact h.step j x hx
  last := (if_neg (not_le.mpr hi)).trans h.last

end Evolves

/-! ## The calls of one block -/

variable {cb : DiterCallback σ} {w w' : World}

/-- The callback returns. -/
def Answers (cb : DiterCallback σ) : Prop := ∀ dnum de s, ∃ r, cb dnum de s = .ok r

/-- After the calls the flag is the one of the last call, or the one before when there was none. -/
def FlagAfter (act : DiterAction) (calls : List Visit) (act' : DiterAction) : Prop :=
  act'.cont = true ↔ (∀ c ∈ calls, c.cont = true) ∧ (calls = [] → act.cont = true)

theorem flagAfter_nil (act : DiterAction) : FlagAfter act [] act := by
  simp [FlagAfter]

theorem flagAfter_single (act : DiterAction) (v : Visit) : FlagAfter act [v] v.act := by
  simp [FlagAfter, Visit.cont]

theorem FlagAfter.cons {act act' : DiterAction} {v : Visit} {calls : List Visit}
    (h : FlagAfter v.act calls act') (hcont : v.act.cont = true) :
    FlagAfter act (v :: calls) act' := by
  unfold FlagAfter at h ⊢
  rw [h]
  simp [Visit.cont, hcont]

theorem traversed_single (dnum : Nat) (de : Dirent) (act : DiterAction) :
    Traversed Visit.site Visit.cont [(dnum, de)] [⟨dnum, de, act⟩] :=
  .single (Visit.mk dnum de act)

theorem recording_ok {dnum : Nat} {de de' : Dirent} {s s' : σ} {act : DiterAction}
    (h : cb dnum de s = .ok (act, de', s')) (calls : List Visit) :
    recording cb dnum de (s, calls) = .ok (act, de', (s', calls ++ [⟨dnum, de, act⟩])) := by
  unfold recording
  rw [h]
  rfl

/-- The loop over entries `[k, k + m)` of a block. -/
theorem entries_traversed (hret : Answers cb) (base : Nat) :
    ∀ (m k : Nat) (act : DiterAction) (blk : Block) (s : σ) (before : List Visit) (flush : Bool),
      ∃ act' blk' s' calls flush', xv6DirIterate.entries (recording cb) base m k act blk
          (s, before) flush = .ok (act', blk', (s', before ++ calls), flush') ∧
        Traversed Visit.site Visit.cont
          ((List.Ico k (k + m)).map fun j => (base + j, blk.dirent j)) calls ∧
        FlagAfter act calls act'
  | 0, k, act, blk, s, before, flush => by
    refine ⟨act, blk, s, [], flush, by rw [List.append_nil]; rfl, ?_, flagAfter_nil act⟩
    rw [Nat.add_zero, List.Ico.self_empty]
    exact .nil
  | m + 1, k, act, blk, s, before, flush => by
    obtain ⟨⟨act₁, de, s₁⟩, hcb⟩ := hret (base + k) (blk.dirent k) s
    have hsites : (List.Ico k (k + (m + 1))).map (fun j => (base + j, blk.dirent j)) =
        [(base + k, blk.dirent k)] ++ (List.Ico (k + 1) (k + 1 + m)).map
          (fun j => (base + j, (blk.setDirent k de).dirent j)) := by
      rw [List.Ico.eq_cons (by omega), List.map_cons, List.singleton_append]
      refine congrArg _ ?_
      rw [show k + (m + 1) = k + 1 + m by omega]
      refine List.map_congr_left fun j hj => ?_
      rw [List.Ico.mem] at hj
      rw [Block.dirent_setDirent_ne _ _ (by omega)]
    rw [hsites]
    have hone : Traversed Visit.site Visit.cont [(base + k, blk.dirent k)]
        [⟨base + k, blk.dirent k, act₁⟩] := traversed_single _ _ _
    unfold xv6DirIterate.entries
    rw [recording_ok hcb]
    simp only [bind, Except.bind]
    by_cases hcont : act₁.cont = true
    · obtain ⟨act', blk', s', calls, flush', hrun, htrav, hact⟩ := entries_traversed hret base m
        (k + 1) act₁ (blk.setDirent k de) s₁ (before ++ [⟨base + k, blk.dirent k, act₁⟩])
        (flush || act₁.deDirty)
      rw [if_neg (by simp [hcont])]
      refine ⟨act', blk', s', ⟨base + k, blk.dirent k, act₁⟩ :: calls, flush', ?_, ?_,
        FlagAfter.cons hact hcont⟩
      · rw [hrun, List.append_assoc, List.singleton_append]
      · exact hone.append (by simpa [Visit.cont] using hcont) htrav
    · rw [if_pos (by simpa using hcont)]
      exact ⟨act₁, _, s₁, [⟨base + k, blk.dirent k, act₁⟩], _, rfl,
        hone.stopped (by simpa [Visit.cont] using hcont) _, flagAfter_single _ _⟩

/-- One round of the loop, over entries `[off, lim)` of the block at `b`. -/
theorem body_traversed (hret : Answers cb) (hq : Quiet w.env) (i b : Nat) {off lim : Nat}
    (hoff : off ≤ lim) (act : DiterAction) (s : σ) (before : List Visit) :
    ∃ act' s' calls w', Returns (xv6DirIterate.body modcheck (recording cb) i off lim b act
        (s, before)) w (0, act', (s', before ++ calls)) w' ∧
      (∀ x, x ≠ b ∨ x = 0 → w'.disk x = w.disk x) ∧
      Traversed Visit.site Visit.cont (if b = 0 then [(i * NENTS, Dirent.zero)]
        else (List.Ico off lim).map fun j => (i * NENTS + j, (w.disk b).dirent j)) calls ∧
      FlagAfter act calls act' := by
  unfold xv6DirIterate.body
  by_cases hb : b = 0
  · obtain ⟨⟨act₁, de, s₁⟩, hcb⟩ := hret (i * NENTS) Dirent.zero s
    rw [if_pos hb, if_pos hb, recording_ok hcb]
    exact ⟨act₁, s₁, [⟨i * NENTS, Dirent.zero, act₁⟩], w, returns_iff.mpr rfl, fun _ _ => rfl,
      traversed_single _ _ _, flagAfter_single _ _⟩
  · obtain ⟨act₁, blk, s₁, calls, flush, hrun, htrav, hact⟩ := entries_traversed hret (i * NENTS)
      (lim - off) off act (w.disk b) s before false
    rw [Nat.add_sub_cancel' hoff] at htrav
    have hother : ∀ x, x ≠ b ∨ x = 0 → Function.update w.disk b blk x = w.disk x := fun x hx =>
      Function.update_of_ne (hx.elim id fun h0 => h0 ▸ Ne.symm hb) _ _
    rw [if_neg hb, if_neg hb]
    have hdisk : (w.logged (.bread b .ok)).disk b = w.disk b := rfl
    cases flush with
    | false =>
      refine ⟨act₁, s₁, calls,
        { w with disk := Function.update w.disk b blk, log := .bread b .ok :: w.log },
        (quiet_bind_sbBread hq).mpr ⟨trivial, ?_⟩, hother, htrav, hact⟩
      simp only [modcheck, Bool.not_true, Bool.false_eq_true, if_false, runs_bind_bdata]
      rw [hdisk, hrun]
      simp only [runs_bind_lift, Bool.false_eq_true, if_false, runs_bind_bstore]
      exact returns_iff.mpr rfl
    | true =>
      have hq' : Quiet (w.logged (.bread b .ok)).env := hq
      refine ⟨act₁, s₁, calls, { w with
          disk := Function.update w.disk b blk
          log := .sync b .ok :: .bread b .ok :: w.log },
        (quiet_bind_sbBread hq).mpr ⟨trivial, ?_⟩, hother, htrav, hact⟩
      simp only [modcheck, Bool.not_true, Bool.false_eq_true, if_false, runs_bind_bdata]
      rw [hdisk, hrun]
      simp only [runs_bind_lift, if_true]
      refine (returns_bind ((quiet_syncBuffer hq').mpr ⟨trivial, rfl, rfl⟩)).mpr ?_
      exact returns_iff.mpr rfl

/-! ## The calls of an iteration -/

theorem blockSites_eq {size : Nat} :
    blockSites d addrs (i * NENTS + off) (i * NENTS + off + size) i =
      if bmap d addrs i = 0 then [(i * NENTS, Dirent.zero)]
      else (List.Ico off (xv6Min NENTS (size + off))).map fun j =>
        (i * NENTS + j, (d (bmap d addrs i)).dirent j) := by
  have hmax : max (i * NENTS + off) (i * NENTS) = off + i * NENTS := by omega
  have hmin : min (i * NENTS + off + size) ((i + 1) * NENTS) =
      xv6Min NENTS (size + off) + i * NENTS := by
    rw [xv6Min_eq_min, Nat.succ_mul]
    omega
  unfold blockSites
  refine if_congr Iff.rfl rfl ?_
  rw [hmax, hmin, ← List.Ico.map_add, List.map_map]
  refine List.map_congr_left fun j hj => ?_
  have hlt : j < NENTS := by
    rw [List.Ico.mem, xv6Min_eq_min] at hj
    omega
  simp only [Function.comp_apply, Nat.mul_add_mod_of_lt hlt]

/-- There is no block past the last one a map can have. -/
theorem blocks_past {check : Checker} {alloc : Bool} {rounds size : Nat} {act : DiterAction}
    {dir : InodeCtx} {s : σ} (hi : MAXFILE ≤ i) :
    xv6DirIterate.blocks check cb alloc (rounds + 1) i off size act dir s =
      pure (-EFBIG, act, dir, s) := by
  have hbig : xv6InodeAddr check dir i alloc = pure (-EFBIG, 0, dir) := if_pos hi
  unfold xv6DirIterate.blocks
  rw [hbig]
  rfl

/-- A run of the loop from entry `i * NENTS + off` on, which calls the callback for the entries
    before the `n`-th. -/
def LoopVisits (cb : DiterCallback σ) (n rounds i off size : Nat) (w : World) (act : DiterAction)
    (dir : InodeCtx) (s : σ) (before : List Visit) : Prop :=
  ∃ e act' dir' s' calls w', Returns (xv6DirIterate.blocks modcheck (recording cb) false rounds i
      off size act dir (s, before)) w (e, act', dir', (s', before ++ calls)) w' ∧
    (∃ disks, Evolves dir.addrs disks i w.disk w'.disk ∧
      Traversed Visit.site Visit.cont (sites disks dir.addrs (i * NENTS + off) n) calls) ∧
    (e = -EFBIG → MAXFILE * NENTS < n ∧ ∀ c ∈ calls, c.cont = true)

theorem loopVisits_past {rounds size : Nat} {act : DiterAction} {dir : InodeCtx} {s : σ}
    {before : List Visit} (hi : MAXFILE ≤ i) (hlt : i * NENTS < n) :
    LoopVisits cb n (rounds + 1) i off size w act dir s before := by
  have hle : MAXFILE * NENTS ≤ i * NENTS := Nat.mul_le_mul_right NENTS hi
  refine ⟨-EFBIG, act, dir, s, [], w, ?_, ⟨fun _ => w.disk, .const _ _ _, ?_⟩, fun _ => ⟨?_, ?_⟩⟩
  · rw [blocks_past hi, List.append_nil]
    exact returns_iff.mpr rfl
  · rw [sites_nil (.inl (by omega))]
    exact .nil
  · omega
  · exact fun c hc => absurd hc List.not_mem_nil

theorem blockSites_ne_nil (hb : b ∈ touched off n) : blockSites d addrs off n b ≠ [] := by
  have hlt := (mem_touched.mp hb).2
  unfold blockSites
  split
  · exact List.cons_ne_nil _ _
  · rw [List.Ico.eq_cons hlt]
    exact List.cons_ne_nil _ _

/-- The loop when entries are left. -/
theorem blocks_visits (hret : Answers cb) (n rounds : Nat) :
    ∀ (i off size : Nat) {w : World} (act : DiterAction) (dir : InodeCtx) (s : σ)
      (before : List Visit), Quiet w.env → MAXFILE ≤ rounds + i → off < NENTS → size ≠ 0 →
      i * NENTS + off + size = n →
      LoopVisits cb n (rounds + 1) i off size w act dir s before := by
  induction rounds with
  | zero =>
    intro i off size w act dir s before hq hr hoff hsize hn
    exact loopVisits_past (by omega) (by omega)
  | succ rounds ih =>
    intro i off size w act dir s before hq hr hoff hsize hn
    by_cases hmax : MAXFILE ≤ i
    · exact loopVisits_past hmax (by omega)
    have hi := not_le.mp hmax
    obtain ⟨l₁, haddr⟩ := inodeAddr_returns dir hq hi
    generalize hlim : xv6Min NENTS (size + off) = lim
    have hmin : lim = min NENTS (size + off) := hlim.symm.trans (xv6Min_eq_min _ _)
    obtain ⟨act₁, s₁, calls₁, w₁, hbody, hblock, htrav, hact⟩ :=
      body_traversed (w := { w with log := l₁ }) hret hq i (bmap w.disk dir.addrs i)
        (show off ≤ lim by omega) act s before
    have hq₁ : Quiet w₁.env := by
      rw [Runs.env_eq hbody]
      exact hq
    have hdiv : (i * NENTS + off) / NENTS = i := by
      rw [Nat.mul_comm, Nat.mul_add_div (by decide), Nat.div_eq_of_lt hoff, Nat.add_zero]
    have htouched : i ∈ touched (i * NENTS + off) n := by
      rw [touched_cons hdiv (by omega) hi]
      exact List.mem_cons_self
    have htrav₁ : Traversed Visit.site Visit.cont
        (blockSites w.disk dir.addrs (i * NENTS + off) n i) calls₁ := by
      rw [← hn, blockSites_eq, hlim]
      exact htrav
    have hcalls : calls₁ ≠ [] := fun hnil => by
      rw [hnil] at htrav₁
      exact blockSites_ne_nil htouched (htrav₁.whole fun y hy => absurd hy List.not_mem_nil).symm
    have hcont : act₁.cont = true ↔ ∀ c ∈ calls₁, c.cont = true :=
      hact.trans (and_iff_left fun hnil => absurd hnil hcalls)
    unfold LoopVisits xv6DirIterate.blocks
    by_cases hend : act₁.cont = true ∧ size - (lim - off) ≠ 0
    · obtain ⟨e, act', dir', s', calls₂, w', hrun, ⟨disks, hev, htrav₂⟩, hbig⟩ := ih (i + 1) 0
        (size - (lim - off)) act₁ { dir with dirty := false } s₁ (before ++ calls₁) hq₁ (by omega)
        (by decide) hend.2 (by rw [Nat.succ_mul]; omega)
      have hgo := hcont.mp hend.1
      refine ⟨e, act', dir', s', calls₁ ++ calls₂, w', (returns_bind haddr).mpr ?_,
        ⟨_, hev.cons hi hblock, ?_⟩, fun he => ⟨(hbig he).1, fun c hc => ?_⟩⟩
      · dsimp only
        rw [if_neg (by simp), hlim]
        refine (returns_bind hbody).mpr ?_
        dsimp only
        rw [if_neg (by simp [hend.1]), if_neg hend.2, ← List.append_assoc]
        exact hrun
      · rw [sites_cons hdiv (by omega) hi, if_pos (le_refl i),
          sites_congr fun b hb => if_neg (not_le.mpr hb)]
        exact htrav₁.append hgo htrav₂
      · exact (List.mem_append.mp hc).elim (hgo c) ((hbig he).2 c)
    · refine ⟨0, act₁, { dir with dirty := false }, s₁, calls₁, w₁, (returns_bind haddr).mpr ?_,
        ⟨_, (Evolves.const dir.addrs (i + 1) w₁.disk).cons hi hblock, ?_⟩,
        fun he => absurd he (by decide)⟩
      · dsimp only
        rw [if_neg (by simp), hlim]
        refine (returns_bind hbody).mpr ?_
        dsimp only
        by_cases hcont₁ : act₁.cont = true
        · have hlast : size - (lim - off) = 0 := by
            by_contra hne
            exact hend ⟨hcont₁, hne⟩
          rw [if_neg (by simp [hcont₁]), if_pos hlast]
          exact returns_iff.mpr rfl
        · rw [if_pos (.inl (by simpa using hcont₁))]
          exact returns_iff.mpr rfl
      · rw [sites_cons hdiv (by omega) hi, if_pos (le_refl i)]
        by_cases hcont₁ : act₁.cont = true
        · have hlast : size - (lim - off) = 0 := by
            by_contra hne
            exact hend ⟨hcont₁, hne⟩
          rw [sites_nil (.inr (by rw [Nat.succ_mul]; omega)), List.append_nil]
          exact htrav₁
        · exact htrav₁.stopped (fun hall => hcont₁ (hcont.mpr hall)) _

/-- The loop when no entry is left: a look at the block it would be in. -/
theorem blocks_at_end (hret : Answers cb) (hq : Quiet w.env) (rounds i off : Nat)
    (act : DiterAction) (dir : InodeCtx) (s : σ) (before : List Visit) (hoff : off < NENTS) :
    ∃ act' dir' s' calls w' disks, Returns (xv6DirIterate.blocks modcheck (recording cb) false
        (rounds + 1) i off 0 act dir (s, before)) w
        (if MAXFILE ≤ i then -EFBIG else 0, act', dir', (s', before ++ calls)) w' ∧
      Evolves dir.addrs disks i w.disk w'.disk ∧
      (calls = [] ↔ MAXFILE ≤ i ∨ bmap w.disk dir.addrs i ≠ 0) := by
  by_cases hmax : MAXFILE ≤ i
  · refine ⟨act, dir, s, [], w, _, ?_, .const _ _ _, iff_of_true rfl (.inl hmax)⟩
    rw [blocks_past hmax, if_pos hmax, List.append_nil]
    exact returns_iff.mpr rfl
  have hi := not_le.mp hmax
  obtain ⟨l₁, haddr⟩ := inodeAddr_returns dir hq hi
  have hlim : xv6Min NENTS (0 + off) = off := by
    rw [xv6Min_eq_min, Nat.zero_add, min_eq_right hoff.le]
  obtain ⟨act₁, s₁, calls₁, w₁, hbody, hblock, htrav, -⟩ :=
    body_traversed (w := { w with log := l₁ }) hret hq i (bmap w.disk dir.addrs i) (le_refl off)
      act s before
  refine ⟨act₁, { dir with dirty := false }, s₁, calls₁, w₁, _, ?_,
    (Evolves.const dir.addrs (i + 1) w₁.disk).cons hi hblock, ?_⟩
  · unfold xv6DirIterate.blocks
    rw [if_neg hmax]
    refine (returns_bind haddr).mpr ?_
    dsimp only
    rw [if_neg (by simp), hlim]
    refine (returns_bind hbody).mpr ?_
    dsimp only
    by_cases hcont : act₁.cont = true
    · rw [if_neg (by simp [hcont]), if_pos (Nat.zero_sub _)]
      exact returns_iff.mpr rfl
    · rw [if_pos (.inl (by simpa using hcont))]
      exact returns_iff.mpr rfl
  · rw [or_iff_right hmax]
    constructor
    · rintro rfl hz
      rw [if_pos hz] at htrav
      have hnone := htrav.whole fun y hy => absurd hy List.not_mem_nil
      cases hnone
    · intro hnz
      rw [if_neg hnz, List.Ico.self_empty] at htrav
      exact htrav.eq_nil

/-! ## The record changes nothing -/

theorem entries_erase (base : Nat) :
    ∀ (m k : Nat) {act act' : DiterAction} {blk blk' : Block} {s s' : σ × List Visit}
      {flush flush' : Bool}, xv6DirIterate.entries (recording cb) base m k act blk s flush =
        .ok (act', blk', s', flush') →
      xv6DirIterate.entries cb base m k act blk s.1 flush = .ok (act', blk', s'.1, flush')
  | 0, _, _, _, _, _, _, _, _, _, h => by
    cases h
    rfl
  | m + 1, k, act, act', blk, blk', s, s', flush, flush', h => by
    unfold xv6DirIterate.entries at h ⊢
    cases hcb : cb (base + k) (blk.dirent k) s.1 with
    | error e =>
      unfold recording at h
      rw [hcb] at h
      cases h
    | ok r =>
      obtain ⟨act₁, de, s₁⟩ := r
      rw [recording_ok hcb] at h
      simp only [bind, Except.bind] at h ⊢
      by_cases hcont : act₁.cont = true
      · rw [if_neg (by simp [hcont])] at h ⊢
        exact entries_erase base m (k + 1) h
      · rw [if_pos (by simpa using hcont)] at h ⊢
        cases h
        rfl

theorem body_erase {off lim : Nat} {act act' : DiterAction} {s s' : σ × List Visit} {e : Int}
    (h : Returns (xv6DirIterate.body modcheck (recording cb) i off lim b act s) w
      (e, act', s') w') :
    Returns (xv6DirIterate.body modcheck cb i off lim b act s.1) w (e, act', s'.1) w' := by
  unfold xv6DirIterate.body at h ⊢
  by_cases hb : b = 0
  · rw [if_pos hb] at h ⊢
    cases hcb : cb (i * NENTS) Dirent.zero s.1 with
    | error e =>
      unfold recording at h
      rw [hcb] at h
      obtain ⟨r, w₁, hlift, -⟩ := h.bind
      cases hlift.lift.1
    | ok r =>
      rw [recording_ok hcb] at h
      obtain ⟨hres, rfl⟩ := h.pure
      cases hres
      exact returns_iff.mpr rfl
  · rw [if_neg hb] at h ⊢
    obtain ⟨ok, w₁, hread, h⟩ := h.bind
    refine (returns_bind hread).mpr ?_
    rcases h.ite with ⟨hc, h⟩ | ⟨hc, h⟩
    · obtain ⟨hres, rfl⟩ := h.pure
      cases hres
      rw [if_pos hc]
      exact returns_iff.mpr rfl
    rw [if_neg hc]
    simp only [modcheck, runs_bind_bdata] at h ⊢
    obtain ⟨⟨act₁, blk, s₁, flush⟩, w₂, hlift, h⟩ := h.bind
    obtain ⟨hentries, rfl⟩ := hlift.lift
    rw [entries_erase _ _ _ hentries]
    simp only [runs_bind_lift]
    rcases h.ite with ⟨hf, h⟩ | ⟨hf, h⟩
    · obtain ⟨e₁, w₃, hflush, h⟩ := h.bind
      rw [if_pos hf]
      refine (returns_bind hflush).mpr ?_
      obtain ⟨hres, rfl⟩ := h.pure
      cases hres
      exact returns_iff.mpr rfl
    · rw [if_neg hf]
      simp only [runs_bind_bstore] at h ⊢
      obtain ⟨hres, rfl⟩ := h.pure
      cases hres
      exact returns_iff.mpr rfl

theorem blocks_erase {alloc : Bool} : ∀ {rounds i off size : Nat} {act act' : DiterAction}
    {dir dir' : InodeCtx} {s s' : σ × List Visit} {e : Int} {w : World},
    Returns (xv6DirIterate.blocks modcheck (recording cb) alloc rounds i off size act dir s) w
      (e, act', dir', s') w' →
    Returns (xv6DirIterate.blocks modcheck cb alloc rounds i off size act dir s.1) w
      (e, act', dir', s'.1) w'
  | 0, _, _, _, _, _, _, _, _, _, _, _, h => h.halt.elim
  | rounds + 1, i, off, size, act, act', dir, dir', s, s', e, w, h => by
    unfold xv6DirIterate.blocks at h ⊢
    obtain ⟨⟨e₁, b, dir₁⟩, w₁, haddr, h⟩ := h.bind
    refine (returns_bind haddr).mpr ?_
    rcases h.ite with ⟨hc, h⟩ | ⟨hc, h⟩
    · obtain ⟨hres, rfl⟩ := h.pure
      cases hres
      dsimp only
      rw [if_pos hc]
      exact returns_iff.mpr rfl
    dsimp only at hc ⊢
    rw [if_neg hc]
    obtain ⟨⟨e₂, act₂, s₂⟩, w₂, hbody, h⟩ := h.bind
    refine (returns_bind (body_erase hbody)).mpr ?_
    rcases h.ite with ⟨hc, h⟩ | ⟨hc, h⟩
    · obtain ⟨hres, rfl⟩ := h.pure
      cases hres
      dsimp only at hc ⊢
      rw [if_pos hc]
      exact returns_iff.mpr rfl
    dsimp only at hc ⊢
    rw [if_neg hc]
    rcases h.ite with ⟨hlast, h⟩ | ⟨hlast, h⟩
    · obtain ⟨hres, rfl⟩ := h.pure
      cases hres
      rw [if_pos hlast]
      exact returns_iff.mpr rfl
    · rw [if_neg hlast]
      exact blocks_erase h

/-! ## The iterator -/

/-- A callback that asks for no further entry ends the iteration with the loop. -/
theorem iterate_of_blocks {alloc : Bool} {dir dir' : InodeCtx} {s s' : σ} {act : DiterAction}
    {e : Int} (hc : NoExt cb) (hsize : dir.size % 16 = 0 ∧ 2 * 16 ≤ dir.size)
    (hoff : ¬ off > dir.size / 16)
    (h : Returns (xv6DirIterate.blocks modcheck cb alloc (MAXFILE + 1) (off / NENTS) (off % NENTS)
      (dir.size / 16 - off) .init dir s) w (e, act, dir', s') w') :
    Returns (xv6DirIterate modcheck dir cb s off alloc) w (e, dir', s') w' := by
  simp only [xv6DirIterate, Returns, runs_bind_assert]
  refine ⟨hsize, ?_⟩
  rw [if_neg hoff]
  refine (returns_bind h).mpr ?_
  have hext : act.dirExt = false := blocks_noExt hc rfl h
  dsimp only
  rw [if_neg (by simp [hext])]
  exact returns_iff.mpr rfl

theorem recording_noExt (hc : NoExt cb) : NoExt (recording cb) := by
  intro k de s act de' s' h
  unfold recording at h
  cases hcb : cb k de s.1 with
  | error e =>
    rw [hcb] at h
    cases h
  | ok r =>
    rw [hcb] at h
    cases h
    exact hc hcb

/-- The calls of a traversal of the range are as they should be. -/
theorem VisitsRange.of {calls : List Visit} {e : Int} (hev : Evolves addrs disks (off / NENTS) d d')
    (htrav : Traversed Visit.site Visit.cont (sites disks addrs off n) calls)
    (hbig : e = -EFBIG → MAXFILE * NENTS < n ∧ ∀ c ∈ calls, c.cont = true) :
    VisitsRange d addrs off n calls e d' where
  visits := ⟨disks, hev, htrav⟩
  increasing := by
    have hmap := htrav.pairwise sites_pairwise
    rw [List.pairwise_map] at hmap ⊢
    exact hmap
  inRange c hc := (mem_sites (htrav.mem hc)).1
  below c hc := (mem_sites (htrav.mem hc)).2
  tooBig := hbig

/-- The iterator without allocation returns, and it calls the callback for the entries it should
    exactly when the start is not just behind the last entry, or its block has been allocated, or
    the directory is too big. -/
theorem iterate_visits_iff (cb : DiterCallback σ) (dir : InodeCtx) (off : Nat) (s : σ) (w : World)
    (hq : Quiet w.env) (hsize : dir.size % 16 = 0 ∧ 2 * 16 ≤ dir.size) (hret : Answers cb)
    (hext : NoExt cb) :
    ∃ calls e dir' s' w',
      Returns (xv6DirIterate modcheck dir (recording cb) (s, []) off false) w
        (e, dir', (s', calls)) w' ∧
      Returns (xv6DirIterate modcheck dir cb s off false) w (e, dir', s') w' ∧
      (VisitsRange w.disk dir.addrs off (dir.size / 16) calls e w'.disk ↔
        (off = dir.size / 16 →
          (off / NENTS < MAXFILE ∧ bmap w.disk dir.addrs (off / NENTS) ≠ 0) ∨
            MAXFILE * NENTS < off)) := by
  have hmod : off % NENTS < NENTS := Nat.mod_lt _ (by decide)
  have hdiv : off / NENTS * NENTS + off % NENTS = off := Nat.div_add_mod' off NENTS
  rcases Nat.lt_trichotomy off (dir.size / 16) with hlt | heq | hgt
  · obtain ⟨e, act, dir', s', calls, w', hrun, ⟨disks, hev, htrav⟩, hbig⟩ := blocks_visits hret
      (dir.size / 16) MAXFILE (off / NENTS) (off % NENTS) (dir.size / 16 - off) .init dir s [] hq
      (Nat.le_add_right _ _) hmod (by omega) (by omega)
    rw [hdiv] at htrav
    refine ⟨calls, e, dir', s', w', iterate_of_blocks (recording_noExt hext) hsize (by omega) hrun,
      iterate_of_blocks hext hsize (by omega) (blocks_erase hrun), ?_⟩
    exact iff_of_true (.of hev htrav hbig) fun heq => absurd heq hlt.ne
  · obtain ⟨act, dir', s', calls, w', disks, hrun, hev, hcalls⟩ := blocks_at_end hret hq MAXFILE
      (off / NENTS) (off % NENTS) .init dir s [] hmod
    have hzero : dir.size / 16 - off = 0 := by omega
    rw [← hzero] at hrun
    refine ⟨calls, _, dir', s', w',
      iterate_of_blocks (recording_noExt hext) hsize (by omega) hrun,
      iterate_of_blocks hext hsize (by omega) (blocks_erase hrun), ?_⟩
    rw [imp_iff_right heq, ← heq]
    have hnone : sites disks dir.addrs off off = [] := sites_nil (.inr (le_refl off))
    have hpos : 0 < NENTS := by decide
    have hmax : MAXFILE ≤ off / NENTS ↔ MAXFILE * NENTS ≤ off := Nat.le_div_iff_mul_le hpos
    constructor
    · intro h
      obtain ⟨disks', -, htrav⟩ := h.visits
      rw [sites_nil (.inr (le_refl off))] at htrav
      rcases hcalls.mp htrav.eq_nil with hbig | hnz
      · exact .inr (h.tooBig (if_pos hbig)).1
      · by_cases hbig : MAXFILE ≤ off / NENTS
        · exact .inr (h.tooBig (if_pos hbig)).1
        · exact .inl ⟨not_le.mp hbig, hnz⟩
    · intro h
      have hnil : calls = [] := hcalls.mpr (h.symm.imp (fun hlt => hmax.mpr hlt.le) And.right)
      subst hnil
      refine .of hev (by rw [hnone]; exact .nil) fun he =>
        ⟨?_, fun c hc => absurd hc List.not_mem_nil⟩
      rcases h with ⟨hlt, -⟩ | hlt
      · rw [if_neg (not_le.mpr hlt)] at he
        exact absurd he (by decide)
      · exact hlt
  · refine ⟨[], 0, dir, s, w, ?_, ?_,
      iff_of_true (.of (.const _ _ _) ?_ fun he => ?_) fun heq => ?_⟩
    · simp only [xv6DirIterate, Returns, runs_bind_assert]
      refine ⟨hsize, ?_⟩
      rw [if_pos hgt]
      exact returns_iff.mpr rfl
    · simp only [xv6DirIterate, Returns, runs_bind_assert]
      refine ⟨hsize, ?_⟩
      rw [if_pos hgt]
      exact returns_iff.mpr rfl
    · rw [sites_nil (.inr hgt.le)]
      exact .nil
    · exact absurd he (by decide)
    · exact absurd heq hgt.ne'

end

/-! ## A directory of one block -/

/-- A callback that looks at every entry. -/
def passOver : DiterCallback Unit := fun _ de s =>
  .ok ({ DiterAction.init with cont := true }, de, s)

/-- Blocks 0 to 5 are metadata, blocks 6 to 63 data blocks. -/
def sixtyFourBlocks : World := World.blank ⟨64, 0, 32, 0, 1, 1, 4⟩ 6

/-- A directory of 64 entries in block 20. -/
def oneFullBlock : InodeCtx := ⟨oneBlock 20, 1024, false⟩

theorem iterate_visits_iff_oneFullBlock :
    ∃ calls e dir' s' w', Returns (xv6DirIterate modcheck oneFullBlock (recording passOver)
        ((), []) 0 false) sixtyFourBlocks (e, dir', (s', calls)) w' ∧
      VisitsRange sixtyFourBlocks.disk oneFullBlock.addrs 0 64 calls e w'.disk := by
  obtain ⟨calls, e, dir', s', w', hrun, -, hiff⟩ := iterate_visits_iff passOver oneFullBlock 0 ()
    sixtyFourBlocks (fun _ => rfl) (by decide) (fun _ _ _ => ⟨_, rfl⟩) (fun h => by cases h; rfl)
  exact ⟨calls, e, dir', s', w', hrun, hiff.mpr fun h => absurd h (by decide)⟩

/-- Started just behind the last entry, the iterator calls the callback for entry 64 of 64. -/
theorem iterate_visits_past_the_end :
    ∃ v dir' w', v.dnum = 64 ∧
      Returns (xv6DirIterate modcheck oneFullBlock (recording passOver) ((), []) 64 false)
        sixtyFourBlocks (0, dir', ((), [v])) w' ∧
      ¬ VisitsRange sixtyFourBlocks.disk oneFullBlock.addrs 64 64 [v] 0 w'.disk :=
  ⟨⟨64, Dirent.zero, { DiterAction.init with cont := true }⟩, _, _, rfl, returns_after rfl,
    fun h => absurd (h.inRange _ List.mem_cons_self) (lt_irrefl 64)⟩

end Xv6fs
