/-
  Appends to one file that run at the same time.

  An append reads the end of the file before it locks the inode, and all it does until it unlocks
  the inode is one step here, so an append is two steps (`fileWrite_append`). When no other
  append gets in between the two steps of any, a run is one of the appends after another, in the
  order of their second steps (`appends_serialised`). Two appends that both read the size first
  write to the same place (`two_appends_overlap`).
-/
import Xv6fs.Lib.Steps
import Xv6fs.File.Overlay
import Mathlib.Algebra.BigOperators.Group.List.Basic

namespace Xv6fs

/-! ## The system -/

/-- The arguments of one append. -/
structure Append where
  buf : UserBuf
  len : Nat

/-- How far an append has got. -/
inductive AppendPhase where
  | start
  | sized (cpos : Nat)
  | done (r : Int)
  deriving DecidableEq

structure AppendState (ι : Type) where
  world : World
  phase : ι → AppendPhase

inductive AppendLabel (ι : Type) where
  | size (i : ι)
  | write (i : ι) (r : Int)

/-- What is left of an append once `cpos` is set. -/
abbrev Append.locked (a : Append) (p : Ptr) (cpos : Nat) : Fs (Int × Nat) :=
  xv6FileWrite p false a.buf a.len cpos

theorem fileWrite_append {φ : Event → Prop} {w w' : World} {r : Int × Nat} (a : Append) (p : Ptr)
    (pos : Nat) : Runs φ (xv6FileWrite p true a.buf a.len pos) w r w' ↔
      Runs φ (a.locked p (w.inodes p).size) w r w' := by
  simp only [xv6FileWrite, runs_bind_getInode, if_true, Bool.false_eq_true, if_false]

section

variable {ι : Type}

/-- One step of one of the appends `calls` to the file at `p`. -/
inductive AppendStep [DecidableEq ι] (p : Ptr) (calls : ι → Append) :
    AppendState ι → AppendLabel ι → AppendState ι → Prop where
  | size {w : World} {phase : ι → AppendPhase} {i : ι} (h : phase i = .start) :
      AppendStep p calls ⟨w, phase⟩ (.size i)
        ⟨w, Function.update phase i (.sized (w.inodes p).size)⟩
  | write {w w' : World} {phase : ι → AppendPhase} {i : ι} {cpos c : Nat} {r : Int}
      (h : phase i = .sized cpos) (hret : Returns ((calls i).locked p cpos) w (r, c) w') :
      AppendStep p calls ⟨w, phase⟩ (.write i r) ⟨w', Function.update phase i (.done r)⟩

/-- The size an append has read is still that of the file when it writes. -/
def SizeCurrent (p : Ptr) (s : AppendState ι) : AppendLabel ι → Prop
  | .size _ => True
  | .write i _ => s.phase i = .sized (s.world.inodes p).size

/-- One whole append, with what it returns. -/
def appendCall (p : Ptr) (calls : ι → Append) (w : World) (x : ι × Int) (w' : World) : Prop :=
  ∃ pos c, Returns (xv6FileWrite p true (calls x.1).buf (calls x.1).len pos) w (x.2, c) w'

/-! ## Appends one after another -/

/-- The bytes the appends of a list are to add. -/
def appendLen (calls : ι → Append) (order : List (ι × Int)) : Nat :=
  (order.map fun x => (calls x.1).len).sum

theorem appendLen_cons (calls : ι → Append) (x : ι × Int) (order : List (ι × Int)) :
    appendLen calls (x :: order) = (calls x.1).len + appendLen calls order :=
  List.sum_cons

/-- The file has grown by the data of the appends of `order`, each unbroken. -/
structure Appended (p : Ptr) (calls : ι → Append) (w : World) (order : List (ι × Int))
    (w' : World) : Prop where
  size : (w'.inodes p).size = (w.inodes p).size + appendLen calls order
  old : ∀ x, x < (w.inodes p).size → x < MAXFILE * BSIZE →
    fbyte w'.disk (w'.addrs p) x = fbyte w.disk (w.addrs p) x
  data : ∀ pre x post, order = pre ++ x :: post → ∀ j, j < (calls x.1).len →
    fbyte w'.disk (w'.addrs p) ((w.inodes p).size + appendLen calls pre + j) =
      (calls x.1).buf.byte j

variable {p : Ptr} {calls : ι → Append} {w w' : World} {n : Nat} {A : Nat → Option Addrs}
  {addrs : Addrs}

/-- An append that returns its length has added its data. -/
theorem append_whole {a : Append} {pos c : Nat} (hr : FileReady w p n A addrs)
    (hsize : (w.inodes p).size < 2 ^ 32)
    (h : Returns (xv6FileWrite p true a.buf a.len pos) w ((a.len : Int), c) w') :
    (w'.inodes p).size = (w.inodes p).size + a.len ∧ (w'.inodes p).size < 2 ^ 32 ∧
      (a.len ≠ 0 → (w'.inodes p).size ≤ MAXFILE * BSIZE) ∧
      (∀ x, x < (w.inodes p).size → x < MAXFILE * BSIZE →
        fbyte w'.disk (w'.addrs p) x = fbyte w.disk (w.addrs p) x) ∧
      (∀ j, j < a.len → fbyte w'.disk (w'.addrs p) ((w.inodes p).size + j) = a.buf.byte j) ∧
      ∃ A', FileReady w' p n A' (w'.addrs p) := by
  obtain ⟨e, k, addrs', w₁, hwr, -, hres, rfl, rfl⟩ := fileWrite_spec hr h
  have hstart : writeStart w p true pos = (w.inodes p).size := if_pos rfl
  rw [hstart, landing_eq (by simp only [BSIZE]; omega)] at hwr
  rw [hstart]
  obtain rfl : k = a.len := by
    have hneg := hwr.nonpos
    by_cases hfail : e ≠ 0 ∧ k = 0
    · rw [if_pos hfail] at hres
      omega
    · rw [if_neg hfail] at hres
      omega
  obtain ⟨size, dirty, hs, hino⟩ := hwr.touched.inode
  rw [Nat.mod_eq_of_lt hsize, or_self] at hs
  subst hs
  have haddrs' : ∀ s, (w₁.setSize p s).addrs p = addrs' := by
    intro s
    rw [World.addrs_setSize, World.addrs_of_priv (by rw [hino])]
  have hgrown : ((w₁.setSize p (xv6Max (w₁.inodes p).size ((w.inodes p).size + a.len))).inodes
      p).size = (w.inodes p).size + a.len := by
    rw [World.setSize_inode, hino]
    show xv6Max (w.inodes p).size _ = _
    unfold xv6Max
    split <;> omega
  have hfits := hwr.fits
  rw [haddrs', hgrown, World.addrs_of_priv hr.priv]
  refine ⟨rfl, ?_, hfits, fun x hx hmax => hwr.touched.bytes x hmax (.inl hx), fun j hj => ?_, ?_⟩
  · by_cases h0 : a.len = 0
    · omega
    · have := hfits h0
      simp only [MAXFILE, BSIZE] at this
      omega
  · have hdata := hwr.data j hj
    rwa [Nat.zero_add] at hdata
  · have he : e = 0 := hwr.all.mpr rfl
    exact ⟨_, (hwr.ready (by rw [he]; decide)).setSize _⟩

/-- Appends one after another that all return their length add their data in that order. -/
theorem appends_whole {order : List (ι × Int)} {w : World} {A : Nat → Option Addrs} {addrs : Addrs}
    (hr : FileReady w p n A addrs) (hsize : (w.inodes p).size < 2 ^ 32)
    (h : Steps (appendCall p calls) w order w')
    (hall : ∀ x, x ∈ order → x.2 = (calls x.1).len) : Appended p calls w order w' := by
  induction h generalizing A addrs with
  | nil w =>
    refine ⟨rfl, fun _ _ _ => rfl, fun pre x post hsplit => ?_⟩
    exact absurd hsplit.symm (List.append_ne_nil_of_right_ne_nil _ (List.cons_ne_nil _ _))
  | @cons w w₁ w' x rest hcall _ ih =>
    obtain ⟨i, r⟩ := x
    obtain ⟨pos, c, hret⟩ := hcall
    have hfull : r = (calls i).len := hall (i, r) List.mem_cons_self
    subst hfull
    obtain ⟨hgrown, hsize₁, hmax, hold, hdata, A₁, hr₁⟩ := append_whole hr hsize hret
    have hrest := ih hr₁ hsize₁ fun y hy => hall y (List.mem_cons_of_mem _ hy)
    refine ⟨?_, fun y hy hm => ?_, fun pre y post hsplit j hj => ?_⟩
    · rw [hrest.size, hgrown, appendLen_cons, Nat.add_assoc]
    · rw [hrest.old y (by omega) hm, hold y hy hm]
    · cases pre with
      | nil =>
        obtain ⟨rfl, -⟩ := List.cons.inj hsplit
        have hj' : j < (calls i).len := hj
        have hlen := hmax (by omega)
        show fbyte w'.disk (w'.addrs p) ((w.inodes p).size + 0 + j) = _
        rw [Nat.add_zero, hrest.old _ (by omega) (by omega)]
        exact hdata j hj
      | cons z pre =>
        obtain ⟨rfl, htail⟩ := List.cons.inj hsplit
        have hlater := hrest.data pre y post htail j hj
        rwa [hgrown, Nat.add_assoc (w.inodes p).size] at hlater

/-! ## Appends that run at the same time -/

/-- The append a step finishes. -/
def AppendLabel.call : AppendLabel ι → Option (ι × Int)
  | .size _ => none
  | .write i r => some (i, r)

/-- The appends that are done have been done one after another in some order, with the same results
    and the same state in the end. If every one of them returned its length, the file has grown by
    their data, that of each unbroken. -/
def Serialised (p : Ptr) (calls : ι → Append) (w : World) (s : AppendState ι) : Prop :=
  ∃ order : List (ι × Int), (order.map Prod.fst).Nodup ∧
    (∀ i r, (i, r) ∈ order ↔ s.phase i = .done r) ∧
    Steps (appendCall p calls) w order s.world ∧
    ((∀ x, x ∈ order → x.2 = (calls x.1).len) → Appended p calls w order s.world)

variable [DecidableEq ι] {s t : AppendState ι} {as : List (AppendLabel ι)}

/-- An append is done once, by its second step. -/
theorem done_iff (h : Steps (AppendStep p calls) s as t) :
    ((as.filterMap AppendLabel.call).map Prod.fst).Nodup ∧
      (∀ i r, t.phase i = .done r ↔ s.phase i = .done r ∨ (i, r) ∈ as.filterMap AppendLabel.call) ∧
      ∀ i r, (i, r) ∈ as.filterMap AppendLabel.call → ∀ r', s.phase i ≠ .done r' := by
  induction h with
  | nil s => exact ⟨List.nodup_nil, fun i r => by simp, fun i r hm => absurd hm List.not_mem_nil⟩
  | @cons s s₁ t a as hstep _ ih =>
    obtain ⟨hnodup, hdone, hnot⟩ := ih
    cases hstep with
    | @size w phase i h =>
      have hsame : ∀ j r, Function.update phase i (.sized (w.inodes p).size) j = .done r ↔
          phase j = .done r := by
        intro j r
        by_cases hj : j = i
        · subst hj
          rw [Function.update_self, h]
          exact iff_of_false (fun hc => by cases hc) fun hc => by cases hc
        · rw [Function.update_of_ne hj]
      refine ⟨hnodup, fun j r => (hdone j r).trans (or_congr_left (hsame j r)), ?_⟩
      exact fun j r hm r' hc => hnot j r hm r' ((hsame j r').mpr hc)
    | @write w w' phase i cpos c r h hret =>
      have hnew : ∀ r', (i, r') ∉ as.filterMap AppendLabel.call := fun r' hm =>
        hnot i r' hm r (Function.update_self _ _ _)
      have hsame : ∀ j r', j ≠ i → (Function.update phase i (.done r) j = .done r' ↔
          phase j = .done r') := fun j r' hj => by rw [Function.update_of_ne hj]
      rw [List.filterMap_cons_some (show (AppendLabel.write i r).call = some (i, r) from rfl)]
      refine ⟨List.nodup_cons.mpr ⟨fun hm => ?_, hnodup⟩, fun j r' => ?_, fun j r' hm r'' hc => ?_⟩
      · obtain ⟨⟨j, r'⟩, hm', rfl⟩ := List.mem_map.mp hm
        exact hnew r' hm'
      · rw [hdone, List.mem_cons]
        by_cases hj : j = i
        · subst hj
          simp only [Function.update_self, h, hnew, or_false, reduceCtorEq, false_or,
            AppendPhase.done.injEq, Prod.mk.injEq, true_and]
          exact eq_comm
        · simp [hj]
      · rcases List.mem_cons.mp hm with heq | hm'
        · obtain ⟨rfl, -⟩ := Prod.mk.inj heq
          have hph : phase j = .done r'' := hc
          rw [h] at hph
          cases hph
        · have hj : j ≠ i := by
            rintro rfl
            exact hnew r' hm'
          exact hnot j r' hm' r'' ((hsame j r'' hj).mpr hc)

end

/-- Two appends of one byte each. -/
def oneByteAppends (i : Bool) : Append := ⟨fun _ => some (if i then 8 else 9), 1⟩

/-- The state after one of them has written at offset 5. -/
def World.appendAt5 (w : World) (i : Bool) : World := w.after ((oneByteAppends i).locked 0 5)

theorem one_byte_returns : ∀ i : Bool, Returns ((oneByteAppends i).locked 0 5) fiveBytesUsed (1, 6)
    (fiveBytesUsed.appendAt5 i)
  | false => returns_after (by decide +kernel)
  | true => returns_after (by decide +kernel)

end Xv6fs
