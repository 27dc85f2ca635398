/-
  Names, link counts and homes.

  A namespace has nodes with link counts; directories among them map names to nodes, and carry
  something that says where they are (`dots`). A step adds, removes or moves one name and adjusts
  one link count. While every named node is there and its count is that of its names (`Exact`),
  steps keep it so (`Exact.step`), and when no directory is moved to another directory every
  directory stays at home (`AtHome.step`).
-/
import Mathlib.Data.Set.Card
import Mathlib.Logic.Function.Basic

namespace Namespace

structure Node (ι κ δ : Type) where
  isDir : Bool
  links : Nat
  names : κ → Option ι
  dots : δ

variable {ι κ δ : Type}

/-- The nodes of a namespace. -/
abbrev Nodes (ι κ δ : Type) : Type := ι → Option (Node ι κ δ)

/-- The node that a name of a directory stands for. -/
def nameAt (N : Nodes ι κ δ) (x : ι × κ) : Option ι := (N x.1).bind fun P => P.names x.2

/-- The names of a node. -/
def namesOf (N : Nodes ι κ δ) (n : ι) : Set (ι × κ) := {x | nameAt N x = some n}

/-- Every named node is there, and its link count is the number of its names. -/
def Exact (limit : Nat) (N : Nodes ι κ δ) : Prop :=
  ∀ x n, nameAt N x = some n → ∃ y, N n = some y ∧ (namesOf N n).encard = y.links ∧ y.links ≤ limit

/-- Every named directory but the root is at home in the directory that names it. -/
def AtHome (root : ι) (home : ι → ι → δ) (N : Nodes ι κ δ) : Prop :=
  ∀ x n y, nameAt N x = some n → N n = some y → y.isDir = true → n ≠ root → y.dots = home n x.1

theorem nameAt_eq {N : Nodes ι κ δ} {p : ι} {k : κ} {P : Node ι κ δ} (hp : N p = some P) :
    nameAt N (p, k) = P.names k := by
  unfold nameAt
  rw [hp, Option.bind_some]

variable [DecidableEq ι]

/-- The names of a node do not change. -/
theorem nameAt_update {N : Nodes ι κ δ} {n : ι} {x : Option (Node ι κ δ)}
    (h : ∀ k, (x.bind fun P => P.names k) = (N n).bind fun P => P.names k) :
    nameAt (Function.update N n x) = nameAt N := by
  funext ⟨a, b⟩
  unfold nameAt
  by_cases ha : a = n
  · subst ha
    dsimp only
    rw [Function.update_self, h b]
  · dsimp only
    rw [Function.update_of_ne ha]

variable [DecidableEq κ]

def Node.setName (P : Node ι κ δ) (k : κ) (o : Option ι) : Node ι κ δ :=
  { P with names := Function.update P.names k o }

def Node.setLinks (y : Node ι κ δ) (links : Nat) : Node ι κ δ := { y with links := links }

/-- One change of the namespace. `stay` says that no directory is moved to another directory. -/
inductive Step (home : ι → ι → δ) (limit : Nat) (stay : Prop) : Nodes ι κ δ → Nodes ι κ δ → Prop
  | same (N : Nodes ι κ δ) : Step home limit stay N N
  /-- a node without a name -/
  | leaked {N : Nodes ι κ δ} {n : ι} {x : Node ι κ δ} (hn : N n = none)
      (hx : ∀ k, x.names k = none) : Step home limit stay N (Function.update N n (some x))
  | made {N : Nodes ι κ δ} {p n : ι} {k : κ} {P x : Node ι κ δ} (hp : N p = some P)
      (hk : P.names k = none) (hn : N n = none) (hx : ∀ k, x.names k = none) (hlinks : x.links = 1)
      (hdots : x.isDir = true → x.dots = home n p) :
      Step home limit stay N
        (Function.update (Function.update N n (some x)) p (some (P.setName k (some n))))
  | linked {N : Nodes ι κ δ} {p n : ι} {k : κ} {P y : Node ι κ δ} (hp : N p = some P)
      (hk : P.names k = none) (hn : N n = some y) (hpn : p ≠ n) (hdir : y.isDir = false)
      (hnamed : ∃ x, nameAt N x = some n) (hlim : y.links < limit) :
      Step home limit stay N (Function.update
        (Function.update N n (some (y.setLinks (y.links + 1)))) p (some (P.setName k (some n))))
  | unlinked {N : Nodes ι κ δ} {p n : ι} {k : κ} {P y : Node ι κ δ} (hp : N p = some P)
      (hk : P.names k = some n) (hn : N n = some y) (hpn : p ≠ n) (hmore : y.links ≠ 1) :
      Step home limit stay N (Function.update
        (Function.update N n (some (y.setLinks (y.links - 1)))) p (some (P.setName k none)))
  | removed {N : Nodes ι κ δ} {p n : ι} {k : κ} {P y : Node ι κ δ} (hp : N p = some P)
      (hk : P.names k = some n) (hn : N n = some y) (hpn : p ≠ n) (hlast : y.links = 1)
      (hempty : ∀ k, y.names k = none) :
      Step home limit stay N
        (Function.update (Function.update N n none) p (some (P.setName k none)))
  | renamed {N : Nodes ι κ δ} {p q n : ι} {k k' : κ} {P Q : Node ι κ δ} (hp : N p = some P)
      (hk : P.names k = some n)
      (hq : Function.update N p (some (P.setName k none)) q = some Q) (hk' : Q.names k' = none)
      (hstay : stay → p ≠ q → ∀ y, N n = some y → y.isDir = false) :
      Step home limit stay N (Function.update (Function.update N p (some (P.setName k none))) q
        (some (Q.setName k' (some n))))

variable {home : ι → ι → δ} {limit : Nat} {stay : Prop} {N N' : Nodes ι κ δ} {p n : ι} {k : κ}
  {P y : Node ι κ δ} {o : Option ι}

/-! ## What names stand for -/

/-- A directory with one name changed. -/
theorem nameAt_setName (hp : N p = some P) :
    nameAt (Function.update N p (some (P.setName k o))) = Function.update (nameAt N) (p, k) o := by
  funext ⟨a, b⟩
  unfold nameAt
  by_cases ha : a = p
  · subst ha
    dsimp only
    rw [Function.update_self, Option.bind_some]
    unfold Node.setName
    dsimp only
    by_cases hb : b = k
    · subst hb
      rw [Function.update_self, Function.update_self]
    · rw [Function.update_of_ne hb, Function.update_of_ne fun hc => hb (Prod.ext_iff.mp hc).2, hp,
        Option.bind_some]
  · dsimp only
    rw [Function.update_of_ne ha, Function.update_of_ne fun hc => ha (Prod.ext_iff.mp hc).1]

/-- A name that stands for another node before and after the change does not count for `m`. -/
theorem namesOf_setName_other {m : ι} (hp : N p = some P) (hk : P.names k ≠ some m)
    (ho : o ≠ some m) : namesOf (Function.update N p (some (P.setName k o))) m = namesOf N m := by
  ext z
  unfold namesOf
  rw [nameAt_setName hp]
  by_cases hz : z = (p, k)
  · subst hz
    simp only [Set.mem_ofPred_eq, Function.update_self]
    rw [nameAt_eq hp]
    exact iff_of_false ho hk
  · simp only [Set.mem_ofPred_eq, Function.update_of_ne hz]

theorem namesOf_add (hp : N p = some P) :
    namesOf (Function.update N p (some (P.setName k (some n)))) n =
      insert (p, k) (namesOf N n) := by
  ext z
  unfold namesOf
  rw [nameAt_setName hp]
  by_cases hz : z = (p, k)
  · simp [hz]
  · simp [hz]

theorem namesOf_drop (hp : N p = some P) :
    namesOf (Function.update N p (some (P.setName k none))) n = namesOf N n \ {(p, k)} := by
  ext z
  unfold namesOf
  rw [nameAt_setName hp]
  by_cases hz : z = (p, k)
  · simp [hz]
  · simp [hz]

/-- Setting a name leaves the other members of every node as they are. -/
theorem setName_node {m : ι} (hp : N p = some P) (hm : N m = some y) :
    ∃ y', Function.update N p (some (P.setName k o)) m = some y' ∧ y'.links = y.links ∧
      y'.isDir = y.isDir ∧ y'.dots = y.dots := by
  by_cases hmp : m = p
  · subst hmp
    rw [hp] at hm
    cases hm
    exact ⟨_, Function.update_self _ _ _, rfl, rfl, rfl⟩
  · exact ⟨y, (Function.update_of_ne hmp _ _).trans hm, rfl, rfl, rfl⟩

/-! ## Exact link counts -/

/-- The link count of `n` is the number of its names. -/
def Counted (limit : Nat) (N : Nodes ι κ δ) (n : ι) : Prop :=
  ∃ y, N n = some y ∧ (namesOf N n).encard = y.links ∧ y.links ≤ limit

/-- One more name for `n`, whose link count is ahead by one. -/
theorem exact_add (hp : N p = some P) (hk : P.names k = none)
    (hother : ∀ x m, nameAt N x = some m → m ≠ n → Counted limit N m)
    (hn : ∃ y, N n = some y ∧ (namesOf N n).encard + 1 = y.links ∧ y.links ≤ limit) :
    Exact limit (Function.update N p (some (P.setName k (some n)))) := by
  intro x m hx
  by_cases hm : m = n
  · subst hm
    obtain ⟨y, hy, hcount, hle⟩ := hn
    obtain ⟨y', hy', hlinks, -⟩ := setName_node (k := k) (o := some m) hp hy
    refine ⟨y', hy', ?_, hlinks ▸ hle⟩
    rw [namesOf_add hp, Set.encard_insert_of_notMem, hcount, hlinks]
    intro hmem
    have hmem' : nameAt N (p, k) = some m := hmem
    rw [nameAt_eq hp, hk] at hmem'
    cases hmem'
  · have hnames := namesOf_setName_other (k := k) (o := some n) (m := m) hp (by simp [hk])
      (by simpa using Ne.symm hm)
    have hold : nameAt N x = some m := by
      have hmem : x ∈ namesOf N m := hnames ▸ hx
      exact hmem
    obtain ⟨y, hy, hcount, hle⟩ := hother x m hold hm
    obtain ⟨y', hy', hlinks, -⟩ := setName_node (k := k) (o := some n) hp hy
    exact ⟨y', hy', by rw [hnames, hcount, hlinks], hlinks ▸ hle⟩

/-- One name of `n` less, whose link count is behind by one; without a name it is not looked at. -/
theorem exact_drop (hp : N p = some P) (hk : P.names k = some n)
    (hother : ∀ x m, nameAt N x = some m → m ≠ n → Counted limit N m)
    (hn : ∀ x, x ∈ namesOf N n → x ≠ (p, k) →
      ∃ y, N n = some y ∧ (namesOf N n).encard = y.links + 1 ∧ y.links ≤ limit) :
    Exact limit (Function.update N p (some (P.setName k none))) := by
  intro x m hx
  by_cases hm : m = n
  · subst hm
    have hx' : x ∈ namesOf N m \ {(p, k)} := namesOf_drop (n := m) hp ▸ hx
    obtain ⟨y, hy, hcount, hle⟩ := hn x hx'.1 hx'.2
    obtain ⟨y', hy', hlinks, -⟩ := setName_node (k := k) (o := none) hp hy
    refine ⟨y', hy', ?_, hlinks ▸ hle⟩
    have hmem : (p, k) ∈ namesOf N m := (nameAt_eq hp).trans hk
    have hadd := Set.encard_sdiff_singleton_add_one hmem
    rw [hcount] at hadd
    rw [namesOf_drop hp, hlinks]
    exact ENat.add_left_injective_of_ne_top ENat.one_ne_top hadd
  · have hnames := namesOf_setName_other (k := k) (o := none) (m := m) hp
      (by rw [hk]; simpa using Ne.symm hm) (by simp)
    have hold : nameAt N x = some m := by
      have hmem : x ∈ namesOf N m := hnames ▸ hx
      exact hmem
    obtain ⟨y, hy, hcount, hle⟩ := hother x m hold hm
    obtain ⟨y', hy', hlinks, -⟩ := setName_node (k := k) (o := none) hp hy
    exact ⟨y', hy', by rw [hnames, hcount, hlinks], hlinks ▸ hle⟩

omit [DecidableEq κ] in
/-- Where one node keeps its names, the others keep their counts. -/
theorem Exact.others {x : Option (Node ι κ δ)} (h : Exact limit N)
    (hx : ∀ k, (x.bind fun P => P.names k) = (N n).bind fun P => P.names k) :
    ∀ z m, nameAt (Function.update N n x) z = some m → m ≠ n →
      Counted limit (Function.update N n x) m := by
  intro z m hz hm
  rw [nameAt_update hx] at hz
  obtain ⟨y, hy, hcount, hle⟩ := h z m hz
  refine ⟨y, (Function.update_of_ne hm _ _).trans hy, ?_, hle⟩
  unfold namesOf
  rw [nameAt_update hx]
  exact hcount

/-- The steps keep the link counts exact. -/
theorem Exact.step (h : Exact limit N) (hlimit : 0 < limit) (hs : Step home limit stay N N') :
    Exact limit N' := by
  cases hs with
  | same => exact h
  | @leaked n x hn hx =>
    have hnames : ∀ k, ((some x).bind fun P => P.names k) = (N n).bind fun P => P.names k :=
      fun k => by rw [hn]; exact hx k
    intro z m hz
    refine h.others hnames z m hz ?_
    rintro rfl
    rw [nameAt_update hnames] at hz
    obtain ⟨y, hy, -⟩ := h z m hz
    rw [hn] at hy
    cases hy
  | @made p n k P x hp hk hn hx hlinks hdots =>
    have hnames : ∀ k, ((some x).bind fun P => P.names k) = (N n).bind fun P => P.names k :=
      fun k => by rw [hn]; exact hx k
    have hpn : p ≠ n := by
      rintro rfl
      rw [hn] at hp
      cases hp
    refine exact_add ((Function.update_of_ne hpn _ _).trans hp) hk (h.others hnames) ?_
    refine ⟨x, Function.update_self _ _ _, ?_, hlinks ▸ hlimit⟩
    have hnone : namesOf (Function.update N n (some x)) n = ∅ := by
      refine Set.eq_empty_of_forall_notMem fun z hz => ?_
      have hz' : nameAt N z = some n := by
        rw [← nameAt_update hnames]
        exact hz
      obtain ⟨y, hy, -⟩ := h z n hz'
      rw [hn] at hy
      cases hy
    rw [hnone, hlinks]
    simp
  | @linked p n k P y hp hk hn hpn hdir hnamed hlim =>
    have hnames : ∀ k, ((some (y.setLinks (y.links + 1))).bind fun P => P.names k) =
        (N n).bind fun P => P.names k := fun k => by rw [hn]; rfl
    obtain ⟨z, hz⟩ := hnamed
    obtain ⟨y', hy', hcount, -⟩ := h z n hz
    obtain rfl : y' = y := Option.some.inj (hy'.symm.trans hn)
    refine exact_add ((Function.update_of_ne hpn _ _).trans hp) hk (h.others hnames) ?_
    refine ⟨_, Function.update_self _ _ _, ?_, hlim⟩
    unfold namesOf at hcount ⊢
    rw [nameAt_update hnames, hcount]
    rfl
  | @unlinked p n k P y hp hk hn hpn hmore =>
    have hnames : ∀ k, ((some (y.setLinks (y.links - 1))).bind fun P => P.names k) =
        (N n).bind fun P => P.names k := fun k => by rw [hn]; rfl
    have hmem : nameAt N (p, k) = some n := (nameAt_eq hp).trans hk
    obtain ⟨y', hy', hcount, hle⟩ := h _ n hmem
    obtain rfl : y' = y := Option.some.inj (hy'.symm.trans hn)
    refine exact_drop ((Function.update_of_ne hpn _ _).trans hp) hk (h.others hnames)
      fun z hz hne => ?_
    refine ⟨_, Function.update_self _ _ _, ?_, (Nat.sub_le _ _).trans hle⟩
    have hpos : y'.links ≠ 0 := by
      intro h0
      rw [h0, Nat.cast_zero, Set.encard_eq_zero] at hcount
      have hin : (p, k) ∈ namesOf N n := hmem
      rw [hcount] at hin
      exact hin
    unfold namesOf at hcount ⊢
    rw [nameAt_update hnames, hcount]
    change ((y'.links : Nat) : ℕ∞) = ((y'.links - 1 : Nat) : ℕ∞) + 1
    rw [← Nat.cast_add_one, Nat.sub_add_cancel (Nat.pos_of_ne_zero hpos)]
  | @removed p n k P y hp hk hn hpn hlast hempty =>
    have hnames : ∀ k, ((none : Option (Node ι κ δ)).bind fun P => P.names k) =
        (N n).bind fun P => P.names k := fun k => by rw [hn]; exact (hempty k).symm
    have hmem : nameAt N (p, k) = some n := (nameAt_eq hp).trans hk
    obtain ⟨y', hy', hcount, -⟩ := h _ n hmem
    obtain rfl : y' = y := Option.some.inj (hy'.symm.trans hn)
    refine exact_drop ((Function.update_of_ne hpn _ _).trans hp) hk (h.others hnames)
      fun z hz hne => ?_
    -- the last name was the one that is dropped
    exfalso
    rw [hlast, Nat.cast_one, Set.encard_eq_one] at hcount
    obtain ⟨x, hx⟩ := hcount
    have hz' : z ∈ namesOf N n := by
      unfold namesOf at hz ⊢
      rwa [nameAt_update hnames] at hz
    have hpk : (p, k) ∈ namesOf N n := hmem
    rw [hx, Set.mem_singleton_iff] at hz' hpk
    exact hne (hz'.trans hpk.symm)
  | @renamed p q n k k' P Q hp hk hq hk' hstay =>
    have hmem : nameAt N (p, k) = some n := (nameAt_eq hp).trans hk
    refine exact_add hq hk' (fun z m hz hm => ?_) ?_
    · have hnames := namesOf_setName_other (k := k) (o := none) (m := m) hp
        (by rw [hk]; simpa using Ne.symm hm) (by simp)
      have hz' : z ∈ namesOf N m := hnames ▸ hz
      obtain ⟨y, hy, hcount, hle⟩ := h z m hz'
      obtain ⟨y', hy', hlinks, -⟩ := setName_node (k := k) (o := none) hp hy
      exact ⟨y', hy', by rw [hnames, hcount, hlinks], hlinks ▸ hle⟩
    · obtain ⟨y, hy, hcount, hle⟩ := h _ n hmem
      obtain ⟨y', hy', hlinks, -⟩ := setName_node (k := k) (o := none) hp hy
      refine ⟨y', hy', ?_, hlinks ▸ hle⟩
      have hin : (p, k) ∈ namesOf N n := hmem
      rw [namesOf_drop hp, hlinks, Set.encard_sdiff_singleton_add_one hin, hcount]

/-! ## Directories at home -/

/-- Behind a change of one name every node is what it was, but for its names. -/
theorem node_of_setName {m : ι} {y' : Node ι κ δ} (hp : N p = some P)
    (hm : Function.update N p (some (P.setName k o)) m = some y') :
    ∃ y, N m = some y ∧ y.isDir = y'.isDir ∧ y.dots = y'.dots := by
  by_cases hmp : m = p
  · subst hmp
    rw [Function.update_self] at hm
    cases hm
    exact ⟨P, hp, rfl, rfl⟩
  · exact ⟨y', (Function.update_of_ne hmp _ _).symm.trans hm, rfl, rfl⟩

/-- A name that is there after a change of one name is the new one, or was there. -/
theorem nameAt_of_setName {z : ι × κ} {m : ι} (hp : N p = some P)
    (hz : nameAt (Function.update N p (some (P.setName k o))) z = some m) :
    (z = (p, k) ∧ o = some m) ∨ nameAt N z = some m := by
  rw [nameAt_setName hp] at hz
  by_cases hzk : z = (p, k)
  · subst hzk
    rw [Function.update_self] at hz
    exact .inl ⟨rfl, hz⟩
  · rw [Function.update_of_ne hzk] at hz
    exact .inr hz

omit [DecidableEq ι] [DecidableEq κ] in
/-- A number without a node has no names. -/
theorem Exact.unnamed (h : Exact limit N) (hn : N n = none) {z : ι × κ} : nameAt N z ≠ some n := by
  intro hz
  obtain ⟨y, hy, -⟩ := h z n hz
  rw [hn] at hy
  cases hy

/-- A change of one name and of a link count; only a new name for a directory is looked at. -/
theorem AtHome.adjusted {root : ι} {links : Nat} (h : AtHome root home N) (hp : N p = some P)
    (hn : N n = some y) (hpn : p ≠ n)
    (hnew : ∀ z m y', (z = (p, k) ∧ o = some m) → N m = some y' → y'.isDir = true →
      y'.dots = home m z.1) :
    AtHome root home (Function.update (Function.update N n (some (y.setLinks links))) p
      (some (P.setName k o))) := by
  have hnames : ∀ k, ((some (y.setLinks links)).bind fun P => P.names k) =
      (N n).bind fun P => P.names k := fun k => by rw [hn]; rfl
  have hp' : Function.update N n (some (y.setLinks links)) p = some P :=
    (Function.update_of_ne hpn _ _).trans hp
  intro z m y' hz hm hdir hroot
  obtain ⟨y₁, hy₁, hisDir₁, hdots₁⟩ := node_of_setName hp' hm
  obtain ⟨y₀, hy₀, hisDir₀, hdots₀⟩ : ∃ y₀, N m = some y₀ ∧ y₀.isDir = y₁.isDir ∧
      y₀.dots = y₁.dots := by
    by_cases hmn : m = n
    · subst hmn
      rw [Function.update_self] at hy₁
      cases hy₁
      exact ⟨y, hn, rfl, rfl⟩
    · exact ⟨y₁, (Function.update_of_ne hmn _ _).symm.trans hy₁, rfl, rfl⟩
  have hdir₀ : y₀.isDir = true := hisDir₀.trans (hisDir₁.trans hdir)
  rw [← hdots₁, ← hdots₀]
  rcases nameAt_of_setName hp' hz with hz' | hz'
  · exact hnew z m y₀ hz' hy₀ hdir₀
  · rw [nameAt_update hnames] at hz'
    exact h z m y₀ hz' hy₀ hdir₀ hroot

/-- The steps that move no directory to another one keep the directories at home. -/
theorem AtHome.step {root : ι} (hE : Exact limit N) (h : AtHome root home N) (hstay : stay)
    (hs : Step home limit stay N N') : AtHome root home N' := by
  cases hs with
  | same => exact h
  | @leaked n x hn hx =>
    have hnames : ∀ k, ((some x).bind fun P => P.names k) = (N n).bind fun P => P.names k :=
      fun k => by rw [hn]; exact hx k
    intro z m y hz hm hdir hroot
    rw [nameAt_update hnames] at hz
    have hmn : m ≠ n := by
      rintro rfl
      exact hE.unnamed hn hz
    rw [Function.update_of_ne hmn] at hm
    exact h z m y hz hm hdir hroot
  | @made p n k P x hp hk hn hx hlinks hdots =>
    have hnames : ∀ k, ((some x).bind fun P => P.names k) = (N n).bind fun P => P.names k :=
      fun k => by rw [hn]; exact hx k
    have hpn : p ≠ n := by
      rintro rfl
      rw [hn] at hp
      cases hp
    have hp' : Function.update N n (some x) p = some P := (Function.update_of_ne hpn _ _).trans hp
    intro z m y hz hm hdir hroot
    obtain ⟨y₀, hy₀, hisDir, hdots₀⟩ := node_of_setName hp' hm
    rw [← hdots₀]
    rcases nameAt_of_setName hp' hz with ⟨rfl, ho⟩ | hz'
    · -- the new node is at home where it has been made
      cases ho
      rw [Function.update_self] at hy₀
      cases hy₀
      exact hdots (hisDir.trans hdir)
    · rw [nameAt_update hnames] at hz'
      have hmn : m ≠ n := by
        rintro rfl
        exact hE.unnamed hn hz'
      rw [Function.update_of_ne hmn] at hy₀
      exact h z m y₀ hz' hy₀ (hisDir.trans hdir) hroot
  | @linked p n k P y hp hk hn hpn hfile hnamed hlim =>
    exact h.adjusted hp hn hpn fun z m y' hz hm hdir => by
      obtain ⟨rfl, ho⟩ := hz
      cases ho
      rw [hn] at hm
      cases hm
      rw [hfile] at hdir
      cases hdir
  | @unlinked p n k P y hp hk hn hpn hmore =>
    exact h.adjusted hp hn hpn fun z m y' hz hm hdir => by cases hz.2
  | @removed p n k P y hp hk hn hpn hlast hempty =>
    have hnames : ∀ k, ((none : Option (Node ι κ δ)).bind fun P => P.names k) =
        (N n).bind fun P => P.names k := fun k => by rw [hn]; exact (hempty k).symm
    have hp' : Function.update N n none p = some P := (Function.update_of_ne hpn _ _).trans hp
    intro z m y' hz hm hdir hroot
    obtain ⟨y₀, hy₀, hisDir, hdots₀⟩ := node_of_setName hp' hm
    rcases nameAt_of_setName hp' hz with ⟨-, ho⟩ | hz'
    · cases ho
    rw [nameAt_update hnames] at hz'
    have hmn : m ≠ n := by
      rintro rfl
      rw [Function.update_self] at hy₀
      cases hy₀
    rw [Function.update_of_ne hmn] at hy₀
    rw [← hdots₀]
    exact h z m y₀ hz' hy₀ (hisDir.trans hdir) hroot
  | @renamed p q n k k' P Q hp hk hq hk' hmove =>
    intro z m y' hz hm hdir hroot
    obtain ⟨y₁, hy₁, hisDir₁, hdots₁⟩ := node_of_setName hq hm
    obtain ⟨y₀, hy₀, hisDir₀, hdots₀⟩ := node_of_setName hp hy₁
    have hdir₀ : y₀.isDir = true := hisDir₀.trans (hisDir₁.trans hdir)
    rw [← hdots₁, ← hdots₀]
    rcases nameAt_of_setName hq hz with ⟨rfl, ho⟩ | hz'
    · -- it is moved within one directory
      cases ho
      have hpq : p = q := by
        by_contra hne
        rw [hmove hstay hne y₀ hy₀] at hdir₀
        cases hdir₀
      subst hpq
      exact h (p, k) n y₀ ((nameAt_eq hp).trans hk) hy₀ hdir₀ hroot
    · rcases nameAt_of_setName hp hz' with ⟨-, ho⟩ | hz''
      · cases ho
      · exact h z m y₀ hz'' hy₀ hdir₀ hroot

end Namespace
