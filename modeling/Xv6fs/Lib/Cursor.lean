/-
  Listing a table that changes, in pieces.

  A scan starts at the position the one before left and lists the entries in use from there on, up
  to a position that it leaves to the next (`Scan`). Between two scans the table may change. The
  entries are listed in the order of their slots, whatever happens in between, and an entry that is
  there at every scan is listed once by the time a scan finds nothing left (`Listed`).
-/
import Mathlib.Data.List.Forall2
import Mathlib.Data.List.Perm.Subperm
import Mathlib.Order.Nat

namespace Cursor

variable {β : Type}

/-- A scan of the table `f` from `pos` to `pos'` lists `out`. -/
structure Scan (f : Nat → Option β) (pos : Nat) (out : List β) (pos' : Nat) : Prop where
  le : pos ≤ pos'
  slots : ∃ slots : List Nat, slots.Pairwise (· < ·) ∧ (∀ k ∈ slots, pos ≤ k ∧ k < pos') ∧
    List.Forall₂ (fun k b => f k = some b) slots out ∧
    ∀ k, pos ≤ k → k < pos' → (f k).isSome = true → k ∈ slots

/-- What scans of the tables `fs` have listed when the next is to start at `pos`. -/
structure Listed (fs : List (Nat → Option β)) (pos : Nat) (out : List β) : Prop where
  slots : ∃ slots : List Nat, slots.Pairwise (· < ·) ∧ (∀ k ∈ slots, k < pos) ∧
    List.Forall₂ (fun k b => ∃ f ∈ fs, f k = some b) slots out ∧
    ∀ k, k < pos → (∀ f ∈ fs, (f k).isSome = true) → k ∈ slots

theorem exists_of_forall₂ {α : Type} {R : α → β → Prop} {as : List α} {bs : List β} {a : α}
    (h : List.Forall₂ R as bs) (ha : a ∈ as) :
    ∃ (i : Nat) (b : β), as[i]? = some a ∧ bs[i]? = some b ∧ R a b := by
  induction h with
  | nil => cases ha
  | cons hab _ ih =>
    rcases List.mem_cons.mp ha with rfl | ha
    · exact ⟨0, _, rfl, rfl, hab⟩
    · obtain ⟨i, b, hi, hb, hR⟩ := ih ha
      exact ⟨i + 1, b, hi, hb, hR⟩

theorem Scan.refl (f : Nat → Option β) (pos : Nat) : Scan f pos [] pos :=
  ⟨le_refl pos, [], .nil, by simp, .nil, fun _ h h' => absurd h (by omega)⟩

/-- The scan passes slots that are not in use. -/
theorem Scan.pass {f : Nat → Option β} {pos pos' pos'' : Nat} {out : List β}
    (h : Scan f pos out pos') (hle : pos' ≤ pos'')
    (hnone : ∀ k, pos' ≤ k → k < pos'' → f k = none) : Scan f pos out pos'' := by
  obtain ⟨hpos, slots, hsort, hin, hout, hall⟩ := h
  refine ⟨le_trans hpos hle, slots, hsort, fun k hk => ⟨(hin k hk).1, ?_⟩, hout,
    fun k hk hk' hsome => ?_⟩
  · exact lt_of_lt_of_le (hin k hk).2 hle
  · by_cases hlt : k < pos'
    · exact hall k hk hlt hsome
    · rw [hnone k (not_lt.mp hlt) hk'] at hsome
      cases hsome

/-- The scan stops at a position behind which it has listed nothing. -/
theorem Scan.back {f : Nat → Option β} {pos pos' pos'' : Nat} {out : List β}
    (h : Scan f pos out pos'') (hge : pos ≤ pos') (hle : pos' ≤ pos'')
    (hnone : ∀ k, pos' ≤ k → k < pos'' → f k = none) : Scan f pos out pos' := by
  obtain ⟨-, slots, hsort, hin, hout, hall⟩ := h
  refine ⟨hge, slots, hsort, fun k hk => ⟨(hin k hk).1, ?_⟩, hout,
    fun k hk hk' => hall k hk (lt_of_lt_of_le hk' hle)⟩
  by_contra hlt
  obtain ⟨-, b, -, -, hb⟩ := exists_of_forall₂ hout hk
  rw [hnone k (not_lt.mp hlt) (hin k hk).2] at hb
  cases hb

/-- The scan lists the entry at its position. -/
theorem Scan.emit {f : Nat → Option β} {pos pos' : Nat} {out : List β} {b : β}
    (h : Scan f pos out pos') (hb : f pos' = some b) : Scan f pos (out ++ [b]) (pos' + 1) := by
  obtain ⟨hpos, slots, hsort, hin, hout, hall⟩ := h
  refine ⟨Nat.le_succ_of_le hpos, slots ++ [pos'], ?_, fun k hk => ?_, ?_, fun k hk hk' hsome => ?_⟩
  · refine List.pairwise_append.mpr ⟨hsort, List.pairwise_singleton _ _, fun k hk k' hk' => ?_⟩
    rw [List.mem_singleton.mp hk']
    exact (hin k hk).2
  · rcases List.mem_append.mp hk with hk | hk
    · exact ⟨(hin k hk).1, Nat.lt_succ_of_lt (hin k hk).2⟩
    · rw [List.mem_singleton.mp hk]
      exact ⟨hpos, Nat.lt_succ_self _⟩
  · exact List.rel_append hout (.cons hb .nil)
  · rcases Nat.lt_succ_iff_lt_or_eq.mp hk' with hlt | rfl
    · exact List.mem_append_left _ (hall k hk hlt hsome)
    · exact List.mem_append_right _ (List.mem_singleton_self _)

/-- A scan of the table whose entries go through `g`. -/
theorem Scan.map {γ : Type} (g : β → γ) {f : Nat → Option β} {pos pos' : Nat} {out : List β}
    (h : Scan f pos out pos') : Scan (fun k => (f k).map g) pos (out.map g) pos' := by
  obtain ⟨hle, slots, hsort, hin, hout, hall⟩ := h
  refine ⟨hle, slots, hsort, hin, ?_, fun k hk hk' hsome => hall k hk hk' ?_⟩
  · refine List.forall₂_map_right_iff.mpr (hout.imp fun k b hb => ?_)
    rw [hb]
    rfl
  · rwa [Option.isSome_map] at hsome

theorem listed_nil : Listed ([] : List (Nat → Option β)) 0 [] :=
  ⟨[], .nil, by simp, .nil, fun _ h => absurd h (by omega)⟩

/-- One more scan. -/
theorem Listed.scan {fs : List (Nat → Option β)} {f : Nat → Option β} {pos pos' : Nat}
    {out out' : List β} (h : Listed fs pos out) (hs : Scan f pos out' pos') :
    Listed (fs ++ [f]) pos' (out ++ out') := by
  obtain ⟨slots, hsort, hin, hout, hall⟩ := h.slots
  obtain ⟨hle, slots', hsort', hin', hout', hall'⟩ := hs
  refine ⟨slots ++ slots', ?_, fun k hk => ?_, ?_, fun k hk hsome => ?_⟩
  · exact List.pairwise_append.mpr ⟨hsort, hsort', fun k hk k' hk' =>
      lt_of_lt_of_le (hin k hk) (hin' k' hk').1⟩
  · rcases List.mem_append.mp hk with hk | hk
    · exact lt_of_lt_of_le (hin k hk) hle
    · exact (hin' k hk).2
  · refine List.rel_append (R := fun k b => ∃ g ∈ fs ++ [f], g k = some b) ?_ ?_
    · exact hout.imp fun k b ⟨g, hg, hb⟩ => ⟨g, List.mem_append_left _ hg, hb⟩
    · exact hout'.imp fun k b hb => ⟨f, List.mem_append_right _ (List.mem_singleton_self f), hb⟩
  · by_cases hlt : k < pos
    · exact List.mem_append_left _ (hall k hlt fun g hg => hsome g (List.mem_append_left _ hg))
    · refine List.mem_append_right _ (hall' k (not_lt.mp hlt) hk ?_)
      exact hsome f (List.mem_append_right _ (List.mem_singleton_self f))

/-- No more is listed than there are slots before the position. -/
theorem Listed.length_le {fs : List (Nat → Option β)} {pos : Nat} {out : List β}
    (h : Listed fs pos out) : out.length ≤ pos := by
  obtain ⟨slots, hsort, hin, hout, -⟩ := h.slots
  rw [← hout.length_eq]
  have hnodup : slots.Nodup := List.Pairwise.imp (fun hlt => ne_of_lt hlt) hsort
  have hsub : slots ⊆ List.range pos := fun k hk => List.mem_range.mpr (hin k hk)
  calc slots.length ≤ (List.range pos).length := (hnodup.subperm hsub).length_le
    _ = pos := List.length_range

end Cursor
