import EdgeClient.Basis.Literals

/-!
# Greedy suppression

Candidates are taken in the order of a list. A candidate is dropped when a candidate that
was kept before suppresses it. What is kept is free of suppression, and everything that is
dropped is suppressed by something that was kept before it.
-/

namespace Basis

variable {α β : Type*}

/-- Take one candidate after the candidates that are kept. -/
def suppressStep (suppresses : α → α → Bool) (kept : List α) (candidate : α) : List α :=
  if kept.any fun accepted => suppresses accepted candidate then kept else kept ++ [candidate]

/-- Take the candidates in order. -/
def suppress (suppresses : α → α → Bool) (candidates : List α) : List α :=
  candidates.foldl (suppressStep suppresses) []

/-- What is kept of the candidates that were taken. -/
structure Suppressed (suppresses : α → α → Bool) (taken kept dropped : List α) : Prop where
  /-- Candidates are kept in their order. -/
  sublist : kept.Sublist taken
  /-- Every candidate is kept or dropped. -/
  perm : taken.Perm (kept ++ dropped)
  /-- What is kept is free of suppression. -/
  free : kept.Pairwise fun earlier later => suppresses earlier later = false
  /-- What is dropped is suppressed by something in front of it. -/
  cause : ∀ d ∈ dropped, ∃ k ∈ kept, suppresses k d = true ∧ [k, d].Sublist taken

namespace Suppressed

variable {suppresses : α → α → Bool} {taken kept dropped : List α}

/-- Without candidates nothing is kept and nothing is suppressed. -/
theorem empty : Suppressed suppresses [] [] [] :=
  ⟨List.Sublist.refl _, List.Perm.refl _, List.Pairwise.nil, by simp⟩

/-- One more candidate. It is kept when nothing kept suppresses it, and otherwise the one that
does is its cause. -/
theorem step (h : Suppressed suppresses taken kept dropped) (candidate : α) :
    ∃ dropped', Suppressed suppresses (taken ++ [candidate])
      (suppressStep suppresses kept candidate) dropped' := by
  have hcause : ∀ d ∈ dropped, ∃ k ∈ kept,
      suppresses k d = true ∧ [k, d].Sublist (taken ++ [candidate]) := by
    intro d hd
    obtain ⟨k, hk, hkd, hbefore⟩ := h.cause d hd
    exact ⟨k, hk, hkd, hbefore.trans (List.sublist_append_left _ _)⟩
  unfold suppressStep
  split
  · rename_i hany
    obtain ⟨k, hk, hkc⟩ := List.any_eq_true.mp hany
    refine ⟨dropped ++ [candidate], h.sublist.trans (List.sublist_append_left _ _), ?_, h.free, ?_⟩
    · rw [← List.append_assoc]
      exact h.perm.append_right _
    · intro d hd
      rcases List.mem_append.mp hd with hd | hd
      · exact hcause d hd
      · rw [List.mem_singleton.mp hd]
        have hfront : [k].Sublist taken := List.singleton_sublist.mpr (h.sublist.subset hk)
        exact ⟨k, hk, hkc, hfront.append (List.Sublist.refl [candidate])⟩
  · rename_i hany
    refine ⟨dropped, h.sublist.append (List.Sublist.refl _), ?_, ?_, ?_⟩
    · refine (h.perm.append_right _).trans ?_
      rw [List.append_assoc, List.append_assoc]
      exact List.perm_append_comm.append_left kept
    · refine List.pairwise_append.mpr ⟨h.free, List.pairwise_singleton _ _, ?_⟩
      intro k hk c hc
      rw [List.mem_singleton.mp hc]
      cases hkc : suppresses k candidate with
      | false => rfl
      | true => exact absurd (List.any_eq_true.mpr ⟨k, hk, hkc⟩) hany
    · intro d hd
      obtain ⟨k, hk, hkd, hbefore⟩ := hcause d hd
      exact ⟨k, List.mem_append_left _ hk, hkd, hbefore⟩

end Suppressed

/-- Greedy suppression keeps and drops as described. The candidates are visited from the front, so
the induction is on the last one. -/
theorem suppressed_suppress (suppresses : α → α → Bool) (candidates : List α) :
    ∃ dropped, Suppressed suppresses candidates (suppress suppresses candidates) dropped := by
  induction candidates using List.reverseRecOn with
  | nil => exact ⟨[], Suppressed.empty⟩
  | append_singleton candidates candidate ih =>
    obtain ⟨dropped, h⟩ := ih
    have hlast : suppress suppresses (candidates ++ [candidate]) =
        suppressStep suppresses (suppress suppresses candidates) candidate := by
      simp [suppress, List.foldl_append]
    rw [hlast]
    exact h.step candidate

/-- Suppression of labelled candidates only looks at their labels. What the candidates carry
besides their labels stays out of the decision. -/
theorem suppress_map (suppresses : β → β → Bool) (label : α → β) (candidates : List α) :
    suppress suppresses (candidates.map label) =
      (suppress (fun k d => suppresses (label k) (label d)) candidates).map label := by
  have hstep : ∀ (kept : List α) (candidate : α),
      suppressStep suppresses (kept.map label) (label candidate) =
        (suppressStep (fun k d => suppresses (label k) (label d)) kept candidate).map label := by
    intro kept candidate
    unfold suppressStep
    rw [List.any_map, apply_ite (List.map label), List.map_append, List.map_singleton]
    rfl
  have hrun : ∀ kept : List α,
      (candidates.map label).foldl (suppressStep suppresses) (kept.map label) =
        (candidates.foldl (suppressStep fun k d => suppresses (label k) (label d)) kept).map
          label := by
    induction candidates with
    | nil => exact fun kept => rfl
    | cons candidate candidates ih =>
      intro kept
      rw [List.map_cons, List.foldl_cons, List.foldl_cons, hstep]
      exact ih _
  exact hrun []

/-- A permutation of labels comes from one of the labelled items. The relation between labels and
items is carried along the permutation. -/
theorem exists_perm_of_perm_map {label : α → β} {items : List α} {labels : List β}
    (h : labels.Perm (items.map label)) : ∃ ordered : List α,
      ordered.Perm items ∧ labels = ordered.map label := by
  have hitems : List.Forall₂ (fun l i => l = label i) (items.map label) items := by
    rw [List.forall₂_map_left_iff]
    exact List.forall₂_same.mpr fun _ _ => rfl
  obtain ⟨ordered, hordered, hperm⟩ := List.perm_comp_forall₂ h hitems
  refine ⟨ordered, hperm, ?_⟩
  rw [← List.forall₂_eq_eq_eq, List.forall₂_map_right_iff]
  exact hordered

end Basis
