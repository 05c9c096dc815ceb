import EdgeClient.Tracking.TrackerStages

/-!
# Merging lists of tracks

The lists of the tracker are merged and reduced by identifier. A merge keeps the
identifiers of its first list distinct, a reduction removes every identifier of the
second list, and the tracks that are left after the removal of duplicates overlap
only weakly.
-/

namespace EdgeClient.Tracking.ByteTracker

open Basis Vision

variable {F D : Type}

/-- The identifiers of the objects. -/
def idsOf (heap : ℕ → STrack F D) (tracks : List ℕ) : List ℕ := tracks.map fun t => (heap t).trackId

/-- The identifier of a listed track is listed. -/
theorem mem_idsOf {heap : ℕ → STrack F D} {tracks : List ℕ} {t : ℕ} (ht : t ∈ tracks) :
    (heap t).trackId ∈ idsOf heap tracks := List.mem_map_of_mem ht

/-- Tracks with distinct identifiers are determined by them. -/
theorem eq_of_id_eq {heap : ℕ → STrack F D} {tracks : List ℕ} (h : (idsOf heap tracks).Nodup)
    {t u : ℕ} (ht : t ∈ tracks) (hu : u ∈ tracks) (hid : (heap t).trackId = (heap u).trackId) :
    t = u := List.inj_on_of_nodup_map h ht hu hid

/-- A merge contains the first list. Tracks are only added at its end. -/
theorem subset_jointTracks (heap : ℕ → STrack F D) (a b : List ℕ) : a ⊆ jointTracks heap a b := by
  unfold jointTracks
  induction b generalizing a with
  | nil => exact List.Subset.refl a
  | cons t b ih =>
    rw [List.foldl_cons]
    refine List.Subset.trans ?_ (ih _)
    split
    · exact List.Subset.refl a
    · exact List.subset_append_left a _

/-- What the joint list holds is in one of the two lists. A merge takes places from the lists and
makes no new ones. -/
theorem mem_of_mem_jointTracks {heap : ℕ → STrack F D} {a b : List ℕ} {u : ℕ}
    (hu : u ∈ jointTracks heap a b) : u ∈ a ∨ u ∈ b := by
  unfold jointTracks at hu
  induction b generalizing a with
  | nil => exact Or.inl hu
  | cons t b ih =>
    rw [List.foldl_cons] at hu
    rcases ih hu with hu | hu
    · split at hu
      · exact Or.inl hu
      · rcases List.mem_append.mp hu with hu | hu
        · exact Or.inl hu
        · exact Or.inr (List.mem_singleton.mp hu ▸ List.mem_cons_self)
    · exact Or.inr (List.mem_cons_of_mem t hu)

/-- A merge has the identifiers of both lists. A track of the second list is left out only where
its identifier is there already. -/
theorem id_mem_jointTracks {heap : ℕ → STrack F D} {a b : List ℕ} {u : ℕ} (hu : u ∈ a ∨ u ∈ b) :
    (heap u).trackId ∈ idsOf heap (jointTracks heap a b) := by
  rcases hu with hu | hu
  · exact mem_idsOf (subset_jointTracks heap a b hu)
  unfold jointTracks
  induction b generalizing a with
  | nil => cases hu
  | cons t b ih =>
    rcases List.mem_cons.mp hu with rfl | hu
    · rw [List.foldl_cons]
      have hrest := subset_jointTracks heap (if (heap u).trackId ∈ a.map (fun v => (heap v).trackId)
        then a else a ++ [u]) b
      split at hrest
      · rename_i hmem
        obtain ⟨v, hv, hid⟩ := List.mem_map.mp hmem
        rw [if_pos hmem, ← hid]
        exact mem_idsOf (hrest hv)
      · rename_i hnew
        rw [if_neg hnew]
        exact mem_idsOf (hrest (List.mem_append_right _ (List.mem_singleton_self u)))
    · exact ih hu

/-- A merge adds no identifier twice. The second list may repeat identifiers, the first one must
not. -/
theorem jointTracks_nodup {heap : ℕ → STrack F D} {a : List ℕ} (ha : (idsOf heap a).Nodup)
    (b : List ℕ) : (idsOf heap (jointTracks heap a b)).Nodup := by
  unfold jointTracks
  induction b generalizing a with
  | nil => exact ha
  | cons t b ih =>
    rw [List.foldl_cons]
    refine ih ?_
    split
    · exact ha
    · rename_i hnew
      rw [idsOf, List.map_append]
      refine List.Nodup.append ha (List.nodup_singleton _) ?_
      intro id hid hmem
      obtain rfl := List.mem_singleton.mp hmem
      exact hnew hid

/-- Lists without a common identifier are appended. By induction on the second list: its first
track is not in the first list. -/
theorem jointTracks_eq_append {heap : ℕ → STrack F D} {a b : List ℕ}
    (h : (idsOf heap (a ++ b)).Nodup) : jointTracks heap a b = a ++ b := by
  unfold jointTracks
  induction b generalizing a with
  | nil => exact (List.append_nil a).symm
  | cons t b ih =>
    have hnew : (heap t).trackId ∉ a.map fun u => (heap u).trackId := by
      intro hmem
      rw [idsOf, List.map_append, List.map_cons] at h
      exact (List.disjoint_of_nodup_append h) hmem List.mem_cons_self
    rw [List.foldl_cons, if_neg hnew, ih]
    · rw [List.append_assoc, List.singleton_append]
    · rwa [List.append_assoc, List.singleton_append]

/-- What is left of a list are its tracks whose identifiers do not occur in the other list. -/
theorem mem_subtractTracks {heap : ℕ → STrack F D} {a b : List ℕ} {t : ℕ} :
    t ∈ subtractTracks heap a b ↔ t ∈ a ∧ (heap t).trackId ∉ idsOf heap b := by
  unfold subtractTracks
  rw [List.mem_filter, decide_eq_true_iff]
  rfl

/-- Subtracting keeps the order of the tracks. -/
theorem subtractTracks_sublist (heap : ℕ → STrack F D) (a b : List ℕ) :
    (subtractTracks heap a b).Sublist a := List.filter_sublist

variable [FloatOps F] [FloatOps D] [FloatPair F D]

/-- Reading a list at some of its indices, in order, gives a part of it. -/
theorem map_getD_filter_sublist (l : List ℕ) (keep : ℕ → Bool) :
    (((List.range l.length).filter keep).map fun i => l.getD i 0).Sublist l := by
  have h := (List.filter_sublist (p := keep) (l := List.range l.length)).map fun i => l.getD i 0
  rwa [map_getD_range] at h

/-- The removal of duplicates only drops tracks. -/
theorem removeDuplicates_sublist (heap : ℕ → STrack F D) (a b : List ℕ) :
    (removeDuplicates heap a b).1.Sublist a ∧ (removeDuplicates heap a b).2.Sublist b := by
  unfold removeDuplicates
  split
  · exact ⟨List.Sublist.refl a, List.Sublist.refl b⟩
  · exact ⟨map_getD_filter_sublist a _, map_getD_filter_sublist b _⟩

/-- Two tracks that survive the removal of duplicates overlap weakly: of two with a
smaller cost, one is dropped. -/
theorem removeDuplicates_cost {heap : ℕ → STrack F D} {a b : List ℕ} {t u : ℕ}
    (ht : t ∈ (removeDuplicates heap a b).1) (hu : u ∈ (removeDuplicates heap a b).2) :
    lit 0.15 ≤ pairCost false (heap t).associationItem (heap u).associationItem := by
  unfold removeDuplicates at ht hu
  split at ht
  · rename_i hempty
    rw [if_pos hempty] at hu
    rcases hempty with rfl | rfl
    · cases ht
    · cases hu
  rename_i hnonempty
  rw [if_neg hnonempty] at hu
  dsimp only at ht hu
  obtain ⟨i, hi, rfl⟩ := List.mem_map.mp ht
  obtain ⟨j, hj, rfl⟩ := List.mem_map.mp hu
  rw [List.mem_filter, List.mem_range, decide_eq_true_iff, List.mem_filter, List.mem_range] at hi hj
  by_contra hcost
  have hcell :
      (costMatrix (toItems heap a) (toItems heap b) false).getD (i * b.length + j) (lit 0) =
      pairCost false (heap (a.getD i 0)).associationItem (heap (b.getD j 0)).associationItem := by
    have hb : b.length = (toItems heap b).length := (List.length_map _).symm
    have hai : i < (toItems heap a).length := by simpa only [toItems, List.length_map] using hi.1
    have hbj : j < (toItems heap b).length := by simpa only [toItems, List.length_map] using hj.1
    rw [hb, getD_costMatrix _ _ false hai hbj]
    simp [toItems, hi.1, hj.1]
  rw [← hcell] at hcost
  by_cases hlonger : (heap (b.getD j 0)).frameId - (heap (b.getD j 0)).startFrame <
      (heap (a.getD i 0)).frameId - (heap (a.getD i 0)).startFrame
  · refine hj.2 ⟨hj.1, List.any_eq_true.mpr ⟨i, List.mem_range.mpr hi.1, ?_⟩⟩
    rw [Bool.and_eq_true, decide_eq_true_iff, decide_eq_true_iff]
    exact ⟨hcost, hlonger⟩
  · refine hi.2 ⟨hi.1, List.any_eq_true.mpr ⟨j, List.mem_range.mpr hj.1, ?_⟩⟩
    rw [Bool.and_eq_true, decide_eq_true_iff, Bool.not_eq_true', decide_eq_false_iff_not]
    exact ⟨hcost, hlonger⟩

end EdgeClient.Tracking.ByteTracker
