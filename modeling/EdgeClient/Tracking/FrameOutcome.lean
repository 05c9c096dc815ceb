import EdgeClient.Tracking.TrackerFrame

/-!
# What a frame does to the lists

From the stages of an update follows what the tracker holds afterwards: tracked tracks
carry a detection of the frame, no two of them the same one, lost tracks are those that
were seen before and not given up, and identifiers are either old or new.
-/

namespace EdgeClient.Tracking.ByteTracker

open Basis Vision

variable {F D : Type} [FloatOps F] [FloatOps D] [FloatPair F D]

/-- The object carries a detection of the frame. -/
structure Carries (frame : ℤ) (det t : STrack F D) : Prop where
  state : t.state = .tracked
  frameId : t.frameId = frame
  score : t.score = det.score
  observation : t.observation = det.observation
  hasObservation : t.hasObservation = det.hasObservation
  position : t.position = det.position

/-- The object has taken over a detection of the frame. -/
structure Takes (frame : ℤ) (det t : STrack F D) : Prop where
  frameId : t.frameId = frame
  score : t.score = det.score
  observation : t.observation = det.observation
  hasObservation : t.hasObservation = det.hasObservation
  position : t.position = det.position

namespace Pass

/-- Each track of the frame with its detection. A track that starts is its own one. -/
def uses (s : Pass F D) (old : Impl F D) : List (ℕ × ℕ) :=
  (s.first.pairs.map fun m => ((s.pool old).getD m.row 0, s.candidates.1.getD m.col 0)) ++
    (s.second.pairs.map fun m => ((s.remaining old).getD m.row 0, s.candidates.2.getD m.col 0)) ++
    (s.third.pairs.map fun m => ((s.unconfirmed old).getD m.row 0, s.remainingHigh.getD m.col 0)) ++
    s.started.map fun t => (t, t)

omit [FloatOps D] [FloatPair F D] in
/-- The tracks that a match uses are those found in this frame, in the order of the stages. -/
theorem uses_fst (s : Pass F D) (old : Impl F D) : (s.uses old).map Prod.fst = s.found old := by
  simp only [uses, found, firstTracks, secondTracks, thirdTracks, List.map_append, List.map_map,
    Function.comp_def, List.map_id']

namespace Of

variable {s : Pass F D} {old : Impl F D} {input : List (FaceDetection F)}

/-! ### The references of each stage -/

section References

variable (hs : s.Of old input) (hold : old.Linked)
include hs

/-- The first stage matches tracks of the pool only. -/
theorem first_subset : s.firstTracks old ⊆ s.pool old := fun _ ht =>
  hs.first.tracks_perm.subset (List.mem_append_left _ ht)

/-- The second stage matches only tracks that the first one left. -/
theorem second_subset : s.secondTracks old ⊆ s.remaining old := fun _ ht =>
  hs.second.tracks_perm.subset (List.mem_append_left _ ht)

/-- A track becomes lost in this frame only if the first stage left it. -/
theorem newlyLost_subset : s.newlyLost old ⊆ s.remaining old := fun _ ht =>
  hs.second.tracks_perm.subset (List.mem_append_right _ ht)

/-- The third stage matches unconfirmed tracks only. -/
theorem third_subset : s.thirdTracks old ⊆ s.unconfirmed old := fun _ ht =>
  hs.third.tracks_perm.subset (List.mem_append_left _ ht)

/-- Only unconfirmed tracks are rejected, and so removed at once. -/
theorem rejected_subset : s.rejected old ⊆ s.unconfirmed old := fun _ ht =>
  hs.third.tracks_perm.subset (List.mem_append_right _ ht)

/-- What the first stage leaves was in the pool. -/
theorem remaining_subset_pool : s.remaining old ⊆ s.pool old := fun _ ht =>
  hs.first.tracks_perm.subset (List.mem_append_right _ (List.mem_of_mem_filter ht))

/-- A new track starts from a detection of a high score. -/
theorem started_subset : s.started ⊆ s.candidates.1 := fun _ ht =>
  hs.first.detections_perm.subset (List.mem_append_right _
    (hs.third.detections_perm.subset (List.mem_append_right _ (hs.started_sublist.subset ht))))

/-- The first two associations leave every object alone that is not in their pool. -/
theorem marked_eq_of_not_pool {k : ℕ} (hk : k ∉ s.pool old) : s.marked k = s.predicted k := by
  have hremaining : k ∉ s.remaining old := fun h => hk (hs.remaining_subset_pool h)
  rw [hs.marked_others k fun h => hremaining (hs.newlyLost_subset h),
    hs.rematched_others k fun h => hremaining (hs.second_subset h),
    hs.matched_others k fun h => hk (hs.first_subset h)]

/-- The detections of the tracks are distinct candidates. Each stage takes its detections from
those that the stages in front of it left over. -/
theorem uses_snd_nodup : ((s.uses old).map Prod.snd).Nodup ∧
    (s.uses old).map Prod.snd ⊆ s.candidates.1 ++ s.candidates.2 := by
  have hcandidates : (s.candidates.1 ++ s.candidates.2).Nodup :=
    List.Nodup.of_map _ hs.detected.positions
  have hsnd : ((s.uses old).map Prod.snd).Perm
      (((s.first.pairs.map fun m => s.candidates.1.getD m.col 0) ++
        ((s.third.pairs.map fun m => s.remainingHigh.getD m.col 0) ++ s.started)) ++
        s.second.pairs.map fun m => s.candidates.2.getD m.col 0) := by
    simp only [uses, List.map_append, List.map_map, Function.comp_def, List.map_id',
      List.append_assoc]
    exact (List.perm_append_comm.trans (by rw [List.append_assoc])).append_left _
  have hsub : (((s.first.pairs.map fun m => s.candidates.1.getD m.col 0) ++
        ((s.third.pairs.map fun m => s.remainingHigh.getD m.col 0) ++ s.started)) ++
        s.second.pairs.map fun m => s.candidates.2.getD m.col 0).Subperm
      (s.candidates.1 ++ s.candidates.2) := by
    have hthird := (((List.Sublist.refl _).append hs.started_sublist).subperm).trans
      hs.third.detections_perm.subperm
    have hfirst := ((List.Subperm.refl _).append hthird).trans hs.first.detections_perm.subperm
    have hsecond := (List.sublist_append_left _ _).subperm.trans hs.second.detections_perm.subperm
    exact hfirst.append hsecond
  obtain ⟨l, hperm, hsublist⟩ := hsub
  exact ⟨hsnd.nodup_iff.mpr (hperm.nodup_iff.mp (hcandidates.sublist hsublist)),
    fun d hd => hsublist.subset (hperm.symm.subset (hsnd.subset hd))⟩

include hold

/-- Live tracks are older than the detections of the frame. -/
theorem detected_eq {t : ℕ} (ht : t ∈ old.live) : s.detected t = old.heap t :=
  hs.detected.others t (hold.allocated t ht)

/-- Detections are stored in fresh places, so no detection is a live track. -/
theorem candidate_not_live {d : ℕ} (hd : d ∈ s.candidates.1 ++ s.candidates.2) : d ∉ old.live := by
  intro hlive
  have hnew := (hs.detected.fresh d hd).1
  have hused := hold.allocated d hlive
  omega

/-- The pool is the confirmed tracks that were tracked, followed by the lost ones: merging the two
lists drops nothing, because they are disjoint. -/
theorem pool_eq : s.pool old = s.reported old ++ old.lost :=
  pool_eq_append hold fun _ ht => hs.detected_eq hold ht

/-- The pool holds live tracks only. -/
theorem pool_subset : s.pool old ⊆ old.live :=
  (pool_sublist hold fun _ ht => hs.detected_eq hold ht).subset

/-- No track is twice in the pool. -/
theorem pool_nodup : (s.pool old).Nodup :=
  hold.live_nodup.sublist (pool_sublist hold fun _ ht => hs.detected_eq hold ht)

/-- The tracks that the first association leaves over are not those it matches. -/
theorem remaining_not_first {t : ℕ} (ht : t ∈ s.remaining old) : t ∉ s.firstTracks old := by
  intro hfirst
  have hnodup := hs.first.tracks_perm.nodup_iff.mpr (hs.pool_nodup hold)
  exact List.disjoint_of_nodup_append hnodup hfirst (List.mem_of_mem_filter ht)

/-- Lost tracks stay lost until they are matched, so the second association is about
tracked ones. -/
theorem remaining_subset : s.remaining old ⊆ s.reported old := by
  intro t ht
  have hstate := of_decide_eq_true (List.mem_filter.mp ht).2
  have hpool := hs.first.tracks_perm.subset (List.mem_append_right _ (List.mem_of_mem_filter ht))
  rw [hs.matched_others t (hs.remaining_not_first hold ht)] at hstate
  rw [hs.pool_eq hold, List.mem_append] at hpool
  refine hpool.resolve_right fun hlost => ?_
  obtain ⟨mean, covariance, hpredicted⟩ := hs.predicted t
  have hlive : t ∈ old.live := List.mem_append_right _ hlost
  rw [hpredicted, hs.detected_eq hold hlive] at hstate
  dsimp only at hstate
  rw [hold.lost_state t hlost] at hstate
  cases hstate

/-- No track is left twice for the second stage. -/
theorem remaining_nodup : (s.remaining old).Nodup := by
  refine List.Nodup.filter _ ?_
  exact List.Nodup.of_append_right (hs.first.tracks_perm.nodup_iff.mpr (hs.pool_nodup hold))

/-- Unconfirmed tracks take no part in the first association. The pool consists of activated
tracks and of lost ones, and these lists are disjoint. -/
theorem unconfirmed_not_pool {t : ℕ} (ht : t ∈ s.unconfirmed old) : t ∉ s.pool old := by
  intro hpool
  rw [hs.pool_eq hold, List.mem_append] at hpool
  rcases hpool with hreported | hlost
  · have hyes := (List.mem_filter.mp hreported).2
    have hno := (List.mem_filter.mp ht).2
    rw [hyes] at hno
    cases hno
  · exact hold.disjoint (s.unconfirmed_subset old ht) hlost

/-- No track becomes lost twice in one frame. -/
theorem newlyLost_nodup : (s.newlyLost old).Nodup :=
  List.Nodup.of_append_right (hs.second.tracks_perm.nodup_iff.mpr (hs.remaining_nodup hold))

/-- A track that becomes lost was matched by neither stage, so not by the second one. -/
theorem newlyLost_not_second {t : ℕ} (ht : t ∈ s.newlyLost old) : t ∉ s.secondTracks old := fun h =>
  List.disjoint_of_nodup_append
    (hs.second.tracks_perm.nodup_iff.mpr (hs.remaining_nodup hold)) h ht

/-- A rejected track was not confirmed in this frame. -/
theorem rejected_not_third {t : ℕ} (ht : t ∈ s.rejected old) : t ∉ s.thirdTracks old := fun h =>
  List.disjoint_of_nodup_append
    (hs.third.tracks_perm.nodup_iff.mpr (hold.tracked_nodup.filter _)) h ht

/-- A new track is none of the tracks that were live before the frame. -/
theorem started_not_live {t : ℕ} (ht : t ∈ s.started) : t ∉ old.live :=
  hs.candidate_not_live hold (List.mem_append_left _ (hs.started_subset ht))

/-! ### Reading the last heap -/

/-- After the second stage the tracks of the first association stay as they are until
tracks start. -/
theorem begun_eq_of_pool {t : ℕ} (ht : t ∈ s.pool old) : s.begun t = s.marked t := by
  have hunconfirmed : t ∉ s.unconfirmed old := fun h => hs.unconfirmed_not_pool hold h ht
  rw [hs.begun_others t fun h => hs.started_not_live hold h (hs.pool_subset hold ht),
    hs.dropped_others t fun h => hunconfirmed (hs.rejected_subset h),
    hs.confirmed_others t fun h => hunconfirmed (hs.third_subset h)]

/-- Expiry does not touch an unconfirmed track: it is not in the lost list. -/
theorem expired_eq_of_unconfirmed {t : ℕ} (ht : t ∈ s.unconfirmed old) :
    s.expired t = s.dropped t := by
  have htracked := s.unconfirmed_subset old ht
  rw [hs.expired_others t fun h => hold.disjoint htracked h,
    hs.begun_others t fun h => hs.started_not_live hold h (List.mem_append_left _ htracked)]

/-- After the first association its tracks stay as they are until tracks are given up. -/
theorem begun_eq_of_first {t : ℕ} (ht : t ∈ s.firstTracks old) : s.begun t = s.matched t := by
  have hremaining : t ∉ s.remaining old := fun h => hs.remaining_not_first hold h ht
  rw [hs.begun_eq_of_pool hold (hs.first_subset ht),
    hs.marked_others t fun h => hremaining (hs.newlyLost_subset h),
    hs.rematched_others t fun h => hremaining (hs.second_subset h)]

/-- A lost track that was matched does not expire. -/
theorem expired_eq_of_first {t : ℕ} (ht : t ∈ s.firstTracks old)
    (hframe : (s.matched t).frameId = old.frame + 1) (hbuffer : 0 ≤ old.maxTimeLost) :
    s.expired t = s.matched t := by
  have hbegun := hs.begun_eq_of_first hold ht
  by_cases hlost : t ∈ old.lost
  · rw [hs.expired t hlost, hbegun, hframe, if_neg (by omega)]
  · rw [hs.expired_others t hlost, hbegun]

/-- Expiry does not touch a track that the first stage left: only tracks lost before the frame and
still unmatched can expire. -/
theorem expired_eq_of_remaining {t : ℕ} (ht : t ∈ s.remaining old) : s.expired t = s.marked t := by
  have htracked := s.reported_subset old (hs.remaining_subset hold ht)
  rw [hs.expired_others t fun h => hold.disjoint htracked h,
    hs.begun_eq_of_pool hold (hs.remaining_subset_pool ht)]

omit hold in
/-- Giving up a track changes its state only. -/
theorem expired_cases (t : ℕ) :
    s.expired t = s.begun t ∨ s.expired t = { s.begun t with state := .removed } := by
  by_cases hlost : t ∈ old.lost
  · rw [hs.expired t hlost]
    split
    · exact Or.inr rfl
    · exact Or.inl rfl
  · exact Or.inl (hs.expired_others t hlost)

/-- A candidate is not changed by the associations. -/
theorem candidate_eq {d : ℕ} (hd : d ∈ s.candidates.1 ++ s.candidates.2) :
    s.marked d = s.predicted d ∧ s.matched d = s.predicted d := by
  have hpool : d ∉ s.pool old := fun h => hs.candidate_not_live hold hd (hs.pool_subset hold h)
  exact ⟨hs.marked_eq_of_not_pool hpool, hs.matched_others d fun h => hpool (hs.first_subset h)⟩

/-- A track that starts is its detection with an estimate. The stages before the start have left
the object alone, apart from its estimate. -/
theorem begun_of_started {t : ℕ} (ht : t ∈ s.started) : ∃ id mean covariance,
    s.begun t = { s.detected t with mean, covariance }.activate (old.frame + 1) id := by
  have hlive := hs.started_not_live hold ht
  have hhigh := List.mem_append_left s.candidates.2 (hs.started_subset ht)
  have hunconfirmed : t ∉ s.unconfirmed old := fun h =>
    hlive (List.mem_append_left _ (s.unconfirmed_subset old h))
  obtain ⟨id, hbegun⟩ := hs.begun t ht
  obtain ⟨mean, covariance, heq⟩ := hs.predicted t
  refine ⟨id, mean, covariance, ?_⟩
  rw [hbegun, hs.dropped_others t fun h => hunconfirmed (hs.rejected_subset h),
    hs.confirmed_others t fun h => hunconfirmed (hs.third_subset h),
    (hs.candidate_eq hold hhigh).1, heq]

omit hold in
/-- A track that took over a detection before tracks were given up still has it. Giving up lost
tracks writes to the state only. -/
theorem takes_of_refreshed {d t : ℕ}
    (h : STrack.Refreshed (old.frame + 1) (s.predicted d) (s.predicted t) (s.begun t)) :
    Takes (old.frame + 1) (s.detected d) (s.expired t) ∧ (s.expired t).isActivated = true := by
  obtain ⟨mean, covariance, heq⟩ := hs.predicted d
  rw [heq] at h
  rcases hs.expired_cases t with hexpired | hexpired
  · rw [hexpired]
    exact ⟨⟨h.frameId, h.score, h.observation, h.hasObservation, h.position⟩, h.isActivated⟩
  · rw [hexpired]
    exact ⟨⟨h.frameId, h.score, h.observation, h.hasObservation, h.position⟩, h.isActivated⟩

/-- Every track of the frame takes over its detection, and is reported unless it starts. With
a buffer it is tracked. -/
theorem takes {u : ℕ × ℕ} (hu : u ∈ s.uses old) :
    Takes (old.frame + 1) (s.detected u.2) (s.expired u.1) ∧
      (u.1 ∈ old.live → (s.expired u.1).isActivated = true) ∧
      (0 ≤ old.maxTimeLost → (s.expired u.1).state = .tracked) := by
  unfold uses at hu
  simp only [List.mem_append, List.mem_map] at hu
  rcases hu with ((⟨m, hm, rfl⟩ | ⟨m, hm, rfl⟩) | ⟨m, hm, rfl⟩) | ⟨t, ht, rfl⟩
  · have hfirst : (s.pool old).getD m.row 0 ∈ s.firstTracks old := List.mem_map_of_mem hm
    have hmatched := hs.matched m hm
    obtain ⟨htakes, hactivated⟩ := hs.takes_of_refreshed
      (by rw [hs.begun_eq_of_first hold hfirst]; exact hmatched)
    refine ⟨htakes, fun _ => hactivated, fun hbuffer => ?_⟩
    rw [hs.expired_eq_of_first hold hfirst hmatched.frameId hbuffer]
    exact hmatched.state
  · have hsecond : (s.remaining old).getD m.row 0 ∈ s.secondTracks old := List.mem_map_of_mem hm
    have hremaining := hs.second_subset hsecond
    have hmatched := hs.rematched m hm
    have hlow := List.mem_append_right s.candidates.1 (hs.second.detection_mem hm)
    rw [(hs.candidate_eq hold hlow).2, hs.matched_others _ (hs.remaining_not_first hold hremaining),
      ← hs.marked_others _ fun h => hs.newlyLost_not_second hold h hsecond,
      ← hs.begun_eq_of_pool hold (hs.remaining_subset_pool hremaining)] at hmatched
    obtain ⟨htakes, hactivated⟩ := hs.takes_of_refreshed hmatched
    refine ⟨htakes, fun _ => hactivated, fun _ => ?_⟩
    rw [hs.expired_eq_of_remaining hold hremaining,
      ← hs.begun_eq_of_pool hold (hs.remaining_subset_pool hremaining)]
    exact hmatched.state
  · have hthird : (s.unconfirmed old).getD m.row 0 ∈ s.thirdTracks old := List.mem_map_of_mem hm
    have hunconfirmed := hs.third_subset hthird
    have hlive := List.mem_append_left old.lost (s.unconfirmed_subset old hunconfirmed)
    have hmatched := hs.confirmed m hm
    have hhigh := List.mem_append_left s.candidates.2 (hs.first.detections_perm.subset
      (List.mem_append_right _ (hs.third.detection_mem hm)))
    rw [(hs.candidate_eq hold hhigh).1,
      hs.marked_eq_of_not_pool (hs.unconfirmed_not_pool hold hunconfirmed),
      ← hs.dropped_others _ fun h => hs.rejected_not_third hold h hthird,
      ← hs.begun_others _ fun h => hs.started_not_live hold h hlive] at hmatched
    obtain ⟨htakes, hactivated⟩ := hs.takes_of_refreshed hmatched
    refine ⟨htakes, fun _ => hactivated, fun _ => ?_⟩
    rw [hs.expired_eq_of_unconfirmed hold hunconfirmed,
      ← hs.begun_others _ fun h => hs.started_not_live hold h hlive]
    exact hmatched.state
  · have hlive := hs.started_not_live hold ht
    obtain ⟨id, mean, covariance, heq⟩ := hs.begun_of_started hold ht
    rw [hs.expired_others t fun h => hlive (List.mem_append_right _ h), heq]
    exact ⟨⟨rfl, rfl, rfl, rfl, rfl⟩, fun h => absurd h hlive, fun _ => rfl⟩

/-- A reported track that is not matched is lost in this frame. The stages between the prediction
and the mark have left it alone. -/
theorem expired_of_newlyLost {t : ℕ} (ht : t ∈ s.newlyLost old) :
    t ∈ old.tracked ∧ (s.expired t).state = .lost ∧ (s.expired t).isActivated = true ∧
      (s.expired t).frameId = (old.heap t).frameId ∧ (old.heap t).isActivated = true := by
  have hremaining := hs.newlyLost_subset ht
  have hreported := hs.remaining_subset hold hremaining
  have htracked := s.reported_subset old hreported
  obtain ⟨mean, covariance, heq⟩ := hs.predicted t
  rw [hs.expired_eq_of_remaining hold hremaining, hs.marked t ht,
    hs.rematched_others t (hs.newlyLost_not_second hold ht),
    hs.matched_others t (hs.remaining_not_first hold hremaining), heq]
  have hactivated := (List.mem_filter.mp hreported).2
  rw [hs.detected_eq hold (List.mem_append_left _ htracked)] at hactivated ⊢
  exact ⟨htracked, rfl, hactivated, rfl, hactivated⟩

/-- An unconfirmed track that is not matched is removed. -/
theorem expired_of_rejected {t : ℕ} (ht : t ∈ s.rejected old) :
    (s.expired t).state = .removed := by
  rw [hs.expired_eq_of_unconfirmed hold (hs.rejected_subset ht), hs.dropped t ht]

/-- A lost track that is not matched stays as it is, or expires. Nothing but the expiry looks at
such a track in this frame. -/
theorem expired_of_lost {t : ℕ} (ht : t ∈ old.lost) (hunmatched : t ∉ s.found old) :
    t ∈ s.newlyRemoved ∨ (s.expired t).state = .lost ∧ (s.expired t).isActivated = true ∧
      (s.expired t).frameId = (old.heap t).frameId ∧
      old.frame + 1 - (old.heap t).frameId ≤ old.maxTimeLost := by
  have hlive : t ∈ old.live := List.mem_append_right _ ht
  have hpool : t ∈ s.pool old := hs.pool_eq hold ▸ List.mem_append_right _ ht
  have hremaining : t ∉ s.remaining old := fun h =>
    hold.disjoint (s.reported_subset old (hs.remaining_subset hold h)) ht
  have hfirst : t ∉ s.firstTracks old := fun h => hunmatched
    (List.mem_append_left _ (List.mem_append_left _ (List.mem_append_left _ h)))
  obtain ⟨mean, covariance, heq⟩ := hs.predicted t
  have hbegun : s.begun t = { old.heap t with mean, covariance } := by
    rw [hs.begun_eq_of_pool hold hpool,
      hs.marked_others t fun h => hremaining (hs.newlyLost_subset h),
      hs.rematched_others t fun h => hremaining (hs.second_subset h),
      hs.matched_others t hfirst, heq, hs.detected_eq hold hlive]
  have hframe : (s.begun t).frameId = (old.heap t).frameId := by rw [hbegun]
  by_cases hexpired : old.maxTimeLost < old.frame + 1 - (s.begun t).frameId
  · exact Or.inl ((hs.mem_newlyRemoved t).mpr (Or.inr ⟨ht, hexpired⟩))
  · right
    rw [hs.expired t ht, if_neg hexpired, hbegun]
    rw [hframe] at hexpired
    exact ⟨hold.lost_state t ht, hold.lost_activated t ht, rfl, by omega⟩

/-- A tracked track is matched, lost or removed, or was given up before. The last case is the one
that the code filters out. -/
theorem tracked_cases {t : ℕ} (ht : t ∈ old.tracked) : t ∈ s.found old ∨ t ∈ s.newlyLost old ∨
    t ∈ s.rejected old ∨ (s.expired t).state ≠ .tracked := by
  by_cases hactivated : (s.detected t).isActivated = true
  · have hpool : t ∈ s.pool old :=
      hs.pool_eq hold ▸ List.mem_append_left _ (List.mem_filter.mpr ⟨ht, hactivated⟩)
    rcases List.mem_append.mp (hs.first.tracks_perm.mem_iff.mpr hpool) with hfirst | hrest
    · exact Or.inl (List.mem_append_left _ (List.mem_append_left _ (List.mem_append_left _ hfirst)))
    by_cases hstate : (s.matched t).state = .tracked
    · have hremaining : t ∈ s.remaining old := List.mem_filter.mpr ⟨hrest, decide_eq_true hstate⟩
      rcases List.mem_append.mp (hs.second.tracks_perm.mem_iff.mpr hremaining) with h | h
      · exact Or.inl (List.mem_append_left _ (List.mem_append_left _ (List.mem_append_right _ h)))
      · exact Or.inr (Or.inl h)
    · have hremaining : t ∉ s.remaining old := fun h =>
        hstate (of_decide_eq_true (List.mem_filter.mp h).2)
      right; right; right
      rwa [hs.expired_others t fun h => hold.disjoint ht h, hs.begun_eq_of_pool hold hpool,
        hs.marked_others t fun h => hremaining (hs.newlyLost_subset h),
        hs.rematched_others t fun h => hremaining (hs.second_subset h)]
  · have hunconfirmed : t ∈ s.unconfirmed old :=
      List.mem_filter.mpr ⟨ht, by rw [Bool.not_eq_true'] ; exact Bool.eq_false_iff.mpr hactivated⟩
    rcases List.mem_append.mp (hs.third.tracks_perm.mem_iff.mpr hunconfirmed) with h | h
    · exact Or.inl (List.mem_append_left _ (List.mem_append_right _ h))
    · exact Or.inr (Or.inr (Or.inl h))

/-- A track that is lost in this frame was not matched. -/
theorem newlyLost_not_found {t : ℕ} (ht : t ∈ s.newlyLost old) : t ∉ s.found old := by
  have hremaining := hs.newlyLost_subset ht
  have hpool := hs.remaining_subset_pool hremaining
  unfold found
  simp only [List.mem_append, not_or]
  exact ⟨⟨⟨hs.remaining_not_first hold hremaining, hs.newlyLost_not_second hold ht⟩,
    fun h => hs.unconfirmed_not_pool hold (hs.third_subset h) hpool⟩,
    fun h => hs.started_not_live hold h (hs.pool_subset hold hpool)⟩

/-- A track of the frame is a live one or starts in it. -/
theorem found_cases {t : ℕ} (ht : t ∈ s.found old) : t ∈ old.live ∨ t ∈ s.started := by
  unfold found at ht
  simp only [List.mem_append] at ht
  rcases ht with ((h | h) | h) | h
  · exact Or.inl (hs.pool_subset hold (hs.first_subset h))
  · exact Or.inl (hs.pool_subset hold (hs.remaining_subset_pool (hs.second_subset h)))
  · exact Or.inl (List.mem_append_left _ (s.unconfirmed_subset old (hs.third_subset h)))
  · exact Or.inr h

/-- Two tracks of the frame with detections at one position are the same track. Each detection is
taken over by one track at most, and its position names it. -/
theorem position_inj {t u : ℕ} (ht : t ∈ s.found old) (hu : u ∈ s.found old)
    (hposition : (s.expired t).position = (s.expired u).position) : t = u := by
  rw [← uses_fst] at ht hu
  obtain ⟨x, hx, rfl⟩ := List.mem_map.mp ht
  obtain ⟨y, hy, rfl⟩ := List.mem_map.mp hu
  obtain ⟨hnodup, hsub⟩ := hs.uses_snd_nodup
  rw [(hs.takes hold hx).1.position, (hs.takes hold hy).1.position] at hposition
  have hdet := List.inj_on_of_nodup_map hs.detected.positions
    (hsub (List.mem_map_of_mem hx)) (hsub (List.mem_map_of_mem hy)) hposition
  rw [List.inj_on_of_nodup_map hnodup hx hy hdet]

/-- A live track keeps its identifier. Identifiers are only written when a track is started. -/
theorem expired_trackId {t : ℕ} (ht : t ∈ old.live) :
    (s.expired t).trackId = (old.heap t).trackId := by
  have hstarted : t ∉ s.started := fun h => hs.started_not_live hold h ht
  have hexpired : (s.expired t).trackId = (s.begun t).trackId := by
    by_cases hlost : t ∈ old.lost
    · rw [hs.expired t hlost]
      split <;> rfl
    · rw [hs.expired_others t hlost]
  have hdropped : (s.dropped t).trackId = (s.confirmed t).trackId := by
    by_cases h : t ∈ s.rejected old
    · rw [hs.dropped t h]
    · rw [hs.dropped_others t h]
  have hconfirmed : (s.confirmed t).trackId = (s.marked t).trackId := by
    by_cases h : t ∈ s.thirdTracks old
    · obtain ⟨m, hm, rfl⟩ := List.mem_map.mp h
      exact (hs.confirmed m hm).trackId
    · rw [hs.confirmed_others t h]
  have hmarked : (s.marked t).trackId = (s.rematched t).trackId := by
    by_cases h : t ∈ s.newlyLost old
    · rw [hs.marked t h]
    · rw [hs.marked_others t h]
  have hrematched : (s.rematched t).trackId = (s.matched t).trackId := by
    by_cases h : t ∈ s.secondTracks old
    · obtain ⟨m, hm, rfl⟩ := List.mem_map.mp h
      exact (hs.rematched m hm).trackId
    · rw [hs.rematched_others t h]
  have hmatched : (s.matched t).trackId = (s.predicted t).trackId := by
    by_cases h : t ∈ s.firstTracks old
    · obtain ⟨m, hm, rfl⟩ := List.mem_map.mp h
      exact (hs.matched m hm).trackId
    · rw [hs.matched_others t h]
  obtain ⟨mean, covariance, heq⟩ := hs.predicted t
  calc (s.expired t).trackId = (s.dropped t).trackId := by rw [hexpired, hs.begun_others t hstarted]
    _ = (s.rematched t).trackId := by rw [hdropped, hconfirmed, hmarked]
    _ = (s.detected t).trackId := by rw [hrematched, hmatched, heq]
    _ = (old.heap t).trackId := by rw [hs.detected_eq hold ht]

/-- A track that starts gets a new identifier. -/
theorem started_trackId {t : ℕ} (ht : t ∈ s.started) :
    old.nextId ≤ (s.expired t).trackId ∧ (s.expired t).trackId < s.nextId := by
  have hid : (s.begun t).trackId ∈ idsOf s.begun s.started := mem_idsOf ht
  rw [hs.started_ids, List.mem_range'_1, ← hs.nextId_eq] at hid
  rwa [hs.expired_others t fun h => hs.started_not_live hold ht (List.mem_append_right _ h)]

/-! ### The merged lists -/

/-- The tracked tracks before duplicates are removed. Each of the three merged lists holds tracks
that were matched or started in this frame. -/
theorem mem_found_of_merged {t : ℕ} (ht : t ∈ jointTracks s.expired (jointTracks s.expired
    (old.tracked.filter fun t => decide ((s.expired t).state = .tracked)) s.activated) s.refind) :
    t ∈ s.found old := by
  rcases mem_of_mem_jointTracks ht with ht | ht
  · rcases mem_of_mem_jointTracks ht with ht | ht
    · have hstate := of_decide_eq_true (List.mem_filter.mp ht).2
      rcases hs.tracked_cases hold (List.mem_of_mem_filter ht) with h | h | h | h
      · exact h
      · rw [(hs.expired_of_newlyLost hold h).2.1] at hstate
        cases hstate
      · rw [hs.expired_of_rejected hold h] at hstate
        cases hstate
      · exact absurd hstate h
    · exact (hs.mem_activated t).mp (List.mem_append_left _ ht)
  · exact (hs.mem_activated t).mp (List.mem_append_right _ ht)

end References

end Of

end Pass

/-- What an update does: the state and the report after it. The results on whole runs use nothing
else of an update. -/
structure Outcome (old : Impl F D) (input : List (FaceDetection F)) (q : Impl F D)
    (results : List (TrackResult F)) : Prop where
  /-- A frame is counted. -/
  frame_eq : q.frame = old.frame + 1
  /-- The buffer is fixed. -/
  maxTimeLost_eq : q.maxTimeLost = old.maxTimeLost
  /-- Identifiers are not given out again. -/
  nextId_le : old.nextId ≤ q.nextId
  /-- The invariant holds. -/
  invariant : q.Invariant
  /-- Tracked and lost tracks overlap weakly. -/
  separated : ∀ t ∈ q.tracked, ∀ u ∈ q.lost,
    lit 0.15 ≤ pairCost false (q.heap t).associationItem (q.heap u).associationItem
  /-- Tracked tracks carry detections of the frame. -/
  carries : ∀ t ∈ q.tracked, ∃ det : FaceDetection F, input[(q.heap t).position]? = some det ∧
    Carries q.frame (.ofDetection (q.heap t).position det : STrack F D) (q.heap t)
  /-- Each carries its own one. -/
  positions : ∀ t ∈ q.tracked, ∀ u ∈ q.tracked, (q.heap t).position = (q.heap u).position → t = u
  /-- Tracks keep their identifiers. -/
  kept : ∀ t ∈ q.live, t ∈ old.live → (q.heap t).trackId = (old.heap t).trackId
  /-- Tracks that start get new identifiers. -/
  fresh : ∀ t ∈ q.live, t ∉ old.live → old.nextId ≤ (q.heap t).trackId
  /-- A track that was there before is reported when it is matched. -/
  confirmed : ∀ t ∈ q.tracked, t ∈ old.live → (q.heap t).isActivated = true
  /-- Lost tracks were reported at their last match. -/
  lost_kept : ∀ t ∈ q.lost, t ∈ old.live ∧ (q.heap t).frameId = (old.heap t).frameId ∧
    (old.heap t).isActivated = true
  /-- The report lists the confirmed tracks. -/
  results_eq : results =
    (q.tracked.filter fun t => (q.heap t).isActivated).map fun t => (q.heap t).result

namespace Pass.Of

variable {s : Pass F D} {old : Impl F D} {input : List (FaceDetection F)}

/-- Identifiers are only ever handed out: the counter never goes back. -/
theorem nextId_le (hs : s.Of old input) : old.nextId ≤ s.nextId := by
  rw [hs.nextId_eq]
  omega

section After

variable (hs : s.Of old input) (hold : old.Linked)
include hs hold

/-- A track that is tracked after the frame was matched in it or started in it. -/
theorem found_of_tracked {t : ℕ} (ht : t ∈ (s.after old).tracked) : t ∈ s.found old :=
  hs.mem_found_of_merged hold ((removeDuplicates_sublist _ _ _).1.subset ht)

/-- A lost track lost sight in this frame, or is kept. Nothing else enters the list of lost
tracks. -/
theorem cases_of_lost {t : ℕ} (ht : t ∈ (s.after old).lost) : t ∈ s.newlyLost old ∨
    t ∈ old.lost ∧ t ∉ s.found old ∧ (s.expired t).state = .lost ∧
      (s.expired t).isActivated = true ∧
      (s.expired t).frameId = (old.heap t).frameId ∧
      old.frame + 1 - (old.heap t).frameId ≤ old.maxTimeLost := by
  have hmerged := (removeDuplicates_sublist _ _ _).2.subset ht
  obtain ⟨hmem, hkept⟩ := mem_subtractTracks.mp hmerged
  rcases List.mem_append.mp hmem with hmem | hmem
  · obtain ⟨hlost, huntracked⟩ := mem_subtractTracks.mp hmem
    have hunmatched : t ∉ s.found old := by
      intro hfound
      rcases List.mem_append.mp ((hs.mem_activated t).mpr hfound) with h | h
      · have hmem : (s.expired t).trackId ∈ idsOf s.expired (jointTracks s.expired
            (old.tracked.filter fun t => decide ((s.expired t).state = .tracked)) s.activated) :=
          id_mem_jointTracks (Or.inr h)
        obtain ⟨u, hu, hid⟩ := List.mem_map.mp hmem
        exact huntracked (hid ▸ id_mem_jointTracks (Or.inl hu))
      · exact huntracked (id_mem_jointTracks (Or.inr h))
    refine Or.inr ⟨hlost, hunmatched, (hs.expired_of_lost hold hlost hunmatched).resolve_left ?_⟩
    exact fun hremoved => hkept (mem_idsOf hremoved)
  · exact Or.inl hmem

/-- The last heap says which list a lost track is in. It was lost in this frame, or it was lost
before and has not been found. -/
theorem state_of_lost {t : ℕ} (ht : t ∈ (s.after old).lost) :
    t ∈ old.live ∧ t ∉ s.found old ∧ (s.expired t).state = .lost ∧
      (s.expired t).isActivated = true ∧ (s.expired t).frameId = (old.heap t).frameId ∧
      (old.heap t).isActivated = true := by
  rcases hs.cases_of_lost hold ht with h | ⟨hlost, hunmatched, hstate, hactivated, hframe, -⟩
  · obtain ⟨htracked, hstate, hactivated, hframe, hbefore⟩ := hs.expired_of_newlyLost hold h
    exact ⟨List.mem_append_left _ htracked, hs.newlyLost_not_found hold h, hstate, hactivated,
      hframe, hbefore⟩
  · exact ⟨List.mem_append_right _ hlost, hunmatched, hstate, hactivated, hframe,
      hold.lost_activated t hlost⟩

/-- Live and started tracks have distinct identifiers. A track that starts gets an identifier that
no other track has had. -/
theorem eq_of_expired_id {t u : ℕ} (ht : t ∈ s.found old) (hu : u ∈ old.live)
    (hid : (s.expired t).trackId = (s.expired u).trackId) : t = u := by
  rw [hs.expired_trackId hold hu] at hid
  rcases hs.found_cases hold ht with hlive | hstarted
  · rw [hs.expired_trackId hold hlive] at hid
    exact eq_of_id_eq hold.ids_nodup hlive hu hid
  · have hnew := (hs.started_trackId hold hstarted).1
    have hused := hold.id_lt u hu
    omega

/-- Live tracks have different identifiers after the frame. Tracks that stay keep theirs, and the
new ones take identifiers from the counter. -/
theorem after_ids_nodup : (idsOf (s.after old).heap (s.after old).live).Nodup := by
  have hids : ∀ l : List ℕ, l.Nodup → l ⊆ old.live → (idsOf s.expired l).Nodup := by
    intro l hl hsub
    refine List.Nodup.map_on (fun t ht u hu hid => ?_) hl
    rw [hs.expired_trackId hold (hsub ht), hs.expired_trackId hold (hsub hu)] at hid
    exact eq_of_id_eq hold.ids_nodup (hsub ht) (hsub hu) hid
  have htracked : (idsOf s.expired (s.after old).tracked).Nodup := by
    refine List.Nodup.sublist ((removeDuplicates_sublist _ _ _).1.map _) ?_
    refine jointTracks_nodup (jointTracks_nodup (hids _ (hold.tracked_nodup.filter _) ?_) _) _
    exact fun t ht => List.mem_append_left _ (List.mem_of_mem_filter ht)
  have hlost : (idsOf s.expired (s.after old).lost).Nodup := by
    refine hids _ ?_ fun t ht => (hs.state_of_lost hold ht).1
    refine List.Nodup.sublist ((removeDuplicates_sublist _ _ _).2.trans
      (subtractTracks_sublist _ _ _)) ?_
    refine List.Nodup.append (hold.lost_nodup.sublist (subtractTracks_sublist _ _ _))
      (hs.newlyLost_nodup hold) ?_
    intro t ht hnew
    exact hold.disjoint (hs.expired_of_newlyLost hold hnew).1 (mem_subtractTracks.mp ht).1
  rw [idsOf, Impl.live, List.map_append]
  refine List.Nodup.append htracked hlost ?_
  intro id hid hid'
  obtain ⟨t, ht, rfl⟩ := List.mem_map.mp hid
  obtain ⟨u, hu, hsame⟩ := List.mem_map.mp hid'
  obtain ⟨hlive, hunmatched, -⟩ := hs.state_of_lost hold hu
  have hfound := hs.found_of_tracked hold ht
  obtain rfl := hs.eq_of_expired_id hold hfound hlive hsame.symm
  exact hunmatched hfound

/-- A live track after the update was live before it, or starts. -/
theorem after_cases {t : ℕ} (ht : t ∈ (s.after old).live) : t ∈ old.live ∨ t ∈ s.started := by
  rcases List.mem_append.mp ht with ht | ht
  · exact hs.found_cases hold (hs.found_of_tracked hold ht)
  · exact Or.inl (hs.state_of_lost hold ht).1

/-- The lists point to allocated places after the frame, as they did before it. Tracks that end
are no longer listed, and those that begin have identifiers of their own. -/
theorem after_linked : (s.after old).Linked where
  ids_nodup := hs.after_ids_nodup hold
  id_pos t ht := by
    change 1 ≤ (s.expired t).trackId
    rcases hs.after_cases hold ht with h | h
    · rw [hs.expired_trackId hold h]
      exact hold.id_pos t h
    · exact hold.nextId_pos.trans (hs.started_trackId hold h).1
  id_lt t ht := by
    change (s.expired t).trackId < s.nextId
    rcases hs.after_cases hold ht with h | h
    · rw [hs.expired_trackId hold h]
      exact (hold.id_lt t h).trans_le (hs.nextId_le)
    · exact (hs.started_trackId hold h).2
  allocated t ht := by
    change t < s.allocated
    rcases hs.after_cases hold ht with h | h
    · exact (hold.allocated t h).trans_le hs.detected.allocated_le
    · exact (hs.detected.fresh t (List.mem_append_left _ (hs.started_subset h))).2
  lost_state t ht := (hs.state_of_lost hold ht).2.2.1
  lost_activated t ht := (hs.state_of_lost hold ht).2.2.2.1
  nextId_pos := hold.nextId_pos.trans (hs.nextId_le)

end After

/-! ### With a buffer -/

section Buffered

variable (hs : s.Of old input) (hold : old.Invariant)
include hs hold

/-- Every tracked track carries a detection. A tracked track was found in this frame, so it has
taken over a detection. -/
theorem carries_of_tracked {t : ℕ} (ht : t ∈ (s.after old).tracked) :
    (∃ d ∈ s.candidates.1 ++ s.candidates.2,
      Carries (old.frame + 1) (s.detected d) (s.expired t)) ∧
      (t ∈ old.live → (s.expired t).isActivated = true) := by
  have hfound := hs.found_of_tracked hold.linked ht
  rw [← uses_fst] at hfound
  obtain ⟨u, hu, rfl⟩ := List.mem_map.mp hfound
  obtain ⟨htakes, hactivated, hstate⟩ := hs.takes hold.linked hu
  exact ⟨⟨u.2, hs.uses_snd_nodup.2 (List.mem_map_of_mem hu), hstate hold.maxTimeLost_nonneg,
    htakes.frameId, htakes.score, htakes.observation, htakes.hasObservation, htakes.position⟩,
    hactivated⟩

/-- A track that is still lost after the frame was seen at most `maxTimeLost` frames ago, or has
just become lost. -/
theorem frame_of_lost {t : ℕ} (ht : t ∈ (s.after old).lost) :
    old.frame + 1 - (s.expired t).frameId ≤ max old.maxTimeLost 1 := by
  rcases hs.cases_of_lost hold.linked ht with h | ⟨-, -, -, -, hframe, hbound⟩
  · obtain ⟨htracked, -, -, hframe, -⟩ := hs.expired_of_newlyLost hold.linked h
    rw [hframe, hold.tracked_frame t htracked]
    have := le_max_right old.maxTimeLost 1
    omega
  · rw [hframe]
    exact hbound.trans (le_max_left _ _)

/-- The invariant of the lists holds after the frame. Each of its parts has its own lemma above.
The buffer bounds how long a lost track is kept. -/
theorem after_invariant : (s.after old).Invariant where
  ids_nodup := (hs.after_linked hold.linked).ids_nodup
  id_pos := (hs.after_linked hold.linked).id_pos
  id_lt := (hs.after_linked hold.linked).id_lt
  allocated := (hs.after_linked hold.linked).allocated
  tracked_state t ht := by
    obtain ⟨⟨d, -, hcarries⟩, -⟩ := hs.carries_of_tracked hold ht
    exact hcarries.state
  tracked_frame t ht := by
    obtain ⟨⟨d, -, hcarries⟩, -⟩ := hs.carries_of_tracked hold ht
    exact hcarries.frameId
  lost_state := (hs.after_linked hold.linked).lost_state
  lost_activated := (hs.after_linked hold.linked).lost_activated
  lost_frame _ ht := hs.frame_of_lost hold ht
  nextId_pos := (hs.after_linked hold.linked).nextId_pos
  maxTimeLost_nonneg := hold.maxTimeLost_nonneg

/-- What a frame does: the invariant holds after it, and its reported rows are the confirmed
tracks that are tracked now. -/
theorem outcome : Outcome old input (s.after old) (((s.after old).tracked.filter fun t =>
    ((s.after old).heap t).isActivated).map fun t => ((s.after old).heap t).result) where
  frame_eq := rfl
  maxTimeLost_eq := rfl
  nextId_le := hs.nextId_le
  invariant := hs.after_invariant hold
  separated _ ht _ hu := removeDuplicates_cost ht hu
  carries t ht := by
    obtain ⟨⟨d, hd, hcarries⟩, -⟩ := hs.carries_of_tracked hold ht
    obtain ⟨det, hinput, hdetection⟩ := hs.detected.holds d hd
    rw [← hcarries.position] at hinput hdetection
    rw [hdetection] at hcarries
    exact ⟨det, hinput, hcarries⟩
  positions t ht u hu := hs.position_inj hold.linked (hs.found_of_tracked hold.linked ht)
    (hs.found_of_tracked hold.linked hu)
  kept _ _ hlive := hs.expired_trackId hold.linked hlive
  fresh _ ht hlive :=
    (hs.started_trackId hold.linked ((hs.after_cases hold.linked ht).resolve_left hlive)).1
  confirmed _ ht hlive := (hs.carries_of_tracked hold ht).2 hlive
  lost_kept t ht := by
    obtain ⟨hlive, -, -, -, hframe, hactivated⟩ := hs.state_of_lost hold.linked ht
    exact ⟨hlive, hframe, hactivated⟩
  results_eq := rfl

end Buffered

end Pass.Of

/-- Every update that returns keeps the invariant and has the outcome. -/
theorem wp_update_outcome (fuel : ℕ) (input : List (FaceDetection F)) {old : Impl F D}
    (hold : old.Invariant) :
    wp (update fuel input) (fun results q => Outcome old input q results) (fun _ => True) old := by
  refine wp_mono (Pass.wp_update fuel input hold.linked) ?_ fun _ => id
  rintro results q ⟨s, hs, rfl, rfl⟩
  exact hs.outcome hold

end EdgeClient.Tracking.ByteTracker
