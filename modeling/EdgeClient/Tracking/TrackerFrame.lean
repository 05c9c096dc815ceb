import EdgeClient.Tracking.TrackLists

/-!
# One frame of the tracker

The invariant of the tracker says that the tracks of its two lists have distinct
identifiers below the counter, that tracked ones were matched in the last frame and
lost ones not for longer than the buffer. An update is laid out as the sequence of
heaps between its stages. Each object is rewritten by at most one stage, so the last
heap can be read off object by object.
-/

namespace EdgeClient.Tracking.ByteTracker

open Basis Vision

variable {F D : Type} [FloatOps F]

/-- The tracks of both lists. -/
def Impl.live (p : Impl F D) : List ℕ := p.tracked ++ p.lost

/-- What holds between two frames. It includes the states of the tracks in each of the two lists,
and the ages of the lost ones. -/
structure Impl.Invariant (p : Impl F D) : Prop where
  /-- Identifiers are distinct. -/
  ids_nodup : (idsOf p.heap p.live).Nodup
  /-- Identifiers are positive. -/
  id_pos : ∀ t ∈ p.live, 1 ≤ (p.heap t).trackId
  /-- Identifiers were given out by the counter. -/
  id_lt : ∀ t ∈ p.live, (p.heap t).trackId < p.nextId
  /-- References are in use. -/
  allocated : ∀ t ∈ p.live, t < p.allocated
  /-- Tracked tracks are so by their state. -/
  tracked_state : ∀ t ∈ p.tracked, (p.heap t).state = .tracked
  /-- Tracked tracks were matched in the last frame. -/
  tracked_frame : ∀ t ∈ p.tracked, (p.heap t).frameId = p.frame
  /-- Lost tracks are so by their state. -/
  lost_state : ∀ t ∈ p.lost, (p.heap t).state = .lost
  /-- Lost tracks have been reported. -/
  lost_activated : ∀ t ∈ p.lost, (p.heap t).isActivated = true
  /-- Lost tracks are not kept for long. -/
  lost_frame : ∀ t ∈ p.lost, p.frame - (p.heap t).frameId ≤ max p.maxTimeLost 1
  /-- The counter starts at one. -/
  nextId_pos : 1 ≤ p.nextId
  /-- The buffer is not negative. -/
  maxTimeLost_nonneg : 0 ≤ p.maxTimeLost

/-- The part of the invariant that does not depend on the buffer. It is enough to follow the
places through the stages of an update. -/
structure Impl.Linked (p : Impl F D) : Prop where
  /-- Identifiers are distinct. -/
  ids_nodup : (idsOf p.heap p.live).Nodup
  /-- Identifiers are positive. -/
  id_pos : ∀ t ∈ p.live, 1 ≤ (p.heap t).trackId
  /-- Identifiers were given out by the counter. -/
  id_lt : ∀ t ∈ p.live, (p.heap t).trackId < p.nextId
  /-- References are in use. -/
  allocated : ∀ t ∈ p.live, t < p.allocated
  /-- Lost tracks are so by their state. -/
  lost_state : ∀ t ∈ p.lost, (p.heap t).state = .lost
  /-- Lost tracks have been reported. -/
  lost_activated : ∀ t ∈ p.lost, (p.heap t).isActivated = true
  /-- The counter starts at one. -/
  nextId_pos : 1 ≤ p.nextId

/-- The invariant includes that the lists are linked properly. -/
theorem Impl.Invariant.linked {p : Impl F D} (hp : p.Invariant) : p.Linked :=
  ⟨hp.ids_nodup, hp.id_pos, hp.id_lt, hp.allocated, hp.lost_state, hp.lost_activated, hp.nextId_pos⟩

namespace Impl.Linked

variable {p : Impl F D}

/-- No place is live twice, since its identifier is not. -/
theorem live_nodup (hp : p.Linked) : p.live.Nodup := List.Nodup.of_map _ hp.ids_nodup

/-- No place is tracked twice. -/
theorem tracked_nodup (hp : p.Linked) : p.tracked.Nodup :=
  hp.live_nodup.sublist (List.sublist_append_left _ _)

/-- No place is lost twice. -/
theorem lost_nodup (hp : p.Linked) : p.lost.Nodup :=
  hp.live_nodup.sublist (List.sublist_append_right _ _)

/-- No place is tracked and lost. -/
theorem disjoint (hp : p.Linked) : p.tracked.Disjoint p.lost :=
  List.disjoint_of_nodup_append hp.live_nodup

end Impl.Linked

/-- The heaps, lists and assignments between the stages of an update. They are named here once, so
that each stage can be described by itself. -/
structure Pass (F D : Type) where
  /-- References of the high and the low candidates. -/
  candidates : List ℕ × List ℕ
  /-- Number of objects after the detections were added. -/
  allocated : ℕ
  /-- Objects after the detections were added. -/
  detected : ℕ → STrack F D
  /-- Objects after the filters were advanced. -/
  predicted : ℕ → STrack F D
  /-- Tracks and lost tracks against high candidates. -/
  first : AssignmentResult
  /-- Objects after the first association. -/
  matched : ℕ → STrack F D
  /-- The tracks that are left over against low candidates. -/
  second : AssignmentResult
  /-- Objects after the second association. -/
  rematched : ℕ → STrack F D
  /-- Objects after tracks were marked lost. -/
  marked : ℕ → STrack F D
  /-- Unconfirmed tracks against the high candidates that are left over. -/
  third : AssignmentResult
  /-- Objects after the third association. -/
  confirmed : ℕ → STrack F D
  /-- Objects after unconfirmed tracks were removed. -/
  dropped : ℕ → STrack F D
  /-- Tracks that start in this frame. -/
  started : List ℕ
  /-- Objects after tracks were started. -/
  begun : ℕ → STrack F D
  /-- The counter of identifiers after tracks were started. -/
  nextId : ℕ
  /-- Objects after lost tracks were removed. -/
  expired : ℕ → STrack F D
  /-- Tracks that stay or become tracked. -/
  activated : List ℕ
  /-- Tracks that were lost and are found again. -/
  refind : List ℕ
  /-- Tracks that are given up. -/
  newlyRemoved : List ℕ

namespace Pass

section Lists

variable (s : Pass F D) (old : Impl F D)

/-- Tracks that have not been reported yet. -/
def unconfirmed : List ℕ := old.tracked.filter fun t => !(s.detected t).isActivated

/-- Tracks that have been reported. -/
def reported : List ℕ := old.tracked.filter fun t => (s.detected t).isActivated

/-- The unconfirmed tracks are tracked. -/
theorem unconfirmed_subset : s.unconfirmed old ⊆ old.tracked := fun _ ht =>
  List.mem_of_mem_filter ht

/-- The confirmed tracks are tracked. -/
theorem reported_subset : s.reported old ⊆ old.tracked := fun _ ht => List.mem_of_mem_filter ht

/-- The tracks of the first association. -/
def pool : List ℕ := jointTracks s.detected (s.reported old) old.lost

/-- The tracks of the second association. -/
def remaining : List ℕ := (s.first.unmatchedRows.map fun i => (s.pool old).getD i 0).filter fun t =>
  decide ((s.matched t).state = .tracked)

/-- The high candidates of the third association. -/
def remainingHigh : List ℕ := s.first.unmatchedCols.map fun j => s.candidates.1.getD j 0

/-- Tracks matched by the first association. -/
def firstTracks : List ℕ := s.first.pairs.map fun m => (s.pool old).getD m.row 0

/-- Tracks matched by the second association. -/
def secondTracks : List ℕ := s.second.pairs.map fun m => (s.remaining old).getD m.row 0

/-- Tracks matched by the third association. -/
def thirdTracks : List ℕ := s.third.pairs.map fun m => (s.unconfirmed old).getD m.row 0

/-- Tracks that lose sight in this frame. -/
def newlyLost : List ℕ := s.second.unmatchedRows.map fun i => (s.remaining old).getD i 0

/-- Unconfirmed tracks without a match. -/
def rejected : List ℕ := s.third.unmatchedRows.map fun i => (s.unconfirmed old).getD i 0

/-- Tracks with a detection in this frame. -/
def found : List ℕ := s.firstTracks old ++ s.secondTracks old ++ s.thirdTracks old ++ s.started

/-- The state before the lists are merged. -/
def before : Impl F D :=
  { old with
    frame := old.frame + 1, heap := s.expired, allocated := s.allocated, nextId := s.nextId }

variable [FloatOps D] [FloatPair F D]

/-- The state after the update. -/
def after : Impl F D :=
  (s.before old).finish s.activated s.refind (s.newlyLost old) s.newlyRemoved

end Lists

section Stages

variable {old : Impl F D} {heap : ℕ → STrack F D}

/-- The tracks of the first association are the reported and the lost ones. -/
theorem pool_eq_append (hold : old.Linked) (hsame : ∀ t ∈ old.live, heap t = old.heap t) :
    jointTracks heap (old.tracked.filter fun t => (heap t).isActivated) old.lost =
      (old.tracked.filter fun t => (heap t).isActivated) ++ old.lost := by
  apply jointTracks_eq_append
  have hsub : ((old.tracked.filter fun t => (heap t).isActivated) ++ old.lost).Sublist old.live :=
    List.filter_sublist.append (List.Sublist.refl _)
  rw [idsOf, List.map_congr_left fun t ht => by rw [hsame t (hsub.subset ht)]]
  exact hold.ids_nodup.sublist (hsub.map _)

/-- The pool is made of live tracks, in their order. -/
theorem pool_sublist (hold : old.Linked) (hsame : ∀ t ∈ old.live, heap t = old.heap t) :
    (jointTracks heap (old.tracked.filter fun t => (heap t).isActivated) old.lost).Sublist
      old.live := by
  rw [pool_eq_append hold hsame]
  exact List.filter_sublist.append (List.Sublist.refl _)

end Stages

variable [FloatOps D] [FloatPair F D]

/-- The stages are those of an update. Each field is what the loop of one stage does, in the order
of the stages. -/
structure Of (s : Pass F D) (old : Impl F D) (input : List (FaceDetection F)) : Prop where
  detects : input.zipIdx.foldlM detect ([], []) { old with frame := old.frame + 1 } =
    .ok s.candidates { old with
      frame := old.frame + 1, heap := s.detected, allocated := s.allocated }
  detected : Detected old input s.candidates s.detected s.allocated
  predicted : ∀ k, (s.detected k).Predicted (s.predicted k)
  first : s.first.WellFormed (s.pool old).length s.candidates.1.length
  matched : ∀ m ∈ s.first.pairs, STrack.Refreshed (old.frame + 1)
    (s.predicted (s.candidates.1.getD m.col 0)) (s.predicted ((s.pool old).getD m.row 0))
    (s.matched ((s.pool old).getD m.row 0))
  matched_others : ∀ k, k ∉ s.firstTracks old → s.matched k = s.predicted k
  second : s.second.WellFormed (s.remaining old).length s.candidates.2.length
  rematched : ∀ m ∈ s.second.pairs, STrack.Refreshed (old.frame + 1)
    (s.matched (s.candidates.2.getD m.col 0)) (s.matched ((s.remaining old).getD m.row 0))
    (s.rematched ((s.remaining old).getD m.row 0))
  rematched_others : ∀ k, k ∉ s.secondTracks old → s.rematched k = s.matched k
  marked : ∀ t ∈ s.newlyLost old, s.marked t = { s.rematched t with state := .lost }
  marked_others : ∀ k, k ∉ s.newlyLost old → s.marked k = s.rematched k
  third : s.third.WellFormed (s.unconfirmed old).length s.remainingHigh.length
  confirmed : ∀ m ∈ s.third.pairs, STrack.Refreshed (old.frame + 1)
    (s.marked (s.remainingHigh.getD m.col 0)) (s.marked ((s.unconfirmed old).getD m.row 0))
    (s.confirmed ((s.unconfirmed old).getD m.row 0))
  confirmed_others : ∀ k, k ∉ s.thirdTracks old → s.confirmed k = s.marked k
  dropped : ∀ t ∈ s.rejected old, s.dropped t = { s.confirmed t with state := .removed }
  dropped_others : ∀ k, k ∉ s.rejected old → s.dropped k = s.confirmed k
  started_sublist : s.started.Sublist
    (s.third.unmatchedCols.map fun j => s.remainingHigh.getD j 0)
  started_ids : idsOf s.begun s.started = List.range' old.nextId s.started.length
  nextId_eq : s.nextId = old.nextId + s.started.length
  begun : ∀ t ∈ s.started, ∃ id, s.begun t = (s.dropped t).activate (old.frame + 1) id
  begun_others : ∀ k, k ∉ s.started → s.begun k = s.dropped k
  started_iff : ∀ t ∈ s.third.unmatchedCols.map fun j => s.remainingHigh.getD j 0,
    t ∈ s.started ↔ ¬ (s.dropped t).score < old.cfg.newTrackThreshold
  expired : ∀ t ∈ old.lost, s.expired t =
    if old.maxTimeLost < old.frame + 1 - (s.begun t).frameId
    then { s.begun t with state := .removed } else s.begun t
  expired_others : ∀ k, k ∉ old.lost → s.expired k = s.begun k
  mem_activated : ∀ t, t ∈ s.activated ++ s.refind ↔ t ∈ s.found old
  mem_newlyRemoved : ∀ t, t ∈ s.newlyRemoved ↔ t ∈ s.rejected old ∨
    t ∈ old.lost ∧ old.maxTimeLost < old.frame + 1 - (s.begun t).frameId

/-- An update that returns goes through the stages. The loops are replaced by their
specifications, one after the other. -/
theorem wp_update (fuel : ℕ) (input : List (FaceDetection F)) {old : Impl F D}
    (hold : old.Linked) :
    wp (update fuel input) (fun results q => ∃ s : Pass F D, s.Of old input ∧ q = s.after old ∧
      results = (q.tracked.filter fun t => (q.heap t).isActivated).map fun t => (q.heap t).result)
      (fun _ => True) old := by
  unfold update
  rw [wp_bind, wp_modify, wp_bind]
  refine wp_mono (wp_and (wp_detect _ input) (wp_run _)) ?_ fun _ => And.left
  rintro ⟨high, low⟩ p ⟨⟨detected, allocated, rfl, hdetected⟩, hdetects⟩
  have hsame : ∀ t ∈ old.live, detected t = old.heap t :=
    fun t ht => hdetected.others t (hold.allocated t ht)
  have hfresh : ∀ d ∈ high ++ low, d ∉ old.live := by
    intro d hd hlive
    have hnew := (hdetected.fresh d hd).1
    have hused := hold.allocated d hlive
    dsimp only at hnew
    omega
  dsimp only
  rw [wp_bind, wp_get]
  dsimp only
  rw [wp_bind]
  refine wp_mono (wp_predict _ _) ?_ fun _ => id
  rintro ⟨⟩ p ⟨predicted, rfl, hpredicted⟩
  rw [wp_bind]
  refine wp_mono (wp_associate fuel _ _ _ _ _) ?_ fun _ => id
  rintro first p ⟨rfl, hfirst⟩
  have hpool := pool_sublist hold hsame
  have hfirstPerm := hfirst.tracks_perm
  have hfirstNodup := hfirstPerm.nodup_iff.mpr (hold.live_nodup.sublist hpool)
  rw [wp_bind]
  refine wp_mono (wp_matchTracks ([], []) (List.Nodup.of_append_left hfirstNodup)
    (hfirst.detection_not_mem ?_)) ?_ fun _ => id
  · intro d hd hmem
    exact hfresh d (List.mem_append_left _ hd) (hpool.subset hmem)
  rintro ⟨activated₁, refind₁⟩ p ⟨hmem₁, matched, rfl, hmatchedOthers, hmatched⟩
  rw [wp_bind, wp_get]
  -- The tracks of the second association are some of those that the first leaves over.
  generalize hremaining : (List.filter (fun t => decide ((matched t).state = .tracked))
    (first.unmatchedRows.map fun i => (jointTracks detected
      (old.tracked.filter fun t => (detected t).isActivated) old.lost).getD i 0)) = remaining
  have hremainingRest : remaining.Sublist (first.unmatchedRows.map fun i => (jointTracks detected
      (old.tracked.filter fun t => (detected t).isActivated) old.lost).getD i 0) :=
    hremaining ▸ List.filter_sublist
  have hremainingLive : remaining ⊆ old.live := fun t ht =>
    hpool.subset (hfirstPerm.subset (List.mem_append_right _ (hremainingRest.subset ht)))
  have hremainingNodup := (List.Nodup.of_append_right hfirstNodup).sublist hremainingRest
  dsimp only [Impl.store] at *
  rw [wp_bind]
  refine wp_mono (wp_associate fuel _ _ _ _ _) ?_ fun _ => id
  rintro second p ⟨rfl, hsecond⟩
  have hsecondNodup := hsecond.tracks_perm.nodup_iff.mpr hremainingNodup
  rw [wp_bind]
  refine wp_mono (wp_matchTracks (activated₁, refind₁) (List.Nodup.of_append_left hsecondNodup)
    (hsecond.detection_not_mem ?_)) ?_ fun _ => id
  · intro d hd hmem
    exact hfresh d (List.mem_append_right _ hd) (hremainingLive hmem)
  rintro ⟨activated₂, refind⟩ p ⟨hmem₂, rematched, rfl, hrematchedOthers, hrematched⟩
  rw [wp_bind]
  refine wp_mono (wp_markLost (List.Nodup.of_append_right hsecondNodup) ?_) ?_ fun _ => id
  · intro i hi hlost
    have hrest := List.mem_map_of_mem (f := fun i => remaining.getD i 0) hi
    have hstate : (rematched (remaining.getD i 0)).state = .tracked := by
      rw [hrematchedOthers _ fun h => (List.disjoint_of_nodup_append hsecondNodup) h hrest]
      have hmem := hsecond.tracks_perm.subset (List.mem_append_right _ hrest)
      rw [← hremaining] at hmem ⊢
      exact of_decide_eq_true (List.mem_filter.mp hmem).2
    rw [hstate] at hlost
    cases hlost
  rintro newlyLost p ⟨rfl, marked, rfl, hmarkedOthers, hmarked⟩
  rw [wp_bind]
  refine wp_mono (wp_associate fuel _ _ _ _ _) ?_ fun _ => id
  rintro third p ⟨rfl, hthird⟩
  have hunconfirmed : (old.tracked.filter fun t => !(detected t).isActivated).Nodup :=
    hold.tracked_nodup.filter _
  have hthirdNodup := hthird.tracks_perm.nodup_iff.mpr hunconfirmed
  rw [wp_bind]
  refine wp_mono (wp_confirmTracks activated₂ (List.Nodup.of_append_left hthirdNodup)
    (hthird.detection_not_mem ?_)) ?_ fun _ => id
  · intro d hd hmem
    have hhigh := hfirst.detections_perm.subset (List.mem_append_right _ hd)
    exact hfresh d (List.mem_append_left _ hhigh)
      (List.mem_append_left _ (List.mem_of_mem_filter hmem))
  rintro activated₃ p ⟨rfl, confirmed, rfl, hconfirmedOthers, hconfirmed⟩
  rw [wp_bind]
  refine wp_mono (wp_markRemoved (List.Nodup.of_append_right hthirdNodup)) ?_ fun _ => id
  rintro rejected p ⟨rfl, dropped, rfl, hdroppedOthers, hdropped⟩
  have hhighNodup : high.Nodup :=
    List.Nodup.of_append_left (List.Nodup.of_map _ hdetected.positions)
  have hremainingHigh := List.Nodup.of_append_right
    (hfirst.detections_perm.nodup_iff.mpr hhighNodup)
  rw [wp_bind]
  refine wp_mono (wp_startTracks _ (List.Nodup.of_append_right
    (hthird.detections_perm.nodup_iff.mpr hremainingHigh))) ?_ fun _ => id
  rintro activated₄ p ⟨started, begun, nextId, rfl, rfl, hstarted⟩
  rw [wp_bind]
  refine wp_mono (wp_expireTracks _ hold.lost_nodup) ?_ fun _ => id
  rintro newlyRemoved p ⟨hmemRemoved, expired, rfl, hexpiredOthers, hexpired⟩
  rw [wp_bind, wp_modify, wp_bind, wp_get, wp_pure]
  let s : Pass F D := {
    candidates := (high, low), allocated, detected, predicted, first, matched, second, rematched
    marked, third, confirmed, dropped, started, begun, nextId, expired
    activated := activated₂ ++ (third.pairs.map fun m =>
      (old.tracked.filter fun t => !(detected t).isActivated).getD m.row 0) ++ started
    refind, newlyRemoved }
  subst hremaining
  refine ⟨s, ?_, rfl, rfl⟩
  exact {
    detects := hdetects
    detected := ⟨hdetected.allocated_le, hdetected.others, hdetected.fresh, hdetected.holds,
      hdetected.positions, hdetected.high, hdetected.low, hdetected.takes_high,
      hdetected.takes_low⟩
    predicted := hpredicted
    first := hfirst
    matched := hmatched
    matched_others := hmatchedOthers
    second := hsecond
    rematched := hrematched
    rematched_others := hrematchedOthers
    marked := fun t ht => by
      obtain ⟨i, hi, rfl⟩ := List.mem_map.mp ht
      exact hmarked i hi
    marked_others := hmarkedOthers
    third := hthird
    confirmed := hconfirmed
    confirmed_others := hconfirmedOthers
    dropped := fun t ht => by
      obtain ⟨i, hi, rfl⟩ := List.mem_map.mp ht
      exact hdropped i hi
    dropped_others := hdroppedOthers
    started_sublist := hstarted.sublist
    started_ids := hstarted.ids
    nextId_eq := hstarted.nextId_eq
    begun := hstarted.activated
    begun_others := hstarted.others
    started_iff := hstarted.started_iff
    expired := hexpired
    expired_others := hexpiredOthers
    mem_activated := fun t => by
      have hboth :
          t ∈ activated₂ ∨ t ∈ refind ↔ t ∈ s.firstTracks old ∨ t ∈ s.secondTracks old := by
        have hfound := hmem₂ t
        rw [hmem₁ t, List.append_nil, or_iff_right List.not_mem_nil, List.mem_append] at hfound
        exact hfound
      change t ∈ (activated₂ ++ s.thirdTracks old ++ started) ++ refind ↔
        t ∈ s.firstTracks old ++ s.secondTracks old ++ s.thirdTracks old ++ started
      rw [List.mem_append, List.mem_append, List.mem_append, List.mem_append, List.mem_append,
        List.mem_append, ← hboth]
      constructor
      · rintro (((h | h) | h) | h)
        · exact Or.inl (Or.inl (Or.inl h))
        · exact Or.inl (Or.inr h)
        · exact Or.inr h
        · exact Or.inl (Or.inl (Or.inr h))
      · rintro (((h | h) | h) | h)
        · exact Or.inl (Or.inl (Or.inl h))
        · exact Or.inr h
        · exact Or.inl (Or.inl (Or.inr h))
        · exact Or.inl (Or.inr h)
    mem_newlyRemoved := hmemRemoved }

end Pass

end EdgeClient.Tracking.ByteTracker
