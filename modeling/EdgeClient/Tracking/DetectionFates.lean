import EdgeClient.Tracking.TrackerRuns

/-!
# What becomes of a detection

A detection above the low threshold becomes a high or a low candidate. After the update
it has been taken over by one track that existed before, it has started a track, or it is
left over. A detection whose score is the track threshold becomes no candidate at all.
-/

namespace EdgeClient.Tracking.ByteTracker

open Basis Vision

variable {F D : Type} [FloatOps F] [FloatOps D]

/-! ## The fates -/

/-- The candidates of a frame and their objects. -/
structure Candidates (F D : Type) where
  /-- References of the high candidates. -/
  high : List ℕ
  /-- References of the low candidates. -/
  low : List ℕ
  /-- The objects. -/
  heap : ℕ → STrack F D
  /-- Number of objects. -/
  allocated : ℕ

/-- The candidates are those that `update` makes of its input. -/
def Candidates.Of (c : Candidates F D) (p : Impl F D) (input : List (FaceDetection F)) : Prop :=
  input.zipIdx.foldlM detect ([], []) { p with frame := p.frame + 1 } =
    .ok (c.high, c.low) { p with frame := p.frame + 1, heap := c.heap, allocated := c.allocated }

/-- The reference is the only candidate for the detection at a position, and it is in one list. -/
structure Candidates.Enters (c : Candidates F D) (i d : ℕ) : Prop where
  /-- It is in exactly one list. -/
  list : d ∈ c.high ∧ d ∉ c.low ∨ d ∈ c.low ∧ d ∉ c.high
  /-- It holds the detection at the position. -/
  position : (c.heap d).position = i
  /-- No other candidate holds that detection. -/
  unique : ∀ d' ∈ c.high ++ c.low, (c.heap d').position = i → d' = d

/-- What may become of a detection. -/
inductive Fate where
  /-- It updated or re-activated a track. -/
  | matched
  /-- It started a track. -/
  | founded
  /-- It is a high candidate that is left over. -/
  | leftHigh
  /-- It is a low candidate that is left over. -/
  | leftLow
  deriving DecidableEq

/-- The track existed before the update and has taken over the detection in it. -/
def TakesOver (p q : Impl F D) (i : ℕ) (det : FaceDetection F) (t : ℕ) : Prop :=
  t ∈ p.live ∧ Takes q.frame (.ofDetection i det : STrack F D) (q.heap t)

/-- What became of the detection at a position, whose candidate is `d`. -/
def Fate.Holds (p q : Impl F D) (c : Candidates F D) (i : ℕ) (det : FaceDetection F) (d : ℕ) :
    Fate → Prop
  | .matched => ∃! t, TakesOver p q i det t
  | .founded => p.nextId ≤ (q.heap d).trackId ∧ (q.heap d).trackId < q.nextId ∧
      (q.heap d).startFrame = q.frame ∧ Takes q.frame (.ofDetection i det : STrack F D) (q.heap d)
  | .leftHigh => d ∈ c.high ∧ det.score < p.cfg.newTrackThreshold ∧ (q.heap d).trackId = 0 ∧
      ∀ t, ¬ TakesOver p q i det t
  | .leftLow => d ∈ c.low ∧ (q.heap d).trackId = 0 ∧ ∀ t, ¬ TakesOver p q i det t

/-- Every detection above the low threshold enters one list and has one fate. -/
def AllPlaced (p : Impl F D) (input : List (FaceDetection F)) (q : Impl F D) : Prop :=
  ∃ c : Candidates F D, c.Of p input ∧ ∀ i det, input[i]? = some det →
    p.cfg.lowThreshold < det.score → ∃ d, c.Enters i d ∧ ∃! fate, Fate.Holds p q c i det d fate

/-- The score is neither above nor below the threshold of the first association. -/
def AtThreshold (p : Impl F D) (det : FaceDetection F) : Prop :=
  ¬ p.cfg.trackThreshold < det.score ∧ ¬ det.score < p.cfg.trackThreshold

/-- The candidates are known from the loop over the input. -/
theorem Candidates.Of.detected {c : Candidates F D} {p : Impl F D} {input : List (FaceDetection F)}
    (h : c.Of p input) : Detected p input (c.high, c.low) c.heap c.allocated := by
  obtain ⟨heap, allocated, heq, hdetected⟩ := wp_ok (wp_detect _ input) h
  have hheap : c.heap = heap := congrArg Impl.heap heq
  have hallocated : c.allocated = allocated := congrArg Impl.allocated heq
  rw [hheap, hallocated]
  exact ⟨hdetected.allocated_le, hdetected.others, hdetected.fresh, hdetected.holds,
    hdetected.positions, hdetected.high, hdetected.low, hdetected.takes_high, hdetected.takes_low⟩

/-- A detection at the threshold enters no list. The one list takes scores above it and the other
one scores below it. -/
theorem Candidates.Of.not_enters {c : Candidates F D} {p : Impl F D}
    {input : List (FaceDetection F)} (h : c.Of p input) {i d : ℕ} {det : FaceDetection F}
    (hi : input[i]? = some det) (hat : AtThreshold p det) : ¬ c.Enters i d := by
  intro henters
  have hdetected := h.detected
  have hd : d ∈ c.high ++ c.low := by
    rcases henters.list with hlist | hlist
    · exact List.mem_append_left _ hlist.1
    · exact List.mem_append_right _ hlist.1
  obtain ⟨det', hdet', hheap⟩ := hdetected.holds d hd
  rw [henters.position, hi] at hdet'
  cases hdet'
  have hscore : (c.heap d).score = det.score := by
    rw [hheap]
    rfl
  rcases henters.list with hlist | hlist
  · have hhigh := hdetected.high d hlist.1
    exact hat.1 (hscore ▸ hhigh)
  · have hlow := (hdetected.low d hlist.1).2
    exact hat.2 (hscore ▸ hlow)

/-! ## Objects that no stage matches -/

namespace Pass.Of

variable [FloatPair F D] {s : Pass F D} {old : Impl F D} {input : List (FaceDetection F)}

/-- An object that is not matched and starts no track keeps all but its estimate and state. The
loops over the tracks left over only change the state. -/
theorem unmatched_eq (hs : s.Of old input) {t : ℕ} (ht : t ∉ s.found old) :
    ∃ mean covariance state, s.expired t = { s.detected t with mean, covariance, state } := by
  unfold found at ht
  simp only [List.mem_append, not_or] at ht
  obtain ⟨⟨⟨hfirst, hsecond⟩, hthird⟩, hstarted⟩ := ht
  obtain ⟨mean, covariance, hpredicted⟩ := hs.predicted t
  have hrematched : s.rematched t = { s.detected t with mean, covariance } := by
    rw [hs.rematched_others t hsecond, hs.matched_others t hfirst, hpredicted]
  obtain ⟨state, hmarked⟩ : ∃ state,
      s.marked t = { s.detected t with mean, covariance, state } := by
    by_cases hlost : t ∈ s.newlyLost old
    · exact ⟨.lost, by rw [hs.marked t hlost, hrematched]⟩
    · exact ⟨(s.detected t).state, by rw [hs.marked_others t hlost, hrematched]⟩
  obtain ⟨state, hdropped⟩ : ∃ state,
      s.dropped t = { s.detected t with mean, covariance, state } := by
    by_cases hrejected : t ∈ s.rejected old
    · exact ⟨.removed, by rw [hs.dropped t hrejected, hs.confirmed_others t hthird, hmarked]⟩
    · exact ⟨state, by rw [hs.dropped_others t hrejected, hs.confirmed_others t hthird, hmarked]⟩
  rcases hs.expired_cases t with hexpired | hexpired
  · exact ⟨mean, covariance, state, by rw [hexpired, hs.begun_others t hstarted, hdropped]⟩
  · exact ⟨mean, covariance, .removed, by rw [hexpired, hs.begun_others t hstarted, hdropped]⟩

/-- A track whose last match is in this frame was matched in it. A track that was not matched
keeps the frame number of an earlier frame. -/
theorem found_of_takesOver (hs : s.Of old input) (hold : old.Linked)
    (hframe : ∀ t ∈ old.live, (old.heap t).frameId ≤ old.frame) {i t : ℕ} {det : FaceDetection F}
    (ht : TakesOver old (s.after old) i det t) : t ∈ s.found old := by
  by_contra hnot
  obtain ⟨mean, covariance, state, heq⟩ := hs.unmatched_eq hnot
  have hlast : (s.expired t).frameId = old.frame + 1 := ht.2.frameId
  have hbound := hframe t ht.1
  rw [heq, hs.detected_eq hold ht.1] at hlast
  dsimp only at hlast
  omega

/-! ## The candidate of a detection -/

/-- The candidates of the frame. -/
def candidatesOf (s : Pass F D) : Candidates F D :=
  ⟨s.candidates.1, s.candidates.2, s.detected, s.allocated⟩

section Candidate

variable (hs : s.Of old input) (hold : old.Linked) {i d : ℕ} {det : FaceDetection F}
  (hd : d ∈ s.candidates.1 ++ s.candidates.2) (hdet : s.detected d = .ofDetection i det)
include hs

/-- The candidate of a position is in one of the lists. Positions are distinct, so the two lists
have no candidate in common. -/
theorem enters (hd : d ∈ s.candidates.1 ++ s.candidates.2)
    (hposition : (s.detected d).position = i) : (candidatesOf s).Enters i d := by
  have hnodup : (s.candidates.1 ++ s.candidates.2).Nodup :=
    List.Nodup.of_map _ hs.detected.positions
  have hdisjoint := List.disjoint_of_nodup_append hnodup
  refine ⟨?_, hposition, fun d' hd' hsame => ?_⟩
  · rcases List.mem_append.mp hd with hhigh | hlow
    · exact Or.inl ⟨hhigh, hdisjoint hhigh⟩
    · exact Or.inr ⟨hlow, fun hhigh => hdisjoint hhigh hlow⟩
  · exact List.inj_on_of_nodup_map hs.detected.positions hd' hd (hsame.trans hposition.symm)

include hold

/-- Two tracks with one detection are the same. -/
theorem takesOver_unique (hframe : ∀ t ∈ old.live, (old.heap t).frameId ≤ old.frame) {t u : ℕ}
    (ht : TakesOver old (s.after old) i det t) (hu : TakesOver old (s.after old) i det u) :
    t = u := by
  refine hs.position_inj hold (hs.found_of_takesOver hold hframe ht)
    (hs.found_of_takesOver hold hframe hu) ?_
  have hpositions := ht.2.position.trans hu.2.position.symm
  exact hpositions

include hdet

/-- A track that is paired with the candidate takes the detection over. -/
theorem takesOver_of_uses {u : ℕ × ℕ} (hu : u ∈ s.uses old) (hlive : u.1 ∈ old.live)
    (hsnd : u.2 = d) : TakesOver old (s.after old) i det u.1 := by
  have htakes := (hs.takes hold hu).1
  rw [hsnd, hdet] at htakes
  exact ⟨hlive, htakes⟩

include hd

omit hdet in
/-- A candidate that starts no track is matched by no stage. -/
theorem not_found (hstarted : d ∉ s.started) : d ∉ s.found old := by
  intro hfound
  rcases hs.found_cases hold hfound with hlive | h
  · exact hs.candidate_not_live hold hd hlive
  · exact hstarted h

/-- A candidate that starts no track stays without an identifier. -/
theorem trackId_of_not_started (hstarted : d ∉ s.started) : (s.expired d).trackId = 0 := by
  obtain ⟨mean, covariance, state, heq⟩ := hs.unmatched_eq (hs.not_found hold hd hstarted)
  rw [heq, hdet]
  rfl

/-- The candidate starts a track just when the detection founds one. The founded track is
recognized by its new identifier. -/
theorem founded_iff {c : Candidates F D} :
    Fate.Holds old (s.after old) c i det d .founded ↔ d ∈ s.started := by
  constructor
  · rintro ⟨hid, -⟩
    by_contra hstarted
    have hzero : ((s.after old).heap d).trackId = 0 :=
      hs.trackId_of_not_started hold hd hdet hstarted
    have hpos := hold.nextId_pos
    omega
  · intro hstarted
    have hlive := hs.started_not_live hold hstarted
    have huses : (d, d) ∈ s.uses old :=
      List.mem_append_right _ (List.mem_map.mpr ⟨d, hstarted, rfl⟩)
    have htakes := (hs.takes hold huses).1
    dsimp only at htakes
    rw [hdet] at htakes
    obtain ⟨hlow, hhigh⟩ := hs.started_trackId hold hstarted
    obtain ⟨id, mean, covariance, hbegun⟩ := hs.begun_of_started hold hstarted
    have hstart : (s.expired d).startFrame = old.frame + 1 := by
      rw [hs.expired_others d fun h => hlive (List.mem_append_right _ h), hbegun]
      rfl
    exact ⟨hlow, hhigh, hstart, htakes⟩

/-- A high candidate is matched, starts a track or has a score below the threshold for
new tracks. -/
theorem score_lt_of_left (hhigh : d ∈ s.candidates.1) (hstarted : d ∉ s.started)
    (hleft : ∀ t, ¬ TakesOver old (s.after old) i det t) :
    det.score < old.cfg.newTrackThreshold := by
  rcases List.mem_append.mp (hs.first.detections_perm.mem_iff.mpr hhigh) with hpaired | hrest
  · obtain ⟨m, hm, hcol⟩ := List.mem_map.mp hpaired
    have huses : ((s.pool old).getD m.row 0, s.candidates.1.getD m.col 0) ∈ s.uses old :=
      List.mem_append_left _ (List.mem_append_left _ (List.mem_append_left _
        (List.mem_map.mpr ⟨m, hm, rfl⟩)))
    have hlive := hs.pool_subset hold (hs.first.track_mem hm)
    exact absurd (hs.takesOver_of_uses hold hdet huses hlive hcol) (hleft _)
  rcases List.mem_append.mp (hs.third.detections_perm.mem_iff.mpr hrest) with hpaired | hrest
  · obtain ⟨m, hm, hcol⟩ := List.mem_map.mp hpaired
    have huses : ((s.unconfirmed old).getD m.row 0, s.remainingHigh.getD m.col 0) ∈ s.uses old :=
      List.mem_append_left _ (List.mem_append_right _ (List.mem_map.mpr ⟨m, hm, rfl⟩))
    have hlive := List.mem_append_left old.lost
      (s.unconfirmed_subset old (hs.third.track_mem hm))
    exact absurd (hs.takesOver_of_uses hold hdet huses hlive hcol) (hleft _)
  have hunconfirmed : d ∉ s.unconfirmed old := fun h => hs.candidate_not_live hold hd
    (List.mem_append_left _ (s.unconfirmed_subset old h))
  obtain ⟨mean, covariance, hpredicted⟩ := hs.predicted d
  have hscore : (s.dropped d).score = det.score := by
    rw [hs.dropped_others d fun h => hunconfirmed (hs.rejected_subset h),
      hs.confirmed_others d fun h => hunconfirmed (hs.third_subset h),
      (hs.candidate_eq hold hd).1, hpredicted, hdet]
    rfl
  by_contra hnot
  exact hstarted ((hs.started_iff d hrest).mpr (hscore ▸ hnot))

/-- The detection of a candidate has exactly one fate. The stages are gone through one after the
other, and each leaves the rest to the next. -/
theorem existsUnique_fate (hframe : ∀ t ∈ old.live, (old.heap t).frameId ≤ old.frame) :
    ∃! fate, Fate.Holds old (s.after old) (candidatesOf s) i det d fate := by
  have hdisjoint := List.disjoint_of_nodup_append
    (List.Nodup.of_map _ hs.detected.positions : (s.candidates.1 ++ s.candidates.2).Nodup)
  have hfounded : Fate.Holds old (s.after old) (candidatesOf s) i det d .founded ↔ d ∈ s.started :=
    hs.founded_iff hold hd hdet
  -- A candidate that starts a track is not taken over by another one.
  have hapart : d ∈ s.started → ∀ t, ¬ TakesOver old (s.after old) i det t := by
    intro hstarted t ht
    have hself := (hfounded.mpr hstarted).2.2.2
    have heq : t = d := by
      refine hs.position_inj hold (hs.found_of_takesOver hold hframe ht)
        (List.mem_append_right _ hstarted) ?_
      have hpositions := ht.2.position.trans hself.position.symm
      exact hpositions
    exact hs.candidate_not_live hold hd (heq ▸ ht.1)
  have hidentified : d ∈ s.started → ((s.after old).heap d).trackId ≠ 0 := by
    intro hstarted
    have hid := (hfounded.mpr hstarted).1
    have hpos := hold.nextId_pos
    omega
  by_cases hstarted : d ∈ s.started
  · refine ⟨.founded, hfounded.mpr hstarted, fun fate hfate => ?_⟩
    cases fate with
    | matched => exact absurd hfate.exists.choose_spec (hapart hstarted _)
    | founded => rfl
    | leftHigh => exact absurd hfate.2.2.1 (hidentified hstarted)
    | leftLow => exact absurd hfate.2.1 (hidentified hstarted)
  by_cases htaken : ∃ t, TakesOver old (s.after old) i det t
  · obtain ⟨t, ht⟩ := htaken
    refine ⟨.matched, ⟨t, ht, fun u hu => hs.takesOver_unique hold hframe hu ht⟩,
      fun fate hfate => ?_⟩
    cases fate with
    | matched => rfl
    | founded => exact absurd (hfounded.mp hfate) hstarted
    | leftHigh => exact absurd ht (hfate.2.2.2 t)
    | leftLow => exact absurd ht (hfate.2.2 t)
  have hleft : ∀ t, ¬ TakesOver old (s.after old) i det t := fun t ht => htaken ⟨t, ht⟩
  have hid := hs.trackId_of_not_started hold hd hdet hstarted
  rcases List.mem_append.mp hd with hhigh | hlow
  · have hscore := hs.score_lt_of_left hold hd hdet hhigh hstarted hleft
    refine ⟨.leftHigh, ⟨hhigh, hscore, hid, hleft⟩, fun fate hfate => ?_⟩
    cases fate with
    | matched => exact absurd hfate.exists htaken
    | founded => exact absurd (hfounded.mp hfate) hstarted
    | leftHigh => rfl
    | leftLow => exact absurd hfate.1 (hdisjoint hhigh)
  · refine ⟨.leftLow, ⟨hlow, hid, hleft⟩, fun fate hfate => ?_⟩
    cases fate with
    | matched => exact absurd hfate.exists htaken
    | founded => exact absurd (hfounded.mp hfate) hstarted
    | leftHigh => exact absurd hlow (hdisjoint hfate.1)
    | leftLow => rfl

end Candidate

/-- An update places every detection unless one has the threshold as its score. The comparison of
the source with the threshold is strict on both sides. -/
theorem allPlaced_iff (hs : s.Of old input) (hold : old.Linked)
    (hframe : ∀ t ∈ old.live, (old.heap t).frameId ≤ old.frame) :
    AllPlaced old input (s.after old) ↔
      ∀ det ∈ input, old.cfg.lowThreshold < det.score → ¬ AtThreshold old det := by
  constructor
  · rintro ⟨c, hc, hplaced⟩ det hdet hlow hat
    obtain ⟨i, hi⟩ := List.getElem?_of_mem hdet
    obtain ⟨d, henters, -⟩ := hplaced i det hi hlow
    exact hc.not_enters hi hat henters
  · intro hnone
    refine ⟨candidatesOf s, hs.detects, fun i det hi hlow => ?_⟩
    have hcandidate : ∃ d ∈ s.candidates.1 ++ s.candidates.2, (s.detected d).position = i := by
      by_cases hhigh : old.cfg.trackThreshold < det.score
      · obtain ⟨d, hd, hposition⟩ := hs.detected.takes_high i det hi hhigh
        exact ⟨d, List.mem_append_left _ hd, hposition⟩
      · have hbelow : det.score < old.cfg.trackThreshold := by
          by_contra hnot
          exact hnone det (List.mem_of_getElem? hi) hlow ⟨hhigh, hnot⟩
        obtain ⟨d, hd, hposition⟩ := hs.detected.takes_low i det hi hhigh hlow hbelow
        exact ⟨d, List.mem_append_right _ hd, hposition⟩
    obtain ⟨d, hd, hposition⟩ := hcandidate
    obtain ⟨det', hdet', hheap⟩ := hs.detected.holds d hd
    rw [hposition, hi] at hdet'
    cases hdet'
    rw [hposition] at hheap
    exact ⟨d, hs.enters hd hposition, hs.existsUnique_fate hold hd hheap hframe⟩

end Pass.Of

/-! ## Every reachable state -/

/-- What holds between two calls, whatever the configuration is. -/
structure Impl.Settled (p : Impl F D) : Prop where
  /-- Tracks and lists fit together. -/
  linked : p.Linked
  /-- No track was matched in a later frame. -/
  frame_le : ∀ t ∈ p.live, (p.heap t).frameId ≤ p.frame

/-- A new tracker is settled: it has no tracks. -/
theorem settled_create {cfg : ByteTrackConfig F} : (create D cfg).Settled :=
  ⟨⟨.nil, nofun, nofun, nofun, nofun, nofun, le_rfl⟩, nofun⟩

variable [FloatPair F D]

/-- An update that returns went through the stages. -/
theorem pass_of_update {fuel : ℕ} {input : List (FaceDetection F)} {p q : Impl F D}
    {results : List (TrackResult F)} (hp : p.Linked)
    (hrun : update fuel input p = .ok results q) :
    ∃ s : Pass F D, s.Of p input ∧ q = s.after p := by
  obtain ⟨s, hs, hq, -⟩ := wp_ok (Pass.wp_update fuel input hp) hrun
  exact ⟨s, hs, hq⟩

/-- A frame leaves a settled tracker settled. Whatever is matched or started in the frame carries
its number. -/
theorem Pass.Of.after_settled {s : Pass F D} {old : Impl F D} {input : List (FaceDetection F)}
    (hs : s.Of old input) (hold : old.Settled) : (s.after old).Settled where
  linked := hs.after_linked hold.linked
  frame_le t ht := by
    change (s.expired t).frameId ≤ old.frame + 1
    by_cases hfound : t ∈ s.found old
    · rw [← Pass.uses_fst] at hfound
      obtain ⟨u, hu, rfl⟩ := List.mem_map.mp hfound
      exact ((hs.takes hold.linked hu).1.frameId).le
    · have hlive : t ∈ old.live := (hs.after_cases hold.linked ht).resolve_right fun h =>
        hfound (List.mem_append_right _ h)
      obtain ⟨mean, covariance, state, heq⟩ := hs.unmatched_eq hfound
      have hbound := hold.frame_le t hlive
      rw [heq, hs.detected_eq hold.linked hlive]
      dsimp only
      omega

/-- A call that returns keeps the lists settled and the configuration fixed. A reset empties the
lists. -/
theorem Impl.Settled.perform {fuel : ℕ} {call : Call F} {p : Impl F D} (hp : p.Settled)
    (hcompletes : call.Completes fuel p) :
    (call.perform fuel p).Settled ∧ (call.perform fuel p).cfg = p.cfg := by
  cases call with
  | update input =>
    obtain ⟨results, q, hrun⟩ := hcompletes
    obtain ⟨s, hs, rfl⟩ := pass_of_update hp.linked hrun
    rw [perform_update hrun]
    exact ⟨hs.after_settled hp, rfl⟩
  | reset => exact ⟨⟨⟨.nil, nofun, nofun, nofun, nofun, nofun, le_rfl⟩, nofun⟩, rfl⟩

/-- The tracker is settled after every sequence of calls that complete, and keeps its
configuration. -/
theorem settled_afterCalls {cfg : ByteTrackConfig F} {fuel : ℕ} {calls : List (Call F)}
    (hcomplete : AllComplete D cfg fuel calls) :
    (afterCalls D cfg fuel calls).Settled ∧
      (afterCalls D cfg fuel calls).cfg = (create D cfg).cfg := by
  refine run_maintains (I := fun p : Impl F D => p.Settled ∧ p.cfg = (create D cfg).cfg) ?_
    ⟨settled_create, rfl⟩ hcomplete
  rintro call p hcompletes ⟨hp, hcfg⟩
  obtain ⟨hsettled, hsame⟩ := hp.perform hcompletes
  exact ⟨hsettled, hsame.trans hcfg⟩

/-- In every reachable state an update that returns gives every usable detection one candidate
list and one fate, unless the score of one is the threshold of the first association. -/
theorem usable_detections_placed_iff {cfg : ByteTrackConfig F} {fuel : ℕ} {calls : List (Call F)}
    (hcomplete : AllComplete D cfg fuel calls) {input : List (FaceDetection F)}
    {results : List (TrackResult F)} {q : Impl F D}
    (hrun : update fuel input (afterCalls D cfg fuel calls) = .ok results q) :
    AllPlaced (afterCalls D cfg fuel calls) input q ↔
      ∀ det ∈ input, cfg.lowThreshold < det.score →
        cfg.trackThreshold < det.score ∨ det.score < cfg.trackThreshold := by
  obtain ⟨hsettled, hcfg⟩ := settled_afterCalls hcomplete
  obtain ⟨s, hs, rfl⟩ := pass_of_update hsettled.linked hrun
  rw [hs.allPlaced_iff hsettled.linked hsettled.frame_le]
  have hlow : (afterCalls D cfg fuel calls).cfg.lowThreshold = cfg.lowThreshold := by
    rw [hcfg]
    rfl
  have htrack : (afterCalls D cfg fuel calls).cfg.trackThreshold = cfg.trackThreshold := by
    rw [hcfg]
    rfl
  simp only [AtThreshold, hlow, htrack, not_and_or, not_not]

/-- A face whose score is the default threshold. -/
def borderDetection : FaceDetection Float32 :=
  ⟨lit 0, lit 0, lit 10, lit 10, lit 0.5, fun _ => ⟨lit 0, lit 0⟩⟩

/-- A frame with a face above the threshold and one below it. -/
def borderFrame : List (FaceDetection Float32) :=
  [{ borderDetection with score := lit 0.9 }, { borderDetection with score := lit 0.4 }]

/-- The second frame of a run. A confirmed track is matched by its detection. -/
theorem usable_detections_placed_sample : ∃ results q,
    update 4 borderFrame (afterCalls Float {} 4 [.update borderFrame]) = .ok results q ∧
      AllPlaced (afterCalls Float {} 4 [.update borderFrame]) borderFrame q := by
  have hsecond : (returned (update 4 borderFrame
      (afterCalls Float {} 4 [.update borderFrame]))).isSome := by decide +kernel
  obtain ⟨results, hreturned⟩ := Option.isSome_iff_exists.mp hsecond
  obtain ⟨q, hrun⟩ := exists_of_returned hreturned
  have hfirst : (returned (update 4 borderFrame
      (create Float ({} : ByteTrackConfig Float32)))).isSome := by decide +kernel
  obtain ⟨first, hfirst⟩ := Option.isSome_iff_exists.mp hfirst
  obtain ⟨p, hupdate⟩ := exists_of_returned hfirst
  have hcomplete : AllComplete Float ({} : ByteTrackConfig Float32) 4 [.update borderFrame] :=
    ⟨⟨first, p, hupdate⟩, trivial⟩
  have hscores : ∀ det ∈ borderFrame, ({} : ByteTrackConfig Float32).lowThreshold < det.score →
      ({} : ByteTrackConfig Float32).trackThreshold < det.score ∨
        det.score < ({} : ByteTrackConfig Float32).trackThreshold := by decide +kernel
  exact ⟨results, q, hrun, (usable_detections_placed_iff hcomplete hrun).mpr hscores⟩

/-- A face whose score is exactly the threshold takes no part in tracking. The score is above the
lower threshold, so that it should have been placed. -/
theorem border_detection_dropped : ∃ results q,
    update 4 [borderDetection] (create Float ({} : ByteTrackConfig Float32)) = .ok results q ∧
      ({} : ByteTrackConfig Float32).lowThreshold < borderDetection.score ∧
      ¬ AllPlaced (create Float ({} : ByteTrackConfig Float32)) [borderDetection] q := by
  have hsome : (returned (update 4 [borderDetection]
      (create Float ({} : ByteTrackConfig Float32)))).isSome := by decide +kernel
  obtain ⟨results, hreturned⟩ := Option.isSome_iff_exists.mp hsome
  obtain ⟨q, hrun⟩ := exists_of_returned hreturned
  refine ⟨results, q, hrun, by decide +kernel, ?_⟩
  obtain ⟨s, hs, rfl⟩ := pass_of_update settled_create.linked hrun
  rw [hs.allPlaced_iff settled_create.linked settled_create.frame_le]
  intro hnone
  have hat : AtThreshold (create Float ({} : ByteTrackConfig Float32)) borderDetection := by
    unfold AtThreshold
    decide +kernel
  exact hnone borderDetection List.mem_cons_self (by decide +kernel) hat

end EdgeClient.Tracking.ByteTracker
