import EdgeClient.Tracking.ByteTrack

/-!
# What the stages of an update change

An update is a sequence of loops over objects. Each of them rewrites the objects of
some references once and leaves the others alone, so what a stage does is said by one
relation between an object before and after it. An assignment splits its tracks, and
its detections, into those that are paired and those that are left over.
-/

namespace EdgeClient.Tracking

open Basis Vision

/-! ## Pairs and rests -/

section Assignment

variable {rows cols : ℕ} {r : AssignmentResult}

/-- A list is read back entry by entry. -/
theorem map_getD_range (l : List ℕ) : (List.range l.length).map (fun i => l.getD i 0) = l := by
  apply List.ext_getElem
  · rw [List.length_map, List.length_range]
  · intro i hi _
    rw [List.length_map, List.length_range] at hi
    simp [hi]

/-- When the pairs use distinct positions of a list, and the rest are the other positions, the
list consists of the entries of the pairs and of the rest. -/
theorem entries_perm {pairs : List Match} {position : Match → ℕ} {l rest : List ℕ}
    (hlt : ∀ m ∈ pairs, position m < l.length) (hnodup : (pairs.map position).Nodup)
    (hrest : rest = (List.range l.length).filter fun i => decide (i ∉ pairs.map position)) :
    ((pairs.map fun m => l.getD (position m) 0) ++ rest.map fun i => l.getD i 0).Perm l := by
  have hdisjoint : (pairs.map position).Disjoint rest := by
    intro i hi hother
    rw [hrest] at hother
    exact of_decide_eq_true (List.mem_filter.mp hother).2 hi
  have hrestNodup : rest.Nodup := hrest ▸ List.nodup_range.filter _
  have hpositions : (pairs.map position ++ rest).Perm (List.range l.length) := by
    refine (List.perm_ext_iff_of_nodup (hnodup.append hrestNodup hdisjoint) List.nodup_range).mpr ?_
    intro i
    rw [List.mem_append, hrest, List.mem_filter, decide_eq_true_iff]
    constructor
    · rintro (hi | hi)
      · obtain ⟨m, hm, rfl⟩ := List.mem_map.mp hi
        exact List.mem_range.mpr (hlt m hm)
      · exact hi.1
    · intro hi
      by_cases hpaired : i ∈ pairs.map position
      · exact Or.inl hpaired
      · exact Or.inr ⟨hi, hpaired⟩
  have hperm := hpositions.map fun i => l.getD i 0
  rw [map_getD_range, List.map_append, List.map_map] at hperm
  exact hperm

/-- The tracks are those of the pairs and those of the rows that are left over. -/
theorem AssignmentResult.WellFormed.tracks_perm {tracks : List ℕ}
    (hr : r.WellFormed tracks.length cols) :
    ((r.pairs.map fun m => tracks.getD m.row 0) ++
      r.unmatchedRows.map fun i => tracks.getD i 0).Perm tracks :=
  entries_perm hr.row_lt hr.rows_nodup hr.unmatchedRows_eq

/-- The detections are those of the pairs and those of the columns that are left over. -/
theorem AssignmentResult.WellFormed.detections_perm {detections : List ℕ}
    (hr : r.WellFormed rows detections.length) :
    ((r.pairs.map fun m => detections.getD m.col 0) ++
      r.unmatchedCols.map fun j => detections.getD j 0).Perm detections :=
  entries_perm hr.col_lt hr.cols_nodup hr.unmatchedCols_eq

/-- The track of a pair is one of the tracks. -/
theorem AssignmentResult.WellFormed.track_mem {tracks : List ℕ}
    (hr : r.WellFormed tracks.length cols) {m : Match} (hm : m ∈ r.pairs) :
    tracks.getD m.row 0 ∈ tracks :=
  hr.tracks_perm.subset (List.mem_append_left _ (List.mem_map_of_mem hm))

/-- The detection of a pair is one of the detections. -/
theorem AssignmentResult.WellFormed.detection_mem {detections : List ℕ}
    (hr : r.WellFormed rows detections.length) {m : Match} (hm : m ∈ r.pairs) :
    detections.getD m.col 0 ∈ detections :=
  hr.detections_perm.subset (List.mem_append_left _ (List.mem_map_of_mem hm))

/-- A detection of a pair is not a track when no detection is one. -/
theorem AssignmentResult.WellFormed.detection_not_mem {tracks detections : List ℕ}
    (hr : r.WellFormed tracks.length detections.length) (hdisjoint : detections.Disjoint tracks) :
    ∀ m ∈ r.pairs, detections.getD m.col 0 ∉ r.pairs.map fun m => tracks.getD m.row 0 :=
  fun _ hm hmem => hdisjoint (hr.detection_mem hm)
    (hr.tracks_perm.subset (List.mem_append_left _ hmem))

end Assignment

variable {F D : Type} [FloatOps F] [FloatOps D]

/-! ## One object -/

namespace STrack

/-- The object differs at most in the estimate of the filter. -/
def Predicted (old new : STrack F D) : Prop :=
  ∃ mean covariance, new = { old with mean, covariance }

/-- A track has taken over a detection. -/
structure Refreshed (frame : ℤ) (det old new : STrack F D) : Prop where
  trackId : new.trackId = old.trackId
  startFrame : new.startFrame = old.startFrame
  state : new.state = .tracked
  isActivated : new.isActivated = true
  frameId : new.frameId = frame
  score : new.score = det.score
  observation : new.observation = det.observation
  hasObservation : new.hasObservation = det.hasObservation
  position : new.position = det.position

omit [FloatOps F] in
/-- A prediction changes the estimate of a track and nothing else. -/
theorem predicted_predict (t : STrack F D) : t.Predicted t.predict := by
  unfold predict
  split
  · exact ⟨t.mean, t.covariance, rfl⟩
  · exact ⟨_, _, rfl⟩

variable [FloatPair F D]

/-- A correction changes the estimate only. -/
theorem wp_correct (det t : STrack F D) :
    wp (correct det) (fun _ new => t.Predicted new) (fun _ => True) t := by
  unfold correct
  rw [wp_bind, wp_get]
  cases KalmanFilter.update t.mean t.covariance det.xyah with
  | error e => trivial
  | ok state => exact ⟨_, _, rfl⟩

/-- A lost track that is found again takes the detection and the frame, and keeps its identifier. -/
theorem wp_reActivate (det : STrack F D) (frame : ℤ) (t : STrack F D) :
    wp (reActivate det frame) (fun _ new => Refreshed frame det t new) (fun _ => True) t := by
  unfold reActivate
  rw [wp_bind]
  refine wp_mono (wp_correct det t) ?_ fun _ => id
  rintro ⟨⟩ new ⟨mean, covariance, rfl⟩
  exact ⟨rfl, rfl, rfl, rfl, rfl, rfl, rfl, rfl, rfl⟩

/-- An updated track takes the detection and the frame, and keeps its identifier. -/
theorem wp_update (det : STrack F D) (frame : ℤ) (t : STrack F D) :
    wp (update det frame) (fun _ new => Refreshed frame det t new) (fun _ => True) t := by
  unfold update
  rw [wp_bind, wp_modify, wp_bind]
  refine wp_mono (wp_correct det _) ?_ fun _ => id
  rintro ⟨⟩ new ⟨mean, covariance, rfl⟩
  exact ⟨rfl, rfl, rfl, rfl, rfl, rfl, rfl, rfl, rfl⟩

end STrack

namespace ByteTracker

omit [FloatOps D] in
/-- A computation on one object inside the tracker. -/
theorem wp_onTrack {ptr : ℕ} {m : EStateM String (STrack F D) Unit} {Q : Unit → Impl F D → Prop}
    {p : Impl F D}
    (hm : wp m (fun _ t => Q () (p.store ptr t)) (fun _ => True) (p.heap ptr)) :
    wp (onTrack ptr m) Q (fun _ => True) p := by
  unfold wp onTrack at *
  cases hrun : m (p.heap ptr) with
  | ok a t => simpa only [hrun] using hm
  | error e t => trivial

omit [FloatOps D] in
/-- The loop rule of the stages: a loop whose steps each rewrite the object of their own
reference rewrites the objects of all of them, and no others. -/
theorem wp_storeLoop {α β : Type} {f : β → α → Tracker F D β} {items : List α} {b : β}
    {p : Impl F D} (key : α → ℕ) (R : α → STrack F D → STrack F D → Prop) (J : List α → β → Prop)
    (hnodup : (items.map key).Nodup) (hinit : J [] b)
    (hstep : ∀ pre x post b heap, items = pre ++ x :: post → J pre b →
      (∀ k, k ∉ pre.map key → heap k = p.heap k) → heap (key x) = p.heap (key x) →
      wp (f b x) (fun b' q => J (pre ++ [x]) b' ∧ ∃ t, R x (p.heap (key x)) t ∧
        q = { p with heap := Function.update heap (key x) t }) (fun _ => True)
        { p with heap }) :
    wp (items.foldlM f b) (fun b' q => J items b' ∧ ∃ heap, q = { p with heap } ∧
      (∀ k, k ∉ items.map key → heap k = p.heap k) ∧
      ∀ x ∈ items, R x (p.heap (key x)) (heap (key x))) (fun _ => True) p := by
  refine wp_foldlM (fun pre _ b q => J pre b ∧ ∃ heap, q = { p with heap } ∧
      (∀ k, k ∉ pre.map key → heap k = p.heap k) ∧
      ∀ x ∈ pre, R x (p.heap (key x)) (heap (key x))) ?_ ?_
  · exact ⟨hinit, p.heap, rfl, fun _ _ => rfl, nofun⟩
  · rintro pre x post b q hsplit ⟨hJ, heap, rfl, hothers, hdone⟩
    have hfresh : key x ∉ pre.map key := by
      rw [hsplit, List.map_append, List.map_cons] at hnodup
      intro hmem
      exact (List.disjoint_of_nodup_append hnodup) hmem List.mem_cons_self
    refine wp_mono (hstep pre x post b heap hsplit hJ hothers (hothers _ hfresh)) ?_ fun _ => id
    rintro b' q ⟨hJ', t, hR, rfl⟩
    refine ⟨hJ', _, rfl, fun k hk => ?_, fun y hy => ?_⟩
    · rw [List.map_append, List.mem_append, not_or] at hk
      rw [Function.update_of_ne (by simpa using hk.2)]
      exact hothers k hk.1
    · rcases List.mem_append.mp hy with hy | hy
      · have hne : key y ≠ key x := by
          intro heq
          exact hfresh (heq ▸ List.mem_map_of_mem hy)
        rw [Function.update_of_ne hne]
        exact hdone y hy
      · obtain rfl := List.mem_singleton.mp hy
        rwa [Function.update_self]

/-! ## The stages -/

/-- The detections become new objects; each object holds the detection at its position of
the input. -/
structure Detected (p : Impl F D) (input : List (FaceDetection F)) (candidates : List ℕ × List ℕ)
    (heap : ℕ → STrack F D) (allocated : ℕ) : Prop where
  /-- References are never given back. -/
  allocated_le : p.allocated ≤ allocated
  /-- Older objects are left alone. -/
  others : ∀ k, k < p.allocated → heap k = p.heap k
  /-- The candidates have new references. -/
  fresh : ∀ d ∈ candidates.1 ++ candidates.2, p.allocated ≤ d ∧ d < allocated
  /-- Each candidate holds a detection of the input. -/
  holds : ∀ d ∈ candidates.1 ++ candidates.2, ∃ det,
    input[(heap d).position]? = some det ∧ heap d = .ofDetection (heap d).position det
  /-- Positions are used once. -/
  positions : ((candidates.1 ++ candidates.2).map fun d => (heap d).position).Nodup
  /-- High candidates have a high score. -/
  high : ∀ d ∈ candidates.1, p.cfg.trackThreshold < (heap d).score
  /-- Low candidates have a low score. -/
  low : ∀ d ∈ candidates.2, p.cfg.lowThreshold < (heap d).score ∧
    (heap d).score < p.cfg.trackThreshold
  /-- Every detection with a high score is a high candidate. -/
  takes_high : ∀ i det, input[i]? = some det → p.cfg.trackThreshold < det.score →
    ∃ d ∈ candidates.1, (heap d).position = i
  /-- Every detection with a low score is a low candidate. -/
  takes_low : ∀ i det, input[i]? = some det → ¬ p.cfg.trackThreshold < det.score →
    p.cfg.lowThreshold < det.score → det.score < p.cfg.trackThreshold →
    ∃ d ∈ candidates.2, (heap d).position = i

omit [FloatOps F] [FloatOps D] in
/-- A detection that is read at the end of a list. The index is inside the list, or it is that of
the last detection. -/
theorem getElem?_snoc_cases {input : List (FaceDetection F)} {last det : FaceDetection F} {i : ℕ}
    (h : (input ++ [last])[i]? = some det) :
    input[i]? = some det ∨ i = input.length ∧ det = last := by
  rw [List.getElem?_append] at h
  split at h
  · exact Or.inl h
  · rename_i hlen
    obtain ⟨hi, hdet⟩ := List.getElem?_eq_some_iff.mp h
    rw [List.length_singleton] at hi
    refine Or.inr ⟨by omega, ?_⟩
    rw [← hdet]
    simp

namespace Detected

variable {p : Impl F D} {input : List (FaceDetection F)} {candidates candidates' : List ℕ × List ℕ}
  {heap : ℕ → STrack F D} {allocated : ℕ} {det : FaceDetection F}

/-- A candidate remembers the position of its detection in the input. -/
theorem position_lt (h : Detected p input candidates heap allocated) {d : ℕ}
    (hd : d ∈ candidates.1 ++ candidates.2) : (heap d).position < input.length := by
  obtain ⟨det, hdet, -⟩ := h.holds d hd
  exact (List.getElem?_eq_some_iff.mp hdet).1

/-- A detection between the thresholds of the two lists is dropped. It is counted as read, and no
object is made for it. -/
theorem drop (h : Detected p input candidates heap allocated)
    (hhigh : ¬ p.cfg.trackThreshold < det.score)
    (hlow : ¬ (p.cfg.lowThreshold < det.score ∧ det.score < p.cfg.trackThreshold)) :
    Detected p (input ++ [det]) candidates heap allocated where
  allocated_le := h.allocated_le
  others := h.others
  fresh := h.fresh
  holds d hd := by
    obtain ⟨det', hdet', hheap⟩ := h.holds d hd
    exact ⟨det', by rw [List.getElem?_append_left (h.position_lt hd), hdet'], hheap⟩
  positions := h.positions
  high := h.high
  low := h.low
  takes_high i det' hi hscore := by
    rcases getElem?_snoc_cases hi with hi | ⟨-, rfl⟩
    · exact h.takes_high i det' hi hscore
    · exact absurd hscore hhigh
  takes_low i det' hi hnot habove hbelow := by
    rcases getElem?_snoc_cases hi with hi | ⟨-, rfl⟩
    · exact h.takes_low i det' hi hnot habove hbelow
    · exact absurd ⟨habove, hbelow⟩ hlow

/-- A detection becomes a new object in one of the lists. The object is put at the next free
place, so that the others stay as they are. -/
theorem push (h : Detected p input candidates heap allocated)
    (hperm : (candidates'.1 ++ candidates'.2).Perm ((candidates.1 ++ candidates.2) ++ [allocated]))
    (hhigh : ∀ d, d ∈ candidates'.1 ↔ d ∈ candidates.1 ∨
      d = allocated ∧ p.cfg.trackThreshold < det.score)
    (hlow : ∀ d, d ∈ candidates'.2 ↔ d ∈ candidates.2 ∨ d = allocated ∧
      ¬ p.cfg.trackThreshold < det.score)
    (hscore : ¬ p.cfg.trackThreshold < det.score →
      p.cfg.lowThreshold < det.score ∧ det.score < p.cfg.trackThreshold) :
    Detected p (input ++ [det]) candidates'
      (Function.update heap allocated (.ofDetection input.length det)) (allocated + 1) := by
  have hne : ∀ d ∈ candidates.1 ++ candidates.2, d ≠ allocated := by
    intro d hd
    have := (h.fresh d hd).2
    omega
  have hold : ∀ d ∈ candidates.1 ++ candidates.2,
      Function.update heap allocated (.ofDetection input.length det) d = heap d :=
    fun d hd => Function.update_of_ne (hne d hd) _ _
  have hnew : Function.update heap allocated (.ofDetection input.length det) allocated =
      .ofDetection input.length det := Function.update_self ..
  refine ⟨?_, ?_, ?_, ?_, ?_, ?_, ?_, ?_, ?_⟩
  · have := h.allocated_le
    omega
  · intro k hk
    have := h.allocated_le
    rw [Function.update_of_ne (by omega)]
    exact h.others k hk
  · intro d hd
    have := h.allocated_le
    rcases List.mem_append.mp (hperm.mem_iff.mp hd) with hd | hd
    · have := h.fresh d hd
      omega
    · rw [List.mem_singleton.mp hd]
      omega
  · intro d hd
    rcases List.mem_append.mp (hperm.mem_iff.mp hd) with hd | hd
    · obtain ⟨det', hdet', hheap⟩ := h.holds d hd
      rw [hold d hd]
      exact ⟨det', by rw [List.getElem?_append_left (h.position_lt hd), hdet'], hheap⟩
    · rw [List.mem_singleton.mp hd, hnew]
      exact ⟨det, List.getElem?_concat_length, rfl⟩
  · refine (hperm.map _).nodup_iff.mpr ?_
    rw [List.map_append, List.map_singleton, hnew,
      List.map_congr_left fun d hd => by rw [hold d hd]]
    refine h.positions.append (List.nodup_singleton _) ?_
    intro i hi hmem
    obtain ⟨d, hd, rfl⟩ := List.mem_map.mp hi
    exact (h.position_lt hd).ne (List.mem_singleton.mp hmem)
  · intro d hd
    rcases (hhigh d).mp hd with hd | ⟨rfl, hd⟩
    · rw [hold d (List.mem_append_left _ hd)]
      exact h.high d hd
    · rw [hnew]
      exact hd
  · intro d hd
    rcases (hlow d).mp hd with hd | ⟨rfl, hd⟩
    · rw [hold d (List.mem_append_right _ hd)]
      exact h.low d hd
    · rw [hnew]
      exact hscore hd
  · intro i det' hi habove
    rcases getElem?_snoc_cases hi with hi | ⟨rfl, rfl⟩
    · obtain ⟨d, hd, hposition⟩ := h.takes_high i det' hi habove
      refine ⟨d, (hhigh d).mpr (Or.inl hd), ?_⟩
      rw [hold d (List.mem_append_left _ hd), hposition]
    · exact ⟨allocated, (hhigh _).mpr (Or.inr ⟨rfl, habove⟩), by rw [hnew]; rfl⟩
  · intro i det' hi hnot habove hbelow
    rcases getElem?_snoc_cases hi with hi | ⟨rfl, rfl⟩
    · obtain ⟨d, hd, hposition⟩ := h.takes_low i det' hi hnot habove hbelow
      refine ⟨d, (hlow d).mpr (Or.inl hd), ?_⟩
      rw [hold d (List.mem_append_right _ hd), hposition]
    · exact ⟨allocated, (hlow _).mpr (Or.inr ⟨rfl, hnot⟩), by rw [hnew]; rfl⟩

end Detected

/-- The loop over the input. The invariant follows the input from left to right, with one of two
lemmas for each detection. -/
theorem wp_detect (p : Impl F D) (input : List (FaceDetection F)) :
    wp (input.zipIdx.foldlM detect ([], [])) (fun candidates q => ∃ heap allocated,
      q = { p with heap, allocated } ∧ Detected p input candidates heap allocated)
      (fun _ => True) p := by
  have hloop := wp_foldlM (f := detect) (l := input.zipIdx) (b := ([], [])) (E := fun _ => True)
    (s := p) (fun pre _ candidates q => ∃ heap allocated,
      q = { p with heap, allocated } ∧ Detected p (pre.map Prod.fst) candidates heap allocated)
    ⟨p.heap, p.allocated, rfl, le_rfl, fun _ _ => rfl, nofun, nofun, .nil, nofun, nofun,
      nofun, nofun⟩ ?_
  · refine wp_mono hloop ?_ fun _ => id
    rintro candidates q ⟨heap, allocated, rfl, hdetected⟩
    rw [List.zipIdx_map_fst] at hdetected
    exact ⟨heap, allocated, rfl, hdetected⟩
  rintro pre ⟨det, i⟩ post candidates q hsplit ⟨heap, allocated, rfl, hdet⟩
  have hi : i = (pre.map Prod.fst).length := by
    have hget : input.zipIdx[pre.length]? = some (det, i) := by
      rw [hsplit, List.getElem?_append_right le_rfl, Nat.sub_self, List.getElem?_cons_zero]
    rw [List.getElem?_zipIdx] at hget
    obtain ⟨d, -, heq⟩ := Option.map_eq_some_iff.mp hget
    cases heq
    rw [List.length_map, Nat.zero_add]
  rw [hi, List.map_append, List.map_singleton]
  unfold detect
  rw [wp_bind, wp_get, wp_ite]
  refine ⟨fun hhigh => ?_, fun hhigh => ?_⟩
  · unfold makeShared
    rw [wp_bind, wp_modifyGet, wp_pure]
    refine ⟨_, _, rfl, hdet.push ?_ ?_ ?_ fun h => absurd hhigh h⟩
    · rw [List.append_assoc, List.append_assoc]
      exact List.perm_append_comm.append_left _
    · intro d
      simp [hhigh]
    · intro d
      simp [hhigh]
  · rw [wp_ite]
    refine ⟨fun hlow => ?_, fun hlow => ?_⟩
    · unfold makeShared
      rw [wp_bind, wp_modifyGet, wp_pure]
      refine ⟨_, _, rfl, hdet.push ?_ ?_ ?_ fun _ => hlow⟩
      · rw [List.append_assoc]
      · intro d
        simp [hhigh]
      · intro d
        simp [hhigh]
    · rw [wp_pure]
      exact ⟨heap, allocated, rfl, hdet.drop hhigh hlow⟩

/-- The loop that advances the filters. A lost track has the speed of its height cleared in front
of the prediction. -/
theorem wp_predict (p : Impl F D) (pool : List ℕ) :
    wp (pool.foldlM
        (fun _ t => (modify fun p => p.store t (p.heap t).predict : Tracker F D Unit)) ())
      (fun _ q => ∃ heap, q = { p with heap } ∧ ∀ k, (p.heap k).Predicted (heap k))
      (fun _ => True) p := by
  refine wp_foldlM (fun _ _ _ q => ∃ heap, q = { p with heap } ∧ ∀ k, (p.heap k).Predicted (heap k))
    ⟨p.heap, rfl, fun k => ⟨_, _, rfl⟩⟩ ?_
  rintro pre t post ⟨⟩ q - ⟨heap, rfl, hpredicted⟩
  refine ⟨_, rfl, fun k => ?_⟩
  by_cases hk : k = t
  · subst hk
    obtain ⟨mean, covariance, hsame⟩ := hpredicted k
    obtain ⟨mean', covariance', hsame'⟩ := (heap k).predicted_predict
    refine ⟨mean', covariance', ?_⟩
    rw [Function.update_self, hsame', hsame]
  · rw [Function.update_of_ne hk]
    exact hpredicted k

variable [FloatPair F D]

/-- An association changes no track. It divides rows and columns into matched and unmatched ones. -/
theorem wp_associate (fuel : ℕ) (tracks detections : List ℕ) (fuseScore : Bool) (threshold : F)
    (p : Impl F D) :
    wp (associate fuel tracks detections fuseScore threshold)
      (fun r q => q = p ∧ r.WellFormed tracks.length detections.length) (fun _ => True) p := by
  unfold associate
  rw [wp_bind, wp_get]
  dsimp only
  split
  · trivial
  · rename_i r hr
    exact ⟨rfl, wellFormed_linearAssignment hr⟩

/-- The loop over the pairs of an association with tracks and lost tracks. A tracked one is
updated and a lost one found again; both take the detection. -/
theorem wp_matchTracks {p : Impl F D} {tracks detections : List ℕ} {pairs : List Match}
    (acc : List ℕ × List ℕ) (hnodup : (pairs.map fun m => tracks.getD m.row 0).Nodup)
    (hdet : ∀ m ∈ pairs, detections.getD m.col 0 ∉ pairs.map fun m => tracks.getD m.row 0) :
    wp (pairs.foldlM (matchTrack tracks detections) acc)
      (fun acc' q => (∀ t, t ∈ acc'.1 ++ acc'.2 ↔
          t ∈ acc.1 ++ acc.2 ∨ t ∈ pairs.map fun m => tracks.getD m.row 0) ∧
        ∃ heap, q = { p with heap } ∧
        (∀ k, (k ∉ pairs.map fun m => tracks.getD m.row 0) → heap k = p.heap k) ∧
        ∀ m ∈ pairs, STrack.Refreshed p.frame (p.heap (detections.getD m.col 0))
          (p.heap (tracks.getD m.row 0)) (heap (tracks.getD m.row 0))) (fun _ => True) p := by
  refine wp_storeLoop (fun m : Match => tracks.getD m.row 0)
    (fun m => STrack.Refreshed p.frame (p.heap (detections.getD m.col 0)))
    (fun pre (acc' : List ℕ × List ℕ) => ∀ t, t ∈ acc'.1 ++ acc'.2 ↔
      t ∈ acc.1 ++ acc.2 ∨ t ∈ pre.map fun m : Match => tracks.getD m.row 0) hnodup ?_ ?_
  · intro t
    simp
  intro pre m post acc' heap hsplit hacc hothers hrow
  have hpre : ∀ k, (k ∉ pairs.map fun m => tracks.getD m.row 0) →
      k ∉ pre.map fun m => tracks.getD m.row 0 := by
    intro k hk hmem
    rw [hsplit, List.map_append, List.mem_append] at hk
    exact hk (Or.inl hmem)
  have hm : m ∈ pairs := hsplit ▸ List.mem_append_right _ List.mem_cons_self
  have hcol := hothers _ (hpre _ (hdet m hm))
  unfold matchTrack
  rw [wp_bind, wp_get, wp_ite]
  refine ⟨fun _ => ?_, fun _ => ?_⟩
  · rw [wp_bind]
    refine wp_onTrack (wp_mono (STrack.wp_update _ _ _) ?_ fun _ => id)
    intro _ t ht
    refine ⟨fun u => ?_, t, by simpa only [hrow, hcol] using ht, rfl⟩
    have := hacc u
    simp only [List.mem_append, List.map_append, List.map_singleton, List.mem_singleton] at this ⊢
    tauto
  · rw [wp_bind]
    refine wp_onTrack (wp_mono (STrack.wp_reActivate _ _ _) ?_ fun _ => id)
    intro _ t ht
    refine ⟨fun u => ?_, t, by simpa only [hrow, hcol] using ht, rfl⟩
    have := hacc u
    simp only [List.mem_append, List.map_append, List.map_singleton, List.mem_singleton] at this ⊢
    tauto

/-- The loop over the pairs of the association with unconfirmed tracks. Each of them is updated,
and becomes confirmed by it. -/
theorem wp_confirmTracks {p : Impl F D} {tracks detections : List ℕ} {pairs : List Match}
    (activated : List ℕ) (hnodup : (pairs.map fun m => tracks.getD m.row 0).Nodup)
    (hdet : ∀ m ∈ pairs, detections.getD m.col 0 ∉ pairs.map fun m => tracks.getD m.row 0) :
    wp (pairs.foldlM (confirmTrack tracks detections) activated)
      (fun activated' q => activated' = activated ++ pairs.map (fun m => tracks.getD m.row 0) ∧
        ∃ heap, q = { p with heap } ∧
        (∀ k, (k ∉ pairs.map fun m => tracks.getD m.row 0) → heap k = p.heap k) ∧
        ∀ m ∈ pairs, STrack.Refreshed p.frame (p.heap (detections.getD m.col 0))
          (p.heap (tracks.getD m.row 0)) (heap (tracks.getD m.row 0))) (fun _ => True) p := by
  refine wp_storeLoop (fun m : Match => tracks.getD m.row 0)
    (fun m => STrack.Refreshed p.frame (p.heap (detections.getD m.col 0)))
    (fun pre activated' => activated' = activated ++ pre.map fun m : Match => tracks.getD m.row 0)
    hnodup (by simp) ?_
  intro pre m post activated' heap hsplit hacc hothers hrow
  have hm : m ∈ pairs := hsplit ▸ List.mem_append_right _ List.mem_cons_self
  have hcol : heap (detections.getD m.col 0) = p.heap (detections.getD m.col 0) := by
    apply hothers
    intro hmem
    have hfree := hdet m hm
    rw [hsplit, List.map_append, List.mem_append] at hfree
    exact hfree (Or.inl hmem)
  unfold confirmTrack
  rw [wp_bind, wp_get, wp_bind]
  refine wp_onTrack (wp_mono (STrack.wp_update _ _ _) ?_ fun _ => id)
  intro _ t ht
  refine ⟨?_, t, by simpa only [hrow, hcol] using ht, rfl⟩
  rw [hacc, List.map_append, List.append_assoc]
  rfl

omit [FloatOps D] [FloatPair F D] in
/-- The loop over the tracks that the second association leaves over. The ones that were lost
before are skipped, and are not among them. -/
theorem wp_markLost {p : Impl F D} {tracks idxs : List ℕ}
    (hnodup : (idxs.map fun i => tracks.getD i 0).Nodup)
    (hstate : ∀ i ∈ idxs, (p.heap (tracks.getD i 0)).state ≠ .lost) :
    wp (idxs.foldlM (markLost tracks) [])
      (fun newlyLost q => newlyLost = idxs.map (fun i => tracks.getD i 0) ∧
        ∃ heap, q = { p with heap } ∧
        (∀ k, (k ∉ idxs.map fun i => tracks.getD i 0) → heap k = p.heap k) ∧
        ∀ i ∈ idxs, heap (tracks.getD i 0) = { p.heap (tracks.getD i 0) with state := .lost })
      (fun _ => True) p := by
  refine wp_storeLoop (fun i => tracks.getD i 0)
    (fun _ old new => new = { old with state := .lost })
    (fun pre newlyLost => newlyLost = pre.map fun i => tracks.getD i 0) hnodup rfl ?_
  intro pre i post newlyLost heap hsplit hacc hothers hrow
  have hi : i ∈ idxs := hsplit ▸ List.mem_append_right _ List.mem_cons_self
  unfold markLost
  rw [wp_bind, wp_get, wp_ite]
  refine ⟨fun _ => ?_, fun hlost => absurd (hstate i hi) (by simpa only [hrow] using hlost)⟩
  rw [wp_bind, wp_set, wp_pure]
  refine ⟨?_, _, rfl, ?_⟩
  · rw [hacc, List.map_append]
    rfl
  · simp only [Impl.store, hrow]

omit [FloatOps D] [FloatPair F D] in
/-- The loop over the unconfirmed tracks that the third association leaves over. They are dropped
at once, since they were seen in one frame only. -/
theorem wp_markRemoved {p : Impl F D} {tracks idxs : List ℕ}
    (hnodup : (idxs.map fun i => tracks.getD i 0).Nodup) :
    wp (idxs.foldlM (markRemoved tracks) [])
      (fun newlyRemoved q => newlyRemoved = idxs.map (fun i => tracks.getD i 0) ∧
        ∃ heap, q = { p with heap } ∧
        (∀ k, (k ∉ idxs.map fun i => tracks.getD i 0) → heap k = p.heap k) ∧
        ∀ i ∈ idxs, heap (tracks.getD i 0) = { p.heap (tracks.getD i 0) with state := .removed })
      (fun _ => True) p := by
  refine wp_storeLoop (fun i => tracks.getD i 0)
    (fun _ old new => new = { old with state := .removed })
    (fun pre newlyRemoved => newlyRemoved = pre.map fun i => tracks.getD i 0) hnodup rfl ?_
  intro pre i post newlyRemoved heap hsplit hacc hothers hrow
  unfold markRemoved
  rw [wp_bind, wp_get, wp_bind, wp_set, wp_pure]
  refine ⟨?_, _, rfl, ?_⟩
  · rw [hacc, List.map_append]
    rfl
  · simp only [Impl.store, hrow]

omit [FloatOps D] [FloatPair F D] in
/-- The loop over the lost tracks. The ones that were not seen for too long are removed, and the
others keep waiting. -/
theorem wp_expireTracks {p : Impl F D} {lost : List ℕ} (newlyRemoved : List ℕ)
    (hnodup : lost.Nodup) :
    wp (lost.foldlM expireTrack newlyRemoved)
      (fun newlyRemoved' q => (∀ t, t ∈ newlyRemoved' ↔ t ∈ newlyRemoved ∨
          t ∈ lost ∧ p.maxTimeLost < p.frame - (p.heap t).frameId) ∧
        ∃ heap, q = { p with heap } ∧ (∀ k, k ∉ lost → heap k = p.heap k) ∧
        ∀ t ∈ lost, heap t = if p.maxTimeLost < p.frame - (p.heap t).frameId
          then { p.heap t with state := .removed } else p.heap t)
      (fun _ => True) p := by
  refine wp_mono (wp_storeLoop id
    (fun _ old new => new = if p.maxTimeLost < p.frame - old.frameId
      then { old with state := .removed } else old)
    (fun pre newlyRemoved' => ∀ t, t ∈ newlyRemoved' ↔ t ∈ newlyRemoved ∨
      t ∈ pre ∧ p.maxTimeLost < p.frame - (p.heap t).frameId)
    (by rwa [List.map_id]) (by simp) ?_) ?_ fun _ => id
  rotate_left
  · rintro newlyRemoved' q ⟨hmem, heap, rfl, hothers, hdone⟩
    rw [List.map_id] at hothers
    exact ⟨hmem, heap, rfl, hothers, hdone⟩
  intro pre t post newlyRemoved' heap hsplit hacc hothers hrow
  rw [id_eq] at hrow
  unfold expireTrack
  rw [wp_bind, wp_get, wp_ite]
  simp only [hrow, id_eq]
  refine ⟨fun hexpired => ?_, fun hkept => ?_⟩
  · rw [wp_bind, wp_set, wp_pure]
    refine ⟨fun u => ?_, _, (if_pos hexpired).symm, rfl⟩
    rw [List.mem_append, hacc u, List.mem_append, List.mem_singleton]
    constructor
    · rintro ((h | h) | rfl)
      · exact Or.inl h
      · exact Or.inr ⟨Or.inl h.1, h.2⟩
      · exact Or.inr ⟨Or.inr rfl, hexpired⟩
    · rintro (h | ⟨h | rfl, hu⟩)
      · exact Or.inl (Or.inl h)
      · exact Or.inl (Or.inr ⟨h, hu⟩)
      · exact Or.inr rfl
  · rw [wp_pure]
    refine ⟨fun u => ?_, p.heap t, (if_neg hkept).symm, ?_⟩
    · rw [hacc u, List.mem_append, List.mem_singleton]
      constructor
      · rintro (h | h)
        · exact Or.inl h
        · exact Or.inr ⟨Or.inl h.1, h.2⟩
      · rintro (h | ⟨h | rfl, hu⟩)
        · exact Or.inl h
        · exact Or.inr ⟨h, hu⟩
        · exact absurd hu hkept
    · rw [← hrow, Function.update_eq_self]

/-- The tracks that start in a frame: a part of the detections that are left over, with
consecutive identifiers. -/
structure Started (p : Impl F D) (detections : List ℕ) (started : List ℕ) (heap : ℕ → STrack F D)
    (nextId : ℕ) : Prop where
  /-- They are detections that are left over. -/
  sublist : started.Sublist detections
  /-- Their identifiers are new. -/
  ids : started.map (fun t => (heap t).trackId) = List.range' p.nextId started.length
  /-- The counter moves past them. -/
  nextId_eq : nextId = p.nextId + started.length
  /-- Each of them is activated. -/
  activated : ∀ t ∈ started, ∃ id, heap t = (p.heap t).activate p.frame id
  /-- Other objects are left alone. -/
  others : ∀ k, k ∉ started → heap k = p.heap k
  /-- A detection starts a track when its score is high enough. -/
  started_iff : ∀ t ∈ detections, t ∈ started ↔ ¬ (p.heap t).score < p.cfg.newTrackThreshold

/-- The loop over the detections that are left over. A score below the threshold for new tracks
leaves the detection unused. -/
theorem wp_startTracks {p : Impl F D} {detections idxs : List ℕ} (activated : List ℕ)
    (hnodup : (idxs.map fun i => detections.getD i 0).Nodup) :
    wp (idxs.foldlM (startTrack detections) activated)
      (fun activated' q => ∃ started heap nextId, activated' = activated ++ started ∧
        q = { p with heap, nextId } ∧
        Started p (idxs.map fun i => detections.getD i 0) started heap nextId)
      (fun _ => True) p := by
  refine wp_foldlM (fun pre _ activated' q => ∃ started heap nextId,
    activated' = activated ++ started ∧ q = { p with heap, nextId } ∧
      Started p (pre.map fun i => detections.getD i 0) started heap nextId) ?_ ?_
  · exact ⟨[], p.heap, p.nextId, (List.append_nil _).symm, rfl,
      ⟨List.nil_sublist _, rfl, rfl, nofun, fun _ _ => rfl, nofun⟩⟩
  rintro pre i post activated' q hsplit ⟨started, heap, nextId, rfl, rfl, hstarted⟩
  have hfresh : detections.getD i 0 ∉ started := by
    intro hmem
    rw [hsplit, List.map_append, List.map_cons] at hnodup
    exact (List.disjoint_of_nodup_append hnodup) (hstarted.sublist.subset hmem) List.mem_cons_self
  have hrow := hstarted.others _ hfresh
  unfold startTrack
  rw [wp_bind, wp_get, wp_ite, List.map_append, List.map_singleton]
  have hbefore : detections.getD i 0 ∉ pre.map fun i => detections.getD i 0 := by
    rw [hsplit, List.map_append, List.map_cons] at hnodup
    exact fun hmem => (List.disjoint_of_nodup_append hnodup) hmem List.mem_cons_self
  refine ⟨fun hscore => ?_, fun hscore => ?_⟩
  · refine ⟨started, heap, nextId, rfl, rfl,
      ⟨hstarted.sublist.trans (List.sublist_append_left _ _), hstarted.ids, hstarted.nextId_eq,
        hstarted.activated, hstarted.others, ?_⟩⟩
    intro t ht
    rcases List.mem_append.mp ht with ht | ht
    · exact hstarted.started_iff t ht
    · rw [List.mem_singleton.mp ht, ← hrow]
      exact iff_of_false hfresh (not_not.mpr hscore)
  · rw [wp_bind, wp_set, wp_pure]
    have hold : ∀ t ∈ started, Function.update heap (detections.getD i 0)
        ((heap (detections.getD i 0)).activate p.frame nextId) t = heap t := by
      intro t ht
      apply Function.update_of_ne
      rintro rfl
      exact hfresh ht
    refine ⟨started ++ [detections.getD i 0], _, _, List.append_assoc .., rfl, ?_⟩
    refine ⟨hstarted.sublist.append (List.Sublist.refl _), ?_, ?_, ?_, ?_, ?_⟩
    · rw [List.map_append, List.map_singleton, List.length_append, List.length_singleton,
        List.range'_1_concat, ← hstarted.ids]
      congr 1
      · refine List.map_congr_left fun t ht => ?_
        rw [← hold t ht]
        rfl
      · rw [← hstarted.nextId_eq]
        exact congrArg (fun t : STrack F D => [t.trackId])
          (Function.update_self (detections.getD i 0) _ heap)
    · rw [List.length_append, List.length_singleton, ← Nat.add_assoc, ← hstarted.nextId_eq]
    · intro t ht
      rcases List.mem_append.mp ht with ht | ht
      · obtain ⟨id, hid⟩ := hstarted.activated t ht
        exact ⟨id, (hold t ht).trans hid⟩
      · rw [List.mem_singleton.mp ht]
        refine ⟨nextId, ?_⟩
        rw [← hrow]
        exact Function.update_self ..
    · intro k hk
      rw [List.mem_append, not_or] at hk
      rw [← hstarted.others k hk.1]
      exact Function.update_of_ne (by simpa using hk.2) _ _
    · intro t ht
      rcases List.mem_append.mp ht with ht | ht
      · have hne : t ≠ detections.getD i 0 := fun heq => hbefore (heq ▸ ht)
        rw [List.mem_append, List.mem_singleton, or_iff_left hne]
        exact hstarted.started_iff t ht
      · rw [List.mem_singleton.mp ht, ← hrow]
        exact iff_of_true (List.mem_append_right _ (List.mem_singleton_self _)) hscore

end ByteTracker

end EdgeClient.Tracking
