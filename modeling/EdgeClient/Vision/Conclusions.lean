import EdgeClient.Vision.FrameSemantics

/-!
# Concluded tracks

A frame marks the state of each of its tracks as seen. The liveness votes against a
track and the end of its recognition attempts are conclusions: as long as the state
is kept, no frame changes them and no crop of the track goes to a model.
-/

namespace EdgeClient.Vision.AttendanceProcessor

open Basis

variable {F D : Type} [FloatOps F] [FloatOps D] [FloatPair F D]
  {c : BiometricAttendanceConfig F} {now : ℤ} {tick : ℕ} {f : FaceTrackingFrame F}
  {evaluate : BiometricEvaluators F} {utcMs : ℕ → ℤ} {p₁ q : Impl F D}
  {padEntries : List (TrackResult F × LivenessResult F)} {checked : ℕ → State F D}
  {arcEntries : List (TrackResult F × ArcFaceResult F)} {frame : BiometricAttendanceFrame F}

/-- The conclusions that do not end with the cooldown. -/
def lasting (phase : BiometricTrackPhase) : Bool :=
  phase = .rejectedAttack ∨ phase = .unknownIdentity

/-- A lasting conclusion ends the evaluation, and it is no match. -/
theorem concluded_of_lasting {phase : BiometricTrackPhase} (hlasting : lasting phase = true) :
    concluded phase = true ∧ matched phase = false ∧ phase ≠ .recognizing := by
  cases phase <;> simp_all [lasting, concluded, matched]

/-! ### The last frame of a track -/

/-- Scheduling marks the track as seen. The mark is set first, and no later part of the scheduling
touches it. -/
theorem seen_schedule {n : ℕ} {t : TrackResult F} {s : State F D} :
    (schedule c n tick now t s).1.seen = tick := by
  have hterminal : (expireTerminal c tick now { s with seen := tick }).seen = tick := by
    unfold expireTerminal
    split <;> rfl
  have hevidence : ∀ s : State F D, (expireEvidence c now s).seen = s.seen := by
    intro s
    unfold expireEvidence
    split <;> rfl
  have hreopen : ∀ s : State F D, (reopenDeferred s).seen = s.seen := by
    intro s
    unfold reopenDeferred
    split <;> rfl
  unfold schedule
  dsimp only
  split
  · exact hterminal
  · split
    · simp only [hevidence, hterminal]
    · split
      · simp only [hevidence, hterminal]
      · split <;> simp only [hreopen, hevidence, hterminal]

omit [FloatPair F D] in
/-- A liveness result leaves the mark. Only the scheduling writes to it. -/
theorem seen_recordPad {t : TrackResult F} {r : LivenessResult F} {s s' : State F D}
    (hrun : recordPad c tick now t r s = .ok () s') : s'.seen = s.seen := by
  have hwp : wp (recordPad c tick now t r) (fun _ s' => s'.seen = s.seen) (fun _ => True) s := by
    unfold recordPad
    rw [wp_bind, wp_modify, wp_ite]
    refine ⟨fun _ => ?_, fun _ => ?_⟩
    · rw [wp_ite]
      exact ⟨fun _ => trivial, fun _ => rfl⟩
    · cases r.liveScore with
      | none => trivial
      | some score =>
        dsimp only
        cases classifyScore score c.pad.liveThreshold with
        | error e => trivial
        | ok decision => exact rfl
  have hseen := wp_ok hwp hrun
  exact hseen

/-- A recognition result leaves the mark. -/
theorem RecognizedAs.seen_eq {gallery : GalleryMatcher F} {r : ArcFaceResult F} {known : Bool}
    {s s' : State F D} (hrecognized : RecognizedAs c gallery tick now r known s s') :
    s'.seen = s.seen := by
  obtain ⟨m, gallery', -, rfl⟩ := hrecognized
  obtain ⟨phase, terminal, heq⟩ :=
    conclude_eq c now known { accumulate tick r s with «match» := m }
  rw [heq]
  rfl

namespace FrameRun

variable (hrun : FrameRun evaluate utcMs f now p₁ padEntries checked arcEntries frame q)
include hrun

/-- The tracks of the frame are marked as seen. No later stage of the frame takes the mark
back. -/
theorem seen_eq {t : TrackResult F} (ht : t ∈ f.tracks) :
    HasState q t.trackId (·.seen = p₁.tick) := by
  have hscheduled : (scheduled p₁ now t).1.seen = p₁.tick := seen_schedule
  have hchecked : (checked t.trackId).seen = p₁.tick := by
    have heq := hrun.checked_eq t ht
    split at heq
    · obtain ⟨r, -, hrecord⟩ := heq
      exact (seen_recordPad hrecord).trans hscheduled
    · rw [heq, hscheduled]
  obtain ⟨s, hs, hstate⟩ := hrun.states t ht
  refine ⟨s, hs, ?_⟩
  split at hstate
  · obtain ⟨r, known, -, hrecognized⟩ := hstate
    exact hrecognized.seen_eq.trans hchecked
  · rw [hstate, hchecked]

/-! ### Conclusions -/

/-- A lasting conclusion stays. The track is skipped by both stages, since it is concluded. -/
theorem lasting_kept {t : TrackResult F} {s : State F D} (ht : t ∈ f.tracks)
    (hs : p₁.states t.trackId = some s) (hlasting : lasting s.phase = true) :
    (scheduled p₁ now t).2 = false ∧
      wantsRecognition p₁.cfg p₁.tick t (checked t.trackId) = false ∧
      HasState q t.trackId (·.phase = s.phase) := by
  obtain ⟨hconcluded, hmatched, hphase⟩ := concluded_of_lasting hlasting
  have hscheduled : scheduled p₁ now t = ({ s with seen := p₁.tick }, false) := by
    have hterminal : expireTerminal p₁.cfg p₁.tick now { s with seen := p₁.tick } =
        { s with seen := p₁.tick } := by
      simp [expireTerminal, hmatched]
    simp [scheduled, schedule, Impl.stateOf_eq hs, hterminal, hconcluded]
  have hcrop : (scheduled p₁ now t).2 = false := by rw [hscheduled]
  have hchecked : checked t.trackId = { s with seen := p₁.tick } := by
    have heq := hrun.checked_eq t ht
    simpa only [hcrop, Bool.false_eq_true, if_false, hscheduled] using heq
  have hwants : wantsRecognition p₁.cfg p₁.tick t (checked t.trackId) = false := by
    simp [wantsRecognition, hchecked, hphase]
  refine ⟨hcrop, hwants, ?_⟩
  obtain ⟨s', hs', hstate⟩ := hrun.states t ht
  simp only [hwants, Bool.false_eq_true, if_false] at hstate
  exact ⟨s', hs', by rw [hstate, hchecked]⟩

/-- No crop of such a track goes to a model. A crop of the track would have been scheduled or
wanted. -/
theorem lasting_not_handed {k : ℕ} {s : State F D} (hs : p₁.states k = some s)
    (hlasting : lasting s.phase = true)
    {t : TrackResult F} {s' : State F D}
    (hhanded : .pad t s' ∈ q.evaluations ∨ .recognize t s' ∈ q.evaluations) : t.trackId ≠ k := by
  rintro rfl
  rcases hhanded with hpad | hrecognize
  · obtain ⟨ht, hcrop⟩ := hrun.handed_pad t s' hpad
    rw [(hrun.lasting_kept ht hs hlasting).1] at hcrop
    cases hcrop
  · obtain ⟨ht, hwants⟩ := (hrun.handed_recognize t).mp ⟨s', hrecognize⟩
    rw [(hrun.lasting_kept ht hs hlasting).2.1] at hwants
    cases hwants

/-- Only tracks of the frame are handed to the models. -/
theorem handed_mem {t : TrackResult F} {s : State F D}
    (hhanded : .pad t s ∈ q.evaluations ∨ .recognize t s ∈ q.evaluations) : t ∈ f.tracks := by
  rcases hhanded with hpad | hrecognize
  · exact (hrun.handed_pad t s hpad).1
  · exact ((hrun.handed_recognize t).mp ⟨s, hrecognize⟩).1

end FrameRun

end EdgeClient.Vision.AttendanceProcessor
