import EdgeClient.Vision.Alignment

/-!
# Attendance policy and the quality gate

The thresholds and budgets of the attendance processor, the check that every
configuration passes before a processor exists, and the quality measure that
decides whether an observation may reach a face model.
-/

namespace EdgeClient.Vision

open Basis

variable {F : Type} [FloatOps F]

/-- Decision of the liveness model about one crop. -/
inductive LivenessDecision where
  /-- The score reached the threshold. -/
  | live
  /-- The score stayed below the threshold. -/
  | spoof
  /-- The crop was rejected before inference. -/
  | inputRejected
  deriving DecidableEq

/-- Policy of the liveness model. -/
structure LivenessConfig (F : Type) where
  /-- Smallest score that counts as live. -/
  liveThreshold : F

/-- Decide one score; only probabilities are accepted. -/
def classifyScore (score threshold : F) : Except String LivenessDecision :=
  if isFinite score = false ∨ score < lit 0 ∨ lit 1 < score ∨ isFinite threshold = false ∨
      threshold < lit 0 ∨ lit 1 < threshold then
    throw "Liveness score/threshold must be finite probabilities"
  else return if threshold ≤ score then .live else .spoof

/-- Policy of the attendance processor. Durations are in milliseconds. The fields and their
defaults are those of the source that the processor reads. -/
structure BiometricAttendanceConfig (F : Type) [FloatOps F] where
  /-- Liveness policy. -/
  pad : LivenessConfig F := ⟨lit 0.95⟩
  /-- Live votes needed to proceed. -/
  padBonaFideVotesRequired : ℕ := 2
  /-- Spoof votes needed to reject. -/
  padAttackVotesRequired : ℕ := 2
  /-- Most votes taken. -/
  padMaxAttempts : ℕ := 3
  /-- Frames between two liveness checks of a track. -/
  padEveryFrames : ℕ := 3
  /-- Smallest detector score. -/
  minDetectionScore : F := lit 0.5
  /-- Smallest face width in pixels. -/
  minFaceWidth : F := lit 64
  /-- Smallest face height in pixels. -/
  minFaceHeight : F := lit 64
  /-- Recognition attempts of the first round. -/
  recognitionMaxAttempts : ℕ := 3
  /-- Frames between two recognition attempts of a track. -/
  recognitionEveryFrames : ℕ := 3
  /-- Smallest similarity of a match; NaN until it is calibrated. -/
  recognitionSimilarityThreshold : F := lit 0 / lit 0
  /-- Reference of the calibration. -/
  calibrationId : String := ""
  /-- Development opt-in that replaces the calibration. -/
  allowUncalibratedThresholds : Bool := false
  /-- Largest alignment residual. -/
  maxAlignmentRmse : F := lit 8
  /-- Gain in quality that earns another attempt. -/
  retryQualityGain : F := lit 1.25
  /-- Attempts after the first round. -/
  recognitionExtraAttempts : ℕ := 1
  /-- Time before an identity may produce another event. -/
  eventCooldown : ℤ := 30000
  /-- Time for which liveness votes count. -/
  evidenceTtl : ℤ := 3000
  /-- Smallest margin over the second identity. -/
  recognitionMinMargin : F := lit 0
  /-- Frames after which the state of a missing track is dropped. -/
  maxMissingRuntimeFrames : ℕ := 45

/-- A configuration is checked before it is used. The conditions are tested in the order of the
source, in four groups with a message each. -/
def validateAttendanceConfig (c : BiometricAttendanceConfig F) : Except String Unit :=
  if isFinite c.recognitionSimilarityThreshold = false ∨
      c.recognitionSimilarityThreshold ≤ lit (-1) ∨
      lit 1 < c.recognitionSimilarityThreshold then
    throw "Set an explicit recognition threshold in (-1,1]"
  else if c.calibrationId = "" ∧ c.allowUncalibratedThresholds = false then
    throw "calibration_id required; development tools must explicitly opt in"
  else if isFinite c.recognitionMinMargin = false ∨ c.recognitionMinMargin < lit 0 ∨
      lit 2 < c.recognitionMinMargin ∨
      isFinite c.pad.liveThreshold = false ∨ c.pad.liveThreshold < lit 0 ∨
      lit 1 < c.pad.liveThreshold ∨
      isFinite c.minDetectionScore = false ∨ c.minDetectionScore < lit 0 ∨
      lit 1 < c.minDetectionScore ∨
      isFinite c.minFaceWidth = false ∨ isFinite c.minFaceHeight = false ∨
      c.minFaceWidth ≤ lit 0 ∨ c.minFaceHeight ≤ lit 0 ∨
      isFinite c.maxAlignmentRmse = false ∨ c.maxAlignmentRmse ≤ lit 0 ∨
      isFinite c.retryQualityGain = false ∨ c.retryQualityGain ≤ lit 1 then
    throw "Invalid biometric quality/threshold configuration"
  else if c.padBonaFideVotesRequired = 0 ∨ c.padAttackVotesRequired = 0 ∨ c.padMaxAttempts = 0 ∨
      c.padMaxAttempts < c.padBonaFideVotesRequired ∨ c.padMaxAttempts < c.padAttackVotesRequired ∨
      c.padEveryFrames = 0 ∨ c.recognitionEveryFrames = 0 ∨ c.recognitionMaxAttempts = 0 ∨
      c.maxMissingRuntimeFrames = 0 ∨ c.eventCooldown ≤ 0 ∨ c.evidenceTtl ≤ 0 then
    throw "Invalid biometric cadence/budget"
  else return ()

/-- The integer bounds that an accepted configuration satisfies. -/
structure BudgetsAccepted (c : BiometricAttendanceConfig F) : Prop where
  bonaFide_pos : 0 < c.padBonaFideVotesRequired
  attack_pos : 0 < c.padAttackVotesRequired
  bonaFide_le : c.padBonaFideVotesRequired ≤ c.padMaxAttempts
  attack_le : c.padAttackVotesRequired ≤ c.padMaxAttempts
  padEvery_pos : 0 < c.padEveryFrames
  recognitionEvery_pos : 0 < c.recognitionEveryFrames
  recognitionMax_pos : 0 < c.recognitionMaxAttempts
  maxMissing_pos : 0 < c.maxMissingRuntimeFrames
  cooldown_pos : 0 < c.eventCooldown
  ttl_pos : 0 < c.evidenceTtl

/-- An accepted configuration satisfies the integer bounds. They are what the counters of the
states rely on. -/
theorem budgetsAccepted_of_validate {c : BiometricAttendanceConfig F}
    (haccepted : validateAttendanceConfig c = .ok ()) : BudgetsAccepted c := by
  unfold validateAttendanceConfig at haccepted
  split at haccepted
  · cases haccepted
  · split at haccepted
    · cases haccepted
    · split at haccepted
      · cases haccepted
      · split at haccepted
        · cases haccepted
        · rename_i hbudget
          simp only [not_or, not_lt, not_le] at hbudget
          constructor <;> omega

/-- The smallest accepted faces have positive width and height. A face without extent has no
quality then. -/
theorem minFace_pos_of_validate [LawfulFloat F] {c : BiometricAttendanceConfig F}
    (haccepted : validateAttendanceConfig c = .ok ()) :
    lit 0 < c.minFaceWidth ∧ lit 0 < c.minFaceHeight := by
  unfold validateAttendanceConfig at haccepted
  split at haccepted
  · cases haccepted
  · split at haccepted
    · cases haccepted
    · split at haccepted
      · cases haccepted
      · rename_i hquality
        simp only [not_or, Bool.not_eq_false] at hquality
        obtain ⟨-, -, -, -, -, -, -, -, -, hwidth, hheight, hwpos, hhpos, -⟩ := hquality
        have hzero := LawfulFloat.le_refl_of_isFinite (LawfulFloat.isFinite_zero (F := F))
        exact ⟨LawfulFloat.lt_of_not_le (LawfulFloat.le_refl_of_isFinite hwidth) hzero hwpos,
          LawfulFloat.lt_of_not_le (LawfulFloat.le_refl_of_isFinite hheight) hzero hhpos⟩

section Quality

variable (D : Type) [FloatOps D] [FloatPair F D]

/-- Whether a landmark lies in the box enlarged by a quarter of its width and
height on each side. -/
def landmarkNearBox (o : FaceDetection F) (w h : F) (p : Point2f F) : Bool :=
  !(isFinite p.x = false ∨ isFinite p.y = false ∨ p.x < o.x1 - w * lit 0.25 ∨
    o.x2 + w * lit 0.25 < p.x ∨ p.y < o.y1 - h * lit 0.25 ∨ o.y2 + h * lit 0.25 < p.y)

/-- Quality of an observation; zero when it must not reach a face model. The reasons to return
zero are tested in the order of the source. -/
def quality (t : TrackResult F) (c : BiometricAttendanceConfig F) : F :=
  if t.hasObservation = false then lit 0
  else
    let o := t.observation
    let w := o.x2 - o.x1
    let h := o.y2 - o.y1
    if isFinite o.score = false ∨ lit 1 < o.score ∨ o.score < c.minDetectionScore ∨
        isFinite w = false ∨ isFinite h = false ∨ w < c.minFaceWidth ∨ h < c.minFaceHeight then
      lit 0
    else if (List.finRange 5).any fun i => !landmarkNearBox o w h (o.landmarks i) then lit 0
    else if hypot ((o.landmarks 1).x - (o.landmarks 0).x)
        ((o.landmarks 1).y - (o.landmarks 0).y) < lit 1 then lit 0
    else
      match estimateArcfaceTransform D o with
      | .error _ => lit 0
      | .ok a =>
        if isFinite a.rmse = false ∨ c.maxAlignmentRmse < a.rmse then lit 0
        else stdMin w h / (lit 1 + a.rmse)

/-- The quality is zero, or the box is large enough and the quality is its smaller
side divided by one plus the alignment residual. -/
theorem quality_eq_zero_or (t : TrackResult F) (c : BiometricAttendanceConfig F) :
    quality D t c = lit 0 ∨ ∃ rmse, isFinite rmse = true ∧
      isFinite (t.observation.x2 - t.observation.x1) = true ∧
      isFinite (t.observation.y2 - t.observation.y1) = true ∧
      ¬ t.observation.x2 - t.observation.x1 < c.minFaceWidth ∧
      ¬ t.observation.y2 - t.observation.y1 < c.minFaceHeight ∧
      quality D t c = stdMin (t.observation.x2 - t.observation.x1)
        (t.observation.y2 - t.observation.y1) / (lit 1 + rmse) := by
  unfold quality
  split
  · exact Or.inl rfl
  dsimp only
  split
  · exact Or.inl rfl
  rename_i hbox
  simp only [not_or, Bool.not_eq_false] at hbox
  obtain ⟨-, -, -, hwfin, hhfin, hw, hh⟩ := hbox
  split
  · exact Or.inl rfl
  split
  · exact Or.inl rfl
  split
  · exact Or.inl rfl
  split
  · exact Or.inl rfl
  rename_i hrmse
  simp only [not_or, Bool.not_eq_false] at hrmse
  exact Or.inr ⟨_, hrmse.1, hwfin, hhfin, hw, hh, rfl⟩

/-- Under an accepted configuration the quality is never NaN, so a quality that is
not at most zero is positive. -/
theorem quality_pos [LawfulFloat F] {t : TrackResult F} {c : BiometricAttendanceConfig F}
    (haccepted : validateAttendanceConfig c = .ok ()) (hq : ¬ quality D t c ≤ lit 0) :
    lit 0 < quality D t c := by
  have hzero := LawfulFloat.le_refl_of_isFinite (LawfulFloat.isFinite_zero (F := F))
  refine LawfulFloat.lt_of_not_le ?_ hzero hq
  rcases quality_eq_zero_or (D := D) t c with hzero' | ⟨rmse, hrmse, hwfin, hhfin, hw, hh, heq⟩
  · exact absurd (hzero'.symm ▸ hzero) hq
  obtain ⟨hminw, hminh⟩ := minFace_pos_of_validate haccepted
  have hwpos := LawfulFloat.lt_of_lt_of_not_lt hminw (LawfulFloat.le_refl_of_isFinite hwfin) hw
  have hhpos := LawfulFloat.lt_of_lt_of_not_lt hminh (LawfulFloat.le_refl_of_isFinite hhfin) hh
  have hdenominator := LawfulFloat.add_not_nan LawfulFloat.isFinite_one hrmse
  rw [heq]
  rcases stdMin_eq_or (t.observation.x2 - t.observation.x1)
    (t.observation.y2 - t.observation.y1) with hmin | hmin
  · rw [hmin]
    exact LawfulFloat.div_not_nan hwfin hwpos hdenominator
  · rw [hmin]
    exact LawfulFloat.div_not_nan hhfin hhpos hdenominator

end Quality

end EdgeClient.Vision
