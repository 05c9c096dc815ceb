import EdgeClient.Tracking.CoupledCovariance

/-!
# Runs of the filter

The covariance of a track is symmetric and positive definite after every sequence of
predictions and corrections that return, so the inverse of the next correction is exact and the
loop that makes the covariance symmetric changes nothing.
-/

namespace EdgeClient.Tracking.KalmanFilter

open Basis Basis.Extended Matrix

/-- A positive definite matrix of reals is symmetric. -/
theorem isSymm_of_posDef {n : ℕ} {P : Matrix (Fin n) (Fin n) ℝ} (hP : P.PosDef) : P.IsSymm := by
  have hhermitian := hP.isHermitian
  rwa [Matrix.IsHermitian, Matrix.conjTranspose_eq_transpose_of_trivial] at hhermitian

/-- Independent noise with positive deviations. -/
theorem posDef_noise {n : ℕ} {deviation : Fin n → ℝ} (h : ∀ i, 0 < deviation i) :
    (noise deviation).PosDef := by
  apply Matrix.PosDef.diagonal
  intro i
  exact mul_pos (h i) (h i)

/-- A prediction loses nothing. The transition is triangular with ones on the diagonal. -/
theorem isUnit_transitionMatrix : IsUnit (transitionMatrix : Matrix (Fin 8) (Fin 8) ℝ) := by
  rw [Matrix.isUnit_iff_isUnit_det]
  have htriangular : (transitionMatrix : Matrix (Fin 8) (Fin 8) ℝ).BlockTriangular id := by
    intro r c hlt
    have hlt' : c < r := hlt
    have hne : ¬ (r = c ∨ c.val = r.val + 4) := by omega
    simp [transitionMatrix, hne]
  rw [Matrix.det_of_isUpperTriangular htriangular]
  simp [transitionMatrix]

/-- A call of the filter; the mean may have been altered since the last one. -/
inductive FilterCall
  /-- `predict` from this mean. -/
  | predict (mean : Fin 8 → ℝ)
  /-- `update` of this mean by this measurement. -/
  | update (mean : Fin 8 → ℝ) (measurement : Fin 4 → ℝ)

/-- The state after a call. -/
noncomputable def FilterCall.perform (s : KalmanState (Extended ℝ)) :
    FilterCall → Except String (KalmanState (Extended ℝ))
  | .predict mean => return KalmanFilter.predict (exactVector mean) s.covariance
  | .update mean measurement =>
    KalmanFilter.update (exactVector mean) s.covariance (exactVector measurement)

/-- The covariance of a state is symmetric and positive definite. -/
def ValidCovariance (s : KalmanState (Extended ℝ)) : Prop :=
  ∃ P : Matrix (Fin 8) (Fin 8) ℝ, s.covariance = exactMatrix P ∧ P.PosDef

/-- A first estimate is uncertain about every component. -/
theorem posDef_initialCovariance (z : Fin 4 → ℝ) : (initialCovariance z).PosDef :=
  posDef_noise (initialDeviation_pos (z 3))

/-- A call that returns keeps the covariance valid. A prediction keeps it because the transition
can be inverted, and an update because the noise is positive. -/
theorem ValidCovariance.perform {s s' : KalmanState (Extended ℝ)} (h : ValidCovariance s)
    {call : FilterCall} (hrun : call.perform s = .ok s') : ValidCovariance s' := by
  obtain ⟨P, hcovariance, hP⟩ := h
  cases call with
  | predict mean =>
    cases hrun
    refine ⟨predictedCovariance mean P, ?_, ?_⟩
    · rw [hcovariance, predict_exact]
      rfl
    · exact posDef_predicted hP isUnit_transitionMatrix
        (posDef_noise (processDeviation_pos (mean 3))).posSemidef
  | update mean measurement =>
    simp only [FilterCall.perform, hcovariance] at hrun
    obtain ⟨-, -, rfl, -⟩ := update_exact (isSymm_of_posDef hP) hrun
    exact ⟨_, rfl, posDef_posteriorCovariance hP (posDef_noise (measurementDeviation_pos (mean 3)))⟩

/-- After any calls that return, the covariance is symmetric and positive definite, and the next
correction is the standard one: the inverse is exact, and the last loop changes nothing. -/
theorem covariance_valid {z : Fin 4 → ℝ} {calls : List FilterCall} {s : KalmanState (Extended ℝ)}
    (h : calls.foldlM FilterCall.perform (initiate (exactVector z)) = .ok s) :
    ∃ P : Matrix (Fin 8) (Fin 8) ℝ, s.covariance = exactMatrix P ∧ P.PosDef ∧
      ∀ m z' s', update (exactVector m) s.covariance (exactVector z') = .ok s' →
        let S := innovationCovariance P measurementMatrix (measurementNoise m)
        IsUnit S ∧ invert4 (exactMatrix S) = .ok (exactMatrix S⁻¹) ∧
          s' = exactState
            (m + gainMatrix P measurementMatrix (measurementNoise m) *ᵥ
              (z' - measurementMatrix *ᵥ m))
            (posteriorCovariance P measurementMatrix (measurementNoise m)) ∧
          s'.covariance = corrected (exactMatrix P) (exactMatrix S⁻¹) := by
  have hstart : ValidCovariance (initiate (exactVector z)) := by
    rw [initiate_exact]
    exact ⟨_, rfl, posDef_initialCovariance z⟩
  have hvalid : ValidCovariance s :=
    foldlM_ok (fun _ s => ValidCovariance s) hstart
      (fun _ _ _ _ _ _ hvalid hrun => hvalid.perform hrun) h
  obtain ⟨P, hcovariance, hP⟩ := hvalid
  refine ⟨P, hcovariance, hP, fun m z' s' hupdate => ?_⟩
  rw [hcovariance] at hupdate
  exact update_exact (isSymm_of_posDef hP) hupdate

/-! ## A box that is followed -/

/-- The mean of a box of height 100. -/
def tallMean : Fin 8 → ℝ := ![50, 50, 1, 100, 0, 0, 0, 0]

/-- The box. -/
def tallBox : Fin 4 → ℝ := ![50, 50, 1, 100]

/-- The box is predicted and seen, twice. -/
def tallCalls : List FilterCall :=
  [.predict tallMean, .update tallMean tallBox, .predict tallMean, .update tallMean tallBox]

/-- A correction of a box of this height returns: the noise of the measurement alone is above
the limit for pivots. -/
theorem tall_update_returns {P : Matrix (Fin 8) (Fin 8) ℝ} (h : Coupled P) :
    ∃ s', update (exactVector tallMean) (exactMatrix P) (exactVector tallBox) = .ok s' := by
  refine (update_returns_iff_variances h).mpr fun i => ?_
  have hheight : noiseHeight (tallMean 3) = 100 := by
    change max 1e-6 100 = (100 : ℝ)
    norm_num
  have hnoise : 1e-1 ≤ measurementDeviation (noiseHeight (tallMean 3)) i := by
    rw [hheight]
    fin_cases i <;> norm_num [measurementDeviation]
  have hposition := h.position i
  unfold projectedVariance
  nlinarith

/-- Every call for the box returns and leaves a coupled covariance. Both kinds of calls keep the
coupling, and the update finds pivots that are large enough. -/
theorem tall_perform {call : FilterCall} (hcall : call ∈ tallCalls)
    {s : KalmanState (Extended ℝ)} (h : ∃ m P, s = exactState m P ∧ Coupled P) :
    ∃ s', call.perform s = .ok s' ∧ ∃ m P, s' = exactState m P ∧ Coupled P := by
  obtain ⟨m, P, rfl, hP⟩ := h
  have hkinds : call = .predict tallMean ∨ call = .update tallMean tallBox := by
    simpa [tallCalls, or_assoc, or_comm, or_left_comm] using hcall
  rcases hkinds with rfl | rfl
  · exact ⟨_, rfl, _, _, predict_exact tallMean P, hP.predicted⟩
  · obtain ⟨s', hs'⟩ := tall_update_returns hP
    exact ⟨s', hs', hP.update hs'⟩

/-- The calls for the box return. By induction on the calls, with the coupling as the
invariant. -/
theorem tall_returns {calls : List FilterCall} (hcalls : ∀ call ∈ calls, call ∈ tallCalls)
    {s : KalmanState (Extended ℝ)} (h : ∃ m P, s = exactState m P ∧ Coupled P) :
    ∃ s', calls.foldlM FilterCall.perform s = .ok s' ∧ ∃ m P, s' = exactState m P ∧ Coupled P := by
  induction calls generalizing s with
  | nil => exact ⟨s, rfl, h⟩
  | cons call calls ih =>
    obtain ⟨next, hnext, hcoupled⟩ := tall_perform (hcalls call List.mem_cons_self) h
    obtain ⟨s', hs', hend⟩ := ih (fun c hc => hcalls c (List.mem_cons_of_mem _ hc)) hcoupled
    exact ⟨s', by rw [List.foldlM_cons, hnext]; exact hs', hend⟩

/-- The covariance after the box was predicted and seen twice, and the next correction. The box is
tall enough for every inversion. -/
theorem covariance_valid_sample :
    ∃ s s' P, tallCalls.foldlM FilterCall.perform (initiate (exactVector tallBox)) = .ok s ∧
      s.covariance = exactMatrix P ∧ P.PosDef ∧
      update (exactVector tallMean) s.covariance (exactVector tallBox) = .ok s' ∧
      s'.covariance =
        exactMatrix (posteriorCovariance P measurementMatrix (measurementNoise tallMean)) := by
  obtain ⟨s, hs, m, Q, hstate, hcoupled⟩ := tall_returns (fun _ hcall => hcall)
    ⟨_, _, initiate_exact tallBox, coupled_initialCovariance tallBox⟩
  obtain ⟨P, hcovariance, hP, hnext⟩ := covariance_valid hs
  have hreturns :
      ∃ s', update (exactVector tallMean) s.covariance (exactVector tallBox) = .ok s' := by
    rw [hstate]
    exact tall_update_returns hcoupled
  obtain ⟨s', hs'⟩ := hreturns
  obtain ⟨-, -, hposterior, -⟩ := hnext tallMean tallBox s' hs'
  exact ⟨s, s', P, hs, hcovariance, hP, hs', congrArg (·.covariance) hposterior⟩

end EdgeClient.Tracking.KalmanFilter
