import EdgeClient.Basis.Runs
import EdgeClient.Tracking.FrameOutcome
import EdgeClient.Tracking.TrackerArithmetic

/-!
# Runs of the tracker

A tracker sees a sequence of updates and resets. Between two of them its invariant
holds, so each update has the outcome that one frame has, and over a run without a
reset identifiers only leave the lists or are new.
-/

namespace EdgeClient.Tracking.ByteTracker

open Basis Vision

variable {F D : Type} [FloatOps F] [FloatOps D]

/-- A call of the tracker. -/
inductive Call (F : Type) where
  /-- Process the detections of a frame. -/
  | update (input : List (FaceDetection F))
  /-- Forget all tracks. -/
  | reset

/-- A new tracker satisfies the invariant. -/
theorem invariant_create [LawfulTracker F D] {cfg : ByteTrackConfig F}
    (hbuffer : 0 ≤ cfg.trackBuffer) (hrate : 0 ≤ cfg.frameRate) :
    (create D cfg).Invariant :=
  ⟨.nil, nofun, nofun, nofun, nofun, nofun, nofun, nofun, nofun, le_rfl,
    LawfulTracker.buffer_nonneg (F := F) hrate hbuffer⟩

/-- A reset leaves no tracks, so the invariant holds after it. -/
theorem Impl.Invariant.reset {p : Impl F D} (hp : p.Invariant) : p.reset.Invariant :=
  ⟨.nil, nofun, nofun, nofun, nofun, nofun, nofun, nofun, nofun, le_rfl, hp.maxTimeLost_nonneg⟩

variable [FloatPair F D]

/-- The state after a call. -/
def Call.perform (fuel : ℕ) : Call F → Impl F D → Impl F D
  | .update input, p => finalState (ByteTracker.update fuel input p)
  | .reset, p => p.reset

/-- The call returns: the filter does not throw and the assignments end. -/
def Call.Completes (fuel : ℕ) : Call F → Impl F D → Prop
  | .update input, p => ∃ results q, ByteTracker.update fuel input p = .ok results q
  | .reset, _ => True

/-- Whether a call completes is found by running it. -/
instance (fuel : ℕ) (call : Call F) (p : Impl F D) : Decidable (call.Completes fuel p) :=
  match call with
  | .update input =>
    match h : ByteTracker.update fuel input p with
    | .ok results q => isTrue ⟨results, q, h⟩
    | .error _ _ => isFalse (by simp only [Call.Completes, h, reduceCtorEq, exists_false,
        not_false_eq_true])
  | .reset => isTrue trivial

/-- The call is not a reset. -/
def Call.KeepsTracks : Call F → Prop
  | .update _ => True
  | .reset => False

/-- The state after a run of a new tracker. -/
def afterCalls (D : Type) [FloatOps D] [FloatPair F D] (cfg : ByteTrackConfig F) (fuel : ℕ)
    (calls : List (Call F)) : Impl F D := runFrom (Call.perform fuel) (create D cfg) calls

/-- Every call of a run returns. -/
def AllComplete (D : Type) [FloatOps D] [FloatPair F D] (cfg : ByteTrackConfig F) (fuel : ℕ)
    (calls : List (Call F)) : Prop :=
  Throughout (Call.perform fuel) (Call.Completes fuel) (create D cfg) calls

/-- Whether a sequence of calls completes is found by running it. -/
instance (cfg : ByteTrackConfig F) (fuel : ℕ) (calls : List (Call F)) :
    Decidable (AllComplete D cfg fuel calls) :=
  inferInstanceAs (Decidable (Throughout (Call.perform fuel) (Call.Completes fuel) (create D cfg)
    calls))

/-! ## The invariant of a run -/

/-- What an update that returned did. -/
theorem outcome_of_update {fuel : ℕ} {input : List (FaceDetection F)} {p q : Impl F D}
    {results : List (TrackResult F)} (hp : p.Invariant)
    (hrun : update fuel input p = .ok results q) : Outcome p input q results := by
  have houtcome := wp_ok (wp_update_outcome fuel input hp) hrun
  exact houtcome

/-- The state after an update that returned. -/
theorem perform_update {fuel : ℕ} {input : List (FaceDetection F)} {p q : Impl F D}
    {results : List (TrackResult F)} (hrun : update fuel input p = .ok results q) :
    (Call.update input).perform fuel p = q := by
  rw [Call.perform, hrun]
  rfl

/-- Each call keeps the invariant: a frame by its outcome, a reset by leaving no tracks. -/
theorem Impl.Invariant.perform {fuel : ℕ} {call : Call F} {p : Impl F D} (hp : p.Invariant)
    (hcompletes : call.Completes fuel p) : (call.perform fuel p).Invariant := by
  cases call with
  | update input =>
    obtain ⟨results, q, hrun⟩ := hcompletes
    rw [perform_update hrun]
    exact (outcome_of_update hp hrun).invariant
  | reset => exact hp.reset

/-- The invariant holds after every run that started with it. -/
theorem Impl.Invariant.run {fuel : ℕ} {calls : List (Call F)} {p : Impl F D} (hp : p.Invariant)
    (hcomplete : Throughout (Call.perform fuel) (Call.Completes fuel) p calls) :
    (runFrom (Call.perform fuel) p calls).Invariant := by
  induction calls generalizing p with
  | nil => exact hp
  | cons call calls ih => exact ih (hp.perform hcomplete.1) hcomplete.2

/-- The invariant holds after every sequence of calls that complete. The induction is on the
calls, starting from the new tracker. -/
theorem invariant_afterCalls [LawfulTracker F D] {cfg : ByteTrackConfig F}
    (hbuffer : 0 ≤ cfg.trackBuffer) (hrate : 0 ≤ cfg.frameRate) {fuel : ℕ} {calls : List (Call F)}
    (hcomplete : AllComplete D cfg fuel calls) : (afterCalls D cfg fuel calls).Invariant :=
  (invariant_create hbuffer hrate).run hcomplete

/-- The buffer is fixed. No call writes to it. -/
theorem maxTimeLost_run {fuel : ℕ} {calls : List (Call F)} {p : Impl F D} (hp : p.Invariant)
    (hcomplete : Throughout (Call.perform fuel) (Call.Completes fuel) p calls) :
    (runFrom (Call.perform fuel) p calls).maxTimeLost = p.maxTimeLost := by
  induction calls generalizing p with
  | nil => rfl
  | cons call calls ih =>
    refine (ih (hp.perform hcomplete.1) hcomplete.2).trans ?_
    cases call with
    | update input =>
      obtain ⟨results, q, hrun⟩ := hcomplete.1
      simpa only [perform_update hrun] using (outcome_of_update hp hrun).maxTimeLost_eq
    | reset => rfl

/-! ## Identifiers over a run -/

/-- The identifiers of the live tracks. -/
def Impl.ids (p : Impl F D) : List ℕ := idsOf p.heap p.live

/-- An identifier that was given out, and that no live track has. -/
def Impl.Retired (p : Impl F D) (k : ℕ) : Prop := k < p.nextId ∧ k ∉ p.ids

/-- A retired identifier stays so. New tracks get identifiers from the counter on, and the retired
ones are below it. -/
theorem Outcome.retired {p q : Impl F D} {input : List (FaceDetection F)}
    {results : List (TrackResult F)} (h : Outcome p input q results) {k : ℕ} (hk : p.Retired k) :
    q.Retired k := by
  obtain ⟨hlt, hgone⟩ := hk
  refine ⟨hlt.trans_le h.nextId_le, fun hmem => ?_⟩
  obtain ⟨t, ht, rfl⟩ := List.mem_map.mp hmem
  by_cases hlive : t ∈ p.live
  · rw [h.kept t ht hlive] at hgone
    exact hgone (mem_idsOf hlive)
  · exact absurd hlt (not_lt.mpr (h.fresh t ht hlive))

/-- A retired identifier stays so over a run without a reset. Identifiers are only handed out
upwards, so that a track that ended does not come back. -/
theorem Impl.Retired.run {fuel : ℕ} {calls : List (Call F)} {p : Impl F D} {k : ℕ}
    (hk : p.Retired k) (hp : p.Invariant) (hkeeps : ∀ call ∈ calls, call.KeepsTracks)
    (hcomplete : Throughout (Call.perform fuel) (Call.Completes fuel) p calls) :
    (runFrom (Call.perform fuel) p calls).Retired k := by
  induction calls generalizing p with
  | nil => exact hk
  | cons call calls ih =>
    refine ih ?_ (hp.perform hcomplete.1) (fun c hc => hkeeps c (List.mem_cons_of_mem _ hc))
      hcomplete.2
    cases call with
    | update input =>
      obtain ⟨results, q, hrun⟩ := hcomplete.1
      simpa only [perform_update hrun] using (outcome_of_update hp hrun).retired hk
    | reset => exact (hkeeps _ List.mem_cons_self).elim

end EdgeClient.Tracking.ByteTracker
