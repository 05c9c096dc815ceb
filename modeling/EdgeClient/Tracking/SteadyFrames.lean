import EdgeClient.Tracking.CoupledCovariance
import EdgeClient.Tracking.DetectionFates
import EdgeClient.Tracking.OptimalMatching

/-!
# Frames without exceptions

In exact arithmetic the loops of a frame end and its cost matrices have the right sizes, so
the only exception is that of a filter whose variances are too small to be inverted. The
noise of a filter grows with the height of its track: no filter of a track fails that is
at least `2e-5` high when it meets its detection.
-/

namespace EdgeClient.Tracking

open Basis Basis.Extended Vision KalmanFilter

variable {K : Type} [Field K] [LinearOrder K] [IsStrictOrderedRing K] [RootOps K]

/-! ## One filter -/

/-- The message of the only exception. -/
def singularMessage : String := "ByteTrack Kalman projected covariance singular"

/-- A filter fails in the inversion only. All its other operations are total. -/
theorem update_error {D : Type} [FloatOps D] {mean : Mean D} {covariance : Covariance D}
    {measurement : Measurement D} {e : String}
    (h : KalmanFilter.update mean covariance measurement = .error e) : e = singularMessage := by
  unfold KalmanFilter.update at h
  rcases bind_eq_error.mp h with hinvert | ⟨inv, -, hreturn⟩
  · unfold invert4 at hinvert
    rcases bind_eq_error.mp hinvert with hloop | ⟨aug, -, hreturn⟩
    · refine foldlM_error (P := (· = singularMessage)) (fun aug col e he => ?_) hloop
      dsimp only at he
      split at he
      · cases he
        rfl
      · cases he
    · cases hreturn
  · cases hreturn

omit [RootOps K] in
/-- The variances are large enough for a track of this height. -/
theorem variance_of_height {m : Fin 8 → K} {P : Matrix (Fin 8) (Fin 8) K} (h : Coupled P)
    (hheight : 2e-5 ≤ m 3) (i : Fin 4) : 1e-12 ≤ projectedVariance m P i := by
  have hposition := h.position i
  have hnoise : 2e-5 ≤ noiseHeight (m 3) := hheight.trans (le_max_right _ _)
  have hdeviation : 1e-6 ≤ measurementDeviation (noiseHeight (m 3)) i := by
    fin_cases i <;> simp [measurementDeviation] <;> linarith
  unfold projectedVariance
  nlinarith

/-- The estimate of an object consists of numbers, and its covariance is coupled. -/
structure STrack.Estimated (t : STrack (Extended K) (Extended K)) : Prop where
  initial : ∃ b : Fin 4 → K, t.tlwhInitial = exactVector b
  estimate : ∃ m P, t.mean = exactVector m ∧ t.covariance = exactMatrix P ∧ Coupled P

/-- The box of a detection consists of numbers. -/
def HasBox (d : FaceDetection (Extended K)) : Prop :=
  ∃ b : Fin 4 → K, STrack.tlbrToTlwh d = exactVector b

namespace STrack.Estimated

variable {t det : STrack (Extended K) (Extended K)}

omit [IsStrictOrderedRing K] [RootOps K] in
/-- The zero covariance couples nothing. A track that was never activated has it. -/
theorem coupled_zero : Coupled (0 : Matrix (Fin 8) (Fin 8) K) where
  symm := Matrix.transpose_zero
  apart _ _ _ := ⟨rfl, rfl, rfl⟩
  position _ := le_rfl
  speed _ := le_rfl
  bound _ := by simp

omit [IsStrictOrderedRing K] in
/-- The mean of a track that was never activated is a vector of numbers. -/
theorem mean_zero : (fun _ => lit 0 : Mean (Extended K)) = exactVector fun _ => 0 := by
  funext i
  rw [lit_def, Rat.cast_zero]
  rfl

omit [IsStrictOrderedRing K] in
/-- The covariance of a track that was never activated is a matrix of numbers. -/
theorem covariance_zero : (fun _ _ => lit 0 : Covariance (Extended K)) =
    exactMatrix (0 : Matrix (Fin 8) (Fin 8) K) := by
  funext r c
  rw [lit_def, Rat.cast_zero]
  rfl

omit [IsStrictOrderedRing K] in
/-- An object that is not in use. -/
theorem unused : (STrack.unused : STrack (Extended K) (Extended K)).Estimated where
  initial := ⟨fun _ => 0, funext fun _ => by rw [STrack.unused, lit_def, Rat.cast_zero]; rfl⟩
  estimate := ⟨_, _, mean_zero, covariance_zero, coupled_zero⟩

omit [IsStrictOrderedRing K] in
/-- An object of a detection. -/
theorem ofDetection {d : FaceDetection (Extended K)} (hbox : HasBox d) (position : ℕ) :
    (STrack.ofDetection position d : STrack (Extended K) (Extended K)).Estimated where
  initial := hbox
  estimate := ⟨_, _, mean_zero, covariance_zero, coupled_zero⟩

/-- A prediction leaves numbers, and a coupled covariance. A lost track is predicted without the
speed of its height. -/
theorem predict (h : t.Estimated) : t.predict.Estimated := by
  obtain ⟨m, P, hmean, hcovariance, hcoupled⟩ := h.estimate
  unfold STrack.predict
  split
  · exact h
  · refine ⟨h.initial, ?_⟩
    dsimp only
    obtain ⟨m', hm'⟩ : ∃ m' : Fin 8 → K,
        (if t.state ≠ .tracked then Function.update t.mean 7 (lit 0) else t.mean) =
          exactVector m' := by
      split
      · refine ⟨Function.update m 7 0, ?_⟩
        funext i
        by_cases hi : i = 7
        · rw [hi, exactVector, Function.update_self, Function.update_self, lit_def, Rat.cast_zero]
        · rw [exactVector, Function.update_of_ne hi, Function.update_of_ne hi, hmean]
          rfl
      · exact ⟨m, hmean⟩
    rw [hm', hcovariance, predict_exact]
    exact ⟨_, _, rfl, rfl, hcoupled.predicted⟩

omit [IsStrictOrderedRing K] in
/-- The current box consists of numbers. Before the first estimate it is the box of the detection,
and afterwards it is computed from the mean. -/
theorem tlwh (h : t.Estimated) : ∃ b : Fin 4 → K, t.tlwh = exactVector b := by
  obtain ⟨m, P, hmean, -⟩ := h.estimate
  unfold STrack.tlwh
  split
  · exact h.initial
  · refine ⟨![m 0 - m 2 * m 3 * ((0.5 : ℚ) : K), m 1 - m 3 * ((0.5 : ℚ) : K), m 2 * m 3, m 3], ?_⟩
    rw [hmean]
    funext i
    fin_cases i <;> simp [exactVector, lit_def]

/-- A box as a measurement consists of numbers. The height is bounded below before the ratio is
taken. -/
theorem exists_xyah (b : Fin 4 → K) : ∃ z : Fin 4 → K,
    (STrack.tlwhToXyah (exactVector b) : Measurement (Extended K)) = exactVector z := by
  obtain ⟨h, hh⟩ : ∃ h : K, h = max ((1e-6 : ℚ) : K) (b 3) := ⟨_, rfl⟩
  have hpos : h ≠ 0 := by
    have hsmall : (0 : K) < ((1e-6 : ℚ) : K) := by norm_num
    exact (hh ▸ lt_max_of_lt_left hsmall : 0 < h).ne'
  have hheight : stdMax (lit 1e-6) (exactVector b 3) = (fin h : Extended K) := by
    rw [hh, lit_def]
    exact stdMax_fin _ _
  refine ⟨![b 0 + b 2 * ((0.5 : ℚ) : K), b 1 + b 3 * ((0.5 : ℚ) : K), b 2 / h, h], ?_⟩
  unfold STrack.tlwhToXyah
  rw [hheight]
  funext i
  fin_cases i <;> simp [exactVector, lit_def, fin_div _ hpos]

/-- The measurement taken from the box of an estimated track is a vector of numbers. -/
theorem xyah (h : t.Estimated) : ∃ z : Fin 4 → K, t.xyah = exactVector z := by
  obtain ⟨b, hb⟩ := h.tlwh
  unfold STrack.xyah
  rw [hb]
  exact exists_xyah b

/-- A new track. -/
theorem activate (h : t.Estimated) (frame : ℤ) (id : ℕ) : (t.activate frame id).Estimated := by
  obtain ⟨b, hb⟩ := h.initial
  obtain ⟨z, hz⟩ := exists_xyah b
  refine ⟨h.initial, ?_⟩
  unfold STrack.activate
  dsimp only
  rw [hb, hz, initiate_exact]
  exact ⟨_, _, rfl, rfl, coupled_initialCovariance z⟩

/-- A correction that returns leaves numbers. Nothing is said of an inversion that throws. -/
theorem correct (h : t.Estimated) (hdet : det.Estimated) :
    wp (STrack.correct det) (fun _ new => new.Estimated) (fun _ => True) t := by
  obtain ⟨m, P, hmean, hcovariance, hcoupled⟩ := h.estimate
  obtain ⟨z, hz⟩ := hdet.xyah
  unfold STrack.correct
  rw [wp_bind, wp_get, hmean, hcovariance, hz]
  cases hrun : KalmanFilter.update (exactVector m) (exactMatrix P) (exactVector z) with
  | error e => trivial
  | ok state =>
    obtain ⟨m', P', rfl, hcoupled'⟩ := hcoupled.update hrun
    exact ⟨h.initial, m', P', rfl, rfl, hcoupled'⟩

/-- The filter of a track with sufficient height does not fail. The projected covariance is
diagonal, and its entries are bounded below by the noise of that height. -/
theorem avoids_correct {bad : String → Prop} (h : t.Estimated) (hdet : det.Estimated)
    (hheight : bad singularMessage → lit 2e-5 ≤ t.mean 3) : Avoids bad (STrack.correct det) t := by
  obtain ⟨m, P, hmean, hcovariance, hcoupled⟩ := h.estimate
  obtain ⟨z, hz⟩ := hdet.xyah
  unfold STrack.correct
  refine avoids_bind (avoids_of_total (by simp)) fun t' s' hget => ?_
  cases hget
  cases hfilter : KalmanFilter.update t.mean t.covariance det.xyah with
  | ok state => exact avoids_of_total (by simp)
  | error e =>
    refine avoids_throw fun hbad => ?_
    obtain rfl := update_error hfilter
    have htall : 2e-5 ≤ m 3 := by
      have hle := hheight hbad
      rw [hmean, lit_def] at hle
      have hle : ((2e-5 : ℚ) : K) ≤ m 3 := fin_le.mp hle
      norm_num at hle ⊢
      exact hle
    obtain ⟨s', hs'⟩ := (update_returns_iff_variances hcoupled (z := z)).mpr
      (variance_of_height hcoupled htall)
    rw [hmean, hcovariance, hz, hs'] at hfilter
    cases hfilter

end STrack.Estimated

/-! ## Objects of the tracker -/

namespace STrack

variable {t det : STrack (Extended K) (Extended K)} {frame : ℤ} {bad : String → Prop}

/-- An update with an estimated detection leaves the track estimated, if it returns. Counting the
frame does not concern the estimate. -/
theorem Estimated.wp_update (h : t.Estimated) (hdet : det.Estimated) :
    wp (STrack.update det frame) (fun _ new => new.Estimated) (fun _ => True) t := by
  have hcounted : ({ t with frameId := frame, trackletLen := t.trackletLen + 1 } :
      STrack (Extended K) (Extended K)).Estimated := ⟨h.initial, h.estimate⟩
  unfold STrack.update
  rw [wp_bind, wp_modify, wp_bind]
  refine wp_mono (hcounted.correct hdet) (fun _ new hnew => ?_) fun _ => id
  rw [wp_modify]
  exact ⟨hnew.initial, hnew.estimate⟩

/-- Finding a lost track again leaves it estimated, if the call returns. -/
theorem Estimated.wp_reActivate (h : t.Estimated) (hdet : det.Estimated) :
    wp (STrack.reActivate det frame) (fun _ new => new.Estimated) (fun _ => True) t := by
  unfold STrack.reActivate
  rw [wp_bind]
  refine wp_mono (h.correct hdet) (fun _ new hnew => ?_) fun _ => id
  rw [wp_modify]
  exact ⟨hnew.initial, hnew.estimate⟩

/-- An update throws only when the projected covariance cannot be inverted, and then the track is
low. The hypothesis asks for the height only where that failure is to be excluded. -/
theorem Estimated.avoids_update (h : t.Estimated) (hdet : det.Estimated)
    (hheight : bad singularMessage → lit 2e-5 ≤ t.mean 3) :
    Avoids bad (STrack.update det frame) t := by
  have hcounted : ({ t with frameId := frame, trackletLen := t.trackletLen + 1 } :
      STrack (Extended K) (Extended K)).Estimated := ⟨h.initial, h.estimate⟩
  unfold STrack.update
  refine avoids_bind (avoids_of_total (by simp)) fun _ t' hcount => ?_
  cases hcount
  exact avoids_bind (hcounted.avoids_correct hdet hheight) fun _ _ _ => avoids_of_total (by simp)

/-- Finding a lost track again throws under the same condition as an update. -/
theorem Estimated.avoids_reActivate (h : t.Estimated) (hdet : det.Estimated)
    (hheight : bad singularMessage → lit 2e-5 ≤ t.mean 3) :
    Avoids bad (STrack.reActivate det frame) t := by
  unfold STrack.reActivate
  exact avoids_bind (h.avoids_correct hdet hheight) fun _ _ _ => avoids_of_total (by simp)

end STrack

namespace ByteTracker

/-- All objects have estimates. -/
def Estimates (heap : ℕ → STrack (Extended K) (Extended K)) : Prop := ∀ k, (heap k).Estimated

variable {p : Impl (Extended K) (Extended K)} {heap : ℕ → STrack (Extended K) (Extended K)}
  {tracks detections : List ℕ} {pairs : List Match}

omit [IsStrictOrderedRing K] [RootOps K] in
/-- Replacing one track by an estimated one keeps all tracks estimated. -/
theorem Estimates.update (h : Estimates heap) {k : ℕ} {t : STrack (Extended K) (Extended K)}
    (ht : t.Estimated) : Estimates (Function.update heap k t) := by
  intro k'
  by_cases hk : k' = k
  · rw [hk, Function.update_self]
    exact ht
  · rw [Function.update_of_ne hk]
    exact h k'

omit [IsStrictOrderedRing K] in
/-- A loop keeps the estimates when its steps do. The invariant of the loop is that all tracks are
estimated. -/
theorem wp_estimatesLoop {α β : Type} {f : β → α → Tracker (Extended K) (Extended K) β}
    {items : List α} {b : β} (h : Estimates p.heap)
    (hstep : ∀ b x p, x ∈ items → Estimates p.heap →
      wp (f b x) (fun _ q => Estimates q.heap) (fun _ => True) p) :
    wp (items.foldlM f b) (fun _ q => Estimates q.heap) (fun _ => True) p := by
  refine wp_foldlM (fun _ _ _ (q : Impl (Extended K) (Extended K)) => Estimates q.heap) h
    fun pre x post b q hsplit hq => ?_
  have hmem : x ∈ items := hsplit ▸ List.mem_append_right pre (List.mem_cons_self ..)
  exact hstep b x q hmem hq

omit [IsStrictOrderedRing K] in
/-- Storing the detections of a frame keeps all tracks estimated: a detection has a box of
numbers. -/
theorem estimates_detect {input : List (FaceDetection (Extended K))} (h : Estimates p.heap)
    (hboxes : ∀ d ∈ input, HasBox d) :
    wp (input.zipIdx.foldlM detect ([], [])) (fun _ q => Estimates q.heap) (fun _ => True) p := by
  refine wp_estimatesLoop h fun b entry p hmem hp => ?_
  have hnew : ∀ k position, Estimates (Function.update p.heap k
      (STrack.ofDetection position entry.1)) := fun k position =>
    hp.update (.ofDetection (hboxes entry.1 (List.fst_mem_of_mem_zipIdx hmem)) position)
  unfold detect makeShared
  simp only [wp_bind, wp_get, wp_ite, wp_modifyGet, wp_pure, Impl.store]
  exact ⟨fun _ => hnew _ _, fun _ => ⟨fun _ => hnew _ _, fun _ => hp⟩⟩

/-- Predicting the pool keeps all tracks estimated. -/
theorem estimates_predict {pool : List ℕ} (h : Estimates p.heap) :
    wp (pool.foldlM (fun _ t => (modify fun p => p.store t (p.heap t).predict :
      Tracker (Extended K) (Extended K) Unit)) ()) (fun _ q => Estimates q.heap)
      (fun _ => True) p := by
  refine wp_estimatesLoop h fun b t p _ hp => ?_
  rw [wp_modify]
  exact hp.update (hp t).predict

/-- Matching pairs of tracks and detections keeps all tracks estimated. Each step takes one of two
branches, and both of them update one track. -/
theorem estimates_matchTracks (acc : List ℕ × List ℕ) (h : Estimates p.heap) :
    wp (pairs.foldlM (matchTrack tracks detections) acc) (fun _ q => Estimates q.heap)
      (fun _ => True) p := by
  refine wp_estimatesLoop h fun acc m p _ hp => ?_
  unfold matchTrack
  dsimp only
  rw [wp_bind, wp_get, wp_ite]
  refine ⟨fun _ => ?_, fun _ => ?_⟩
  · rw [wp_bind]
    refine wp_mono (wp_onTrack (Q := fun _ q => Estimates q.heap) (wp_mono
      ((hp _).wp_update (hp _)) (fun _ _ hnew => hp.update hnew) fun _ => id))
      (fun _ q hq => hq) fun _ => id
  · rw [wp_bind]
    refine wp_mono (wp_onTrack (Q := fun _ q => Estimates q.heap) (wp_mono
      ((hp _).wp_reActivate (hp _)) (fun _ _ hnew => hp.update hnew) fun _ => id))
      (fun _ q hq => hq) fun _ => id

/-- Confirming pairs of tracks and detections keeps all tracks estimated. Each pair updates one
track by one detection, and both are estimated. -/
theorem estimates_confirmTracks (activated : List ℕ) (h : Estimates p.heap) :
    wp (pairs.foldlM (confirmTrack tracks detections) activated) (fun _ q => Estimates q.heap)
      (fun _ => True) p := by
  refine wp_estimatesLoop h fun activated m p _ hp => ?_
  unfold confirmTrack
  dsimp only
  rw [wp_bind, wp_get, wp_bind]
  exact wp_mono (wp_onTrack (Q := fun _ q => Estimates q.heap) (wp_mono
    ((hp _).wp_update (hp _)) (fun _ _ hnew => hp.update hnew) fun _ => id))
    (fun _ q hq => hq) fun _ => id

omit [IsStrictOrderedRing K] in
/-- Marking tracks as lost changes their states only, not their estimates. -/
theorem estimates_markLost {idxs : List ℕ} (newlyLost : List ℕ) (h : Estimates p.heap) :
    wp (idxs.foldlM (markLost tracks) newlyLost) (fun _ q => Estimates q.heap)
      (fun _ => True) p := by
  refine wp_estimatesLoop h fun newlyLost i p _ hp => ?_
  unfold markLost
  simp only [wp_bind, wp_get, wp_ite, wp_set, wp_pure, Impl.store]
  exact ⟨fun _ => hp.update ⟨(hp _).initial, (hp _).estimate⟩, fun _ => hp⟩

omit [IsStrictOrderedRing K] in
/-- Marking tracks as removed changes their states only, not their estimates. -/
theorem estimates_markRemoved {idxs : List ℕ} (newlyRemoved : List ℕ) (h : Estimates p.heap) :
    wp (idxs.foldlM (markRemoved tracks) newlyRemoved) (fun _ q => Estimates q.heap)
      (fun _ => True) p := by
  refine wp_estimatesLoop h fun newlyRemoved i p _ hp => ?_
  unfold markRemoved
  simp only [wp_bind, wp_get, wp_set, wp_pure, Impl.store]
  exact hp.update ⟨(hp _).initial, (hp _).estimate⟩

/-- Starting tracks keeps all tracks estimated: each takes the estimate of its detection. -/
theorem estimates_startTracks {idxs : List ℕ} (activated : List ℕ) (h : Estimates p.heap) :
    wp (idxs.foldlM (startTrack detections) activated) (fun _ q => Estimates q.heap)
      (fun _ => True) p := by
  refine wp_estimatesLoop h fun activated i p _ hp => ?_
  unfold startTrack
  simp only [wp_bind, wp_get, wp_ite, wp_set, wp_pure, Impl.store]
  exact ⟨fun _ => hp, fun _ => hp.update ((hp _).activate _ _)⟩

omit [IsStrictOrderedRing K] in
/-- Expiring lost tracks changes their states only, not their estimates. -/
theorem estimates_expireTracks {lost : List ℕ} (newlyRemoved : List ℕ) (h : Estimates p.heap) :
    wp (lost.foldlM expireTrack newlyRemoved) (fun _ q => Estimates q.heap)
      (fun _ => True) p := by
  refine wp_estimatesLoop h fun newlyRemoved t p _ hp => ?_
  unfold expireTrack
  simp only [wp_bind, wp_get, wp_ite, wp_set, wp_pure, Impl.store]
  exact ⟨fun _ => hp.update ⟨(hp _).initial, (hp _).estimate⟩, fun _ => hp⟩

omit [IsStrictOrderedRing K] in
/-- An association reads the tracks and changes none. -/
theorem estimates_associate {fuel : ℕ} {fuseScore : Bool} {threshold : Extended K}
    (h : Estimates p.heap) :
    wp (associate fuel tracks detections fuseScore threshold) (fun _ q => Estimates q.heap)
      (fun _ => True) p :=
  wp_mono (wp_associate fuel tracks detections fuseScore threshold p) (fun _ _ hq => hq.1 ▸ h)
    fun _ => id

/-- An update that returns keeps the estimates. The stages are gone through in their order, each
with its own lemma. -/
theorem estimates_update {fuel : ℕ} {input : List (FaceDetection (Extended K))}
    (h : Estimates p.heap) (hboxes : ∀ d ∈ input, HasBox d) :
    wp (update fuel input) (fun _ q => Estimates q.heap) (fun _ => True) p := by
  unfold update
  rw [wp_bind, wp_modify, wp_bind]
  refine wp_mono (estimates_detect h hboxes) ?_ fun _ => id
  rintro ⟨high, low⟩ p hp
  dsimp only
  rw [wp_bind, wp_get, wp_bind]
  refine wp_mono (estimates_predict hp) (fun _ p hp => ?_) fun _ => id
  rw [wp_bind]
  refine wp_mono (estimates_associate hp) (fun first p hp => ?_) fun _ => id
  rw [wp_bind]
  refine wp_mono (estimates_matchTracks _ hp) (fun matched p hp => ?_) fun _ => id
  rw [wp_bind, wp_get, wp_bind]
  refine wp_mono (estimates_associate hp) (fun second p hp => ?_) fun _ => id
  rw [wp_bind]
  refine wp_mono (estimates_matchTracks _ hp) (fun matched p hp => ?_) fun _ => id
  rw [wp_bind]
  refine wp_mono (estimates_markLost _ hp) (fun newlyLost p hp => ?_) fun _ => id
  rw [wp_bind]
  refine wp_mono (estimates_associate hp) (fun unc p hp => ?_) fun _ => id
  rw [wp_bind]
  refine wp_mono (estimates_confirmTracks _ hp) (fun activated p hp => ?_) fun _ => id
  rw [wp_bind]
  refine wp_mono (estimates_markRemoved _ hp) (fun newlyRemoved p hp => ?_) fun _ => id
  rw [wp_bind]
  refine wp_mono (estimates_startTracks _ hp) (fun activated p hp => ?_) fun _ => id
  rw [wp_bind]
  refine wp_mono (estimates_expireTracks _ hp) (fun newlyRemoved p hp => ?_) fun _ => id
  rw [wp_bind, wp_modify, wp_bind, wp_get]
  exact hp

/-! ## Exceptions of the stages -/

section Avoids

variable {bad : Abort → Prop}

omit [IsStrictOrderedRing K] in
/-- A call on one track avoids a failure if it does so on the value stored for the track. The
other tracks are not read. -/
theorem avoids_onTrack {ptr : ℕ} {m : EStateM String (STrack (Extended K) (Extended K)) Unit}
    (h : Avoids (fun e => bad (.thrown e)) m (p.heap ptr)) : Avoids bad (onTrack ptr m) p := by
  intro e q hrun
  unfold onTrack at hrun
  cases hm : m (p.heap ptr) with
  | ok a t =>
    rw [hm] at hrun
    cases hrun
  | error e' t =>
    rw [hm] at hrun
    cases hrun
    exact h e' t hm

/-- The assignment of an association returns. The costs have the right number of entries and there
is enough fuel, so the assignment is found. -/
theorem avoids_associate {fuel : ℕ} {fuseScore : Bool} {x : K} (hfuel : tracks.length ≤ fuel) :
    Avoids bad (associate fuel tracks detections fuseScore (fin x)) p := by
  have hlength : (costMatrix (toItems p.heap tracks) (toItems p.heap detections) fuseScore).length =
      tracks.length * detections.length := by
    rw [length_costMatrix, toItems, toItems, List.length_map, List.length_map]
  obtain ⟨r, hr, -⟩ := linearAssignment_least (x := x) hlength hfuel
  unfold associate
  refine avoids_bind (avoids_of_total (by simp)) fun q _ hget => ?_
  cases hget
  dsimp only
  rw [hr]
  exact avoids_of_total (by simp)

omit [IsStrictOrderedRing K] in
/-- A loop over the pairs of an association avoids an exception when its body does so at every
track that the pairs before have left alone, because that track still has the height with which
it entered. -/
theorem avoids_pairs {β : Type} {body : β → Match → Tracker (Extended K) (Extended K) β} {acc : β}
    (hnodup : (pairs.map fun m => tracks.getD m.row 0).Nodup)
    (hheight : bad (.thrown singularMessage) →
      ∀ m ∈ pairs, lit 2e-5 ≤ (p.heap (tracks.getD m.row 0)).mean 3)
    (hstage : ∀ pre : List Match, pre.Sublist pairs → wp (pre.foldlM body acc)
      (fun _ q => Estimates q.heap ∧
        ∀ k, (k ∉ pre.map fun m => tracks.getD m.row 0) → q.heap k = p.heap k) (fun _ => True) p)
    (hbody : ∀ acc' m q, Estimates q.heap →
      (bad (.thrown singularMessage) → lit 2e-5 ≤ (q.heap (tracks.getD m.row 0)).mean 3) →
      Avoids bad (body acc' m) q) :
    Avoids bad (pairs.foldlM body acc) p := by
  refine avoids_foldlM fun pre m post acc' q hsplit hpre => ?_
  have hmem : m ∈ pairs := hsplit ▸ List.mem_append_right pre (List.mem_cons_self ..)
  have hsub : pre.Sublist pairs := hsplit ▸ List.sublist_append_left pre _
  obtain ⟨hestimates, hothers⟩ := wp_ok (hstage pre hsub) hpre
  -- The track is not one of the pairs before.
  have hfresh : tracks.getD m.row 0 ∉ pre.map fun m => tracks.getD m.row 0 := by
    rw [hsplit, List.map_append, List.map_cons] at hnodup
    exact fun hin => (List.nodup_append.mp hnodup).2.2 _ hin _ (List.mem_cons_self ..) rfl
  refine hbody acc' m q hestimates fun hbad => ?_
  rw [hothers _ hfresh]
  exact hheight hbad m hmem

/-- The pairs of an association do not throw when their tracks have sufficient heights. The tracks
of the pairs are distinct, so that each one has its estimate from the beginning of the loop. -/
theorem avoids_matchTracks (acc : List ℕ × List ℕ) (h : Estimates p.heap)
    (hnodup : (pairs.map fun m => tracks.getD m.row 0).Nodup)
    (hdet : ∀ m ∈ pairs, detections.getD m.col 0 ∉ pairs.map fun m => tracks.getD m.row 0)
    (hheight : bad (.thrown singularMessage) →
      ∀ m ∈ pairs, lit 2e-5 ≤ (p.heap (tracks.getD m.row 0)).mean 3) :
    Avoids bad (pairs.foldlM (matchTrack tracks detections) acc) p := by
  refine avoids_pairs hnodup hheight (fun pre hsub => ?_) fun acc' m q hq htall => ?_
  · have hmatched := wp_matchTracks (p := p) acc (hnodup.sublist (hsub.map _)) fun m' hm' hin =>
      hdet m' (hsub.subset hm') ((hsub.map _).subset hin)
    refine wp_mono (wp_and (estimates_matchTracks acc h) hmatched) ?_ fun _ _ => trivial
    rintro _ q ⟨hestimates, -, heap, rfl, hothers, -⟩
    exact ⟨hestimates, hothers⟩
  · unfold matchTrack
    refine avoids_bind (avoids_of_total (by simp)) fun _ _ hget => ?_
    cases hget
    dsimp only
    split
    · exact avoids_bind (avoids_onTrack ((hq _).avoids_update (hq _) htall))
        fun _ _ _ => avoids_of_total (by simp)
    · exact avoids_bind (avoids_onTrack ((hq _).avoids_reActivate (hq _) htall))
        fun _ _ _ => avoids_of_total (by simp)

/-- Neither do the pairs that confirm new tracks. Their filters have seen one box, and are updated
with another one. -/
theorem avoids_confirmTracks (activated : List ℕ) (h : Estimates p.heap)
    (hnodup : (pairs.map fun m => tracks.getD m.row 0).Nodup)
    (hdet : ∀ m ∈ pairs, detections.getD m.col 0 ∉ pairs.map fun m => tracks.getD m.row 0)
    (hheight : bad (.thrown singularMessage) →
      ∀ m ∈ pairs, lit 2e-5 ≤ (p.heap (tracks.getD m.row 0)).mean 3) :
    Avoids bad (pairs.foldlM (confirmTrack tracks detections) activated) p := by
  refine avoids_pairs hnodup hheight (fun pre hsub => ?_) fun activated' m q hq htall => ?_
  · have hconfirmed := wp_confirmTracks (p := p) activated (hnodup.sublist (hsub.map _))
      fun m' hm' hin => hdet m' (hsub.subset hm') ((hsub.map _).subset hin)
    refine wp_mono (wp_and (estimates_confirmTracks activated h) hconfirmed) ?_ fun _ _ => trivial
    rintro _ q ⟨hestimates, -, heap, rfl, hothers, -⟩
    exact ⟨hestimates, hothers⟩
  · unfold confirmTrack
    refine avoids_bind (avoids_of_total (by simp)) fun _ _ hget => ?_
    cases hget
    exact avoids_bind (avoids_onTrack ((hq _).avoids_update (hq _) htall))
      fun _ _ _ => avoids_of_total (by simp)

omit [IsStrictOrderedRing K] in
/-- The filters of the pool are advanced, and no others. The estimates of the other tracks are
those in front of the frame. -/
theorem wp_predictPool (p : Impl (Extended K) (Extended K)) {pool : List ℕ} (hnodup : pool.Nodup) :
    wp (pool.foldlM (fun _ t => (modify fun p => p.store t (p.heap t).predict :
        Tracker (Extended K) (Extended K) Unit)) ())
      (fun _ q => ∃ heap, q = { p with heap } ∧ (∀ k, k ∉ pool → heap k = p.heap k) ∧
        ∀ t ∈ pool, heap t = (p.heap t).predict) (fun _ => True) p := by
  have hmap : (pool.map id).Nodup := by rwa [List.map_id]
  refine wp_mono (wp_storeLoop id (fun _ old new => new = old.predict) (fun _ _ => True) hmap
    trivial ?_) ?_ fun _ => id
  · intro pre t post b heap hsplit _ hothers hsame
    rw [wp_modify]
    refine ⟨trivial, _, rfl, ?_⟩
    rw [← hsame]
    rfl
  · rintro _ q ⟨-, heap, rfl, hothers, hpredicted⟩
    rw [List.map_id] at hothers
    exact ⟨heap, rfl, hothers, hpredicted⟩

/-- A live track as it enters the associations of a frame. Unconfirmed tracks are not
advanced. -/
def Impl.entering (p : Impl (Extended K) (Extended K)) (t : ℕ) :
    STrack (Extended K) (Extended K) :=
  if (p.heap t).isActivated then (p.heap t).predict else p.heap t

/-- The cost limits are numbers. -/
structure Limited (cfg : ByteTrackConfig (Extended K)) : Prop where
  matchThreshold : ∃ x : K, cfg.matchThreshold = fin x
  secondMatchThreshold : ∃ x : K, cfg.secondMatchThreshold = fin x
  unconfirmedMatchThreshold : ∃ x : K, cfg.unconfirmedMatchThreshold = fin x

/-- An update throws nothing but the exception of a filter, and that only when the track of the
filter is too low. -/
theorem avoids_update {fuel : ℕ} {input : List (FaceDetection (Extended K))} (hp : p.Linked)
    (hlimited : Limited p.cfg) (h : Estimates p.heap) (hboxes : ∀ d ∈ input, HasBox d)
    (hfuel : p.live.length ≤ fuel)
    (hheight : bad (.thrown singularMessage) → ∀ t ∈ p.live, lit 2e-5 ≤ (p.entering t).mean 3) :
    Avoids bad (update fuel input) p := by
  obtain ⟨x₁, hx₁⟩ := hlimited.matchThreshold
  obtain ⟨x₂, hx₂⟩ := hlimited.secondMatchThreshold
  obtain ⟨x₃, hx₃⟩ := hlimited.unconfirmedMatchThreshold
  unfold update
  refine avoids_bind (avoids_of_total (by simp)) fun _ p₀ hcount => ?_
  cases hcount
  refine avoids_bind (avoids_foldlM fun _ _ _ _ _ _ _ => avoids_of_total ?_)
    fun candidates p₁ hdetect => ?_
  · unfold detect makeShared
    simp only [wp_bind, wp_get, wp_ite, wp_modifyGet, wp_pure, implies_true, and_self]
  obtain ⟨high, low⟩ := candidates
  have h₁ := wp_ok (estimates_detect (p := { p with frame := p.frame + 1 }) h hboxes) hdetect
  obtain ⟨detected, allocated, rfl, hdetected⟩ := wp_ok (wp_detect _ input) hdetect
  have hsame : ∀ t ∈ p.live, detected t = p.heap t :=
    fun t ht => hdetected.others t (hp.allocated t ht)
  have hfresh : ∀ d ∈ high ++ low, d ∉ p.live := by
    intro d hd hlive
    have hnew := (hdetected.fresh d hd).1
    have hused := hp.allocated d hlive
    dsimp only at hnew
    omega
  dsimp only
  refine avoids_bind (avoids_of_total (by simp)) fun _ _ hget => ?_
  cases hget
  dsimp only
  -- The pool: tracks that have been reported, and lost ones.
  obtain ⟨pool, hpool⟩ : ∃ pool, pool = jointTracks detected
      (p.tracked.filter fun t => (detected t).isActivated) p.lost := ⟨_, rfl⟩
  obtain ⟨unconfirmed, hunconfirmed⟩ : ∃ l, l = p.tracked.filter fun t =>
      !(detected t).isActivated := ⟨_, rfl⟩
  rw [← hpool, ← hunconfirmed]
  have hpoolLive : pool.Sublist p.live := hpool ▸ Pass.pool_sublist hp hsame
  have hpoolNodup := hp.live_nodup.sublist hpoolLive
  have hactivated : ∀ t ∈ pool, (p.heap t).isActivated = true := by
    intro t ht
    rw [hpool, Pass.pool_eq_append hp hsame] at ht
    rcases List.mem_append.mp ht with hreported | hlost
    · rw [← hsame t (List.mem_append_left _ (List.mem_of_mem_filter hreported))]
      exact (List.mem_filter.mp hreported).2
    · exact hp.lost_activated t hlost
  have hunconfirmedLive : unconfirmed.Sublist p.live :=
    hunconfirmed ▸ List.filter_sublist.trans (List.sublist_append_left _ _)
  have hnew : ∀ t ∈ unconfirmed, (p.heap t).isActivated = false := by
    intro t ht
    rw [hunconfirmed] at ht
    rw [← hsame t (List.mem_append_left _ (List.mem_of_mem_filter ht))]
    simpa using (List.mem_filter.mp ht).2
  refine avoids_bind (avoids_foldlM fun _ _ _ _ _ _ _ => avoids_of_total (by simp))
    fun _ p₂ hpredict => ?_
  have h₂ := wp_ok (estimates_predict h₁) hpredict
  obtain ⟨predicted, rfl, hothers, hpredicted⟩ := wp_ok (wp_predictPool _ hpoolNodup) hpredict
  dsimp only at hothers hpredicted
  have hentered : ∀ t ∈ pool, predicted t = p.entering t := by
    intro t ht
    rw [hpredicted t ht, hsame t (hpoolLive.subset ht), Impl.entering, if_pos (hactivated t ht)]
  -- The first association.
  rw [hx₁]
  refine avoids_bind (avoids_associate (hpoolLive.length_le.trans hfuel)) fun first _ hrun₁ => ?_
  obtain ⟨rfl, hfirst⟩ := wp_ok (wp_associate ..) hrun₁
  have hfirstPerm := hfirst.tracks_perm
  have hfirstNodup := hfirstPerm.nodup_iff.mpr hpoolNodup
  have hfirstDet := hfirst.detection_not_mem fun d hd hmem =>
    hfresh d (List.mem_append_left _ hd) (hpoolLive.subset hmem)
  refine avoids_bind (avoids_matchTracks _ h₂ (List.Nodup.of_append_left hfirstNodup) hfirstDet
    fun hbad m hm => ?_) fun matched₁ p₃ hmatch => ?_
  · have ht := hfirst.track_mem hm
    change lit 2e-5 ≤ (predicted (pool.getD m.row 0)).mean 3
    rw [hentered _ ht]
    exact hheight hbad _ (hpoolLive.subset ht)
  have h₃ := wp_ok (estimates_matchTracks _ h₂) hmatch
  obtain ⟨-, matched, rfl, hmatchedOthers, -⟩ :=
    wp_ok (wp_matchTracks _ (List.Nodup.of_append_left hfirstNodup) hfirstDet) hmatch
  dsimp only at hmatchedOthers
  refine avoids_bind (avoids_of_total (by simp)) fun _ _ hget => ?_
  cases hget
  dsimp only
  -- The second association: tracks that the first leaves over.
  obtain ⟨remaining, hremaining⟩ : ∃ l, l = (first.unmatchedRows.map fun i =>
      pool.getD i 0).filter fun t => decide ((matched t).state = .tracked) := ⟨_, rfl⟩
  rw [← hremaining]
  have hrest : remaining.Sublist (first.unmatchedRows.map fun i => pool.getD i 0) :=
    hremaining ▸ List.filter_sublist
  have hremainingPool : remaining ⊆ pool := fun t ht =>
    hfirstPerm.subset (List.mem_append_right _ (hrest.subset ht))
  have hremainingNodup := (List.Nodup.of_append_right hfirstNodup).sublist hrest
  have hremainingLength : remaining.length ≤ fuel := by
    have hsub : remaining ⊆ p.live := fun t ht => hpoolLive.subset (hremainingPool ht)
    exact (hremainingNodup.subperm hsub).length_le.trans hfuel
  rw [hx₂]
  refine avoids_bind (avoids_associate hremainingLength) fun second _ hrun₂ => ?_
  obtain ⟨rfl, hsecond⟩ := wp_ok (wp_associate ..) hrun₂
  have hsecondNodup := hsecond.tracks_perm.nodup_iff.mpr hremainingNodup
  have hsecondDet := hsecond.detection_not_mem fun d hd hmem =>
    hfresh d (List.mem_append_right _ hd) (hpoolLive.subset (hremainingPool hmem))
  refine avoids_bind (avoids_matchTracks _ h₃ (List.Nodup.of_append_left hsecondNodup) hsecondDet
    fun hbad m hm => ?_) fun matched₂ p₄ hrematch => ?_
  · have ht := hsecond.track_mem hm
    change lit 2e-5 ≤ (matched (remaining.getD m.row 0)).mean 3
    rw [hmatchedOthers _ fun hin =>
      (List.disjoint_of_nodup_append hfirstNodup) hin (hrest.subset ht),
      hentered _ (hremainingPool ht)]
    exact hheight hbad _ (hpoolLive.subset (hremainingPool ht))
  have h₄ := wp_ok (estimates_matchTracks _ h₃) hrematch
  obtain ⟨-, rematched, rfl, hrematchedOthers, -⟩ :=
    wp_ok (wp_matchTracks _ (List.Nodup.of_append_left hsecondNodup) hsecondDet) hrematch
  dsimp only at hrematchedOthers
  refine avoids_bind (avoids_foldlM fun _ _ _ _ _ _ _ => avoids_of_total ?_)
    fun newlyLost p₅ hmark => ?_
  · unfold markLost
    simp only [wp_bind, wp_get, wp_ite, wp_set, wp_pure, implies_true, and_self]
  have h₅ := wp_ok (estimates_markLost _ h₄) hmark
  have hstates : ∀ i ∈ second.unmatchedRows, (rematched (remaining.getD i 0)).state ≠ .lost := by
    intro i hi hlost
    have hrow := List.mem_map_of_mem (f := fun i => remaining.getD i 0) hi
    have hstate : (rematched (remaining.getD i 0)).state = .tracked := by
      rw [hrematchedOthers _ fun h => (List.disjoint_of_nodup_append hsecondNodup) h hrow]
      have hmem := hsecond.tracks_perm.subset (List.mem_append_right _ hrow)
      rw [hremaining] at hmem ⊢
      exact of_decide_eq_true (List.mem_filter.mp hmem).2
    rw [hstate] at hlost
    cases hlost
  obtain ⟨rfl, marked, rfl, hmarkedOthers, -⟩ := wp_ok (wp_markLost
    (List.Nodup.of_append_right hsecondNodup) hstates) hmark
  dsimp only at hmarkedOthers
  -- The third association: no stage before rewrites an unconfirmed track.
  have hapart : ∀ t ∈ unconfirmed, t ∉ pool := fun t ht hmem =>
    Bool.false_ne_true ((hnew t ht).symm.trans (hactivated t hmem))
  have huntouched : ∀ t ∈ unconfirmed, marked t = p.entering t := by
    intro t ht
    have hout := hapart t ht
    rw [hmarkedOthers t fun hin => hout (hremainingPool (hsecond.tracks_perm.subset
        (List.mem_append_right _ hin))),
      hrematchedOthers t fun hin => hout (hremainingPool (hsecond.tracks_perm.subset
        (List.mem_append_left _ hin))),
      hmatchedOthers t fun hin => hout (hfirstPerm.subset (List.mem_append_left _ hin)),
      hothers t hout, hsame t (hunconfirmedLive.subset ht), Impl.entering,
      if_neg (by rw [hnew t ht]; decide)]
  have hunconfirmedNodup := hp.live_nodup.sublist hunconfirmedLive
  rw [hx₃]
  refine avoids_bind (avoids_associate (hunconfirmedLive.length_le.trans hfuel))
    fun third _ hrun₃ => ?_
  obtain ⟨rfl, hthird⟩ := wp_ok (wp_associate ..) hrun₃
  have hthirdNodup := hthird.tracks_perm.nodup_iff.mpr hunconfirmedNodup
  have hthirdDet := hthird.detection_not_mem fun d hd hmem =>
    hfresh d (List.mem_append_left _ (hfirst.detections_perm.subset
      (List.mem_append_right _ hd))) (hunconfirmedLive.subset hmem)
  refine avoids_bind (avoids_confirmTracks _ h₅ (List.Nodup.of_append_left hthirdNodup) hthirdDet
    fun hbad m hm => ?_) fun activated _ _ => ?_
  · have ht := hthird.track_mem hm
    change lit 2e-5 ≤ (marked (unconfirmed.getD m.row 0)).mean 3
    rw [huntouched _ ht]
    exact hheight hbad _ (hunconfirmedLive.subset ht)
  -- Nothing else throws.
  refine avoids_bind (avoids_foldlM fun _ _ _ _ _ _ _ => avoids_of_total ?_) fun _ _ _ => ?_
  · unfold markRemoved
    simp only [wp_bind, wp_get, wp_set, wp_pure]
  refine avoids_bind (avoids_foldlM fun _ _ _ _ _ _ _ => avoids_of_total ?_) fun _ _ _ => ?_
  · unfold startTrack
    simp only [wp_bind, wp_get, wp_ite, wp_set, wp_pure, implies_true, and_self]
  refine avoids_bind (avoids_foldlM fun _ _ _ _ _ _ _ => avoids_of_total ?_) fun _ _ _ => ?_
  · unfold expireTrack
    simp only [wp_bind, wp_get, wp_ite, wp_set, wp_pure, implies_true, and_self]
  exact avoids_of_total (by simp)

end Avoids

/-! ## Runs -/

/-- Number of detections of a call. -/
def Call.size {F : Type} : Call F → ℕ
  | .update input => input.length
  | .reset => 0

/-- The boxes of the detections of a call consist of numbers. -/
def Call.HasBoxes : Call (Extended K) → Prop
  | .update input => ∀ d ∈ input, HasBox d
  | .reset => True

omit [IsStrictOrderedRing K] in
/-- A frame adds one object for each detection at most. The invariant of the loop counts the
detections that have been visited. -/
theorem wp_detect_allocated (input : List (FaceDetection (Extended K)))
    (p : Impl (Extended K) (Extended K)) :
    wp (input.zipIdx.foldlM detect ([], [])) (fun _ q => q.allocated ≤ p.allocated + input.length)
      (fun _ => True) p := by
  have hloop := wp_foldlM (f := detect) (l := input.zipIdx) (b := ([], [])) (E := fun _ => True)
    (s := p) (fun pre _ _ (q : Impl (Extended K) (Extended K)) =>
      q.allocated ≤ p.allocated + pre.length) le_rfl ?_
  · rwa [List.length_zipIdx] at hloop
  · intro pre entry post b q _ hq
    rw [List.length_append, List.length_singleton]
    unfold detect makeShared
    simp only [wp_bind, wp_get, wp_ite, wp_modifyGet, wp_pure]
    exact ⟨fun _ => by omega, fun _ => ⟨fun _ => by omega, fun _ => by omega⟩⟩

omit [IsStrictOrderedRing K] in
/-- A call allocates at most one place for each of its detections. Only the detections of a frame
are allocated. -/
theorem allocated_perform {fuel : ℕ} {call : Call (Extended K)}
    {p : Impl (Extended K) (Extended K)} (hp : p.Linked) (hcompletes : call.Completes fuel p) :
    (call.perform fuel p).allocated ≤ p.allocated + call.size := by
  cases call with
  | update input =>
    obtain ⟨results, q, hrun⟩ := hcompletes
    obtain ⟨s, hs, rfl⟩ := pass_of_update hp hrun
    rw [perform_update hrun]
    have hcount := wp_ok (wp_detect_allocated input { p with frame := p.frame + 1 }) hs.detects
    exact hcount
  | reset => exact Nat.zero_le _

/-- After a call all tracks are estimated, if they were before it and the detections have boxes. A
reset leaves unused objects behind. -/
theorem estimates_perform {fuel : ℕ} {call : Call (Extended K)}
    {p : Impl (Extended K) (Extended K)} (h : Estimates p.heap) (hboxes : call.HasBoxes)
    (hcompletes : call.Completes fuel p) : Estimates (call.perform fuel p).heap := by
  cases call with
  | update input =>
    obtain ⟨results, q, hrun⟩ := hcompletes
    rw [perform_update hrun]
    have hkept := wp_ok (estimates_update h hboxes) hrun
    exact hkept
  | reset => exact fun _ => .unused

/-- What holds of a tracker that was supplied with boxes. -/
structure Impl.Supplied (cfg : ByteTrackConfig (Extended K)) (total : ℕ)
    (p : Impl (Extended K) (Extended K)) : Prop where
  /-- Tracks and lists fit together. -/
  settled : p.Settled
  /-- The configuration is fixed. -/
  cfg_eq : p.cfg = (create (Extended K) cfg).cfg
  /-- All objects have estimates. -/
  estimates : Estimates p.heap
  /-- There is no more than one object for each detection. -/
  allocated_le : p.allocated ≤ total

/-- A history of calls leaves the tracker supplied with as many places as it had detections. The
induction is on the calls, with the bound on the allocated places carried along. -/
theorem supplied_afterCalls {cfg : ByteTrackConfig (Extended K)} {fuel : ℕ}
    {calls : List (Call (Extended K))} (hcomplete : AllComplete (Extended K) cfg fuel calls)
    (hboxes : ∀ call ∈ calls, call.HasBoxes) :
    (afterCalls (Extended K) cfg fuel calls).Supplied cfg (calls.map Call.size).sum := by
  induction calls using List.reverseRecOn with
  | nil => exact ⟨settled_create, rfl, fun _ => .unused, le_rfl⟩
  | append_singleton calls call ih =>
    obtain ⟨hearlier, hcall, -⟩ := throughout_append.mp hcomplete
    have hp := ih hearlier fun c hc => hboxes c (List.mem_append_left _ hc)
    obtain ⟨hsettled, hcfg⟩ := hp.settled.perform hcall
    have hallocated := allocated_perform hp.settled.linked hcall
    have hestimates := estimates_perform hp.estimates (hboxes call (by simp)) hcall
    rw [afterCalls, runFrom_append, List.map_append, List.sum_append]
    refine ⟨hsettled, hcfg.trans hp.cfg_eq, hestimates, hallocated.trans ?_⟩
    simpa using hp.allocated_le

/-- References are below the number of objects, so there are no more live tracks than objects. -/
theorem Impl.Linked.live_length_le {F D : Type} [FloatOps F] {p : Impl F D} (hp : p.Linked) :
    p.live.length ≤ p.allocated := by
  have hsub : p.live ⊆ List.range p.allocated := fun t ht => List.mem_range.mpr (hp.allocated t ht)
  simpa using (hp.live_nodup.subperm hsub).length_le

/-- Some track enters the frame with a height below `2e-5`. -/
def Impl.HasLowTrack (p : Impl (Extended K) (Extended K)) : Prop :=
  ∃ t ∈ p.live, (p.entering t).mean 3 < lit 2e-5

/-- A frame returns, or a filter throws and some track is low. Fuel is sufficient, and all other
calls are total. -/
theorem update_returns_or_throws {cfg : ByteTrackConfig (Extended K)} {fuel total : ℕ}
    {input : List (FaceDetection (Extended K))} {p : Impl (Extended K) (Extended K)}
    (hp : p.Supplied cfg total) (hlimited : Limited cfg) (hboxes : ∀ d ∈ input, HasBox d)
    (hfuel : total ≤ fuel) :
    (∃ results q, update fuel input p = .ok results q) ∨
      ∃ q, update fuel input p = .error (.thrown singularMessage) q ∧ p.HasLowTrack := by
  have hlinked := hp.settled.linked
  have hlimited' : Limited p.cfg := by
    rw [hp.cfg_eq]
    exact ⟨hlimited.matchThreshold, hlimited.secondMatchThreshold,
      hlimited.unconfirmedMatchThreshold⟩
  have hlive := (hlinked.live_length_le.trans hp.allocated_le).trans hfuel
  cases hrun : update fuel input p with
  | ok results q => exact Or.inl ⟨results, q, rfl⟩
  | error e q =>
    obtain rfl : e = .thrown singularMessage := by
      have hothers : Avoids (· ≠ .thrown singularMessage) (update fuel input) p :=
        avoids_update hlinked hlimited' hp.estimates hboxes hlive fun h => absurd rfl h
      exact not_not.mp (hothers e q hrun)
    refine Or.inr ⟨q, rfl, ?_⟩
    by_contra hnone
    have hall : Avoids (fun _ => True) (update fuel input) p :=
      avoids_update hlinked hlimited' hp.estimates hboxes hlive fun _ t ht => ?_
    · exact hall _ q hrun trivial
    have hestimated : (p.entering t).Estimated := by
      unfold Impl.entering
      split
      · exact (hp.estimates t).predict
      · exact hp.estimates t
    obtain ⟨m, P, hmean, -⟩ := hestimated.estimate
    by_contra hlow
    refine hnone ⟨t, ht, ?_⟩
    rw [hmean, lit_def] at hlow ⊢
    exact fin_lt.mpr (not_le.mp fun h => hlow (fin_le.mpr h))

/-- A run over boxes that are numbers stops only in the inversion of a filter, in a frame that a
track enters with a height below `2e-5`; so it does not stop when no track gets that low. -/
theorem first_exception {cfg : ByteTrackConfig (Extended K)} (hlimited : Limited cfg) {fuel : ℕ}
    {calls : List (Call (Extended K))} (hboxes : ∀ call ∈ calls, call.HasBoxes)
    (hfuel : (calls.map Call.size).sum ≤ fuel) :
    (AllComplete (Extended K) cfg fuel calls ∨
      ∃ earlier input later q, calls = earlier ++ .update input :: later ∧
        AllComplete (Extended K) cfg fuel earlier ∧
        update fuel input (afterCalls (Extended K) cfg fuel earlier) =
          .error (.thrown singularMessage) q ∧
        (afterCalls (Extended K) cfg fuel earlier).HasLowTrack) ∧
    ((∀ earlier input later, calls = earlier ++ .update input :: later →
        ¬ (afterCalls (Extended K) cfg fuel earlier).HasLowTrack) →
      AllComplete (Extended K) cfg fuel calls) := by
  suffices hstops : AllComplete (Extended K) cfg fuel calls ∨
      ∃ earlier input later q, calls = earlier ++ .update input :: later ∧
        AllComplete (Extended K) cfg fuel earlier ∧
        update fuel input (afterCalls (Extended K) cfg fuel earlier) =
          .error (.thrown singularMessage) q ∧
        (afterCalls (Extended K) cfg fuel earlier).HasLowTrack by
    refine ⟨hstops, fun hheight => hstops.resolve_right ?_⟩
    rintro ⟨earlier, input, later, -, hsplit, -, -, hlow⟩
    exact hheight earlier input later hsplit hlow
  induction calls using List.reverseRecOn with
  | nil => exact Or.inl trivial
  | append_singleton calls call ih =>
    have hearlierBoxes : ∀ c ∈ calls, c.HasBoxes := fun c hc => hboxes c (List.mem_append_left _ hc)
    have htotal : (calls.map Call.size).sum ≤ fuel := by
      rw [List.map_append, List.sum_append] at hfuel
      omega
    rcases ih hearlierBoxes htotal with hcomplete | ⟨earlier, input, later, q, rfl, hstopped⟩
    · cases call with
      | reset => exact Or.inl (throughout_append.mpr ⟨hcomplete, trivial, trivial⟩)
      | update input =>
        rcases update_returns_or_throws (supplied_afterCalls hcomplete hearlierBoxes) hlimited
          (hboxes (.update input) (by simp)) htotal with hreturns | ⟨q, hthrows, hlow⟩
        · exact Or.inl (throughout_append.mpr ⟨hcomplete, hreturns, trivial⟩)
        · exact Or.inr ⟨calls, input, [], q, rfl, hcomplete, hthrows, hlow⟩
    · exact Or.inr ⟨earlier, input, later ++ [call], q, by simp, hstopped⟩

/-- A face that is smaller than any pixel. -/
def speck : FaceDetection (Extended ℚ) :=
  ⟨lit 0, lit 0, lit 1e-6, lit 1e-6, lit 0.9, fun _ => ⟨lit 0, lit 0⟩⟩

/-- Two frames with a face that is too small for the filter. -/
def speckFrames : List (Call (Extended ℚ)) := [.update [speck], .update [speck]]

/-- The run over the two frames completes or stops in the inversion. The box of the first frame is
a speck, so that the second frame does throw. -/
theorem first_exception_sample :
    AllComplete (Extended ℚ) {} 2 speckFrames ∨
      ∃ earlier input later q, speckFrames = earlier ++ .update input :: later ∧
        AllComplete (Extended ℚ) {} 2 earlier ∧
        update 2 input (afterCalls (Extended ℚ) {} 2 earlier) =
          .error (.thrown singularMessage) q ∧
        (afterCalls (Extended ℚ) {} 2 earlier).HasLowTrack := by
  have hbox : HasBox speck := by
    refine ⟨![0, 0, 1e-6 - 0, 1e-6 - 0], ?_⟩
    funext i
    fin_cases i <;> simp [speck, STrack.tlbrToTlwh, exactVector, lit_def, fin_sub]
  have hboxes : ∀ call ∈ speckFrames, call.HasBoxes := by
    intro call hcall
    have hspeck : call = .update [speck] := by simpa [speckFrames] using hcall
    rw [hspeck]
    exact List.forall_mem_singleton.mpr hbox
  have hlimited : Limited ({} : ByteTrackConfig (Extended ℚ)) := ⟨⟨_, rfl⟩, ⟨_, rfl⟩, ⟨_, rfl⟩⟩
  have hfuel : (speckFrames.map Call.size).sum ≤ 2 := le_rfl
  exact (first_exception hlimited hboxes hfuel).1

end ByteTracker

end EdgeClient.Tracking
