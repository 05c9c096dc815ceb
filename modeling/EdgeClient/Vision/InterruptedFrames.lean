import EdgeClient.Vision.FrameSemantics
import EdgeClient.Vision.PadGate

/-!
# Frames that are interrupted

A cooldown entry is written as soon as a track of the recognition batch matches, and
the event travels in the result of the call. When the comparison of a later track of the
batch throws, the result is discarded and the entry stays. The comparisons of a batch do
not depend on each other, so the state in front of the batch tells when this happens.
-/

namespace EdgeClient.Vision.AttendanceProcessor

open Basis

variable {F D : Type} [FloatOps F] [FloatOps D] [FloatPair F D]
  {evaluate : BiometricEvaluators F} {utcMs : ℕ → ℤ} {f : FaceTrackingFrame F} {now : ℤ}
  {p p₁ q : Impl F D}

/-! ## The stages in front of the recognition batch -/

/-- The stages of a call up to the selection of the recognition crops. -/
def prepare (evaluate : BiometricEvaluators F) (f : FaceTrackingFrame F) (now : ℤ) :
    Processor F D (List (TrackResult F)) := do
  modify fun p => { p with evaluations := [] }
  beginFrame f now
  let padTracks ← f.tracks.foldlM (scheduleTrack now) []
  checkPad evaluate f now padTracks
  f.tracks.foldlM selectTrack []

/-- A call prepares the recognition batch and goes on with it. -/
theorem process_eq :
    process (D := D) evaluate utcMs f now = do
      let arcTracks ← prepare evaluate f now
      let attendanceEvents ← recognizeTracks evaluate utcMs f now arcTracks
      let tracks ← f.tracks.foldlM takeSnapshot []
      return { gpuFrame := f.gpuFrame, tracks, attendanceEvents } := by
  simp only [process, prepare, bind_assoc]

/-- The processor in front of the recognition batch. -/
structure Prepared (p : Impl F D) (f : FaceTrackingFrame F) (now : ℤ)
    (arcTracks : List (TrackResult F)) (p₁ : Impl F D) : Prop where
  /-- No track occurs twice. -/
  tracks_nodup : (f.tracks.map (·.trackId)).Nodup
  /-- The batch is a selection of the tracks. -/
  batch : ∃ test, arcTracks = f.tracks.filter test
  /-- Every track has a state. -/
  states : ∀ t ∈ f.tracks, HasState p₁ t.trackId fun _ => True
  /-- Only cooldowns that have run out were dropped. -/
  emitted_eq : p₁.emitted = (p.accept f now).emitted

/-- A part of the processor that neither a track state nor the record of the crops touches. -/
structure Spared {γ : Type} (g : Impl F D → γ) : Prop where
  /-- Writing a track state leaves it alone. -/
  setState : ∀ q id s, g (q.setState id s) = g q
  /-- Handing crops to a model leaves it alone. -/
  hand : ∀ q kind tracks, g (q.hand kind tracks) = g q

section Spared

variable {γ : Type} {g : Impl F D → γ} {c : γ}

omit [FloatPair F D] in
/-- A computation on the state of a track leaves a spared part alone. -/
theorem wp_atTrack_spared (hg : Spared g) {α : Type} {id : ℕ} {m : EStateM String (State F D) α}
    (hq : g q = c) : wp (atTrack id m) (fun _ q => g q = c) (fun q => g q = c) q := by
  rw [wp_atTrack]
  refine ⟨fun _ => hq, fun s _ => ?_⟩
  unfold wp
  cases m s with
  | ok a s => exact (hg.setState q id s).trans hq
  | error e s => exact (hg.setState q id s).trans hq

omit [FloatPair F D] in
/-- The liveness stage leaves a spared part alone. It writes to the states of tracks and to the
counters. -/
theorem wp_checkPad_spared (hg : Spared g) {padTracks : List (TrackResult F)} :
    wp (checkPad evaluate f now padTracks) (fun _ q => g q = g p) (fun q => g q = g p) p := by
  unfold checkPad
  rw [wp_ite]
  refine ⟨fun _ => rfl, fun _ => ?_⟩
  rw [wp_bind, wp_modify]
  have hhand := hg.hand p .pad padTracks
  cases evaluate.pad f.gpuFrame (padTracks.map (·.observation)) with
  | error e => exact hhand
  | ok results =>
    rw [wp_ite]
    refine ⟨fun _ => hhand, fun _ => ?_⟩
    refine wp_foldlM (fun _ _ _ (q : Impl F D) => g q = g p) hhand ?_
    intro pre entry post _ q _ hq
    rw [wp_bind, wp_get]
    exact wp_atTrack_spared hg hq

/-- The scheduling stage leaves a spared part alone. -/
theorem wp_scheduleTracks_spared (hg : Spared g) :
    wp (f.tracks.foldlM (scheduleTrack now) []) (fun _ q => g q = g p) (fun q => g q = g p) p := by
  refine wp_foldlM (fun _ _ _ (q : Impl F D) => g q = g p) rfl ?_
  intro pre t post padTracks q _ hq
  rw [wp_scheduleTrack]
  exact (hg.setState q t.trackId _).trans hq

/-- The selection leaves a spared part alone. -/
theorem wp_selectTracks_spared (hg : Spared g) :
    wp (f.tracks.foldlM selectTrack []) (fun _ q => g q = g p) (fun q => g q = g p) p := by
  refine wp_foldlM (fun _ _ _ (q : Impl F D) => g q = g p) rfl ?_
  intro pre t post arcTracks q _ hq
  unfold selectTrack
  rw [wp_bind, wp_get]
  exact wp_atTrack_spared hg hq

omit [FloatPair F D] in
/-- The cooldowns are such a part. -/
theorem spared_emitted : Spared (Impl.emitted : Impl F D → String → Option ℤ) :=
  ⟨fun _ _ _ => rfl, fun _ _ _ => rfl⟩

end Spared

omit [FloatPair F D] in
/-- The cooldowns of an accepted frame were there before. -/
theorem emitted_accept {i : String} {t : ℤ} (ht : (p.accept f now).emitted i = some t) :
    p.emitted i = some t := (Option.filter_eq_some_iff.mp ht).1

/-- The stages in front of the recognition batch add no cooldown. The beginning of the frame
erases entries that are old, and nothing else touches them. -/
theorem wp_prepare :
    wp (prepare evaluate f now) (Prepared p f now)
      (fun q => ∀ i t, q.emitted i = some t → p.emitted i = some t) p := by
  have hkept : ∀ {q : Impl F D}, q.emitted = (p.accept f now).emitted →
      ∀ i t, q.emitted i = some t → p.emitted i = some t := by
    intro q hq i t ht
    have haccept : (p.accept f now).emitted i = some t := by rw [← hq, ht]
    exact emitted_accept haccept
  unfold prepare
  rw [wp_bind, wp_modify, wp_bind]
  refine wp_mono wp_beginFrame ?_ ?_
  swap
  · rintro q ⟨-, rfl⟩ i t ht
    exact ht
  rintro - q ⟨-, -, -, -, hnodup, hq⟩
  have hq : q.emitted = (p.accept f now).emitted := by
    rw [hq]
    rfl
  rw [wp_bind]
  refine wp_mono (wp_and (wp_scheduleTracks hnodup) (wp_scheduleTracks_spared spared_emitted)) ?_
    fun q₁ h => hkept (h.2.trans hq)
  rintro - q₁ ⟨⟨rfl, -, hstates, -⟩, hq₁⟩
  have hstates₁ : ∀ t ∈ f.tracks, HasState q₁ t.trackId fun _ => True := by
    intro t ht
    obtain ⟨s, hs, -⟩ := hstates t ht
    exact ⟨s, hs, trivial⟩
  rw [wp_bind]
  refine wp_mono (wp_and (wp_checkPad hnodup hstates₁) (wp_checkPad_spared spared_emitted)) ?_
    fun q₂ h => hkept ((h.2.trans hq₁).trans hq)
  rintro - q₂ ⟨⟨-, entries, -, hrecorded, hothers⟩, hq₂⟩
  have hstates₂ : ∀ t ∈ f.tracks, HasState q₂ t.trackId fun _ => True := by
    intro t ht
    by_cases hmem : t.trackId ∈ entries.map (·.1.trackId)
    · obtain ⟨entry, hentry, hid⟩ := List.mem_map.mp hmem
      obtain ⟨s, hs, -⟩ := hrecorded entry hentry
      exact ⟨s, hid ▸ hs, trivial⟩
    · obtain ⟨s, hs, -⟩ := hstates₁ t ht
      exact ⟨s, (hothers _ hmem).trans hs, trivial⟩
  refine wp_mono
    (wp_and (wp_selectTracks hnodup hstates₂) (wp_selectTracks_spared spared_emitted)) ?_
    fun q₃ h => hkept (((h.2.trans hq₂).trans hq₁).trans hq)
  rintro arcTracks q₃ ⟨⟨rfl, -, hstates₃, -⟩, hq₃⟩
  refine ⟨hnodup, ⟨_, rfl⟩, fun t ht => ?_, ((hq₃.trans hq₂).trans hq₁).trans hq⟩
  obtain ⟨s, hs, -⟩ := hstates₃ t ht
  exact ⟨s, hs, trivial⟩

/-! ## The recognition batch -/

/-- The comparison of one result of the batch with the gallery. -/
def comparison (p₁ : Impl F D) (entry : TrackResult F × ArcFaceResult F) :
    Except String (GalleryMatch F) :=
  (p₁.gallery.match D (meanEmbedding (accumulate p₁.tick entry.2
    (p₁.stateOf entry.1.trackId)))).map Prod.fst

/-- Whether the gallery accepts the mean embedding of a result as a query. -/
def comparable (p₁ : Impl F D) (entry : TrackResult F × ArcFaceResult F) : Bool :=
  (comparison p₁ entry).isOk

/-- The gallery rejects exactly the mean embeddings that are not finite. With an empty gallery
nothing is compared, and nothing is rejected. -/
theorem comparable_eq_false_iff {entry : TrackResult F × ArcFaceResult F} :
    comparable p₁ entry = false ↔ p₁.gallery.matrix ≠ [] ∧ ∃ j, isFinite
      (meanEmbedding (accumulate p₁.tick entry.2 (p₁.stateOf entry.1.trackId)) j) = false := by
  unfold comparable comparison GalleryMatcher.match
  dsimp only
  split
  · rename_i hempty
    exact ⟨nofun, fun h => absurd hempty h.1⟩
  · rename_i hfull
    split
    · rename_i hany
      obtain ⟨j, -, hj⟩ := List.any_eq_true.mp hany
      exact ⟨fun _ => ⟨hfull, j, of_decide_eq_true hj⟩, fun _ => rfl⟩
    · rename_i hall
      have hfinite : ∀ b, (∃ j, isFinite (meanEmbedding (accumulate p₁.tick entry.2
          (p₁.stateOf entry.1.trackId)) j) = false) → b = false := by
        rintro b ⟨j, hj⟩
        exact absurd (List.any_eq_true.mpr ⟨j, List.mem_finRange j, decide_eq_true hj⟩) hall
      refine ⟨fun h => ?_, fun h => hfinite _ h.2⟩
      split at h <;> cases h

/-- An identity without a cooldown that a result of the batch matches. -/
def MatchesNew (p₁ : Impl F D) (entries : List (TrackResult F × ArcFaceResult F)) (i : String) :
    Prop :=
  p₁.emitted i = none ∧ ∃ entry ∈ entries, ∃ m, comparison p₁ entry = .ok m ∧
    accepts p₁.cfg m = true ∧ m.identityId = i

/-- The recognition loop when the results `pre` of the batch are behind it. -/
structure Emitting (p₁ : Impl F D) (now : ℤ) (pre : List (TrackResult F × ArcFaceResult F))
    (q : Impl F D) : Prop where
  cfg_eq : q.cfg = p₁.cfg
  tick_eq : q.tick = p₁.tick
  gallery : q.gallery.Same p₁.gallery
  others : ∀ id, id ∉ pre.map (·.1.trackId) → q.states id = p₁.states id
  kept : ∀ id, (p₁.states id).isSome → (q.states id).isSome
  emitted_new : ∀ i, MatchesNew p₁ pre i → q.emitted i = some now
  emitted_old : ∀ i, ¬ MatchesNew p₁ pre i → q.emitted i = p₁.emitted i

omit [FloatOps D] [FloatPair F D] [FloatOps F] in
/-- The test for success finds out whether there is a result. -/
theorem isOk_eq_true_iff {α : Type} {x : Except String α} : x.isOk = true ↔ ∃ a, x = .ok a := by
  cases x with
  | error e => exact ⟨nofun, nofun⟩
  | ok a => exact ⟨fun _ => ⟨a, rfl⟩, fun _ => rfl⟩

/-- One more result of the batch matches its own identity at most. Whether an entry is new is
judged by the cooldowns in front of the batch. -/
theorem matchesNew_append {pre : List (TrackResult F × ArcFaceResult F)}
    {entry : TrackResult F × ArcFaceResult F} {m : GalleryMatch F}
    (hm : comparison p₁ entry = .ok m) {i : String} :
    MatchesNew p₁ (pre ++ [entry]) i ↔
      MatchesNew p₁ pre i ∨ p₁.emitted i = none ∧ accepts p₁.cfg m = true ∧ m.identityId = i := by
  constructor
  · rintro ⟨hnone, x, hx, m', hm', haccepts, hidentity⟩
    rcases List.mem_append.mp hx with hpre | hlast
    · exact Or.inl ⟨hnone, x, hpre, m', hm', haccepts, hidentity⟩
    · obtain rfl := List.mem_singleton.mp hlast
      obtain rfl : m = m' := Except.ok.inj (hm.symm.trans hm')
      exact Or.inr ⟨hnone, haccepts, hidentity⟩
  · rintro (⟨hnone, x, hx, hrest⟩ | ⟨hnone, haccepts, hidentity⟩)
    · exact ⟨hnone, x, List.mem_append_left _ hx, hrest⟩
    · exact ⟨hnone, entry, List.mem_append_right _ (List.mem_singleton_self _), m, hm, haccepts,
        hidentity⟩

/-- One result of the batch either is compared and recorded, or throws and leaves the
cooldowns alone. -/
theorem Emitting.record {pre : List (TrackResult F × ArcFaceResult F)}
    {events : List (AttendanceEvent F)} {t : TrackResult F} {r : ArcFaceResult F}
    {s : State F D} (hemitting : Emitting p₁ now pre q) (hs : p₁.states t.trackId = some s)
    (hfresh : t.trackId ∉ pre.map (·.1.trackId)) :
    wp (recordRecognition utcMs f now events (t, r))
      (fun _ q' => comparable p₁ (t, r) = true ∧ Emitting p₁ now (pre ++ [(t, r)]) q')
      (fun q' => comparable p₁ (t, r) = false ∧ q'.emitted = q.emitted) q := by
  have hold : q.states t.trackId = some s := (hemitting.others _ hfresh).trans hs
  have hcomparison : comparison p₁ (t, r) =
      (q.gallery.match D (meanEmbedding (accumulate q.tick r s))).map Prod.fst := by
    rw [comparison, hemitting.gallery.match_eq, hemitting.tick_eq, Impl.stateOf_eq hs]
  rw [wp_recordRecognition hold]
  dsimp only
  split
  · rename_i e hmatch
    rw [hmatch] at hcomparison
    exact ⟨by rw [comparable, hcomparison]; rfl, rfl⟩
  · rename_i m gallery hmatch
    rw [hmatch] at hcomparison
    have hcompared : comparison p₁ (t, r) = .ok m := hcomparison
    refine ⟨isOk_eq_true_iff.mpr ⟨m, hcompared⟩, hemitting.cfg_eq, hemitting.tick_eq,
      (GalleryMatcher.same_of_match hmatch).trans hemitting.gallery, ?_, ?_, ?_, ?_⟩
    · intro id hid
      rw [List.map_append, List.map_singleton, List.mem_append, not_or, List.mem_singleton] at hid
      exact (Impl.setState_of_ne q _ hid.2).trans (hemitting.others id hid.1)
    · intro id hsome
      by_cases hid : id = t.trackId
      · subst hid
        exact Option.isSome_iff_exists.mpr ⟨_, Impl.setState_self q t.trackId _⟩
      · have hsame :
            (afterRecognition now t.trackId m gallery (accumulate q.tick r s) q).states id =
            q.states id := Impl.setState_of_ne q _ hid
        rw [hsame]
        exact hemitting.kept id hsome
    · intro i hnew
      by_cases hbefore : MatchesNew p₁ pre i
      · -- An entry that was written stays, even if it is written again.
        have hwritten := hemitting.emitted_new i hbefore
        by_cases hi : i = m.identityId
        · subst hi
          simp [afterRecognition, hwritten]
        · simp only [afterRecognition]
          split
          · rw [Function.update_of_ne hi, hwritten]
          · exact hwritten
      · obtain ⟨hnone, haccepts, rfl⟩ :=
          ((matchesNew_append hcompared).mp hnew).resolve_left hbefore
        have hunknown := (hemitting.emitted_old _ hbefore).trans hnone
        simp [afterRecognition, hemitting.cfg_eq, haccepts, hunknown]
    · intro i hnew
      have hboth := not_or.mp fun h => hnew ((matchesNew_append hcompared).mpr h)
      have hunchanged := hemitting.emitted_old i hboth.1
      by_cases hi : i = m.identityId
      · subst hi
        have hknown : ¬ (accepts q.cfg m = true ∧ (q.emitted m.identityId).isSome = false) := by
          rintro ⟨haccepts, hnone⟩
          rw [hunchanged, Option.isSome_eq_false_iff, Option.isNone_iff_eq_none] at hnone
          exact hboth.2 ⟨hnone, hemitting.cfg_eq ▸ haccepts, rfl⟩
        simp only [afterRecognition]
        rw [if_neg hknown, hunchanged]
      · simp only [afterRecognition]
        split
        · rw [Function.update_of_ne hi, hunchanged]
        · exact hunchanged

/-- The batch is recorded up to the first result that the gallery does not accept. -/
def recorded (p₁ : Impl F D) (entries : List (TrackResult F × ArcFaceResult F)) :
    List (TrackResult F × ArcFaceResult F) := entries.takeWhile (comparable p₁)

/-- The recognition loop records the whole batch, or throws behind the recorded results. The
invariant follows the batch, with the matches of the recorded part as the new entries. -/
theorem wp_recordRecognitions {entries : List (TrackResult F × ArcFaceResult F)}
    (hnodup : (entries.map (·.1.trackId)).Nodup)
    (hstates : ∀ entry ∈ entries, HasState p₁ entry.1.trackId fun _ => True) :
    wp (entries.foldlM (recordRecognition utcMs f now) [])
      (fun _ q => (∀ entry ∈ entries, comparable p₁ entry = true) ∧ Emitting p₁ now entries q)
      (fun q => (∃ entry ∈ entries, comparable p₁ entry = false) ∧
        (∀ i, MatchesNew p₁ (recorded p₁ entries) i → q.emitted i = some now) ∧
        ∀ i, ¬ MatchesNew p₁ (recorded p₁ entries) i → q.emitted i = p₁.emitted i) p₁ := by
  refine wp_foldlM (fun pre _ _ q =>
    (∀ entry ∈ pre, comparable p₁ entry = true) ∧ Emitting p₁ now pre q) ?_ ?_
  · refine ⟨by simp, rfl, rfl, .refl _, fun _ _ => rfl, fun _ h => h, ?_, fun _ _ => rfl⟩
    rintro i ⟨-, entry, hentry, -⟩
    cases hentry
  · rintro pre ⟨t, r⟩ post events q hsplit ⟨hcomparable, hemitting⟩
    have hmem : (t, r) ∈ entries := hsplit ▸ List.mem_append_right pre List.mem_cons_self
    obtain ⟨s, hs, -⟩ := hstates _ hmem
    have hfresh : t.trackId ∉ pre.map (·.1.trackId) := by
      intro h
      rw [hsplit, List.map_append, List.map_cons] at hnodup
      exact (List.nodup_append.mp hnodup).2.2 _ h _ List.mem_cons_self rfl
    refine wp_mono (hemitting.record hs hfresh) ?_ ?_
    · rintro events' q' ⟨hnow, hemitting'⟩
      refine ⟨fun entry hentry => ?_, hemitting'⟩
      rcases List.mem_append.mp hentry with hpre | hlast
      · exact hcomparable entry hpre
      · exact List.mem_singleton.mp hlast ▸ hnow
    · rintro q' ⟨hthrows, hq'⟩
      have hrecorded : recorded p₁ entries = pre := by
        rw [recorded, hsplit, List.takeWhile_append_of_pos hcomparable, List.takeWhile_cons]
        simp [hthrows]
      rw [hrecorded, hq']
      exact ⟨⟨_, hmem, hthrows⟩, hemitting.emitted_new, hemitting.emitted_old⟩

/-! ## When a frame is interrupted -/

/-- The gallery rejects the mean embedding of a track in the recognition batch, and an
earlier track of the batch matched an identity without a cooldown. (An identity can have an
entry of this very moment and no cooldown only when the configured cooldown does not fit into
64 bits; writing its entry again is no news.) -/
def Interrupted (evaluate : BiometricEvaluators F) (f : FaceTrackingFrame F) (now : ℤ)
    (p : Impl F D) : Prop :=
  ∃ arcTracks p₁ results, prepare evaluate f now p = .ok arcTracks p₁ ∧
    evaluate.recognize f.gpuFrame (arcTracks.map (·.observation)) = .ok results ∧
    results.length = arcTracks.length ∧
    (∃ entry ∈ arcTracks.zip results, comparable p₁ entry = false) ∧
    ∃ i, MatchesNew p₁ (recorded p₁ (arcTracks.zip results)) i ∧ p.emitted i ≠ some now

/-- The recognition stage of a prepared call records the batch, or throws. When it throws
behind a match of an identity without a cooldown, the batch is interrupted. -/
theorem Prepared.wp_recognizeTracks {arcTracks : List (TrackResult F)}
    (hprepared : Prepared p f now arcTracks p₁) :
    wp (recognizeTracks evaluate utcMs f now arcTracks)
      (fun _ q => (∀ t ∈ f.tracks, HasState q t.trackId fun _ => True) ∧
        ∀ results, evaluate.recognize f.gpuFrame (arcTracks.map (·.observation)) = .ok results →
          ∀ entry ∈ arcTracks.zip results, comparable p₁ entry = true)
      (fun q => ∀ i,
        (q.emitted i = some now ∧ ∃ results,
          evaluate.recognize f.gpuFrame (arcTracks.map (·.observation)) = .ok results ∧
          results.length = arcTracks.length ∧
          (∃ entry ∈ arcTracks.zip results, comparable p₁ entry = false) ∧
          MatchesNew p₁ (recorded p₁ (arcTracks.zip results)) i) ∨
        (q.emitted i = p₁.emitted i ∧ ∀ results,
          evaluate.recognize f.gpuFrame (arcTracks.map (·.observation)) = .ok results →
          results.length = arcTracks.length →
          ¬ MatchesNew p₁ (recorded p₁ (arcTracks.zip results)) i)) p₁ := by
  obtain ⟨test, hbatch⟩ := hprepared.batch
  unfold recognizeTracks
  rw [wp_ite]
  refine ⟨fun hnone => ?_, fun _ => ?_⟩
  · refine ⟨hprepared.states, fun results _ entry hentry => ?_⟩
    rw [hnone] at hentry
    cases hentry
  rw [wp_bind, wp_modify]
  cases hok : evaluate.recognize f.gpuFrame (arcTracks.map (·.observation)) with
  | error e => exact fun i => Or.inr ⟨rfl, nofun⟩
  | ok results =>
    rw [wp_ite]
    refine ⟨fun hlength i => Or.inr ⟨rfl, ?_⟩, fun hlength => ?_⟩
    · rintro results' heq hlength'
      cases heq
      exact absurd hlength' hlength
    have hanswered : Answered evaluate.recognize f (f.tracks.filter test) (arcTracks.zip results) :=
      hbatch ▸ answered_zip hok (not_not.mp hlength)
    have hstates : ∀ entry ∈ arcTracks.zip results,
        HasState (p₁.hand .recognize arcTracks) entry.1.trackId fun _ => True := by
      intro entry hentry
      refine hprepared.states _ ?_
      have hmem : entry.1 ∈ arcTracks := (List.of_mem_zip hentry).1
      rw [hbatch] at hmem
      exact List.mem_of_mem_filter hmem
    refine wp_mono (wp_recordRecognitions (hanswered.nodup hprepared.tracks_nodup) hstates) ?_ ?_
    · rintro events q ⟨hcomparable, hemitting⟩
      refine ⟨fun t ht => ?_, ?_⟩
      · obtain ⟨s, hs, -⟩ := hprepared.states t ht
        have hsome := hemitting.kept t.trackId (Option.isSome_iff_exists.mpr ⟨s, hs⟩)
        obtain ⟨s', hs'⟩ := Option.isSome_iff_exists.mp hsome
        exact ⟨s', hs', trivial⟩
      · rintro results' heq
        cases heq
        exact hcomparable
    · rintro q ⟨hthrows, hnew, hold⟩ i
      by_cases hmatches : MatchesNew p₁ (recorded p₁ (arcTracks.zip results)) i
      · exact Or.inl ⟨hnew i hmatches, results, rfl, not_not.mp hlength, hthrows, hmatches⟩
      · refine Or.inr ⟨hold i hmatches, ?_⟩
        rintro results' heq -
        cases heq
        exact hmatches

/-- The call throws, and leaves a cooldown for which it returned no event. -/
def Silences (evaluate : BiometricEvaluators F) (utcMs : ℕ → ℤ) (f : FaceTrackingFrame F) (now : ℤ)
    (p : Impl F D) : Prop :=
  ∃ e q, process evaluate utcMs f now p = .error e q ∧
    ∃ i t, q.emitted i = some t ∧ p.emitted i ≠ some t

/-- A call that throws without an interruption adds no cooldown. So some entry was added in the
recognition batch, in front of a result that throws. -/
theorem interrupted_of_silences (hsilences : Silences evaluate utcMs f now p) :
    Interrupted evaluate f now p := by
  obtain ⟨e, q, hrun, i, t, hq, hp⟩ := hsilences
  have hdescribed : wp (process evaluate utcMs f now) (fun _ _ => True)
      (fun q => Interrupted evaluate f now p ∨ ∀ i t, q.emitted i = some t → p.emitted i = some t)
      p := by
    rw [process_eq, wp_bind]
    refine wp_mono (wp_and wp_prepare (wp_run _)) ?_ fun q h => Or.inr h.1
    rintro arcTracks p₁ ⟨hprepared, hprepare⟩
    rw [wp_bind]
    refine wp_mono hprepared.wp_recognizeTracks ?_ ?_
    · rintro events q ⟨hstates, -⟩
      rw [wp_bind]
      exact wp_mono (wp_takeSnapshots hstates) (fun _ _ _ => trivial) fun _ => False.elim
    · intro q hq
      by_cases hnew : ∃ i, q.emitted i ≠ p₁.emitted i ∧ p.emitted i ≠ some now
      · obtain ⟨i, hi, hbefore⟩ := hnew
        rcases hq i with ⟨-, results, hok, hlength, hthrows, hmatches⟩ | ⟨hsame, -⟩
        · exact Or.inl ⟨arcTracks, p₁, results, hprepare, hok, hlength, hthrows, i, hmatches,
            hbefore⟩
        · exact absurd hsame hi
      · refine Or.inr fun i t ht => ?_
        rcases hq i with ⟨hnow, -⟩ | ⟨hsame, -⟩
        · by_contra hbefore
          rw [hnow] at ht
          obtain rfl := Option.some.inj ht
          refine hnew ⟨i, fun hsame => hbefore ?_, hbefore⟩
          rw [hnow, hprepared.emitted_eq] at hsame
          exact emitted_accept hsame.symm
        · rw [hsame, hprepared.emitted_eq] at ht
          exact emitted_accept ht
  have hcases := wp_error hdescribed hrun
  exact hcases.resolve_right fun h => hp (h i t hq)

/-- An interrupted call throws, and leaves the cooldown of the match. The event of that match is
lost with the local frame. -/
theorem silences_of_interrupted (hinterrupted : Interrupted evaluate f now p) :
    Silences evaluate utcMs f now p := by
  obtain ⟨arcTracks, p₁, results, hprepare, hok, hlength, hthrows, i, hmatches, hbefore⟩ :=
    hinterrupted
  have hprepared : Prepared p f now arcTracks p₁ := wp_ok wp_prepare hprepare
  have hdescribed : wp (process evaluate utcMs f now) (fun _ _ => False)
      (fun q => q.emitted i = some now) p := by
    rw [process_eq, wp_bind]
    refine wp_mono (wp_run_ok hprepare) ?_ fun _ => False.elim
    rintro arcTracks' p₁' ⟨rfl, rfl⟩
    rw [wp_bind]
    refine wp_mono hprepared.wp_recognizeTracks ?_ ?_
    · rintro events q ⟨-, hcomparable⟩
      obtain ⟨entry, hentry, hrejected⟩ := hthrows
      rw [hcomparable results hok entry hentry] at hrejected
      cases hrejected
    · intro q hq
      rcases hq i with ⟨hnow, -⟩ | ⟨-, hnone⟩
      · exact hnow
      · exact absurd hmatches (hnone results hok hlength)
  cases hrun : process evaluate utcMs f now p with
  | ok frame q => exact (wp_ok hdescribed hrun).elim
  | error e q =>
    have hnow := wp_error hdescribed hrun
    exact ⟨e, q, hrun, i, now, hnow, hbefore⟩

/-- A call that throws leaves no cooldown without an event, unless it is interrupted, and
then it does. -/
theorem no_cooldown_without_event_iff :
    (∀ e q, process evaluate utcMs f now p = .error e q →
      ∀ i t, q.emitted i = some t → p.emitted i = some t) ↔ ¬ Interrupted evaluate f now p := by
  constructor
  · intro hall hinterrupted
    obtain ⟨e, q, hrun, i, t, hq, hp⟩ := silences_of_interrupted hinterrupted
    exact hp (hall e q hrun i t hq)
  · intro hnot e q hrun i t hq
    by_contra hp
    exact hnot (interrupted_of_silences ⟨e, q, hrun, i, t, hq, hp⟩)

/-! ## A sample in exact arithmetic -/

/-- A configuration in which one live vote suffices. -/
def promptConfig : BiometricAttendanceConfig (Extended ℚ) where
  padBonaFideVotesRequired := 1
  recognitionSimilarityThreshold := lit 0.5
  calibrationId := "walk-through"

/-- Two tracks that observe a face on the alignment template. -/
def pairedFrame : FaceTrackingFrame (Extended ℚ) where
  gpuFrame := ⟨1⟩
  tracks := [7, 8].map fun trackId => {
    trackId, x1 := lit 0, y1 := lit 0, x2 := lit 112, y2 := lit 112, score := lit 0.9
    state := .tracked, startFrame := 1, frameId := 1, trackletLen := 1
    hasObservation := true
    observation := ⟨lit 0, lit 0, lit 112, lit 112, lit 0.9, arcFaceTarget.points⟩ }

/-- Models that find every face live, and whose second embedding is not a number. -/
def defectiveEvaluators : BiometricEvaluators (Extended ℚ) where
  pad _ faces := .ok (faces.map fun _ => ⟨some (lit 0.99), .live⟩)
  recognize _ _ := .ok [⟨firstAxis⟩, ⟨fun _ => .nan⟩]

/-- A processor with one template. -/
def visitorProcessor : Impl (Extended ℚ) (Extended ℚ) :=
  afterCalls (Extended ℚ) promptConfig [.setGallery [⟨"visitor", firstAxis⟩]]

/-- The call for the two tracks throws and leaves the cooldown of the visitor. Both tracks are in
the recognition batch of one frame. -/
theorem sample_silences :
    Silences defectiveEvaluators (fun _ => 0) pairedFrame 1 visitorProcessor := by
  have hrun : (match process defectiveEvaluators (fun _ => 0) pairedFrame 1 visitorProcessor with
      | .ok _ _ => false
      | .error _ q =>
        q.emitted "visitor" = some 1 && visitorProcessor.emitted "visitor" = none) = true := by
    decide +kernel
  split at hrun
  · cases hrun
  · rename_i e q hprocess
    obtain ⟨hafter, hbefore⟩ := Bool.and_eq_true_iff.mp hrun
    refine ⟨e, q, hprocess, "visitor", 1, of_decide_eq_true hafter, ?_⟩
    rw [of_decide_eq_true hbefore]
    exact nofun

/-- A call that throws can leave a cooldown for which no event was returned. -/
theorem cooldown_without_event :
    ¬ ∀ e q, process defectiveEvaluators (fun _ => 0) pairedFrame 1 visitorProcessor = .error e q →
      ∀ i t, q.emitted i = some t → visitorProcessor.emitted i = some t := by
  intro hall
  obtain ⟨e, q, hrun, i, t, hafter, hbefore⟩ := sample_silences
  exact hbefore (hall e q hrun i t hafter)

/-- The call for the two tracks is interrupted. -/
theorem sample_interrupted : Interrupted defectiveEvaluators pairedFrame 1 visitorProcessor := by
  by_contra hnot
  obtain ⟨e, q, hrun, i, t, hafter, hbefore⟩ := sample_silences
  exact hbefore (no_cooldown_without_event_iff.mpr hnot e q hrun i t hafter)

end EdgeClient.Vision.AttendanceProcessor
