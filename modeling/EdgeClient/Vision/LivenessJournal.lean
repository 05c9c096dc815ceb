import EdgeClient.Vision.ExtraAttempts

/-!
# The journal of liveness answers

The gate counts what the processor has recorded in the state of a track. Here the records
are compared with what the liveness model answered. A journal keeps for every track the
answers of the model since the state of the track was created or reset. It is computed
from the crops that each call handed to the model and from the model, not from the states,
and in a call that throws it ends where the processor refuses an answer.
-/

namespace EdgeClient.Vision.AttendanceProcessor

open Basis

variable {F D : Type} [FloatOps F] [FloatOps D]

/-! ## What the model answered -/

/-- The crops that the last call handed to the liveness model, in the order of the batch. -/
def Impl.padCrops (p : Impl F D) : List (TrackResult F) :=
  p.evaluations.filterMap fun
    | .pad t _ => some t
    | .recognize _ _ => none

/-- Whether the processor refuses an answer and throws: a rejected crop with a score, another
crop without one, or a score that is not a probability. -/
def refused (c : BiometricAttendanceConfig F) (r : LivenessResult F) : Bool :=
  if r.decision = .inputRejected then r.liveScore.isSome
  else
    match r.liveScore with
    | none => true
    | some score => (classifyScore score c.pad.liveThreshold).toOption.isNone

/-- What the journal keeps of an answer: its score, and nothing for a rejected crop. -/
def padLine (now : ℤ) (entry : TrackResult F × LivenessResult F) : Option (PadRecord F) :=
  if entry.2.decision = .inputRejected then none
  else entry.2.liveScore.map fun score => ⟨now, entry.1, score⟩

/-- The answers that a call can record: those of the model to the crops, paired by position,
up to the first one that is refused. -/
def padAnswers (c : BiometricAttendanceConfig F) (evaluate : BiometricEvaluators F)
    (f : FaceTrackingFrame F) (crops : List (TrackResult F)) :
    List (TrackResult F × LivenessResult F) :=
  match evaluate.pad f.gpuFrame (crops.map (·.observation)) with
  | .error _ => []
  | .ok results =>
    if results.length = crops.length then
      (crops.zip results).takeWhile fun entry => !refused c entry.2
    else []

/-- The lines of the journal for one track. -/
def padLines (now : ℤ) (entries : List (TrackResult F × LivenessResult F)) (id : ℕ) :
    List (PadRecord F) :=
  (entries.filter fun entry => entry.1.trackId = id).filterMap (padLine now)

omit [FloatOps F] in
/-- Another answer adds a line for its own track. -/
theorem padLines_append_self (now : ℤ) (entries : List (TrackResult F × LivenessResult F))
    (t : TrackResult F) (r : LivenessResult F) :
    padLines now (entries ++ [(t, r)]) t.trackId =
      padLines now entries t.trackId ++ (padLine now (t, r)).toList := by
  unfold padLines
  rw [List.filter_append, List.filterMap_append, List.filter_cons_of_pos (by simp),
    List.filter_nil]
  cases hline : padLine now (t, r) <;> simp [hline]

omit [FloatOps F] in
/-- Another answer adds nothing for the other tracks. -/
theorem padLines_append_of_ne (now : ℤ) (entries : List (TrackResult F × LivenessResult F))
    {t : TrackResult F} (r : LivenessResult F) {id : ℕ} (hne : id ≠ t.trackId) :
    padLines now (entries ++ [(t, r)]) id = padLines now entries id := by
  unfold padLines
  rw [List.filter_append, List.filter_cons_of_neg (by simpa using hne.symm), List.filter_nil,
    List.append_nil]

/-- Without crops there are no answers. -/
theorem padAnswers_nil (c : BiometricAttendanceConfig F) (evaluate : BiometricEvaluators F)
    (f : FaceTrackingFrame F) : padAnswers c evaluate f [] = [] := by
  unfold padAnswers
  split
  · rfl
  · split <;> rfl

section Journal

variable [FloatPair F D]

/-- The journal of every track after a call. A frame that is not admitted changes nothing; in
an admitted one the journal of a track goes on when its state outlives the beginning of the
frame, and the answers of the call are added. -/
def Call.notePad (call : Call F) (p : Impl F D) (journal : ℕ → List (PadRecord F)) :
    ℕ → List (PadRecord F) :=
  match call with
  | .process evaluate utcMs f now => fun id =>
    if p.admits f now then
      (if p.outlives f now id then journal id else []) ++
        padLines now (padAnswers p.cfg evaluate f
          (finalState (AttendanceProcessor.process evaluate utcMs f now p)).padCrops) id
    else journal id
  | .setGallery templates =>
    match GalleryMatcher.replace D templates with
    | .error _ => journal
    | .ok _ => fun _ => []
  | .reset => fun _ => []

/-- The processor and the journal after a call. -/
def Call.performPad (call : Call F) (x : Impl F D × (ℕ → List (PadRecord F))) :
    Impl F D × (ℕ → List (PadRecord F)) :=
  (call.perform x.1, call.notePad x.1 x.2)

/-- The journal of every track after a sequence of calls to a new processor. -/
def padJournal (D : Type) [FloatOps D] [FloatPair F D] (c : BiometricAttendanceConfig F)
    (calls : List (Call F)) : ℕ → List (PadRecord F) :=
  (runFrom Call.performPad (({ cfg := c } : Impl F D), fun _ => []) calls).2

end Journal

/-! ## The records are the journal -/

/-- Storing the state of a track changes the state of that track. -/
theorem Impl.stateOf_setState_self (p : Impl F D) (id : ℕ) (s : State F D) :
    (p.setState id s).stateOf id = s := Impl.stateOf_eq (Impl.setState_self p id s)

/-- Storing the state of a track changes no other state. -/
theorem Impl.stateOf_setState_of_ne (p : Impl F D) {id other : ℕ} (s : State F D)
    (hne : other ≠ id) : (p.setState id s).stateOf other = p.stateOf other := by
  rw [Impl.stateOf, Impl.setState_of_ne p s hne, Impl.stateOf]

/-- In the middle of a call the states hold the records of a journal, the given crops went to
the liveness model, and crops went to recognition together with the records of their tracks. -/
structure Journaled (journal : ℕ → List (PadRecord F)) (crops : List (TrackResult F))
    (q : Impl F D) : Prop where
  /-- The records of every state. -/
  records : ∀ id, (q.stateOf id).records = journal id
  /-- The liveness batch. -/
  crops_eq : q.padCrops = crops
  /-- The recognition batch. -/
  handed : ∀ t s, .recognize t s ∈ q.evaluations → s.records = journal t.trackId

variable {journal : ℕ → List (PadRecord F)} {crops : List (TrackResult F)} {p q : Impl F D}

/-- Storing a state with the same records keeps the relation. -/
theorem Journaled.setState {id : ℕ} {s s' : State F D} (hjournaled : Journaled journal crops q)
    (hs : q.states id = some s) (hsame : s'.records = s.records) :
    Journaled journal crops (q.setState id s') where
  records other := by
    by_cases hother : other = id
    · subst hother
      rw [Impl.stateOf_setState_self, hsame, ← Impl.stateOf_eq hs]
      exact hjournaled.records other
    · rw [Impl.stateOf_setState_of_ne q s' hother]
      exact hjournaled.records other
  crops_eq := hjournaled.crops_eq
  handed := hjournaled.handed

/-- A computation on the state of a track that leaves the records alone keeps the relation. -/
theorem Journaled.atTrack {α : Type} {id : ℕ} {m : EStateM String (State F D) α}
    (hjournaled : Journaled journal crops q)
    (hm : ∀ s, wp m (fun _ s' => s'.records = s.records) (fun s' => s'.records = s.records) s) :
    wp (atTrack id m) (fun _ q => Journaled journal crops q) (Journaled journal crops) q := by
  rw [wp_atTrack]
  refine ⟨fun _ => hjournaled, fun s hs => ?_⟩
  exact wp_mono (hm s) (fun _ _ hsame => hjournaled.setState hs hsame)
    fun _ hsame => hjournaled.setState hs hsame

/-- Handing crops to the recognition model keeps the relation. The new crops are handed over
together with the states as they are. -/
theorem Journaled.handRecognize (hjournaled : Journaled journal crops q)
    (tracks : List (TrackResult F)) : Journaled journal crops (q.hand .recognize tracks) where
  records := hjournaled.records
  crops_eq := by
    have hcrops : (q.hand .recognize tracks).padCrops = q.padCrops := by
      simp [Impl.padCrops, Impl.hand, List.filterMap_map]
    rw [hcrops]
    exact hjournaled.crops_eq
  handed t s hmem := by
    rcases List.mem_append.mp hmem with hold | hnew
    · exact hjournaled.handed t s hold
    · obtain ⟨u, -, heq⟩ := List.mem_map.mp hnew
      cases heq
      exact hjournaled.records t.trackId

/-- Recording an answer adds its line to the records of the state. The processor throws just
when it refuses the answer, and then it adds nothing. -/
theorem records_recordPad {c : BiometricAttendanceConfig F} {tick : ℕ} {now : ℤ}
    {t : TrackResult F} {r : LivenessResult F} {s : State F D} :
    wp (recordPad c tick now t r)
      (fun _ s' => refused c r = false ∧ s'.records = s.records ++ (padLine now (t, r)).toList)
      (fun s' => refused c r = true ∧ s'.records = s.records) s := by
  unfold recordPad refused padLine
  rw [wp_bind, wp_modify, wp_ite]
  refine ⟨fun hrejected => ?_, fun hevaluated => ?_⟩
  · rw [wp_ite, if_pos hrejected, if_pos hrejected]
    exact ⟨fun hscore => ⟨hscore, rfl⟩,
      fun hscore => ⟨Bool.eq_false_iff.mpr hscore, (List.append_nil _).symm⟩⟩
  · rw [if_neg hevaluated, if_neg hevaluated]
    cases r.liveScore with
    | none => exact ⟨rfl, rfl⟩
    | some score =>
      dsimp only
      cases classifyScore score c.pad.liveThreshold with
      | error e => exact ⟨rfl, rfl⟩
      | ok decision => exact ⟨rfl, rfl⟩

/-- The liveness stage adds the answers of the call to the journal, whether it returns or
throws. -/
theorem Journaled.checkPad (evaluate : BiometricEvaluators F) (f : FaceTrackingFrame F) (now : ℤ)
    {padTracks : List (TrackResult F)} (hjournaled : Journaled journal [] q)
    (hnone : q.evaluations = []) (hstates : ∀ t ∈ padTracks, HasState q t.trackId fun _ => True) :
    wp (checkPad evaluate f now padTracks)
      (fun _ => Journaled (fun id => journal id ++
        padLines now (padAnswers q.cfg evaluate f padTracks) id) padTracks)
      (Journaled (fun id => journal id ++
        padLines now (padAnswers q.cfg evaluate f padTracks) id) padTracks) q := by
  unfold AttendanceProcessor.checkPad
  rw [wp_ite]
  refine ⟨fun hempty => ?_, fun _ => ?_⟩
  · rw [hempty, padAnswers_nil, wp_pure]
    simpa [padLines] using hjournaled
  rw [wp_bind, wp_modify]
  -- The recognition model has seen nothing yet.
  have hpads : ∀ t s, .recognize t s ∉ (q.hand .pad padTracks).evaluations := by
    intro t s hmem
    simp [Impl.hand, hnone] at hmem
  have hcrops : (q.hand .pad padTracks).padCrops = padTracks := by
    simp [Impl.padCrops, Impl.hand, hnone, List.filterMap_map]
  have hsilent : Journaled (fun id => journal id ++ padLines now [] id) padTracks
      (q.hand .pad padTracks) := by
    refine ⟨fun id => ?_, hcrops, fun t s hmem => absurd hmem (hpads t s)⟩
    exact (hjournaled.records id).trans (List.append_nil _).symm
  unfold padAnswers
  cases evaluate.pad f.gpuFrame (padTracks.map (·.observation)) with
  | error e => exact hsilent
  | ok results =>
    dsimp only
    rw [wp_ite]
    refine ⟨fun hlength => ?_, fun hlength => ?_⟩
    · rw [if_neg hlength, wp_throw]
      exact hsilent
    rw [if_pos (not_not.mp hlength)]
    refine wp_mono (wp_foldlM (fun pre _ _ p =>
      Journaled (fun id => journal id ++ padLines now pre id) padTracks p ∧
      (∀ entry ∈ pre, refused q.cfg entry.2 = false) ∧ p.cfg = q.cfg ∧
      p.evaluations = (q.hand .pad padTracks).evaluations ∧
      ∀ t ∈ padTracks, HasState p t.trackId fun _ => True)
      ⟨hsilent, by simp, rfl, rfl, hstates⟩ ?_) ?_ fun _ => id
    · rintro pre ⟨t, r⟩ post _ p hsplit ⟨hjournaled, haccepted, hcfg, hevaluations, hstates⟩
      have hmem : t ∈ padTracks :=
        (List.of_mem_zip (hsplit ▸ List.mem_append_right pre (List.mem_cons_self ..))).1
      obtain ⟨s, hs, -⟩ := hstates t hmem
      have hrecords : s.records = journal t.trackId ++ padLines now pre t.trackId := by
        rw [← hjournaled.records, Impl.stateOf_eq hs]
      rw [wp_bind, wp_get, wp_atTrack_some hs, hcfg]
      refine wp_mono records_recordPad ?_ ?_
      · rintro - s' ⟨haccepts, hs'⟩
        refine ⟨⟨fun id => ?_, hjournaled.crops_eq, fun u s hu => ?_⟩, fun entry hentry => ?_,
          hcfg, hevaluations, fun u hu => (hstates u hu).setState hs id⟩
        · by_cases hid : id = t.trackId
          · subst hid
            rw [Impl.stateOf_setState_self, hs', hrecords, padLines_append_self,
              List.append_assoc]
          · rw [Impl.stateOf_setState_of_ne p s' hid, hjournaled.records,
              padLines_append_of_ne now pre r hid]
        · rw [Impl.setState_evaluations, hevaluations] at hu
          exact absurd hu (hpads u s)
        · rcases List.mem_append.mp hentry with hold | hnew
          · exact haccepted entry hold
          · obtain rfl := List.mem_singleton.mp hnew
            exact haccepts
      · rintro s' ⟨hrefuses, hs'⟩
        have hearlier : (padTracks.zip results).takeWhile (fun entry => !refused q.cfg entry.2) =
            pre := by
          rw [hsplit, List.takeWhile_append_of_pos (by simpa using haccepted), List.takeWhile_cons]
          simp [hrefuses]
        rw [hearlier]
        exact hjournaled.setState hs hs'
    · rintro _ p ⟨hjournaled, haccepted, -⟩
      rw [List.takeWhile_eq_self_iff.mpr (by simpa using haccepted)]
      exact hjournaled

section Stages

variable [FloatPair F D] {evaluate : BiometricEvaluators F} {utcMs : ℕ → ℤ}
  {f : FaceTrackingFrame F} {now : ℤ}

/-- Scheduling drops the records of a state that starts over, and keeps the others. Opening a
deferred conclusion again does not touch them. -/
theorem records_schedule {c : BiometricAttendanceConfig F} {n tick : ℕ} {t : TrackResult F}
    {s : State F D} :
    (schedule c n tick now t s).1.records = if startsOver c now s then [] else s.records := by
  have hrefreshed : (refreshed c tick now s).records =
      if startsOver c now s then [] else s.records := by
    unfold refreshed
    split <;> rfl
  have hreopened : (reopenDeferred (refreshed c tick now s)).records =
      (refreshed c tick now s).records := by
    unfold reopenDeferred
    split <;> rfl
  rw [schedule_eq, ← hrefreshed]
  split
  · rfl
  · dsimp only
    split
    · exact hreopened
    · exact hreopened

/-- The journal belongs to the states. -/
def PadNoted (x : Impl F D × (ℕ → List (PadRecord F))) : Prop :=
  ∀ id, (x.1.stateOf id).records = x.2 id

/-- After the first loop a state has the part of the journal that outlives the beginning of
the frame. -/
theorem PadNoted.scheduleTracks (hnoted : PadNoted (p, journal))
    (hnodup : (f.tracks.map (·.trackId)).Nodup) :
    wp (f.tracks.foldlM (scheduleTrack now) [])
      (fun padTracks q => Journaled
          (fun id => if p.outlives f now id then journal id else []) [] q ∧
        q.evaluations = [] ∧ q.cfg = p.cfg ∧
        (∀ t ∈ padTracks, t ∈ f.tracks) ∧ ∀ t ∈ f.tracks, HasState q t.trackId fun _ => True)
      (fun _ => False) (p.accept f now) := by
  refine wp_mono (wp_scheduleTracks hnodup) ?_ fun _ => id
  rintro padTracks q ⟨rfl, hrest, hstates, hothers⟩
  have hevaluations : q.evaluations = [] := by
    rw [hrest]
    rfl
  have hcfg : q.cfg = p.cfg := by
    rw [hrest]
    rfl
  have haccepted : ∀ id, ((p.accept f now).stateOf id).records =
      if ((p.accept f now).states id).isSome then journal id else [] := by
    intro id
    cases hs : (p.accept f now).states id with
    | none => rw [Impl.stateOf, hs, Option.getD_none]; rfl
    | some s =>
      have hjournal : (p.stateOf id).records = journal id := hnoted id
      have hold : p.states id = some s := (Option.filter_eq_some_iff.mp hs).1
      rw [Impl.stateOf_eq hs, ← hjournal, Impl.stateOf_eq hold]
      rfl
  refine ⟨⟨fun id => ?_, ?_, ?_⟩, hevaluations, hcfg, fun t => List.mem_of_mem_filter, ?_⟩
  · by_cases hid : id ∈ f.tracks.map (·.trackId)
    · obtain ⟨t, ht, rfl⟩ := List.mem_map.mp hid
      obtain ⟨s, hs, rfl⟩ := hstates t ht
      rw [Impl.stateOf_eq hs, scheduled, records_schedule, haccepted, outlives_eq ht]
    · have hany : f.tracks.any (fun t => t.trackId = id) = false := by
        simpa using fun (t : TrackResult F) ht (heq : t.trackId = id) =>
          hid (heq ▸ List.mem_map_of_mem ht)
      have hsame : q.stateOf id = (p.accept f now).stateOf id := by
        rw [Impl.stateOf, hothers id hid, Impl.stateOf]
      rw [hsame, haccepted, Impl.outlives, hany]
      cases (p.accept f now).states id <;> rfl
  · rw [Impl.padCrops, hevaluations]
    rfl
  · rw [hevaluations]
    simp
  · intro t ht
    obtain ⟨s, hs, -⟩ := hstates t ht
    exact ⟨s, hs, trivial⟩

/-- The selection leaves the records alone. -/
theorem Journaled.selectTracks (hjournaled : Journaled journal crops q) :
    wp (f.tracks.foldlM selectTrack []) (fun _ => Journaled journal crops)
      (Journaled journal crops) q := by
  refine wp_foldlM (fun _ _ _ => Journaled journal crops) hjournaled ?_
  intro pre t post arcTracks p _ hjournaled
  unfold selectTrack
  rw [wp_bind, wp_get]
  refine hjournaled.atTrack fun s => ?_
  rw [wp_bind, wp_get, wp_ite]
  exact ⟨fun _ => rfl, fun _ => rfl⟩

/-- The recognition stage leaves the records alone. Also where it throws behind some of the
results. -/
theorem Journaled.recognizeTracks {arcTracks : List (TrackResult F)}
    (hjournaled : Journaled journal crops q) :
    wp (recognizeTracks evaluate utcMs f now arcTracks) (fun _ => Journaled journal crops)
      (Journaled journal crops) q := by
  unfold AttendanceProcessor.recognizeTracks
  rw [wp_ite]
  refine ⟨fun _ => hjournaled, fun _ => ?_⟩
  rw [wp_bind, wp_modify]
  have hhanded := hjournaled.handRecognize arcTracks
  cases evaluate.recognize f.gpuFrame (arcTracks.map (·.observation)) with
  | error e => exact hhanded
  | ok results =>
    rw [wp_ite]
    refine ⟨fun _ => hhanded, fun _ => ?_⟩
    refine wp_foldlM (fun _ _ _ => Journaled journal crops) hhanded ?_
    intro pre entry post events p _ hjournaled
    unfold recordRecognition
    rw [wp_bind, wp_get, wp_bind]
    refine wp_mono (hjournaled.atTrack fun s => rfl) ?_ fun _ => id
    intro mean p₁ hjournaled₁
    rw [wp_bind, wp_matchGallery]
    cases p₁.gallery.match D mean with
    | error e => exact hjournaled₁
    | ok compared =>
      have hcompared : Journaled journal crops { p₁ with gallery := compared.2 } :=
        ⟨hjournaled₁.records, hjournaled₁.crops_eq, hjournaled₁.handed⟩
      refine (wp_bind _ _).mpr (wp_mono (hcompared.atTrack fun s => ?_) ?_ fun _ => id)
      · obtain ⟨phase, terminal, hconclude⟩ := conclude_eq p.cfg now
          (p.emitted compared.1.identityId).isSome { s with «match» := compared.1 }
        rw [wp_bind, wp_modify, wp_get, hconclude]
      · intro s p₂ hjournaled₂
        rw [wp_ite]
        exact ⟨fun _ => ⟨hjournaled₂.records, hjournaled₂.crops_eq, hjournaled₂.handed⟩,
          fun _ => hjournaled₂⟩

omit [FloatPair F D] in
/-- The snapshots leave the records alone. -/
theorem Journaled.takeSnapshots (hjournaled : Journaled journal crops q) :
    wp (f.tracks.foldlM takeSnapshot []) (fun _ => Journaled journal crops)
      (Journaled journal crops) q := by
  refine wp_foldlM (fun _ _ _ => Journaled journal crops) hjournaled ?_
  intro pre t post snapshots p _ hjournaled
  exact hjournaled.atTrack fun s => rfl

/-- After a call, whether it returned or threw, the states hold the records of the journal. The
stages are gone through one after the other; only the liveness stage adds to the journal. -/
theorem PadNoted.process (hnoted : PadNoted (p, journal)) (evaluate : BiometricEvaluators F)
    (utcMs : ℕ → ℤ) (f : FaceTrackingFrame F) (now : ℤ) :
    Journaled ((Call.process evaluate utcMs f now).notePad p journal)
      (finalState (AttendanceProcessor.process evaluate utcMs f now p)).padCrops
      (finalState (AttendanceProcessor.process evaluate utcMs f now p)) := by
  suffices h : wp (AttendanceProcessor.process evaluate utcMs f now)
      (fun _ q => Journaled (fun id => if p.admits f now then
        (if p.outlives f now id then journal id else []) ++
          padLines now (padAnswers p.cfg evaluate f q.padCrops) id else journal id) q.padCrops q)
      (fun q => Journaled (fun id => if p.admits f now then
        (if p.outlives f now id then journal id else []) ++
          padLines now (padAnswers p.cfg evaluate f q.padCrops) id else journal id) q.padCrops q)
      p by
    have hfinal := wp_finalState h
    exact hfinal
  unfold AttendanceProcessor.process
  rw [wp_bind, wp_modify, wp_bind]
  refine wp_mono wp_beginFrame ?_ ?_
  swap
  · rintro q ⟨hadmits, rfl⟩
    have hadmits : p.admits f now = false := hadmits
    simp only [hadmits, Bool.false_eq_true, if_false]
    exact ⟨hnoted, rfl, fun t s hmem => by cases hmem⟩
  rintro - q ⟨hadmits, -, -, -, hnodup, hq⟩
  have hadmits : p.admits f now = true := hadmits
  have hq : q = p.accept f now := hq
  subst hq
  simp only [hadmits, if_true]
  -- Once the liveness batch is known, so is the journal of the call.
  have hend : ∀ {padTracks : List (TrackResult F)} (q : Impl F D),
      Journaled (fun id => (if p.outlives f now id then journal id else []) ++
        padLines now (padAnswers p.cfg evaluate f padTracks) id) padTracks q →
      Journaled (fun id => (if p.outlives f now id then journal id else []) ++
        padLines now (padAnswers p.cfg evaluate f q.padCrops) id) q.padCrops q := by
    intro padTracks q hjournaled
    rw [hjournaled.crops_eq]
    exact hjournaled
  rw [wp_bind]
  refine wp_mono (hnoted.scheduleTracks hnodup) ?_ fun _ => False.elim
  rintro padTracks q ⟨hjournaled, hnone, hcfg, hsub, hstates⟩
  rw [wp_bind]
  have hchecked := hjournaled.checkPad evaluate f now hnone
    fun t ht => hstates t (hsub t ht)
  rw [hcfg] at hchecked
  refine wp_mono hchecked ?_ hend
  rintro - q hjournaled
  rw [wp_bind]
  refine wp_mono hjournaled.selectTracks ?_ hend
  rintro arcTracks q hjournaled
  rw [wp_bind]
  refine wp_mono hjournaled.recognizeTracks ?_ hend
  rintro events q hjournaled
  rw [wp_bind]
  exact wp_mono hjournaled.takeSnapshots (fun _ q h => hend q h) hend

/-- Every call keeps the journal, also one that throws. -/
theorem PadNoted.perform {call : Call F} {x : Impl F D × (ℕ → List (PadRecord F))}
    (hnoted : PadNoted x) : PadNoted (call.performPad x) := by
  obtain ⟨p, journal⟩ := x
  cases call with
  | process evaluate utcMs f now => exact (hnoted.process evaluate utcMs f now).records
  | setGallery templates =>
    intro id
    dsimp only [Call.performPad, Call.perform, AttendanceProcessor.setGallery, Call.notePad]
    cases GalleryMatcher.replace D templates with
    | error e => exact hnoted id
    | ok gallery => rfl
  | reset => exact fun id => rfl

/-- After every sequence of calls the states hold the records of the journal. The first component
of the run with the journal is the run without it. -/
theorem padNoted_afterCalls (c : BiometricAttendanceConfig F) (calls : List (Call F)) :
    PadNoted (afterCalls D c calls, padJournal D c calls) := by
  have hrun : PadNoted (runFrom Call.performPad (({ cfg := c } : Impl F D), fun _ => []) calls) :=
    run_preserves (fun call _ hnoted => hnoted.perform) calls fun _ => rfl
  have hsame : (runFrom Call.performPad (({ cfg := c } : Impl F D), fun _ => []) calls).1 =
      afterCalls D c calls := runFrom_fst (fun _ _ => rfl) calls _
  intro id
  rw [← hsame]
  exact hrun id

/-- The journal after one more call. -/
theorem padJournal_append (c : BiometricAttendanceConfig F) (calls : List (Call F))
    (call : Call F) : padJournal D c (calls ++ [call]) =
      call.notePad (afterCalls D c calls) (padJournal D c calls) := by
  have hsame : (runFrom Call.performPad (({ cfg := c } : Impl F D), fun _ => []) calls).1 =
      afterCalls D c calls := runFrom_fst (fun _ _ => rfl) calls _
  unfold padJournal
  rw [runFrom_append, runFrom_cons, runFrom_nil, ← hsame]
  rfl

/-! ## The gate -/

/-- What the gate promises for one call of `process` after a sequence of calls. The results it
counts are the lines of the journal after the call: the liveness stage is over when a crop goes
to recognition. -/
structure PadGateRespected (D : Type) [FloatOps D] [FloatPair F D]
    (c : BiometricAttendanceConfig F) (calls : List (Call F)) (evaluate : BiometricEvaluators F)
    (utcMs : ℕ → ℤ) (f : FaceTrackingFrame F) (now : ℤ) : Prop where
  /-- Every returned event belongs to a track whose gate holds. -/
  events : ∀ frame p, process evaluate utcMs f now (afterCalls D c calls) = .ok frame p →
    ∀ e ∈ frame.attendanceEvents, GateHeld D c now e.trackId
      (padJournal D c (calls ++ [.process evaluate utcMs f now]) e.trackId)
  /-- Whether the call returns or throws, only crops of such tracks went to recognition. -/
  handed : ∀ t s,
    .recognize t s ∈
      (finalState (process evaluate utcMs f now (afterCalls D c calls))).evaluations →
      GateHeld D c now t.trackId
        (padJournal D c (calls ++ [.process evaluate utcMs f now]) t.trackId)

/-- The gate is respected by every call after every sequence of calls. The invariant of the states
gives the counts, and the journal says that the model gave the answers. -/
theorem process_respects_padGate [LawfulFloat F] {c : BiometricAttendanceConfig F}
    (haccepted : validateAttendanceConfig c = .ok ()) (calls : List (Call F))
    (evaluate : BiometricEvaluators F) (utcMs : ℕ → ℤ) (f : FaceTrackingFrame F) (now : ℤ) :
    PadGateRespected D c calls evaluate utcMs f now := by
  have hcall := (settled_afterCalls (D := D) haccepted calls).process haccepted
    evaluate utcMs f now
  have hjournaled := (padNoted_afterCalls (D := D) c calls).process evaluate utcMs f now
  rw [← padJournal_append] at hjournaled
  constructor
  · intro frame p hrun e he
    obtain ⟨s, hs, hqualified⟩ := (wp_ok hcall hrun).2 e he
    have hfinal : finalState (process evaluate utcMs f now (afterCalls D c calls)) = p := by
      rw [hrun]
      rfl
    rw [hfinal] at hjournaled
    rw [← hjournaled.records, Impl.stateOf_eq hs]
    exact hqualified
  · intro t s hmem
    rw [← hjournaled.handed t s hmem]
    exact wp_finalState (wp_mono hcall (fun _ _ h => h.1.2) fun _ h => h.2) t s hmem

end Stages

/-- The gate in the second frame of the sample, which returns the event of the track: the
journal has two live answers for it. -/
theorem process_respects_padGate_sample :
    PadGateRespected (Extended ℚ) sampleConfig [sampleGallery, sampleCall 1 [(7, 112)] 100]
      sampleEvaluators (fun _ => 0) (sampleFrame 2 [(7, 112)]) (milliseconds 200) ∧
    (returned (process sampleEvaluators (fun _ => 0) (sampleFrame 2 [(7, 112)]) (milliseconds 200)
      (afterCalls (Extended ℚ) sampleConfig [sampleGallery, sampleCall 1 [(7, 112)] 100]))).map
        (fun frame => frame.attendanceEvents.map fun e => (e.trackId, e.identityId)) =
      some [(7, "visitor")] ∧
    (padJournal (Extended ℚ) sampleConfig
      [sampleGallery, sampleCall 1 [(7, 112)] 100, sampleCall 2 [(7, 112)] 200] 7).map
        (fun r => (r.time, r.track.trackId)) = [(milliseconds 100, 7), (milliseconds 200, 7)] :=
  ⟨process_respects_padGate sampleConfig_accepted _ sampleEvaluators (fun _ => 0)
    (sampleFrame 2 [(7, 112)]) (milliseconds 200), by decide +kernel, by decide +kernel⟩

end EdgeClient.Vision.AttendanceProcessor
