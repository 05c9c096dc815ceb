import EdgeClient.Vision.Budgets

/-!
# Rounds of recognition

The processor compares the mean of several embeddings with the gallery. It keeps only their
sum and their number, which are cleared in some of the places where a track starts over, and
not in others. A journal of the embeddings that recognition returned for each track since it
entered its current round says what every comparison is based on.
-/

namespace EdgeClient.Vision.AttendanceProcessor

open Basis

variable {F D : Type} [FloatOps F] [FloatOps D] [FloatPair F D]

/-- Sum of one component of the embeddings. -/
def sumOf (D : Type) [FloatOps D] [FloatPair F D] (round : List (Embedding F))
    (j : Fin kEmbeddingSize) : D :=
  round.foldl (fun sum embedding => sum + widen (embedding j)) (lit 0)

/-- Mean of the embeddings. -/
def meanOf (D : Type) [FloatOps D] [FloatPair F D] (round : List (Embedding F)) : Embedding F :=
  fun j => narrow (sumOf D round j / lit round.length)

omit [FloatOps F] in
/-- The sum of a round is kept up to date from embedding to embedding. -/
theorem sumOf_append (round : List (Embedding F)) (embedding : Embedding F)
    (j : Fin kEmbeddingSize) :
    sumOf D (round ++ [embedding]) j = sumOf D round j + widen (embedding j) := List.foldl_append

/-- What a state keeps of the embeddings of its round. -/
structure InRound (round : List (Embedding F)) (s : State F D) : Prop where
  /-- A track in recognition has added them up. -/
  running : s.phase = .recognizing → s.count = round.length ∧ s.sum = sumOf D round
  /-- An undecided track has none. -/
  fresh : undecided s.phase = true → s.count = 0 ∧ s.sum = fun _ => lit 0

variable {c : BiometricAttendanceConfig F} {s s' : State F D} {now : ℤ} {n tick : ℕ}
  {t : TrackResult F} {round : List (Embedding F)}

/-- A track that is not in recognition is at the beginning of a round. -/
theorem InRound.restart (hround : InRound round s) (hphase : s.phase ≠ .recognizing) :
    InRound [] s := ⟨fun h => absurd h hphase, hround.fresh⟩

/-- The round of a track goes on in a frame. -/
def goesOn (c : BiometricAttendanceConfig F) (now : ℤ) (s : State F D) : Bool :=
  s.phase = .recognizing && !startsOver c now s

/-- The sum stays that of the round through the start of a frame: the round goes on, or it begins
again. -/
theorem InRound.refreshed (hround : InRound round s) :
    InRound (if goesOn c now s then round else []) (refreshed c tick now s) := by
  unfold AttendanceProcessor.refreshed goesOn
  by_cases hover : startsOver c now s = true
  · rw [if_pos hover, hover, Bool.not_true, Bool.and_false, if_neg Bool.false_ne_true]
    exact ⟨fun h => (by cases h), fun _ => ⟨rfl, rfl⟩⟩
  · have hkept : startsOver c now s = false := Bool.eq_false_iff.mpr hover
    rw [if_neg hover, hkept, Bool.not_false, Bool.and_true]
    by_cases hphase : s.phase = .recognizing
    · rw [if_pos (decide_eq_true hphase)]
      exact ⟨hround.running, hround.fresh⟩
    · rw [if_neg (by simpa using hphase)]
      exact ⟨fun h => absurd h hphase, hround.fresh⟩

omit [FloatPair F D] in
/-- A track whose round goes on stays in recognition. -/
theorem phase_refreshed_of_goesOn (hgoesOn : goesOn c now s = true) :
    (refreshed c tick now s).phase = .recognizing := by
  unfold goesOn at hgoesOn
  obtain ⟨hphase, hkept⟩ := Bool.and_eq_true_iff.mp hgoesOn
  unfold refreshed
  rw [if_neg (by simpa using hkept)]
  exact of_decide_eq_true hphase

/-- An extra attempt begins a round. -/
theorem InRound.reopenDeferred (hround : InRound round s)
    (hstarts : s.phase ≠ .recognizing → round = []) : InRound round (reopenDeferred s) := by
  unfold AttendanceProcessor.reopenDeferred
  split
  · rename_i hdeferred
    rw [hstarts (by rw [hdeferred]; nofun)]
    exact ⟨fun _ => ⟨rfl, rfl⟩, fun h => by cases h⟩
  · exact hround

/-- Scheduling begins a round where it does not go on. A track whose crop goes to the liveness
model has no round that goes on. -/
theorem InRound.schedule (hround : InRound round s) :
    InRound (if goesOn c now s then round else []) (schedule c n tick now t s).1 ∧
      ((schedule c n tick now t s).2 = true → (schedule c n tick now t s).1.phase = .checkingPad ∧
        goesOn c now s = false) := by
  have hrefreshed : InRound (if goesOn c now s then round else [])
      (AttendanceProcessor.refreshed c tick now s) := hround.refreshed
  have hphase : goesOn c now s = true →
      (AttendanceProcessor.refreshed c tick now s).phase = .recognizing :=
    phase_refreshed_of_goesOn
  have hstarts : goesOn c now s = false → (if goesOn c now s then round else []) = [] := by
    intro hover
    rw [hover, if_neg Bool.false_ne_true]
  obtain ⟨round', hround'⟩ : ∃ l, l = if goesOn c now s then round else [] := ⟨_, rfl⟩
  rw [← hround'] at hrefreshed hstarts ⊢
  rw [schedule_eq]
  split
  · exact ⟨hrefreshed, nofun⟩
  rename_i hstays
  have hreopened := hrefreshed.reopenDeferred fun hother =>
    hstarts (Bool.eq_false_iff.mpr fun hgoesOn => hother (hphase hgoesOn))
  dsimp only
  split
  · rename_i hcrop
    have hundecided := undecided_reopenDeferred (not_or.mp hstays).1 hcrop.1
    refine ⟨⟨fun h => (by cases h), fun _ => hreopened.fresh hundecided⟩, fun _ => ⟨rfl, ?_⟩⟩
    refine Bool.eq_false_iff.mpr fun hgoesOn => hcrop.1 ?_
    have hrecognizing := hphase hgoesOn
    unfold AttendanceProcessor.reopenDeferred
    rw [if_neg (by rw [hrecognizing]; nofun)]
    exact hrecognizing
  · exact ⟨hreopened, nofun⟩

omit [FloatPair F D] in
/-- A liveness result leaves the embeddings alone. They are written by recognition only. -/
theorem sum_recordPad {r : LivenessResult F} (hrun : recordPad c tick now t r s = .ok () s') :
    s'.count = s.count ∧ s'.sum = s.sum := by
  have hwp : wp (recordPad c tick now t r) (fun _ s' => s'.count = s.count ∧ s'.sum = s.sum)
      (fun _ => True) s := by
    unfold recordPad
    rw [wp_bind, wp_modify, wp_ite]
    refine ⟨fun _ => ?_, fun _ => ?_⟩
    · rw [wp_ite]
      exact ⟨fun _ => trivial, fun _ => ⟨rfl, rfl⟩⟩
    · cases r.liveScore with
      | none => trivial
      | some score =>
        dsimp only
        cases classifyScore score c.pad.liveThreshold with
        | error e => trivial
        | ok decision => exact ⟨rfl, rfl⟩
  have hsame := wp_ok hwp hrun
  exact hsame

/-- A track that leaves the liveness check is at the beginning of a round. -/
theorem InRound.recordPad {r : LivenessResult F} (hround : InRound round s)
    (hphase : s.phase = .checkingPad) (hrun : recordPad c tick now t r s = .ok () s') :
    InRound [] s' := by
  obtain ⟨hcount, hsum⟩ := sum_recordPad hrun
  obtain ⟨hnone, hzero⟩ := hround.fresh (by rw [hphase]; rfl)
  rw [hnone] at hcount
  rw [hzero] at hsum
  exact ⟨fun _ => ⟨hcount, hsum⟩, fun _ => ⟨hcount, hsum⟩⟩

/-- A comparison is based on the mean of the round, which it keeps. The new embedding is the last
one of the round. -/
theorem RecognizedAs.inRound {gallery : GalleryMatcher F} {r : ArcFaceResult F} {known : Bool}
    (hrecognized : RecognizedAs c gallery tick now r known s s') (hround : InRound round s)
    (hphase : s.phase = .recognizing) :
    InRound (round ++ [r.embedding]) s' ∧
      ∃ gallery', gallery.match D (meanOf D (round ++ [r.embedding])) =
        .ok (s'.match, gallery') := by
  obtain ⟨m, gallery', hmatch, rfl⟩ := hrecognized
  obtain ⟨hcount, hsum⟩ := hround.running hphase
  have hcount' : (accumulate tick r s).count = (round ++ [r.embedding]).length := by
    rw [List.length_append, List.length_singleton, ← hcount]
    rfl
  have hsum' : (accumulate tick r s).sum = sumOf D (round ++ [r.embedding]) := by
    funext j
    rw [sumOf_append, ← hsum]
    rfl
  have hmean : meanEmbedding (accumulate tick r s) = meanOf D (round ++ [r.embedding]) := by
    unfold meanEmbedding meanOf
    rw [hcount', hsum']
  rw [hmean] at hmatch
  obtain ⟨s₁, hs₁⟩ : ∃ s₁ : State F D, s₁ = { accumulate tick r s with «match» := m } := ⟨_, rfl⟩
  have hphase₁ : s₁.phase = .recognizing := by rw [hs₁]; exact hphase
  have hsame₁ : s₁.count = (round ++ [r.embedding]).length ∧
      s₁.sum = sumOf D (round ++ [r.embedding]) := by
    rw [hs₁]
    exact ⟨hcount', hsum'⟩
  have hmatch₁ : s₁.match = m := by rw [hs₁]
  rw [← hs₁]
  have hdecided : undecided (conclude c now known s₁).phase = false := by
    unfold conclude
    split
    · cases known <;> rfl
    · split
      · dsimp only
        split <;> rfl
      · rw [hphase₁]
        rfl
  have hmatch' : (conclude c now known s₁).match = m :=
    (match_conclude c now known s₁).trans hmatch₁
  refine ⟨⟨fun _ => ?_, fun h => absurd (hdecided.symm.trans h) Bool.false_ne_true⟩, gallery', ?_⟩
  · obtain ⟨phase, terminal, heq⟩ := conclude_eq c now known s₁
    rw [heq]
    exact hsame₁
  · rw [hmatch']
    exact hmatch

/-! ## The journal of a run -/

/-- The round of a track goes on in an accepted frame. -/
def Impl.goesOn (p : Impl F D) (f : FaceTrackingFrame F) (now : ℤ) (id : ℕ) : Bool :=
  ((p.accept f now).states id).any fun s =>
    s.phase = .recognizing && !(f.tracks.any (fun t => t.trackId = id) && startsOver p.cfg now s)

/-- The embeddings that recognition returned for a track in a call, given the processor
after the call. -/
def Impl.returned (q : Impl F D) (evaluate : BiometricEvaluators F) (f : FaceTrackingFrame F)
    (id : ℕ) : List (Embedding F) :=
  let crops := f.tracks.filter fun t => q.recognized t.trackId
  match evaluate.recognize f.gpuFrame (crops.map (·.observation)) with
  | .error _ => []
  | .ok results =>
    ((crops.zip results).filter fun entry => entry.1.trackId = id).map (·.2.embedding)

/-- The embeddings of the current round of each track, after a call. The list starts again for a
track whose round does not go on. -/
def Call.noteRound (call : Call F) (p : Impl F D) (rounds : ℕ → List (Embedding F)) :
    ℕ → List (Embedding F) :=
  match call with
  | .process evaluate utcMs f now => fun id =>
    (if p.goesOn f now id then rounds id else []) ++
      (finalState (AttendanceProcessor.process evaluate utcMs f now p)).returned evaluate f id
  | .setGallery templates =>
    match GalleryMatcher.replace D templates with
    | .error _ => rounds
    | .ok _ => fun _ => []
  | .reset => fun _ => []

/-- The processor and the journal after a call. -/
def Call.performRound (call : Call F) (x : Impl F D × (ℕ → List (Embedding F))) :
    Impl F D × (ℕ → List (Embedding F)) :=
  (call.perform x.1, call.noteRound x.1 x.2)

/-- The embeddings of the current round of each track, after a sequence of calls to a new
processor. -/
def roundJournal (D : Type) [FloatOps D] [FloatPair F D] (c : BiometricAttendanceConfig F)
    (calls : List (Call F)) : ℕ → List (Embedding F) :=
  (runFrom Call.performRound (({ cfg := c } : Impl F D), fun _ => []) calls).2

/-- Every comparison of a call is that of the mean of the current round of its track, to which
the call has added. -/
def Call.Averages (call : Call F) (x : Impl F D × (ℕ → List (Embedding F))) : Prop :=
  match call with
  | .process evaluate utcMs f now => ∀ t s,
    .recognize t s ∈
        (finalState (AttendanceProcessor.process evaluate utcMs f now x.1)).evaluations →
      call.noteRound x.1 x.2 t.trackId ≠ [] ∧ HasState (call.perform x.1) t.trackId fun s' =>
        ∃ gallery, x.1.gallery.match D (meanOf D (call.noteRound x.1 x.2 t.trackId)) =
          .ok (s'.match, gallery)
  | _ => True

/-- Every comparison of a run is based on exactly the embeddings of the current round. -/
def AllAverage (D : Type) [FloatOps D] [FloatPair F D] (c : BiometricAttendanceConfig F)
    (calls : List (Call F)) : Prop :=
  Throughout Call.performRound Call.Averages (({ cfg := c } : Impl F D), fun _ => []) calls

/-- The journal belongs to the states. -/
def RoundsNoted (x : Impl F D × (ℕ → List (Embedding F))) : Prop :=
  ∀ id s, x.1.states id = some s → InRound (x.2 id) s

section Process

variable {evaluate : BiometricEvaluators F} {utcMs : ℕ → ℤ} {f : FaceTrackingFrame F}
  {p q : Impl F D} {padEntries : List (TrackResult F × LivenessResult F)} {checked : ℕ → State F D}
  {arcEntries : List (TrackResult F × ArcFaceResult F)} {frame : BiometricAttendanceFrame F}
  {rounds : ℕ → List (Embedding F)}

omit [FloatOps F] in
/-- The answers of the entries of one track, of which there is at most one. The tracks of a frame
are different. -/
theorem filter_entries {α : Type} {entries : List (TrackResult F × α)}
    (hnodup : (entries.map (·.1.trackId)).Nodup) {t : TrackResult F} {r : α}
    (hmem : (t, r) ∈ entries) :
    (entries.filter fun entry => entry.1.trackId = t.trackId) = [(t, r)] := by
  induction entries with
  | nil => cases hmem
  | cons entry entries ih =>
    rw [List.map_cons, List.nodup_cons] at hnodup
    rcases List.mem_cons.mp hmem with rfl | hrest
    · have hnone : (entries.filter fun entry => entry.1.trackId = t.trackId) = [] := by
        refine List.filter_eq_nil_iff.mpr fun other hother hid => hnodup.1 ?_
        exact (of_decide_eq_true hid) ▸ List.mem_map_of_mem (f := (·.1.trackId)) hother
      rw [List.filter_cons_of_pos (by simp), hnone]
    · have hne : entry.1.trackId ≠ t.trackId := fun heq =>
        hnodup.1 (heq ▸ List.mem_map_of_mem (f := (·.1.trackId)) hrest)
      rw [List.filter_cons_of_neg (by simpa using hne)]
      exact ih hnodup.2 hrest

/-- The returned embeddings are those of the answers. They are paired with the crops of the batch
by position. -/
theorem FrameRun.returned_eq {p₁ : Impl F D}
    (hrun : FrameRun evaluate utcMs f now p₁ padEntries checked arcEntries frame q) (id : ℕ) :
    q.returned evaluate f id =
      (arcEntries.filter fun entry => entry.1.trackId = id).map (·.2.embedding) := by
  have hcrops : (f.tracks.filter fun t => q.recognized t.trackId) =
      f.tracks.filter fun t => wantsRecognition p₁.cfg p₁.tick t (checked t.trackId) :=
    List.filter_congr fun t ht => hrun.recognized_eq ht
  unfold Impl.returned
  dsimp only
  rw [hcrops]
  by_cases hnone : (f.tracks.filter fun t =>
      wantsRecognition p₁.cfg p₁.tick t (checked t.trackId)) = []
  · have hentries : arcEntries = [] := List.map_eq_nil_iff.mp (hrun.recognize.crops_eq.trans hnone)
    rw [hnone, hentries]
    cases evaluate.recognize f.gpuFrame _ <;> rfl
  · rw [hrun.recognize.answers_eq hnone]
    dsimp only
    rw [← hrun.recognize.crops_eq, ← List.unzip_fst, ← List.unzip_snd, List.zip_unzip]

/-- The track is not selected, and nothing is returned for it. Results are returned for the crops,
and the crops are those of the selected tracks. -/
theorem FrameRun.returned_eq_nil {p₁ : Impl F D}
    (hrun : FrameRun evaluate utcMs f now p₁ padEntries checked arcEntries frame q) {id : ℕ}
    (hnone : ∀ t ∈ f.tracks, t.trackId = id →
      wantsRecognition p₁.cfg p₁.tick t (checked id) = false) :
    q.returned evaluate f id = [] := by
  rw [hrun.returned_eq, List.map_eq_nil_iff, List.filter_eq_nil_iff]
  rintro ⟨t, r⟩ hmem hid
  have hid : t.trackId = id := of_decide_eq_true hid
  have hcrop : t ∈ arcEntries.map Prod.fst := List.mem_map_of_mem (f := Prod.fst) hmem
  rw [hrun.recognize.crops_eq] at hcrop
  obtain ⟨ht, hwants⟩ := List.mem_filter.mp hcrop
  rw [hid, hnone t ht hid] at hwants
  cases hwants

/-- The journal of an accepted frame. A frame that is accepted drops the states that have been
missing for too long, and changes none. -/
theorem RoundsNoted.accept (hnoted : RoundsNoted (p, rounds)) (id : ℕ) :
    InRound (rounds id) ((p.accept f now).stateOf id) ∨
      ((p.accept f now).states id = none ∧ (p.accept f now).stateOf id = {}) := by
  cases hs : (p.accept f now).states id with
  | none =>
    right
    exact ⟨rfl, by rw [Impl.stateOf, hs, Option.getD_none]⟩
  | some s =>
    left
    rw [Impl.stateOf_eq hs]
    exact hnoted id s (Option.filter_eq_some_iff.mp hs).1

omit [FloatPair F D] in
/-- The round of a track of the frame goes on as its state says. The track is in the frame, so its
state is the one that is scheduled. -/
theorem goesOn_eq (ht : t ∈ f.tracks) :
    p.goesOn f now t.trackId = goesOn p.cfg now ((p.accept f now).stateOf t.trackId) := by
  have hany : f.tracks.any (fun u => u.trackId = t.trackId) = true :=
    List.any_eq_true.mpr ⟨t, ht, decide_eq_true rfl⟩
  unfold Impl.goesOn goesOn
  rw [hany]
  cases hs : (p.accept f now).states t.trackId with
  | none =>
    rw [Impl.stateOf, hs, Option.getD_none]
    rfl
  | some s => rw [Impl.stateOf_eq hs, Option.any_some, Bool.true_and]

/-- The state of a track in the middle of a call. The liveness stage leaves the sum alone. -/
theorem RoundsNoted.middle (hnoted : RoundsNoted (p, rounds))
    (hrun : FrameRun evaluate utcMs f now (p.accept f now) padEntries checked arcEntries frame q)
    (ht : t ∈ f.tracks) :
    InRound (if p.goesOn f now t.trackId then rounds t.trackId else []) (checked t.trackId) := by
  have hcfg : (p.accept f now).cfg = p.cfg := rfl
  have hscheduled : InRound (if p.goesOn f now t.trackId then rounds t.trackId else [])
      (scheduled (p.accept f now) now t).1 ∧ ((scheduled (p.accept f now) now t).2 = true →
        (scheduled (p.accept f now) now t).1.phase = .checkingPad ∧
          p.goesOn f now t.trackId = false) := by
    rw [goesOn_eq ht, ← hcfg]
    rcases (hnoted.accept t.trackId : InRound _ ((p.accept f now).stateOf t.trackId) ∨ _) with
      hround | ⟨-, hnew⟩
    · exact hround.schedule
    · refine InRound.schedule ?_
      rw [hnew]
      exact ⟨fun h => (by cases h), fun _ => ⟨rfl, rfl⟩⟩
  obtain ⟨hround, hcrop⟩ := hscheduled
  have hchecked := hrun.checked_eq t ht
  split at hchecked
  · rename_i hcropped
    obtain ⟨r, -, hrecord⟩ := hchecked
    obtain ⟨hphase, hover⟩ := hcrop hcropped
    rw [hover, if_neg Bool.false_ne_true]
    exact hround.recordPad hphase hrecord
  · rw [hchecked]
    exact hround

/-- The state of a selected track after the call: its round has grown by the embedding that
was returned for it, and its comparison is that of the mean. -/
theorem RoundsNoted.after (hnoted : RoundsNoted (p, rounds))
    (hrun : FrameRun evaluate utcMs f now (p.accept f now) padEntries checked arcEntries frame q)
    (ht : t ∈ f.tracks)
    (hwants : wantsRecognition (p.accept f now).cfg (p.accept f now).tick t (checked t.trackId)) :
    ∃ embedding, q.returned evaluate f t.trackId = [embedding] ∧
      HasState q t.trackId fun s =>
        InRound ((if p.goesOn f now t.trackId then rounds t.trackId else []) ++ [embedding]) s ∧
          ∃ gallery, p.gallery.match D (meanOf D
            ((if p.goesOn f now t.trackId then rounds t.trackId else []) ++ [embedding])) =
              .ok (s.match, gallery) := by
  obtain ⟨s, hs, hstate⟩ := hrun.states t ht
  rw [if_pos hwants] at hstate
  obtain ⟨r, known, hmem, hrecognized⟩ := hstate
  have hmiddle := hnoted.middle hrun ht
  have hraised : InRound (if p.goesOn f now t.trackId then rounds t.trackId else [])
      (raiseQuality (p.accept f now).cfg t (checked t.trackId)) :=
    ⟨hmiddle.running, hmiddle.fresh⟩
  refine ⟨r.embedding, ?_, s, hs, hrecognized.inRound hraised (phase_of_wantsRecognition hwants)⟩
  rw [hrun.returned_eq, filter_entries (hrun.recognize.nodup hrun.tracks_nodup) hmem]
  rfl

/-- A frame that returns keeps the journal. Each comparison is with the mean of its own round. -/
theorem RoundsNoted.process (hnoted : RoundsNoted (p, rounds))
    (hrun : FrameRun evaluate utcMs f now (p.accept f now) padEntries checked arcEntries frame q)
    (hreturns : AttendanceProcessor.process evaluate utcMs f now p = .ok frame q) :
    RoundsNoted ((Call.process evaluate utcMs f now).performRound (p, rounds)) ∧
      (Call.process evaluate utcMs f now).Averages (p, rounds) := by
  have hfinal : finalState (AttendanceProcessor.process evaluate utcMs f now p) = q := by
    rw [hreturns]
    rfl
  constructor
  · intro id s hs
    dsimp only [Call.performRound, Call.perform, Call.noteRound] at hs ⊢
    rw [hfinal] at hs ⊢
    by_cases hid : id ∈ f.tracks.map (·.trackId)
    · obtain ⟨t, ht, rfl⟩ := List.mem_map.mp hid
      by_cases hwants : wantsRecognition (p.accept f now).cfg (p.accept f now).tick t
          (checked t.trackId) = true
      · obtain ⟨embedding, hreturned, s', hs', hround, -⟩ := hnoted.after hrun ht hwants
        obtain rfl : s = s' := Option.some.inj (hs.symm.trans hs')
        rw [hreturned]
        exact hround
      · obtain ⟨s', hs', hstate⟩ := hrun.states t ht
        obtain rfl : s = s' := Option.some.inj (hs.symm.trans hs')
        rw [if_neg hwants] at hstate
        rw [hstate, hrun.returned_eq_nil, List.append_nil]
        · exact hnoted.middle hrun ht
        · intro u hu huid
          obtain rfl := List.inj_on_of_nodup_map hrun.tracks_nodup hu ht huid
          exact Bool.eq_false_iff.mpr hwants
    · rw [hrun.others id hid] at hs
      have hnone : q.returned evaluate f id = [] := by
        refine hrun.returned_eq_nil fun t ht htid => absurd ?_ hid
        exact htid ▸ List.mem_map_of_mem (f := (·.trackId)) ht
      rw [hnone, List.append_nil]
      have hany : f.tracks.any (fun t => t.trackId = id) = false := by
        simpa using fun (t : TrackResult F) ht (heq : t.trackId = id) =>
          hid (heq ▸ List.mem_map_of_mem ht)
      have hround : InRound (rounds id) s := hnoted id s (Option.filter_eq_some_iff.mp hs).1
      unfold Impl.goesOn
      rw [hs, hany, Option.any_some, Bool.false_and, Bool.not_false, Bool.and_true]
      by_cases hphase : s.phase = .recognizing
      · rw [if_pos (decide_eq_true hphase)]
        exact hround
      · rw [if_neg (by simpa using hphase)]
        exact hround.restart hphase
  · intro t s hmem
    rw [hfinal] at hmem
    obtain ⟨ht, hwants⟩ := (hrun.handed_recognize t).mp ⟨s, hmem⟩
    obtain ⟨embedding, hreturned, s', hs', -, hmatch⟩ := hnoted.after hrun ht hwants
    dsimp only [Call.perform, Call.noteRound]
    rw [hfinal, hreturned]
    exact ⟨List.append_ne_nil_of_right_ne_nil _ (List.cons_ne_nil _ _), s', hs', hmatch⟩

end Process

/-- Every call that completes keeps the journal, and compares means of rounds. The other two calls
end all rounds. -/
theorem RoundsNoted.perform {call : Call F} {x : Impl F D × (ℕ → List (Embedding F))}
    (hnoted : RoundsNoted x) (hcomplete : call.Completes x.1) :
    RoundsNoted (call.performRound x) ∧ call.Averages x := by
  obtain ⟨p, rounds⟩ := x
  cases call with
  | process evaluate utcMs f now =>
    dsimp only [Call.Completes] at hcomplete
    cases hreturns : AttendanceProcessor.process evaluate utcMs f now p with
    | error e q => simp only [hreturns] at hcomplete
    | ok frame q =>
      obtain ⟨-, padEntries, checked, arcEntries, hrun⟩ := wp_ok wp_process hreturns
      exact hnoted.process hrun hreturns
  | setGallery templates =>
    refine ⟨?_, trivial⟩
    intro id s hs
    dsimp only [Call.performRound, Call.perform, AttendanceProcessor.setGallery,
      Call.noteRound] at hs ⊢
    cases hreplace : GalleryMatcher.replace D templates with
    | error e =>
      rw [hreplace] at hs
      exact hnoted id s hs
    | ok gallery =>
      rw [hreplace] at hs
      cases hs
  | reset =>
    refine ⟨?_, trivial⟩
    intro id s hs
    cases hs

/-- After a run without exceptions the journal belongs to the states. The induction is on the
calls, from a processor without states. -/
theorem roundsNoted_afterCalls {calls : List (Call F)} (hcomplete : AllComplete D c calls) :
    RoundsNoted (afterCalls D c calls, roundJournal D c calls) := by
  have hsame : ∀ calls (x : Impl F D × (ℕ → List (Embedding F))),
      (runFrom Call.performRound x calls).1 = runFrom Call.perform x.1 calls :=
    fun calls => runFrom_fst (fun _ _ => rfl) calls
  suffices h : ∀ (calls : List (Call F)) (x : Impl F D × (ℕ → List (Embedding F))),
      RoundsNoted x → Throughout Call.perform Call.Completes x.1 calls →
      RoundsNoted (runFrom Call.performRound x calls) by
    intro id s hs
    refine h calls (({ cfg := c } : Impl F D), fun _ => []) (fun _ _ hs => by cases hs) hcomplete
      id s ?_
    rw [hsame]
    exact hs
  intro calls
  induction calls with
  | nil => exact fun _ hnoted _ => hnoted
  | cons call calls ih =>
    intro x hnoted hcomplete
    exact ih (call.performRound x) (hnoted.perform hcomplete.1).1 hcomplete.2

/-- In a run without exceptions every comparison with the gallery is that of the mean of
exactly the embeddings that were returned for its track since the current round began. -/
theorem allAverage_of_complete {calls : List (Call F)} (hcomplete : AllComplete D c calls) :
    AllAverage D c calls := by
  suffices h : ∀ (calls : List (Call F)) (x : Impl F D × (ℕ → List (Embedding F))),
      RoundsNoted x → Throughout Call.perform Call.Completes x.1 calls →
      Throughout Call.performRound Call.Averages x calls from h calls _ nofun hcomplete
  intro calls
  induction calls with
  | nil => exact fun _ _ _ => trivial
  | cons call calls ih =>
    intro x hnoted hcomplete
    obtain ⟨hnext, haverages⟩ := hnoted.perform hcomplete.1
    exact ⟨haverages, ih (call.performRound x) hnext hcomplete.2⟩

/-- A track with two rounds of one attempt each. -/
theorem allAverage_of_complete_sample : AllAverage (Extended ℚ) briefConfig lateCalls :=
  allAverage_of_complete lateCalls_complete

end EdgeClient.Vision.AttendanceProcessor
