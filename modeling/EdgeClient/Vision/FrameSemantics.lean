import EdgeClient.Vision.ProcessorRules

/-!
# What one frame does to each track

A call of `process` that returns is described track by track. Each of its loops
visits tracks with distinct identifiers and changes only the state of the visited
track, so the state of a track after the call depends on its state before, on its
own results of the two models, and on whether its identity was known.
-/

namespace EdgeClient.Vision.AttendanceProcessor

open Basis

section Answers

variable {F : Type} {f : FaceTrackingFrame F}

/-- The answers of a model: one for each crop, in the order of the crops. -/
structure Answered {α : Type} (model : GpuFrame → List (FaceDetection F) → Except String (List α))
    (f : FaceTrackingFrame F) (crops : List (TrackResult F)) (entries : List (TrackResult F × α)) :
    Prop where
  crops_eq : entries.map Prod.fst = crops
  answers_eq :
    crops ≠ [] → model f.gpuFrame (crops.map (·.observation)) = .ok (entries.map Prod.snd)

/-- Crops and answers of equal number are paired by position. -/
theorem answered_zip {α : Type}
    {model : GpuFrame → List (FaceDetection F) → Except String (List α)}
    {crops : List (TrackResult F)} {answers : List α}
    (hok : model f.gpuFrame (crops.map (·.observation)) = .ok answers)
    (hlength : answers.length = crops.length) : Answered model f crops (crops.zip answers) where
  crops_eq := List.map_fst_zip (le_of_eq hlength.symm)
  answers_eq _ := by rw [List.map_snd_zip (le_of_eq hlength), hok]

/-- No crops, no answers. -/
theorem answered_nil {α : Type}
    {model : GpuFrame → List (FaceDetection F) → Except String (List α)} :
    Answered model f [] [] where
  crops_eq := rfl
  answers_eq h := absurd rfl h

/-- The crops of the first loop belong to distinct tracks. -/
theorem Answered.nodup {α : Type}
    {model : GpuFrame → List (FaceDetection F) → Except String (List α)}
    {test : TrackResult F → Bool} {entries : List (TrackResult F × α)}
    (hanswered : Answered model f (f.tracks.filter test) entries)
    (hnodup : (f.tracks.map (·.trackId)).Nodup) : (entries.map (·.1.trackId)).Nodup := by
  have hkeys : entries.map (·.1.trackId) = (f.tracks.filter test).map (·.trackId) := by
    rw [← hanswered.crops_eq, List.map_map]
    rfl
  rw [hkeys]
  exact hnodup.sublist (List.filter_sublist.map _)

/-- Every crop has an answer. -/
theorem Answered.exists_answer {α : Type}
    {model : GpuFrame → List (FaceDetection F) → Except String (List α)}
    {crops : List (TrackResult F)} {entries : List (TrackResult F × α)}
    (hanswered : Answered model f crops entries) {t : TrackResult F} (ht : t ∈ crops) :
    ∃ r, (t, r) ∈ entries := by
  rw [← hanswered.crops_eq] at ht
  obtain ⟨⟨u, r⟩, hmem, rfl⟩ := List.mem_map.mp ht
  exact ⟨r, hmem⟩

/-- A track whose crop was not taken has no answer. -/
theorem Answered.not_mem_keys {α : Type}
    {model : GpuFrame → List (FaceDetection F) → Except String (List α)}
    {test : TrackResult F → Bool} {entries : List (TrackResult F × α)}
    (hanswered : Answered model f (f.tracks.filter test) entries)
    (hnodup : (f.tracks.map (·.trackId)).Nodup) {t : TrackResult F} (ht : t ∈ f.tracks)
    (htest : ¬ test t = true) : t.trackId ∉ entries.map (·.1.trackId) := by
  intro hkey
  obtain ⟨⟨u, r⟩, hmem, hid⟩ := List.mem_map.mp hkey
  have hu : u ∈ f.tracks.filter test := hanswered.crops_eq ▸ List.mem_map_of_mem hmem
  obtain ⟨hmem', htest'⟩ := List.mem_filter.mp hu
  exact htest (List.inj_on_of_nodup_map hnodup hmem' ht hid ▸ htest')

/-- Answers belong to tracks of the frame. -/
theorem Answered.mem_tracks {α : Type}
    {model : GpuFrame → List (FaceDetection F) → Except String (List α)}
    {test : TrackResult F → Bool} {entries : List (TrackResult F × α)}
    (hanswered : Answered model f (f.tracks.filter test) entries) {id : ℕ}
    (hkey : id ∈ entries.map (·.1.trackId)) : id ∈ f.tracks.map (·.trackId) := by
  obtain ⟨⟨u, r⟩, hmem, rfl⟩ := List.mem_map.mp hkey
  have hu : u ∈ f.tracks.filter test := hanswered.crops_eq ▸ List.mem_map_of_mem hmem
  exact List.mem_map_of_mem (List.mem_of_mem_filter hu)

end Answers

variable {F D : Type} [FloatOps F] [FloatOps D]

/-- A loop whose steps change only the state of their own track, and update the
accumulator in a way that is fixed in advance. It fails as its steps do. -/
theorem wp_localLoop {α β : Type} {entries : List α} {step : β → α → Processor F D β} {b : β}
    {p₀ : Impl F D} {E : Impl F D → Prop} (key : α → ℕ) (acc : β → α → β)
    (R : α → State F D → Prop) (hnodup : (entries.map key).Nodup)
    (hstep : ∀ b x p, x ∈ entries → p = { p₀ with states := p.states } →
      p.states (key x) = p₀.states (key x) →
      wp (step b x) (fun b' q => b' = acc b x ∧ ∃ s, q = p.setState (key x) s ∧ R x s) E p) :
    wp (entries.foldlM step b)
      (fun b' p => b' = entries.foldl acc b ∧ p = { p₀ with states := p.states } ∧
        (∀ x ∈ entries, HasState p (key x) (R x)) ∧
        ∀ id, id ∉ entries.map key → p.states id = p₀.states id)
      E p₀ := by
  refine wp_foldlM (fun pre _ b' p => b' = pre.foldl acc b ∧ p = { p₀ with states := p.states } ∧
    (∀ x ∈ pre, HasState p (key x) (R x)) ∧
    ∀ id, id ∉ pre.map key → p.states id = p₀.states id) ?_ ?_
  · exact ⟨rfl, rfl, by simp, fun _ _ => rfl⟩
  · rintro pre x post b' p hsplit ⟨rfl, hrest, hdone, hothers⟩
    have hmem : x ∈ entries := hsplit ▸ List.mem_append_right pre (List.mem_cons_self ..)
    have hkeys : key x ∉ pre.map key := by
      rw [hsplit, List.map_append, List.map_cons] at hnodup
      exact fun h => (List.nodup_append.mp hnodup).2.2 _ h _ (List.mem_cons_self ..) rfl
    refine wp_mono (hstep _ x p hmem hrest (hothers _ hkeys)) ?_ fun _ => id
    rintro b' q ⟨rfl, s, rfl, hR⟩
    refine ⟨by rw [List.foldl_append, List.foldl_cons, List.foldl_nil], ?_, fun y hy => ?_,
      fun id hid => ?_⟩
    · rw [hrest]
      rfl
    · rcases List.mem_append.mp hy with hold | hnew
      · exact (hdone y hold).setState_of_ne fun h => hkeys (h ▸ List.mem_map_of_mem hold)
      · obtain rfl := List.mem_singleton.mp hnew
        exact ⟨s, Impl.setState_self .., hR⟩
    · rw [List.map_append, List.map_singleton, List.mem_append, not_or] at hid
      rw [Impl.setState_of_ne p s fun h => hid.2 (List.mem_singleton.mpr h)]
      exact hothers id hid.1

/-- Collecting the elements that pass a test, one by one. -/
theorem foldl_push_eq_filter {α : Type} (test : α → Bool) (l collected : List α) :
    l.foldl (fun acc x => if test x then acc ++ [x] else acc) collected =
      collected ++ l.filter test := by
  induction l generalizing collected with
  | nil => simp
  | cons x l ih =>
    rw [List.foldl_cons, ih]
    cases htest : test x <;> simp [htest]

/-- The state of a track, new if there is none. -/
def Impl.stateOf (p : Impl F D) (id : ℕ) : State F D := (p.states id).getD {}

/-- The state of a track that is stored is the stored one. -/
theorem Impl.stateOf_eq {p : Impl F D} {id : ℕ} {s : State F D} (hs : p.states id = some s) :
    p.stateOf id = s := by
  rw [stateOf, hs, Option.getD_some]

variable [FloatPair F D] {p : Impl F D} {now : ℤ} {f : FaceTrackingFrame F}

/-- What the first loop does to a track. -/
def scheduled (p : Impl F D) (now : ℤ) (t : TrackResult F) : State F D × Bool :=
  schedule p.cfg p.gallery.size p.tick now t (p.stateOf t.trackId)

/-- The first loop schedules every track by itself, and does not throw. The tracks of an accepted
frame are different, so that no track sees what another one did. -/
theorem wp_scheduleTracks (hnodup : (f.tracks.map (·.trackId)).Nodup) :
    wp (f.tracks.foldlM (scheduleTrack now) [])
      (fun padTracks q => padTracks = f.tracks.filter (fun t => (scheduled p now t).2) ∧
        q = { p with states := q.states } ∧
        (∀ t ∈ f.tracks, HasState q t.trackId (· = (scheduled p now t).1)) ∧
        ∀ id, id ∉ f.tracks.map (·.trackId) → q.states id = p.states id)
      (fun _ => False) p := by
  refine wp_mono (wp_localLoop (fun t : TrackResult F => t.trackId)
    (fun acc t => if (scheduled p now t).2 then acc ++ [t] else acc)
    (fun t s => s = (scheduled p now t).1) hnodup ?_) ?_ fun _ => id
  · rintro padTracks t q - hrest hstate
    have hscheduled : schedule q.cfg q.gallery.size q.tick now t ((q.states t.trackId).getD {}) =
        scheduled p now t := by
      rw [hstate, hrest]
      rfl
    rw [wp_scheduleTrack, hscheduled]
    exact ⟨rfl, _, rfl, rfl⟩
  · rintro padTracks q ⟨rfl, hrest, hdone, hothers⟩
    exact ⟨by rw [foldl_push_eq_filter, List.nil_append], hrest, hdone, hothers⟩

omit [FloatPair F D] in
/-- The liveness stage of a call that returns: every crop has an answer, and the answer
is recorded in the state of its track. -/
theorem wp_checkPad {evaluate : BiometricEvaluators F} {test : TrackResult F → Bool}
    (hnodup : (f.tracks.map (·.trackId)).Nodup)
    (hstates : ∀ t ∈ f.tracks, HasState p t.trackId fun _ => True) :
    wp (checkPad evaluate f now (f.tracks.filter test))
      (fun _ q => q = { p.hand .pad (f.tracks.filter test) with states := q.states } ∧
        ∃ entries, Answered evaluate.pad f (f.tracks.filter test) entries ∧
          (∀ entry ∈ entries, HasState q entry.1.trackId fun s =>
            recordPad p.cfg p.tick now entry.1 entry.2 (p.stateOf entry.1.trackId) = .ok () s) ∧
          ∀ id, id ∉ entries.map (·.1.trackId) → q.states id = p.states id)
      (fun _ => True) p := by
  unfold checkPad
  rw [wp_ite]
  refine ⟨fun hnone => ?_, fun _ => ?_⟩
  · rw [hnone]
    refine ⟨?_, [], answered_nil, by simp, fun _ _ => rfl⟩
    simp [Impl.hand]
  · rw [wp_bind, wp_modify]
    cases hok : evaluate.pad f.gpuFrame ((f.tracks.filter test).map (·.observation)) with
    | error e => trivial
    | ok results =>
      rw [wp_ite]
      refine ⟨fun _ => trivial, fun hlength => ?_⟩
      have hanswered := answered_zip hok (not_not.mp hlength)
      refine wp_mono (wp_localLoop (fun entry => entry.1.trackId) (fun _ _ => ())
        (fun entry s => recordPad p.cfg p.tick now entry.1 entry.2
          (p.stateOf entry.1.trackId) = .ok () s) (hanswered.nodup hnodup) ?_) ?_ fun _ => id
      · rintro - ⟨t, r⟩ q hmem hrest hstate
        obtain ⟨s, hs, -⟩ := hstates t (List.mem_of_mem_filter (List.of_mem_zip hmem).1)
        have hsame : q.states t.trackId = some s := hstate.trans hs
        rw [wp_bind, wp_get, wp_atTrack_some hsame]
        refine wp_mono (wp_run _) ?_ fun _ _ => trivial
        intro _ s' hrun
        refine ⟨rfl, s', rfl, ?_⟩
        rw [Impl.stateOf_eq hs, ← hrun, hrest]
        rfl
      · rintro - q ⟨-, hrest, hdone, hothers⟩
        exact ⟨hrest, _, hanswered, hdone, hothers⟩

/-- The selection of a call: every track is tested by itself. Only the best quality of the
selected tracks is written. -/
theorem wp_selectTracks (hnodup : (f.tracks.map (·.trackId)).Nodup)
    (hstates : ∀ t ∈ f.tracks, HasState p t.trackId fun _ => True) :
    wp (f.tracks.foldlM selectTrack [])
      (fun arcTracks q =>
        arcTracks = f.tracks.filter
          (fun t => wantsRecognition p.cfg p.tick t (p.stateOf t.trackId)) ∧
        q = { p with states := q.states } ∧
        (∀ t ∈ f.tracks, HasState q t.trackId fun s =>
          s = if wantsRecognition p.cfg p.tick t (p.stateOf t.trackId)
            then raiseQuality p.cfg t (p.stateOf t.trackId) else p.stateOf t.trackId) ∧
        ∀ id, id ∉ f.tracks.map (·.trackId) → q.states id = p.states id)
      (fun _ => True) p := by
  refine wp_mono (wp_localLoop (fun t : TrackResult F => t.trackId)
    (fun acc t => if wantsRecognition p.cfg p.tick t (p.stateOf t.trackId)
      then acc ++ [t] else acc)
    (fun t s => s = if wantsRecognition p.cfg p.tick t (p.stateOf t.trackId)
      then raiseQuality p.cfg t (p.stateOf t.trackId) else p.stateOf t.trackId)
    hnodup ?_) ?_ fun _ => id
  · rintro arcTracks t q hmem hrest hstate
    obtain ⟨s, hs, -⟩ := hstates t hmem
    have hcfg : q.cfg = p.cfg := by rw [hrest]
    have htick : q.tick = p.tick := by rw [hrest]
    rw [wp_selectTrack (hstate.trans hs), Impl.stateOf_eq hs, hcfg, htick]
    split
    · exact ⟨rfl, _, rfl, rfl⟩
    · exact ⟨rfl, _, rfl, rfl⟩
  · rintro arcTracks q ⟨rfl, hrest, hdone, hothers⟩
    exact ⟨by rw [foldl_push_eq_filter, List.nil_append], hrest, hdone, hothers⟩

/-- A recognition result turns one state of its track into another. -/
def RecognizedAs (c : BiometricAttendanceConfig F) (gallery : GalleryMatcher F) (tick : ℕ) (now : ℤ)
    (r : ArcFaceResult F) (known : Bool) (s s' : State F D) : Prop :=
  ∃ m gallery', gallery.match D (meanEmbedding (accumulate tick r s)) = .ok (m, gallery') ∧
    s' = conclude c now known { accumulate tick r s with «match» := m }

/-- Whether the state carries an accepted match of the identity. -/
def MatchedTo (c : BiometricAttendanceConfig F) (identity : String) (s : State F D) : Prop :=
  accepts c s.match = true ∧ s.match.identityId = identity

/-- What the recognition loop has done when the entries `pre` are behind it and
`events` have been collected. -/
structure Recognized (p : Impl F D) (utcMs : ℕ → ℤ) (f : FaceTrackingFrame F) (now : ℤ)
    (pre : List (TrackResult F × ArcFaceResult F)) (events : List (AttendanceEvent F))
    (q : Impl F D) : Prop where
  rest : q = { p with states := q.states, emitted := q.emitted, gallery := q.gallery }
  gallery : q.gallery.Same p.gallery
  states : ∀ entry ∈ pre, HasState q entry.1.trackId fun s =>
    ∃ known, RecognizedAs p.cfg p.gallery p.tick now entry.2 known (p.stateOf entry.1.trackId) s
  others : ∀ id, id ∉ pre.map (·.1.trackId) → q.states id = p.states id
  emitted : ∀ i, q.emitted i = if i ∈ events.map (·.identityId) then some now else p.emitted i
  unknown : ∀ e ∈ events, p.emitted e.identityId = none
  nodup : (events.map (·.identityId)).Nodup
  matched : ∀ entry ∈ pre, HasState q entry.1.trackId fun s =>
    accepts p.cfg s.match = true → (q.emitted s.match.identityId).isSome
  source : ∀ e ∈ events, ∃ entry ∈ pre, HasState q entry.1.trackId fun s =>
    MatchedTo p.cfg e.identityId s ∧ ∃ n, e = makeEvent (utcMs n) f entry.1.trackId s

omit [FloatPair F D] in
/-- The comparison that a conclusion is based on stays in the state. -/
theorem match_conclude (c : BiometricAttendanceConfig F) (now : ℤ) (known : Bool) (s : State F D) :
    (conclude c now known s).match = s.match := by
  obtain ⟨phase, terminal, heq⟩ := conclude_eq c now known s
  rw [heq]

/-- Recording one more result. The event is returned only if the identity has no cooldown in front
of it in the batch. -/
theorem Recognized.record {p q : Impl F D} {utcMs : ℕ → ℤ}
    {pre : List (TrackResult F × ArcFaceResult F)} {events : List (AttendanceEvent F)}
    {t : TrackResult F} {r : ArcFaceResult F} {s : State F D}
    (hrec : Recognized p utcMs f now pre events q) (hs : p.states t.trackId = some s)
    (hfresh : t.trackId ∉ pre.map (·.1.trackId)) :
    wp (recordRecognition utcMs f now events (t, r)) (Recognized p utcMs f now (pre ++ [(t, r)]))
      (fun _ => True) q := by
  have hold : q.states t.trackId = some s := (hrec.others _ hfresh).trans hs
  have hcfg : q.cfg = p.cfg := by rw [hrec.rest]
  have htick : q.tick = p.tick := by rw [hrec.rest]
  rw [wp_recordRecognition hold]
  dsimp only
  split
  · trivial
  rename_i m gallery hmatch
  rw [htick] at hmatch
  have hgallery := GalleryMatcher.same_of_match hmatch
  have hanswer : ∃ gallery', p.gallery.match D (meanEmbedding (accumulate p.tick r s)) =
      .ok (m, gallery') := by
    have hsame := hrec.gallery.match_eq (D := D) (meanEmbedding (accumulate p.tick r s))
    rw [hmatch] at hsame
    cases hfound : p.gallery.match D (meanEmbedding (accumulate p.tick r s)) with
    | error e => simp [hfound, Except.map] at hsame
    | ok out => exact ⟨out.2, by simp_all [Except.map]⟩
  obtain ⟨gallery', hanswer⟩ := hanswer
  rw [hcfg, htick]
  -- The state of the track afterwards, and what its comparison says.
  obtain ⟨s', hs'⟩ : ∃ s', s' = conclude p.cfg now (q.emitted m.identityId).isSome
      { accumulate p.tick r s with «match» := m } := ⟨_, rfl⟩
  have hmatched : s'.match = m := by rw [hs', match_conclude]
  obtain ⟨q', hq'⟩ : ∃ q', q' = afterRecognition now t.trackId m gallery
      (accumulate p.tick r s) q := ⟨_, rfl⟩
  have hstates : q'.states = (q.setState t.trackId s').states := by
    rw [hq', hs', ← hcfg]
    rfl
  have hkept : ∀ {P : State F D → Prop}, ∀ entry ∈ pre, HasState q entry.1.trackId P →
      HasState q' entry.1.trackId P := by
    intro P entry hentry hhas
    have hne : entry.1.trackId ≠ t.trackId := fun h =>
      hfresh (h ▸ List.mem_map_of_mem (f := fun e => e.1.trackId) hentry)
    obtain ⟨old, hold, hP⟩ := hhas.setState_of_ne (s := s') hne
    exact ⟨old, by rw [hstates, hold], hP⟩
  have hself : ∀ {P : State F D → Prop}, P s' → HasState q' t.trackId P := fun hP =>
    ⟨s', by rw [hstates, Impl.setState_self], hP⟩
  have hrest : q' = { p with
      states := q'.states, emitted := q'.emitted, gallery := q'.gallery } := by
    rw [hq', afterRecognition, hrec.rest]
    rfl
  have hsame : q'.gallery.Same p.gallery := by
    rw [hq']
    exact hgallery.trans hrec.gallery
  have hdone : ∀ entry ∈ pre ++ [(t, r)], HasState q' entry.1.trackId fun s =>
      ∃ known, RecognizedAs p.cfg p.gallery p.tick now entry.2 known
        (p.stateOf entry.1.trackId) s := by
    intro entry hentry
    rcases List.mem_append.mp hentry with hmem | hnew
    · exact hkept entry hmem (hrec.states entry hmem)
    · obtain rfl := List.mem_singleton.mp hnew
      have hnow : RecognizedAs p.cfg p.gallery p.tick now r (q.emitted m.identityId).isSome s s' :=
        ⟨m, gallery', hanswer, hs'⟩
      refine hself ⟨(q.emitted m.identityId).isSome, ?_⟩
      rw [Impl.stateOf_eq hs]
      exact hnow
  have hothers : ∀ id, id ∉ (pre ++ [(t, r)]).map (·.1.trackId) → q'.states id = p.states id := by
    intro id hid
    rw [List.map_append, List.map_singleton, List.mem_append, not_or, List.mem_singleton] at hid
    rw [hstates, Impl.setState_of_ne q s' hid.2]
    exact hrec.others id hid.1
  rw [← hs', ← hq']
  by_cases hemits : accepts p.cfg m = true ∧ (q.emitted m.identityId).isSome = false
  · rw [if_pos hemits]
    obtain ⟨haccepts, hunknown⟩ := hemits
    have hemitted : q'.emitted = Function.update q.emitted m.identityId (some now) := by
      rw [hq', afterRecognition, hcfg]
      exact if_pos ⟨haccepts, hunknown⟩
    have hidentity : (makeEvent (utcMs events.length) f t.trackId s').identityId =
        m.identityId := by rw [← hmatched]; rfl
    have hnew : m.identityId ∉ events.map (·.identityId) ∧ p.emitted m.identityId = none := by
      rw [hrec.emitted] at hunknown
      split at hunknown
      · cases hunknown
      · exact ⟨‹_›, Option.isNone_iff_eq_none.mp (by simpa using hunknown)⟩
    refine ⟨hrest, hsame, hdone, hothers, fun i => ?_, ?_, ?_, ?_, ?_⟩
    · rw [hemitted, List.map_append, List.map_singleton, hidentity]
      by_cases hi : i = m.identityId
      · simp [hi]
      · rw [Function.update_of_ne hi, hrec.emitted]
        simp [hi]
    · intro e he
      rcases List.mem_append.mp he with hmem | hlast
      · exact hrec.unknown e hmem
      · rw [List.mem_singleton.mp hlast, hidentity]
        exact hnew.2
    · rw [List.map_append, List.map_singleton, hidentity]
      exact List.nodup_append.mpr ⟨hrec.nodup, List.nodup_singleton _, by
        rintro i hi j hj rfl
        exact hnew.1 (List.mem_singleton.mp hj ▸ hi)⟩
    · intro entry hentry
      rcases List.mem_append.mp hentry with hmem | hlast
      · obtain ⟨s, hs, hknown⟩ := hkept entry hmem (hrec.matched entry hmem)
        refine ⟨s, hs, fun h => ?_⟩
        by_cases hi : s.match.identityId = m.identityId
        · rw [hemitted, hi, Function.update_self, Option.isSome_some]
        · rw [hemitted, Function.update_of_ne hi]
          exact hknown h
      · obtain rfl := List.mem_singleton.mp hlast
        exact hself fun _ => by rw [hmatched, hemitted, Function.update_self, Option.isSome_some]
    · intro e he
      rcases List.mem_append.mp he with hmem | hlast
      · obtain ⟨entry, hentry, hhas⟩ := hrec.source e hmem
        exact ⟨entry, List.mem_append_left _ hentry, hkept entry hentry hhas⟩
      · obtain rfl := List.mem_singleton.mp hlast
        refine ⟨(t, r), List.mem_append_right _ (List.mem_singleton_self _), hself ⟨?_, _, rfl⟩⟩
        exact ⟨by rw [hmatched]; exact haccepts, rfl⟩
  · rw [if_neg hemits]
    have hemitted : q'.emitted = q.emitted := by
      rw [hq', afterRecognition, hcfg]
      exact if_neg hemits
    refine ⟨hrest, hsame, hdone, hothers, fun i => ?_, hrec.unknown, hrec.nodup, ?_, ?_⟩
    · rw [hemitted]
      exact hrec.emitted i
    · intro entry hentry
      rcases List.mem_append.mp hentry with hmem | hlast
      · obtain ⟨s, hs, hknown⟩ := hkept entry hmem (hrec.matched entry hmem)
        exact ⟨s, hs, by rw [hemitted]; exact hknown⟩
      · obtain rfl := List.mem_singleton.mp hlast
        refine hself fun haccepts => ?_
        rw [hmatched] at haccepts ⊢
        rw [hemitted]
        by_contra hnone
        exact hemits ⟨haccepts, Bool.eq_false_iff.mpr hnone⟩
    · intro e he
      obtain ⟨entry, hentry, hhas⟩ := hrec.source e he
      exact ⟨entry, List.mem_append_left _ hentry, hkept entry hentry hhas⟩

/-- The recognition stage of a call that returns. The answers are paired with the crops by
position, and their numbers agree. -/
theorem wp_recognizeTracks {evaluate : BiometricEvaluators F} {utcMs : ℕ → ℤ}
    {test : TrackResult F → Bool} (hnodup : (f.tracks.map (·.trackId)).Nodup)
    (hstates : ∀ t ∈ f.tracks, HasState p t.trackId fun _ => True) :
    wp (recognizeTracks evaluate utcMs f now (f.tracks.filter test))
      (fun events q => ∃ entries, Answered evaluate.recognize f (f.tracks.filter test) entries ∧
        Recognized (p.hand .recognize (f.tracks.filter test)) utcMs f now entries events q)
      (fun _ => True) p := by
  unfold recognizeTracks
  have hnew : ∀ q : Impl F D, Recognized q utcMs f now [] [] q := fun q =>
    ⟨rfl, .refl _, by simp, fun _ _ => rfl, by simp, by simp, by simp, by simp, by simp⟩
  rw [wp_ite]
  refine ⟨fun hnone => ?_, fun _ => ?_⟩
  · rw [hnone, wp_pure]
    refine ⟨[], answered_nil, ?_⟩
    have hsame : p.hand .recognize ([] : List (TrackResult F)) = p := by simp [Impl.hand]
    rw [hsame]
    exact hnew p
  · rw [wp_bind, wp_modify]
    cases hok : evaluate.recognize f.gpuFrame ((f.tracks.filter test).map (·.observation)) with
    | error e => trivial
    | ok results =>
      rw [wp_ite]
      refine ⟨fun _ => trivial, fun hlength => ?_⟩
      have hanswered := answered_zip hok (not_not.mp hlength)
      have hkeys := hanswered.nodup hnodup
      refine wp_mono (wp_foldlM (fun pre _ events q =>
        Recognized (p.hand .recognize (f.tracks.filter test)) utcMs f now pre events q)
        (hnew _) ?_) (fun events q hrec => ⟨_, hanswered, hrec⟩) fun _ => id
      rintro pre ⟨t, r⟩ post events q hsplit hrec
      have hmem := hsplit ▸ List.mem_append_right pre (List.mem_cons_self ..)
      obtain ⟨s, hs, -⟩ := hstates t (List.mem_of_mem_filter (List.of_mem_zip hmem).1)
      refine hrec.record hs fun h => ?_
      rw [hsplit, List.map_append, List.map_cons] at hkeys
      exact (List.nodup_append.mp hkeys).2.2 _ h _ (List.mem_cons_self ..) rfl

omit [FloatPair F D] in
/-- The snapshots of a call do not throw, and leave the processor alone. Every track of the frame
has a state by then. -/
theorem wp_takeSnapshots (hstates : ∀ t ∈ f.tracks, HasState p t.trackId fun _ => True) :
    wp (f.tracks.foldlM takeSnapshot [])
      (fun snapshots q => snapshots = f.tracks.map (fun t => snapshot t (p.stateOf t.trackId)) ∧
        q = p)
      (fun _ => False) p := by
  refine wp_mono (wp_foldlM (fun pre _ snapshots q =>
    snapshots = pre.map (fun t => snapshot t (p.stateOf t.trackId)) ∧ q = p) ⟨rfl, rfl⟩ ?_)
    (fun _ _ h => h) fun _ => id
  rintro pre t post snapshots q hsplit ⟨rfl, rfl⟩
  have hmem : t ∈ f.tracks := hsplit ▸ List.mem_append_right pre (List.mem_cons_self ..)
  obtain ⟨s, hs, -⟩ := hstates t hmem
  have hsame : q.setState t.trackId s = q := by
    unfold Impl.setState
    rw [← hs, Function.update_eq_self]
  unfold takeSnapshot
  rw [wp_atTrack_some hs, wp_bind, wp_get, wp_pure, hsame]
  exact ⟨by rw [List.map_append, List.map_singleton, Impl.stateOf_eq hs], rfl⟩

/-- The processor when a frame has been accepted and old entries have been dropped. -/
def Impl.accept (p : Impl F D) (f : FaceTrackingFrame F) (now : ℤ) : Impl F D :=
  { p with
    evaluations := []
    lastTime := now
    haveTime := true
    lastFrame := f.gpuFrame.frameId
    tick := p.tick + 1 : Impl F D }.collect now

/-- A call that returns, described from the accepted frame `p₁` on: the answers of the two
models, the states between the two stages, and the states at the end. -/
structure FrameRun (evaluate : BiometricEvaluators F) (utcMs : ℕ → ℤ) (f : FaceTrackingFrame F)
    (now : ℤ) (p₁ : Impl F D) (padEntries : List (TrackResult F × LivenessResult F))
    (checked : ℕ → State F D) (arcEntries : List (TrackResult F × ArcFaceResult F))
    (frame : BiometricAttendanceFrame F) (q : Impl F D) : Prop where
  /-- No track occurs twice. -/
  tracks_nodup : (f.tracks.map (·.trackId)).Nodup
  /-- The scheduled crops have answers of the liveness model. -/
  pad : Answered evaluate.pad f (f.tracks.filter fun t => (scheduled p₁ now t).2) padEntries
  /-- The answers are recorded. -/
  checked_eq : ∀ t ∈ f.tracks, if (scheduled p₁ now t).2 then ∃ r, (t, r) ∈ padEntries ∧
      recordPad p₁.cfg p₁.tick now t r (scheduled p₁ now t).1 = .ok () (checked t.trackId)
    else checked t.trackId = (scheduled p₁ now t).1
  /-- The selected crops have answers of the recognition model. -/
  recognize : Answered evaluate.recognize f
    (f.tracks.filter fun t => wantsRecognition p₁.cfg p₁.tick t (checked t.trackId)) arcEntries
  /-- The answers are recorded. -/
  states : ∀ t ∈ f.tracks, HasState q t.trackId fun s =>
    if wantsRecognition p₁.cfg p₁.tick t (checked t.trackId) then ∃ r known, (t, r) ∈ arcEntries ∧
      RecognizedAs p₁.cfg p₁.gallery p₁.tick now r known
        (raiseQuality p₁.cfg t (checked t.trackId)) s
    else s = checked t.trackId
  /-- Tracks outside the frame keep their states. -/
  others : ∀ id, id ∉ f.tracks.map (·.trackId) → q.states id = p₁.states id
  /-- Configuration and clocks stay. -/
  rest : q = { p₁ with
    states := q.states, emitted := q.emitted, gallery := q.gallery, evaluations := q.evaluations }
  /-- The gallery keeps its contents. -/
  gallery : q.gallery.Same p₁.gallery
  /-- The crops handed to the liveness model. -/
  handed_pad : ∀ t s, .pad t s ∈ q.evaluations →
    t ∈ f.tracks ∧ (scheduled p₁ now t).2 = true
  /-- The crops handed to the recognition model. -/
  handed_recognize : ∀ t, (∃ s, .recognize t s ∈ q.evaluations) ↔
    t ∈ f.tracks ∧ wantsRecognition p₁.cfg p₁.tick t (checked t.trackId) = true
  /-- They are handed with the states that recognition starts from. -/
  handed_state : ∀ t s, .recognize t s ∈ q.evaluations →
    s = raiseQuality p₁.cfg t (checked t.trackId)
  /-- The identities with an event are remembered. -/
  emitted : ∀ i, q.emitted i =
    if i ∈ frame.attendanceEvents.map (·.identityId) then some now else p₁.emitted i
  /-- No identity with an event was remembered before. -/
  unknown : ∀ e ∈ frame.attendanceEvents, p₁.emitted e.identityId = none
  /-- No identity has two events. -/
  events_nodup : (frame.attendanceEvents.map (·.identityId)).Nodup
  /-- Every accepted match is remembered. -/
  matched : ∀ t ∈ f.tracks, wantsRecognition p₁.cfg p₁.tick t (checked t.trackId) = true →
    HasState q t.trackId fun s =>
      accepts p₁.cfg s.match = true → (q.emitted s.match.identityId).isSome
  /-- Every event reports an accepted match. -/
  source : ∀ e ∈ frame.attendanceEvents, ∃ t ∈ f.tracks,
    wantsRecognition p₁.cfg p₁.tick t (checked t.trackId) = true ∧
      HasState q t.trackId fun s =>
        MatchedTo p₁.cfg e.identityId s ∧ ∃ n, e = makeEvent (utcMs n) f t.trackId s
  /-- The snapshots show the states at the end. -/
  snapshots : frame.tracks = f.tracks.map fun t => snapshot t (q.stateOf t.trackId)

/-- Whether the processor accepts a frame: time and frame identifier advance, and no track
occurs twice. -/
def Impl.admits (p : Impl F D) (f : FaceTrackingFrame F) (now : ℤ) : Bool :=
  ¬ ((p.haveTime ∧ now < p.lastTime) ∨ f.gpuFrame.frameId ≤ p.lastFrame) ∧
    (f.tracks.map (·.trackId)).Nodup

omit [FloatPair F D] in
/-- An accepted frame advances the clocks and has distinct tracks; a frame that is not
accepted leaves the processor alone. -/
theorem wp_beginFrame :
    wp (beginFrame f now)
      (fun _ q => p.admits f now = true ∧ q.evaluations = p.evaluations ∧
        (p.haveTime = true → p.lastTime ≤ now) ∧ p.lastFrame < f.gpuFrame.frameId ∧
        (f.tracks.map (·.trackId)).Nodup ∧
        q = { p.accept f now with evaluations := p.evaluations })
      (fun q => p.admits f now = false ∧ q = p) p := by
  unfold beginFrame Impl.admits
  rw [wp_bind, wp_get, wp_ite]
  refine ⟨fun hback => ⟨by simp [hback], rfl⟩, fun hadvance => ?_⟩
  rw [wp_ite]
  refine ⟨fun htwice => ⟨by simp [htwice], rfl⟩, fun hnodup => ?_⟩
  rw [wp_bind, wp_modify, wp_modify]
  refine ⟨decide_eq_true ⟨hadvance, not_not.mp hnodup⟩, rfl, fun htime => ?_, ?_,
    not_not.mp hnodup, rfl⟩
  · by_contra hback
    exact hadvance (Or.inl ⟨htime, not_le.mp hback⟩)
  · by_contra hback
    exact hadvance (Or.inr (not_lt.mp hback))

/-- A call that returns runs as described. The stages are replaced by their descriptions, one
after the other. -/
theorem wp_process {evaluate : BiometricEvaluators F} {utcMs : ℕ → ℤ} :
    wp (process evaluate utcMs f now)
      (fun frame q => (p.haveTime = true → p.lastTime ≤ now) ∧
        ∃ padEntries checked arcEntries,
          FrameRun evaluate utcMs f now (p.accept f now) padEntries checked arcEntries frame q)
      (fun _ => True) p := by
  unfold process
  rw [wp_bind, wp_modify, wp_bind]
  refine wp_mono wp_beginFrame ?_ fun _ _ => trivial
  rintro - p₁ ⟨-, -, htime, -, hnodup, hp₁⟩
  have hp₁ : p₁ = p.accept f now := hp₁
  subst hp₁
  obtain ⟨p₁, hp₁⟩ : ∃ p₁, p₁ = p.accept f now := ⟨_, rfl⟩
  rw [← hp₁]
  rw [wp_bind]
  refine wp_mono (wp_scheduleTracks hnodup) ?_ fun _ _ => trivial
  rintro - p₂ ⟨rfl, hrest₂, hstates₂, hothers₂⟩
  rw [wp_bind]
  refine wp_mono (wp_checkPad hnodup fun t ht => ?_) ?_ fun _ _ => trivial
  · obtain ⟨s, hs, -⟩ := hstates₂ t ht
    exact ⟨s, hs, trivial⟩
  rintro - p₃ ⟨hrest₃, padEntries, hpad, hstates₃, hothers₃⟩
  have hcfg₂ : p₂.cfg = p₁.cfg := by rw [hrest₂]
  have htick₂ : p₂.tick = p₁.tick := by rw [hrest₂]
  have hcfg₃ : p₃.cfg = p₁.cfg := by
    rw [hrest₃]
    exact hcfg₂
  have htick₃ : p₃.tick = p₁.tick := by
    rw [hrest₃]
    exact htick₂
  have hstateOf₂ : ∀ t ∈ f.tracks, p₂.stateOf t.trackId = (scheduled p₁ now t).1 := by
    intro t ht
    obtain ⟨s, hs, rfl⟩ := hstates₂ t ht
    exact Impl.stateOf_eq hs
  have hchecked : ∀ t ∈ f.tracks, HasState p₃ t.trackId fun s =>
      if (scheduled p₁ now t).2 then ∃ r, (t, r) ∈ padEntries ∧
        recordPad p₁.cfg p₁.tick now t r (scheduled p₁ now t).1 = .ok () s
      else s = (scheduled p₁ now t).1 := by
    intro t ht
    by_cases hcrop : (scheduled p₁ now t).2 = true
    · obtain ⟨r, hmem⟩ := hpad.exists_answer (List.mem_filter.mpr ⟨ht, hcrop⟩)
      obtain ⟨s, hs, hrun⟩ := hstates₃ _ hmem
      rw [hcfg₂, htick₂, hstateOf₂ t ht] at hrun
      refine ⟨s, hs, ?_⟩
      simp only [hcrop, if_true]
      exact ⟨r, hmem, hrun⟩
    · obtain ⟨s, hs, rfl⟩ := hstates₂ t ht
      refine ⟨_, (hothers₃ _ (hpad.not_mem_keys hnodup ht hcrop)).trans hs, ?_⟩
      simp [hcrop]
  have hothers : ∀ id, id ∉ f.tracks.map (·.trackId) → p₃.states id = p₁.states id :=
    fun id hid => (hothers₃ id fun h => hid (hpad.mem_tracks h)).trans (hothers₂ id hid)
  rw [wp_bind]
  refine wp_mono (wp_selectTracks hnodup fun t ht => ?_) ?_ fun _ _ => trivial
  · obtain ⟨s, hs, -⟩ := hchecked t ht
    exact ⟨s, hs, trivial⟩
  rintro - p₄ ⟨rfl, hrest₄, hstates₄, hothers₄⟩
  rw [wp_bind]
  refine wp_mono (wp_recognizeTracks hnodup fun t ht => ?_) ?_ fun _ _ => trivial
  · obtain ⟨s, hs, -⟩ := hstates₄ t ht
    exact ⟨s, hs, trivial⟩
  rintro events p₅ ⟨arcEntries, hrecognize, hrec⟩
  obtain ⟨q₀, hq₀⟩ : ∃ q₀, q₀ = p₄.hand .recognize (f.tracks.filter fun t =>
      wantsRecognition p₃.cfg p₃.tick t (p₃.stateOf t.trackId)) := ⟨_, rfl⟩
  rw [← hq₀] at hrec
  have hq₀rest : q₀ = { p₁ with states := p₄.states, evaluations := q₀.evaluations } := by
    rw [hq₀, Impl.hand, hrest₄, hrest₃, Impl.hand, hrest₂]
  have hevaluations : q₀.evaluations =
      (f.tracks.filter fun t => (scheduled p₁ now t).2).map
        (fun t => .pad t (p₂.stateOf t.trackId)) ++
      (f.tracks.filter fun t => wantsRecognition p₃.cfg p₃.tick t (p₃.stateOf t.trackId)).map
        (fun t => .recognize t (p₄.stateOf t.trackId)) := by
    rw [hq₀, Impl.hand, hrest₄, hrest₃, Impl.hand, hrest₂, hp₁]
    rfl
  rw [hcfg₃, htick₃] at hrecognize hevaluations hstates₄
  have hrest₅ : p₅ = { p₁ with
      states := p₅.states, emitted := p₅.emitted, gallery := p₅.gallery
      evaluations := p₅.evaluations } := by
    rw [hrec.rest, hq₀rest]
  have hevaluations₅ : p₅.evaluations = q₀.evaluations := by rw [hrec.rest]
  have hgallery : q₀.gallery = p₁.gallery := by rw [hq₀rest]
  have hemitted : q₀.emitted = p₁.emitted := by rw [hq₀rest]
  have hcfg : q₀.cfg = p₁.cfg := by rw [hq₀rest]
  have htick : q₀.tick = p₁.tick := by rw [hq₀rest]
  have hq₀states : q₀.states = p₄.states := by rw [hq₀rest]
  have hraised : ∀ t ∈ f.tracks,
      wantsRecognition p₁.cfg p₁.tick t (p₃.stateOf t.trackId) = true →
      q₀.stateOf t.trackId = raiseQuality p₁.cfg t (p₃.stateOf t.trackId) := by
    intro t ht hwants
    obtain ⟨s, hs, rfl⟩ := hstates₄ t ht
    rw [← hq₀states] at hs
    rw [Impl.stateOf_eq hs, if_pos hwants]
  have hstates₅ : ∀ t ∈ f.tracks, HasState p₅ t.trackId fun s =>
      if wantsRecognition p₁.cfg p₁.tick t (p₃.stateOf t.trackId) then
        ∃ r known, (t, r) ∈ arcEntries ∧ RecognizedAs p₁.cfg p₁.gallery p₁.tick now r known
          (raiseQuality p₁.cfg t (p₃.stateOf t.trackId)) s
      else s = p₃.stateOf t.trackId := by
    intro t ht
    by_cases hwants : wantsRecognition p₁.cfg p₁.tick t (p₃.stateOf t.trackId) = true
    · obtain ⟨r, hmem⟩ := hrecognize.exists_answer (List.mem_filter.mpr ⟨ht, hwants⟩)
      obtain ⟨s, hs, known, hrun⟩ := hrec.states _ hmem
      rw [hraised t ht hwants, hcfg, htick, hgallery] at hrun
      refine ⟨s, hs, ?_⟩
      simp only [hwants, if_true]
      exact ⟨r, known, hmem, hrun⟩
    · obtain ⟨s, hs, rfl⟩ := hstates₄ t ht
      refine ⟨_, ((hrec.others _ (hrecognize.not_mem_keys hnodup ht hwants)).trans
        (congrFun hq₀states _)).trans hs, ?_⟩
      simp [hwants]
  rw [wp_bind]
  refine wp_mono (wp_takeSnapshots fun t ht => ?_) ?_ fun _ _ => trivial
  · obtain ⟨s, hs, -⟩ := hstates₅ t ht
    exact ⟨s, hs, trivial⟩
  rintro snapshots q ⟨rfl, rfl⟩
  refine ⟨htime, padEntries, p₃.stateOf, arcEntries, ?_⟩
  exact {
    tracks_nodup := hnodup
    pad := hpad
    checked_eq := fun t ht => by
      obtain ⟨s, hs, hchecked⟩ := hchecked t ht
      rw [Impl.stateOf_eq hs]
      exact hchecked
    recognize := hrecognize
    states := hstates₅
    others := fun id hid => by
      rw [hrec.others id fun h => hid (hrecognize.mem_tracks h), hq₀states, hothers₄ id hid]
      exact hothers id hid
    rest := hrest₅
    gallery := hgallery ▸ hrec.gallery
    handed_pad := fun t s hmem => by
      rw [hevaluations₅, hevaluations] at hmem
      rcases List.mem_append.mp hmem with hpads | hrecognizes
      · obtain ⟨u, hu, heq⟩ := List.mem_map.mp hpads
        cases heq
        exact List.mem_filter.mp hu
      · obtain ⟨u, -, heq⟩ := List.mem_map.mp hrecognizes
        cases heq
    handed_recognize := fun t => by
      rw [hevaluations₅, hevaluations]
      simp
    handed_state := fun t s hmem => by
      rw [hevaluations₅, hevaluations] at hmem
      rcases List.mem_append.mp hmem with hpads | hrecognizes
      · obtain ⟨u, -, heq⟩ := List.mem_map.mp hpads
        cases heq
      · obtain ⟨u, hu, heq⟩ := List.mem_map.mp hrecognizes
        cases heq
        obtain ⟨ht, hwants⟩ := List.mem_filter.mp hu
        obtain ⟨s, hs, rfl⟩ := hstates₄ t ht
        rw [Impl.stateOf_eq hs, if_pos hwants]
    emitted := fun i => by
      rw [hrec.emitted i, hemitted]
    unknown := fun e he => hemitted ▸ hrec.unknown e he
    events_nodup := hrec.nodup
    matched := fun t ht hwants => by
      obtain ⟨r, hmem⟩ := hrecognize.exists_answer (List.mem_filter.mpr ⟨ht, hwants⟩)
      exact hcfg ▸ hrec.matched _ hmem
    source := fun e he => by
      obtain ⟨⟨t, r⟩, hmem, hhas⟩ := hrec.source e he
      have ht : t ∈ f.tracks.filter _ := hrecognize.crops_eq ▸ List.mem_map_of_mem hmem
      obtain ⟨ht, hwants⟩ := List.mem_filter.mp ht
      exact ⟨t, ht, hwants, hcfg ▸ hhas⟩
    snapshots := rfl }

end EdgeClient.Vision.AttendanceProcessor
