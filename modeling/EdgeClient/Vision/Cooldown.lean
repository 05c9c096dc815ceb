import EdgeClient.Vision.RecognitionRounds

/-!
# The cooldown of an identity

After an event for an identity the processor returns no other event for it until
the cooldown has run out, and every accepted match outside the cooldown gives an
event. The map of remembered events is related to all events returned so far: an
entry is the time of an event, and an event without a later entry is older than the
cooldown. A reset and another gallery leave the map alone.

All this needs a cooldown whose nanoseconds fit into 64 bits, which the validation does
not ask for. A longer one wraps around, and the entries of the map are dropped too early.
-/

namespace EdgeClient.Vision.AttendanceProcessor

open Basis

variable {F D : Type} [FloatOps F] [FloatOps D] [FloatPair F D]

/-- An event for the identity less than a cooldown ago. -/
def RecentEvent (c : BiometricAttendanceConfig F) (events : List (ℤ × AttendanceEvent F)) (now : ℤ)
    (identity : String) : Prop :=
  ∃ x ∈ events, x.2.identityId = identity ∧ now - x.1 < milliseconds c.eventCooldown

/-- Events of one identity are at least a cooldown apart. -/
def Spaced (c : BiometricAttendanceConfig F) (events : List (ℤ × AttendanceEvent F)) : Prop :=
  events.Pairwise fun x y =>
    x.2.identityId = y.2.identityId → milliseconds c.eventCooldown ≤ y.1 - x.1

/-- A track that a call hands to recognition matches the identity: the gallery accepts the mean
of the embeddings that the recognition model has returned for it in its current round, with
those of this call. -/
def EvaluatedMatch (p : Impl F D) (rounds : ℕ → List (Embedding F))
    (evaluate : BiometricEvaluators F) (utcMs : ℕ → ℤ) (f : FaceTrackingFrame F) (now : ℤ)
    (identity : String) : Prop :=
  ∃ t s, .recognize t s ∈ (finalState (process evaluate utcMs f now p)).evaluations ∧
    ∃ m gallery, p.gallery.match D (meanOf D
        ((Call.process evaluate utcMs f now).noteRound p rounds t.trackId)) = .ok (m, gallery) ∧
      accepts p.cfg m = true ∧ m.identityId = identity

/-- A track that the last call handed to recognition carries an accepted match. -/
def StoredMatch (c : BiometricAttendanceConfig F) (identity : String) (q : Impl F D) : Prop :=
  ∃ t s, .recognize t s ∈ q.evaluations ∧ HasState q t.trackId (MatchedTo c identity)

/-- How the remembered events relate to all events returned so far. -/
structure Remembered (c : BiometricAttendanceConfig F) (events : List (ℤ × AttendanceEvent F))
    (p : Impl F D) : Prop where
  cfg_eq : p.cfg = c
  past : ∀ x ∈ events, p.haveTime = true ∧ x.1 ≤ p.lastTime
  source : ∀ i t, p.emitted i = some t → ∃ x ∈ events, x.2.identityId = i ∧ x.1 = t
  kept : ∀ x ∈ events, (∃ t, p.emitted x.2.identityId = some t ∧ x.1 ≤ t) ∨
    milliseconds c.eventCooldown ≤ p.lastTime - x.1
  spaced : Spaced c events

variable {c : BiometricAttendanceConfig F} {events : List (ℤ × AttendanceEvent F)} {p q : Impl F D}
  {f : FaceTrackingFrame F} {now : ℤ}

omit [FloatPair F D] in
/-- The entries that are left in an accepted frame are the recent events. The entries that are too
old are erased at the beginning of the frame, and with an exact cooldown no others. -/
theorem Remembered.isSome_accept (hrem : Remembered c events p)
    (hexact : nanoseconds c.eventCooldown = milliseconds c.eventCooldown)
    (htime : p.haveTime = true → p.lastTime ≤ now) (i : String) :
    ((p.accept f now).emitted i).isSome = true ↔ RecentEvent c events now i := by
  have hfilter : (p.accept f now).emitted i =
      (p.emitted i).filter fun t => ¬ milliseconds c.eventCooldown ≤ now - t := by
    rw [← hexact, ← hrem.cfg_eq]
    rfl
  rw [hfilter]
  constructor
  · intro hsome
    obtain ⟨t, ht⟩ := Option.isSome_iff_exists.mp hsome
    obtain ⟨hemitted, hrecent⟩ := Option.filter_eq_some_iff.mp ht
    obtain ⟨x, hx, hidentity, rfl⟩ := hrem.source i t hemitted
    exact ⟨x, hx, hidentity, not_le.mp (of_decide_eq_true hrecent)⟩
  · rintro ⟨x, hx, rfl, hrecent⟩
    have hlast := htime (hrem.past x hx).1
    rcases hrem.kept x hx with ⟨t, hemitted, hle⟩ | hold
    · refine Option.isSome_iff_exists.mpr ⟨t, Option.filter_eq_some_iff.mpr ⟨hemitted, ?_⟩⟩
      exact decide_eq_true (by omega)
    · omega

/-- A call that returns keeps the relation. An event of the frame is an entry with its time, and
entries are written nowhere else. -/
theorem Remembered.process {evaluate : BiometricEvaluators F} {utcMs : ℕ → ℤ}
    {padEntries : List (TrackResult F × LivenessResult F)} {checked : ℕ → State F D}
    {arcEntries : List (TrackResult F × ArcFaceResult F)} {frame : BiometricAttendanceFrame F}
    (haccepted : validateAttendanceConfig c = .ok ()) (hrem : Remembered c events p)
    (hexact : nanoseconds c.eventCooldown = milliseconds c.eventCooldown)
    (htime : p.haveTime = true → p.lastTime ≤ now)
    (hrun : FrameRun evaluate utcMs f now (p.accept f now) padEntries checked arcEntries frame q) :
    Remembered c (events ++ frame.attendanceEvents.map fun e => (now, e)) q := by
  have hpos := (budgetsAccepted_of_validate haccepted).cooldown_pos
  have hlast : q.lastTime = now := by rw [hrun.rest]; rfl
  have hhave : q.haveTime = true := by rw [hrun.rest]; rfl
  have hrecent := hrem.isSome_accept (f := f) hexact htime
  refine ⟨by rw [hrun.rest]; exact hrem.cfg_eq, ?_, ?_, ?_, ?_⟩
  · intro x hx
    refine ⟨hhave, ?_⟩
    rw [hlast]
    rcases List.mem_append.mp hx with hold | hnew
    · exact (hrem.past x hold).2.trans (htime (hrem.past x hold).1)
    · obtain ⟨e, -, rfl⟩ := List.mem_map.mp hnew
      exact le_rfl
  · intro i t ht
    rw [hrun.emitted] at ht
    split at ht
    · rename_i hmem
      obtain ⟨e, he, rfl⟩ := List.mem_map.mp hmem
      exact ⟨(now, e), List.mem_append_right _ (List.mem_map_of_mem he), rfl, Option.some.inj ht⟩
    · obtain ⟨x, hx, hidentity, htx⟩ := hrem.source i t (Option.filter_eq_some_iff.mp ht).1
      exact ⟨x, List.mem_append_left _ hx, hidentity, htx⟩
  · intro x hx
    rw [hlast, hrun.emitted]
    rcases List.mem_append.mp hx with hold | hnew
    · have hpast := (hrem.past x hold).2.trans (htime (hrem.past x hold).1)
      split
      · exact Or.inl ⟨now, rfl, hpast⟩
      · by_cases hfresh : now - x.1 < milliseconds c.eventCooldown
        · obtain ⟨t, ht⟩ := Option.isSome_iff_exists.mp ((hrecent x.2.identityId).mpr
            ⟨x, hold, rfl, hfresh⟩)
          refine Or.inl ⟨t, ht, ?_⟩
          rcases hrem.kept x hold with ⟨t', ht', hle⟩ | hexpired
          · rw [(Option.filter_eq_some_iff.mp ht).1] at ht'
            exact (Option.some.inj ht') ▸ hle
          · have := htime (hrem.past x hold).1
            omega
        · exact Or.inr (not_lt.mp hfresh)
    · obtain ⟨e, he, rfl⟩ := List.mem_map.mp hnew
      rw [if_pos (List.mem_map_of_mem he)]
      exact Or.inl ⟨now, rfl, le_rfl⟩
  · refine List.pairwise_append.mpr ⟨hrem.spaced, ?_, ?_⟩
    · refine List.pairwise_map.mpr (List.Pairwise.imp ?_ (List.pairwise_map.mp hrun.events_nodup))
      exact fun hne heq => absurd heq hne
    · intro x hx y hy hidentity
      obtain ⟨e, he, rfl⟩ := List.mem_map.mp hy
      by_contra hclose
      have hnone := hrun.unknown e he
      have hsome := (hrecent e.identityId).mpr ⟨x, hx, hidentity, not_le.mp hclose⟩
      rw [hnone] at hsome
      cases hsome

omit [FloatPair F D] in
/-- A reset and another gallery keep the relation. -/
theorem Remembered.of_eq (hrem : Remembered c events p) (hcfg : q.cfg = p.cfg)
    (hemitted : q.emitted = p.emitted) (htime : q.lastTime = p.lastTime)
    (hhave : q.haveTime = p.haveTime) : Remembered c events q where
  cfg_eq := hcfg.trans hrem.cfg_eq
  past x hx := by rw [hhave, htime]; exact hrem.past x hx
  source i t ht := hrem.source i t (by rw [← hemitted]; exact ht)
  kept x hx := by rw [hemitted, htime]; exact hrem.kept x hx
  spaced := hrem.spaced

/-- Every call that completes keeps the relation. The other two calls return no events and keep
the entries on purpose. -/
theorem Remembered.perform (haccepted : validateAttendanceConfig c = .ok ())
    (hexact : nanoseconds c.eventCooldown = milliseconds c.eventCooldown)
    (hrem : Remembered c events p) (call : Call F) (hcomplete : call.Completes p) :
    Remembered c (events ++ call.returned p) (call.perform p) := by
  cases call with
  | process evaluate utcMs f now =>
    simp only [Call.Completes, Call.returned, Call.perform] at hcomplete ⊢
    cases hrun : AttendanceProcessor.process evaluate utcMs f now p with
    | error e q => simp only [hrun] at hcomplete
    | ok frame q =>
      obtain ⟨htime, padEntries, checked, arcEntries, hframe⟩ := wp_ok wp_process hrun
      exact hrem.process haccepted hexact htime hframe
  | setGallery templates =>
    simp only [Call.returned, List.append_nil, Call.perform, AttendanceProcessor.setGallery]
    cases GalleryMatcher.replace D templates with
    | error e => exact hrem
    | ok gallery => exact hrem.of_eq rfl rfl rfl rfl
  | reset =>
    simp only [Call.returned, List.append_nil]
    exact hrem.of_eq rfl rfl rfl rfl

/-- After every sequence of calls without a throwing frame, the remembered events relate
to the events returned. -/
theorem remembered_afterCalls (haccepted : validateAttendanceConfig c = .ok ())
    (hexact : nanoseconds c.eventCooldown = milliseconds c.eventCooldown)
    {calls : List (Call F)} (hcomplete : AllComplete D c calls) :
    Remembered c (history D c calls) (afterCalls D c calls) :=
  run_invariant (Remembered c) (fun _ _ call hcompletes hrem =>
    hrem.perform haccepted hexact call hcompletes)
    ⟨rfl, by simp, fun _ _ h => (by cases h), by simp, List.Pairwise.nil⟩ hcomplete

/-- The number of events for an identity in a frame. -/
def eventCount (frame : BiometricAttendanceFrame F) (identity : String) : ℕ :=
  frame.attendanceEvents.countP fun e => e.identityId = identity

/-- What the cooldown promises after a sequence of calls. The fields are the two directions, for
the events of the whole run. -/
structure CooldownRespected (D : Type) [FloatOps D] [FloatPair F D]
    (c : BiometricAttendanceConfig F) (calls : List (Call F)) : Prop where
  /-- All events so far are a cooldown apart for each identity. -/
  spaced : Spaced c (history D c calls)
  /-- The next frame gives exactly one event for each identity that a track evaluated in
  it matches and that has no recent event. -/
  one_event : ∀ evaluate utcMs f now frame q,
    process evaluate utcMs f now (afterCalls D c calls) = .ok frame q → ∀ identity,
      EvaluatedMatch (afterCalls D c calls) (roundJournal D c calls) evaluate utcMs f now identity ∧
        ¬ RecentEvent c (history D c calls) now identity →
      eventCount frame identity = 1
  /-- It gives no event for any other identity. -/
  no_event : ∀ evaluate utcMs f now frame q,
    process evaluate utcMs f now (afterCalls D c calls) = .ok frame q → ∀ identity,
      ¬ (EvaluatedMatch (afterCalls D c calls) (roundJournal D c calls) evaluate utcMs f now
          identity ∧ ¬ RecentEvent c (history D c calls) now identity) →
      eventCount frame identity = 0

omit [FloatOps F] [FloatPair F D] in
/-- Distinct identities occur once or not at all. The number of events is the number of times the
identity is listed. -/
theorem eventCount_eq {frame : BiometricAttendanceFrame F}
    (hnodup : (frame.attendanceEvents.map (·.identityId)).Nodup) (identity : String) :
    eventCount frame identity =
      if identity ∈ frame.attendanceEvents.map (·.identityId) then 1 else 0 := by
  have hcount : eventCount frame identity =
      (frame.attendanceEvents.map (·.identityId)).count identity := by
    unfold eventCount List.count
    rw [List.countP_map]
    exact List.countP_congr fun e _ => by simp
  rw [hcount, hnodup.count]

/-- An identity has an event in a frame exactly when an evaluated track carries a match of it
and it has no recent event. -/
theorem Remembered.event_iff {evaluate : BiometricEvaluators F} {utcMs : ℕ → ℤ}
    {padEntries : List (TrackResult F × LivenessResult F)} {checked : ℕ → State F D}
    {arcEntries : List (TrackResult F × ArcFaceResult F)} {frame : BiometricAttendanceFrame F}
    (hrem : Remembered c events p)
    (hexact : nanoseconds c.eventCooldown = milliseconds c.eventCooldown)
    (htime : p.haveTime = true → p.lastTime ≤ now)
    (hrun : FrameRun evaluate utcMs f now (p.accept f now) padEntries checked arcEntries frame q)
    (identity : String) :
    identity ∈ frame.attendanceEvents.map (·.identityId) ↔
      StoredMatch c identity q ∧ ¬ RecentEvent c events now identity := by
  have hcfg : (p.accept f now).cfg = c := hrem.cfg_eq
  rw [← hrem.isSome_accept (f := f) hexact htime]
  constructor
  · intro hmem
    obtain ⟨e, he, rfl⟩ := List.mem_map.mp hmem
    obtain ⟨t, ht, hwants, s, hs, hmatched, -⟩ := hrun.source e he
    obtain ⟨s', hhanded⟩ := (hrun.handed_recognize t).mpr ⟨ht, hwants⟩
    refine ⟨⟨t, s', hhanded, s, hs, hcfg ▸ hmatched⟩, ?_⟩
    rw [hrun.unknown e he]
    exact nofun
  · rintro ⟨⟨t, s', hhanded, s, hs, haccepts, rfl⟩, hnone⟩
    obtain ⟨ht, hwants⟩ := (hrun.handed_recognize t).mp ⟨s', hhanded⟩
    obtain ⟨s'', hs'', hknown⟩ := hrun.matched t ht hwants
    obtain rfl : s = s'' := Option.some.inj (hs.symm.trans hs'')
    have hsome := hknown (hcfg.symm ▸ haccepts)
    by_contra hmem
    rw [hrun.emitted, if_neg hmem] at hsome
    exact hnone hsome

/-- In a frame that returns, the matches that the tracks carry are those of the means of their
rounds. -/
theorem evaluatedMatch_iff {evaluate : BiometricEvaluators F} {utcMs : ℕ → ℤ}
    {frame : BiometricAttendanceFrame F} {rounds : ℕ → List (Embedding F)}
    (haverages : (Call.process evaluate utcMs f now).Averages (p, rounds))
    (hreturns : process evaluate utcMs f now p = .ok frame q) (identity : String) :
    EvaluatedMatch p rounds evaluate utcMs f now identity ↔ StoredMatch p.cfg identity q := by
  have hfinal : finalState (process evaluate utcMs f now p) = q := by
    rw [hreturns]
    rfl
  unfold EvaluatedMatch StoredMatch
  rw [hfinal]
  unfold Call.Averages Call.perform at haverages
  dsimp only at haverages
  rw [hfinal] at haverages
  constructor
  · rintro ⟨t, s, hmem, m, gallery, hmatch, haccepts, hidentity⟩
    obtain ⟨-, s', hs', gallery', hstored⟩ := haverages t s hmem
    obtain ⟨rfl, -⟩ := Prod.mk.inj (Except.ok.inj (hmatch.symm.trans hstored))
    exact ⟨t, s, hmem, s', hs', haccepts, hidentity⟩
  · rintro ⟨t, s, hmem, s', hs', haccepts, hidentity⟩
    obtain ⟨-, s'', hs'', gallery, hstored⟩ := haverages t s hmem
    obtain rfl : s' = s'' := Option.some.inj (hs'.symm.trans hs'')
    exact ⟨t, s, hmem, s'.match, gallery, hstored, haccepts, hidentity⟩

/-- The cooldown is respected in both directions after every sequence of calls in which no
call of `process` throws, when its nanoseconds fit into 64 bits. -/
theorem cooldown_respected (haccepted : validateAttendanceConfig c = .ok ())
    (hfits : c.eventCooldown ≤ maxMilliseconds) {calls : List (Call F)}
    (hcomplete : AllComplete D c calls) : CooldownRespected D c calls := by
  have hexact := (nanoseconds_eq_iff (budgetsAccepted_of_validate haccepted).cooldown_pos.le).mpr
    hfits
  have hrem := remembered_afterCalls haccepted hexact hcomplete
  have hnoted := roundsNoted_afterCalls hcomplete
  have hevent : ∀ evaluate utcMs f now frame q,
      process evaluate utcMs f now (afterCalls D c calls) = .ok frame q → ∀ identity,
        (identity ∈ frame.attendanceEvents.map (·.identityId) ↔
          EvaluatedMatch (afterCalls D c calls) (roundJournal D c calls) evaluate utcMs f now
            identity ∧ ¬ RecentEvent c (history D c calls) now identity) ∧
        eventCount frame identity =
          if identity ∈ frame.attendanceEvents.map (·.identityId) then 1 else 0 := by
    intro evaluate utcMs f now frame q hrun identity
    obtain ⟨htime, padEntries, checked, arcEntries, hframe⟩ := wp_ok wp_process hrun
    have haverages := (hnoted.process hframe hrun).2
    rw [evaluatedMatch_iff haverages hrun, hrem.cfg_eq]
    exact ⟨hrem.event_iff hexact htime hframe identity, eventCount_eq hframe.events_nodup identity⟩
  refine ⟨hrem.spaced, ?_, ?_⟩
  · intro evaluate utcMs f now frame q hrun identity hmatch
    obtain ⟨hiff, hcount⟩ := hevent evaluate utcMs f now frame q hrun identity
    rw [hcount, if_pos (hiff.mpr hmatch)]
  · intro evaluate utcMs f now frame q hrun identity hmatch
    obtain ⟨hiff, hcount⟩ := hevent evaluate utcMs f now frame q hrun identity
    rw [hcount, if_neg fun h => hmatch (hiff.mp h)]

/-! ## Samples in exact arithmetic -/

/-- Times and identities of the events of a run. -/
def eventTimes (D : Type) [FloatOps D] [FloatPair F D] (c : BiometricAttendanceConfig F)
    (calls : List (Call F)) : List (ℤ × String) :=
  (history D c calls).map fun x => (x.1, x.2.identityId)

/-- A visitor is recognized on one track, again on a second track a moment later, and once more
on a third track when the cooldown is over. -/
def visitCalls : List (Call (Extended ℚ)) :=
  [sampleGallery, sampleCall 1 [(7, 112)] 100, sampleCall 2 [(7, 112), (8, 112)] 200, .reset,
    sampleCall 3 [(8, 112)] 300, sampleCall 4 [(9, 112)] 30100]

/-- The visitor has an event at the beginning and one when the cooldown is over; the second
track only finds a duplicate. -/
theorem cooldown_respected_sample :
    CooldownRespected (Extended ℚ) briefConfig visitCalls ∧
    eventTimes (Extended ℚ) briefConfig visitCalls =
      [(milliseconds 100, "visitor"), (milliseconds 30100, "visitor")] :=
  ⟨cooldown_respected (by decide +kernel) (by decide) (by decide +kernel), by decide +kernel⟩

/-- The same policy with the shortest cooldown whose nanoseconds do not fit into 64 bits, about
292 years. -/
def overlongConfig : BiometricAttendanceConfig (Extended ℚ) :=
  { briefConfig with eventCooldown := 9223372036855 }

/-- The visitor stands in front of the camera in two frames. -/
def overlongCalls : List (Call (Extended ℚ)) :=
  [sampleGallery, sampleCall 1 [(7, 112)] 100, sampleCall 2 [(7, 112)] 200]

/-- A cooldown that wraps around is accepted, and does not hold back the second event. The two
events are found by evaluation, and the identity is the same. -/
theorem cooldown_overflows : validateAttendanceConfig overlongConfig = .ok () ∧
    ¬ (AllComplete (Extended ℚ) overlongConfig overlongCalls →
      CooldownRespected (Extended ℚ) overlongConfig overlongCalls) := by
  refine ⟨by decide +kernel, fun hall => ?_⟩
  have hspaced := (hall (by decide +kernel)).spaced
  have htimes : eventTimes (Extended ℚ) overlongConfig overlongCalls =
      [(milliseconds 100, "visitor"), (milliseconds 200, "visitor")] := by decide +kernel
  have hpairs : (eventTimes (Extended ℚ) overlongConfig overlongCalls).Pairwise fun x y =>
      x.2 = y.2 → milliseconds overlongConfig.eventCooldown ≤ y.1 - x.1 :=
    List.pairwise_map.mpr hspaced
  rw [htimes] at hpairs
  exact absurd hpairs (by decide)

end EdgeClient.Vision.AttendanceProcessor
