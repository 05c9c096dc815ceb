import EdgeClient.Vision.ProcessorRules

/-!
# The liveness gate

No crop reaches the recognition model, and no event is returned, before the track
has collected enough fresh live votes. The vote counters of a state count its
records, the records lie between the time of the first vote and the last accepted
call, and every phase behind the gate implies the required counts. These facts
survive each step on a track and therefore every call, also one that throws.
-/

namespace EdgeClient.Vision.AttendanceProcessor

open Basis

variable {F D : Type} [FloatOps F] [FloatOps D] [FloatPair F D]

/-- The gate of a track at a moment, given the liveness results recorded for it: enough live
results, too few results below the threshold, and all of them fresh and taken on usable
observations of the track. -/
structure GateHeld (D : Type) [FloatOps D] [FloatPair F D] (c : BiometricAttendanceConfig F)
    (now : ℤ) (id : ℕ) (records : List (PadRecord F)) : Prop where
  /-- Enough results reach the threshold. -/
  bonaFide : c.padBonaFideVotesRequired ≤
    records.countP fun r => decide (c.pad.liveThreshold ≤ r.score)
  /-- Fewer results than a rejection needs lie below it. -/
  attack : (records.countP fun r => decide (r.score < c.pad.liveThreshold)) <
    c.padAttackVotesRequired
  /-- All results belong to the last moments. -/
  fresh : ∀ r ∈ records, now - milliseconds c.evidenceTtl ≤ r.time ∧ r.time ≤ now
  /-- All results belong to the track and come from a usable observation. -/
  usable : ∀ r ∈ records, r.track.trackId = id ∧ lit 0 < quality D r.track c

/-- The gate of a track holds by the records of its state. -/
def Qualified (c : BiometricAttendanceConfig F) (now : ℤ) (id : ℕ) (s : State F D) : Prop :=
  GateHeld D c now id s.records

/-- The phases that only a track with enough live votes enters. -/
def behindGate (phase : BiometricTrackPhase) : Bool :=
  phase = .recognizing ∨ phase = .recognized ∨ phase = .unknownIdentity ∨
    phase = .recognitionDeferred ∨ phase = .duplicateIdentity

/-- The vote counts that open the gate. -/
def Passed (c : BiometricAttendanceConfig F) (s : State F D) : Prop :=
  c.padBonaFideVotesRequired ≤ s.votes.real ∧ s.votes.spoof < c.padAttackVotesRequired

/-- What the votes of a state say about its records. -/
structure Sound (c : BiometricAttendanceConfig F) (now : ℤ) (id : ℕ) (s : State F D) :
    Prop where
  real_eq : s.votes.real = s.records.countP fun r => decide (c.pad.liveThreshold ≤ r.score)
  spoof_eq : s.votes.spoof = s.records.countP fun r => !decide (c.pad.liveThreshold ≤ r.score)
  attempts_eq : s.votes.attempts = s.records.length
  recorded : ∀ r ∈ s.records, s.evidence ≤ r.time ∧ r.time ≤ now
  usable : ∀ r ∈ s.records, r.track.trackId = id ∧ lit 0 < quality D r.track c
  gated : behindGate s.phase = true → Passed c s

/-- The first vote of a state still counts. -/
def Current (c : BiometricAttendanceConfig F) (now : ℤ) (s : State F D) : Prop :=
  s.records ≠ [] → now - milliseconds c.evidenceTtl ≤ s.evidence

variable {c : BiometricAttendanceConfig F} {now : ℤ} {id : ℕ} {s : State F D}

/-- A sound and current state with the required votes satisfies the gate. The counters are those
of the records, and evidence that is current is not too old. -/
theorem Sound.qualified [LawfulFloat F] (hsound : Sound c now id s) (hcurrent : Current c now s)
    (hpassed : Passed c s) : Qualified c now id s := by
  obtain ⟨hreal, hspoof⟩ := hpassed
  refine ⟨hsound.real_eq ▸ hreal, ?_, fun r hr => ?_, hsound.usable⟩
  · refine lt_of_le_of_lt (List.countP_mono_left fun r _ hr => ?_) (hsound.spoof_eq ▸ hspoof)
    have hnot := LawfulFloat.not_le_of_lt (of_decide_eq_true hr)
    simpa only [Bool.not_eq_true', decide_eq_false_iff_not] using hnot
  · obtain ⟨hlow, hhigh⟩ := hsound.recorded r hr
    have hevidence := hcurrent (List.ne_nil_of_mem hr)
    omega

/-! ## Steps on one track -/

/-- A state without votes is sound. -/
theorem sound_of_new (tick : ℕ) : Sound c now id ({ seen := tick } : State F D) where
  real_eq := rfl
  spoof_eq := rfl
  attempts_eq := rfl
  recorded := by simp
  usable := by simp
  gated hphase := by cases hphase

/-- Time may pass. -/
theorem Sound.mono {later : ℤ} (hsound : Sound c now id s) (hle : now ≤ later) :
    Sound c later id s :=
  { hsound with
    recorded := fun r hr => ⟨(hsound.recorded r hr).1, (hsound.recorded r hr).2.trans hle⟩ }

/-- Expired evidence is dropped, and evidence that the 64-bit comparison keeps is not older
than the configuration says. -/
theorem current_expireEvidence (haccepted : validateAttendanceConfig c = .ok ())
    (hsound : Sound c now id s) : Current c now (expireEvidence c now s) := by
  have hshorter := nanoseconds_le (budgetsAccepted_of_validate haccepted).ttl_pos.le
  unfold expireEvidence Current
  split
  · simp
  · rename_i hfresh
    intro hrecords
    have hattempts := hsound.attempts_eq
    have hlength := List.length_pos_of_ne_nil hrecords
    omega

/-- A state stays sound when a conclusion expires: the votes that go with it are dropped
together. -/
theorem Sound.expireTerminal (tick : ℕ) (hsound : Sound c now id s) :
    Sound c now id (expireTerminal c tick now s) := by
  unfold AttendanceProcessor.expireTerminal
  split
  · exact sound_of_new tick
  · exact hsound

/-- A state stays sound when evidence expires: what is dropped is not needed for what stays. -/
theorem Sound.expireEvidence (hsound : Sound c now id s) :
    Sound c now id (expireEvidence c now s) := by
  unfold AttendanceProcessor.expireEvidence
  split
  · exact sound_of_new s.seen
  · exact hsound

/-- A state stays sound when a deferred conclusion is opened again. -/
theorem Sound.reopenDeferred (hsound : Sound c now id s) : Sound c now id (reopenDeferred s) := by
  unfold AttendanceProcessor.reopenDeferred
  split
  · rename_i hphase
    exact { hsound with gated := fun _ => hsound.gated (by rw [hphase]; rfl) }
  · exact hsound

omit [FloatPair F D] in
/-- Opening a deferred conclusion again keeps the votes current. -/
theorem Current.reopenDeferred (hcurrent : Current c now s) : Current c now (reopenDeferred s) := by
  unfold AttendanceProcessor.reopenDeferred
  split <;> exact hcurrent

/-- What scheduling leaves behind: a sound state that is concluded or current, and
a usable crop when one is taken. -/
theorem Sound.schedule [LawfulFloat F] (haccepted : validateAttendanceConfig c = .ok ())
    (gallerySize tick : ℕ) (t : TrackResult F) (hsound : Sound c now id s) :
    let out := schedule c gallerySize tick now t s
    Sound c now id out.1 ∧ (concluded out.1.phase = true ∨ Current c now out.1) ∧
      (out.2 = true → Current c now out.1 ∧ lit 0 < quality D t c) := by
  have hseen : Sound c now id { s with seen := tick } := { hsound with }
  have hterminal := hseen.expireTerminal tick
  unfold AttendanceProcessor.schedule
  dsimp only
  split
  · rename_i hconcluded
    exact ⟨hterminal, Or.inl hconcluded, by simp⟩
  have hevidence := hterminal.expireEvidence
  have hcurrent := current_expireEvidence haccepted hterminal
  split
  · exact ⟨hevidence, Or.inr hcurrent, by simp⟩
  rename_i hquality
  split
  · exact ⟨hevidence, Or.inr hcurrent, by simp⟩
  have hreopened := hevidence.reopenDeferred
  have hrecurrent := hcurrent.reopenDeferred
  split
  · have hpos := quality_pos (D := D) haccepted fun h => hquality (Or.inl h)
    exact ⟨{ hreopened with gated := fun h => by cases h }, Or.inr hrecurrent,
      fun _ => ⟨hrecurrent, hpos⟩⟩
  · exact ⟨hreopened, Or.inr hrecurrent, by simp⟩

/-- A vote decides for the track only with the required counts. Attack votes are tested first, so
that they cannot have been enough as well. -/
theorem gated_votedPhase {votes : VoteCounts} {phase : BiometricTrackPhase}
    (hphase : behindGate phase = true → c.padBonaFideVotesRequired ≤ votes.real)
    (hvoted : behindGate (votedPhase c votes phase) = true) :
    c.padBonaFideVotesRequired ≤ votes.real ∧ votes.spoof < c.padAttackVotesRequired := by
  unfold votedPhase at hvoted
  split at hvoted
  · cases hvoted
  rename_i hattack
  refine ⟨?_, not_le.mp hattack⟩
  split at hvoted
  · assumption
  split at hvoted
  · cases hvoted
  · exact hphase hvoted

/-- A state stays sound with one more vote, if the track is the right one, it has quality and the
decision agrees with the threshold. -/
theorem Sound.addVote {t : TrackResult F} {score : F} {decision : LivenessDecision}
    (hsound : Sound c now id s) (hid : t.trackId = id) (hquality : lit 0 < quality D t c)
    (hdecision : decision = if c.pad.liveThreshold ≤ score then .live else .spoof) :
    Sound c now id (addVote c now t score decision s) where
  real_eq := by
    have hreal := hsound.real_eq
    by_cases hlive : c.pad.liveThreshold ≤ score <;>
      simp [AttendanceProcessor.addVote, hdecision, hlive, VoteCounts.add, hreal]
  spoof_eq := by
    have hspoof := hsound.spoof_eq
    by_cases hlive : c.pad.liveThreshold ≤ score <;>
      simp [AttendanceProcessor.addVote, hdecision, hlive, VoteCounts.add, hspoof]
  attempts_eq := by
    have hattempts := hsound.attempts_eq
    by_cases hlive : c.pad.liveThreshold ≤ score <;>
      simp [AttendanceProcessor.addVote, hdecision, hlive, VoteCounts.add, hattempts]
  recorded r hr := by
    rcases List.mem_append.mp hr with hold | hnew
    · have hne : s.votes.attempts ≠ 0 := by
        have hlength := List.length_pos_of_mem hold
        rw [hsound.attempts_eq]
        omega
      simpa only [AttendanceProcessor.addVote, if_neg hne] using hsound.recorded r hold
    · obtain rfl := List.mem_singleton.mp hnew
      refine ⟨?_, le_rfl⟩
      by_cases hfirst : s.votes.attempts = 0
      · simp [AttendanceProcessor.addVote, hfirst]
      · have hne : s.records ≠ [] := by
          rintro hnil
          rw [hsound.attempts_eq, hnil] at hfirst
          exact hfirst rfl
        obtain ⟨first, hfirst'⟩ := List.exists_mem_of_ne_nil _ hne
        obtain ⟨hlow, hhigh⟩ := hsound.recorded first hfirst'
        simpa only [AttendanceProcessor.addVote, if_neg hfirst] using hlow.trans hhigh
  usable r hr := by
    rcases List.mem_append.mp hr with hold | hnew
    · exact hsound.usable r hold
    · obtain rfl := List.mem_singleton.mp hnew
      exact ⟨hid, hquality⟩
  gated hphase := by
    refine gated_votedPhase (fun h => (hsound.gated h).1.trans ?_) hphase
    cases decision <;> simp [AttendanceProcessor.addVote, VoteCounts.add]

/-- A vote that is added now is current. The first vote is the evidence, and later ones do not
move it. -/
theorem Current.addVote {t : TrackResult F} {score : F} {decision : LivenessDecision}
    (haccepted : validateAttendanceConfig c = .ok ()) (hsound : Sound c now id s)
    (hcurrent : Current c now s) : Current c now (addVote c now t score decision s) := by
  intro _
  have hpos := (budgetsAccepted_of_validate haccepted).ttl_pos
  by_cases hfirst : s.votes.attempts = 0
  · simp only [AttendanceProcessor.addVote, if_pos hfirst, milliseconds]
    omega
  · simp only [AttendanceProcessor.addVote, if_neg hfirst]
    refine hcurrent fun hnil => hfirst ?_
    rw [hsound.attempts_eq, hnil]
    rfl

/-- Recording a liveness result, also one that is refused, keeps a state sound and
current. -/
theorem Sound.recordPad (haccepted : validateAttendanceConfig c = .ok ()) {tick : ℕ}
    {t : TrackResult F} {r : LivenessResult F} (hid : t.trackId = id)
    (hquality : lit 0 < quality D t c) (hsound : Sound c now id s) (hcurrent : Current c now s) :
    wp (recordPad c tick now t r) (fun _ s => Sound c now id s ∧ Current c now s)
      (fun s => Sound c now id s ∧ Current c now s) s := by
  have hsound' : Sound c now id { s with lastPad := tick } := { hsound with }
  unfold AttendanceProcessor.recordPad
  rw [wp_bind, wp_modify, wp_ite]
  refine ⟨fun hrejected => ?_, fun _ => ?_⟩
  · rw [hrejected]
    have hadded : Sound c now id
        { s with lastPad := tick, votes := s.votes.add .inputRejected, phase := .waitingQuality } :=
      { hsound with gated := fun h => by cases h }
    rw [wp_ite, wp_throw, wp_modify]
    exact ⟨fun _ => ⟨hsound', hcurrent⟩, fun _ => ⟨hadded, hcurrent⟩⟩
  · cases r.liveScore with
    | none => exact ⟨hsound', hcurrent⟩
    | some score =>
      dsimp only
      split
      · exact ⟨hsound', hcurrent⟩
      · rename_i decision hok
        rw [wp_modify]
        exact ⟨hsound'.addVote hid hquality (classifyScore_eq hok),
          Current.addVote haccepted hsound' hcurrent⟩

/-! ## Loops over the tracks -/

/-- What holds between two steps of a call: the configuration and the clock are set,
all states are sound, and no crop went to recognition in front of the gate. -/
structure During (c : BiometricAttendanceConfig F) (now : ℤ) (p : Impl F D) : Prop where
  cfg_eq : p.cfg = c
  lastTime_eq : p.lastTime = now
  haveTime : p.haveTime = true
  sound : ∀ id s, p.states id = some s → Sound c now id s
  handed : ∀ t s, .recognize t s ∈ p.evaluations → Qualified c now t.trackId s

variable {p : Impl F D}

/-- The invariant of a frame in progress is kept when a track gets a sound state. The other tracks
keep their states. -/
theorem During.setState (hduring : During c now p) (hsound : Sound c now id s) :
    During c now (p.setState id s) :=
  { hduring with
    sound := fun other s' hs' => by
      by_cases hother : other = id
      · subst hother
        rw [Impl.setState_self] at hs'
        exact Option.some.inj hs' ▸ hsound
      · rw [Impl.setState_of_ne p s hother] at hs'
        exact hduring.sound other s' hs' }

/-- The state may be used: it is concluded or its evidence is current. -/
def Ready (c : BiometricAttendanceConfig F) (now : ℤ) (s : State F D) : Prop :=
  concluded s.phase = true ∨ Current c now s

/-- After the first loop every track is ready, and the collected crops are usable. The invariant
of the loop speaks of the tracks that were scheduled so far. -/
theorem During.scheduleTracks [LawfulFloat F] (haccepted : validateAttendanceConfig c = .ok ())
    {tracks : List (TrackResult F)} (hnodup : (tracks.map (·.trackId)).Nodup)
    (hduring : During c now p) :
    wp (tracks.foldlM (scheduleTrack now) [])
      (fun padTracks p => During c now p ∧ (∀ t ∈ tracks, HasState p t.trackId (Ready c now)) ∧
        ∀ t ∈ padTracks, HasState p t.trackId (Current c now) ∧ lit 0 < quality D t c)
      (During c now) p := by
  refine wp_mono (wp_foldlM (fun pre _ padTracks p => During c now p ∧
    (∀ t ∈ pre, HasState p t.trackId (Ready c now)) ∧ ∀ t ∈ padTracks, t ∈ pre ∧
      HasState p t.trackId (Current c now) ∧ lit 0 < quality D t c) ?_ ?_) ?_ fun _ => id
  · exact ⟨hduring, by simp, by simp⟩
  · rintro pre t post padTracks p hsplit ⟨hduring, hready, hcrops⟩
    have hne : ∀ u ∈ pre, u.trackId ≠ t.trackId := by
      intro u hu heq
      rw [hsplit, List.map_append, List.map_cons] at hnodup
      exact (List.nodup_append.mp hnodup).2.2 _ (List.mem_map_of_mem hu) _
        (List.mem_cons_self ..) heq
    have hold : Sound c now t.trackId ((p.states t.trackId).getD {}) := by
      cases hs : p.states t.trackId with
      | none => exact sound_of_new 0
      | some s => exact hduring.sound _ s hs
    obtain ⟨hsound, hdone, hselected⟩ := Sound.schedule haccepted p.gallery.size p.tick t hold
    simp only [scheduleTrack, wp_bind, wp_get, wp_set, wp_pure, hduring.cfg_eq]
    refine ⟨hduring.setState hsound, fun u hu => ?_, fun u hu => ?_⟩
    · rcases List.mem_append.mp hu with hpre | hlast
      · exact (hready u hpre).setState_of_ne (hne u hpre)
      · obtain rfl := List.mem_singleton.mp hlast
        exact ⟨_, Impl.setState_self .., hdone⟩
    · split at hu
      · rename_i hcrop
        rcases List.mem_append.mp hu with hpre | hlast
        · obtain ⟨hmem, hcurrent, hquality⟩ := hcrops u hpre
          exact ⟨List.mem_append_left _ hmem, hcurrent.setState_of_ne (hne u hmem), hquality⟩
        · obtain rfl := List.mem_singleton.mp hlast
          obtain ⟨hcurrent, hquality⟩ := hselected hcrop
          exact ⟨List.mem_append_right _ hlast, ⟨_, Impl.setState_self .., hcurrent⟩, hquality⟩
      · obtain ⟨hmem, hcurrent, hquality⟩ := hcrops u hu
        exact ⟨List.mem_append_left _ hmem, hcurrent.setState_of_ne (hne u hmem), hquality⟩
  · rintro padTracks p ⟨hduring, hready, hcrops⟩
    exact ⟨hduring, hready, fun t ht => (hcrops t ht).2⟩

/-- Handing crops to the liveness model changes no state. -/
theorem During.handPad (hduring : During c now p) (tracks : List (TrackResult F)) :
    During c now (p.hand .pad tracks) :=
  { hduring with
    handed := fun t s hmem => by
      rcases List.mem_append.mp hmem with hold | hnew
      · exact hduring.handed t s hold
      · obtain ⟨u, -, heq⟩ := List.mem_map.mp hnew
        cases heq }

/-- Recording the liveness results keeps the tracks ready. A result that is refused ends the call,
with the results in front of it recorded. -/
theorem During.checkPad (haccepted : validateAttendanceConfig c = .ok ())
    {evaluate : BiometricEvaluators F} {f : FaceTrackingFrame F} {padTracks : List (TrackResult F)}
    (hduring : During c now p) (hready : ∀ t ∈ f.tracks, HasState p t.trackId (Ready c now))
    (hcrops : ∀ t ∈ padTracks, HasState p t.trackId (Current c now) ∧ lit 0 < quality D t c) :
    wp (checkPad evaluate f now padTracks)
      (fun _ p => During c now p ∧ ∀ t ∈ f.tracks, HasState p t.trackId (Ready c now))
      (During c now) p := by
  unfold AttendanceProcessor.checkPad
  rw [wp_ite]
  refine ⟨fun _ => ⟨hduring, hready⟩, fun _ => ?_⟩
  rw [wp_bind, wp_modify]
  have hhanded := hduring.handPad padTracks
  cases evaluate.pad f.gpuFrame (padTracks.map (·.observation)) with
  | error e => exact hhanded
  | ok results =>
    rw [wp_ite]
    refine ⟨fun _ => hhanded, fun _ => ?_⟩
    refine wp_mono (wp_foldlM (fun _ _ _ p => During c now p ∧
      (∀ t ∈ f.tracks, HasState p t.trackId (Ready c now)) ∧
      ∀ t ∈ padTracks, HasState p t.trackId (Current c now)) ?_ ?_) ?_ fun _ => id
    · exact ⟨hhanded, hready, fun t ht => (hcrops t ht).1⟩
    · rintro pre ⟨t, r⟩ post _ p hsplit ⟨hduring, hready, hcurrent⟩
      have hmem : t ∈ padTracks :=
        (List.of_mem_zip (hsplit ▸ List.mem_append_right pre (List.mem_cons_self ..))).1
      simp only [wp_bind, wp_get, wp_atTrack, hduring.cfg_eq]
      refine ⟨fun _ => hduring, fun s hs => ?_⟩
      obtain ⟨s', hs', hscurrent⟩ := hcurrent t hmem
      obtain rfl : s = s' := Option.some.inj (hs.symm.trans hs')
      refine wp_mono ((hduring.sound _ s hs).recordPad haccepted rfl (hcrops t hmem).2 hscurrent)
        (fun _ s' hs' => ?_) fun s' hs' => hduring.setState hs'.1
      exact ⟨hduring.setState hs'.1,
        fun u hu => (hready u hu).setState hs fun _ => Or.inr hs'.2,
        fun u hu => (hcurrent u hu).setState hs fun _ => hs'.2⟩
    · rintro _ p ⟨hduring, hready, -⟩
      exact ⟨hduring, hready⟩

/-- Only tracks whose gate holds are selected for recognition. The phase of a selected track says
that the votes were enough. -/
theorem During.selectTracks [LawfulFloat F] {tracks : List (TrackResult F)}
    (hduring : During c now p) (hready : ∀ t ∈ tracks, HasState p t.trackId (Ready c now)) :
    wp (tracks.foldlM selectTrack [])
      (fun arcTracks p => During c now p ∧
        ∀ t ∈ arcTracks, HasState p t.trackId fun s => Qualified c now t.trackId s ∧ Passed c s)
      (During c now) p := by
  refine wp_mono (wp_foldlM (fun _ _ arcTracks p => During c now p ∧
    (∀ t ∈ tracks, HasState p t.trackId (Ready c now)) ∧
    ∀ t ∈ arcTracks, HasState p t.trackId fun s => Qualified c now t.trackId s ∧ Passed c s)
    ?_ ?_) ?_ fun _ => id
  · exact ⟨hduring, hready, by simp⟩
  · rintro pre t post arcTracks p hsplit ⟨hduring, hready, hgates⟩
    have hmem : t ∈ tracks := hsplit ▸ List.mem_append_right pre (List.mem_cons_self ..)
    simp only [selectTrack, wp_bind, wp_get, wp_atTrack, wp_ite, wp_set, wp_pure, hduring.cfg_eq]
    refine ⟨fun _ => hduring, fun s hs => ⟨fun hwants => ?_, fun _ => ?_⟩⟩
    · obtain ⟨s', hs', hsready⟩ := hready t hmem
      obtain rfl : s = s' := Option.some.inj (hs.symm.trans hs')
      have hphase : s.phase = .recognizing := by
        simp only [wantsRecognition, Bool.not_eq_true', decide_eq_false_iff_not, not_or,
          not_not] at hwants
        exact hwants.1
      have hsound := hduring.sound _ s hs
      have hpassed : Passed c s := hsound.gated (by rw [hphase]; rfl)
      have hcurrent : Current c now s :=
        hsready.resolve_left (by rw [hphase]; exact Bool.false_ne_true)
      have hgate := hsound.qualified hcurrent hpassed
      have hraised : Sound c now t.trackId (raiseQuality c t s) := { hsound with }
      refine ⟨hduring.setState hraised, fun u hu => (hready u hu).setState hs id, fun u hu => ?_⟩
      rcases List.mem_append.mp hu with hold | hnew
      · exact (hgates u hold).setState hs fun h => ⟨h.1, h.2⟩
      · obtain rfl := List.mem_singleton.mp hnew
        exact ⟨_, Impl.setState_self .., hgate, hpassed⟩
    · exact ⟨hduring.setState (hduring.sound _ s hs), fun u hu => (hready u hu).setState hs id,
        fun u hu => (hgates u hu).setState hs id⟩
  · rintro arcTracks p ⟨hduring, -, hgates⟩
    exact ⟨hduring, hgates⟩

/-- Handing crops to the recognition model is allowed behind the gate. The gate is looked at in
the state of the moment at which the crop is handed over. -/
theorem During.handRecognize (hduring : During c now p) {tracks : List (TrackResult F)}
    (hgates : ∀ t ∈ tracks, HasState p t.trackId fun s =>
      Qualified c now t.trackId s ∧ Passed c s) :
    During c now (p.hand .recognize tracks) :=
  { hduring with
    handed := fun t s hmem => by
      rcases List.mem_append.mp hmem with hold | hnew
      · exact hduring.handed t s hold
      · obtain ⟨u, hu, heq⟩ := List.mem_map.mp hnew
        obtain ⟨s', hs', hgate⟩ := hgates u hu
        rw [hs'] at heq
        cases heq
        exact hgate.1 }

/-- Recording the recognition results keeps the gates, and every event belongs to a
track whose gate holds. -/
theorem During.recognizeTracks {evaluate : BiometricEvaluators F} {utcMs : ℕ → ℤ}
    {f : FaceTrackingFrame F} {arcTracks : List (TrackResult F)} (hduring : During c now p)
    (hgates : ∀ t ∈ arcTracks, HasState p t.trackId fun s =>
      Qualified c now t.trackId s ∧ Passed c s) :
    wp (recognizeTracks evaluate utcMs f now arcTracks)
      (fun events p => During c now p ∧
        ∀ e ∈ events, HasState p e.trackId (Qualified c now e.trackId))
      (During c now) p := by
  unfold AttendanceProcessor.recognizeTracks
  rw [wp_ite]
  refine ⟨fun _ => ⟨hduring, by simp⟩, fun _ => ?_⟩
  rw [wp_bind, wp_modify]
  have hhanded := hduring.handRecognize hgates
  cases evaluate.recognize f.gpuFrame (arcTracks.map (·.observation)) with
  | error e => exact hhanded
  | ok results =>
    rw [wp_ite]
    refine ⟨fun _ => hhanded, fun _ => ?_⟩
    refine wp_mono (wp_foldlM (fun _ _ events p => During c now p ∧
      (∀ t ∈ arcTracks, HasState p t.trackId fun s => Qualified c now t.trackId s ∧ Passed c s) ∧
      ∀ e ∈ events, HasState p e.trackId (Qualified c now e.trackId)) ?_ ?_) ?_ fun _ => id
    · exact ⟨hhanded, hgates, by simp⟩
    · rintro pre ⟨t, r⟩ post events p hsplit ⟨hduring, hgates, hevents⟩
      have hmem : t ∈ arcTracks :=
        (List.of_mem_zip (hsplit ▸ List.mem_append_right pre (List.mem_cons_self ..))).1
      obtain ⟨s, hs, hgate, hpassed⟩ := hgates t hmem
      have hsound := hduring.sound _ s hs
      rw [wp_recordRecognition hs]
      dsimp only
      split
      · exact hduring.setState { hsound with }
      · rename_i m gallery hmatch
        obtain ⟨phase, terminal, hconclude⟩ := conclude_eq p.cfg now (p.emitted m.identityId).isSome
          { accumulate p.tick r s with «match» := m }
        have hconcluded : Sound c now t.trackId (conclude p.cfg now (p.emitted m.identityId).isSome
            { accumulate p.tick r s with «match» := m }) := by
          rw [hconclude]
          exact { hsound with gated := fun _ => hpassed }
        have hkeep : ∀ id, Qualified c now id s →
            Qualified c now id (conclude p.cfg now (p.emitted m.identityId).isSome
              { accumulate p.tick r s with «match» := m }) := by
          intro id hgate
          rw [hconclude]
          exact hgate
        have hduring' : During c now (afterRecognition now t.trackId m gallery
            (accumulate p.tick r s) p) := { hduring.setState hconcluded with }
        refine ⟨hduring', fun u hu => (hgates u hu).setState hs fun h => ⟨hkeep _ h.1, ?_⟩,
          fun e he => ?_⟩
        · rw [hconclude]
          exact h.2
        · have hold : ∀ e ∈ events, HasState (afterRecognition now t.trackId m gallery
              (accumulate p.tick r s) p) e.trackId (Qualified c now e.trackId) :=
            fun e he => (hevents e he).setState hs (hkeep _)
          split at he
          · rcases List.mem_append.mp he with hmem | hnew
            · exact hold e hmem
            · obtain rfl := List.mem_singleton.mp hnew
              exact ⟨_, Impl.setState_self .., hkeep _ hgate⟩
          · exact hold e he
    · rintro events p ⟨hduring, -, hevents⟩
      exact ⟨hduring, hevents⟩

/-! ## Calls and runs -/

/-- What holds between two calls: the states are sound at the time of the last
accepted call, and there are none before the first. -/
structure Settled (c : BiometricAttendanceConfig F) (p : Impl F D) : Prop where
  cfg_eq : p.cfg = c
  sound : ∀ id s, p.states id = some s → Sound c p.lastTime id s
  fresh : p.haveTime = false → ∀ id, p.states id = none

/-- Between two steps of a call the processor is settled. -/
theorem During.settled (hduring : During c now p) : Settled c p where
  cfg_eq := hduring.cfg_eq
  sound id s hs := hduring.lastTime_eq.symm ▸ hduring.sound id s hs
  fresh hnone := by
    rw [hduring.haveTime] at hnone
    cases hnone

/-- Crops handed to recognition by the last call were behind the gate. -/
def HandedBehindGate (c : BiometricAttendanceConfig F) (now : ℤ) (p : Impl F D) : Prop :=
  ∀ t s, .recognize t s ∈ p.evaluations → Qualified c now t.trackId s

/-- An accepted frame starts from sound states. A frame that is not accepted leaves everything as
it was. -/
theorem Settled.beginFrame {f : FaceTrackingFrame F} (hsettled : Settled c p)
    (hnone : p.evaluations = []) :
    wp (beginFrame f now)
      (fun _ p => During c now p ∧ (f.tracks.map (·.trackId)).Nodup)
      (fun p => Settled c p ∧ p.evaluations = []) p := by
  unfold AttendanceProcessor.beginFrame
  rw [wp_bind, wp_get, wp_ite]
  refine ⟨fun _ => ⟨hsettled, hnone⟩, fun hadvance => ?_⟩
  rw [wp_ite]
  refine ⟨fun _ => ⟨hsettled, hnone⟩, fun hnodup => ?_⟩
  rw [wp_bind, wp_modify, wp_modify]
  refine ⟨⟨hsettled.cfg_eq, rfl, rfl, fun id s hs => ?_, ?_⟩, not_not.mp hnodup⟩
  · have hold : p.states id = some s := (Option.filter_eq_some_iff.mp hs).1
    refine (hsettled.sound id s hold).mono ?_
    by_contra hback
    refine hadvance (Or.inl ⟨?_, not_le.mp hback⟩)
    by_contra htime
    rw [hsettled.fresh (Bool.eq_false_iff.mpr htime) id] at hold
    cases hold
  · intro t s hmem
    change _ ∈ p.evaluations at hmem
    rw [hnone] at hmem
    cases hmem

/-- A call of `process` keeps the processor settled, hands only crops behind the gate
to recognition, and returns only events of tracks behind the gate. -/
theorem Settled.process [LawfulFloat F] (haccepted : validateAttendanceConfig c = .ok ())
    (evaluate : BiometricEvaluators F) (utcMs : ℕ → ℤ) (f : FaceTrackingFrame F) (now : ℤ)
    (hsettled : Settled c p) :
    wp (process evaluate utcMs f now)
      (fun frame p => (Settled c p ∧ HandedBehindGate c now p) ∧
        ∀ e ∈ frame.attendanceEvents, HasState p e.trackId (Qualified c now e.trackId))
      (fun p => Settled c p ∧ HandedBehindGate c now p) p := by
  have hend : ∀ p : Impl F D, During c now p → Settled c p ∧ HandedBehindGate c now p :=
    fun p hduring => ⟨hduring.settled, hduring.handed⟩
  unfold AttendanceProcessor.process
  rw [wp_bind, wp_modify, wp_bind]
  have hcleared : Settled c { p with evaluations := [] } := { hsettled with }
  refine wp_mono (hcleared.beginFrame (f := f) rfl) ?_ fun p ⟨hsettled, hnone⟩ =>
    ⟨hsettled, fun t s hmem => by rw [hnone] at hmem; cases hmem⟩
  rintro - p ⟨hduring, hnodup⟩
  rw [wp_bind]
  refine wp_mono (hduring.scheduleTracks haccepted hnodup) ?_ hend
  rintro padTracks p ⟨hduring, hready, hcrops⟩
  rw [wp_bind]
  refine wp_mono (hduring.checkPad haccepted hready hcrops) ?_ hend
  rintro - p ⟨hduring, hready⟩
  rw [wp_bind]
  refine wp_mono (hduring.selectTracks hready) ?_ hend
  rintro arcTracks p ⟨hduring, hgates⟩
  rw [wp_bind]
  refine wp_mono (hduring.recognizeTracks hgates) ?_ hend
  rintro events p ⟨hduring, hevents⟩
  rw [wp_bind]
  refine wp_mono (wp_foldlM (fun _ _ _ p => During c now p ∧
    ∀ e ∈ events, HasState p e.trackId (Qualified c now e.trackId)) ⟨hduring, hevents⟩ ?_) ?_ hend
  · rintro pre t post snapshots p - ⟨hduring, hevents⟩
    simp only [takeSnapshot, wp_atTrack, wp_bind, wp_get, wp_pure]
    exact ⟨fun _ => hduring, fun s hs => ⟨hduring.setState (hduring.sound _ s hs),
      fun e he => (hevents e he).setState hs id⟩⟩
  · rintro snapshots p ⟨hduring, hevents⟩
    exact ⟨hend p hduring, hevents⟩

/-- A reset keeps the processor settled. -/
theorem Settled.reset (hsettled : Settled c p) :
    wp (reset (F := F) (D := D)) (fun _ p => Settled c p) (Settled c) p :=
  ⟨hsettled.cfg_eq, fun _ _ hs => (by cases hs), fun _ _ => rfl⟩

/-- Every call keeps the processor settled. Also a call that throws leaves sound states behind. -/
theorem Settled.perform [LawfulFloat F] (haccepted : validateAttendanceConfig c = .ok ())
    (hsettled : Settled c p) (call : Call F) : Settled c (call.perform p) := by
  cases call with
  | process evaluate utcMs f now =>
    exact wp_finalState (wp_mono (hsettled.process haccepted evaluate utcMs f now)
      (fun _ _ h => h.1.1) fun _ h => h.1)
  | setGallery templates =>
    refine wp_finalState ?_
    unfold AttendanceProcessor.setGallery
    split
    · exact hsettled
    · rw [wp_bind, wp_modify]
      exact Settled.reset { hsettled with }
  | reset => exact wp_finalState hsettled.reset

/-- The processor is settled after every sequence of calls. -/
theorem settled_afterCalls [LawfulFloat F] (haccepted : validateAttendanceConfig c = .ok ())
    (calls : List (Call F)) : Settled c (afterCalls D c calls) :=
  run_preserves (fun call _ hsettled => hsettled.perform haccepted call) calls
    ⟨rfl, fun _ _ hs => (by cases hs), fun _ _ => rfl⟩

/-! ## A sample in exact arithmetic -/

/-- A calibrated configuration that takes a liveness vote in every frame. -/
def sampleConfig : BiometricAttendanceConfig (Extended ℚ) where
  padEveryFrames := 1
  recognitionSimilarityThreshold := lit 0.5
  calibrationId := "walk-through"

/-- The sample configuration is accepted. -/
theorem sampleConfig_accepted : validateAttendanceConfig sampleConfig = .ok () := by
  decide +kernel

/-- A frame with faces on the alignment template, one for each pair of a track and the side of
its box in pixels. -/
def sampleFrame (frameId : ℕ) (faces : List (ℕ × ℚ)) : FaceTrackingFrame (Extended ℚ) where
  gpuFrame := ⟨frameId⟩
  tracks := faces.map fun (trackId, side) => {
    trackId, x1 := lit 0, y1 := lit 0, x2 := lit side, y2 := lit side, score := lit 0.9
    state := .tracked, startFrame := 1, frameId := frameId, trackletLen := 1
    hasObservation := true
    observation := ⟨lit 0, lit 0, lit side, lit side, lit 0.9, arcFaceTarget.points⟩ }

/-- The first unit vector. -/
def firstAxis : Embedding (Extended ℚ) := fun j => if j.val = 0 then lit 1 else lit 0

/-- Models that find faces of up to 112 pixels live and all faces equal. -/
def sampleEvaluators : BiometricEvaluators (Extended ℚ) where
  pad _ faces := .ok (faces.map fun face =>
    ⟨some (if face.x2 ≤ lit 112 then lit 0.99 else lit 0.1), .live⟩)
  recognize _ faces := .ok (faces.map fun _ => ⟨firstAxis⟩)

/-- A frame of the sample at a time in milliseconds. -/
def sampleCall (frameId : ℕ) (faces : List (ℕ × ℚ)) (ms : ℤ) : Call (Extended ℚ) :=
  .process sampleEvaluators (fun _ => 0) (sampleFrame frameId faces) (milliseconds ms)

/-- A gallery with one template, which all faces of the sample match. -/
def sampleGallery : Call (Extended ℚ) := .setGallery [⟨"visitor", firstAxis⟩]

end EdgeClient.Vision.AttendanceProcessor
