import EdgeClient.Vision.PadGate
import EdgeClient.Vision.FrameSemantics

/-!
# Extra recognition attempts

A deferred track gets another attempt when its face is clearly better than every face
that recognition has seen of it. The gain is tested when the attempt is granted, but the
cadence of recognition may hold the attempt back until a later frame, where the face is
taken as it is. A journal of the qualities handed to recognition for the current state of
each track says what the attempt is measured against.
-/

namespace EdgeClient.Vision.AttendanceProcessor

open Basis

variable {F D : Type} [FloatOps F] [FloatOps D]

/-- Whether the state of a track starts over when the track is scheduled. -/
def startsOver (c : BiometricAttendanceConfig F) (now : ℤ) (s : State F D) : Bool :=
  (matched s.phase ∧ nanoseconds c.eventCooldown ≤ now - s.terminal) ∨
    (¬ concluded s.phase ∧ s.votes.attempts ≠ 0 ∧
      nanoseconds c.evidenceTtl < now - s.evidence)

/-- The state of a scheduled track before anything else is decided. -/
def refreshed (c : BiometricAttendanceConfig F) (tick : ℕ) (now : ℤ) (s : State F D) : State F D :=
  if startsOver c now s then { seen := tick } else { s with seen := tick }

/-- The largest of the qualities, zero when there are none. -/
def largest (qualities : List F) : F := qualities.foldl stdMax (lit 0)

omit [FloatOps D] in
/-- The largest quality is kept up to date from face to face. -/
theorem largest_append (qualities : List F) (q : F) :
    largest (qualities ++ [q]) = stdMax (largest qualities) q := List.foldl_append

section Scheduling

variable [FloatPair F D] {c : BiometricAttendanceConfig F} {n tick : ℕ} {now : ℤ}
  {t : TrackResult F} {s : State F D}

/-- Scheduling first decides whether the state starts over. So the decisions of the scheduling can
be read one behind the other. -/
theorem schedule_eq :
    schedule c n tick now t s =
      if concluded (refreshed c tick now s).phase ∨ quality D t c ≤ lit 0 ∨ n = 0 ∨
          staysDeferred c (quality D t c) (refreshed c tick now s) then
        (refreshed c tick now s, false)
      else
        let s := reopenDeferred (refreshed c tick now s)
        if s.phase ≠ .recognizing ∧ (s.lastPad = 0 ∨ c.padEveryFrames ≤ tick - s.lastPad) then
          ({ s with phase := .checkingPad }, true)
        else (s, false) := by
  have hrefreshed : refreshed c tick now s =
      if concluded (expireTerminal c tick now { s with seen := tick }).phase then
        expireTerminal c tick now { s with seen := tick }
      else expireEvidence c now (expireTerminal c tick now { s with seen := tick }) := by
    have hwaiting : concluded BiometricTrackPhase.waitingQuality = false := by decide
    unfold refreshed startsOver expireTerminal expireEvidence
    dsimp only
    by_cases hmatched : matched s.phase = true
    · have hconcluded : concluded s.phase = true := by simp [concluded, hmatched]
      by_cases hover : nanoseconds c.eventCooldown ≤ now - s.terminal
      · simp [hmatched, hover, hwaiting]
      · simp [hmatched, hover, hconcluded]
    · by_cases hconcluded : concluded s.phase = true
      · simp [hmatched, hconcluded]
      · simp [hmatched, hconcluded]
  unfold schedule
  dsimp only
  by_cases hconcluded : concluded
      (expireTerminal c tick now { s with seen := tick }).phase = true
  · rw [if_pos hconcluded] at hrefreshed
    rw [if_pos hconcluded, hrefreshed, if_pos (Or.inl hconcluded)]
  · rw [if_neg hconcluded] at hrefreshed
    have hafter : ¬ concluded (refreshed c tick now s).phase = true := by
      rw [hrefreshed]
      unfold expireEvidence
      split
      · change ¬ concluded BiometricTrackPhase.waitingQuality = true
        decide
      · exact hconcluded
    rw [if_neg hconcluded, ← hrefreshed]
    by_cases husable : quality D t c ≤ lit 0 ∨ n = 0
    · rw [if_pos husable, if_pos (by tauto)]
    · rw [if_neg husable]
      by_cases hstays : staysDeferred c (quality D t c) (refreshed c tick now s) = true
      · rw [if_pos hstays, if_pos (by tauto)]
      · have hgoes : ¬ (concluded (refreshed c tick now s).phase = true ∨ quality D t c ≤ lit 0 ∨
            n = 0 ∨ staysDeferred c (quality D t c) (refreshed c tick now s) = true) := by tauto
        rw [if_neg hstays, if_neg hgoes]

/-- What a state remembers of the faces that recognition has seen of it, and that only
tracks behind the gate are granted attempts. -/
structure Measured (faces : List F) (s : State F D) : Prop where
  best_eq : s.bestQuality = largest faces
  gated : 0 < s.extra → behindGate s.phase = true

variable {faces : List F}

omit [FloatPair F D] in
/-- The best quality stays that of the faces seen since the evidence began, also where it begins
again at the start of a frame. -/
theorem Measured.refreshed (hmeasured : Measured faces s) :
    Measured (if startsOver c now s then [] else faces) (refreshed c tick now s) := by
  unfold AttendanceProcessor.refreshed
  split
  · exact ⟨rfl, fun h => absurd h (lt_irrefl 0)⟩
  · exact ⟨hmeasured.best_eq, hmeasured.gated⟩

omit [FloatPair F D] in
/-- Opening a deferred conclusion again does not touch the best quality. -/
theorem Measured.reopenDeferred (hmeasured : Measured faces s) :
    Measured faces (reopenDeferred s) := by
  unfold AttendanceProcessor.reopenDeferred
  split
  · exact ⟨hmeasured.best_eq, fun _ => rfl⟩
  · exact hmeasured

omit [FloatPair F D] in
/-- A reopened track that is not in recognition is not behind the gate. -/
theorem behindGate_reopenDeferred (hconcluded : ¬ concluded s.phase = true)
    (hphase : (AttendanceProcessor.reopenDeferred s).phase ≠ .recognizing) :
    behindGate (AttendanceProcessor.reopenDeferred s).phase = false := by
  revert hphase
  unfold AttendanceProcessor.reopenDeferred
  split
  · exact fun h => absurd rfl h
  · intro hphase
    cases heq : s.phase <;> simp_all [behindGate, concluded, matched]

/-- Only tracks without extra attempts are sent to the liveness model. A track with an extra
attempt has passed the gate already. -/
theorem Measured.schedule (hmeasured : Measured faces s) :
    Measured (if startsOver c now s then [] else faces) (schedule c n tick now t s).1 ∧
      ((schedule c n tick now t s).2 = true → (schedule c n tick now t s).1.extra = 0) := by
  have hrefreshed : Measured (if startsOver c now s then [] else faces)
      (AttendanceProcessor.refreshed c tick now s) := hmeasured.refreshed
  obtain ⟨faces', hfaces'⟩ : ∃ l, l = if startsOver c now s then [] else faces := ⟨_, rfl⟩
  rw [← hfaces'] at hrefreshed ⊢
  rw [schedule_eq]
  split
  · exact ⟨hrefreshed, nofun⟩
  · rename_i hgoes
    have hreopened := hrefreshed.reopenDeferred
    dsimp only
    split
    · rename_i hcrop
      have hgate := behindGate_reopenDeferred (not_or.mp hgoes).1 hcrop.1
      have hextra : (AttendanceProcessor.reopenDeferred
          (AttendanceProcessor.refreshed c tick now s)).extra = 0 := by
        by_contra hpos
        rw [hreopened.gated (Nat.pos_of_ne_zero hpos)] at hgate
        cases hgate
      refine ⟨⟨hreopened.best_eq, fun hpos => ?_⟩, fun _ => hextra⟩
      exact absurd hextra (Nat.pos_iff_ne_zero.mp hpos)
    · exact ⟨hreopened, nofun⟩

omit [FloatPair F D] in
/-- A liveness result leaves the attempts and the best quality alone. They are written by
recognition only. -/
theorem attempts_recordPad {r : LivenessResult F} {s' : State F D}
    (hrun : recordPad c tick now t r s = .ok () s') :
    s'.extra = s.extra ∧ s'.bestQuality = s.bestQuality := by
  have hwp : wp (recordPad c tick now t r)
      (fun _ s' => s'.extra = s.extra ∧ s'.bestQuality = s.bestQuality) (fun _ => True) s := by
    unfold recordPad
    rw [wp_bind, wp_modify, wp_ite]
    refine ⟨fun _ => ?_, fun _ => ?_⟩
    · rw [wp_ite]
      exact ⟨fun _ => trivial, fun _ => ⟨rfl, rfl⟩⟩
    · cases r.liveScore with
      | none => trivial
      | some score =>
        dsimp only
        cases classifyScore score c.pad.liveThreshold with
        | error e => trivial
        | ok decision => exact ⟨rfl, rfl⟩
  have hsame := wp_ok hwp hrun
  exact hsame

/-- A recognition result keeps the attempts and the best quality, and its track behind the
gate. -/
theorem RecognizedAs.measured {gallery : GalleryMatcher F} {r : ArcFaceResult F} {known : Bool}
    {s' : State F D} (hrecognized : RecognizedAs c gallery tick now r known s s')
    (hmeasured : Measured faces s) (hphase : s.phase = .recognizing) : Measured faces s' := by
  obtain ⟨m, gallery', -, rfl⟩ := hrecognized
  have hsame : ∀ s₁ : State F D, s₁.bestQuality = s.bestQuality → s₁.phase = .recognizing →
      (conclude c now known s₁).bestQuality = s.bestQuality ∧
        behindGate (conclude c now known s₁).phase = true := by
    intro s₁ hbest hrecognizing
    unfold conclude
    split
    · exact ⟨hbest, by cases known <;> rfl⟩
    · split
      · refine ⟨hbest, ?_⟩
        dsimp only
        split <;> rfl
      · exact ⟨hbest, by rw [hrecognizing]; rfl⟩
  obtain ⟨hbest, hgated⟩ := hsame { accumulate tick r s with «match» := m } rfl hphase
  exact ⟨hbest.trans hmeasured.best_eq, fun _ => hgated⟩

end Scheduling

/-! ## Attempts in one frame -/

section Frame

variable [FloatPair F D] {evaluate : BiometricEvaluators F} {utcMs : ℕ → ℤ}
  {f : FaceTrackingFrame F} {now : ℤ} {p₁ q : Impl F D}
  {padEntries : List (TrackResult F × LivenessResult F)} {checked : ℕ → State F D}
  {arcEntries : List (TrackResult F × ArcFaceResult F)} {frame : BiometricAttendanceFrame F}
  {t : TrackResult F} {faces : List F}

/-- An attempt that was granted in an earlier frame meets the cadence with a usable face
that is not better enough. -/
def LateAttempt (c : BiometricAttendanceConfig F) (tick : ℕ) (now : ℤ) (t : TrackResult F)
    (s : State F D) : Prop :=
  0 < s.extra ∧ startsOver c now s = false ∧ wantsRecognition c tick t s = true ∧
    quality D t c < s.bestQuality * c.retryQualityGain

/-- A scheduled track with an extra attempt has a state that does not start over. A state that
starts over loses its extra attempts. -/
theorem kept_of_extra {c : BiometricAttendanceConfig F} {n tick : ℕ} {s : State F D}
    (hextra : 0 < (schedule c n tick now t s).1.extra) :
    startsOver c now s = false ∧ (0 < s.extra ∨ s.phase = .recognitionDeferred) := by
  have hrefreshed : 0 < (refreshed c tick now s).extra ∨
      (refreshed c tick now s).phase = .recognitionDeferred := by
    rw [schedule_eq] at hextra
    split at hextra
    · exact Or.inl hextra
    · by_cases hdeferred : (refreshed c tick now s).phase = .recognitionDeferred
      · exact Or.inr hdeferred
      · have hreopen : reopenDeferred (refreshed c tick now s) = refreshed c tick now s :=
          if_neg hdeferred
        rw [hreopen] at hextra
        dsimp only at hextra
        split at hextra
        · exact Or.inl hextra
        · exact Or.inl hextra
  unfold refreshed at hrefreshed
  split at hrefreshed
  · rcases hrefreshed with hpos | hphase
    · exact absurd hpos (lt_irrefl 0)
    · cases hphase
  · rename_i hkept
    exact ⟨Bool.eq_false_iff.mpr hkept, hrefreshed⟩

namespace FrameRun

variable (hrun : FrameRun evaluate utcMs f now p₁ padEntries checked arcEntries frame q)
include hrun

/-- The state between the two stages of a call. Between the stages only votes are added. -/
theorem measured_checked (ht : t ∈ f.tracks) (hmeasured : Measured faces (p₁.stateOf t.trackId)) :
    Measured (if startsOver p₁.cfg now (p₁.stateOf t.trackId) then [] else faces)
      (checked t.trackId) ∧
    (checked t.trackId).extra = (scheduled p₁ now t).1.extra ∧
    ((scheduled p₁ now t).2 = true → (checked t.trackId).extra = 0) := by
  have hboth : Measured (if startsOver p₁.cfg now (p₁.stateOf t.trackId) then [] else faces)
      (scheduled p₁ now t).1 ∧
      ((scheduled p₁ now t).2 = true → (scheduled p₁ now t).1.extra = 0) := hmeasured.schedule
  obtain ⟨hscheduled, hcrop⟩ := hboth
  have hchecked := hrun.checked_eq t ht
  split at hchecked
  · rename_i hcropped
    obtain ⟨r, -, hrecord⟩ := hchecked
    obtain ⟨hextra, hbest⟩ := attempts_recordPad hrecord
    have hzero : (checked t.trackId).extra = 0 := hextra.trans (hcrop hcropped)
    exact ⟨⟨hbest.trans hscheduled.best_eq, fun hpos => absurd hzero hpos.ne'⟩, hextra,
      fun _ => hzero⟩
  · rename_i hcropped
    rw [hchecked]
    exact ⟨hscheduled, rfl, fun h => absurd h hcropped⟩

/-- The state after a call knows the face that the call handed to recognition. The best quality is
raised before the crop is handed over. -/
theorem measured_after (ht : t ∈ f.tracks)
    (hmeasured : Measured faces (checked t.trackId)) :
    HasState q t.trackId (Measured (faces ++
      if wantsRecognition p₁.cfg p₁.tick t (checked t.trackId) then [quality D t p₁.cfg]
        else [])) := by
  obtain ⟨s, hs, hstate⟩ := hrun.states t ht
  refine ⟨s, hs, ?_⟩
  split at hstate
  · rename_i hwants
    obtain ⟨r, known, -, hrecognized⟩ := hstate
    have hphase : (raiseQuality p₁.cfg t (checked t.trackId)).phase = .recognizing := by
      by_contra hphase
      have hother : (checked t.trackId).phase ≠ .recognizing := hphase
      simp [wantsRecognition, hother] at hwants
    rw [if_pos hwants]
    refine hrecognized.measured ⟨?_, hmeasured.gated⟩ hphase
    rw [largest_append, ← hmeasured.best_eq]
    rfl
  · rename_i hwants
    rw [if_neg hwants, List.append_nil, hstate]
    exact hmeasured

/-- An attempt is spent on a face that is not better enough exactly when it is late. The condition
looks at the state in front of the frame, and the decision is made on the state in its middle. -/
theorem lateAttempt_iff (ht : t ∈ f.tracks) (hmeasured : Measured faces (p₁.stateOf t.trackId)) :
    LateAttempt p₁.cfg p₁.tick now t (p₁.stateOf t.trackId) ↔
      wantsRecognition p₁.cfg p₁.tick t (checked t.trackId) = true ∧
        0 < (checked t.trackId).extra ∧
        quality D t p₁.cfg < (checked t.trackId).bestQuality * p₁.cfg.retryQualityGain := by
  obtain ⟨s, hs⟩ : ∃ s, s = p₁.stateOf t.trackId := ⟨_, rfl⟩
  obtain ⟨-, hextra, hcrop⟩ := hrun.measured_checked ht hmeasured
  have hscheduled : scheduled p₁ now t = schedule p₁.cfg p₁.gallery.size p₁.tick now t s := by
    rw [hs]
    rfl
  have hchecked := hrun.checked_eq t ht
  rw [← hs]
  constructor
  · rintro ⟨hpos, hkept, hwants, hworse⟩
    have hrefreshed : refreshed p₁.cfg p₁.tick now s = { s with seen := p₁.tick } := by
      simp [refreshed, hkept]
    have hphase : s.phase = .recognizing := by
      by_contra hphase
      simp [wantsRecognition, hphase] at hwants
    have hreopen : reopenDeferred ({ s with seen := p₁.tick } : State F D) =
        { s with seen := p₁.tick } := by
      simp [reopenDeferred, hphase]
    have hsame : scheduled p₁ now t = ({ s with seen := p₁.tick }, false) := by
      rw [hscheduled, schedule_eq, hrefreshed, hreopen]
      simp [hphase]
    rw [hsame] at hchecked
    simp only [Bool.false_eq_true, if_false] at hchecked
    rw [hchecked]
    exact ⟨hwants, hpos, hworse⟩
  · rintro ⟨hwants, hpos, hworse⟩
    have hnocrop : ¬ (scheduled p₁ now t).2 = true := fun h => absurd (hcrop h) hpos.ne'
    rw [if_neg hnocrop] at hchecked
    obtain ⟨hkept, -⟩ := kept_of_extra (by rw [← hscheduled, ← hextra]; exact hpos)
    have hrefreshed : refreshed p₁.cfg p₁.tick now s = { s with seen := p₁.tick } := by
      simp [refreshed, hkept]
    have hsame : checked t.trackId = { s with seen := p₁.tick } := by
      rw [hchecked, hscheduled, schedule_eq, hrefreshed]
      rw [hchecked, hscheduled, schedule_eq, hrefreshed] at hworse
      split
      · rfl
      · rename_i hgoes
        rw [if_neg hgoes] at hworse
        have hdeferred : s.phase ≠ .recognitionDeferred := by
          intro hdeferred
          -- The gain was tested for an attempt that was granted in this frame.
          refine hgoes (Or.inr (Or.inr (Or.inr ?_)))
          have hbest : quality D t p₁.cfg < s.bestQuality * p₁.cfg.retryQualityGain := by
            dsimp only at hworse
            split at hworse <;> simpa [reopenDeferred, hdeferred] using hworse
          simp [staysDeferred, hdeferred, hbest]
        have hreopen : reopenDeferred ({ s with seen := p₁.tick } : State F D) =
            { s with seen := p₁.tick } := by
          simp [reopenDeferred, hdeferred]
        rw [hreopen]
        dsimp only
        split
        · rename_i hcropped
          refine absurd ?_ hnocrop
          rw [hscheduled, schedule_eq, hrefreshed, if_neg hgoes, hreopen]
          exact congrArg Prod.snd (if_pos hcropped)
        · rfl
    rw [hsame] at hwants hpos hworse
    exact ⟨hpos, hkept, hwants, hworse⟩

end FrameRun

end Frame

/-! ## The journal of a run -/

section Journal

variable [FloatPair F D]

/-- A crop of the track went to recognition. -/
def Impl.recognized (q : Impl F D) (id : ℕ) : Bool :=
  q.evaluations.any fun
    | .recognize t _ => t.trackId = id
    | .pad _ _ => false

/-- Whether the state of a track outlives the beginning of a frame. -/
def Impl.outlives (p : Impl F D) (f : FaceTrackingFrame F) (now : ℤ) (id : ℕ) : Bool :=
  ((p.accept f now).states id).any fun s =>
    !(f.tracks.any (fun t => t.trackId = id) && startsOver p.cfg now s)

/-- The qualities handed to recognition for the current state of each track, after a call. The
list starts again for a track whose state does not outlive the call. -/
def Call.note (call : Call F) (p : Impl F D) (faces : ℕ → List F) : ℕ → List F :=
  match call with
  | .process evaluate utcMs f now => fun id =>
    (if p.outlives f now id then faces id else []) ++
      (f.tracks.filter fun t => t.trackId = id &&
        (finalState (AttendanceProcessor.process evaluate utcMs f now p)).recognized id).map
        (quality D · p.cfg)
  | .setGallery templates =>
    match GalleryMatcher.replace D templates with
    | .error _ => faces
    | .ok _ => fun _ => []
  | .reset => fun _ => []

/-- The processor and the journal after a call. -/
def Call.performNoted (call : Call F) (x : Impl F D × (ℕ → List F)) : Impl F D × (ℕ → List F) :=
  (call.perform x.1, call.note x.1 x.2)

/-- Every extra attempt of a frame is spent on a face that is better than all faces that
recognition has seen of the state, by the required gain. -/
def Call.Justified (call : Call F) (x : Impl F D × (ℕ → List F)) : Prop :=
  match call with
  | .process evaluate utcMs f now => ∀ t s,
    .recognize t s ∈
        (finalState (AttendanceProcessor.process evaluate utcMs f now x.1)).evaluations →
      0 < s.extra →
      ¬ quality D t x.1.cfg < largest (x.2 t.trackId) * x.1.cfg.retryQualityGain
  | _ => True

/-- No attempt of the frame is late. -/
def Call.Prompt (call : Call F) (p : Impl F D) : Prop :=
  match call with
  | .process _ _ f now => ∀ t ∈ f.tracks, ∀ s, (p.accept f now).states t.trackId = some s →
    ¬ LateAttempt p.cfg (p.tick + 1) now t s
  | _ => True

omit [FloatOps F] in
/-- A track with a given identifier is found once. So a batch has one crop of it at most. -/
theorem filter_track {tracks : List (TrackResult F)} {t : TrackResult F}
    (hnodup : (tracks.map (·.trackId)).Nodup) (ht : t ∈ tracks) (b : Bool) :
    (tracks.filter fun u => u.trackId = t.trackId && b) = if b then [t] else [] := by
  cases b with
  | false => simp
  | true =>
    simp only [Bool.and_true, if_true]
    induction tracks with
    | nil => cases ht
    | cons u tracks ih =>
      rw [List.map_cons, List.nodup_cons] at hnodup
      rcases List.mem_cons.mp ht with rfl | hmem
      · have hnone : tracks.filter (fun u => decide (u.trackId = t.trackId)) = [] := by
          refine List.filter_eq_nil_iff.mpr fun u hu hid => hnodup.1 ?_
          exact (of_decide_eq_true hid) ▸ List.mem_map_of_mem (f := (·.trackId)) hu
        rw [List.filter_cons_of_pos (by simp), hnone]
      · have hne : u.trackId ≠ t.trackId := fun heq =>
          hnodup.1 (heq ▸ List.mem_map_of_mem (f := (·.trackId)) hmem)
        rw [List.filter_cons_of_neg (by simpa using hne)]
        exact ih hnodup.2 hmem

section Process

variable {evaluate : BiometricEvaluators F} {utcMs : ℕ → ℤ} {f : FaceTrackingFrame F} {now : ℤ}
  {p q : Impl F D} {padEntries : List (TrackResult F × LivenessResult F)} {checked : ℕ → State F D}
  {arcEntries : List (TrackResult F × ArcFaceResult F)} {frame : BiometricAttendanceFrame F}
  {t : TrackResult F} {faces : ℕ → List F}

/-- The crops of selected tracks, and no others, went to recognition. The tracks of a frame have
different identifiers. -/
theorem FrameRun.recognized_eq {p₁ : Impl F D}
    (hrun : FrameRun evaluate utcMs f now p₁ padEntries checked arcEntries frame q)
    (ht : t ∈ f.tracks) :
    q.recognized t.trackId = wantsRecognition p₁.cfg p₁.tick t (checked t.trackId) := by
  rw [Bool.eq_iff_iff, Impl.recognized, List.any_eq_true]
  constructor
  · rintro ⟨evaluation, hmem, hid⟩
    cases evaluation with
    | pad u s => cases hid
    | recognize u s =>
      obtain ⟨hu, hwants⟩ := (hrun.handed_recognize u).mp ⟨s, hmem⟩
      obtain rfl := List.inj_on_of_nodup_map hrun.tracks_nodup hu ht (of_decide_eq_true hid)
      exact hwants
  · intro hwants
    obtain ⟨s, hmem⟩ := (hrun.handed_recognize t).mpr ⟨ht, hwants⟩
    exact ⟨_, hmem, decide_eq_true rfl⟩

/-- The journal belongs to the states. -/
def Noted (x : Impl F D × (ℕ → List F)) : Prop :=
  ∀ id s, x.1.states id = some s → Measured (x.2 id) s

omit [FloatPair F D] in
/-- The journal of an accepted frame. -/
theorem Noted.accept (hnoted : Noted (p, faces)) (id : ℕ) :
    Measured (if ((p.accept f now).states id).isSome then faces id else [])
      ((p.accept f now).stateOf id) := by
  cases hs : (p.accept f now).states id with
  | none =>
    rw [Impl.stateOf, hs]
    exact ⟨rfl, fun h => absurd h (lt_irrefl 0)⟩
  | some s =>
    rw [Impl.stateOf_eq hs]
    exact hnoted id s (Option.filter_eq_some_iff.mp hs).1

omit [FloatPair F D] in
/-- A state that does not start over outlives the beginning of the frame, and with it the part
of a journal that belongs to it. -/
theorem outlives_eq {α : Type} {journal : ℕ → List α} (ht : t ∈ f.tracks) :
    (if startsOver (p.accept f now).cfg now ((p.accept f now).stateOf t.trackId) then []
      else if ((p.accept f now).states t.trackId).isSome then journal t.trackId else []) =
      if p.outlives f now t.trackId then journal t.trackId else [] := by
  have hany : f.tracks.any (fun u => u.trackId = t.trackId) = true :=
    List.any_eq_true.mpr ⟨t, ht, decide_eq_true rfl⟩
  have hcfg : (p.accept f now).cfg = p.cfg := rfl
  unfold Impl.outlives
  rw [hany, hcfg]
  cases hs : (p.accept f now).states t.trackId with
  | none => simp
  | some s => cases hover : startsOver p.cfg now s <;> simp [Impl.stateOf_eq hs, hover]

/-- The state of a track in the middle of a call. -/
theorem Noted.middle (hnoted : Noted (p, faces))
    (hrun : FrameRun evaluate utcMs f now (p.accept f now) padEntries checked arcEntries frame q)
    (ht : t ∈ f.tracks) :
    Measured (if p.outlives f now t.trackId then faces t.trackId else []) (checked t.trackId) := by
  have hchecked := (hrun.measured_checked ht (hnoted.accept t.trackId)).1
  rwa [outlives_eq ht] at hchecked

/-- A frame that returns keeps the journal. For each track the journal goes on or begins again, as
its state does. -/
theorem Noted.process (hnoted : Noted (p, faces))
    (hrun : FrameRun evaluate utcMs f now (p.accept f now) padEntries checked arcEntries frame q)
    (hreturns : AttendanceProcessor.process evaluate utcMs f now p = .ok frame q) :
    Noted ((Call.process evaluate utcMs f now).performNoted (p, faces)) := by
  have hfinal : finalState (AttendanceProcessor.process evaluate utcMs f now p) = q := by
    rw [hreturns]
    rfl
  intro id s hs
  dsimp only [Call.performNoted, Call.perform, Call.note] at hs ⊢
  rw [hfinal] at hs ⊢
  by_cases hid : id ∈ f.tracks.map (·.trackId)
  · obtain ⟨t, ht, rfl⟩ := List.mem_map.mp hid
    obtain ⟨s', hs', hafter⟩ := hrun.measured_after ht (hnoted.middle hrun ht)
    obtain rfl : s = s' := Option.some.inj (hs.symm.trans hs')
    have hcfg : (p.accept f now).cfg = p.cfg := rfl
    rw [← hrun.recognized_eq ht, hcfg] at hafter
    rw [filter_track hrun.tracks_nodup ht]
    cases hrecognized : q.recognized t.trackId <;> simpa [hrecognized] using hafter
  · have hany : f.tracks.any (fun t => t.trackId = id) = false := by
      simpa using fun (t : TrackResult F) ht (heq : t.trackId = id) =>
        hid (heq ▸ List.mem_map_of_mem ht)
    have hnone : (f.tracks.filter fun t => t.trackId = id && q.recognized id) = [] := by
      refine List.filter_eq_nil_iff.mpr fun t ht htest => hid ?_
      exact of_decide_eq_true (Bool.and_eq_true_iff.mp htest).1 ▸ List.mem_map_of_mem ht
    rw [hrun.others id hid] at hs
    rw [hnone, Impl.outlives, hs, hany]
    simpa using hnoted id s (Option.filter_eq_some_iff.mp hs).1

/-- In a frame that returns, the attempts are justified exactly when none is late. The journal
knows the best quality, which is what the state remembers. -/
theorem Noted.justified_iff (hnoted : Noted (p, faces))
    (hreturns : AttendanceProcessor.process evaluate utcMs f now p = .ok frame q) :
    (Call.process evaluate utcMs f now).Justified (p, faces) ↔
      (Call.process evaluate utcMs f now).Prompt p := by
  obtain ⟨-, padEntries, checked, arcEntries, hrun⟩ := wp_ok wp_process hreturns
  have hfinal : finalState (AttendanceProcessor.process evaluate utcMs f now p) = q := by
    rw [hreturns]
    rfl
  have hcfg : (p.accept f now).cfg = p.cfg := rfl
  have htick : (p.accept f now).tick = p.tick + 1 := rfl
  have hmeasured : ∀ t : TrackResult F, Measured
      (if ((p.accept f now).states t.trackId).isSome then faces t.trackId else [])
      ((p.accept f now).stateOf t.trackId) := fun t => hnoted.accept t.trackId
  -- The journal holds what the attempts of the frame are measured against.
  have hbest : ∀ t ∈ f.tracks, 0 < (checked t.trackId).extra →
      ((p.accept f now).states t.trackId).isSome = true ∧
        (checked t.trackId).bestQuality = largest (faces t.trackId) := by
    intro t ht hextra
    obtain ⟨hchecked, hsame, -⟩ := hrun.measured_checked ht (hmeasured t)
    rw [hsame] at hextra
    obtain ⟨hkept, hold⟩ := kept_of_extra hextra
    have hkept : startsOver (p.accept f now).cfg now ((p.accept f now).stateOf t.trackId) = false :=
      hkept
    have hsome : ((p.accept f now).states t.trackId).isSome = true := by
      cases hs : (p.accept f now).states t.trackId with
      | some s => rfl
      | none =>
        rw [Impl.stateOf, hs, Option.getD_none] at hold
        rcases hold with hpos | hphase
        · exact absurd hpos (lt_irrefl 0)
        · cases hphase
    rw [hkept, hsome] at hchecked
    exact ⟨hsome, hchecked.best_eq⟩
  unfold Call.Justified Call.Prompt
  dsimp only
  rw [hfinal]
  constructor
  · intro hjustified t ht s hs hlate
    rw [← Impl.stateOf_eq hs] at hlate
    obtain ⟨hwants, hextra, hworse⟩ := (hrun.lateAttempt_iff ht (hmeasured t)).mp hlate
    obtain ⟨s', hmem⟩ := (hrun.handed_recognize t).mpr ⟨ht, hwants⟩
    have hs' := hrun.handed_state t s' hmem
    refine hjustified t s' hmem (by rw [hs']; exact hextra) ?_
    rw [← (hbest t ht hextra).2]
    exact hworse
  · intro hprompt t s hmem hextra hworse
    obtain ⟨ht, hwants⟩ := (hrun.handed_recognize t).mp ⟨s, hmem⟩
    rw [hrun.handed_state t s hmem] at hextra
    obtain ⟨hsome, hlargest⟩ := hbest t ht hextra
    rw [← hlargest] at hworse
    have hlate := (hrun.lateAttempt_iff ht (hmeasured t)).mpr ⟨hwants, hextra, hworse⟩
    obtain ⟨s', hs'⟩ := Option.isSome_iff_exists.mp hsome
    rw [Impl.stateOf_eq hs'] at hlate
    exact hprompt t ht s' hs' hlate

end Process

/-! ## Runs -/

/-- Every call that completes keeps the journal, and its attempts are justified exactly when
none is late. -/
theorem Noted.perform {call : Call F} {x : Impl F D × (ℕ → List F)} (hnoted : Noted x)
    (hcomplete : call.Completes x.1) :
    Noted (call.performNoted x) ∧ (call.Justified x ↔ call.Prompt x.1) := by
  obtain ⟨p, faces⟩ := x
  cases call with
  | process evaluate utcMs f now =>
    dsimp only [Call.Completes] at hcomplete
    cases hreturns : AttendanceProcessor.process evaluate utcMs f now p with
    | error e q => simp only [hreturns] at hcomplete
    | ok frame q =>
      obtain ⟨-, padEntries, checked, arcEntries, hrun⟩ := wp_ok wp_process hreturns
      exact ⟨hnoted.process hrun hreturns, hnoted.justified_iff hreturns⟩
  | setGallery templates =>
    refine ⟨?_, Iff.rfl⟩
    intro id s hs
    dsimp only [Call.performNoted, Call.perform, AttendanceProcessor.setGallery, Call.note] at hs ⊢
    cases hreplace : GalleryMatcher.replace D templates with
    | error e =>
      rw [hreplace] at hs
      exact hnoted id s hs
    | ok gallery =>
      rw [hreplace] at hs
      cases hs
  | reset =>
    refine ⟨?_, Iff.rfl⟩
    intro id s hs
    cases hs

/-- Every extra attempt of a run is justified. -/
def AllJustified (D : Type) [FloatOps D] [FloatPair F D] (c : BiometricAttendanceConfig F)
    (calls : List (Call F)) : Prop :=
  Throughout Call.performNoted Call.Justified (({ cfg := c } : Impl F D), fun _ => []) calls

/-- In no frame of a run an attempt is late. -/
def AllPrompt (D : Type) [FloatOps D] [FloatPair F D] (c : BiometricAttendanceConfig F)
    (calls : List (Call F)) : Prop :=
  Throughout Call.perform Call.Prompt ({ cfg := c } : Impl F D) calls

/-- In a run without exceptions every extra attempt is justified exactly when none is late. -/
theorem allJustified_iff {c : BiometricAttendanceConfig F} {calls : List (Call F)}
    (hcomplete : AllComplete D c calls) : AllJustified D c calls ↔ AllPrompt D c calls := by
  suffices h : ∀ (calls : List (Call F)) (x : Impl F D × (ℕ → List F)), Noted x →
      Throughout Call.perform Call.Completes x.1 calls →
      (Throughout Call.performNoted Call.Justified x calls ↔
        Throughout Call.perform Call.Prompt x.1 calls) from h calls _ nofun hcomplete
  intro calls
  induction calls with
  | nil => exact fun _ _ _ => Iff.rfl
  | cons call calls ih =>
    intro x hnoted hcomplete
    obtain ⟨hnext, hiff⟩ := hnoted.perform hcomplete.1
    exact and_congr hiff (ih (call.performNoted x) hnext hcomplete.2)

end Journal

/-! ## A sample in exact arithmetic -/

/-- A configuration with one liveness vote and one recognition attempt in the first round. -/
def briefConfig : BiometricAttendanceConfig (Extended ℚ) where
  padBonaFideVotesRequired := 1
  recognitionMaxAttempts := 1
  recognitionSimilarityThreshold := lit 0.5
  calibrationId := "walk-through"

/-- A frame with one face of the given size. -/
def sizedFrame (frameId : ℕ) (side : ℚ) : FaceTrackingFrame (Extended ℚ) where
  gpuFrame := ⟨frameId⟩
  tracks := [{
    trackId := 7, x1 := lit 0, y1 := lit 0, x2 := lit side, y2 := lit side, score := lit 0.9
    state := .tracked, startFrame := 1, frameId := frameId, trackletLen := 1
    hasObservation := true
    observation := ⟨lit 0, lit 0, lit side, lit side, lit 0.9, arcFaceTarget.points⟩ }]

/-- Models that find every face live and recognize none. -/
def blankEvaluators : BiometricEvaluators (Extended ℚ) where
  pad _ faces := .ok (faces.map fun _ => ⟨some (lit 0.99), .live⟩)
  recognize _ faces := .ok (faces.map fun _ => ⟨fun _ => lit 0⟩)

/-- A frame of the sample. -/
def sizedCall (frameId : ℕ) (side : ℚ) : Call (Extended ℚ) :=
  .process blankEvaluators (fun _ => 0) (sizedFrame frameId side) 1

/-- A large face earns an attempt in the second frame, which the cadence holds back. -/
def delayedCalls : List (Call (Extended ℚ)) :=
  [.setGallery [⟨"visitor", fun j => if j.val = 0 then lit 1 else lit 0⟩], sizedCall 1 112,
    sizedCall 2 224, sizedCall 3 112]

/-- The sample and the frame in which the attempt is made, on the small face again. -/
def lateCalls : List (Call (Extended ℚ)) := delayedCalls ++ [sizedCall 4 112]

/-- No call of the sample throws. -/
theorem lateCalls_complete : AllComplete (Extended ℚ) briefConfig lateCalls := by
  decide +kernel

/-- In the sample run an attempt is made that the journal does not justify. The attempt is made on
the smaller face, two frames after it was granted for the larger one. -/
theorem lateCalls_not_justified : ¬ AllJustified (Extended ℚ) briefConfig lateCalls := by
  intro hjustified
  obtain ⟨x, hx⟩ : ∃ x : Impl (Extended ℚ) (Extended ℚ) × (ℕ → List (Extended ℚ)),
      x = runFrom Call.performNoted ({ cfg := briefConfig }, fun _ => []) delayedCalls := ⟨_, rfl⟩
  have hlast : (sizedCall 4 112).Justified x := by
    rw [hx]
    exact (throughout_append.mp hjustified).2.1
  have hworse : (finalState (process blankEvaluators (fun _ => 0) (sizedFrame 4 112) 1
      x.1)).evaluations.any (fun
        | .recognize t s => decide (0 < s.extra) && decide (quality (Extended ℚ) t x.1.cfg <
            largest (x.2 t.trackId) * x.1.cfg.retryQualityGain)
        | .pad _ _ => false) = true := by
    rw [hx]
    decide +kernel
  obtain ⟨evaluation, hmem, htest⟩ := List.any_eq_true.mp hworse
  cases evaluation with
  | pad t s => cases htest
  | recognize t s =>
    obtain ⟨hextra, hless⟩ := Bool.and_eq_true_iff.mp htest
    exact hlast t s hmem (of_decide_eq_true hextra) (of_decide_eq_true hless)

/-- An extra attempt can be spent on a face that is no better than the first one. -/
theorem attempt_on_worse_face : validateAttendanceConfig briefConfig = .ok () ∧
    ¬ (AllComplete (Extended ℚ) briefConfig lateCalls →
      AllJustified (Extended ℚ) briefConfig lateCalls) :=
  ⟨by decide +kernel, fun h => lateCalls_not_justified (h lateCalls_complete)⟩

/-- The attempt of the sample is late. -/
theorem lateCalls_not_prompt : ¬ AllPrompt (Extended ℚ) briefConfig lateCalls := fun hprompt =>
  lateCalls_not_justified ((allJustified_iff lateCalls_complete).mpr hprompt)

end EdgeClient.Vision.AttendanceProcessor
