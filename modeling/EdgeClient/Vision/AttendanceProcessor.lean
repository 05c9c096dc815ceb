import EdgeClient.Basis.Runs
import EdgeClient.Basis.StatefulPrograms
import EdgeClient.Vision.AttendanceConfig
import EdgeClient.Vision.GalleryMatcher

/-!
# The attendance processor

For every track the processor keeps a state: liveness votes first, then averaged
embeddings compared with the gallery. One call handles one frame. It schedules the
tracks, evaluates the liveness crops as one batch, then the recognition crops as
another, and finally takes a snapshot of every track. A call that throws leaves
the changes that it made before.

Times are readings of the steady clock in nanoseconds; they do not start below zero,
so that their differences are exact. The durations of the configuration are
milliseconds, and a comparison converts them to nanoseconds of 64 bits. The two
evaluators are arguments of each call, so that they may keep a state of their own.
Two fields only record what happens: `State.records` keeps the liveness results of a
state, and `Impl.evaluations` the crops that the last call handed to an evaluator.
-/

namespace EdgeClient.Vision

open Basis

/-- Nanoseconds in a number of milliseconds, without bound: what a duration means. -/
def milliseconds (n : ℤ) : ℤ := n * 1000000

/-- What a comparison with a time difference makes of a number of milliseconds: it converts
to nanoseconds of 64 bits, and the multiplication wraps around. -/
def nanoseconds (n : ℤ) : ℤ := (milliseconds n).bmod (2 ^ 64)

/-- The stages in the life of a track. The names are those of the source. -/
inductive BiometricTrackPhase where
  /-- No usable crop yet. -/
  | waitingQuality
  /-- Liveness votes are being collected. -/
  | checkingPad
  /-- The liveness votes decided against the track. -/
  | rejectedAttack
  /-- The liveness votes decided for the track. -/
  | recognizing
  /-- The track produced an event. -/
  | recognized
  /-- All recognition attempts failed. -/
  | unknownIdentity
  /-- Another attempt waits for a better crop. -/
  | recognitionDeferred
  /-- The identity produced an event not long ago. -/
  | duplicateIdentity
  deriving DecidableEq

/-- What the liveness model returns for one crop. -/
structure LivenessResult (F : Type) where
  /-- Probability of a live face; none for a rejected crop. -/
  liveScore : Option F
  /-- Decision of the model's own wrapper. -/
  decision : LivenessDecision

/-- What the recognition model returns for one crop. -/
structure ArcFaceResult (F : Type) where
  /-- The embedding of the face. -/
  embedding : Embedding F

/-- The two face models. -/
structure BiometricEvaluators (F : Type) where
  /-- The liveness model. -/
  pad : GpuFrame → List (FaceDetection F) → Except String (List (LivenessResult F))
  /-- The recognition model. -/
  recognize : GpuFrame → List (FaceDetection F) → Except String (List (ArcFaceResult F))

/-- Counts of the evaluated observations. -/
structure VoteCounts where
  /-- Evaluated observations. -/
  attempts : ℕ := 0
  /-- Votes for a live face. -/
  real : ℕ := 0
  /-- Votes against it. -/
  spoof : ℕ := 0
  /-- Crops rejected before inference. -/
  inputRejected : ℕ := 0
  deriving DecidableEq

/-- Count one decision. A rejected crop is not an attempt. -/
def VoteCounts.add (v : VoteCounts) : LivenessDecision → VoteCounts
  | .inputRejected => { v with inputRejected := v.inputRejected + 1 }
  | .live => { v with attempts := v.attempts + 1, real := v.real + 1 }
  | .spoof => { v with attempts := v.attempts + 1, spoof := v.spoof + 1 }

/-- A message about one recognized identity. It carries the scores that were seen and the names of
track and frame. -/
structure AttendanceEvent (F : Type) where
  /-- Wall-clock time of the match. -/
  occurredAtUtcMs : ℤ
  /-- Camera frame of the match. -/
  cameraFrameId : ℕ
  /-- Track of the face. -/
  trackId : ℕ
  /-- Matched identity. -/
  identityId : String
  /-- Its similarity. -/
  similarity : F
  /-- Distance to the next identity. -/
  similarityMargin : F
  /-- Median of the liveness scores. -/
  padMedianPReal : F
  /-- Never set by the processor. -/
  padMedianMarginPReal : F

/-- What a caller sees of a track. It repeats what the state says, without changing it. -/
structure BiometricTrackSnapshot (F : Type) where
  /-- Identifier of the track. -/
  trackId : ℕ
  /-- Stage of the track. -/
  phase : BiometricTrackPhase
  /-- Detector score of the current observation. -/
  currentDetectionScore : F
  /-- Width of the current observation. -/
  currentFaceWidth : F
  /-- Height of the current observation. -/
  currentFaceHeight : F
  /-- Liveness votes taken. -/
  padAttempts : ℕ
  /-- Liveness crops rejected. -/
  padInputRejections : ℕ
  /-- Votes for a live face. -/
  padBonaFideVotes : ℕ
  /-- Votes against it. -/
  padAttackVotes : ℕ
  /-- Median of the liveness scores. -/
  padMedianPReal : F
  /-- Recognition attempts made. -/
  recognitionAttempts : ℕ
  /-- Identity of the last match. -/
  identityId : String
  /-- Its similarity. -/
  identitySimilarity : F
  /-- Its margin. -/
  identityMargin : F

/-- What one call returns. -/
structure BiometricAttendanceFrame (F : Type) where
  /-- The frame that was processed. -/
  gpuFrame : GpuFrame
  /-- Snapshots in the order of the tracks. -/
  tracks : List (BiometricTrackSnapshot F)
  /-- New events. -/
  attendanceEvents : List (AttendanceEvent F)

/-- Median of a list of scores, zero when there are none. -/
def median {F : Type} [FloatOps F] (v : List F) : F :=
  let sorted := v.insertionSort (· ≤ ·)
  let n := sorted.length
  if n = 0 then lit 0
  else if n % 2 = 1 then sorted.getD (n / 2) (lit 0)
  else (sorted.getD (n / 2 - 1) (lit 0) + sorted.getD (n / 2) (lit 0)) * lit 0.5

namespace AttendanceProcessor

variable {F D : Type} [FloatOps F] [FloatOps D]

/-- One recorded liveness result: when it was taken, on which track result, and
the score. -/
structure PadRecord (F : Type) where
  /-- Time of the call. -/
  time : ℤ
  /-- Track result whose observation was evaluated. -/
  track : TrackResult F
  /-- Probability of a live face. -/
  score : F

/-- The state of one track. The fields are those of the source, and in addition the records of the
liveness results. -/
structure State (F D : Type) [FloatOps F] [FloatOps D] where
  /-- Stage of the track. -/
  phase : BiometricTrackPhase := .waitingQuality
  /-- Tick of the last frame with the track. -/
  seen : ℕ := 0
  /-- Tick of the last liveness result; zero before the first. -/
  lastPad : ℕ := 0
  /-- Tick of the last recognition result; zero before the first. -/
  lastArc : ℕ := 0
  /-- Recognition attempts made. -/
  attempts : ℕ := 0
  /-- Attempts granted after the first round. -/
  extra : ℕ := 0
  /-- Embeddings in `sum`. -/
  count : ℕ := 0
  /-- Time of the first vote. -/
  evidence : ℤ := 0
  /-- Time of the last accepted match. -/
  terminal : ℤ := 0
  /-- Liveness votes. -/
  votes : VoteCounts := {}
  /-- Liveness scores in the order of the votes. -/
  scores : List F := []
  /-- Sum of the embeddings. -/
  sum : Fin kEmbeddingSize → D := fun _ => lit 0
  /-- Best quality handed to recognition. -/
  bestQuality : F := lit 0
  /-- Last comparison with the gallery. -/
  «match» : GalleryMatch F := .empty
  /-- Liveness results since the state was created or reset. -/
  records : List (PadRecord F) := []

/-- A crop handed to one of the models, with the state of its track. -/
inductive Evaluation (F D : Type) [FloatOps F] [FloatOps D] where
  /-- A crop for the liveness model. -/
  | pad (track : TrackResult F) (state : State F D)
  /-- A crop for the recognition model. -/
  | recognize (track : TrackResult F) (state : State F D)

/-- The state of the processor. A track has a state from the frame in which it is first seen to
its expiry. -/
structure Impl (F D : Type) [FloatOps F] [FloatOps D] where
  /-- Configuration. -/
  cfg : BiometricAttendanceConfig F
  /-- Loaded gallery. -/
  gallery : GalleryMatcher F := .empty
  /-- State of each track. -/
  states : ℕ → Option (State F D) := fun _ => none
  /-- Time of the last event of each identity. -/
  emitted : String → Option ℤ := fun _ => none
  /-- Number of accepted frames since the last reset. -/
  tick : ℕ := 0
  /-- Identifier of the last accepted frame; zero after a reset. -/
  lastFrame : ℕ := 0
  /-- Time of the last accepted call. -/
  lastTime : ℤ := 0
  /-- Whether `lastTime` is set. -/
  haveTime : Bool := false
  /-- Crops handed to the models by the last call of `process`. -/
  evaluations : List (Evaluation F D) := []

/-- Computations of the processor. -/
abbrev Processor (F D : Type) [FloatOps F] [FloatOps D] := EStateM String (Impl F D)

/-- A processor exists only with an accepted configuration. -/
def create (D : Type) [FloatOps D] (c : BiometricAttendanceConfig F) :
    Except String (Impl F D) := do
  validateAttendanceConfig c
  return { cfg := c }

/-- Store the state of a track. -/
def Impl.setState (p : Impl F D) (id : ℕ) (s : State F D) : Impl F D :=
  { p with states := Function.update p.states id (some s) }

/-- Run a computation on the state of a track, as a reference into the map does. -/
def atTrack {α : Type} (id : ℕ) (m : EStateM String (State F D) α) : Processor F D α := fun p =>
  match p.states id with
  | none => .error "invalid unordered_map<K, T> key" p
  | some s =>
    match m s with
    | .ok a s => .ok a (p.setState id s)
    | .error e s => .error e (p.setState id s)

/-- Record the crops handed to a model. -/
def Impl.hand (p : Impl F D) (kind : TrackResult F → State F D → Evaluation F D)
    (tracks : List (TrackResult F)) : Impl F D :=
  { p with
    evaluations := p.evaluations ++ tracks.map fun t => kind t ((p.states t.trackId).getD {}) }

/-- The phases after an accepted match, which end with the cooldown. -/
def matched (phase : BiometricTrackPhase) : Bool :=
  phase = .recognized ∨ phase = .duplicateIdentity

/-- The phases without further evaluation. -/
def concluded (phase : BiometricTrackPhase) : Bool :=
  matched phase ∨ phase = .rejectedAttack ∨ phase = .unknownIdentity

/-- Drop the states of tracks that were missing too long and the cooldowns that
have run out. -/
def Impl.collect (p : Impl F D) (now : ℤ) : Impl F D :=
  { p with
    states := fun id => (p.states id).filter fun s =>
      ¬ p.cfg.maxMissingRuntimeFrames < p.tick - s.seen
    emitted := fun identity => (p.emitted identity).filter fun t =>
      ¬ nanoseconds p.cfg.eventCooldown ≤ now - t }

/-- Accept a frame: time and frame identifier advance and no track occurs twice. A frame that is
refused changes nothing; an accepted one advances the clock and clears what has expired. -/
def beginFrame (f : FaceTrackingFrame F) (now : ℤ) : Processor F D Unit := do
  let p ← get
  if (p.haveTime ∧ now < p.lastTime) ∨ f.gpuFrame.frameId ≤ p.lastFrame then
    throw "Frame/time must advance monotonically"
  else if ¬ (f.tracks.map (·.trackId)).Nodup then throw "Duplicate track ID in frame"
  else
    modify fun p =>
      { p with
        lastTime := now
        haveTime := true
        lastFrame := f.gpuFrame.frameId
        tick := p.tick + 1 }
    modify (·.collect now)

/-- A matched track starts over when its cooldown has run out. -/
def expireTerminal (c : BiometricAttendanceConfig F) (tick : ℕ) (now : ℤ) (s : State F D) :
    State F D :=
  if matched s.phase ∧ nanoseconds c.eventCooldown ≤ now - s.terminal then { seen := tick } else s

/-- Liveness votes count for a limited time. -/
def expireEvidence (c : BiometricAttendanceConfig F) (now : ℤ) (s : State F D) : State F D :=
  if s.votes.attempts ≠ 0 ∧ nanoseconds c.evidenceTtl < now - s.evidence then { seen := s.seen }
  else s

/-- Whether a deferred track stays deferred: no attempt is left, or the crop is not
clearly better. -/
def staysDeferred (c : BiometricAttendanceConfig F) (q : F) (s : State F D) : Bool :=
  s.phase = .recognitionDeferred ∧
    (c.recognitionExtraAttempts ≤ s.extra ∨ q < s.bestQuality * c.retryQualityGain)

/-- Grant a deferred track another attempt. -/
def reopenDeferred (s : State F D) : State F D :=
  if s.phase = .recognitionDeferred then
    { s with extra := s.extra + 1, phase := .recognizing, sum := fun _ => lit 0, count := 0 }
  else s

section Evaluation

variable [FloatPair F D]

/-- The first loop for one track: its state, and whether its crop goes to the
liveness model. -/
def schedule (c : BiometricAttendanceConfig F) (gallerySize tick : ℕ) (now : ℤ)
    (t : TrackResult F) (s : State F D) : State F D × Bool :=
  let s := expireTerminal c tick now { s with seen := tick }
  if concluded s.phase then (s, false)
  else
    let s := expireEvidence c now s
    let q := quality D t c
    if q ≤ lit 0 ∨ gallerySize = 0 then (s, false)
    else if staysDeferred c q s then (s, false)
    else
      let s := reopenDeferred s
      if s.phase ≠ .recognizing ∧ (s.lastPad = 0 ∨ c.padEveryFrames ≤ tick - s.lastPad) then
        ({ s with phase := .checkingPad }, true)
      else (s, false)

/-- Schedule one track and collect its crop. -/
def scheduleTrack (now : ℤ) (padTracks : List (TrackResult F)) (t : TrackResult F) :
    Processor F D (List (TrackResult F)) := do
  let p ← get
  let s := schedule p.cfg p.gallery.size p.tick now t ((p.states t.trackId).getD {})
  set (p.setState t.trackId s.1)
  return if s.2 then padTracks ++ [t] else padTracks

/-- The phase after a vote. -/
def votedPhase (c : BiometricAttendanceConfig F) (votes : VoteCounts)
    (phase : BiometricTrackPhase) : BiometricTrackPhase :=
  if c.padAttackVotesRequired ≤ votes.spoof then .rejectedAttack
  else if c.padBonaFideVotesRequired ≤ votes.real then .recognizing
  else if c.padMaxAttempts ≤ votes.attempts then .rejectedAttack
  else phase

/-- Count one vote. The first vote of a round sets the time of its evidence. -/
def addVote (c : BiometricAttendanceConfig F) (now : ℤ) (t : TrackResult F) (score : F)
    (decision : LivenessDecision) (s : State F D) : State F D :=
  let votes := s.votes.add decision
  { s with
    evidence := if s.votes.attempts = 0 then now else s.evidence
    votes
    scores := s.scores ++ [score]
    phase := votedPhase c votes s.phase
    records := s.records ++ [⟨now, t, score⟩] }

/-- Record one liveness result. A rejected crop is not an attempt and must have no score, and any
other crop must have one. -/
def recordPad (c : BiometricAttendanceConfig F) (tick : ℕ) (now : ℤ) (t : TrackResult F)
    (r : LivenessResult F) : EStateM String (State F D) Unit := do
  modify fun s => { s with lastPad := tick }
  if r.decision = .inputRejected then
    if r.liveScore.isSome then throw "Rejected PAD input has score"
    else modify fun s => { s with votes := s.votes.add r.decision, phase := .waitingQuality }
  else
    match r.liveScore with
    | none => throw "PAD result missing score"
    | some score =>
      match classifyScore score c.pad.liveThreshold with
      | .error e => throw e
      | .ok decision => modify (addVote c now t score decision)

/-- Evaluate the liveness crops, if there are any, and record the results. The results are matched
to the tracks by position, and the tracks before one that throws keep theirs. -/
def checkPad (evaluate : BiometricEvaluators F) (f : FaceTrackingFrame F) (now : ℤ)
    (padTracks : List (TrackResult F)) : Processor F D Unit := do
  if padTracks = [] then return ()
  else
    modify (·.hand .pad padTracks)
    match evaluate.pad f.gpuFrame (padTracks.map (·.observation)) with
    | .error e => throw e
    | .ok results =>
      if results.length ≠ padTracks.length then throw "PAD result count mismatch"
      else
        (padTracks.zip results).foldlM (fun _ entry => do
          let p ← get
          atTrack entry.1.trackId (recordPad p.cfg p.tick now entry.1 entry.2)) ()

/-- Whether the crop of a track goes to the recognition model. -/
def wantsRecognition (c : BiometricAttendanceConfig F) (tick : ℕ) (t : TrackResult F)
    (s : State F D) : Bool :=
  !(s.phase ≠ .recognizing ∨ quality D t c ≤ lit 0 ∨
    (s.lastArc ≠ 0 ∧ tick - s.lastArc < c.recognitionEveryFrames))

/-- Remember the best quality handed to recognition. -/
def raiseQuality (c : BiometricAttendanceConfig F) (t : TrackResult F) (s : State F D) :
    State F D :=
  { s with bestQuality := stdMax s.bestQuality (quality D t c) }

/-- Select one track for recognition and collect its crop. A track that is selected raises the
quality that the next crop has to exceed. -/
def selectTrack (arcTracks : List (TrackResult F)) (t : TrackResult F) :
    Processor F D (List (TrackResult F)) := do
  let p ← get
  atTrack t.trackId do
    let s ← get
    if wantsRecognition p.cfg p.tick t s then
      set (raiseQuality p.cfg t s)
      return arcTracks ++ [t]
    else return arcTracks

/-- Add an embedding to the sum of a track. -/
def accumulate (tick : ℕ) (r : ArcFaceResult F) (s : State F D) : State F D :=
  { s with
    lastArc := tick
    attempts := s.attempts + 1
    count := s.count + 1
    sum := fun j => s.sum j + widen (r.embedding j) }

/-- Mean of the embeddings of a track. -/
def meanEmbedding (s : State F D) : Embedding F := fun j => narrow (s.sum j / lit s.count)

/-- Whether a comparison with the gallery is an accepted match. -/
def accepts (c : BiometricAttendanceConfig F) (m : GalleryMatch F) : Bool :=
  m.valid ∧ c.recognitionSimilarityThreshold ≤ m.bestSimilarity ∧ c.recognitionMinMargin ≤ m.margin

/-- Compare an embedding with the gallery. -/
def matchGallery (query : Embedding F) : Processor F D (GalleryMatch F) := do
  let p ← get
  match p.gallery.match D query with
  | .error e => throw e
  | .ok (m, gallery) =>
    set { p with gallery }
    return m

/-- The event of an accepted match. The similarity and the margin are those of the match, and the
median is that of the votes so far. -/
def makeEvent (utcMs : ℤ) (f : FaceTrackingFrame F) (id : ℕ) (s : State F D) :
    AttendanceEvent F where
  occurredAtUtcMs := utcMs
  cameraFrameId := f.gpuFrame.frameId
  trackId := id
  identityId := s.match.identityId
  similarity := s.match.bestSimilarity
  similarityMargin := s.match.margin
  padMedianPReal := median s.scores
  padMedianMarginPReal := lit 0

/-- The state after a comparison, which depends on whether the identity is known to
have produced an event. -/
def conclude (c : BiometricAttendanceConfig F) (now : ℤ) (known : Bool) (s : State F D) :
    State F D :=
  if accepts c s.match then
    { s with terminal := now, phase := if known then .duplicateIdentity else .recognized }
  else if c.recognitionMaxAttempts + s.extra ≤ s.attempts then
    { s with
      phase := if s.extra < c.recognitionExtraAttempts then .recognitionDeferred
        else .unknownIdentity }
  else s

/-- Record one recognition result and collect its event. The cooldown is written before the next
result is looked at. -/
def recordRecognition (utcMs : ℕ → ℤ) (f : FaceTrackingFrame F) (now : ℤ)
    (events : List (AttendanceEvent F)) (entry : TrackResult F × ArcFaceResult F) :
    Processor F D (List (AttendanceEvent F)) := do
  let id := entry.1.trackId
  let p ← get
  let mean ← atTrack id do
    modify (accumulate p.tick entry.2)
    return meanEmbedding (← get)
  let m ← matchGallery mean
  let known := (p.emitted m.identityId).isSome
  let s ← atTrack id do
    modify fun s => conclude p.cfg now known { s with «match» := m }
    get
  if accepts p.cfg m ∧ known = false then
    modify fun p => { p with emitted := Function.update p.emitted m.identityId (some now) }
    return events ++ [makeEvent (utcMs events.length) f id s]
  else return events

/-- Evaluate the recognition crops, if there are any, and record the results. The results are
matched to the tracks by position, and an exception discards the events collected so far. -/
def recognizeTracks (evaluate : BiometricEvaluators F) (utcMs : ℕ → ℤ) (f : FaceTrackingFrame F)
    (now : ℤ) (arcTracks : List (TrackResult F)) :
    Processor F D (List (AttendanceEvent F)) := do
  if arcTracks = [] then return []
  else
    modify (·.hand .recognize arcTracks)
    match evaluate.recognize f.gpuFrame (arcTracks.map (·.observation)) with
    | .error e => throw e
    | .ok results =>
      if results.length ≠ arcTracks.length then throw "Recognition result count mismatch"
      else (arcTracks.zip results).foldlM (recordRecognition utcMs f now) []

/-- The snapshot of one track. A track without an observation in this frame has a score of
zero. -/
def snapshot (t : TrackResult F) (s : State F D) : BiometricTrackSnapshot F where
  trackId := t.trackId
  phase := s.phase
  currentDetectionScore := if t.hasObservation then t.observation.score else lit 0
  currentFaceWidth := t.observation.x2 - t.observation.x1
  currentFaceHeight := t.observation.y2 - t.observation.y1
  padAttempts := s.votes.attempts
  padInputRejections := s.votes.inputRejected
  padBonaFideVotes := s.votes.real
  padAttackVotes := s.votes.spoof
  padMedianPReal := median s.scores
  recognitionAttempts := s.attempts
  identityId := s.match.identityId
  identitySimilarity := s.match.bestSimilarity
  identityMargin := s.match.margin

/-- Take the snapshot of one track. -/
def takeSnapshot (snapshots : List (BiometricTrackSnapshot F)) (t : TrackResult F) :
    Processor F D (List (BiometricTrackSnapshot F)) :=
  atTrack t.trackId do
    return snapshots ++ [snapshot t (← get)]

/-- Process one frame. The wall clock is read once for each event; `utcMs` lists the
readings. -/
def process (evaluate : BiometricEvaluators F) (utcMs : ℕ → ℤ) (f : FaceTrackingFrame F)
    (now : ℤ) : Processor F D (BiometricAttendanceFrame F) := do
  modify fun p => { p with evaluations := [] }
  beginFrame f now
  let padTracks ← f.tracks.foldlM (scheduleTrack now) []
  checkPad evaluate f now padTracks
  let arcTracks ← f.tracks.foldlM selectTrack []
  let attendanceEvents ← recognizeTracks evaluate utcMs f now arcTracks
  let tracks ← f.tracks.foldlM takeSnapshot []
  return { gpuFrame := f.gpuFrame, tracks, attendanceEvents }

/-- Clear the evidence of all tracks; cooldowns stay. -/
def reset : Processor F D Unit :=
  modify fun p => { p with states := fun _ => none, tick := 0, lastFrame := 0 }

/-- Load another gallery, and clear the evidence when that succeeds. -/
def setGallery (templates : List (GalleryTemplate F)) : Processor F D Unit := do
  match GalleryMatcher.replace D templates with
  | .error e => throw e
  | .ok gallery =>
    modify fun p => { p with gallery }
    reset

/-- A call of the public interface. -/
inductive Call (F : Type) where
  /-- A frame, with the evaluators and the clocks of the call. -/
  | process (evaluate : BiometricEvaluators F) (utcMs : ℕ → ℤ) (frame : FaceTrackingFrame F)
      (now : ℤ)
  /-- Another gallery. -/
  | setGallery (templates : List (GalleryTemplate F))
  /-- A new session. -/
  | reset

/-- The state after a call, whether it returned or threw. -/
def Call.perform (call : Call F) (p : Impl F D) : Impl F D :=
  match call with
  | .process evaluate utcMs f now => finalState (AttendanceProcessor.process evaluate utcMs f now p)
  | .setGallery templates => finalState (AttendanceProcessor.setGallery templates p)
  | .reset => finalState (AttendanceProcessor.reset p)

/-- The events that a call returned, with the time of the call. -/
def Call.returned (call : Call F) (p : Impl F D) : List (ℤ × AttendanceEvent F) :=
  match call with
  | .process evaluate utcMs f now =>
    match AttendanceProcessor.process evaluate utcMs f now p with
    | .ok frame _ => frame.attendanceEvents.map fun e => (now, e)
    | .error _ _ => []
  | _ => []

/-- A call of `process` returned; the other calls may throw. -/
def Call.Completes (call : Call F) (p : Impl F D) : Prop :=
  match call with
  | .process evaluate utcMs f now =>
    match AttendanceProcessor.process evaluate utcMs f now p with
    | .ok _ _ => True
    | .error _ _ => False
  | _ => True

/-- Whether a call completes is found by running it. -/
instance (call : Call F) (p : Impl F D) : Decidable (call.Completes p) :=
  match call with
  | .process evaluate utcMs f now =>
    match h : AttendanceProcessor.process evaluate utcMs f now p with
    | .ok _ _ => isTrue (by simp only [Call.Completes, h])
    | .error _ _ => isFalse (by simp only [Call.Completes, h, not_false_eq_true])
  | .setGallery _ => isTrue trivial
  | .reset => isTrue trivial

/-- The state after a sequence of calls to a new processor. -/
def afterCalls (D : Type) [FloatOps D] [FloatPair F D] (c : BiometricAttendanceConfig F)
    (calls : List (Call F)) : Impl F D :=
  runFrom Call.perform { cfg := c } calls

/-- All events that a sequence of calls returned, in order. -/
def history (D : Type) [FloatOps D] [FloatPair F D] (c : BiometricAttendanceConfig F)
    (calls : List (Call F)) : List (ℤ × AttendanceEvent F) :=
  transcript Call.perform Call.returned ({ cfg := c } : Impl F D) calls

/-- No call of `process` in the sequence throws. -/
def AllComplete (D : Type) [FloatOps D] [FloatPair F D] (c : BiometricAttendanceConfig F)
    (calls : List (Call F)) : Prop :=
  Throughout Call.perform Call.Completes ({ cfg := c } : Impl F D) calls

/-- Whether all calls complete is found by running them. -/
instance (c : BiometricAttendanceConfig F) (calls : List (Call F)) :
    Decidable (AllComplete D c calls) :=
  inferInstanceAs
    (Decidable (Throughout Call.perform Call.Completes ({ cfg := c } : Impl F D) calls))

end Evaluation

end AttendanceProcessor

end EdgeClient.Vision
