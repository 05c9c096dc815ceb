import EdgeClient.Tracking.Assignment
import EdgeClient.Tracking.Association
import EdgeClient.Tracking.KalmanFilter
import EdgeClient.Vision.Types

/-!
# The tracker

Tracks are objects that several lists share: an update of one frame changes an object
through one list and reads the change through another. The model keeps the objects in
a heap and the lists as lists of references. Detections of the current frame are
objects of the same kind. Timings are left out.

One field only records what happens: `STrack.position` is the position, in the input
of its frame, of the detection that an object holds.
-/

namespace EdgeClient.Tracking

open Basis Vision

/-- Configuration of the tracker. The defaults are those of the source. -/
structure ByteTrackConfig (F : Type) [FloatOps F] where
  /-- Detections above take part in the first association. -/
  trackThreshold : F := lit 0.5
  /-- Detections above take part in the second association. -/
  lowThreshold : F := lit 0.1
  /-- Unmatched detections from here on start a track. -/
  newTrackThreshold : F := lit 0.6
  /-- Cost limit of the first association. -/
  matchThreshold : F := lit 0.8
  /-- Cost limit of the second association. -/
  secondMatchThreshold : F := lit 0.5
  /-- Cost limit for tracks that are not confirmed. -/
  unconfirmedMatchThreshold : F := lit 0.7
  /-- Frames to keep a lost track, at thirty frames per second. -/
  trackBuffer : ℤ := 30
  /-- Frames per second. -/
  frameRate : ℤ := 30
  /-- Whether costs ignore the scores of detections. -/
  mot20 : Bool := false

/-- A track, or a detection that may become one. Objects are never freed in the model; what the
source frees is not reached any more. -/
structure STrack (F D : Type) where
  /-- Identifier; zero before the activation. -/
  trackId : ℕ
  /-- Score of the last detection. -/
  score : F
  /-- Stage of the life cycle. -/
  state : TrackState
  /-- Whether the track is reported. -/
  isActivated : Bool
  /-- Frame of the last match. -/
  frameId : ℤ
  /-- Frame of the activation. -/
  startFrame : ℤ
  /-- Matches since the last activation. -/
  trackletLen : ℤ
  /-- Corner and size of the first detection. -/
  tlwhInitial : Fin 4 → F
  /-- The last detection. -/
  observation : FaceDetection F
  /-- Whether `observation` is set. -/
  hasObservation : Bool
  /-- Whether the filter has been started. -/
  hasState : Bool
  /-- Estimate of the filter. -/
  mean : Mean D
  /-- Its covariance. -/
  covariance : Covariance D
  /-- Position of the detection in the input of its frame. -/
  position : ℕ

variable {F D : Type} [FloatOps F] [FloatOps D]

namespace STrack

/-- Corner and size of a detection. -/
def tlbrToTlwh (d : FaceDetection F) : Fin 4 → F := ![d.x1, d.y1, d.x2 - d.x1, d.y2 - d.y1]

/-- An object for the detection at a position of the input. It has neither an identifier nor a
state of the filter. -/
def ofDetection (position : ℕ) (d : FaceDetection F) : STrack F D where
  trackId := 0
  score := d.score
  state := .new
  isActivated := false
  frameId := 0
  startFrame := 0
  trackletLen := 0
  tlwhInitial := tlbrToTlwh d
  observation := d
  hasObservation := true
  hasState := false
  mean := fun _ => lit 0
  covariance := fun _ _ => lit 0
  position

/-- The object at an address that is not in use. Its contents are not read by any function. -/
def unused : STrack F D where
  trackId := 0
  score := lit 0
  state := .new
  isActivated := false
  frameId := 0
  startFrame := 0
  trackletLen := 0
  tlwhInitial := fun _ => lit 0
  observation := ⟨lit 0, lit 0, lit 0, lit 0, lit 0, fun _ => ⟨lit 0, lit 0⟩⟩
  hasObservation := false
  hasState := false
  mean := fun _ => lit 0
  covariance := fun _ _ => lit 0
  position := 0

variable [FloatPair F D]

/-- Corner and size of the current box. -/
def tlwh (t : STrack F D) : Fin 4 → F :=
  if t.hasState = false then t.tlwhInitial
  else
    let width : F := narrow (t.mean 2 * t.mean 3)
    let height : F := narrow (t.mean 3)
    ![narrow (t.mean 0) - width * lit 0.5, narrow (t.mean 1) - height * lit 0.5, width, height]

/-- The two corners of the current box. -/
def tlbr (t : STrack F D) : Fin 4 → F :=
  let b := t.tlwh
  ![b 0, b 1, b 2 + b 0, b 3 + b 1]

/-- Centre, aspect ratio and height of a box. -/
def tlwhToXyah (b : Fin 4 → F) : Measurement D :=
  let h : D := widen (stdMax (lit 1e-6) (b 3))
  ![widen (b 0 + b 2 * lit 0.5), widen (b 1 + b 3 * lit 0.5), widen (b 2) / h, h]

/-- Centre, aspect ratio and height of the current box. -/
def xyah (t : STrack F D) : Measurement D := tlwhToXyah t.tlwh

/-- Advance the filter by one frame. The height velocity of a lost track is dropped. -/
def predict (t : STrack F D) : STrack F D :=
  if t.hasState = false then t
  else
    let mean := if t.state ≠ .tracked then Function.update t.mean 7 (lit 0) else t.mean
    let state := KalmanFilter.predict mean t.covariance
    { t with mean := state.mean, covariance := state.covariance }

/-- Make a detection a track. A track of the first frame counts as confirmed at once. -/
def activate (frame : ℤ) (id : ℕ) (t : STrack F D) : STrack F D :=
  let state := KalmanFilter.initiate (tlwhToXyah t.tlwhInitial)
  { t with
    trackId := id
    mean := state.mean
    covariance := state.covariance
    hasState := true
    trackletLen := 0
    state := .tracked
    isActivated := decide (frame = 1)
    frameId := frame
    startFrame := frame }

/-- Correct the filter by a detection. -/
def correct (det : STrack F D) : EStateM String (STrack F D) Unit := do
  let t ← get
  match KalmanFilter.update t.mean t.covariance det.xyah with
  | .error e => throw e
  | .ok state => set { t with mean := state.mean, covariance := state.covariance }

/-- Take over a detection after a time without one. The filter is corrected first, and where this
throws the track keeps its fields. -/
def reActivate (det : STrack F D) (frame : ℤ) : EStateM String (STrack F D) Unit := do
  correct det
  modify fun t =>
    { t with
      trackletLen := 0
      state := .tracked
      isActivated := true
      frameId := frame
      score := det.score
      observation := det.observation
      hasObservation := det.hasObservation
      position := det.position }

/-- Take over a detection. The track goes on, and its observation and its score are those of the
detection. -/
def update (det : STrack F D) (frame : ℤ) : EStateM String (STrack F D) Unit := do
  modify fun t => { t with frameId := frame, trackletLen := t.trackletLen + 1 }
  correct det
  modify fun t =>
    { t with
      state := .tracked
      isActivated := true
      score := det.score
      observation := det.observation
      hasObservation := det.hasObservation
      position := det.position }

/-- The box with its score. -/
def associationItem (t : STrack F D) : AssociationItem F :=
  let b := t.tlbr
  ⟨b 0, b 1, b 2, b 3, t.score⟩

/-- What the tracker reports about a track. -/
def result (t : STrack F D) : TrackResult F :=
  let b := t.tlbr
  { trackId := t.trackId, x1 := b 0, y1 := b 1, x2 := b 2, y2 := b 3, score := t.score
    state := t.state, startFrame := t.startFrame, frameId := t.frameId
    trackletLen := t.trackletLen, hasObservation := t.hasObservation
    observation := t.observation }

end STrack

namespace ByteTracker

/-- The state of the tracker. References are natural numbers, and those below
`allocated` are in use. -/
structure Impl (F D : Type) [FloatOps F] where
  /-- Configuration. -/
  cfg : ByteTrackConfig F
  /-- The objects. -/
  heap : ℕ → STrack F D
  /-- Number of objects. -/
  allocated : ℕ
  /-- Tracks with a match in the last frame. -/
  tracked : List ℕ
  /-- Tracks without a match for some frames. -/
  lost : List ℕ
  /-- Tracks that were given up. -/
  removed : List ℕ
  /-- Number of frames since the last reset. -/
  frame : ℤ
  /-- Frames to keep a lost track. -/
  maxTimeLost : ℤ
  /-- Next identifier. -/
  nextId : ℕ

/-- Computations of the tracker. -/
abbrev Tracker (F D : Type) [FloatOps F] := EStateM Abort (Impl F D)

/-- A new tracker. A threshold for new tracks that is not positive is replaced by one above the
track threshold. -/
def create (D : Type) [FloatOps D] (cfg : ByteTrackConfig F) : Impl F D where
  cfg := { cfg with
    newTrackThreshold := if cfg.newTrackThreshold ≤ lit 0 then cfg.trackThreshold + lit 0.1
      else cfg.newTrackThreshold }
  heap := fun _ => .unused
  allocated := 0
  tracked := []
  lost := []
  removed := []
  frame := 0
  maxTimeLost := truncate (lit cfg.frameRate / lit 30 * lit cfg.trackBuffer : D)
  nextId := 1

/-- Change the object at a reference. -/
def Impl.store (p : Impl F D) (ptr : ℕ) (t : STrack F D) : Impl F D :=
  { p with heap := Function.update p.heap ptr t }

/-- Run a computation on the object at a reference. -/
def onTrack (ptr : ℕ) (m : EStateM String (STrack F D) Unit) : Tracker F D Unit := fun p =>
  match m (p.heap ptr) with
  | .ok _ t => .ok () (p.store ptr t)
  | .error e t => .error (.thrown e) (p.store ptr t)

/-- A new object for a detection. -/
def makeShared (position : ℕ) (d : FaceDetection F) : Tracker F D ℕ :=
  modifyGet fun p =>
    (p.allocated,
      { p.store p.allocated (.ofDetection position d) with allocated := p.allocated + 1 })

/-- Sort one detection into the high or the low candidates, or drop it. -/
def detect (acc : List ℕ × List ℕ) (entry : FaceDetection F × ℕ) :
    Tracker F D (List ℕ × List ℕ) := do
  let p ← get
  if p.cfg.trackThreshold < entry.1.score then
    return (acc.1 ++ [← makeShared entry.2 entry.1], acc.2)
  else if p.cfg.lowThreshold < entry.1.score ∧ entry.1.score < p.cfg.trackThreshold then
    return (acc.1, acc.2 ++ [← makeShared entry.2 entry.1])
  else return acc

/-- Append the tracks of `b` whose identifiers have not occurred yet. -/
def jointTracks (heap : ℕ → STrack F D) (a b : List ℕ) : List ℕ :=
  b.foldl (fun out t =>
    if (heap t).trackId ∈ out.map (fun u => (heap u).trackId) then out else out ++ [t]) a

/-- Drop the tracks whose identifiers occur in `b`. -/
def subtractTracks (heap : ℕ → STrack F D) (a b : List ℕ) : List ℕ :=
  a.filter fun t => decide ((heap t).trackId ∉ b.map fun u => (heap u).trackId)

variable [FloatPair F D]

/-- The boxes of the objects. -/
def toItems (heap : ℕ → STrack F D) (tracks : List ℕ) : List (AssociationItem F) :=
  tracks.map fun t => (heap t).associationItem

/-- Of two tracks that overlap strongly, drop the one that exists for a shorter time. The
decisions are made for all pairs first, and then both lists are cut. -/
def removeDuplicates (heap : ℕ → STrack F D) (a b : List ℕ) : List ℕ × List ℕ :=
  if a = [] ∨ b = [] then (a, b)
  else
    let costs := costMatrix (toItems heap a) (toItems heap b) false
    let time := fun t => (heap t).frameId - (heap t).startFrame
    let overlaps := fun i j => decide ¬ lit 0.15 ≤ costs.getD (i * b.length + j) (lit 0)
    let longer := fun i j => decide (time (b.getD j 0) < time (a.getD i 0))
    let dropA := (List.range a.length).filter fun i =>
      (List.range b.length).any fun j => overlaps i j && !longer i j
    let dropB := (List.range b.length).filter fun j =>
      (List.range a.length).any fun i => overlaps i j && longer i j
    (((List.range a.length).filter fun i => decide (i ∉ dropA)).map fun i => a.getD i 0,
      ((List.range b.length).filter fun j => decide (j ∉ dropB)).map fun j => b.getD j 0)

/-- Assign detections to tracks. -/
def associate (fuel : ℕ) (tracks detections : List ℕ) (fuseScore : Bool) (threshold : F) :
    Tracker F D AssignmentResult := do
  let p ← get
  let costs := costMatrix (toItems p.heap tracks) (toItems p.heap detections) fuseScore
  match linearAssignment D fuel costs tracks.length detections.length threshold with
  | .error e => throw e
  | .ok result => return result

/-- Let a track take over its detection; tracks that were lost are collected apart. An exception
of the filter ends the association and leaves the earlier matches in place. -/
def matchTrack (tracks detections : List ℕ) (acc : List ℕ × List ℕ) (m : Match) :
    Tracker F D (List ℕ × List ℕ) := do
  let track := tracks.getD m.row 0
  let p ← get
  let det := p.heap (detections.getD m.col 0)
  if (p.heap track).state = .tracked then
    onTrack track (STrack.update det p.frame)
    return (acc.1 ++ [track], acc.2)
  else
    onTrack track (STrack.reActivate det p.frame)
    return (acc.1, acc.2 ++ [track])

/-- Let an unconfirmed track take over its detection. -/
def confirmTrack (tracks detections : List ℕ) (activated : List ℕ) (m : Match) :
    Tracker F D (List ℕ) := do
  let track := tracks.getD m.row 0
  let p ← get
  onTrack track (STrack.update (p.heap (detections.getD m.col 0)) p.frame)
  return activated ++ [track]

omit [FloatPair F D] in
/-- Mark a track lost. -/
def markLost (tracks : List ℕ) (newlyLost : List ℕ) (idx : ℕ) : Tracker F D (List ℕ) := do
  let track := tracks.getD idx 0
  let p ← get
  if (p.heap track).state ≠ .lost then
    set (p.store track { p.heap track with state := .lost })
    return newlyLost ++ [track]
  else return newlyLost

omit [FloatPair F D] in
/-- Mark a track removed. -/
def markRemoved (tracks : List ℕ) (newlyRemoved : List ℕ) (idx : ℕ) : Tracker F D (List ℕ) := do
  let track := tracks.getD idx 0
  let p ← get
  set (p.store track { p.heap track with state := .removed })
  return newlyRemoved ++ [track]

/-- Start a track from a detection with a sufficient score. -/
def startTrack (detections : List ℕ) (activated : List ℕ) (idx : ℕ) : Tracker F D (List ℕ) := do
  let track := detections.getD idx 0
  let p ← get
  if (p.heap track).score < p.cfg.newTrackThreshold then return activated
  else
    set { p.store track ((p.heap track).activate p.frame p.nextId) with nextId := p.nextId + 1 }
    return activated ++ [track]

omit [FloatPair F D] in
/-- Remove a track that has been lost for too long. -/
def expireTrack (newlyRemoved : List ℕ) (track : ℕ) : Tracker F D (List ℕ) := do
  let p ← get
  if p.maxTimeLost < p.frame - (p.heap track).frameId then
    set (p.store track { p.heap track with state := .removed })
    return newlyRemoved ++ [track]
  else return newlyRemoved

/-- The lists at the end of a frame. -/
def Impl.finish (p : Impl F D) (activated refind newlyLost newlyRemoved : List ℕ) : Impl F D :=
  let trackedOnly := p.tracked.filter fun t => decide ((p.heap t).state = .tracked)
  let tracked := jointTracks p.heap (jointTracks p.heap trackedOnly activated) refind
  let lost := subtractTracks p.heap (subtractTracks p.heap p.lost tracked ++ newlyLost) newlyRemoved
  let dedup := removeDuplicates p.heap tracked lost
  { p with tracked := dedup.1, lost := dedup.2, removed := p.removed ++ newlyRemoved }

/-- Process the detections of one frame. The order of the statements is that of the source, with
the heap as the state. -/
def update (fuel : ℕ) (input : List (FaceDetection F)) : Tracker F D (List (TrackResult F)) := do
  modify fun p => { p with frame := p.frame + 1 }
  let candidates ← input.zipIdx.foldlM detect ([], [])
  let (high, low) := candidates
  let p ← get
  let unconfirmed := p.tracked.filter fun t => !(p.heap t).isActivated
  let confirmed := p.tracked.filter fun t => (p.heap t).isActivated
  let pool := jointTracks p.heap confirmed p.lost
  pool.foldlM (fun _ t => modify fun p => p.store t (p.heap t).predict) ()
  let first ← associate fuel pool high (!p.cfg.mot20) p.cfg.matchThreshold
  let matched ← first.pairs.foldlM (matchTrack pool high) ([], [])
  let q ← get
  let remainingTracked := (first.unmatchedRows.map fun i => pool.getD i 0).filter fun t =>
    decide ((q.heap t).state = .tracked)
  let second ← associate fuel remainingTracked low false p.cfg.secondMatchThreshold
  let matched ← second.pairs.foldlM (matchTrack remainingTracked low) matched
  let newlyLost ← second.unmatchedRows.foldlM (markLost remainingTracked) []
  let remainingHigh := first.unmatchedCols.map fun j => high.getD j 0
  let unc ← associate fuel unconfirmed remainingHigh (!p.cfg.mot20) p.cfg.unconfirmedMatchThreshold
  let activated ← unc.pairs.foldlM (confirmTrack unconfirmed remainingHigh) matched.1
  let newlyRemoved ← unc.unmatchedRows.foldlM (markRemoved unconfirmed) []
  let activated ← unc.unmatchedCols.foldlM (startTrack remainingHigh) activated
  let newlyRemoved ← p.lost.foldlM expireTrack newlyRemoved
  modify fun p => p.finish activated matched.2 newlyLost newlyRemoved
  let p ← get
  return (p.tracked.filter fun t => (p.heap t).isActivated).map fun t => (p.heap t).result

omit [FloatPair F D] in
/-- Forget all tracks. The configuration stays, and the identifiers start from one again. -/
def Impl.reset (p : Impl F D) : Impl F D :=
  { p with
    heap := fun _ => .unused
    allocated := 0
    tracked := []
    lost := []
    removed := []
    frame := 0
    nextId := 1 }

end ByteTracker

end EdgeClient.Tracking
