import EdgeClient.Basis.Ieee754

/-!
# Camera mode selection

The camera offers several modes of the requested size. Each gets a score: the distance of
its frame rate from the requested one, a rank of its stream and a rank of its subtype. The
modes are visited in the order of the driver, and a mode replaces the selected one when its
score is better.
-/

namespace EdgeClient.Camera

open Basis

/-- Streams of a camera source. -/
inductive CameraStreamPreference where
  /-- Any stream. -/
  | auto
  /-- The preview stream. -/
  | videoPreview
  /-- The record stream. -/
  | videoRecord
  deriving DecidableEq

/-- Subtypes are compared in upper case. -/
def normalizeSubtype (value : String) : String := value.map Char.toUpper

/-- Uncompressed formats for a GPU surface come first, compressed ones last. The rank is an error
to be minimized, so a smaller number is a better format. -/
def subtypeRank (subtype : String) : ℤ :=
  let normalized := normalizeSubtype subtype
  if normalized = "NV12" then 0
  else if normalized = "YUY2" then 1
  else if normalized = "BGRA8" then 2
  else if normalized = "ARGB32" then 3
  else if normalized = "RGB32" then 4
  else if normalized = "MJPG" then 50
  else if normalized = "H264" then 60
  else 20

/-- The preview stream comes before the record stream. -/
def streamRank : CameraStreamPreference → ℤ
  | .videoPreview => 0
  | .videoRecord => 1
  | .auto => 10

/-- Whether a stream is one that was asked for. -/
def streamMatches (actual requested : CameraStreamPreference) : Bool :=
  requested = .auto ∨ actual = requested

variable {F : Type} [FloatOps F]

/-- What a mode is judged by. -/
structure FormatScore (F : Type) where
  /-- Distance from the requested frame rate. -/
  fpsError : F
  /-- Rank of the stream. -/
  stream : ℤ
  /-- Rank of the subtype. -/
  subtype : ℤ

/-- Whether two frame rate errors count as equal. -/
def nearEqual (a b : F) : Bool := stdAbs (a - b) < lit 0.0001

/-- Whether a mode replaces the selected one. -/
def isBetterCandidate (candidate incumbent : FormatScore F) : Bool :=
  candidate.fpsError < incumbent.fpsError ∨
    (nearEqual candidate.fpsError incumbent.fpsError ∧ candidate.stream < incumbent.stream) ∨
    (nearEqual candidate.fpsError incumbent.fpsError ∧ candidate.stream = incumbent.stream ∧
      candidate.subtype < incumbent.subtype)

/-- Whether the frame rate of a mode is close enough. -/
def isSupportedFps (fpsError : F) : Bool := ¬ lit 1 < fpsError

section Selection

variable {α : Type} (score : α → FormatScore F)

/-- Visit one more mode. -/
def consider (best : Option α) (candidate : α) : Option α :=
  match best with
  | none => some candidate
  | some incumbent =>
    if isBetterCandidate (score candidate) (score incumbent) then some candidate else best

/-- The mode that is selected from a list. -/
def selectBest (candidates : List α) : Option α := candidates.foldl (consider score) none

end Selection

/-! ## The search of the capture -/

/-- A mode of a camera source. -/
structure CameraMode (F : Type) where
  /-- Width in pixels. -/
  width : ℕ
  /-- Height in pixels. -/
  height : ℕ
  /-- Frames per second. -/
  fps : F
  /-- Pixel format. -/
  subtype : String

/-- A source of the selected camera. -/
structure SourceInfo (F : Type) where
  /-- Identifier of the source. -/
  id : String
  /-- Whether it is a color source. -/
  isColor : Bool
  /-- Its stream; neither preview nor record is `auto`. -/
  stream : CameraStreamPreference
  /-- Whether the capture has the source. -/
  isOpen : Bool
  /-- Modes in the order of the driver. -/
  supportedFormats : List (CameraMode F)

/-- What the configuration asks for. -/
structure CaptureRequest where
  /-- Width in pixels. -/
  width : ℕ
  /-- Height in pixels. -/
  height : ℕ
  /-- Frames per second. -/
  fps : ℕ
  /-- Stream. -/
  streamPreference : CameraStreamPreference
  /-- Identifier of the source; any when empty. -/
  sourceId : String
  /-- Pixel format in upper case; any when empty. -/
  sourceSubtype : String

/-- A mode that fits the request. -/
structure Candidate (F : Type) where
  /-- Identifier of the source. -/
  source : String
  /-- The mode. -/
  format : CameraMode F
  /-- The stream of the source. -/
  stream : CameraStreamPreference
  /-- What the mode is judged by. -/
  score : FormatScore F

/-- Whether the modes of a source are considered. -/
def SourceInfo.fits (request : CaptureRequest) (info : SourceInfo F) : Bool :=
  info.isColor ∧ info.stream ≠ .auto ∧ streamMatches info.stream request.streamPreference ∧
    (request.sourceId = "" ∨ info.id = request.sourceId) ∧ info.isOpen

/-- Whether a mode is considered. -/
def CameraMode.fits (request : CaptureRequest) (mode : CameraMode F) : Bool :=
  mode.width = request.width ∧ mode.height = request.height ∧
    (request.sourceSubtype = "" ∨ normalizeSubtype mode.subtype = request.sourceSubtype)

/-- The modes that fit the request, in the order of the driver. The order is kept because a
comparison that is not transitive makes the result depend on it. -/
def candidates (request : CaptureRequest) (infos : List (SourceInfo F)) : List (Candidate F) :=
  (infos.filter (SourceInfo.fits request)).flatMap fun info =>
    (info.supportedFormats.filter (CameraMode.fits request)).map fun mode => {
      source := info.id
      format := mode
      stream := info.stream
      score := {
        fpsError := stdAbs (mode.fps - lit request.fps)
        stream := streamRank info.stream
        subtype := subtypeRank mode.subtype } }

/-- The error for a request that no mode satisfies. -/
def modeError (request : CaptureRequest) : String :=
  "Mode kamera " ++ toString request.width ++ "x" ++ toString request.height ++ " @ " ++
    toString request.fps ++ " FPS tidak tersedia untuk filter source yang diminta" ++
    (if request.sourceSubtype = "" then "" else " (subtype=" ++ request.sourceSubtype ++ ")") ++
    ". Jalankan tools/Release/camera_probe.exe dari folder build untuk melihat capability driver."

/-- The mode that the capture uses. -/
def selectMode (request : CaptureRequest) (infos : List (SourceInfo F)) :
    Except String (Candidate F) :=
  match selectBest Candidate.score (candidates request infos) with
  | none => throw (modeError request)
  | some best =>
    if isSupportedFps best.score.fpsError then return best else throw (modeError request)

end EdgeClient.Camera
