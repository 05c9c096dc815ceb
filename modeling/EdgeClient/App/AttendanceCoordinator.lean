import EdgeClient.Basis.StatefulPrograms
import EdgeClient.Storage.GalleryRepository
import EdgeClient.Sync.WireFormat

/-!
# The attendance coordinator

The coordinator connects the vision results to the database. It turns the events of one
frame into records, holds them until each one is committed, and takes no other frame
before. It also remembers which version of the gallery is installed, because every
record names it.
-/

namespace EdgeClient.App

open Basis Vision Storage Sync

variable {F D : Type} [FloatOps F] [FloatOps D] [FloatPair F D]

/-- The coordinator. -/
structure AttendanceCoordinator where
  /-- Identifier of the device. -/
  device : String
  /-- Hash of the active face model. -/
  modelHash : String
  /-- Version of the installed gallery. -/
  version : String
  /-- Number of its templates. -/
  templateCount : ℕ
  /-- Records that are not committed. -/
  pending : List AttendanceRecord

namespace AttendanceCoordinator

/-- The coordinator before the first gallery. -/
def create (device modelHash : String) : AttendanceCoordinator := ⟨device, modelHash, "", 0, []⟩

/-- What is reported about an event; the last field keeps its default. The time is the wall clock
of the event and not the time of the frame. -/
def observation (event : AttendanceEvent F) : AttendanceObservation F where
  occurredAtUtcMs := event.occurredAtUtcMs
  cameraFrameId := event.cameraFrameId
  trackId := event.trackId
  identityId := event.identityId
  similarity := event.similarity
  similarityMargin := event.similarityMargin
  padMedianPReal := event.padMedianPReal
  padMedianMarginPReal := lit 0

/-- The records of the events of a frame; each one draws its own random bytes. -/
def records (w : Wire D) (device version : String) :
    List (AttendanceEvent F × Option (Fin 16 → UInt8)) → Except Thrown (List AttendanceRecord) :=
  List.mapM fun (event, random) => envelope w random (observation event) device version

/-- `stage`. -/
def stage (w : Wire D) (events : List (AttendanceEvent F × Option (Fin 16 → UInt8)))
    (c : AttendanceCoordinator) : Except Thrown AttendanceCoordinator := do
  if c.pending ≠ [] then
    throw (.logicError "Persist pending attendance before accepting another frame")
  let next ← records w c.device c.version events
  return { c with pending := next }

/-- `commit_next`: the first pending record is forgotten when its transaction is reported
as committed. -/
def commitNext (o : Outcome) (c : AttendanceCoordinator) (t : Tables) :
    Except Thrown (Option AttendanceRecord) × AttendanceCoordinator × Tables :=
  match c.pending with
  | [] => (.ok none, c, t)
  | record :: rest =>
    match transact o (OutboxRepository.ensureEnqueued record) t with
    | (.error e, t') => (.error e, c, t')
    | (.ok (), t') => (.ok (some record), { c with pending := rest }, t')

/-- The first check of `refresh_gallery`. -/
def checkIdle (c : AttendanceCoordinator) : Except Thrown Unit :=
  if c.pending ≠ [] then
    throw (.logicError "Persist pending attendance before reloading gallery")
  else return ()

/-- The second check of `refresh_gallery`. -/
def checkModel (c : AttendanceCoordinator) (snapshot : GallerySnapshot F) : Except Thrown Unit :=
  if snapshot.version ≠ "" ∧ snapshot.modelSha256 ≠ c.modelHash then
    throw (.runtimeError "Gallery model differs from the active ArcFace model")
  else return ()

/-- The end of `refresh_gallery`: the installed version is published. -/
def publish (c : AttendanceCoordinator) (snapshot : GallerySnapshot F) : AttendanceCoordinator :=
  { c with version := snapshot.version, templateCount := snapshot.templates.length }

end AttendanceCoordinator

/-! ## Programs without a `logic_error` -/

/-- The program throws no `logic_error`. -/
def Orderly {α : Type} (m : Except Thrown α) : Prop := ∀ what, m ≠ .error (.logicError what)

namespace Orderly

variable {α β : Type}

/-- A call that returns throws nothing. -/
theorem ok (a : α) : Orderly (.ok a : Except Thrown α) := nofun

/-- Two orderly calls in a row are orderly. -/
theorem bind {m : Except Thrown α} {f : α → Except Thrown β} (h : Orderly m)
    (hf : ∀ a, m = .ok a → Orderly (f a)) : Orderly (m >>= f) := by
  intro what herror
  rcases bind_eq_error.mp herror with hm | ⟨a, ha, hfa⟩
  · exact h what hm
  · exact hf a ha what hfa

/-- A choice of orderly calls is orderly. -/
theorem ite {p : Prop} [Decidable p] {m m' : Except Thrown α} (h : Orderly m) (h' : Orderly m') :
    Orderly (if p then m else m') := by
  split
  · exact h
  · exact h'

/-- Orderly calls for each element of a list are orderly. -/
theorem mapM {f : α → Except Thrown β} {l : List α} (h : ∀ a ∈ l, Orderly (f a)) :
    Orderly (l.mapM f) := by
  intro what herror
  obtain ⟨a, ha, hfa⟩ := mapM_error herror
  exact h a ha what hfa

end Orderly

/-- The check of an identifier is orderly: what it throws is an invalid argument. -/
theorem orderly_checkId (s : String) : Orderly (checkId s) := .ite (.ok _) nofun

omit [FloatOps F] [FloatPair F D] in
/-- Writing a number is orderly. -/
theorem orderly_number (key : String) (x : D) : Orderly (number key x) := .ite (.ok _) nofun

/-- Making an identifier is orderly, with random bytes or without. -/
theorem orderly_uuidV7 (random : Option (Fin 16 → UInt8)) (ms : ℤ) :
    Orderly (uuidV7 random ms) := by
  refine .ite nofun ?_
  cases random with
  | none => exact nofun
  | some random => exact .ok _

omit [FloatOps F] [FloatOps D] [FloatPair F D] in
/-- Formatting a time is orderly. -/
theorem orderly_timestamp (w : Wire D) (ms : ℤ) : Orderly (timestamp w ms) := by
  refine .ite nofun ?_
  cases w.calendar (ms.toNat / 1000 : ℕ) with
  | none => exact nofun
  | some seconds => exact .ok _

omit [FloatOps F] in
/-- Making a record throws no `logic_error`. Every check of an envelope refuses its input as an
invalid argument, or reports a failing system. -/
theorem orderly_envelope (w : Wire D) (random : Option (Fin 16 → UInt8))
    (e : AttendanceObservation F)
    (device version : String) : Orderly (envelope w random e device version) := by
  refine (orderly_checkId device).bind fun _ _ => (orderly_checkId version).bind fun _ _ =>
    (orderly_checkId e.identityId).bind fun _ _ => (orderly_uuidV7 random _).bind fun id _ =>
    (orderly_timestamp w _).bind fun occurredAt _ => ?_
  refine .bind ?_ fun _ _ => .ok _
  exact (orderly_number _ _).bind fun _ _ => (orderly_number _ _).bind fun _ _ =>
    (orderly_number _ _).bind fun _ _ => (orderly_number _ _).bind fun _ _ => .ok _

/-- Storing a record throws no `logic_error`. A conflict is a runtime error, and an insertion can
only fail in the database. -/
theorem orderly_ensureEnqueued (r : AttendanceRecord) (t : Tables) :
    Orderly (OutboxRepository.ensureEnqueued r t) := by
  unfold OutboxRepository.ensureEnqueued
  split
  · exact .ite nofun (.ok _)
  · split
    · exact .ite nofun (.ok _)
    · unfold OutboxRepository.insertRow
      split
      · exact nofun
      · exact .ok _

end EdgeClient.App
