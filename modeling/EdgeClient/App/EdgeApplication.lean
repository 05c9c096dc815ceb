import EdgeClient.App.AttendanceCoordinator
import EdgeClient.Basis.Runs
import EdgeClient.Vision.GalleryContents

/-!
# The main loop

The owner thread runs one loop. It saves the records of the last frame before it does
anything else, then looks for a new gallery, then waits for a frame and stages its events.
The worker replaces the stored gallery and sets a flag afterwards; another thread asks the
loop to stop. The steps of the owner are those between which another thread may act: every
access to the database and to a flag, and every change of the state of the loop.
-/

namespace EdgeClient.App

open Basis Vision Storage Sync

variable {F D : Type} [FloatOps F] [FloatOps D]

/-- What the processing of a frame returned, with the gallery at that time. -/
structure Processed (F : Type) where
  /-- The new events. -/
  events : List (AttendanceEvent F)
  /-- The snapshot that was installed. -/
  gallery : GallerySnapshot F
  /-- The matcher in front of the call. -/
  matcher : GalleryMatcher F

/-- Where the owner thread is in `run`. Between two places stands one access to something that
another thread can see. -/
inductive Place (F : Type)
  /-- In front of the test of `stopping`. -/
  | loopTest
  /-- In front of the test for pending records and of the time of the next attempt. -/
  | pendingTest
  /-- In front of `commit_next`. -/
  | commit
  /-- In front of `take_gallery_dirty`. -/
  | takeDirty
  /-- The flag was set: in front of the assignment to `gallery_reload`. -/
  | setReload
  /-- In front of the test of `gallery_reload`. -/
  | reloadTest
  /-- At the beginning of `refresh_gallery`. -/
  | load
  /-- The snapshot is loaded. -/
  | install (snapshot : GallerySnapshot F)
  /-- Its templates are installed. -/
  | publish (snapshot : GallerySnapshot F)
  /-- `refresh_gallery` has returned. -/
  | clearReload
  /-- `refresh_gallery` has thrown. -/
  | installFailed (e : Thrown)
  /-- In front of `wait_for_frame`. -/
  | waitFrame
  /-- The frame is processed: in front of `stage`. -/
  | stage (frame : Processed F)
  /-- Behind the loop. -/
  | finish
  /-- `run` has returned. -/
  | returned
  /-- `run` has thrown. -/
  | thrown (e : Thrown)

/-- What `run` writes about records and galleries. Lines on the console that say nothing about
either are left out. -/
inductive Report
  /-- `COMMITTED`. -/
  | committed (eventId : String)
  /-- `PERSISTENCE_RECOVERED`. -/
  | persistenceRecovered
  /-- `PERSISTENCE_BLOCKED`, with the number of uncommitted records. -/
  | persistenceBlocked (uncommitted : ℕ)
  /-- `Gallery applied`, with the number of templates. -/
  | galleryApplied (templates : ℕ)
  /-- `GALLERY_INSTALL_FAILED`. -/
  | galleryInstallFailed
  deriving DecidableEq

/-- An event that was passed to `stage`, with its origin. -/
structure Handed (F : Type) where
  /-- The event. -/
  event : AttendanceEvent F
  /-- The random bytes for its identifier. -/
  random : Option (Fin 16 → UInt8)
  /-- The frame that it comes from. -/
  frame : Processed F
  /-- The iteration of the loop that called `stage`. -/
  iteration : ℕ

/-- A staged record with the event that the coordinator made it of. -/
structure Staged (F : Type) extends Handed F where
  /-- The record. -/
  record : AttendanceRecord

/-- What `envelope` makes of an event that was passed to `stage`. -/
def Handed.envelope {E : Type} [FloatOps E] [FloatPair F E] (w : Wire E) (device version : String)
    (x : Handed F) : Except Thrown AttendanceRecord :=
  Sync.envelope w x.random (AttendanceCoordinator.observation x.event) device version

/-- The application while `run` is active. The fields from `installed` on only record what
happens; no step of the program reads them. -/
structure EdgeApplication (F D : Type) [FloatOps F] [FloatOps D] where
  /-- The outbox. -/
  tables : Tables
  /-- The stored gallery. -/
  gallery : GalleryTables F
  /-- `dirty_` of the gallery sync. -/
  dirty : Bool
  /-- The worker has committed a gallery and not yet set the flag. -/
  replaced : Bool
  /-- `stopping`. -/
  stopping : Bool
  /-- The steady clock in milliseconds. -/
  clock : ℤ
  /-- The coordinator. -/
  coordinator : AttendanceCoordinator
  /-- The processor. -/
  processor : AttendanceProcessor.Impl F D
  /-- `persist_due`. -/
  persistDue : ℤ
  /-- `persistence_blocked`. -/
  persistenceBlocked : Bool
  /-- `gallery_reload`. -/
  galleryReload : Bool
  /-- `gallery_retry_due`. -/
  galleryRetryDue : ℤ
  /-- The output. -/
  output : List Report
  /-- The next step of the owner. -/
  place : Place F
  /-- The snapshot whose templates were installed last. -/
  installed : GallerySnapshot F
  /-- Every stored gallery, the last one at the end. -/
  stored : List (GallerySnapshot F)
  /-- A replacement of the gallery was applied but reported as failed, and no later one was
  reported as committed. -/
  unreported : Bool
  /-- Every event that was passed to a `stage` that returned. -/
  handed : List (Handed F)
  /-- The events that were passed to a `stage` that threw. -/
  dropped : List (Handed F)
  /-- Every staged record. -/
  staged : List (Staged F)
  /-- Every record that `commit_next` returned. -/
  committed : List AttendanceRecord
  /-- How often the loop was entered. -/
  iterations : ℕ
  /-- The number of entries when `stopping` was set. -/
  stoppedIn : Option ℕ

/-- What the surroundings do in a step of the owner. Everything that the owner does not decide
itself is an argument of its step. -/
structure Circumstances (F : Type) where
  /-- How an access to the database ends. -/
  outcome : Outcome := .reported
  /-- The installation is broken off, for lack of memory. -/
  interrupted : Bool := false
  /-- The evaluators of the frame. -/
  evaluate : BiometricEvaluators F := ⟨fun _ _ => .ok [], fun _ _ => .ok []⟩
  /-- Readings of the wall clock. -/
  utcMs : ℕ → ℤ := fun _ => 0
  /-- Time of the frame. -/
  frameTime : ℤ := 0
  /-- The tracked frame, if there is one in time. -/
  frame : Except String (Option (FaceTrackingFrame F)) := .ok none
  /-- The random bytes for the events of the frame. -/
  random : ℕ → Option (Fin 16 → UInt8) := fun _ => none

/-- The exception for pending records at the end. -/
def persistenceIncomplete : Thrown :=
  .runtimeError ("PERSISTENCE_INCOMPLETE: stopping with uncommitted attendance in memory; " ++
    "these events are NOT recorded and require recapture after recovery")

namespace EdgeApplication

variable [FloatPair F D] {E : Type} [FloatOps E] [FloatPair F E] (w : Wire E)

/-- The test for pending records. -/
def testPending (s : EdgeApplication F D) : EdgeApplication F D :=
  if s.coordinator.pending = [] then { s with place := .takeDirty }
  else if s.clock < s.persistDue then { s with place := .loopTest }
  else { s with place := .commit }

/-- One call of `commit_next`. A failure of the storage puts the next attempt off by a second, and
any other exception ends `run`. -/
def commitNext (o : Outcome) (s : EdgeApplication F D) : EdgeApplication F D :=
  match s.coordinator.commitNext o s.tables with
  | (.ok (some record), coordinator, tables) =>
    { s with
      coordinator, tables
      committed := s.committed ++ [record]
      output := s.output ++ [.committed record.id] }
  | (.ok none, _, _) =>
    { s with
      output := if s.persistenceBlocked then s.output ++ [.persistenceRecovered] else s.output
      persistenceBlocked := false
      place := .loopTest }
  | (.error .storageError, coordinator, tables) =>
    { s with
      coordinator, tables
      persistenceBlocked := true
      output := s.output ++ [.persistenceBlocked coordinator.pending.length]
      persistDue := s.clock + 1000
      place := .loopTest }
  | (.error e, coordinator, tables) => { s with coordinator, tables, place := .thrown e }

/-- The beginning of `refresh_gallery`. -/
def loadGallery (o : Outcome) (s : EdgeApplication F D) : EdgeApplication F D :=
  match s.coordinator.checkIdle with
  | .error e => { s with place := .installFailed e }
  | .ok () =>
    match (query o GalleryRepository.load s.gallery).1 with
    | .error e => { s with place := .installFailed e }
    | .ok snapshot => { s with place := .install snapshot }

/-- The middle of `refresh_gallery`: the matcher changes at once or not at all. An allocation that
fails in between is an interruption, and it comes before the processor is touched. -/
def installGallery (interrupted : Bool) (snapshot : GallerySnapshot F) (s : EdgeApplication F D) :
    EdgeApplication F D :=
  match s.coordinator.checkModel snapshot with
  | .error e => { s with place := .installFailed e }
  | .ok () =>
    if interrupted then { s with place := .installFailed (.runtimeError "bad allocation") }
    else match AttendanceProcessor.setGallery snapshot.templates s.processor with
      | .error e processor => { s with processor, place := .installFailed (.runtimeError e) }
      | .ok () processor => { s with processor, installed := snapshot, place := .publish snapshot }

/-- `wait_for_frame`. The timeout leads back to the loop test, and a frame is processed at once
with the gallery that is installed. -/
def waitForFrame (c : Circumstances F) (s : EdgeApplication F D) : EdgeApplication F D :=
  match c.frame with
  | .error e => { s with place := .thrown (.runtimeError e) }
  | .ok none => { s with place := .loopTest }
  | .ok (some f) =>
    match AttendanceProcessor.process c.evaluate c.utcMs f c.frameTime s.processor with
    | .error e processor => { s with processor, place := .thrown (.runtimeError e) }
    | .ok frame processor =>
      { s with
        processor
        place := .stage ⟨frame.attendanceEvents, s.installed, s.processor.gallery⟩ }

/-- The events of a frame with their random bytes. -/
def drawn (random : ℕ → Option (Fin 16 → UInt8)) (events : List (AttendanceEvent F)) :
    List (AttendanceEvent F × Option (Fin 16 → UInt8)) :=
  events.zipIdx.map fun (event, i) => (event, random i)

/-- The events of a frame as they are passed to `stage`. -/
def handedOver (random : ℕ → Option (Fin 16 → UInt8)) (frame : Processed F) (iteration : ℕ) :
    List (Handed F) :=
  (drawn random frame.events).map fun x => ⟨x.1, x.2, frame, iteration⟩

/-- One call of `stage`. The journal `handed` takes the events as they are passed in, and `staged`
pairs them with the records that the coordinator makes of them. -/
def stageFrame (random : ℕ → Option (Fin 16 → UInt8)) (frame : Processed F)
    (s : EdgeApplication F D) : EdgeApplication F D :=
  let passed := handedOver random frame s.iterations
  match s.coordinator.stage w (drawn random frame.events) with
  | .error e => { s with dropped := passed, place := .thrown e }
  | .ok coordinator =>
    { s with
      coordinator
      handed := s.handed ++ passed
      staged := s.staged ++ (passed.zip coordinator.pending).map fun (x, record) => ⟨x, record⟩
      place := .loopTest }

/-- The next step of the owner. The cases follow the body of the loop from its test to `stage`,
and the check behind it. -/
def step (c : Circumstances F) (s : EdgeApplication F D) : EdgeApplication F D :=
  match s.place with
  | .loopTest =>
    if s.stopping then { s with place := .finish }
    else { s with iterations := s.iterations + 1, place := .pendingTest }
  | .pendingTest => s.testPending
  | .commit => s.commitNext c.outcome
  | .takeDirty => { s with dirty := false, place := if s.dirty then .setReload else .reloadTest }
  | .setReload => { s with galleryReload := true, place := .reloadTest }
  | .reloadTest =>
    { s with place := if s.galleryReload ∧ s.galleryRetryDue ≤ s.clock then .load else .waitFrame }
  | .load => s.loadGallery c.outcome
  | .install snapshot => s.installGallery c.interrupted snapshot
  | .publish snapshot =>
    { s with coordinator := s.coordinator.publish snapshot, place := .clearReload }
  | .clearReload =>
    { s with
      galleryReload := false
      output := s.output ++ [.galleryApplied s.coordinator.templateCount]
      place := .waitFrame }
  | .installFailed _ =>
    { s with
      galleryRetryDue := s.clock + 5000
      output := s.output ++ [.galleryInstallFailed]
      place := .waitFrame }
  | .waitFrame => s.waitForFrame c
  | .stage frame => s.stageFrame w c.random frame
  | .finish =>
    { s with
      place := if s.coordinator.pending = [] then .returned else .thrown persistenceIncomplete }
  | .returned => s
  | .thrown _ => s

/-- What can happen. Steps of the owner, steps of the worker and the stop flag come in any
order. -/
inductive Action (F : Type)
  /-- The owner makes its next step. -/
  | step (c : Circumstances F)
  /-- The worker replaces the stored gallery, in a transaction that ends so. -/
  | replace (o : Outcome) (snapshot : GallerySnapshot F)
  /-- The worker sets the flag. -/
  | setDirty
  /-- `stopping` becomes true. -/
  | stop
  /-- Time goes by. -/
  | elapse (ms : ℕ)

/-- The worker replaces the stored gallery. Only a transaction that is reported as committed
leads to the assignment to the flag: an exception leaves the step of the worker before it. -/
def replaceGallery (o : Outcome) (snapshot : GallerySnapshot F) (s : EdgeApplication F D) :
    EdgeApplication F D :=
  match transact o (GalleryRepository.replace D snapshot) s.gallery with
  | (.error _, gallery) =>
    { s with
      gallery
      stored := s.stored ++ [GalleryRepository.load gallery]
      unreported := s.unreported ||
        appliedUnreported o (GalleryRepository.replace D snapshot) s.gallery }
  | (.ok (), gallery) =>
    { s with
      gallery
      replaced := true
      stored := s.stored ++ [GalleryRepository.load gallery]
      unreported := false }

/-- Let something happen. The worker sets the flag after a commit, before anything else. -/
def perform (w : Wire E) : Action F → EdgeApplication F D → EdgeApplication F D
  | .step c, s => s.step w c
  | .replace o snapshot, s => if s.replaced then s else s.replaceGallery o snapshot
  | .setDirty, s => if s.replaced then { s with dirty := true, replaced := false } else s
  | .stop, s =>
    if s.stopping then s else { s with stopping := true, stoppedIn := some s.iterations }
  | .elapse ms, s => { s with clock := s.clock + ms }

/-- `run` up to its loop: the stored gallery is installed before the worker starts. No other
thread exists so far, and an exception leaves `run` at once. -/
def start (cfg : BiometricAttendanceConfig F) (device modelHash : String) (clock : ℤ)
    (tables : Tables) (gallery : GalleryTables F) : Except Thrown (EdgeApplication F D) := do
  let coordinator := AttendanceCoordinator.create device modelHash
  let snapshot := GalleryRepository.load gallery
  coordinator.checkIdle
  coordinator.checkModel snapshot
  match AttendanceProcessor.setGallery snapshot.templates { cfg } with
  | .error e _ => throw (.runtimeError e)
  | .ok () processor =>
    return {
      tables, gallery, dirty := false, replaced := false, stopping := false, clock
      coordinator := coordinator.publish snapshot
      processor := finalState (AttendanceProcessor.reset processor)
      persistDue := clock, persistenceBlocked := false, galleryReload := false
      galleryRetryDue := clock, output := [], place := .loopTest, installed := snapshot
      stored := [snapshot], unreported := false, handed := [], dropped := [], staged := []
      committed := [], iterations := 0, stoppedIn := none }

/-- The application after a run. -/
def after (w : Wire E) (s : EdgeApplication F D) (actions : List (Action F)) :
    EdgeApplication F D :=
  runFrom (perform w) s actions

/-! ## What each step can do -/

variable {s : EdgeApplication F D}

omit [FloatPair F D] in
/-- The test for pending records. Without pending records the gallery comes next; with them it is
either too early or time to commit. -/
theorem testPending_cases (s : EdgeApplication F D) :
    (s.coordinator.pending = [] ∧ s.testPending = { s with place := .takeDirty }) ∨
      s.coordinator.pending ≠ [] ∧
        ((s.clock < s.persistDue ∧ s.testPending = { s with place := .loopTest }) ∨
          (s.persistDue ≤ s.clock ∧ s.testPending = { s with place := .commit })) := by
  unfold testPending
  by_cases hpending : s.coordinator.pending = []
  · exact Or.inl ⟨hpending, if_pos hpending⟩
  · rw [if_neg hpending]
    by_cases hdue : s.clock < s.persistDue
    · exact Or.inr ⟨hpending, Or.inl ⟨hdue, if_pos hdue⟩⟩
    · exact Or.inr ⟨hpending, Or.inr ⟨not_lt.mp hdue, if_neg hdue⟩⟩

omit [FloatPair F D] in
/-- One call of `commit_next`: the first pending record is committed, there is none, or the
transaction failed. -/
theorem commitNext_cases (o : Outcome) (s : EdgeApplication F D) :
    (∃ record rest tables, s.coordinator.pending = record :: rest ∧
        transact o (OutboxRepository.ensureEnqueued record) s.tables = (.ok (), tables) ∧
        s.commitNext o = { s with
          coordinator := { s.coordinator with pending := rest }
          tables
          committed := s.committed ++ [record]
          output := s.output ++ [.committed record.id] }) ∨
      (s.coordinator.pending = [] ∧ s.commitNext o = { s with
          output := if s.persistenceBlocked then s.output ++ [.persistenceRecovered] else s.output
          persistenceBlocked := false
          place := .loopTest }) ∨
      ∃ record rest e tables, s.coordinator.pending = record :: rest ∧
        transact o (OutboxRepository.ensureEnqueued record) s.tables = (.error e, tables) ∧
        ((e = .storageError ∧ s.commitNext o = { s with
            tables
            persistenceBlocked := true
            output := s.output ++ [.persistenceBlocked s.coordinator.pending.length]
            persistDue := s.clock + 1000
            place := .loopTest }) ∨
          (e ≠ .storageError ∧ s.commitNext o = { s with tables, place := .thrown e })) := by
  unfold commitNext AttendanceCoordinator.commitNext
  cases hpending : s.coordinator.pending with
  | nil => exact Or.inr (Or.inl ⟨rfl, rfl⟩)
  | cons record rest =>
    cases htransact : transact o (OutboxRepository.ensureEnqueued record) s.tables with
    | mk result tables =>
      cases result with
      | ok result =>
        obtain ⟨⟩ := result
        exact Or.inl ⟨record, rest, tables, rfl, htransact, by simp only [htransact]⟩
      | error e =>
        refine Or.inr (Or.inr ⟨record, rest, e, tables, rfl, htransact, ?_⟩)
        cases e with
        | storageError => exact Or.inl ⟨rfl, by simp only [htransact, hpending]⟩
        | invalidArgument what => exact Or.inr ⟨nofun, by simp only [htransact]⟩
        | runtimeError what => exact Or.inr ⟨nofun, by simp only [htransact]⟩
        | logicError what => exact Or.inr ⟨nofun, by simp only [htransact]⟩

omit [FloatPair F D] in
/-- The beginning of `refresh_gallery` without pending records. The check for pending records has
been passed, so only the database can fail. -/
theorem loadGallery_cases (o : Outcome) (hpending : s.coordinator.pending = []) :
    s.loadGallery o = { s with place := .installFailed .storageError } ∨
      s.loadGallery o = { s with place := .install (GalleryRepository.load s.gallery) } := by
  unfold loadGallery AttendanceCoordinator.checkIdle
  rw [if_neg (not_not.mpr hpending)]
  cases o with
  | reported => exact Or.inr rfl
  | rolledBack => exact Or.inl rfl
  | uncertain => exact Or.inl rfl

/-- The middle of `refresh_gallery`: it fails without an effect, or the matcher is that of the
snapshot. -/
theorem installGallery_cases (interrupted : Bool) (snapshot : GallerySnapshot F)
    (s : EdgeApplication F D) :
    (∃ what, s.installGallery interrupted snapshot =
        { s with place := .installFailed (.runtimeError what) }) ∨
      ∃ matcher, GalleryMatcher.replace D snapshot.templates = .ok matcher ∧
        s.installGallery interrupted snapshot = { s with
          processor := { s.processor with
            gallery := matcher, states := fun _ => none, tick := 0, lastFrame := 0 }
          installed := snapshot
          place := .publish snapshot } := by
  unfold installGallery
  cases hmodel : s.coordinator.checkModel snapshot with
  | error e =>
    unfold AttendanceCoordinator.checkModel at hmodel
    split at hmodel
    · cases hmodel
      exact Or.inl ⟨_, rfl⟩
    · cases hmodel
  | ok _ =>
    cases interrupted with
    | true => exact Or.inl ⟨_, rfl⟩
    | false =>
      cases hmatcher : GalleryMatcher.replace D snapshot.templates with
      | error e =>
        have hset : AttendanceProcessor.setGallery snapshot.templates s.processor =
            .error e s.processor := by
          unfold AttendanceProcessor.setGallery
          rw [hmatcher]
          rfl
        refine Or.inl ⟨e, ?_⟩
        rw [hset]
        rfl
      | ok matcher =>
        have hset : AttendanceProcessor.setGallery snapshot.templates s.processor =
            .ok () { s.processor with
              gallery := matcher, states := fun _ => none, tick := 0, lastFrame := 0 } := by
          unfold AttendanceProcessor.setGallery
          rw [hmatcher]
          rfl
        refine Or.inr ⟨matcher, rfl, ?_⟩
        rw [hset]
        rfl

/-- Waiting for a frame: none comes, `run` throws, or the frame is processed. In no case does the
gallery in the matcher change its contents. -/
theorem waitForFrame_cases (c : Circumstances F) (s : EdgeApplication F D) :
    s.waitForFrame c = { s with place := .loopTest } ∨
      (∃ what processor, processor.gallery.Same s.processor.gallery ∧ s.waitForFrame c =
        { s with processor, place := .thrown (.runtimeError what) }) ∨
      ∃ events processor, processor.gallery.Same s.processor.gallery ∧
        s.waitForFrame c = { s with
          processor, place := .stage ⟨events, s.installed, s.processor.gallery⟩ } := by
  unfold waitForFrame
  cases c.frame with
  | error e => exact Or.inr (Or.inl ⟨e, s.processor, .refl _, rfl⟩)
  | ok next =>
    cases next with
    | none => exact Or.inl rfl
    | some f =>
      have hprogram : AttendanceProcessor.KeepsGallery s.processor.gallery
          (AttendanceProcessor.process (D := D) c.evaluate c.utcMs f c.frameTime) :=
        AttendanceProcessor.keepsGallery_process
      have hkeeps := hprogram s.processor (.refl s.processor.gallery)
      cases hprocess : AttendanceProcessor.process c.evaluate c.utcMs f c.frameTime s.processor with
      | error e processor =>
        have hsame := wp_error hkeeps hprocess
        exact Or.inr (Or.inl ⟨e, processor, hsame, by simp only [hprocess]⟩)
      | ok frame processor =>
        have hsame := wp_ok hkeeps hprocess
        exact Or.inr (Or.inr ⟨frame.attendanceEvents, processor, hsame, by simp only [hprocess]⟩)

omit [FloatPair F D] in
/-- Staging the events of a frame without pending records: the record of one of them cannot
be made, or each event has its record. -/
theorem stageFrame_cases (random : ℕ → Option (Fin 16 → UInt8)) (frame : Processed F)
    (hpending : s.coordinator.pending = []) :
    let passed := handedOver random frame s.iterations
    (∃ e, (∀ what, e ≠ .logicError what) ∧
        (∃ x ∈ passed, x.envelope w s.coordinator.device s.coordinator.version = .error e) ∧
        s.stageFrame w random frame = { s with dropped := passed, place := .thrown e }) ∨
      ∃ next, List.Forall₂ (fun (x : Handed F) record =>
          x.envelope w s.coordinator.device s.coordinator.version = .ok record) passed next ∧
        s.stageFrame w random frame = { s with
          coordinator := { s.coordinator with pending := next }
          handed := s.handed ++ passed
          staged := s.staged ++ (passed.zip next).map fun (x, record) => ⟨x, record⟩
          place := .loopTest } := by
  intro passed
  unfold stageFrame AttendanceCoordinator.stage
  rw [if_neg (not_not.mpr hpending)]
  cases hrecords : AttendanceCoordinator.records w s.coordinator.device s.coordinator.version
      (drawn random frame.events) with
  | error e =>
    have horderly : Orderly (AttendanceCoordinator.records w s.coordinator.device
        s.coordinator.version (drawn random frame.events)) :=
      Orderly.mapM fun x _ => orderly_envelope w x.2 _ _ _
    obtain ⟨x, hx, hfailed⟩ := mapM_error hrecords
    refine Or.inl ⟨e, fun what he => horderly what (he ▸ hrecords), ?_, rfl⟩
    exact ⟨⟨x.1, x.2, frame, s.iterations⟩, List.mem_map.mpr ⟨x, hx, rfl⟩, hfailed⟩
  | ok next =>
    refine Or.inr ⟨next, ?_, rfl⟩
    exact List.forall₂_map_left_iff.mpr (mapM_eq_ok.mp hrecords)

end EdgeApplication

end EdgeClient.App
