import EdgeClient.App.EdgeApplication
import EdgeClient.Vision.InterruptedFrames

/-!
# Records and their gallery

The version in the coordinator, the templates in the matcher and the stored gallery change at
three moments, and another thread may act between any two of them. Two invariants carry the
argument. The first ties the version to the matcher: the two differ only between the
installation of a gallery and the publication of its version, and there no frame is taken. The
second ties the records to the events: every event that was passed to `stage` has one record,
in the same order, and the records that are not committed yet are the pending ones.
-/

namespace EdgeClient.App

open Basis Vision Storage Sync

variable {F D : Type} [FloatOps F] [FloatOps D] [FloatPair F D]
variable {E : Type} [FloatOps E] [FloatPair F E]

/-- The matcher has the templates of the snapshot. -/
def HoldsTemplates (D : Type) [FloatOps D] [FloatPair F D] (matcher : GalleryMatcher F)
    (snapshot : GallerySnapshot F) : Prop :=
  ∃ loaded, GalleryMatcher.replace D snapshot.templates = .ok loaded ∧ matcher.Same loaded

/-- The record was made of an event of its frame and names the gallery that the frame was
compared with, and that gallery was once the stored one. -/
structure Staged.Attributed (D : Type) [FloatOps D] [FloatPair F D] (w : Wire E) (device : String)
    (stored : List (GallerySnapshot F)) (x : Staged F) : Prop where
  /-- The event belongs to the frame. -/
  event : x.event ∈ x.frame.events
  /-- The record names the version of the gallery. -/
  version : envelope w x.random (AttendanceCoordinator.observation x.event) device
    x.frame.gallery.version = .ok x.record
  /-- The templates of the gallery were in the matcher. -/
  templates : HoldsTemplates D x.frame.matcher x.frame.gallery
  /-- The gallery was stored. -/
  stored : x.frame.gallery ∈ stored

/-- Whether a frame is taken, or a gallery installed, from here on without a look at the
pending records. -/
def Place.open : Place F → Bool
  | .loopTest | .pendingTest | .commit | .finish | .thrown _ => false
  | _ => true

namespace EdgeApplication

/-- The coordinator knows the gallery in the matcher. -/
def Published (s : EdgeApplication F D) : Prop :=
  s.coordinator.version = s.installed.version ∧
    s.coordinator.templateCount = s.installed.templates.length

/-- What the place of the owner says about the gallery. -/
def PlaceSound (s : EdgeApplication F D) : Place F → Prop
  | .install snapshot => s.Published ∧ snapshot ∈ s.stored
  | .publish snapshot => snapshot = s.installed
  | .stage frame => s.Published ∧ frame.gallery = s.installed ∧
      HoldsTemplates D frame.matcher frame.gallery
  | .installFailed e => s.Published ∧ ∀ what, e ≠ .logicError what
  | .thrown e => s.Published ∧ ∀ what, e ≠ .logicError what
  | _ => s.Published

/-- The matcher, the version and the staged records belong together. The fields are related
through the snapshot that was installed last. -/
structure Sound (w : Wire E) (device : String) (s : EdgeApplication F D) : Prop where
  /-- The device does not change. -/
  sameDevice : s.coordinator.device = device
  /-- The installed gallery is in the matcher. -/
  matcher : HoldsTemplates D s.processor.gallery s.installed
  /-- It was stored once. -/
  origin : s.installed ∈ s.stored
  /-- The stored gallery is the last one. -/
  current : GalleryRepository.load s.gallery ∈ s.stored
  /-- Every record names its gallery. -/
  staged : ∀ x ∈ s.staged, x.Attributed D w device s.stored
  /-- The place of the owner fits. -/
  place : s.PlaceSound s.place
  /-- There are no pending records where they are not looked for. -/
  idle : s.place.open = true → s.coordinator.pending = []

namespace Sound

variable {w : Wire E} {device : String} {s : EdgeApplication F D}

/-- The test for pending records concerns neither gallery nor records. The three cases differ only
in the place, and in what is known about pending records there. -/
theorem testPending (h : Sound w device s) (hpublished : s.Published) :
    Sound w device s.testPending := by
  rcases s.testPending_cases with ⟨hpending, heq⟩ | ⟨-, ⟨-, heq⟩ | ⟨-, heq⟩⟩
  · rw [heq]
    exact ⟨h.sameDevice, h.matcher, h.origin, h.current, h.staged, hpublished, fun _ => hpending⟩
  · rw [heq]
    exact ⟨h.sameDevice, h.matcher, h.origin, h.current, h.staged, hpublished, nofun⟩
  · rw [heq]
    exact ⟨h.sameDevice, h.matcher, h.origin, h.current, h.staged, hpublished, nofun⟩

/-- Committing a record changes no gallery, and the exception that leaves it is no
`logic_error`. -/
theorem commitNext (h : Sound w device s) (hplace : s.place = .commit) (o : Outcome) :
    Sound w device (s.commitNext o) := by
  have hpublished : s.Published := by
    have hsound := h.place
    rw [hplace] at hsound
    exact hsound
  rcases s.commitNext_cases o with ⟨record, rest, tables, -, -, heq⟩ | ⟨-, heq⟩ |
    ⟨record, rest, e, tables, -, htransact, ⟨-, heq⟩ | ⟨hne, heq⟩⟩
  · rw [heq]
    refine ⟨h.sameDevice, h.matcher, h.origin, h.current, h.staged, ?_, ?_⟩
    · rw [hplace]
      exact hpublished
    · rw [hplace]
      exact nofun
  · rw [heq]
    exact ⟨h.sameDevice, h.matcher, h.origin, h.current, h.staged, hpublished, nofun⟩
  · rw [heq]
    exact ⟨h.sameDevice, h.matcher, h.origin, h.current, h.staged, hpublished, nofun⟩
  · rw [heq]
    refine ⟨h.sameDevice, h.matcher, h.origin, h.current, h.staged, ⟨hpublished, ?_⟩, nofun⟩
    rintro what rfl
    rcases transact_error htransact with hthrown | hstorage
    · exact orderly_ensureEnqueued record s.tables what hthrown
    · exact hne hstorage

/-- Loading returns a gallery that was stored, and changes nothing yet. The snapshot travels in
the place until it is installed. -/
theorem loadGallery (h : Sound w device s) (hpublished : s.Published)
    (hpending : s.coordinator.pending = []) (o : Outcome) : Sound w device (s.loadGallery o) := by
  rcases loadGallery_cases o hpending with heq | heq
  · rw [heq]
    exact ⟨h.sameDevice, h.matcher, h.origin, h.current, h.staged, ⟨hpublished, nofun⟩,
      fun _ => hpending⟩
  · rw [heq]
    exact ⟨h.sameDevice, h.matcher, h.origin, h.current, h.staged, ⟨hpublished, h.current⟩,
      fun _ => hpending⟩

/-- An installation that succeeds changes matcher and snapshot together; the version follows
in the next step. -/
theorem installGallery (h : Sound w device s) (hpublished : s.Published)
    (hpending : s.coordinator.pending = []) (interrupted : Bool) {snapshot : GallerySnapshot F}
    (hstored : snapshot ∈ s.stored) : Sound w device (s.installGallery interrupted snapshot) := by
  rcases s.installGallery_cases interrupted snapshot with ⟨what, heq⟩ | ⟨matcher, hmatcher, heq⟩
  · rw [heq]
    exact ⟨h.sameDevice, h.matcher, h.origin, h.current, h.staged, ⟨hpublished, nofun⟩,
      fun _ => hpending⟩
  · rw [heq]
    exact ⟨h.sameDevice, ⟨matcher, hmatcher, .refl matcher⟩, hstored, h.current, h.staged, rfl,
      fun _ => hpending⟩

/-- A frame is processed with the installed gallery, which stays in the matcher. Nothing is
pending here, so that the events of the frame are the next ones to be staged. -/
theorem waitForFrame (h : Sound w device s) (hpublished : s.Published)
    (hpending : s.coordinator.pending = []) (c : Circumstances F) :
    Sound w device (s.waitForFrame c) := by
  obtain ⟨loaded, hloaded, hsame⟩ := h.matcher
  rcases s.waitForFrame_cases c with heq | ⟨what, processor, hgallery, heq⟩ |
    ⟨events, processor, hgallery, heq⟩
  · rw [heq]
    exact ⟨h.sameDevice, h.matcher, h.origin, h.current, h.staged, hpublished, fun _ => hpending⟩
  · rw [heq]
    exact ⟨h.sameDevice, ⟨loaded, hloaded, hgallery.trans hsame⟩, h.origin, h.current, h.staged,
      ⟨hpublished, nofun⟩, nofun⟩
  · rw [heq]
    exact ⟨h.sameDevice, ⟨loaded, hloaded, hgallery.trans hsame⟩, h.origin, h.current, h.staged,
      ⟨hpublished, rfl, h.matcher⟩, fun _ => hpending⟩

omit [FloatOps F] [FloatPair F D] in
/-- What is passed to `stage` belongs to the frame, event by event. -/
theorem of_mem_handedOver {random : ℕ → Option (Fin 16 → UInt8)} {frame : Processed F}
    {iteration : ℕ} {x : Handed F} (hx : x ∈ handedOver random frame iteration) :
    x.event ∈ frame.events ∧ x.frame = frame ∧ x.iteration = iteration := by
  obtain ⟨drawing, hdrawing, rfl⟩ := List.mem_map.mp hx
  obtain ⟨⟨event, i⟩, hmem, rfl⟩ := List.mem_map.mp hdrawing
  exact ⟨List.fst_mem_of_mem_zipIdx hmem, rfl, rfl⟩

/-- Staging makes the records with the published version, which is that of the gallery that
the frame was compared with. -/
theorem stageFrame (h : Sound w device s) {frame : Processed F} (hplace : s.place = .stage frame)
    (random : ℕ → Option (Fin 16 → UInt8)) : Sound w device (s.stageFrame w random frame) := by
  have hsound := h.place
  rw [hplace] at hsound
  obtain ⟨hpublished, hgallery, htemplates⟩ := hsound
  have hpending : s.coordinator.pending = [] := h.idle (by rw [hplace]; rfl)
  rcases stageFrame_cases w random frame hpending with ⟨e, he, -, heq⟩ | ⟨next, hnext, heq⟩
  · rw [heq]
    exact ⟨h.sameDevice, h.matcher, h.origin, h.current, h.staged, ⟨hpublished, he⟩, nofun⟩
  · rw [heq]
    refine ⟨h.sameDevice, h.matcher, h.origin, h.current, fun x hx => ?_, hpublished, nofun⟩
    rcases List.mem_append.mp hx with hold | hnew
    · exact h.staged x hold
    · obtain ⟨⟨handed, record⟩, hzip, rfl⟩ := List.mem_map.mp hnew
      have hrecord : handed.envelope w s.coordinator.device s.coordinator.version = .ok record :=
        (List.forall₂_iff_zip.mp hnext).2 hzip
      obtain ⟨hevent, hframe, -⟩ := of_mem_handedOver (List.of_mem_zip hzip).1
      subst hframe
      rw [h.sameDevice, hpublished.1, ← hgallery] at hrecord
      exact ⟨hevent, hrecord, htemplates, hgallery ▸ h.origin⟩

/-- Every step of the owner keeps the records and the gallery together. Each place of the loop has
its own lemma. -/
theorem step (h : Sound w device s) (c : Circumstances F) : Sound w device (s.step w c) := by
  have hsound := h.place
  have hidle := h.idle
  unfold EdgeApplication.step
  cases hplace : s.place with
  | loopTest =>
    rw [hplace] at hsound
    dsimp only
    split
    · exact ⟨h.sameDevice, h.matcher, h.origin, h.current, h.staged, hsound, nofun⟩
    · exact ⟨h.sameDevice, h.matcher, h.origin, h.current, h.staged, hsound, nofun⟩
  | pendingTest =>
    rw [hplace] at hsound
    exact h.testPending hsound
  | commit => exact h.commitNext hplace c.outcome
  | takeDirty =>
    rw [hplace] at hsound hidle
    refine ⟨h.sameDevice, h.matcher, h.origin, h.current, h.staged, ?_, fun _ => hidle rfl⟩
    cases s.dirty with
    | true => exact hsound
    | false => exact hsound
  | setReload =>
    rw [hplace] at hsound hidle
    exact ⟨h.sameDevice, h.matcher, h.origin, h.current, h.staged, hsound, fun _ => hidle rfl⟩
  | reloadTest =>
    rw [hplace] at hsound hidle
    refine ⟨h.sameDevice, h.matcher, h.origin, h.current, h.staged, ?_, fun _ => hidle rfl⟩
    dsimp only
    split
    · exact hsound
    · exact hsound
  | load =>
    rw [hplace] at hsound hidle
    exact h.loadGallery hsound (hidle rfl) c.outcome
  | install snapshot =>
    rw [hplace] at hsound hidle
    exact h.installGallery hsound.1 (hidle rfl) c.interrupted hsound.2
  | publish snapshot =>
    rw [hplace] at hsound hidle
    have hinstalled : snapshot = s.installed := hsound
    exact ⟨h.sameDevice, h.matcher, h.origin, h.current, h.staged,
      ⟨congrArg (·.version) hinstalled, congrArg (·.templates.length) hinstalled⟩,
      fun _ => hidle rfl⟩
  | clearReload =>
    rw [hplace] at hsound hidle
    exact ⟨h.sameDevice, h.matcher, h.origin, h.current, h.staged, hsound, fun _ => hidle rfl⟩
  | installFailed e =>
    rw [hplace] at hsound hidle
    exact ⟨h.sameDevice, h.matcher, h.origin, h.current, h.staged, hsound.1, fun _ => hidle rfl⟩
  | waitFrame =>
    rw [hplace] at hsound hidle
    exact h.waitForFrame hsound (hidle rfl) c
  | stage frame => exact h.stageFrame hplace c.random
  | finish =>
    rw [hplace] at hsound
    dsimp only
    split
    · rename_i hpending
      exact ⟨h.sameDevice, h.matcher, h.origin, h.current, h.staged, hsound, fun _ => hpending⟩
    · exact ⟨h.sameDevice, h.matcher, h.origin, h.current, h.staged, ⟨hsound, nofun⟩, nofun⟩
  | returned => exact h
  | thrown e => exact h

/-- However the transaction of the worker ends, the stored gallery is a new one or one that
was stored before. -/
theorem replaceGallery (h : Sound w device s) (o : Outcome) (snapshot : GallerySnapshot F) :
    Sound w device (s.replaceGallery o snapshot) := by
  have hstored : ∀ gallery, (∀ place, s.PlaceSound place → PlaceSound { s with
      stored := s.stored ++ [GalleryRepository.load gallery] } place) ∧
      ∀ x ∈ s.staged, x.Attributed D w device (s.stored ++ [GalleryRepository.load gallery]) := by
    refine fun gallery => ⟨fun place hplace => ?_, fun x hx => ?_⟩
    · cases place with
      | install other => exact ⟨hplace.1, List.mem_append_left _ hplace.2⟩
      | _ => exact hplace
    · have hx := h.staged x hx
      exact ⟨hx.event, hx.version, hx.templates, List.mem_append_left _ hx.stored⟩
  unfold EdgeApplication.replaceGallery
  cases transact o (GalleryRepository.replace D snapshot) s.gallery with
  | mk result gallery =>
    obtain ⟨hplace, hstaged⟩ := hstored gallery
    have hcurrent : GalleryRepository.load gallery ∈ s.stored ++ [GalleryRepository.load gallery] :=
      List.mem_append_right _ (List.mem_singleton_self _)
    cases result with
    | error e =>
      exact ⟨h.sameDevice, h.matcher, List.mem_append_left _ h.origin, hcurrent, hstaged,
        hplace s.place h.place, h.idle⟩
    | ok result =>
      exact ⟨h.sameDevice, h.matcher, List.mem_append_left _ h.origin, hcurrent, hstaged,
        hplace s.place h.place, h.idle⟩

/-- Whatever happens, the records and the gallery stay together. The worker changes the stored
gallery only, and the clock changes nothing here. -/
theorem perform (a : Action F) (h : Sound w device s) : Sound w device (s.perform w a) := by
  cases a with
  | step c => exact h.step c
  | replace o snapshot =>
    unfold EdgeApplication.perform
    dsimp only
    split
    · exact h
    · exact h.replaceGallery o snapshot
  | setDirty =>
    unfold EdgeApplication.perform
    dsimp only
    split
    · exact ⟨h.sameDevice, h.matcher, h.origin, h.current, h.staged, h.place, h.idle⟩
    · exact h
  | stop =>
    unfold EdgeApplication.perform
    dsimp only
    split
    · exact h
    · exact ⟨h.sameDevice, h.matcher, h.origin, h.current, h.staged, h.place, h.idle⟩
  | elapse ms => exact ⟨h.sameDevice, h.matcher, h.origin, h.current, h.staged, h.place, h.idle⟩

end Sound

/-! ## Every event has its record -/

/-- Every event that was passed to `stage` has its record, and none is lost in the loop. -/
structure Kept (w : Wire E) (device : String) (s : EdgeApplication F D) : Prop where
  /-- The staged records are those of the events passed to a `stage` that returned, in order. -/
  handed : s.staged.map (·.toHanded) = s.handed
  /-- The first ones are committed and the others are pending. -/
  records : s.staged.map (·.record) = s.committed ++ s.coordinator.pending
  /-- A `stage` that threw has ended the run, for want of the record of one of its events. -/
  dropped : s.dropped ≠ [] → ∃ e, s.place = .thrown e ∧ s.coordinator.pending = [] ∧
    ∃ x ∈ s.dropped, x.envelope w device x.frame.gallery.version = .error e

namespace Kept

variable {w : Wire E} {device : String} {s : EdgeApplication F D}

omit [FloatPair F D] in
/-- Only `stage` and `commit_next` concern the records. Where nothing was dropped, the place may
change freely. -/
theorem of_eq {t : EdgeApplication F D} (h : Kept w device s) (hhanded : t.handed = s.handed)
    (hstaged : t.staged = s.staged) (hcommitted : t.committed = s.committed)
    (hpending : t.coordinator.pending = s.coordinator.pending) (hdropped : t.dropped = s.dropped)
    (hplace : s.dropped ≠ [] → t.place = s.place) : Kept w device t := by
  refine ⟨?_, ?_, fun hsome => ?_⟩
  · rw [hstaged, hhanded]
    exact h.handed
  · rw [hstaged, hcommitted, hpending]
    exact h.records
  · rw [hdropped] at hsome ⊢
    rw [hplace hsome, hpending]
    exact h.dropped hsome

omit [FloatPair F D] in
/-- A committed record moves from the pending ones to the committed ones. A transaction that is
reported as failed changes neither of the two lists. -/
theorem commitNext (h : Kept w device s) (hnone : s.dropped = []) (o : Outcome) :
    Kept w device (s.commitNext o) := by
  rcases s.commitNext_cases o with ⟨record, rest, tables, hpending, -, heq⟩ | ⟨-, heq⟩ |
    ⟨record, rest, e, tables, -, -, ⟨-, heq⟩ | ⟨-, heq⟩⟩
  · rw [heq]
    refine ⟨h.handed, ?_, fun hsome => absurd hnone hsome⟩
    have hrecords := h.records
    rw [hpending] at hrecords
    dsimp only
    rw [hrecords, List.append_assoc, List.singleton_append]
  · rw [heq]
    exact h.of_eq rfl rfl rfl rfl rfl fun hsome => absurd hnone hsome
  · rw [heq]
    exact h.of_eq rfl rfl rfl rfl rfl fun hsome => absurd hnone hsome
  · rw [heq]
    exact h.of_eq rfl rfl rfl rfl rfl fun hsome => absurd hnone hsome

/-- Every event of the frame gets its record, or the run ends. The records of the queue are paired
with the events of the frame, and none is left over on either side. -/
theorem stageFrame (h : Kept w device s) (hsound : Sound w device s) {frame : Processed F}
    (hplace : s.place = .stage frame) (hnone : s.dropped = [])
    (random : ℕ → Option (Fin 16 → UInt8)) : Kept w device (s.stageFrame w random frame) := by
  have hstage := hsound.place
  rw [hplace] at hstage
  obtain ⟨hpublished, hgallery, -⟩ := hstage
  have hpending : s.coordinator.pending = [] := hsound.idle (by rw [hplace]; rfl)
  have hversion : s.coordinator.version = frame.gallery.version := by
    rw [hpublished.1, hgallery]
  rcases stageFrame_cases w random frame hpending with ⟨e, -, ⟨x, hx, hfailed⟩, heq⟩ |
    ⟨next, hnext, heq⟩
  · rw [heq]
    refine ⟨h.handed, h.records, fun _ => ⟨e, rfl, hpending, x, hx, ?_⟩⟩
    rw [hsound.sameDevice, hversion] at hfailed
    rw [(Sound.of_mem_handedOver hx).2.1]
    exact hfailed
  · rw [heq]
    have hlength := hnext.length_eq
    refine ⟨?_, ?_, fun hsome => absurd hnone hsome⟩
    · dsimp only
      rw [List.map_append, h.handed, List.map_map]
      exact congrArg (s.handed ++ ·) (List.map_fst_zip hlength.le)
    · dsimp only
      rw [List.map_append, h.records, hpending, List.append_nil, List.map_map]
      exact congrArg (s.committed ++ ·) (List.map_snd_zip hlength.ge)

/-- Every step of the owner keeps the records of the events. Only the commits and `stage` touch
them. -/
theorem step (h : Kept w device s) (hsound : Sound w device s) (c : Circumstances F) :
    Kept w device (s.step w c) := by
  have hidle := hsound.idle
  have hnone : (∀ e, s.place ≠ .thrown e) → s.dropped = [] := by
    intro hplace
    by_contra hsome
    obtain ⟨e, hthrown, -⟩ := h.dropped hsome
    exact hplace e hthrown
  unfold EdgeApplication.step
  cases hplace : s.place with
  | thrown e => exact h
  | commit => exact h.commitNext (hnone (by simp [hplace])) c.outcome
  | stage frame => exact h.stageFrame hsound hplace (hnone (by simp [hplace])) c.random
  | pendingTest =>
    have hnone := hnone (by simp [hplace])
    dsimp only
    rcases s.testPending_cases with ⟨-, heq⟩ | ⟨-, ⟨-, heq⟩ | ⟨-, heq⟩⟩ <;>
    · rw [heq]
      exact h.of_eq rfl rfl rfl rfl rfl fun hsome => absurd hnone hsome
  | load =>
    have hnone := hnone (by simp [hplace])
    rw [hplace] at hidle
    dsimp only
    rcases loadGallery_cases c.outcome (hidle rfl) with heq | heq <;>
    · rw [heq]
      exact h.of_eq rfl rfl rfl rfl rfl fun hsome => absurd hnone hsome
  | install snapshot =>
    have hnone := hnone (by simp [hplace])
    dsimp only
    rcases s.installGallery_cases c.interrupted snapshot with ⟨what, heq⟩ | ⟨matcher, -, heq⟩ <;>
    · rw [heq]
      exact h.of_eq rfl rfl rfl rfl rfl fun hsome => absurd hnone hsome
  | waitFrame =>
    have hnone := hnone (by simp [hplace])
    dsimp only
    rcases s.waitForFrame_cases c with heq | ⟨what, processor, -, heq⟩ |
      ⟨events, processor, -, heq⟩ <;>
    · rw [heq]
      exact h.of_eq rfl rfl rfl rfl rfl fun hsome => absurd hnone hsome
  | loopTest =>
    have hnone := hnone (by simp [hplace])
    dsimp only
    split <;>
    · exact h.of_eq rfl rfl rfl rfl rfl fun hsome => absurd hnone hsome
  | returned => exact h
  | _ =>
    have hnone := hnone (by simp [hplace])
    exact h.of_eq rfl rfl rfl rfl rfl fun hsome => absurd hnone hsome

/-- Whatever happens, every event keeps its record. The worker, the clock and the request to stop
have nothing to do with the records. -/
theorem perform (a : Action F) (h : Kept w device s) (hsound : Sound w device s) :
    Kept w device (s.perform w a) := by
  cases a with
  | step c => exact h.step hsound c
  | replace o snapshot =>
    unfold EdgeApplication.perform EdgeApplication.replaceGallery
    dsimp only
    split
    · exact h
    · cases transact o (GalleryRepository.replace D snapshot) s.gallery with
      | mk result gallery =>
        cases result with
        | error e => exact h.of_eq rfl rfl rfl rfl rfl fun _ => rfl
        | ok _ => exact h.of_eq rfl rfl rfl rfl rfl fun _ => rfl
  | setDirty =>
    unfold EdgeApplication.perform
    dsimp only
    split
    · exact h.of_eq rfl rfl rfl rfl rfl fun _ => rfl
    · exact h
  | stop =>
    unfold EdgeApplication.perform
    dsimp only
    split
    · exact h
    · exact h.of_eq rfl rfl rfl rfl rfl fun _ => rfl
  | elapse ms => exact h.of_eq rfl rfl rfl rfl rfl fun _ => rfl

end Kept

section Runs

variable {w : Wire E} {device modelHash : String} {cfg : BiometricAttendanceConfig F} {clock : ℤ}
  {tables : Tables} {gallery : GalleryTables F} {s₀ : EdgeApplication F D}

/-- The application in front of the loop: the stored gallery is installed. Everything else has its
initial value. -/
theorem start_ok (h : start cfg device modelHash clock tables gallery = .ok s₀) :
    ∃ loaded, GalleryMatcher.replace D (GalleryRepository.load gallery).templates = .ok loaded ∧
      s₀ = {
        tables, gallery, dirty := false, replaced := false, stopping := false, clock
        coordinator := (AttendanceCoordinator.create device modelHash).publish
          (GalleryRepository.load gallery)
        processor := { cfg, gallery := loaded }
        persistDue := clock, persistenceBlocked := false, galleryReload := false
        galleryRetryDue := clock, output := [], place := .loopTest
        installed := GalleryRepository.load gallery, stored := [GalleryRepository.load gallery]
        unreported := false, handed := [], dropped := [], staged := [], committed := []
        iterations := 0, stoppedIn := none } := by
  unfold start at h
  obtain ⟨⟨⟩, -, h⟩ := bind_eq_ok.mp h
  obtain ⟨⟨⟩, -, h⟩ := bind_eq_ok.mp h
  unfold AttendanceProcessor.setGallery at h
  cases hmatcher : GalleryMatcher.replace D (GalleryRepository.load gallery).templates with
  | error e =>
    rw [hmatcher] at h
    cases h
  | ok loaded =>
    rw [hmatcher] at h
    cases h
    exact ⟨loaded, rfl, rfl⟩

/-- The first state is sound: the stored gallery is in the matcher and its version is
published. -/
theorem sound_start (h : start cfg device modelHash clock tables gallery = .ok s₀) :
    Sound w device s₀ := by
  obtain ⟨loaded, hloaded, rfl⟩ := start_ok h
  exact ⟨rfl, ⟨loaded, hloaded, .refl loaded⟩, List.mem_singleton_self _, List.mem_singleton_self _,
    nofun, ⟨rfl, rfl⟩, nofun⟩

/-- In the first state no event was passed to `stage`. -/
theorem kept_start (h : start cfg device modelHash clock tables gallery = .ok s₀) :
    Kept w device s₀ := by
  obtain ⟨loaded, hloaded, rfl⟩ := start_ok h
  exact ⟨rfl, rfl, fun hsome => absurd rfl hsome⟩

/-- Both invariants hold in every state that is reached. -/
theorem sound_after (h : start cfg device modelHash clock tables gallery = .ok s₀)
    (actions : List (Action F)) :
    Sound w device (after w s₀ actions) ∧ Kept w device (after w s₀ actions) := by
  have hstep : ∀ (a : Action F) (t : EdgeApplication F D), Sound w device t ∧ Kept w device t →
      Sound w device (t.perform w a) ∧ Kept w device (t.perform w a) :=
    fun a t ht => ⟨ht.1.perform a, ht.2.perform a ht.1⟩
  exact run_preserves hstep actions ⟨sound_start h, kept_start h⟩

/-- A step with pending records leaves the processor and the gallery alone. So the gallery that
the pending records were made with is still the installed one. -/
theorem step_of_pending {s : EdgeApplication F D} (hplace : s.place.open = false)
    (c : Circumstances F) :
    (s.step w c).processor = s.processor ∧ (s.step w c).installed = s.installed := by
  unfold step
  cases hp : s.place with
  | loopTest =>
    dsimp only
    split
    · exact ⟨rfl, rfl⟩
    · exact ⟨rfl, rfl⟩
  | pendingTest =>
    dsimp only
    rcases s.testPending_cases with ⟨-, heq⟩ | ⟨-, ⟨-, heq⟩ | ⟨-, heq⟩⟩ <;>
    · rw [heq]
      exact ⟨rfl, rfl⟩
  | commit =>
    dsimp only
    rcases s.commitNext_cases c.outcome with ⟨record, rest, tables, -, -, heq⟩ | ⟨-, heq⟩ |
      ⟨record, rest, e, tables, -, -, ⟨-, heq⟩ | ⟨-, heq⟩⟩ <;>
    · rw [heq]
      exact ⟨rfl, rfl⟩
  | finish => exact ⟨rfl, rfl⟩
  | thrown e => exact ⟨rfl, rfl⟩
  | _ =>
    rw [hp] at hplace
    cases hplace

/-- Every staged record names the gallery whose templates were in the matcher when its frame
was processed, and every event that was passed to `stage` has such a record, committed or
pending; with pending records no frame is taken and no gallery is installed, and the two checks
for them never throw. -/
theorem records_name_gallery (h : start cfg device modelHash clock tables gallery = .ok s₀)
    (actions : List (Action F)) :
    let s := after w s₀ actions
    (∀ x ∈ s.staged, x.Attributed D w device s.stored) ∧
      (s.staged.map (·.toHanded) = s.handed ∧
        s.staged.map (·.record) = s.committed ++ s.coordinator.pending) ∧
      (s.coordinator.pending ≠ [] → s.place.open = false ∧ ∀ c,
        (s.step w c).processor = s.processor ∧ (s.step w c).installed = s.installed) ∧
      ∀ what, s.place ≠ .installFailed (.logicError what) ∧
        s.place ≠ .thrown (.logicError what) := by
  intro s
  obtain ⟨hsound, hkept⟩ : Sound w device s ∧ Kept w device s := sound_after h actions
  have hplace := hsound.place
  refine ⟨hsound.staged, ⟨hkept.handed, hkept.records⟩, fun hpending => ?_,
    fun what => ⟨fun heq => ?_, fun heq => ?_⟩⟩
  · have hclosed : s.place.open = false := by
      by_contra hopen
      exact hpending (hsound.idle (Bool.eq_true_of_not_eq_false hopen))
    exact ⟨hclosed, step_of_pending hclosed⟩
  · rw [heq] at hplace
    exact hplace.2 what rfl
  · rw [heq] at hplace
    exact hplace.2 what rfl

end Runs

/-! ## A visit -/

/-- A gallery with one template. -/
def visitorGallery : GallerySnapshot (Extended ℚ) :=
  ⟨"v1", "", "arcface", "hash", ["t1"], [⟨"visitor", AttendanceProcessor.firstAxis⟩]⟩

/-- Models that find every face live and recognize the visitor. -/
def visitorEvaluators : BiometricEvaluators (Extended ℚ) where
  pad _ faces := .ok (faces.map fun _ => ⟨some (lit 0.99), .live⟩)
  recognize _ faces := .ok (faces.map fun _ => ⟨AttendanceProcessor.firstAxis⟩)

/-- The frame with the visitor. -/
def visit : Circumstances (Extended ℚ) where
  evaluate := visitorEvaluators
  utcMs _ := 1000
  frameTime := 1
  frame := .ok (some AttendanceProcessor.pairedFrame)
  random _ := some fun _ => 0

/-- The application with an empty database. No gallery is stored yet, and the worker has done
nothing. -/
def begun : EdgeApplication (Extended ℚ) (Extended ℚ) where
  tables := Stored.fresh.opened
  gallery := .empty
  dirty := false
  replaced := false
  stopping := false
  clock := 0
  coordinator := .create "device" "hash"
  processor := { cfg := AttendanceProcessor.promptConfig }
  persistDue := 0
  persistenceBlocked := false
  galleryReload := false
  galleryRetryDue := 0
  output := []
  place := .loopTest
  installed := .empty
  stored := [.empty]
  unreported := false
  handed := []
  dropped := []
  staged := []
  committed := []
  iterations := 0
  stoppedIn := none

/-- It is what `run` begins with. -/
theorem start_begun : start AttendanceProcessor.promptConfig "device" "hash" 0 Stored.fresh.opened
    (.empty : GalleryTables (Extended ℚ)) = .ok begun := rfl

/-- The wire format of the sample runs. -/
def sampleWire : Wire (Extended ℚ) := .plain

/-- The worker replaces the gallery, the owner installs it and stages the visitor. -/
def visitActions : List (Action (Extended ℚ)) :=
  .replace .reported visitorGallery :: .setDirty :: List.replicate 11 (.step visit)

/-- The record of the visitor names the gallery. -/
theorem records_name_gallery_sample :
    (after sampleWire begun visitActions).staged.length = 1 ∧
      ∀ x ∈ (after sampleWire begun visitActions).staged,
        x.Attributed (Extended ℚ) sampleWire "device"
        (after sampleWire begun visitActions).stored :=
  ⟨by decide +kernel, (records_name_gallery start_begun visitActions).1⟩

end EdgeApplication

end EdgeClient.App
