import EdgeClient.Vision.ProcessorRules

/-!
# A frame keeps the gallery

A comparison overwrites the buffer of the matcher and nothing else. Whatever a call of the
processor does, and wherever it throws, the contents of the gallery stay.
-/

namespace EdgeClient.Vision.AttendanceProcessor

open Basis

variable {F D : Type} [FloatOps F] [FloatOps D] [FloatPair F D]
  {evaluate : BiometricEvaluators F} {utcMs : ℕ → ℤ} {f : FaceTrackingFrame F} {now : ℤ}
  {gallery : GalleryMatcher F} {p : Impl F D}

/-- The program keeps the contents of the gallery, also when it throws. -/
def KeepsGallery {α : Type} (gallery : GalleryMatcher F) (m : Processor F D α) : Prop :=
  ∀ p : Impl F D, p.gallery.Same gallery →
    wp m (fun _ q => q.gallery.Same gallery) (fun q => q.gallery.Same gallery) p

namespace KeepsGallery

variable {α β : Type}

omit [FloatPair F D] in
/-- Returning a value changes nothing. -/
theorem pure (a : α) : KeepsGallery gallery (Pure.pure a : Processor F D α) := fun _ h => h

omit [FloatPair F D] in
/-- Throwing leaves the gallery as it is. -/
theorem throw (e : String) : KeepsGallery gallery (MonadExcept.throw e : Processor F D α) :=
  fun _ h => h

omit [FloatPair F D] in
/-- Reading the state changes nothing. -/
theorem get : KeepsGallery gallery (MonadState.get : Processor F D (Impl F D)) := fun _ h => h

omit [FloatPair F D] in
/-- A change of the other fields keeps the gallery. -/
theorem ofModify {g : Impl F D → Impl F D} (hg : ∀ p, (g p).gallery = p.gallery) :
    KeepsGallery gallery (modify g : Processor F D PUnit) := by
  intro p h
  rw [wp_modify, hg]
  exact h

omit [FloatPair F D] in
/-- Two computations that keep the gallery do so one after the other. -/
theorem bind {m : Processor F D α} {g : α → Processor F D β} (hm : KeepsGallery gallery m)
    (hg : ∀ a, KeepsGallery gallery (g a)) : KeepsGallery gallery (m >>= g) := by
  intro p h
  rw [wp_bind]
  exact wp_mono (hm p h) (fun a q hq => hg a q hq) fun _ => id

omit [FloatPair F D] in
/-- A choice keeps the gallery, if both its branches do. -/
theorem ite {c : Prop} [Decidable c] {m m' : Processor F D α} (hm : KeepsGallery gallery m)
    (hm' : KeepsGallery gallery m') : KeepsGallery gallery (if c then m else m') := by
  split
  · exact hm
  · exact hm'

omit [FloatPair F D] in
/-- A loop keeps the gallery, if each of its steps does. -/
theorem foldlM {step : β → α → Processor F D β} (hstep : ∀ b a, KeepsGallery gallery (step b a))
    (l : List α) (b : β) : KeepsGallery gallery (l.foldlM step b) := by
  induction l generalizing b with
  | nil => exact .pure b
  | cons a l ih =>
    rw [List.foldlM_cons]
    exact (hstep b a).bind fun b' => ih b'

omit [FloatPair F D] in
/-- A computation on the state of a track. -/
theorem atTrack (id : ℕ) (m : EStateM String (State F D) α) :
    KeepsGallery gallery (AttendanceProcessor.atTrack id m) := by
  intro p h
  rw [wp_atTrack]
  refine ⟨fun _ => h, fun s _ => ?_⟩
  unfold wp
  cases m s with
  | ok a s => exact h
  | error e s => exact h

end KeepsGallery

omit [FloatPair F D] in
/-- The checks at the start of a frame and its bookkeeping keep the gallery. -/
theorem keepsGallery_beginFrame : KeepsGallery gallery (beginFrame (D := D) f now) :=
  .bind .get fun _ => .ite (.throw _) (.ite (.throw _) (.bind (.ofModify fun _ => rfl) fun _ =>
    .ofModify fun _ => rfl))

/-- Scheduling a track writes to this track only. -/
theorem keepsGallery_scheduleTrack (padTracks : List (TrackResult F)) (t : TrackResult F) :
    KeepsGallery gallery (scheduleTrack (D := D) now padTracks t) := by
  intro p h
  rw [wp_scheduleTrack]
  exact h

omit [FloatPair F D] in
/-- The liveness stage writes to the checked tracks and to its counters only. -/
theorem keepsGallery_checkPad (padTracks : List (TrackResult F)) :
    KeepsGallery gallery (checkPad (D := D) evaluate f now padTracks) := by
  refine .ite (.pure _) (.bind (.ofModify fun _ => rfl) fun _ => ?_)
  cases evaluate.pad f.gpuFrame (padTracks.map (·.observation)) with
  | error e => exact .throw e
  | ok results =>
    exact .ite (.throw _) (.foldlM (fun _ entry => .bind .get fun _ => .atTrack _ _) _ _)

/-- A query of the gallery may sort its scratch space, and keeps the templates. -/
theorem keepsGallery_matchGallery (query : Embedding F) :
    KeepsGallery gallery (matchGallery (D := D) query) := by
  intro p h
  rw [wp_matchGallery]
  cases hmatch : p.gallery.match D query with
  | error e => exact h
  | ok out => exact (GalleryMatcher.same_of_match hmatch).trans h

/-- Recording a recognition writes to one track and to the journal of events. -/
theorem keepsGallery_recordRecognition (events : List (AttendanceEvent F))
    (entry : TrackResult F × ArcFaceResult F) :
    KeepsGallery gallery (recordRecognition (D := D) utcMs f now events entry) := by
  refine .bind .get fun p => .bind (.atTrack _ _) fun mean => .bind (keepsGallery_matchGallery mean)
    fun m => .bind (.atTrack _ _) fun s => .ite ?_ (.pure _)
  exact .bind (.ofModify fun _ => rfl) fun _ => .pure _

/-- The recognition stage keeps the gallery: its loop does so for each result. -/
theorem keepsGallery_recognizeTracks (arcTracks : List (TrackResult F)) :
    KeepsGallery gallery (recognizeTracks (D := D) evaluate utcMs f now arcTracks) := by
  refine .ite (.pure _) (.bind (.ofModify fun _ => rfl) fun _ => ?_)
  cases evaluate.recognize f.gpuFrame (arcTracks.map (·.observation)) with
  | error e => exact .throw e
  | ok results => exact .ite (.throw _) (.foldlM keepsGallery_recordRecognition _ _)

/-- A frame keeps the contents of the gallery, whether it returns or throws. -/
theorem keepsGallery_process : KeepsGallery gallery (process (D := D) evaluate utcMs f now) :=
  .bind (.ofModify fun _ => rfl) fun _ => .bind keepsGallery_beginFrame fun _ =>
    .bind (.foldlM keepsGallery_scheduleTrack _ _) fun padTracks =>
    .bind (keepsGallery_checkPad padTracks) fun _ =>
    .bind (.foldlM (fun _ _ => .bind .get fun _ => .atTrack _ _) _ _) fun arcTracks =>
    .bind (keepsGallery_recognizeTracks arcTracks) fun _ =>
    .bind (.foldlM (fun _ _ => .atTrack _ _) _ _) fun _ => .pure _

end EdgeClient.Vision.AttendanceProcessor
