import EdgeClient.Basis.Runs
import EdgeClient.Pipeline.Session
import EdgeClient.Vision.InterruptedFrames

/-!
# The order of camera frames

Every callback of the camera draws an identifier and publishes its frame later, in two
atomic steps, and callbacks may overlap. The reader takes the published frame whenever its
identifier differs from the one it took last. The identifiers it takes increase, and the
processor accepts their order, when the callbacks publish in the order in which they drew.
A callback that is overtaken by a later one makes the reader go back.
-/

namespace EdgeClient.Pipeline

open Basis Vision Tracking

/-! ## The camera -/

/-- The part of the camera that callbacks and reader share. -/
structure FrameSource where
  /-- The identifier drawn last, a 64-bit counter. -/
  currentFrameId : ℕ := 0
  /-- Frames of the callbacks that have drawn an identifier and not published yet. -/
  inFlight : ℕ → Option GpuFrame := fun _ => none
  /-- The published frame. -/
  latest : Option GpuFrame := none

namespace FrameSource

/-- First step of `on_frame_arrived`: draw an identifier. -/
def drawId (callback : ℕ) (c : FrameSource) : FrameSource :=
  match c.inFlight callback with
  | some _ => c
  | none =>
    let frameId := (c.currentFrameId + 1) % 2 ^ 64
    { c with
      currentFrameId := frameId
      inFlight := Function.update c.inFlight callback (some ⟨frameId⟩) }

/-- Second step of `on_frame_arrived`: publish the frame. -/
def publish (callback : ℕ) (c : FrameSource) : FrameSource :=
  match c.inFlight callback with
  | none => c
  | some frame =>
    { c with latest := some frame, inFlight := Function.update c.inFlight callback none }

/-- `wait_for_frame`: the published frame unless it was returned last. -/
def waitForFrame (lastFrameId : ℕ) (c : FrameSource) : Option GpuFrame :=
  c.latest.filter (·.frameId ≠ lastFrameId)

end FrameSource

/-! ## The clocks of the processor -/

end EdgeClient.Pipeline

namespace EdgeClient.Vision.AttendanceProcessor

open Basis

variable {F D : Type} [FloatOps F] [FloatOps D] {f : FaceTrackingFrame F} {now : ℤ} {p : Impl F D}

/-- Identifier and time of the last accepted frame. -/
def Impl.clocks (p : Impl F D) : ℕ × ℤ × Bool := (p.lastFrame, p.lastTime, p.haveTime)

/-- No step of a frame moves the three clocks but its start. -/
theorem spared_clocks : Spared (Impl.clocks : Impl F D → ℕ × ℤ × Bool) :=
  ⟨fun _ _ _ => rfl, fun _ _ _ => rfl⟩

/-- A frame is rejected for its order when its time or its identifier does not advance. The other
checks of the beginning have messages of their own. -/
theorem beginFrame_refuses_iff :
    (∃ q, beginFrame f now p = .error "Frame/time must advance monotonically" q) ↔
      (p.haveTime = true ∧ now < p.lastTime) ∨ f.gpuFrame.frameId ≤ p.lastFrame := by
  have hrun : beginFrame f now p =
      if (p.haveTime ∧ now < p.lastTime) ∨ f.gpuFrame.frameId ≤ p.lastFrame then
        .error "Frame/time must advance monotonically" p
      else if ¬ (f.tracks.map (·.trackId)).Nodup then .error "Duplicate track ID in frame" p
      else .ok () ({ p with
          lastTime := now
          haveTime := true
          lastFrame := f.gpuFrame.frameId
          tick := p.tick + 1 : Impl F D }.collect now) := by
    unfold beginFrame
    change (if _ then _ else _ : Processor F D Unit) p = _
    split
    · rfl
    · split <;> rfl
  rw [hrun]
  split
  · rename_i hcheck
    exact iff_of_true ⟨p, rfl⟩ hcheck
  · rename_i hcheck
    refine iff_of_false ?_ hcheck
    split
    · simp
    · simp

variable [FloatPair F D] {evaluate : BiometricEvaluators F} {utcMs : ℕ → ℤ}

/-- The recognition batch leaves the clocks alone. It writes to tracks, to the gallery scratch
space and to the cooldowns only. -/
theorem wp_recognizeTracks_clocks {arcTracks : List (TrackResult F)} :
    wp (recognizeTracks evaluate utcMs f now arcTracks) (fun _ q => q.clocks = p.clocks)
      (fun q => q.clocks = p.clocks) p := by
  unfold recognizeTracks
  rw [wp_ite]
  refine ⟨fun _ => rfl, fun _ => ?_⟩
  rw [wp_bind, wp_modify]
  cases evaluate.recognize f.gpuFrame (arcTracks.map (·.observation)) with
  | error e => exact rfl
  | ok results =>
    rw [wp_ite]
    refine ⟨fun _ => rfl, fun _ => ?_⟩
    refine wp_foldlM (fun _ _ _ (q : Impl F D) => q.clocks = p.clocks) rfl ?_
    intro pre entry post events q _ hq
    unfold recordRecognition
    rw [wp_bind, wp_get, wp_bind]
    refine wp_mono (wp_atTrack_spared spared_clocks hq) ?_ fun _ => id
    intro mean q₁ hq₁
    rw [wp_bind, wp_matchGallery]
    cases q₁.gallery.match D mean with
    | error e => exact hq₁
    | ok compared =>
      refine (wp_bind _ _).mpr
        (wp_mono (wp_atTrack_spared (c := p.clocks) spared_clocks hq₁) ?_ fun _ => id)
      intro s q₂ hq₂
      rw [wp_ite]
      exact ⟨fun _ => hq₂, fun _ => hq₂⟩

/-- A call leaves the clocks alone or sets them to those of the frame. The beginning of the frame
sets them, and no later stage touches them. -/
theorem wp_process_clocks :
    wp (process evaluate utcMs f now) (fun _ q => q.clocks = (f.gpuFrame.frameId, now, true))
      (fun q => q.clocks = p.clocks ∨ q.clocks = (f.gpuFrame.frameId, now, true)) p := by
  unfold process
  rw [wp_bind, wp_modify, wp_bind]
  refine wp_mono wp_beginFrame ?_ ?_
  swap
  · rintro q ⟨-, rfl⟩
    exact Or.inl rfl
  rintro - q ⟨-, -, -, -, -, hq⟩
  have hq : q.clocks = (f.gpuFrame.frameId, now, true) := by
    rw [hq]
    rfl
  rw [wp_bind]
  refine wp_mono (wp_scheduleTracks_spared spared_clocks) ?_ fun q₁ h => Or.inr (h.trans hq)
  intro padTracks q₁ hq₁
  rw [wp_bind]
  refine wp_mono (wp_checkPad_spared spared_clocks) ?_ fun q₂ h => Or.inr ((h.trans hq₁).trans hq)
  intro _ q₂ hq₂
  rw [wp_bind]
  refine wp_mono (wp_selectTracks_spared spared_clocks) ?_
    fun q₃ h => Or.inr (((h.trans hq₂).trans hq₁).trans hq)
  intro arcTracks q₃ hq₃
  have hq₃ := ((hq₃.trans hq₂).trans hq₁).trans hq
  rw [wp_bind]
  refine wp_mono wp_recognizeTracks_clocks ?_ fun q₄ (h : q₄.clocks = q₃.clocks) =>
    Or.inr (h.trans hq₃)
  intro events q₄ hq₄
  have hq₄ := hq₄.trans hq₃
  rw [wp_bind]
  have hsnapshots : wp (f.tracks.foldlM takeSnapshot []) (fun _ q => q.clocks = q₄.clocks)
      (fun q => q.clocks = q₄.clocks) q₄ := by
    refine wp_foldlM (fun _ _ _ (q : Impl F D) => q.clocks = q₄.clocks) rfl ?_
    intro pre t post snapshots q _ hq
    exact wp_atTrack_spared spared_clocks hq
  exact wp_mono hsnapshots (fun _ _ h => h.trans hq₄) fun _ h => Or.inr (h.trans hq₄)

end EdgeClient.Vision.AttendanceProcessor

namespace EdgeClient.Pipeline

open Basis Vision Tracking

/-! ## The session -/

variable {F D : Type} [FloatOps F] [FloatOps D] [FloatPair F D]

/-- A camera session from start to stop. -/
structure CameraSession (F D : Type) [FloatOps F] [FloatOps D] where
  /-- The camera. -/
  camera : FrameSource
  /-- The identifier of the frame that was returned last. -/
  lastCameraFrameId : ℕ
  /-- The tracker and the processor. -/
  runtime : Runtime F D
  /-- The steady clock. -/
  clock : ℤ
  /-- Identifiers of the frames that were returned, in order. -/
  returned : List ℕ
  /-- Whether the processor has rejected a frame for its order. -/
  refused : Bool

/-- A step of a session. Draws and publications of one callback are separate steps, so that
several callbacks may overlap. -/
inductive SessionStep (F : Type)
  /-- A callback draws an identifier. -/
  | drawId (callback : ℕ)
  /-- A callback publishes its frame. -/
  | publish (callback : ℕ)
  /-- The reader asks for a frame. The detector answers or throws. -/
  | read (elapsed fuel : ℕ) (detections : Option (List (FaceDetection F))) (utcMs : ℕ → ℤ)
      (evaluate : BiometricEvaluators F)
  /-- The evidence is cleared. -/
  | resetSession
  /-- Another gallery is loaded. -/
  | setGallery (templates : List (GalleryTemplate F))

/-- Whether the processor rejects a frame because its time or its identifier does not
advance. -/
def FrameInput.refused (fuel : ℕ) (x : FrameInput F) (r : Runtime F D) : Bool :=
  match ByteTracker.update fuel x.detections r.tracker with
  | .error _ _ => false
  | .ok tracks _ =>
    match AttendanceProcessor.beginFrame ⟨x.gpuFrame, tracks⟩ x.now
      { r.processor with evaluations := [] } with
    | .error e _ => e = "Frame/time must advance monotonically"
    | .ok _ _ => false

namespace CameraSession

/-- `start`: the time of the last call is not later than the clock. -/
def start (r : Runtime F D) (elapsed : ℕ) : CameraSession F D where
  camera := {}
  lastCameraFrameId := 0
  runtime := r.start
  clock := r.processor.lastTime + elapsed
  returned := []
  refused := false

/-- The reader takes a frame, which then goes to the detector. -/
def take (frame : GpuFrame) (elapsed : ℕ) (s : CameraSession F D) : CameraSession F D :=
  { s with
    lastCameraFrameId := frame.frameId
    clock := s.clock + elapsed
    returned := s.returned ++ [frame.frameId] }

/-- The frame with its detections goes to the tracker and to the processor. -/
def process (fuel : ℕ) (x : FrameInput F) (s : CameraSession F D) : CameraSession F D :=
  { s with
    runtime := x.perform fuel s.runtime
    refused := s.refused || x.refused fuel s.runtime }

/-- One step. Drawing, publishing and waiting for a frame are atomic; the rest of a read is the
own business of the reader. -/
def step (i : SessionStep F) (s : CameraSession F D) : CameraSession F D :=
  match i with
  | .drawId callback => { s with camera := s.camera.drawId callback }
  | .publish callback => { s with camera := s.camera.publish callback }
  | .read elapsed fuel detections utcMs evaluate =>
    match s.camera.waitForFrame s.lastCameraFrameId with
    | none => s
    | some frame =>
      let s := s.take frame elapsed
      match detections with
      | none => s
      | some detections => s.process fuel ⟨frame, detections, s.clock, utcMs, evaluate⟩
  | .resetSession =>
    { s with runtime := s.runtime.start }
  | .setGallery templates =>
    { s with runtime :=
        { s.runtime with
          processor := finalState (AttendanceProcessor.setGallery templates s.runtime.processor) } }

/-- The frames that were returned are in order, and the processor has accepted their order. -/
def Increasing (s : CameraSession F D) : Prop :=
  s.returned.Pairwise (· < ·) ∧ s.refused = false

/-- In front of a read the published frame is not older than the frame returned last. -/
def NotOlder (i : SessionStep F) (s : CameraSession F D) : Prop :=
  match i with
  | .read .. => ∀ frame, s.camera.latest = some frame → s.lastCameraFrameId ≤ frame.frameId
  | _ => True

end CameraSession

/-! ## What a read does -/

namespace CameraSession

/-- The reader has taken nothing after the frame it returned last, and the processor is not
ahead of the reader. -/
structure Following (s : CameraSession F D) : Prop where
  /-- The identifiers that were returned. -/
  returned_le : ∀ id ∈ s.returned, id ≤ s.lastCameraFrameId
  /-- The last one is among them. -/
  last_mem : s.lastCameraFrameId = 0 ∨ s.lastCameraFrameId ∈ s.returned
  /-- The last accepted frame was returned. -/
  frame_le : s.runtime.processor.lastFrame ≤ s.lastCameraFrameId
  /-- The last accepted call is over. -/
  time_le : s.runtime.processor.haveTime = true → s.runtime.processor.lastTime ≤ s.clock

end CameraSession

/-- A frame leaves the clocks of the processor alone or sets them to its own. It leaves them alone
when it does not reach the processor, or when the frame is not admitted. -/
theorem clocks_perform (fuel : ℕ) (x : FrameInput F) (r : Runtime F D) :
    (x.perform fuel r).processor.clocks = r.processor.clocks ∨
      (x.perform fuel r).processor.clocks = (x.gpuFrame.frameId, x.now, true) := by
  unfold FrameInput.perform waitForFrame
  cases ByteTracker.update fuel x.detections r.tracker with
  | error e tracker => exact Or.inl rfl
  | ok tracks tracker =>
    have hprocess := wp_finalState (wp_mono (@AttendanceProcessor.wp_process_clocks F D _ _
      ⟨x.gpuFrame, tracks⟩ x.now r.processor _ x.evaluate x.utcMs) (fun _ _ => Or.inr) fun _ => id)
    dsimp only
    cases hrun : AttendanceProcessor.process x.evaluate x.utcMs ⟨x.gpuFrame, tracks⟩ x.now
        r.processor with
    | error e processor =>
      rw [hrun] at hprocess
      exact hprocess
    | ok frame processor =>
      rw [hrun] at hprocess
      exact hprocess

/-- A frame that is rejected for its order does not advance time or identifier. The message is
thrown nowhere else. -/
theorem not_advancing_of_refused {fuel : ℕ} {x : FrameInput F} {r : Runtime F D}
    (h : x.refused fuel r = true) :
    (r.processor.haveTime = true ∧ x.now < r.processor.lastTime) ∨
      x.gpuFrame.frameId ≤ r.processor.lastFrame := by
  unfold FrameInput.refused at h
  split at h
  · cases h
  · rename_i tracks tracker hupdate
    split at h
    · rename_i e processor hbegin
      rw [decide_eq_true_eq] at h
      rw [h] at hbegin
      exact AttendanceProcessor.beginFrame_refuses_iff.mp ⟨processor, hbegin⟩
    · cases h

namespace CameraSession

variable {s : CameraSession F D}

omit [FloatPair F D] in
/-- Taking a frame that is newer than all before it keeps the order. The identifiers that were
returned so far are below that of the last frame. -/
theorem take_following {frame : GpuFrame} (elapsed : ℕ) (hs : s.Following)
    (hnew : s.lastCameraFrameId < frame.frameId) :
    (s.take frame elapsed).Following ∧ (s.Increasing → (s.take frame elapsed).Increasing) := by
  constructor
  · refine ⟨?_, Or.inr ?_, ?_, ?_⟩
    · intro id hid
      rcases List.mem_append.mp hid with hid | hid
      · exact (hs.returned_le id hid).trans hnew.le
      · exact (List.mem_singleton.mp hid).le
    · exact List.mem_append_right _ (List.mem_singleton_self _)
    · exact hs.frame_le.trans hnew.le
    · intro htime
      exact (hs.time_le htime).trans (by simp [take])
  · rintro ⟨hsorted, haccepted⟩
    refine ⟨List.pairwise_append.mpr ⟨hsorted, List.pairwise_singleton _ _, ?_⟩, haccepted⟩
    intro id hid id' hid'
    rw [List.mem_singleton.mp hid']
    exact (hs.returned_le id hid).trans_lt hnew

/-- The processor accepts the order of the frame that was taken, unless it has seen it. Its
identifier and its time are beyond those that the processor has seen. -/
theorem process_following (fuel : ℕ) {x : FrameInput F} (hs : s.Following)
    (hframe : x.gpuFrame.frameId = s.lastCameraFrameId) (hnow : x.now = s.clock)
    (hnew : s.runtime.processor.lastFrame < s.lastCameraFrameId) :
    (s.process fuel x).Following ∧ (s.Increasing → (s.process fuel x).Increasing) := by
  constructor
  · have hclocks := clocks_perform fuel x s.runtime
    simp only [AttendanceProcessor.Impl.clocks, Prod.mk.injEq] at hclocks
    refine ⟨hs.returned_le, hs.last_mem, ?_, ?_⟩
    · change (x.perform fuel s.runtime).processor.lastFrame ≤ s.lastCameraFrameId
      rcases hclocks with ⟨hold, -⟩ | ⟨hnew, -⟩
      · rw [hold]
        exact hs.frame_le
      · rw [hnew, hframe]
    · change (x.perform fuel s.runtime).processor.haveTime = true →
        (x.perform fuel s.runtime).processor.lastTime ≤ s.clock
      rcases hclocks with ⟨-, htime, hhave⟩ | ⟨-, htime, -⟩
      · rw [htime, hhave]
        exact hs.time_le
      · rw [htime, hnow]
        exact fun _ => le_rfl
  · rintro ⟨hsorted, haccepted⟩
    refine ⟨hsorted, ?_⟩
    change (s.refused || x.refused fuel s.runtime) = false
    rw [haccepted, Bool.false_or, Bool.eq_false_iff]
    intro hrefused
    rcases not_advancing_of_refused hrefused with ⟨hhave, hback⟩ | hback
    · exact absurd (hs.time_le hhave) (by omega)
    · omega

/-- What a read does: nothing, or it takes the published frame and hands it on. Nothing happens
when there is no frame, or when the published one was taken already. -/
theorem step_read (s : CameraSession F D) (elapsed fuel : ℕ)
    (detections : Option (List (FaceDetection F))) (utcMs : ℕ → ℤ)
    (evaluate : BiometricEvaluators F) :
    (step (.read elapsed fuel detections utcMs evaluate) s = s ∧
      ∀ frame, s.camera.latest = some frame → frame.frameId = s.lastCameraFrameId) ∨
    ∃ frame, s.camera.latest = some frame ∧ frame.frameId ≠ s.lastCameraFrameId ∧
      (step (.read elapsed fuel detections utcMs evaluate) s = s.take frame elapsed ∨
        ∃ x : FrameInput F, x.gpuFrame = frame ∧ x.now = s.clock + elapsed ∧
          step (.read elapsed fuel detections utcMs evaluate) s =
            (s.take frame elapsed).process fuel x) := by
  unfold step
  dsimp only
  split
  · rename_i hnone
    refine Or.inl ⟨rfl, fun frame hframe => ?_⟩
    rw [FrameSource.waitForFrame, hframe] at hnone
    by_contra hne
    simp [Option.filter, hne] at hnone
  · rename_i frame hsome
    obtain ⟨hlatest, hne⟩ := Option.filter_eq_some_iff.mp hsome
    refine Or.inr ⟨frame, hlatest, by simpa using hne, ?_⟩
    cases detections with
    | none => exact Or.inl rfl
    | some detections => exact Or.inr ⟨_, rfl, rfl, rfl⟩

/-- The processor after another gallery was loaded or the evidence was cleared. -/
theorem clocks_setGallery (templates : List (GalleryTemplate F))
    (p : AttendanceProcessor.Impl F D) :
    let q := finalState (AttendanceProcessor.setGallery templates p)
    q.lastFrame ≤ p.lastFrame ∧ q.lastTime = p.lastTime ∧ q.haveTime = p.haveTime := by
  unfold AttendanceProcessor.setGallery
  cases GalleryMatcher.replace D templates with
  | error e => exact ⟨le_rfl, rfl, rfl⟩
  | ok gallery => exact ⟨Nat.zero_le _, rfl, rfl⟩

/-- Every step keeps the order when reads find no older frame. Callbacks alone do not touch the
reader. -/
theorem step_following (i : SessionStep F) (hs : s.Following) (hnotOlder : NotOlder i s) :
    (step i s).Following ∧ (s.Increasing → (step i s).Increasing) := by
  cases i with
  | drawId callback => exact ⟨⟨hs.1, hs.2, hs.3, hs.4⟩, id⟩
  | publish callback => exact ⟨⟨hs.1, hs.2, hs.3, hs.4⟩, id⟩
  | resetSession => exact ⟨⟨hs.1, hs.2, Nat.zero_le _, hs.4⟩, id⟩
  | setGallery templates =>
    obtain ⟨hframe, htime, hhave⟩ := clocks_setGallery templates s.runtime.processor
    refine ⟨⟨hs.1, hs.2, hframe.trans hs.3, ?_⟩, id⟩
    intro h
    exact htime.trans_le (hs.4 (hhave.symm.trans h))
  | read elapsed fuel detections utcMs evaluate =>
    rcases step_read s elapsed fuel detections utcMs evaluate with
      ⟨hsame, -⟩ | ⟨frame, hlatest, hne, hstep⟩
    · rw [hsame]
      exact ⟨hs, id⟩
    · have hnew : s.lastCameraFrameId < frame.frameId :=
        lt_of_le_of_ne (hnotOlder frame hlatest) hne.symm
      obtain ⟨htaken, hkept⟩ := take_following elapsed hs hnew
      rcases hstep with hstep | ⟨x, rfl, hnow, hstep⟩
      · rw [hstep]
        exact ⟨htaken, hkept⟩
      · rw [hstep]
        obtain ⟨hprocessed, haccepted⟩ := process_following fuel htaken rfl hnow
          (hs.frame_le.trans_lt hnew)
        exact ⟨hprocessed, fun h => haccepted (hkept h)⟩

/-- A step does not take back what was returned or refused. So a violation of the order stays
visible to the end of the run. -/
theorem returned_prefix_step (i : SessionStep F) (s : CameraSession F D) :
    s.returned <+: (step i s).returned ∧ (s.refused = true → (step i s).refused = true) := by
  cases i with
  | read elapsed fuel detections utcMs evaluate =>
    rcases step_read s elapsed fuel detections utcMs evaluate with
      ⟨hsame, -⟩ | ⟨frame, -, -, hstep | ⟨x, -, -, hstep⟩⟩
    · rw [hsame]
      exact ⟨List.prefix_rfl, id⟩
    · rw [hstep]
      exact ⟨List.prefix_append _ _, id⟩
    · rw [hstep]
      refine ⟨List.prefix_append _ _, fun h => ?_⟩
      change (s.refused || _) = true
      rw [h, Bool.true_or]
  | drawId callback => exact ⟨List.prefix_rfl, id⟩
  | publish callback => exact ⟨List.prefix_rfl, id⟩
  | resetSession => exact ⟨List.prefix_rfl, id⟩
  | setGallery templates => exact ⟨List.prefix_rfl, id⟩

/-- Order at the end of a run means order at its start. The identifiers at the start are a prefix
of those at the end, and a refusal is not taken back. -/
theorem Increasing.of_run {steps : List (SessionStep F)}
    (h : (runFrom step s steps).Increasing) : s.Increasing := by
  induction steps generalizing s with
  | nil => exact h
  | cons i steps ih =>
    obtain ⟨hsorted, haccepted⟩ := ih h
    obtain ⟨hinitial, hrefused⟩ := returned_prefix_step i s
    refine ⟨hsorted.sublist hinitial.sublist, ?_⟩
    cases hs : s.refused with
    | false => rfl
    | true => rw [hrefused hs] at haccepted; cases haccepted

/-- A read that finds an older frame breaks the order. The frame is returned behind a newer one,
since only equality of the identifiers is tested. -/
theorem not_increasing_of_older {i : SessionStep F} (hs : s.Following) (holder : ¬ NotOlder i s) :
    ¬ (step i s).Increasing := by
  cases i with
  | read elapsed fuel detections utcMs evaluate =>
    simp only [NotOlder, not_forall, not_le] at holder
    obtain ⟨older, holder, hlt⟩ := holder
    have hlast : s.lastCameraFrameId ∈ s.returned := by
      rcases hs.last_mem with hzero | hmem
      · omega
      · exact hmem
    have hbroken : ¬ (s.returned ++ [older.frameId]).Pairwise (· < ·) := by
      intro hsorted
      have := (List.pairwise_append.mp hsorted).2.2 _ hlast _ (List.mem_singleton_self _)
      omega
    rcases step_read s elapsed fuel detections utcMs evaluate with
      ⟨-, hsame⟩ | ⟨frame, hlatest, -, hstep⟩
    · exact absurd (hsame older holder) (by omega)
    · obtain rfl := Option.some.inj (holder.symm.trans hlatest)
      rcases hstep with hstep | ⟨x, -, -, hstep⟩
      · rw [hstep]
        exact fun h => hbroken h.1
      · rw [hstep]
        exact fun h => hbroken h.1
  | drawId callback => exact absurd trivial holder
  | publish callback => exact absurd trivial holder
  | resetSession => exact absurd trivial holder
  | setGallery templates => exact absurd trivial holder

omit [FloatPair F D] in
/-- A session that was just started is in order. -/
theorem start_following (r : Runtime F D) (elapsed : ℕ) :
    (start r elapsed).Following ∧ (start r elapsed).Increasing :=
  ⟨⟨by simp [start], Or.inl rfl, Nat.zero_le _, fun _ => by
    change r.processor.lastTime ≤ r.processor.lastTime + elapsed
    omega⟩, List.Pairwise.nil, rfl⟩

/-- In every session, whatever callbacks and reads overlap, the identifiers that are returned
increase and the processor accepts their order if and only if no read finds a frame that is
older than the one returned last. -/
theorem increasing_iff_not_older (r : Runtime F D) (elapsed : ℕ) (steps : List (SessionStep F)) :
    (runFrom step (start r elapsed) steps).Increasing ↔
      Throughout step NotOlder (start r elapsed) steps := by
  obtain ⟨hs, hincreasing⟩ := start_following r elapsed
  generalize start r elapsed = s at hs hincreasing
  induction steps generalizing s with
  | nil => exact iff_of_true hincreasing trivial
  | cons i steps ih =>
    rw [runFrom_cons, Throughout]
    by_cases hnotOlder : NotOlder i s
    · obtain ⟨hnext, hkept⟩ := step_following i hs hnotOlder
      rw [ih _ hnext (hkept hincreasing)]
      exact (and_iff_right hnotOlder).symm
    · refine iff_of_false (fun h => ?_) fun h => hnotOlder h.1
      exact not_increasing_of_older hs hnotOlder (Increasing.of_run h)

/-! ## Callbacks in turn -/

/-- Callbacks publish in the order of their identifiers. -/
def InTurn (i : SessionStep F) (s : CameraSession F D) : Prop :=
  match i with
  | .publish callback => ∀ frame latest, s.camera.inFlight callback = some frame →
      s.camera.latest = some latest → latest.frameId ≤ frame.frameId
  | _ => True

/-- The reader has not taken more than was published. -/
def Behind (s : CameraSession F D) : Prop :=
  (s.camera.latest = none → s.lastCameraFrameId = 0) ∧
    ∀ latest, s.camera.latest = some latest → s.lastCameraFrameId ≤ latest.frameId

/-- A published frame that is not older keeps the reader behind. Taking a frame makes the two
equal, and publishing a newer one keeps the distance. -/
theorem behind_step (i : SessionStep F) (s : CameraSession F D) (hturn : InTurn i s)
    (hs : s.Behind) : (step i s).Behind := by
  cases i with
  | drawId callback =>
    have hlatest : (step (.drawId callback) s).camera.latest = s.camera.latest := by
      change (s.camera.drawId callback).latest = _
      unfold FrameSource.drawId
      split <;> rfl
    rw [Behind, hlatest]
    exact hs
  | publish callback =>
    cases hflight : s.camera.inFlight callback with
    | none =>
      have hsame : step (.publish callback) s = s := by
        simp only [step, FrameSource.publish, hflight]
      rw [hsame]
      exact hs
    | some frame =>
      have hlatest : (step (.publish callback) s).camera.latest = some frame := by
        simp only [step, FrameSource.publish, hflight]
      refine ⟨fun hnone => absurd (hlatest.symm.trans hnone) (by simp), fun latest hsome => ?_⟩
      obtain rfl := Option.some.inj (hlatest.symm.trans hsome)
      change s.lastCameraFrameId ≤ frame.frameId
      cases hold : s.camera.latest with
      | none => exact (hs.1 hold).trans_le (Nat.zero_le _)
      | some latest => exact (hs.2 latest hold).trans (hturn frame latest hflight hold)
  | resetSession => exact hs
  | setGallery templates => exact hs
  | read elapsed fuel detections utcMs evaluate =>
    rcases step_read s elapsed fuel detections utcMs evaluate with
      ⟨hsame, -⟩ | ⟨frame, hlatest, -, hstep⟩
    · rw [hsame]
      exact hs
    · have htaken : (s.take frame elapsed).Behind := by
        refine ⟨fun hnone => ?_, fun latest hsome => ?_⟩
        · exact absurd (hlatest.symm.trans hnone) (by simp)
        · obtain rfl := Option.some.inj (hlatest.symm.trans hsome)
          exact le_rfl
      rcases hstep with hstep | ⟨x, -, -, hstep⟩
      · rw [hstep]
        exact htaken
      · rw [hstep]
        exact htaken

/-- While callbacks publish in turn, reads find no older frame. The invariant is that the reader
is behind the frame that was published last. -/
theorem not_older_of_in_turn (r : Runtime F D) (elapsed : ℕ) {steps : List (SessionStep F)}
    (hturn : Throughout step InTurn (start r elapsed) steps) :
    Throughout step NotOlder (start r elapsed) steps := by
  refine throughout_of_maintains behind_step ?_ (I := Behind) ⟨fun _ => rfl, by simp [start]⟩ hturn
  rintro (_ | _ | _ | _ | _) s hs
  · trivial
  · trivial
  · exact hs.2
  · trivial
  · trivial

/-! ## The schedule of a session -/

end CameraSession

/-- What the schedule alone says about the callbacks: how often an identifier was drawn, the
number of the draw of every callback in flight, and that of the callback that published last. -/
structure Turns where
  /-- Draws so far. -/
  drawn : ℕ := 0
  /-- The draws whose frames are not published yet. -/
  inFlight : ℕ → Option ℕ := fun _ => none
  /-- The draw whose frame was published last; zero before the first. -/
  published : ℕ := 0

namespace Turns

/-- The next entry of the schedule. A callback draws once and publishes once. A second draw or
publication of the same callback changes nothing. -/
def step (i : SessionStep F) (t : Turns) : Turns :=
  match i with
  | .drawId callback =>
    match t.inFlight callback with
    | some _ => t
    | none =>
      { t with
        drawn := t.drawn + 1
        inFlight := Function.update t.inFlight callback (some (t.drawn + 1)) }
  | .publish callback =>
    match t.inFlight callback with
    | none => t
    | some n => { t with published := n, inFlight := Function.update t.inFlight callback none }
  | _ => t

/-- A callback does not publish behind one that drew after it. -/
def NotOvertaken (i : SessionStep F) (t : Turns) : Prop :=
  match i with
  | .publish callback => ∀ n, t.inFlight callback = some n → t.published ≤ n
  | _ => True

/-- Whether a step is overtaken is found from the turns taken before it. -/
instance (i : SessionStep F) (t : Turns) : Decidable (NotOvertaken i t) :=
  match i with
  | .publish callback =>
    match h : t.inFlight callback with
    | none => isTrue fun n hn => by rw [h] at hn; cases hn
    | some n => decidable_of_iff (t.published ≤ n) (by simp [NotOvertaken, h])
  | .drawId _ => isTrue trivial
  | .read .. => isTrue trivial
  | .resetSession => isTrue trivial
  | .setGallery _ => isTrue trivial

omit [FloatOps F] in
/-- Draws are counted and never taken back. By induction on the steps, each of which draws one
number at most. -/
theorem drawn_le_run (steps : List (SessionStep F)) (t : Turns) :
    t.drawn ≤ (runFrom step t steps).drawn := by
  induction steps generalizing t with
  | nil => exact le_rfl
  | cons i steps ih =>
    refine le_trans ?_ (ih (step i t))
    unfold step
    split
    · split
      · exact le_rfl
      · exact Nat.le_succ _
    · split <;> exact le_rfl
    · exact le_rfl

/-- The camera numbers its frames as the schedule numbers the draws. -/
structure Numbers (t : Turns) (c : FrameSource) : Prop where
  /-- The counter is the number of draws. -/
  drawn_eq : c.currentFrameId = t.drawn
  /-- Frames in flight carry the numbers of their draws. -/
  inFlight_eq : ∀ callback, c.inFlight callback = (t.inFlight callback).map fun n => ⟨n⟩
  /-- So does the published frame. -/
  latest_eq : ∀ latest, c.latest = some latest → latest.frameId = t.published

/-- A change for one callback keeps the numbering of the frames in flight. The callback that
changes and the others are looked at apart. -/
theorem Numbers.inFlight_update {t : Turns} {c : FrameSource} (hnumbers : Numbers t c)
    (callback : ℕ) (draw : Option ℕ) (other : ℕ) :
    Function.update c.inFlight callback (draw.map fun n => ⟨n⟩) other =
      (Function.update t.inFlight callback draw other).map fun n => ⟨n⟩ := by
  by_cases hother : other = callback
  · subst hother
    rw [Function.update_self, Function.update_self]
  · rw [Function.update_of_ne hother, Function.update_of_ne hother]
    exact hnumbers.inFlight_eq other

omit [FloatOps F] in
/-- Before the counter wraps around, a draw gives the next number. The counter is compared with
the number of draws, which grows by one as well. -/
theorem Numbers.drawId {t : Turns} {c : FrameSource} (hnumbers : Numbers t c) (callback : ℕ)
    (hdrawn : (step (F := F) (.drawId callback) t).drawn < 2 ^ 64) :
    Numbers (step (F := F) (.drawId callback) t) (c.drawId callback) := by
  have hflight := hnumbers.inFlight_eq callback
  unfold step at hdrawn ⊢
  unfold FrameSource.drawId
  dsimp only at hdrawn ⊢
  cases hdraw : t.inFlight callback with
  | some n =>
    rw [hdraw, Option.map_some] at hflight
    rw [hflight]
    exact hnumbers
  | none =>
    rw [hdraw, Option.map_none] at hflight
    rw [hdraw] at hdrawn
    rw [hflight]
    have hnext : (c.currentFrameId + 1) % 2 ^ 64 = t.drawn + 1 := by
      rw [hnumbers.drawn_eq, Nat.mod_eq_of_lt hdrawn]
    dsimp only
    rw [hnext]
    exact ⟨rfl, hnumbers.inFlight_update callback (some (t.drawn + 1)), hnumbers.latest_eq⟩

omit [FloatOps F] in
/-- A callback publishes the frame of its draw. A callback that is not in flight changes nothing
on either side. -/
theorem Numbers.publish {t : Turns} {c : FrameSource} (hnumbers : Numbers t c) (callback : ℕ) :
    Numbers (step (F := F) (.publish callback) t) (c.publish callback) := by
  have hflight := hnumbers.inFlight_eq callback
  unfold step FrameSource.publish
  dsimp only
  cases hdraw : t.inFlight callback with
  | none =>
    rw [hdraw, Option.map_none] at hflight
    rw [hflight]
    exact hnumbers
  | some n =>
    rw [hdraw, Option.map_some] at hflight
    rw [hflight]
    refine ⟨hnumbers.drawn_eq, hnumbers.inFlight_update callback none, fun latest hlatest => ?_⟩
    cases hlatest
    rfl

end Turns

namespace CameraSession

/-- A read, a reset and another gallery leave the camera alone. Only the two halves of a callback
change what the camera shows. -/
theorem camera_step (i : SessionStep F) (s : CameraSession F D) :
    (step i s).camera = match i with
      | .drawId callback => s.camera.drawId callback
      | .publish callback => s.camera.publish callback
      | _ => s.camera := by
  cases i with
  | read elapsed fuel detections utcMs evaluate =>
    rcases step_read s elapsed fuel detections utcMs evaluate with
      ⟨hsame, -⟩ | ⟨frame, -, -, hstep | ⟨x, -, -, hstep⟩⟩
    · rw [hsame]
    · rw [hstep]
      rfl
    · rw [hstep]
      rfl
  | drawId callback => rfl
  | publish callback => rfl
  | resetSession => rfl
  | setGallery templates => rfl

/-- Every step keeps the numbering, while the counter does not wrap around. Only draws and
publications change the camera. -/
theorem numbers_step {t : Turns} {s : CameraSession F D} (i : SessionStep F)
    (hnumbers : t.Numbers s.camera) (hdrawn : (Turns.step i t).drawn < 2 ^ 64) :
    (Turns.step i t).Numbers (step i s).camera := by
  rw [camera_step]
  cases i with
  | drawId callback => exact hnumbers.drawId callback hdrawn
  | publish callback => exact hnumbers.publish callback
  | read elapsed fuel detections utcMs evaluate => exact hnumbers
  | resetSession => exact hnumbers
  | setGallery templates => exact hnumbers

omit [FloatPair F D] in
/-- A callback that is not overtaken in the schedule publishes in turn. The numbers of the
schedule are the identifiers of the frames. -/
theorem inTurn_of_notOvertaken {t : Turns} {s : CameraSession F D} {i : SessionStep F}
    (hnumbers : t.Numbers s.camera) (hturn : t.NotOvertaken i) : InTurn i s := by
  cases i with
  | publish callback =>
    intro frame latest hframe hlatest
    rw [hnumbers.inFlight_eq] at hframe
    obtain ⟨n, hn, rfl⟩ := Option.map_eq_some_iff.mp hframe
    rw [hnumbers.latest_eq latest hlatest]
    exact hturn n hn
  | drawId callback => trivial
  | read elapsed fuel detections utcMs evaluate => trivial
  | resetSession => trivial
  | setGallery templates => trivial

/-- In every session in which no callback publishes behind one that drew after it, and which
draws fewer identifiers than the counter has, the identifiers that are returned increase and
the processor accepts their order, whatever callbacks and reads overlap. -/
theorem increasing_of_not_overtaken (r : Runtime F D) (elapsed : ℕ)
    {steps : List (SessionStep F)} (hdrawn : (runFrom Turns.step {} steps).drawn < 2 ^ 64)
    (hschedule : Throughout Turns.step (fun i t => t.NotOvertaken i) {} steps) :
    (runFrom step (start r elapsed) steps).Increasing := by
  suffices h : ∀ (steps : List (SessionStep F)) (t : Turns) (s : CameraSession F D),
      t.Numbers s.camera → (runFrom Turns.step t steps).drawn < 2 ^ 64 →
      Throughout Turns.step (fun i t => t.NotOvertaken i) t steps →
      Throughout step InTurn s steps by
    refine (increasing_iff_not_older r elapsed steps).mpr (not_older_of_in_turn r elapsed ?_)
    exact h steps {} (start r elapsed) ⟨rfl, fun _ => rfl, fun _ hlatest => by cases hlatest⟩ hdrawn
      hschedule
  intro steps
  induction steps with
  | nil => exact fun _ _ _ _ _ => trivial
  | cons i steps ih =>
    intro t s hnumbers hdrawn hschedule
    have hnext : (Turns.step i t).drawn < 2 ^ 64 :=
      (Turns.drawn_le_run steps (Turns.step i t)).trans_lt hdrawn
    exact ⟨inTurn_of_notOvertaken hnumbers hschedule.1,
      ih _ _ (numbers_step i hnumbers hnext) hdrawn hschedule.2⟩

/-! ## Callbacks that overlap -/

/-- A read with no face in the frame. -/
def quietRead : SessionStep (Extended ℚ) := .read 1 4 (some []) (fun _ => 0) sampleEvaluators

/-- Two callbacks overlap and publish in the order in which they drew. -/
def overlapping : List (SessionStep (Extended ℚ)) :=
  [.drawId 0, .drawId 1, .publish 0, quietRead, .publish 1, quietRead]

/-- The reader takes both frames in order. -/
theorem overlapping_increasing :
    (runFrom step (start sampleRuntime 0) overlapping).Increasing ∧
      (runFrom step (start sampleRuntime 0) overlapping).returned = [1, 2] :=
  ⟨increasing_of_not_overtaken sampleRuntime 0 (by decide) (by decide), by decide +kernel⟩

/-- The second callback publishes first, and the reader takes its frame. Then the first one
publishes, and the reader goes back. -/
def overtaken : List (SessionStep (Extended ℚ)) :=
  [.drawId 0, .drawId 1, .publish 1, quietRead, .publish 0, quietRead]

/-- The reader takes the second frame and then the first one, which the processor rejects. The run
is evaluated, and a session that has refused a frame is not increasing. -/
theorem overtaken_refused :
    (runFrom step (start sampleRuntime 0) overtaken).returned = [2, 1] ∧
      (runFrom step (start sampleRuntime 0) overtaken).refused = true ∧
      ¬ (runFrom step (start sampleRuntime 0) overtaken).Increasing := by
  have hreturned : (runFrom step (start sampleRuntime 0) overtaken).returned = [2, 1] := by
    decide +kernel
  have hrefused : (runFrom step (start sampleRuntime 0) overtaken).refused = true := by
    decide +kernel
  exact ⟨hreturned, hrefused, fun h => absurd (hrefused.symm.trans h.2) (by decide)⟩

end CameraSession

end EdgeClient.Pipeline
