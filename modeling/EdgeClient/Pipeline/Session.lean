import EdgeClient.Tracking.TrackerRuns
import EdgeClient.Vision.Conclusions

/-!
# A camera session

The runtime feeds every camera frame to the tracker and the reported tracks to the
processor. Both forget tracks that are missing: the tracker by its buffer, the
processor by its own count of frames. A track that comes back after a gap was
reported not longer ago than the buffer allows, so a processor with a larger limit
still has its state. A conclusion about a track therefore lasts as long as its
identifier is in use.
-/

namespace EdgeClient.Pipeline

open Basis Vision Tracking

variable {F D : Type} [FloatOps F] [FloatOps D] [FloatPair F D]

/-- The tracker and the processor. -/
structure Runtime (F D : Type) [FloatOps F] [FloatOps D] where
  /-- The tracker. -/
  tracker : ByteTracker.Impl F D
  /-- The processor. -/
  processor : AttendanceProcessor.Impl F D

/-- What comes with a camera frame: its detections, the clocks and the models. -/
structure FrameInput (F : Type) where
  /-- The camera frame. -/
  gpuFrame : GpuFrame
  /-- Detections in the frame. -/
  detections : List (FaceDetection F)
  /-- Steady clock. -/
  now : ℤ
  /-- Readings of the wall clock. -/
  utcMs : ℕ → ℤ
  /-- The face models. -/
  evaluate : BiometricEvaluators F

/-- Start a session. -/
def Runtime.start (r : Runtime F D) : Runtime F D where
  tracker := r.tracker.reset
  processor := finalState (AttendanceProcessor.reset r.processor)

/-- Track the faces of a frame and process the tracks. -/
def waitForFrame (fuel : ℕ) (x : FrameInput F) :
    EStateM Abort (Runtime F D) (BiometricAttendanceFrame F) := fun r =>
  match ByteTracker.update fuel x.detections r.tracker with
  | .error e tracker => .error e { r with tracker }
  | .ok tracks tracker =>
    match AttendanceProcessor.process x.evaluate x.utcMs ⟨x.gpuFrame, tracks⟩ x.now r.processor with
    | .error e processor => .error (.thrown e) ⟨tracker, processor⟩
    | .ok frame processor => .ok frame ⟨tracker, processor⟩

/-- The runtime after a frame. -/
def FrameInput.perform (fuel : ℕ) (x : FrameInput F) (r : Runtime F D) : Runtime F D :=
  finalState (waitForFrame fuel x r)

/-- The frame is processed without an exception. -/
def FrameInput.Completes (fuel : ℕ) (x : FrameInput F) (r : Runtime F D) : Prop :=
  ∃ frame r', waitForFrame fuel x r = .ok frame r'

/-- Whether a frame completes is found by running it. -/
instance (fuel : ℕ) (x : FrameInput F) (r : Runtime F D) : Decidable (x.Completes fuel r) :=
  match h : waitForFrame fuel x r with
  | .ok frame r' => isTrue ⟨frame, r', h⟩
  | .error _ _ => isFalse (by simp only [FrameInput.Completes, h, reduceCtorEq, exists_false,
      not_false_eq_true])

/-- What a frame did to the tracker and to the processor. -/
structure FrameDone (x : FrameInput F) (r : Runtime F D) (tracks : List (TrackResult F))
    (frame : BiometricAttendanceFrame F) (r' : Runtime F D) : Prop where
  /-- The tracker reported the tracks. -/
  tracked : ByteTracker.Outcome r.tracker x.detections r'.tracker tracks
  /-- The processor worked on them. -/
  processed : ∃ padEntries checked arcEntries, AttendanceProcessor.FrameRun x.evaluate x.utcMs
    ⟨x.gpuFrame, tracks⟩ x.now (r.processor.accept ⟨x.gpuFrame, tracks⟩ x.now) padEntries checked
    arcEntries frame r'.processor

/-- A frame that returns is processed as described. The two parts of the description are the
outcomes of the tracker and of the processor. -/
theorem done_of_waitForFrame {fuel : ℕ} {x : FrameInput F} {r r' : Runtime F D}
    {frame : BiometricAttendanceFrame F} (hr : r.tracker.Invariant)
    (hrun : waitForFrame fuel x r = .ok frame r') : ∃ tracks, FrameDone x r tracks frame r' := by
  unfold waitForFrame at hrun
  cases hupdate : ByteTracker.update fuel x.detections r.tracker with
  | error e tracker =>
    rw [hupdate] at hrun
    cases hrun
  | ok tracks tracker =>
    rw [hupdate] at hrun
    dsimp only at hrun
    cases hprocess : AttendanceProcessor.process x.evaluate x.utcMs ⟨x.gpuFrame, tracks⟩ x.now
        r.processor with
    | error e processor =>
      rw [hprocess] at hrun
      cases hrun
    | ok frame' processor =>
      rw [hprocess] at hrun
      cases hrun
      exact ⟨tracks, ByteTracker.outcome_of_update hr hupdate,
        (wp_ok AttendanceProcessor.wp_process hprocess).2⟩

/-- A frame that completes is done: the tracker has its tracks and the processor its frame. The
run that completes is the one whose final state is taken. -/
theorem FrameInput.Completes.done {fuel : ℕ} {x : FrameInput F} {r : Runtime F D}
    (hcompletes : x.Completes fuel r) (hr : r.tracker.Invariant) :
    ∃ tracks frame, FrameDone x r tracks frame (x.perform fuel r) := by
  obtain ⟨frame, r', hrun⟩ := hcompletes
  have hperform : x.perform fuel r = r' := by
    rw [perform, hrun]
    rfl
  obtain ⟨tracks, hdone⟩ := done_of_waitForFrame hr hrun
  exact ⟨tracks, frame, hperform ▸ hdone⟩

namespace FrameDone

variable {x : FrameInput F} {r r' : Runtime F D} {tracks : List (TrackResult F)}
  {frame : BiometricAttendanceFrame F}

/-- The snapshots are those of the reported tracks. -/
theorem snapshots_eq (h : FrameDone x r tracks frame r') :
    frame.tracks = tracks.map fun t =>
      AttendanceProcessor.snapshot t (r'.processor.stateOf t.trackId) := by
  obtain ⟨padEntries, checked, arcEntries, hrun⟩ := h.processed
  exact hrun.snapshots

/-- An identifier that was given out is not given to a track that starts. -/
theorem old_of_live (h : FrameDone x r tracks frame r') {k : ℕ} (hk : k < r.tracker.nextId) {t : ℕ}
    (ht : t ∈ r'.tracker.live) (hid : (r'.tracker.heap t).trackId = k) :
    t ∈ r.tracker.live ∧ (r.tracker.heap t).trackId = k := by
  by_cases hold : t ∈ r.tracker.live
  · exact ⟨hold, (h.tracked.kept t ht hold).symm.trans hid⟩
  · have hfresh := h.tracked.fresh t ht hold
    omega

/-- A reported track is a confirmed live track. -/
theorem mem_reported (h : FrameDone x r tracks frame r') {k : ℕ}
    (hk : k ∈ tracks.map (·.trackId)) :
    ∃ t ∈ r'.tracker.tracked, (r'.tracker.heap t).isActivated = true ∧
      (r'.tracker.heap t).trackId = k := by
  rw [h.tracked.results_eq, List.map_map] at hk
  obtain ⟨t, ht, rfl⟩ := List.mem_map.mp hk
  obtain ⟨htracked, hactivated⟩ := List.mem_filter.mp ht
  exact ⟨t, htracked, hactivated, rfl⟩

/-- A confirmed track that was matched is reported. -/
theorem reported_mem (h : FrameDone x r tracks frame r') {t : ℕ} (ht : t ∈ r'.tracker.tracked)
    (hactivated : (r'.tracker.heap t).isActivated = true) :
    (r'.tracker.heap t).trackId ∈ tracks.map (·.trackId) := by
  rw [h.tracked.results_eq, List.map_map]
  exact List.mem_map_of_mem (f := fun t => (r'.tracker.heap t).result.trackId)
    (List.mem_filter.mpr ⟨ht, hactivated⟩)

/-- The state of a track that is not reported is an old one. -/
theorem state_of_not_reported (h : FrameDone x r tracks frame r') {k : ℕ}
    {s : AttendanceProcessor.State F D} (hk : k ∉ tracks.map (·.trackId))
    (hs : r'.processor.states k = some s) : r.processor.states k = some s := by
  obtain ⟨padEntries, checked, arcEntries, hrun⟩ := h.processed
  rw [hrun.others k hk] at hs
  exact (Option.filter_eq_some_iff.mp hs).1

/-- The state of a reported track is marked as seen. The scheduling of the frame has set the mark,
and no later stage changes it. -/
theorem seen_of_reported (h : FrameDone x r tracks frame r') {k : ℕ}
    {s : AttendanceProcessor.State F D} (hk : k ∈ tracks.map (·.trackId))
    (hs : r'.processor.states k = some s) : s.seen = r'.processor.tick := by
  obtain ⟨padEntries, checked, arcEntries, hrun⟩ := h.processed
  obtain ⟨t, ht, rfl⟩ := List.mem_map.mp hk
  obtain ⟨s', hs', hseen⟩ := hrun.seen_eq ht
  rw [hs] at hs'
  obtain rfl := Option.some.inj hs'
  rw [hseen, hrun.rest]

end FrameDone

/-- Tracker and processor count the same frames, and the processor saw every live track
that has a state at the last match of the track. -/
structure Linked (c : BiometricAttendanceConfig F) (maxTimeLost : ℤ) (r : Runtime F D) : Prop where
  /-- The invariant of the tracker. -/
  tracker : r.tracker.Invariant
  /-- The buffer of the tracker is fixed. -/
  maxTimeLost_eq : r.tracker.maxTimeLost = maxTimeLost
  /-- The configuration of the processor is fixed. -/
  cfg_eq : r.processor.cfg = c
  /-- Both count frames from the start of the session. -/
  tick_eq : (r.processor.tick : ℤ) = r.tracker.frame
  /-- States belong to identifiers that were given out. -/
  known : ∀ k s, r.processor.states k = some s → k < r.tracker.nextId
  /-- A state knows the last match of its track. -/
  seen : ∀ k s, r.processor.states k = some s → ∀ t ∈ r.tracker.live,
    (r.tracker.heap t).trackId = k →
      (r.tracker.heap t).isActivated = true ∧ (s.seen : ℤ) = (r.tracker.heap t).frameId

namespace Linked

variable {c : BiometricAttendanceConfig F} {maxTimeLost : ℤ} {x : FrameInput F} {r r' : Runtime F D}
  {tracks : List (TrackResult F)} {frame : BiometricAttendanceFrame F}

omit [FloatPair F D] in
/-- A session starts without tracks and without states. -/
theorem start (hbuffer : 0 ≤ r.tracker.maxTimeLost) :
    Linked r.processor.cfg r.tracker.maxTimeLost r.start where
  tracker := ⟨.nil, nofun, nofun, nofun, nofun, nofun, nofun, nofun, nofun, le_rfl, hbuffer⟩
  maxTimeLost_eq := rfl
  cfg_eq := rfl
  tick_eq := rfl
  known := nofun
  seen := nofun

/-- Every frame keeps the link. Both sides count the frame, and the states of
the reported tracks have seen it. -/
theorem step (hlinked : Linked c maxTimeLost r) (h : FrameDone x r tracks frame r') :
    Linked c maxTimeLost r' := by
  have htick : r'.processor.tick = r.processor.tick + 1 := by
    obtain ⟨padEntries, checked, arcEntries, hrun⟩ := h.processed
    rw [hrun.rest]
    rfl
  have hcfg : r'.processor.cfg = r.processor.cfg := by
    obtain ⟨padEntries, checked, arcEntries, hrun⟩ := h.processed
    rw [hrun.rest]
    rfl
  have hframe : (r'.processor.tick : ℤ) = r'.tracker.frame := by
    have hold := hlinked.tick_eq
    rw [htick, h.tracked.frame_eq]
    push_cast
    omega
  refine ⟨h.tracked.invariant, h.tracked.maxTimeLost_eq.trans hlinked.maxTimeLost_eq,
    hcfg.trans hlinked.cfg_eq, hframe, ?_, ?_⟩
  · intro k s hs
    by_cases hk : k ∈ tracks.map (·.trackId)
    · obtain ⟨t, ht, -, rfl⟩ := h.mem_reported hk
      exact h.tracked.invariant.id_lt t (List.mem_append_left _ ht)
    · exact (hlinked.known k s (h.state_of_not_reported hk hs)).trans_le h.tracked.nextId_le
  · intro k s hs t ht hid
    by_cases hk : k ∈ tracks.map (·.trackId)
    · -- The reported track is the only one with its identifier.
      obtain ⟨u, hu, hactivated, hu_id⟩ := h.mem_reported hk
      have hsame : t = u := List.inj_on_of_nodup_map h.tracked.invariant.ids_nodup ht
        (List.mem_append_left _ hu) (hid.trans hu_id.symm)
      subst hsame
      refine ⟨hactivated, ?_⟩
      rw [h.seen_of_reported hk hs, h.tracked.invariant.tracked_frame t hu]
      exact hframe
    · have hold := h.state_of_not_reported hk hs
      obtain ⟨hlive, hid_old⟩ := h.old_of_live (hlinked.known k s hold) ht hid
      obtain ⟨hactivated, hseen⟩ := hlinked.seen k s hold t hlive hid_old
      rcases List.mem_append.mp ht with htracked | hlost
      · exact (hk (hid ▸ h.reported_mem htracked (h.tracked.confirmed t htracked hlive))).elim
      · obtain ⟨-, hframeId, -⟩ := h.tracked.lost_kept t hlost
        exact ⟨h.tracked.invariant.lost_activated t hlost, by rw [hframeId, hseen]⟩

/-- A state is kept as long as its track is live. The tracker drops a lost track before the
processor drops its state, by the bound on the two limits. -/
theorem state_kept (hlinked : Linked c maxTimeLost r) (h : FrameDone x r tracks frame r')
    (hlimit : max maxTimeLost 1 + 1 ≤ c.maxMissingRuntimeFrames) {k : ℕ}
    {s : AttendanceProcessor.State F D} (hs : r.processor.states k = some s) {t : ℕ}
    (ht : t ∈ r'.tracker.live) (hid : (r'.tracker.heap t).trackId = k) :
    (r.processor.accept ⟨x.gpuFrame, tracks⟩ x.now).states k = some s := by
  obtain ⟨hlive, hid_old⟩ := h.old_of_live (hlinked.known k s hs) ht hid
  obtain ⟨-, hseen⟩ := hlinked.seen k s hs t hlive hid_old
  refine Option.filter_eq_some_iff.mpr ⟨hs, decide_eq_true ?_⟩
  have htick := hlinked.tick_eq
  have hgap : r.tracker.frame - (r.tracker.heap t).frameId ≤ max maxTimeLost 1 := by
    rcases List.mem_append.mp hlive with htracked | hlost
    · rw [hlinked.tracker.tracked_frame t htracked]
      omega
    · simpa only [hlinked.maxTimeLost_eq] using hlinked.tracker.lost_frame t hlost
  rw [show r.processor.cfg = c from hlinked.cfg_eq]
  dsimp only
  omega

end Linked

/-- The conclusion about a track, or the track is gone for good. -/
def Concluded (k : ℕ) (phase : BiometricTrackPhase) (r : Runtime F D) : Prop :=
  AttendanceProcessor.HasState r.processor k (·.phase = phase) ∨ r.tracker.Retired k

/-- All tracks that have the identifier are among the tracks that had it. -/
def OnlyTrack (k : ℕ) (before r : Runtime F D) : Prop :=
  k < r.tracker.nextId ∧ ∀ t ∈ r.tracker.live, (r.tracker.heap t).trackId = k →
    t ∈ before.tracker.live ∧ (before.tracker.heap t).trackId = k

section Conclusions

variable {c : BiometricAttendanceConfig F} {maxTimeLost : ℤ} {x : FrameInput F}
  {before r r' : Runtime F D} {tracks : List (TrackResult F)} {frame : BiometricAttendanceFrame F}
  {k : ℕ} {phase : BiometricTrackPhase}

/-- What holds of a concluded track in a frame. -/
structure ConclusionRespected (k : ℕ) (phase : BiometricTrackPhase) (before : Runtime F D)
    (frame : BiometricAttendanceFrame F) (r' : Runtime F D) : Prop where
  /-- Wherever the track is reported, it is in the phase. -/
  phase_eq : ∀ snap ∈ frame.tracks, snap.trackId = k → snap.phase = phase
  /-- No crop of the track goes to a model. -/
  not_handed : ∀ t s, .pad t s ∈ r'.processor.evaluations ∨
    .recognize t s ∈ r'.processor.evaluations → t.trackId ≠ k
  /-- No other track has the identifier. -/
  only_track : ∀ t ∈ r'.tracker.live, (r'.tracker.heap t).trackId = k →
    t ∈ before.tracker.live ∧ (before.tracker.heap t).trackId = k

/-- Every frame respects a conclusion, and keeps it. As long as its track is live the state is
kept, and afterwards the identifier is not given out again. -/
theorem Concluded.step (hconcluded : Concluded k phase r)
    (hlasting : AttendanceProcessor.lasting phase = true) (hlinked : Linked c maxTimeLost r)
    (hlimit : max maxTimeLost 1 + 1 ≤ c.maxMissingRuntimeFrames) (honly : OnlyTrack k before r)
    (h : FrameDone x r tracks frame r') :
    ConclusionRespected k phase before frame r' ∧ Concluded k phase r' ∧ OnlyTrack k before r' := by
  have honly' : OnlyTrack k before r' := by
    refine ⟨honly.1.trans_le h.tracked.nextId_le, fun t ht hid => ?_⟩
    obtain ⟨hlive, hid_old⟩ := h.old_of_live honly.1 ht hid
    exact honly.2 t hlive hid_old
  obtain ⟨padEntries, checked, arcEntries, hrun⟩ := h.processed
  by_cases hgone : k ∈ r'.tracker.ids
  · obtain ⟨t, ht, hid⟩ := List.mem_map.mp hgone
    have hretired : ¬ r.tracker.Retired k := fun hretired => (h.tracked.retired hretired).2 hgone
    obtain ⟨s, hs, rfl⟩ := hconcluded.resolve_right hretired
    have hs₁ := hlinked.state_kept h hlimit hs ht hid
    have hphase : AttendanceProcessor.HasState r'.processor k (·.phase = s.phase) := by
      by_cases hk : k ∈ tracks.map (·.trackId)
      · obtain ⟨u, hu, rfl⟩ := List.mem_map.mp hk
        exact (hrun.lasting_kept hu hs₁ hlasting).2.2
      · exact ⟨s, (hrun.others k hk).trans hs₁, rfl⟩
    refine ⟨⟨?_, ?_, honly'.2⟩, Or.inl hphase, honly'⟩
    · intro snap hsnap hsnap_id
      rw [h.snapshots_eq] at hsnap
      obtain ⟨u, hu, rfl⟩ := List.mem_map.mp hsnap
      obtain ⟨s', hs', hphase'⟩ := hphase
      have hid_eq : u.trackId = k := hsnap_id
      have hstate : r'.processor.states u.trackId = some s' := by rw [hid_eq, hs']
      change (r'.processor.stateOf u.trackId).phase = s.phase
      rw [AttendanceProcessor.Impl.stateOf_eq hstate, hphase']
    · intro u s' hhanded
      exact hrun.lasting_not_handed hs₁ hlasting hhanded
  · -- Only live tracks are reported.
    have hreported : k ∉ tracks.map (·.trackId) := by
      intro hk
      obtain ⟨t, ht, -, rfl⟩ := h.mem_reported hk
      exact hgone (ByteTracker.mem_idsOf (List.mem_append_left _ ht))
    refine ⟨⟨?_, ?_, honly'.2⟩, Or.inr ⟨honly'.1, hgone⟩, honly'⟩
    · intro snap hsnap hsnap_id
      rw [h.snapshots_eq] at hsnap
      obtain ⟨u, hu, rfl⟩ := List.mem_map.mp hsnap
      exact (hreported (hsnap_id ▸ List.mem_map_of_mem (f := fun t => t.trackId) hu)).elim
    · rintro u s' hhanded rfl
      exact hreported (List.mem_map_of_mem (f := fun t => t.trackId) (hrun.handed_mem hhanded))

end Conclusions

/-! ## Runs of a session -/

/-- The runtime after a session of the given frames. -/
def afterFrames (fuel : ℕ) (r : Runtime F D) (frames : List (FrameInput F)) : Runtime F D :=
  runFrom (FrameInput.perform fuel) r.start frames

/-- Every frame of a session is processed without an exception. -/
def AllFramesComplete (fuel : ℕ) (r : Runtime F D) (frames : List (FrameInput F)) : Prop :=
  Throughout (FrameInput.perform fuel) (FrameInput.Completes fuel) r.start frames

/-- Whether all frames complete is found by running them. -/
instance (fuel : ℕ) (r : Runtime F D) (frames : List (FrameInput F)) :
    Decidable (AllFramesComplete fuel r frames) :=
  inferInstanceAs (Decidable (Throughout (FrameInput.perform fuel) (FrameInput.Completes fuel)
    r.start frames))

section Runs

variable {fuel : ℕ} {c : BiometricAttendanceConfig F} {maxTimeLost : ℤ} {r : Runtime F D}
  {frames : List (FrameInput F)}

/-- The link holds after every session. -/
theorem Linked.run (hlinked : Linked c maxTimeLost r)
    (hcomplete : Throughout (FrameInput.perform fuel) (FrameInput.Completes fuel) r frames) :
    Linked c maxTimeLost (runFrom (FrameInput.perform fuel) r frames) := by
  induction frames generalizing r with
  | nil => exact hlinked
  | cons x frames ih =>
    obtain ⟨tracks, frame, hdone⟩ := hcomplete.1.done hlinked.tracker
    exact ih (hlinked.step hdone) hcomplete.2

/-- A conclusion lasts over every sequence of frames. By induction on the frames, with the link
between tracker and processor as the invariant. -/
theorem Concluded.run {before : Runtime F D} {k : ℕ} {phase : BiometricTrackPhase}
    (hconcluded : Concluded k phase r) (hlasting : AttendanceProcessor.lasting phase = true)
    (hlinked : Linked c maxTimeLost r) (hlimit : max maxTimeLost 1 + 1 ≤ c.maxMissingRuntimeFrames)
    (honly : OnlyTrack k before r)
    (hcomplete : Throughout (FrameInput.perform fuel) (FrameInput.Completes fuel) r frames) :
    Concluded k phase (runFrom (FrameInput.perform fuel) r frames) ∧
      OnlyTrack k before (runFrom (FrameInput.perform fuel) r frames) := by
  induction frames generalizing r with
  | nil => exact ⟨hconcluded, honly⟩
  | cons x frames ih =>
    obtain ⟨tracks, frame, hdone⟩ := hcomplete.1.done hlinked.tracker
    obtain ⟨-, hconcluded', honly'⟩ := hconcluded.step hlasting hlinked hlimit honly hdone
    exact ih hconcluded' (hlinked.step hdone) honly' hcomplete.2

/-- In a session of a tracker and a processor that were used before, a track that was
rejected or not recognized stays so whenever it is reported, no model sees it again, and no
other track gets its identifier. -/
theorem conclusion_respected [LawfulTracker F D] {cfg : ByteTrackConfig F}
    (hbuffer : 0 ≤ cfg.trackBuffer) (hrate : 0 ≤ cfg.frameRate)
    {calls : List (ByteTracker.Call F)} (hcalls : ByteTracker.AllComplete D cfg fuel calls)
    {processor : AttendanceProcessor.Impl F D}
    (hlimit : max (ByteTracker.create D cfg).maxTimeLost 1 + 1 ≤
      processor.cfg.maxMissingRuntimeFrames)
    {earlier later : List (FrameInput F)} {k : ℕ} {phase : BiometricTrackPhase}
    (hphase : phase = .rejectedAttack ∨ phase = .unknownIdentity)
    (hconcluded : AttendanceProcessor.HasState
      (afterFrames fuel ⟨ByteTracker.afterCalls D cfg fuel calls, processor⟩ earlier).processor k
      (·.phase = phase))
    (hcomplete : AllFramesComplete fuel ⟨ByteTracker.afterCalls D cfg fuel calls, processor⟩
      (earlier ++ later))
    {x : FrameInput F} {frame : BiometricAttendanceFrame F} {r' : Runtime F D}
    (hrun : waitForFrame fuel x
      (afterFrames fuel ⟨ByteTracker.afterCalls D cfg fuel calls, processor⟩ (earlier ++ later)) =
        .ok frame r') :
    ConclusionRespected k phase
      (afterFrames fuel ⟨ByteTracker.afterCalls D cfg fuel calls, processor⟩ earlier) frame r' := by
  have htracker := ByteTracker.invariant_afterCalls hbuffer hrate hcalls
  have hmax : (ByteTracker.afterCalls D cfg fuel calls).maxTimeLost =
      (ByteTracker.create D cfg).maxTimeLost :=
    ByteTracker.maxTimeLost_run (ByteTracker.invariant_create hbuffer hrate) hcalls
  have hlasting : AttendanceProcessor.lasting phase = true := decide_eq_true hphase
  obtain ⟨r₀, hr₀⟩ : ∃ r₀ : Runtime F D, r₀ =
      ⟨ByteTracker.afterCalls D cfg fuel calls, processor⟩ := ⟨_, rfl⟩
  have hstart : Linked processor.cfg (ByteTracker.create D cfg).maxTimeLost r₀.start := by
    have hlinked := Linked.start (r := r₀) (hr₀ ▸ htracker.maxTimeLost_nonneg)
    rw [hr₀] at hlinked ⊢
    exact hmax ▸ hlinked
  rw [← hr₀] at hconcluded hcomplete hrun ⊢
  obtain ⟨hearlier, hlater⟩ := throughout_append.mp hcomplete
  have hbefore := hstart.run hearlier
  obtain ⟨s, hs, hs_phase⟩ := hconcluded
  have honly₀ : OnlyTrack k (afterFrames fuel r₀ earlier) (afterFrames fuel r₀ earlier) :=
    ⟨hbefore.known k s hs, fun t ht hid => ⟨ht, hid⟩⟩
  obtain ⟨hlast, honly⟩ := Concluded.run (Or.inl ⟨s, hs, hs_phase⟩) hlasting hbefore hlimit honly₀
    hlater
  have hend : runFrom (FrameInput.perform fuel) (afterFrames fuel r₀ earlier) later =
      afterFrames fuel r₀ (earlier ++ later) := (runFrom_append earlier later).symm
  have hlinked : Linked processor.cfg (ByteTracker.create D cfg).maxTimeLost
      (runFrom (FrameInput.perform fuel) (afterFrames fuel r₀ earlier) later) := hbefore.run hlater
  rw [hend] at hlast honly hlinked
  obtain ⟨tracks, hdone⟩ := done_of_waitForFrame hlinked.tracker hrun
  exact (hlast.step hlasting hlinked hlimit honly hdone).1

end Runs

/-! ## A sample in exact arithmetic -/

/-- A face that lies exactly on the alignment template. -/
def sampleFace : FaceDetection (Extended ℚ) where
  x1 := lit 0
  y1 := lit 0
  x2 := lit 112
  y2 := lit 112
  score := lit 0.9
  landmarks := arcFaceTarget.points

/-- Models that find every face an attack. -/
def sampleEvaluators : BiometricEvaluators (Extended ℚ) where
  pad _ faces := .ok (faces.map fun _ => ⟨some (lit 0.1), .spoof⟩)
  recognize _ faces := .ok (faces.map fun _ => ⟨fun _ => lit 1⟩)

/-- A frame with the sample face. -/
def sampleInput (frameId : ℕ) : FrameInput (Extended ℚ) :=
  ⟨⟨frameId⟩, [sampleFace], frameId, fun _ => 0, sampleEvaluators⟩

/-- A processor with one template that rejects a track after one vote. -/
def sampleProcessor : AttendanceProcessor.Impl (Extended ℚ) (Extended ℚ) where
  cfg := {
    padAttackVotesRequired := 1
    recognitionSimilarityThreshold := lit 0.5
    calibrationId := "walk-through" }
  gallery := ⟨[fun _ => lit 1], [0], ["visitor"], [lit 0]⟩

/-- A new runtime with the sample processor. -/
def sampleRuntime : Runtime (Extended ℚ) (Extended ℚ) :=
  ⟨ByteTracker.afterCalls (Extended ℚ) {} 4 [], sampleProcessor⟩

/-- A frame without a face. -/
def emptyInput (frameId : ℕ) : FrameInput (Extended ℚ) :=
  ⟨⟨frameId⟩, [], frameId, fun _ => 0, sampleEvaluators⟩

/-- The face of the sample is rejected in the first frame, is missing in the next two, and is
rejected without another look when it is back. -/
theorem conclusion_respected_sample : ∃ frame r',
    waitForFrame 4 (sampleInput 4)
        (afterFrames 4 sampleRuntime ([sampleInput 1] ++ [emptyInput 2, emptyInput 3])) =
      .ok frame r' ∧
    ConclusionRespected 1 .rejectedAttack (afterFrames 4 sampleRuntime [sampleInput 1]) frame
      r' ∧
    frame.tracks.map (fun snap => (snap.trackId, snap.phase)) = [(1, .rejectedAttack)] := by
  have hreports : (returned (waitForFrame 4 (sampleInput 4)
      (afterFrames 4 sampleRuntime ([sampleInput 1] ++ [emptyInput 2, emptyInput 3])))).map
        (fun frame => frame.tracks.map fun snap => (snap.trackId, snap.phase)) =
      some [(1, .rejectedAttack)] := by
    decide +kernel
  obtain ⟨frame, hreturned, hsnaps⟩ := Option.map_eq_some_iff.mp hreports
  obtain ⟨r', hrun⟩ := exists_of_returned hreturned
  have hphase : ((afterFrames 4 sampleRuntime [sampleInput 1]).processor.states 1).map (·.phase) =
      some .rejectedAttack := by
    decide +kernel
  have hcomplete :
      AllFramesComplete 4 sampleRuntime ([sampleInput 1] ++ [emptyInput 2, emptyInput 3]) := by
    decide +kernel
  have hcalls : ByteTracker.AllComplete (Extended ℚ) ({} : ByteTrackConfig (Extended ℚ)) 4 [] :=
    trivial
  have hrespected := conclusion_respected (by decide) (by decide) hcalls (by decide +kernel)
    (Or.inl rfl) (Option.map_eq_some_iff.mp hphase) hcomplete hrun
  exact ⟨frame, r', hrun, hrespected, hsnaps⟩

end EdgeClient.Pipeline
