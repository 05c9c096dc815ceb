import EdgeClient.Vision.FrameSemantics
import EdgeClient.Vision.PadGate

/-!
# Tracks do not influence each other

Two runs that agree on one track, whatever their other tracks do, show the same
snapshots of that track, except that one run may call a match a duplicate where the
other reports it. The two states of the track are related by this exchange: the two
matched phases carry the same data, both end with the cooldown, and neither takes
part in any evaluation before.
-/

namespace EdgeClient.Vision.AttendanceProcessor

open Basis

variable {F D : Type} [FloatOps F] [FloatOps D]

/-- Equal phases, up to exchanging the two matched ones. -/
def SamePhase (phase phase' : BiometricTrackPhase) : Prop :=
  phase = phase' ∨ matched phase = true ∧ matched phase' = true

/-- Equal states, up to exchanging the two matched phases. -/
def SameState (s s' : State F D) : Prop :=
  s = s' ∨ matched s.phase = true ∧ matched s'.phase = true ∧ s' = { s with phase := s'.phase }

/-- Equal snapshots, up to exchanging the two matched phases. -/
def SameSnapshot (a b : BiometricTrackSnapshot F) : Prop :=
  SamePhase a.phase b.phase ∧ b = { a with phase := b.phase }

/-- The snapshot of a track in a frame. -/
def snapshotOf (id : ℕ) (frame : BiometricAttendanceFrame F) : Option (BiometricTrackSnapshot F) :=
  frame.tracks.find? fun snap => snap.trackId = id

/-- The two processors agree on everything that concerns the track. -/
structure SameTrackState (id : ℕ) (p p' : Impl F D) : Prop where
  cfg_eq : p.cfg = p'.cfg
  gallery : p.gallery.Same p'.gallery
  tick_eq : p.tick = p'.tick
  state : Option.Rel SameState (p.states id) (p'.states id)

/-- The track is absent from both frames or has the same result in both. -/
def SameTrack (id : ℕ) (f f' : FaceTrackingFrame F) : Prop :=
  f.gpuFrame = f'.gpuFrame ∧ ∀ t, t.trackId = id → (t ∈ f.tracks ↔ t ∈ f'.tracks)

/-- A pair of models that treats every face by itself. -/
def PerFace (evaluate : BiometricEvaluators F) : Prop :=
  ∃ (pad : GpuFrame → FaceDetection F → LivenessResult F)
    (recognize : GpuFrame → FaceDetection F → ArcFaceResult F),
    ∀ frame faces, evaluate.pad frame faces = .ok (faces.map (pad frame)) ∧
    evaluate.recognize frame faces = .ok (faces.map (recognize frame))

/-- Corresponding calls of two runs that agree on the track. The other tracks of the frames and
the wall clocks may differ. -/
inductive SameCall (id : ℕ) : Call F → Call F → Prop where
  /-- Frames at the same time with the same evaluators. -/
  | process {evaluate : BiometricEvaluators F} {f f' : FaceTrackingFrame F}
      (utcMs utcMs' : ℕ → ℤ) (now : ℤ) (hevaluate : PerFace evaluate) (hsame : SameTrack id f f') :
      SameCall id (.process evaluate utcMs f now) (.process evaluate utcMs' f' now)
  /-- The same gallery. -/
  | setGallery (templates : List (GalleryTemplate F)) :
      SameCall id (.setGallery templates) (.setGallery templates)
  /-- A new session. -/
  | reset : SameCall id .reset .reset

/-- A state is the same as itself. -/
theorem SameState.refl (s : State F D) : SameState s s := Or.inl rfl

/-- A state outside the matched phases is related to itself only. -/
theorem SameState.eq {s s' : State F D} (hsame : SameState s s') (h : matched s.phase = false) :
    s = s' := by
  rcases hsame with heq | ⟨hmatched, -, -⟩
  · exact heq
  · rw [h] at hmatched
    cases hmatched

/-- Related states have related snapshots. -/
theorem SameState.snapshot {s s' : State F D} (hsame : SameState s s') (t : TrackResult F) :
    SameSnapshot (snapshot t s) (snapshot t s') := by
  rcases hsame with rfl | ⟨hmatched, hmatched', heq⟩
  · exact ⟨Or.inl rfl, rfl⟩
  · refine ⟨Or.inr ⟨hmatched, hmatched'⟩, ?_⟩
    rw [heq]
    rfl

variable {c : BiometricAttendanceConfig F} {tick : ℕ} {now : ℤ} {s s' : State F D}

/-- A conclusion depends on whether the identity is known only up to the exchange. -/
theorem sameState_conclude (known known' : Bool) (s : State F D) :
    SameState (conclude c now known s) (conclude c now known' s) := by
  unfold conclude
  split
  · cases known <;> cases known' <;> first | exact Or.inl rfl | exact Or.inr ⟨rfl, rfl, rfl⟩
  · exact Or.inl rfl

variable [FloatPair F D]

/-- Scheduling treats related states alike, and equally when it takes a crop. Related states
differ in the two phases that may be exchanged, and scheduling treats these alike. -/
theorem SameState.schedule (hsame : SameState s s') (c : BiometricAttendanceConfig F)
    (gallerySize tick : ℕ) (now : ℤ) (t : TrackResult F) :
    let out := schedule c gallerySize tick now t s
    let out' := schedule c gallerySize tick now t s'
    out = out' ∨ SameState out.1 out'.1 ∧ out.2 = false ∧ out'.2 = false := by
  rcases hsame with rfl | ⟨hmatched, hmatched', heq⟩
  · exact Or.inl rfl
  · by_cases hexpired : nanoseconds c.eventCooldown ≤ now - s.terminal
    · left
      have hterminal : s'.terminal = s.terminal := by rw [heq]
      unfold AttendanceProcessor.schedule expireTerminal
      simp only [hmatched, hmatched', hterminal, hexpired, and_self, if_true]
    · right
      have hterminal : s'.terminal = s.terminal := by rw [heq]
      have hout : AttendanceProcessor.schedule c gallerySize tick now t s =
          ({ s with seen := tick }, false) := by
        unfold AttendanceProcessor.schedule expireTerminal
        simp [hexpired, concluded, hmatched]
      have hout' : AttendanceProcessor.schedule c gallerySize tick now t s' =
          ({ s' with seen := tick }, false) := by
        unfold AttendanceProcessor.schedule expireTerminal
        simp [hterminal, hexpired, concluded, hmatched']
      rw [hout, hout']
      refine ⟨Or.inr ⟨hmatched, hmatched', ?_⟩, rfl, rfl⟩
      rw [heq]

/-- Selection treats related states alike, and equally when it takes a crop. A concluded track is
not selected, whichever of the two phases it has. -/
theorem SameState.wantsRecognition (hsame : SameState s s') (c : BiometricAttendanceConfig F)
    (tick : ℕ) (t : TrackResult F) :
    wantsRecognition c tick t s = wantsRecognition c tick t s' ∧
      (wantsRecognition c tick t s = true → s = s') := by
  rcases hsame with rfl | ⟨hmatched, hmatched', -⟩
  · exact ⟨rfl, fun _ => rfl⟩
  · have hnone : ∀ s : State F D, matched s.phase = true →
        AttendanceProcessor.wantsRecognition c tick t s = false := by
      intro s hs
      have hphase : s.phase ≠ .recognizing := by
        intro h
        rw [h] at hs
        cases hs
      simp [AttendanceProcessor.wantsRecognition, hphase]
    rw [hnone s hmatched, hnone s' hmatched']
    exact ⟨rfl, fun h => absurd h Bool.false_ne_true⟩

omit [FloatOps F] in
/-- A model that treats every face by itself answers a crop by its own observation. -/
theorem Answered.answer_eq {α : Type} {f : FaceTrackingFrame F}
    {model : GpuFrame → List (FaceDetection F) → Except String (List α)}
    {answer : GpuFrame → FaceDetection F → α} {crops : List (TrackResult F)}
    {entries : List (TrackResult F × α)} (hanswered : Answered model f crops entries)
    (hmodel : ∀ frame faces, model frame faces = .ok (faces.map (answer frame)))
    {t : TrackResult F} {r : α} (hmem : (t, r) ∈ entries) :
    r = answer f.gpuFrame t.observation := by
  have hcrops : crops ≠ [] := by
    rw [← hanswered.crops_eq]
    exact List.ne_nil_of_mem (List.mem_map_of_mem hmem)
  have hanswers := hanswered.answers_eq hcrops
  rw [hmodel, ← hanswered.crops_eq, List.map_map, List.map_map] at hanswers
  exact (List.map_inj_left.mp (Except.ok.inj hanswers) (t, r) hmem).symm

section Frame

variable {id : ℕ} {p₁ p₁' q q' : Impl F D} {evaluate : BiometricEvaluators F} {utcMs utcMs' : ℕ → ℤ}
  {f f' : FaceTrackingFrame F} {padEntries padEntries' : List (TrackResult F × LivenessResult F)}
  {checked checked' : ℕ → State F D}
  {arcEntries arcEntries' : List (TrackResult F × ArcFaceResult F)}
  {frame frame' : BiometricAttendanceFrame F}

omit [FloatPair F D] in
/-- The states of the track are related, also when the track is new. A new track has the same
state in both processors. -/
theorem SameTrackState.stateOf (hsame : SameTrackState id p₁ p₁') :
    SameState (p₁.stateOf id) (p₁'.stateOf id) := by
  have hstate := hsame.state
  unfold Impl.stateOf
  cases hp : p₁.states id with
  | none =>
    rw [hp] at hstate
    cases hp' : p₁'.states id with
    | none => exact SameState.refl _
    | some s' => rw [hp'] at hstate; cases hstate
  | some s =>
    rw [hp] at hstate
    cases hp' : p₁'.states id with
    | none => rw [hp'] at hstate; cases hstate
    | some s' =>
      rw [hp'] at hstate
      cases hstate with
      | some hsome => exact hsome

/-- The liveness stage keeps the states of the track related. The evaluator answers the same face
alike, whatever else is in its batch. -/
theorem FrameRun.sameState_checked
    (hrun : FrameRun evaluate utcMs f now p₁ padEntries checked arcEntries frame q)
    (hrun' : FrameRun evaluate utcMs' f' now p₁' padEntries' checked' arcEntries' frame' q')
    (hevaluate : PerFace evaluate) (hframe : f.gpuFrame = f'.gpuFrame)
    (hsame : SameTrackState id p₁ p₁') {t : TrackResult F} (hid : t.trackId = id)
    (ht : t ∈ f.tracks) (ht' : t ∈ f'.tracks) : SameState (checked id) (checked' id) := by
  subst hid
  obtain ⟨pad, recognize, hmodels⟩ := hevaluate
  have hchecked := hrun.checked_eq t ht
  have hchecked' := hrun'.checked_eq t ht'
  have hsize := hsame.gallery.size_eq
  rcases hsame.stateOf.schedule p₁.cfg p₁.gallery.size p₁.tick now t with
    hout | ⟨hout, hnone, hnone'⟩
  · have hscheduled : scheduled p₁ now t = scheduled p₁' now t := by
      unfold scheduled
      rw [← hsame.cfg_eq, ← hsize, ← hsame.tick_eq]
      exact hout
    rw [← hscheduled, ← hsame.cfg_eq, ← hsame.tick_eq] at hchecked'
    by_cases hcrop : (scheduled p₁ now t).2 = true
    · rw [if_pos hcrop] at hchecked hchecked'
      obtain ⟨r, hr, hrecorded⟩ := hchecked
      obtain ⟨r', hr', hrecorded'⟩ := hchecked'
      rw [hrun.pad.answer_eq (fun frame faces => (hmodels frame faces).1) hr] at hrecorded
      rw [hrun'.pad.answer_eq (fun frame faces => (hmodels frame faces).1) hr', ← hframe,
        hrecorded] at hrecorded'
      exact Or.inl (EStateM.Result.ok.inj hrecorded').2
    · rw [if_neg hcrop] at hchecked hchecked'
      rw [hchecked, hchecked']
      exact SameState.refl _
  · have hcrop : (scheduled p₁ now t).2 = false := hnone
    have hcrop' : (scheduled p₁' now t).2 = false := by
      unfold scheduled
      rw [← hsame.cfg_eq, ← hsize, ← hsame.tick_eq]
      exact hnone'
    rw [hcrop, if_neg Bool.false_ne_true] at hchecked
    rw [hcrop', if_neg Bool.false_ne_true] at hchecked'
    rw [hchecked, hchecked']
    unfold scheduled
    rw [← hsame.cfg_eq, ← hsize, ← hsame.tick_eq]
    exact hout

/-- A frame keeps the states of a track that is in both frames related. Only whether the identity
is known already may depend on other tracks. -/
theorem FrameRun.sameState
    (hrun : FrameRun evaluate utcMs f now p₁ padEntries checked arcEntries frame q)
    (hrun' : FrameRun evaluate utcMs' f' now p₁' padEntries' checked' arcEntries' frame' q')
    (hevaluate : PerFace evaluate) (hframe : f.gpuFrame = f'.gpuFrame)
    (hsame : SameTrackState id p₁ p₁') {t : TrackResult F} (hid : t.trackId = id)
    (ht : t ∈ f.tracks) (ht' : t ∈ f'.tracks) :
    ∃ s s', q.states id = some s ∧ q'.states id = some s' ∧ SameState s s' := by
  have hchecked := hrun.sameState_checked hrun' hevaluate hframe hsame hid ht ht'
  subst hid
  obtain ⟨pad, recognize, hmodels⟩ := hevaluate
  obtain ⟨s, hs, hstate⟩ := hrun.states t ht
  obtain ⟨s', hs', hstate'⟩ := hrun'.states t ht'
  refine ⟨s, s', hs, hs', ?_⟩
  rw [← hsame.cfg_eq, ← hsame.tick_eq] at hstate'
  obtain ⟨hwants, hequal⟩ := hchecked.wantsRecognition p₁.cfg p₁.tick t
  rw [← hwants] at hstate'
  by_cases hselected : wantsRecognition p₁.cfg p₁.tick t (checked t.trackId) = true
  · rw [if_pos hselected] at hstate hstate'
    obtain ⟨r, known, hr, m, gallery, hmatch, rfl⟩ := hstate
    obtain ⟨r', known', hr', m', gallery', hmatch', rfl⟩ := hstate'
    rw [hrun.recognize.answer_eq (fun frame faces => (hmodels frame faces).2) hr] at hmatch ⊢
    rw [hrun'.recognize.answer_eq (fun frame faces => (hmodels frame faces).2) hr', ← hframe,
      ← hequal hselected] at hmatch' ⊢
    have hm := hsame.gallery.match_eq (D := D) (meanEmbedding (accumulate p₁.tick
      (recognize f.gpuFrame t.observation) (raiseQuality p₁.cfg t (checked t.trackId))))
    rw [hmatch, hmatch'] at hm
    obtain rfl : m = m' := Except.ok.inj hm
    exact sameState_conclude _ _ _
  · rw [if_neg hselected] at hstate hstate'
    rw [hstate, hstate']
    exact hchecked

/-- A frame keeps the processors in agreement about the track. A track that is absent from both
frames is treated by its state alone. -/
theorem FrameRun.sameTrackState
    (hrun : FrameRun evaluate utcMs f now p₁ padEntries checked arcEntries frame q)
    (hrun' : FrameRun evaluate utcMs' f' now p₁' padEntries' checked' arcEntries' frame' q')
    (hevaluate : PerFace evaluate) (htrack : SameTrack id f f')
    (hsame : SameTrackState id p₁ p₁') : SameTrackState id q q' where
  cfg_eq := by
    rw [hrun.rest, hrun'.rest]
    exact hsame.cfg_eq
  gallery := (hrun.gallery.trans hsame.gallery).trans hrun'.gallery.symm
  tick_eq := by
    rw [hrun.rest, hrun'.rest]
    exact hsame.tick_eq
  state := by
    by_cases hmem : id ∈ f.tracks.map (·.trackId)
    · obtain ⟨t, ht, hid⟩ := List.mem_map.mp hmem
      obtain ⟨s, s', hs, hs', hstate⟩ := hrun.sameState hrun' hevaluate htrack.1 hsame hid ht
        ((htrack.2 t hid).mp ht)
      rw [hs, hs']
      exact .some hstate
    · have hmem' : id ∉ f'.tracks.map (·.trackId) := by
        intro h
        obtain ⟨t, ht, hid⟩ := List.mem_map.mp h
        exact hmem (hid ▸ List.mem_map_of_mem ((htrack.2 t hid).mpr ht))
      rw [hrun.others id hmem, hrun'.others id hmem']
      exact hsame.state

/-- The snapshot of a track of the frame shows its state at the end. The tracks of the frame have
different identifiers, so that the snapshot is found. -/
theorem FrameRun.snapshotOf_eq
    (hrun : FrameRun evaluate utcMs f now p₁ padEntries checked arcEntries frame q)
    {t : TrackResult F} (ht : t ∈ f.tracks) :
    snapshotOf t.trackId frame = some (snapshot t (q.stateOf t.trackId)) := by
  unfold snapshotOf
  rw [hrun.snapshots, List.find?_map]
  have hfound : f.tracks.find? (fun u => decide (u.trackId = t.trackId)) = some t := by
    have hsome : (f.tracks.find? fun u => decide (u.trackId = t.trackId)).isSome := by
      rw [List.find?_isSome]
      exact ⟨t, ht, by simp⟩
    obtain ⟨u, hu⟩ := Option.isSome_iff_exists.mp hsome
    have hid := List.find?_some hu
    rw [hu, List.inj_on_of_nodup_map hrun.tracks_nodup (List.mem_of_find?_eq_some hu) ht
      (of_decide_eq_true hid)]
  have hfun : ((fun snap : BiometricTrackSnapshot F => decide (snap.trackId = t.trackId)) ∘
      fun u => snapshot u (q.stateOf u.trackId)) = fun u => decide (u.trackId = t.trackId) := rfl
  rw [hfun, hfound, Option.map_some]

/-- A track outside the frame has no snapshot. -/
theorem FrameRun.snapshotOf_eq_none
    (hrun : FrameRun evaluate utcMs f now p₁ padEntries checked arcEntries frame q)
    (hmem : id ∉ f.tracks.map (·.trackId)) : snapshotOf id frame = none := by
  unfold snapshotOf
  rw [hrun.snapshots, List.find?_map, Option.map_eq_none_iff, List.find?_eq_none]
  intro t ht hid
  exact hmem ((of_decide_eq_true hid) ▸ List.mem_map_of_mem ht)

/-- The snapshots of the track agree. They repeat the states, which are related. -/
theorem FrameRun.sameSnapshot
    (hrun : FrameRun evaluate utcMs f now p₁ padEntries checked arcEntries frame q)
    (hrun' : FrameRun evaluate utcMs' f' now p₁' padEntries' checked' arcEntries' frame' q')
    (hevaluate : PerFace evaluate) (htrack : SameTrack id f f')
    (hsame : SameTrackState id p₁ p₁') :
    Option.Rel SameSnapshot (snapshotOf id frame) (snapshotOf id frame') := by
  by_cases hmem : id ∈ f.tracks.map (·.trackId)
  · obtain ⟨t, ht, rfl⟩ := List.mem_map.mp hmem
    have ht' := (htrack.2 t rfl).mp ht
    obtain ⟨s, s', hs, hs', hstate⟩ := hrun.sameState hrun' hevaluate htrack.1 hsame rfl ht ht'
    rw [hrun.snapshotOf_eq ht, hrun'.snapshotOf_eq ht', Impl.stateOf_eq hs, Impl.stateOf_eq hs']
    exact .some (hstate.snapshot t)
  · have hmem' : id ∉ f'.tracks.map (·.trackId) := by
      intro h
      obtain ⟨t, ht, hid⟩ := List.mem_map.mp h
      exact hmem (hid ▸ List.mem_map_of_mem ((htrack.2 t hid).mpr ht))
    rw [hrun.snapshotOf_eq_none hmem, hrun'.snapshotOf_eq_none hmem']
    exact .none

end Frame

omit [FloatPair F D] in
/-- Accepting corresponding frames keeps the processors in agreement. Both count the frame, and
the state of the track is dropped on both sides or on neither. -/
theorem SameTrackState.accept {id : ℕ} {p p' : Impl F D} (hsame : SameTrackState id p p')
    (f f' : FaceTrackingFrame F) (now : ℤ) :
    SameTrackState id (p.accept f now) (p'.accept f' now) where
  cfg_eq := hsame.cfg_eq
  gallery := hsame.gallery
  tick_eq := congrArg (· + 1) hsame.tick_eq
  state := by
    have hstate := hsame.state
    change Option.Rel SameState ((p.states id).filter _) ((p'.states id).filter _)
    rw [hsame.cfg_eq, hsame.tick_eq]
    cases hp : p.states id with
    | none =>
      rw [hp] at hstate
      cases hp' : p'.states id with
      | none => exact .none
      | some s' => rw [hp'] at hstate; cases hstate
    | some s =>
      rw [hp] at hstate
      cases hp' : p'.states id with
      | none => rw [hp'] at hstate; cases hstate
      | some s' =>
        rw [hp'] at hstate
        cases hstate with
        | some hsome =>
          have hseen : s'.seen = s.seen := by
            rcases hsome with rfl | ⟨-, -, heq⟩
            · rfl
            · rw [heq]
          simp only [Option.filter_some, hseen]
          split
          · exact .some hsome
          · exact .none

/-- The snapshot of a track that a call showed; none for a call that is no frame. -/
def Call.shown (id : ℕ) (call : Call F) (p : Impl F D) : List (Option (BiometricTrackSnapshot F)) :=
  match call with
  | .process evaluate utcMs f now =>
    match AttendanceProcessor.process evaluate utcMs f now p with
    | .ok frame _ => [snapshotOf id frame]
    | .error _ _ => []
  | _ => []

/-- The snapshots of a track in the frames of a run. -/
def shownSnapshots (D : Type) [FloatOps D] [FloatPair F D] (c : BiometricAttendanceConfig F)
    (id : ℕ) (calls : List (Call F)) : List (Option (BiometricTrackSnapshot F)) :=
  transcript Call.perform (Call.shown id) ({ cfg := c } : Impl F D) calls

/-- Corresponding calls keep the processors in agreement and show the same snapshot. The other two
calls are the same on both sides and show no snapshot. -/
theorem SameTrackState.perform {id : ℕ} {p p' : Impl F D} {call call' : Call F}
    (hcall : SameCall id call call') (hcomplete : call.Completes p)
    (hcomplete' : call'.Completes p') (hsame : SameTrackState id p p') :
    SameTrackState id (call.perform p) (call'.perform p') ∧
      List.Forall₂ (Option.Rel SameSnapshot) (call.shown id p) (call'.shown id p') := by
  cases hcall with
  | @process evaluate f f' utcMs utcMs' now hevaluate htrack =>
    simp only [Call.Completes, Call.shown, Call.perform] at hcomplete hcomplete' ⊢
    cases hrun : AttendanceProcessor.process evaluate utcMs f now p with
    | error e q => simp only [hrun] at hcomplete
    | ok frame q =>
      cases hrun' : AttendanceProcessor.process evaluate utcMs' f' now p' with
      | error e q' => simp only [hrun'] at hcomplete'
      | ok frame' q' =>
        obtain ⟨-, padEntries, checked, arcEntries, hframe⟩ := wp_ok wp_process hrun
        obtain ⟨-, padEntries', checked', arcEntries', hframe'⟩ := wp_ok wp_process hrun'
        have haccept := hsame.accept f f' now
        exact ⟨hframe.sameTrackState hframe' hevaluate htrack haccept,
          .cons (hframe.sameSnapshot hframe' hevaluate htrack haccept) .nil⟩
  | setGallery templates =>
    refine ⟨?_, .nil⟩
    simp only [Call.perform, AttendanceProcessor.setGallery]
    cases GalleryMatcher.replace D templates with
    | error e => exact hsame
    | ok gallery => exact ⟨hsame.cfg_eq, .refl gallery, rfl, .none⟩
  | reset => exact ⟨⟨hsame.cfg_eq, hsame.gallery, rfl, .none⟩, .nil⟩

/-- Two runs with the same configuration that agree on a track show the same snapshots of
it, up to exchanging the two matched phases. -/
theorem tracks_isolated (c : BiometricAttendanceConfig F) {id : ℕ} {calls calls' : List (Call F)}
    (hcalls : List.Forall₂ (SameCall id) calls calls') (hcomplete : AllComplete D c calls)
    (hcomplete' : AllComplete D c calls') :
    List.Forall₂ (Option.Rel SameSnapshot) (shownSnapshots D c id calls)
      (shownSnapshots D c id calls') := by
  have hstep : ∀ (call call' : Call F) (p p' : Impl F D), SameCall id call call' →
      call.Completes p → call'.Completes p' → SameTrackState id p p' →
      SameTrackState id (call.perform p) (call'.perform p') ∧
        List.Forall₂ (Option.Rel SameSnapshot) (call.shown id p) (call'.shown id p') :=
    fun _ _ _ _ hcall hcompletes hcompletes' hsame => hsame.perform hcall hcompletes hcompletes'
  exact (run_relates hstep hcalls hcomplete hcomplete' ⟨rfl, .refl _, rfl, .none⟩).2

/-- A run of the sample with two tracks: the second one is large and found not to be live. -/
def sparseCalls : List (Call (Extended ℚ)) :=
  [sampleGallery, sampleCall 1 [(7, 112), (8, 224)] 100, sampleCall 2 [(7, 112), (8, 224)] 200]

/-- The same run with three tracks: one stands in front and is recognized first. -/
def crowdedCalls : List (Call (Extended ℚ)) :=
  [sampleGallery, sampleCall 1 [(9, 112), (7, 112), (8, 100)] 100,
    sampleCall 2 [(9, 112), (7, 112), (8, 100)] 200]

/-- Two frames of the sample correspond when the track has the same faces in both. The other faces
may be any. -/
theorem sameCall_sample {frameId id : ℕ} {faces faces' : List (ℕ × ℚ)} {ms : ℤ}
    (hfaces : faces.filter (·.1 = id) = faces'.filter (·.1 = id)) :
    SameCall id (sampleCall frameId faces ms) (sampleCall frameId faces' ms) := by
  have hmem : ∀ face : ℕ × ℚ, face.1 = id → (face ∈ faces ↔ face ∈ faces') := by
    intro face hid
    have hiff : face ∈ faces.filter (·.1 = id) ↔ face ∈ faces'.filter (·.1 = id) := by rw [hfaces]
    simpa [List.mem_filter, hid] using hiff
  refine .process _ _ _ ⟨_, _, fun _ _ => ⟨rfl, rfl⟩⟩ ⟨rfl, fun t hid => ?_⟩
  simp only [sampleFrame, List.mem_map]
  constructor
  · rintro ⟨face, hface, rfl⟩
    exact ⟨face, (hmem face hid).mp hface, rfl⟩
  · rintro ⟨face, hface, rfl⟩
    exact ⟨face, (hmem face hid).mpr hface, rfl⟩

/-- The first track of the sample in the two runs: recognized in one, and a duplicate of the
track in front of it in the other. -/
theorem tracks_isolated_sample :
    List.Forall₂ (Option.Rel SameSnapshot)
      (shownSnapshots (Extended ℚ) sampleConfig 7 sparseCalls)
      (shownSnapshots (Extended ℚ) sampleConfig 7 crowdedCalls) ∧
    (shownSnapshots (Extended ℚ) sampleConfig 7 sparseCalls).map (·.map (·.phase)) =
      [some .checkingPad, some .recognized] ∧
    (shownSnapshots (Extended ℚ) sampleConfig 7 crowdedCalls).map (·.map (·.phase)) =
      [some .checkingPad, some .duplicateIdentity] := by
  refine ⟨tracks_isolated sampleConfig ?_ (by decide +kernel) (by decide +kernel),
    by decide +kernel, by decide +kernel⟩
  exact .cons (.setGallery _) (.cons (sameCall_sample (by decide +kernel))
    (.cons (sameCall_sample (by decide +kernel)) .nil))

end EdgeClient.Vision.AttendanceProcessor
