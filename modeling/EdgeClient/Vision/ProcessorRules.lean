import EdgeClient.Vision.AttendanceProcessor

/-!
# Rules for the steps of the processor

Each step of a call is described once by the weakest precondition that it needs:
what it does to the state of its track, and what it leaves alone.
-/

namespace EdgeClient.Vision.AttendanceProcessor

open Basis

/-! ## Durations -/

/-- The conversion to 64 bits never makes a duration longer. -/
theorem nanoseconds_le {n : ℤ} (hnonneg : 0 ≤ n) : nanoseconds n ≤ milliseconds n := by
  by_cases hfits : milliseconds n < 2 ^ 63
  · have hexact : nanoseconds n = milliseconds n :=
      Int.bmod_eq_of_le (by unfold milliseconds; omega) (by omega)
    exact hexact.le
  · have hlt : nanoseconds n < (2 ^ 64 + 1) / 2 := Int.bmod_lt (by decide)
    omega

/-- The longest duration in milliseconds whose nanoseconds fit into 64 bits. -/
def maxMilliseconds : ℤ := 9223372036854

/-- The conversion is exact up to the longest duration that fits, and no further. A number that
wraps around ends up below the half of the range. -/
theorem nanoseconds_eq_iff {n : ℤ} (hnonneg : 0 ≤ n) :
    nanoseconds n = milliseconds n ↔ n ≤ maxMilliseconds := by
  unfold maxMilliseconds
  constructor
  · intro hexact
    have hlt : nanoseconds n < (2 ^ 64 + 1) / 2 := Int.bmod_lt (by decide)
    unfold milliseconds at hexact
    omega
  · intro hbound
    exact Int.bmod_eq_of_le (by unfold milliseconds; omega) (by unfold milliseconds; omega)

variable {F D : Type} [FloatOps F] [FloatOps D]

/-- The state that was written for a track is read back. -/
@[simp] theorem Impl.setState_self (p : Impl F D) (id : ℕ) (s : State F D) :
    (p.setState id s).states id = some s := Function.update_self ..

/-- Writing the state of one track leaves the others alone. -/
theorem Impl.setState_of_ne (p : Impl F D) {id other : ℕ} (s : State F D) (hne : other ≠ id) :
    (p.setState id s).states other = p.states other := Function.update_of_ne hne ..

/-- Writing the state of a track does not touch the configuration. -/
@[simp] theorem Impl.setState_cfg (p : Impl F D) (id : ℕ) (s : State F D) :
    (p.setState id s).cfg = p.cfg := rfl

/-- Writing the state of a track does not touch the gallery. -/
@[simp] theorem Impl.setState_gallery (p : Impl F D) (id : ℕ) (s : State F D) :
    (p.setState id s).gallery = p.gallery := rfl

/-- Writing the state of a track does not touch the cooldowns. -/
@[simp] theorem Impl.setState_emitted (p : Impl F D) (id : ℕ) (s : State F D) :
    (p.setState id s).emitted = p.emitted := rfl

/-- Writing the state of a track does not touch the tick. -/
@[simp] theorem Impl.setState_tick (p : Impl F D) (id : ℕ) (s : State F D) :
    (p.setState id s).tick = p.tick := rfl

/-- Writing the state of a track does not touch the counters of the evaluations. -/
@[simp] theorem Impl.setState_evaluations (p : Impl F D) (id : ℕ) (s : State F D) :
    (p.setState id s).evaluations = p.evaluations := rfl

/-- A computation on a track needs its precondition on the state of that track. -/
@[simp] theorem wp_atTrack {α : Type} {Q : α → Impl F D → Prop} {E : Impl F D → Prop}
    {p : Impl F D} {id : ℕ} {m : EStateM String (State F D) α} :
    wp (atTrack id m) Q E p ↔ (p.states id = none → E p) ∧ ∀ s, p.states id = some s →
      wp m (fun a s => Q a (p.setState id s)) (fun s => E (p.setState id s)) s := by
  unfold wp atTrack
  cases p.states id with
  | none => simp
  | some s => cases hrun : m s <;> simp [hrun]

/-- The case of a track that has a state. -/
theorem wp_atTrack_some {α : Type} {Q : α → Impl F D → Prop} {E : Impl F D → Prop}
    {p : Impl F D} {id : ℕ} {m : EStateM String (State F D) α} {s : State F D}
    (hs : p.states id = some s) :
    wp (atTrack id m) Q E p ↔
      wp m (fun a s => Q a (p.setState id s)) (fun s => E (p.setState id s)) s := by
  simp [hs]

/-- The track has a state with the given property. -/
def HasState (p : Impl F D) (id : ℕ) (P : State F D → Prop) : Prop :=
  ∃ s, p.states id = some s ∧ P s

/-- Replacing the state of one track by a state that keeps the property keeps it for
every track. -/
theorem HasState.setState {p : Impl F D} {P : State F D → Prop} {id other : ℕ} {s s' : State F D}
    (hhas : HasState p other P) (hs : p.states id = some s) (hkeep : P s → P s') :
    HasState (p.setState id s') other P := by
  obtain ⟨old, hold, hP⟩ := hhas
  by_cases hother : other = id
  · subst hother
    rw [hs] at hold
    exact ⟨s', Impl.setState_self p other s', hkeep (Option.some.inj hold ▸ hP)⟩
  · exact ⟨old, by rw [Impl.setState_of_ne p s' hother, hold], hP⟩

/-- Storing the state of another track keeps a property. -/
theorem HasState.setState_of_ne {p : Impl F D} {P : State F D → Prop} {id other : ℕ}
    {s : State F D} (hhas : HasState p other P) (hne : other ≠ id) :
    HasState (p.setState id s) other P := by
  obtain ⟨old, hold, hP⟩ := hhas
  exact ⟨old, by rw [Impl.setState_of_ne p s hne, hold], hP⟩

/-- A comparison concludes a track without touching its votes and records. -/
theorem conclude_eq (c : BiometricAttendanceConfig F) (now : ℤ) (known : Bool) (s : State F D) :
    ∃ phase terminal, conclude c now known s = { s with phase, terminal } := by
  unfold conclude
  split
  · exact ⟨_, _, rfl⟩
  · split
    · exact ⟨_, s.terminal, rfl⟩
    · exact ⟨s.phase, s.terminal, rfl⟩

section Evaluation

variable [FloatPair F D] {p : Impl F D} {s : State F D}

/-- The decision of a score, when there is one, compares it with the threshold. -/
theorem classifyScore_eq {score threshold : F} {decision : LivenessDecision}
    (hok : classifyScore score threshold = .ok decision) :
    decision = if threshold ≤ score then .live else .spoof := by
  unfold classifyScore at hok
  split at hok
  · cases hok
  · exact (Except.ok.inj hok).symm

/-- Scheduling replaces the state of one track. -/
@[simp] theorem wp_scheduleTrack {now : ℤ} {padTracks : List (TrackResult F)} {t : TrackResult F}
    {Q : List (TrackResult F) → Impl F D → Prop} {E : Impl F D → Prop} :
    wp (scheduleTrack now padTracks t) Q E p ↔
      let out := schedule p.cfg p.gallery.size p.tick now t ((p.states t.trackId).getD {})
      Q (if out.2 then padTracks ++ [t] else padTracks) (p.setState t.trackId out.1) := by
  simp [scheduleTrack]

/-- Selection raises the best quality of the tracks it takes. -/
theorem wp_selectTrack {arcTracks : List (TrackResult F)} {t : TrackResult F}
    {Q : List (TrackResult F) → Impl F D → Prop} {E : Impl F D → Prop}
    (hs : p.states t.trackId = some s) :
    wp (selectTrack arcTracks t) Q E p ↔
      if wantsRecognition p.cfg p.tick t s then
        Q (arcTracks ++ [t]) (p.setState t.trackId (raiseQuality p.cfg t s))
      else Q arcTracks (p.setState t.trackId s) := by
  by_cases hwants : wantsRecognition p.cfg p.tick t s = true <;> simp [selectTrack, hs, hwants]

/-- A comparison with the gallery replaces the gallery's buffer. A comparison that throws leaves
the processor as it was. -/
theorem wp_matchGallery {query : Embedding F} {Q : GalleryMatch F → Impl F D → Prop}
    {E : Impl F D → Prop} :
    wp (matchGallery query) Q E p ↔
      match p.gallery.match D query with
      | .error _ => E p
      | .ok (m, gallery) => Q m { p with gallery } := by
  unfold matchGallery
  rw [wp_bind, wp_get]
  cases p.gallery.match D query <;> simp

/-- The processor after one recognition result with the comparison `m`. -/
def afterRecognition (now : ℤ) (id : ℕ) (m : GalleryMatch F) (gallery : GalleryMatcher F)
    (s : State F D) (p : Impl F D) : Impl F D :=
  let known := (p.emitted m.identityId).isSome
  { p.setState id (conclude p.cfg now known { s with «match» := m }) with
    gallery
    emitted := if accepts p.cfg m ∧ known = false then
      Function.update p.emitted m.identityId (some now) else p.emitted }

/-- A recognition result is added to its track and compared with the gallery. The rule is for a
track that has a state, as all tracks of a batch have. -/
theorem wp_recordRecognition {utcMs : ℕ → ℤ} {f : FaceTrackingFrame F} {now : ℤ}
    {events : List (AttendanceEvent F)} {t : TrackResult F} {r : ArcFaceResult F}
    {Q : List (AttendanceEvent F) → Impl F D → Prop} {E : Impl F D → Prop}
    (hs : p.states t.trackId = some s) :
    wp (recordRecognition utcMs f now events (t, r)) Q E p ↔
      let added := accumulate p.tick r s
      match p.gallery.match D (meanEmbedding added) with
      | .error _ => E (p.setState t.trackId added)
      | .ok (m, gallery) =>
        let known := (p.emitted m.identityId).isSome
        Q (if accepts p.cfg m ∧ known = false then
            events ++ [makeEvent (utcMs events.length) f t.trackId
              (conclude p.cfg now known { added with «match» := m })]
          else events)
          (afterRecognition now t.trackId m gallery added p) := by
  unfold recordRecognition
  dsimp only
  rw [wp_bind, wp_get, wp_bind, wp_atTrack_some hs, wp_bind, wp_modify, wp_bind, wp_get, wp_pure,
    wp_bind, wp_matchGallery, Impl.setState_gallery]
  cases p.gallery.match D (meanEmbedding (accumulate p.tick r s)) with
  | error e => rfl
  | ok out =>
    obtain ⟨m, gallery⟩ := out
    have hstored : ({ p.setState t.trackId (accumulate p.tick r s) with gallery } :
        Impl F D).states t.trackId = some (accumulate p.tick r s) := Impl.setState_self ..
    dsimp only
    rw [wp_bind, wp_atTrack_some hstored, wp_bind, wp_modify, wp_get, wp_ite]
    cases haccepts : accepts p.cfg m with
    | false => simp [Impl.setState, afterRecognition, haccepts]
    | true =>
      cases hemitted : p.emitted m.identityId with
      | none => simp [Impl.setState, afterRecognition, haccepts, hemitted]
      | some time => simp [Impl.setState, afterRecognition, haccepts, hemitted]

end Evaluation

end EdgeClient.Vision.AttendanceProcessor
