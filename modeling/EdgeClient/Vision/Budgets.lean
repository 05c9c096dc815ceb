import EdgeClient.Vision.ExtraAttempts

/-!
# Budgets of a decision

A track gets a bounded number of liveness votes, of recognition attempts in the first
round, and of single attempts after it. The counters are updated and reset in different
combinations. One invariant over all of them, and over the phase that they put the track
in, survives every call that returns.
-/

namespace EdgeClient.Vision.AttendanceProcessor

open Basis

variable {F D : Type} [FloatOps F] [FloatOps D]

/-- The phases in which liveness votes are collected. -/
def undecided (phase : BiometricTrackPhase) : Bool :=
  phase = .waitingQuality ∨ phase = .checkingPad

/-- The counters of a state keep their budgets, and the phase tells which are spent. Each field
bounds one counter, or says which phase may follow from it. -/
structure Budgeted (c : BiometricAttendanceConfig F) (s : State F D) : Prop where
  /-- Every vote is for or against a live face. -/
  votes_eq : s.votes.attempts = s.votes.real + s.votes.spoof
  /-- Every vote has a score. -/
  scores_length : s.scores.length = s.votes.attempts
  /-- The budget of votes. -/
  votes_le : s.votes.attempts ≤ c.padMaxAttempts
  /-- No vote is taken after the track is accepted. -/
  real_le : s.votes.real ≤ c.padBonaFideVotesRequired
  /-- No vote is taken after the track is rejected. -/
  spoof_le : s.votes.spoof ≤ c.padAttackVotesRequired
  /-- The budget of extra attempts. -/
  extra_le : s.extra ≤ c.recognitionExtraAttempts
  /-- The budget of attempts. -/
  attempts_le : s.attempts ≤ c.recognitionMaxAttempts + s.extra
  /-- A track behind the gate has the required votes. -/
  gated : behindGate s.phase = true → Passed c s
  /-- A deferred track has spent its attempts and can earn another. -/
  deferred : s.phase = .recognitionDeferred →
    s.attempts = c.recognitionMaxAttempts + s.extra ∧ s.extra < c.recognitionExtraAttempts
  /-- An unknown face has spent everything. -/
  unknown : s.phase = .unknownIdentity →
    s.attempts = c.recognitionMaxAttempts + c.recognitionExtraAttempts

/-- The stronger facts that carry the budgets through a call: what is left in the phases that
spend them. -/
structure InBudget (c : BiometricAttendanceConfig F) (s : State F D) : Prop
    extends Budgeted c s where
  /-- An undecided track has votes left, and has not been recognized yet. -/
  votes_left : undecided s.phase = true → s.votes.real < c.padBonaFideVotesRequired ∧
    s.votes.spoof < c.padAttackVotesRequired ∧ s.votes.attempts < c.padMaxAttempts ∧
    s.attempts = 0 ∧ s.extra = 0
  /-- A track in recognition has attempts left. -/
  attempts_left : s.phase = .recognizing → s.attempts < c.recognitionMaxAttempts + s.extra

variable {c : BiometricAttendanceConfig F} {s : State F D} {now : ℤ} {tick : ℕ}

/-- A new state. All its counters are zero. -/
theorem inBudget_new (haccepted : BudgetsAccepted c) :
    InBudget c ({ seen := tick } : State F D) where
  votes_eq := rfl
  scores_length := rfl
  votes_le := Nat.zero_le _
  real_le := Nat.zero_le _
  spoof_le := Nat.zero_le _
  extra_le := Nat.zero_le _
  attempts_le := Nat.zero_le _
  gated h := by cases h
  deferred h := by cases h
  unknown h := by cases h
  votes_left _ := ⟨haccepted.bonaFide_pos, haccepted.attack_pos,
    haccepted.bonaFide_pos.trans_le haccepted.bonaFide_le, rfl, rfl⟩
  attempts_left h := by cases h

/-- The budgets are kept at the start of a frame: a counter stays or goes back to zero. -/
theorem InBudget.refreshed (haccepted : BudgetsAccepted c) (hbudget : InBudget c s) :
    InBudget c (refreshed c tick now s) := by
  unfold AttendanceProcessor.refreshed
  split
  · exact inBudget_new haccepted
  · exact { hbudget with }

/-- A deferred track is granted one attempt, which it could still earn. Its regular attempts are
spent, so that only the extra one is left. -/
theorem InBudget.reopenDeferred (hbudget : InBudget c s) : InBudget c (reopenDeferred s) := by
  unfold AttendanceProcessor.reopenDeferred
  split
  · rename_i hphase
    obtain ⟨hattempts, hextra⟩ := hbudget.deferred hphase
    exact { hbudget with
      extra_le := hextra
      attempts_le := by
        dsimp only
        omega
      gated := fun _ => hbudget.gated (by rw [hphase]; rfl)
      deferred := fun h => by cases h
      unknown := fun h => by cases h
      votes_left := fun h => by cases h
      attempts_left := fun _ => by
        dsimp only
        omega }
  · exact hbudget

/-- A reopened track is in recognition, or undecided. Only a deferred track is reopened, and the
other phases that are not concluded are undecided. -/
theorem undecided_reopenDeferred (hconcluded : ¬ concluded s.phase = true)
    (hphase : (AttendanceProcessor.reopenDeferred s).phase ≠ .recognizing) :
    undecided (AttendanceProcessor.reopenDeferred s).phase = true := by
  revert hphase
  unfold AttendanceProcessor.reopenDeferred
  split
  · exact fun h => absurd rfl h
  · intro hphase
    cases heq : s.phase <;> simp_all [undecided, concluded, matched]

/-- An undecided track may be checked. -/
theorem InBudget.checkingPad (hbudget : InBudget c s) (hundecided : undecided s.phase = true) :
    InBudget c { s with phase := .checkingPad } :=
  { hbudget with
    gated := fun h => by cases h
    deferred := fun h => by cases h
    unknown := fun h => by cases h
    votes_left := fun _ => hbudget.votes_left hundecided
    attempts_left := fun h => by cases h }

section Evaluation

variable [FloatPair F D] {t : TrackResult F} {n : ℕ}

/-- Scheduling keeps the budgets, and takes crops of tracks that are being checked. What starts
over is a new state, and what goes on keeps its counters. -/
theorem InBudget.schedule (haccepted : BudgetsAccepted c) (hbudget : InBudget c s) :
    InBudget c (schedule c n tick now t s).1 ∧
      ((schedule c n tick now t s).2 = true →
        (schedule c n tick now t s).1.phase = .checkingPad) := by
  have hrefreshed : InBudget c (AttendanceProcessor.refreshed c tick now s) :=
    hbudget.refreshed haccepted
  rw [schedule_eq]
  split
  · exact ⟨hrefreshed, nofun⟩
  · rename_i hgoes
    dsimp only
    split
    · rename_i hcrop
      have hundecided := undecided_reopenDeferred (not_or.mp hgoes).1 hcrop.1
      exact ⟨hrefreshed.reopenDeferred.checkingPad hundecided, fun _ => rfl⟩
    · exact ⟨hrefreshed.reopenDeferred, nofun⟩

omit [FloatPair F D] in
/-- One more vote on a track that is being checked. It is undecided before the vote, so that none
of its budgets is exhausted. -/
theorem InBudget.addVote {score : F} {decision : LivenessDecision}
    (haccepted : BudgetsAccepted c) (hbudget : InBudget c s) (hphase : s.phase = .checkingPad)
    (hvote : decision ≠ .inputRejected) : InBudget c (addVote c now t score decision s) := by
  obtain ⟨hreal, hspoof, hvotes, hattempts, hextra⟩ :=
    hbudget.votes_left (by rw [hphase]; rfl)
  have hsum := hbudget.votes_eq
  have hlength := hbudget.scores_length
  have hmax := haccepted.recognitionMax_pos
  -- One counter of two grows, together with the number of votes.
  have hadd : (s.votes.add decision).attempts = s.votes.attempts + 1 ∧
      (s.votes.add decision).attempts =
        (s.votes.add decision).real + (s.votes.add decision).spoof ∧
      (s.votes.add decision).real ≤ c.padBonaFideVotesRequired ∧
      (s.votes.add decision).spoof ≤ c.padAttackVotesRequired := by
    cases decision with
    | inputRejected => exact absurd rfl hvote
    | live => refine ⟨rfl, ?_, ?_, ?_⟩ <;> dsimp only [VoteCounts.add] <;> omega
    | spoof => refine ⟨rfl, ?_, ?_, ?_⟩ <;> dsimp only [VoteCounts.add] <;> omega
  obtain ⟨votes, hvotes'⟩ : ∃ votes, votes = s.votes.add decision := ⟨_, rfl⟩
  unfold AttendanceProcessor.addVote
  dsimp only
  rw [hphase, ← hvotes']
  rw [← hvotes'] at hadd
  -- What the new phase says about the votes.
  have hcase : (votedPhase c votes .checkingPad = .rejectedAttack) ∨
      (votedPhase c votes .checkingPad = .recognizing ∧
        c.padBonaFideVotesRequired ≤ votes.real ∧ votes.spoof < c.padAttackVotesRequired) ∨
      (votedPhase c votes .checkingPad = .checkingPad ∧
        votes.real < c.padBonaFideVotesRequired ∧ votes.spoof < c.padAttackVotesRequired ∧
        votes.attempts < c.padMaxAttempts) := by
    unfold votedPhase
    split
    · exact Or.inl rfl
    · split
      · exact Or.inr (Or.inl ⟨rfl, by omega, by omega⟩)
      · split
        · exact Or.inl rfl
        · exact Or.inr (Or.inr ⟨rfl, by omega, by omega, by omega⟩)
  exact {
    votes_eq := hadd.2.1
    scores_length := by
      rw [List.length_append, List.length_singleton, hlength]
      exact hadd.1.symm
    votes_le := by
      dsimp only
      omega
    real_le := hadd.2.2.1
    spoof_le := hadd.2.2.2
    extra_le := hbudget.extra_le
    attempts_le := hbudget.attempts_le
    gated := fun hgate => by
      dsimp only at hgate
      rcases hcase with hnew | ⟨-, hpassed⟩ | ⟨hnew, -⟩
      · rw [hnew] at hgate
        cases hgate
      · exact hpassed
      · rw [hnew] at hgate
        cases hgate
    deferred := fun hnew => by
      dsimp only at hnew
      rcases hcase with h | ⟨h, -⟩ | ⟨h, -⟩ <;> rw [h] at hnew <;> cases hnew
    unknown := fun hnew => by
      dsimp only at hnew
      rcases hcase with h | ⟨h, -⟩ | ⟨h, -⟩ <;> rw [h] at hnew <;> cases hnew
    votes_left := fun hnew => by
      dsimp only at hnew
      rcases hcase with h | ⟨h, -⟩ | ⟨-, hleft⟩
      · rw [h] at hnew
        cases hnew
      · rw [h] at hnew
        cases hnew
      · exact ⟨hleft.1, hleft.2.1, hleft.2.2, hattempts, hextra⟩
    attempts_left := fun _ => by
      dsimp only
      omega }

omit [FloatOps D] [FloatPair F D] in
/-- A classified score is a vote. -/
theorem classifyScore_ne_inputRejected {score threshold : F} {decision : LivenessDecision}
    (hok : classifyScore score threshold = .ok decision) : decision ≠ .inputRejected := by
  rw [classifyScore_eq hok]
  split <;> simp

omit [FloatPair F D] in
/-- A recorded liveness result keeps the budgets. A rejected crop is no vote, and every other
result is one. -/
theorem InBudget.recordPad {r : LivenessResult F} {s' : State F D}
    (haccepted : BudgetsAccepted c) (hbudget : InBudget c s) (hphase : s.phase = .checkingPad)
    (hrun : recordPad c tick now t r s = .ok () s') : InBudget c s' := by
  have hseen : InBudget c { s with lastPad := tick } := { hbudget with }
  have hwp : wp (AttendanceProcessor.recordPad c tick now t r) (fun _ s' => InBudget c s')
      (fun _ => True) s := by
    unfold AttendanceProcessor.recordPad
    rw [wp_bind, wp_modify, wp_ite]
    refine ⟨fun hrejected => ?_, fun _ => ?_⟩
    · rw [hrejected, wp_ite]
      refine ⟨fun _ => trivial, fun _ => ?_⟩
      have hleft := hbudget.votes_left (by rw [hphase]; rfl)
      exact { hseen with
        gated := fun h => by cases h
        deferred := fun h => by cases h
        unknown := fun h => by cases h
        votes_left := fun _ => hleft
        attempts_left := fun h => by cases h }
    · cases r.liveScore with
      | none => trivial
      | some score =>
        dsimp only
        cases hok : classifyScore score c.pad.liveThreshold with
        | error e => trivial
        | ok decision =>
          exact hseen.addVote haccepted hphase (classifyScore_ne_inputRejected hok)
  have hkept := wp_ok hwp hrun
  exact hkept

omit [FloatPair F D] in
/-- A comparison concludes a track whose attempts are spent. A track with attempts left stays in
recognition. -/
theorem InBudget.conclude (known : Bool) (hbudget : Budgeted c s)
    (hphase : s.phase = .recognizing) : InBudget c (conclude c now known s) := by
  have hpassed : Passed c s := hbudget.gated (by rw [hphase]; rfl)
  have hattempts := hbudget.attempts_le
  have hextra := hbudget.extra_le
  -- The state with its phase replaced.
  have hended : ∀ phase terminal,
      (phase = .recognitionDeferred →
        s.attempts = c.recognitionMaxAttempts + s.extra ∧ s.extra < c.recognitionExtraAttempts) →
      (phase = .unknownIdentity →
        s.attempts = c.recognitionMaxAttempts + c.recognitionExtraAttempts) →
      undecided phase = false → phase ≠ .recognizing →
      InBudget c { s with phase, terminal } := by
    intro phase terminal hdeferred hunknown hdecided hends
    exact { hbudget with
      gated := fun _ => hpassed
      deferred := hdeferred
      unknown := hunknown
      votes_left := fun h => absurd (hdecided.symm.trans h) Bool.false_ne_true
      attempts_left := fun h => absurd h hends }
  unfold AttendanceProcessor.conclude
  split
  · cases known with
    | false => exact hended .recognized now nofun nofun rfl nofun
    | true => exact hended .duplicateIdentity now nofun nofun rfl nofun
  · split
    · by_cases hearns : s.extra < c.recognitionExtraAttempts
      · rw [if_pos hearns]
        exact hended .recognitionDeferred s.terminal (fun _ => ⟨by omega, hearns⟩) nofun rfl nofun
      · rw [if_neg hearns]
        exact hended .unknownIdentity s.terminal nofun (fun _ => by omega) rfl nofun
    · exact { hbudget with
        votes_left := fun h => by
          rw [hphase] at h
          cases h
        attempts_left := fun _ => by omega }

/-- A recognition result spends one attempt. A track in recognition has an attempt left, and
nothing else of its budget is touched. -/
theorem RecognizedAs.inBudget {gallery : GalleryMatcher F} {r : ArcFaceResult F} {known : Bool}
    {s' : State F D} (hrecognized : RecognizedAs c gallery tick now r known s s')
    (hbudget : InBudget c s) (hphase : s.phase = .recognizing) : InBudget c s' := by
  obtain ⟨m, gallery', -, rfl⟩ := hrecognized
  have hspent : Budgeted c { accumulate tick r s with «match» := m } :=
    { hbudget with
      attempts_le := hbudget.attempts_left hphase
      deferred := fun h => by cases hphase.symm.trans h
      unknown := fun h => by cases hphase.symm.trans h }
  exact .conclude known hspent hphase

/-! ## Calls -/

variable {evaluate : BiometricEvaluators F} {utcMs : ℕ → ℤ} {f : FaceTrackingFrame F}
  {p q p₁ : Impl F D} {padEntries : List (TrackResult F × LivenessResult F)}
  {checked : ℕ → State F D} {arcEntries : List (TrackResult F × ArcFaceResult F)}
  {frame : BiometricAttendanceFrame F}

/-- All states of a processor are in budget. -/
structure Balanced (c : BiometricAttendanceConfig F) (p : Impl F D) : Prop where
  /-- The configuration. -/
  cfg_eq : p.cfg = c
  /-- The states. -/
  states : ∀ id s, p.states id = some s → InBudget c s

/-- Tracks in recognition are the only ones that are selected for it. -/
theorem phase_of_wantsRecognition (hwants : wantsRecognition c tick t s = true) :
    s.phase = .recognizing := by
  by_contra hphase
  simp [wantsRecognition, hphase] at hwants

/-- The states between the two stages of a call. They come from scheduling, and for the checked
tracks from the liveness result. -/
theorem FrameRun.inBudget_checked (haccepted : BudgetsAccepted c)
    (hrun : FrameRun evaluate utcMs f now p₁ padEntries checked arcEntries frame q)
    (hbalanced : Balanced c p₁) (ht : t ∈ f.tracks) : InBudget c (checked t.trackId) := by
  obtain ⟨hcfg, hstates⟩ := hbalanced
  subst hcfg
  have hold : InBudget p₁.cfg (p₁.stateOf t.trackId) := by
    cases hs : p₁.states t.trackId with
    | none =>
      rw [Impl.stateOf, hs]
      exact inBudget_new haccepted
    | some s =>
      rw [Impl.stateOf_eq hs]
      exact hstates _ s hs
  have hboth : InBudget p₁.cfg (scheduled p₁ now t).1 ∧
      ((scheduled p₁ now t).2 = true → (scheduled p₁ now t).1.phase = .checkingPad) :=
    hold.schedule haccepted
  obtain ⟨hscheduled, hphase⟩ := hboth
  have hchecked := hrun.checked_eq t ht
  split at hchecked
  · rename_i hcrop
    obtain ⟨r, -, hrecord⟩ := hchecked
    exact hscheduled.recordPad haccepted (hphase hcrop) hrecord
  · rw [hchecked]
    exact hscheduled

/-- A frame that returns keeps the budgets. Tracks that are not in the frame keep their states, or
lose them. -/
theorem Balanced.process (haccepted : BudgetsAccepted c) (hbalanced : Balanced c p)
    (hrun : FrameRun evaluate utcMs f now (p.accept f now) padEntries checked arcEntries frame q) :
    Balanced c q := by
  have hcfg : q.cfg = c := by
    rw [hrun.rest]
    exact hbalanced.cfg_eq
  have haccept : Balanced c (p.accept f now) :=
    ⟨hbalanced.cfg_eq, fun id s hs => hbalanced.states id s (Option.filter_eq_some_iff.mp hs).1⟩
  refine ⟨hcfg, fun id s hs => ?_⟩
  by_cases hid : id ∈ f.tracks.map (·.trackId)
  · obtain ⟨t, ht, rfl⟩ := List.mem_map.mp hid
    have hchecked := hrun.inBudget_checked haccepted haccept ht
    obtain ⟨s', hs', hstate⟩ := hrun.states t ht
    obtain rfl : s = s' := Option.some.inj (hs.symm.trans hs')
    rw [haccept.cfg_eq] at hstate
    split at hstate
    · rename_i hwants
      obtain ⟨r, known, -, hrecognized⟩ := hstate
      exact hrecognized.inBudget { hchecked with } (phase_of_wantsRecognition hwants)
    · rw [hstate]
      exact hchecked
  · rw [hrun.others id hid] at hs
    exact haccept.states id s hs

/-- Every call that completes keeps the budgets. The other two calls clear the states. -/
theorem Balanced.perform {call : Call F} (haccepted : BudgetsAccepted c)
    (hbalanced : Balanced c p) (hcomplete : call.Completes p) : Balanced c (call.perform p) := by
  cases call with
  | process evaluate utcMs f now =>
    dsimp only [Call.Completes] at hcomplete
    dsimp only [Call.perform]
    cases hreturns : AttendanceProcessor.process evaluate utcMs f now p with
    | error e q => simp only [hreturns] at hcomplete
    | ok frame q =>
      obtain ⟨-, padEntries, checked, arcEntries, hrun⟩ := wp_ok wp_process hreturns
      exact hbalanced.process haccepted hrun
  | setGallery templates =>
    dsimp only [Call.perform, AttendanceProcessor.setGallery]
    cases hreplace : GalleryMatcher.replace D templates with
    | error e => exact hbalanced
    | ok gallery => exact ⟨hbalanced.cfg_eq, nofun⟩
  | reset => exact ⟨hbalanced.cfg_eq, nofun⟩

/-- The decision budgets of a run without exceptions: in every state that it reaches, the
counters keep their bounds, and the phase of a track tells which budgets it has spent. -/
theorem budgeted_of_complete {calls : List (Call F)}
    (haccepted : validateAttendanceConfig c = .ok ()) (hcomplete : AllComplete D c calls) {id : ℕ}
    {s : State F D} (hs : (afterCalls D c calls).states id = some s) : Budgeted c s := by
  have hbalanced : Balanced c (afterCalls D c calls) :=
    run_maintains (fun _ _ hcomplete hbalanced =>
      hbalanced.perform (budgetsAccepted_of_validate haccepted) hcomplete) ⟨rfl, nofun⟩ hcomplete
  exact (hbalanced.states id s hs).toBudgeted

end Evaluation

/-- A track that has spent its attempts keeps the budgets. -/
theorem budgeted_of_complete_sample : ∃ s,
    (afterCalls (Extended ℚ) briefConfig lateCalls).states 7 = some s ∧ Budgeted briefConfig s := by
  have hsome : ((afterCalls (Extended ℚ) briefConfig lateCalls).states 7).isSome = true := by
    decide +kernel
  obtain ⟨s, hs⟩ := Option.isSome_iff_exists.mp hsome
  exact ⟨s, hs, budgeted_of_complete (by decide +kernel) lateCalls_complete hs⟩

end EdgeClient.Vision.AttendanceProcessor
