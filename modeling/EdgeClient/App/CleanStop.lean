import EdgeClient.App.GalleryConsistency

/-!
# Stopping with pending records

The loop stages the events of a frame at the end of one iteration and commits them at the
beginning of the next one. While the database works, an iteration that is entered commits
everything in front of it, so only the events of the last iteration can be left over, and only
when the request to stop arrived during that iteration. A `stage` that throws keeps none of
its events and ends the run; the events of earlier calls are committed by then.
-/

namespace EdgeClient.App.EdgeApplication

open Basis Vision Storage Sync

variable {F D : Type} [FloatOps F] [FloatOps D] [FloatPair F D]
variable {E : Type} [FloatOps E] [FloatPair F E]

/-- Whether the access to the database in this step, if there is one, succeeds. -/
def Action.storageWorks (a : Action F) (s : EdgeApplication F D) : Bool :=
  match a, s.place with
  | .step c, .commit => s.coordinator.pending.head?.all fun record =>
      (transact c.outcome (OutboxRepository.ensureEnqueued record) s.tables).1.toBool
  | .step c, .load => c.outcome = .reported
  | _, _ => true

/-- The records are those of the events, one for each and in the same order. -/
def RecordsOf (w : Wire E) (device : String) (events : List (Handed F))
    (records : List AttendanceRecord) : Prop :=
  List.Forall₂ (fun x record => x.envelope w device x.frame.gallery.version = .ok record)
    events records

/-- When the events of the pending records were passed to `stage`. -/
def Punctual (s : EdgeApplication F D) (iteration : ℕ) : Place F → Prop
  | .loopTest => iteration = s.iterations
  | .pendingTest | .commit => iteration + 1 = s.iterations
  | .finish | .thrown _ => iteration = s.iterations ∧ s.stopping = true
  | _ => False

/-- With a working database, the committed records come from earlier iterations and the pending
ones from the last one that staged anything. -/
structure Timely (s : EdgeApplication F D) : Prop where
  /-- The next attempt is never put off. -/
  due : s.persistDue ≤ s.clock
  /-- No iteration is entered after the request to stop. -/
  stopped : s.stoppedIn = if s.stopping then some s.iterations else none
  /-- What is committed was staged in an earlier iteration. -/
  settled : ∀ x ∈ s.staged.take s.committed.length, x.iteration < s.iterations
  /-- What is pending was staged in the last one. -/
  waiting : ∀ x ∈ s.staged.drop s.committed.length, s.Punctual x.iteration s.place

section Records

variable {w : Wire E} {device : String} {s : EdgeApplication F D}

omit [FloatPair F D] in
/-- Without pending records every staged one is committed. -/
theorem Kept.length_eq (h : Kept w device s) (hpending : s.coordinator.pending = []) :
    s.committed.length = s.staged.length := by
  have hlength := congrArg List.length h.records
  rw [hpending, List.append_nil, List.length_map] at hlength
  exact hlength.symm

/-- The committed and the pending records are those of the events in front and behind. The journal
of the staged events is cut where the committed records end. -/
theorem Kept.split (h : Kept w device s) (hsound : Sound w device s) :
    RecordsOf w device ((s.staged.take s.committed.length).map (·.toHanded)) s.committed ∧
      RecordsOf w device ((s.staged.drop s.committed.length).map (·.toHanded))
        s.coordinator.pending := by
  have hrecords : ∀ part : List (Staged F), (∀ x ∈ part, x ∈ s.staged) →
      RecordsOf w device (part.map (·.toHanded)) (part.map (·.record)) := by
    intro part hpart
    refine List.forall₂_map_left_iff.mpr (List.forall₂_map_right_iff.mpr ?_)
    exact List.forall₂_same.mpr fun x hx => (hsound.staged x (hpart x hx)).version
  have hcommitted : (s.staged.take s.committed.length).map (·.record) = s.committed := by
    rw [List.map_take, h.records, List.take_left']
    rfl
  have hpending : (s.staged.drop s.committed.length).map (·.record) = s.coordinator.pending := by
    rw [List.map_drop, h.records, List.drop_left']
    rfl
  have hfront := hrecords (s.staged.take s.committed.length) fun x hx => List.mem_of_mem_take hx
  have hback := hrecords (s.staged.drop s.committed.length) fun x hx => List.mem_of_mem_drop hx
  rw [hcommitted] at hfront
  rw [hpending] at hback
  exact ⟨hfront, hback⟩

end Records

namespace Timely

variable {w : Wire E} {device : String} {s : EdgeApplication F D}

omit [FloatPair F D] in
/-- A step that neither stages nor commits anything, inside one iteration. The moments at which
records were staged stay the same, so their deadlines do too. -/
theorem of_eq {t : EdgeApplication F D} (h : Timely s) (hdue : t.persistDue ≤ t.clock)
    (hstaged : t.staged = s.staged) (hcommitted : t.committed = s.committed)
    (hiterations : t.iterations = s.iterations)
    (hstopped : t.stoppedIn = if t.stopping then some t.iterations else none)
    (hwaiting : ∀ x ∈ s.staged.drop s.committed.length, t.Punctual x.iteration t.place) :
    Timely t := by
  refine ⟨hdue, hstopped, ?_, ?_⟩
  · rw [hstaged, hcommitted, hiterations]
    exact h.settled
  · rw [hstaged, hcommitted]
    exact hwaiting

omit [FloatPair F D] in
/-- Without pending records nothing waits. -/
theorem idle (hkept : Kept w device s) (hpending : s.coordinator.pending = [])
    (t : EdgeApplication F D) :
    ∀ x ∈ s.staged.drop s.committed.length, t.Punctual x.iteration t.place := by
  rw [hkept.length_eq hpending, List.drop_length]
  exact fun x hx => absurd hx List.not_mem_nil

omit [FloatPair F D] in
/-- At the test of the loop either the run is over or the next iteration begins. What was staged
in the iteration that ends here counts as late if the run is over. -/
theorem loopTest (h : Timely s) (hplace : s.place = .loopTest) :
    Timely (if s.stopping then { s with place := .finish }
      else { s with iterations := s.iterations + 1, place := .pendingTest }) := by
  have hwaiting := h.waiting
  have hstopped := h.stopped
  rw [hplace] at hwaiting
  by_cases hstopping : s.stopping = true
  · rw [if_pos hstopping]
    exact h.of_eq h.due rfl rfl rfl h.stopped fun x hx => ⟨hwaiting x hx, hstopping⟩
  · rw [if_neg hstopping] at hstopped ⊢
    refine ⟨h.due, ?_, fun x hx => ?_, fun x hx => ?_⟩
    · dsimp only
      rw [hstopped, if_neg hstopping]
    · exact (h.settled x hx).trans (Nat.lt_succ_self _)
    · exact congrArg (· + 1) (hwaiting x hx)

omit [FloatPair F D] in
/-- With a working database pending records are committed at once. -/
theorem testPending (h : Timely s) (hkept : Kept w device s) (hplace : s.place = .pendingTest) :
    Timely s.testPending := by
  have hwaiting := h.waiting
  rw [hplace] at hwaiting
  rcases s.testPending_cases with ⟨hnone, heq⟩ | ⟨-, ⟨hlate, -⟩ | ⟨-, heq⟩⟩
  · rw [heq]
    exact h.of_eq h.due rfl rfl rfl h.stopped (idle hkept hnone _)
  · exact absurd hlate (not_lt.mpr h.due)
  · rw [heq]
    exact h.of_eq h.due rfl rfl rfl h.stopped hwaiting

omit [FloatPair F D] in
/-- The first waiting record is committed, in the iteration behind the one that staged it. A
transaction that works takes its record out of the queue, and the loop of the commits goes on. -/
theorem commitNext (h : Timely s) (hkept : Kept w device s) (hplace : s.place = .commit)
    {c : Circumstances F} (hworks : (Action.step c).storageWorks s = true) :
    Timely (s.commitNext c.outcome) := by
  have hwaiting := h.waiting
  unfold Action.storageWorks at hworks
  rw [hplace] at hwaiting hworks
  rcases s.commitNext_cases c.outcome with ⟨record, rest, tables, -, -, heq⟩ | ⟨hnone, heq⟩ |
    ⟨record, rest, e, tables, hlist, htransact, -⟩
  · rw [heq]
    refine ⟨h.due, h.stopped, fun x hx => ?_, fun x hx => ?_⟩
    · have hmem : x ∈ s.staged := List.mem_of_mem_take hx
      rw [← List.take_append_drop s.committed.length s.staged] at hmem
      rcases List.mem_append.mp hmem with hold | hnext
      · exact h.settled x hold
      · exact Nat.lt_of_succ_le (hwaiting x hnext).le
    · have hlater : x ∈ s.staged.drop s.committed.length := by
        refine (List.drop_sublist_drop_left s.staged ?_).subset hx
        exact (List.length_append ▸ Nat.le_add_right _ _)
      rw [hplace]
      exact hwaiting x hlater
  · rw [heq]
    exact h.of_eq h.due rfl rfl rfl h.stopped (idle hkept hnone _)
  · rw [hlist] at hworks
    have hfailed : (transact c.outcome (OutboxRepository.ensureEnqueued record) s.tables).1.toBool =
        true := hworks
    rw [htransact] at hfailed
    cases hfailed

omit [FloatPair F D] in
/-- The events of the frame wait, and everything else is committed. The queue is empty in front of
`stage`, so that the pending records are those of this frame. -/
theorem stageFrame (h : Timely s) (hkept : Kept w device s) (hnone : s.coordinator.pending = [])
    (random : ℕ → Option (Fin 16 → UInt8)) (frame : Processed F) :
    Timely (s.stageFrame w random frame) := by
  have hlength := hkept.length_eq hnone
  rcases stageFrame_cases w random frame hnone with ⟨e, -, -, heq⟩ | ⟨next, -, heq⟩
  · rw [heq]
    exact h.of_eq h.due rfl rfl rfl h.stopped (idle hkept hnone _)
  · rw [heq]
    refine ⟨h.due, h.stopped, fun x hx => ?_, fun x hx => ?_⟩
    · dsimp only at hx
      rw [hlength, List.take_left] at hx
      exact h.settled x (by rwa [hlength, List.take_length])
    · dsimp only at hx
      rw [hlength, List.drop_left] at hx
      obtain ⟨⟨handed, record⟩, hzip, rfl⟩ := List.mem_map.mp hx
      exact (Sound.of_mem_handedOver (List.of_mem_zip hzip).1).2.2

/-- Every step of the owner keeps the order, as long as the database works. Only the commits and
`stage` touch the records, and they have their own lemmas. -/
theorem step (h : Timely s) (hsound : Sound w device s) (hkept : Kept w device s)
    {c : Circumstances F} (hworks : (Action.step c).storageWorks s = true) :
    Timely (s.step w c) := by
  have hidle := hsound.idle
  unfold EdgeApplication.step
  cases hplace : s.place with
  | loopTest => exact h.loopTest hplace
  | pendingTest => exact h.testPending hkept hplace
  | commit => exact h.commitNext hkept hplace hworks
  | stage frame =>
    rw [hplace] at hidle
    exact h.stageFrame hkept (hidle rfl) c.random frame
  | waitFrame =>
    rw [hplace] at hidle
    dsimp only
    rcases s.waitForFrame_cases c with heq | ⟨what, processor, -, heq⟩ |
      ⟨events, processor, -, heq⟩ <;>
    · rw [heq]
      exact h.of_eq h.due rfl rfl rfl h.stopped (idle hkept (hidle rfl) _)
  | load =>
    rw [hplace] at hidle
    dsimp only
    rcases loadGallery_cases c.outcome (hidle rfl) with heq | heq <;>
    · rw [heq]
      exact h.of_eq h.due rfl rfl rfl h.stopped (idle hkept (hidle rfl) _)
  | install snapshot =>
    rw [hplace] at hidle
    dsimp only
    rcases s.installGallery_cases c.interrupted snapshot with ⟨what, heq⟩ | ⟨matcher, -, heq⟩ <;>
    · rw [heq]
      exact h.of_eq h.due rfl rfl rfl h.stopped (idle hkept (hidle rfl) _)
  | finish =>
    have hwaiting := h.waiting
    rw [hplace] at hwaiting
    dsimp only
    by_cases hnone : s.coordinator.pending = []
    · exact h.of_eq h.due rfl rfl rfl h.stopped (idle hkept hnone _)
    · rw [if_neg hnone]
      exact h.of_eq h.due rfl rfl rfl h.stopped hwaiting
  | returned => exact h
  | thrown e => exact h
  | _ =>
    rw [hplace] at hidle
    exact h.of_eq h.due rfl rfl rfl h.stopped (idle hkept (hidle rfl) _)

omit [FloatPair F D] in
/-- A request to stop arrives in the current iteration. Only the first request counts, and no
iteration begins behind it. -/
theorem stop (h : Timely s) :
    Timely { s with stopping := true, stoppedIn := some s.iterations } := by
  refine h.of_eq h.due rfl rfl rfl rfl fun x hx => ?_
  have hx := h.waiting x hx
  dsimp only
  cases hplace : s.place with
  | finish =>
    rw [hplace] at hx
    exact ⟨hx.1, rfl⟩
  | thrown e =>
    rw [hplace] at hx
    exact ⟨hx.1, rfl⟩
  | _ =>
    rw [hplace] at hx
    exact hx

/-- Whatever happens, the order is kept, as long as the database works. The worker and the clock
touch neither the records nor the iterations. -/
theorem perform (h : Timely s) (hsound : Sound w device s) (hkept : Kept w device s) {a : Action F}
    (hworks : a.storageWorks s = true) : Timely (s.perform w a) := by
  cases a with
  | step c => exact h.step hsound hkept hworks
  | replace o snapshot =>
    unfold EdgeApplication.perform replaceGallery
    dsimp only
    split
    · exact h
    · cases transact o (GalleryRepository.replace D snapshot) s.gallery with
      | mk result gallery =>
        cases result with
        | error e => exact h.of_eq h.due rfl rfl rfl h.stopped h.waiting
        | ok _ => exact h.of_eq h.due rfl rfl rfl h.stopped h.waiting
  | setDirty =>
    unfold EdgeApplication.perform
    dsimp only
    split
    · exact h.of_eq h.due rfl rfl rfl h.stopped h.waiting
    · exact h
  | stop =>
    unfold EdgeApplication.perform
    dsimp only
    split
    · exact h
    · exact h.stop
  | elapse ms =>
    have hdue : s.persistDue ≤ s.clock + ms :=
      h.due.trans (le_add_of_nonneg_right (Int.natCast_nonneg ms))
    exact h.of_eq hdue rfl rfl rfl h.stopped h.waiting

end Timely

end EdgeClient.App.EdgeApplication
