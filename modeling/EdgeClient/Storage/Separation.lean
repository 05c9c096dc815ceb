import EdgeClient.Basis.Runs
import EdgeClient.Storage.OutboxRules

/-!
# Pending events and dead letters

An event is either pending or a dead letter. Every function of the repository keeps the two
tables apart except `enqueue`, which does not look at the dead letters. As long as they are
apart, giving up an event cannot fail.
-/

namespace EdgeClient.Storage

open Basis OutboxRepository

/-- No event is pending and a dead letter. -/
def Tables.Apart (t : Tables) : Prop :=
  ∀ row ∈ t.outbox, ∀ d ∈ t.deadLetter, d.eventId ≠ row.eventId

/-- A call of the repository, with the end of its transaction. These are all the calls that write
to one of the two tables, and the one that reads the due rows. -/
inductive Operation
  /-- `enqueue`. -/
  | enqueue (record : AttendanceRecord) (outcome : Outcome)
  /-- `ensure_enqueued`. -/
  | ensureEnqueued (record : AttendanceRecord) (outcome : Outcome)
  /-- `due`. -/
  | due (now : ℤ) (limit : ℕ) (outcome : Outcome)
  /-- `retry`. -/
  | retry (rows : List AttendanceRecord) (next : ℤ) (reason : String) (outcome : Outcome)
  /-- `acknowledge`. -/
  | acknowledge (receipts : List DeliveryReceipt) (outcome : Outcome)
  /-- `dead_letter`. -/
  | deadLetter (rows : List AttendanceRecord) (reason : String) (outcome : Outcome)

namespace Operation

/-- The tables after a call, whether it returns or throws. -/
def perform : Operation → Tables → Tables
  | enqueue r o, t => (transact o (OutboxRepository.enqueue r) t).2
  | ensureEnqueued r o, t => (transact o (OutboxRepository.ensureEnqueued r) t).2
  | due now limit o, t => (query o (OutboxRepository.due now limit) t).2
  | retry rows next reason o, t => (transact o (OutboxRepository.retry rows next reason) t).2
  | acknowledge receipts o, t => (transact o (OutboxRepository.acknowledge receipts) t).2
  | deadLetter rows reason o, t => (transact o (OutboxRepository.deadLetter rows reason) t).2

/-- The statements of a call that gives up events do not fail. -/
def Retains : Operation → Tables → Prop
  | acknowledge receipts _, t => (∀ r ∈ receipts, validDisposition r.disposition = true) →
      ∃ t', OutboxRepository.acknowledge receipts t = .ok ((), t')
  | deadLetter rows reason _, t => ∃ t', OutboxRepository.deadLetter rows reason t = .ok ((), t')
  | _, _ => True

/-- An event that is stored without a look at the dead letters is not one of them. -/
def Fresh : Operation → Tables → Prop
  | enqueue r o, t => o ≠ .rolledBack → ∀ d ∈ t.deadLetter, d.eventId ≠ r.id
  | _, _ => True

/-- Whether an operation is fresh is found from the rows of the tables. -/
instance (op : Operation) (t : Tables) : Decidable (op.Fresh t) :=
  match op with
  | enqueue r o =>
    inferInstanceAs (Decidable (o ≠ .rolledBack → ∀ d ∈ t.deadLetter.rows, d.eventId ≠ r.id))
  | ensureEnqueued _ _ | due _ _ _ | retry _ _ _ _ | acknowledge _ _ | deadLetter _ _ _ =>
    isTrue trivial

end Operation

namespace Tables.Apart

variable {t t' : Tables}

/-- A removal is possible and keeps the tables apart. Apart tables have no dead letter of a
pending event, so that the copy finds its identifier free. -/
theorem remove (h : t.Apart) (x : Removal) : ∃ t', Storage.remove t x = .ok t' ∧ t'.Apart := by
  have hok : ∃ t', Storage.remove t x = .ok t' := by
    unfold Storage.remove
    cases x.reason with
    | none => exact ⟨_, rfl⟩
    | some reason =>
      unfold dead retain
      cases hfind : t.outbox.find x.id with
      | none => exact ⟨_, rfl⟩
      | some row =>
        obtain ⟨hrow, -⟩ := Table.find_eq_some.mp hfind
        obtain ⟨inserted, hinsert⟩ :=
          Table.insert_of_free
            (r := (⟨row.eventId, row.payload, reason⟩ : DeadLetterRow)) (h row hrow)
        dsimp only
        rw [hinsert]
        exact ⟨_, rfl⟩
  obtain ⟨t', hrun⟩ := hok
  have hremoved := remove_removed hrun
  refine ⟨t', hrun, fun row hrow d hd => ?_⟩
  rw [hremoved.outbox, Table.mem_keep] at hrow
  obtain ⟨hrow, hkept⟩ := hrow
  obtain hold | ⟨row', hrow', hid, -, hd⟩ := (hremoved.deadLetter d).mp hd
  · exact h row hrow d hold
  · intro heq
    have hne : row.eventId ≠ x.id := by simpa using hkept
    rw [hd, OutboxRow.deadLetter] at heq
    exact hne (heq.symm.trans hid)

/-- A series of removals is possible and keeps the tables apart. -/
theorem removeAll (h : t.Apart) (xs : List Removal) :
    ∃ t', xs.foldlM Storage.remove t = .ok t' ∧ t'.Apart := by
  induction xs generalizing t with
  | nil => exact ⟨t, rfl, h⟩
  | cons x xs ih =>
    obtain ⟨s, hs, hnext⟩ := h.remove x
    obtain ⟨t', ht', hlast⟩ := ih hnext
    exact ⟨t', by rw [List.foldlM_cons, hs]; exact ht', hlast⟩

/-- Valid receipts can be written down. -/
theorem acknowledge (h : t.Apart) {receipts : List DeliveryReceipt}
    (hvalid : ∀ r ∈ receipts, validDisposition r.disposition = true) :
    ∃ t', OutboxRepository.acknowledge receipts t = .ok ((), t') ∧ t'.Apart := by
  obtain ⟨t', ht', hlast⟩ := h.removeAll (receipts.map (·.removal))
  refine ⟨t', ?_, hlast⟩
  rw [OutboxRepository.acknowledge, if_pos (List.all_eq_true.mpr hvalid), settleAll_eq, ht']
  rfl

/-- Events can be given up. Each row is removed from the outbox before its dead letter is
written. -/
theorem deadLetter (h : t.Apart) (rows : List AttendanceRecord) (reason : String) :
    ∃ t', OutboxRepository.deadLetter rows reason t = .ok ((), t') ∧ t'.Apart := by
  obtain ⟨t', ht', hlast⟩ := h.removeAll (rows.map fun r => ⟨r.id, some reason⟩)
  rw [List.foldlM_map] at ht'
  refine ⟨t', ?_, hlast⟩
  unfold OutboxRepository.deadLetter
  simp only [Storage.remove] at ht'
  rw [ht']
  rfl

/-- A new pending event keeps the tables apart just when it is no dead letter. Only the new row
can break the separation, since no other row is touched. -/
theorem insertRow_iff (h : t.Apart) {r : AttendanceRecord} (hrun : insertRow t r = .ok ((), t')) :
    t'.Apart ↔ ∀ d ∈ t.deadLetter, d.eventId ≠ r.id := by
  obtain ⟨-, hrows, hdead, -⟩ := insertRow_ok hrun
  have hmem : ∀ row, row ∈ t'.outbox ↔ row ∈ t.outbox ∨ row = r.row := by
    intro row
    simp [Table.mem_def, hrows]
  constructor
  · intro hapart d hd
    exact hapart r.row ((hmem _).mpr (Or.inr rfl)) d (hdead ▸ hd)
  · intro hfree row hrow d hd
    rw [hdead] at hd
    obtain hrow | rfl := (hmem row).mp hrow
    · exact h row hrow d hd
    · exact hfree d hd

/-- A retry keeps the tables apart. Only times change, so the identifiers of the outbox stay the
same. -/
theorem retry (h : t.Apart) {rows : List AttendanceRecord} {next : ℤ} {reason : String}
    (hrun : OutboxRepository.retry rows next reason t = .ok ((), t')) : t'.Apart := by
  by_cases hrows : rows = []
  · rw [OutboxRepository.retry, if_pos hrows] at hrun
    cases hrun
    exact h
  obtain ⟨⟨f, hdelayed⟩, -⟩ := retry_delayed hrows hrun
  intro row hrow d hd
  rw [Table.mem_def, hdelayed.outbox] at hrow
  obtain ⟨row', hrow', rfl⟩ := List.mem_map.mp hrow
  rw [hdelayed.deadLetter] at hd
  rw [(hdelayed.holds row').1]
  exact h row' hrow' d hd

/-- A transaction keeps the tables apart when its statements do. A transaction that is rolled back
leaves the tables as they were. -/
theorem transact {α : Type} (h : t.Apart) (o : Outcome)
    {statements : Tables → Except Thrown (α × Tables)}
    (hstatements : ∀ a t', statements t = .ok (a, t') → t'.Apart) :
    (Storage.transact o statements t).2.Apart := by
  obtain hsame | ⟨a, t', hrun, hafter⟩ := transact_cases o statements t
  · rw [hsame]
    exact h
  · rw [hafter]
    exact hstatements a t' hrun

/-- A call keeps the tables apart just when it stores no dead letter again. Removals and delays
keep it anyway; only the two insertions have to be looked at. -/
theorem perform_iff (h : t.Apart) (op : Operation) : (op.perform t).Apart ↔ op.Fresh t := by
  cases op with
  | enqueue r o =>
    simp only [Operation.perform, Operation.Fresh]
    cases hrun : OutboxRepository.enqueue r t with
    | error e =>
      -- The event is pending, so it is no dead letter.
      have htaken : ∃ row ∈ t.outbox, row.eventId = r.id := by
        by_contra hfree
        push Not at hfree
        obtain ⟨outbox, hinsert⟩ := Table.insert_of_free (r := r.row) hfree
        rw [OutboxRepository.enqueue, insertRow, hinsert] at hrun
        cases hrun
      obtain ⟨row, hrow, hid⟩ := htaken
      simp only [Storage.transact, hrun]
      exact iff_of_true h fun _ => hid ▸ h row hrow
    | ok result =>
      have hinsert := h.insertRow_iff hrun
      cases o with
      | reported => simpa [Storage.transact, hrun] using hinsert
      | rolledBack => simpa [Storage.transact, hrun] using h
      | uncertain => simpa [Storage.transact, hrun] using hinsert
  | ensureEnqueued r o =>
    refine iff_of_true (h.transact o fun _ t' hrun => ?_) trivial
    obtain ⟨rfl, -⟩ | ⟨-, hfree, hinsert⟩ := ensureEnqueued_cases hrun
    · exact h
    · exact (h.insertRow_iff hinsert).mpr hfree
  | due now limit o =>
    refine iff_of_true ?_ trivial
    rw [Operation.perform, query_tables]
    exact h
  | retry rows next reason o =>
    exact iff_of_true (h.transact o fun _ _ hrun => h.retry hrun) trivial
  | acknowledge receipts o =>
    refine iff_of_true (h.transact o fun _ t' hrun => ?_) trivial
    have hvalid : ∀ r ∈ receipts, validDisposition r.disposition = true := by
      intro r hr
      simpa [validDisposition] using acknowledge_valid hrun r hr
    obtain ⟨s, hs, hapart⟩ := h.acknowledge hvalid
    rw [hrun] at hs
    cases hs
    exact hapart
  | deadLetter rows reason o =>
    refine iff_of_true (h.transact o fun _ t' hrun => ?_) trivial
    obtain ⟨s, hs, hapart⟩ := h.deadLetter rows reason
    rw [hrun] at hs
    cases hs
    exact hapart

/-- While the tables are apart, giving up events cannot fail. The operations that remove rows go
through, and nothing is asked of the others. -/
theorem retains (h : t.Apart) (op : Operation) : op.Retains t := by
  cases op with
  | acknowledge receipts o =>
    intro hvalid
    obtain ⟨t', ht', -⟩ := h.acknowledge hvalid
    exact ⟨t', ht'⟩
  | deadLetter rows reason o =>
    obtain ⟨t', ht', -⟩ := h.deadLetter rows reason
    exact ⟨t', ht'⟩
  | enqueue r o => trivial
  | ensureEnqueued r o => trivial
  | due now limit o => trivial
  | retry rows next reason o => trivial

end Tables.Apart

/-- The tables stay apart, and no batch of receipts is rolled back by a dead letter, just
when no call of `enqueue` stores a dead letter again. -/
theorem stays_apart_iff {t : Tables} (h : t.Apart) (ops : List Operation) :
    (Throughout Operation.perform (fun op t => t.Apart ∧ op.Retains t) t ops ∧
        (runFrom Operation.perform t ops).Apart) ↔
      Throughout Operation.perform Operation.Fresh t ops := by
  rw [← throughout_iff (fun op _ h => h.perform_iff op) h]
  constructor
  · rintro ⟨hall, hlast⟩
    exact ⟨hall.imp fun _ _ hboth => hboth.1, hlast⟩
  · rintro ⟨hall, hlast⟩
    exact ⟨hall.imp fun op _ hapart => ⟨hapart, hapart.retains op⟩, hlast⟩

/-- An event that the server rejects. -/
def rejectedRecord : AttendanceRecord := ⟨"a", "payload", 1, 0, 0⟩

/-- The event is stored, rejected and stored again. -/
def revival : List Operation :=
  [.enqueue rejectedRecord .reported, .acknowledge [⟨"a", "rejected"⟩] .reported,
    .enqueue rejectedRecord .reported]

/-- A new database has no events at all. -/
theorem apart_fresh : (Stored.opened .fresh).Apart := by
  intro row hrow
  cases hrow

/-- The first two calls keep the tables apart. -/
theorem stays_apart_iff_sample :
    Throughout Operation.perform (fun op t => t.Apart ∧ op.Retains t) (Stored.opened .fresh)
        (revival.take 2) ∧
      (runFrom Operation.perform (Stored.opened .fresh) (revival.take 2)).Apart :=
  (stays_apart_iff apart_fresh (revival.take 2)).mpr (by decide)

/-- The third makes the event pending and a dead letter, and the next rejection fails. The
operations are an insertion, a rejection and the same insertion again, each of them committed. -/
theorem enqueue_revives :
    ¬ (runFrom Operation.perform (Stored.opened .fresh) revival).Apart ∧
      ¬ (Operation.acknowledge [⟨"a", "rejected"⟩] .reported).Retains
        (runFrom Operation.perform (Stored.opened .fresh) revival) := by
  constructor
  · intro h
    have hpending : rejectedRecord.row ∈
        (runFrom Operation.perform (Stored.opened .fresh) revival).outbox.rows := by decide
    have hdead : (⟨"a", "payload", "business_rejected"⟩ : DeadLetterRow) ∈
        (runFrom Operation.perform (Stored.opened .fresh) revival).deadLetter.rows := by decide
    exact h _ hpending _ hdead rfl
  · intro h
    obtain ⟨t', ht'⟩ := h (by decide)
    have hfails : (OutboxRepository.acknowledge [⟨"a", "rejected"⟩]
        (runFrom Operation.perform (Stored.opened .fresh) revival)).toBool = false := by decide
    rw [ht'] at hfails
    cases hfails

end EdgeClient.Storage
