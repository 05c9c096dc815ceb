import EdgeClient.Basis.Runs
import EdgeClient.Sync.WorkingStorage

/-!
# The outbox drains in order

Two filters guard the query for due rows: the time of the row and the time of the
endpoint. The first never hides a row that the second lets through, because a row is
delayed only together with the endpoint. The due rows are therefore the oldest ones, and
steps that are answered take them away from the front, one batch each.
-/

namespace EdgeClient.Sync

open Basis Storage

variable {D : Type} [FloatOps D] {w : Wire D} {device : String}

/-! ## The order of the rows -/

namespace OutboxOrder

/-- Two rows of the outbox are always in one of the two orders: by time, and by identifier at
equal times. -/
instance : Std.Total OutboxRepository.Before := by
  refine ⟨fun a b => ?_⟩
  unfold OutboxRepository.Before
  rcases lt_trichotomy a.occurredMs b.occurredMs with h | h | h
  · exact Or.inl (Or.inl h)
  · rcases le_total a.eventId b.eventId with hid | hid
    · exact Or.inl (Or.inr ⟨h, hid⟩)
    · exact Or.inr (Or.inr ⟨h.symm, hid⟩)
  · exact Or.inr (Or.inl h)

/-- The order of the outbox is transitive. -/
instance : IsTrans OutboxRow OutboxRepository.Before := by
  refine ⟨fun a b c hab hbc => ?_⟩
  unfold OutboxRepository.Before at hab hbc ⊢
  rcases hab with hab | ⟨hab, hid⟩
  · rcases hbc with hbc | ⟨hbc, -⟩
    · exact Or.inl (hab.trans hbc)
    · exact Or.inl (hbc ▸ hab)
  · rcases hbc with hbc | ⟨hbc, hid'⟩
    · exact Or.inl (hab ▸ hbc)
    · exact Or.inr ⟨hab.trans hbc, hid.trans hid'⟩

/-- Rows that are before each other have one identifier. Each must be the earlier one or have the
smaller identifier. -/
theorem id_eq {a b : OutboxRow} (hab : OutboxRepository.Before a b)
    (hba : OutboxRepository.Before b a) : a.eventId = b.eventId := by
  unfold OutboxRepository.Before at hab hba
  rcases hab with hab | ⟨hab, hid⟩
  · rcases hba with hba | ⟨hba, -⟩
    · exact absurd hab (not_lt.mpr hba.le)
    · exact absurd hba hab.ne'
  · rcases hba with hba | ⟨-, hid'⟩
    · exact absurd hab hba.ne'
    · exact le_antisymm hid hid'

end OutboxOrder

/-- The pending rows, the oldest first. -/
def pendingRows (t : Tables) : List OutboxRow := t.outbox.rows.insertionSort OutboxRepository.Before

/-- The pending rows are the rows of the outbox. -/
theorem mem_pendingRows {t : Tables} {row : OutboxRow} : row ∈ pendingRows t ↔ row ∈ t.outbox :=
  List.mem_insertionSort _

/-- Sorting the outbox drops no row. -/
theorem length_pendingRows (t : Tables) : (pendingRows t).length = t.outbox.rows.length :=
  List.length_insertionSort _ _

/-- No event is pending twice. -/
theorem nodup_pendingRows (t : Tables) : ((pendingRows t).map (·.eventId)).Nodup :=
  ((List.perm_insertionSort _ _).map _).nodup_iff.mpr t.outbox.nodup

/-- Removing rows does not change the order of the others. Both lists are sorted and have the same
rows, and the order decides between different rows. -/
theorem pendingRows_keep {t t' : Tables} {p : OutboxRow → Bool} (h : t'.outbox = t.outbox.keep p) :
    pendingRows t' = (pendingRows t).filter p := by
  have hrows : t'.outbox.rows = t.outbox.rows.filter p := by rw [h, Table.rows_keep]
  have hperm : (pendingRows t').Perm ((pendingRows t).filter p) := by
    unfold pendingRows
    rw [hrows]
    exact (List.perm_insertionSort _ _).trans ((List.perm_insertionSort _ _).filter p).symm
  refine List.Perm.eq_of_pairwise (fun a b ha hb hab hba => ?_)
    (List.pairwise_insertionSort OutboxRepository.Before _)
    ((List.pairwise_insertionSort OutboxRepository.Before t.outbox.rows).filter p) hperm
  have ha' := hperm.subset ha
  exact Table.eq_of_key (mem_pendingRows.mp (List.mem_of_mem_filter ha'))
    (mem_pendingRows.mp (List.mem_of_mem_filter hb)) (OutboxOrder.id_eq hab hba)

/-- Removing the first rows of a list with distinct keys. What is removed by its keys is then
removed by its positions. -/
theorem filter_not_mem_take {α κ : Type} [DecidableEq κ] {key : α → κ} {l : List α}
    (h : (l.map key).Nodup) (n : ℕ) :
    l.filter (fun a => key a ∉ (l.take n).map key) = l.drop n := by
  have hdisjoint : ∀ a ∈ l.take n, ∀ b ∈ l.drop n, key a ≠ key b := by
    rw [← List.take_append_drop n l, List.map_append, List.nodup_append] at h
    intro a ha b hb
    exact h.2.2 _ (List.mem_map_of_mem ha) _ (List.mem_map_of_mem hb)
  have hfront : (l.take n).filter (fun a => key a ∉ (l.take n).map key) = [] := by
    rw [List.filter_eq_nil_iff]
    intro a ha hgone
    exact of_decide_eq_true hgone (List.mem_map_of_mem ha)
  have hback : (l.drop n).filter (fun a => key a ∉ (l.take n).map key) = l.drop n := by
    rw [List.filter_eq_self]
    intro b hb
    refine decide_eq_true fun hmem => ?_
    obtain ⟨a, ha, heq⟩ := List.mem_map.mp hmem
    exact hdisjoint a ha b hb heq
  calc l.filter (fun a => key a ∉ (l.take n).map key)
      = (l.take n).filter (fun a => key a ∉ (l.take n).map key) ++
          (l.drop n).filter (fun a => key a ∉ (l.take n).map key) := by
        rw [← List.filter_append, List.take_append_drop]
    _ = l.drop n := by rw [hfront, hback, List.nil_append]

/-! ## The two filters -/

/-- A change of the outbox by one repository function. Each is the body of one transaction of the
source. -/
inductive Mutation
  /-- `enqueue`. -/
  | enqueue (r : AttendanceRecord)
  /-- `ensure_enqueued`. -/
  | ensureEnqueued (r : AttendanceRecord)
  /-- `retry`. -/
  | retry (rows : List AttendanceRecord) (next : ℤ) (reason : String)
  /-- `acknowledge`. -/
  | acknowledge (receipts : List DeliveryReceipt)
  /-- `dead_letter`. -/
  | deadLetter (rows : List AttendanceRecord) (reason : String)

/-- The statements of the function. -/
def Mutation.statements : Mutation → Tables → Except Thrown (Unit × Tables)
  | enqueue r => OutboxRepository.enqueue r
  | ensureEnqueued r => OutboxRepository.ensureEnqueued r
  | retry rows next reason => OutboxRepository.retry rows next reason
  | acknowledge receipts => OutboxRepository.acknowledge receipts
  | deadLetter rows reason => OutboxRepository.deadLetter rows reason

/-- Run the function; its transaction may end in any way. -/
def Mutation.perform (m : Mutation × Outcome) (t : Tables) : Tables :=
  (transact m.2 m.1.statements t).2

/-- The tables after a series of changes. -/
def mutated (stored : Stored) (mutations : List (Mutation × Outcome)) : Tables :=
  runFrom Mutation.perform stored.opened mutations

/-- A new database, or one of an earlier release without negative times. -/
def Stored.Regular : Stored → Prop
  | .fresh => True
  | .v1 tables => ∀ row ∈ tables.outbox, 0 ≤ row.nextMs
  | .v2 _ => False

/-- No row is delayed longer than the endpoint. -/
def Settled (t : Tables) : Prop :=
  0 ≤ t.retryNotBeforeMs ∧ ∀ row ∈ t.outbox, row.nextMs ≤ t.retryNotBeforeMs

variable {t t' : Tables}

/-- Removing rows keeps the rest settled. -/
theorem Settled.removed {xs : List Removal} (h : Settled t) (hremoved : AllRemoved t xs t') :
    Settled t' := by
  unfold Settled
  rw [hremoved.delivery, hremoved.outbox]
  exact ⟨h.1, fun row hrow => h.2 row (Table.mem_keep.mp hrow).1⟩

/-- A row that is inserted has no delay, so the tables stay settled. -/
theorem Settled.inserted {r : AttendanceRecord} (h : Settled t)
    (hinsert : OutboxRepository.insertRow t r = .ok ((), t')) : Settled t' := by
  obtain ⟨-, hrows, -, hdelivery⟩ := OutboxRepository.insertRow_ok hinsert
  unfold Settled
  rw [hdelivery]
  refine ⟨h.1, fun row hrow => ?_⟩
  rw [Table.mem_def, hrows] at hrow
  rcases List.mem_append.mp hrow with hold | hlast
  · exact h.2 row hold
  · rw [List.mem_singleton.mp hlast]
    exact h.1

/-- A delayed row is due when the endpoint may be asked again, so the tables stay settled. The
times of the rows and that of the endpoint are set in one transaction. -/
theorem Settled.delayed {rows : List AttendanceRecord} {next : ℤ} {reason : String} (h : Settled t)
    (hretry : OutboxRepository.retry rows next reason t = .ok ((), t')) : Settled t' := by
  by_cases hrows : rows = []
  · rw [OutboxRepository.retry, if_pos hrows] at hretry
    cases hretry
    exact h
  · obtain ⟨⟨f, hf⟩, hdelivery⟩ := OutboxRepository.retry_delayed hrows hretry
    unfold Settled
    rw [hdelivery]
    refine ⟨h.1.trans (le_max_left _ _), fun row hrow => ?_⟩
    rw [Table.mem_def, hf.outbox] at hrow
    obtain ⟨row', hrow', rfl⟩ := List.mem_map.mp hrow
    rw [hf.next]
    split
    · exact le_max_right _ _
    · exact (h.2 row' hrow').trans (le_max_left _ _)

/-- Every repository function keeps the tables settled. Each of them inserts, removes or delays,
and has its lemma for that. -/
theorem Settled.perform {m : Mutation × Outcome} (h : Settled t) :
    Settled (Mutation.perform m t) := by
  obtain ⟨m, o⟩ := m
  rcases transact_cases o m.statements t with heq | ⟨⟨⟩, t', hrun, heq⟩
  · rw [Mutation.perform, heq]
    exact h
  · rw [Mutation.perform, heq]
    cases m with
    | enqueue r => exact h.inserted hrun
    | ensureEnqueued r =>
      rcases OutboxRepository.ensureEnqueued_cases hrun with ⟨rfl, -⟩ | ⟨-, -, hinsert⟩
      · exact h
      · exact h.inserted hinsert
    | retry rows next reason => exact h.delayed hrun
    | acknowledge receipts => exact h.removed (OutboxRepository.acknowledge_removed hrun)
    | deadLetter rows reason => exact h.removed (OutboxRepository.deadLetter_removed hrun)

/-- Regular tables are settled when the database is opened. -/
theorem settled_opened {stored : Stored} (h : Stored.Regular stored) : Settled stored.opened := by
  cases stored with
  | fresh =>
    refine ⟨le_rfl, fun row hrow => ?_⟩
    cases hrow
  | v1 tables => exact ⟨maxNextMs_nonneg h, fun row hrow => le_maxNextMs hrow⟩
  | v2 tables => cases h

/-- Tables stay settled over any mutations, committed or not. -/
theorem settled_mutated {stored : Stored} {mutations : List (Mutation × Outcome)}
    (h : Stored.Regular stored) : Settled (mutated stored mutations) :=
  run_preserves (fun _ _ h => h.perform) mutations (settled_opened h)

/-- The due rows are none while the endpoint is delayed, and the oldest rows otherwise. Settled
tables have no row that is due later than the endpoint, so that one comparison decides. -/
theorem due_eq (h : Settled t) (now : ℤ) (limit : ℕ) :
    OutboxRepository.due now limit t =
      if now < t.retryNotBeforeMs then []
      else ((pendingRows t).take (min limit 100)).map (·.record) := by
  unfold OutboxRepository.due pendingRows
  split
  · rename_i hnow
    have hnone : t.outbox.rows.filter (fun row =>
        decide (row.nextMs ≤ now ∧ t.retryNotBeforeMs ≤ now)) = [] := by
      rw [List.filter_eq_nil_iff]
      intro row _ hdue
      exact absurd (of_decide_eq_true hdue).2 (not_le.mpr hnow)
    rw [hnone]
    simp
  · rename_i hnow
    have hall : t.outbox.rows.filter (fun row =>
        decide (row.nextMs ≤ now ∧ t.retryNotBeforeMs ≤ now)) = t.outbox.rows := by
      rw [List.filter_eq_self]
      intro row hrow
      have hendpoint := not_lt.mp hnow
      exact decide_eq_true ⟨(h.2 row hrow).trans hendpoint, hendpoint⟩
    rw [hall]

/-! ## Answered steps -/

/-- A batch with the receipts for it. -/
abbrev Receipted := List AttendanceRecord × List DeliveryReceipt

/-- The batch was sent and answered. -/
def Exchanged (w : Wire D) (device : String) (x : Post) (b : Receipted) : Prop :=
  batchPayload w device b.1 = .ok x.body ∧ parseReceipts w x.reply.body b.1 = .ok b.2

/-- The first `n` rows were sent in order, in these batches, and are gone; the rejected
ones are dead letters. -/
structure Drained (w : Wire D) (device : String) (s : Line) (n : ℕ) (s' : Line)
    (more : List Post) (batches : List Receipted) : Prop where
  /-- The batches were sent. -/
  posts : s'.posts = s.posts ++ more
  /-- They were answered. -/
  exchanged : List.Forall₂ (Exchanged w device) more batches
  /-- They are the first rows. -/
  sent : (batches.map (·.1)).flatten = ((pendingRows s.tables).take n).map (·.record)
  /-- The other rows remain. -/
  rest : pendingRows s'.tables = (pendingRows s.tables).drop n
  /-- The rejected events are new dead letters. -/
  deadLetter : ∀ d, d ∈ s'.tables.deadLetter ↔ d ∈ s.tables.deadLetter ∨
    ∃ b ∈ batches, ∃ q ∈ b.1, ⟨q.id, "rejected"⟩ ∈ b.2 ∧ d = ⟨q.id, q.payload, "business_rejected"⟩
  /-- The endpoint is not delayed. -/
  delivery : s'.tables.retryNotBeforeMs = s.tables.retryNotBeforeMs

namespace Drained

variable {s s' s'' : Line} {n m : ℕ} {posts posts' : List Post} {batches batches' : List Receipted}

/-- Nothing is left to be drained from an empty outbox. -/
theorem none (s : Line) (h : pendingRows s.tables = []) (n : ℕ) :
    Drained w device s n s [] [] := by
  refine ⟨(List.append_nil _).symm, .nil, ?_, ?_, fun d => ?_, rfl⟩
  · rw [h]
    simp
  · rw [h]
    simp
  · simp

/-- One after the other. The second run starts with what the first one has left. -/
theorem append (h : Drained w device s n s' posts batches)
    (h' : Drained w device s' m s'' posts' batches') :
    Drained w device s (n + m) s'' (posts ++ posts') (batches ++ batches') := by
  refine ⟨?_, List.rel_append h.exchanged h'.exchanged, ?_, ?_, fun d => ?_,
    h'.delivery.trans h.delivery⟩
  · rw [h'.posts, h.posts, List.append_assoc]
  · rw [List.map_append, List.flatten_append, h.sent, h'.sent, h.rest, ← List.map_append,
      List.take_add]
  · rw [h'.rest, h.rest, List.drop_drop]
  · rw [h'.deadLetter, h.deadLetter, or_assoc]
    simp only [List.mem_append, or_and_right, exists_or]

/-- The rows that remain were there before. -/
theorem mem_outbox (h : Drained w device s n s' posts batches) {row : OutboxRow}
    (hrow : row ∈ s'.tables.outbox) : row ∈ s.tables.outbox := by
  rw [← mem_pendingRows, h.rest] at hrow
  exact mem_pendingRows.mp (List.mem_of_mem_drop hrow)

/-- A row that was sent does not remain. The rows that were sent are the first ones, and those
that remain are the others. -/
theorem gone (h : Drained w device s n s' posts batches) {b : Receipted} (hb : b ∈ batches)
    {q : AttendanceRecord} (hq : q ∈ b.1) {row : OutboxRow} (hrow : row ∈ s'.tables.outbox) :
    row.eventId ≠ q.id := by
  have hsent : q ∈ ((pendingRows s.tables).take n).map (·.record) := by
    rw [← h.sent, List.mem_flatten]
    exact ⟨b.1, List.mem_map_of_mem hb, hq⟩
  obtain ⟨row', hrow', rfl⟩ := List.mem_map.mp hsent
  rw [← mem_pendingRows, h.rest, ← filter_not_mem_take (nodup_pendingRows s.tables) n,
    List.mem_filter] at hrow
  intro heq
  exact of_decide_eq_true hrow.2 (heq ▸ List.mem_map_of_mem hrow')

end Drained

/-- What the drain needs of the pending rows: they are due at all these times, can be sent,
and are no dead letters. -/
structure Ready (w : Wire D) (device : String) (s : Line) (nows : List ℤ) : Prop where
  /-- They are due. -/
  due : ∀ now ∈ nows, ∀ row ∈ s.tables.outbox, row.nextMs ≤ now ∧ s.tables.retryNotBeforeMs ≤ now
  /-- They can be sent. -/
  writable : ∀ row ∈ s.tables.outbox, Writable w device row.record
  /-- They are no dead letters. -/
  alive : ∀ row ∈ s.tables.outbox, ∀ d ∈ s.tables.deadLetter, d.eventId ≠ row.eventId

section Steps

variable {c : StepCall} {s s' : Line} {nows : List ℤ}

/-- The batch of a step is the beginning of the pending rows. All rows are due, so the limit alone
cuts the batch. -/
theorem batch_eq
    (h : ∀ row ∈ s.tables.outbox, row.nextMs ≤ c.now ∧ s.tables.retryNotBeforeMs ≤ c.now) :
    c.batch s = ((pendingRows s.tables).take 32).map (·.record) := by
  have hall : s.tables.outbox.rows.filter (fun row =>
      decide (row.nextMs ≤ c.now ∧ s.tables.retryNotBeforeMs ≤ c.now)) = s.tables.outbox.rows := by
    rw [List.filter_eq_self]
    exact fun row hrow => decide_eq_true (h row hrow)
  unfold StepCall.batch OutboxRepository.due pendingRows OutboxRepository.dueLimit
  rw [hall]
  rfl

/-- A step that is answered takes one batch away. The receipts of the answer remove exactly the
rows that were sent. -/
theorem perform_drained (hready : Ready w device s (c.now :: nows))
    (hserver : c.Answers w device (c.batch s)) :
    ∃ posts batches, Drained w device s 32 (c.perform w device s) posts batches := by
  have hbatch := batch_eq (hready.due c.now List.mem_cons_self)
  by_cases hrows : c.batch s = []
  · have hnone : pendingRows s.tables = [] := by
      rw [hbatch, List.map_eq_nil_iff, List.take_eq_nil_iff] at hrows
      simpa using hrows
    have hidle : c.perform w device s = s := StepCall.perform_idle hrows
    exact ⟨[], [], hidle.symm ▸ Drained.none s hnone 32⟩
  · have hwritable : ∀ r ∈ c.batch s, Writable w device r := by
      intro r hr
      obtain ⟨row, hrow, rfl, -, -⟩ := OutboxRepository.mem_due hr
      exact hready.writable row hrow
    obtain ⟨body, hbody⟩ := (batchPayload_ok_iff hrows).mpr hwritable
    obtain ⟨hlow, hhigh, receipts, hreceipts, hcovered⟩ := hserver body hbody
    have hparsed := parseReceipts_receipts hreceipts
    have halive : ∀ r ∈ receipts, r.disposition = "rejected" → ∀ d ∈ s.tables.deadLetter,
        d.eventId ≠ r.eventId := by
      intro r hr _ d hd heq
      obtain ⟨q, hq, hid⟩ := List.mem_map.mp (hparsed.sent r hr)
      obtain ⟨row, hrow, rfl, -, -⟩ := OutboxRepository.mem_due hq
      exact hready.alive row hrow d hd (heq.trans hid.symm)
    obtain ⟨t', hrun, hdead⟩ := OutboxRepository.acknowledge_total hparsed.valid hparsed.distinct
      halive
    have hremoved := OutboxRepository.acknowledge_removed hrun
    have hids : ∀ id, id ∈ (receipts.map (·.removal)).map (·.id) ↔
        id ∈ ((pendingRows s.tables).take 32).map (·.eventId) := by
      intro id
      have hmap : (c.batch s).map (·.id) = ((pendingRows s.tables).take 32).map (·.eventId) := by
        rw [hbatch, List.map_map]
        rfl
      rw [← hmap, List.map_map]
      constructor
      · intro hmem
        obtain ⟨r, hr, rfl⟩ := List.mem_map.mp hmem
        exact hparsed.sent r hr
      · intro hmem
        obtain ⟨q, hq, rfl⟩ := List.mem_map.mp hmem
        exact hcovered q hq
    have hperform := StepCall.perform_answered hrows hbody hlow hhigh hreceipts hcovered hrun
    refine ⟨[⟨body, c.server body⟩], [(c.batch s, receipts)], ?_⟩
    rw [hperform]
    refine ⟨rfl, .cons ⟨hbody, hreceipts⟩ .nil, ?_, ?_, fun d => ?_, hremoved.delivery⟩
    · simp [hbatch]
    · rw [pendingRows_keep hremoved.outbox, ← filter_not_mem_take (nodup_pendingRows s.tables) 32]
      congr 1
      funext row
      simp only [hids]
    · constructor
      · intro hd
        rcases hremoved.origin d hd with hold | ⟨x, hx, row, hrow, hid, hreason, hd⟩
        · exact Or.inl hold
        · obtain ⟨r, hr, rfl⟩ := List.mem_map.mp hx
          obtain ⟨q, hq, hqid⟩ := List.mem_map.mp (hparsed.sent r hr)
          obtain ⟨row', hrow', rfl, -, -⟩ := OutboxRepository.mem_due hq
          have hsame : row' = row := Table.eq_of_key hrow' hrow (hqid.trans hid.symm)
          have hrejected : r.disposition = "rejected" := by
            by_contra hne
            rw [DeliveryReceipt.removal, if_neg hne] at hreason
            cases hreason
          rw [DeliveryReceipt.removal, if_pos hrejected] at hreason
          refine Or.inr ⟨_, List.mem_singleton_self _, row'.record, hq, ?_, ?_⟩
          · rw [← hrejected]
            exact hqid ▸ hr
          · rw [hd, ← Option.some.inj hreason, hsame]
            rfl
      · rintro (hold | ⟨b, hb, q, hq, hrejected, rfl⟩)
        · exact hremoved.kept d hold
        · rw [List.mem_singleton.mp hb] at hq hrejected
          obtain ⟨row, hrow, rfl, -, -⟩ := OutboxRepository.mem_due hq
          exact hdead _ hrejected rfl row hrow rfl

/-- The rows that remain are still ready. What remains was there before, and new dead letters
belong to rows that were sent. -/
theorem Ready.drained {n : ℕ} {posts : List Post} {batches : List Receipted} {now : ℤ}
    (hready : Ready w device s (now :: nows)) (h : Drained w device s n s' posts batches) :
    Ready w device s' nows := by
  refine ⟨fun now' hnow row hrow => ?_, fun row hrow => hready.writable row (h.mem_outbox hrow),
    fun row hrow d hd => ?_⟩
  · rw [h.delivery]
    exact hready.due now' (List.mem_cons_of_mem _ hnow) row (h.mem_outbox hrow)
  · rcases (h.deadLetter d).mp hd with hold | ⟨b, hb, q, hq, -, rfl⟩
    · exact hready.alive row (h.mem_outbox hrow) d hold
    · exact (h.gone hb hq hrow).symm

/-- Answered steps take the pending rows away from the front, one batch each. The induction is on
the steps, and each of them starts where the one in front has stopped. -/
theorem run_drained {calls : List StepCall} (hready : Ready w device s (calls.map (·.now)))
    (hserver : Throughout (StepCall.perform w device)
      (fun c s => c.Answers w device (c.batch s)) s calls) :
    ∃ posts batches, Drained w device s (32 * calls.length)
      (runFrom (StepCall.perform w device) s calls) posts batches := by
  induction calls generalizing s with
  | nil =>
    refine ⟨[], [], (List.append_nil _).symm, .nil, rfl, ?_, fun d => ?_, rfl⟩
    · rfl
    · simp
  | cons c calls ih =>
    obtain ⟨posts, batches, hfirst⟩ := perform_drained hready hserver.1
    obtain ⟨posts', batches', hlater⟩ := ih (hready.drained hfirst) hserver.2
    refine ⟨posts ++ posts', batches ++ batches', ?_⟩
    rw [List.length_cons, show 32 * (calls.length + 1) = 32 + 32 * calls.length by ring]
    exact hfirst.append hlater

end Steps

/-- Oldest-first delivery without starvation, one batch of at most 32 events with each step:
no row is delayed longer than the endpoint, so the due rows are none or the oldest ones;
and steps whose batches are answered for every event send the oldest events once, in
order, remove exactly these and keep exactly the rejected ones as dead letters. -/
theorem outbox_drains {stored : Stored} (hstored : Stored.Regular stored)
    (mutations : List (Mutation × Outcome)) :
    let t := mutated stored mutations
    (∀ row ∈ t.outbox, row.nextMs ≤ t.retryNotBeforeMs) ∧
      (∀ (now : ℤ) (limit : ℕ), OutboxRepository.due now limit t =
        if now < t.retryNotBeforeMs then []
        else ((pendingRows t).take (min limit 100)).map (·.record)) ∧
      ∀ calls : List StepCall, Ready w device ⟨t, []⟩ (calls.map (·.now)) →
        Throughout (StepCall.perform w device) (fun c s => c.Answers w device (c.batch s)) ⟨t, []⟩
          calls →
        let s := runFrom (StepCall.perform w device) ⟨t, []⟩ calls
        OutboxRepository.pendingCount s.tables =
            OutboxRepository.pendingCount t - 32 * calls.length ∧
          (∀ row, row ∈ s.tables.outbox ↔ row ∈ (pendingRows t).drop (32 * calls.length)) ∧
          ∃ batches : List Receipted, List.Forall₂ (Exchanged w device) s.posts batches ∧
            (batches.map (·.1)).flatten =
              ((pendingRows t).take (32 * calls.length)).map (·.record) ∧
            ∀ d, d ∈ s.tables.deadLetter ↔ d ∈ t.deadLetter ∨
              ∃ b ∈ batches, ∃ q ∈ b.1, ⟨q.id, "rejected"⟩ ∈ b.2 ∧
                d = ⟨q.id, q.payload, "business_rejected"⟩ := by
  intro t
  have hsettled : Settled t := settled_mutated hstored
  refine ⟨hsettled.2, fun now limit => due_eq hsettled now limit, ?_⟩
  intro calls hready hserver s
  obtain ⟨posts, batches, h⟩ := run_drained hready hserver
  have hrest : pendingRows s.tables = (pendingRows t).drop (32 * calls.length) := h.rest
  refine ⟨?_, fun row => ?_, batches, ?_, h.sent, h.deadLetter⟩
  · unfold OutboxRepository.pendingCount
    rw [← length_pendingRows s.tables, hrest, List.length_drop, length_pendingRows]
  · rw [← mem_pendingRows, hrest]
  · have hposts : s.posts = posts := h.posts
    rw [hposts]
    exact h.exchanged

/-! ## Thirty-three events -/

/-- The events of a small run. -/
def numberedRecord (n : ℕ) : AttendanceRecord :=
  { id := toString n, payload := toString n ++ "@device", occurredMs := n }

/-- The changes that store a number of events. -/
def storeEvents (n : ℕ) : List (Mutation × Outcome) :=
  (List.range n).map fun i => (.enqueue (numberedRecord i), .reported)

/-- The rows of a small run. -/
def storedLine (n : ℕ) : Line := ⟨mutated .fresh (storeEvents n), []⟩

/-- A step whose batch is accepted. -/
def acceptedCall (n : ℕ) : StepCall where
  now := 1000
  server _ := ⟨200, ",".intercalate ((List.range n).map toString), "", ""⟩
  elapsed := 5
  jitter := 0

/-- Whether all rows of a line are ready. -/
def checkReady (w : Wire D) (device : String) (s : Line) (now : ℤ) : Bool :=
  s.tables.outbox.rows.all fun row =>
    decide (row.nextMs ≤ now ∧ s.tables.retryNotBeforeMs ≤ now) &&
      (batchPayload w device [row.record]).toBool &&
      s.tables.deadLetter.rows.all fun d => d.eventId ≠ row.eventId

/-- Whether an answer has a receipt for every row of a batch. -/
def checkAnswer (w : Wire D) (r : HttpResponse) (rows : List AttendanceRecord) : Bool :=
  decide (200 ≤ r.status ∧ r.status < 300) &&
    match parseReceipts w r.body rows with
    | .ok receipts => rows.all fun q => q.id ∈ receipts.map (·.eventId)
    | .error _ => false

/-- The service is ready for a step, if the check of its flags and deadlines succeeds. The check
can be evaluated, which serves the sample. -/
theorem ready_of_check {s : Line} {now : ℤ} (h : checkReady w device s now = true) :
    Ready w device s [now] := by
  have hrow : ∀ row ∈ s.tables.outbox, (row.nextMs ≤ now ∧ s.tables.retryNotBeforeMs ≤ now) ∧
      (batchPayload w device [row.record]).toBool = true ∧
      ∀ d ∈ s.tables.deadLetter, d.eventId ≠ row.eventId := by
    intro row hrow
    have hall := List.all_eq_true.mp h row hrow
    simp only [Bool.and_eq_true, decide_eq_true_eq, List.all_eq_true] at hall
    exact ⟨hall.1.1, hall.1.2, hall.2⟩
  refine ⟨fun now' hnow row hmem => ?_, fun row hmem => ?_, fun row hmem => (hrow row hmem).2.2⟩
  · rw [List.mem_singleton.mp hnow]
    exact (hrow row hmem).1
  · have hbody := (hrow row hmem).2.1
    unfold Writable
    cases hpayload : batchPayload w device [row.record] with
    | ok body => exact ⟨body, rfl⟩
    | error e =>
      rw [hpayload] at hbody
      cases hbody

/-- The server answers each batch, if the check of its answer to this batch succeeds. The check
can be evaluated, which serves the sample. -/
theorem answers_of_check {c : StepCall} {rows : List AttendanceRecord}
    (h : ∀ body, checkAnswer w (c.server body) rows = true) : c.Answers w device rows := by
  intro body _
  have hbody := h body
  unfold checkAnswer at hbody
  rw [Bool.and_eq_true, decide_eq_true_eq] at hbody
  obtain ⟨⟨hlow, hhigh⟩, hreceipts⟩ := hbody
  cases hparse : parseReceipts w (c.server body).body rows with
  | error e =>
    rw [hparse] at hreceipts
    cases hreceipts
  | ok receipts =>
    rw [hparse] at hreceipts
    refine ⟨hlow, hhigh, receipts, rfl, fun r hr => ?_⟩
    simpa using List.all_eq_true.mp hreceipts r hr

/-- The small wire format, with plain numbers. -/
def plainWire : Wire (Extended ℚ) := .plain

/-- Thirty-three stored events can all be sent. -/
theorem ready_storedLine : Ready plainWire "device" (storedLine 33) [1000] :=
  ready_of_check (by decide +kernel)

/-- The server of the sample answers its first batch with one receipt for each row. -/
theorem answer_checked : checkAnswer plainWire ((acceptedCall 32).server "")
    ((acceptedCall 32).batch (storedLine 33)) = true := by
  decide +kernel

/-- The step has receipts for the thirty-two oldest of them. -/
theorem answers_acceptedCall :
    (acceptedCall 32).Answers plainWire "device" ((acceptedCall 32).batch (storedLine 33)) :=
  answers_of_check (fun _ => answer_checked)

/-- Thirty-three events and one step: the last event remains. The batch of the step has thirty-two
rows. -/
theorem outbox_drains_sample :
    OutboxRepository.pendingCount
        (runFrom (StepCall.perform plainWire "device") (storedLine 33) [acceptedCall 32]).tables =
      OutboxRepository.pendingCount (storedLine 33).tables - 32 * [acceptedCall 32].length := by
  have hfresh : Stored.Regular .fresh := trivial
  have hready : Ready plainWire "device" (storedLine 33) ([acceptedCall 32].map (·.now)) :=
    ready_storedLine
  have hserver : Throughout (StepCall.perform plainWire "device")
      (fun c s => c.Answers plainWire "device" (c.batch s)) (storedLine 33) [acceptedCall 32] :=
    ⟨answers_acceptedCall, trivial⟩
  obtain ⟨-, -, hdrain⟩ := outbox_drains (w := plainWire) hfresh (storeEvents 33)
  obtain ⟨hcount, -⟩ := hdrain [acceptedCall 32] hready hserver
  simpa only [storedLine] using hcount

/-- A step does not send a hundred events: of thirty-three events that can be sent and that
the server accepts, one is still pending after the step. -/
theorem one_step_leaves_pending :
    Ready plainWire "device" (storedLine 33) [1000] ∧
      (acceptedCall 32).Answers plainWire "device" ((acceptedCall 32).batch (storedLine 33)) ∧
      OutboxRepository.pendingCount (storedLine 33).tables = 33 ∧
      OutboxRepository.pendingCount
        ((acceptedCall 32).perform plainWire "device" (storedLine 33)).tables ≠ 33 - 100 * 1 :=
  ⟨ready_storedLine, answers_acceptedCall, by decide +kernel, by decide +kernel⟩

end EdgeClient.Sync
