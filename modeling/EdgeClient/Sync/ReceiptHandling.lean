import EdgeClient.Sync.WorkingStorage

/-!
# Receipts split the batch

The answer to a batch is a list of receipts or something else, and nothing in between: one bad
receipt makes the whole list something else. The receipts of a list are written down in one
transaction, the rows without a receipt are delayed in a second one. Other threads may queue
events before, between and after the two.
-/

namespace EdgeClient.Sync

open Basis Storage

variable {D : Type} [FloatOps D] {w : Wire D} {device : String}

/-! ## Well-formed lists of receipts -/

/-- A receipt in a document. -/
def Reads (v : Json D) (r : DeliveryReceipt) : Prop :=
  ∃ o, v = .object o ∧ o.lookup "event_id" = some (.string r.eventId) ∧
    o.lookup "status" = some (.string r.disposition)

/-- A list of receipts for a batch, with what it says. -/
structure WellFormed (w : Wire D) (json : String) (sent : List AttendanceRecord)
    (receipts : List DeliveryReceipt) : Prop where
  /-- A document of schema 1 lists the receipts. -/
  document : ∃ o version list, w.parse json = some o ∧
    o.lookup "schema_version" = some (.number version) ∧ numberEq version (lit 1) = true ∧
    o.lookup "results" = some (.array list) ∧ List.Forall₂ Reads list receipts
  /-- They are different and belong to the batch. -/
  receipts : Receipts sent receipts

omit [FloatOps D] in
/-- One receipt more. Its identifier was sent, has no receipt so far, and its disposition is one
of the three. -/
theorem parseReceipt_iff {sent : List AttendanceRecord} {seen receipts : List DeliveryReceipt}
    {v : Json D} (hseen : Receipts sent seen) :
    parseReceipt sent seen v = .ok receipts ↔
      ∃ r, Reads v r ∧ receipts = seen ++ [r] ∧ Receipts sent (seen ++ [r]) := by
  constructor
  · intro h
    have hreceipts := parseReceipt_receipts hseen h
    unfold parseReceipt at h
    obtain ⟨o, ho, h⟩ := bind_eq_ok.mp h
    obtain ⟨eventId, hid, h⟩ := bind_eq_ok.mp h
    obtain ⟨disposition, hstatus, h⟩ := bind_eq_ok.mp h
    split at h
    · cases h
    · cases h
      exact ⟨⟨eventId, disposition⟩, ⟨o, getObject_ok.mp ho, getNamedString_ok.mp hid,
        getNamedString_ok.mp hstatus⟩, rfl, hreceipts⟩
  · rintro ⟨r, ⟨o, rfl, hid, hstatus⟩, rfl, hreceipts⟩
    have hmem : r ∈ seen ++ [r] := by simp
    have hnew : r.eventId ∉ seen.map (·.eventId) := by
      have hdistinct := hreceipts.distinct
      rw [List.map_append, List.map_singleton, List.nodup_append] at hdistinct
      intro hold
      exact hdistinct.2.2 _ hold _ (List.mem_singleton_self _) rfl
    have hgood : ¬ (r.eventId ∉ sent.map (·.id) ∨ r.eventId ∈ seen.map (·.eventId) ∨
        OutboxRepository.validDisposition r.disposition = false) := by
      simp only [not_or, not_not, Bool.not_eq_false]
      exact ⟨hreceipts.sent r hmem, hnew, hreceipts.valid r hmem⟩
    rw [parseReceipt, getObject_ok.mpr rfl]
    change (getNamedString o "event_id" >>= _) = _
    rw [getNamedString_ok.mpr hid]
    change (getNamedString o "status" >>= _) = _
    rw [getNamedString_ok.mpr hstatus]
    exact if_neg hgood

omit [FloatOps D] in
/-- A list of receipts is read when all of it is right. The receipts read so far are carried
along, since an identifier may not occur twice. -/
theorem parseAll_iff {sent : List AttendanceRecord} {seen receipts : List DeliveryReceipt}
    {list : List (Json D)} (hseen : Receipts sent seen) :
    list.foldlM (parseReceipt sent) seen = .ok receipts ↔
      ∃ more, List.Forall₂ Reads list more ∧ receipts = seen ++ more ∧
        Receipts sent (seen ++ more) := by
  induction list generalizing seen with
  | nil =>
    constructor
    · intro h
      cases h
      exact ⟨[], .nil, by simp, by simpa using hseen⟩
    · rintro ⟨more, hmore, rfl, -⟩
      cases hmore
      rw [List.append_nil]
      rfl
  | cons v list ih =>
    rw [List.foldlM_cons]
    constructor
    · intro h
      obtain ⟨seen', hfirst, hrest⟩ := bind_eq_ok.mp h
      obtain ⟨r, hread, rfl, hnext⟩ := (parseReceipt_iff hseen).mp hfirst
      obtain ⟨more, hmore, rfl, hlast⟩ := (ih hnext).mp hrest
      refine ⟨r :: more, .cons hread hmore, by simp, ?_⟩
      simpa using hlast
    · rintro ⟨more, hmore, rfl, hlast⟩
      cases hmore with
      | @cons _ r _ more hread hmore =>
        have hsplit : seen ++ r :: more = (seen ++ [r]) ++ more := by simp
        rw [hsplit] at hlast
        have hnext : Receipts sent (seen ++ [r]) := by
          refine ⟨fun x hx => hlast.sent x (List.mem_append_left _ hx),
            fun x hx => hlast.valid x (List.mem_append_left _ hx), ?_⟩
          have hdistinct := hlast.distinct
          rw [List.map_append] at hdistinct
          exact hdistinct.of_append_left
        rw [(parseReceipt_iff hseen).mpr ⟨r, hread, rfl, hnext⟩]
        exact (ih hnext).mpr ⟨more, hmore, hsplit, hlast⟩

/-- There are not more receipts than rows. -/
theorem Receipts.length_le {sent : List AttendanceRecord} {receipts : List DeliveryReceipt}
    (h : Receipts sent receipts) : receipts.length ≤ sent.length := by
  have hsub : receipts.map (·.eventId) ⊆ sent.map (·.id) := by
    intro id hid
    obtain ⟨r, hr, rfl⟩ := List.mem_map.mp hid
    exact h.sent r hr
  simpa using (h.distinct.subperm hsub).length_le

/-- `parse_receipts` returns the receipts of a well-formed list, and throws otherwise. The other
direction follows the checks of the parser in their order. -/
theorem parseReceipts_iff {json : String} {sent : List AttendanceRecord}
    {receipts : List DeliveryReceipt} :
    parseReceipts w json sent = .ok receipts ↔ WellFormed w json sent receipts := by
  constructor
  · intro h
    have hreceipts := parseReceipts_receipts h
    unfold parseReceipts at h
    obtain ⟨o, ho, h⟩ := bind_eq_ok.mp h
    obtain ⟨version, hversion, h⟩ := bind_eq_ok.mp h
    split at h
    · cases h
    rename_i hschema
    obtain ⟨list, hlist, h⟩ := bind_eq_ok.mp h
    split at h
    · cases h
    obtain ⟨more, hmore, rfl, -⟩ := (parseAll_iff (Receipts.none sent)).mp h
    exact ⟨⟨o, version, list, parseObject_ok.mp ho, getNamedNumber_ok.mp hversion,
      by simpa using hschema, getNamedArray_ok.mp hlist, hmore⟩, hreceipts⟩
  · rintro ⟨⟨o, version, list, ho, hversion, hschema, hlist, hreads⟩, hreceipts⟩
    have hlength : ¬ sent.length < list.length := by
      have hle := hreceipts.length_le
      rw [← hreads.length_eq] at hle
      omega
    rw [parseReceipts, parseObject_ok.mpr ho]
    change (getNamedNumber o "schema_version" >>= _) = _
    rw [getNamedNumber_ok.mpr hversion]
    change (if numberEq version (lit 1) = false then _ else _) = _
    rw [if_neg (by simp [hschema])]
    rw [getNamedArray_ok.mpr hlist]
    change (if sent.length < list.length then _ else _) = _
    rw [if_neg hlength]
    exact (parseAll_iff (Receipts.none sent)).mpr ⟨receipts, hreads, rfl, hreceipts⟩

/-! ## A step among threads that queue events -/

/-- Another thread stores an event. -/
structure Queueing where
  /-- The event. -/
  record : AttendanceRecord
  /-- Through `ensure_enqueued` instead of `enqueue`. -/
  ensured : Bool
  /-- The end of the transaction. -/
  outcome : Outcome

/-- The statements of the call. -/
def Queueing.statements (q : Queueing) : Tables → Except Thrown (Unit × Tables) :=
  if q.ensured then OutboxRepository.ensureEnqueued q.record else OutboxRepository.enqueue q.record

/-- The database while a step is under way. -/
structure Flight where
  /-- The database. -/
  tables : Tables
  /-- The rows that others added since the step was started. -/
  queued : List OutboxRow
  /-- What others do after each of the next calls. -/
  schedule : List (List Queueing)

namespace Flight

/-- Others call the repository once. -/
def queue (s : Flight) (q : Queueing) : Flight :=
  let next := (transact q.outcome q.statements s.tables).2
  { s with tables := next, queued := s.queued ++ next.outbox.rows.drop s.tables.outbox.rows.length }

/-- Others use the time between two calls. -/
def others (s : Flight) : Flight :=
  match s.schedule with
  | [] => s
  | calls :: schedule => calls.foldl queue { s with schedule }

/-- Answer a call of the worker; nothing fails. -/
def answer (c : StepCall) (op : DeliveryOp) (s : Flight) : Except Thrown op.Answer × Flight :=
  let reply := match op with
    | .request _ _ body _ => some (c.server body)
    | _ => none
  let answered := op.answer ⟨.reported, reply, c.elapsed, c.jitter⟩ s.tables
  (answered.1, { s with tables := answered.2 }.others)

/-- The database after a step, and what others do meanwhile. -/
def perform (w : Wire D) (device : String) (c : StepCall) (t : Tables)
    (schedule : List (List Queueing)) : Flight :=
  (Program.run (answer c) (AttendanceSync.step w device c.now) ⟨t, [], schedule⟩).2

end Flight

/-- How the receipts of a batch are written down: a row with a receipt leaves the outbox, a
rejected one becomes a dead letter; a row without a receipt has one attempt more and waits;
all other rows stay as they are. -/
structure Handled (now : ℤ) (t : Tables) (batch : List AttendanceRecord)
    (receipts : List DeliveryReceipt) (s : Flight) : Prop where
  /-- The pending rows. -/
  outbox : ∃ next reason, now < next ∧
    s.tables.outbox.rows =
      ((t.outbox.rows.filter fun row => row.eventId ∉ receipts.map (·.eventId)).map
      fun row => if row.eventId ∈ batch.map (·.id) then
        { row with attempts := min (row.attempts + 1) 30, nextMs := next, lastError := reason }
      else row) ++ s.queued
  /-- The dead letters. -/
  deadLetter : ∀ d, d ∈ s.tables.deadLetter ↔ d ∈ t.deadLetter ∨
    ∃ row ∈ t.outbox, ⟨row.eventId, "rejected"⟩ ∈ receipts ∧ d = row.deadLetter "business_rejected"

namespace Flight

/-- The outbox holds these rows and those that were queued. -/
structure Holds (s : Flight) (rows : List OutboxRow)
    (deadLetter : Table String DeadLetterRow DeadLetterRow.eventId) : Prop where
  /-- The pending rows. -/
  outbox : s.tables.outbox.rows = rows ++ s.queued
  /-- The dead letters. -/
  deadLetter : s.tables.deadLetter = deadLetter

variable {s : Flight} {rows : List OutboxRow}
  {dead : Table String DeadLetterRow DeadLetterRow.eventId}

/-- A call of the queue that another thread makes moves no row of the batch. The identifiers of
the rows are those of the events, and a new event has its own. -/
theorem Holds.queue (h : s.Holds rows dead) (q : Queueing) : (s.queue q).Holds rows dead := by
  obtain hsame | ⟨⟨⟩, t', hrun, hafter⟩ := transact_cases q.outcome q.statements s.tables
  · exact ⟨by simp [Flight.queue, hsame, h.outbox], by simp [Flight.queue, hsame, h.deadLetter]⟩
  have hstatements :
      t' = s.tables ∨ OutboxRepository.insertRow s.tables q.record = .ok ((), t') := by
    unfold Queueing.statements at hrun
    split at hrun
    · obtain ⟨rfl, -⟩ | ⟨-, -, hinsert⟩ := OutboxRepository.ensureEnqueued_cases hrun
      · exact Or.inl rfl
      · exact Or.inr hinsert
    · exact Or.inr hrun
  obtain rfl | hinsert := hstatements
  · exact ⟨by simp [Flight.queue, hafter, h.outbox], by simp [Flight.queue, hafter, h.deadLetter]⟩
  · obtain ⟨-, hrows, hdead, -⟩ := OutboxRepository.insertRow_ok hinsert
    constructor
    · simp only [Flight.queue, hafter, hrows]
      rw [List.drop_left, h.outbox, List.append_assoc]
    · simp only [Flight.queue, hafter, hdead, h.deadLetter]

/-- Any number of calls of the queue moves no row of the batch. -/
theorem Holds.queueAll (h : s.Holds rows dead) (calls : List Queueing) :
    (calls.foldl Flight.queue s).Holds rows dead := by
  induction calls generalizing s with
  | nil => exact h
  | cons q calls ih => exact ih (h.queue q)

/-- What other threads do between two operations of the worker moves no row of the batch. -/
theorem Holds.others (h : s.Holds rows dead) : s.others.Holds rows dead := by
  unfold Flight.others
  cases hschedule : s.schedule with
  | nil => exact h
  | cons calls schedule =>
    dsimp only
    have hstart : ({ s with schedule } : Flight).Holds rows dead := ⟨h.outbox, h.deadLetter⟩
    exact hstart.queueAll calls

/-- The worker continues with the answer to its call. -/
theorem run_call {α : Type} {c : StepCall} (op : DeliveryOp) (v : op.Answer) (s' : Flight)
    {f : op.Answer → Delivering α} (h : answer c op s = (.ok v, s')) :
    Program.run (answer c) (op.call >>= f) s = Program.run (answer c) (f v) s' := by
  change Program.run (answer c) (.call op fun answer => Program.ofExcept answer >>= f) s = _
  rw [Program.run_call, h]
  rfl

/-- The clock is read, and the other threads have their turn. -/
theorem answer_elapsed {c : StepCall} : answer c .elapsed s = (.ok c.elapsed, s.others) := rfl

/-- The jitter is drawn, and the other threads have their turn. -/
theorem answer_retryJitter {c : StepCall} : answer c .retryJitter s = (.ok c.jitter, s.others) :=
  rfl

/-- The due rows are read from the outbox as it is, and the other threads have their turn. -/
theorem answer_due {c : StepCall} {now : ℤ} {limit : ℕ} :
    answer c (.due now limit) s = (.ok (OutboxRepository.due now limit s.tables), s.others) := rfl

/-- The server answers the request, and the other threads have their turn. -/
theorem answer_request {c : StepCall} {method path body etag : String} :
    answer c (.request method path body etag) s = (.ok (c.server body), s.others) := rfl

/-- The transaction of a retry is committed, and the other threads have their turn. -/
theorem answer_retry {c : StepCall} {batch : List AttendanceRecord} {next : ℤ} {reason : String}
    {t' : Tables} (h : OutboxRepository.retry batch next reason s.tables = .ok ((), t')) :
    answer c (.retry batch next reason) s = (.ok (), { s with tables := t' }.others) := by
  simp only [answer, DeliveryOp.answer, transact_reported h]

/-- The transaction of the receipts is committed, and the other threads have their turn. -/
theorem answer_acknowledge {c : StepCall} {receipts : List DeliveryReceipt} {t' : Tables}
    (h : OutboxRepository.acknowledge receipts s.tables = .ok ((), t')) :
    answer c (.acknowledge receipts) s = (.ok (), { s with tables := t' }.others) := by
  simp only [answer, DeliveryOp.answer, transact_reported h]

/-- The rows of the batch are delayed, the queued rows are not. Rows that were queued after the
batch was read keep their times and their attempts. -/
theorem Holds.retry {batch : List AttendanceRecord} {next : ℤ} {reason : String} {t' : Tables}
    (h : s.Holds rows dead) (hbatch : batch ≠ []) (hdistinct : (batch.map (·.id)).Nodup)
    (hsub : ∀ r ∈ batch, r.id ∈ rows.map (·.eventId))
    (hrun : OutboxRepository.retry batch next reason s.tables = .ok ((), t')) :
    ({ s with tables := t' } : Flight).Holds (rows.map fun row =>
      if row.eventId ∈ batch.map (·.id) then OutboxRepository.delay next reason row
      else row) dead := by
  rw [OutboxRepository.retry, if_neg hbatch] at hrun
  cases hrun
  obtain ⟨hrows, hdead⟩ := OutboxRepository.delayAll_eq hdistinct next reason
    { s.tables with retryNotBeforeMs := max s.tables.retryNotBeforeMs next }
  refine ⟨?_, hdead.trans h.deadLetter⟩
  have hqueued : ∀ row ∈ s.queued, row.eventId ∉ batch.map (·.id) := by
    intro row hrow hmem
    obtain ⟨r, hr, hid⟩ := List.mem_map.mp hmem
    have hnodup := s.tables.outbox.nodup
    rw [h.outbox, List.map_append, List.nodup_append] at hnodup
    exact hnodup.2.2 _ (hsub r hr) _ (List.mem_map_of_mem hrow) hid
  rw [hrows, h.outbox, List.map_append]
  congr 1
  conv_rhs => rw [← List.map_id s.queued]
  apply List.map_congr_left
  intro row hrow
  exact if_neg (hqueued row hrow)

omit [FloatOps D] in
/-- A delay of the batch, while others queue events. The time of the next attempt lies behind the
current one by the shortest delay at least. -/
theorem run_postpone {c : StepCall} {batch : List AttendanceRecord} {header reason : String}
    (h : s.Holds rows dead) (hbatch : batch ≠ []) (hdistinct : (batch.map (·.id)).Nodup)
    (hsub : ∀ r ∈ batch, r.id ∈ rows.map (·.eventId)) (result : SyncResult) :
    ∃ next, c.now < next ∧ (Program.run (answer c)
      (AttendanceSync.postpone w c.now batch header reason >>= fun _ => pure result) s).2.Holds
        (rows.map fun row =>
          if row.eventId ∈ batch.map (·.id) then OutboxRepository.delay next reason row else row)
        dead := by
  have hfirst : s.others.Holds rows dead := h.others
  have hsecond : s.others.others.Holds rows dead := hfirst.others
  have htotal := OutboxRepository.retry_total batch
    (retryAt w (c.now + c.elapsed) (maxAttempts batch) header c.jitter) reason
  obtain ⟨t', ht'⟩ := htotal s.others.others.tables
  refine ⟨retryAt w (c.now + c.elapsed) (maxAttempts batch) header c.jitter, ?_, ?_⟩
  · have hdelay := (backoffDelay_bounds (maxAttempts batch)).1
    have hretry : c.now + c.elapsed + max (backoffDelay (maxAttempts batch))
        (serverDelay w (c.now + c.elapsed) header) ≤
        retryAt w (c.now + c.elapsed) (maxAttempts batch) header c.jitter := le_retryAt
    omega
  · simp only [AttendanceSync.postpone, bind_assoc]
    rw [run_call .elapsed c.elapsed s.others answer_elapsed,
      run_call .retryJitter c.jitter s.others.others answer_retryJitter,
      run_call (.retry _ _ _) () _ (answer_retry ht')]
    exact (hsecond.retry hbatch hdistinct hsub ht').others

/-- The end of a step with an answer of status 2xx. The statuses of success are handled in one
place, whatever the body is. -/
theorem run_conclude {c : StepCall} {batch : List AttendanceRecord} {r : HttpResponse}
    (hlow : 200 ≤ r.status) (hhigh : r.status < 300) :
    Program.run (answer c) (AttendanceSync.conclude w c.now batch r) s =
      Program.run (answer c) (match parseReceipts w r.body batch with
        | .ok receipts => do
          let rest ← AttendanceSync.confirm batch receipts
          if rest ≠ [] then
            AttendanceSync.postpone w c.now rest r.retryAfter "missing_ack" >>= fun _ =>
              pure .continue
          else pure .continue
        | .error _ => AttendanceSync.postpone w c.now batch r.retryAfter "invalid_ack" >>= fun _ =>
          pure .continue) s := by
  unfold AttendanceSync.conclude
  rw [if_neg (by omega)]
  dsimp only
  rewrite [if_neg (by omega), if_pos ⟨hlow, hhigh⟩]
  cases parseReceipts w r.body batch with
  | error e => rfl
  | ok receipts => rfl

end Flight

/-! ## The batch is split -/

section Split

variable {c : StepCall} {t : Tables} {schedule : List (List Queueing)} {body : String}

/-- The state when the answer has come. -/
def answered (t : Tables) (schedule : List (List Queueing)) : Flight :=
  (⟨t, [], schedule⟩ : Flight).others.others

/-- When the answer of the server is at hand, each row of the batch is still where it was. -/
theorem answered_holds : (answered t schedule).Holds t.outbox.rows t.deadLetter := by
  have hstart : (⟨t, [], schedule⟩ : Flight).Holds t.outbox.rows t.deadLetter := ⟨by simp, rfl⟩
  exact hstart.others.others

/-- A step whose batch is answered goes on with the answer. The rows are due and the body can be
written, so the first calls are made. -/
theorem perform_answered (hrows : OutboxRepository.due c.now OutboxRepository.dueLimit t ≠ [])
    (hbody : batchPayload w device (OutboxRepository.due c.now OutboxRepository.dueLimit t) =
      .ok body) :
    Flight.perform w device c t schedule = (Program.run (Flight.answer c)
      (AttendanceSync.conclude w c.now (OutboxRepository.due c.now OutboxRepository.dueLimit t)
        (c.server body)) (answered t schedule)).2 := by
  unfold Flight.perform AttendanceSync.step
  rw [Flight.run_call (.due _ _) _ _ Flight.answer_due, if_neg hrows]
  unfold AttendanceSync.send
  rw [hbody]
  rfl

/-- Something else than receipts delays the whole batch. That is one transaction with the reason
`invalid_ack`, and no row leaves the outbox. -/
theorem handled_invalid (hrows : OutboxRepository.due c.now OutboxRepository.dueLimit t ≠ [])
    (hlow : 200 ≤ (c.server body).status) (hhigh : (c.server body).status < 300) {e : Thrown}
    (hparse : parseReceipts w (c.server body).body
      (OutboxRepository.due c.now OutboxRepository.dueLimit t) = .error e) :
    Handled c.now t (OutboxRepository.due c.now OutboxRepository.dueLimit t) []
      (Program.run (Flight.answer c) (AttendanceSync.conclude w c.now
        (OutboxRepository.due c.now OutboxRepository.dueLimit t) (c.server body))
          (answered t schedule)).2 := by
  have hsub : ∀ r ∈ OutboxRepository.due c.now OutboxRepository.dueLimit t,
      r.id ∈ t.outbox.rows.map (·.eventId) := by
    intro r hr
    obtain ⟨row, hrow, rfl, -, -⟩ := OutboxRepository.mem_due hr
    exact List.mem_map_of_mem hrow
  rw [Flight.run_conclude hlow hhigh, hparse]
  have hpostpone :=
    @Flight.run_postpone D w (answered t schedule) _ _ c _ (c.server body).retryAfter "invalid_ack"
    answered_holds hrows (OutboxRepository.nodup_due _ _ _) hsub .continue
  obtain ⟨next, hnext, hholds⟩ := hpostpone
  refine ⟨⟨next, "invalid_ack", hnext, ?_⟩, fun d => ?_⟩
  · rw [hholds.outbox]
    simp [OutboxRepository.delay]
  · rw [hholds.deadLetter]
    simp

/-- The receipts in the tables. The transaction can be carried out, because no row of the batch is
a dead letter already. -/
theorem acknowledged {batch : List AttendanceRecord} {receipts : List DeliveryReceipt} {s : Flight}
    (hholds : s.Holds t.outbox.rows t.deadLetter) (hreceipts : Receipts batch receipts)
    (hsub : ∀ r ∈ batch, r.id ∈ t.outbox.rows.map (·.eventId))
    (halive : ∀ r ∈ batch, ∀ d ∈ t.deadLetter, d.eventId ≠ r.id) :
    ∃ t', OutboxRepository.acknowledge receipts s.tables = .ok ((), t') ∧
      ({ s with tables := t' } : Flight).Holds
        (t.outbox.rows.filter fun row => row.eventId ∉ receipts.map (·.eventId)) t'.deadLetter ∧
      ∀ d, d ∈ t'.deadLetter ↔ d ∈ t.deadLetter ∨ ∃ row ∈ t.outbox,
        ⟨row.eventId, "rejected"⟩ ∈ receipts ∧ d = row.deadLetter "business_rejected" := by
  -- The events of the receipts are pending, so nobody can have queued them again.
  have hold : ∀ row ∈ s.tables.outbox.rows, row.eventId ∈ receipts.map (·.eventId) →
      row ∈ t.outbox := by
    intro row hrow hid
    obtain ⟨x, hx, hxid⟩ := List.mem_map.mp hid
    obtain ⟨r, hr, hrid⟩ := List.mem_map.mp (hreceipts.sent x hx)
    obtain ⟨row', hrow', hid'⟩ := List.mem_map.mp (hsub r hr)
    have hmem : row' ∈ s.tables.outbox := by
      rw [Table.mem_def, hholds.outbox]
      exact List.mem_append_left _ hrow'
    have hsame : row' = row :=
      Table.eq_of_key hmem hrow (hid'.trans (hrid.trans hxid))
    exact hsame ▸ hrow'
  have hqueued : ∀ row ∈ s.queued, row.eventId ∉ receipts.map (·.eventId) := by
    intro row hrow hid
    have hmem : row ∈ t.outbox := by
      refine hold row ?_ hid
      rw [hholds.outbox]
      exact List.mem_append_right _ hrow
    have hnodup := s.tables.outbox.nodup
    rw [hholds.outbox, List.map_append, List.nodup_append] at hnodup
    exact hnodup.2.2 _ (List.mem_map_of_mem hmem) _ (List.mem_map_of_mem hrow) rfl
  have hfree : ∀ x ∈ receipts, x.disposition = "rejected" → ∀ d ∈ s.tables.deadLetter,
      d.eventId ≠ x.eventId := by
    intro x hx _ d hd
    obtain ⟨r, hr, hrid⟩ := List.mem_map.mp (hreceipts.sent x hx)
    rw [hholds.deadLetter] at hd
    exact hrid ▸ halive r hr d hd
  obtain ⟨t', hrun, hmoved⟩ :=
    OutboxRepository.acknowledge_total hreceipts.valid hreceipts.distinct hfree
  have hremoved := OutboxRepository.acknowledge_removed hrun
  have hids : (receipts.map (·.removal)).map (·.id) = receipts.map (·.eventId) := by
    rw [List.map_map]
    rfl
  refine ⟨t', hrun, ⟨?_, rfl⟩, fun d => ⟨fun hd => ?_, ?_⟩⟩
  · rw [hremoved.outbox, Table.rows_keep, hholds.outbox, List.filter_append, hids]
    congr 1
    rw [List.filter_eq_self]
    intro row hrow
    simpa using hqueued row hrow
  · obtain hkept | ⟨x, hx, row, hrow, hid, hreason, hd⟩ := hremoved.origin d hd
    · rw [hholds.deadLetter] at hkept
      exact Or.inl hkept
    · obtain ⟨r, hr, rfl⟩ := List.mem_map.mp hx
      have hrejected : r.disposition = "rejected" := by
        by_contra hne
        rw [DeliveryReceipt.removal, if_neg hne] at hreason
        cases hreason
      rw [DeliveryReceipt.removal, if_pos hrejected] at hreason
      have hreceipt : (⟨row.eventId, "rejected"⟩ : DeliveryReceipt) = r := by
        rw [hid, ← hrejected]
        rfl
      refine Or.inr ⟨row, hold row hrow ?_, hreceipt ▸ hr, ?_⟩
      · exact List.mem_map.mpr ⟨r, hr, hid.symm⟩
      · rw [hd, ← Option.some.inj hreason]
  · rintro (hkept | ⟨row, hrow, hrejected, rfl⟩)
    · rw [← hholds.deadLetter] at hkept
      exact hremoved.kept d hkept
    · refine hmoved _ hrejected rfl row ?_ rfl
      rw [Table.mem_def, hholds.outbox]
      exact List.mem_append_left _ hrow

/-- Receipts are written down, and the rows without a receipt are delayed. There are two
transactions, and other threads may queue events in front of, between and behind them. -/
theorem handled_receipts (halive : ∀ r ∈ OutboxRepository.due c.now OutboxRepository.dueLimit t,
      ∀ d ∈ t.deadLetter, d.eventId ≠ r.id)
    (hlow : 200 ≤ (c.server body).status) (hhigh : (c.server body).status < 300)
    {receipts : List DeliveryReceipt}
    (hparse : parseReceipts w (c.server body).body
      (OutboxRepository.due c.now OutboxRepository.dueLimit t) = .ok receipts) :
    Handled c.now t (OutboxRepository.due c.now OutboxRepository.dueLimit t) receipts
      (Program.run (Flight.answer c) (AttendanceSync.conclude w c.now
        (OutboxRepository.due c.now OutboxRepository.dueLimit t) (c.server body))
          (answered t schedule)).2 := by
  have hreceipts := parseReceipts_receipts hparse
  have hstart : (answered t schedule).Holds t.outbox.rows t.deadLetter := answered_holds
  have hsub : ∀ r ∈ OutboxRepository.due c.now OutboxRepository.dueLimit t,
      r.id ∈ t.outbox.rows.map (·.eventId) := by
    intro r hr
    obtain ⟨row, hrow, rfl, -, -⟩ := OutboxRepository.mem_due hr
    exact List.mem_map_of_mem hrow
  obtain ⟨t', hack, hholds, hdead⟩ := acknowledged hstart hreceipts hsub halive
  have hafter := hholds.others
  rw [Flight.run_conclude hlow hhigh, hparse]
  dsimp only
  unfold AttendanceSync.confirm
  rw [bind_assoc, Flight.run_call (.acknowledge receipts) () _ (Flight.answer_acknowledge hack),
    pure_bind]
  generalize hbatch : OutboxRepository.due c.now OutboxRepository.dueLimit t = batch at *
  have hrest : ∀ row ∈ t.outbox.rows.filter (fun row => row.eventId ∉ receipts.map (·.eventId)),
      (row.eventId ∈ (batch.filter fun e => e.id ∉ receipts.map (·.eventId)).map (·.id) ↔
        row.eventId ∈ batch.map (·.id)) := by
    intro row hrow
    have hleft : row.eventId ∉ receipts.map (·.eventId) := by
      simpa using (List.mem_filter.mp hrow).2
    constructor
    · intro hmem
      obtain ⟨r, hr, hid⟩ := List.mem_map.mp hmem
      exact List.mem_map.mpr ⟨r, (List.mem_filter.mp hr).1, hid⟩
    · intro hmem
      obtain ⟨r, hr, hid⟩ := List.mem_map.mp hmem
      exact List.mem_map.mpr ⟨r, List.mem_filter.mpr ⟨hr, by simpa [hid] using hleft⟩, hid⟩
  by_cases hnone : batch.filter (fun e => e.id ∉ receipts.map (·.eventId)) = []
  · rw [if_neg (not_not.mpr hnone)]
    refine ⟨⟨c.now + 1, "", by omega, ?_⟩, fun d => ?_⟩
    · change (Flight.others _).tables.outbox.rows = _
      rw [hafter.outbox]
      congr 1
      conv_lhs => rw [← List.map_id (t.outbox.rows.filter _)]
      apply List.map_congr_left
      intro row hrow
      have hnot : row.eventId ∉ batch.map (·.id) := by
        rw [← hrest row hrow, hnone]
        exact List.not_mem_nil
      rw [if_neg hnot, id]
    · change d ∈ (Flight.others _).tables.deadLetter ↔ _
      rw [hafter.deadLetter, hdead]
  · rw [if_pos hnone]
    have hdistinct : (batch.map (·.id)).Nodup := hbatch ▸ OutboxRepository.nodup_due _ _ _
    have hpending : ∀ r ∈ batch.filter (fun e => e.id ∉ receipts.map (·.eventId)), r.id ∈
        (t.outbox.rows.filter fun row =>
          row.eventId ∉ receipts.map (·.eventId)).map (·.eventId) := by
      intro r hr
      obtain ⟨hr, hleft⟩ := List.mem_filter.mp hr
      obtain ⟨row, hrow, hid⟩ := List.mem_map.mp (hsub r hr)
      exact List.mem_map.mpr ⟨row, List.mem_filter.mpr ⟨hrow, by simpa [hid] using hleft⟩, hid⟩
    have hpostpone := @Flight.run_postpone D w _ _ _ c _ (c.server body).retryAfter "missing_ack"
      hafter hnone (hdistinct.sublist (List.filter_sublist.map _)) hpending .continue
    obtain ⟨next, hnext, hlast⟩ := hpostpone
    refine ⟨⟨next, "missing_ack", hnext, ?_⟩, fun d => ?_⟩
    · rw [hlast.outbox]
      congr 1
      apply List.map_congr_left
      intro row hrow
      simp only [hrest row hrow, OutboxRepository.delay]
    · rw [hlast.deadLetter, hdead]

/-- The receipts of a batch split it, and anything else than receipts delays it as a whole. The
first part is for a well-formed list of receipts, the second one for every other body. -/
theorem receipts_split
    (hbody : batchPayload w device (OutboxRepository.due c.now OutboxRepository.dueLimit t) =
      .ok body)
    (hlow : 200 ≤ (c.server body).status) (hhigh : (c.server body).status < 300)
    (halive : ∀ r ∈ OutboxRepository.due c.now OutboxRepository.dueLimit t,
      ∀ d ∈ t.deadLetter, d.eventId ≠ r.id) :
    (∀ receipts, WellFormed w (c.server body).body
        (OutboxRepository.due c.now OutboxRepository.dueLimit t) receipts →
      Handled c.now t (OutboxRepository.due c.now OutboxRepository.dueLimit t) receipts
        (Flight.perform w device c t schedule)) ∧
    ((¬ ∃ receipts, WellFormed w (c.server body).body
        (OutboxRepository.due c.now OutboxRepository.dueLimit t) receipts) →
      Handled c.now t (OutboxRepository.due c.now OutboxRepository.dueLimit t) []
        (Flight.perform w device c t schedule)) := by
  by_cases hrows : OutboxRepository.due c.now OutboxRepository.dueLimit t = []
  · have hidle : Flight.perform w device c t schedule = (⟨t, [], schedule⟩ : Flight).others := by
      unfold Flight.perform AttendanceSync.step
      rw [Flight.run_call (.due _ _) _ _ Flight.answer_due, if_pos hrows]
      rfl
    have hstart : (⟨t, [], schedule⟩ : Flight).Holds t.outbox.rows t.deadLetter := ⟨by simp, rfl⟩
    have hholds := hstart.others
    have hnothing : Handled c.now t [] [] (⟨t, [], schedule⟩ : Flight).others := by
      refine ⟨⟨c.now + 1, "", by omega, ?_⟩, fun d => ?_⟩
      · simp [hholds.outbox]
      · simp [hholds.deadLetter]
    rw [hidle, hrows]
    refine ⟨fun receipts hwell => ?_, fun _ => hnothing⟩
    have hempty : receipts = [] := by
      have hle := hwell.receipts.length_le
      exact List.length_eq_zero_iff.mp (by simpa using hle)
    rw [hempty]
    exact hnothing
  rw [perform_answered hrows hbody]
  refine ⟨fun receipts hwell => ?_, fun hnone => ?_⟩
  · exact handled_receipts halive hlow hhigh (parseReceipts_iff.mpr hwell)
  · cases hparse : parseReceipts w (c.server body).body
        (OutboxRepository.due c.now OutboxRepository.dueLimit t) with
    | error e => exact handled_invalid hrows hlow hhigh hparse
    | ok receipts => exact absurd ⟨receipts, parseReceipts_iff.mp hparse⟩ hnone

end Split

/-! ## Two events, one receipt -/

/-- The wire of the sample. -/
def receiptWire : Wire (Extended ℚ) := .plain

/-- Two pending events. -/
def twoPending : Tables :=
  { Stored.fresh.opened with
    outbox := ⟨[⟨"a", "a@device", 1, 0, 0, ""⟩, ⟨"b", "b@device", 2, 0, 0, ""⟩], by decide⟩ }

/-- The server accepts the first one. -/
def oneReceipt : StepCall := ⟨1000, fun _ => ⟨200, "a", "", ""⟩, 5, 0⟩

/-- A third event is queued while the request is in flight. -/
def thirdQueued : List (List Queueing) := [[], [⟨⟨"c", "c@device", 3, 0, 0⟩, true, .reported⟩]]

/-- The first event leaves the outbox, the second waits, the third is queued. The third event is
queued while the request is in flight. -/
theorem receipts_split_sample :
    Handled oneReceipt.now twoPending
      (OutboxRepository.due oneReceipt.now OutboxRepository.dueLimit twoPending)
      [⟨"a", "accepted"⟩]
        (Flight.perform receiptWire "device" oneReceipt twoPending thirdQueued) := by
  have hbody : (batchPayload receiptWire "device"
      (OutboxRepository.due oneReceipt.now OutboxRepository.dueLimit twoPending)).toOption =
        some "batch" := by decide +kernel
  have hparse : (parseReceipts receiptWire "a"
      (OutboxRepository.due oneReceipt.now OutboxRepository.dueLimit twoPending)).toOption =
        some [⟨"a", "accepted"⟩] := by decide +kernel
  have halive : ∀ r ∈ OutboxRepository.due oneReceipt.now OutboxRepository.dueLimit twoPending,
      ∀ d ∈ twoPending.deadLetter, d.eventId ≠ r.id := by
    intro r _ d hd
    cases hd
  have hok := eq_ok_of_toOption hbody
  exact (receipts_split hok (by decide) (by decide) halive).1 _
    (parseReceipts_iff.mp (eq_ok_of_toOption hparse))

end EdgeClient.Sync
