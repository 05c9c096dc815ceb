import EdgeClient.Sync.DeliveryRules

/-!
# Steps while the storage works

When no storage operation fails and nobody else uses the database, a step is a function
on its tables. A batch that can be written is sent, and a valid answer to all of its
events removes all of them; a batch that cannot be written is delayed as a whole.
-/

namespace EdgeClient.Sync

open Basis Storage

variable {D : Type} [FloatOps D] {w : Wire D} {device : String}

/-! ## Which batches can be written -/

/-- A batch of this row alone can be written. -/
def Writable (w : Wire D) (device : String) (r : AttendanceRecord) : Prop :=
  ∃ body, batchPayload w device [r] = .ok body

/-- A batch is written if the identifier of the device is valid and each payload can be read again
and belongs to its row. -/
theorem batchPayload_ok {rows : List AttendanceRecord} :
    (∃ body, batchPayload w device rows = .ok body) ↔
      validId device = true ∧ ∀ r ∈ rows, ∃ event, batchEvent w device r = .ok event := by
  unfold batchPayload checkId
  constructor
  · rintro ⟨body, h⟩
    obtain ⟨⟨⟩, hid, h⟩ := bind_eq_ok.mp h
    obtain ⟨events, hevents, -⟩ := bind_eq_ok.mp h
    refine ⟨?_, mapM_ok.mp ⟨events, hevents⟩⟩
    by_contra hnot
    rw [if_neg hnot] at hid
    cases hid
  · rintro ⟨hid, hrows⟩
    obtain ⟨events, hevents⟩ := mapM_ok.mpr hrows
    rw [if_pos hid, hevents]
    exact ⟨_, rfl⟩

/-- A batch can be written exactly when each of its rows can. The device is checked for each
batch, and every row by itself. -/
theorem batchPayload_ok_iff {rows : List AttendanceRecord} (hrows : rows ≠ []) :
    (∃ body, batchPayload w device rows = .ok body) ↔ ∀ r ∈ rows, Writable w device r := by
  unfold Writable
  simp only [batchPayload_ok, List.mem_singleton, forall_eq]
  constructor
  · rintro ⟨hid, hall⟩ r hr
    exact ⟨hid, hall r hr⟩
  · intro hall
    obtain ⟨r, hr⟩ := List.exists_mem_of_ne_nil rows hrows
    exact ⟨(hall r hr).1, fun r hr => (hall r hr).2⟩

/-! ## A step as a function -/

/-- A batch that was sent, and the answer to it. -/
structure Post where
  /-- Body of the request. -/
  body : String
  /-- Answer of the server. -/
  reply : HttpResponse

/-- The database and the batches that were sent. -/
structure Line where
  /-- The database. -/
  tables : Tables
  /-- Every batch that was sent. -/
  posts : List Post

/-- One call of `AttendanceSync::step`. -/
structure StepCall where
  /-- The clock. -/
  now : ℤ
  /-- What the server answers to a batch. -/
  server : String → HttpResponse
  /-- Milliseconds until the answer. -/
  elapsed : ℕ
  /-- The random part of a delay. -/
  jitter : ℕ

namespace StepCall

/-- Answer a call of the worker; nothing fails. A request is put on the line with the reply it
gets, and every transaction commits. -/
def answer (c : StepCall) (op : DeliveryOp) (s : Line) : Except Thrown op.Answer × Line :=
  match op with
  | .request method path body etag =>
    let reply := c.server body
    let answered := (DeliveryOp.request method path body etag).answer
      ⟨.reported, some reply, c.elapsed, c.jitter⟩ s.tables
    (answered.1, ⟨answered.2, s.posts ++ [⟨body, reply⟩]⟩)
  | op =>
    let answered := op.answer ⟨.reported, none, c.elapsed, c.jitter⟩ s.tables
    (answered.1, { s with tables := answered.2 })

/-- What the step does. -/
def perform (w : Wire D) (device : String) (c : StepCall) (s : Line) : Line :=
  (Program.run c.answer (AttendanceSync.step w device c.now) s).2

/-- The server answers a batch with a valid receipt for every event in it. -/
def Answers (w : Wire D) (device : String) (c : StepCall) (rows : List AttendanceRecord) : Prop :=
  ∀ body, batchPayload w device rows = .ok body →
    200 ≤ (c.server body).status ∧ (c.server body).status < 300 ∧
    ∃ receipts, parseReceipts w (c.server body).body rows = .ok receipts ∧
      ∀ r ∈ rows, r.id ∈ receipts.map (·.eventId)

variable {c : StepCall} {s : Line} {rows : List AttendanceRecord}

/-- The worker continues with the answer to its call. -/
theorem run_call {α : Type} (op : DeliveryOp) (v : op.Answer) (s' : Line)
    {f : op.Answer → Delivering α} (h : c.answer op s = (.ok v, s')) :
    Program.run c.answer (op.call >>= f) s = Program.run c.answer (f v) s' := by
  change Program.run c.answer (.call op fun answer => Program.ofExcept answer >>= f) s = _
  rw [Program.run_call, h]
  rfl

omit [FloatOps D] in
/-- A delay of the batch. The clock and the jitter are asked first, and the retry cannot fail. -/
theorem run_postpone {α : Type} {now : ℤ} {header reason : String} {f : Unit → Delivering α} :
    ∃ next t', OutboxRepository.retry rows next reason s.tables = .ok ((), t') ∧
      Program.run c.answer (AttendanceSync.postpone w now rows header reason >>= f) s =
        Program.run c.answer (f ()) { s with tables := t' } := by
  obtain ⟨t', ht'⟩ := OutboxRepository.retry_total rows
    (retryAt w (now + c.elapsed) (maxAttempts rows) header c.jitter) reason s.tables
  refine ⟨_, t', ht', ?_⟩
  simp only [AttendanceSync.postpone, bind_assoc]
  rw [run_call .elapsed c.elapsed s rfl, run_call .retryJitter c.jitter s rfl]
  refine run_call (.retry _ _ _) () _ ?_
  simp only [answer, DeliveryOp.answer, transact_reported ht']

/-- The due rows of a step. -/
def batch (c : StepCall) (s : Line) : List AttendanceRecord :=
  OutboxRepository.due c.now OutboxRepository.dueLimit s.tables

/-- A step without due rows does nothing. -/
theorem perform_idle (h : c.batch s = []) : c.perform w device s = s := by
  unfold perform AttendanceSync.step
  rw [run_call (.due _ _) (c.batch s) s rfl, if_pos h]
  rfl

/-- A batch that cannot be written stays where it is and is delayed. The exception is caught like
one of the transport, and nothing was sent. -/
theorem perform_unwritable (hrows : c.batch s ≠ [])
    (h : ¬ ∃ body, batchPayload w device (c.batch s) = .ok body) :
    ∃ next t', OutboxRepository.retry (c.batch s) next "transport_failure" s.tables = .ok ((), t') ∧
      c.perform w device s = { s with tables := t' } := by
  unfold perform AttendanceSync.step
  rw [run_call (.due _ _) (c.batch s) s rfl, if_neg hrows]
  unfold AttendanceSync.send
  cases hbody : batchPayload w device (c.batch s) with
  | ok body => exact absurd ⟨body, hbody⟩ h
  | error e =>
    have hrun : ∀ f : Unit → Delivering SyncResult, ∃ next t',
        OutboxRepository.retry (c.batch s) next "transport_failure" s.tables = .ok ((), t') ∧
        Program.run c.answer (AttendanceSync.postpone w c.now (c.batch s) "" "transport_failure" >>=
          f) s = Program.run c.answer (f ()) { s with tables := t' } := fun f => run_postpone
    obtain ⟨next, t', hretry, hpostpone⟩ := hrun fun _ => pure .continue
    refine ⟨next, t', hretry, ?_⟩
    change (Program.run c.answer ((AttendanceSync.postpone w c.now (c.batch s) ""
      "transport_failure" >>= fun _ => pure none) >>= _) s).2 = _
    rw [bind_assoc]
    exact congrArg Prod.snd hpostpone

/-- A batch that is answered is sent once and its receipts are written down. Both transactions are
carried out before the step ends. -/
theorem perform_answered {body : String} {receipts : List DeliveryReceipt} {t' : Tables}
    (hrows : c.batch s ≠ []) (hbody : batchPayload w device (c.batch s) = .ok body)
    (hlow : 200 ≤ (c.server body).status) (hhigh : (c.server body).status < 300)
    (hreceipts : parseReceipts w (c.server body).body (c.batch s) = .ok receipts)
    (hall : ∀ r ∈ c.batch s, r.id ∈ receipts.map (·.eventId))
    (hrun : OutboxRepository.acknowledge receipts s.tables = .ok ((), t')) :
    c.perform w device s = ⟨t', s.posts ++ [⟨body, c.server body⟩]⟩ := by
  have hrest : (c.batch s).filter (fun e => e.id ∉ receipts.map (·.eventId)) = [] := by
    rw [List.filter_eq_nil_iff]
    intro r hr
    simpa using hall r hr
  unfold perform AttendanceSync.step
  rw [run_call (.due _ _) (c.batch s) s rfl, if_neg hrows]
  unfold AttendanceSync.send
  rw [hbody]
  change (Program.run c.answer (AttendanceSync.conclude w c.now (c.batch s) (c.server body))
    ⟨s.tables, s.posts ++ [⟨body, c.server body⟩]⟩).2 = _
  unfold AttendanceSync.conclude
  rw [if_neg (by omega)]
  dsimp only
  rw [if_neg (by omega), if_pos ⟨hlow, hhigh⟩, hreceipts]
  dsimp only
  unfold AttendanceSync.confirm
  rw [bind_assoc, run_call (.acknowledge receipts) ()
    ⟨t', s.posts ++ [⟨body, c.server body⟩]⟩, pure_bind, hrest]
  · rfl
  · simp only [answer, DeliveryOp.answer, transact_reported hrun]

end StepCall

end EdgeClient.Sync
