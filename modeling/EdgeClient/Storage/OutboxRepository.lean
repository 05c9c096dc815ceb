import EdgeClient.Storage.Database

/-!
# The outbox

Events wait in the outbox until the server has answered for them. A row leaves it only
when its event is acknowledged or moved to the dead letters, and a retry delays its row
and the whole endpoint. The statements of each repository function are a function on the
tables here; `transact` runs them.
-/

namespace EdgeClient.Storage

open Basis

/-- An event on its way into the outbox or out of it. -/
structure AttendanceRecord where
  /-- Identifier of the event. -/
  id : String
  /-- The event as it is sent. -/
  payload : String
  /-- When the event occurred. -/
  occurredMs : ℤ
  /-- Not to be sent earlier. -/
  nextAttemptMs : ℤ := 0
  /-- Failed attempts to deliver it. -/
  attempts : ℤ := 0
  deriving DecidableEq, Repr

/-- The answer of the server for one event. -/
structure DeliveryReceipt where
  /-- Identifier of the event. -/
  eventId : String
  /-- What the server did with the event. -/
  disposition : String
  deriving DecidableEq, Repr

/-- The row of a new event. -/
def AttendanceRecord.row (r : AttendanceRecord) : OutboxRow where
  eventId := r.id
  payload := r.payload
  occurredMs := r.occurredMs
  attempts := 0
  nextMs := 0
  lastError := ""

/-- The record of a row. -/
def OutboxRow.record (row : OutboxRow) : AttendanceRecord where
  id := row.eventId
  payload := row.payload
  occurredMs := row.occurredMs
  nextAttemptMs := row.nextMs
  attempts := row.attempts

/-- A row holds the event of a record. -/
def OutboxRow.Holds (row : OutboxRow) (r : AttendanceRecord) : Prop :=
  row.eventId = r.id ∧ row.payload = r.payload ∧ row.occurredMs = r.occurredMs

/-- Whether a row holds a record is found by comparing the three columns. -/
instance (row : OutboxRow) (r : AttendanceRecord) : Decidable (row.Holds r) :=
  inferInstanceAs (Decidable (_ ∧ _))

/-- The row of a record holds it. -/
@[simp] theorem row_holds (r : AttendanceRecord) : r.row.Holds r := ⟨rfl, rfl, rfl⟩

/-- A row holds the record that is read from it. -/
@[simp] theorem holds_record (row : OutboxRow) : row.Holds row.record := ⟨rfl, rfl, rfl⟩

namespace OutboxRepository

/-- `INSERT INTO dead_letter(event_id,payload,reason) SELECT ...`. -/
def retain (t : Tables) (id reason : String) :
    Except Thrown (Table String DeadLetterRow DeadLetterRow.eventId) :=
  match t.outbox.find id with
  | none => .ok t.deadLetter
  | some row =>
    match t.deadLetter.insert ⟨row.eventId, row.payload, reason⟩ with
    | none => throw .storageError
    | some deadLetter => .ok deadLetter

/-- `dead`: move an event to the dead letters. -/
def dead (t : Tables) (id reason : String) : Except Thrown Tables := do
  let deadLetter ← retain t id reason
  return { t with deadLetter, outbox := t.outbox.keep (·.eventId ≠ id) }

/-- `INSERT INTO attendance_outbox`. -/
def insertRow (t : Tables) (r : AttendanceRecord) : Except Thrown (Unit × Tables) :=
  match t.outbox.insert r.row with
  | none => throw .storageError
  | some outbox => return ((), { t with outbox })

/-- `enqueue`. -/
def enqueue (r : AttendanceRecord) (t : Tables) : Except Thrown (Unit × Tables) := insertRow t r

/-- `ensure_enqueued`: an event that is stored already is not stored again. An identifier that is
stored with another payload, in either table, is refused. -/
def ensureEnqueued (r : AttendanceRecord) (t : Tables) : Except Thrown (Unit × Tables) :=
  match t.outbox.find r.id with
  | some existing =>
    if existing.payload ≠ r.payload ∨ existing.occurredMs ≠ r.occurredMs then
      throw (.runtimeError "Conflicting local event ID")
    else return ((), t)
  | none =>
    match t.deadLetter.find r.id with
    | some rejected =>
      if rejected.payload ≠ r.payload then throw (.runtimeError "Conflicting retained event ID")
      else return ((), t)
    | none => insertRow t r

/-- The rows in the order of their events. -/
def Before (row row' : OutboxRow) : Prop :=
  row.occurredMs < row'.occurredMs ∨
    (row.occurredMs = row'.occurredMs ∧ row.eventId ≤ row'.eventId)

/-- The order of two rows is found by comparing times and identifiers. -/
instance : DecidableRel Before := fun _ _ => inferInstanceAs (Decidable (_ ∨ _))

/-- The default of the parameter `limit`. -/
def dueLimit : ℕ := 32

/-- `due`: the oldest events that may be sent. -/
def due (now : ℤ) (limit : ℕ) (t : Tables) : List AttendanceRecord :=
  (((t.outbox.rows.filter fun row => row.nextMs ≤ now ∧ t.retryNotBeforeMs ≤ now).insertionSort
    Before).take (min limit 100)).map (·.record)

/-- What `retry` does to a row of the batch. -/
def delay (next : ℤ) (reason : String) (row : OutboxRow) : OutboxRow :=
  { row with attempts := min (row.attempts + 1) 30, nextMs := next, lastError := reason }

/-- `UPDATE attendance_outbox ... WHERE event_id=?`. -/
def delayRow (next : ℤ) (reason : String) (t : Tables) (r : AttendanceRecord) : Tables :=
  { t with
    outbox := t.outbox.update (fun row => if row.eventId = r.id then delay next reason row else row)
      fun row => by split <;> rfl }

/-- `retry`. -/
def retry (rows : List AttendanceRecord) (next : ℤ) (reason : String) (t : Tables) :
    Except Thrown (Unit × Tables) :=
  if rows = [] then return ((), t)
  else
    let paused := { t with retryNotBeforeMs := max t.retryNotBeforeMs next }
    return ((), rows.foldl (delayRow next reason) paused)

/-- Whether a receipt says something about its event. -/
def validDisposition (disposition : String) : Bool :=
  disposition = "accepted" ∨ disposition = "duplicate" ∨ disposition = "rejected"

/-- Act on one receipt. -/
def settle (t : Tables) (r : DeliveryReceipt) : Except Thrown Tables :=
  if r.disposition = "rejected" then dead t r.eventId "business_rejected"
  else return { t with outbox := t.outbox.keep (·.eventId ≠ r.eventId) }

/-- `acknowledge`. -/
def acknowledge (receipts : List DeliveryReceipt) (t : Tables) : Except Thrown (Unit × Tables) :=
  if receipts.all fun r => validDisposition r.disposition then
    return ((), ← receipts.foldlM settle t)
  else throw (.invalidArgument "Invalid receipt disposition")

/-- `dead_letter`. -/
def deadLetter (rows : List AttendanceRecord) (reason : String) (t : Tables) :
    Except Thrown (Unit × Tables) :=
  return ((), ← rows.foldlM (fun t r => dead t r.id reason) t)

/-- `pending_count`. -/
def pendingCount (t : Tables) : ℕ := t.outbox.rows.length

end OutboxRepository

end EdgeClient.Storage
