import EdgeClient.Basis.InterleavedPrograms
import EdgeClient.Sync.RetryPolicy

/-!
# The delivery of events

One step of the worker reads the oldest due events, sends them as one batch and writes
down what became of them. It calls the database and the network; every call is atomic,
and other threads may use the database between two calls.
-/

namespace EdgeClient.Sync

open Basis Storage

/-- The answer of the server. -/
structure HttpResponse where
  /-- Status code. -/
  status : ℕ
  /-- Body. -/
  body : String
  /-- Header `ETag`. -/
  etag : String
  /-- Header `Retry-After`. -/
  retryAfter : String
  deriving DecidableEq, Repr

/-- How a step of the synchronization ends. -/
inductive SyncResult
  /-- Go on. -/
  | continue
  /-- The server refused the token. -/
  | authenticationBlocked
  deriving DecidableEq, Repr

/-- What the delivery calls. Each call is atomic for the other threads, and its answer comes from
outside. -/
inductive DeliveryOp
  /-- `OutboxRepository::due`. -/
  | due (now : ℤ) (limit : ℕ)
  /-- `OutboxRepository::retry`. -/
  | retry (rows : List AttendanceRecord) (next : ℤ) (reason : String)
  /-- `OutboxRepository::acknowledge`. -/
  | acknowledge (receipts : List DeliveryReceipt)
  /-- `OutboxRepository::dead_letter`. -/
  | deadLetter (rows : List AttendanceRecord) (reason : String)
  /-- `Transport::request`. -/
  | request (method path body etag : String)
  /-- Milliseconds since the `RetryClock` was started. -/
  | elapsed
  /-- `retry_jitter`. -/
  | retryJitter

/-- What a call answers with. -/
abbrev DeliveryOp.Answer : DeliveryOp → Type
  | due _ _ => List AttendanceRecord
  | retry _ _ _ => Unit
  | acknowledge _ => Unit
  | deadLetter _ _ => Unit
  | request _ _ _ _ => HttpResponse
  | elapsed => ℕ
  | retryJitter => ℕ

/-- A program of the delivery. -/
abbrev Delivering (α : Type) := Program Thrown DeliveryOp.Answer α

/-- Call an operation. -/
def DeliveryOp.call (op : DeliveryOp) : Delivering op.Answer := .perform op

/-- The path of the batches. -/
def batchPath : String := "/attendance-events/batch"

/-- The largest number of attempts in a batch, and at least zero. -/
def maxAttempts (rows : List AttendanceRecord) : ℤ := rows.foldl (fun m r => max m r.attempts) 0

namespace AttendanceSync

variable {D : Type} [FloatOps D] (w : Wire D) (device : String) (now : ℤ)

/-- Delay the rows of a batch by what `retry_at` says at this moment. -/
def postpone (rows : List AttendanceRecord) (retryAfter reason : String) : Delivering Unit := do
  let elapsed ← DeliveryOp.elapsed.call
  let jitter ← DeliveryOp.retryJitter.call
  DeliveryOp.call
    (.retry rows (retryAt w (now + elapsed) (maxAttempts rows) retryAfter jitter) reason)

/-- Send a batch. A batch that cannot be written or sent is delayed. -/
def send (rows : List AttendanceRecord) : Delivering (Option HttpResponse) :=
  try
    let body ← .ofExcept (batchPayload w device rows)
    let r ← DeliveryOp.call (.request "POST" batchPath body "")
    pure (some r)
  catch _ =>
    postpone w now rows "" "transport_failure"
    pure none

/-- Write down the receipts of a batch; the rows without a receipt remain. -/
def confirm (rows : List AttendanceRecord) (receipts : List DeliveryReceipt) :
    Delivering (List AttendanceRecord) := do
  DeliveryOp.call (.acknowledge receipts)
  return rows.filter fun e => e.id ∉ receipts.map (·.eventId)

/-- Act on the answer to a batch. Refused credentials leave the batch alone, refused payloads give
it up, and everything else is confirmed or retried. -/
def conclude (rows : List AttendanceRecord) (r : HttpResponse) : Delivering SyncResult := do
  if r.status = 401 ∨ r.status = 403 then return .authenticationBlocked
  if r.status = 400 ∨ r.status = 422 then
    DeliveryOp.call (.deadLetter rows ("schema_rejected_" ++ toString r.status))
  else if 200 ≤ r.status ∧ r.status < 300 then
    match parseReceipts w r.body rows with
    | .ok receipts =>
      let rest ← confirm rows receipts
      if rest ≠ [] then postpone w now rest r.retryAfter "missing_ack"
    | .error _ => postpone w now rows r.retryAfter "invalid_ack"
  else postpone w now rows r.retryAfter ("http_" ++ toString r.status)
  return .continue

/-- `step`. -/
def step : Delivering SyncResult := do
  let rows ← DeliveryOp.call (.due now OutboxRepository.dueLimit)
  if rows = [] then return .continue
  match ← send w device now rows with
  | none => return .continue
  | some r => conclude w now rows r

end AttendanceSync

/-! ## The calls -/

/-- How the world lets a call end. -/
structure Choice where
  /-- The end of the transaction. -/
  outcome : Outcome
  /-- The answer of the server; none when the request or the answer is lost. -/
  reply : Option HttpResponse
  /-- Milliseconds since the `RetryClock` was started. -/
  elapsed : ℕ
  /-- The random part of a delay. -/
  jitter : ℕ

/-- Answer a call on the tables. Reads and transactions end as the choice says, and the request is
answered by the server or throws. -/
def DeliveryOp.answer (c : Choice) :
    (op : DeliveryOp) → Tables → Except Thrown op.Answer × Tables
  | due now limit, t => query c.outcome (OutboxRepository.due now limit) t
  | retry rows next reason, t => transact c.outcome (OutboxRepository.retry rows next reason) t
  | acknowledge receipts, t => transact c.outcome (OutboxRepository.acknowledge receipts) t
  | deadLetter rows reason, t => transact c.outcome (OutboxRepository.deadLetter rows reason) t
  | request _ _ _ _, t =>
    match c.reply with
    | some r => (.ok r, t)
    | none => (.error (.runtimeError "Request failed"), t)
  | elapsed, t => (.ok c.elapsed, t)
  | retryJitter, t => (.ok c.jitter, t)

end EdgeClient.Sync
