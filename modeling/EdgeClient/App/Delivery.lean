import EdgeClient.App.AttendanceCoordinator
import EdgeClient.Storage.OutboxRules
import EdgeClient.Sync.AttendanceSync

/-!
# The way of an event

The owner thread stages events and commits them one by one; the worker sends them and
writes down the answers. Both use the database in any order, every transaction may end
uncertainly, every request or answer may be lost, and the process may crash at any
moment. An event that was staged is then always somewhere: in the queue of the
coordinator, in the outbox, among the dead letters, or confirmed by the server.
-/

namespace EdgeClient.App

open Basis Vision Storage Sync

variable {F D : Type} [FloatOps F] [FloatOps D] [FloatPair F D]

/-- A batch that was sent, and the answer to it unless one of them was lost. -/
structure Exchange where
  /-- Body of the request. -/
  body : String
  /-- Answer of the server. -/
  reply : Option HttpResponse

/-- What the two threads share, with the history of the deliveries. The history is written by no
function of the source. It serves the statements only. -/
structure World where
  /-- The database. -/
  tables : Tables
  /-- The coordinator of the owner thread. -/
  coordinator : AttendanceCoordinator
  /-- Every record that was staged, and those that were in the outbox at the start. -/
  staged : List AttendanceRecord
  /-- Every record whose transaction was applied. -/
  committed : List AttendanceRecord
  /-- Every record that a crash found neither committed nor forgotten. -/
  forgotten : List AttendanceRecord
  /-- Every batch that was sent. -/
  exchanges : List Exchange
  /-- The dead letters of the start. -/
  retained : List DeadLetterRow

/-- The world when a database is opened. -/
def World.opened (tables : Tables) (device modelHash : String) : World where
  tables
  coordinator := .create device modelHash
  staged := tables.outbox.rows.map (·.record)
  committed := tables.outbox.rows.map (·.record)
  forgotten := []
  exchanges := []
  retained := tables.deadLetter.rows

/-- Answer a call of the worker. -/
def World.answer (c : Choice) (op : DeliveryOp) (s : World) : Except Thrown op.Answer × World :=
  let answered := op.answer c s.tables
  (answered.1, { s with
    tables := answered.2
    exchanges := match op with
      | .request _ _ body _ => s.exchanges ++ [⟨body, c.reply⟩]
      | _ => s.exchanges })

/-- The owner installs a gallery; its version becomes part of later events. -/
def World.install (snapshot : GallerySnapshot F) (s : World) : World :=
  match s.coordinator.checkIdle, s.coordinator.checkModel snapshot with
  | .ok (), .ok () => { s with coordinator := s.coordinator.publish snapshot }
  | _, _ => s

/-- The owner stages the events of a frame. -/
def World.stage (w : Wire D) (events : List (AttendanceEvent F × Option (Fin 16 → UInt8)))
    (s : World) : World :=
  match s.coordinator.stage w events with
  | .ok coordinator => { s with coordinator, staged := s.staged ++ coordinator.pending }
  | .error _ => s

/-- The transaction of a record is applied, whether or not this is reported. -/
def applied (o : Outcome) (r : AttendanceRecord) (t : Tables) : Bool :=
  o ≠ .rolledBack ∧ (OutboxRepository.ensureEnqueued r t).toBool

/-- The owner commits the next record. -/
def World.commitNext (o : Outcome) (s : World) : World :=
  let next := s.coordinator.commitNext o s.tables
  { s with
    coordinator := next.2.1
    tables := next.2.2
    committed := s.committed ++ s.coordinator.pending.head?.toList.filter (applied o · s.tables) }

/-- The process ends. What was in memory is lost. -/
def World.crash (s : World) : World :=
  { s with
    coordinator := .create s.coordinator.device s.coordinator.modelHash
    forgotten := s.forgotten ++ s.coordinator.pending.filter (· ∉ s.committed) }

/-- The world and the worker in it. -/
abbrev System := Running Thrown DeliveryOp.Answer World SyncResult

/-- What can happen. The owner and the worker come in any order, and the worker makes one call at
a time. -/
inductive Action (F : Type)
  /-- The owner installs a gallery. -/
  | install (snapshot : GallerySnapshot F)
  /-- The owner stages the events of a frame. -/
  | stage (events : List (AttendanceEvent F × Option (Fin 16 → UInt8)))
  /-- The owner commits the next record. -/
  | commitNext (o : Outcome)
  /-- The worker starts a step, unless one is going on. -/
  | start (now : ℤ)
  /-- The worker makes its next call. -/
  | work (c : Choice)
  /-- The process ends and is started again. -/
  | crash

/-- Let something happen. The owner's calls do not touch the program of the worker, and a crash
drops that program and everything in memory. -/
def System.perform (w : Wire D) (device : String) : Action F → System → System
  | .install snapshot, s => s.interfere (World.install snapshot)
  | .stage events, s => s.interfere (World.stage w events)
  | .commitNext o, s => s.interfere (World.commitNext o)
  | .start now, s =>
    match s.nextCall with
    | none => { s with program := AttendanceSync.step w device now }
    | some _ => s
  | .work c, s => s.advance (World.answer c)
  | .crash, s => ⟨s.world.crash, .done .continue⟩

/-- The system when a database is opened. -/
def System.opened (tables : Tables) (device modelHash : String) : System :=
  ⟨.opened tables device modelHash, .done .continue⟩

/-- The system after a run. -/
def System.after (w : Wire D) (device modelHash : String) (tables : Tables)
    (actions : List (Action F)) : System :=
  runFrom (System.perform w device) (.opened tables device modelHash) actions

/-- The records that an action stages. -/
def Action.newRecords (w : Wire D) : Action F → System → List AttendanceRecord
  | .stage events, s =>
    match s.world.coordinator.stage w events with
    | .ok coordinator => coordinator.pending
    | .error _ => []
  | _, _ => []

/-- An event that was passed to `stage`, with its random bytes and the version that the
coordinator had then. -/
structure Passed (F : Type) where
  /-- The event. -/
  event : AttendanceEvent F
  /-- The random bytes for its identifier. -/
  random : Option (Fin 16 → UInt8)
  /-- The version of the gallery. -/
  version : String

/-- The events that an action passes to a `stage` that returns. -/
def Action.passed (w : Wire D) : Action F → System → List (Passed F)
  | .stage events, s =>
    match s.world.coordinator.stage w events with
    | .ok _ => events.map fun x => ⟨x.1, x.2, s.world.coordinator.version⟩
    | .error _ => []
  | _, _ => []

/-- The events that a run passes to a `stage` that returns, in order. -/
def System.passed (w : Wire D) (device modelHash : String) (tables : Tables)
    (actions : List (Action F)) : List (Passed F) :=
  transcript (System.perform w device) (Action.passed w) (.opened tables device modelHash) actions

/-- The record is that of the event. -/
def Passed.Makes (w : Wire D) (device : String) (x : Passed F) (r : AttendanceRecord) : Prop :=
  envelope w x.random (AttendanceCoordinator.observation x.event) device x.version = .ok r

/-- The identifiers of new records are new. -/
def Action.Fresh (w : Wire D) (a : Action F) (s : System) : Prop :=
  ((a.newRecords w s).map (·.id)).Nodup ∧
    ∀ r ∈ a.newRecords w s, r.id ∉ s.world.staged.map (·.id)

/-- Whether an action is fresh is found from the identifiers used so far. -/
instance (w : Wire D) (a : Action F) (s : System) : Decidable (a.Fresh w s) :=
  inferInstanceAs (Decidable (_ ∧ _))

/-- The identifiers of all records of a run are new. -/
def System.AllFresh (w : Wire D) (device modelHash : String) (tables : Tables)
    (actions : List (Action F)) : Prop :=
  Throughout (System.perform w device) (Action.Fresh w) (.opened tables device modelHash) actions

/-- Whether all actions are fresh is found by running them. -/
instance (w : Wire D) (device modelHash : String) (tables : Tables) (actions : List (Action F)) :
    Decidable (System.AllFresh w device modelHash tables actions) :=
  inferInstanceAs (Decidable (Throughout _ _ _ _))

/-- The process goes on. -/
def Action.goesOn : Action F → Bool
  | .crash => false
  | _ => true

/-! ## What becomes of an event -/

/-- A batch of these rows was sent and answered. -/
def World.Answered (w : Wire D) (device : String) (s : World) (rows : List AttendanceRecord)
    (reply : HttpResponse) : Prop :=
  ∃ body, ⟨body, some reply⟩ ∈ s.exchanges ∧ batchPayload w device rows = .ok body

/-- A batch with the event was answered by a receipt for it. -/
def World.Receipted (w : Wire D) (device : String) (s : World) (id payload disposition : String) :
    Prop :=
  ∃ rows reply receipts, s.Answered w device rows reply ∧
    (∃ q ∈ rows, q.id = id ∧ q.payload = payload) ∧ 200 ≤ reply.status ∧ reply.status < 300 ∧
    parseReceipts w reply.body rows = .ok receipts ∧ ⟨id, disposition⟩ ∈ receipts

/-- The server confirmed the event. -/
def World.Confirmed (w : Wire D) (device : String) (s : World) (id payload : String) : Prop :=
  s.Receipted w device id payload "accepted" ∨ s.Receipted w device id payload "duplicate"

/-- The server refused the event. -/
def World.Refused (w : Wire D) (device : String) (s : World) (id payload : String) : Prop :=
  s.Receipted w device id payload "rejected" ∨ ∃ rows reply, s.Answered w device rows reply ∧
    (∃ q ∈ rows, q.id = id ∧ q.payload = payload) ∧ (reply.status = 400 ∨ reply.status = 422)

/-- The event waits in the outbox. -/
def World.Waiting (s : World) (r : AttendanceRecord) : Prop := ∃ row ∈ s.tables.outbox, row.Holds r

/-- The event is a dead letter. -/
def World.GivenUp (s : World) (r : AttendanceRecord) : Prop :=
  ∃ d ∈ s.tables.deadLetter, d.eventId = r.id ∧ d.payload = r.payload

/-- What holds of a record once it is committed. -/
def World.Kept (w : Wire D) (device : String) (s : World) (r : AttendanceRecord) : Prop :=
  s.Waiting r ∨ s.GivenUp r ∨ s.Confirmed w device r.id r.payload

/-- A row of a batch is an event that was staged. -/
def World.Known (s : World) (q : AttendanceRecord) : Prop :=
  ∃ r ∈ s.staged, q.id = r.id ∧ q.payload = r.payload

/-- No event is lost, duplicated or altered. The fields say where each staged record is, and what
was said to the server and by it. -/
structure World.Conserved (w : Wire D) (device : String) (s : World) : Prop where
  /-- Records have different identifiers. -/
  distinct : (s.staged.map (·.id)).Nodup
  /-- Every row is a staged record. -/
  outbox : ∀ row ∈ s.tables.outbox, ∃ r ∈ s.staged, row.Holds r
  /-- Every dead letter is an event that the server refused. -/
  deadLetter : ∀ d ∈ s.tables.deadLetter, d ∈ s.retained ∨
    (∃ r ∈ s.staged, d.eventId = r.id ∧ d.payload = r.payload) ∧
      s.Refused w device d.eventId d.payload
  /-- A committed record is kept. -/
  kept : ∀ r ∈ s.committed, s.Kept w device r
  /-- A pending record is a staged one. -/
  pending : ∀ r ∈ s.coordinator.pending, r ∈ s.staged
  /-- A staged record is pending or committed, or a crash came between. -/
  accounted : ∀ r ∈ s.staged,
    r ∈ s.coordinator.pending ∨ r ∈ s.committed ∨ r ∈ s.forgotten
  /-- What was sent is what was staged. -/
  sent : ∀ x ∈ s.exchanges, ∃ rows, batchPayload w device rows = .ok x.body ∧
    ∀ q ∈ rows, s.Known q

end EdgeClient.App
