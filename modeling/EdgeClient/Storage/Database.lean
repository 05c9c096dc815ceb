import EdgeClient.Basis.Table

/-!
# The database of the device

The application keeps its events and its gallery in one SQLite file. Every repository
function runs one transaction under the mutex of the database, so other threads see it
before or after, never in between. The transaction may be reported as committed, it may
be rolled back, or its `COMMIT` may take effect although an error is reported.
-/

namespace EdgeClient.Storage

open Basis

/-- The exceptions of the application. Those that carry a text carry the text of the source. -/
inductive Thrown
  /-- `StorageError`: an SQLite function failed. -/
  | storageError
  /-- `std::invalid_argument`. -/
  | invalidArgument (what : String)
  /-- `std::runtime_error`. -/
  | runtimeError (what : String)
  /-- `std::logic_error`. -/
  | logicError (what : String)
  deriving DecidableEq, Repr

/-- How a transaction ends unless its statements throw. -/
inductive Outcome
  /-- It is applied and reported as committed. -/
  | reported
  /-- It is not applied, and an error is reported. -/
  | rolledBack
  /-- It is applied, but an error is reported. -/
  | uncertain
  deriving DecidableEq, Repr

/-- Run the statements of a transaction on the tables. An exception inside the statements rolls
back, and the outcome says how the `COMMIT` behind them ends. -/
def transact {τ α : Type} (o : Outcome) (statements : τ → Except Thrown (α × τ)) (tables : τ) :
    Except Thrown α × τ :=
  match statements tables with
  | .error e => (.error e, tables)
  | .ok (a, tables') =>
    match o with
    | .reported => (.ok a, tables')
    | .rolledBack => (.error .storageError, tables)
    | .uncertain => (.error .storageError, tables')

/-- Whether a transaction is applied although it is reported as failed. -/
def appliedUnreported {τ α : Type} (o : Outcome) (statements : τ → Except Thrown (α × τ))
    (tables : τ) : Bool :=
  o = .uncertain && (statements tables).toBool

/-- Run a query. A query that fails changes nothing. -/
def query {τ α : Type} (o : Outcome) (select : τ → α) (tables : τ) : Except Thrown α × τ :=
  match o with
  | .reported => (.ok (select tables), tables)
  | _ => (.error .storageError, tables)

section Transactions

variable {τ α : Type} {o : Outcome} {statements : τ → Except Thrown (α × τ)} {tables : τ}

/-- A transaction leaves the tables as they were or as its statements leave them. A `COMMIT` that
fails may have taken effect, so the error does not tell which of the two it is. -/
theorem transact_cases (o : Outcome) (statements : τ → Except Thrown (α × τ)) (tables : τ) :
    (transact o statements tables).2 = tables ∨
      ∃ a tables', statements tables = .ok (a, tables') ∧
        (transact o statements tables).2 = tables' := by
  unfold transact
  cases hrun : statements tables with
  | error e => exact Or.inl rfl
  | ok result =>
    obtain ⟨a, tables'⟩ := result
    cases o with
    | reported => exact Or.inr ⟨a, tables', rfl, rfl⟩
    | rolledBack => exact Or.inl rfl
    | uncertain => exact Or.inr ⟨a, tables', rfl, rfl⟩

/-- A transaction that is reported as committed is applied. The other two ends of a `COMMIT`
report an error, whether they take effect or not. -/
theorem transact_ok {a : α} {tables' : τ} (h : transact o statements tables = (.ok a, tables')) :
    statements tables = .ok (a, tables') := by
  unfold transact at h
  cases hrun : statements tables with
  | error e =>
    rw [hrun] at h
    cases h
  | ok result =>
    rw [hrun] at h
    cases o with
    | reported =>
      cases h
      rfl
    | rolledBack => cases h
    | uncertain => cases h

/-- A transaction throws what its statements throw, or an SQLite error. What a failed transaction
leaves behind depends on its end: nothing, or everything. -/
theorem transact_error {e : Thrown} {tables' : τ}
    (h : transact o statements tables = (.error e, tables')) :
    statements tables = .error e ∨ e = .storageError := by
  unfold transact at h
  cases hrun : statements tables with
  | error e' =>
    rw [hrun] at h
    cases h
    exact Or.inl rfl
  | ok result =>
    rw [hrun] at h
    cases o with
    | reported => cases h
    | rolledBack =>
      cases h
      exact Or.inr rfl
    | uncertain =>
      cases h
      exact Or.inr rfl

/-- A transaction that throws and is not applied leaves the tables as they were. Only a `COMMIT`
that takes effect although an error is reported changes something behind an exception. -/
theorem transact_unapplied {e : Thrown} {tables' : τ}
    (h : transact o statements tables = (.error e, tables'))
    (hunapplied : appliedUnreported o statements tables = false) : tables' = tables := by
  unfold transact at h
  unfold appliedUnreported at hunapplied
  cases hrun : statements tables with
  | error e' =>
    rw [hrun] at h
    cases h
    rfl
  | ok result =>
    rw [hrun] at h hunapplied
    cases o with
    | reported => cases h
    | rolledBack =>
      cases h
      rfl
    | uncertain => cases hunapplied

/-- A transaction without a failure. -/
theorem transact_reported {a : α} {tables' : τ} (h : statements tables = .ok (a, tables')) :
    transact .reported statements tables = (.ok a, tables') := by
  rw [transact, h]

/-- A query changes no table. -/
@[simp] theorem query_tables {select : τ → α} : (query o select tables).2 = tables := by
  cases o <;> rfl

/-- A query that returns has read the tables as they are. -/
theorem query_ok {select : τ → α} {a : α} (h : (query o select tables).1 = .ok a) :
    a = select tables := by
  cases o with
  | reported =>
    cases h
    rfl
  | rolledBack => cases h
  | uncertain => cases h

end Transactions

/-! ## The tables of the outbox -/

/-- A row of `attendance_outbox`. The columns are those of the table, with the identifier as its
key. -/
structure OutboxRow where
  /-- Identifier of the event. -/
  eventId : String
  /-- The event as it is sent. -/
  payload : String
  /-- When the event occurred. -/
  occurredMs : ℤ
  /-- Failed attempts to deliver it. -/
  attempts : ℤ
  /-- Not to be sent earlier. -/
  nextMs : ℤ
  /-- Why the last attempt failed. -/
  lastError : String
  deriving DecidableEq, Repr

/-- A row of `dead_letter`. -/
structure DeadLetterRow where
  /-- Identifier of the event. -/
  eventId : String
  /-- The event. -/
  payload : String
  /-- Why it is not delivered. -/
  reason : String
  deriving DecidableEq, Repr

/-- The tables of schema version 1 that concern the delivery. -/
structure TablesV1 where
  /-- `attendance_outbox`. -/
  outbox : Table String OutboxRow OutboxRow.eventId
  /-- `dead_letter`. -/
  deadLetter : Table String DeadLetterRow DeadLetterRow.eventId

/-- The tables of schema version 2 that concern the delivery. -/
structure Tables where
  /-- `attendance_outbox`. -/
  outbox : Table String OutboxRow OutboxRow.eventId
  /-- `dead_letter`. -/
  deadLetter : Table String DeadLetterRow DeadLetterRow.eventId
  /-- The `retry_not_before_ms` of the only row of `delivery_state`. -/
  retryNotBeforeMs : ℤ

/-- `create_schema`. -/
def createSchema : TablesV1 := ⟨.empty, .empty⟩

/-- `COALESCE(MAX(next_ms),0)`. -/
def maxNextMs (rows : List OutboxRow) : ℤ := ((rows.map (·.nextMs)).max?).getD 0

/-- `migrate_v1_to_v2`. -/
def migrateV1ToV2 (t : TablesV1) : Tables where
  outbox := t.outbox
  deadLetter := t.deadLetter
  retryNotBeforeMs := maxNextMs t.outbox.rows

/-- What the file holds when it is opened. -/
inductive Stored
  /-- A new file: `user_version` is 0. -/
  | fresh
  /-- The file of an earlier release: `user_version` is 1. -/
  | v1 (tables : TablesV1)
  /-- A file of this release: `user_version` is 2. -/
  | v2 (tables : Tables)

/-- Open the database: create and migrate the tables where that is needed. -/
def Stored.opened : Stored → Tables
  | fresh => migrateV1ToV2 createSchema
  | v1 tables => migrateV1ToV2 tables
  | v2 tables => tables

/-- No row of a migrated table is due before the endpoint is. The endpoint takes the latest time
of all its rows. -/
theorem le_maxNextMs {rows : List OutboxRow} {row : OutboxRow} (h : row ∈ rows) :
    row.nextMs ≤ maxNextMs rows := by
  have hmem : row.nextMs ∈ rows.map (·.nextMs) := List.mem_map.mpr ⟨row, h, rfl⟩
  unfold maxNextMs
  cases hmax : (rows.map (·.nextMs)).max? with
  | none =>
    rw [List.max?_eq_none_iff.mp hmax] at hmem
    cases hmem
  | some m => exact (List.max?_eq_some_iff.mp hmax).2 _ hmem

/-- The latest time of rows that have no negative time is not negative. -/
theorem maxNextMs_nonneg {rows : List OutboxRow} (h : ∀ row ∈ rows, 0 ≤ row.nextMs) :
    0 ≤ maxNextMs rows := by
  unfold maxNextMs
  cases hmax : (rows.map (·.nextMs)).max? with
  | none => exact le_rfl
  | some m =>
    obtain ⟨row, hrow, rfl⟩ := List.mem_map.mp (List.max?_eq_some_iff.mp hmax).1
    exact h row hrow

end EdgeClient.Storage
