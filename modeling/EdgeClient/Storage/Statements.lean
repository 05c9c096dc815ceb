import EdgeClient.Basis.StatefulPrograms
import EdgeClient.Storage.Database

/-!
# The statements of a transaction

A repository function opens a transaction, runs its statements one after the other and commits.
Any of these calls may fail. The exception then ends the scope of the transaction, which rolls
it back. SQLite keeps what the transaction changed apart until it is committed.
-/

namespace EdgeClient.Storage

open Basis

variable {τ : Type}

/-- A connection to the database. -/
structure Connection (τ : Type) where
  /-- The tables in the file. -/
  stored : τ
  /-- The tables that the open transaction sees. -/
  pending : Option τ

/-- A call of SQLite. -/
inductive SqlCall (τ : Type)
  /-- `BEGIN IMMEDIATE`. -/
  | begin
  /-- A statement; a violated constraint is an error. -/
  | statement (run : τ → Except Thrown τ)
  /-- `COMMIT`. -/
  | commit

namespace Connection

/-- Make a call. -/
def call (fails : Bool) (op : SqlCall τ) (c : Connection τ) : Except Thrown (Connection τ) :=
  if fails then throw .storageError
  else match op with
    | .begin => return { c with pending := some c.stored }
    | .statement run => do
      let t ← run (c.pending.getD c.stored)
      return { c with pending := some t }
    | .commit => return ⟨c.pending.getD c.stored, none⟩

/-- `ROLLBACK`, when the scope of the transaction ends without a commit. -/
def rollback (c : Connection τ) : Connection τ := { c with pending := none }

/-- Make calls until one fails; `faults` are the calls that SQLite lets fail. -/
def run (faults : ℕ → Bool) : List (SqlCall τ) → Connection τ → Except Thrown Unit × Connection τ
  | [], c => (.ok (), c)
  | op :: ops, c =>
    match c.call (faults 0) op with
    | .error e => (.error e, c.rollback)
    | .ok next => run (fun n => faults (n + 1)) ops next

/-- The calls of a transaction. -/
def transaction (statements : List (τ → Except Thrown τ)) : List (SqlCall τ) :=
  .begin :: statements.map .statement ++ [.commit]

/-- The statements on the tables, when no call fails. -/
def runAll (statements : List (τ → Except Thrown τ)) (t : τ) : Except Thrown τ :=
  statements.foldlM (fun t run => run t) t

/-- The rest of an open transaction is committed as a whole or changes nothing. The induction is
on the statements; the first fault, or the first statement that throws, rolls back. -/
theorem run_statements (faults : ℕ → Bool) (statements : List (τ → Except Thrown τ))
    (stored t : τ) :
    (∃ e, run faults (statements.map .statement ++ [.commit]) ⟨stored, some t⟩ =
        (.error e, ⟨stored, none⟩)) ∨
      ∃ t', runAll statements t = .ok t' ∧
        run faults (statements.map .statement ++ [.commit]) ⟨stored, some t⟩ =
          (.ok (), ⟨t', none⟩) := by
  induction statements generalizing faults t with
  | nil =>
    simp only [List.map_nil, List.nil_append, run, call]
    cases faults 0 with
    | true => exact Or.inl ⟨_, rfl⟩
    | false => exact Or.inr ⟨t, rfl, rfl⟩
  | cons statement statements ih =>
    simp only [List.map_cons, List.cons_append, run, call]
    cases faults 0 with
    | true => exact Or.inl ⟨_, rfl⟩
    | false =>
      have hfirst : runAll (statement :: statements) t = statement t >>= runAll statements :=
        List.foldlM_cons
      rw [hfirst]
      simp only [Option.getD_some]
      cases statement t with
      | error e => exact Or.inl ⟨e, rfl⟩
      | ok next => exact ih (fun n => faults (n + 1)) next

/-- A transaction is committed as a whole or changes nothing. -/
theorem run_transaction (faults : ℕ → Bool) (statements : List (τ → Except Thrown τ)) (t : τ) :
    (∃ e, run faults (transaction statements) ⟨t, none⟩ = (.error e, ⟨t, none⟩)) ∨
      ∃ t', runAll statements t = .ok t' ∧
        run faults (transaction statements) ⟨t, none⟩ = (.ok (), ⟨t', none⟩) := by
  simp only [transaction, List.cons_append, run, call]
  cases faults 0 with
  | true => exact Or.inl ⟨_, rfl⟩
  | false => exact run_statements (fun n => faults (n + 1)) statements t t

/-- A transaction of which no call fails is committed. It has then done what its statements do one
after the other. -/
theorem run_transaction_ok {statements : List (τ → Except Thrown τ)} {t t' : τ}
    (hall : runAll statements t = .ok t') :
    run (fun _ => false) (transaction statements) ⟨t, none⟩ = (.ok (), ⟨t', none⟩) := by
  have hrest : ∀ (statements : List (τ → Except Thrown τ)) (next : τ),
      runAll statements next = .ok t' →
        run (fun _ => false) (statements.map .statement ++ [.commit]) ⟨t, some next⟩ =
          (.ok (), ⟨t', none⟩) := by
    intro statements
    induction statements with
    | nil =>
      intro next hnext
      cases hnext
      rfl
    | cons statement statements ih =>
      intro next hnext
      have hfirst : runAll (statement :: statements) next = statement next >>= runAll statements :=
        List.foldlM_cons
      rw [hfirst] at hnext
      obtain ⟨following, hstatement, hnext⟩ := bind_eq_ok.mp hnext
      simp only [List.map_cons, List.cons_append, run, call, Option.getD_some, hstatement]
      exact ih following hnext
  exact hrest statements t hall

/-- What `transact` says of a transaction is what its calls do: they are applied and reported,
or an error is reported and they are not. -/
theorem run_transact (faults : ℕ → Bool) (statements : List (τ → Except Thrown τ)) (t : τ) :
    ∃ o, o ≠ .uncertain ∧
      (run faults (transaction statements) ⟨t, none⟩).2 =
        ⟨(transact o (fun t => return ((), ← runAll statements t)) t).2, none⟩ ∧
      ((run faults (transaction statements) ⟨t, none⟩).1 = .ok () ↔
        (transact o (fun t => return ((), ← runAll statements t)) t).1 = .ok ()) := by
  obtain ⟨e, hrun⟩ | ⟨t', hall, hrun⟩ := run_transaction faults statements t
  · refine ⟨.rolledBack, by simp, ?_, ?_⟩
    · rw [hrun]
      cases hall : runAll statements t <;>
        simp [transact, hall, pure, Except.pure, bind, Except.bind]
    · rw [hrun]
      cases hall : runAll statements t <;>
        simp [transact, hall, pure, Except.pure, bind, Except.bind]
  · refine ⟨.reported, by simp, ?_, ?_⟩
    · simp [hrun, transact, hall, pure, Except.pure, bind, Except.bind]
    · simp [hrun, transact, hall, pure, Except.pure, bind, Except.bind]

end Connection

end EdgeClient.Storage
