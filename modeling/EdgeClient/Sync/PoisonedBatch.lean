import EdgeClient.Sync.WorkingStorage

/-!
# A row that cannot be sent

A batch is written as a whole: one row whose payload does not belong to the device makes
the exception of the whole batch, which is taken for a failed transport. All rows of the
batch are delayed, and because the oldest rows come first, the same rows are due again.
A row that could be sent is therefore delivered exactly when the whole batch can be.
-/

namespace EdgeClient.Sync

open Basis Storage

variable {D : Type} [FloatOps D] {w : Wire D} {device : String}

namespace StepCall

variable {c : StepCall} {s : Line}

/-- The server acknowledges every event of a batch. -/
def Acknowledges (w : Wire D) (device : String) (c : StepCall) (rows : List AttendanceRecord) :
    Prop :=
  ∀ body, batchPayload w device rows = .ok body →
    200 ≤ (c.server body).status ∧ (c.server body).status < 300 ∧
    ∃ receipts, parseReceipts w (c.server body).body rows = .ok receipts ∧
      (∀ r ∈ rows, r.id ∈ receipts.map (·.eventId)) ∧
      ∀ r ∈ receipts, r.disposition = "accepted" ∨ r.disposition = "duplicate"

/-- The rows of the batch that can be sent are delivered, and the events of the others
stay or are given up. -/
structure Unblocked (w : Wire D) (device : String) (c : StepCall) (s : Line) : Prop where
  /-- A row that can be sent leaves the outbox. -/
  delivered : ∀ r ∈ c.batch s, Writable w device r →
    ∀ row ∈ (c.perform w device s).tables.outbox, row.eventId ≠ r.id
  /-- The event of another row is not lost. -/
  kept : ∀ r ∈ c.batch s, ¬ Writable w device r →
    (∃ row ∈ (c.perform w device s).tables.outbox, row.Holds r) ∨
      ∃ d ∈ (c.perform w device s).tables.deadLetter, d.eventId = r.id ∧ d.payload = r.payload

/-- An outbox with a due row that can be sent is not blocked exactly when every row of the
due batch can be sent. -/
theorem unblocked_iff (hserver : c.Acknowledges w device (c.batch s))
    (hsome : ∃ r ∈ c.batch s, Writable w device r) :
    c.Unblocked w device s ↔ ∀ r ∈ c.batch s, Writable w device r := by
  obtain ⟨r, hr, hwritable⟩ := hsome
  have hrows : c.batch s ≠ [] := List.ne_nil_of_mem hr
  constructor
  · intro hunblocked
    by_contra hnot
    have hbody : ¬ ∃ body, batchPayload w device (c.batch s) = .ok body :=
      fun h => hnot ((batchPayload_ok_iff hrows).mp h)
    obtain ⟨next, t', hretry, hperform⟩ := perform_unwritable hrows hbody
    obtain ⟨⟨f, hf⟩, -⟩ := OutboxRepository.retry_delayed hrows hretry
    obtain ⟨row, hrow, rfl, -, -⟩ := OutboxRepository.mem_due hr
    refine hunblocked.delivered row.record hr hwritable (f row) ?_ (hf.holds row).1
    rw [hperform, Table.mem_def, hf.outbox]
    exact List.mem_map_of_mem hrow
  · intro hall
    obtain ⟨body, hbody⟩ := (batchPayload_ok_iff hrows).mpr hall
    obtain ⟨hlow, hhigh, receipts, hreceipts, hcovered, haccepted⟩ := hserver body hbody
    have hparsed := parseReceipts_receipts hreceipts
    obtain ⟨t', hrun, -⟩ := OutboxRepository.acknowledge_total hparsed.valid hparsed.distinct
      (t := s.tables) fun r hr hrejected => by
        rcases haccepted r hr with h | h
        · simp [hrejected] at h
        · simp [hrejected] at h
    have hperform := perform_answered hrows hbody hlow hhigh hreceipts hcovered hrun
    refine ⟨fun r hr _ row hrow hid => ?_, fun r hr hnot => absurd (hall r hr) hnot⟩
    rw [hperform, (OutboxRepository.acknowledge_removed hrun).outbox, Table.mem_keep,
      List.map_map] at hrow
    obtain ⟨-, hgone⟩ := hrow
    have hleft : row.eventId ∉ receipts.map (·.eventId) := of_decide_eq_true hgone
    exact hleft (hid ▸ hcovered r hr)

/-! ## A batch with a row of another device -/

/-- The wire of the small batches. -/
abbrev plainWire : Wire (Extended ℚ) := .plain

/-- An outbox with two rows of this device. -/
def healthyLine : Line where
  tables :=
    { Stored.fresh.opened with
      outbox := ⟨[⟨"a", "a@device", 3, 0, 0, ""⟩, ⟨"b", "b@device", 4, 0, 0, ""⟩], by decide⟩ }
  posts := []

/-- The two rows as they are sent. -/
def healthyRows : List AttendanceRecord :=
  [⟨"a", "a@device", 3, 0, 0⟩, ⟨"b", "b@device", 4, 0, 0⟩]

/-- A server that accepts both events when it receives them. -/
def acceptingBoth : StepCall := ⟨1000, fun _ => ⟨200, "a,b", "", ""⟩, 5, 0⟩

/-- An outbox with a row that was stored under another device identifier and a later row
of this device. -/
def poisonedLine : Line where
  tables :=
    { Stored.fresh.opened with
      outbox := ⟨[⟨"a", "a@retired", 1, 0, 0, ""⟩, ⟨"b", "b@device", 2, 0, 0, ""⟩], by decide⟩ }
  posts := []

/-- A server that accepts the second event when it receives it. -/
def acceptingCall : StepCall := ⟨1000, fun _ => ⟨200, "b", "", ""⟩, 5, 0⟩

/-- Both rows are delivered from the outbox of which each one can be sent. The server answers with
one receipt for each of them. -/
theorem unblocked_iff_sample :
    acceptingBoth.batch healthyLine = healthyRows ∧
      acceptingBoth.Acknowledges plainWire "device" (acceptingBoth.batch healthyLine) ∧
      acceptingBoth.Unblocked plainWire "device" healthyLine := by
  have hbatch : acceptingBoth.batch healthyLine = healthyRows := by decide +kernel
  have hwritable : ∀ r ∈ healthyRows, Writable plainWire "device" r := by
    intro r hr
    rcases List.mem_pair.mp hr with rfl | rfl
    · exact ⟨"batch", by rfl⟩
    · exact ⟨"batch", by rfl⟩
  have hreceipts : parseReceipts plainWire "a,b" healthyRows =
      .ok [⟨"a", "accepted"⟩, ⟨"b", "accepted"⟩] := by
    have hoption : (parseReceipts plainWire "a,b" healthyRows).toOption =
        some [⟨"a", "accepted"⟩, ⟨"b", "accepted"⟩] := by decide +kernel
    cases hparse : parseReceipts plainWire "a,b" healthyRows with
    | error e =>
      rw [hparse] at hoption
      cases hoption
    | ok receipts =>
      rw [hparse] at hoption
      cases hoption
      rfl
  have hserver :
      acceptingBoth.Acknowledges plainWire "device" (acceptingBoth.batch healthyLine) := by
    rw [hbatch]
    refine fun body _ => ⟨le_rfl, by norm_num [acceptingBoth], _, hreceipts, ?_, ?_⟩
    · simp [healthyRows]
    · simp
  rw [← hbatch] at hwritable
  have hfirst :
      (⟨"a", "a@device", 3, 0, 0⟩ : AttendanceRecord) ∈ acceptingBoth.batch healthyLine := by
    rw [hbatch]
    exact List.mem_cons_self
  have hunblocked := (unblocked_iff hserver ⟨_, hfirst, hwritable _ hfirst⟩).mpr hwritable
  exact ⟨hbatch, hserver, hunblocked⟩

/-- The row that could be sent is not delivered. The payload in front of it was written by another
device, and the batch is not sent at all. -/
theorem undeliverable_row_blocks :
    (∃ r ∈ acceptingCall.batch poisonedLine, Writable plainWire "device" r) ∧
      acceptingCall.Acknowledges plainWire "device"
        (acceptingCall.batch poisonedLine) ∧
      ¬ acceptingCall.Unblocked plainWire "device" poisonedLine := by
  have hmem :
      (⟨"b", "b@device", 2, 0, 0⟩ : AttendanceRecord) ∈ acceptingCall.batch poisonedLine := by
    decide +kernel
  have hwritable : Writable plainWire "device" ⟨"b", "b@device", 2, 0, 0⟩ :=
    ⟨"batch", by rfl⟩
  have hbatch : (batchPayload plainWire "device"
      (acceptingCall.batch poisonedLine)).toBool = false := by decide +kernel
  refine ⟨⟨_, hmem, hwritable⟩, fun body hbody => ?_, fun hunblocked => ?_⟩
  · rw [hbody] at hbatch
    cases hbatch
  · have hstays : ∃ row ∈ (acceptingCall.perform plainWire "device"
        poisonedLine).tables.outbox.rows, row.eventId = "b" := by decide +kernel
    obtain ⟨row, hrow, hid⟩ := hstays
    exact hunblocked.delivered _ hmem hwritable row hrow hid

end StepCall

end EdgeClient.Sync
