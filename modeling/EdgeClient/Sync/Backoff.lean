import EdgeClient.Sync.DeliveryRules

/-!
# Backoff

A failed delivery delays the whole endpoint, and the delay is kept in the database: in
one row that only a retry may change, and only upwards. A step reads that row together
with the due events, so it sends nothing before the last delay is over. Between the
reading and the request others use the database, but none of them changes the row, and
no second step goes on at the same time.
-/

namespace EdgeClient.Sync

open Basis Storage

variable {D : Type} [FloatOps D] {w : Wire D} {device : String}

/-- A delay that was written down. -/
structure Deadline where
  /-- Nothing is to be sent before. -/
  next : ℤ
  /-- The answer that led to the delay, with the time when it came. -/
  cause : Option (HttpResponse × ℤ)

/-- The database, the clock of the current step and the history of the delays. -/
structure Endpoint where
  /-- The database. -/
  tables : Tables
  /-- The time with which the current step was started. -/
  now : ℤ
  /-- Milliseconds since then. -/
  elapsed : ℕ
  /-- The answer in the current step, with the time when it came. -/
  received : Option (HttpResponse × ℤ)
  /-- Every delay that was written down. -/
  deadlines : List Deadline

namespace Endpoint

/-- Answer a call of the worker; `c.elapsed` milliseconds pass meanwhile. The arrival of a reply
and every deadline that is written are noted beside the tables. -/
def answer (c : Choice) (op : DeliveryOp) (s : Endpoint) : Except Thrown op.Answer × Endpoint :=
  let elapsed := s.elapsed + c.elapsed
  let answered := op.answer { c with elapsed } s.tables
  (answered.1, { s with
    tables := answered.2
    elapsed
    received := match op with
      | .request _ _ _ _ => c.reply.map fun r => (r, s.now + elapsed)
      | _ => s.received
    deadlines := match op with
      | .retry _ next _ =>
        if c.outcome = .rolledBack then s.deadlines else s.deadlines ++ [⟨next, s.received⟩]
      | _ => s.deadlines })

/-- The endpoint when a database is opened. The delays of an earlier release are those of
its rows. -/
def opened (stored : Stored) : Endpoint where
  tables := stored.opened
  now := 0
  elapsed := 0
  received := none
  deadlines := match stored with
    | .v1 tables => tables.outbox.rows.map fun row => ⟨row.nextMs, none⟩
    | _ => []

/-- Others change the database. -/
def change {α : Type} (o : Outcome) (statements : Tables → Except Thrown (α × Tables))
    (s : Endpoint) : Endpoint := { s with tables := (transact o statements s.tables).2 }

/-- A step is started. -/
def begin (now : ℤ) (s : Endpoint) : Endpoint := { s with now, elapsed := 0, received := none }

end Endpoint

/-- The endpoint and the current step. -/
abbrev Sending := Running Thrown DeliveryOp.Answer Endpoint SyncResult

/-- What can happen. The calls of other threads come between any two operations of the worker. -/
inductive DeliveryAction
  /-- An event is stored. -/
  | enqueue (r : AttendanceRecord) (o : Outcome)
  /-- An event is stored unless it is stored already. -/
  | ensureEnqueued (r : AttendanceRecord) (o : Outcome)
  /-- Receipts are written down. -/
  | acknowledge (receipts : List DeliveryReceipt) (o : Outcome)
  /-- Events are given up. -/
  | deadLetter (rows : List AttendanceRecord) (reason : String) (o : Outcome)
  /-- A step is started, unless one is going on. -/
  | start (now : ℤ)
  /-- The step makes its next call. -/
  | work (c : Choice)
  /-- The process is ended and opens the database again. -/
  | restart

namespace Sending

/-- Let something happen. A mutation is one transaction with one of its three ends. The worker
goes on only where it stands, and a restart drops its program. -/
def perform (w : Wire D) (device : String) : DeliveryAction → Sending → Sending
  | .enqueue r o, s => s.interfere (Endpoint.change o (OutboxRepository.enqueue r))
  | .ensureEnqueued r o, s => s.interfere (Endpoint.change o (OutboxRepository.ensureEnqueued r))
  | .acknowledge receipts o, s =>
    s.interfere (Endpoint.change o (OutboxRepository.acknowledge receipts))
  | .deadLetter rows reason o, s =>
    s.interfere (Endpoint.change o (OutboxRepository.deadLetter rows reason))
  | .start now, s =>
    match s.nextCall with
    | none => ⟨s.world.begin now, AttendanceSync.step w device now⟩
    | some _ => s
  | .work c, s => s.advance (Endpoint.answer c)
  | .restart, s =>
    ⟨{ s.world with tables := (Stored.v2 s.world.tables).opened }, .done .continue⟩

/-- The state after a run that starts with a stored database. -/
def after (w : Wire D) (device : String) (stored : Stored) (actions : List DeliveryAction) :
    Sending :=
  runFrom (perform w device) ⟨.opened stored, .done .continue⟩ actions

/-- The next call of the worker is a request. -/
def sends (s : Sending) : Bool :=
  match s.nextCall with
  | some (.request _ _ _ _) => true
  | _ => false

end Sending

/-! ## What a delay respects -/

/-- A delay is not shorter than the answer asked for. -/
def Deadline.Respects (d : Deadline) : Prop :=
  ∀ r t, d.cause = some (r, t) → r.retryAfter ≠ "" → isDelaySeconds r.retryAfter = true →
    t + 1000 * digitsValue r.retryAfter.toList ≤ d.next

namespace Endpoint

/-- The delays that were written down are in force. -/
def Delays (s : Endpoint) : Prop :=
  ∀ d ∈ s.deadlines, d.next ≤ s.tables.retryNotBeforeMs ∧ d.Respects

/-- Others leave the delays alone. -/
structure Same (s t : Endpoint) : Prop where
  /-- The row of the endpoint is the same. -/
  delivery : t.tables.retryNotBeforeMs = s.tables.retryNotBeforeMs
  /-- It is the same step. -/
  now : t.now = s.now
  /-- Its clock is the same. -/
  elapsed : t.elapsed = s.elapsed
  /-- So is the answer it received. -/
  received : t.received = s.received
  /-- And the history. -/
  deadlines : t.deadlines = s.deadlines

/-- What must hold in front of a call. -/
def Allowed (s : Endpoint) : DeliveryOp → Prop
  | .request _ _ _ _ => ∀ d ∈ s.deadlines, d.next ≤ s.now
  | .retry _ next _ => (⟨next, s.received⟩ : Deadline).Respects
  | _ => True

/-- A worker that sends nothing too early. -/
def contract : Program.Contract DeliveryOp Endpoint where
  rely := Same
  demand op s := s.Delays → s.Allowed op
  promise _ s t := s.Delays → t.Delays
  rely_refl _ := ⟨rfl, rfl, rfl, rfl, rfl⟩
  rely_trans h h' := ⟨h'.delivery.trans h.delivery, h'.now.trans h.now, h'.elapsed.trans h.elapsed,
    h'.received.trans h.received, h'.deadlines.trans h.deadlines⟩

/-- A call ends in one of the ways the world has. -/
def Effect (op : DeliveryOp) (s : Endpoint) (answer : Except Thrown op.Answer) (t : Endpoint) :
    Prop :=
  ∃ c, Endpoint.answer c op s = (answer, t)

variable {s t : Endpoint}

/-- The delays of a state are those of one with the same endpoints. -/
theorem Same.delays (h : s.Same t) (hs : s.Delays) : t.Delays := by
  intro d hd
  rw [h.deadlines] at hd
  rw [h.delivery]
  exact hs d hd

/-- The statements of the other repository functions do not touch the row of the endpoint. -/
theorem same_change {α : Type} {o : Outcome} {statements : Tables → Except Thrown (α × Tables)}
    (h : ∀ a t', statements s.tables = .ok (a, t') →
      t'.retryNotBeforeMs = s.tables.retryNotBeforeMs) : s.Same (s.change o statements) := by
  refine ⟨?_, rfl, rfl, rfl, rfl⟩
  rcases transact_cases o statements s.tables with heq | ⟨a, t', hrun, heq⟩
  · rw [change, heq]
  · rw [change, heq]
    exact h a t' hrun

/-- Queueing an event does not touch the endpoints. -/
theorem same_enqueue {r : AttendanceRecord} {o : Outcome} :
    s.Same (s.change o (OutboxRepository.enqueue r)) :=
  same_change fun ⟨⟩ _ hrun => (OutboxRepository.insertRow_ok hrun).2.2.2

/-- Queueing an event again does not touch the endpoints. -/
theorem same_ensureEnqueued {r : AttendanceRecord} {o : Outcome} :
    s.Same (s.change o (OutboxRepository.ensureEnqueued r)) := by
  refine same_change fun ⟨⟩ t' hrun => ?_
  rcases OutboxRepository.ensureEnqueued_cases hrun with ⟨rfl, -⟩ | ⟨-, -, hinsert⟩
  · rfl
  · exact (OutboxRepository.insertRow_ok hinsert).2.2.2

/-- Receipts do not touch the endpoints. -/
theorem same_acknowledge {receipts : List DeliveryReceipt} {o : Outcome} :
    s.Same (s.change o (OutboxRepository.acknowledge receipts)) :=
  same_change fun ⟨⟩ _ hrun => (OutboxRepository.acknowledge_removed hrun).delivery

/-- Dead letters do not touch the endpoints. -/
theorem same_deadLetter {rows : List AttendanceRecord} {reason : String} {o : Outcome} :
    s.Same (s.change o (OutboxRepository.deadLetter rows reason)) :=
  same_change fun ⟨⟩ _ hrun => (OutboxRepository.deadLetter_removed hrun).delivery

/-- A retry puts its delay in force. The row of the endpoint is set to the later one of the old
and the new time. -/
theorem Delays.retry {c : Choice} {rows : List AttendanceRecord} {next : ℤ} {reason : String}
    (hs : s.Delays) (hrows : rows ≠ []) (hallowed : s.Allowed (.retry rows next reason)) :
    (Endpoint.answer c (.retry rows next reason) s).2.Delays := by
  obtain ⟨t', hrun⟩ := OutboxRepository.retry_total rows next reason s.tables
  obtain ⟨-, hdelivery⟩ := OutboxRepository.retry_delayed hrows hrun
  have hkept : ∀ d ∈ s.deadlines, d.next ≤ t'.retryNotBeforeMs ∧ d.Respects := by
    intro d hd
    rw [hdelivery]
    exact ⟨(hs d hd).1.trans (le_max_left _ _), (hs d hd).2⟩
  have hadded : ∀ d ∈ s.deadlines ++ [⟨next, s.received⟩],
      d.next ≤ t'.retryNotBeforeMs ∧ d.Respects := by
    intro d hd
    rcases List.mem_append.mp hd with hold | hlast
    · exact hkept d hold
    · rw [List.mem_singleton.mp hlast, hdelivery]
      exact ⟨le_max_right _ _, hallowed⟩
  unfold Delays
  simp only [Endpoint.answer, DeliveryOp.answer, transact, hrun]
  cases c.outcome with
  | reported => exact hadded
  | uncertain => exact hadded
  | rolledBack => exact hs

/-- A call other than a retry leaves the delays alone. Removals and insertions do not touch the
row of the endpoint, and the other calls change no table. -/
theorem Delays.answer {c : Choice} {op : DeliveryOp} (hs : s.Delays) (hallowed : s.Allowed op)
    (hop : ∀ rows next reason, op = .retry rows next reason → rows ≠ []) :
    (Endpoint.answer c op s).2.Delays := by
  cases op with
  | retry rows next reason => exact hs.retry (hop rows next reason rfl) hallowed
  | due now limit =>
    intro d hd
    have htables : (query c.outcome (OutboxRepository.due now limit) s.tables).2 = s.tables :=
      query_tables
    change d.next ≤ (query c.outcome (OutboxRepository.due now limit)
      s.tables).2.retryNotBeforeMs ∧ d.Respects
    rw [htables]
    exact hs d hd
  | acknowledge receipts =>
    have h : (s.change c.outcome (OutboxRepository.acknowledge receipts)).Delays :=
      same_acknowledge.delays hs
    exact h
  | deadLetter rows reason =>
    have h : (s.change c.outcome (OutboxRepository.deadLetter rows reason)).Delays :=
      same_deadLetter.delays hs
    exact h
  | request method path body etag =>
    intro d hd
    have htables : (DeliveryOp.answer { c with elapsed := s.elapsed + c.elapsed }
        (.request method path body etag) s.tables).2 = s.tables := by
      simp only [DeliveryOp.answer]
      split <;> rfl
    change d.next ≤ (DeliveryOp.answer { c with elapsed := s.elapsed + c.elapsed }
      (.request method path body etag) s.tables).2.retryNotBeforeMs ∧ d.Respects
    rw [htables]
    exact hs d hd
  | elapsed => exact hs
  | retryJitter => exact hs

/-! ## A step of the worker -/

/-- The worker sends nothing too early from here on. -/
def Paced {α : Type} (p : Delivering α) (s : Endpoint) : Prop :=
  p.Assured Effect contract (fun _ _ => True) s

section Paced

variable {α β : Type}

/-- A program that is done makes no request. -/
theorem paced_done {a : α} : Paced (.done a) s := fun _ _ => trivial

/-- A program that has thrown makes no request. -/
theorem paced_thrown {e : Thrown} : Paced (.thrown e : Delivering α) s := fun _ _ => trivial

/-- A call is paced when it is allowed, and what follows is paced. While the worker waits, others
may change the rows of events, but not the endpoint. -/
theorem paced_call {op : DeliveryOp} {next : Except Thrown op.Answer → Delivering α}
    (hop : ∀ rows next reason, op = .retry rows next reason → rows ≠ [])
    (hnext : ∀ t, s.Same t → (t.Delays → t.Allowed op) ∧
      ∀ c, Paced (next (Endpoint.answer c op t).1) (Endpoint.answer c op t).2) :
    Paced (.call op next) s := by
  intro t ht
  obtain ⟨hallowed, hgo⟩ := hnext t ht
  refine ⟨hallowed, ?_⟩
  rintro answer u ⟨c, hc⟩
  have hafter : t.Delays → (Endpoint.answer c op t).2.Delays :=
    fun h => h.answer (hallowed h) hop
  have hpaced := hgo c
  rw [hc] at hafter hpaced
  exact ⟨hafter, hpaced⟩

/-- What the step knows of the answer it received. -/
def Heard (s : Endpoint) (now : ℤ) (header : String) : Prop :=
  s.now = now ∧ ∀ r t, s.received = some (r, t) → r.retryAfter = header ∧ t ≤ now + s.elapsed

/-- What an endpoint was told depends on the endpoints only. -/
theorem Heard.same {now : ℤ} {header : String} (h : s.Heard now header) (hsame : s.Same t) :
    t.Heard now header := by
  refine ⟨hsame.now.trans h.1, fun r t' hr => ?_⟩
  rw [hsame.received] at hr
  rw [hsame.elapsed]
  exact h.2 r t' hr

omit [FloatOps D] in
/-- A delay that follows an answer respects it. The new time is that of the answer plus the longer
one of the two delays. -/
theorem paced_postpone {now : ℤ} {rows : List AttendanceRecord} {header reason : String}
    {f : Unit → Delivering α} (hrows : rows ≠ []) (hheard : s.Heard now header)
    (hnext : ∀ t, Paced (f ()) t) :
    Paced (AttendanceSync.postpone w now rows header reason >>= f) s := by
  simp only [AttendanceSync.postpone, bind_assoc]
  refine paced_call nofun fun t hst => ⟨fun _ => trivial, fun c => ?_⟩
  have hpast : ∀ r t', (Endpoint.answer c .elapsed t).2.received = some (r, t') →
      r.retryAfter = header ∧ t' ≤ now + (t.elapsed + c.elapsed : ℕ) := by
    intro r t' hr
    obtain ⟨hheader, hle⟩ := (hheard.same hst).2 r t' hr
    exact ⟨hheader, by omega⟩
  refine paced_call nofun fun u htu => ⟨fun _ => trivial, fun c' => ?_⟩
  refine paced_call (fun _ _ _ h => ?_) fun v huv =>
    ⟨fun _ r t' hr hne hdigits => ?_, fun c'' => ?_⟩
  · cases h
    exact hrows
  · have hreceived : (Endpoint.answer c .elapsed t).2.received = some (r, t') := by
      rw [← htu.received]
      exact huv.received ▸ hr
    obtain ⟨rfl, hle⟩ := hpast r t' hreceived
    have hwait : now + (t.elapsed + c.elapsed : ℕ) + digitsValue r.retryAfter.toList * 1000 ≤
        retryAt w (now + (t.elapsed + c.elapsed : ℕ)) (maxAttempts rows) r.retryAfter c'.jitter :=
      retryAt_seconds hne hdigits
    change t' + 1000 * digitsValue r.retryAfter.toList ≤
      retryAt w (now + (t.elapsed + c.elapsed : ℕ)) (maxAttempts rows) r.retryAfter c'.jitter
    omega
  · cases (Endpoint.answer c'' _ v).1 with
    | error e => exact paced_thrown
    | ok _ => exact hnext _

variable {rows : List AttendanceRecord} {now : ℤ}

/-- Acting on the answer to a batch is paced. Each branch ends the step, confirms receipts, or
postpones under the header of the answer. -/
theorem paced_conclude {reply : HttpResponse} (hrows : rows ≠ [])
    (hheard : s.Heard now reply.retryAfter) :
    Paced (AttendanceSync.conclude w now rows reply) s := by
  have hdone : ∀ t, Paced (.done .continue : Delivering SyncResult) t := fun _ => paced_done
  unfold AttendanceSync.conclude
  split
  · exact paced_done
  dsimp only
  split
  · refine paced_call nofun fun t hst => ⟨fun _ => trivial, fun c => ?_⟩
    cases (Endpoint.answer c _ t).1 with
    | error e => exact paced_thrown
    | ok _ => exact paced_done
  split
  · cases hreceipts : parseReceipts w reply.body rows with
    | error e => exact paced_postpone hrows hheard hdone
    | ok receipts =>
      dsimp only
      unfold AttendanceSync.confirm
      rw [bind_assoc]
      refine paced_call nofun fun t hst => ⟨fun _ => trivial, fun c => ?_⟩
      have hlater : (Endpoint.answer c (.acknowledge receipts) t).2.Heard now reply.retryAfter := by
        refine ⟨hst.now.trans hheard.1, fun r t' hr => ?_⟩
        obtain ⟨hheader, hle⟩ := (hheard.same hst).2 r t' hr
        refine ⟨hheader, ?_⟩
        change t' ≤ now + (t.elapsed + c.elapsed : ℕ)
        omega
      cases (Endpoint.answer c _ t).1 with
      | error e => exact paced_thrown
      | ok _ =>
        simp only [Program.ofExcept_ok, pure_bind]
        split
        · rename_i hrest
          exact paced_postpone hrest hlater hdone
        · exact paced_done
  · exact paced_postpone hrows hheard hdone

/-- Sending a batch is paced when the endpoint may be used. Whatever the transport does, the
worker goes on with the header that it heard. -/
theorem paced_send {f : Option HttpResponse → Delivering α} (hrows : rows ≠ []) (hnow : s.now = now)
    (hreceived : s.received = none) (hdue : s.tables.retryNotBeforeMs ≤ now)
    (hlost : ∀ t, Paced (f none) t)
    (hnext : ∀ r t, t.Heard now r.retryAfter → Paced (f (some r)) t) :
    Paced (AttendanceSync.send w device now rows >>= f) s := by
  have hdelay : ∀ t, t.now = now → t.received = none → Paced
      ((AttendanceSync.postpone w now rows "" "transport_failure" >>= fun _ => pure none) >>= f)
        t := by
    intro t ht hnone
    rw [bind_assoc]
    refine paced_postpone hrows ⟨ht, fun r t' hr => ?_⟩ hlost
    rw [hnone] at hr
    cases hr
  unfold AttendanceSync.send
  cases hbody : batchPayload w device rows with
  | error e => exact hdelay s hnow hreceived
  | ok body =>
    refine paced_call nofun fun t hst => ⟨fun hdelays d hd => ?_, fun c => ?_⟩
    · rw [hst.now, hnow]
      exact (hdelays d hd).1.trans (hst.delivery.symm ▸ hdue)
    · have hafter : (Endpoint.answer c (.request "POST" batchPath body "") t).2.now = now :=
        hst.now.trans hnow
      have hheard : (Endpoint.answer c (.request "POST" batchPath body "") t).2.received =
          c.reply.map fun r => (r, t.now + (t.elapsed + c.elapsed : ℕ)) := rfl
      cases hreply : c.reply with
      | none =>
        have hanswer : (Endpoint.answer c (.request "POST" batchPath body "") t).1 =
            .error (.runtimeError "Request failed") := by
          simp only [Endpoint.answer, DeliveryOp.answer, hreply]
        rw [hreply] at hheard
        rw [hanswer]
        exact hdelay _ hafter hheard
      | some r =>
        have hanswer : (Endpoint.answer c (.request "POST" batchPath body "") t).1 = .ok r := by
          simp only [Endpoint.answer, DeliveryOp.answer, hreply]
        rw [hreply] at hheard
        rw [hanswer]
        refine hnext r _ ⟨hafter, fun r' t' hr => ?_⟩
        rw [hheard] at hr
        cases hr
        refine ⟨rfl, ?_⟩
        change t.now + (t.elapsed + c.elapsed : ℕ) ≤ now + (t.elapsed + c.elapsed : ℕ)
        rw [hst.now, hnow]

/-- A step of the worker is paced. The request is made behind a look at the due rows, which are
none while a delay is in force. -/
theorem paced_step (hnow : s.now = now) (hreceived : s.received = none) :
    Paced (AttendanceSync.step w device now) s := by
  unfold AttendanceSync.step
  refine paced_call nofun fun t hst => ⟨fun _ => trivial, fun c => ?_⟩
  cases hrows : (Endpoint.answer c (.due now OutboxRepository.dueLimit) t).1 with
  | error e => exact paced_thrown
  | ok rows =>
    have hdue : rows = OutboxRepository.due now OutboxRepository.dueLimit t.tables :=
      query_ok hrows
    have htables : (Endpoint.answer c (.due now OutboxRepository.dueLimit) t).2.tables = t.tables :=
      query_tables
    change Paced (if rows = [] then _ else _) _
    split
    · exact paced_done
    · rename_i hne
      have hready : t.tables.retryNotBeforeMs ≤ now := by
        obtain ⟨r, hr⟩ := List.exists_mem_of_ne_nil rows hne
        obtain ⟨row, -, -, -, hready⟩ := OutboxRepository.mem_due (hdue ▸ hr)
        exact hready
      refine paced_send hne (hst.now.trans hnow) (hst.received.trans hreceived)
        (htables.symm ▸ hready) (fun _ => paced_done) fun r u hheard => ?_
      exact paced_conclude hne hheard

end Paced

end Endpoint

/-! ## Every run -/

namespace Sending

/-- The delays are in force, and the step goes on as it should. -/
structure Invariant (s : Sending) : Prop where
  /-- The delays are in force. -/
  delays : s.world.Delays
  /-- The rest of the step sends nothing too early. -/
  paced : Endpoint.Paced s.program s.world

/-- Another thread keeps the invariant, if it does not touch the endpoints. -/
theorem Invariant.interfere {s : Sending} {f : Endpoint → Endpoint} (h : s.Invariant)
    (hsame : s.world.Same (f s.world)) : Invariant (s.interfere f) :=
  ⟨hsame.delays h.delays, h.paced.of_rely hsame⟩

/-- Whatever happens, the delays stay in force. Starting a step, answering its next call and the
calls of other threads are considered in turn. -/
theorem Invariant.perform {s : Sending} {a : DeliveryAction} (h : s.Invariant) :
    (s.perform w device a).Invariant := by
  cases a with
  | enqueue r o => exact h.interfere Endpoint.same_enqueue
  | ensureEnqueued r o => exact h.interfere Endpoint.same_ensureEnqueued
  | acknowledge receipts o => exact h.interfere Endpoint.same_acknowledge
  | deadLetter rows reason o => exact h.interfere Endpoint.same_deadLetter
  | start now =>
    cases hnext : s.nextCall with
    | none =>
      simp only [Sending.perform, hnext]
      exact ⟨h.delays, Endpoint.paced_step rfl rfl⟩
    | some op =>
      simp only [Sending.perform, hnext]
      exact h
  | work c =>
    have hanswer : ∀ op s,
        Endpoint.Effect op s (Endpoint.answer c op s).1 (Endpoint.answer c op s).2 :=
      fun _ _ => ⟨c, rfl⟩
    obtain ⟨hsound, hstep⟩ := Running.Sound.advance hanswer h.paced
    refine ⟨?_, hsound⟩
    change (s.advance (Endpoint.answer c)).world.Delays
    rcases hstep with ⟨-, hsame⟩ | ⟨op, -, -, hpromise⟩
    · rw [hsame]
      exact h.delays
    · exact hpromise h.delays
  | restart => exact ⟨h.delays, Endpoint.paced_done⟩

/-- The delays of an earlier release are in force after the migration. -/
theorem invariant_opened {stored : Stored} : Invariant ⟨.opened stored, .done .continue⟩ := by
  refine ⟨fun d hd => ?_, Endpoint.paced_done⟩
  cases stored with
  | fresh => cases hd
  | v2 tables => cases hd
  | v1 tables =>
    obtain ⟨row, hrow, rfl⟩ := List.mem_map.mp hd
    exact ⟨le_maxNextMs hrow, nofun⟩

/-- The invariant holds after any actions, starting from any tables in storage. -/
theorem invariant_after {stored : Stored} {actions : List DeliveryAction} :
    (after w device stored actions).Invariant :=
  run_preserves (fun _ _ h => h.perform) actions invariant_opened

/-- Backoff is never bypassed: whatever is stored, acknowledged or given up meanwhile, and
over every restart and the migration, a step sends a batch only when the time with which
it was started is not before any delay that was written down, nor before the delay that
the answer behind it asked for in seconds; and computing a delay does not overflow. -/
theorem backoff_respected (hdate : ∀ s sec, w.httpDate s = some sec → sec ≤ maxHttpDate) :
    (∀ (stored : Stored) (actions : List DeliveryAction),
      let s := after w device stored actions
      s.sends = true → ∀ d ∈ s.world.deadlines, d.next ≤ s.world.now ∧
        ∀ r t, d.cause = some (r, t) → r.retryAfter ≠ "" → isDelaySeconds r.retryAfter = true →
          t + 1000 * digitsValue r.retryAfter.toList ≤ s.world.now) ∧
      ∀ now attempts header jitterMs, 0 ≤ now → now ≤ 2 ^ 62 →
        retryAtInt64 w now attempts header jitterMs =
          some (retryAt w now attempts header jitterMs) := by
  refine ⟨?_, fun now attempts header jitterMs hnow hmax =>
    retryAtInt64_eq hnow hmax hdate attempts header jitterMs⟩
  intro stored actions s hsends d hd
  have hs : s.Invariant := invariant_after
  have hdue : d.next ≤ s.world.now := by
    unfold sends at hsends
    cases hcall : s.nextCall with
    | none =>
      rw [hcall] at hsends
      cases hsends
    | some op =>
      have hdemand := Running.Sound.demand hs.paced hcall
      rw [hcall] at hsends
      cases op with
      | request method path body etag => exact hdemand hs.delays d hd
      | due | retry | acknowledge | deadLetter | elapsed | retryJitter => cases hsends
  exact ⟨hdue, fun r t hcause hne hdigits => ((hs.delays d hd).2 r t hcause hne hdigits).trans hdue⟩

/-- Events for small runs. -/
def sampleRecord (id : String) : AttendanceRecord :=
  { id, payload := id ++ "@device", occurredMs := 1 }

/-- A call that takes five milliseconds; the server asks for a delay of a minute. -/
def busy : Choice := ⟨.reported, some ⟨429, "", "", "60"⟩, 5, 0⟩

/-- An event is sent and delayed, another one is stored, the process is restarted, and a
step is started a minute and ten milliseconds later. -/
def sampleActions : List DeliveryAction :=
  [.enqueue (sampleRecord "a") .reported, .start 1000, .work busy, .work busy, .work busy,
    .work busy, .work busy, .enqueue (sampleRecord "b") .reported, .restart, .start 61015,
    .work busy]

/-- The delay is over when the next batch is sent. The state is evaluated, and the theorem is
applied to the moment of the second request. -/
theorem backoff_respected_sample :
    let s := after (D := Extended ℚ) .plain "device" .fresh sampleActions
    s.sends = true ∧ s.world.now = 61015 ∧ s.world.deadlines.length = 1 ∧
      ∀ d ∈ s.world.deadlines, d.next ≤ s.world.now := by
  intro s
  have hsends : s.sends = true := by decide +kernel
  have hdate : ∀ text sec, (Wire.plain : Wire (Extended ℚ)).httpDate text = some sec →
      sec ≤ maxHttpDate := nofun
  exact ⟨hsends, by decide +kernel, by decide +kernel,
    fun d hd => ((backoff_respected hdate).1 _ sampleActions hsends d hd).1⟩

end Sending

end EdgeClient.Sync
