import EdgeClient.App.Delivery
import EdgeClient.Sync.DeliveryRules

/-!
# No event is lost

Three things happen to the tables: a transaction of the owner adds a row, a removal of
the worker takes rows out for a reason that the exchanges with the server give, and a
retry rewrites rows without touching their events. Each keeps every event accounted
for. The worker decides on a removal from rows that it read earlier, so what it has
read must stay true while others use the database: records that were staged stay
staged, and batches that were answered stay answered.
-/

namespace EdgeClient.App

open Basis Vision Storage Sync

variable {F D : Type} [FloatOps F] [FloatOps D] [FloatPair F D] {w : Wire D} {device : String}

/-! ## The history only grows -/

/-- The later history has everything that the earlier one has. -/
structure World.Grows (s t : World) : Prop where
  /-- Records stay staged. -/
  staged : s.staged ⊆ t.staged
  /-- Exchanges stay. -/
  exchanges : s.exchanges ⊆ t.exchanges

namespace World

variable {s t u : World}

/-- What is known stays known where nothing happens. -/
theorem Grows.refl (s : World) : s.Grows s := ⟨fun _ => id, fun _ => id⟩

/-- Knowledge grows over two changes, if it grows over each. -/
theorem Grows.trans (h : s.Grows t) (h' : t.Grows u) : s.Grows u :=
  ⟨fun _ hr => h'.staged (h.staged hr), fun _ hx => h'.exchanges (h.exchanges hx)⟩

variable {rows : List AttendanceRecord} {reply : HttpResponse} {id payload disposition : String}

/-- An answer of the backend stays one while the world grows. -/
theorem Answered.grow (h : s.Answered w device rows reply) (hgrows : s.Grows t) :
    t.Answered w device rows reply := by
  obtain ⟨body, hmem, hbody⟩ := h
  exact ⟨body, hgrows.exchanges hmem, hbody⟩

/-- A receipt stays one while the world grows. -/
theorem Receipted.grow (h : s.Receipted w device id payload disposition) (hgrows : s.Grows t) :
    t.Receipted w device id payload disposition := by
  obtain ⟨rows, reply, receipts, hanswered, hrest⟩ := h
  exact ⟨rows, reply, receipts, hanswered.grow hgrows, hrest⟩

/-- A confirmed event stays confirmed while the world grows. -/
theorem Confirmed.grow (h : s.Confirmed w device id payload) (hgrows : s.Grows t) :
    t.Confirmed w device id payload :=
  h.imp (fun h => Receipted.grow h hgrows) (fun h => Receipted.grow h hgrows)

/-- A refused event stays refused while the world grows. -/
theorem Refused.grow (h : s.Refused w device id payload) (hgrows : s.Grows t) :
    t.Refused w device id payload := by
  rcases h with hreceipt | ⟨rows, reply, hanswered, hrest⟩
  · exact Or.inl (hreceipt.grow hgrows)
  · exact Or.inr ⟨rows, reply, hanswered.grow hgrows, hrest⟩

/-- A record that is known stays known while the world grows. -/
theorem Known.grow {q : AttendanceRecord} (h : s.Known q) (hgrows : s.Grows t) : t.Known q := by
  obtain ⟨r, hr, hq⟩ := h
  exact ⟨r, hgrows.staged hr, hq⟩

/-! ## Changes of the tables -/

/-- What the worker does to the tables: an event stays, becomes a dead letter that the
server refused, or leaves because the server confirmed it. -/
structure Moves (w : Wire D) (device : String) (s : World) (t' : Tables) : Prop where
  /-- Every row was there before. -/
  outbox : ∀ row' ∈ t'.outbox, ∃ row ∈ s.tables.outbox, row'.Holds row.record
  /-- A new dead letter is an event that the server refused. -/
  deadLetter : ∀ d ∈ t'.deadLetter, d ∈ s.tables.deadLetter ∨
    (∃ row ∈ s.tables.outbox, d.eventId = row.eventId ∧ d.payload = row.payload) ∧
      s.Refused w device d.eventId d.payload
  /-- Dead letters stay. -/
  retained : ∀ d ∈ s.tables.deadLetter, d ∈ t'.deadLetter
  /-- Every event goes on. -/
  kept : ∀ row ∈ s.tables.outbox, (∃ row' ∈ t'.outbox, row'.Holds row.record) ∨
    (∃ d ∈ t'.deadLetter, d.eventId = row.eventId ∧ d.payload = row.payload) ∨
      s.Confirmed w device row.eventId row.payload

/-- Where the tables do not change, no row moves. -/
theorem Moves.refl (s : World) : s.Moves w device s.tables where
  outbox row hrow := ⟨row, hrow, holds_record row⟩
  deadLetter _ hd := Or.inl hd
  retained _ hd := hd
  kept row hrow := Or.inl ⟨row, hrow, holds_record row⟩

/-- A change of the tables keeps every event. Where a row went is told by the description of the
move, event by event. -/
theorem Conserved.move {t' : Tables} (h : s.Conserved w device) (hmoves : s.Moves w device t') :
    ({ s with tables := t' } : World).Conserved w device where
  distinct := h.distinct
  outbox row' hrow' := by
    obtain ⟨row, hrow, hid, hpayload, hoccurred⟩ := hmoves.outbox row' hrow'
    obtain ⟨r, hr, hrid, hrpayload, hroccurred⟩ := h.outbox row hrow
    exact ⟨r, hr, hid.trans hrid, hpayload.trans hrpayload, hoccurred.trans hroccurred⟩
  deadLetter d hd := by
    rcases hmoves.deadLetter d hd with hold | ⟨⟨row, hrow, hid, hpayload⟩, hrefused⟩
    · exact h.deadLetter d hold
    · obtain ⟨r, hr, hrid, hrpayload, -⟩ := h.outbox row hrow
      exact Or.inr ⟨⟨r, hr, hid.trans hrid, hpayload.trans hrpayload⟩, hrefused⟩
  kept r hr := by
    rcases h.kept r hr with ⟨row, hrow, hid, hpayload, hoccurred⟩ | ⟨d, hd, hrest⟩ | hconfirmed
    · rcases hmoves.kept row hrow with ⟨row', hrow', hid', hpayload', hoccurred'⟩ |
        ⟨d, hd, hdid, hdpayload⟩ | hconfirmed
      · exact Or.inl ⟨row', hrow', hid'.trans hid, hpayload'.trans hpayload,
          hoccurred'.trans hoccurred⟩
      · exact Or.inr (Or.inl ⟨d, hd, hdid.trans hid, hdpayload.trans hpayload⟩)
      · rw [hid, hpayload] at hconfirmed
        exact Or.inr (Or.inr hconfirmed)
    · exact Or.inr (Or.inl ⟨d, hmoves.retained d hd, hrest⟩)
    · exact Or.inr (Or.inr hconfirmed)
  pending := h.pending
  accounted := h.accounted
  sent := h.sent

/-- Rows with one identifier have one payload. -/
theorem Conserved.same_payload (h : s.Conserved w device) {row : OutboxRow}
    (hrow : row ∈ s.tables.outbox) {q : AttendanceRecord} (hq : s.Known q)
    (hid : row.eventId = q.id) : q.payload = row.payload := by
  obtain ⟨r, hr, hqid, hqpayload⟩ := hq
  obtain ⟨r', hr', hid', hpayload', -⟩ := h.outbox row hrow
  have hsame : r = r' :=
    List.inj_on_of_nodup_map h.distinct hr hr' (hqid.symm.trans (hid.symm.trans hid'))
  rw [hqpayload, hpayload', hsame]

/-- A retry keeps every event. The rows are rewritten one by one, and no identifier or payload is
touched. -/
theorem moves_of_delayed {next : ℤ} {f : OutboxRow → OutboxRow} {t' : Tables}
    (h : Delayed s.tables rows next f t') : s.Moves w device t' where
  outbox row' hrow' := by
    rw [Table.mem_def, h.outbox] at hrow'
    obtain ⟨row, hrow, rfl⟩ := List.mem_map.mp hrow'
    exact ⟨row, hrow, h.holds row⟩
  deadLetter d hd := Or.inl (h.deadLetter ▸ hd)
  retained d hd := h.deadLetter ▸ hd
  kept row hrow := by
    refine Or.inl ⟨f row, ?_, h.holds row⟩
    rw [Table.mem_def, h.outbox]
    exact List.mem_map_of_mem hrow

/-- A series of removals for which the server gave the reasons keeps every event. The hypotheses
are what the worker knows when it writes receipts down: each reason came from the server. -/
theorem moves_of_removed {xs : List Removal} {t' : Tables} (h : AllRemoved s.tables xs t')
    (hrefused : ∀ x ∈ xs, x.reason ≠ none → ∀ row ∈ s.tables.outbox, row.eventId = x.id →
      s.Refused w device row.eventId row.payload)
    (hconfirmed : ∀ x ∈ xs, x.reason = none → ∀ row ∈ s.tables.outbox, row.eventId = x.id →
      s.Confirmed w device row.eventId row.payload) : s.Moves w device t' where
  outbox row' hrow' := by
    rw [h.outbox, Table.mem_keep] at hrow'
    exact ⟨row', hrow'.1, holds_record row'⟩
  deadLetter d hd := by
    rcases h.origin d hd with hold | ⟨x, hx, row, hrow, hid, hreason, hd⟩
    · exact Or.inl hold
    · right
      have hrow' := hrefused x hx (by simp [hreason]) row hrow hid
      rw [hd]
      exact ⟨⟨row, hrow, rfl, rfl⟩, hrow'⟩
  retained := h.kept
  kept row hrow := by
    by_cases hmem : row.eventId ∈ xs.map (·.id)
    · rcases h.moved row hrow hmem with ⟨x, hx, hid, hreason⟩ | ⟨reason, hdead⟩
      · exact Or.inr (Or.inr (hconfirmed x hx hreason row hrow hid.symm))
      · exact Or.inr (Or.inl ⟨_, hdead, rfl, rfl⟩)
    · refine Or.inl ⟨row, ?_, holds_record row⟩
      rw [h.outbox, Table.mem_keep]
      exact ⟨hrow, by simpa using hmem⟩

/-- The rows of a refused batch may be given up. A row with the identifier of the batch has the
payload of the batch, because identifiers are distinct. -/
theorem moves_of_deadLetter {reason : String} {t' : Tables} (hs : s.Conserved w device)
    (hknown : ∀ q ∈ rows, s.Known q) (hanswered : s.Answered w device rows reply)
    (hstatus : reply.status = 400 ∨ reply.status = 422)
    (h : OutboxRepository.deadLetter rows reason s.tables = .ok ((), t')) :
    s.Moves w device t' := by
  refine moves_of_removed (OutboxRepository.deadLetter_removed h) ?_ ?_
  · rintro x hx - row hrow hid
    obtain ⟨q, hq, rfl⟩ := List.mem_map.mp hx
    exact Or.inr ⟨rows, reply, hanswered,
      ⟨q, hq, hid.symm, hs.same_payload hrow (hknown q hq) hid⟩, hstatus⟩
  · intro x hx hreason
    obtain ⟨q, -, rfl⟩ := List.mem_map.mp hx
    cases hreason

/-- The receipts of the server may be written down. Each receipt names a record of the batch, and
the row that is removed has its payload. -/
theorem moves_of_acknowledge {receipts : List DeliveryReceipt} {t' : Tables}
    (hs : s.Conserved w device) (hknown : ∀ q ∈ rows, s.Known q)
    (hanswered : s.Answered w device rows reply) (hlow : 200 ≤ reply.status)
    (hhigh : reply.status < 300) (hreceipts : parseReceipts w reply.body rows = .ok receipts)
    (hsent : ∀ r ∈ receipts, r.eventId ∈ rows.map (·.id))
    (h : OutboxRepository.acknowledge receipts s.tables = .ok ((), t')) :
    s.Moves w device t' := by
  have hreceipted : ∀ r ∈ receipts, ∀ row ∈ s.tables.outbox, row.eventId = r.eventId →
      s.Receipted w device row.eventId row.payload r.disposition := by
    intro r hr row hrow hid
    obtain ⟨q, hq, hqid⟩ := List.mem_map.mp (hsent r hr)
    have hqrow : row.eventId = q.id := hid.trans hqid.symm
    exact ⟨rows, reply, receipts, hanswered,
      ⟨q, hq, hqrow.symm, hs.same_payload hrow (hknown q hq) hqrow⟩, hlow, hhigh, hreceipts,
      hid ▸ hr⟩
  refine moves_of_removed (OutboxRepository.acknowledge_removed h) ?_ ?_
  · intro x hx hreason row hrow hid
    obtain ⟨r, hr, rfl⟩ := List.mem_map.mp hx
    have hrejected : r.disposition = "rejected" := by
      by_contra hne
      exact hreason (if_neg hne)
    exact Or.inl (hrejected ▸ hreceipted r hr row hrow hid)
  · intro x hx hreason row hrow hid
    obtain ⟨r, hr, rfl⟩ := List.mem_map.mp hx
    have hnot : r.disposition ≠ "rejected" := by
      intro heq
      rw [DeliveryReceipt.removal, if_pos heq] at hreason
      cases hreason
    have hreceipt := hreceipted r hr row hrow hid
    rcases OutboxRepository.acknowledge_valid h r hr with hd | hd | hd
    · exact Or.inl (hd ▸ hreceipt)
    · exact Or.inr (hd ▸ hreceipt)
    · exact absurd hd hnot

/-! ## The calls of the worker -/

/-- What the worker has to know in front of a call. -/
def Proper (w : Wire D) (device : String) (s : World) : DeliveryOp → Prop
  | .request _ _ body _ => ∃ rows, batchPayload w device rows = .ok body ∧ ∀ q ∈ rows, s.Known q
  | .deadLetter rows _ => (∀ q ∈ rows, s.Known q) ∧
      ∃ reply, s.Answered w device rows reply ∧ (reply.status = 400 ∨ reply.status = 422)
  | .acknowledge receipts => ∃ rows reply, (∀ q ∈ rows, s.Known q) ∧
      s.Answered w device rows reply ∧ 200 ≤ reply.status ∧ reply.status < 300 ∧
      parseReceipts w reply.body rows = .ok receipts
  | _ => True

/-- Answering an operation of the worker forgets neither a record nor an answer of the backend. -/
theorem grows_answer {c : Choice} {op : DeliveryOp} : s.Grows (World.answer c op s).2 := by
  refine ⟨fun _ => id, fun x hx => ?_⟩
  cases op with
  | request => exact List.mem_append_left _ hx
  | due | retry | acknowledge | deadLetter | elapsed | retryJitter => exact hx

/-- A change of the tables by a transaction of the worker. A transaction that is rolled back
changes nothing, and otherwise its statements decide. -/
theorem Conserved.transact {α : Type} {o : Outcome}
    {statements : Tables → Except Thrown (α × Tables)}
    (h : s.Conserved w device)
    (hmoves : ∀ a t', statements s.tables = .ok (a, t') → s.Moves w device t') :
    ({ s with tables := (transact o statements s.tables).2 } : World).Conserved w device := by
  rcases transact_cases o statements s.tables with
    heq | ⟨a, t', hrun, heq⟩
  · rw [heq]
    exact h
  · rw [heq]
    exact h.move (hmoves a t' hrun)

/-- Every call that the worker may make keeps every event. Reading and sending change no row; the
mutations move rows as their lemmas say. -/
theorem Conserved.answer {c : Choice} {op : DeliveryOp} (h : s.Conserved w device)
    (hproper : s.Proper w device op) : (World.answer c op s).2.Conserved w device := by
  cases op with
  | due now limit =>
    have htables : (query c.outcome (OutboxRepository.due now limit) s.tables).2 = s.tables :=
      query_tables
    change ({ s with tables := _ } : World).Conserved w device
    rw [DeliveryOp.answer, htables]
    exact h
  | retry rows next reason =>
    refine h.transact (fun a t' hrun => ?_)
    by_cases hrows : rows = []
    · rw [OutboxRepository.retry, if_pos hrows] at hrun
      cases hrun
      exact Moves.refl s
    · obtain ⟨⟨f, hf⟩, -⟩ := OutboxRepository.retry_delayed hrows hrun
      exact moves_of_delayed hf
  | acknowledge receipts =>
    obtain ⟨rows, reply, hknown, hanswered, hlow, hhigh, hreceipts⟩ := hproper
    refine h.transact fun a t' hrun => ?_
    exact moves_of_acknowledge h hknown hanswered hlow hhigh hreceipts
      (parseReceipts_receipts hreceipts).sent hrun
  | deadLetter rows reason =>
    obtain ⟨hknown, reply, hanswered, hstatus⟩ := hproper
    exact h.transact fun a t' hrun => moves_of_deadLetter h hknown hanswered hstatus hrun
  | request method path body etag =>
    obtain ⟨rows, hbody, hknown⟩ := hproper
    have hgrows : s.Grows (World.answer c (.request method path body etag) s).2 := grows_answer
    have htables : (World.answer c (.request method path body etag) s).2.tables = s.tables := by
      simp only [World.answer, DeliveryOp.answer]
      split <;> rfl
    refine ⟨h.distinct, ?_, ?_, ?_, h.pending, h.accounted, ?_⟩
    · rw [htables]
      exact h.outbox
    · rw [htables]
      intro d hd
      rcases h.deadLetter d hd with hold | ⟨hstaged, hrefused⟩
      · exact Or.inl hold
      · exact Or.inr ⟨hstaged, hrefused.grow hgrows⟩
    · intro r hr
      have hkept := h.kept r hr
      unfold Kept Waiting GivenUp at hkept ⊢
      rw [htables]
      exact hkept.imp id (Or.imp id fun hconfirmed => hconfirmed.grow hgrows)
    · intro x hx
      rcases List.mem_append.mp hx with hold | hlast
      · exact h.sent x hold
      · rw [List.mem_singleton.mp hlast]
        exact ⟨rows, hbody, hknown⟩
  | elapsed => exact h
  | retryJitter => exact h

/-! ## A step of the worker -/

/-- Others keep every event while the worker works, and so does the worker. -/
def contract (w : Wire D) (device : String) : Program.Contract DeliveryOp World where
  rely s t := s.Grows t ∧ (s.Conserved w device → t.Conserved w device)
  demand _ _ := True
  promise _ s t := s.Grows t ∧ (s.Conserved w device → t.Conserved w device)
  rely_refl s := ⟨Grows.refl s, fun hs => hs⟩
  rely_trans h h' := ⟨h.1.trans h'.1, fun hs => h'.2 (h.2 hs)⟩

/-- A call ends in one of the ways the world has. -/
def Effect (op : DeliveryOp) (s : World) (answer : Except Thrown op.Answer) (t : World) : Prop :=
  ∃ c, World.answer c op s = (answer, t)

/-- The worker keeps every event from here on. -/
def Safe {α : Type} (w : Wire D) (device : String) (p : Delivering α) (s : World) : Prop :=
  p.Assured Effect (contract w device) (fun _ t => t.Conserved w device) s

section Safe

variable {α β : Type}

/-- A program that is done leaves a world in which nothing is lost. -/
theorem safe_done {a : α} (hs : s.Conserved w device) : Safe w device (.done a) s :=
  fun _ ht => ht.2 hs

/-- A program that has thrown leaves a world in which nothing is lost, unless storage was full. -/
theorem safe_thrown {e : Thrown} (hs : s.Conserved w device) :
    Safe w device (.thrown e : Delivering α) s := fun _ ht => ht.2 hs

/-- A call is safe when the worker knows what it has to, and goes on safely. While it waits for
the answer, other threads may do anything that forgets nothing. -/
theorem safe_call {op : DeliveryOp} {next : Except Thrown op.Answer → Delivering α}
    (hs : s.Conserved w device)
    (hnext : ∀ t, s.Grows t → t.Conserved w device → t.Proper w device op ∧
      ∀ c, (World.answer c op t).2.Conserved w device →
        Safe w device (next (World.answer c op t).1) (World.answer c op t).2) :
    Safe w device (.call op next) s := by
  intro t ht
  obtain ⟨hproper, hgo⟩ := hnext t ht.1 (ht.2 hs)
  refine ⟨trivial, ?_⟩
  rintro answer u ⟨c, hc⟩
  have hgrows : t.Grows (World.answer c op t).2 := grows_answer
  have hafter := (ht.2 hs).answer (c := c) hproper
  have hsafe := hgo c hafter
  rw [hc] at hgrows hafter hsafe
  exact ⟨⟨hgrows, fun _ => hafter⟩, hsafe⟩

/-- A call of which nothing needs to be known. -/
theorem safe_free_call {op : DeliveryOp} {f : op.Answer → Delivering α} (hs : s.Conserved w device)
    (hfree : ∀ t : World, t.Proper w device op)
    (hnext : ∀ v t, s.Grows t → t.Conserved w device → Safe w device (f v) t) :
    Safe w device (op.call >>= f) s := by
  refine safe_call hs fun t hst ht => ⟨hfree t, fun c hafter => ?_⟩
  cases (World.answer c op t).1 with
  | error e => exact safe_thrown hafter
  | ok v => exact hnext v _ (hst.trans grows_answer) hafter

/-- A delay is safe. The clock, the jitter and the retry are calls of their own, and the state may
grow between them. -/
theorem safe_postpone {now : ℤ} {retryAfter reason : String} {f : Unit → Delivering α}
    (hs : s.Conserved w device)
    (hnext : ∀ t, s.Grows t → t.Conserved w device → Safe w device (f ()) t) :
    Safe w device (AttendanceSync.postpone w now rows retryAfter reason >>= f) s := by
  simp only [AttendanceSync.postpone, bind_assoc]
  refine safe_free_call hs (fun _ => trivial) fun elapsed t hst ht => ?_
  refine safe_free_call ht (fun _ => trivial) fun jitter u htu hu => ?_
  refine safe_free_call hu (fun _ => trivial) fun _ v huv hv => ?_
  exact hnext v (hst.trans (htu.trans huv)) hv

variable {rows : List AttendanceRecord} {now : ℤ}

/-- Sending a batch of staged events is safe. The worker continues with a reply only if the
backend has answered the batch, and otherwise with none. -/
theorem safe_send {f : Option HttpResponse → Delivering α} (hs : s.Conserved w device)
    (hknown : ∀ q ∈ rows, s.Known q)
    (hlost : ∀ t, s.Grows t → t.Conserved w device → Safe w device (f none) t)
    (hnext : ∀ r t, s.Grows t → t.Conserved w device → t.Answered w device rows r →
      Safe w device (f (some r)) t) :
    Safe w device (AttendanceSync.send w device now rows >>= f) s := by
  have hdelay : ∀ t, s.Grows t → t.Conserved w device → Safe w device
      ((AttendanceSync.postpone w now rows "" "transport_failure" >>= fun _ => pure none) >>= f)
        t := by
    intro t hst ht
    rw [bind_assoc]
    exact safe_postpone ht fun u htu hu => hlost u (hst.trans htu) hu
  unfold AttendanceSync.send
  cases hbody : batchPayload w device rows with
  | error e => exact hdelay s (Grows.refl s) hs
  | ok body =>
    refine safe_call hs fun t hst ht =>
      ⟨⟨rows, hbody, fun q hq => (hknown q hq).grow hst⟩, fun c hafter => ?_⟩
    have hgrows : s.Grows (World.answer c (.request "POST" batchPath body "") t).2 :=
      hst.trans grows_answer
    cases hreply : c.reply with
    | none =>
      have hanswer : (World.answer c (.request "POST" batchPath body "") t).1 =
          .error (.runtimeError "Request failed") := by
        simp only [World.answer, DeliveryOp.answer, hreply]
      rw [hanswer]
      exact hdelay _ hgrows hafter
    | some r =>
      have hanswer : (World.answer c (.request "POST" batchPath body "") t).1 = .ok r := by
        simp only [World.answer, DeliveryOp.answer, hreply]
      rw [hanswer]
      refine hnext r _ hgrows hafter ⟨body, ?_, hbody⟩
      rw [← hreply]
      exact List.mem_append_right _ (List.mem_singleton_self _)

/-- Acting on the answer to a batch is safe. Only receipts that name a record of the batch lead to
a removal, and everything else delays. -/
theorem safe_conclude {reply : HttpResponse} (hs : s.Conserved w device)
    (hknown : ∀ q ∈ rows, s.Known q) (hanswered : s.Answered w device rows reply) :
    Safe w device (AttendanceSync.conclude w now rows reply) s := by
  have hdone : ∀ t, s.Grows t → t.Conserved w device →
      Safe w device (.done .continue : Delivering SyncResult) t := fun _ _ ht => safe_done ht
  unfold AttendanceSync.conclude
  split
  · exact safe_done hs
  dsimp only
  split
  · rename_i hstatus
    refine safe_call hs fun t hst ht => ⟨⟨fun q hq => (hknown q hq).grow hst, reply,
      hanswered.grow hst, hstatus⟩, fun c hafter => ?_⟩
    cases (World.answer c _ t).1 with
    | error e => exact safe_thrown hafter
    | ok _ => exact safe_done hafter
  split
  · rename_i hrange
    cases hreceipts : parseReceipts w reply.body rows with
    | error e => exact safe_postpone hs hdone
    | ok receipts =>
      dsimp only
      unfold AttendanceSync.confirm
      rw [bind_assoc]
      refine safe_call hs fun t hst ht => ⟨⟨rows, reply, fun q hq => (hknown q hq).grow hst,
        hanswered.grow hst, hrange.1, hrange.2, hreceipts⟩, fun c hafter => ?_⟩
      cases (World.answer c _ t).1 with
      | error e => exact safe_thrown hafter
      | ok _ =>
        simp only [Program.ofExcept_ok, pure_bind]
        split
        · exact safe_postpone hafter fun _ _ hu => safe_done hu
        · exact safe_done hafter
  · exact safe_postpone hs hdone

/-- A step of the worker is safe. The rows that are read are those of the outbox at this time,
which belong to known records. -/
theorem safe_step (hs : s.Conserved w device) :
    Safe w device (AttendanceSync.step w device now) s := by
  unfold AttendanceSync.step
  refine safe_call hs fun t hst ht => ⟨trivial, fun c hafter => ?_⟩
  cases hrows : (World.answer c (.due now OutboxRepository.dueLimit) t).1 with
  | error e => exact safe_thrown hafter
  | ok rows =>
    have hdue : rows = OutboxRepository.due now OutboxRepository.dueLimit t.tables :=
      query_ok hrows
    have hknown :
        ∀ q ∈ rows, (World.answer c (.due now OutboxRepository.dueLimit) t).2.Known q := by
      intro q hq
      obtain ⟨row, hrow, rfl, -, -⟩ := OutboxRepository.mem_due (hdue ▸ hq)
      obtain ⟨r, hr, hid, hpayload, -⟩ := ht.outbox row hrow
      exact ⟨r, hr, hid, hpayload⟩
    change Safe w device (if rows = [] then _ else _) _
    split
    · exact safe_done hafter
    · refine safe_send hafter hknown (fun u _ hu => safe_done hu) fun r u htu hu hanswered => ?_
      exact safe_conclude hu (fun q hq => (hknown q hq).grow htu) hanswered

end Safe

/-! ## The owner and the crash -/

/-- A record whose transaction is applied is kept. It is in the outbox from now on, or it was
known there before. -/
theorem Conserved.enqueue {r : AttendanceRecord} {t' : Tables} (h : s.Conserved w device)
    (hr : r ∈ s.staged) (hrun : OutboxRepository.ensureEnqueued r s.tables = .ok ((), t')) :
    ({ s with tables := t', committed := s.committed ++ [r] } : World).Conserved w device := by
  have haccounted : ∀ q ∈ s.staged,
      q ∈ s.coordinator.pending ∨ q ∈ s.committed ++ [r] ∨ q ∈ s.forgotten := by
    intro q hq
    rcases h.accounted q hq with hpending | hcommitted | hforgotten
    · exact Or.inl hpending
    · exact Or.inr (Or.inl (List.mem_append_left _ hcommitted))
    · exact Or.inr (Or.inr hforgotten)
  rcases OutboxRepository.ensureEnqueued_cases hrun with ⟨rfl, hstored⟩ | ⟨-, -, hinsert⟩
  · refine ⟨h.distinct, h.outbox, h.deadLetter, fun q hq => ?_, h.pending, haccounted, h.sent⟩
    rcases List.mem_append.mp hq with hold | hlast
    · exact h.kept q hold
    · rw [List.mem_singleton.mp hlast]
      exact hstored.imp id Or.inl
  · obtain ⟨-, hrows, hdead, -⟩ := OutboxRepository.insertRow_ok hinsert
    have hsub : ∀ row ∈ s.tables.outbox, row ∈ t'.outbox := by
      intro row hrow
      rw [Table.mem_def, hrows]
      exact List.mem_append_left _ hrow
    refine ⟨h.distinct, fun row hrow => ?_, fun d hd => ?_, fun q hq => ?_, h.pending, haccounted,
      h.sent⟩
    · rw [Table.mem_def, hrows] at hrow
      rcases List.mem_append.mp hrow with hold | hlast
      · exact h.outbox row hold
      · exact ⟨r, hr, List.mem_singleton.mp hlast ▸ row_holds r⟩
    · exact h.deadLetter d (hdead ▸ hd)
    · rcases List.mem_append.mp hq with hold | hlast
      · rcases h.kept q hold with ⟨row, hrow, hholds⟩ | ⟨d, hd, hrest⟩ | hconfirmed
        · exact Or.inl ⟨row, hsub row hrow, hholds⟩
        · exact Or.inr (Or.inl ⟨d, hdead ▸ hd, hrest⟩)
        · exact Or.inr (Or.inr hconfirmed)
      · rw [List.mem_singleton.mp hlast]
        refine Or.inl ⟨r.row, ?_, row_holds r⟩
        rw [Table.mem_def, hrows]
        exact List.mem_append_right _ (List.mem_singleton_self _)

/-- Committing a record keeps every event. The three ends of the transaction are considered:
applied and reported, applied only, not applied. -/
theorem Conserved.commitNext {o : Outcome} (h : s.Conserved w device) :
    (s.commitNext o).Conserved w device := by
  unfold World.commitNext AttendanceCoordinator.commitNext
  cases hpending : s.coordinator.pending with
  | nil =>
    simp only [List.head?_nil, Option.toList_none, List.filter_nil, List.append_nil]
    exact h
  | cons r rest =>
    have hr : r ∈ s.staged := h.pending r (hpending ▸ List.mem_cons_self)
    simp only [List.head?_cons, Option.toList_some]
    unfold applied Storage.transact
    cases hrun : OutboxRepository.ensureEnqueued r s.tables with
    | error e =>
      simp only [List.filter_cons, List.filter_nil, hrun, Except.toBool, Bool.false_eq_true,
        and_false, decide_false, if_false, List.append_nil]
      exact h
    | ok result =>
      obtain ⟨⟨⟩, t'⟩ := result
      have henqueued := h.enqueue hr hrun
      cases o with
      | rolledBack =>
        simp only [List.filter_cons, List.filter_nil, ne_eq, not_true_eq_false, false_and,
          decide_false, Bool.false_eq_true, if_false, List.append_nil]
        exact h
      | uncertain =>
        simp only [List.filter_cons, List.filter_nil, hrun, Except.toBool, ne_eq, reduceCtorEq,
          not_false_eq_true, and_self, decide_true, if_true]
        exact henqueued
      | reported =>
        simp only [List.filter_cons, List.filter_nil, hrun, Except.toBool, ne_eq, reduceCtorEq,
          not_false_eq_true, and_self, decide_true, if_true]
        refine ⟨henqueued.distinct, henqueued.outbox, henqueued.deadLetter, henqueued.kept,
          fun q hq => ?_, fun q hq => ?_, henqueued.sent⟩
        · exact h.pending q (hpending ▸ List.mem_cons_of_mem _ hq)
        · rcases henqueued.accounted q hq with hq | hq
          · rw [hpending] at hq
            rcases List.mem_cons.mp hq with rfl | hq
            · exact Or.inr (Or.inl (List.mem_append_right _ (List.mem_singleton_self _)))
            · exact Or.inl hq
          · exact Or.inr hq

/-- Writing the next pending record forgets nothing, whatever the end of the transaction. -/
theorem grows_commitNext {o : Outcome} : s.Grows (s.commitNext o) := ⟨fun _ => id, fun _ => id⟩

omit [FloatOps F] [FloatPair F D] in
/-- Installing a gallery changes neither the records nor the database. -/
theorem Conserved.install {snapshot : GallerySnapshot F} (h : s.Conserved w device) :
    (s.install snapshot).Conserved w device := by
  unfold World.install
  split
  · exact ⟨h.distinct, h.outbox, h.deadLetter, h.kept, h.pending, h.accounted, h.sent⟩
  · exact h

omit [FloatOps F] in
/-- Installing a gallery touches neither the records nor the answers of the backend. -/
theorem grows_install {snapshot : GallerySnapshot F} : s.Grows (s.install snapshot) := by
  unfold World.install
  split
  · exact ⟨fun _ => id, fun _ => id⟩
  · exact Grows.refl s

/-- What a `stage` that returns has done: the coordinator was idle, stays that of the same
device, and takes one record for each event. -/
theorem stage_ok {events : List (AttendanceEvent F × Option (Fin 16 → UInt8))}
    {c c' : AttendanceCoordinator} (h : c.stage w events = .ok c') :
    c.pending = [] ∧ c'.device = c.device ∧
      List.Forall₂ (fun x r => envelope w x.2 (AttendanceCoordinator.observation x.1) c.device
        c.version = .ok r) events c'.pending := by
  unfold AttendanceCoordinator.stage at h
  split at h
  · cases h
  · rename_i hpending
    obtain ⟨next, hnext, h⟩ := bind_eq_ok.mp h
    cases h
    exact ⟨not_not.mp hpending, rfl, mapM_eq_ok.mp hnext⟩

/-- Staging forgets neither records nor answers. -/
theorem grows_stage {events : List (AttendanceEvent F × Option (Fin 16 → UInt8))} :
    s.Grows (s.stage w events) := by
  unfold World.stage
  split
  · exact ⟨fun _ hr => List.mem_append_left _ hr, fun _ => id⟩
  · exact Grows.refl s

/-- Staging records with new identifiers keeps every event. The staged records are pending, and
nothing else changes. -/
theorem Conserved.stage {events : List (AttendanceEvent F × Option (Fin 16 → UInt8))}
    (h : s.Conserved w device)
    (hfresh : ∀ c', s.coordinator.stage w events = .ok c' → (c'.pending.map (·.id)).Nodup ∧
      ∀ r ∈ c'.pending, r.id ∉ s.staged.map (·.id)) : (s.stage w events).Conserved w device := by
  have hgrows : s.Grows (s.stage w events) := grows_stage
  unfold World.stage at hgrows ⊢
  cases hstage : s.coordinator.stage w events with
  | error e => exact h
  | ok c' =>
    rw [hstage] at hgrows
    obtain ⟨hnodup, hnew⟩ := hfresh c' hstage
    refine ⟨?_, fun row hrow => ?_, fun d hd => ?_, fun r hr => ?_, fun r hr => ?_, fun r hr => ?_,
      fun x hx => ?_⟩
    · rw [List.map_append, List.nodup_append]
      refine ⟨h.distinct, hnodup, ?_⟩
      rintro id hid id' hid' rfl
      obtain ⟨r, hr, rfl⟩ := List.mem_map.mp hid'
      exact hnew r hr hid
    · obtain ⟨r, hr, hholds⟩ := h.outbox row hrow
      exact ⟨r, List.mem_append_left _ hr, hholds⟩
    · rcases h.deadLetter d hd with hold | ⟨⟨r, hr, hrest⟩, hrefused⟩
      · exact Or.inl hold
      · exact Or.inr ⟨⟨r, List.mem_append_left _ hr, hrest⟩, hrefused.grow hgrows⟩
    · exact (h.kept r hr).imp id (Or.imp id fun hconfirmed => hconfirmed.grow hgrows)
    · exact List.mem_append_right _ hr
    · rcases List.mem_append.mp hr with hold | hlast
      · rcases h.accounted r hold with hpending | hrest
        · rw [(stage_ok hstage).1] at hpending
          cases hpending
        · exact Or.inr hrest
      · exact Or.inl hlast
    · obtain ⟨rows, hbody, hknown⟩ := h.sent x hx
      exact ⟨rows, hbody, fun q hq => (hknown q hq).grow hgrows⟩

/-- A crash loses only what was not committed. Records that were staged and not committed are
counted as forgotten from then on. -/
theorem Conserved.crash (h : s.Conserved w device) : s.crash.Conserved w device := by
  refine ⟨h.distinct, h.outbox, h.deadLetter, h.kept, fun r hr => ?_, fun r hr => ?_, h.sent⟩
  · cases hr
  · rcases h.accounted r hr with hpending | hcommitted | hforgotten
    · by_cases hcommitted : r ∈ s.committed
      · exact Or.inr (Or.inl hcommitted)
      · refine Or.inr (Or.inr (List.mem_append_right _ ?_))
        exact List.mem_filter.mpr ⟨hpending, by simpa using hcommitted⟩
    · exact Or.inr (Or.inl hcommitted)
    · exact Or.inr (Or.inr (List.mem_append_left _ hforgotten))

/-- A database that is opened. All its rows are taken as committed, and nothing has been sent
yet. -/
theorem conserved_opened {tables : Tables} {modelHash : String} :
    (World.opened tables device modelHash).Conserved w device := by
  refine ⟨?_, fun row hrow => ?_, fun d hd => Or.inl hd, fun r hr => ?_, fun r hr => ?_,
    fun r hr => Or.inr (Or.inl hr), fun x hx => ?_⟩
  · rw [World.opened, List.map_map]
    exact tables.outbox.nodup
  · exact ⟨row.record, List.mem_map_of_mem hrow, holds_record row⟩
  · obtain ⟨row, hrow, rfl⟩ := List.mem_map.mp hr
    exact Or.inl ⟨row, hrow, holds_record row⟩
  · cases hr
  · cases hx

end World

/-! ## Every interleaving -/

namespace System

/-- Every event is kept, and the worker goes on keeping it. -/
structure Invariant (w : Wire D) (device : String) (s : System) : Prop where
  /-- Every event is kept. -/
  conserved : s.world.Conserved w device
  /-- The rest of the step keeps every event. -/
  safe : World.Safe w device s.program s.world

/-- Whatever happens, every event is kept. Each action has its own lemma; what they leave alone is
kept by the growth of the world. -/
theorem Invariant.perform {s : System} {a : Action F} (h : s.Invariant w device)
    (hfresh : a.Fresh w s) : (s.perform w device a).Invariant w device := by
  cases a with
  | install snapshot =>
    have hafter : (s.world.install snapshot).Conserved w device := h.conserved.install
    exact ⟨hafter, h.safe.of_rely ⟨World.grows_install, fun _ => hafter⟩⟩
  | stage events =>
    have hafter : (s.world.stage w events).Conserved w device := by
      refine h.conserved.stage fun c' hc' => ?_
      have hnew : (Action.stage events).newRecords w s = c'.pending := by
        rw [Action.newRecords, hc']
      exact hnew ▸ hfresh
    exact ⟨hafter, h.safe.of_rely ⟨World.grows_stage, fun _ => hafter⟩⟩
  | commitNext o =>
    have hafter := h.conserved.commitNext (o := o)
    exact ⟨hafter, h.safe.of_rely ⟨World.grows_commitNext, fun _ => hafter⟩⟩
  | start now =>
    cases hnext : s.nextCall with
    | none =>
      simp only [System.perform, hnext]
      exact ⟨h.conserved, World.safe_step h.conserved⟩
    | some op =>
      simp only [System.perform, hnext]
      exact h
  | work c =>
    have hanswer : ∀ op s, World.Effect op s (World.answer c op s).1 (World.answer c op s).2 :=
      fun _ _ => ⟨c, rfl⟩
    obtain ⟨hsound, hstep⟩ := Running.Sound.advance hanswer h.safe
    refine ⟨?_, hsound⟩
    change (s.advance (World.answer c)).world.Conserved w device
    rcases hstep with ⟨-, hsame⟩ | ⟨op, -, -, hpromise⟩
    · rw [hsame]
      exact h.conserved
    · exact hpromise.2 h.conserved
  | crash => exact ⟨h.conserved.crash, World.safe_done h.conserved.crash⟩

/-- A system that was just opened over any tables has lost nothing yet. -/
theorem invariant_opened {tables : Tables} {modelHash : String} :
    (System.opened tables device modelHash).Invariant w device :=
  ⟨World.conserved_opened, World.safe_done World.conserved_opened⟩

/-- No interleaving of the actions breaks the invariant, as long as the identifiers are fresh. The
induction is on the actions, with one lemma for each of them. -/
theorem invariant_run {s : System} {actions : List (Action F)} (hs : s.Invariant w device)
    (hfresh : Throughout (perform w device) (Action.Fresh w) s actions) :
    (runFrom (perform w device) s actions).Invariant w device := by
  induction actions generalizing s with
  | nil => exact hs
  | cons a actions ih => exact ih (hs.perform hfresh.1) hfresh.2

/-- The worker leaves the coordinator and the history of the owner alone. A call of the worker
reads and writes the tables only. -/
theorem advance_owner (c : Choice) (s : System) :
    (s.advance (World.answer c)).world.coordinator = s.world.coordinator ∧
      (s.advance (World.answer c)).world.staged = s.world.staged ∧
      (s.advance (World.answer c)).world.forgotten = s.world.forgotten := by
  obtain ⟨world, program⟩ := s
  cases program with
  | done a => exact ⟨rfl, rfl, rfl⟩
  | thrown e => exact ⟨rfl, rfl, rfl⟩
  | call op next => exact ⟨rfl, rfl, rfl⟩

/-- Only a crash forgets a record. Reopening the database after a crash is the one action that
clears the queue of the coordinator. -/
theorem forgotten_perform {s : System} {a : Action F} (hgoes : a.goesOn = true) :
    (s.perform w device a).world.forgotten = s.world.forgotten := by
  cases a with
  | install snapshot =>
    change (s.world.install snapshot).forgotten = s.world.forgotten
    unfold World.install
    split <;> rfl
  | stage events =>
    change (s.world.stage w events).forgotten = s.world.forgotten
    unfold World.stage
    split <;> rfl
  | commitNext o => rfl
  | start now =>
    cases hnext : s.nextCall with
    | none => simp only [perform, hnext]
    | some op => simp only [perform, hnext]
  | work c => exact (advance_owner c s).2.2
  | crash => cases hgoes

/-- The journal of records that a crash discarded does not change in a run without one. -/
theorem forgotten_run {s : System} {actions : List (Action F)}
    (hgo : ∀ a ∈ actions, a.goesOn = true) :
    (runFrom (perform w device) s actions).world.forgotten = s.world.forgotten := by
  induction actions generalizing s with
  | nil => rfl
  | cons a actions ih =>
    rw [runFrom_cons, ih fun b hb => hgo b (List.mem_cons_of_mem _ hb),
      forgotten_perform (hgo a List.mem_cons_self)]

/-- The device of the coordinator never changes, and only `stage` adds records. So the journal of
the staged records can be compared with the events that were passed. -/
theorem staged_perform {s : System} (a : Action F) :
    (s.perform w device a).world.coordinator.device = s.world.coordinator.device ∧
      (s.perform w device a).world.staged = s.world.staged ++ a.newRecords w s := by
  cases a with
  | install snapshot =>
    refine ⟨?_, (List.append_nil _).symm ▸ ?_⟩
    · change (s.world.install snapshot).coordinator.device = s.world.coordinator.device
      unfold World.install
      split <;> rfl
    · change (s.world.install snapshot).staged = s.world.staged
      unfold World.install
      split <;> rfl
  | stage events =>
    change (s.world.stage w events).coordinator.device = s.world.coordinator.device ∧
      (s.world.stage w events).staged = s.world.staged ++ Action.newRecords w (.stage events) s
    unfold World.stage Action.newRecords
    cases hstage : s.world.coordinator.stage w events with
    | error e =>
      dsimp only
      rw [hstage]
      exact ⟨rfl, (List.append_nil _).symm⟩
    | ok next =>
      dsimp only
      rw [hstage]
      exact ⟨(World.stage_ok hstage).2.1, rfl⟩
  | commitNext o =>
    refine ⟨?_, (List.append_nil _).symm⟩
    change (s.world.coordinator.commitNext o s.world.tables).2.1.device = s.world.coordinator.device
    unfold AttendanceCoordinator.commitNext
    split
    · rfl
    · split <;> rfl
  | start now =>
    cases hnext : s.nextCall with
    | none => simp only [perform, hnext, Action.newRecords, List.append_nil, and_self]
    | some op => simp only [perform, hnext, Action.newRecords, List.append_nil, and_self]
  | work c =>
    obtain ⟨hcoordinator, hstaged, -⟩ := advance_owner c s
    exact ⟨congrArg (·.device) hcoordinator, hstaged.trans (List.append_nil _).symm⟩
  | crash => exact ⟨rfl, (List.append_nil _).symm⟩

/-- A `stage` that returns makes one record of each event that is passed to it. The other actions
pass no event and make no record. -/
theorem makes_newRecords {s : System} (hdevice : s.world.coordinator.device = device)
    (a : Action F) : List.Forall₂ (Passed.Makes w device) (a.passed w s) (a.newRecords w s) := by
  cases a with
  | stage events =>
    unfold Action.passed Action.newRecords
    dsimp only
    cases hstage : s.world.coordinator.stage w events with
    | error e => exact .nil
    | ok next =>
      have hrecords := (World.stage_ok hstage).2.2
      rw [hdevice] at hrecords
      exact List.forall₂_map_left_iff.mpr hrecords
  | _ => exact .nil

/-- The staged records are those of the start and one for each event that was passed to
`stage`, in order. -/
def Recorded (w : Wire D) (device : String) (tables : Tables) (events : List (Passed F))
    (s : System) : Prop :=
  s.world.coordinator.device = device ∧ ∃ records,
    s.world.staged = tables.outbox.rows.map (·.record) ++ records ∧
      List.Forall₂ (Passed.Makes w device) events records

/-- In every run each event that was passed to `stage` has its record. The records are in the
order of the events, each made from its event by `envelope`. -/
theorem passed_recorded {modelHash : String} {tables : Tables} (actions : List (Action F)) :
    ∃ records, (after w device modelHash tables actions).world.staged =
        tables.outbox.rows.map (·.record) ++ records ∧
      List.Forall₂ (Passed.Makes w device) (passed w device modelHash tables actions) records := by
  have hstep : ∀ (written : List (Passed F)) (s : System) (a : Action F), True →
      Recorded w device tables written s →
        Recorded w device tables (written ++ a.passed w s) (s.perform w device a) := by
    intro written s a _ hs
    obtain ⟨hdevice, records, hstaged, hrecords⟩ := hs
    obtain ⟨hsame, hnew⟩ := staged_perform (w := w) (s := s) a
    refine ⟨hsame.trans hdevice, records ++ a.newRecords w s, ?_, ?_⟩
    · rw [hnew, hstaged, List.append_assoc]
    · exact List.rel_append hrecords (makes_newRecords hdevice a)
  have hopened : Recorded (F := F) w device tables [] (opened tables device modelHash) :=
    ⟨rfl, [], (List.append_nil _).symm, .nil⟩
  exact (run_invariant (Recorded w device tables) hstep hopened
    (throughout_of_forall (fun _ _ => trivial) _)).2

/-- No event is lost, duplicated or altered on its way to the server: every event that was
passed to `stage` has its staged record, and at every moment of every interleaving a staged
record is pending, waits in the outbox with its payload and time, is a dead letter with its
payload, or was confirmed by a receipt, unless a crash came before its first commit; a committed
record is kept across crashes; no identifier has two rows; what is sent under an identifier is
what was staged; and a dead letter was refused by the server. -/
theorem no_event_lost {modelHash : String} {tables : Tables} {actions : List (Action F)}
    (hfresh : AllFresh w device modelHash tables actions) :
    let s := (after w device modelHash tables actions).world
    (∀ r ∈ s.staged, r ∈ s.coordinator.pending ∨ s.Waiting r ∨ s.GivenUp r ∨
        s.Confirmed w device r.id r.payload ∨ r ∈ s.forgotten) ∧
      ((∀ a ∈ actions, a.goesOn = true) → s.forgotten = []) ∧
      (∀ r ∈ s.committed, s.Waiting r ∨ s.GivenUp r ∨ s.Confirmed w device r.id r.payload) ∧
      (s.tables.outbox.rows.map (·.eventId)).Nodup ∧
      (∀ x ∈ s.exchanges, ∃ rows, batchPayload w device rows = .ok x.body ∧
        ∀ q ∈ rows, s.Known q ∧ ∀ r ∈ s.staged, r.id = q.id → q.payload = r.payload) ∧
      (∀ d ∈ s.tables.deadLetter, d ∈ s.retained ∨ s.Refused w device d.eventId d.payload) ∧
      ∃ records, s.staged = tables.outbox.rows.map (·.record) ++ records ∧
        List.Forall₂ (Passed.Makes w device) (passed w device modelHash tables actions)
          records := by
  have hinvariant : (after w device modelHash tables actions).Invariant w device :=
    invariant_run invariant_opened hfresh
  intro s
  have h : s.Conserved w device := hinvariant.conserved
  refine ⟨fun r hr => ?_, fun hgo => forgotten_run hgo, h.kept, s.tables.outbox.nodup,
    fun x hx => ?_,
    fun d hd => ?_, passed_recorded actions⟩
  · rcases h.accounted r hr with hpending | hcommitted | hforgotten
    · exact Or.inl hpending
    · rcases h.kept r hcommitted with hwaiting | hgivenUp | hconfirmed
      · exact Or.inr (Or.inl hwaiting)
      · exact Or.inr (Or.inr (Or.inl hgivenUp))
      · exact Or.inr (Or.inr (Or.inr (Or.inl hconfirmed)))
    · exact Or.inr (Or.inr (Or.inr (Or.inr hforgotten)))
  · obtain ⟨rows, hbody, hknown⟩ := h.sent x hx
    refine ⟨rows, hbody, fun q hq => ⟨hknown q hq, fun r hr hid => ?_⟩⟩
    obtain ⟨r', hr', hqid, hqpayload⟩ := hknown q hq
    have hsame : r = r' := List.inj_on_of_nodup_map h.distinct hr hr' (hid.trans hqid)
    rw [hqpayload, hsame]
  · exact (h.deadLetter d hd).imp (fun hold => hold) fun hnew => hnew.2

/-! ## A run in small -/

/-- The wire of small runs. -/
abbrev sampleWire : Wire (Extended ℚ) := .plain

/-- A gallery for small runs. -/
def sampleGallery : GallerySnapshot (Extended ℚ) where
  version := "v1"
  etag := "e1"
  modelId := "model"
  modelSha256 := "hash"
  templateIds := []
  templates := []

/-- An event for small runs. Its similarity, its margin and its median are one. -/
def sampleEvent : AttendanceEvent (Extended ℚ) where
  occurredAtUtcMs := 1000
  cameraFrameId := 1
  trackId := 1
  identityId := "visitor"
  similarity := lit 1
  similarityMargin := lit 1
  padMedianPReal := lit 1
  padMedianMarginPReal := lit 0

/-- The identifier of its record when all random bytes are zero. -/
def sampleId : String := "00000000-03e8-7000-8000-000000000000"

/-- A call without trouble; the server accepts the event. -/
def smoothly : Choice := ⟨.reported, some ⟨200, sampleId, "", ""⟩, 5, 0⟩

/-- The commit of an event is not reported, the worker sends the event and writes down
that it was accepted, the owner commits it once more, and the process crashes. -/
def sampleActions : List (Action (Extended ℚ)) :=
  [.install sampleGallery, .stage [(sampleEvent, some fun _ => 0)], .commitNext .uncertain,
    .start 2000, .work smoothly, .work smoothly, .work smoothly, .commitNext .reported, .crash]

/-- The event is kept over such a run. The facts about the run are decided, and the theorem tells
where the event is. -/
theorem no_event_lost_sample :
    AllFresh sampleWire "device" "hash" Stored.fresh.opened sampleActions ∧
      let s := (after sampleWire "device" "hash" Stored.fresh.opened sampleActions).world
      ∃ r ∈ s.committed, r.id = sampleId ∧
        (s.Waiting r ∨ s.GivenUp r ∨ s.Confirmed sampleWire "device" r.id r.payload) := by
  have hfresh : AllFresh sampleWire "device" "hash" Stored.fresh.opened sampleActions := by
    decide +kernel
  have hcommitted : ∃ r ∈ (after sampleWire "device" "hash" Stored.fresh.opened
      sampleActions).world.committed, r.id = sampleId := by decide +kernel
  obtain ⟨r, hr, hid⟩ := hcommitted
  exact ⟨hfresh, r, hr, hid, (no_event_lost hfresh).2.2.1 r hr⟩

end System

end EdgeClient.App
