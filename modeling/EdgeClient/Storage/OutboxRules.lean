import EdgeClient.Basis.StatefulPrograms
import EdgeClient.Storage.OutboxRepository

/-!
# What the repository functions do

Acknowledging events and giving them up are both a series of removals: an event leaves
the outbox, and when there is a reason it arrives among the dead letters. A retry keeps
every event and only delays it. Nothing else is needed of the functions later.
-/

namespace EdgeClient.Storage

open Basis

/-- An event that leaves the outbox; with a reason it becomes a dead letter. -/
structure Removal where
  /-- Identifier of the event. -/
  id : String
  /-- Why it is given up. -/
  reason : Option String

/-- Remove one event. -/
def remove (t : Tables) (x : Removal) : Except Thrown Tables :=
  match x.reason with
  | some reason => OutboxRepository.dead t x.id reason
  | none => .ok { t with outbox := t.outbox.keep (·.eventId ≠ x.id) }

/-- What a receipt removes. -/
def DeliveryReceipt.removal (r : DeliveryReceipt) : Removal where
  id := r.eventId
  reason := if r.disposition = "rejected" then some "business_rejected" else none

/-- The dead letter of a row. -/
def OutboxRow.deadLetter (row : OutboxRow) (reason : String) : DeadLetterRow :=
  ⟨row.eventId, row.payload, reason⟩

/-- What a removal does to the tables. -/
structure Removed (t : Tables) (x : Removal) (t' : Tables) : Prop where
  /-- The event leaves the outbox. -/
  outbox : t'.outbox = t.outbox.keep (·.eventId ≠ x.id)
  /-- The endpoint is not delayed. -/
  delivery : t'.retryNotBeforeMs = t.retryNotBeforeMs
  /-- With a reason its row becomes a dead letter. -/
  deadLetter : ∀ d, d ∈ t'.deadLetter ↔ d ∈ t.deadLetter ∨
    ∃ row ∈ t.outbox, row.eventId = x.id ∧ x.reason = some d.reason ∧ d = row.deadLetter d.reason

/-- What a series of removals does to the tables. The rows that are left stay in their order, and
every dead letter has its cause among the removals. -/
structure AllRemoved (t : Tables) (xs : List Removal) (t' : Tables) : Prop where
  /-- The events leave the outbox. -/
  outbox : t'.outbox = t.outbox.keep (·.eventId ∉ xs.map (·.id))
  /-- The endpoint is not delayed. -/
  delivery : t'.retryNotBeforeMs = t.retryNotBeforeMs
  /-- Dead letters stay. -/
  kept : ∀ d ∈ t.deadLetter, d ∈ t'.deadLetter
  /-- A new dead letter is a row with a removal that gives a reason. -/
  origin : ∀ d ∈ t'.deadLetter, d ∈ t.deadLetter ∨ ∃ x ∈ xs, ∃ row ∈ t.outbox,
    row.eventId = x.id ∧ x.reason = some d.reason ∧ d = row.deadLetter d.reason
  /-- A row leaves without a reason or becomes a dead letter. -/
  moved : ∀ row ∈ t.outbox, row.eventId ∈ xs.map (·.id) →
    (∃ x ∈ xs, x.id = row.eventId ∧ x.reason = none) ∨
      ∃ reason, row.deadLetter reason ∈ t'.deadLetter

/-- What a retry does to the tables. -/
structure Delayed (t : Tables) (rows : List AttendanceRecord) (next : ℤ) (f : OutboxRow → OutboxRow)
    (t' : Tables) : Prop where
  /-- Every row is rewritten. -/
  outbox : t'.outbox.rows = t.outbox.rows.map f
  /-- It keeps its event. -/
  holds : ∀ row, (f row).eventId = row.eventId ∧ (f row).payload = row.payload ∧
    (f row).occurredMs = row.occurredMs
  /-- The rows of the batch are delayed. -/
  next : ∀ row, (f row).nextMs = if row.eventId ∈ rows.map (·.id) then next else row.nextMs
  /-- The dead letters stay. -/
  deadLetter : t'.deadLetter = t.deadLetter

namespace OutboxRepository

variable {t t' : Tables}

/-- A row that becomes a dead letter leaves the outbox, with its reason noted. The row is copied
first and deleted afterwards, in the same transaction. -/
theorem dead_removed {id reason : String} (h : dead t id reason = .ok t') :
    Removed t ⟨id, some reason⟩ t' := by
  unfold dead at h
  obtain ⟨deadLetter, hdead, hrest⟩ := bind_eq_ok.mp h
  cases hrest
  refine ⟨rfl, rfl, fun d => ?_⟩
  unfold retain at hdead
  cases hfind : t.outbox.find id with
  | none =>
    rw [hfind] at hdead
    cases hdead
    refine ⟨Or.inl, ?_⟩
    rintro (h | ⟨row, hrow, hid, -, -⟩)
    · exact h
    · exact absurd hid (Table.find_eq_none.mp hfind row hrow)
  | some row =>
    obtain ⟨hrow, hid⟩ := Table.find_eq_some.mp hfind
    rw [hfind] at hdead
    dsimp only at hdead
    cases hinsert : t.deadLetter.insert ⟨row.eventId, row.payload, reason⟩ with
    | none =>
      rw [hinsert] at hdead
      cases hdead
    | some inserted =>
      rw [hinsert] at hdead
      cases hdead
      rw [Table.mem_of_insert hinsert]
      constructor
      · rintro (h | rfl)
        · exact Or.inl h
        · exact Or.inr ⟨row, hrow, hid, rfl, rfl⟩
      · rintro (h | ⟨row', hrow', hid', hreason, hd⟩)
        · exact Or.inl h
        · right
          have hsame := Table.eq_of_key hrow' hrow (hid'.trans hid.symm)
          cases Option.some.inj hreason
          rw [hd, hsame, OutboxRow.deadLetter]

/-- An event that is not a dead letter can be given up. An identifier without a row is skipped, as
the copy then selects nothing. -/
theorem dead_total {id reason : String} (h : ∀ d ∈ t.deadLetter, d.eventId ≠ id) :
    ∃ t', dead t id reason = .ok t' := by
  unfold dead retain
  cases hfind : t.outbox.find id with
  | none => exact ⟨_, rfl⟩
  | some row =>
    obtain ⟨-, hid⟩ := Table.find_eq_some.mp hfind
    have hfree : ∀ d ∈ t.deadLetter, d.eventId ≠ (row.deadLetter reason).eventId := by
      intro d hd heq
      exact h d hd (heq.trans hid)
    obtain ⟨inserted, hinsert⟩ := Table.insert_of_free hfree
    rw [OutboxRow.deadLetter] at hinsert
    dsimp only
    rw [hinsert]
    exact ⟨_, rfl⟩

/-- Each removal takes one row out of the outbox, and notes a dead letter if it has a reason. A
removal without a row changes nothing. -/
theorem remove_removed {x : Removal} (h : remove t x = .ok t') : Removed t x t' := by
  unfold remove at h
  cases hreason : x.reason with
  | some reason =>
    rw [hreason] at h
    have hx : x = ⟨x.id, some reason⟩ := by rw [← hreason]
    exact hx ▸ dead_removed h
  | none =>
    rw [hreason] at h
    cases h
    refine ⟨rfl, rfl, fun d => ⟨Or.inl, ?_⟩⟩
    rintro (h | ⟨row, -, -, hsome, -⟩)
    · exact h
    · rw [hreason] at hsome
      cases hsome

/-- A removal can fail only because there is a dead letter of the event already. -/
theorem remove_total {x : Removal}
    (h : x.reason ≠ none → ∀ d ∈ t.deadLetter, d.eventId ≠ x.id) : ∃ t', remove t x = .ok t' := by
  unfold remove
  cases hreason : x.reason with
  | some reason => exact dead_total (h (by simp [hreason]))
  | none => exact ⟨_, rfl⟩

/-- A series of removals. The induction is on the removals; each of them sees the tables that the
one in front left. -/
theorem removeAll_removed {xs : List Removal} (h : xs.foldlM remove t = .ok t') :
    AllRemoved t xs t' := by
  induction xs generalizing t with
  | nil =>
    cases h
    refine ⟨Table.eq_of_rows ?_, rfl, fun _ => id, fun _ => Or.inl, ?_⟩
    · simp
    · rintro row - hmem
      cases hmem
  | cons x xs ih =>
    rw [List.foldlM_cons] at h
    obtain ⟨s, hs, hrest⟩ := bind_eq_ok.mp h
    have hfirst := remove_removed hs
    have hlater := ih hrest
    have hsub : ∀ row ∈ s.outbox, row ∈ t.outbox := by
      intro row hrow
      rw [hfirst.outbox, Table.mem_keep] at hrow
      exact hrow.1
    refine ⟨Table.eq_of_rows ?_, hlater.delivery.trans hfirst.delivery, fun d hd => ?_,
      fun d hd => ?_, fun row hrow hmem => ?_⟩
    · rw [hlater.outbox, hfirst.outbox, Table.rows_keep, Table.rows_keep, Table.rows_keep,
        List.filter_filter]
      congr 1
      funext row
      rw [List.map_cons, Bool.eq_iff_iff]
      simp only [Bool.and_eq_true, decide_eq_true_eq, List.mem_cons, not_or, ne_eq]
      exact and_comm
    · exact hlater.kept d ((hfirst.deadLetter d).mpr (Or.inl hd))
    · rcases hlater.origin d hd with hold | ⟨y, hy, row, hrow, hid, hreason, hd⟩
      · rcases (hfirst.deadLetter d).mp hold with hold | ⟨row, hrow, hid, hreason, hd⟩
        · exact Or.inl hold
        · exact Or.inr ⟨x, List.mem_cons_self, row, hrow, hid, hreason, hd⟩
      · exact Or.inr ⟨y, List.mem_cons_of_mem _ hy, row, hsub row hrow, hid, hreason, hd⟩
    · by_cases hx : row.eventId = x.id
      · cases hreason : x.reason with
        | none => exact Or.inl ⟨x, List.mem_cons_self, hx.symm, hreason⟩
        | some reason =>
          have hdead := (hfirst.deadLetter (row.deadLetter reason)).mpr
            (Or.inr ⟨row, hrow, hx, hreason, rfl⟩)
          exact Or.inr ⟨reason, hlater.kept _ hdead⟩
      · have hstays : row ∈ s.outbox := by
          rw [hfirst.outbox, Table.mem_keep]
          exact ⟨hrow, by simpa using hx⟩
        have hlist : row.eventId ∈ xs.map (·.id) := by
          rcases List.mem_cons.mp hmem with heq | hlist
          · exact absurd heq hx
          · exact hlist
        rcases hlater.moved row hstays hlist with ⟨y, hy, hid, hreason⟩ | hdead
        · exact Or.inl ⟨y, List.mem_cons_of_mem _ hy, hid, hreason⟩
        · exact Or.inr hdead

/-- Different events can be removed unless one with a reason is a dead letter already, and
each one with a reason becomes a dead letter. -/
theorem removeAll_total {xs : List Removal} (hnodup : (xs.map (·.id)).Nodup)
    (hfree : ∀ x ∈ xs, x.reason ≠ none → ∀ d ∈ t.deadLetter, d.eventId ≠ x.id) :
    ∃ t', xs.foldlM remove t = .ok t' ∧ ∀ x ∈ xs, ∀ reason, x.reason = some reason →
      ∀ row ∈ t.outbox, row.eventId = x.id → row.deadLetter reason ∈ t'.deadLetter := by
  induction xs generalizing t with
  | nil =>
    refine ⟨t, rfl, ?_⟩
    rintro x hx
    cases hx
  | cons x xs ih =>
    obtain ⟨hx, hxs⟩ := List.nodup_cons.mp hnodup
    obtain ⟨s, hs⟩ := remove_total (hfree x List.mem_cons_self)
    have hfirst := remove_removed hs
    have hfree' : ∀ y ∈ xs, y.reason ≠ none → ∀ d ∈ s.deadLetter, d.eventId ≠ y.id := by
      intro y hy hreason d hd heq
      rcases (hfirst.deadLetter d).mp hd with hold | ⟨row, -, hid, -, hd⟩
      · exact hfree y (List.mem_cons_of_mem _ hy) hreason d hold heq
      · rw [hd, OutboxRow.deadLetter] at heq
        exact hx (List.mem_map.mpr ⟨y, hy, heq.symm.trans hid⟩)
    obtain ⟨t', ht', hmoved⟩ := ih hxs hfree'
    have hlater := removeAll_removed ht'
    refine ⟨t', ?_, fun y hy reason hreason row hrow hid => ?_⟩
    · rw [List.foldlM_cons, hs]
      exact ht'
    · rcases List.mem_cons.mp hy with rfl | hy
      · exact hlater.kept _ ((hfirst.deadLetter _).mpr (Or.inr ⟨row, hrow, hid, hreason, rfl⟩))
      · have hne : row.eventId ≠ x.id := by
          intro heq
          exact hx (List.mem_map.mpr ⟨y, hy, hid.symm.trans heq⟩)
        refine hmoved y hy reason hreason row ?_ hid
        rw [hfirst.outbox, Table.mem_keep]
        exact ⟨hrow, by simpa using hne⟩

/-- A receipt is settled by the removal that it stands for. -/
theorem settle_eq (t : Tables) (r : DeliveryReceipt) : settle t r = remove t r.removal := by
  unfold settle remove DeliveryReceipt.removal
  by_cases h : r.disposition = "rejected"
  · simp [h]
  · simp [h, pure, Except.pure]

/-- The receipts of a batch are settled by their removals, in order. -/
theorem settleAll_eq (receipts : List DeliveryReceipt) (t : Tables) :
    receipts.foldlM settle t = (receipts.map (·.removal)).foldlM remove t := by
  rw [List.foldlM_map]
  congr 1
  funext t r
  exact settle_eq t r

/-- A committed acknowledgement has removed what its receipts stand for, and nothing else. The
loop over the receipts is the removal of a list of rows. -/
theorem acknowledge_removed {receipts : List DeliveryReceipt}
    (h : acknowledge receipts t = .ok ((), t')) :
    AllRemoved t (receipts.map (·.removal)) t' := by
  unfold acknowledge at h
  split at h
  · rw [settleAll_eq] at h
    obtain ⟨s, hs, hrest⟩ := bind_eq_ok.mp h
    cases hrest
    exact removeAll_removed hs
  · cases h

/-- Only receipts that say something are written down. The dispositions are checked before any row
is touched. -/
theorem acknowledge_valid {receipts : List DeliveryReceipt}
    (h : acknowledge receipts t = .ok ((), t')) : ∀ r ∈ receipts,
      r.disposition = "accepted" ∨ r.disposition = "duplicate" ∨ r.disposition = "rejected" := by
  unfold acknowledge at h
  split at h
  · rename_i hall
    intro r hr
    simpa [validDisposition] using List.all_eq_true.mp hall r hr
  · cases h

/-- Different valid receipts can be written down unless the event of a rejected one is a
dead letter already, and each rejected event becomes a dead letter. -/
theorem acknowledge_total {receipts : List DeliveryReceipt}
    (hvalid : ∀ r ∈ receipts, validDisposition r.disposition = true)
    (hnodup : (receipts.map (·.eventId)).Nodup)
    (hfree : ∀ r ∈ receipts, r.disposition = "rejected" → ∀ d ∈ t.deadLetter,
      d.eventId ≠ r.eventId) :
    ∃ t', acknowledge receipts t = .ok ((), t') ∧ ∀ r ∈ receipts, r.disposition = "rejected" →
      ∀ row ∈ t.outbox, row.eventId = r.eventId →
        row.deadLetter "business_rejected" ∈ t'.deadLetter := by
  have hids : (receipts.map (·.removal)).map (·.id) = receipts.map (·.eventId) := by
    rw [List.map_map]
    rfl
  have hfree' : ∀ x ∈ receipts.map (·.removal), x.reason ≠ none →
      ∀ d ∈ t.deadLetter, d.eventId ≠ x.id := by
    intro x hx hreason
    obtain ⟨r, hr, rfl⟩ := List.mem_map.mp hx
    refine hfree r hr ?_
    by_contra hne
    exact hreason (if_neg hne)
  obtain ⟨t', hrun, hdead⟩ := removeAll_total (hids ▸ hnodup) hfree'
  refine ⟨t', ?_, fun r hr hrejected row hrow hid => ?_⟩
  · unfold acknowledge
    rw [if_pos (List.all_eq_true.mpr hvalid), settleAll_eq, hrun]
    rfl
  · exact hdead r.removal (List.mem_map_of_mem hr) _ (if_pos hrejected) row hrow hid

/-- A committed call has made each of its rows a dead letter, for the one reason. The loop over
the rows is the removal of a list of rows. -/
theorem deadLetter_removed {rows : List AttendanceRecord} {reason : String}
    (h : deadLetter rows reason t = .ok ((), t')) :
    AllRemoved t (rows.map fun r => ⟨r.id, some reason⟩) t' := by
  unfold deadLetter at h
  obtain ⟨s, hs, hrest⟩ := bind_eq_ok.mp h
  cases hrest
  refine removeAll_removed ?_
  rw [List.foldlM_map]
  exact hs

/-- Delaying rows one after the other changes only their attempts, their times and their reasons,
and not yet the time of the endpoint. -/
theorem delayAll_delayed (rows : List AttendanceRecord) (next : ℤ) (reason : String) (t : Tables) :
    ∃ f, Delayed t rows next f (rows.foldl (delayRow next reason) t) ∧
      (rows.foldl (delayRow next reason) t).retryNotBeforeMs = t.retryNotBeforeMs := by
  induction rows generalizing t with
  | nil =>
    refine ⟨id, ⟨?_, fun row => ⟨rfl, rfl, rfl⟩, fun row => ?_, rfl⟩, rfl⟩
    · rw [List.map_id]
      rfl
    · simp
  | cons r rows ih =>
    obtain ⟨f, hf, hdelivery⟩ := ih (delayRow next reason t r)
    refine ⟨fun row => f (if row.eventId = r.id then delay next reason row else row),
      ⟨?_, fun row => ?_, fun row => ?_, hf.deadLetter⟩, hdelivery⟩
    · rw [List.foldl_cons, hf.outbox, delayRow, Table.rows_update, List.map_map]
      rfl
    · obtain ⟨hid, hpayload, hoccurred⟩ :=
        hf.holds (if row.eventId = r.id then delay next reason row else row)
      rw [hid, hpayload, hoccurred]
      split <;> exact ⟨rfl, rfl, rfl⟩
    · rw [hf.next]
      by_cases hr : row.eventId = r.id
      · simp [hr, delay]
      · simp [hr]

/-- A retry of different events changes each of their rows once. For different events the updates
do not meet, so that they can be read as one. -/
theorem delayAll_eq {rows : List AttendanceRecord} (h : (rows.map (·.id)).Nodup) (next : ℤ)
    (reason : String) (t : Tables) :
    (rows.foldl (delayRow next reason) t).outbox.rows = t.outbox.rows.map (fun row =>
        if row.eventId ∈ rows.map (·.id) then delay next reason row else row) ∧
      (rows.foldl (delayRow next reason) t).deadLetter = t.deadLetter := by
  induction rows generalizing t with
  | nil => simp
  | cons r rows ih =>
    obtain ⟨hr, hrest⟩ := List.nodup_cons.mp h
    obtain ⟨hrows, hdead⟩ := ih hrest (delayRow next reason t r)
    refine ⟨?_, hdead⟩
    rw [List.foldl_cons, hrows, delayRow, Table.rows_update, List.map_map]
    apply List.map_congr_left
    intro row _
    simp only [Function.comp_apply, List.map_cons, List.mem_cons]
    by_cases hrow : row.eventId = r.id
    · have hlater : r.id ∉ rows.map (·.id) := hr
      simp [hrow, delay, hlater]
    · simp [hrow]

/-- A retry delays its rows and the endpoint. The endpoint never moves back. -/
theorem retry_delayed {rows : List AttendanceRecord} {next : ℤ} {reason : String}
    (hrows : rows ≠ [])
    (h : retry rows next reason t = .ok ((), t')) :
    (∃ f, Delayed t rows next f t') ∧ t'.retryNotBeforeMs = max t.retryNotBeforeMs next := by
  unfold retry at h
  rw [if_neg hrows] at h
  cases h
  obtain ⟨f, hf, hdelivery⟩ := delayAll_delayed rows next reason
    { t with retryNotBeforeMs := max t.retryNotBeforeMs next }
  exact ⟨⟨f, hf.outbox, hf.holds, hf.next, hf.deadLetter⟩, hdelivery⟩

/-- A retry never fails by itself. It may name rows that are gone. -/
theorem retry_total (rows : List AttendanceRecord) (next : ℤ) (reason : String) (t : Tables) :
    ∃ t', retry rows next reason t = .ok ((), t') := by
  unfold retry
  split <;> exact ⟨_, rfl⟩

/-- An insertion that returns has found no row of the event, and puts the new one last. The
primary key of the table refuses a second row. -/
theorem insertRow_ok {r : AttendanceRecord} (h : insertRow t r = .ok ((), t')) :
    (∀ row ∈ t.outbox, row.eventId ≠ r.id) ∧ t'.outbox.rows = t.outbox.rows ++ [r.row] ∧
      t'.deadLetter = t.deadLetter ∧ t'.retryNotBeforeMs = t.retryNotBeforeMs := by
  unfold insertRow at h
  cases hinsert : t.outbox.insert r.row with
  | none =>
    rw [hinsert] at h
    cases h
  | some outbox =>
    rw [hinsert] at h
    cases h
    obtain ⟨hfree, hrows⟩ := Table.insert_eq_some hinsert
    exact ⟨hfree, hrows, rfl, rfl⟩

/-- An event is stored, or it was stored already as an event or as a dead letter. In the remaining
cases the call throws: the same identifier with another payload or time. -/
theorem ensureEnqueued_cases {r : AttendanceRecord} (h : ensureEnqueued r t = .ok ((), t')) :
    (t' = t ∧ ((∃ row ∈ t.outbox, row.Holds r) ∨
        ∃ d ∈ t.deadLetter, d.eventId = r.id ∧ d.payload = r.payload)) ∨
      ((∀ row ∈ t.outbox, row.eventId ≠ r.id) ∧ (∀ d ∈ t.deadLetter, d.eventId ≠ r.id) ∧
        insertRow t r = .ok ((), t')) := by
  unfold ensureEnqueued at h
  cases hfind : t.outbox.find r.id with
  | some existing =>
    obtain ⟨hmem, hid⟩ := Table.find_eq_some.mp hfind
    rw [hfind] at h
    dsimp only at h
    split at h
    · cases h
    · rename_i hsame
      cases h
      simp only [ne_eq, not_or, not_not] at hsame
      exact Or.inl ⟨rfl, Or.inl ⟨existing, hmem, hid, hsame.1, hsame.2⟩⟩
  | none =>
    rw [hfind] at h
    dsimp only at h
    cases hdead : t.deadLetter.find r.id with
    | some rejected =>
      obtain ⟨hmem, hid⟩ := Table.find_eq_some.mp hdead
      rw [hdead] at h
      dsimp only at h
      split at h
      · cases h
      · rename_i hsame
        cases h
        exact Or.inl ⟨rfl, Or.inr ⟨rejected, hmem, hid, not_not.mp hsame⟩⟩
    | none =>
      rw [hdead] at h
      exact Or.inr ⟨Table.find_eq_none.mp hfind, Table.find_eq_none.mp hdead, h⟩

/-- The due events are different. -/
theorem nodup_due (now : ℤ) (limit : ℕ) (t : Tables) : ((due now limit t).map (·.id)).Nodup := by
  unfold due
  rw [List.map_map]
  have hsorted : (((t.outbox.rows.filter fun row => row.nextMs ≤ now ∧ t.retryNotBeforeMs ≤ now
      ).insertionSort Before).map (·.eventId)).Nodup := by
    rw [((List.perm_insertionSort _ _).map _).nodup_iff]
    exact t.outbox.nodup.sublist (List.filter_sublist.map _)
  exact hsorted.sublist ((List.take_sublist _ _).map _)

/-- What `due` returns are rows that are due. -/
theorem mem_due {now : ℤ} {limit : ℕ} {r : AttendanceRecord} (h : r ∈ due now limit t) :
    ∃ row ∈ t.outbox, row.record = r ∧ row.nextMs ≤ now ∧ t.retryNotBeforeMs ≤ now := by
  obtain ⟨row, hrow, rfl⟩ := List.mem_map.mp h
  have hsorted := List.mem_of_mem_take hrow
  rw [List.mem_insertionSort, List.mem_filter] at hsorted
  obtain ⟨hmem, hdue⟩ := hsorted
  obtain ⟨hnext, hendpoint⟩ := of_decide_eq_true hdue
  exact ⟨row, hmem, rfl, hnext, hendpoint⟩

end OutboxRepository

end EdgeClient.Storage
