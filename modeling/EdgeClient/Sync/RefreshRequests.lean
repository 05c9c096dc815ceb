import EdgeClient.Basis.Histories
import EdgeClient.Sync.GalleryBackoff
import EdgeClient.Sync.SyncService

/-!
# Blocking and refresh requests

What the threads do to the service is written down as a history. While the token is refused nothing
is sent, and nothing else turns a step away; no request for a refresh is lost, and none of them
defeats the delay after a failed poll. This holds for every order in which the threads set and take
the flags.
-/

namespace EdgeClient.Sync

open Basis Storage

/-- What is written down. The notes are what an observer sees of the requests and of the flags,
without the state of the service. -/
inductive SyncNote
  /-- A step begins. -/
  | started
  /-- A step with a token returns in front of the deliveries. -/
  | turnedAway
  /-- The refresh flag is taken. -/
  | took
  /-- The delivery of events begins. -/
  | attended
  /-- A batch is sent. -/
  | posted
  /-- The server answered with 401 or 403. -/
  | refused
  /-- The poll is not due after so many failed attempts. -/
  | skipped (attempts : ℤ)
  /-- The gallery is asked for at this time. -/
  | asked (now : ℤ)
  /-- The poll failed and is delayed. -/
  | delayed (due : ℤ)
  /-- The poll succeeded. -/
  | settled
  /-- The channel asked for a refresh. -/
  | requested
  /-- The channel reported its connection. -/
  | authenticated
  /-- Another token was set. -/
  | newToken
  deriving DecidableEq

namespace SyncNote

/-- The note ends a blocking. -/
def Unlocks (n : SyncNote) : Prop := n = authenticated ∨ n = newToken

/-- The note ends a delay. -/
def EndsDelay (n : SyncNote) : Prop := n = settled ∨ n = newToken ∨ ∃ due, n = delayed due

/-- Since the last step began the service was not unlocked. -/
def Quiet : List SyncNote → Prop := Since (fun _ n => n = started) fun n => ¬ n.Unlocks

/-- The token was refused, and neither since then nor between the start of that step and the
refusal was the service unlocked. -/
def Locked : List SyncNote → Prop :=
  Since (fun before n => n = refused ∧ Quiet before) fun n => ¬ n.Unlocks

/-- A refresh was requested, and the flag has not been taken since. -/
def Asking : List SyncNote → Prop := Since (fun _ n => n = requested) fun n => n ≠ took

/-- A request was taken, and the gallery has not been asked for since. -/
def Owed : List SyncNote → Prop :=
  Since (fun before n => n = took ∧ Asking before) fun n => ∀ now, n ≠ asked now

/-- The last poll failed and is delayed until then. -/
def Waiting (due : ℤ) : List SyncNote → Prop :=
  Since (fun _ n => n = delayed due) fun n => ¬ n.EndsDelay

/-- What may be written down behind a history. -/
def Allowed (before : List SyncNote) : SyncNote → Prop
  | turnedAway => Locked before
  | attended => ¬ Locked before
  | posted => ¬ Locked before
  | asked now => ¬ Locked before ∧ ∀ due, Waiting due before → due ≤ now
  | skipped attempts => attempts = 0 → ¬ Owed before
  | _ => True

end SyncNote

/-- The answer refuses the token. -/
def refuses (r : HttpResponse) : Bool := r.status = 401 ∨ r.status = 403

section Notes

variable {F D : Type} [FloatOps F] [FloatOps D] [FloatPair F D] (w : Wire D) (b : Blobs F)
  (device hash : String)

open SyncNote

/-- The notes of a call of the delivery. -/
def deliveryNotes : (op : DeliveryOp) → Except Thrown op.Answer → List SyncNote
  | .request _ _ _ _, .ok r => if refuses r then [posted, refused] else [posted]
  | .request _ _ _ _, .error _ => [posted]
  | _, _ => []

/-- The notes of a poll. A poll that is not due is noted as skipped, with the number of failures
so far. -/
def pollNotes (c : GallerySync.Poll) (now : ℤ) (g : GallerySync) (t : GalleryTables F) :
    List SyncNote :=
  if now < g.galleryDue then [skipped g.galleryAttempts]
  else if c.metadata ≠ .reported then []
  else asked now :: match c.ending w b hash t with
    | .refused => [refused]
    | .succeeded => [settled]
    | .failed => [delayed (g.step w b hash c now t).2.1.galleryDue]
    | .broken => []

/-- The notes of an action. They are computed from the state in front of the action, by the
conditions of the source. -/
def notes : SyncAction F → Synchronizing F → List SyncNote
  | .setToken token, s =>
    match s.stage, s.service.setToken token with
    | .idle, .ok _ => if token = s.service.token then [] else [newToken]
    | _, _ => []
  | .start _, s =>
    match s.stage with
    | .idle =>
      if s.service.begin.blocked && s.service.token ≠ "" then [started, turnedAway] else [started]
    | _ => []
  | .takeRefresh, s =>
    match s.stage with
    | .started _ => [took, attended]
    | _ => []
  | .deliver c, s =>
    match s.stage with
    | .delivering _ (.call op _) => deliveryNotes op (op.answer c s.tables).1
    | _ => []
  | .poll c elapsed, s =>
    match s.stage with
    | .polling now => pollNotes w b hash c (now + elapsed) s.service.gallery s.galleryTables
    | _ => []
  | .request _, s => if s.marking then [] else [requested]
  | .mark, s => if s.marking then [authenticated] else []
  | .others _ _, _ => []

end Notes

/-! ## The delivery -/

/-- The call ended with a refusal. -/
def refusedBy : (op : DeliveryOp) → Except Thrown op.Answer → Bool
  | .request _ _ _ _, .ok r => refuses r
  | _, _ => false

/-- The program sends nothing. -/
def Silent {α : Type} : Delivering α → Prop
  | .done _ => True
  | .thrown _ => True
  | .call op next => (∀ answer, deliveryNotes op answer = []) ∧ ∀ answer, Silent (next answer)

/-- The program ends with a refusal just behind an answer that refuses the token. -/
def Honest : Delivering SyncResult → Prop
  | .done result => result = .continue
  | .thrown _ => True
  | .call op next => ∀ answer,
    (refusedBy op answer = true → next answer = .done .authenticationBlocked) ∧
      (refusedBy op answer = false → Honest (next answer))

/-- A call that sends nothing is not refused. -/
theorem not_refusedBy {op : DeliveryOp} {answer : Except Thrown op.Answer}
    (h : deliveryNotes op answer = []) : refusedBy op answer = false := by
  cases op with
  | request method path body etag =>
    cases answer with
    | ok r => cases hrefuses : refuses r <;> simp [deliveryNotes, hrefuses] at h
    | error e => cases h
  | _ => rfl

/-- Silent programs make a silent program when one is run after the other. -/
theorem Silent.bind {α β : Type} {p : Delivering α} {f : α → Delivering β} (hp : Silent p)
    (hf : ∀ a, Silent (f a)) : Silent (p >>= f) := by
  induction p with
  | done a => exact hf a
  | thrown e => trivial
  | call op next ih => exact ⟨hp.1, fun answer => ih answer (hp.2 answer)⟩

/-- A silent program may be run in front of an honest one. By induction on the silent program,
none of whose calls is refused. -/
theorem Silent.honest {α : Type} {p : Delivering α} {f : α → Delivering SyncResult}
    (hp : Silent p) (hf : ∀ a, Honest (f a)) : Honest (p >>= f) := by
  induction p with
  | done a => exact hf a
  | thrown e => trivial
  | call op next ih =>
    intro answer
    have hquiet := not_refusedBy (hp.1 answer)
    refine ⟨fun hrefused => ?_, fun _ => ih answer (hp.2 answer)⟩
    rw [hquiet] at hrefused
    cases hrefused

/-- A single call that is no request. -/
theorem silent_call {op : DeliveryOp} (h : ∀ answer, deliveryNotes op answer = []) :
    Silent op.call := by
  refine ⟨h, fun answer => ?_⟩
  cases answer <;> trivial

section Delivery

variable {D : Type} [FloatOps D] (w : Wire D) (device : String) (now : ℤ)

omit [FloatOps D] in
/-- A delay is written down without a request. -/
theorem silent_postpone (rows : List AttendanceRecord) (retryAfter reason : String) :
    Silent (AttendanceSync.postpone w now rows retryAfter reason) :=
  .bind (silent_call fun _ => rfl) fun _ => .bind (silent_call fun _ => rfl) fun _ =>
    silent_call fun _ => rfl

/-- The end of a delivery whose token was not refused. None of its branches reports a blocked
service then. -/
theorem honest_conclude {rows : List AttendanceRecord} {r : HttpResponse}
    (h : refuses r = false) : Honest (AttendanceSync.conclude w now rows r) := by
  have hstatus : ¬ (r.status = 401 ∨ r.status = 403) := by simpa [refuses] using h
  unfold AttendanceSync.conclude
  rw [if_neg hstatus]
  dsimp only
  split
  · exact Silent.honest (silent_call fun _ => rfl) fun _ => rfl
  split
  · cases parseReceipts w r.body rows with
    | error e => exact Silent.honest (silent_postpone w now rows _ _) fun _ => rfl
    | ok receipts =>
      refine Silent.honest (.bind (silent_call fun _ => rfl) fun _ => trivial) fun rest => ?_
      split
      · exact Silent.honest (silent_postpone w now rest _ _) fun _ => rfl
      · rfl
  · exact Silent.honest (silent_postpone w now rows _ _) fun _ => rfl

omit [FloatOps D] in
/-- A delivery goes on behind a transport failure. -/
theorem honest_failure {rows : List AttendanceRecord}
    {f : Option HttpResponse → Delivering SyncResult} (hf : Honest (f none)) :
    Honest ((AttendanceSync.postpone w now rows "" "transport_failure" >>=
      fun _ => pure none) >>= f) := by
  rw [bind_assoc]
  exact Silent.honest (silent_postpone w now rows _ _) fun _ => hf

/-- A delivery ends with a refusal just behind an answer that refuses the token. Nothing else in a
delivery makes it end in this way. -/
theorem honest_step : Honest (AttendanceSync.step w device now) := by
  unfold AttendanceSync.step
  refine Silent.honest (silent_call fun _ => rfl) fun rows => ?_
  split
  · rfl
  unfold AttendanceSync.send
  cases batchPayload w device rows with
  | error e => exact honest_failure w now rfl
  | ok body =>
    intro answer
    cases answer with
    | error e =>
      exact ⟨fun hrefused => absurd hrefused Bool.false_ne_true, fun _ => honest_failure w now rfl⟩
    | ok r =>
      refine ⟨fun hrefused => ?_, fun haccepted => honest_conclude w now haccepted⟩
      have hstatus : r.status = 401 ∨ r.status = 403 := of_decide_eq_true hrefused
      change AttendanceSync.conclude w now rows r = _
      unfold AttendanceSync.conclude
      rw [if_pos hstatus]
      rfl

end Delivery

/-! ## The flags -/

section Flags

variable {F D : Type} {history : List SyncNote} {n : SyncNote} {s : Synchronizing F}

open SyncNote

/-- A history is quiet after one more note if the note is a start, or it was quiet and nothing
unlocks it. -/
theorem quiet_snoc : Quiet (history ++ [n]) ↔ n = started ∨ Quiet history ∧ ¬ n.Unlocks :=
  since_snoc

/-- A refusal locks a quiet history, and only an unlocking note opens it again. -/
theorem locked_snoc : Locked (history ++ [n]) ↔
    n = refused ∧ Quiet history ∨ Locked history ∧ ¬ n.Unlocks := since_snoc

/-- A request is open until it is taken. -/
theorem asking_snoc : Asking (history ++ [n]) ↔ n = requested ∨ Asking history ∧ n ≠ took :=
  since_snoc

/-- A request that was taken is owed until the backend is asked. -/
theorem owed_snoc : Owed (history ++ [n]) ↔
    n = took ∧ Asking history ∨ Owed history ∧ ∀ now, n ≠ asked now := since_snoc

/-- A delay is waited for from the note that sets it to one that ends it. -/
theorem waiting_snoc {due : ℤ} : Waiting due (history ++ [n]) ↔
    n = delayed due ∨ Waiting due history ∧ ¬ n.EndsDelay := since_snoc

/-- The blocking of the service is that of the history. -/
structure Gate (history : List SyncNote) (s : Synchronizing F) : Prop where
  /-- Between two steps the next one is turned away just when the history says so. -/
  idle : s.stage = .idle →
    (Locked history ↔ s.service.blocked = true ∧ s.service.authenticatedConnection = false)
  /-- In a step nothing is blocked, and the flag remembers what the channel reports. -/
  busy : s.stage ≠ .idle → s.service.blocked = false ∧ ¬ Locked history ∧
    (Quiet history ↔ s.service.authenticatedConnection = false)

/-- The time of the next poll is that of the history. -/
structure Polls (history : List SyncNote) (s : Synchronizing F) : Prop where
  /-- A request that was not taken is kept in the flag. -/
  asking : Asking history → s.service.refreshRequested = true
  /-- A request that was taken makes the next poll due at once. -/
  owed : Owed history → s.service.gallery.galleryAttempts = 0 → s.service.gallery.galleryDue = 0
  /-- A failed poll delays the next one. -/
  waiting : ∀ due, Waiting due history →
    s.service.gallery.galleryDue = due ∧ s.service.gallery.galleryAttempts ≠ 0
  /-- Failed polls are counted from zero. -/
  attempts : 0 ≤ s.service.gallery.galleryAttempts

/-- The time with which the current step began. -/
def Stage.now : Stage → ℤ
  | .idle => 0
  | .started now => now
  | .delivering now _ => now
  | .polling now => now

/-- What holds between two actions. -/
structure Consistent (history : List SyncNote) (s : Synchronizing F) : Prop where
  /-- Nothing was written down that was not allowed. -/
  respects : Respects Allowed history
  /-- The blocking. -/
  gate : Gate history s
  /-- The polls. -/
  polls : Polls history s
  /-- What remains of a delivery. -/
  honest : ∀ now rest, s.stage = .delivering now rest → Honest rest
  /-- The clock of the step. -/
  time : 0 ≤ s.stage.now

/-- Another state with the same poll. Only the poll and the flag are looked at. -/
theorem Polls.same {s' : Synchronizing F} (h : Polls history s)
    (hgallery : s'.service.gallery = s.service.gallery)
    (hflag : s'.service.refreshRequested = s.service.refreshRequested) : Polls history s' where
  asking hasking := hflag.trans (h.asking hasking)
  owed howed := by
    rw [hgallery]
    exact h.owed howed
  waiting due hwaiting := by
    rw [hgallery]
    exact h.waiting due hwaiting
  attempts := by
    rw [hgallery]
    exact h.attempts

/-- A note that says nothing about the polls. Such a note leaves requests, debts and delays as
they are. -/
theorem Polls.snoc {s' : Synchronizing F} (h : Polls history s)
    (hservice : s'.service.gallery = s.service.gallery)
    (hflag : s'.service.refreshRequested = s.service.refreshRequested)
    (hrequested : n ≠ requested) (htook : n ≠ took) (hdelay : ∀ due, n ≠ delayed due) :
    Polls (history ++ [n]) s' where
  asking hasking := by
    rw [hflag]
    exact h.asking ((asking_snoc.mp hasking).resolve_left hrequested).1
  owed howed := by
    rw [hservice]
    exact h.owed ((owed_snoc.mp howed).resolve_left fun h => htook h.1).1
  waiting due hwaiting := by
    rw [hservice]
    exact h.waiting due ((waiting_snoc.mp hwaiting).resolve_left (hdelay due)).1
  attempts := hservice ▸ h.attempts

/-- In a step the service is not blocked. -/
def Busy (history : List SyncNote) (s : Synchronizing F) : Prop :=
  s.service.blocked = false ∧ ¬ Locked history ∧
    (Quiet history ↔ s.service.authenticatedConnection = false)

/-- A note that neither refuses nor unlocks. The three parts of the history change only with such
notes. -/
theorem Busy.snoc (h : Busy history s) (hstarted : n ≠ started) (hrefused : n ≠ refused)
    (hunlocks : ¬ n.Unlocks) : Busy (history ++ [n]) s := by
  refine ⟨h.1, ?_, ?_⟩
  · rw [locked_snoc]
    rintro (⟨rfl, -⟩ | ⟨hlocked, -⟩)
    · exact hrefused rfl
    · exact h.2.1 hlocked
  · rw [quiet_snoc, ← h.2.2]
    simp [hstarted, hunlocks]

/-- The worker goes on with a delivery. The rest of the delivery is honest, and it has the time of
the step. -/
theorem consistent_goOn {now : ℤ} {rest : Delivering SyncResult}
    (hrespects : Respects Allowed history) (hbusy : Busy history s) (hpolls : Polls history s)
    (hhonest : Honest rest) (htime : 0 ≤ now) : Consistent history (s.goOn now rest) := by
  have hkept : ∀ stage, Polls history { s with stage } := fun _ => hpolls.same rfl rfl
  cases rest with
  | call op next =>
    refine ⟨hrespects, ⟨by rintro ⟨⟩, fun _ => hbusy⟩, hkept _, ?_, htime⟩
    rintro _ _ ⟨⟩
    exact hhonest
  | thrown e =>
    refine ⟨hrespects, ⟨fun _ => iff_of_false hbusy.2.1 fun hblocked => ?_, fun h => absurd rfl h⟩,
      hkept _, by rintro _ _ ⟨⟩, le_rfl⟩
    exact Bool.false_ne_true (hbusy.1.symm.trans hblocked.1)
  | done result =>
    cases hhonest
    exact ⟨hrespects, ⟨by rintro ⟨⟩, fun _ => hbusy⟩, hkept _, by rintro _ _ ⟨⟩, htime⟩

/-- The step ends with a refusal. -/
theorem gate_refused {s' : Synchronizing F} (h : Busy history s) (hstage : s'.stage = .idle)
    (hblocked : s'.service.blocked = true)
    (hflag : s'.service.authenticatedConnection = s.service.authenticatedConnection) :
    Gate (history ++ [refused]) s' where
  idle _ := by
    rw [locked_snoc, hblocked, hflag, ← h.2.2]
    simp [h.2.1]
  busy hbusy := absurd hstage hbusy

/-- The step ends without a refusal. -/
theorem Busy.rest {s' : Synchronizing F} (h : Busy history s) (hstage : s'.stage = .idle)
    (hblocked : s'.service.blocked = false) : Gate history s' where
  idle _ := iff_of_false h.2.1 fun hstuck => Bool.false_ne_true (hblocked.symm.trans hstuck.1)
  busy hbusy := absurd hstage hbusy

/-- Behind the end of a poll nothing is owed. -/
theorem not_owed_asked {now : ℤ} (hn : n ≠ took) : ¬ Owed (history ++ [asked now] ++ [n]) := by
  rw [owed_snoc, owed_snoc]
  rintro (⟨htook, -⟩ | ⟨⟨htook, -⟩ | ⟨-, hasked⟩, -⟩)
  · exact hn htook
  · cases htook
  · exact hasked now rfl

end Flags

section Actions

variable {F D : Type} [FloatOps F] [FloatOps D] [FloatPair F D] {w : Wire D} {b : Blobs F}
  {device hash : String} {history : List SyncNote} {s : Synchronizing F}

open SyncNote

/-- A refresh that a thread requests keeps the flags and the history consistent. Without a token
nothing happens; otherwise the flag is set and the note owes a poll. -/
theorem Consistent.request (h : Consistent history s) (authenticated : Bool) :
    Consistent (history ++ notes w b hash (.request authenticated) s)
      (s.perform w b device hash (.request authenticated)) := by
  simp only [notes, Synchronizing.perform]
  split
  · rwa [List.append_nil]
  · refine ⟨respects_snoc.mpr ⟨h.respects, trivial⟩, ⟨fun hidle => ?_, fun hbusy => ?_⟩,
      ⟨fun _ => rfl, fun howed => ?_, fun due hwaiting => ?_, h.polls.attempts⟩, h.honest, h.time⟩
    · rw [locked_snoc, ← h.gate.idle hidle]
      simp [Unlocks]
    · exact Busy.snoc (h.gate.busy hbusy) (by simp) (by simp) (by simp [Unlocks])
    · exact h.polls.owed ((owed_snoc.mp howed).resolve_left (by simp)).1
    · exact h.polls.waiting due ((waiting_snoc.mp hwaiting).resolve_left (by simp)).1

/-- The note of the second atomic store keeps the flags and the history consistent. The store
blocks the service, and in the history it locks the gate. -/
theorem Consistent.mark (h : Consistent history s) :
    Consistent (history ++ notes w b hash .mark s) (s.perform w b device hash .mark) := by
  simp only [notes, Synchronizing.perform]
  split
  · refine ⟨respects_snoc.mpr ⟨h.respects, trivial⟩, ⟨fun _ => ?_, fun hbusy => ?_⟩,
      h.polls.snoc rfl rfl (by simp) (by simp) (by simp), h.honest, h.time⟩
    · simp [locked_snoc, Unlocks]
    · refine ⟨(h.gate.busy hbusy).1, ?_, ?_⟩
      · simp [locked_snoc, Unlocks]
      · simp [quiet_snoc, Unlocks]
  · rwa [List.append_nil]

omit [FloatOps F] in
/-- What `set_token` does when it returns. An equal token changes nothing, and another one also
clears the times of the polls. -/
theorem setToken_ok {token : String} {service service' : SyncService}
    (hset : service.setToken token = .ok service') :
    token = service.token ∧ service' = service ∨ token ≠ service.token ∧
      service' =
        { service with token, blocked := false, gallery := service.gallery.resetPoll } := by
  unfold SyncService.setToken at hset
  split at hset
  · rename_i hsame
    cases hset
    exact Or.inl ⟨hsame, rfl⟩
  · rename_i hother
    obtain ⟨-, -, hset⟩ := bind_eq_ok.mp hset
    cases hset
    exact Or.inr ⟨hother, rfl⟩

/-- A new token keeps the flags and the history consistent. It unlocks the delivery. The delays of
polls end with it, too. -/
theorem Consistent.setToken (h : Consistent history s) (token : String) :
    Consistent (history ++ notes w b hash (.setToken token) s)
      (s.perform w b device hash (.setToken token)) := by
  obtain ⟨service, stage, marking, tables, galleryTables⟩ := s
  have hkept : Consistent (history ++ []) (⟨service, stage, marking, tables, galleryTables⟩ :
      Synchronizing F) := (List.append_nil history).symm ▸ h
  cases stage with
  | idle =>
    simp only [notes, Synchronizing.perform]
    cases hset : service.setToken token with
    | error e => exact hkept
    | ok service' =>
      dsimp only
      rcases setToken_ok hset with ⟨hsame, rfl⟩ | ⟨hother, rfl⟩
      · rwa [if_pos hsame]
      rw [if_neg hother]
      refine ⟨respects_snoc.mpr ⟨h.respects, trivial⟩, ⟨fun _ => ?_, fun hbusy => absurd rfl hbusy⟩,
        ⟨fun hasking => ?_, fun _ _ => rfl, fun due hwaiting => ?_, h.polls.attempts⟩, by simp,
        le_rfl⟩
      · simp [locked_snoc, Unlocks]
      · exact h.polls.asking ((asking_snoc.mp hasking).resolve_left (by simp)).1
      · exact absurd (Or.inr (Or.inl rfl)) ((waiting_snoc.mp hwaiting).resolve_left (by simp)).2
  | _ => exact hkept

/-- A step of the worker starts where the service lets it in, and is turned away elsewhere. -/
theorem perform_start {service : SyncService} {marking : Bool} {tables : Tables}
    {galleryTables : GalleryTables F} {now : ℤ} :
    Synchronizing.perform w b device hash (.start now)
        ⟨service, .idle, marking, tables, galleryTables⟩ =
      ⟨service.begin, if service.begin.turnsAway then .idle else .started now, marking, tables,
        galleryTables⟩ := rfl

/-- The start of a step is noted, and after it that the step was turned away. -/
theorem notes_start {service : SyncService} {marking : Bool} {tables : Tables}
    {galleryTables : GalleryTables F} {now : ℤ} :
    notes w b hash (.start now) ⟨service, .idle, marking, tables, galleryTables⟩ =
      if service.begin.blocked && service.token ≠ "" then [started, turnedAway] else [started] :=
  rfl

/-- A step begins, or is turned away. It is turned away only while the last refusal is not
followed by an unlocking. -/
theorem Consistent.start (h : Consistent history s) {now : ℤ} (hnow : 0 ≤ now) :
    Consistent (history ++ notes w b hash (.start now) s)
      (s.perform w b device hash (.start now)) := by
  obtain ⟨service, stage, marking, tables, galleryTables⟩ := s
  cases stage with
  | idle =>
    have hlocked : Locked (history ++ [started]) ↔ service.begin.blocked = true := by
      have hidle := h.gate.idle rfl
      dsimp only at hidle
      rw [locked_snoc, hidle]
      cases hblocked : service.blocked <;> cases hflag : service.authenticatedConnection <;>
        simp [SyncService.begin, hblocked, hflag, Unlocks]
    have hrespects : Respects Allowed (history ++ [started]) :=
      respects_snoc.mpr ⟨h.respects, trivial⟩
    have hkept : Polls (history ++ [started]) (⟨service.begin, .idle, marking, tables,
        galleryTables⟩ : Synchronizing F) := h.polls.snoc rfl rfl (by simp) (by simp) (by simp)
    have htoken : service.begin.token = service.token := rfl
    rw [perform_start, notes_start, SyncService.turnsAway, htoken]
    cases hblocked : service.begin.blocked
    · have hfree : ¬ Locked (history ++ [started]) := by
        rw [hlocked, hblocked]
        exact Bool.false_ne_true
      have hnotes : (false && decide (service.token ≠ "")) = false := rfl
      rw [hnotes, if_neg Bool.false_ne_true, Bool.false_or]
      by_cases hempty : service.token = ""
      · rw [if_pos (decide_eq_true hempty)]
        refine ⟨hrespects, ⟨fun _ => iff_of_false hfree fun hstuck => ?_, fun h => absurd rfl h⟩,
          hkept, by simp, le_rfl⟩
        exact Bool.false_ne_true (hblocked.symm.trans hstuck.1)
      · rw [if_neg (by simpa using hempty)]
        refine ⟨hrespects, ⟨by simp, fun _ => ⟨hblocked, hfree, ?_⟩⟩, hkept.same rfl rfl, by simp,
          hnow⟩
        exact iff_of_true (quiet_snoc.mpr (Or.inl rfl)) rfl
    · have hstuck : Locked (history ++ [started]) := hlocked.mpr hblocked
      have hgate : Locked (history ++ [started]) ↔
          service.begin.blocked = true ∧ service.begin.authenticatedConnection = false :=
        iff_of_true hstuck ⟨hblocked, rfl⟩
      rw [Bool.true_or, if_pos rfl, Bool.true_and]
      by_cases hempty : service.token = ""
      · rw [if_neg (by simpa using hempty)]
        exact ⟨hrespects, ⟨fun _ => hgate, fun h => absurd rfl h⟩, hkept, by simp, le_rfl⟩
      · rw [if_pos (by simpa using hempty), List.append_cons]
        refine ⟨respects_snoc.mpr ⟨hrespects, hstuck⟩, ⟨fun _ => ?_, fun h => absurd rfl h⟩,
          hkept.snoc rfl rfl (by simp) (by simp) (by simp), by simp, le_rfl⟩
        rw [locked_snoc, hgate]
        simp [Unlocks]
  | _ => simpa [notes, Synchronizing.perform] using h

omit [FloatOps F] in
/-- The flag of the refresh is taken. The request becomes due at once, unless failed polls are
counted. -/
theorem Polls.takeRefresh (h : Polls history s) {s' : Synchronizing F}
    (hservice : s'.service = s.service.takeRefresh) : Polls (history ++ [took]) s' := by
  have hflag : s'.service.refreshRequested = false := by rw [hservice, SyncService.takeRefresh]
  have hgallery : s'.service.gallery =
      if s.service.refreshRequested then s.service.gallery.requestRefresh
      else s.service.gallery := by
    rw [hservice, SyncService.takeRefresh]
  have hattempts : s'.service.gallery.galleryAttempts = s.service.gallery.galleryAttempts := by
    rw [hgallery]
    split
    · unfold GallerySync.requestRefresh
      split <;> rfl
    · rfl
  refine ⟨fun hasking => ?_, fun howed hzero => ?_, fun due hwaiting => ?_, ?_⟩
  · rcases asking_snoc.mp hasking with hrequested | ⟨-, hnot⟩
    · cases hrequested
    · exact absurd rfl hnot
  · rw [hattempts] at hzero
    rw [hgallery]
    split
    · rw [GallerySync.requestRefresh, if_pos hzero]
    · rename_i hnone
      rcases owed_snoc.mp howed with ⟨-, hasking⟩ | ⟨howed, -⟩
      · exact absurd (h.asking hasking) hnone
      · exact h.owed howed hzero
  · rcases waiting_snoc.mp hwaiting with hdelayed | ⟨hwaiting, -⟩
    · cases hdelayed
    obtain ⟨hdue, hfailed⟩ := h.waiting due hwaiting
    refine ⟨?_, hattempts ▸ hfailed⟩
    rw [hgallery]
    split
    · rw [GallerySync.requestRefresh, if_neg hfailed]
      exact hdue
    · exact hdue
  · rw [hattempts]
    exact h.attempts

/-- Taking the request keeps the flags and the history consistent: from here on it is owed. The
two flags are read one after the other, and a request between them is kept. -/
theorem Consistent.takeRefresh (h : Consistent history s) :
    Consistent (history ++ notes w b hash .takeRefresh s)
      (s.perform w b device hash .takeRefresh) := by
  obtain ⟨service, stage, marking, tables, galleryTables⟩ := s
  cases stage with
  | started now =>
    have hbusy : Busy history (⟨service, .started now, marking, tables, galleryTables⟩ :
        Synchronizing F) := h.gate.busy (by simp)
    have htook : Busy (history ++ [took]) (⟨service, .started now, marking, tables,
        galleryTables⟩ : Synchronizing F) := hbusy.snoc (by simp) (by simp) (by simp [Unlocks])
    have hpolls : Polls (history ++ [took]) (⟨service.takeRefresh, .started now, marking, tables,
        galleryTables⟩ : Synchronizing F) := h.polls.takeRefresh rfl
    simp only [notes, Synchronizing.perform]
    rw [List.append_cons]
    refine consistent_goOn ?_ ?_ (hpolls.snoc rfl rfl (by simp) (by simp) (by simp))
      (honest_step w device now) h.time
    · exact respects_snoc.mpr ⟨respects_snoc.mpr ⟨h.respects, trivial⟩, htook.2.1⟩
    · have hnext := htook.snoc (n := attended) (by simp) (by simp) (by simp [Unlocks])
      exact hnext
  | _ => simpa [notes, Synchronizing.perform] using h

omit [FloatOps F] [FloatOps D] [FloatPair F D] in
/-- A call that is not refused writes nothing down, or that a batch is sent. Only requests are
written down. -/
theorem deliveryNotes_cases {op : DeliveryOp} {answer : Except Thrown op.Answer}
    (h : refusedBy op answer = false) :
    deliveryNotes op answer = [] ∨ deliveryNotes op answer = [posted] := by
  cases op with
  | request method path body etag =>
    cases answer with
    | ok r =>
      have hrefuses : refuses r = false := h
      exact Or.inr (by rw [deliveryNotes, hrefuses]; rfl)
    | error e => exact Or.inr rfl
  | _ => exact Or.inl rfl

omit [FloatOps F] [FloatOps D] [FloatPair F D] in
/-- A call that is refused has sent a batch. Only the answer to a request can refuse. -/
theorem deliveryNotes_refused {op : DeliveryOp} {answer : Except Thrown op.Answer}
    (h : refusedBy op answer = true) : deliveryNotes op answer = [posted, refused] := by
  cases op with
  | request method path body etag =>
    cases answer with
    | ok r =>
      have hrefuses : refuses r = true := h
      rw [deliveryNotes, hrefuses]
      rfl
    | error e => cases h
  | _ => cases h

/-- The next call of the delivery. An answer that refuses the token blocks the service, and every
other one goes on. -/
theorem Consistent.deliver (h : Consistent history s) (c : Choice) :
    Consistent (history ++ notes w b hash (.deliver c) s)
      (s.perform w b device hash (.deliver c)) := by
  obtain ⟨service, stage, marking, tables, galleryTables⟩ := s
  have hkept : Consistent (history ++ []) (⟨service, stage, marking, tables, galleryTables⟩ :
      Synchronizing F) := (List.append_nil history).symm ▸ h
  cases stage with
  | delivering now rest =>
    cases rest with
    | call op next =>
      have hbusy : Busy history (⟨service, .delivering now (.call op next), marking, tables,
          galleryTables⟩ : Synchronizing F) := h.gate.busy (by simp)
      have hposted : Busy (history ++ [posted]) (⟨service, .delivering now (.call op next), marking,
          tables, galleryTables⟩ : Synchronizing F) :=
        hbusy.snoc (by simp) (by simp) (by simp [Unlocks])
      have hrespects : Respects Allowed (history ++ [posted]) :=
        respects_snoc.mpr ⟨h.respects, hbusy.2.1⟩
      have hhonest := h.honest now _ rfl (op.answer c tables).1
      simp only [notes, Synchronizing.perform]
      cases hrefused : refusedBy op (op.answer c tables).1 with
      | false =>
        rcases deliveryNotes_cases hrefused with hnotes | hnotes <;> rw [hnotes]
        · rw [List.append_nil]
          exact consistent_goOn h.respects hbusy (h.polls.same rfl rfl) (hhonest.2 hrefused) h.time
        · exact consistent_goOn hrespects hposted
            (h.polls.snoc rfl rfl (by simp) (by simp) (by simp)) (hhonest.2 hrefused) h.time
      | true =>
        rw [deliveryNotes_refused hrefused, hhonest.1 hrefused, List.append_cons]
        have hpolls : Polls (history ++ [posted]) (⟨service, .idle, marking, tables,
            galleryTables⟩ : Synchronizing F) := h.polls.snoc rfl rfl (by simp) (by simp) (by simp)
        exact ⟨respects_snoc.mpr ⟨hrespects, trivial⟩, gate_refused hposted rfl rfl rfl,
          hpolls.snoc rfl rfl (by simp) (by simp) (by simp), by rintro _ _ ⟨⟩, le_rfl⟩
    | _ => exact hkept
  | _ => exact hkept

/-- What other threads write to the storage touches neither the flags nor the history. -/
theorem Consistent.others (h : Consistent history s) (tables : Tables)
    (galleryTables : GalleryTables F) :
    Consistent (history ++ notes w b hash (.others tables galleryTables) s)
      (s.perform w b device hash (.others tables galleryTables)) := by
  rw [notes, List.append_nil]
  exact ⟨h.respects, ⟨h.gate.idle, h.gate.busy⟩, h.polls.same rfl rfl, h.honest, h.time⟩

/-! ## The poll -/

/-- A poll blocks the service just when the token was refused. The other endings leave the service
open, also those by an exception. -/
theorem step_refused {c : GallerySync.Poll} {now : ℤ} {g : GallerySync} {t : GalleryTables F}
    (h : g.requests c now = true) :
    (g.step w b hash c now t).1 = .ok .authenticationBlocked ↔ c.ending w b hash t = .refused := by
  simp only [GallerySync.requests, decide_eq_true_eq] at h
  obtain ⟨hdue, hmetadata⟩ := h
  rw [GallerySync.step, if_neg (by omega), hmetadata, GallerySync.Poll.ending]
  cases c.reply with
  | none => simp [query]
  | some r =>
    simp only [query]
    unfold GallerySync.conclude
    by_cases hrefused : r.status = 401 ∨ r.status = 403
    · simp [hrefused]
    rw [if_neg hrefused, if_neg hrefused]
    by_cases hsame : r.status = 304 ∧ (GalleryRepository.loadMetadata t).version ≠ ""
    · simp [hsame]
    rw [if_neg hsame, if_neg hsame]
    by_cases hnew : r.status = 200
    · rw [if_pos hnew, if_pos hnew]
      cases parseGallery w b r.body r.etag hash with
      | error e => simp
      | ok next =>
        dsimp only
        cases transact c.replace (GalleryRepository.replace D next) t with
        | mk result t' => cases result <;> simp
    · simp [hnew]

/-- The notes of a poll that issued a request. Such a poll is due, and its metadata were read. -/
theorem pollNotes_requests {c : GallerySync.Poll} {now : ℤ} {g : GallerySync}
    {t : GalleryTables F} (h : g.requests c now = true) :
    pollNotes w b hash c now g t = asked now :: match c.ending w b hash t with
      | .refused => [refused]
      | .succeeded => [settled]
      | .failed => [delayed (g.step w b hash c now t).2.1.galleryDue]
      | .broken => [] := by
  simp only [GallerySync.requests, decide_eq_true_eq] at h
  rw [pollNotes, if_neg (by omega), if_neg (by simp [h.2])]

/-- What a poll that issued a request leaves behind. The debt is paid with the request, and the
ending of the poll sets the next delay. -/
theorem Polls.asked {c : GallerySync.Poll} {now : ℤ} {s' : Synchronizing F}
    (h : Polls history s) (hrequest : s.service.gallery.requests c now = true)
    (hgallery : s'.service.gallery = (s.service.gallery.step w b hash c now s.galleryTables).2.1)
    (hflag : s'.service.refreshRequested = s.service.refreshRequested) :
    Polls (history ++ pollNotes w b hash c now s.service.gallery s.galleryTables) s' := by
  have hend := @GallerySync.step_requests F D _ _ _ w b hash c now s.service.gallery
    s.galleryTables hrequest
  rw [pollNotes_requests hrequest, List.append_cons]
  have hasked : Polls (history ++ [SyncNote.asked now]) s :=
    h.snoc rfl rfl (by simp) (by simp) (by simp)
  have hattempts := h.attempts
  cases hending : c.ending w b hash s.galleryTables with
  | refused =>
    rw [hending] at hend
    exact hasked.snoc (hgallery.trans hend) hflag (by simp) (by simp) (by simp)
  | broken =>
    rw [hending] at hend
    rw [List.append_nil]
    exact h.snoc (hgallery.trans hend) hflag (by simp) (by simp) (by simp)
  | succeeded =>
    rw [hending] at hend
    obtain ⟨dirty, hend⟩ := hend
    refine ⟨fun hasking => ?_, fun howed => absurd howed (not_owed_asked (by simp)),
      fun due hwaiting => ?_, ?_⟩
    · rw [hflag]
      exact hasked.asking ((asking_snoc.mp hasking).resolve_left (by simp)).1
    · exact absurd (Or.inl rfl) ((waiting_snoc.mp hwaiting).resolve_left (by simp)).2
    · rw [hgallery, hend]
      exact le_rfl
  | failed =>
    rw [hending] at hend
    obtain ⟨header, hend⟩ := hend
    have hcount : s'.service.gallery.galleryAttempts =
        min (s.service.gallery.galleryAttempts + 1) 30 := by
      rw [hgallery, hend]
      rfl
    refine ⟨fun hasking => ?_, fun howed => absurd howed (not_owed_asked (by simp)),
      fun due hwaiting => ⟨?_, by omega⟩, by omega⟩
    · rw [hflag]
      exact hasked.asking ((asking_snoc.mp hasking).resolve_left (by simp)).1
    · rcases waiting_snoc.mp hwaiting with hdelayed | ⟨-, hnot⟩
      · rw [hgallery]
        exact SyncNote.delayed.inj hdelayed
      · exact absurd (Or.inr (Or.inr ⟨_, rfl⟩)) hnot

/-- What a poll that issued a request may write down, and how it leaves the blocking. A refusal is
noted exactly where it blocks. -/
theorem Busy.asked {c : GallerySync.Poll} {now : ℤ} (h : Busy history s)
    (hrespects : Respects Allowed history) (hpolls : Polls history s)
    (hrequest : s.service.gallery.requests c now = true) {s' : Synchronizing F}
    (hstage : s'.stage = .idle)
    (hblocked : s'.service.blocked =
      decide (c.ending w b hash s.galleryTables = .refused))
    (hflag : s'.service.authenticatedConnection = s.service.authenticatedConnection) :
    Respects Allowed (history ++ pollNotes w b hash c now s.service.gallery s.galleryTables) ∧
      Gate (history ++ pollNotes w b hash c now s.service.gallery s.galleryTables) s' := by
  have hdue : s.service.gallery.galleryDue ≤ now := by
    simp only [GallerySync.requests, decide_eq_true_eq] at hrequest
    exact hrequest.1
  have hasked : Respects Allowed (history ++ [SyncNote.asked now]) :=
    respects_snoc.mpr ⟨hrespects, h.2.1, fun due hwaiting =>
      (hpolls.waiting due hwaiting).1 ▸ hdue⟩
  have hbusy : Busy (history ++ [SyncNote.asked now]) s :=
    h.snoc (by simp) (by simp) (by simp [Unlocks])
  rw [pollNotes_requests hrequest, List.append_cons]
  cases hending : c.ending w b hash s.galleryTables with
  | refused =>
    rw [hending] at hblocked
    exact ⟨respects_snoc.mpr ⟨hasked, trivial⟩, gate_refused hbusy hstage hblocked hflag⟩
  | broken =>
    rw [hending] at hblocked
    rw [List.append_nil]
    exact ⟨hasked, hbusy.rest hstage hblocked⟩
  | succeeded =>
    rw [hending] at hblocked
    have hnext : Busy (history ++ [SyncNote.asked now] ++ [settled]) s :=
      hbusy.snoc (by simp) (by simp) (by simp [Unlocks])
    exact ⟨respects_snoc.mpr ⟨hasked, trivial⟩, hnext.rest hstage hblocked⟩
  | failed =>
    rw [hending] at hblocked
    have hnext : ∀ due, Busy (history ++ [SyncNote.asked now] ++ [delayed due]) s := fun _ =>
      hbusy.snoc (by simp) (by simp) (by simp [Unlocks])
    exact ⟨respects_snoc.mpr ⟨hasked, trivial⟩, (hnext _).rest hstage hblocked⟩

/-- The poll ends the step. A poll that is not due writes nothing down and leaves the state
alone. -/
theorem Consistent.poll (h : Consistent history s) (c : GallerySync.Poll) (elapsed : ℕ) :
    Consistent (history ++ notes w b hash (.poll c elapsed) s)
      (s.perform w b device hash (.poll c elapsed)) := by
  obtain ⟨service, stage, marking, tables, galleryTables⟩ := s
  cases stage with
  | polling now =>
    have hbusy : Busy history (⟨service, .polling now, marking, tables, galleryTables⟩ :
        Synchronizing F) := h.gate.busy (by simp)
    have htime : 0 ≤ now := h.time
    simp only [notes, Synchronizing.perform]
    cases hrequest : service.gallery.requests c (now + elapsed) with
    | true =>
      have hresult := @step_refused F D _ _ _ w b hash c (now + elapsed) service.gallery
        galleryTables hrequest
      have hfree : service.blocked = false := hbusy.1
      have hblocked : (Synchronizing.finish
          (service.gallery.step w b hash c (now + elapsed) galleryTables)
          ⟨service, .polling now, marking, tables, galleryTables⟩).service.blocked =
          decide (c.ending w b hash galleryTables = .refused) := by
        simp only [Synchronizing.finish]
        split
        · rename_i hblocked
          exact (decide_eq_true (hresult.mp hblocked)).symm
        · rename_i hcontinue
          rw [hfree, decide_eq_false (fun hending => hcontinue (hresult.mpr hending))]
      obtain ⟨hrespects, hgate⟩ := hbusy.asked h.respects h.polls hrequest rfl hblocked rfl
      exact ⟨hrespects, hgate, h.polls.asked hrequest rfl rfl, by rintro _ _ ⟨⟩, le_rfl⟩
    | false =>
      obtain ⟨result, hquiet, hresult⟩ := @GallerySync.step_quiet F D _ _ _ w b hash c
        (now + elapsed) service.gallery galleryTables hrequest
      have hfree : service.blocked = false := hbusy.1
      have hend : Synchronizing.finish (service.gallery.step w b hash c (now + elapsed)
          galleryTables) ⟨service, .polling now, marking, tables, galleryTables⟩ =
          ⟨service, .idle, marking, tables, galleryTables⟩ := by
        rw [hquiet]
        simp only [Synchronizing.finish]
      have hpolls : Polls history (⟨service, .idle, marking, tables, galleryTables⟩ :
          Synchronizing F) := h.polls.same rfl rfl
      rw [hend, pollNotes]
      by_cases hearly : now + elapsed < service.gallery.galleryDue
      · rw [if_pos hearly]
        have hnext := hbusy.snoc (n := skipped service.gallery.galleryAttempts) (by simp) (by simp)
          (by simp [Unlocks])
        refine ⟨respects_snoc.mpr ⟨h.respects, fun hzero howed => ?_⟩, hnext.rest rfl hfree,
          hpolls.snoc rfl rfl (by simp) (by simp) (by simp), by simp, le_rfl⟩
        -- A request that was taken has made the poll due at the beginning of time.
        have hdue : service.gallery.galleryDue = 0 := h.polls.owed howed hzero
        omega
      · have hmetadata : c.metadata ≠ .reported := fun hreported => by
          simp [GallerySync.requests, hreported] at hrequest
          omega
        rw [if_neg hearly, if_pos hmetadata, List.append_nil]
        exact ⟨h.respects, hbusy.rest rfl hfree, hpolls, by simp, le_rfl⟩
  | _ => simpa [notes, Synchronizing.perform] using h

/-- Every action keeps the service consistent with its history. There is one lemma for each kind
of action. -/
theorem Consistent.perform {act : SyncAction F} (hnow : ∀ now, act = .start now → 0 ≤ now)
    (h : Consistent history s) :
    Consistent (history ++ notes w b hash act s) (s.perform w b device hash act) := by
  cases act with
  | setToken token => exact h.setToken token
  | start now => exact h.start (hnow now rfl)
  | takeRefresh => exact h.takeRefresh
  | deliver c => exact h.deliver c
  | poll c elapsed => exact h.poll c elapsed
  | request authenticated => exact h.request authenticated
  | mark => exact h.mark
  | others tables galleryTables => exact h.others tables galleryTables

omit [FloatOps F] in
/-- A new service is consistent with the empty history. No note has been written, so nothing is
owed and nothing is locked. -/
theorem consistent_create (tables : Tables) (galleryTables : GalleryTables F) :
    Consistent [] (Synchronizing.create tables galleryTables) where
  respects := respects_nil
  gate := ⟨fun _ => iff_of_false not_since_nil fun h => Bool.false_ne_true h.1,
    fun hbusy => absurd rfl hbusy⟩
  polls := ⟨fun h => absurd h not_since_nil, fun h => absurd h not_since_nil,
    fun _ h => absurd h not_since_nil, le_rfl⟩
  honest := by rintro _ _ ⟨⟩
  time := le_rfl

/-- Whatever the threads do in whatever order: a step is turned away only while its token is
refused, and nothing is sent then; the gallery is not asked for in front of the end of a delay;
and a request that was taken is answered by the next poll, unless an earlier poll failed. -/
theorem run_allowed (tables : Tables) (galleryTables : GalleryTables F)
    (acts : List (SyncAction F)) (hnow : ∀ act ∈ acts, ∀ now, act = .start now → 0 ≤ now) :
    Respects Allowed (transcript (Synchronizing.perform w b device hash) (notes w b hash)
      (Synchronizing.create tables galleryTables) acts) := by
  have hrun : Consistent (transcript (Synchronizing.perform w b device hash) (notes w b hash)
      (Synchronizing.create tables galleryTables) acts)
      (runFrom (Synchronizing.perform w b device hash)
        (Synchronizing.create tables galleryTables) acts) :=
    run_invariant Consistent (fun _ _ _ hinput hinv => hinv.perform hinput)
      (consistent_create tables galleryTables) (throughout_of_forall hnow _)
  exact hrun.respects

/-- The server refuses the token once; the channel connects, and the next step asks again. -/
def refusedOnce : List (SyncAction (Extended ℚ)) :=
  [.setToken "secret", .start 0, .takeRefresh, .deliver ⟨.reported, none, 0, 0⟩,
    .poll { reply := some ⟨401, "", "", ""⟩ } 0, .start 1, .request true, .mark, .start 2,
    .takeRefresh, .deliver ⟨.reported, none, 0, 0⟩, .poll { reply := none } 0]

/-- What that run writes down. -/
def refusedOnceNotes : List SyncNote :=
  transcript (Synchronizing.perform (Wire.plain (D := Extended ℚ)) GalleryWatch.noBlobs "device"
    "hash") (notes (Wire.plain (D := Extended ℚ)) GalleryWatch.noBlobs "hash")
    (Synchronizing.create (Stored.opened .fresh) .empty) refusedOnce

/-- A gallery request that the backend refuses: no other one follows until the channel is
authenticated again. -/
theorem run_allowed_sample : Respects Allowed refusedOnceNotes := by
  refine run_allowed _ _ _ fun act hact now hstart => ?_
  subst hstart
  simp [refusedOnce] at hact
  omega

example : refusedOnceNotes = [newToken, started, took, attended, asked 0, refused, started,
    turnedAway, requested, authenticated, started, took, attended, asked 2, delayed 1002] := by
  decide +kernel

end Actions

end EdgeClient.Sync
