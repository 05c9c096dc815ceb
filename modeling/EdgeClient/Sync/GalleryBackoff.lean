import EdgeClient.Basis.Runs
import EdgeClient.Sync.GallerySync

/-!
# Backoff of the gallery

Every end of a poll that the source foresees moves the time of the next one, by a minute after
a success and by the doubled delay after a failure. A gallery that cannot be stored is not
foreseen: the exception leaves the time and the count of failures as they were.
-/

namespace EdgeClient.Sync

open Basis Vision Storage

variable {F D : Type} [FloatOps F] [FloatOps D] [FloatPair F D]
  {w : Wire D} {b : Blobs F} {hash : String}

namespace GallerySync

/-- What became of a poll. A refused poll is no failure, and it does not end a series of
failures. -/
inductive Ending
  /-- Nothing was stored or nothing changed. -/
  | succeeded
  /-- The next poll is delayed. -/
  | failed
  /-- The token was refused. -/
  | refused
  /-- The gallery could not be stored. -/
  | broken
  deriving DecidableEq

/-- The end of a poll that issued a request. It is computed from the answer and from what parsing
and storing make of it. -/
def Poll.ending (w : Wire D) (b : Blobs F) (hash : String) (c : Poll) (t : GalleryTables F) :
    Ending :=
  match c.reply with
  | none => .failed
  | some r =>
    if r.status = 401 ∨ r.status = 403 then .refused
    else if r.status = 304 ∧ (GalleryRepository.loadMetadata t).version ≠ "" then .succeeded
    else if r.status = 200 then
      match parseGallery w b r.body r.etag hash with
      | .error _ => .failed
      | .ok next =>
        match (transact c.replace (GalleryRepository.replace D next) t).1 with
        | .ok () => .succeeded
        | .error _ => .broken
    else .failed

variable {c : Poll} {now : ℤ} {g : GallerySync} {t : GalleryTables F}

/-- A step that issues no request changes nothing. It is not due, or the metadata cannot be
read. -/
theorem step_quiet (h : g.requests c now = false) :
    ∃ result, g.step w b hash c now t = (result, g, t) ∧ result ≠ .ok .authenticationBlocked := by
  unfold step
  by_cases hdue : now < g.galleryDue
  · rw [if_pos hdue]
    exact ⟨_, rfl, by simp⟩
  · rw [if_neg hdue]
    cases hmetadata : c.metadata with
    | reported => simp [requests, hmetadata] at h; omega
    | rolledBack => exact ⟨_, rfl, by simp⟩
    | uncertain => exact ⟨_, rfl, by simp⟩

/-- What a step that issues a request does to the times. An ending by an exception leaves the time
of the next poll as it is. -/
theorem step_requests (h : g.requests c now = true) :
    match c.ending w b hash t with
    | .succeeded => ∃ dirty, (g.step w b hash c now t).2.1 = { g with dirty }.settle c now
    | .failed => ∃ header, (g.step w b hash c now t).2.1 = g.delay w c now header
    | .refused => (g.step w b hash c now t).2.1 = g
    | .broken => (g.step w b hash c now t).2.1 = g := by
  simp only [requests, decide_eq_true_eq] at h
  obtain ⟨hdue, hmetadata⟩ := h
  have hstep : g.step w b hash c now t = match c.reply with
      | none => (.ok .continue, g.delay w c now "", t)
      | some r => conclude w b hash c now r g t := by
    rw [step, if_neg (by omega), hmetadata]
    rfl
  rw [hstep, Poll.ending]
  cases c.reply with
  | none => exact ⟨"", rfl⟩
  | some r =>
    dsimp only
    unfold conclude
    by_cases hrefused : r.status = 401 ∨ r.status = 403
    · simp [hrefused]
    rw [if_neg hrefused, if_neg hrefused]
    by_cases hsame : r.status = 304 ∧ (GalleryRepository.loadMetadata t).version ≠ ""
    · rw [if_pos hsame, if_pos hsame]
      exact ⟨g.dirty, rfl⟩
    rw [if_neg hsame, if_neg hsame]
    by_cases hnew : r.status = 200
    · rw [if_pos hnew, if_pos hnew]
      cases parseGallery w b r.body r.etag hash with
      | error e => exact ⟨r.retryAfter, rfl⟩
      | ok next =>
        dsimp only
        cases transact c.replace (GalleryRepository.replace D next) t with
        | mk result t' =>
          cases result with
          | error e => rfl
          | ok _ => exact ⟨true, rfl⟩
    · rw [if_neg hnew, if_neg hnew]
      exact ⟨r.retryAfter, rfl⟩

/-- A valid gallery that a step downloads is stored. -/
def Poll.Stores (w : Wire D) (b : Blobs F) (hash : String) (c : Poll) (t : GalleryTables F) :
    Prop :=
  ∀ r next, c.reply = some r → r.status = 200 → parseGallery w b r.body r.etag hash = .ok next →
    (transact c.replace (GalleryRepository.replace D next) t).1 = .ok ()

/-- A gallery that is stored breaks no poll. A poll breaks only where a valid gallery is refused
by the database. -/
theorem Poll.Stores.ending (h : c.Stores w b hash t) : c.ending w b hash t ≠ .broken := by
  unfold Poll.ending
  cases hreply : c.reply with
  | none => simp
  | some r =>
    dsimp only
    split_ifs with hrefused hsame hnew
    · simp
    · simp
    · cases hparse : parseGallery w b r.body r.etag hash with
      | error e => simp
      | ok next => simp [h r next hreply hnew hparse]
    · simp

end GallerySync

/-! ## Watching the polls -/

/-- What happens to `GallerySync`. -/
inductive GalleryCall
  /-- `step` at this time. -/
  | step (poll : GallerySync.Poll) (now : ℤ)
  /-- `reset_poll`. -/
  | resetPoll
  /-- `request_refresh`. -/
  | requestRefresh

/-- `GallerySync` with the record of an observer. -/
structure GalleryWatch (F : Type) where
  /-- The downloader. -/
  sync : GallerySync
  /-- The stored gallery. -/
  tables : GalleryTables F
  /-- Failed polls since the last success. -/
  failures : ℕ
  /-- The times in front of which no request is expected. -/
  deadlines : List ℤ

namespace GalleryWatch

open GallerySync

/-- A downloader that has not asked yet. -/
def start (t : GalleryTables F) : GalleryWatch F := ⟨{}, t, 0, []⟩

/-- A second after the request. -/
def pause (c : Poll) (now : ℤ) : ℤ := now + c.requested + 1000

/-- The delay that is due after so many failed polls. -/
def backoff (failures : ℕ) : ℤ := min 300000 (1000 * 2 ^ min failures 9)

/-- What the observer expects after a poll that issued a request. -/
def record (e : Ending) (c : Poll) (now : ℤ) (s : GalleryWatch F) : GalleryWatch F :=
  match e with
  | .refused => s
  | .succeeded => { s with failures := 0, deadlines := pause c now :: s.deadlines }
  | .failed | .broken =>
    { s with
      failures := s.failures + 1
      deadlines := pause c now :: (c.clockNow now + backoff s.failures) :: s.deadlines }

/-- One call. A reset ends all expectations, a notification after a success too. Only a step that
asks the server is recorded. -/
def perform (w : Wire D) (b : Blobs F) (hash : String) :
    GalleryCall → GalleryWatch F → GalleryWatch F
  | .step c now, s =>
    let recorded := if s.sync.requests c now then s.record (c.ending w b hash s.tables) c now else s
    let next := (s.sync.step w b hash c now s.tables).2
    { recorded with sync := next.1, tables := next.2 }
  | .resetPoll, s => { s with sync := s.sync.resetPoll, deadlines := [] }
  | .requestRefresh, s =>
    { s with
      sync := s.sync.requestRefresh
      deadlines := if s.failures = 0 then [] else s.deadlines }

/-- A request is not issued too early. -/
def Patient : GalleryCall → GalleryWatch F → Prop
  | .step c now, s => s.sync.requests c now = true → ∀ d ∈ s.deadlines, d ≤ now
  | _, _ => True

/-- Whether a call is patient is found from the flags and the times of the state. -/
instance (call : GalleryCall) (s : GalleryWatch F) : Decidable (Patient call s) :=
  match call with
  | .step _ _ => inferInstanceAs (Decidable (_ → _))
  | .resetPoll => isTrue trivial
  | .requestRefresh => isTrue trivial

/-- A gallery that a call downloads is stored. -/
def Stores (w : Wire D) (b : Blobs F) (hash : String) : GalleryCall → GalleryWatch F → Prop
  | .step c now, s => s.sync.requests c now = true → c.Stores w b hash s.tables
  | _, _ => True

/-- The downloader waits at least as long as the observer expects. -/
structure Patience (s : GalleryWatch F) : Prop where
  /-- The failed polls are counted. -/
  attempts : s.sync.galleryAttempts = min s.failures 30
  /-- No poll is due before it is expected. -/
  due : ∀ d ∈ s.deadlines, d ≤ s.sync.galleryDue

omit [FloatOps F] in
/-- A watch that was just started has planned no request. -/
theorem patience_start (t : GalleryTables F) : (start t).Patience := ⟨rfl, by simp [start]⟩

/-- The delay that the code computes, with its bound on the failures, is the one that is due. -/
theorem backoffDelay_failures {failures : ℕ} :
    backoffDelay (min failures 30 : ℕ) = backoff failures := by
  have hexponent : (max 0 (min ((min failures 30 : ℕ) : ℤ) 9)).toNat = min failures 9 := by omega
  rw [backoffDelay, hexponent, backoff]

/-- The delay after any number of failed polls is at least one second. -/
theorem backoff_bounds (failures : ℕ) : 1000 ≤ backoff failures := by
  rw [← backoffDelay_failures]
  exact (backoffDelay_bounds _).1

variable {s : GalleryWatch F}

/-- A poll that issued a request and could store its gallery moves the next one behind
everything that is expected. -/
theorem Patience.poll (h : s.Patience) (hrequest : s.sync.requests c now = true)
    (hstores : c.Stores w b hash s.tables) : (perform w b hash (.step c now) s).Patience := by
  have hdue : s.sync.galleryDue ≤ now := by
    simp only [requests, decide_eq_true_eq] at hrequest
    exact hrequest.1
  have hend := @step_requests F D _ _ _ w b hash c now s.sync s.tables hrequest
  have hbroken := hstores.ending
  simp only [perform, hrequest, if_true]
  cases hending : c.ending w b hash s.tables with
  | succeeded =>
    rw [hending] at hend
    obtain ⟨dirty, hend⟩ := hend
    refine ⟨by simp [hend, settle, record], fun d hd => ?_⟩
    have hcases : d = pause c now ∨ d ∈ s.deadlines := by simpa [record] using hd
    simp only [hend, settle, Poll.clockNow]
    obtain rfl | hd := hcases
    · simp only [pause]
      omega
    · have hle := h.due d hd
      omega
  | failed =>
    rw [hending] at hend
    obtain ⟨header, hend⟩ := hend
    have hretry : c.clockNow now + max (backoffDelay s.sync.galleryAttempts)
        (serverDelay w (c.clockNow now) header) ≤
        retryAt w (c.clockNow now) s.sync.galleryAttempts header c.jitter := le_retryAt
    have hdelay : backoffDelay s.sync.galleryAttempts = backoff s.failures := by
      rw [h.attempts, ← backoffDelay_failures]
    have hsecond := backoff_bounds s.failures
    refine ⟨?_, fun d hd => ?_⟩
    · simp only [hend, delay, record, h.attempts]
      omega
    · have hcases : d = pause c now ∨ d = c.clockNow now + backoff s.failures ∨
          d ∈ s.deadlines := by simpa [record] using hd
      simp only [hend, delay]
      simp only [Poll.clockNow] at hretry hcases ⊢
      obtain rfl | rfl | hd := hcases
      · simp only [pause]
        omega
      · omega
      · have hle := h.due d hd
        omega
  | refused =>
    rw [hending] at hend
    exact ⟨by simpa [hend, record] using h.attempts, by simpa [hend, record] using h.due⟩
  | broken => exact absurd hending hbroken

/-- Every call keeps the patience, when valid galleries are stored. The hypothesis excludes the
one ending that would break it: a replacement that throws skips the delay. -/
theorem Patience.perform {call : GalleryCall} (hstores : Stores w b hash call s)
    (h : s.Patience) : (perform w b hash call s).Patience := by
  cases call with
  | step c now =>
    cases hrequest : s.sync.requests c now with
    | true => exact h.poll hrequest (hstores hrequest)
    | false =>
      obtain ⟨result, hquiet, -⟩ := @step_quiet F D _ _ _ w b hash c now s.sync s.tables hrequest
      constructor
      · simpa [GalleryWatch.perform, hrequest, hquiet] using h.attempts
      · simpa [GalleryWatch.perform, hrequest, hquiet] using h.due
  | resetPoll => exact ⟨h.attempts, by simp [GalleryWatch.perform]⟩
  | requestRefresh =>
    have hattempts := h.attempts
    by_cases hfailures : s.failures = 0
    · constructor
      · simp only [GalleryWatch.perform, requestRefresh]
        split <;> simpa using hattempts
      · simp [GalleryWatch.perform, hfailures]
    · have hkept : s.sync.requestRefresh = s.sync := by
        rw [requestRefresh, if_neg (by omega)]
      constructor
      · simpa [GalleryWatch.perform, hkept] using hattempts
      · simpa [GalleryWatch.perform, hkept, hfailures] using h.due

omit [FloatOps F] in
/-- A patient downloader issues no request too early. -/
theorem Patience.patient (h : s.Patience) (call : GalleryCall) : Patient call s := by
  cases call with
  | step c now =>
    intro hrequest d hd
    simp only [requests, decide_eq_true_eq] at hrequest
    exact (h.due d hd).trans hrequest.1
  | resetPoll => trivial
  | requestRefresh => trivial

/-- In a run that stores every valid gallery it downloads, every failed poll backs off. -/
theorem polls_back_off (t : GalleryTables F) (calls : List GalleryCall)
    (h : Throughout (perform w b hash) (Stores w b hash) (start t) calls) :
    Throughout (perform w b hash) Patient (start t) calls :=
  throughout_of_maintains (fun _ _ hstores hpatience => hpatience.perform hstores)
    (fun call _ hpatience => hpatience.patient call) (patience_start t) h

/-! ## A gallery that cannot be stored -/

/-- A gallery without templates. -/
def emptyDocument : String :=
  "\x7b\"schema_version\":1,\"embedding_dimension\":512,\"embedding_encoding\":\"f32le-base64\"," ++
  "\"embedding_model\":\"insightface/w600k_r50\",\"model_sha256\":\"c0ffee\"," ++
  "\"gallery_version\":\"v1\",\"templates\":[]\x7d"

/-- The members of the document. -/
def emptyMembers : JsonObject (Extended ℚ) :=
  [("schema_version", .number (lit 1)), ("embedding_dimension", .number (lit 512)),
    text "embedding_encoding" "f32le-base64", text "embedding_model" "insightface/w600k_r50",
    text "model_sha256" "c0ffee", text "gallery_version" "v1", ("templates", .array [])]

/-- The wire of the small runs: it reads that document. -/
def documentWire : Wire (Extended ℚ) :=
  { Wire.plain with parse := fun text => if text = emptyDocument then some emptyMembers else none }

/-- Without templates there are no binary data to read. -/
def noBlobs : Blobs (Extended ℚ) := ⟨fun _ => none, fun _ _ _ _ => lit 0⟩

/-- A poll that downloads the document. -/
def download (replace : Outcome) : Poll :=
  { reply := some ⟨200, emptyDocument, "etag", ""⟩, replace }

/-- The document is valid, and its gallery can be stored. Both conditions are evaluated on the
document. -/
theorem document_stored : (download .reported).Stores documentWire noBlobs "c0ffee" .empty := by
  intro r next hreply _ hparse
  cases hreply
  have hcheck : (match parseGallery documentWire noBlobs emptyDocument "etag" "c0ffee" with
      | .ok next =>
        (transact .reported (GalleryRepository.replace (Extended ℚ) next) .empty).1.toBool
      | .error _ => false) = true := by
    decide +kernel
  have hparsed : parseGallery documentWire noBlobs emptyDocument "etag" "c0ffee" = .ok next :=
    hparse
  rw [hparsed] at hcheck
  dsimp only at hcheck
  change (transact .reported (GalleryRepository.replace (Extended ℚ) next) .empty).1 = .ok ()
  cases hresult : (transact .reported (GalleryRepository.replace (Extended ℚ) next) .empty).1 with
  | error e =>
    rw [hresult] at hcheck
    cases hcheck
  | ok _ => rfl

/-- A gallery is stored, and the next poll waits. -/
theorem polls_back_off_sample :
    Throughout (perform documentWire noBlobs "c0ffee") Patient (start .empty)
      [.step (download .reported) 0, .step (download .reported) 500] := by
  apply polls_back_off
  refine ⟨fun _ => document_stored, fun hrequest => ?_, trivial⟩
  exact absurd hrequest (by decide +kernel)

/-- The disk is full: a millisecond later the gallery is downloaded again. -/
theorem full_disk_downloads_again :
    ¬ Throughout (perform documentWire noBlobs "c0ffee") Patient (start .empty)
      [.step (download .rolledBack) 0, .step (download .rolledBack) 1] := by
  decide +kernel

end GalleryWatch

end EdgeClient.Sync
