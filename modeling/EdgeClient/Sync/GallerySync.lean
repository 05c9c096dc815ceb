import EdgeClient.Sync.AttendanceSync
import EdgeClient.Sync.GalleryDocument

/-!
# The download of galleries

The worker asks the server for the gallery from time to time. A request names the stored
version, so that the server may answer that nothing changed. Every end of a poll sets the
time of the next one, except two: a refused token, and a gallery that cannot be stored.
-/

namespace EdgeClient.Sync

open Basis Vision Storage

variable {F D : Type} [FloatOps F] [FloatOps D] [FloatPair F D]

/-- What `GallerySync` remembers. -/
structure GallerySync where
  /-- `gallery_due_`. -/
  galleryDue : ℤ := 0
  /-- `gallery_attempts_`. -/
  galleryAttempts : ℤ := 0
  /-- `dirty_`. -/
  dirty : Bool := false
  deriving DecidableEq, Repr

namespace GallerySync

/-- `reset_poll`. -/
def resetPoll (g : GallerySync) : GallerySync := { g with galleryDue := 0 }

/-- `request_refresh`: a notification never bypasses the delay after a failure. -/
def requestRefresh (g : GallerySync) : GallerySync :=
  if g.galleryAttempts = 0 then { g with galleryDue := 0 } else g

/-- How the calls of a poll end. -/
structure Poll where
  /-- The end of `load_metadata`. -/
  metadata : Outcome := .reported
  /-- The answer of the server; none when the request or the answer is lost. -/
  reply : Option HttpResponse
  /-- The end of the transaction of `replace`. -/
  replace : Outcome := .reported
  /-- Milliseconds from the start of the step to the request. -/
  requested : ℕ := 0
  /-- Milliseconds from the request to the next look at the clock. -/
  waited : ℕ := 0
  /-- The random part of a delay. -/
  jitter : ℕ := 0

/-- `clock.now()` after the request. -/
def Poll.clockNow (c : Poll) (now : ℤ) : ℤ := now + c.requested + c.waited

/-- A failed poll delays the next one. -/
def delay (w : Wire D) (c : Poll) (now : ℤ) (retryAfter : String) (g : GallerySync) : GallerySync :=
  { g with
    galleryDue := retryAt w (c.clockNow now) g.galleryAttempts retryAfter c.jitter
    galleryAttempts := min (g.galleryAttempts + 1) 30 }

/-- A poll that succeeded. -/
def settle (c : Poll) (now : ℤ) (g : GallerySync) : GallerySync :=
  { g with galleryDue := c.clockNow now + 60000, galleryAttempts := 0 }

/-- Act on the answer to a poll. An exception of the repository leaves the step before the times
are set. -/
def conclude (w : Wire D) (b : Blobs F) (hash : String) (c : Poll) (now : ℤ) (r : HttpResponse)
    (g : GallerySync) (t : GalleryTables F) :
    Except Thrown SyncResult × GallerySync × GalleryTables F :=
  if r.status = 401 ∨ r.status = 403 then (.ok .authenticationBlocked, g, t)
  else if r.status = 304 ∧ (GalleryRepository.loadMetadata t).version ≠ "" then
    (.ok .continue, g.settle c now, t)
  else if r.status = 200 then
    match parseGallery w b r.body r.etag hash with
    | .error _ => (.ok .continue, g.delay w c now r.retryAfter, t)
    | .ok next =>
      match transact c.replace (GalleryRepository.replace D next) t with
      | (.error e, t') => (.error e, g, t')
      | (.ok (), t') => (.ok .continue, { g with dirty := true }.settle c now, t')
  else (.ok .continue, g.delay w c now r.retryAfter, t)

/-- Whether a step issues a request. -/
def requests (c : Poll) (now : ℤ) (g : GallerySync) : Bool :=
  g.galleryDue ≤ now ∧ c.metadata = .reported

/-- `step`. A poll that is not due does nothing, and a request that fails delays the next one. -/
def step (w : Wire D) (b : Blobs F) (hash : String) (c : Poll) (now : ℤ) (g : GallerySync)
    (t : GalleryTables F) : Except Thrown SyncResult × GallerySync × GalleryTables F :=
  if now < g.galleryDue then (.ok .continue, g, t)
  else match query c.metadata GalleryRepository.loadMetadata t with
    | (.error e, t') => (.error e, g, t')
    | (.ok _, t') =>
      match c.reply with
      | none => (.ok .continue, g.delay w c now "", t')
      | some r => conclude w b hash c now r g t'

end GallerySync

end EdgeClient.Sync
