import EdgeClient.Sync.GallerySync

/-!
# The synchronization service

One worker sets the token and takes steps; a step delivers events and then polls the gallery. The
thread of the device channel asks for a refresh at any moment by setting two flags, one after the
other. A refused token blocks the service until another token is set or the channel, which uses the
same token, has been connected.
-/

namespace EdgeClient.Sync

open Basis Storage

variable {F D : Type} [FloatOps F] [FloatOps D] [FloatPair F D]

/-- `validate_token`: a token has 1 to 4096 visible characters. -/
def validateToken (t : String) : Except Thrown Unit :=
  if t = "" ∨ 4096 < t.utf8ByteSize then throw (.invalidArgument "Invalid credential length")
  else if t.toList.any fun c => c.toNat ≤ 32 ∨ 127 ≤ c.toNat then
    throw (.invalidArgument "Credential contains unsupported characters")
  else return ()

/-- `SyncService`, without what it borrows. -/
structure SyncService where
  /-- `token_`, which is also the token of the transport. -/
  token : String := ""
  /-- `blocked_`. -/
  blocked : Bool := false
  /-- `refresh_requested_`. -/
  refreshRequested : Bool := false
  /-- `authenticated_connection_`. -/
  authenticatedConnection : Bool := false
  /-- `gallery_`. -/
  gallery : GallerySync := {}
  deriving DecidableEq, Repr

namespace SyncService

/-- `set_token`: the transport refuses a token that is not valid. -/
def setToken (token : String) (s : SyncService) : Except Thrown SyncService :=
  if token = s.token then return s
  else do
    validateToken token
    return { s with token, blocked := false, gallery := s.gallery.resetPoll }

/-- The start of `step`: an authenticated channel ends the blocking. -/
def begin (s : SyncService) : SyncService :=
  { s with
    authenticatedConnection := false
    blocked := s.blocked && !s.authenticatedConnection }

/-- The early return of `step`. -/
def turnsAway (s : SyncService) : Bool := s.blocked || s.token = ""

/-- The flag of the refresh is taken and handed to the gallery. -/
def takeRefresh (s : SyncService) : SyncService :=
  { s with
    refreshRequested := false
    gallery := if s.refreshRequested then s.gallery.requestRefresh else s.gallery }

end SyncService

/-! ## The threads -/

/-- Where the worker is in a step. Between two of them the flag of the notifications may be set by
another thread. -/
inductive Stage
  /-- Between two steps. -/
  | idle
  /-- In front of the exchange of `refresh_requested_`. -/
  | started (now : ℤ)
  /-- In the delivery of events, of which this remains. -/
  | delivering (now : ℤ) (rest : Delivering SyncResult)
  /-- In front of the poll of the gallery. -/
  | polling (now : ℤ)

/-- The service with the threads that use it. -/
structure Synchronizing (F : Type) where
  /-- The service. -/
  service : SyncService
  /-- Where the worker is. -/
  stage : Stage
  /-- Whether the channel is between its two flags. -/
  marking : Bool
  /-- The tables of the events. -/
  tables : Tables
  /-- The tables of the gallery. -/
  galleryTables : GalleryTables F

/-- What a thread does next. The flags that two threads share are read and written by actions of
their own. -/
inductive SyncAction (F : Type)
  /-- `set_token`, by the worker between two steps. -/
  | setToken (token : String)
  /-- `step` begins with the exchange of `authenticated_connection_`. -/
  | start (now : ℤ)
  /-- The exchange of `refresh_requested_`. -/
  | takeRefresh
  /-- The next call of the delivery. -/
  | deliver (c : Choice)
  /-- The poll, so many milliseconds after the start of the step. -/
  | poll (c : GallerySync.Poll) (elapsed : ℕ)
  /-- `request_gallery_refresh` sets `refresh_requested_`. -/
  | request (authenticated : Bool)
  /-- `request_gallery_refresh` sets `authenticated_connection_`. -/
  | mark
  /-- Other threads use the database. -/
  | others (tables : Tables) (galleryTables : GalleryTables F)

namespace Synchronizing

/-- The worker goes on with what remains of the delivery. A refused token ends the step, and so does
an exception; otherwise the poll is next. -/
def goOn (now : ℤ) (rest : Delivering SyncResult) (s : Synchronizing F) : Synchronizing F :=
  match rest with
  | .call op next => { s with stage := .delivering now (.call op next) }
  | .thrown _ => { s with stage := .idle }
  | .done .continue => { s with stage := .polling now }
  | .done .authenticationBlocked =>
    { s with service := { s.service with blocked := true }, stage := .idle }

/-- The end of a step after the poll. The state of the poll is kept whether it returned or
threw. -/
def finish (result : Except Thrown SyncResult × GallerySync × GalleryTables F)
    (s : Synchronizing F) : Synchronizing F :=
  { s with
    service := { s.service with
      gallery := result.2.1
      blocked := match result.1 with
        | .ok .authenticationBlocked => true
        | _ => s.service.blocked }
    galleryTables := result.2.2
    stage := .idle }

/-- Let a thread act. What is not possible changes nothing. A step of the worker is cut into its
accesses to the flags, the calls of the delivery and the poll. -/
def perform (w : Wire D) (b : Blobs F) (device hash : String) :
    SyncAction F → Synchronizing F → Synchronizing F
  | .setToken token, s =>
    match s.stage, s.service.setToken token with
    | .idle, .ok service => { s with service }
    | _, _ => s
  | .start now, s =>
    match s.stage with
    | .idle =>
      let service := s.service.begin
      { s with service, stage := if service.turnsAway then .idle else .started now }
    | _ => s
  | .takeRefresh, s =>
    match s.stage with
    | .started now =>
      { s with service := s.service.takeRefresh }.goOn now (AttendanceSync.step w device now)
    | _ => s
  | .deliver c, s =>
    match s.stage with
    | .delivering now (.call op next) =>
      let answered := op.answer c s.tables
      { s with tables := answered.2 }.goOn now (next answered.1)
    | _ => s
  | .poll c elapsed, s =>
    match s.stage with
    | .polling now =>
      s.finish (s.service.gallery.step w b hash c (now + elapsed) s.galleryTables)
    | _ => s
  | .request authenticated, s =>
    if s.marking then s
    else { s with
      service := { s.service with refreshRequested := true }
      marking := authenticated }
  | .mark, s =>
    if s.marking then { s with
      service := { s.service with authenticatedConnection := true }
      marking := false }
    else s
  | .others tables galleryTables, s => { s with tables, galleryTables }

/-- The service before its first step. -/
def create (tables : Tables) (galleryTables : GalleryTables F) : Synchronizing F :=
  ⟨{}, .idle, false, tables, galleryTables⟩

end Synchronizing

end EdgeClient.Sync
