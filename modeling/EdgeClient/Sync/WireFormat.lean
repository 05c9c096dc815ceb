import EdgeClient.Storage.OutboxRepository
import EdgeClient.Vision.AttendanceProcessor

/-!
# The wire format

Events travel as JSON objects. An event becomes a record with a payload once, when it is
staged; a batch is made of the stored payloads, each of which is read again and compared
with its row. The answer of the server is a list of receipts. Reading and writing JSON,
the calendar and the random generator belong to the platform.
-/

namespace EdgeClient.Sync

open Basis Vision Storage

/-- A JSON value. -/
inductive Json (D : Type) : Type
  /-- `null`. -/
  | null
  /-- `true` or `false`. -/
  | bool (b : Bool)
  /-- A number. -/
  | number (x : D)
  /-- A string. -/
  | string (s : String)
  /-- An array. -/
  | array (elements : List (Json D))
  /-- An object: its members by name. -/
  | object (members : List (String × Json D))

/-- The members of a JSON object. -/
abbrev JsonObject (D : Type) := List (String × Json D)

/-- What the platform does with texts. -/
structure Wire (D : Type) where
  /-- `JsonObject::Parse`, which throws when the text is not a JSON object. -/
  parse : String → Option (JsonObject D)
  /-- `JsonObject::Stringify`. -/
  stringify : JsonObject D → String
  /-- `_gmtime64_s` and `std::put_time` up to the seconds. -/
  calendar : ℤ → Option String
  /-- `std::get_time` and `_mkgmtime64` for the date of an HTTP header. -/
  httpDate : String → Option ℤ

variable {F D : Type} [FloatOps F] [FloatOps D] [FloatPair F D] (w : Wire D)

/-- `JsonObject::Parse`. -/
def parseObject (text : String) : Except Thrown (JsonObject D) :=
  match w.parse text with
  | some o => return o
  | none => throw (.runtimeError "Invalid JSON object")

/-- `GetNamedString`. -/
def getNamedString (o : JsonObject D) (key : String) : Except Thrown String :=
  match o.lookup key with
  | some (.string s) => return s
  | _ => throw (.runtimeError "Missing JSON string")

/-- `GetNamedNumber`. -/
def getNamedNumber (o : JsonObject D) (key : String) : Except Thrown D :=
  match o.lookup key with
  | some (.number x) => return x
  | _ => throw (.runtimeError "Missing JSON number")

/-- `GetNamedArray`. -/
def getNamedArray (o : JsonObject D) (key : String) : Except Thrown (List (Json D)) :=
  match o.lookup key with
  | some (.array elements) => return elements
  | _ => throw (.runtimeError "Missing JSON array")

/-- `GetObject`. -/
def getObject : Json D → Except Thrown (JsonObject D)
  | .object members => return members
  | _ => throw (.runtimeError "Not a JSON object")

/-- Equality of numbers. -/
def numberEq (x y : D) : Bool := x ≤ y ∧ y ≤ x

/-- Whether a text has one of the characters that end a header line. -/
def hasControl (s : String) : Bool :=
  s.toList.any fun c => c.toNat = 13 ∨ c.toNat = 10 ∨ c.toNat = 0

/-- Whether a text may be an identifier. -/
def validId (s : String) : Bool := ¬ (s = "" ∨ 256 < s.utf8ByteSize ∨ hasControl s)

/-- `id`. -/
def checkId (s : String) : Except Thrown Unit :=
  if validId s then return () else throw (.invalidArgument "Invalid identifier")

/-- `number`: a member that must be finite. -/
def number (key : String) (x : D) : Except Thrown (String × Json D) :=
  if isFinite x then return (key, .number x)
  else throw (.invalidArgument "Non-finite record field")

/-- `text`. -/
def text (key s : String) : String × Json D := (key, .string s)

/-! ## Identifiers and times -/

/-- `0xffffffffffff`. -/
def maxUuidMs : ℤ := 0xffffffffffff

/-- The bytes of an identifier: the time in the first six, then the random bytes with
version and variant. -/
def uuidBytes (random : Fin 16 → UInt8) (ms : ℕ) : List UInt8 :=
  (List.finRange 16).map fun i =>
    if i.val < 6 then UInt8.ofNat (ms / 256 ^ (5 - i.val))
    else if i.val = 6 then (random i &&& 15) ||| 0x70
    else if i.val = 8 then (random i &&& 63) ||| 0x80
    else random i

/-- Two hexadecimal digits. -/
def hexByte (b : UInt8) : List Char :=
  [Nat.digitChar (b.toNat / 16), Nat.digitChar (b.toNat % 16)]

/-- `uuid_v7`: a system without random bytes throws. The dashes stand in front of the bytes four,
six, eight and ten. -/
def uuidV7 (random : Option (Fin 16 → UInt8)) (ms : ℤ) : Except Thrown String :=
  if ms < 0 ∨ maxUuidMs < ms then throw (.invalidArgument "UUID timestamp out of range")
  else match random with
    | none => throw (.runtimeError "CNG random failed")
    | some random =>
      let digits := (uuidBytes random ms.toNat).map hexByte
      let dashed := (digits.zipIdx.map fun (d, i) =>
        if i = 4 ∨ i = 6 ∨ i = 8 ∨ i = 10 then '-' :: d else d).flatten
      return String.ofList dashed

/-- Three digits with leading zeros. -/
def threeDigits (n : ℕ) : String :=
  String.ofList [Nat.digitChar (n / 100 % 10), Nat.digitChar (n / 10 % 10), Nat.digitChar (n % 10)]

/-- `timestamp`. -/
def timestamp (ms : ℤ) : Except Thrown String :=
  if ms ≤ 0 then throw (.invalidArgument "Occurrence time required")
  else match w.calendar (ms.toNat / 1000 : ℕ) with
    | none => throw (.invalidArgument "UTC time out of range")
    | some seconds => return seconds ++ "." ++ threeDigits (ms.toNat % 1000) ++ "Z"

/-! ## Events -/

/-- What an event says. The identifiers of track and frame may use all 64 bits, which is why they
are written as text. -/
structure AttendanceObservation (F : Type) where
  /-- Wall-clock time of the match. -/
  occurredAtUtcMs : ℤ
  /-- Camera frame of the match. -/
  cameraFrameId : ℕ
  /-- Track of the face. -/
  trackId : ℕ
  /-- Matched identity. -/
  identityId : String
  /-- Its similarity. -/
  similarity : F
  /-- Distance to the next identity. -/
  similarityMargin : F
  /-- Median of the liveness scores. -/
  padMedianPReal : F
  /-- Not used any more. -/
  padMedianMarginPReal : F

/-- The members of the payload of an event. The identifiers of track and frame are written as
decimal texts, and the scores must be finite. -/
def eventMembers (D : Type) [FloatOps D] [FloatPair F D] (e : AttendanceObservation F)
    (device version id occurredAt : String) : Except Thrown (JsonObject D) := do
  let similarity ← number "similarity" (widen e.similarity : D)
  let margin ← number "similarity_margin" (widen e.similarityMargin : D)
  let pad ← number "pad_median_p_real" (widen e.padMedianPReal : D)
  let padMargin ← number "pad_median_margin_p_real" (widen e.padMedianMarginPReal : D)
  return [("schema_version", .number (lit 1)), text "event_id" id, text "occurred_at" occurredAt,
    text "device_id" device, text "identity_id" e.identityId, text "gallery_version" version,
    text "runtime_version" "edge-v1", text "track_id" (toString e.trackId),
    text "camera_frame_id" (toString e.cameraFrameId), similarity, margin, pad, padMargin]

/-- `envelope`: the record of an event. The checks and the draws are made in the order of the
source, each with its own exception. -/
def envelope (random : Option (Fin 16 → UInt8)) (e : AttendanceObservation F)
    (device version : String) : Except Thrown AttendanceRecord := do
  checkId device
  checkId version
  checkId e.identityId
  let id ← uuidV7 random e.occurredAtUtcMs
  let occurredAt ← timestamp w e.occurredAtUtcMs
  let members ← eventMembers D e device version id occurredAt
  return { id, payload := w.stringify members, occurredMs := e.occurredAtUtcMs }

/-! ## Batches and receipts -/

/-- The event of a row, read again from its payload. -/
def batchEvent (device : String) (r : AttendanceRecord) : Except Thrown (Json D) := do
  let event ← parseObject w r.payload
  let version ← getNamedNumber event "schema_version"
  let eventId ← getNamedString event "event_id"
  let eventDevice ← getNamedString event "device_id"
  if numberEq version (lit 1) = false ∨ eventId ≠ r.id ∨ eventDevice ≠ device then
    throw (.invalidArgument "Outbox payload does not match its event/device metadata")
  return .object event

/-- `batch_payload`. -/
def batchPayload (device : String) (rows : List AttendanceRecord) : Except Thrown String := do
  checkId device
  let events ← rows.mapM (batchEvent w device)
  return w.stringify
    [text "device_id" device, ("schema_version", .number (lit 1)), ("events", .array events)]

/-- Read one receipt; `seen` are the receipts before it. A receipt must name an event of the
batch, and none that has a receipt already. -/
def parseReceipt (sent : List AttendanceRecord) (seen : List DeliveryReceipt) (v : Json D) :
    Except Thrown (List DeliveryReceipt) := do
  let a ← getObject v
  let eventId ← getNamedString a "event_id"
  let disposition ← getNamedString a "status"
  if eventId ∉ sent.map (·.id) ∨ eventId ∈ seen.map (·.eventId) ∨
      OutboxRepository.validDisposition disposition = false then
    throw (.invalidArgument "Invalid ACK member")
  return seen ++ [⟨eventId, disposition⟩]

/-- `parse_receipts`. -/
def parseReceipts (json : String) (sent : List AttendanceRecord) :
    Except Thrown (List DeliveryReceipt) := do
  let o ← parseObject w json
  let version ← getNamedNumber o "schema_version"
  if numberEq version (lit 1) = false then throw (.invalidArgument "Invalid ACK schema")
  let list ← getNamedArray o "results"
  if sent.length < list.length then throw (.invalidArgument "Too many ACKs")
  list.foldlM (parseReceipt sent) []

/-! ## What a document must hold to be read -/

section Reading

variable {w : Wire D} {o : JsonObject D} {key : String}

omit [FloatOps D] in
/-- A text is accepted as an object if the platform reads it as one. -/
theorem parseObject_ok {json : String} : parseObject w json = .ok o ↔ w.parse json = some o := by
  unfold parseObject
  cases w.parse json with
  | none => simp [throw, throwThe, MonadExceptOf.throw]
  | some o' => simp [pure, Except.pure]

omit [FloatOps D] in
/-- A string is read if the member is one. A member that is missing or of another kind throws. -/
theorem getNamedString_ok {s : String} :
    getNamedString o key = .ok s ↔ o.lookup key = some (.string s) := by
  unfold getNamedString
  split
  · rename_i s' hlookup
    simp [hlookup, pure, Except.pure]
  · rename_i hother
    refine iff_of_false ?_ (hother s)
    simp [throw, throwThe, MonadExceptOf.throw]

omit [FloatOps D] in
/-- A number is read if the member is one. A member that is missing or of another kind throws. -/
theorem getNamedNumber_ok {x : D} :
    getNamedNumber o key = .ok x ↔ o.lookup key = some (.number x) := by
  unfold getNamedNumber
  split
  · rename_i x' hlookup
    simp [hlookup, pure, Except.pure]
  · rename_i hother
    refine iff_of_false ?_ (hother x)
    simp [throw, throwThe, MonadExceptOf.throw]

omit [FloatOps D] in
/-- An array is read if the member is one. A member that is missing or of another kind throws. -/
theorem getNamedArray_ok {list : List (Json D)} :
    getNamedArray o key = .ok list ↔ o.lookup key = some (.array list) := by
  unfold getNamedArray
  split
  · rename_i list' hlookup
    simp [hlookup, pure, Except.pure]
  · rename_i hother
    refine iff_of_false ?_ (hother list)
    simp [throw, throwThe, MonadExceptOf.throw]

omit [FloatOps D] in
/-- An object is read if the value is one. -/
theorem getObject_ok {v : Json D} : getObject v = .ok o ↔ v = .object o := by
  unfold getObject
  split
  · simp [pure, Except.pure]
  · rename_i hother
    refine iff_of_false ?_ (hother o)
    simp [throw, throwThe, MonadExceptOf.throw]

/-- The check accepts exactly the valid identifiers. -/
theorem checkId_ok {s : String} : checkId s = .ok () ↔ validId s = true := by
  unfold checkId
  split
  · rename_i hvalid
    exact iff_of_true rfl hvalid
  · rename_i hinvalid
    exact iff_of_false (by simp [throw, throwThe, MonadExceptOf.throw]) hinvalid

end Reading

/-! ## A small wire -/

/-- The members of the payload of an event in `Wire.plain`. -/
def plainEvent (id device : List Char) : JsonObject D :=
  [("schema_version", .number (lit 1)), text "event_id" (String.ofList id),
    text "device_id" (String.ofList device)]

/-- One receipt in `Wire.plain`. -/
def plainReceipt (id : List Char) : Json D :=
  .object [text "event_id" (String.ofList id), text "status" "accepted"]

/-- A wire for small runs: the payload of an event is its identifier and its device, joined
by `@`, and a list of identifiers is an answer that accepts them. -/
def Wire.plain : Wire D where
  parse text :=
    if text.toList = [] then some [("schema_version", .number (lit 1)), ("results", .array [])]
    else match text.toList.splitOn '@' with
      | [id, device] => some (plainEvent id device)
      | _ => some [("schema_version", .number (lit 1)),
          ("results", .array ((text.toList.splitOn ',').map plainReceipt))]
  stringify o :=
    match o.lookup "event_id", o.lookup "device_id" with
    | some (.string id), some (.string device) => id ++ "@" ++ device
    | _, _ => "batch"
  calendar seconds := some (toString seconds.toNat)
  httpDate _ := none

end EdgeClient.Sync
