import EdgeClient.Basis.CivilTime
import EdgeClient.Basis.StatefulPrograms
import EdgeClient.Sync.WireFormat

/-!
# What is written is read back

The payload of an event is read with the same readers that batches and receipts use, with
a reader of decimal texts and a reader of moments in UTC. It gives back what the event
said. A batch can be made exactly when each payload in it still names its row and the
device, and then it lists the payloads in the order of the rows.
-/

namespace EdgeClient.Sync

open Basis Vision Storage

variable {F D : Type} [FloatOps F] [FloatOps D] [FloatPair F D] {w : Wire D}

/-! ## The platform -/

/-- `JsonObject::Parse` reads an object back from what `JsonObject::Stringify` wrote. -/
def Wire.Inverts (w : Wire D) (o : JsonObject D) : Prop := w.parse (w.stringify o) = some o

/-- `_gmtime64_s` and `std::put_time` write moments of the civil calendar. -/
def Wire.CivilCalendar (w : Wire D) : Prop :=
  ∀ seconds text, w.calendar seconds = some text →
    ∃ t : CivilTime, (t.seconds : ℤ) = seconds ∧ text = String.ofList t.text

/-! ## Reading an event -/

/-- What a payload says. Nothing of the record itself is among it: the identifier and the version
of the format are not. -/
structure EventContent (D : Type) where
  /-- Matched identity. -/
  identityId : String
  /-- Version of the gallery. -/
  galleryVersion : String
  /-- The device. -/
  deviceId : String
  /-- Track of the face. -/
  trackId : ℕ
  /-- Camera frame of the match. -/
  cameraFrameId : ℕ
  /-- Similarity. -/
  similarity : D
  /-- Distance to the next identity. -/
  similarityMargin : D
  /-- Median of the liveness scores. -/
  padMedianPReal : D
  /-- Not used any more. -/
  padMedianMarginPReal : D
  /-- Time of the match in milliseconds. -/
  occurredMs : ℤ

/-- A member that is a number in decimal digits. -/
def readDecimal (o : JsonObject D) (key : String) : Option ℕ := do
  readDigits 10 0 (← (getNamedString o key).toOption).toList

/-- Read a payload. A payload in which a member is missing or of another kind is not read. The
schema, the version of the runtime and the identifier of the event are not read. -/
def readEvent (w : Wire D) (payload : String) : Option (EventContent D) := do
  let o ← w.parse payload
  let occurredAt ← (getNamedString o "occurred_at").toOption
  return {
    identityId := ← (getNamedString o "identity_id").toOption
    galleryVersion := ← (getNamedString o "gallery_version").toOption
    deviceId := ← (getNamedString o "device_id").toOption
    trackId := ← readDecimal o "track_id"
    cameraFrameId := ← readDecimal o "camera_frame_id"
    similarity := ← (getNamedNumber o "similarity").toOption
    similarityMargin := ← (getNamedNumber o "similarity_margin").toOption
    padMedianPReal := ← (getNamedNumber o "pad_median_p_real").toOption
    padMedianMarginPReal := ← (getNamedNumber o "pad_median_margin_p_real").toOption
    occurredMs := Int.ofNat (← CivilTime.readUtc occurredAt) }

/-- What the payload of an event is to say. The scores are widened to the numbers of JSON, and the
time is in milliseconds. -/
def AttendanceObservation.content (D : Type) [FloatPair F D] (e : AttendanceObservation F)
    (device version : String) : EventContent D where
  identityId := e.identityId
  galleryVersion := version
  deviceId := device
  trackId := e.trackId
  cameraFrameId := e.cameraFrameId
  similarity := widen e.similarity
  similarityMargin := widen e.similarityMargin
  padMedianPReal := widen e.padMedianPReal
  padMedianMarginPReal := widen e.padMedianMarginPReal
  occurredMs := e.occurredAtUtcMs

/-! ## Writing an event -/

/-- The members that `envelope` writes. -/
def envelopeMembers (w : Wire D) (random : Option (Fin 16 → UInt8)) (e : AttendanceObservation F)
    (device version : String) : Except Thrown (JsonObject D) := do
  let id ← uuidV7 random e.occurredAtUtcMs
  let occurredAt ← timestamp w e.occurredAtUtcMs
  eventMembers D e device version id occurredAt

omit [FloatOps F] in
/-- The payload of a record is the text of the members. The checks in front of them have no part
in the payload. -/
theorem envelope_ok {random : Option (Fin 16 → UInt8)} {e : AttendanceObservation F}
    {device version : String} {r : AttendanceRecord}
    (h : envelope w random e device version = .ok r) :
    ∃ o, envelopeMembers w random e device version = .ok o ∧ r.payload = w.stringify o := by
  unfold envelope at h
  obtain ⟨-, -, h⟩ := bind_eq_ok.mp h
  obtain ⟨-, -, h⟩ := bind_eq_ok.mp h
  obtain ⟨-, -, h⟩ := bind_eq_ok.mp h
  obtain ⟨id, hid, h⟩ := bind_eq_ok.mp h
  obtain ⟨occurredAt, htime, h⟩ := bind_eq_ok.mp h
  obtain ⟨o, ho, h⟩ := bind_eq_ok.mp h
  cases h
  exact ⟨o, bind_eq_ok.mpr ⟨id, hid, bind_eq_ok.mpr ⟨occurredAt, htime, ho⟩⟩, rfl⟩

omit [FloatOps D] in
/-- The text of a time in range reads as the time. The milliseconds are cut off first and appended
as three digits. -/
theorem timestamp_reads (hcalendar : w.CivilCalendar) {ms : ℤ} {text : String}
    (h : timestamp w ms = .ok text) : 0 < ms ∧ CivilTime.readUtc text = some ms.toNat := by
  unfold timestamp at h
  split at h
  · cases h
  · rename_i hpositive
    split at h
    · cases h
    · rename_i seconds hseconds
      cases h
      obtain ⟨t, ht, rfl⟩ := hcalendar _ _ hseconds
      have hms : ms.toNat % 1000 < 1000 := Nat.mod_lt _ (by decide)
      have htext : String.ofList t.text ++ "." ++ threeDigits (ms.toNat % 1000) ++ "Z" =
          String.ofList (t.text ++ '.' :: (fixedText 3 (ms.toNat % 1000) ++ ['Z'])) := by
        rw [← String.toList_inj]
        simp [threeDigits, fixedText, fixedDigits]
      rw [htext, CivilTime.readUtc_text t hms]
      refine ⟨by omega, congrArg some ?_⟩
      omega

omit [FloatOps F] in
/-- The members are those that the event gives, under the keys of the format. The four scores have
passed their checks, and nothing is added or left out. -/
theorem eventMembers_ok {e : AttendanceObservation F} {device version id occurredAt : String}
    {o : JsonObject D} (h : eventMembers D e device version id occurredAt = .ok o) :
    o = [("schema_version", .number (lit 1)), text "event_id" id, text "occurred_at" occurredAt,
      text "device_id" device, text "identity_id" e.identityId, text "gallery_version" version,
      text "runtime_version" "edge-v1", text "track_id" (toString e.trackId),
      text "camera_frame_id" (toString e.cameraFrameId),
      ("similarity", .number (widen e.similarity)),
      ("similarity_margin", .number (widen e.similarityMargin)),
      ("pad_median_p_real", .number (widen e.padMedianPReal)),
      ("pad_median_margin_p_real", .number (widen e.padMedianMarginPReal))] := by
  have hnumber : ∀ {key : String} {x : D} {m : String × Json D},
      number key x = .ok m → m = (key, .number x) := by
    intro key x m hm
    unfold number at hm
    split at hm
    · cases hm
      rfl
    · cases hm
  unfold eventMembers at h
  obtain ⟨similarity, hsimilarity, h⟩ := bind_eq_ok.mp h
  obtain ⟨margin, hmargin, h⟩ := bind_eq_ok.mp h
  obtain ⟨pad, hpad, h⟩ := bind_eq_ok.mp h
  obtain ⟨padMargin, hpadMargin, h⟩ := bind_eq_ok.mp h
  cases h
  rw [hnumber hsimilarity, hnumber hmargin, hnumber hpad, hnumber hpadMargin]

omit [FloatOps D] in
/-- A member that is a text reads as it. -/
theorem toOption_getNamedString {o : JsonObject D} {key s : String}
    (h : o.lookup key = some (.string s)) : (getNamedString o key).toOption = some s := by
  rw [getNamedString_ok.mpr h]
  rfl

omit [FloatOps D] in
/-- A member that is a number reads as it. -/
theorem toOption_getNamedNumber {o : JsonObject D} {key : String} {x : D}
    (h : o.lookup key = some (.number x)) : (getNamedNumber o key).toOption = some x := by
  rw [getNamedNumber_ok.mpr h]
  rfl

omit [FloatOps D] in
/-- A member that is the decimal text of a number reads as it. -/
theorem readDecimal_toString {o : JsonObject D} {key : String} {n : ℕ}
    (h : o.lookup key = some (.string (toString n))) : readDecimal o key = some n := by
  rw [readDecimal, toOption_getNamedString h]
  exact readDigits_toString n

omit [FloatOps F] in
/-- Reading the payload of a record gives back the event. Each member is looked up under its key
and found unchanged. -/
theorem readEvent_envelope {random : Option (Fin 16 → UInt8)} {e : AttendanceObservation F}
    {device version : String} {r : AttendanceRecord} (hcalendar : w.CivilCalendar)
    (hjson : ∀ o, envelopeMembers w random e device version = .ok o → w.Inverts o)
    (h : envelope w random e device version = .ok r) :
    readEvent w r.payload = some (e.content D device version) := by
  obtain ⟨o, ho, hpayload⟩ := envelope_ok h
  have hparse : w.parse r.payload = some o := by
    rw [hpayload]
    exact hjson o ho
  obtain ⟨id, -, ho⟩ := bind_eq_ok.mp ho
  obtain ⟨occurredAt, htime, ho⟩ := bind_eq_ok.mp ho
  obtain ⟨hpositive, hread⟩ := timestamp_reads hcalendar htime
  have hmembers := eventMembers_ok ho
  have hoccurred : o.lookup "occurred_at" = some (.string occurredAt) := by
    rw [hmembers]
    rfl
  have hidentity : o.lookup "identity_id" = some (.string e.identityId) := by
    rw [hmembers]
    rfl
  have hversion : o.lookup "gallery_version" = some (.string version) := by
    rw [hmembers]
    rfl
  have hdevice : o.lookup "device_id" = some (.string device) := by
    rw [hmembers]
    rfl
  have htrack : o.lookup "track_id" = some (.string (toString e.trackId)) := by
    rw [hmembers]
    rfl
  have hframe : o.lookup "camera_frame_id" = some (.string (toString e.cameraFrameId)) := by
    rw [hmembers]
    rfl
  have hsimilarity : o.lookup "similarity" = some (.number (widen e.similarity)) := by
    rw [hmembers]
    rfl
  have hmargin : o.lookup "similarity_margin" = some (.number (widen e.similarityMargin)) := by
    rw [hmembers]
    rfl
  have hpad : o.lookup "pad_median_p_real" = some (.number (widen e.padMedianPReal)) := by
    rw [hmembers]
    rfl
  have hpadMargin :
      o.lookup "pad_median_margin_p_real" = some (.number (widen e.padMedianMarginPReal)) := by
    rw [hmembers]
    rfl
  have hms : Int.ofNat e.occurredAtUtcMs.toNat = e.occurredAtUtcMs :=
    Int.toNat_of_nonneg hpositive.le
  simp only [readEvent, hparse, toOption_getNamedString hoccurred,
    toOption_getNamedString hidentity, toOption_getNamedString hversion,
    toOption_getNamedString hdevice, readDecimal_toString htrack, readDecimal_toString hframe,
    toOption_getNamedNumber hsimilarity, toOption_getNamedNumber hmargin,
    toOption_getNamedNumber hpad, toOption_getNamedNumber hpadMargin, hread, hms,
    Option.bind_eq_bind, Option.bind_some, Option.pure_def, AttendanceObservation.content]

/-! ## Batches -/

/-- The payload of a row has schema 1 and names the row and the device. -/
def Matches (w : Wire D) (device : String) (r : AttendanceRecord) (event : JsonObject D) : Prop :=
  w.parse r.payload = some event ∧
    (∃ version, event.lookup "schema_version" = some (.number version) ∧
      numberEq version (lit 1) = true) ∧
    event.lookup "event_id" = some (.string r.id) ∧
    event.lookup "device_id" = some (.string device)

/-- The event of a row is its payload when the payload matches the row. The version, the
identifier and the device are compared, in this order. -/
theorem batchEvent_ok {device : String} {r : AttendanceRecord} {v : Json D} :
    batchEvent w device r = .ok v ↔ ∃ event, Matches w device r event ∧ v = .object event := by
  unfold batchEvent
  constructor
  · intro h
    obtain ⟨event, hparse, h⟩ := bind_eq_ok.mp h
    obtain ⟨version, hversion, h⟩ := bind_eq_ok.mp h
    obtain ⟨eventId, hid, h⟩ := bind_eq_ok.mp h
    obtain ⟨eventDevice, hdevice, h⟩ := bind_eq_ok.mp h
    split at h
    · cases h
    · rename_i hgood
      cases h
      simp only [not_or, Bool.not_eq_false, ne_eq, not_not] at hgood
      obtain ⟨hone, rfl, rfl⟩ := hgood
      exact ⟨event, ⟨parseObject_ok.mp hparse, ⟨version, getNamedNumber_ok.mp hversion, hone⟩,
        getNamedString_ok.mp hid, getNamedString_ok.mp hdevice⟩, rfl⟩
  · rintro ⟨event, ⟨hparse, ⟨version, hversion, hone⟩, hid, hdevice⟩, rfl⟩
    refine bind_eq_ok.mpr ⟨event, parseObject_ok.mpr hparse, bind_eq_ok.mpr
      ⟨version, getNamedNumber_ok.mpr hversion, bind_eq_ok.mpr ⟨r.id, getNamedString_ok.mpr hid,
        bind_eq_ok.mpr ⟨device, getNamedString_ok.mpr hdevice, ?_⟩⟩⟩⟩
    rw [if_neg (by simp [hone])]
    rfl

/-- The members of a batch. -/
def batchMembers (device : String) (events : List (Json D)) : JsonObject D :=
  [text "device_id" device, ("schema_version", .number (lit 1)), ("events", .array events)]

/-- A batch is the text of its events. The events are in the order of the rows. -/
theorem batchPayload_written {device : String} {rows : List AttendanceRecord} {body : String}
    (hdevice : validId device = true) :
    batchPayload w device rows = .ok body ↔
      ∃ events, List.Forall₂ (fun r event => Matches w device r event) rows events ∧
        body = w.stringify (batchMembers device (events.map .object)) := by
  have hevents : ∀ vs : List (Json D), rows.mapM (batchEvent w device) = .ok vs ↔
      ∃ events, List.Forall₂ (fun r event => Matches w device r event) rows events ∧
        vs = events.map .object := by
    intro vs
    rw [mapM_eq_ok]
    induction rows generalizing vs with
    | nil => simp
    | cons r rows ih =>
      constructor
      · rintro (_ | ⟨hv, hrest⟩)
        obtain ⟨event, hmatch, rfl⟩ := batchEvent_ok.mp hv
        obtain ⟨events, hevents, rfl⟩ := (ih _).mp hrest
        exact ⟨event :: events, .cons hmatch hevents, rfl⟩
      · rintro ⟨_, _ | ⟨hmatch, hevents⟩, rfl⟩
        exact .cons (batchEvent_ok.mpr ⟨_, hmatch, rfl⟩) ((ih _).mpr ⟨_, hevents, rfl⟩)
  unfold batchPayload
  rw [bind_eq_ok]
  constructor
  · rintro ⟨-, -, h⟩
    obtain ⟨vs, hvs, h⟩ := bind_eq_ok.mp h
    cases h
    obtain ⟨events, hmatch, rfl⟩ := (hevents vs).mp hvs
    exact ⟨events, hmatch, rfl⟩
  · rintro ⟨events, hmatch, rfl⟩
    exact ⟨(), checkId_ok.mpr hdevice,
      bind_eq_ok.mpr ⟨_, (hevents _).mpr ⟨events, hmatch, rfl⟩, rfl⟩⟩

/-! ## The round trip -/

omit [FloatOps F] in
/-- With a platform that reads JSON back and knows the calendar, the payload of every event
that is accepted gives back the event. For every device, a batch of rows can be made exactly
when each payload matches its row and the device, and its events are then the payloads of
the rows in order. -/
theorem wire_round_trip (w : Wire D) :
    (∀ (random : Option (Fin 16 → UInt8)) (e : AttendanceObservation F) (device version : String)
        (r : AttendanceRecord), w.CivilCalendar →
      (∀ o, envelopeMembers w random e device version = .ok o → w.Inverts o) →
      envelope w random e device version = .ok r →
        readEvent w r.payload = some (e.content D device version)) ∧
    ∀ (device : String) (rows : List AttendanceRecord), validId device = true →
      ((∃ body, batchPayload w device rows = .ok body) ↔
        ∀ r ∈ rows, ∃ event, Matches w device r event) ∧
      ∀ body, batchPayload w device rows = .ok body →
        (∀ events, List.Forall₂ (fun r event => Matches w device r event) rows events →
          w.Inverts (batchMembers device (events.map .object))) →
        ∃ o events, w.parse body = some o ∧ o.lookup "events" = some (.array (events.map .object)) ∧
          List.Forall₂ (fun r event => w.parse r.payload = some event) rows events := by
  refine ⟨fun random e device version r => readEvent_envelope, ?_⟩
  intro device rows hdevice
  constructor
  · constructor
    · rintro ⟨body, hbody⟩ r hr
      obtain ⟨events, hevents, -⟩ := (batchPayload_written hdevice).mp hbody
      clear hbody
      induction hevents with
      | nil => cases hr
      | @cons row event rows events hmatch _ ih =>
        rcases List.mem_cons.mp hr with rfl | hr
        · exact ⟨event, hmatch⟩
        · exact ih hr
    · intro hrows
      choose! event hevent using hrows
      exact ⟨_, (batchPayload_written hdevice).mpr
        ⟨rows.map event, List.forall₂_map_right_iff.mpr (List.forall₂_same.mpr hevent), rfl⟩⟩
  · intro body hbody hjson
    obtain ⟨events, hevents, rfl⟩ := (batchPayload_written hdevice).mp hbody
    exact ⟨_, events, hjson events hevents, rfl, hevents.imp fun r event hmatch => hmatch.1⟩

/-! ## A batch of one event -/

/-- A number with at most two digits behind the point. -/
def printNumber : Extended ℚ → String
  | .fin x =>
    if x = x.floor then toString x.floor
    else toString x.floor ++ "." ++ toString ((x - x.floor) * 100).floor
  | _ => "null"

mutual

/-- JSON text of a value whose texts need no escapes. -/
def printJson : Json (Extended ℚ) → String
  | .null => "null"
  | .bool b => toString b
  | .number x => printNumber x
  | .string s => "\"" ++ s ++ "\""
  | .array elements => "[" ++ printElements elements ++ "]"
  | .object members => "\x7b" ++ printMembers members ++ "\x7d"

/-- JSON text of the elements of an array. -/
def printElements : List (Json (Extended ℚ)) → String
  | [] => ""
  | [v] => printJson v
  | v :: elements => printJson v ++ "," ++ printElements elements

/-- JSON text of the members of an object. -/
def printMembers : List (String × Json (Extended ℚ)) → String
  | [] => ""
  | [(key, v)] => "\"" ++ key ++ "\":" ++ printJson v
  | (key, v) :: members => "\"" ++ key ++ "\":" ++ printJson v ++ "," ++ printMembers members

end

/-- An event in the first second of 2026, with the largest identifiers. The identifier of its
track is the first one that a double cannot hold. -/
def newYearEvent : AttendanceObservation (Extended ℚ) where
  occurredAtUtcMs := 1767225600007
  cameraFrameId := 2 ^ 64 - 1
  trackId := 2 ^ 53 + 1
  identityId := "visitor"
  similarity := .fin (3 / 4)
  similarityMargin := .fin (1 / 4)
  padMedianPReal := .fin (3 / 4)
  padMedianMarginPReal := .fin 1

/-- The first second of 2026. -/
def newYear : CivilTime :=
  ⟨2026, 1, 1, 0, 0, 0, by decide, by decide, by decide, by decide, by decide, by decide⟩

/-- The members of its payload. -/
def newYearMembers : JsonObject (Extended ℚ) :=
  [("schema_version", .number (lit 1)), text "event_id" "019b76da-a807-7000-8000-000000000000",
    text "occurred_at" "2026-01-01T00:00:00.007Z", text "device_id" "door",
    text "identity_id" "visitor", text "gallery_version" "v1", text "runtime_version" "edge-v1",
    text "track_id" "9007199254740993", text "camera_frame_id" "18446744073709551615",
    ("similarity", .number (.fin (3 / 4))), ("similarity_margin", .number (.fin (1 / 4))),
    ("pad_median_p_real", .number (.fin (3 / 4))),
    ("pad_median_margin_p_real", .number (.fin 1))]

/-- The members of the batch of this event. -/
def newYearBatch : JsonObject (Extended ℚ) := batchMembers "door" [.object newYearMembers]

/-- A platform at the first second of 2026 that reads the two texts of the event. -/
def newYearWire : Wire (Extended ℚ) where
  parse json :=
    if json = printJson (.object newYearMembers) then some newYearMembers
    else if json = printJson (.object newYearBatch) then some newYearBatch
    else none
  stringify o := printJson (.object o)
  calendar seconds := if seconds = newYear.seconds then some (String.ofList newYear.text) else none
  httpDate _ := none

/-- The record of the event. -/
def newYearRecord : AttendanceRecord where
  id := "019b76da-a807-7000-8000-000000000000"
  payload := printJson (.object newYearMembers)
  occurredMs := 1767225600007

/-- The identifier made for the event when all random bytes are zero. -/
theorem newYear_id :
    uuidV7 (some fun _ => 0) newYearEvent.occurredAtUtcMs = .ok newYearRecord.id :=
  eq_ok_of_toOption (by decide +kernel)

/-- The time of the event, with its milliseconds. -/
theorem newYear_timestamp :
    timestamp newYearWire newYearEvent.occurredAtUtcMs = .ok "2026-01-01T00:00:00.007Z" :=
  eq_ok_of_toOption (by decide +kernel)

/-- The event as the envelope writes it. -/
theorem newYear_event : eventMembers (Extended ℚ) newYearEvent "door" "v1" newYearRecord.id
    "2026-01-01T00:00:00.007Z" = .ok newYearMembers := by
  have htrack : toString newYearEvent.trackId = "9007199254740993" := by decide +kernel
  have hframe : toString newYearEvent.cameraFrameId = "18446744073709551615" := by decide +kernel
  rw [eventMembers, htrack, hframe]
  rfl

/-- The members of the envelope, with the identifier and the time made for the event. -/
theorem newYear_members :
    envelopeMembers newYearWire (some fun _ => 0) newYearEvent "door" "v1" =
      .ok newYearMembers := by
  rw [envelopeMembers, newYear_id, newYear_timestamp]
  exact newYear_event

/-- The event is accepted, and this is its record. -/
theorem newYear_envelope :
    envelope newYearWire (some fun _ => 0) newYearEvent "door" "v1" = .ok newYearRecord := by
  have hdevice : checkId "door" = .ok () := checkId_ok.mpr (by decide +kernel)
  have hversion : checkId "v1" = .ok () := checkId_ok.mpr (by decide +kernel)
  have hidentity : checkId newYearEvent.identityId = .ok () := checkId_ok.mpr (by decide +kernel)
  rw [envelope, hdevice, hversion, hidentity, newYear_id, newYear_timestamp]
  simp only [bind, Except.bind, newYear_event]
  rfl

/-- The platform reads back the text of the event. -/
theorem newYearWire_reads_event : newYearWire.Inverts newYearMembers := by
  simp only [Wire.Inverts, newYearWire, if_true]

/-- The platform reads back the text of the batch. -/
theorem newYearWire_reads_batch : newYearWire.Inverts newYearBatch := by
  have hother : printJson (.object newYearBatch) ≠ printJson (.object newYearMembers) := by
    decide +kernel
  simp only [Wire.Inverts, newYearWire, if_neg hother, if_true]

/-- The record names its event and its device. -/
theorem newYear_matches : Matches newYearWire "door" newYearRecord newYearMembers :=
  ⟨newYearWire_reads_event, ⟨lit 1, rfl, by decide +kernel⟩, rfl, rfl⟩

/-- The platform knows the calendar of the one second it is asked about. -/
theorem newYearWire_calendar : newYearWire.CivilCalendar := by
  intro seconds text htext
  dsimp only [newYearWire] at htext
  split at htext
  · rename_i hseconds
    cases htext
    exact ⟨newYear, hseconds.symm, rfl⟩
  · cases htext

/-- The payload of the event reads as the event, and the batch lists the payload. The event
happened in the first second of 2026. -/
theorem wire_round_trip_sample :
    readEvent newYearWire newYearRecord.payload =
        some (newYearEvent.content (Extended ℚ) "door" "v1") ∧
      ∃ body o events, batchPayload newYearWire "door" [newYearRecord] = .ok body ∧
        newYearWire.parse body = some o ∧ o.lookup "events" = some (.array (events.map .object)) ∧
        List.Forall₂ (fun r event => newYearWire.parse r.payload = some event) [newYearRecord]
          events := by
  obtain ⟨hread, hbatches⟩ := wire_round_trip (F := Extended ℚ) newYearWire
  obtain ⟨hmade, hlists⟩ := hbatches "door" [newYearRecord] (by decide +kernel)
  have hrows : ∀ r ∈ [newYearRecord], ∃ event, Matches newYearWire "door" r event := by
    intro r hr
    rw [List.mem_singleton.mp hr]
    exact ⟨newYearMembers, newYear_matches⟩
  have hevent : ∀ o, envelopeMembers newYearWire (some fun _ => 0) newYearEvent "door" "v1" =
      .ok o → newYearWire.Inverts o := by
    intro o ho
    rw [newYear_members] at ho
    cases ho
    exact newYearWire_reads_event
  have hbatch : ∀ events, List.Forall₂ (Matches newYearWire "door") [newYearRecord] events →
      newYearWire.Inverts (batchMembers "door" (events.map .object)) := by
    rintro _ (_ | ⟨⟨hparse, -⟩, _ | _⟩)
    cases newYearWire_reads_event.symm.trans hparse
    exact newYearWire_reads_batch
  refine ⟨hread _ _ _ _ _ newYearWire_calendar hevent newYear_envelope, ?_⟩
  obtain ⟨body, hbody⟩ := hmade.mpr hrows
  obtain ⟨o, events, hparse, hevents, hlisted⟩ := hlists body hbody hbatch
  exact ⟨body, o, events, hbody, hparse, hevents, hlisted⟩

end EdgeClient.Sync
