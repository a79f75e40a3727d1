import ClickRec.Models

/-! # `model_validate` of the events

The requests of the ingestion API and the events on the topics have the same fields but for two: a
request may leave out its `event_id` and has no `server_ts`. Neither side takes a key it does not know.
What pydantic makes of a UUID, a datetime or an int is a parameter. -/
namespace ClickRec.Models
set_option autoImplicit false

/-! ## Single values -/

/-- `isoformat` is the text that `model_dump(mode="json")` writes. -/
structure Pydantic where
  Datetime : Type
  uuid : String → Option Uuid
  datetime : Json → Option Datetime
  int : Json → Option ℤ
  isoformat : Datetime → String
  timestamp : Datetime → Except PyError ℚ
  validationError : Json → PyError

/-- What it writes it reads. -/
structure Pydantic.Lawful (p : Pydantic) : Prop where
  uuid_str : ∀ u, p.uuid (uuidStr u) = some u
  datetime_isoformat : ∀ d, p.datetime (.str (p.isoformat d)) = some d
  int_int : ∀ i, p.int (.int i) = some i

section Values
variable {α : Type} (p : Pydantic)

def readStr : Json → Option String
  | .str s => some s
  | _ => none

def readUuid : Json → Option Uuid
  | .str s => p.uuid s
  | _ => none

/-- `T | None`. -/
def readOptional (read : Json → Option α) : Json → Option (Option α)
  | .null => some none
  | v => (read v).map some

def readList (read : Json → Option α) : Json → Option (List α)
  | .arr items => items.mapM read
  | _ => none

def readDict : Json → Option (List (String × Json))
  | .obj entries => some entries
  | _ => none

/-- `Literal[s]`. -/
def readLiteral (s : String) (v : Json) : Option Unit := if v = .str s then some () else none

/-! ## Fields -/

variable (entries : List (String × Json)) (name : String)

def required (read : Json → Option α) : Option α := (entries.lookup name).bind read

def withDefault (default : α) (read : Json → Option α) : Option α :=
  match entries.lookup name with
  | none => some default
  | some v => read v

/-- `extra="forbid"`. -/
def closed (names : List String) : Bool := entries.all fun e => e.1 ∈ names

end Values

/-! ## The three kinds of events -/

inductive EventType where
  | click
  | impression
  | search
  deriving DecidableEq

def EventType.name : EventType → String
  | click => "click"
  | impression => "impression"
  | search => "search"

def EventType.fields : EventType → List String
  | click => ["event_type", "query", "item_id", "rank_position", "dwell_ms"]
  | impression => ["event_type", "query", "result_ids", "page"]
  | search => ["event_type", "query", "filters"]

def typeOf : EventBody → EventType
  | .click .. => .click
  | .impression .. => .impression
  | .search .. => .search

section Validate
variable (p : Pydantic)

def readBody (entries : List (String × Json)) (t : EventType) : Option EventBody := do
  withDefault entries "event_type" () (readLiteral t.name)
  match t with
  | .click =>
    let query ← withDefault entries "query" none (readOptional readStr)
    let item_id ← required entries "item_id" readStr
    let rank_position ← required entries "rank_position" p.int
    let dwell_ms ← withDefault entries "dwell_ms" none (readOptional p.int)
    return .click query item_id rank_position dwell_ms
  | .impression =>
    let query ← required entries "query" readStr
    let result_ids ← required entries "result_ids" (readList readStr)
    let page ← withDefault entries "page" 1 p.int
    return .impression query result_ids page
  | .search =>
    let query ← required entries "query" readStr
    let filters ← withDefault entries "filters" [] readDict
    return .search query filters

/-! ## `models/requests.py` -/

def requestFields : List String := ["event_id", "event_version", "timestamp", "user_id", "session_id"]

def EventRequest.modelValidate (t : EventType) : Json → Option EventRequest
  | .obj entries =>
    if closed entries (requestFields ++ t.fields) then do
      let event_id ← withDefault entries "event_id" none (readOptional (readUuid p))
      let event_version ← withDefault entries "event_version" 1 p.int
      let timestamp ← required entries "timestamp" p.datetime
      let user_id ← required entries "user_id" readStr
      let session_id ← required entries "session_id" readStr
      let body ← readBody p entries t
      return ⟨event_id, event_version, p.isoformat timestamp, user_id, session_id, body⟩
    else none
  | _ => none

/-- `BatchEvent`: the discriminator has no default here. -/
def BatchEvent.modelValidate : Json → Option EventRequest
  | .obj entries =>
    match entries.lookup "event_type" with
    | some (.str "click") => EventRequest.modelValidate p .click (.obj entries)
    | some (.str "impression") => EventRequest.modelValidate p .impression (.obj entries)
    | some (.str "search") => EventRequest.modelValidate p .search (.obj entries)
    | _ => none
  | _ => none

def MAX_BATCH_EVENTS : ℕ := 500

def EventBatchRequest.modelValidate : Json → Option (List EventRequest)
  | .obj entries =>
    if closed entries ["events"] then do
      let events ← required entries "events" (readList (BatchEvent.modelValidate p))
      if 1 ≤ events.length ∧ events.length ≤ MAX_BATCH_EVENTS then return events else none
    else none
  | _ => none

/-! ## `models/schemas.py` -/

structure EventDTO where
  event_id : Uuid
  event_version : ℤ
  timestamp : p.Datetime
  user_id : String
  session_id : String
  server_ts : Option p.Datetime
  body : EventBody

def eventFields : List String := requestFields ++ ["server_ts"]

def EventDTO.modelValidate (t : EventType) : Json → Option (EventDTO p)
  | .obj entries =>
    if closed entries (eventFields ++ t.fields) then do
      let event_id ← required entries "event_id" (readUuid p)
      let event_version ← withDefault entries "event_version" 1 p.int
      let timestamp ← required entries "timestamp" p.datetime
      let user_id ← required entries "user_id" readStr
      let session_id ← required entries "session_id" readStr
      let server_ts ← withDefault entries "server_ts" none (readOptional p.datetime)
      let body ← readBody p entries t
      return ⟨event_id, event_version, timestamp, user_id, session_id, server_ts, body⟩
    else none
  | _ => none

/-- `timestamp() * 1000.0`. -/
def Pydantic.timestampMs (t : p.Datetime) : Except PyError ℚ := (p.timestamp t).map (· * 1000)

/-- What the consumer uses of a click. -/
def asClick (dto : EventDTO p) : Option ClickEventDTO :=
  match dto.body with
  | .click _ item_id _ _ =>
    some ⟨dto.event_id, p.timestampMs dto.timestamp, dto.user_id, item_id⟩
  | _ => none

/-- `ClickEventDTO.model_validate(decoded)`. -/
def modelValidateClick (decoded : Json) : Except PyError ClickEventDTO :=
  match (EventDTO.modelValidate p .click decoded).bind (asClick p) with
  | none => .error (p.validationError decoded)
  | some event => .ok event

end Validate

end ClickRec.Models
