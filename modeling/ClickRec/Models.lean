import ClickRec.Json

/-! The DTOs of `models/requests.py` and `models/schemas.py`. -/
namespace ClickRec
set_option autoImplicit false

/-! ## UUIDs -/

abbrev Uuid := BitVec 128

/-- The lowest `k` hexadecimal digits of `n`, most significant first. -/
def hexDigits (n : ℕ) : ℕ → List Char
  | 0 => []
  | k + 1 => hexDigits (n / 16) k ++ [Nat.digitChar (n % 16)]

/-- `str(uuid)`: 8-4-4-4-12 lower-case hexadecimal digits. -/
def uuidStr (u : Uuid) : String :=
  String.ofList <| List.flatten <| List.intersperse ['-'] <|
    [(96, 8), (80, 4), (64, 4), (48, 4), (0, 12)].map fun (g : ℕ × ℕ) =>
      hexDigits (u.toNat / 2 ^ g.1) g.2

example : uuidStr 0x0123456789abcdef0123456789abcdef#128 =
    "01234567-89ab-cdef-0123-456789abcdef" := by decide

/-! ## Requests

`timestamp` is the text `model_dump(mode="json")` gives for the client's datetime. -/

inductive EventBody where
  | click (query : Option String) (item_id : String) (rank_position : ℤ) (dwell_ms : Option ℤ)
  | impression (query : String) (result_ids : List String) (page : ℤ)
  | search (query : String) (filters : List (String × Json))

structure EventRequest where
  event_id : Option Uuid
  event_version : ℤ
  timestamp : String
  user_id : String
  session_id : String
  body : EventBody

def jsonOption {α : Type} (f : α → Json) : Option α → Json
  | none => .null
  | some a => f a

def EventBody.dump : EventBody → List (String × Json)
  | .click query item_id rank_position dwell_ms =>
    [("event_type", .str "click"), ("query", jsonOption .str query), ("item_id", .str item_id),
      ("rank_position", .int rank_position), ("dwell_ms", jsonOption .int dwell_ms)]
  | .impression query result_ids page =>
    [("event_type", .str "impression"), ("query", .str query),
      ("result_ids", .arr (result_ids.map .str)), ("page", .int page)]
  | .search query filters =>
    [("event_type", .str "search"), ("query", .str query), ("filters", .obj filters)]

/-- `req.model_dump(mode="json")`. -/
def EventRequest.modelDump (req : EventRequest) : List (String × Json) :=
  [("event_id", jsonOption (fun u => .str (uuidStr u)) req.event_id),
    ("event_version", .int req.event_version), ("timestamp", .str req.timestamp),
    ("user_id", .str req.user_id), ("session_id", .str req.session_id)] ++ req.body.dump

/-! ## The event as the consumer reads it -/

/-- `timestamp_ms` is what `event.timestamp.timestamp() * 1000.0` gives; `timestamp()` raises for a
naive datetime that local time cannot place. -/
structure ClickEventDTO where
  event_id : Uuid
  timestamp_ms : Except PyError ℚ
  user_id : String
  item_id : String
  deriving DecidableEq

namespace ClickEventDTO

def converts (event : ClickEventDTO) : Bool := event.timestamp_ms.toBool

/-- The value `ts_ms` gets, for an event that converts. -/
def ts_ms (event : ClickEventDTO) : ℚ := event.timestamp_ms.toOption.getD 0

variable {event : ClickEventDTO}

theorem timestamp_ms_of_converts (h : event.converts = true) :
    event.timestamp_ms = .ok event.ts_ms := by
  unfold converts at h
  unfold ts_ms
  cases hts : event.timestamp_ms with
  | error e =>
    rw [hts] at h
    cases h
  | ok ts => rfl

theorem exists_error_of_not_converts (h : event.converts = false) :
    ∃ e, event.timestamp_ms = .error e := by
  unfold converts at h
  cases hts : event.timestamp_ms with
  | error e => exact ⟨e, rfl⟩
  | ok ts =>
    rw [hts] at h
    cases h

end ClickEventDTO

/-! ## The item as the API serves it -/

structure ItemDTO where
  id : String
  title : String
  description : String
  category : String
  brand : String
  price : ℚ
  created_at : String
  popularity_score : ℚ
  deriving DecidableEq

end ClickRec
