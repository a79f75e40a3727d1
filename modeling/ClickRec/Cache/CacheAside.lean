import ClickRec.Lib.Trace
import ClickRec.Models

/-! # `get_item_cached`: one item, any number of callers

Each caller runs in steps, one for each Redis command or SELECT. A Redis command may raise with or
without having taken effect; the keys may expire; whether the row is in the cache as JSON, as the
null sentinel or as anything else is up to the bytes stored. -/
namespace ClickRec.Cache
set_option autoImplicit false
open Kafka (Bytes)

/-! ## The encoding of an item -/

/-- `orjson.dumps(dto.model_dump(mode="json"))` and `ItemDTO.model_validate(orjson.loads(raw))`. -/
structure Codec where
  serializeItem : ItemDTO → Bytes
  validateJson : Bytes → Except PyError ItemDTO

/-- `b"null"`. -/
def nullSentinel : Bytes := [0x6E, 0x75, 0x6C, 0x6C]

def Codec.deserializeItem (codec : Codec) (raw : Bytes) : Except PyError (Option ItemDTO) :=
  if raw = nullSentinel then .ok none else (codec.validateJson raw).map some

/-- What `_populate_cache` writes. -/
def Codec.payload (codec : Codec) : Option ItemDTO → Bytes
  | none => nullSentinel
  | some dto => codec.serializeItem dto

/-! ## The stores -/

/-- The keys `item:{id}` and `lock:item:{id}`, the row of the item, and the callers whose SELECT was
executed, oldest first. -/
structure Store (ι : Type) where
  item : Option Bytes
  lock : Option Bytes
  row : Option ItemDTO
  selects : List ι

/-! ## One caller, step by step -/

/-- Where the returned value comes from. -/
inductive Source where
  | cache
  | db
  deriving DecidableEq

inductive Stage where
  | start
  | missed
  | waiting
  | fallback
  | filling
  | populating (dto : Option ItemDTO)
  | releasing (result : Except PyError (Option ItemDTO))
  | done (dto : Option ItemDTO) (source : Source)
  | raised (e : PyError)

/-- A Redis command that returns, or raises a Redis error with or without having taken effect. -/
inductive Reply where
  | ok
  | error (took : Bool)
  deriving DecidableEq

def Reply.took : Reply → Bool
  | .ok => true
  | .error took => took

inductive Event where
  | get (r : Reply)
  | setLock (r : Reply)
  | poll (r : Reply)
  | timeout
  | select (r : Except PyError Unit)
  | populate (r : Reply)
  | release (r : Reply)

section Caller
variable {ι : Type}

/-- `SET lock:item:{id} <caller> NX`. -/
def Store.setNx (s : Store ι) (caller_id : Bytes) : Store ι :=
  { s with lock := some (s.lock.getD caller_id) }

/-- `_RELEASE_LOCK_LUA`. -/
def Store.releaseLock (s : Store ι) (caller_id : Bytes) : Store ι :=
  { s with lock := if s.lock = some caller_id then none else s.lock }

def Store.executed (s : Store ι) (i : ι) : Store ι := { s with selects := s.selects ++ [i] }

/-- A key that is present ends the call with what it holds. -/
def present (codec : Codec) (raw : Bytes) : Stage :=
  match codec.deserializeItem raw with
  | .ok dto => .done dto .cache
  | .error e => .raised e

def returned : Except PyError (Option ItemDTO) → Stage
  | .ok dto => .done dto .db
  | .error e => .raised e

def callerStep (codec : Codec) (caller_id : ι → Bytes) (i : ι) (s : Store ι) :
    Stage → Event → Option (Store ι × Stage)
  | .start, .get .ok =>
    match s.item with
    | some raw => some (s, present codec raw)
    | none => some (s, .missed)
  | .start, .get (.error _) => some (s, .fallback)
  | .missed, .setLock .ok =>
    match s.lock with
    | none => some (s.setNx (caller_id i), .filling)
    | some _ => some (s, .waiting)
  | .missed, .setLock (.error took) =>
    some (if took then s.setNx (caller_id i) else s, .fallback)
  | .waiting, .poll .ok =>
    match s.item with
    | some raw => some (s, present codec raw)
    | none => some (s, .waiting)
  | .waiting, .poll (.error _) => some (s, .fallback)
  | .waiting, .timeout => some (s, .fallback)
  | .fallback, .select (.ok ()) => some (s.executed i, .done s.row .db)
  | .fallback, .select (.error e) => some (s, .raised e)
  | .filling, .select (.ok ()) => some (s.executed i, .populating s.row)
  | .filling, .select (.error e) => some (s, .releasing (.error e))
  | .populating dto, .populate .ok =>
    some ({ s with item := some (codec.payload dto) }, .releasing (.ok dto))
  -- fail-open: the value is still returned
  | .populating dto, .populate (.error took) =>
    some (if took then { s with item := some (codec.payload dto) } else s, .releasing (.ok dto))
  | .releasing result, .release .ok => some (s.releaseLock (caller_id i), returned result)
  | .releasing result, .release (.error took) =>
    some (if took then s.releaseLock (caller_id i) else s, returned result)
  | _, _ => none

/-! ## Concurrent callers -/

inductive Outside where
  | expireItem
  | expireLock
  | setRow (row : Option ItemDTO)

def outside (s : Store ι) : Outside → Option (Store ι)
  | .expireItem => some { s with item := none }
  | .expireLock => some { s with lock := none }
  | .setRow row => some { s with row := row }

variable [DecidableEq ι]

abbrev Callers (ι : Type) := Trace.Config ι (Store ι) Stage
abbrev CallerAct (ι : Type) := Trace.Act ι Event Outside

def callersStep (codec : Codec) (caller_id : ι → Bytes) :
    Callers ι → CallerAct ι → Option (Callers ι) :=
  Trace.turn (callerStep codec caller_id) outside

/-- Neither key is set and no caller has started. -/
def cold (row : Option ItemDTO) : Callers ι := ⟨⟨none, none, row, []⟩, fun _ => .start⟩

end Caller

/-! ## What a step of a caller can be -/

section Steps
variable {ι : Type} {codec : Codec} {caller_id : ι → Bytes} {i : ι} {s t : Store ι} {l m : Stage}

inductive CallerStep (codec : Codec) (caller_id : ι → Bytes) (i : ι) (s : Store ι) :
    Stage → Event → Store ι → Stage → Prop where
  | hit {raw : Bytes} : s.item = some raw →
    CallerStep codec caller_id i s .start (.get .ok) s (present codec raw)
  | miss : s.item = none → CallerStep codec caller_id i s .start (.get .ok) s .missed
  | getFailed {took : Bool} : CallerStep codec caller_id i s .start (.get (.error took)) s .fallback
  | acquire : s.lock = none →
    CallerStep codec caller_id i s .missed (.setLock .ok) (s.setNx (caller_id i)) .filling
  | wait {holder : Bytes} : s.lock = some holder →
    CallerStep codec caller_id i s .missed (.setLock .ok) s .waiting
  | setLockFailed {took : Bool} : CallerStep codec caller_id i s .missed (.setLock (.error took))
      (if took then s.setNx (caller_id i) else s) .fallback
  | pollHit {raw : Bytes} : s.item = some raw →
    CallerStep codec caller_id i s .waiting (.poll .ok) s (present codec raw)
  | pollMiss : s.item = none → CallerStep codec caller_id i s .waiting (.poll .ok) s .waiting
  | pollFailed {took : Bool} : CallerStep codec caller_id i s .waiting (.poll (.error took)) s .fallback
  | timeout : CallerStep codec caller_id i s .waiting .timeout s .fallback
  | fallback :
    CallerStep codec caller_id i s .fallback (.select (.ok ())) (s.executed i) (.done s.row .db)
  | fallbackFailed {e : PyError} :
    CallerStep codec caller_id i s .fallback (.select (.error e)) s (.raised e)
  | fill :
    CallerStep codec caller_id i s .filling (.select (.ok ())) (s.executed i) (.populating s.row)
  | fillFailed {e : PyError} :
    CallerStep codec caller_id i s .filling (.select (.error e)) s (.releasing (.error e))
  | populate {dto : Option ItemDTO} : CallerStep codec caller_id i s (.populating dto) (.populate .ok)
      { s with item := some (codec.payload dto) } (.releasing (.ok dto))
  | populateFailed {dto : Option ItemDTO} {took : Bool} :
    CallerStep codec caller_id i s (.populating dto) (.populate (.error took))
      (if took then { s with item := some (codec.payload dto) } else s) (.releasing (.ok dto))
  | release {result : Except PyError (Option ItemDTO)} :
    CallerStep codec caller_id i s (.releasing result) (.release .ok) (s.releaseLock (caller_id i))
      (returned result)
  | releaseFailed {result : Except PyError (Option ItemDTO)} {took : Bool} :
    CallerStep codec caller_id i s (.releasing result) (.release (.error took))
      (if took then s.releaseLock (caller_id i) else s) (returned result)

theorem callerStep_cases {a : Event} (h : callerStep codec caller_id i s l a = some (t, m)) :
    CallerStep codec caller_id i s l a t m := by
  unfold callerStep at h
  split at h
  · split at h
    · rename_i raw hitem
      cases h
      exact .hit hitem
    · rename_i hitem
      cases h
      exact .miss hitem
  · cases h
    exact .getFailed
  · split at h
    · rename_i hlock
      cases h
      exact .acquire hlock
    · rename_i holder hlock
      cases h
      exact .wait hlock
  · cases h
    exact .setLockFailed
  · split at h
    · rename_i raw hitem
      cases h
      exact .pollHit hitem
    · rename_i hitem
      cases h
      exact .pollMiss hitem
  · cases h
    exact .pollFailed
  · cases h
    exact .timeout
  · cases h
    exact .fallback
  · cases h
    exact .fallbackFailed
  · cases h
    exact .fill
  · cases h
    exact .fillFailed
  · cases h
    exact .populate
  · cases h
    exact .populateFailed
  · cases h
    exact .release
  · cases h
    exact .releaseFailed
  · cases h

end Steps

end ClickRec.Cache
