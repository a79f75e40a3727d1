import ClickRec.Lib.Trace
import ClickRec.Models

/-! # `_ingest_one`: claim the event id, publish, release on failure

Concurrent requests of the ingestion API over one Redis and one broker. The claim key
`dedupe:event:{event_id}` holds `b"1"` whoever sets it; the model also remembers who did. -/
namespace ClickRec.Api.Ingest
set_option autoImplicit false

/-! ## What a request works with -/

/-- A request with what the edge adds to it: its topic, the UUIDv7 and the server time drawn. -/
structure Call where
  req : EventRequest
  topic : String
  uuid7 : Uuid
  server_ts : String

def Call.eventId (call : Call) : Uuid := call.req.event_id.getD call.uuid7

/-- `payload[key] = value` on an ordered dict. -/
def setKey (key : String) (value : Json) : List (String × Json) → List (String × Json)
  | [] => [(key, value)]
  | kv :: rest => if kv.1 = key then (key, value) :: rest else kv :: setKey key value rest

def Call.payload (call : Call) : List (String × Json) :=
  setKey "server_ts" (.str call.server_ts)
    (setKey "event_id" (.str (uuidStr call.eventId)) call.req.modelDump)

/-- One `publish_event(topic, key=user_id, event=payload)`. -/
structure Publish where
  topic : String
  key : String
  event_id : Uuid
  payload : List (String × Json)

def Call.publish (call : Call) : Publish :=
  ⟨call.topic, call.req.user_id, call.eventId, call.payload⟩

/-- The ways `publish_event` ends without an acknowledgement. -/
inductive PublishError where
  | KafkaConnectionError
  | KafkaTimeoutError
  | other (e : PyError)
  deriving DecidableEq

/-- `except (KafkaConnectionError, KafkaTimeoutError)`. -/
def PublishError.caught : PublishError → Bool
  | KafkaConnectionError => true
  | KafkaTimeoutError => true
  | other _ => false

inductive IngestStatus where
  | duplicate
  | accepted
  deriving DecidableEq, Repr

structure IngestResponse where
  event_id : String
  status : IngestStatus
  deriving DecidableEq, Repr

inductive IngestError where
  | httpException (status : ℕ) (detail : String) (headers : List (String × String))
  | propagated (e : PyError)

def kafkaUnavailable : IngestError :=
  .httpException 503 "kafka unavailable" [("Retry-After", "1")]

def raised : PublishError → IngestError
  | .other e => .propagated e
  | _ => kafkaUnavailable

/-! ## The shared state -/

/-- The claim keys with their setters, the calls of `publish_event`, and those acknowledged. -/
structure Edge (ι : Type) where
  claims : Uuid → Option ι
  published : List Publish
  acked : List Publish

section Edge
variable {ι : Type}

/-- `SET dedupe:event:{event_id} 1 NX`. -/
def Edge.setNx (s : Edge ι) (i : ι) (id : Uuid) : Edge ι :=
  { s with claims := Function.update s.claims id (some ((s.claims id).getD i)) }

/-- `DEL dedupe:event:{event_id}`. -/
def Edge.del (s : Edge ι) (id : Uuid) : Edge ι :=
  { s with claims := Function.update s.claims id none }

@[simp] theorem Edge.setNx_self (s : Edge ι) (i : ι) (id : Uuid) :
    (s.setNx i id).claims id = some ((s.claims id).getD i) := by simp [setNx]

theorem Edge.setNx_ne (s : Edge ι) (i : ι) {id id' : Uuid} (h : id' ≠ id) :
    (s.setNx i id).claims id' = s.claims id' := by simp [setNx, h]

@[simp] theorem Edge.del_self (s : Edge ι) (id : Uuid) : (s.del id).claims id = none := by
  simp [del]

theorem Edge.del_ne (s : Edge ι) {id id' : Uuid} (h : id' ≠ id) :
    (s.del id).claims id' = s.claims id' := by simp [del, h]

end Edge

/-! ## One request, step by step -/

inductive Stage where
  | start
  | claimed
  | inFlight
  | releasing (e : PublishError)
  | done (response : IngestResponse)
  | failed (e : IngestError)

/-- A Redis command that returns, or raises a `RedisError` with or without having taken effect. -/
inductive Redis where
  | ok
  | error (took : Bool)
  deriving DecidableEq

inductive Event where
  | claim (r : Redis)
  | publish
  | published (r : Except PublishError Unit)
  | release (r : Redis)

def requestStep {ι : Type} (calls : ι → Call) (i : ι) (s : Edge ι) :
    Stage → Event → Option (Edge ι × Stage)
  | .start, .claim .ok =>
    match s.claims (calls i).eventId with
    | some _ => some (s, .done ⟨uuidStr (calls i).eventId, .duplicate⟩)
    | none => some (s.setNx i (calls i).eventId, .claimed)
  -- fail-open: `dedupe_event_id` returns True
  | .start, .claim (.error took) =>
    some (if took then s.setNx i (calls i).eventId else s, .claimed)
  | .claimed, .publish =>
    some ({ s with published := (calls i).publish :: s.published }, .inFlight)
  | .inFlight, .published (.ok ()) =>
    some ({ s with acked := (calls i).publish :: s.acked },
      .done ⟨uuidStr (calls i).eventId, .accepted⟩)
  | .inFlight, .published (.error e) =>
    if e.caught then some (s, .releasing e) else some (s, .failed (raised e))
  | .releasing e, .release .ok => some (s.del (calls i).eventId, .failed (raised e))
  | .releasing e, .release (.error took) =>
    some (if took then s.del (calls i).eventId else s, .failed (raised e))
  | _, _ => none

/-! ## What a step of a request can be -/

section Cases
variable {ι : Type} {calls : ι → Call} {i : ι} {s t : Edge ι} {l m : Stage}

inductive RequestStep (calls : ι → Call) (i : ι) (s : Edge ι) : Stage → Event → Edge ι → Stage → Prop where
  | duplicate {k : ι} : s.claims (calls i).eventId = some k → RequestStep calls i s .start (.claim .ok) s
      (.done ⟨uuidStr (calls i).eventId, .duplicate⟩)
  | claim : s.claims (calls i).eventId = none →
    RequestStep calls i s .start (.claim .ok) (s.setNx i (calls i).eventId) .claimed
  | claimFailed {took : Bool} : RequestStep calls i s .start (.claim (.error took))
      (if took then s.setNx i (calls i).eventId else s) .claimed
  | publish : RequestStep calls i s .claimed .publish
      { s with published := (calls i).publish :: s.published } .inFlight
  | ack : RequestStep calls i s .inFlight (.published (.ok ()))
      { s with acked := (calls i).publish :: s.acked }
      (.done ⟨uuidStr (calls i).eventId, .accepted⟩)
  | publishFailed {e : PublishError} : e.caught = true →
    RequestStep calls i s .inFlight (.published (.error e)) s (.releasing e)
  | publishRaised {e : PublishError} : e.caught = false →
    RequestStep calls i s .inFlight (.published (.error e)) s (.failed (raised e))
  | release {e : PublishError} :
    RequestStep calls i s (.releasing e) (.release .ok) (s.del (calls i).eventId) (.failed (raised e))
  | releaseFailed {e : PublishError} {took : Bool} :
    RequestStep calls i s (.releasing e) (.release (.error took))
      (if took then s.del (calls i).eventId else s) (.failed (raised e))

theorem requestStep_inv {a : Event} (h : requestStep calls i s l a = some (t, m)) :
    RequestStep calls i s l a t m := by
  unfold requestStep at h
  split at h
  · split at h
    · rename_i k hclaim
      cases h
      exact .duplicate hclaim
    · rename_i hclaim
      cases h
      exact .claim hclaim
  · cases h
    exact .claimFailed
  · cases h
    exact .publish
  · cases h
    exact .ack
  · split at h
    · rename_i he
      cases h
      exact .publishFailed he
    · rename_i he
      cases h
      exact .publishRaised (Bool.eq_false_iff.mpr he)
  · cases h
    exact .release
  · cases h
    exact .releaseFailed
  · cases h

end Cases

/-! ## One request on its own -/

/-- The state once the id is claimed and `publish_event` called. -/
def Edge.publishing {ι : Type} (s : Edge ι) (i : ι) (call : Call) : Edge ι :=
  { s.setNx i call.eventId with published := call.publish :: s.published }

/-- `_ingest_one` with a healthy Redis and no other request in between. -/
def ingestOne {ι : Type} (i : ι) (s : Edge ι) (call : Call) (result : Except PublishError Unit) :
    Except IngestError IngestResponse × Edge ι :=
  match s.claims call.eventId, result with
  | some _, _ => (.ok ⟨uuidStr call.eventId, .duplicate⟩, s)
  | none, .ok () =>
    (.ok ⟨uuidStr call.eventId, .accepted⟩,
      { s.publishing i call with acked := call.publish :: s.acked })
  | none, .error e =>
    (.error (raised e),
      if e.caught then (s.publishing i call).del call.eventId else s.publishing i call)

section Solo
variable {ι : Type} {i : ι} {s : Edge ι} {call : Call}

theorem ingestOne_duplicate {k : ι} (result : Except PublishError Unit)
    (h : s.claims call.eventId = some k) :
    ingestOne i s call result = (.ok ⟨uuidStr call.eventId, .duplicate⟩, s) := by
  simp only [ingestOne, h]

theorem ingestOne_accepted (h : s.claims call.eventId = none) :
    ingestOne i s call (.ok ()) = (.ok ⟨uuidStr call.eventId, .accepted⟩,
      { s.publishing i call with acked := call.publish :: s.acked }) := by
  simp only [ingestOne, h]

theorem ingestOne_released {e : PublishError} (h : s.claims call.eventId = none)
    (he : e.caught = true) :
    ingestOne i s call (.error e) =
      (.error (raised e), (s.publishing i call).del call.eventId) := by
  simp only [ingestOne, h, he, if_true]

theorem ingestOne_kept {e : PublishError} (h : s.claims call.eventId = none)
    (he : e.caught = false) :
    ingestOne i s call (.error e) = (.error (raised e), s.publishing i call) := by
  simp only [ingestOne, h, he, Bool.false_eq_true, if_false]

end Solo

/-! ## Concurrent requests -/

variable {ι : Type} [DecidableEq ι]

abbrev Requests (ι : Type) := Trace.Config ι (Edge ι) Stage
abbrev RequestAct (ι : Type) := Trace.Act ι Event Uuid

/-- The environment may expire a claim. -/
def expire (s : Edge ι) (id : Uuid) : Option (Edge ι) := some (s.del id)

def step (calls : ι → Call) : Requests ι → RequestAct ι → Option (Requests ι) :=
  Trace.turn (requestStep calls) expire

def start : Requests ι := ⟨⟨fun _ => none, [], []⟩, fun _ => .start⟩

end ClickRec.Api.Ingest
