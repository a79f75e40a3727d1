import ClickRec.Json
import ClickRec.Models

/-! # `_process_one`: parse, check the marker, enrich with retries, or go to the DLQ

The dependencies act on a state of their own choosing, so every behaviour of Redis, Postgres and
Kafka, and every interference of other tasks, is some `Env`. -/
namespace ClickRec.Kafka.ProcessOne
set_option autoImplicit false

/-! ## The dependencies

`exists_` and `set` raise a `RedisError` or return, `enrich` is the `async with sessionmaker()` block
around `apply_enrichment`, `broker` takes the serialized DLQ message and acknowledges it or raises a
`KafkaError`. -/

structure Env (σ : Type) where
  orjson : Orjson
  validate : Json → Except PyError ClickEventDTO
  consumer_max_retries : ℕ
  consumer_backoff_base_s : ℚ
  now_ms : σ → ℤ
  exists_ : σ → Uuid → Except PyError Bool × σ
  enrich : σ → ClickEventDTO → Except PyError Unit × σ
  set : σ → Uuid → Except PyError Unit × σ
  broker : σ → Bytes → Except PyError Unit × σ
  sleep : σ → ℚ → σ

variable {σ : Type} (env : Env σ)

/-! ## `cache/redis_client.py` -/

/-- Fail-open: a `RedisError` reads as not processed. -/
def isConsumerEventProcessed (s : σ) (event_id : Uuid) : Bool × σ :=
  match env.exists_ s event_id with
  | (.ok b, s') => (b, s')
  | (.error _, s') => (false, s')

def markConsumerEventProcessed (s : σ) (event_id : Uuid) : σ := (env.set s event_id).2

/-! ## `_send_to_dlq` -/

inductive SendError where
  | kafka (e : PyError)
  | serializer (e : PyError)

/-- `producer.send_and_wait`: the value serializer runs first and its exception is its own. -/
def sendAndWait (s : σ) (message : Json) : Except SendError Unit × σ :=
  match env.orjson.dumps message with
  | .error e => (.error (.serializer e), s)
  | .ok bytes =>
    match env.broker s bytes with
    | (.ok (), s') => (.ok (), s')
    | (.error e, s') => (.error (.kafka e), s')

def rawValue (record : ConsumerRecord) : Bytes := record.value.getD []

def originalPayload (record : ConsumerRecord) : Json :=
  match env.orjson.loads (rawValue record) with
  | .ok v => v
  | .error _ => .str (decodeUtf8Replace (rawValue record))

def originalKey (record : ConsumerRecord) : Json :=
  match record.key with
  | none => .null
  | some [] => .null
  | some key => .str (decodeUtf8Replace key)

def dlqMessage (record : ConsumerRecord) (exc : Option PyError) (reason : String) (failed_at_ms : ℤ) :
    Json :=
  let error : PyError := exc.getD ⟨"UnknownError", reason, ""⟩
  .obj [
    ("original_topic", .str record.topic),
    ("original_partition", .int record.partition),
    ("original_offset", .int record.offset),
    ("original_key", originalKey record),
    ("original_payload", originalPayload env record),
    ("reason", .str reason),
    ("error_class", .str error.cls),
    ("error_message", .str error.message),
    ("stack_trace", .str error.stack),
    ("failed_at_ms", .int failed_at_ms)]

/-- `True` when acknowledged, `False` on a `KafkaError`; any other exception goes through. -/
def sendToDlq (s : σ) (record : ConsumerRecord) (exc : Option PyError) (reason : String) :
    Except PyError Bool × σ :=
  match sendAndWait env s (dlqMessage env record exc reason (env.now_ms s)) with
  | (.ok (), s') => (.ok true, s')
  | (.error (.kafka _), s') => (.ok false, s')
  | (.error (.serializer e), s') => (.error e, s')

/-! ## The retry loop -/

/-- `consumer_backoff_base_s * (2 ** (attempt - 1))`: from `2 ** 1024` on the integer no longer
converts to a float. -/
def backoff (attempt : ℕ) : Except PyError ℚ :=
  if attempt - 1 < 1024 then .ok (env.consumer_backoff_base_s * 2 ^ (attempt - 1))
  else .error ⟨"OverflowError", "int too large to convert to float", ""⟩

inductive LoopEnd (σ : Type) where
  | returned (s : σ)
  | exhausted (last_exc : Option PyError) (s : σ)
  | raised (e : PyError) (s : σ)

/-- `for attempt in range(1, consumer_max_retries + 1)`, with the number of attempts left. -/
def attempts (event : ClickEventDTO) : ℕ → σ → Option PyError → LoopEnd σ
  | 0, s, last_exc => .exhausted last_exc s
  | left + 1, s, _ =>
    let attempt := env.consumer_max_retries - left
    match env.enrich s event with
    | (.ok (), s') => .returned (markConsumerEventProcessed env s' event.event_id)
    | (.error exc, s') =>
      if attempt < env.consumer_max_retries then
        match backoff env attempt with
        | .error e => .raised e s'
        | .ok delay => attempts event left (env.sleep s' delay) (some exc)
      else attempts event left s' (some exc)

/-! ## `_process_one` -/

def parse (record : ConsumerRecord) : Except PyError ClickEventDTO :=
  match env.orjson.loads (rawValue record) with
  | .error e => .error e
  | .ok decoded => env.validate decoded

def outcomeOfSent : Except PyError Bool × σ → Except PyError ProcessOutcome × σ
  | (.ok sent, s) => (.ok (if sent then .DLQ_OK else .DLQ_FAILED), s)
  | (.error e, s) => (.error e, s)

def processOne (record : ConsumerRecord) (s : σ) : Except PyError ProcessOutcome × σ :=
  match parse env record with
  | .error exc => outcomeOfSent (sendToDlq env s record (some exc) "parse_or_validation_error")
  | .ok event =>
    match isConsumerEventProcessed env s event.event_id with
    | (true, s') => (.ok .OK, s')
    | (false, s') =>
      match attempts env event env.consumer_max_retries s' none with
      | .returned s'' => (.ok .OK, s'')
      | .raised e s'' => (.error e, s'')
      | .exhausted last_exc s'' =>
        outcomeOfSent (sendToDlq env s'' record last_exc "retries_exhausted")

/-! ## What the dependencies keep -/

variable {env} {P : σ → Prop}

/-- No dependency leaves the states with this property. -/
structure Env.Keeps (env : Env σ) (P : σ → Prop) : Prop where
  exists_ : ∀ {s}, P s → ∀ id, P (env.exists_ s id).2
  enrich : ∀ {s}, P s → ∀ event, P (env.enrich s event).2
  set : ∀ {s}, P s → ∀ id, P (env.set s id).2
  broker : ∀ {s}, P s → ∀ message, P (env.broker s message).2
  sleep : ∀ {s}, P s → ∀ delay, P (env.sleep s delay)

def LoopEnd.state : LoopEnd σ → σ
  | returned s => s
  | exhausted _ s => s
  | raised _ s => s

theorem Env.Keeps.isConsumerEventProcessed (h : env.Keeps P) {s : σ} (hs : P s) (id : Uuid) :
    P (isConsumerEventProcessed env s id).2 := by
  have hafter := h.exists_ hs id
  unfold ProcessOne.isConsumerEventProcessed
  split
  · rename_i hread
    rwa [hread] at hafter
  · rename_i hread
    rwa [hread] at hafter

theorem Env.Keeps.attempts (h : env.Keeps P) (event : ClickEventDTO) (left : ℕ) {s : σ} (hs : P s)
    (last_exc : Option PyError) : P (attempts env event left s last_exc).state := by
  induction left generalizing s last_exc with
  | zero => exact hs
  | succ left ih =>
    have hafter := h.enrich hs event
    unfold ProcessOne.attempts
    cases henrich : env.enrich s event with
    | mk reply s' =>
      rw [henrich] at hafter
      cases reply with
      | ok => exact h.set hafter event.event_id
      | error exc =>
        simp only
        split
        · cases backoff env (env.consumer_max_retries - left) with
          | error e => exact hafter
          | ok delay => exact ih (h.sleep hafter delay) (some exc)
        · exact ih hafter (some exc)

theorem Env.Keeps.sendToDlq (h : env.Keeps P) {s : σ} (hs : P s) (record : ConsumerRecord)
    (exc : Option PyError) (reason : String) : P (sendToDlq env s record exc reason).2 := by
  unfold ProcessOne.sendToDlq sendAndWait
  cases env.orjson.dumps (dlqMessage env record exc reason (env.now_ms s)) with
  | error e => exact hs
  | ok message =>
    have hafter := h.broker hs message
    cases hreply : env.broker s message with
    | mk reply s' =>
      rw [hreply] at hafter
      simp only [hreply]
      cases reply with
      | ok => exact hafter
      | error e => exact hafter

theorem outcomeOfSent_snd (r : Except PyError Bool × σ) : (outcomeOfSent r).2 = r.2 := by
  obtain ⟨_ | _, _⟩ := r
  · rfl
  · rfl

theorem Env.Keeps.processOne (h : env.Keeps P) (record : ConsumerRecord) {s : σ} (hs : P s) :
    P (processOne env record s).2 := by
  unfold ProcessOne.processOne
  cases parse env record with
  | error exc =>
    simp only [outcomeOfSent_snd]
    exact h.sendToDlq hs record _ _
  | ok event =>
    have hread := h.isConsumerEventProcessed hs event.event_id
    cases hdone : ProcessOne.isConsumerEventProcessed env s event.event_id with
    | mk seen s' =>
      rw [hdone] at hread
      simp only [hdone]
      cases seen with
      | true => exact hread
      | false =>
        have hloop := h.attempts event env.consumer_max_retries hread none
        simp only
        cases hend : ProcessOne.attempts env event env.consumer_max_retries s' none with
        | returned s'' =>
          rw [hend] at hloop
          exact hloop
        | raised e s'' =>
          rw [hend] at hloop
          exact hloop
        | exhausted last_exc s'' =>
          rw [hend] at hloop
          rw [outcomeOfSent_snd]
          exact h.sendToDlq hloop record _ _

end ClickRec.Kafka.ProcessOne
