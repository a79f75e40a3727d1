import ClickRec.Kafka.ProcessOne
import ClickRec.Kafka.GroupLog

/-! # `replay_dlq` beside the consumer pool

One invocation reads the DLQ, which has a single partition, and puts what it can parse on
`user.clicks`. The pool reads those clicks, and whatever else is produced there, and puts what it
fails on back on the DLQ. The group `dlq-replayer` has no other member, so its position moves by
polling only. -/
namespace ClickRec.Kafka
set_option autoImplicit false
open WorkerLoop (PartitionLog)

namespace ReplayDlq

def EMPTY_BATCH_LIMIT : ℕ := 3

/-! ## `_handle_dlq_record` -/

/-- The topic `user.clicks`, in the order of arrival, and the rows of the quarantine file. -/
structure Sinks where
  clicks : List ConsumerRecord
  quarantined : List Json

/-- A broker acknowledges a request, or the client raises; the broker may have done it all the same. -/
inductive Reply where
  | ack
  | failed (e : PyError) (stored : Bool)

/-- What the surroundings answer while one record is handled: the clock, the quarantine file, the
partition a click goes to and the broker. -/
structure Replies where
  ts_ms : ℤ
  file : Option PyError
  partition : ℕ
  send : Reply

inductive Handled where
  | replayed
  | skipped
  deriving DecidableEq

def typeName : Json → String
  | .null => "NoneType"
  | .bool _ => "bool"
  | .int _ => "int"
  | .float _ => "float"
  | .str _ => "str"
  | .arr _ => "list"
  | .obj _ => "dict"

/-- `v.get(…)` of a value that is not a `dict`. -/
def noAttributeGet (v : Json) : PyError :=
  ⟨"AttributeError", "'" ++ typeName v ++ "' object has no attribute 'get'", ""⟩

def envelopeParseFailed (record : ConsumerRecord) (ts_ms : ℤ) : Json :=
  .obj [
    ("stage", .str "envelope_parse_failed"),
    ("partition", .int record.partition),
    ("offset", .int record.offset),
    ("raw", .str (decodeUtf8Replace (ProcessOne.rawValue record))),
    ("ts_ms", .int ts_ms)]

def quarantine (row : Json) (replies : Replies) (s : Sinks) : Except PyError Handled × Sinks :=
  match replies.file with
  | some e => (.error e, s)
  | none => (.ok .skipped, { s with quarantined := s.quarantined ++ [row] })

/-- `producer.send_and_wait(USER_CLICKS.name, original_payload, key=user_id)`. -/
def sendClick (orjson : Orjson) (original_payload : Json) (user_id : String) (replies : Replies)
    (s : Sinks) : Except PyError Handled × Sinks :=
  match orjson.dumps original_payload with
  | .error e => (.error e, s)
  | .ok value =>
    let click : ConsumerRecord := {
      topic := "user.clicks"
      partition := replies.partition
      offset := s.clicks.countP fun r => r.partition = replies.partition
      key := some user_id.toUTF8.data.toList
      value := some value }
    let sent := { s with clicks := s.clicks ++ [click] }
    match replies.send with
    | .ack => (.ok .replayed, sent)
    | .failed e stored => (.error e, if stored then sent else s)

def handleDlqRecord (orjson : Orjson) (record : ConsumerRecord) (replies : Replies) (s : Sinks) :
    Except PyError Handled × Sinks :=
  match orjson.loads (ProcessOne.rawValue record) with
  | .error _ => quarantine (envelopeParseFailed record replies.ts_ms) replies s
  | .ok (.obj dlq_msg) =>
    match dlq_msg.lookup "original_payload" with
    | some (.obj original_payload) =>
      match original_payload.lookup "user_id" with
      | some (.str user_id) =>
        if user_id = "" then quarantine (.obj dlq_msg) replies s
        else sendClick orjson (.obj original_payload) user_id replies s
      | _ => quarantine (.obj dlq_msg) replies s
    -- a `str`, which holds bytes that were not JSON, another value that is no `dict`, or nothing
    | _ => quarantine (.obj dlq_msg) replies s
  | .ok v => (.error (noAttributeGet v), s)

/-! ## `replay_dlq` -/

/-- Where the loop is: before `getmany` or done, among the records of a batch, or left by an
exception. -/
inductive Loop where
  | polling
  | handling (records : List ConsumerRecord) (last_committable : Option ℕ)
  | raised (e : PyError)

structure Replayer where
  loop : Loop
  position : ℕ
  consecutive_empty : ℕ
  replayed : ℕ
  skipped : ℕ

def Replayer.handled (r : Replayer) : ℕ := r.replayed + r.skipped

def Replayer.count (r : Replayer) : Handled → Replayer
  | .replayed => { r with replayed := r.replayed + 1 }
  | .skipped => { r with skipped := r.skipped + 1 }

/-- Redis and Postgres, the topics, what the replayer's group has committed, and the replayer. -/
structure System (σ : Type) where
  deps : σ
  sinks : Sinks
  dlq : PartitionLog
  committed : Option ℕ
  replayer : Replayer

/-- The steps of the invocation: `getmany` returns at most `n` records, one record is handled, the
offset is committed, or an exception comes from elsewhere. Those of the others: a worker of the pool
is through with the `i`-th click, where a send to the DLQ that raises may have stored the message, and
a click is produced. -/
inductive Act where
  | getmany (n : ℕ)
  | handle (replies : Replies)
  | commit (reply : Reply)
  | raises (e : PyError)
  | processOne (i : ℕ) (stored : Bool)
  | click (record : ConsumerRecord)

section Step
variable {σ : Type}

/-- The pool's dependencies, with the DLQ as part of their state. -/
def withDlq (env : ProcessOne.Env σ) (stored : Bool) : ProcessOne.Env (σ × PartitionLog) where
  orjson := env.orjson
  validate := env.validate
  consumer_max_retries := env.consumer_max_retries
  consumer_backoff_base_s := env.consumer_backoff_base_s
  now_ms s := env.now_ms s.1
  exists_ s id := ((env.exists_ s.1 id).1, (env.exists_ s.1 id).2, s.2)
  enrich s event := ((env.enrich s.1 event).1, (env.enrich s.1 event).2, s.2)
  set s id := ((env.set s.1 id).1, (env.set s.1 id).2, s.2)
  broker s message :=
    match env.broker s.1 message with
    | (.ok (), deps) => (.ok (), deps, s.2.put "user.clicks.dlq" message)
    | (.error e, deps) =>
      (.error e, deps, if stored then s.2.put "user.clicks.dlq" message else s.2)
  sleep s delay := (env.sleep s.1 delay, s.2)

def getmanyStep (c : System σ) (n : ℕ) : Option (System σ) :=
  match c.replayer.loop with
  | .polling =>
    if c.replayer.consecutive_empty < EMPTY_BATCH_LIMIT then
      match c.dlq.fetch c.replayer.position n with
      | [] => some { c with replayer :=
          { c.replayer with consecutive_empty := c.replayer.consecutive_empty + 1 } }
      | r :: rs => some { c with replayer :=
          { c.replayer with
            loop := .handling (r :: rs) none
            position := (rs.getLastD r).offset + 1
            consecutive_empty := 0 } }
    else none
  | _ => none

def handleStep (orjson : Orjson) (c : System σ) (replies : Replies) : Option (System σ) :=
  match c.replayer.loop with
  | .handling (r :: rs) _ =>
    match handleDlqRecord orjson r replies c.sinks with
    | (.ok handled, sinks) => some { c with
        sinks := sinks
        replayer := { c.replayer.count handled with loop := .handling rs (some r.offset) } }
    | (.error e, sinks) => some { c with
        sinks := sinks
        replayer := { c.replayer with loop := .raised e } }
  | _ => none

def commitStep (c : System σ) (reply : Reply) : Option (System σ) :=
  match c.replayer.loop with
  | .handling [] none => some { c with replayer := { c.replayer with loop := .polling } }
  | .handling [] (some last_committable) =>
    match reply with
    | .ack => some { c with
        committed := some (last_committable + 1)
        replayer := { c.replayer with loop := .polling } }
    | .failed e stored => some { c with
        committed := if stored then some (last_committable + 1) else c.committed
        replayer := { c.replayer with loop := .raised e } }
  | _ => none

def step (env : ProcessOne.Env σ) (c : System σ) : Act → Option (System σ)
  | .getmany n => getmanyStep c n
  | .handle replies => handleStep env.orjson c replies
  | .commit reply => commitStep c reply
  | .raises e =>
    match c.replayer.loop with
    | .raised _ => none
    | _ => some { c with replayer := { c.replayer with loop := .raised e } }
  | .processOne i stored =>
    match c.sinks.clicks[i]? with
    | none => none
    | some record =>
      let after := (ProcessOne.processOne (withDlq env stored) record (c.deps, c.dlq)).2
      some { c with deps := after.1, dlq := after.2 }
  | .click record => some { c with sinks := { c.sinks with clicks := c.sinks.clicks ++ [record] } }

/-- The invocation starts. -/
def start (deps : σ) (clicks : List ConsumerRecord) (dlq : GroupLog) : System σ where
  deps := deps
  sinks := ⟨clicks, []⟩
  dlq := dlq.log
  committed := dlq.committed
  replayer := ⟨.polling, dlq.committed.getD 0, 0, 0, 0⟩

end Step

end ReplayDlq

end ClickRec.Kafka
