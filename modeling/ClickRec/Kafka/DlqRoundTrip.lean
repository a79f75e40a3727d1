import ClickRec.Kafka.DlqSnapshot

/-! # From `_send_to_dlq` to `_handle_dlq_record`

The writer puts decoded JSON and raw text into the one field `original_payload`. The reader replays
nothing but an object with a user, and text is never an object. -/
namespace ClickRec
set_option autoImplicit false
open Kafka (Bytes)

/-- What `loads` returned, and one envelope built from it, is read back as it was written; what is in
an object that can be written can be written. -/
structure Orjson.ReadsBack (o : Orjson) (envelope : Json) : Prop where
  decoded : ∀ {raw : Bytes} {v : Json} {bytes : Bytes}, o.loads raw = .ok v →
    o.dumps v = .ok bytes → o.loads bytes = .ok v
  built : ∀ {bytes : Bytes}, o.dumps envelope = .ok bytes → o.loads bytes = .ok envelope
  entry : ∀ {kvs : List (String × Json)} {bytes : Bytes}, o.dumps (.obj kvs) = .ok bytes →
    ∀ {k : String} {v : Json}, (k, v) ∈ kvs → ∃ bytes', o.dumps v = .ok bytes'

namespace Kafka.ReplayDlq
open ProcessOne (rawValue originalPayload dlqMessage)

/-- A JSON object whose `user_id` is a non-empty string. -/
structure HasUser (v : Json) (payload : List (String × Json)) (user_id : String) : Prop where
  object : v = .obj payload
  user : payload.lookup "user_id" = some (.str user_id)
  nonempty : user_id ≠ ""

/-! ## The four ways through `_handle_dlq_record` -/

section Handle
variable {orjson : Orjson} {record : ConsumerRecord}

theorem handleDlqRecord_notJson {e : PyError} (h : orjson.loads (rawValue record) = .error e)
    (replies : Replies) (s : Sinks) : handleDlqRecord orjson record replies s =
      quarantine (envelopeParseFailed record replies.ts_ms) replies s := by
  rw [handleDlqRecord, h]

theorem handleDlqRecord_notObject {v : Json} (h : orjson.loads (rawValue record) = .ok v)
    (hv : ∀ dlq_msg, v ≠ .obj dlq_msg) (replies : Replies) (s : Sinks) :
    handleDlqRecord orjson record replies s = (.error (noAttributeGet v), s) := by
  rw [handleDlqRecord, h]
  cases v with
  | obj dlq_msg => exact absurd rfl (hv dlq_msg)
  | _ => rfl

theorem handleDlqRecord_hasUser {dlq_msg payload : List (String × Json)} {v : Json}
    {user_id : String} (h : orjson.loads (rawValue record) = .ok (.obj dlq_msg))
    (hv : dlq_msg.lookup "original_payload" = some v) (huser : HasUser v payload user_id)
    (replies : Replies) (s : Sinks) : handleDlqRecord orjson record replies s =
      sendClick orjson (.obj payload) user_id replies s := by
  obtain ⟨rfl, huser, hnonempty⟩ := huser
  simp only [handleDlqRecord, h, hv, huser, if_neg hnonempty]

theorem handleDlqRecord_noUser {dlq_msg : List (String × Json)}
    (h : orjson.loads (rawValue record) = .ok (.obj dlq_msg))
    (hnone : ∀ v, dlq_msg.lookup "original_payload" = some v →
      ∀ payload user_id, ¬ HasUser v payload user_id)
    (replies : Replies) (s : Sinks) :
    handleDlqRecord orjson record replies s = quarantine (.obj dlq_msg) replies s := by
  simp only [handleDlqRecord, h]
  split
  · rename_i payload hpayload
    split
    · rename_i user_id huser
      split
      · rfl
      · rename_i hnonempty
        exact absurd ⟨rfl, huser, hnonempty⟩ (hnone _ hpayload payload user_id)
    · rfl
  · rfl

/-- The click put on `user.clicks`. -/
def clickRecord (value : Bytes) (user_id : String) (partition : ℕ) (s : Sinks) : ConsumerRecord where
  topic := "user.clicks"
  partition := partition
  offset := s.clicks.countP fun r => r.partition = partition
  key := some user_id.toUTF8.data.toList
  value := some value

def Sinks.publish (s : Sinks) (value : Bytes) (user_id : String) (partition : ℕ) : Sinks :=
  { s with clicks := s.clicks ++ [clickRecord value user_id partition s] }

def Sinks.quarantine (s : Sinks) (row : Json) : Sinks :=
  { s with quarantined := s.quarantined ++ [row] }

theorem sendClick_dumped {payload : Json} {value : Bytes} (h : orjson.dumps payload = .ok value)
    (user_id : String) (replies : Replies) (s : Sinks) :
    sendClick orjson payload user_id replies s =
      match replies.send with
      | .ack => (.ok .replayed, s.publish value user_id replies.partition)
      | .failed e stored =>
        (.error e, if stored then s.publish value user_id replies.partition else s) := by
  simp only [sendClick, h]
  rfl

end Handle

/-! ## The envelope -/

section Envelope
variable {σ : Type} {env : ProcessOne.Env σ} {record : ConsumerRecord}

/-- The record of an envelope on the DLQ. -/
structure Carries (dlqRecord : ConsumerRecord) (env : ProcessOne.Env σ) (envelope : Json) : Prop where
  written : ∃ message, env.orjson.dumps envelope = .ok message ∧ dlqRecord.value = some message

theorem Carries.loads {dlqRecord : ConsumerRecord} {envelope : Json}
    (h : Carries dlqRecord env envelope) (hback : env.orjson.ReadsBack envelope) :
    env.orjson.loads (rawValue dlqRecord) = .ok envelope := by
  obtain ⟨message, hdumps, hvalue⟩ := h
  rw [rawValue, hvalue]
  exact hback.built hdumps

/-- Text that was not JSON is no object, so the field tells the two cases apart. -/
theorem hasUser_originalPayload {payload : List (String × Json)} {user_id : String} :
    HasUser (originalPayload env record) payload user_id ↔
      ∃ v, env.orjson.loads (rawValue record) = .ok v ∧ HasUser v payload user_id := by
  rw [originalPayload]
  cases hloads : env.orjson.loads (rawValue record) with
  | ok v => simp only [Except.ok.injEq, exists_eq_left']
  | error e =>
    constructor
    · intro h
      cases h.object
    · rintro ⟨v, hv, -⟩
      cases hv

/-- **Round trip.** Replaying an envelope publishes what the original bytes decode to, keyed by its
user, if that is an object with a user, and quarantines the envelope otherwise. -/
theorem replay_of_sendToDlq (env : ProcessOne.Env σ) (record dlqRecord : ConsumerRecord)
    (exc : Option PyError) (reason : String) (failed_at_ms : ℤ) (replies : Replies) (s : Sinks)
    (hsent : Carries dlqRecord env (dlqMessage env record exc reason failed_at_ms))
    (hback : env.orjson.ReadsBack (dlqMessage env record exc reason failed_at_ms)) :
    (∀ v payload user_id, env.orjson.loads (rawValue record) = .ok v → HasUser v payload user_id →
      ∃ value, env.orjson.dumps v = .ok value ∧ env.orjson.loads value = .ok v ∧
        handleDlqRecord env.orjson dlqRecord replies s =
          match replies.send with
          | .ack => (.ok .replayed, s.publish value user_id replies.partition)
          | .failed e stored =>
            (.error e, if stored then s.publish value user_id replies.partition else s)) ∧
    ((¬ ∃ v payload user_id, env.orjson.loads (rawValue record) = .ok v ∧
        HasUser v payload user_id) →
      handleDlqRecord env.orjson dlqRecord replies s =
        match replies.file with
        | none => (.ok .skipped, s.quarantine (dlqMessage env record exc reason failed_at_ms))
        | some e => (.error e, s)) := by
  have hloads := hsent.loads hback
  constructor
  · rintro v payload user_id hv huser
    obtain ⟨message, hmessage, -⟩ := hsent
    have hpayload : HasUser (originalPayload env record) payload user_id :=
      hasUser_originalPayload.mpr ⟨v, hv, huser⟩
    have horiginal : originalPayload env record = v := by rw [originalPayload, hv]
    obtain ⟨value, hvalue⟩ := hback.entry hmessage (k := "original_payload") (v := v)
      (by simp [horiginal])
    refine ⟨value, hvalue, hback.decoded hv hvalue, ?_⟩
    rw [handleDlqRecord_hasUser hloads rfl hpayload]
    rw [huser.object] at hvalue
    exact sendClick_dumped hvalue user_id replies s
  · intro hnone
    rw [handleDlqRecord_noUser hloads]
    · rw [quarantine]
      cases replies.file with
      | none => rfl
      | some e => rfl
    · rintro v hv payload user_id huser
      obtain rfl : originalPayload env record = v := Option.some.inj hv
      obtain ⟨v, hv, huser⟩ := hasUser_originalPayload.mp huser
      exact hnone ⟨v, payload, user_id, hv, huser⟩

end Envelope

/-! ## A message that was rejected -/

theorem loads_plainText {v : Json} (h : v ∈ [notAClick, envelope 0, envelope 1]) :
    plainJson.loads (utf8 (plainText v)) = .ok v := by
  have h01 : ¬ utf8 (plainText notAClick) = utf8 (plainText (envelope 0)) := by decide +kernel
  have h02 : ¬ utf8 (plainText notAClick) = utf8 (plainText (envelope 1)) := by decide +kernel
  have h12 : ¬ utf8 (plainText (envelope 0)) = utf8 (plainText (envelope 1)) := by decide +kernel
  simp only [List.mem_cons, List.not_mem_nil, or_false] at h
  obtain rfl | rfl | rfl := h
  · simp [plainJson]
  · simp [plainJson, h01]
  · simp [plainJson, h02, h12]

theorem dlqMessage_rejected :
    dlqMessage rejecting rejected (some missingFields) "parse_or_validation_error" 0 = envelope 0 := by
  have hpayload : originalPayload rejecting rejected = notAClick := by
    have hloads : rejecting.orjson.loads (rawValue rejected) = .ok notAClick :=
      loads_plainText (by simp)
    rw [originalPayload, hloads]
  have hkey : ProcessOne.originalKey rejected = .str "u1" := by
    have hdecode : decodeUtf8Replace (utf8 "u1") = "u1" := by decide +kernel
    have hbytes : utf8 "u1" = [0x75, 0x31] := by decide +kernel
    rw [ProcessOne.originalKey, rejected]
    simp only [hbytes] at hdecode ⊢
    rw [hdecode]
  rw [dlqMessage, hpayload, hkey]
  rfl

theorem plainJson_readsBack : plainJson.ReadsBack (envelope 0) where
  decoded {raw v bytes} hloads hdumps := by
    cases hdumps
    refine loads_plainText ?_
    simp only [plainJson] at hloads
    split at hloads
    · rename_i w hfind
      cases hloads
      exact List.mem_of_find?_eq_some hfind
    · cases hloads
  built hdumps := by
    cases hdumps
    exact loads_plainText (by simp)
  entry _ _ _ _ := ⟨_, rfl⟩

/-- Its record on the DLQ. -/
def onDlq : ConsumerRecord :=
  ⟨"user.clicks.dlq", 0, 0, none, some (utf8 (plainText (envelope 0)))⟩

theorem replay_of_sendToDlq_rejected : ∃ value, plainJson.loads value = .ok notAClick ∧
    handleDlqRecord plainJson onDlq acked ⟨[], []⟩ =
      (.ok .replayed, (⟨[], []⟩ : Sinks).publish value "u1" 0) := by
  have hsent : Carries onDlq rejecting (dlqMessage rejecting rejected (some missingFields)
      "parse_or_validation_error" 0) := by
    rw [dlqMessage_rejected]
    exact ⟨_, rfl, rfl⟩
  have hback : rejecting.orjson.ReadsBack (dlqMessage rejecting rejected (some missingFields)
      "parse_or_validation_error" 0) := by
    rw [dlqMessage_rejected]
    exact plainJson_readsBack
  obtain ⟨value, -, hvalue, hreplay⟩ := (replay_of_sendToDlq rejecting rejected onDlq
    (some missingFields) "parse_or_validation_error" 0 acked ⟨[], []⟩ hsent hback).1 notAClick _ "u1"
      (loads_plainText (by simp)) ⟨rfl, rfl, by decide⟩
  exact ⟨value, hvalue, hreplay⟩

end Kafka.ReplayDlq

end ClickRec
