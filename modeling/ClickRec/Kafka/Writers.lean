import ClickRec.Api.IngestBatch
import ClickRec.Kafka.DlqOrigins
import ClickRec.Models.Validate
import ClickRec.Replay.Clicks

/-! # The writers of `user.clicks` and its readers

The ingestion API and `replay_clicks.py` write the clicks, the consumers validate them, and the DLQ
replayer writes what it finds in an envelope. A click that starts as valid stays the same click. -/
namespace ClickRec.Models
set_option autoImplicit false
open Api.Ingest (Call setKey)

/-! ## Reading a dict -/

theorem lookup_cons_ite (name : String) (e : String × Json) (entries : List (String × Json)) :
    (e :: entries).lookup name = if name = e.1 then some e.2 else entries.lookup name := by
  by_cases h : name = e.1
  · rw [if_pos h, List.lookup_cons, beq_iff_eq.mpr h]
  · rw [if_neg h, List.lookup_cons, beq_eq_false_iff_ne.mpr h]

theorem lookup_setKey (entries : List (String × Json)) (key name : String) (v : Json) :
    (setKey key v entries).lookup name = if name = key then some v else entries.lookup name := by
  induction entries with
  | nil => rw [setKey, lookup_cons_ite]
  | cons e entries ih =>
    rw [setKey]
    split
    · rename_i hkey
      rw [lookup_cons_ite, lookup_cons_ite, hkey]
      split
      · rfl
      · rfl
    · rename_i hkey
      rw [lookup_cons_ite, lookup_cons_ite, ih]
      by_cases h : name = e.1
      · rw [if_pos h, if_pos h, if_neg (fun heq => hkey (h.symm.trans heq))]
      · rw [if_neg h, if_neg h]

theorem closed_setKey {entries : List (String × Json)} {names : List String} {key : String}
    (hkey : key ∈ names) (h : closed entries names = true) (v : Json) :
    closed (setKey key v entries) names = true := by
  induction entries with
  | nil => simpa [closed, setKey] using hkey
  | cons e entries ih =>
    obtain ⟨he, hrest⟩ := Bool.and_eq_true_iff.mp (List.all_cons.symm.trans h)
    rw [setKey]
    split
    · exact Bool.and_eq_true_iff.mpr ⟨by simpa using hkey, hrest⟩
    · exact Bool.and_eq_true_iff.mpr ⟨he, ih hrest⟩

theorem mapM_readStr (ids : List String) : ids.mapM (readStr ∘ Json.str) = some ids := by
  induction ids with
  | nil => rfl
  | cons id ids ih =>
    rw [List.mapM_cons, ih]
    rfl

section Read
variable {α : Type} {p : Pydantic} {entries entries' : List (String × Json)} {t : EventType}

/-- Only the fields of the kind are read. -/
theorem readBody_congr (h : ∀ name ∈ t.fields, entries.lookup name = entries'.lookup name) :
    readBody p entries t = readBody p entries' t := by
  cases t with
  | click =>
    simp only [EventType.fields, List.forall_mem_cons] at h
    obtain ⟨htype, hquery, hitem, hrank, hdwell, -⟩ := h
    simp only [readBody, required, withDefault, htype, hquery, hitem, hrank, hdwell]
  | impression =>
    simp only [EventType.fields, List.forall_mem_cons] at h
    obtain ⟨htype, hquery, hids, hpage, -⟩ := h
    simp only [readBody, required, withDefault, htype, hquery, hids, hpage]
  | search =>
    simp only [EventType.fields, List.forall_mem_cons] at h
    obtain ⟨htype, hquery, hfilters, -⟩ := h
    simp only [readBody, required, withDefault, htype, hquery, hfilters]

theorem readOptional_str (x : Option String) :
    readOptional readStr (jsonOption .str x) = some x := by
  cases x with
  | none => rfl
  | some s => rfl

theorem Pydantic.Lawful.readOptional_int (hlaw : p.Lawful) (x : Option ℤ) :
    readOptional p.int (jsonOption .int x) = some x := by
  cases x with
  | none => rfl
  | some i => exact congrArg (Option.map some) (hlaw.int_int i)

/-- What is dumped is read. -/
theorem readBody_dump (hlaw : p.Lawful) (body : EventBody) :
    readBody p body.dump (typeOf body) = some body := by
  cases body with
  | click query item_id rank_position dwell_ms =>
    simp [readBody, typeOf, EventBody.dump, withDefault, required, lookup_cons_ite, readLiteral,
      EventType.name, readOptional_str, hlaw.readOptional_int, hlaw.int_int, readStr]
  | impression query result_ids page =>
    simp [readBody, typeOf, EventBody.dump, withDefault, required, lookup_cons_ite, readLiteral,
      EventType.name, readList, mapM_readStr, hlaw.int_int, readStr]
  | search query filters =>
    simp [readBody, typeOf, EventBody.dump, withDefault, required, lookup_cons_ite, readLiteral,
      EventType.name, readStr, readDict]

/-! ## The payload of a request -/

/-- A request that was accepted is of the kind it was read as, and its timestamp is a datetime. -/
theorem EventRequest.modelValidate_some {body : Json} {req : EventRequest}
    (h : EventRequest.modelValidate p t body = some req) :
    typeOf req.body = t ∧ ∃ d, req.timestamp = p.isoformat d := by
  cases body with
  | obj entries =>
    rw [EventRequest.modelValidate] at h
    split at h
    · simp only [Option.bind_eq_bind, Option.bind_eq_some_iff, Option.pure_def,
        Option.some.injEq] at h
      obtain ⟨event_id, -, event_version, -, timestamp, -, user_id, -, session_id, -, event, hevent,
        rfl⟩ := h
      refine ⟨?_, timestamp, rfl⟩
      cases t with
      | click =>
        simp only [readBody, Option.bind_eq_bind, Option.bind_eq_some_iff, Option.pure_def,
          Option.some.injEq] at hevent
        obtain ⟨-, -, query, -, item_id, -, rank_position, -, dwell_ms, -, rfl⟩ := hevent
        rfl
      | impression =>
        simp only [readBody, Option.bind_eq_bind, Option.bind_eq_some_iff, Option.pure_def,
          Option.some.injEq] at hevent
        obtain ⟨-, -, query, -, result_ids, -, page, -, rfl⟩ := hevent
        rfl
      | search =>
        simp only [readBody, Option.bind_eq_bind, Option.bind_eq_some_iff, Option.pure_def,
          Option.some.injEq] at hevent
        obtain ⟨-, -, query, -, filters, -, rfl⟩ := hevent
        rfl
    · cases h
  | _ => cases h

theorem closed_modelDump (req : EventRequest) :
    closed req.modelDump (eventFields ++ (typeOf req.body).fields) = true := by
  obtain ⟨event_id, event_version, timestamp, user_id, session_id, body⟩ := req
  cases body <;> rfl

theorem not_mem_eventFields {name : String} (h : name ∈ t.fields) : name ∉ eventFields := by
  revert name
  cases t with
  | click => decide
  | impression => decide
  | search => decide

/-- The event that a request becomes. -/
def dtoOf (call : Call) (timestamp now : p.Datetime) : EventDTO p :=
  ⟨call.eventId, call.req.event_version, timestamp, call.req.user_id, call.req.session_id, some now,
    call.req.body⟩

/-- The reader takes the payload for what it was made of. -/
theorem EventDTO.modelValidate_payload (hlaw : p.Lawful) {call : Call} {timestamp now : p.Datetime}
    (htimestamp : call.req.timestamp = p.isoformat timestamp)
    (hnow : p.datetime (.str call.server_ts) = some now) :
    EventDTO.modelValidate p (typeOf call.req.body) (.obj call.payload) =
      some (dtoOf call timestamp now) := by
  have hclosed : closed call.payload (eventFields ++ (typeOf call.req.body).fields) = true :=
    closed_setKey (by simp [eventFields]) (closed_setKey (by simp [eventFields, requestFields])
      (closed_modelDump call.req) _) _
  have hlookup : ∀ name, call.payload.lookup name =
      if name = "server_ts" then some (.str call.server_ts)
      else if name = "event_id" then some (.str (uuidStr call.eventId))
      else call.req.modelDump.lookup name := fun name => by
    rw [Call.payload, lookup_setKey, lookup_setKey]
  have hbody : readBody p call.payload (typeOf call.req.body) = some call.req.body := by
    rw [← readBody_dump hlaw call.req.body]
    refine readBody_congr fun name hname => ?_
    have hheader := not_mem_eventFields hname
    simp only [eventFields, requestFields, List.cons_append, List.nil_append, List.mem_cons,
      List.not_mem_nil, or_false, not_or] at hheader
    obtain ⟨hid, hversion, hts, huser, hsession, hserver⟩ := hheader
    rw [hlookup, if_neg hserver, if_neg hid, EventRequest.modelDump]
    simp only [List.cons_append, List.nil_append, lookup_cons_ite, hid, hversion, hts, huser,
      hsession, if_false]
  have huuid := hlaw.uuid_str call.eventId
  have hdatetime := hlaw.datetime_isoformat timestamp
  rw [EventDTO.modelValidate, if_pos hclosed]
  simp [hbody, required, withDefault, hlookup, EventRequest.modelDump, lookup_cons_ite, readUuid, readStr,
    readOptional, huuid, htimestamp, hdatetime, hnow, hlaw.int_int, dtoOf]

end Read

end ClickRec.Models

namespace ClickRec.Kafka.Writers
set_option autoImplicit false
open Api.Ingest (Call topicOf)
open Models
open ProcessOne (parse rawValue dlqMessage)
open ReplayDlq (Carries Copies EnvelopeOf Run System Usable)

/-! ## The clicks that are written -/

/-- A request that an endpoint takes, alone or in a batch. -/
inductive Accepted (p : Pydantic) (req : EventRequest) : Prop where
  | single {t : EventType} {body : Json} :
    EventRequest.modelValidate p t body = some req → Accepted p req
  | batch {body : Json} {events : List EventRequest} :
    EventBatchRequest.modelValidate p body = some events → req ∈ events → Accepted p req

/-- What a click of the topic is written from: a request of the API, or a click of the replay script. -/
inductive Source where
  | request (call : Call)
  | script (event_id : String) (visit : Replay.Visit) (item_id : String) (rank_position dwell_ms : ℤ)

/-- The dict that is sent. -/
def Source.dict : Source → List (String × Json)
  | request call => call.payload
  | script event_id visit item_id rank_position dwell_ms =>
    (Replay.Event.click event_id visit item_id rank_position dwell_ms).dict

/-- The request was accepted and belongs on this topic; the texts that the two programs make of a UUID
and of the time are read. -/
def Source.Valid (p : Pydantic) : Source → Prop
  | request call => Accepted p call.req ∧ call.topic = topicOf call.req.body ∧
      call.topic = "user.clicks" ∧ (p.datetime (.str call.server_ts)).isSome
  | script event_id visit _ _ _ =>
    (p.uuid event_id).isSome ∧ (p.datetime (.str visit.timestamp)).isSome

/-- This is the click. -/
def Source.Says (p : Pydantic) (event : ClickEventDTO) : Source → Prop
  | request call => event.event_id = call.eventId ∧ event.user_id = call.req.user_id ∧
      (∃ query rank_position dwell_ms,
        call.req.body = .click query event.item_id rank_position dwell_ms) ∧
      ∃ t, call.req.timestamp = p.isoformat t ∧ event.timestamp_ms = p.timestampMs t
  | script event_id visit item_id _ _ => p.uuid event_id = some event.event_id ∧
      event.user_id = visit.user_id ∧ event.item_id = item_id ∧
      ∃ t, p.datetime (.str visit.timestamp) = some t ∧ event.timestamp_ms = p.timestampMs t

section Valid
variable {p : Pydantic}

theorem mapM_some_mem {α β : Type} {f : α → Option β} {l : List α} {bs : List β}
    (h : l.mapM f = some bs) {b : β} (hb : b ∈ bs) : ∃ a ∈ l, f a = some b := by
  induction l generalizing bs with
  | nil =>
    obtain rfl : [] = bs := by simpa using h
    cases hb
  | cons a l ih =>
    simp only [List.mapM_cons, Option.bind_eq_bind, Option.bind_eq_some_iff, Option.pure_def,
      Option.some.injEq] at h
    obtain ⟨b', ha, bs', hl, rfl⟩ := h
    obtain rfl | hb := List.mem_cons.mp hb
    · exact ⟨a, List.mem_cons_self, ha⟩
    · obtain ⟨a', hmem, ha'⟩ := ih hl hb
      exact ⟨a', List.mem_cons_of_mem a hmem, ha'⟩

/-- The members of a batch are requests as the other endpoints take them. -/
theorem Accepted.validated {req : EventRequest} (h : Accepted p req) :
    ∃ t body, EventRequest.modelValidate p t body = some req := by
  cases h with
  | @single t body h => exact ⟨t, body, h⟩
  | @batch body events h hmem =>
    cases body with
    | obj entries =>
      rw [EventBatchRequest.modelValidate] at h
      split at h
      · simp only [Option.bind_eq_bind, required, Option.bind_eq_some_iff] at h
        obtain ⟨events', ⟨v, -, hlist⟩, hlength⟩ := h
        split at hlength
        · obtain rfl := Option.some.inj hlength
          cases v with
          | arr items =>
            obtain ⟨body, -, hbody⟩ := mapM_some_mem hlist hmem
            cases body with
            | obj entries =>
              rw [BatchEvent.modelValidate] at hbody
              split at hbody
              · exact ⟨_, _, hbody⟩
              · exact ⟨_, _, hbody⟩
              · exact ⟨_, _, hbody⟩
              · cases hbody
            | _ => cases hbody
          | _ => cases hlist
        · cases hlength
      · cases h
    | _ => cases h

/-- The consumer reads the click that was written. -/
theorem Source.Valid.says (hlaw : p.Lawful) {source : Source} (h : source.Valid p) :
    ∃ event, modelValidateClick p (.obj source.dict) = .ok event ∧ source.Says p event := by
  cases source with
  | request call =>
    obtain ⟨haccepted, htopic, hclicks, hnow⟩ := h
    obtain ⟨t, body, hbody⟩ := haccepted.validated
    obtain ⟨-, timestamp, htimestamp⟩ := EventRequest.modelValidate_some hbody
    obtain ⟨now, hnow⟩ := Option.isSome_iff_exists.mp hnow
    have hread := EventDTO.modelValidate_payload hlaw htimestamp hnow
    rw [htopic] at hclicks
    cases hreq : call.req.body with
    | click query item_id rank_position dwell_ms =>
      rw [hreq, typeOf] at hread
      refine ⟨⟨call.eventId, p.timestampMs timestamp, call.req.user_id, item_id⟩, ?_, rfl, rfl,
        ⟨query, rank_position, dwell_ms, hreq⟩, timestamp, htimestamp, rfl⟩
      simp only [modelValidateClick, Source.dict, hread, Option.bind_some, asClick, dtoOf, hreq]
    | impression query result_ids page =>
      rw [hreq] at hclicks
      exact absurd hclicks (by simp [topicOf])
    | search query filters =>
      rw [hreq] at hclicks
      exact absurd hclicks (by simp [topicOf])
  | script event_id visit item_id rank_position dwell_ms =>
    obtain ⟨hid, htimestamp⟩ := h
    obtain ⟨id, hid⟩ := Option.isSome_iff_exists.mp hid
    obtain ⟨timestamp, htimestamp⟩ := Option.isSome_iff_exists.mp htimestamp
    refine ⟨⟨id, p.timestampMs timestamp, visit.user_id, item_id⟩, ?_, hid, rfl, rfl, timestamp,
      htimestamp, rfl⟩
    have hclosed : closed (Replay.Event.click event_id visit item_id rank_position dwell_ms).dict
        (eventFields ++ EventType.click.fields) = true := rfl
    rw [modelValidateClick, Source.dict, EventDTO.modelValidate, if_pos hclosed]
    simp [Replay.Event.dict, Replay.header, readBody, required, withDefault, lookup_cons_ite, readUuid,
      readStr, readOptional, readLiteral, EventType.name, hid, htimestamp, hlaw.int_int, asClick]

/-- A valid click names its user. -/
theorem modelValidateClick_user {v : Json} {event : ClickEventDTO}
    (h : modelValidateClick p v = .ok event) :
    ∃ entries, v = .obj entries ∧ entries.lookup "user_id" = some (.str event.user_id) := by
  rw [modelValidateClick] at h
  split at h
  · cases h
  · rename_i found hfound
    obtain rfl : found = event := Except.ok.inj h
    obtain ⟨dto, hdto, hclick⟩ := Option.bind_eq_some_iff.mp hfound
    cases v with
    | obj entries =>
      refine ⟨entries, rfl, ?_⟩
      rw [EventDTO.modelValidate] at hdto
      split at hdto
      · simp only [Option.bind_eq_bind, Option.bind_eq_some_iff, Option.pure_def,
          Option.some.injEq] at hdto
        obtain ⟨event_id, -, event_version, -, timestamp, -, user_id, huser, session_id, -, server_ts, -,
          body, -, rfl⟩ := hdto
        obtain ⟨w, hw, hstr⟩ := Option.bind_eq_some_iff.mp huser
        have huser_id : found.user_id = user_id := by
          rw [asClick] at hclick
          split at hclick
          · exact (congrArg ClickEventDTO.user_id (Option.some.inj hclick)).symm
          · cases hclick
        rw [hw, huser_id]
        cases w with
        | str s =>
          obtain rfl : s = user_id := Option.some.inj hstr
          rfl
        | _ => cases hstr
      · cases hdto
    | _ => cases hdto

end Valid

/-! ## Round and round -/

section Round
variable {σ : Type} {p : Pydantic} {env : ProcessOne.Env σ}

/-- What was read of the original is read of its copy. -/
theorem parse_of_copies {produced : List ConsumerRecord} {click : ConsumerRecord}
    (h : Copies env.orjson produced click) : ∃ original ∈ produced, ∀ v,
      env.orjson.loads (rawValue original) = .ok v → env.orjson.loads (rawValue click) = .ok v := by
  cases h with
  | itself hmem => exact ⟨click, hmem, fun _ hv => hv⟩
  | @replayed original w user_id hmem husable hloads _ =>
    refine ⟨original, hmem, fun v hv => ?_⟩
    obtain rfl : w = v := Except.ok.inj (husable.1.symm.trans hv)
    exact hloads

/-- A click without a usable user says that its user is the empty string. -/
theorem user_empty (hvalidate : env.validate = modelValidateClick p) {click : ConsumerRecord}
    {event : ClickEventDTO} (hparse : parse env click = .ok event)
    (hnone : ∀ v user_id, ¬ Usable env.orjson click v user_id) : event.user_id = "" := by
  rw [parse] at hparse
  cases hloads : env.orjson.loads (rawValue click) with
  | error e =>
    rw [hloads] at hparse
    cases hparse
  | ok v =>
    rw [hloads, hvalidate] at hparse
    obtain ⟨entries, hv, huser⟩ := modelValidateClick_user hparse
    by_contra hne
    exact hnone v event.user_id ⟨hloads, entries, hv, huser, hne⟩

end Round

/-- If the clicks on the topic, now and later, come from the two writers, then however the pool and
the replayer send them round, every click is read as the one that its writer made, none of them goes
to the DLQ for any other reason than exhausted retries, and only clicks with an empty user are ever
quarantined. -/
theorem written_clicks_stay {σ : Type} (p : Pydantic) (hlaw : p.Lawful) (env : ProcessOne.Env σ)
    (hvalidate : env.validate = modelValidateClick p) (hback : ReplayDlq.ReadsBackAll env) (deps : σ)
    (clicks : List ConsumerRecord) (g : GroupLog) (hempty : g.log.records = []) (as : List Run)
    (c : System σ) (hrun : Trace.exec (ReplayDlq.runStep env) (ReplayDlq.start deps clicks g) as = some c)
    (hwritten : ∀ click ∈ clicks ++ as.filterMap Run.produced, ∃ source : Source, source.Valid p ∧
      env.orjson.loads (rawValue click) = .ok (.obj source.dict)) :
    (∀ click ∈ c.sinks.clicks, ∃ original ∈ clicks ++ as.filterMap Run.produced, ∃ source : Source,
      env.orjson.loads (rawValue original) = .ok (.obj source.dict) ∧
      ∃ event, parse env click = .ok event ∧ source.Says p event) ∧
    (∀ r ∈ c.dlq.records, ∃ click ∈ c.sinks.clicks, ∃ exc failed_at_ms,
      Carries r env (dlqMessage env click exc "retries_exhausted" failed_at_ms)) ∧
    ∀ row ∈ c.sinks.quarantined, ∃ click ∈ c.sinks.clicks, ∃ event,
      parse env click = .ok event ∧ event.user_id = "" ∧ EnvelopeOf env click row := by
  have h := ReplayDlq.genuine_run hback hempty hrun
  have hread : ∀ click ∈ c.sinks.clicks, ∃ original ∈ clicks ++ as.filterMap Run.produced,
      ∃ source : Source, env.orjson.loads (rawValue original) = .ok (.obj source.dict) ∧
      ∃ event, parse env click = .ok event ∧ source.Says p event := by
    intro click hclick
    obtain ⟨original, hmem, hcopy⟩ := parse_of_copies (h.clicks click hclick)
    obtain ⟨source, hvalid, hloads⟩ := hwritten original hmem
    obtain ⟨event, hevent, hsays⟩ := hvalid.says hlaw
    refine ⟨original, hmem, source, hloads, event, ?_, hsays⟩
    rw [parse, hcopy _ hloads, hvalidate]
    exact hevent
  refine ⟨hread, fun r hr => ?_, fun row hrow => ?_⟩
  · obtain ⟨click, hclick, exc, reason, failed_at_ms, hreason, hcarries⟩ := h.dlq r hr
    obtain ⟨-, -, -, -, event, hparse, -⟩ := hread click hclick
    obtain rfl := hreason event hparse
    exact ⟨click, hclick, exc, failed_at_ms, hcarries⟩
  · obtain ⟨click, hclick, henvelope, hnone⟩ := h.rows row hrow
    obtain ⟨-, -, -, -, event, hparse, -⟩ := hread click hclick
    exact ⟨click, hclick, event, hparse, user_empty hvalidate hparse hnone, henvelope⟩

/-! ## A click that fails and is replayed -/

section Hex

def hexValue (c : Char) : ℕ := if c ≤ '9' then c.toNat - '0'.toNat else c.toNat - 'a'.toNat + 10

/-- One more character of a UUID. -/
def hexStep (n : ℕ) (c : Char) : ℕ := if c = '-' then n else 16 * n + hexValue c

theorem hexStep_digitChar : ∀ d < 16, ∀ n, hexStep n (Nat.digitChar d) = 16 * n + d := by
  have hdigit : ∀ d < 16, Nat.digitChar d ≠ '-' ∧ hexValue (Nat.digitChar d) = d := by decide
  intro d hd n
  rw [hexStep, if_neg (hdigit d hd).1, (hdigit d hd).2]

theorem foldl_hexDigits (n k m : ℕ) : (hexDigits n k).foldl hexStep m = 16 ^ k * m + n % 16 ^ k := by
  induction k generalizing n with
  | zero => simp [hexDigits, Nat.mod_one]
  | succ k ih =>
    rw [hexDigits, List.foldl_append, ih, List.foldl_cons, List.foldl_nil,
      hexStep_digitChar _ (Nat.mod_lt n (by decide)), pow_succ']
    have hmod : n % (16 * 16 ^ k) = n % 16 + 16 * (n / 16 % 16 ^ k) := Nat.mod_mul
    rw [hmod]
    ring

/-- The canonical text only. -/
def canonicalUuid (s : String) : Option Uuid :=
  let u : Uuid := BitVec.ofNat 128 (s.toList.foldl hexStep 0)
  if uuidStr u = s then some u else none

theorem canonicalUuid_uuidStr (u : Uuid) : canonicalUuid (uuidStr u) = some u := by
  have hread : (uuidStr u).toList.foldl hexStep 0 = u.toNat := by
    have hlt := u.isLt
    simp only [uuidStr, String.toList_ofList, List.map_cons, List.map_nil, List.intersperse_cons_cons,
      List.intersperse_singleton, List.flatten_cons, List.flatten_nil, List.append_nil,
      List.foldl_append, foldl_hexDigits, List.foldl_cons, List.foldl_nil, hexStep, if_true]
    omega
  have hu : BitVec.ofNat 128 ((uuidStr u).toList.foldl hexStep 0) = u := by
    rw [hread, BitVec.ofNat_toNat, BitVec.setWidth_eq]
  simp only [canonicalUuid, hu, if_true]

end Hex

section Listed
open ReplayDlq (plainText utf8)

/-- The JSON of these values. -/
def listedJson (l : List Json) : Orjson where
  loads raw :=
    match l.find? fun v => utf8 (plainText v) = raw with
    | some v => .ok v
    | none => .error ⟨"JSONDecodeError", "unexpected character", ""⟩
  dumps v := if v ∈ l then .ok (utf8 (plainText v)) else .error ⟨"TypeError", "", ""⟩

def entriesOf : Json → List (String × Json)
  | .obj entries => entries
  | _ => []

variable {l : List Json}

theorem listedJson_loads (hnodup : (l.map fun v => utf8 (plainText v)).Nodup) {v : Json} (hv : v ∈ l) :
    (listedJson l).loads (utf8 (plainText v)) = .ok v := by
  simp only [listedJson]
  cases hfind : l.find? fun w => utf8 (plainText w) = utf8 (plainText v) with
  | none => exact absurd (List.find?_eq_none.mp hfind v hv) (by simp)
  | some w =>
    have htext : utf8 (plainText w) = utf8 (plainText v) := by simpa using List.find?_some hfind
    exact congrArg Except.ok
      (List.inj_on_of_nodup_map hnodup (List.mem_of_find?_eq_some hfind) hv htext)

theorem listedJson_dumps {v : Json} {bytes : Bytes} (h : (listedJson l).dumps v = .ok bytes) :
    v ∈ l ∧ bytes = utf8 (plainText v) := by
  simp only [listedJson] at h
  split at h
  · rename_i hv
    exact ⟨hv, (Except.ok.inj h).symm⟩
  · cases h

theorem listedJson_readsBack (hnodup : (l.map fun v => utf8 (plainText v)).Nodup)
    (hclosed : ∀ v ∈ l, ∀ e ∈ entriesOf v, e.2 ∈ l) (envelope : Json) :
    (listedJson l).ReadsBack envelope where
  decoded _ hdumps := by
    obtain ⟨hv, rfl⟩ := listedJson_dumps hdumps
    exact listedJson_loads hnodup hv
  built hdumps := by
    obtain ⟨hv, rfl⟩ := listedJson_dumps hdumps
    exact listedJson_loads hnodup hv
  entry hdumps k v hmem := ⟨_, if_pos (hclosed _ (listedJson_dumps hdumps).1 (k, v) hmem)⟩

end Listed

def plainPydantic : Pydantic where
  Datetime := String
  uuid := canonicalUuid
  datetime := readStr
  int
    | .int i => some i
    | _ => none
  isoformat := id
  timestamp _ := .ok 1767225600
  validationError _ := ⟨"ValidationError", "Field required", ""⟩

theorem plainPydantic_lawful : plainPydantic.Lawful where
  uuid_str u := by
    simp only [plainPydantic]
    exact canonicalUuid_uuidStr u
  datetime_isoformat d := by simp only [plainPydantic, id, readStr]
  int_int i := by simp only [plainPydantic]

/-- The body of `POST /events/click`. -/
def clickBody : Json :=
  .obj [("timestamp", .str "2026-01-01T00:00:00Z"), ("user_id", .str "u1"), ("session_id", .str "s1"),
    ("item_id", .str "i1"), ("rank_position", .int 3)]

def clickCall : Call where
  req := ⟨none, 1, "2026-01-01T00:00:00Z", "u1", "s1", .click none "i1" 3 none⟩
  topic := "user.clicks"
  uuid7 := 7
  server_ts := "2026-01-01T00:00:01Z"

def connectionLost : PyError := ⟨"OperationalError", "connection lost", "Traceback"⟩

def clickEnvelope : Json :=
  .obj [
    ("original_topic", .str "user.clicks"),
    ("original_partition", .int 0),
    ("original_offset", .int 0),
    ("original_key", .str "u1"),
    ("original_payload", .obj clickCall.payload),
    ("reason", .str "retries_exhausted"),
    ("error_class", .str "OperationalError"),
    ("error_message", .str "connection lost"),
    ("stack_trace", .str "Traceback"),
    ("failed_at_ms", .int 0)]

/-- The two messages and what is in them. -/
def clickTexts : List Json :=
  (.obj clickCall.payload :: clickEnvelope ::
    (clickCall.payload ++ entriesOf clickEnvelope).map (·.2)).dedup

def clickJson : Orjson := listedJson clickTexts

def clickRecord : ConsumerRecord :=
  ⟨"user.clicks", 0, 0, some (ReplayDlq.utf8 "u1"),
    some (ReplayDlq.utf8 (ReplayDlq.plainText (.obj clickCall.payload)))⟩

/-- Postgres is down. -/
def failing : ProcessOne.Env Unit where
  orjson := clickJson
  validate := modelValidateClick plainPydantic
  consumer_max_retries := 1
  consumer_backoff_base_s := 1 / 2
  now_ms _ := 0
  exists_ s _ := (.ok false, s)
  enrich s _ := (.error connectionLost, s)
  set s _ := (.ok (), s)
  broker s _ := (.ok (), s)
  sleep s _ := s

theorem clickTexts_nodup :
    (clickTexts.map fun v => ReplayDlq.utf8 (ReplayDlq.plainText v)).Nodup := by decide +kernel

theorem failing_readsBackAll : ReplayDlq.ReadsBackAll failing := fun _ _ _ _ =>
  listedJson_readsBack clickTexts_nodup (by decide +kernel) _

def failsOnce : List Run :=
  [.act (.processOne 0 false), .act (.getmany 10), .act (.handle ReplayDlq.acked), .act (.commit .ack)]

theorem written_clicks_stay_failsOnce : ∃ c,
    Trace.exec (ReplayDlq.runStep failing) (ReplayDlq.start () [clickRecord] ReplayDlq.emptyDlq)
      failsOnce = some c ∧
    c.sinks.clicks.length = 2 ∧ c.dlq.records.length = 1 ∧
    (∀ click ∈ c.sinks.clicks, ∃ source : Source, ∃ event,
      parse failing click = .ok event ∧ source.Says plainPydantic event) ∧
    ∀ r ∈ c.dlq.records, ∃ click ∈ c.sinks.clicks, ∃ exc failed_at_ms,
      Carries r failing (dlqMessage failing click exc "retries_exhausted" failed_at_ms) := by
  have hmap : (Trace.exec (ReplayDlq.runStep failing)
      (ReplayDlq.start () [clickRecord] ReplayDlq.emptyDlq) failsOnce).map
        (fun c => (c.sinks.clicks.length, c.dlq.records.length)) = some (2, 1) := by decide +kernel
  obtain ⟨c, hrun, hlengths⟩ := Option.map_eq_some_iff.mp hmap
  have hbody : EventRequest.modelValidate plainPydantic .click clickBody = some clickCall.req := by
    have hclosed : closed (entriesOf clickBody) (requestFields ++ EventType.click.fields) = true := rfl
    simp only [clickBody, entriesOf] at hclosed ⊢
    rw [EventRequest.modelValidate, if_pos hclosed]
    simp [readBody, required, withDefault, lookup_cons_ite, readStr, plainPydantic, clickCall]
  have hvalid : (Source.request clickCall).Valid plainPydantic := ⟨.single hbody, rfl, rfl, rfl⟩
  have hloads : failing.orjson.loads (rawValue clickRecord) = .ok (.obj clickCall.payload) := by
    have hmem : Json.obj clickCall.payload ∈ clickTexts := List.mem_dedup.mpr List.mem_cons_self
    have horjson : failing.orjson = listedJson clickTexts := rfl
    have hraw : rawValue clickRecord =
        ReplayDlq.utf8 (ReplayDlq.plainText (.obj clickCall.payload)) := by
      simp only [rawValue, clickRecord, Option.getD_some]
    rw [horjson, hraw]
    exact listedJson_loads clickTexts_nodup hmem
  obtain ⟨hclicks, hdlq, -⟩ := written_clicks_stay plainPydantic plainPydantic_lawful failing rfl
    failing_readsBackAll () [clickRecord] ReplayDlq.emptyDlq rfl failsOnce c hrun (by
      intro click hclick
      obtain rfl : click = clickRecord := by simpa [failsOnce, Run.produced] using hclick
      exact ⟨.request clickCall, hvalid, hloads⟩)
  refine ⟨c, hrun, congrArg Prod.fst hlengths, congrArg Prod.snd hlengths, fun click hclick => ?_, hdlq⟩
  obtain ⟨-, -, source, -, event, hevent, hsays⟩ := hclicks click hclick
  exact ⟨source, event, hevent, hsays⟩

end ClickRec.Kafka.Writers
