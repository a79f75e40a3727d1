import ClickRec.Kafka.ProcessOne

/-! # Which records `_process_one` survives

Two exceptions escape: the value serializer's own, when the DLQ envelope of the record cannot be
written, and the `OverflowError` of the back-off after 1025 failed attempts. -/
namespace ClickRec.Kafka.ProcessOne
set_option autoImplicit false

variable {σ : Type} (env : Env σ)

/-! ## The way to the DLQ -/

/-- The pause after failed attempt number `attempt`; none after the last. -/
def pause (attempt : ℕ) (s : σ) : σ :=
  if attempt < env.consumer_max_retries then
    env.sleep s (env.consumer_backoff_base_s * 2 ^ (attempt - 1))
  else s

/-- The first `n` attempts fail, the last of them with this exception. -/
inductive AttemptsFail (event : ClickEventDTO) (s : σ) : ℕ → Option PyError → σ → Prop where
  | zero : AttemptsFail event s 0 none s
  | succ {n : ℕ} {last : Option PyError} {t u : σ} {exc : PyError} :
    AttemptsFail event s n last t → env.enrich t event = (.error exc, u) →
      AttemptsFail event s (n + 1) (some exc) (pause env (n + 1) u)

/-- The record reaches the DLQ send with this exception and reason. -/
inductive RoutedToDlq (record : ConsumerRecord) (s : σ) : Option PyError → String → σ → Prop where
  | poison {exc : PyError} : parse env record = .error exc →
    RoutedToDlq record s (some exc) "parse_or_validation_error" s
  | exhausted {event : ClickEventDTO} {last : Option PyError} {t u : σ} :
    parse env record = .ok event → isConsumerEventProcessed env s event.event_id = (false, t) →
    AttemptsFail env event t env.consumer_max_retries last u → env.consumer_max_retries ≤ 1025 →
      RoutedToDlq record s last "retries_exhausted" u

/-- More than 1025 attempts are allowed and the first 1025 fail. -/
def BackoffOverflows (record : ConsumerRecord) (s : σ) : Prop :=
  1025 < env.consumer_max_retries ∧ ∃ event t last u,
    parse env record = .ok event ∧ isConsumerEventProcessed env s event.event_id = (false, t) ∧
      AttemptsFail env event t 1025 last u

/-- The envelope `_send_to_dlq` builds can be written. -/
def Serializable (record : ConsumerRecord) (exc : Option PyError) (reason : String) (s : σ) : Prop :=
  ∃ bytes, env.orjson.dumps (dlqMessage env record exc reason (env.now_ms s)) = .ok bytes

/-! ## `_send_to_dlq` -/

theorem sendToDlq_ok {record : ConsumerRecord} {exc : Option PyError} {reason : String} {s : σ} :
    (∃ sent, (sendToDlq env s record exc reason).1 = .ok sent) ↔
      Serializable env record exc reason s := by
  unfold Serializable sendToDlq sendAndWait
  cases env.orjson.dumps (dlqMessage env record exc reason (env.now_ms s)) with
  | error e => simp
  | ok bytes => rcases hb : env.broker s bytes with ⟨_ | _, s'⟩ <;> simp [hb]

/-- `True` comes with an acknowledgement of the envelope, as the last thing that happened. -/
theorem sendToDlq_true {record : ConsumerRecord} {exc : Option PyError} {reason : String} {s s' : σ}
    (h : sendToDlq env s record exc reason = (.ok true, s')) :
    ∃ bytes, env.orjson.dumps (dlqMessage env record exc reason (env.now_ms s)) = .ok bytes ∧
      env.broker s bytes = (.ok (), s') := by
  unfold sendToDlq sendAndWait at h
  cases hd : env.orjson.dumps (dlqMessage env record exc reason (env.now_ms s)) with
  | error e => simp [hd] at h
  | ok bytes =>
    refine ⟨bytes, rfl, ?_⟩
    rcases hb : env.broker s bytes with ⟨_ | _, s''⟩
    · simp [hd, hb] at h
    · simp only [hd, hb, Prod.mk.injEq, true_and] at h
      rw [h]

theorem outcomeOfSent_ok {r : Except PyError Bool × σ} :
    (∃ outcome, (outcomeOfSent r).1 = .ok outcome) ↔ ∃ sent, r.1 = .ok sent := by
  rcases r with ⟨_ | _, s⟩ <;> simp [outcomeOfSent]

theorem outcomeOfSent_dlq_ok {r : Except PyError Bool × σ} {s' : σ}
    (h : outcomeOfSent r = (.ok .DLQ_OK, s')) : r = (.ok true, s') := by
  rcases r with ⟨_ | sent, s⟩
  · simp [outcomeOfSent] at h
  · cases sent <;> simp_all [outcomeOfSent]

/-! ## The retry loop -/

theorem backoff_ok (attempt : ℕ) (h : attempt ≤ 1024) :
    backoff env attempt = .ok (env.consumer_backoff_base_s * 2 ^ (attempt - 1)) := by
  rw [backoff, if_pos (by omega)]

theorem backoff_overflow :
    backoff env 1025 = .error ⟨"OverflowError", "int too large to convert to float", ""⟩ := rfl

/-- One failed attempt that neither ends the loop nor overflows the back-off. -/
theorem attempts_failed {event : ClickEventDTO} {left : ℕ} {s u : σ} {last : Option PyError}
    {exc : PyError} (hleft : left < env.consumer_max_retries)
    (hsmall : env.consumer_max_retries - left ≤ 1024 ∨ left = 0)
    (h : env.enrich s event = (.error exc, u)) :
    attempts env event (left + 1) s last =
      attempts env event left (pause env (env.consumer_max_retries - left) u) (some exc) := by
  rw [attempts]
  simp only [h, pause]
  by_cases hlt : env.consumer_max_retries - left < env.consumer_max_retries
  · simp only [if_pos hlt, backoff_ok env (env.consumer_max_retries - left) (by omega)]
  · simp only [if_neg hlt]

/-- The loop after its first `n` attempts have failed. -/
theorem attempts_after {event : ClickEventDTO} {s u : σ} {last : Option PyError} {n : ℕ}
    (h : AttemptsFail env event s n last u) (hn : n ≤ env.consumer_max_retries)
    (hsmall : n ≤ 1024 ∨ n = env.consumer_max_retries ∧ n ≤ 1025) :
    attempts env event env.consumer_max_retries s none =
      attempts env event (env.consumer_max_retries - n) u last := by
  induction h with
  | zero => rw [Nat.sub_zero]
  | @succ n last t u exc _ henrich ih =>
    rw [ih (by omega) (by omega)]
    have hleft : env.consumer_max_retries - n = env.consumer_max_retries - (n + 1) + 1 := by omega
    have hnum : env.consumer_max_retries - (env.consumer_max_retries - (n + 1)) = n + 1 := by omega
    rw [hleft, attempts_failed env (by omega) (by omega) henrich, hnum]

theorem attempts_exhausted {event : ClickEventDTO} {s u : σ} {last : Option PyError}
    (h : AttemptsFail env event s env.consumer_max_retries last u)
    (hsmall : env.consumer_max_retries ≤ 1025) :
    attempts env event env.consumer_max_retries s none = .exhausted last u := by
  rw [attempts_after env h le_rfl (by omega), Nat.sub_self, attempts]

theorem attempts_overflow {event : ClickEventDTO} {s u : σ} {last : Option PyError}
    (h : AttemptsFail env event s 1025 last u) (hlarge : 1025 < env.consumer_max_retries) :
    ∃ e u', attempts env event env.consumer_max_retries s none = .raised e u' := by
  cases h with
  | @succ _ last t u exc hfail henrich =>
    refine ⟨⟨"OverflowError", "int too large to convert to float", ""⟩, u, ?_⟩
    rw [attempts_after env hfail (by omega) (by omega)]
    have hleft : env.consumer_max_retries - 1024 = env.consumer_max_retries - 1025 + 1 := by omega
    have hnum : env.consumer_max_retries - (env.consumer_max_retries - 1025) = 1025 := by omega
    rw [hleft, attempts]
    simp only [henrich, hnum, if_pos hlarge, backoff_overflow]

/-- How the loop can end, from any point of it. -/
theorem attempts_cases {event : ClickEventDTO} {s : σ} :
    ∀ (left n : ℕ) (t : σ) (last : Option PyError), AttemptsFail env event s n last t →
      n + left = env.consumer_max_retries → (n ≤ 1024 ∨ left = 0 ∧ n ≤ 1025) →
      (∃ u, attempts env event left t last = .returned u) ∨
      (∃ last' u, attempts env event left t last = .exhausted last' u ∧
        AttemptsFail env event s env.consumer_max_retries last' u ∧
        env.consumer_max_retries ≤ 1025) ∨
      (1025 < env.consumer_max_retries ∧ ∃ last' u, AttemptsFail env event s 1025 last' u)
  | 0, n, t, last, h, hsum, hsmall => by
      have hn : n = env.consumer_max_retries := by omega
      subst hn
      exact .inr (.inl ⟨last, t, rfl, h, by omega⟩)
  | left + 1, n, t, last, h, hsum, hsmall => by
      rcases henrich : env.enrich t event with ⟨exc | _, u⟩
      · have hfail := AttemptsFail.succ h henrich
        have hnum : env.consumer_max_retries - left = n + 1 := by omega
        by_cases hover : n = 1024 ∧ left ≠ 0
        · obtain ⟨rfl, hleft⟩ := hover
          exact .inr (.inr ⟨by omega, _, _, hfail⟩)
        · rw [attempts_failed env (by omega) (by omega) henrich, hnum]
          exact attempts_cases left (n + 1) _ _ hfail (by omega) (by omega)
      · exact .inl ⟨_, by rw [attempts, henrich]⟩

/-! ## The outcome -/

theorem processOne_routed {record : ConsumerRecord} {s u : σ} {exc : Option PyError} {reason : String}
    (h : RoutedToDlq env record s exc reason u) :
    processOne env record s = outcomeOfSent (sendToDlq env u record exc reason) := by
  cases h with
  | poison hparse => rw [processOne, hparse]
  | exhausted hparse hmark hfail hsmall =>
    rw [processOne, hparse]
    simp only [hmark, attempts_exhausted env hfail hsmall]

theorem processOne_overflow {record : ConsumerRecord} {s : σ} (h : BackoffOverflows env record s) :
    ∃ e u, processOne env record s = (.error e, u) := by
  obtain ⟨hlarge, event, t, last, u, hparse, hmark, hfail⟩ := h
  obtain ⟨e, u', hraised⟩ := attempts_overflow env hfail hlarge
  exact ⟨e, u', by rw [processOne, hparse]; simp only [hmark, hraised]⟩

/-- The four ways through `_process_one`. -/
theorem processOne_cases (record : ConsumerRecord) (s : σ) :
    (∃ u, processOne env record s = (.ok .OK, u)) ∨
    (∃ exc reason u, RoutedToDlq env record s exc reason u) ∨ BackoffOverflows env record s := by
  cases hparse : parse env record with
  | error exc => exact .inr (.inl ⟨_, _, _, .poison hparse⟩)
  | ok event =>
    rcases hmark : isConsumerEventProcessed env s event.event_id with ⟨_ | _, t⟩
    · have hzero : AttemptsFail env event t 0 none t := .zero
      rcases attempts_cases env env.consumer_max_retries 0 t none hzero (by omega) (by omega) with
        ⟨u, hu⟩ | ⟨last, u, -, hfail, hsmall⟩ | ⟨hlarge, last, u, hfail⟩
      · exact .inl ⟨u, by rw [processOne, hparse]; simp only [hmark, hu]⟩
      · exact .inr (.inl ⟨_, _, _, .exhausted hparse hmark hfail hsmall⟩)
      · exact .inr (.inr ⟨hlarge, event, t, last, u, hparse, hmark, hfail⟩)
    · exact .inl ⟨t, by rw [processOne, hparse]; simp only [hmark]⟩

/-- `DLQ_OK` is returned right after the envelope of the record was acknowledged. -/
def AckedIfDlqOk (record : ConsumerRecord) (s : σ) : Prop :=
  ∀ s', processOne env record s = (.ok .DLQ_OK, s') →
    ∃ exc reason u bytes, RoutedToDlq env record s exc reason u ∧
      env.orjson.dumps (dlqMessage env record exc reason (env.now_ms u)) = .ok bytes ∧
      env.broker u bytes = (.ok (), s')

theorem processOne_acked (record : ConsumerRecord) (s : σ) : AckedIfDlqOk env record s := by
  intro s' h
  rcases processOne_cases env record s with ⟨u, hu⟩ | ⟨exc, reason, u, hrouted⟩ | hover
  · rw [hu] at h
    cases h
  · rw [processOne_routed env hrouted] at h
    obtain ⟨bytes, hd, hb⟩ := sendToDlq_true env (outcomeOfSent_dlq_ok h)
    exact ⟨exc, reason, u, bytes, hrouted, hd, hb⟩
  · obtain ⟨e, u, he⟩ := processOne_overflow env hover
    rw [he] at h
    cases h

/-- **Poison pills.** `_process_one` returns an outcome, `DLQ_OK` only after an acknowledged DLQ
send, exactly when the envelope of every record it routes to the DLQ can be serialized and the
back-off does not overflow. -/
theorem processOne_returns_iff (env : Env σ) (record : ConsumerRecord) (s : σ) :
    (∃ outcome, (processOne env record s).1 = .ok outcome) ∧ AckedIfDlqOk env record s ↔
      (∀ exc reason u, RoutedToDlq env record s exc reason u →
        Serializable env record exc reason u) ∧ ¬ BackoffOverflows env record s := by
  constructor
  · rintro ⟨⟨outcome, hout⟩, -⟩
    refine ⟨fun exc reason u hrouted => ?_, fun hover => ?_⟩
    · rw [processOne_routed env hrouted] at hout
      exact (sendToDlq_ok env).mp (outcomeOfSent_ok.mp ⟨outcome, hout⟩)
    · obtain ⟨e, u, he⟩ := processOne_overflow env hover
      rw [he] at hout
      cases hout
  · rintro ⟨hser, hover⟩
    refine ⟨?_, processOne_acked env record s⟩
    rcases processOne_cases env record s with ⟨u, hu⟩ | ⟨exc, reason, u, hrouted⟩ | h
    · exact ⟨.OK, by rw [hu]⟩
    · rw [processOne_routed env hrouted]
      exact outcomeOfSent_ok.mpr ((sendToDlq_ok env).mpr (hser exc reason u hrouted))
    · exact absurd h hover

/-! ## A poison pill that escapes

Nested arrays between the two limits are valid JSON for `loads`, no click event, and too deep for
`dumps`. -/

def bracketJson : Orjson where
  loads raw :=
    let n := raw.length / 2
    if 0 < n ∧ n ≤ 1024 ∧ raw = brackets n then .ok (.nest (n - 1))
    else .error ⟨"JSONDecodeError", "unexpected character", ""⟩
  dumps v :=
    if 255 < v.depth then .error ⟨"TypeError", "Recursion limit reached", ""⟩ else .ok []

theorem loads_brackets (n : ℕ) (h : n < 1024) :
    bracketJson.loads (brackets (n + 1)) = .ok (.nest n) := by
  have hlen : (brackets (n + 1)).length / 2 = n + 1 := by
    rw [length_brackets]
    omega
  have hpos : 0 < n + 1 ∧ n + 1 ≤ 1024 ∧ True := ⟨by omega, by omega, trivial⟩
  simp only [bracketJson, hlen]
  rw [if_pos hpos, Nat.add_sub_cancel]

theorem bracketJson_limits : bracketJson.Limits where
  loads_nested := loads_brackets
  dumps_deep _ h := ⟨_, if_pos h⟩

/-- Every dependency healthy; a list is no `ClickEventDTO`. -/
def healthyEnv : Env Unit where
  orjson := bracketJson
  validate _ := .error ⟨"ValidationError", "Input should be a valid dictionary", ""⟩
  consumer_max_retries := 3
  consumer_backoff_base_s := 1 / 2
  now_ms _ := 0
  exists_ s _ := (.ok false, s)
  enrich s _ := (.ok (), s)
  set s _ := (.ok (), s)
  broker s _ := (.ok (), s)
  sleep s _ := s

def nestedRecord (n : ℕ) : ConsumerRecord := ⟨"user.clicks", 0, 0, none, some (brackets (n + 1))⟩

theorem loads_nestedRecord {n : ℕ} (h : n < 1024) :
    healthyEnv.orjson.loads (rawValue (nestedRecord n)) = .ok (.nest n) := loads_brackets n h

theorem parse_nestedRecord {n : ℕ} (h : n < 1024) : parse healthyEnv (nestedRecord n) =
    .error ⟨"ValidationError", "Input should be a valid dictionary", ""⟩ := by
  rw [parse, loads_nestedRecord h]
  rfl

/-- The envelope holds the payload one level further down. -/
theorem depth_dlqMessage (record : ConsumerRecord) (exc : Option PyError) (reason : String)
    (now : ℤ) :
    (originalPayload env record).depth < (dlqMessage env record exc reason now).depth := by
  have hmem : ∀ kvs : List (String × Json), ("original_payload", originalPayload env record) ∈ kvs →
      (originalPayload env record).depth < (Json.obj kvs).depth := by
    intro kvs h
    rw [Json.depth]
    exact Nat.lt_succ_of_le (depth_le_depthEntries h)
  exact hmem _ (by simp)

theorem nested_payload_raises {n : ℕ} (h1 : 254 ≤ n) (h2 : n < 1024) :
    ∃ e, (processOne healthyEnv (nestedRecord n) ()).1 = .error e := by
  rw [processOne_routed healthyEnv (.poison (parse_nestedRecord h2))]
  have hpayload : originalPayload healthyEnv (nestedRecord n) = .nest n := by
    rw [originalPayload, loads_nestedRecord h2]
  have hdeep := depth_dlqMessage healthyEnv (nestedRecord n)
    (some ⟨"ValidationError", "Input should be a valid dictionary", ""⟩)
    "parse_or_validation_error" 0
  rw [hpayload, Json.depth_nest] at hdeep
  obtain ⟨e, he⟩ := bracketJson_limits.dumps_deep _ (lt_of_le_of_lt (by omega : 255 ≤ n + 1) hdeep)
  refine ⟨e, ?_⟩
  rw [sendToDlq, sendAndWait, show healthyEnv.orjson = bracketJson from rfl,
    show healthyEnv.now_ms () = 0 from rfl, he]
  rfl

theorem nested_payload_escapes :
    ¬ ∀ (env : Env Unit) (record : ConsumerRecord) (s : Unit), env.orjson.Limits →
      ∃ outcome, (processOne env record s).1 = .ok outcome := by
  intro h
  obtain ⟨outcome, hout⟩ := h healthyEnv (nestedRecord 299) () bracketJson_limits
  obtain ⟨e, he⟩ := nested_payload_raises (n := 299) (by omega) (by omega)
  rw [he] at hout
  cases hout

end ClickRec.Kafka.ProcessOne
