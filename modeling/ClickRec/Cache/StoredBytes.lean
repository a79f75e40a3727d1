import ClickRec.Cache.CachedRead
import ClickRec.Llm.Client
import ClickRec.Ranker.Embedder

/-! # Any bytes in the caches

The bytes under a key may be anything. A cached intent that cannot be read is a miss; a cached item
or a cached query vector is decoded without a handler. -/
namespace ClickRec.Cache
set_option autoImplicit false
open Kafka (Bytes)
open Llm.Client (IntentCache LLMResult LlmEnv)
open Ranker (Embedder RedisClient encodeQuery)

/-! ## `get_item_cached` -/

section Item
variable {ι : Type} {codec : Codec} {caller_id : ι → Bytes} {i : ι} {s t : Store ι} {l m : Stage}

/-- The null sentinel, or the JSON of an item. -/
def Codec.Readable (codec : Codec) (raw : Bytes) : Prop :=
  raw = nullSentinel ∨ ∃ dto, codec.validateJson raw = .ok dto

theorem present_of_readable {raw : Bytes} (h : codec.Readable raw) :
    ∃ dto, present codec raw = .done dto .cache := by
  rw [present, Codec.deserializeItem]
  obtain hnull | ⟨dto, hdto⟩ := h
  · exact ⟨none, by rw [if_pos hnull]⟩
  · rw [hdto]
    split
    · rename_i dto' _
      exact ⟨dto', rfl⟩
    · rename_i e he
      split at he
      · cases he
      · cases he

theorem present_of_not_readable {raw : Bytes} (h : ¬ codec.Readable raw) :
    ∃ e, present codec raw = .raised e := by
  obtain ⟨hnull, hjson⟩ := not_or.mp h
  rw [present, Codec.deserializeItem, if_neg hnull]
  cases hraw : codec.validateJson raw with
  | ok dto => exact absurd ⟨dto, hraw⟩ hjson
  | error e => exact ⟨e, rfl⟩

theorem readable_payload {row : Option ItemDTO} (h : codec.RoundTrips row) :
    codec.Readable (codec.payload row) := by
  cases row with
  | none => exact .inl rfl
  | some dto => exact .inr ⟨dto, h.1⟩

/-- What the key holds can be read, and so can what a caller would write there. -/
structure ReadableStore (codec : Codec) (s : Store ι) : Prop where
  item : ∀ raw, s.item = some raw → codec.Readable raw
  row : codec.RoundTrips s.row

def Stage.Returning (codec : Codec) : Stage → Prop
  | populating dto => codec.RoundTrips dto
  | releasing (.error _) => False
  | raised _ => False
  | _ => True

theorem returning_present {raw : Bytes} (h : codec.Readable raw) :
    (present codec raw).Returning codec := by
  obtain ⟨dto, hdto⟩ := present_of_readable h
  rw [hdto]
  trivial

theorem returning_returned {result : Except PyError (Option ItemDTO)}
    (h : (Stage.releasing result).Returning codec) : (returned result).Returning codec := by
  cases result with
  | ok dto => trivial
  | error e => exact h

theorem readableStore_populated {dto : Option ItemDTO} (h : ReadableStore codec s)
    (hdto : codec.RoundTrips dto) :
    ReadableStore codec { s with item := some (codec.payload dto) } where
  item raw hraw := by
    rw [← Option.some.inj hraw]
    exact readable_payload hdto
  row := h.row

/-- While SELECTs succeed, only the bytes under the key can make a caller raise. -/
theorem CallerStep.returning {a : Event} (h : CallerStep codec caller_id i s l a t m)
    (hs : ReadableStore codec s) (hl : l.Returning codec) (hselect : ∀ e, a ≠ .select (.error e)) :
    ReadableStore codec t ∧ m.Returning codec := by
  cases h with
  | hit hitem => exact ⟨hs, returning_present (hs.item _ hitem)⟩
  | miss hitem => exact ⟨hs, trivial⟩
  | getFailed => exact ⟨hs, trivial⟩
  | acquire hlock => exact ⟨⟨hs.item, hs.row⟩, trivial⟩
  | wait hlock => exact ⟨hs, trivial⟩
  | @setLockFailed took =>
    cases took with
    | true => exact ⟨⟨hs.item, hs.row⟩, trivial⟩
    | false => exact ⟨hs, trivial⟩
  | pollHit hitem => exact ⟨hs, returning_present (hs.item _ hitem)⟩
  | pollMiss hitem => exact ⟨hs, trivial⟩
  | pollFailed => exact ⟨hs, trivial⟩
  | timeout => exact ⟨hs, trivial⟩
  | fallback => exact ⟨⟨hs.item, hs.row⟩, trivial⟩
  | fallbackFailed => exact absurd rfl (hselect _)
  | fill => exact ⟨⟨hs.item, hs.row⟩, hs.row⟩
  | fillFailed => exact absurd rfl (hselect _)
  | populate => exact ⟨readableStore_populated hs hl, trivial⟩
  | @populateFailed dto took =>
    cases took with
    | true => exact ⟨readableStore_populated hs hl, trivial⟩
    | false => exact ⟨hs, trivial⟩
  | release => exact ⟨⟨hs.item, hs.row⟩, returning_returned hl⟩
  | @releaseFailed result took =>
    cases took with
    | true => exact ⟨⟨hs.item, hs.row⟩, returning_returned hl⟩
    | false => exact ⟨hs, returning_returned hl⟩

variable [DecidableEq ι]

structure ReturningCallers (codec : Codec) (c : Callers ι) : Prop where
  store : ReadableStore codec c.shared
  callers : ∀ i, (c.locals i).Returning codec

theorem returningCallers_step {c d : Callers ι} {a : CallerAct ι} (h : ReturningCallers codec c)
    (hrow : ∀ row, a = .env (.setRow row) → codec.RoundTrips row)
    (hselect : ∀ i e, a ≠ .proc i (.select (.error e)))
    (hstep : callersStep codec caller_id c a = some d) : ReturningCallers codec d := by
  cases a with
  | env e =>
    obtain ⟨hout, hlocals⟩ := Trace.turn_env hstep
    refine ⟨?_, hlocals ▸ h.callers⟩
    cases e with
    | expireItem =>
      rw [← Option.some.inj hout]
      exact ⟨fun raw hraw => (nomatch hraw), h.store.row⟩
    | expireLock =>
      rw [← Option.some.inj hout]
      exact ⟨h.store.item, h.store.row⟩
    | setRow row =>
      rw [← Option.some.inj hout]
      exact ⟨h.store.item, hrow row rfl⟩
  | proc i a =>
    obtain ⟨q, m, hcaller, hq, hm, hframe⟩ := Trace.turn_proc hstep
    obtain ⟨hstore, hreturning⟩ := (callerStep_cases hcaller).returning h.store (h.callers i)
      fun e he => hselect i e (by rw [he])
    exact ⟨hq ▸ hstore, Trace.forall_locals (P := fun _ l => l.Returning codec) hm hframe hreturning
      h.callers⟩

/-- With these bytes under the key every caller returns: it has, or it can go on whatever Redis
answers, and it sends five commands at most besides its polls. A caller may be polling already when
the bytes come. -/
def CallersReturn (codec : Codec) (caller_id : ι → Bytes) (raw : Bytes) : Prop :=
  ∀ (lock : Option Bytes) (row : Option ItemDTO) (callers : ι → Stage) (as : List (CallerAct ι))
    (c : Callers ι), (∀ i, callers i = .start ∨ callers i = .waiting) → codec.RoundTrips row →
    (∀ row, .env (.setRow row) ∈ as → codec.RoundTrips row) →
    (∀ i e, .proc i (.select (.error e)) ∉ as) →
    Trace.exec (callersStep codec caller_id) ⟨⟨some raw, lock, row, []⟩, callers⟩ as = some c →
    ∀ i, as.countP (commandOf i) ≤ 5 ∧ ∀ r, (∃ dto source, c.locals i = .done dto source) ∨
      ∃ a d, (c.locals i).next r = some a ∧ callersStep codec caller_id c (.proc i a) = some d

theorem callersReturn_of_readable (caller_id : ι → Bytes) {raw : Bytes} (h : codec.Readable raw) :
    CallersReturn codec caller_id raw := by
  intro lock row callers as c hcallers hrow hrows hselect hrun i
  have hstart : ReturningCallers codec ⟨⟨some raw, lock, row, []⟩, callers⟩ := by
    refine ⟨⟨fun b hb => ?_, hrow⟩, fun j => ?_⟩
    · rw [← Option.some.inj hb]
      exact h
    · change (callers j).Returning codec
      obtain hj | hj := hcallers j <;> rw [hj] <;> trivial
  have hreturning : ReturningCallers codec c := by
    refine Trace.exec_invariant (C := fun _ a => a ∈ as) (fun _ a _ hI ha hstep => ?_)
      (Trace.along_of_mem fun a ha => ha) hrun hstart
    exact returningCallers_step hI (fun row' h' => hrows row' (h' ▸ ha))
      (fun j e h' => hselect j e (h' ▸ ha)) hstep
  constructor
  · have hremaining := remaining_exec hrun i
    have hfirst : (callers i).remaining ≤ 5 := by
      obtain hi | hi := hcallers i <;> rw [hi] <;> decide
    simp only at hremaining
    omega
  · intro r
    cases hnext : (c.locals i).next r with
    | none =>
      obtain hdone | ⟨e, hi⟩ := next_eq_none hnext
      · exact .inl hdone
      · have hraised := hreturning.callers i
        rw [hi] at hraised
        exact hraised.elim
    | some a =>
      obtain ⟨⟨q, m⟩, hq⟩ := Option.isSome_iff_exists.mp
        (callerStep_next codec caller_id i c.shared r hnext)
      exact .inr ⟨a, ⟨q, Function.update c.locals i m⟩, rfl, by
        rw [callersStep, Trace.turn, hq]
        rfl⟩

theorem callersReturn_iff [Nonempty ι] (codec : Codec) (caller_id : ι → Bytes) (raw : Bytes) :
    CallersReturn codec caller_id raw ↔ codec.Readable raw := by
  refine ⟨fun h => ?_, callersReturn_of_readable caller_id⟩
  by_contra hnot
  obtain ⟨e, he⟩ := present_of_not_readable hnot
  obtain ⟨i⟩ := ‹Nonempty ι›
  have hget : Trace.exec (callersStep codec caller_id)
      ⟨⟨some raw, none, none, []⟩, fun _ => .start⟩ [.proc i (.get .ok)] =
        some ⟨⟨some raw, none, none, []⟩, Function.update (fun _ => .start) i (.raised e)⟩ := by
    simp [Trace.exec, callersStep, Trace.turn, callerStep, he]
  obtain ⟨-, hends⟩ := h none none (fun _ => .start) [.proc i (.get .ok)] _ (fun _ => .inl rfl)
    trivial (by simp) (by simp) hget i
  obtain ⟨dto, source, hdone⟩ | ⟨a, d, hnext, -⟩ := hends .ok
  · simp at hdone
  · simp [Stage.next] at hnext

end Item

/-! ## `encode_query` -/

section Embedding
variable {K : Type} {embedder : Embedder K} {dim : ℕ}

/-- `np.frombuffer` with four bytes for each number. -/
structure ReadsFloat32 (embedder : Embedder K) : Prop where
  size : ∀ raw vec, embedder.decode_payload raw = .ok vec → raw.length = 4 * vec.length
  reads : ∀ raw, raw ≠ [] → raw.length % 4 = 0 → ∃ vec, embedder.decode_payload raw = .ok vec

theorem decode_payload_iff (h : ReadsFloat32 embedder) (hdim : 0 < dim) (raw : Bytes) :
    (∃ vec, embedder.decode_payload raw = .ok vec ∧ vec.length = dim) ↔ raw.length = 4 * dim := by
  constructor
  · rintro ⟨vec, hvec, rfl⟩
    exact h.size raw vec hvec
  · intro hlength
    have hne : raw ≠ [] := by
      rintro rfl
      rw [List.length_nil] at hlength
      omega
    obtain ⟨vec, hvec⟩ := h.reads raw hne (by omega)
    have hsize := h.size raw vec hvec
    exact ⟨vec, hvec, by omega⟩

variable [LinearOrder K]

theorem encodeQuery_stored {client : RedisClient K} {query : String} {raw : Bytes}
    (hget : client.outcome (.get (embeddingKey embedder.sha1 embedder.embedding_model query)) = .ok)
    (hraw : client.strings (embeddingKey embedder.sha1 embedder.embedding_model query) = some raw) :
    (encodeQuery embedder (some client) query).1 = embedder.decode_payload raw := by
  simp only [encodeQuery, RedisClient.get, RedisClient.reply, hget, hraw]

end Embedding

/-! ## `understand_query` -/

/-- The LLM answers with an intent. -/
def AnswersIntent (env : LlmEnv) (query : String) (cfg : Llm.Client.Config) : Prop :=
  ∃ client, env.get_client = some client ∧ ∃ result : LLMResult Llm.Client.QueryIntent,
    (Llm.Client.generateJson env.json env.intent_schema (client.intent env.runtime_model
      (Llm.Client.intentPrompt query) cfg.query_understanding_timeout)).result = .ok result

/-- Whatever is cached, there is an intent, from the cache or from the LLM. -/
theorem understandQuery_stored {env : LlmEnv} {query : String} {cfg : Llm.Client.Config}
    (h : AnswersIntent env query cfg) (redis_client : Option IntentCache) :
    ∃ understood intent, Llm.Client.understandQuery env query redis_client cfg = .ok understood ∧
      understood.result = some intent := by
  obtain ⟨client, hclient, result, hresult⟩ := h
  unfold Llm.Client.understandQuery
  simp only
  split
  · rename_i intent hit _
    exact ⟨_, intent, rfl, rfl⟩
  · rw [hclient]
    simp only [Llm.Client.failOpen, hresult]
    exact ⟨_, result.parsed, rfl, rfl⟩

/-! ## All three -/

/-- **When stored bytes do no harm.** Cached items as long as they are the null sentinel or the JSON
of an item, cached query vectors as long as they have the size of one of the model, and cached
intents always. -/
theorem stored_bytes_harmless_iff {ι K : Type} [DecidableEq ι] [Nonempty ι] [LinearOrder K]
    (codec : Codec) (caller_id : ι → Bytes) (item_raw : Bytes) {embedder : Embedder K} {dim : ℕ}
    (hfloats : ReadsFloat32 embedder) (hdim : 0 < dim) {client : RedisClient K} {query : String}
    (hget : client.outcome (.get (embeddingKey embedder.sha1 embedder.embedding_model query)) = .ok)
    {vector_raw : Bytes} (hvector : client.strings
      (embeddingKey embedder.sha1 embedder.embedding_model query) = some vector_raw)
    {env : LlmEnv} {cfg : Llm.Client.Config} (hllm : AnswersIntent env query cfg)
    (redis_client : Option IntentCache) :
    (CallersReturn codec caller_id item_raw ↔ codec.Readable item_raw) ∧
    ((∃ vec, (encodeQuery embedder (some client) query).1 = .ok vec ∧ vec.length = dim) ↔
      vector_raw.length = 4 * dim) ∧
    ∃ understood intent, Llm.Client.understandQuery env query redis_client cfg = .ok understood ∧
      understood.result = some intent := by
  refine ⟨callersReturn_iff codec caller_id item_raw, ?_, understandQuery_stored hllm redis_client⟩
  rw [encodeQuery_stored hget hvector]
  exact decode_payload_iff hfloats hdim vector_raw

/-! ## Bytes of an older deploy -/

/-- A model of dimension 384 whose vectors are all zero. -/
def zeroEmbedder : Embedder ℚ where
  embedding_model := "all-MiniLM-L6-v2"
  sha1 bytes := bytes.data.toList
  encode _ := .ok (List.replicate 384 0)
  encode_payload vec := List.replicate (4 * vec.length) 0
  decode_payload raw :=
    if raw.length % 4 = 0 then .ok (List.replicate (raw.length / 4) 0)
    else .error ⟨"ValueError", "buffer size must be a multiple of element size", ""⟩

theorem zeroEmbedder_readsFloat32 : ReadsFloat32 zeroEmbedder where
  size raw vec h := by
    simp only [zeroEmbedder] at h
    split at h
    · rw [← Except.ok.inj h, List.length_replicate]
      omega
    · cases h
  reads raw _ h := ⟨_, if_pos h⟩

/-- Redis with these bytes under every key. -/
def holding (raw : Bytes) : RedisClient ℚ := ⟨fun _ => .empty, fun _ => some raw, fun _ => .ok⟩

def noAttributes : Llm.Client.QueryIntent := ⟨some "shoes", [], none, Nat.zero_le 10⟩

/-- Its answer is always the same intent. -/
def shoesEnv : LlmEnv where
  json := ⟨fun _ => .ok .null, fun _ => .ok .null, fun _ => ""⟩
  rerank_schema := ⟨fun _ => none⟩
  intent_schema := ⟨fun _ => none⟩
  verdict_schema := ⟨fun _ => none⟩
  sha256 _ := []
  lower := id
  runtime_model := "gemini-2.5-flash"
  judge_model := "gemini-2.5-pro"
  get_client := some
    ⟨fun _ _ _ => .timeout, fun _ _ _ => .response ⟨.model noAttributes, none, [], none⟩,
      fun _ _ _ => .timeout⟩

theorem shoesEnv_answers (query : String) (cfg : Llm.Client.Config) :
    AnswersIntent shoesEnv query cfg := ⟨_, rfl, _, rfl⟩

theorem stored_bytes_harmless_iff_zeros :
    (CallersReturn shoeCodec callerId shoeJson ↔ shoeCodec.Readable shoeJson) ∧
    ((∃ vec, (encodeQuery zeroEmbedder (some (holding (List.replicate 1536 0))) "shoes").1 = .ok vec ∧
        vec.length = 384) ↔ (List.replicate 1536 (0 : UInt8)).length = 4 * 384) ∧
    ∃ understood intent, Llm.Client.understandQuery shoesEnv "shoes" none
      Llm.Client.defaultConfig = .ok understood ∧ understood.result = some intent :=
  stored_bytes_harmless_iff shoeCodec callerId shoeJson zeroEmbedder_readsFloat32 (by decide) rfl
    rfl (shoesEnv_answers _ _) none

/-- An item that is no JSON, and a vector of half the dimension. -/
theorem corrupt_entries_not_misses :
    (¬ ∀ (codec : Codec) (caller_id : Trace.Two → Bytes) (raw : Bytes),
      CallersReturn codec caller_id raw) ∧
    ¬ ∀ (embedder : Embedder ℚ) (client : RedisClient ℚ) (query : String), ReadsFloat32 embedder →
      (∀ q, ∃ vec, embedder.encode q = .ok vec ∧ vec.length = 384) →
      ∃ vec, (encodeQuery embedder (some client) query).1 = .ok vec ∧ vec.length = 384 := by
  constructor
  · intro h
    obtain hnull | ⟨dto, hdto⟩ := (callersReturn_iff shoeCodec callerId _).mp
      (h shoeCodec callerId [0x80])
    · exact absurd hnull (by decide)
    · have hother : [0x80] ≠ shoeJson := by
        rw [shoeJson]
        intro heq
        exact absurd (List.cons.inj heq).1 (by decide)
      simp [shoeCodec, hother] at hdto
  · intro h
    have hhalf := h zeroEmbedder (holding (List.replicate 768 0)) "shoes" zeroEmbedder_readsFloat32
      fun _ => ⟨_, rfl, List.length_replicate⟩
    rw [encodeQuery_stored rfl rfl, decode_payload_iff zeroEmbedder_readsFloat32 (by decide),
      List.length_replicate] at hhalf
    exact absurd hhalf (by decide)

end ClickRec.Cache
