import ClickRec.Cache.Keyspace
import ClickRec.Llm.ReRanker

/-! # `GeminiClient` and the functions that call it

The provider may answer anything: time out, raise an `Exception`, or respond with any `parsed` value
and any text. `json.loads` and pydantic's `model_validate` are parameters; the layer catches the
`JSONDecodeError` of the former and the `ValidationError` of the latter. -/
namespace ClickRec.Llm.Client
set_option autoImplicit false
open Kafka (Bytes)

/-! ## The libraries -/

/-- `json`, its `loads` on a `str` and on `bytes`. -/
structure JsonLib where
  loads : String → Except PyError Json
  loads_bytes : Bytes → Except PyError Json
  dumps : Json → String

/-- `model_validate` raises a `ValidationError` or returns a value of the schema. -/
structure Schema (α : Type) where
  model_validate : Json → Option α

def isSpace (c : Char) : Bool :=
  let n := c.toNat
  (0x09 ≤ n && n ≤ 0x0D) || (0x1C ≤ n && n ≤ 0x20) || n == 0x85 || n == 0xA0 || n == 0x1680 ||
    (0x2000 ≤ n && n ≤ 0x200A) || n == 0x2028 || n == 0x2029 || n == 0x202F || n == 0x205F ||
    n == 0x3000

/-- `s.strip()`. -/
def strip (s : String) : String :=
  String.ofList ((s.toList.dropWhile isSpace).reverse.dropWhile isSpace).reverse

/-! ## The schemas -/

inductive PriceBias where
  | low
  | med
  | high

structure QueryIntent where
  category : Option String
  attrs : List String
  price_bias : Option PriceBias
  max_length : attrs.length ≤ 10

structure JudgeVerdict where
  relevance_score : ℚ
  reasoning : String
  score_ge : 0 ≤ relevance_score
  score_le : relevance_score ≤ 1
  reasoning_le : reasoning.length ≤ 500

def PriceBias.value : PriceBias → String
  | low => "low"
  | med => "med"
  | high => "high"

/-- `intent.model_dump(mode="json")`. -/
def QueryIntent.modelDump (intent : QueryIntent) : Json :=
  .obj [("category", jsonOption .str intent.category), ("attrs", .arr (intent.attrs.map .str)),
    ("price_bias", jsonOption (fun bias => .str bias.value) intent.price_bias)]

/-! ## What the provider answers -/

inductive Parsed (α : Type) where
  -- an instance of the schema
  | model (value : α)
  | dict (entries : List (String × Json))
  | other

/-- The texts that are a `str`; a candidate is the texts of its parts. -/
structure GenerateResponse (α : Type) where
  parsed : Parsed α
  text : Option String
  candidates : List (List (Option String))
  usage_metadata : Option (Option ℕ × Option ℕ)

inductive SdkOutcome (α : Type) where
  | timeout
  | raised (e : PyError)
  | response (r : GenerateResponse α)

/-! ## `_call` with a schema -/

inductive CallError where
  | llm (e : LLMFailure)
  -- no handler of the layer catches it
  | escaped (e : PyError)

structure LLMResult (α : Type) where
  parsed : α
  prompt_tokens : ℕ
  completion_tokens : ℕ

/-- What a call ends with, and the outcomes it counts in `llm_request_total`. -/
structure Called (α : Type) where
  result : Except CallError (LLMResult α)
  outcomes : List String

section Call
variable {α : Type}

def candidateText (r : GenerateResponse α) : String :=
  match r.candidates with
  | [] => ""
  | parts :: _ => strip (String.join (parts.filterMap id))

def extractText (r : GenerateResponse α) : String :=
  match r.text with
  | none => candidateText r
  | some text => if text = "" then candidateText r else strip text

def extractTokenCounts (r : GenerateResponse α) : ℕ × ℕ :=
  match r.usage_metadata with
  | none => (0, 0)
  | some (prompt_tok, completion_tok) => (prompt_tok.getD 0, completion_tok.getD 0)

/-- The value of the `parsed` attribute, when the text is not needed. -/
def fromParsed (schema : Schema α) (r : GenerateResponse α) : Option α :=
  match r.parsed with
  | .model value => some value
  | .dict entries => schema.model_validate (.obj entries)
  | .other => none

/-- `except (json.JSONDecodeError, ValidationError)`. -/
def parseText (json : JsonLib) (schema : Schema α) (text : String) : Except PyError (Option α) :=
  if text = "" then .ok none
  else
    match json.loads text with
    | .ok payload => .ok (schema.model_validate payload)
    | .error e => if e.cls = "JSONDecodeError" then .ok none else .error e

def parseStructured (json : JsonLib) (schema : Schema α) (r : GenerateResponse α) :
    Except PyError (Option α) :=
  match fromParsed schema r with
  | some value => .ok (some value)
  | none => parseText json schema (extractText r)

def generateJson (json : JsonLib) (schema : Schema α) : SdkOutcome α → Called α
  | .timeout => ⟨.error (.llm .timeout), ["timeout"]⟩
  | .raised _ => ⟨.error (.llm .error), ["error"]⟩
  | .response r =>
    match parseStructured json schema r with
    | .error e => ⟨.error (.escaped e), []⟩
    | .ok none => ⟨.error (.llm .parse), ["parse_error"]⟩
    | .ok (some value) =>
      ⟨.ok ⟨value, (extractTokenCounts r).1, (extractTokenCounts r).2⟩, ["success"]⟩

/-- The `except` clauses of a caller: for each class of `LLMError` the reason it counts in
`llm_fallback_total` before it returns None. -/
def failOpen (reason : LLMFailure → String) (called : Called α) : Except PyError (Except String α) :=
  match called.result with
  | .ok result => .ok (.ok result.parsed)
  | .error (.llm e) => .ok (.error (reason e))
  | .error (.escaped e) => .error e

end Call

/-! ## The callers -/

structure Provider where
  rerank : (model prompt : String) → (timeout : ℚ) → SdkOutcome RerankResult
  intent : (model prompt : String) → (timeout : ℚ) → SdkOutcome QueryIntent
  verdict : (model prompt : String) → (timeout : ℚ) → SdkOutcome JudgeVerdict

structure Config extends LLMConfig where
  query_understanding_timeout : ℚ
  query_understanding_cache_ttl : ℤ
  judge_timeout : ℚ

def defaultConfig : Config where
  toLLMConfig := defaultLLMConfig
  query_understanding_timeout := 3 / 2
  query_understanding_cache_ttl := 300
  judge_timeout := 10

/-- The cache of intents: `GET` and `SET` return or raise a `RedisError`. -/
structure IntentCache where
  get : (key : String) → Except PyError (Option Bytes)
  set : (key value : String) → (ex : ℤ) → Except PyError Unit

/-- What the layer runs with; without an API key there is no client. -/
structure LlmEnv where
  json : JsonLib
  rerank_schema : Schema RerankResult
  intent_schema : Schema QueryIntent
  verdict_schema : Schema JudgeVerdict
  sha256 : ByteArray → List UInt8
  lower : String → String
  runtime_model : String
  judge_model : String
  get_client : Option Provider

/-- The reasons of `rerank_top_k` and `understand_query`. -/
def reason : LLMFailure → String
  | .timeout => "timeout"
  | .parse => "parse_error"
  | _ => "error"

/-- `judge_ranking` has no clause for `LLMParseError`. -/
def judgeReason : LLMFailure → String
  | .timeout => "timeout"
  | _ => "error"

variable (env : LlmEnv)

/-! ### `rerank_top_k` -/

def rerankHead (candidates : List RankedItemDTO) (cfg : Config) : List RankedItemDTO :=
  PyList.sliceTo candidates cfg.re_rank_input_k

def rerankPrompt (query : String) (candidates : List RankedItemDTO)
    (user_profile_summary : Option String) (cfg : Config) : String :=
  format RERANK_PROMPT <| rerankArgs query cfg.re_rank_top_k user_profile_summary
    (formatCandidateBlock (rerankHead candidates cfg))

def rerankTopK (query : String) (candidates : List RankedItemDTO)
    (user_profile_summary : Option String) (cfg : Config) : Except PyError Reranked :=
  if candidates.isEmpty then .ok ⟨none, []⟩
  else
    match env.get_client with
    | none => .ok ⟨none, ["unavailable"]⟩
    | some client =>
      (failOpen reason (generateJson env.json env.rerank_schema (client.rerank env.runtime_model
        (rerankPrompt query candidates user_profile_summary cfg) cfg.re_rank_timeout))).map fun
        | .error why => ⟨none, [why]⟩
        | .ok rerank => ⟨some (reorder (rerankHead candidates cfg) rerank), []⟩

/-! ### `understand_query` -/

/-- What a call returns, the reasons it counts, whether it counts a cache hit, and what it writes. -/
structure Understood where
  result : Option QueryIntent
  fallback : List String
  cache_hit : Bool
  stored : Option (String × String × ℤ)

def cacheKey (query : String) : String :=
  "llm:qu:" ++ Cache.hexdigest (env.sha256 (env.lower (strip query)).toUTF8)

/-- `GET`, with None in the place of a `RedisError`. -/
def cachedRaw (redis_client : Option IntentCache) (key : String) : Option Bytes :=
  match redis_client with
  | none => none
  | some cache =>
    match cache.get key with
    | .ok raw => raw
    | .error _ => none

/-- The cached intent and whether the hit is counted, which is before it is validated. -/
def fromCache (raw : Option Bytes) : Option QueryIntent × Bool :=
  match raw with
  | none => (none, false)
  | some bytes =>
    match env.json.loads_bytes bytes with
    | .error _ => (none, false)
    | .ok payload => (env.intent_schema.model_validate payload, true)

def intentPrompt (query : String) : String :=
  format QUERY_UNDERSTANDING_PROMPT fun
    | "query" => query
    | _ => ""

/-- A `RedisError` of `SET` is logged. -/
def storeIntent (redis_client : Option IntentCache) (key : String) (intent : QueryIntent)
    (cfg : Config) : Option (String × String × ℤ) :=
  match redis_client with
  | none => none
  | some cache =>
    let value := env.json.dumps intent.modelDump
    match cache.set key value cfg.query_understanding_cache_ttl with
    | .ok () => some (key, value, cfg.query_understanding_cache_ttl)
    | .error _ => none

def understandQuery (query : String) (redis_client : Option IntentCache) (cfg : Config) :
    Except PyError Understood :=
  let key := cacheKey env query
  match fromCache env (cachedRaw redis_client key) with
  | (some intent, hit) => .ok ⟨some intent, [], hit, none⟩
  | (none, hit) =>
    match env.get_client with
    | none => .ok ⟨none, ["unavailable"], hit, none⟩
    | some client =>
      (failOpen reason (generateJson env.json env.intent_schema (client.intent env.runtime_model
        (intentPrompt query) cfg.query_understanding_timeout))).map fun
        | .error why => ⟨none, [why], hit, none⟩
        | .ok intent => ⟨some intent, [], hit, storeIntent env redis_client key intent cfg⟩

/-! ### `judge_ranking` -/

structure Judged where
  result : Option JudgeVerdict
  fallback : List String

/-- One of the ranked items, a dict. -/
def rankedLine (i : ℕ) (it : List (String × String)) : String :=
  " | ".intercalate (toString (i + 1) ::
    ["id", "title", "category", "brand"].map fun field => (it.lookup field).getD "?")

def formatRankedBlock (items : List (List (String × String))) : String :=
  "\n".intercalate (items.mapIdx rankedLine)

def judgePrompt (query : String) (ranked_top_10 : List (List (String × String))) : String :=
  format JUDGE_PROMPT fun
    | "query" => query
    | "ranked_block" => formatRankedBlock (ranked_top_10.take 10)
    | _ => ""

def judgeRanking (query : String) (ranked_top_10 : List (List (String × String))) (cfg : Config) :
    Except PyError Judged :=
  if ranked_top_10.isEmpty then .ok ⟨none, []⟩
  else
    match env.get_client with
    | none => .ok ⟨none, ["unavailable"]⟩
    | some client =>
      (failOpen judgeReason (generateJson env.json env.verdict_schema (client.verdict env.judge_model
        (judgePrompt query ranked_top_10) cfg.judge_timeout))).map fun
        | .error why => ⟨none, [why]⟩
        | .ok verdict => ⟨some verdict, []⟩

end ClickRec.Llm.Client
