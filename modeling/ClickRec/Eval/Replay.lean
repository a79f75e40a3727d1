import ClickRec.Eval.Metrics
import ClickRec.Lib.StoredSet
import ClickRec.Llm.Client
import ClickRec.Ranker.Pipeline

/-! # The evaluation passes

Each triple of the replay log is ranked with the clicked item held out of the user's recent clicks:
it is removed before and added again in a `finally`. What a triple meets (a session that cannot be
opened, the state of Postgres, the clock, the LLM) may differ from one triple to the next. -/
namespace ClickRec.Eval
set_option autoImplicit false
open Kafka (Bytes recentKey)
open Llm (RankedItemDTO)
open Ranker

structure Triple where
  user_id : String
  query : String
  item_id : String

/-! ## Redis -/

inductive HoldoutCommand where
  | zscore (key : String)
  | zrem (key : String)
  | zadd (key : String)

/-- What is stored, and how each command ends. -/
structure EvalRedis where
  zsets : String → StoredSet ℚ String
  strings : String → Option Bytes
  outcome : RedisCommand → Outcome
  holdout_outcome : HoldoutCommand → Outcome

namespace EvalRedis

/-- The client as the ranker sees it. -/
def client (redis : EvalRedis) : RedisClient ℚ where
  zsets key := (redis.zsets key).members
  strings := redis.strings
  outcome := redis.outcome

def onZset (redis : EvalRedis) (key : String) (f : StoredSet ℚ String → StoredSet ℚ String) :
    EvalRedis :=
  { redis with zsets := Function.update redis.zsets key (f (redis.zsets key)) }

/-- A command that changes the sorted set of its key; an error may come before it took effect. -/
def write (redis : EvalRedis) (outcome : Outcome) (key : String)
    (f : StoredSet ℚ String → StoredSet ℚ String) : EvalRedis :=
  match outcome with
  | .error false => redis
  | _ => redis.onZset key f

end EvalRedis

/-! ## The holdout -/

/-- The score removed; every exception of Redis is logged and passed over. -/
def holdoutRemove (redis_client : Option EvalRedis) (user_id item_id : String) :
    Option ℚ × Option EvalRedis :=
  match redis_client with
  | none => (none, none)
  | some redis =>
    let key := recentKey user_id
    match redis.holdout_outcome (.zscore key), (redis.zsets key).members.zscore item_id with
    | .error _, _ => (none, some redis)
    | .ok, none => (none, some redis)
    | .ok, some prior =>
      let outcome := redis.holdout_outcome (.zrem key)
      let redis' := redis.write outcome key fun s => s.zrem item_id
      match outcome with
      | .ok => (some prior, some redis')
      | .error _ => (none, some redis')

def holdoutRestore (redis_client : Option EvalRedis) (user_id item_id : String)
    (prior_score : Option ℚ) : Option EvalRedis :=
  match redis_client, prior_score with
  | some redis, some prior =>
    let key := recentKey user_id
    some (redis.write (redis.holdout_outcome (.zadd key)) key fun s => s.zadd item_id prior)
  | redis_client, _ => redis_client

/-- `holdout_remove`, the block of the `try`, and `holdout_restore` in its `finally`. -/
def heldOut {α : Type} (t : Triple) (block : Option EvalRedis → α × Option EvalRedis)
    (redis_client : Option EvalRedis) : α × Option EvalRedis :=
  let (prior_score, redis_client) := holdoutRemove redis_client t.user_id t.item_id
  let (result, redis_client) := block redis_client
  (result, holdoutRestore redis_client t.user_id t.item_id prior_score)

/-! ## What a triple meets -/

/-- A session over the database, at some time. -/
structure Session where
  env : Ranker.Env
  db : Postgres ℚ

/-- What `rank` leaves: the query vector may be cached. -/
def afterRank (env : Ranker.Env) (redis_client : Option EvalRedis) (query : String) :
    Option EvalRedis :=
  match redis_client, (encodeQuery env.embedder (redis_client.map (·.client)) query).2 with
  | some redis, some client => some { redis with strings := client.strings }
  | redis_client, _ => redis_client

/-- `rank` in a session of its own. -/
def rankTriple (session : Except PyError Session) (cfg : RankerConfig ℚ) (limit : ℤ) (t : Triple)
    (redis_client : Option EvalRedis) : Except PyError (List RankedItemDTO) × Option EvalRedis :=
  match session with
  | .error e => (.error e, redis_client)
  | .ok s =>
    (rank s.env s.db cfg (redis_client.map (·.client)) (some t.query) (some t.user_id) limit none,
      afterRank s.env redis_client t.query)

/-- The two sessions that a triple of the LLM pass opens, and the LLM layer. -/
structure LlmSessions where
  profile_session : Except PyError Session
  rank_session : Except PyError Session
  llm : Llm.Client.LlmEnv

/-! ## The profile summary of the LLM pass -/

def buildUserProfileSummary (recent_categories recent_brands : List String)
    (avg_price : Option ℚ) : String :=
  let parts :=
    (if recent_categories.isEmpty then []
      else ["recent categories: " ++ ", ".intercalate (recent_categories.take 5)]) ++
    (if recent_brands.isEmpty then []
      else ["recent brands: " ++ ", ".intercalate (recent_brands.take 5)]) ++
    match avg_price with
    | none => []
    | some avg_price => ["avg price ~$" ++ Llm.fixed0 avg_price]
  if parts.isEmpty then "(no recent activity)" else "; ".intercalate parts

def userProfileSummary (session : Except PyError Session) (cfg : RankerConfig ℚ) (user_id : String)
    (redis_client : Option EvalRedis) : Except PyError String :=
  session.map fun s =>
    let ctx := loadUserContext s.db (redis_client.map (·.client)) (some user_id) cfg
    if ctx.recent_item_ids.isEmpty then "(no recent activity)"
    else
      let rows := s.db.item.rows.filter (·.id ∈ ctx.recent_item_ids)
      let cats := (rows.map (·.category)).filter (· ≠ "")
      let brands := (rows.map (·.brand)).filter (· ≠ "")
      buildUserProfileSummary (mostCommon 5 cats) (mostCommon 5 brands) ctx.avg_price

/-! ## The passes -/

/-- The results of the entries in order, up to the first for which the score raises. -/
def forEach {τ α σ : Type} (score : ℕ → τ → σ → Except PyError α × σ) :
    ℕ → List τ → σ → Except PyError (List α) × σ
  | _, [], s => (.ok [], s)
  | i, t :: ts, s =>
    match score i t s with
    | (.error e, s) => (.error e, s)
    | (.ok a, s) =>
      let (scores, s) := forEach score (i + 1) ts s
      (scores.map (a :: ·), s)

structure PassMetrics where
  ndcg : ℚ
  mrr : ℚ
  n : ℚ

def relevances (results : List RankedItemDTO) (item_id : String) : List ℚ :=
  results.map fun r => if r.id = item_id then 1 else 0

/-- The means over the relevances of the triples, which are not none. -/
def meanMetrics (log2 : ℕ → ℚ) (k : ℤ) (triples : List Triple) (rels : List (List ℚ)) :
    PassMetrics where
  ndcg := (rels.map fun rels => ndcgAtK log2 rels k).sum / rels.length
  mrr := (rels.map fun rels => mrrAtK rels k).sum / rels.length
  n := triples.length

section Passes
variable (log2 : ℕ → ℚ) (k : ℤ)

def replayTriple (sessions : ℕ → Except PyError Session) (cfg : RankerConfig ℚ) (i : ℕ) (t : Triple)
    (redis_client : Option EvalRedis) : Except PyError (List ℚ) × Option EvalRedis :=
  let (results, redis_client) := heldOut t (rankTriple (sessions i) cfg k t) redis_client
  (results.map fun results => relevances results t.item_id, redis_client)

def evalReplayPass (sessions : ℕ → Except PyError Session) (cfg : RankerConfig ℚ)
    (triples : List Triple) (redis_client : Option EvalRedis) :
    Except PyError PassMetrics × Option EvalRedis :=
  if triples.isEmpty then (.ok ⟨0, 0, 0⟩, redis_client)
  else
    let (rels, redis_client) := forEach (replayTriple k sessions cfg) 0 triples redis_client
    (rels.map (meanMetrics log2 k triples), redis_client)

/-- The final list, and whether it is the hybrid one. -/
def llmBlock (sessions : LlmSessions) (ranker_cfg : RankerConfig ℚ) (llm_cfg : Llm.Client.Config)
    (t : Triple) (redis_client : Option EvalRedis) :
    Except PyError (List RankedItemDTO × Bool) × Option EvalRedis :=
  match userProfileSummary sessions.profile_session ranker_cfg t.user_id redis_client with
  | .error e => (.error e, redis_client)
  | .ok profile =>
    let (ranked, redis_client) := rankTriple sessions.rank_session ranker_cfg
      (max llm_cfg.re_rank_input_k k) t redis_client
    let final := do
      let results ← ranked
      let reordered ← Llm.Client.rerankTopK sessions.llm t.query results (some profile) llm_cfg
      match reordered.result with
      | none => return (PyList.sliceTo results k, true)
      | some reordered => return (PyList.sliceTo reordered k, false)
    (final, redis_client)

def llmTriple (sessions : ℕ → LlmSessions) (ranker_cfg : RankerConfig ℚ)
    (llm_cfg : Llm.Client.Config) (i : ℕ) (t : Triple) (redis_client : Option EvalRedis) :
    Except PyError (List ℚ × Bool) × Option EvalRedis :=
  let (final, redis_client) := heldOut t (llmBlock k (sessions i) ranker_cfg llm_cfg t) redis_client
  (final.map fun final => (relevances final.1 t.item_id, final.2), redis_client)

/-- The metrics and the number of fallbacks. -/
def evalLlmPass (sessions : ℕ → LlmSessions) (ranker_cfg : RankerConfig ℚ)
    (llm_cfg : Llm.Client.Config) (triples : List Triple) (redis_client : Option EvalRedis) :
    Except PyError (PassMetrics × ℚ) × Option EvalRedis :=
  if triples.isEmpty then (.ok (⟨0, 0, 0⟩, 0), redis_client)
  else
    let (scored, redis_client) :=
      forEach (llmTriple k sessions ranker_cfg llm_cfg) 0 triples redis_client
    (scored.map fun scored =>
      (meanMetrics log2 k triples (scored.map (·.1)), (scored.countP (·.2) : ℚ)), redis_client)

end Passes

end ClickRec.Eval
