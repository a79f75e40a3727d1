import ClickRec.Kafka.Enrichment
import ClickRec.Ranker.CoClickScores

/-! # The stores the ranker reads, and the user context

Postgres answers every SELECT; a Redis command may raise, and then the code goes on without it. -/
namespace ClickRec.Ranker
set_option autoImplicit false
open Kafka (Bytes fromkeys recentKey)

structure RankerConfig (K : Type) where
  bm25_k : ℤ
  vector_k : ℤ
  candidate_cap : ℤ
  recency_half_life_days : K
  personal_recent_clicks_n : ℤ
  price_fit_scale : K
  w_bm25 : K
  w_vector : K
  w_popularity : K
  w_recency : K
  w_personal : K
  w_co_click : K
  w_price_fit : K

/-- The defaults of the dataclass. -/
def defaultRankerConfig {K : Type} [Field K] : RankerConfig K where
  bm25_k := 100
  vector_k := 100
  candidate_cap := 200
  recency_half_life_days := 30
  personal_recent_clicks_n := 20
  price_fit_scale := 200
  w_bm25 := 1
  w_vector := 1
  w_popularity := 6 / 10
  w_recency := 4 / 10
  w_personal := 12 / 10
  w_co_click := 8 / 10
  w_price_fit := 3 / 10

/-! ## Postgres and Redis -/

/-- The full-text search `_BM25_SQL` and the vector index behind `_VECTOR_SQL` are Postgres' own; a
statement may be rejected, as one with a negative limit is. -/
structure Postgres (K : Type) where
  item : ItemTable K
  co_click : CoClickTable
  bm25 : (q : String) → (k : ℤ) → Except PyError (List (String × K))
  vector : (qvec : List K) → (k : ℤ) → Except PyError (List (String × K))

/-- The commands the ranker sends, by the key they name; the `ZSCORE`s of a request are one
pipeline. -/
inductive RedisCommand where
  | zrevrange (key : String)
  | zscores
  | get (key : String)
  | set (key : String)

/-- How a command ends: with a reply, or with a Redis error before or after it took effect. -/
inductive Outcome where
  | ok
  | error (took : Bool)

/-- A client: what is stored, and how each command ends. -/
structure RedisClient (K : Type) [LinearOrder K] where
  zsets : String → SortedSet K String
  strings : String → Option Bytes
  outcome : RedisCommand → Outcome

namespace RedisClient
variable {K : Type} [LinearOrder K]

/-- `none` where the command raises a Redis error. -/
def reply {α : Type} (client : RedisClient K) (command : RedisCommand) (a : α) : Option α :=
  match client.outcome command with
  | .ok => some a
  | .error _ => none

def zrevrange (client : RedisClient K) (key : String) (start stop : ℤ) : Option (List String) :=
  client.reply (.zrevrange key) ((client.zsets key).zrevrange start stop)

def zscores (client : RedisClient K) (reads : List (String × String)) : Option (List (Option K)) :=
  client.reply .zscores (reads.map fun read => (client.zsets read.1).zscore read.2)

def get (client : RedisClient K) (key : String) : Option (Option Bytes) :=
  client.reply (.get key) (client.strings key)

/-- The client after a `SET`. -/
def set (client : RedisClient K) (key : String) (value : Bytes) : RedisClient K :=
  match client.outcome (.set key) with
  | .error false => client
  | _ => { client with strings := Function.update client.strings key (some value) }

theorem set_zsets (client : RedisClient K) (key : String) (value : Bytes) :
    (client.set key value).zsets = client.zsets := by
  unfold set
  split <;> rfl

theorem set_outcome (client : RedisClient K) (key : String) (value : Bytes) :
    (client.set key value).outcome = client.outcome := by
  unfold set
  split <;> rfl

end RedisClient

/-! ## The user context -/

structure UserContext (K : Type) where
  recent_item_ids : List String
  profile_vec : Option (List K)
  avg_price : Option K
  recent_categories : List String
  recent_brands : List String

section Load
variable {K : Type} [Field K]

def cold : UserContext K := ⟨[], none, none, [], []⟩

def mean (xs : List K) : Option K :=
  if xs.isEmpty then none else some (xs.sum / xs.length)

/-- `arr.mean(axis=0)`, for vectors of one length. -/
def meanVector : List (List K) → Option (List K)
  | [] => none
  | v :: vs => some ((vs.foldl (List.zipWith (· + ·)) v).map (· / (vs.length + 1 : ℕ)))

/-- `_TOP_RECENT_K`. -/
def topRecentK : ℕ := 3

/-- The values of `Counter(...).most_common(k)`: ties keep the order of first occurrence. -/
def mostCommon (k : ℕ) (values : List String) : List String :=
  ((fromkeys values).insertionSort fun v w => values.count w ≤ values.count v).take k

/-- The context made of the rows of the recent items. -/
def contextOf (recent_ids : List String) (rows : List (ItemRow K)) : UserContext K :=
  if rows.isEmpty then ⟨recent_ids, none, none, [], []⟩
  else
    { recent_item_ids := recent_ids
      profile_vec := meanVector (rows.filterMap (·.embedding))
      avg_price := mean (rows.map (·.price))
      recent_categories := mostCommon topRecentK ((rows.map (·.category)).filter (· ≠ ""))
      recent_brands := mostCommon topRecentK ((rows.map (·.brand)).filter (· ≠ "")) }

def loadUserContext [LinearOrder K] (db : Postgres K) (redis_client : Option (RedisClient K))
    (user_id : Option String) (cfg : RankerConfig K) : UserContext K :=
  match user_id, redis_client with
  | some user_id, some client =>
    match client.zrevrange (recentKey user_id) 0 (cfg.personal_recent_clicks_n - 1) with
    | none => cold
    | some recent_ids =>
      if recent_ids.isEmpty then cold
      else contextOf recent_ids (db.item.rows.filter (·.id ∈ recent_ids))
  | _, _ => cold

end Load

end ClickRec.Ranker
