import ClickRec.Ranker.PersonalScore
import ClickRec.Ranker.Scorer

/-! # `gather_features`: the seven columns of a candidate set -/
namespace ClickRec.Ranker
set_option autoImplicit false
open Kafka (topKey)

variable {K : Type}

/-- The functions on floats that are not exact; `math.exp` may raise. -/
structure Numerics (K : Type) where
  sqrt : K → K
  round6 : K → K
  exp : K → Except PyError K

def zeroDivision : PyError := ⟨"ZeroDivisionError", "float division by zero", ""⟩

variable [Field K] [LinearOrder K]

def popularityScores (cands : List (RankingCandidate K)) (redis_client : Option (RedisClient K)) :
    List K :=
  match redis_client with
  | none => cands.map (·.popularity_score)
  | some client =>
    if cands.isEmpty then []
    else
      match client.zscores (cands.map fun c => (topKey c.category, c.item_id)) with
      | none => cands.map (·.popularity_score)
      | some results => results.map (·.getD 0)

/-- The age in days; `created_at` and `now` are in seconds. -/
def ageDays (now created_at : ℚ) : K := ((max 0 ((now - created_at) / 86400) : ℚ) : K)

def recencyScores (exp : K → Except PyError K) (now : ℚ) (cands : List (RankingCandidate K))
    (cfg : RankerConfig K) : Except PyError (List K) :=
  cands.mapM fun c =>
    if cfg.recency_half_life_days = 0 then throw zeroDivision
    else exp (-ageDays now c.created_at / cfg.recency_half_life_days)

def priceFitScores (exp : K → Except PyError K) (cands : List (RankingCandidate K))
    (user_avg_price : Option K) (cfg : RankerConfig K) : Except PyError (List K) :=
  match user_avg_price with
  | none => pure (List.replicate cands.length 0)
  | some avg =>
    let scale := if cfg.price_fit_scale = 0 then 1 else cfg.price_fit_scale
    cands.mapM fun c => exp (-|c.price - avg| / scale)

def gatherFeatures (numerics : Numerics K) (db : Postgres K)
    (redis_client : Option (RedisClient K)) (now : ℚ) (cfg : RankerConfig K)
    (cands : List (RankingCandidate K)) (user_ctx : UserContext K) : Except PyError (Features K) := do
  let pop := popularityScores cands redis_client
  let cc := coClickScores db.co_click cands user_ctx.recent_item_ids
  let recency ← recencyScores numerics.exp now cands cfg
  let personal := personalScores numerics.sqrt cands user_ctx.profile_vec
  let price_fit ← priceFitScores numerics.exp cands user_ctx.avg_price cfg
  return fun
    | "bm25" => some (cands.map (·.bm25_raw))
    | "vector" => some (cands.map (·.vector_raw))
    | "popularity" => some (pop.map some)
    | "recency" => some (recency.map some)
    | "personal" => some (personal.map some)
    | "co_click" => some (cc.map some)
    | "price_fit" => some (price_fit.map some)
    | _ => none

end ClickRec.Ranker
