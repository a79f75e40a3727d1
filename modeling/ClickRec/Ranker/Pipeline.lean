import ClickRec.Llm.ReRanker
import ClickRec.Ranker.Embedder
import ClickRec.Ranker.Features
import ClickRec.Ranker.Retrieval

/-! # `rank`

The user context is loaded before the candidates without a query and beside them with one, unless
the caller has loaded it. -/
namespace ClickRec.Ranker
set_option autoImplicit false
open Llm (RankedItemDTO)

/-- What a call of `rank` finds beside its arguments. -/
structure Env where
  numerics : Numerics ℚ
  embedder : Embedder ℚ
  now : ℚ
  /-- The text of a `created_at`. -/
  isoformat : ℚ → String

def candidateToItemDTO (env : Env) (cand : RankingCandidate ℚ) : ItemDTO where
  id := cand.item_id
  title := cand.title
  description := cand.description
  category := cand.category
  brand := cand.brand
  price := cand.price
  created_at := env.isoformat cand.created_at
  popularity_score := cand.popularity_score

/-- `sorted(range(len(cands)), key=lambda i: scores[i], reverse=True)`, on the scored candidates. -/
def sortByScore (scored : List (RankingCandidate ℚ × Scored ℚ)) :
    List (RankingCandidate ℚ × Scored ℚ) :=
  scored.insertionSort fun c d => d.2.1 ≤ c.2.1

def rankedItemDTO (env : Env) (c : RankingCandidate ℚ × Scored ℚ) : RankedItemDTO where
  item := candidateToItemDTO env c.1
  score := c.2.1
  score_breakdown := c.2.2
  llm_rationale := none

section Rank
variable (env : Env) (db : Postgres ℚ) (cfg : RankerConfig ℚ)

/-- From the raw candidates on, with the user context at hand. -/
def rankCandidates (redis_client : Option (RedisClient ℚ)) (limit : ℤ) (user_ctx : UserContext ℚ)
    (raw_cands : List (RawCandidate ℚ)) : Except PyError (List RankedItemDTO) := do
  let cands := fetchCandidateRows env.numerics.sqrt env.numerics.round6 db.item raw_cands
    user_ctx.profile_vec
  if cands.isEmpty then return []
  else
    let features ← gatherFeatures env.numerics db redis_client env.now cfg cands user_ctx
    let scored ← score features cfg
    return (PyList.sliceTo (sortByScore (cands.zip scored)) limit).map (rankedItemDTO env)

def rank (redis_client : Option (RedisClient ℚ)) (query user_id : Option String) (limit : ℤ)
    (user_ctx : Option (UserContext ℚ)) : Except PyError (List RankedItemDTO) :=
  match query with
  | none => do
    let user_ctx := match user_ctx with
      | none => loadUserContext db redis_client user_id cfg
      | some user_ctx => user_ctx
    let raw_cands ← generateCandidates env.numerics.round6 db cfg none none user_ctx.profile_vec
      user_ctx.recent_categories redis_client
    rankCandidates env db cfg redis_client limit user_ctx raw_cands
  | some query => do
    let (encoded, redis_client) := encodeQuery env.embedder redis_client query
    let qvec ← encoded
    let (raw_cands, user_ctx) ← match user_ctx with
      | none => do
        let raw_cands ← generateCandidates env.numerics.round6 db cfg (some query) (some qvec) none []
          redis_client
        pure (raw_cands, loadUserContext db redis_client user_id cfg)
      | some user_ctx => do
        let raw_cands ← generateCandidates env.numerics.round6 db cfg (some query) (some qvec) none []
          redis_client
        pure (raw_cands, user_ctx)
    rankCandidates env db cfg redis_client limit user_ctx raw_cands

end Rank

/-! ## The cached texts and the user context -/

section Agreement
variable {env : Env} {db : Postgres ℚ} {cfg : RankerConfig ℚ}
  {redis_client redis_client' : Option (RedisClient ℚ)}

variable (db cfg) in
theorem SameSets.loadUserContext (h : SameSets redis_client redis_client')
    (user_id : Option String) :
    loadUserContext db redis_client' user_id cfg = loadUserContext db redis_client user_id cfg := by
  cases h with
  | missing => rfl
  | started h =>
    cases user_id with
    | none => rfl
    | some user_id =>
      unfold Ranker.loadUserContext
      simp only [h.zrevrange]

theorem SameSets.popularityScores (h : SameSets redis_client redis_client')
    (cands : List (RankingCandidate ℚ)) :
    popularityScores cands redis_client' = popularityScores cands redis_client := by
  cases h with
  | missing => rfl
  | started h =>
    unfold Ranker.popularityScores
    simp only [h.zscores]

theorem SameSets.topCandidates (h : SameSets redis_client redis_client')
    (recent_categories : List String) :
    topCandidates cfg redis_client' recent_categories =
      topCandidates cfg redis_client recent_categories := by
  cases h with
  | missing => rfl
  | started h =>
    unfold Ranker.topCandidates categoryTopCandidates categoryMembers globalTopCandidates
    simp only [h.zrevrange]

theorem SameSets.rankCandidates (h : SameSets redis_client redis_client') (limit : ℤ)
    (user_ctx : UserContext ℚ) (raw_cands : List (RawCandidate ℚ)) :
    rankCandidates env db cfg redis_client' limit user_ctx raw_cands =
      rankCandidates env db cfg redis_client limit user_ctx raw_cands := by
  unfold Ranker.rankCandidates gatherFeatures
  simp only [h.popularityScores]

theorem rank_query (query : String) (user_id : Option String) (limit : ℤ)
    (user_ctx : UserContext ℚ) :
    rank env db cfg redis_client (some query) user_id limit (some user_ctx) =
      ((encodeQuery env.embedder redis_client query).1 >>= fun qvec =>
        queryCandidates env.numerics.round6 db cfg query (some qvec) >>= fun raw_cands =>
          rankCandidates env db cfg (encodeQuery env.embedder redis_client query).2 limit user_ctx
            raw_cands) := by
  simp only [rank, generateCandidates, pure_bind]

variable (env db cfg redis_client) in
/-- A context loaded before is the one `rank` loads itself, in every mode. -/
theorem rank_preloaded (query user_id : Option String) (limit : ℤ) :
    rank env db cfg redis_client query user_id limit
        (some (loadUserContext db redis_client user_id cfg)) =
      rank env db cfg redis_client query user_id limit none := by
  cases query with
  | none => rfl
  | some query =>
    have hctx := (encodeQuery_sameSets env.embedder redis_client query).loadUserContext db cfg user_id
    simp only [rank, pure_bind, hctx]

/-- The cached texts matter only through the query vector. -/
theorem SameSets.rank (h : SameSets redis_client redis_client') (query user_id : Option String)
    (limit : ℤ) (user_ctx : UserContext ℚ)
    (hvec : ∀ q, query = some q →
      (encodeQuery env.embedder redis_client' q).1 = (encodeQuery env.embedder redis_client q).1) :
    rank env db cfg redis_client' query user_id limit (some user_ctx) =
      rank env db cfg redis_client query user_id limit (some user_ctx) := by
  cases query with
  | none =>
    simp only [Ranker.rank, generateCandidates, recommendedCandidates, h.topCandidates,
      h.rankCandidates]
  | some q =>
    have hafter : SameSets (encodeQuery env.embedder redis_client q).2
        (encodeQuery env.embedder redis_client' q).2 :=
      (encodeQuery_sameSets env.embedder redis_client q).symm.trans <|
        h.trans (encodeQuery_sameSets env.embedder redis_client' q)
    rw [rank_query, rank_query, hvec q rfl]
    simp only [hafter.rankCandidates]

end Agreement

end ClickRec.Ranker
