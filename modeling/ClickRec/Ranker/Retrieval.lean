import ClickRec.Ranker.Context

/-! # `generate_candidates`: two channels for a query, three tiers without one -/
namespace ClickRec.Ranker
set_option autoImplicit false
open Kafka (topKey)

variable {K : Type}

/-! ## The dict of candidates -/

/-- `merged[c.item_id] = c`: a key that is there keeps its place. -/
def setCandidate (merged : List (RawCandidate K)) (c : RawCandidate K) : List (RawCandidate K) :=
  if c.item_id ∈ merged.map (·.item_id) then
    merged.map fun d => if d.item_id = c.item_id then c else d
  else merged ++ [c]

/-- `merged[item_id].vector_raw = score`, or a new candidate. -/
def setVectorRaw (merged : List (RawCandidate K)) (hit : String × K) : List (RawCandidate K) :=
  if hit.1 ∈ merged.map (·.item_id) then
    merged.map fun d => if d.item_id = hit.1 then { d with vector_raw := some hit.2 } else d
  else merged ++ [⟨hit.1, none, some hit.2⟩]

def mergeChannels (bm25_rows vector_rows : List (String × K)) : List (RawCandidate K) :=
  vector_rows.foldl setVectorRaw <|
    bm25_rows.foldl (fun merged hit => setCandidate merged ⟨hit.1, some hit.2, none⟩) []

/-- `cands[:cap]` when there are more. -/
def truncate (cands : List (RawCandidate K)) (cap : ℤ) : List (RawCandidate K) :=
  if cap < cands.length then PyList.sliceTo cands cap else cands

/-! ## The tiers without a query -/

section Tiers
variable [LinearOrder K]

def unscored (item_id : String) : RawCandidate K := ⟨item_id, none, none⟩

def globalTopCandidates (redis_client : Option (RedisClient K)) (k : ℤ) : List (RawCandidate K) :=
  match redis_client with
  | none => []
  | some client =>
    match client.zrevrange (topKey "_global") 0 (k - 1) with
    | none => []
    | some members => members.map unscored

/-- The members of all categories whose read did not raise, in the order of the categories. -/
def categoryMembers (client : RedisClient K) (categories : List String) (k_per_cat : ℤ) :
    List String :=
  categories.flatMap fun cat => (client.zrevrange (topKey cat) 0 (k_per_cat - 1)).getD []

def categoryTopCandidates (redis_client : Option (RedisClient K)) (categories : List String)
    (k_per_cat : ℤ) : List (RawCandidate K) :=
  match redis_client with
  | none => []
  | some client => (PyList.keepFirst id (categoryMembers client categories k_per_cat)).map unscored

/-- The candidate budget of one category. -/
def perCategory (cap : ℤ) (recent_categories : List String) : ℤ :=
  max 1 (cap / max 1 recent_categories.length)

/-- What is left when there is no vector channel to serve the request. -/
def topCandidates (cfg : RankerConfig K) (redis_client : Option (RedisClient K))
    (recent_categories : List String) : List (RawCandidate K) :=
  let cands :=
    if recent_categories.isEmpty then []
    else categoryTopCandidates redis_client recent_categories
      (perCategory cfg.candidate_cap recent_categories)
  if cands.isEmpty then globalTopCandidates redis_client cfg.candidate_cap
  else truncate cands cfg.candidate_cap

end Tiers

/-! ## Both modes -/

variable [Field K] [LinearOrder K] (round6 : K → K)

def queryCandidates (db : Postgres K) (cfg : RankerConfig K) (query : String)
    (qvec : Option (List K)) : Except PyError (List (RawCandidate K)) := do
  let bm25_rows ← db.bm25 query cfg.bm25_k
  let vector_rows ←
    match qvec with
    | none => pure []
    | some qvec => db.vector (formatVector round6 qvec) cfg.vector_k
  return truncate (mergeChannels bm25_rows vector_rows) cfg.candidate_cap

def recommendedCandidates (db : Postgres K) (cfg : RankerConfig K)
    (redis_client : Option (RedisClient K)) (profile_vec : Option (List K))
    (recent_categories : List String) : Except PyError (List (RawCandidate K)) := do
  let vector_rows ←
    match profile_vec with
    | none => pure []
    | some profile_vec => db.vector (formatVector round6 profile_vec) cfg.vector_k
  if vector_rows.isEmpty then return topCandidates cfg redis_client recent_categories
  else return truncate (vector_rows.map fun hit => ⟨hit.1, none, some hit.2⟩) cfg.candidate_cap

def generateCandidates (db : Postgres K) (cfg : RankerConfig K) (query : Option String)
    (qvec profile_vec : Option (List K)) (recent_categories : List String)
    (redis_client : Option (RedisClient K)) : Except PyError (List (RawCandidate K)) :=
  match query with
  | some query => queryCandidates round6 db cfg query qvec
  | none => recommendedCandidates round6 db cfg redis_client profile_vec recent_categories

end ClickRec.Ranker
