import ClickRec.Lib.TopK
import ClickRec.Ranker.Pipeline
import ClickRec.Ranker.ScoreTable

/-! # `rank` returns the best candidates

The seven columns are values of the candidates, one candidate at a time, so that fetching, scoring and
sorting can all be read as maps over one list of candidates. -/
namespace ClickRec.Ranker
set_option autoImplicit false
open Kafka (topKey)
open Llm (RankedItemDTO)

variable {K : Type}

/-! ## The features of one candidate -/

section FeatureOf
variable [Field K] [LinearOrder K]

def popularityOf (redis_client : Option (RedisClient K)) (c : RankingCandidate K) : K :=
  match redis_client with
  | none => c.popularity_score
  | some client =>
    match client.outcome .zscores with
    | .error _ => c.popularity_score
    | .ok => ((client.zsets (topKey c.category)).zscore c.item_id).getD 0

def recencyOf (exp : K → Except PyError K) (now : ℚ) (cfg : RankerConfig K)
    (c : RankingCandidate K) : Except PyError K :=
  if cfg.recency_half_life_days = 0 then throw zeroDivision
  else exp (-ageDays now c.created_at / cfg.recency_half_life_days)

/-- The pool decides between the two paths, the candidate gives the value. -/
def personalOf (sqrt : K → K) (cands : List (RankingCandidate K)) (profile_vec : Option (List K))
    (c : RankingCandidate K) : K :=
  match profile_vec with
  | none => 0
  | some pv =>
    if cands.all fun c => c.personal_raw.isSome then max 0 (c.personal_raw.getD 0)
    else if norm sqrt pv = 0 then 0
    else numpyScore sqrt pv (norm sqrt pv) c

def coClickOf (table : CoClickTable) (recent_item_ids : List String) (c : RankingCandidate K) : K :=
  ((table.rows.map (share recent_item_ids c.item_id)).sum : ℕ)

def priceFitOf (exp : K → Except PyError K) (user_avg_price : Option K) (cfg : RankerConfig K)
    (c : RankingCandidate K) : Except PyError K :=
  match user_avg_price with
  | none => pure 0
  | some avg => exp (-|c.price - avg| / if cfg.price_fit_scale = 0 then 1 else cfg.price_fit_scale)

/-- What a candidate has in the column of this name, or the exception it raises. -/
def featureOf (numerics : Numerics K) (db : Postgres K) (redis_client : Option (RedisClient K))
    (now : ℚ) (cfg : RankerConfig K) (cands : List (RankingCandidate K)) (user_ctx : UserContext K)
    (c : RankingCandidate K) : String → Except PyError (Option K)
  | "bm25" => .ok c.bm25_raw
  | "vector" => .ok c.vector_raw
  | "popularity" => .ok (some (popularityOf redis_client c))
  | "recency" => (recencyOf numerics.exp now cfg c).map some
  | "personal" => .ok (some (personalOf numerics.sqrt cands user_ctx.profile_vec c))
  | "co_click" => .ok (some (coClickOf db.co_click user_ctx.recent_item_ids c))
  | "price_fit" => (priceFitOf numerics.exp user_ctx.avg_price cfg c).map some
  | _ => .ok none

theorem popularityScores_eq (cands : List (RankingCandidate K))
    (redis_client : Option (RedisClient K)) :
    popularityScores cands redis_client = cands.map (popularityOf redis_client) := by
  unfold popularityScores popularityOf
  cases redis_client with
  | none => rfl
  | some client =>
    simp only
    split
    · rename_i hempty
      rw [List.isEmpty_iff.mp hempty]
      rfl
    · unfold RedisClient.zscores RedisClient.reply
      cases client.outcome .zscores with
      | error took => rfl
      | ok =>
        simp only [List.map_map]
        rfl

theorem personalScores_eq (sqrt : K → K) (cands : List (RankingCandidate K))
    (profile_vec : Option (List K)) :
    personalScores sqrt cands profile_vec = cands.map (personalOf sqrt cands profile_vec) := by
  unfold personalScores personalOf
  cases profile_vec with
  | none => rw [List.map_const']
  | some pv =>
    simp only
    split
    · rename_i hempty
      rw [List.isEmpty_iff.mp hempty]
      rfl
    · split
      · rfl
      · split
        · rw [List.map_const']
        · rfl

omit [LinearOrder K] in
theorem coClickScores_eq (table : CoClickTable) (cands : List (RankingCandidate K))
    (recent_item_ids : List String) :
    coClickScores table cands recent_item_ids = cands.map (coClickOf table recent_item_ids) := by
  unfold coClickScores coClickOf
  split
  · rename_i hnone
    obtain hcands | hrecent := hnone
    · rw [List.isEmpty_iff.mp hcands]
      rfl
    · have hnone : ∀ c, (table.rows.map (share [] c)).sum = 0 := by
        refine fun c => List.sum_eq_zero fun n hn => ?_
        obtain ⟨row, -, rfl⟩ := List.mem_map.mp hn
        simp [share]
      simp only [List.isEmpty_iff.mp hrecent, hnone, Nat.cast_zero, List.map_const']
  · rw [List.map_map]
    refine List.map_congr_left fun c hc => ?_
    have hmem : c.item_id ∈ cands.map (·.item_id) := List.mem_map_of_mem hc
    rw [Function.comp_apply, foldl_addRow_getD hmem, dictOf_zero_getD, zero_add,
      sum_share_coClickRows hmem]

variable {numerics : Numerics K} {db : Postgres K} {redis_client : Option (RedisClient K)} {now : ℚ}
  {cfg : RankerConfig K} {cands : List (RankingCandidate K)} {user_ctx : UserContext K}

omit [LinearOrder K] in
theorem ok_of_map_some {x : Except PyError K} {v : Option K} (h : x.map some = .ok v) :
    x = .ok (v.getD 0) ∧ some (v.getD 0) = v := by
  cases x with
  | error e => cases h
  | ok y =>
    rw [← Except.ok.inj h]
    exact ⟨rfl, rfl⟩

/-- Without a price band all candidates get 0. -/
theorem priceFitScores_eq {exp : K → Except PyError K} {avg_price : Option K}
    {value : RankingCandidate K → K} (h : ∀ c ∈ cands, priceFitOf exp avg_price cfg c = .ok (value c)) :
    priceFitScores exp cands avg_price cfg = .ok (cands.map value) := by
  unfold priceFitScores
  unfold priceFitOf at h
  cases avg_price with
  | none =>
    have hzero : cands.map value = cands.map fun _ => 0 :=
      List.map_congr_left fun c hc => (Except.ok.inj (h c hc)).symm
    rw [hzero, List.map_const']
    rfl
  | some avg => exact PyList.mapM_eq_ok h

/-- With a value for each candidate and feature, the table has the column of the values. -/
theorem gatherFeatures_eq {value : String → RankingCandidate K → Option K}
    (h : ∀ c ∈ cands, ∀ name ∈ FEATURE_NAMES,
      featureOf numerics db redis_client now cfg cands user_ctx c name = .ok (value name c)) :
    ∃ features, gatherFeatures numerics db redis_client now cfg cands user_ctx = .ok features ∧
      ∀ name ∈ FEATURE_NAMES, features name = some (cands.map (value name)) := by
  have hrecency : recencyScores numerics.exp now cands cfg =
      .ok (cands.map fun c => (value "recency" c).getD 0) :=
    PyList.mapM_eq_ok fun c hc => (ok_of_map_some (h c hc "recency" (by decide))).1
  have hprice : priceFitScores numerics.exp cands user_ctx.avg_price cfg =
      .ok (cands.map fun c => (value "price_fit" c).getD 0) :=
    priceFitScores_eq fun c hc => (ok_of_map_some (h c hc "price_fit" (by decide))).1
  unfold gatherFeatures
  rw [hrecency, hprice]
  refine ⟨_, rfl, fun name hname => ?_⟩
  have hplain : ∀ {f : RankingCandidate K → Option K}, (∀ c ∈ cands,
      featureOf numerics db redis_client now cfg cands user_ctx c name = .ok (f c)) →
        cands.map f = cands.map (value name) := fun hf =>
    List.map_congr_left fun c hc => Except.ok.inj ((hf c hc).symm.trans (h c hc name hname))
  have hraised : ∀ {x : RankingCandidate K → Except PyError K},
      (∀ c ∈ cands, (x c).map some = .ok (value name c)) →
        (cands.map fun c => (value name c).getD 0).map some = cands.map (value name) := by
    intro x hx
    rw [List.map_map]
    exact List.map_congr_left fun c hc => (ok_of_map_some (hx c hc)).2
  simp only [FEATURE_NAMES, List.mem_cons, List.not_mem_nil, or_false] at hname
  obtain rfl | rfl | rfl | rfl | rfl | rfl | rfl := hname
  · exact congrArg some (hplain fun _ _ => rfl)
  · exact congrArg some (hplain fun _ _ => rfl)
  · simp only [popularityScores_eq, List.map_map]
    exact congrArg some (hplain fun _ _ => rfl)
  · exact congrArg some (hraised fun c hc => h c hc "recency" (by decide))
  · simp only [personalScores_eq, List.map_map]
    exact congrArg some (hplain fun _ _ => rfl)
  · simp only [coClickScores_eq, List.map_map]
    exact congrArg some (hplain fun _ _ => rfl)
  · exact congrArg some (hraised fun c hc => h c hc "price_fit" (by decide))

/-- Two features can raise. -/
theorem featureOf_ok {c : RankingCandidate K}
    (hrecency : ∃ x, recencyOf numerics.exp now cfg c = .ok x)
    (hprice : ∃ x, priceFitOf numerics.exp user_ctx.avg_price cfg c = .ok x) {name : String}
    (hname : name ∈ FEATURE_NAMES) :
    ∃ x, featureOf numerics db redis_client now cfg cands user_ctx c name = .ok x := by
  simp only [FEATURE_NAMES, List.mem_cons, List.not_mem_nil, or_false] at hname
  obtain rfl | rfl | rfl | rfl | rfl | rfl | rfl := hname
  · exact ⟨_, rfl⟩
  · exact ⟨_, rfl⟩
  · exact ⟨_, rfl⟩
  · obtain ⟨x, hx⟩ := hrecency
    exact ⟨some x, congrArg (Except.map some) hx⟩
  · exact ⟨_, rfl⟩
  · exact ⟨_, rfl⟩
  · obtain ⟨x, hx⟩ := hprice
    exact ⟨some x, congrArg (Except.map some) hx⟩

theorem exists_value (h : ∀ c ∈ cands, ∀ name ∈ FEATURE_NAMES, ∃ x,
      featureOf numerics db redis_client now cfg cands user_ctx c name = .ok x) :
    ∃ value : String → RankingCandidate K → Option K, ∀ c ∈ cands, ∀ name ∈ FEATURE_NAMES,
      featureOf numerics db redis_client now cfg cands user_ctx c name = .ok (value name c) := by
  refine ⟨fun name c => match featureOf numerics db redis_client now cfg cands user_ctx c name with
    | .ok x => x
    | .error _ => none, fun c hc name hname => ?_⟩
  obtain ⟨x, hx⟩ := h c hc name hname
  simp only [hx]

/-- A table that was gathered has a value for each candidate and feature. -/
theorem exists_value_of_gatherFeatures {features : Features K}
    (h : gatherFeatures numerics db redis_client now cfg cands user_ctx = .ok features) :
    ∃ value : String → RankingCandidate K → Option K, ∀ c ∈ cands, ∀ name ∈ FEATURE_NAMES,
      featureOf numerics db redis_client now cfg cands user_ctx c name = .ok (value name c) := by
  have hrecency : ∀ c ∈ cands, ∃ x, recencyOf numerics.exp now cfg c = .ok x := by
    cases hcol : recencyScores numerics.exp now cands cfg with
    | error e =>
      rw [gatherFeatures, hcol] at h
      cases h
    | ok col => exact PyList.exists_of_mapM_eq_ok hcol
  have hprice : ∀ c ∈ cands, ∃ x, priceFitOf numerics.exp user_ctx.avg_price cfg c = .ok x := by
    cases hcol : priceFitScores numerics.exp cands user_ctx.avg_price cfg with
    | error e =>
      cases hrec : recencyScores numerics.exp now cands cfg with
      | error e =>
        rw [gatherFeatures, hrec] at h
        cases h
      | ok col =>
        rw [gatherFeatures, hrec, hcol] at h
        cases h
    | ok col =>
      unfold priceFitScores at hcol
      unfold priceFitOf
      cases havg : user_ctx.avg_price with
      | none => exact fun _ _ => ⟨0, rfl⟩
      | some avg =>
        rw [havg] at hcol
        exact PyList.exists_of_mapM_eq_ok hcol
  exact exists_value fun c hc name hname => featureOf_ok (hrecency c hc) (hprice c hc) hname

end FeatureOf

/-! ## From the raw candidates on -/

section Rank
variable {env : Env} {db : Postgres ℚ} {cfg : RankerConfig ℚ}
  {redis_client : Option (RedisClient ℚ)}

theorem map_item_id_fetchCandidateRows (sqrt round6 : ℚ → ℚ) (table : ItemTable ℚ)
    (raw : List (RawCandidate ℚ)) (profile_vec : Option (List ℚ)) :
    ((fetchCandidateRows sqrt round6 table raw profile_vec).map (·.item_id)).Sublist
      (raw.map (·.item_id)) := by
  rw [fetchCandidateRows_eq, List.map_filterMap]
  have hid : ∀ c ∈ raw, ((table.row c.item_id).map fun row =>
      withScores raw c (candidateOf sqrt round6 profile_vec row)).map (·.item_id) =
        (table.row c.item_id).bind fun _ => some c.item_id := by
    intro c _
    cases hrow : table.row c.item_id with
    | none => rfl
    | some row => exact congrArg some (ItemTable.row_eq_some.mp hrow).2
  rw [List.filterMap_congr hid]
  clear hid
  induction raw with
  | nil => exact .slnil
  | cons c raw ih =>
    rw [List.filterMap_cons, List.map_cons]
    cases table.row c.item_id with
    | none => exact ih.cons c.item_id
    | some row => exact ih.cons_cons c.item_id

/-- The entry of a candidate in the response. -/
def entryOf (env : Env) (cfg : RankerConfig ℚ) (cands : List (RankingCandidate ℚ))
    (value : String → RankingCandidate ℚ → Option ℚ) (c : RankingCandidate ℚ) : RankedItemDTO :=
  rankedItemDTO env (c, scoredRow cfg cands value c)

def scoreOf (cfg : RankerConfig ℚ) (cands : List (RankingCandidate ℚ))
    (value : String → RankingCandidate ℚ → Option ℚ) (c : RankingCandidate ℚ) : ℚ :=
  (scoredRow cfg cands value c).1

variable (env db cfg redis_client) in
/-- The candidates `rank` scores. -/
def fetched (user_ctx : UserContext ℚ) (raw_cands : List (RawCandidate ℚ)) :
    List (RankingCandidate ℚ) :=
  fetchCandidateRows env.numerics.sqrt env.numerics.round6 db.item raw_cands user_ctx.profile_vec

theorem rankCandidates_fetched (limit : ℤ) (user_ctx : UserContext ℚ)
    (raw_cands : List (RawCandidate ℚ)) :
    rankCandidates env db cfg redis_client limit user_ctx raw_cands =
      if (fetched env db user_ctx raw_cands).isEmpty then .ok []
      else gatherFeatures env.numerics db redis_client env.now cfg
        (fetched env db user_ctx raw_cands) user_ctx >>= fun features => score features cfg >>=
          fun scored => .ok ((PyList.sliceTo
            (sortByScore ((fetched env db user_ctx raw_cands).zip scored)) limit).map
              (rankedItemDTO env)) := rfl

theorem rankCandidates_eq {limit : ℤ} {user_ctx : UserContext ℚ}
    {raw_cands : List (RawCandidate ℚ)} {value : String → RankingCandidate ℚ → Option ℚ}
    (h : ∀ c ∈ fetched env db user_ctx raw_cands, ∀ name ∈ FEATURE_NAMES,
      featureOf env.numerics db redis_client env.now cfg (fetched env db user_ctx raw_cands) user_ctx
        c name = .ok (value name c)) :
    rankCandidates env db cfg redis_client limit user_ctx raw_cands =
      .ok ((PyList.sliceTo (TopK.sortDesc (scoreOf cfg (fetched env db user_ctx raw_cands) value)
        (fetched env db user_ctx raw_cands)) limit).map
          (entryOf env cfg (fetched env db user_ctx raw_cands) value)) := by
  obtain ⟨features, hgather, htable⟩ := gatherFeatures_eq h
  rw [rankCandidates_fetched]
  generalize fetched env db user_ctx raw_cands = cands at hgather htable ⊢
  by_cases hempty : cands.isEmpty
  · have hnone : TopK.sortDesc (scoreOf cfg [] value) [] = [] := rfl
    rw [List.isEmpty_iff.mp hempty, hnone, PyList.sliceTo_nil]
    rfl
  · have hzip : cands.zip (cands.map (scoredRow cfg cands value)) =
        cands.map fun c => (c, scoredRow cfg cands value c) := by
      rw [List.zip_map_right, List.zip_eq_zipWith, List.zipWith_self, List.map_map]
      rfl
    have hsort : sortByScore (cands.map fun c => (c, scoredRow cfg cands value c)) =
        (TopK.sortDesc (scoreOf cfg cands value) cands).map fun c =>
          (c, scoredRow cfg cands value c) :=
      (TopK.map_sortDesc (fun c => (c, scoredRow cfg cands value c))
        (fun d : RankingCandidate ℚ × Scored ℚ => d.2.1) cands).symm
    simp only [hempty, hgather, score_eq htable, bind, Except.bind]
    rw [hzip, hsort, PyList.sliceTo_map, List.map_map]
    rfl

/-- A smaller limit cuts the same list. -/
theorem rankCandidates_take {k limit : ℤ} (hk : 0 ≤ k) (hle : k ≤ limit) (user_ctx : UserContext ℚ)
    (raw_cands : List (RawCandidate ℚ)) :
    rankCandidates env db cfg redis_client k user_ctx raw_cands =
      (rankCandidates env db cfg redis_client limit user_ctx raw_cands).map (·.take k.toNat) := by
  have hslice : ∀ l : List (RankingCandidate ℚ × Scored ℚ),
      (PyList.sliceTo l k).map (rankedItemDTO env) =
        ((PyList.sliceTo l limit).map (rankedItemDTO env)).take k.toNat := by
    intro l
    rw [PyList.sliceTo, PyList.sliceTo, if_neg (not_lt.mpr hk), if_neg (not_lt.mpr (hk.trans hle)),
      ← List.map_take, List.take_take, min_eq_left (Int.toNat_le_toNat hle)]
  rw [rankCandidates_fetched, rankCandidates_fetched]
  split
  · exact congrArg Except.ok List.take_nil.symm
  · cases gatherFeatures env.numerics db redis_client env.now cfg (fetched env db user_ctx raw_cands)
      user_ctx with
    | error e => rfl
    | ok features =>
      cases hscore : score features cfg with
      | error e =>
        simp only [bind, Except.bind, hscore]
        rfl
      | ok scored =>
        simp only [bind, Except.bind, hscore]
        exact congrArg Except.ok (hslice _)

/-- Candidates that were ranked have a value for each feature. -/
theorem exists_value_of_rankCandidates {limit : ℤ} {user_ctx : UserContext ℚ}
    {raw_cands : List (RawCandidate ℚ)} {out : List RankedItemDTO}
    (hout : rankCandidates env db cfg redis_client limit user_ctx raw_cands = .ok out) :
    ∃ value : String → RankingCandidate ℚ → Option ℚ,
      ∀ c ∈ fetched env db user_ctx raw_cands, ∀ name ∈ FEATURE_NAMES,
        featureOf env.numerics db redis_client env.now cfg (fetched env db user_ctx raw_cands)
          user_ctx c name = .ok (value name c) := by
  rw [rankCandidates_fetched] at hout
  split at hout
  · rename_i hempty
    refine ⟨fun _ _ => none, fun c hc => ?_⟩
    rw [List.isEmpty_iff.mp hempty] at hc
    cases hc
  · cases hgather : gatherFeatures env.numerics db redis_client env.now cfg
      (fetched env db user_ctx raw_cands) user_ctx with
    | error e =>
      rw [hgather] at hout
      cases hout
    | ok features => exact exists_value_of_gatherFeatures hgather

/-! ## `rank` -/

variable (env db cfg) in
/-- The part of `rank` before the candidates are fetched: the client after the query was encoded, the
user context and the raw candidates. -/
def retrieve (redis_client : Option (RedisClient ℚ)) (query user_id : Option String)
    (user_ctx : Option (UserContext ℚ)) :
    Except PyError (Option (RedisClient ℚ) × UserContext ℚ × List (RawCandidate ℚ)) :=
  match query with
  | none => do
    let user_ctx := user_ctx.getD (loadUserContext db redis_client user_id cfg)
    let raw_cands ← generateCandidates env.numerics.round6 db cfg none none user_ctx.profile_vec
      user_ctx.recent_categories redis_client
    return (redis_client, user_ctx, raw_cands)
  | some query => do
    let (encoded, redis_client) := encodeQuery env.embedder redis_client query
    let qvec ← encoded
    let raw_cands ← generateCandidates env.numerics.round6 db cfg (some query) (some qvec) none []
      redis_client
    return (redis_client, user_ctx.getD (loadUserContext db redis_client user_id cfg), raw_cands)

theorem rank_eq (query user_id : Option String) (limit : ℤ) (user_ctx : Option (UserContext ℚ)) :
    rank env db cfg redis_client query user_id limit user_ctx =
      (retrieve env db cfg redis_client query user_id user_ctx >>= fun r =>
        rankCandidates env db cfg r.1 limit r.2.1 r.2.2) := by
  unfold rank retrieve
  cases query with
  | none =>
    cases user_ctx with
    | none => simp only [bind_assoc, pure_bind, Option.getD_none]
    | some user_ctx => simp only [bind_assoc, pure_bind, Option.getD_some]
  | some query =>
    cases user_ctx with
    | none => simp only [bind_assoc, pure_bind, Option.getD_none]
    | some user_ctx => simp only [bind_assoc, pure_bind, Option.getD_some]

/-- A smaller limit returns a prefix, and raises what the greater one raises. -/
theorem rank_take {k limit : ℤ} (hk : 0 ≤ k) (hle : k ≤ limit) (query user_id : Option String)
    (user_ctx : Option (UserContext ℚ)) :
    rank env db cfg redis_client query user_id k user_ctx =
      (rank env db cfg redis_client query user_id limit user_ctx).map (·.take k.toNat) := by
  rw [rank_eq, rank_eq]
  cases retrieve env db cfg redis_client query user_id user_ctx with
  | error e => rfl
  | ok r => exact rankCandidates_take hk hle r.2.1 r.2.2

/-- The best candidates of a pool, in order, with what makes up their scores. -/
structure TopRanked (env : Env) (cfg : RankerConfig ℚ) (cands : List (RankingCandidate ℚ))
    (value : String → RankingCandidate ℚ → Option ℚ) (limit : ℤ) (out : List RankedItemDTO) :
    Prop where
  length : out.length = min limit.toNat cands.length
  distinct : (out.map (·.item.id)).Nodup
  sorted : out.Pairwise fun r r' => r'.score ≤ r.score
  best : ∃ picked, TopK.Is (scoreOf cfg cands value) cands limit.toNat picked ∧
    out = picked.map (entryOf env cfg cands value)
  breakdown : ∀ c ∈ cands, (entryOf env cfg cands value c).score_breakdown =
    FEATURE_NAMES.map fun name =>
      (name, cfg.weight name * normalize (cands.map (value name)) (value name c))
  sum : ∀ c ∈ cands, (entryOf env cfg cands value c).score =
    ((entryOf env cfg cands value c).score_breakdown.map Prod.snd).sum
  unit : ∀ c ∈ cands, ∀ name, 0 ≤ normalize (cands.map (value name)) (value name c) ∧
    normalize (cands.map (value name)) (value name c) ≤ 1

theorem topRanked_take {cands : List (RankingCandidate ℚ)}
    (hids : (cands.map (·.item_id)).Nodup) (value : String → RankingCandidate ℚ → Option ℚ)
    (limit : ℤ) : TopRanked env cfg cands value limit
      (((TopK.sortDesc (scoreOf cfg cands value) cands).take limit.toNat).map
        (entryOf env cfg cands value)) := by
  have htop := TopK.is_take (scoreOf cfg cands value) hids.of_map limit.toNat
  refine ⟨?_, ?_, ?_, ⟨_, htop, rfl⟩, fun _ _ => rfl, fun c _ => ?_, fun c hc name => ?_⟩
  · rw [List.length_map, htop.length]
  · rw [List.map_map]
    exact htop.nodup.map_on fun c hc d hd heq =>
      List.inj_on_of_nodup_map hids (htop.subset c hc) (htop.subset d hd) heq
  · exact List.pairwise_map.mpr (htop.order.imp fun hbefore => hbefore.le)
  · show (FEATURE_NAMES.map (part cfg cands value c)).sum =
      ((FEATURE_NAMES.map fun name => (name, part cfg cands value c name)).map Prod.snd).sum
    rw [List.map_map]
    rfl
  · exact normalize_mem_unit (List.mem_map_of_mem hc)

/-- **A correct top-k.** For a pool with distinct ids `rank` returns the best candidates by the sum of
their weighted features, exactly when no feature raises; a smaller limit returns a prefix. -/
theorem rank_topRanked (env : Env) (db : Postgres ℚ) (cfg : RankerConfig ℚ)
    (redis_client : Option (RedisClient ℚ)) (query user_id : Option String)
    (user_ctx : Option (UserContext ℚ)) (client : Option (RedisClient ℚ)) (ctx : UserContext ℚ)
    (raw_cands : List (RawCandidate ℚ)) (limit : ℤ)
    (hpool : retrieve env db cfg redis_client query user_id user_ctx = .ok (client, ctx, raw_cands))
    (hids : (raw_cands.map (·.item_id)).Nodup) (hlimit : 0 ≤ limit) :
    let cands := fetched env db ctx raw_cands
    let feature := featureOf env.numerics db client env.now cfg cands ctx
    (∀ value, (∀ c ∈ cands, ∀ name ∈ FEATURE_NAMES, feature c name = .ok (value name c)) →
      ∃ out, rank env db cfg redis_client query user_id limit user_ctx = .ok out ∧
        TopRanked env cfg cands value limit out) ∧
    (∀ out, rank env db cfg redis_client query user_id limit user_ctx = .ok out →
      ∃ value : String → RankingCandidate ℚ → Option ℚ,
        ∀ c ∈ cands, ∀ name ∈ FEATURE_NAMES, feature c name = .ok (value name c)) ∧
    ∀ k, 0 ≤ k → k ≤ limit → rank env db cfg redis_client query user_id k user_ctx =
      (rank env db cfg redis_client query user_id limit user_ctx).map (·.take k.toNat) := by
  have hrank : ∀ n, rank env db cfg redis_client query user_id n user_ctx =
      rankCandidates env db cfg client n ctx raw_cands := by
    intro n
    rw [rank_eq, hpool]
    rfl
  have hdistinct : ((fetched env db ctx raw_cands).map (·.item_id)).Nodup :=
    hids.sublist (map_item_id_fetchCandidateRows ..)
  refine ⟨fun value hvalue => ?_, fun out hout => ?_, fun k hk hle => ?_⟩
  · refine ⟨_, (hrank limit).trans (rankCandidates_eq hvalue), ?_⟩
    rw [PyList.sliceTo, if_neg (not_lt.mpr hlimit)]
    exact topRanked_take hdistinct value limit
  · rw [hrank, rankCandidates_fetched] at hout
    split at hout
    · rename_i hempty
      refine ⟨fun _ _ => none, fun c hc => ?_⟩
      rw [List.isEmpty_iff.mp hempty] at hc
      cases hc
    · cases hgather : gatherFeatures env.numerics db client env.now cfg
        (fetched env db ctx raw_cands) ctx with
      | error e =>
        rw [hgather] at hout
        cases hout
      | ok features => exact exists_value_of_gatherFeatures hgather
  · exact rank_take hk hle query user_id user_ctx

end Rank

/-! ## Two items near a profile vector -/

def itemRow (id : String) (embedding : List ℚ) : ItemRow ℚ where
  id := id
  title := "t"
  description := "d"
  category := "c"
  brand := "b"
  price := 1
  created_at := 0
  popularity_score := 0
  embedding := some embedding

theorem nodup_noPairs : (([] : List CoClickRow).map CoClickRow.key).Nodup := List.nodup_nil

/-- Both items are hits of the vector index for the profile vector `[1, 0]`. -/
def nearItems : Postgres ℚ where
  item := ⟨[itemRow "i1" [0, 1], itemRow "i2" [1, 0]], by decide⟩
  co_click := ⟨[], nodup_noPairs⟩
  bm25 _ _ := .ok []
  vector _ _ := .ok [("i2", 1), ("i1", 0)]

/-- On the vectors and ages here the root of 1 and the exponential of 0 are all that is asked for. -/
def exactEnv : Env where
  numerics := ⟨id, id, fun _ => .ok 1⟩
  embedder := ⟨"m", fun _ => [], fun _ => .ok [1, 0], fun _ => [], fun _ => .ok [1, 0]⟩
  now := 0
  isoformat _ := "1970-01-01T00:00:00Z"

def profiled : UserContext ℚ := ⟨["i2"], some [1, 0], none, ["c"], ["b"]⟩

def nearHits : List (RawCandidate ℚ) := [⟨"i2", none, some 1⟩, ⟨"i1", none, some 0⟩]

theorem retrieve_nearItems : retrieve exactEnv nearItems defaultRankerConfig none none (some "u1")
    (some profiled) = .ok (none, profiled, nearHits) := rfl

theorem rank_topRanked_nearItems : ∃ value out,
    rank exactEnv nearItems defaultRankerConfig none none (some "u1") 1 (some profiled) = .ok out ∧
      TopRanked exactEnv defaultRankerConfig (fetched exactEnv nearItems profiled nearHits) value 1
        out := by
  have hall := (rank_topRanked exactEnv nearItems defaultRankerConfig none none (some "u1")
    (some profiled) none profiled nearHits 1 retrieve_nearItems (by decide) (by decide)).1
  refine ⟨fun name c => match featureOf exactEnv.numerics nearItems none exactEnv.now
    defaultRankerConfig (fetched exactEnv nearItems profiled nearHits) profiled c name with
      | .ok x => x
      | .error _ => none, hall _ fun c _ name hname => ?_⟩
  simp only [FEATURE_NAMES, List.mem_cons, List.not_mem_nil, or_false] at hname
  obtain rfl | rfl | rfl | rfl | rfl | rfl | rfl := hname
  · rfl
  · rfl
  · rfl
  · rfl
  · rfl
  · rfl
  · rfl

end ClickRec.Ranker
