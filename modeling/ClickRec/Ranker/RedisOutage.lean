import ClickRec.Ranker.TopRanked

/-! # `rank` without Redis

Each of the sites that read Redis has a default for a client that is missing and one for a command that
raises, and they are the same. -/
namespace ClickRec.Ranker
set_option autoImplicit false

/-- Every command raises a Redis error. -/
def RedisClient.Down (client : RedisClient ℚ) : Prop :=
  ∀ command, ∃ took, client.outcome command = .error took

theorem RedisClient.Down.reply {client : RedisClient ℚ} (h : client.Down) {α : Type}
    (command : RedisCommand) (a : α) : client.reply command a = none := by
  obtain ⟨took, houtcome⟩ := h command
  rw [RedisClient.reply, houtcome]

/-! ## The sites -/

section Sites
variable {env : Env} {db : Postgres ℚ} {cfg : RankerConfig ℚ} {client : RedisClient ℚ}

theorem RedisClient.Down.loadUserContext (h : client.Down) (user_id : Option String) :
    loadUserContext db (some client) user_id cfg = loadUserContext db none user_id cfg := by
  cases user_id with
  | none => rfl
  | some user_id =>
    unfold Ranker.loadUserContext RedisClient.zrevrange
    simp only [h.reply]

theorem RedisClient.Down.globalTopCandidates (h : client.Down) (k : ℤ) :
    globalTopCandidates (some client) k = [] := by
  unfold Ranker.globalTopCandidates RedisClient.zrevrange
  simp only [h.reply]

theorem RedisClient.Down.categoryTopCandidates (h : client.Down) (categories : List String)
    (k_per_cat : ℤ) : categoryTopCandidates (some client) categories k_per_cat = [] := by
  have hmembers : categoryMembers client categories k_per_cat = [] := by
    unfold categoryMembers RedisClient.zrevrange
    simp only [h.reply, Option.getD_none]
    exact List.flatMap_eq_nil_iff.mpr fun _ _ => rfl
  unfold Ranker.categoryTopCandidates
  simp only [hmembers]
  rfl

theorem RedisClient.Down.topCandidates (h : client.Down) (recent_categories : List String) :
    topCandidates cfg (some client) recent_categories =
      topCandidates cfg none recent_categories := by
  have hcategory : ∀ k, Ranker.categoryTopCandidates (K := ℚ) none recent_categories k = [] :=
    fun _ => rfl
  have hglobal : ∀ k, Ranker.globalTopCandidates (K := ℚ) none k = [] := fun _ => rfl
  unfold Ranker.topCandidates
  simp only [h.categoryTopCandidates, h.globalTopCandidates, hcategory, hglobal]

theorem RedisClient.Down.popularityScores (h : client.Down) (cands : List (RankingCandidate ℚ)) :
    popularityScores cands (some client) = popularityScores cands none := by
  obtain ⟨took, houtcome⟩ := h .zscores
  rw [popularityScores_eq, popularityScores_eq]
  refine List.map_congr_left fun c _ => ?_
  simp only [popularityOf, houtcome]

theorem RedisClient.Down.encodeQuery (h : client.Down) (embedder : Embedder ℚ) (query : String) :
    encodeQuery embedder (some client) query = (embedder.encode query, some client) := by
  unfold Ranker.encodeQuery RedisClient.get
  simp only [h.reply]

/-! ## The whole of `rank` -/

theorem RedisClient.Down.rankCandidates (h : client.Down) (embedder : Embedder ℚ) (limit : ℤ)
    (user_ctx : UserContext ℚ) (raw_cands : List (RawCandidate ℚ)) :
    rankCandidates env db cfg (some client) limit user_ctx raw_cands =
      rankCandidates { env with embedder := embedder } db cfg none limit user_ctx raw_cands := by
  unfold Ranker.rankCandidates gatherFeatures
  simp only [h.popularityScores]
  rfl

theorem RedisClient.Down.rank (h : client.Down) (embedder : Embedder ℚ)
    (query user_id : Option String) (limit : ℤ) (user_ctx : Option (UserContext ℚ))
    (hvec : ∀ q, query = some q →
      (Ranker.encodeQuery env.embedder (some client) q).1 = (Ranker.encodeQuery embedder none q).1) :
    rank env db cfg (some client) query user_id limit user_ctx =
      rank { env with embedder := embedder } db cfg none query user_id limit user_ctx := by
  rw [rank_eq, rank_eq]
  cases query with
  | none =>
    simp only [retrieve, generateCandidates, recommendedCandidates, h.loadUserContext,
      h.topCandidates, bind_assoc, pure_bind, h.rankCandidates embedder]
  | some query =>
    have hencode : env.embedder.encode query = embedder.encode query := by
      have hsame := hvec query rfl
      rw [h.encodeQuery] at hsame
      exact hsame
    have hnone : Ranker.encodeQuery embedder none query = (embedder.encode query, none) := rfl
    simp only [retrieve, generateCandidates, h.encodeQuery, hnone, hencode, h.loadUserContext,
      bind_assoc, pure_bind, h.rankCandidates embedder]

end Sites

/-! ## No failure of Redis makes `rank` raise -/

/-- Postgres executes every statement, the half-life and the price scale are positive, and `math.exp`
does not raise below 0. -/
structure HealthyRest (numerics : Numerics ℚ) (db : Postgres ℚ) (cfg : RankerConfig ℚ) : Prop where
  bm25 : ∀ q, ∃ rows, db.bm25 q cfg.bm25_k = .ok rows
  vector : ∀ v, ∃ rows, db.vector v cfg.vector_k = .ok rows
  half_life : 0 < cfg.recency_half_life_days
  price_scale : 0 < cfg.price_fit_scale
  exp : ∀ x ≤ 0, ∃ y, numerics.exp x = .ok y

section Rest
variable {env : Env} {db : Postgres ℚ} {cfg : RankerConfig ℚ}
  {redis_client : Option (RedisClient ℚ)}

theorem HealthyRest.rankCandidates (h : HealthyRest env.numerics db cfg) (limit : ℤ)
    (user_ctx : UserContext ℚ) (raw_cands : List (RawCandidate ℚ)) :
    ∃ out, rankCandidates env db cfg redis_client limit user_ctx raw_cands = .ok out := by
  have hrecency : ∀ c, ∃ x, recencyOf env.numerics.exp env.now cfg c = .ok x := by
    intro c
    have hage : (0 : ℚ) ≤ ageDays env.now c.created_at := le_max_left _ _
    rw [recencyOf, if_neg h.half_life.ne']
    exact h.exp _ (div_nonpos_of_nonpos_of_nonneg (neg_nonpos.mpr hage) h.half_life.le)
  have hprice : ∀ c, ∃ x, priceFitOf env.numerics.exp user_ctx.avg_price cfg c = .ok x := by
    intro c
    unfold priceFitOf
    cases user_ctx.avg_price with
    | none => exact ⟨0, rfl⟩
    | some avg =>
      simp only [if_neg h.price_scale.ne']
      exact h.exp _ (div_nonpos_of_nonpos_of_nonneg (neg_nonpos.mpr (abs_nonneg _)) h.price_scale.le)
  have hfeatures : ∀ c ∈ fetched env db user_ctx raw_cands, ∀ name ∈ FEATURE_NAMES, ∃ x,
      featureOf env.numerics db redis_client env.now cfg (fetched env db user_ctx raw_cands) user_ctx
        c name = .ok x := fun c _ _ hname => featureOf_ok (hrecency c) (hprice c) hname
  obtain ⟨value, hvalue⟩ := exists_value hfeatures
  exact ⟨_, rankCandidates_eq hvalue⟩

theorem HealthyRest.retrieve (h : HealthyRest env.numerics db cfg) (query user_id : Option String)
    (user_ctx : Option (UserContext ℚ))
    (hvec : ∀ q, query = some q → ∃ qvec, (encodeQuery env.embedder redis_client q).1 = .ok qvec) :
    ∃ r, retrieve env db cfg redis_client query user_id user_ctx = .ok r := by
  unfold Ranker.retrieve generateCandidates
  cases query with
  | none =>
    unfold recommendedCandidates
    simp only
    cases (user_ctx.getD (loadUserContext db redis_client user_id cfg)).profile_vec with
    | none => exact ⟨_, rfl⟩
    | some pvec =>
      obtain ⟨rows, hrows⟩ := h.vector (formatVector env.numerics.round6 pvec)
      simp only [hrows]
      cases rows with
      | nil => exact ⟨_, rfl⟩
      | cons hit rows => exact ⟨_, rfl⟩
  | some query =>
    obtain ⟨qvec, hqvec⟩ := hvec query rfl
    obtain ⟨bm25_rows, hbm25⟩ := h.bm25 query
    obtain ⟨vector_rows, hvector⟩ := h.vector (formatVector env.numerics.round6 qvec)
    simp only [queryCandidates, hqvec, hbm25, hvector, bind, Except.bind]
    exact ⟨_, rfl⟩

end Rest

/-- **Redis outage.** A client whose commands all raise gives the result of no client, for the same
query vector; and whichever commands raise, `rank` returns. -/
theorem rank_redis_outage (env : Env) (db : Postgres ℚ) (cfg : RankerConfig ℚ)
    (hrest : HealthyRest env.numerics db cfg) :
    (∀ (client : RedisClient ℚ) (embedder : Embedder ℚ) (query user_id : Option String) (limit : ℤ)
      (user_ctx : Option (UserContext ℚ)), client.Down →
        (∀ q, query = some q →
          (encodeQuery env.embedder (some client) q).1 = (encodeQuery embedder none q).1) →
        rank env db cfg (some client) query user_id limit user_ctx =
          rank { env with embedder := embedder } db cfg none query user_id limit user_ctx) ∧
    ∀ (redis_client : Option (RedisClient ℚ)) (query user_id : Option String) (limit : ℤ)
      (user_ctx : Option (UserContext ℚ)),
        (∀ q, query = some q → ∃ qvec, (encodeQuery env.embedder redis_client q).1 = .ok qvec) →
        ∃ out, rank env db cfg redis_client query user_id limit user_ctx = .ok out := by
  constructor
  · intro client embedder query user_id limit user_ctx hdown hvec
    exact hdown.rank embedder query user_id limit user_ctx hvec
  · intro redis_client query user_id limit user_ctx hvec
    obtain ⟨r, hr⟩ := hrest.retrieve query user_id user_ctx hvec
    rw [rank_eq, hr]
    exact hrest.rankCandidates limit r.2.1 r.2.2

/-- Nothing is stored and nothing answers. -/
def downClient : RedisClient ℚ := ⟨fun _ => .empty, fun _ => none, fun _ => .error false⟩

theorem rank_redis_outage_nearItems :
    rank exactEnv nearItems defaultRankerConfig (some downClient) (some "shoes") (some "u1") 1 none =
      rank exactEnv nearItems defaultRankerConfig none (some "shoes") (some "u1") 1 none := by
  have hrest : HealthyRest exactEnv.numerics nearItems defaultRankerConfig := by
    refine ⟨fun _ => ⟨_, rfl⟩, fun _ => ⟨_, rfl⟩, ?_, ?_, fun _ _ => ⟨_, rfl⟩⟩
    · norm_num [defaultRankerConfig]
    · norm_num [defaultRankerConfig]
  exact (rank_redis_outage exactEnv nearItems defaultRankerConfig hrest).1 downClient
    exactEnv.embedder (some "shoes") (some "u1") 1 none (fun _ => ⟨false, rfl⟩) fun _ _ => rfl

end ClickRec.Ranker
