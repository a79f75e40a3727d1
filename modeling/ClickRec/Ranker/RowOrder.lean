import ClickRec.Ranker.TopRanked

/-! # The order in which Postgres returns rows

Three SELECTs have no ORDER BY. The history ends in sums, the candidate rows in a dict read in the order
of the raw candidates, and the co-click rows in sums again; only the counters of categories and brands
remember an order, and the modes here do not use them. -/
namespace ClickRec.Ranker
set_option autoImplicit false

/-! ## The rows of the candidates -/

section Fetch
variable {K : Type} [Field K] {table table' : ItemTable K}

omit [Field K] in
theorem ItemTable.row_perm (h : table'.rows.Perm table.rows) (id : String) :
    table'.row id = table.row id := by
  refine Option.ext fun row => ?_
  rw [ItemTable.row_eq_some, ItemTable.row_eq_some, h.mem_iff]

theorem fetchCandidateRows_perm (h : table'.rows.Perm table.rows) (sqrt round6 : K → K)
    (raw : List (RawCandidate K)) (profile_vec : Option (List K)) :
    fetchCandidateRows sqrt round6 table' raw profile_vec =
      fetchCandidateRows sqrt round6 table raw profile_vec := by
  rw [fetchCandidateRows_eq, fetchCandidateRows_eq]
  refine List.filterMap_congr fun c _ => ?_
  rw [ItemTable.row_perm h]

theorem coClickScores_perm [LinearOrder K] {co_click co_click' : CoClickTable}
    (h : co_click'.rows.Perm co_click.rows) (cands : List (RankingCandidate K))
    (recent_item_ids : List String) :
    coClickScores co_click' cands recent_item_ids = coClickScores co_click cands recent_item_ids := by
  rw [coClickScores_eq, coClickScores_eq]
  refine List.map_congr_left fun c _ => ?_
  rw [coClickOf, coClickOf, (h.map _).sum_eq]

end Fetch

/-! ## The history -/

section History
variable {K : Type}

/-- The contexts agree in what the candidates are fetched and scored by. -/
structure SameSignals (ctx ctx' : UserContext K) : Prop where
  recent_item_ids : ctx'.recent_item_ids = ctx.recent_item_ids
  profile_vec : ctx'.profile_vec = ctx.profile_vec
  avg_price : ctx'.avg_price = ctx.avg_price

theorem SameSignals.refl (ctx : UserContext K) : SameSignals ctx ctx := ⟨rfl, rfl, rfl⟩

variable [Field K]

theorem zipWith_add_right_comm (u v w : List K) :
    List.zipWith (· + ·) (List.zipWith (· + ·) u v) w =
      List.zipWith (· + ·) (List.zipWith (· + ·) u w) v := by
  induction u generalizing v w with
  | nil => simp
  | cons x u ih =>
    cases v with
    | nil => simp
    | cons y v =>
      cases w with
      | nil => simp
      | cons z w =>
        simp only [List.zipWith_cons_cons, ih v w]
        rw [add_right_comm]

theorem meanVector_perm {vs vs' : List (List K)} (h : vs.Perm vs') :
    meanVector vs = meanVector vs' := by
  have hcomm : RightCommutative fun u v : List K => List.zipWith (· + ·) u v :=
    ⟨zipWith_add_right_comm⟩
  induction h with
  | nil => rfl
  | cons v h ih =>
    simp only [meanVector]
    rw [h.foldl_eq v, h.length_eq]
  | swap v w vs =>
    have hhead : List.zipWith (· + ·) v w = List.zipWith (· + ·) w v :=
      List.zipWith_comm_of_comm fun x y => add_comm x y
    simp only [meanVector, List.foldl_cons, hhead]
    rfl
  | trans _ _ ih ih' => exact ih.trans ih'

theorem mean_perm {xs xs' : List K} (h : xs.Perm xs') : mean xs = mean xs' := by
  unfold mean
  rw [h.isEmpty_eq, h.sum_eq, h.length_eq]

theorem sameSignals_contextOf (recent_ids : List String) {rows rows' : List (ItemRow K)}
    (h : rows'.Perm rows) :
    SameSignals (contextOf recent_ids rows) (contextOf recent_ids rows') := by
  unfold contextOf
  rw [h.isEmpty_eq]
  split
  · exact .refl _
  · exact ⟨rfl, meanVector_perm (h.filterMap _), mean_perm (h.map _)⟩

end History

theorem sameSignals_loadUserContext {db : Postgres ℚ} {history : ItemTable ℚ}
    (h : history.rows.Perm db.item.rows) (redis_client : Option (RedisClient ℚ))
    (user_id : Option String) (cfg : RankerConfig ℚ) :
    SameSignals (loadUserContext db redis_client user_id cfg)
      (loadUserContext { db with item := history } redis_client user_id cfg) := by
  unfold loadUserContext
  split
  · split
    · exact .refl _
    · split
      · exact .refl _
      · exact sameSignals_contextOf _ (h.filter _)
  · exact .refl _

/-! ## `rank` -/

/-- The database with the rows of the tables in other orders; the two SELECTs with ORDER BY return
the same. -/
structure Reordered (db db' : Postgres ℚ) : Prop where
  item : db'.item.rows.Perm db.item.rows
  co_click : db'.co_click.rows.Perm db.co_click.rows
  bm25 : db'.bm25 = db.bm25
  vector : db'.vector = db.vector

/-- `rank` where the SELECT of the history returns the rows in an order of its own. -/
def rankWithHistory (env : Env) (history : ItemTable ℚ) (db : Postgres ℚ) (cfg : RankerConfig ℚ)
    (redis_client : Option (RedisClient ℚ)) (query user_id : Option String) (limit : ℤ)
    (user_ctx : Option (UserContext ℚ)) : Except PyError (List Llm.RankedItemDTO) :=
  rank env db cfg redis_client query user_id limit
    (some (user_ctx.getD (loadUserContext { db with item := history } redis_client user_id cfg)))

section Rank
variable {env : Env} {db db' : Postgres ℚ} {cfg : RankerConfig ℚ}
  {redis_client : Option (RedisClient ℚ)}

/-- With the order of the other SELECT it is `rank`. -/
theorem rankWithHistory_self (query user_id : Option String) (limit : ℤ)
    (user_ctx : Option (UserContext ℚ)) :
    rankWithHistory env db.item db cfg redis_client query user_id limit user_ctx =
      rank env db cfg redis_client query user_id limit user_ctx := by
  cases user_ctx with
  | none => exact rank_preloaded env db cfg redis_client query user_id limit
  | some user_ctx => rfl

theorem rankCandidates_reordered (hdb : Reordered db db') {ctx ctx' : UserContext ℚ}
    (hctx : SameSignals ctx ctx') (limit : ℤ) (raw_cands : List (RawCandidate ℚ)) :
    rankCandidates env db' cfg redis_client limit ctx' raw_cands =
      rankCandidates env db cfg redis_client limit ctx raw_cands := by
  unfold rankCandidates gatherFeatures
  simp only [hctx.recent_item_ids, hctx.profile_vec, hctx.avg_price,
    fetchCandidateRows_perm hdb.item, coClickScores_perm hdb.co_click]

/-- The ANN query has a profile vector and finds something. -/
def ServedByProfile (env : Env) (db : Postgres ℚ) (cfg : RankerConfig ℚ) (ctx : UserContext ℚ) :
    Prop :=
  ∃ pvec hit hits, ctx.profile_vec = some pvec ∧
    db.vector (formatVector env.numerics.round6 pvec) cfg.vector_k = .ok (hit :: hits)

theorem rank_sameSignals (hdb : Reordered db db') {ctx ctx' : UserContext ℚ}
    (hctx : SameSignals ctx ctx') (query user_id : Option String) (limit : ℤ)
    (hserved : query = none → ServedByProfile env db cfg ctx) :
    rank env db' cfg redis_client query user_id limit (some ctx') =
      rank env db cfg redis_client query user_id limit (some ctx) := by
  rw [rank_eq, rank_eq]
  cases query with
  | none =>
    obtain ⟨pvec, hit, hits, hprofile, hvector⟩ := hserved rfl
    have hprofile' : ctx'.profile_vec = some pvec := hctx.profile_vec.trans hprofile
    simp only [retrieve, generateCandidates, recommendedCandidates, Option.getD_some, hprofile,
      hprofile', hdb.vector, hvector, bind, Except.bind]
    exact rankCandidates_reordered hdb hctx limit _
  | some query =>
    simp only [retrieve, generateCandidates, queryCandidates, Option.getD_some, hdb.bm25, hdb.vector,
      bind_assoc, pure_bind, rankCandidates_reordered hdb hctx]

/-- **Row order.** In query mode, and without a query where the profile vector finds candidates, the
orders in which the three SELECTs return their rows do not show in the result. -/
theorem rank_row_order (env : Env) (db db' : Postgres ℚ) (history : ItemTable ℚ)
    (cfg : RankerConfig ℚ) (redis_client : Option (RedisClient ℚ)) (query user_id : Option String)
    (limit : ℤ) (user_ctx : Option (UserContext ℚ)) (hdb : Reordered db db')
    (hhistory : history.rows.Perm db.item.rows)
    (hserved : query = none → ServedByProfile env db cfg
      (user_ctx.getD (loadUserContext db redis_client user_id cfg))) :
    rankWithHistory env history db' cfg redis_client query user_id limit user_ctx =
      rank env db cfg redis_client query user_id limit user_ctx := by
  rw [← rankWithHistory_self]
  refine rank_sameSignals hdb ?_ query user_id limit hserved
  cases user_ctx with
  | some user_ctx => exact .refl _
  | none =>
    have hload : loadUserContext { db' with item := history } redis_client user_id cfg =
        loadUserContext { db with item := history } redis_client user_id cfg := rfl
    rw [Option.getD_none, Option.getD_none, hload]
    exact sameSignals_loadUserContext hhistory redis_client user_id cfg

end Rank

/-- The rows of the items the other way round. -/
def nearItemsReversed : Postgres ℚ :=
  { nearItems with item := ⟨[itemRow "i2" [1, 0], itemRow "i1" [0, 1]], by decide⟩ }

theorem rank_row_order_nearItems :
    rankWithHistory exactEnv nearItemsReversed.item nearItemsReversed defaultRankerConfig none none
        (some "u1") 1 (some profiled) =
      rank exactEnv nearItems defaultRankerConfig none none (some "u1") 1 (some profiled) := by
  have hswap : nearItemsReversed.item.rows.Perm nearItems.item.rows := .swap _ _ _
  exact rank_row_order exactEnv nearItems nearItemsReversed nearItemsReversed.item
    defaultRankerConfig none none (some "u1") 1 (some profiled) ⟨hswap, .refl _, rfl, rfl⟩ hswap
    fun _ => ⟨_, _, _, rfl, rfl⟩

end ClickRec.Ranker
