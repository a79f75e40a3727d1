import ClickRec.Eval.Judge
import ClickRec.Ranker.ChannelMerge
import ClickRec.Ranker.TopRanked

/-! # The BM25 baseline

With the other six weights at zero the score of a candidate grows with its `ts_rank_cd`, and the
candidates come in the order of the lexical channel already, so the stable sort moves none of them. -/
namespace ClickRec.Eval
set_option autoImplicit false
open Llm (RankedItemDTO)
open Ranker

/-! ## The two SELECTs -/

/-- The SELECTs run over the primary key, and the lexical one ends in `ORDER BY bm25_score DESC`. -/
structure SqlOrder (db : Postgres ℚ) : Prop where
  bm25_sorted : ∀ {q k rows}, db.bm25 q k = .ok rows → rows.Pairwise fun row row' => row'.2 ≤ row.2
  bm25_ids : ∀ {q k rows}, db.bm25 q k = .ok rows → (rows.map Prod.fst).Nodup
  vector_ids : ∀ {v k rows}, db.vector v k = .ok rows → (rows.map Prod.fst).Nodup

section Order
variable {bm25_rows vector_rows : List (String × ℚ)}

theorem pairwise_lookup (hids : (bm25_rows.map Prod.fst).Nodup)
    (hsorted : bm25_rows.Pairwise fun row row' => row'.2 ≤ row.2) :
    (bm25_rows.map Prod.fst).Pairwise fun id id' =>
      AtMost (bm25_rows.lookup id') (bm25_rows.lookup id) := by
  have hvalue : ∀ row ∈ bm25_rows, bm25_rows.lookup row.1 = some row.2 := fun row hrow =>
    (lookup_eq_some_iff hids).mpr hrow
  refine List.pairwise_map.mpr (hsorted.imp_of_mem fun {row row'} hrow hrow' hle => ?_)
  rw [hvalue row hrow, hvalue row' hrow']
  exact .inr ⟨_, _, rfl, rfl, hle⟩

/-- The lexical hits first, the best one first, and then those without a lexical score. -/
theorem pairwise_mergedIds (hids : (bm25_rows.map Prod.fst).Nodup)
    (hsorted : bm25_rows.Pairwise fun row row' => row'.2 ≤ row.2) :
    (mergedIds bm25_rows vector_rows).Pairwise fun id id' =>
      AtMost (bm25_rows.lookup id') (bm25_rows.lookup id) := by
  have hnone : ∀ id ∈ (vector_rows.map Prod.fst).filter (· ∉ bm25_rows.map Prod.fst),
      bm25_rows.lookup id = none := by
    intro id hid
    exact lookup_eq_none_of_not_mem (by simpa using (List.mem_filter.mp hid).2)
  refine List.pairwise_append.mpr ⟨pairwise_lookup hids hsorted, ?_, ?_⟩
  · exact List.pairwise_of_forall_mem_list fun _ _ id hid => .inl (hnone id hid)
  · exact fun _ _ id hid => .inl (hnone id hid)

end Order

/-! ## The scores -/

section Scores
variable {cfg : RankerConfig ℚ} {cands : List (RankingCandidate ℚ)}
  {value : String → RankingCandidate ℚ → Option ℚ}

theorem scoreOf_bm25Only (c : RankingCandidate ℚ) :
    scoreOf (bm25OnlyCfg cfg) cands value c =
      cfg.w_bm25 * normalize (cands.map (value "bm25")) (value "bm25" c) := by
  simp [scoreOf, scoredRow, FEATURE_NAMES, part, RankerConfig.weight, bm25OnlyCfg]

/-- A score grows with the lexical one. -/
theorem scoreOf_bm25Only_mono (hweight : 0 ≤ cfg.w_bm25) {c d : RankingCandidate ℚ} (hc : c ∈ cands)
    (h : AtMost (value "bm25" d) (value "bm25" c)) :
    scoreOf (bm25OnlyCfg cfg) cands value d ≤ scoreOf (bm25OnlyCfg cfg) cands value c := by
  rw [scoreOf_bm25Only, scoreOf_bm25Only]
  exact mul_le_mul_of_nonneg_left (normalize_mono (List.mem_map_of_mem hc) h) hweight

theorem sortDesc_bm25Only (hweight : 0 ≤ cfg.w_bm25)
    (h : cands.Pairwise fun c d => AtMost (value "bm25" d) (value "bm25" c)) :
    TopK.sortDesc (scoreOf (bm25OnlyCfg cfg) cands value) cands = cands :=
  (h.imp_of_mem fun hc _ hle => scoreOf_bm25Only_mono hweight hc hle).insertionSort_eq

theorem normalize_none (xs : List (Option ℚ)) : normalize xs none = 0 := by
  obtain hzero | ⟨_, -, hsingle⟩ | ⟨lo, hi, -, -, hvalue⟩ := normalize_cases xs
  · exact hzero none
  · exact hsingle none
  · exact hvalue none

theorem scoreOf_bm25Only_none {c : RankingCandidate ℚ} (h : value "bm25" c = none) :
    scoreOf (bm25OnlyCfg cfg) cands value c = 0 := by
  rw [scoreOf_bm25Only, h, normalize_none, mul_zero]

end Scores

/-! ## The ranking -/

section Rank
variable {env : Env} {db : Postgres ℚ} {cfg : RankerConfig ℚ}
  {redis_client : Option (RedisClient ℚ)}

/-- The candidates of the two channels, in the order of the merge. -/
theorem rankCandidates_bm25Only {bm25_rows vector_rows : List (String × ℚ)}
    (hids : (bm25_rows.map Prod.fst).Nodup) (hvector : (vector_rows.map Prod.fst).Nodup)
    (hsorted : bm25_rows.Pairwise fun row row' => row'.2 ≤ row.2) (hweight : 0 ≤ cfg.w_bm25)
    {limit : ℤ} (hlimit : 0 ≤ limit) {user_ctx : UserContext ℚ} {n : ℕ} {out : List RankedItemDTO}
    (hout : rankCandidates env db (bm25OnlyCfg cfg) redis_client limit user_ctx
      (((mergedIds bm25_rows vector_rows).take n).map (mergedCandidate bm25_rows vector_rows)) =
        .ok out) :
    out.map (·.item.id) = (((mergedIds bm25_rows vector_rows).take n).filter fun id =>
        (db.item.row id).isSome).take limit.toNat ∧
      ∀ r ∈ out, r.item.id ∉ bm25_rows.map Prod.fst → r.score = 0 := by
  have hnodup : ((mergedIds bm25_rows vector_rows).take n).Nodup :=
    (nodup_mergedIds hids hvector).sublist (List.take_sublist _ _)
  obtain ⟨value, hvalue⟩ := exists_value_of_rankCandidates hout
  rw [rankCandidates_eq hvalue, PyList.sliceTo_of_nonneg _ hlimit] at hout
  have hcands := fetchCandidateRows_merged env.numerics.sqrt env.numerics.round6 db.item
    user_ctx.profile_vec bm25_rows vector_rows hnodup
  rw [fetched, hcands] at hvalue hout
  generalize hfetched : ((mergedIds bm25_rows vector_rows).take n).filterMap
    (fetchedCandidate env.numerics.sqrt env.numerics.round6 db.item user_ctx.profile_vec bm25_rows
      vector_rows) = cands at hvalue hout
  have hraw : ∀ c ∈ cands, value "bm25" c = bm25_rows.lookup c.item_id := by
    intro c hc
    rw [← Except.ok.inj (hvalue c hc "bm25" (by decide))]
    rw [← hfetched] at hc
    obtain ⟨id, -, hid⟩ := List.mem_filterMap.mp hc
    obtain ⟨rfl, hbm25, -⟩ := fetchedCandidate_eq_some _ _ hid
    exact hbm25
  have horder : cands.Pairwise fun c d => AtMost (value "bm25" d) (value "bm25" c) := by
    have hids' : (cands.map (·.item_id)).Pairwise fun id id' =>
        AtMost (bm25_rows.lookup id') (bm25_rows.lookup id) := by
      rw [← hfetched, map_item_id_fetched]
      exact ((pairwise_mergedIds hids hsorted).sublist (List.take_sublist _ _)).filter _
    refine (List.pairwise_map.mp hids').imp_of_mem fun {c d} hc hd hle => ?_
    rwa [hraw c hc, hraw d hd]
  rw [sortDesc_bm25Only hweight horder] at hout
  cases hout
  refine ⟨?_, fun r hr hlexical => ?_⟩
  · rw [List.map_map, ← map_item_id_fetched, hfetched, List.map_take]
    rfl
  · obtain ⟨c, hc, rfl⟩ := List.mem_map.mp hr
    refine scoreOf_bm25Only_none ?_
    rw [hraw c (List.mem_of_mem_take hc)]
    exact lookup_eq_none_of_not_mem hlexical

theorem bind_ok {ε α β : Type} {x : Except ε α} {f : α → Except ε β} {b : β}
    (h : x >>= f = .ok b) : ∃ a, x = .ok a ∧ f a = .ok b := by
  cases x with
  | error e => cases h
  | ok a => exact ⟨a, rfl, h⟩

/-- **The baseline is the lexical order.** Whoever asks and whatever Redis holds, with only the BM25
weight `rank` returns the lexical hits in their order, then the hits of the vector index alone with a
score of 0, the first `candidate_cap` of them that are still in the table, cut at the limit. -/
theorem rank_bm25Only (env : Env) (db : Postgres ℚ) (cfg : RankerConfig ℚ)
    (redis_client : Option (RedisClient ℚ)) (query : String) (user_id : Option String) (limit : ℤ)
    (user_ctx : Option (UserContext ℚ)) (out : List RankedItemDTO) (hsql : SqlOrder db)
    (hweight : 0 ≤ cfg.w_bm25) (hcap : 0 ≤ cfg.candidate_cap) (hlimit : 0 ≤ limit)
    (hout : rank env db (bm25OnlyCfg cfg) redis_client (some query) user_id limit user_ctx = .ok out) :
    ∃ qvec bm25_rows vector_rows,
      (encodeQuery env.embedder redis_client query).1 = .ok qvec ∧
      db.bm25 query cfg.bm25_k = .ok bm25_rows ∧
      db.vector (formatVector env.numerics.round6 qvec) cfg.vector_k = .ok vector_rows ∧
      out.map (·.item.id) = (((mergedIds bm25_rows vector_rows).take cfg.candidate_cap.toNat).filter
        fun id => (db.item.row id).isSome).take limit.toNat ∧
      ∀ r ∈ out, r.item.id ∉ bm25_rows.map Prod.fst → r.score = 0 := by
  rw [rank_eq] at hout
  obtain ⟨⟨client, ctx, raw_cands⟩, hpool, hout⟩ := bind_ok hout
  obtain ⟨qvec, hqvec, hpool⟩ := bind_ok hpool
  obtain ⟨raw, hraw, hpool⟩ := bind_ok hpool
  obtain rfl : raw = raw_cands := congrArg (·.2.2) (Except.ok.inj hpool)
  have hquery := queryCandidates_eq env.numerics.round6 db (bm25OnlyCfg cfg) query (some qvec)
  obtain ⟨bm25_rows, hbm25, hraw⟩ := bind_ok (hquery.symm.trans hraw)
  obtain ⟨vector_rows, hvector, hraw⟩ := bind_ok hraw
  refine ⟨qvec, bm25_rows, vector_rows, hqvec, hbm25, hvector, ?_⟩
  have hids := hsql.bm25_ids hbm25
  have hids' := hsql.vector_ids hvector
  obtain rfl : truncate (mergeChannels bm25_rows vector_rows) cfg.candidate_cap = raw :=
    Except.ok.inj hraw
  rw [truncate_eq _ hcap, mergeChannels_eq hids hids', ← List.map_take] at hout
  exact rankCandidates_bm25Only hids hids' (hsql.bm25_sorted hbm25) hweight hlimit hout

end Rank

/-! ## Two lexical hits and a neighbour -/

/-- The best lexical hit is not in the table any more. -/
def lexicalItems : Postgres ℚ where
  item := ⟨["i1", "i2", "i3"].map plainRow, by decide⟩
  co_click := .empty
  bm25 _ _ := .ok [("i9", 3), ("i2", 2), ("i1", 1)]
  vector _ _ := .ok [("i3", 1), ("i1", 1 / 2)]

theorem lexicalItems_sqlOrder : SqlOrder lexicalItems where
  bm25_sorted h := by
    cases h
    decide
  bm25_ids h := by
    cases h
    decide
  vector_ids h := by
    cases h
    decide

theorem lexicalItems_answered : ∃ out, rank exactEnv lexicalItems (bm25OnlyCfg defaultRankerConfig)
    none (some "shoes") (some "u1") 10 none = .ok out := by
  have hok : (rank exactEnv lexicalItems (bm25OnlyCfg defaultRankerConfig) none (some "shoes")
    (some "u1") 10 none).isOk := by decide +kernel
  cases hout : rank exactEnv lexicalItems (bm25OnlyCfg defaultRankerConfig) none (some "shoes")
    (some "u1") 10 none with
  | error e =>
    rw [hout] at hok
    cases hok
  | ok out => exact ⟨out, rfl⟩

theorem rank_bm25Only_lexicalItems : ∃ out, rank exactEnv lexicalItems
      (bm25OnlyCfg defaultRankerConfig) none (some "shoes") (some "u1") 10 none = .ok out ∧
    out.map (·.item.id) = ["i2", "i1", "i3"] := by
  obtain ⟨out, hout⟩ := lexicalItems_answered
  obtain ⟨qvec, bm25_rows, vector_rows, -, hbm25, hvector, hids, -⟩ := rank_bm25Only exactEnv
    lexicalItems defaultRankerConfig none "shoes" (some "u1") 10 none out lexicalItems_sqlOrder
    (by decide) (by decide) (by decide) hout
  cases hbm25
  cases hvector
  exact ⟨out, hout, hids.trans (by decide)⟩

end ClickRec.Eval
