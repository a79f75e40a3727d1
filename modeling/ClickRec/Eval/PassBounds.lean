import ClickRec.Eval.Baseline
import ClickRec.Eval.JudgePairs
import ClickRec.Eval.Ndcg
import ClickRec.Llm.RerankOrder

/-! # The metrics of a pass

One item was clicked, and no list of results has an item twice, so at most one result is relevant. Its
reciprocal place is at most its discounted gain, as the logarithm of a place grows more slowly. -/
namespace ClickRec.Eval
set_option autoImplicit false
open Llm (RankedItemDTO)
open Ranker Discounted

/-! ## A list with one relevant entry -/

section Metrics
variable {K : Type} [Field K] [LinearOrder K] [IsStrictOrderedRing K] {log2 : ℕ → K}

/-- What of `math.log2` matters here. -/
structure IsLog2 (log2 : ℕ → K) : Prop extends Grows log2 where
  two : log2 2 = 1
  le : ∀ i : ℕ, log2 (i + 2) ≤ (i + 1 : ℕ)

theorem IsLog2.discount_le_one (h : IsLog2 log2) (i : ℕ) : discount log2 i ≤ 1 := by
  have hfirst : discount log2 0 = 1 := by rw [discount, h.two, one_div_one]
  rw [← hfirst]
  exact h.toGrows.strictAnti_discount.antitone (Nat.zero_le i)

theorem IsLog2.place_le_discount (h : IsLog2 log2) (i : ℕ) :
    1 / ((i + 1 : ℕ) : K) ≤ discount log2 i :=
  one_div_le_one_div_of_le (h.pos i) (h.le i)

/-- Each entry is 0 or 1, and at most one is 1. -/
structure OneRelevant (rels : List K) : Prop where
  binary : ∀ x ∈ rels, x = 0 ∨ x = 1
  sum_le : rels.sum ≤ 1

variable {rels : List K}

theorem OneRelevant.nonneg (h : OneRelevant rels) : ∀ x ∈ rels, 0 ≤ x := by
  intro x hx
  obtain rfl | rfl := h.binary x hx
  · exact le_rfl
  · exact zero_le_one

theorem total_desc_le_one (hlog : IsLog2 log2) (h : OneRelevant rels) (k : ℕ) :
    total (discount log2) ((desc rels).take k) ≤ 1 := by
  have hdesc : ∀ x ∈ desc rels, 0 ≤ x := fun x hx => h.nonneg x ((perm_desc rels).mem_iff.mp hx)
  calc total (discount log2) ((desc rels).take k)
      ≤ ((desc rels).take k).sum :=
        total_le_sum hlog.discount_le_one fun x hx => hdesc x (List.mem_of_mem_take hx)
    _ ≤ (desc rels).sum := (List.take_sublist k _).sum_le_sum hdesc
    _ = rels.sum := (perm_desc rels).sum_eq
    _ ≤ 1 := h.sum_le

theorem mrrAtK_nonneg (rels : List K) (k : ℤ) : 0 ≤ mrrAtK rels k := by
  unfold mrrAtK
  split
  · exact le_rfl
  · exact one_div_nonneg.mpr (Nat.cast_nonneg _)

theorem mrrAtK_le_ndcgAtK (hlog : IsLog2 log2) (h : OneRelevant rels) {k : ℤ} (hk : 0 ≤ k) :
    mrrAtK rels k ≤ ndcgAtK log2 rels k := by
  have hnonneg := (ndcgAtK_mem_unit hlog.toGrows h.nonneg k).1
  unfold mrrAtK
  rw [PyList.sliceTo_of_nonneg _ hk]
  split
  · exact hnonneg
  · rename_i i hi
    obtain ⟨hlt, hpos, -⟩ := List.findIdx?_eq_some_iff_getElem.mp hi
    have hpos : 0 < (rels.take k.toNat)[i] := by simpa using hpos
    have hmem : (rels.take k.toNat)[i] ∈ rels := List.mem_of_mem_take (List.getElem_mem hlt)
    have hone : (rels.take k.toNat)[i] = 1 := (h.binary _ hmem).resolve_left hpos.ne'
    have hk' : 1 ≤ k := by
      rw [List.length_take] at hlt
      omega
    have hideal : 0 < total (discount log2) ((desc rels).take k.toNat) :=
      (ideal_pos_iff hlog.toGrows h.nonneg (by omega)).mpr ⟨_, hmem, hpos⟩
    have hgain : discount log2 i ≤ total (discount log2) (rels.take k.toNat) := by
      have hentry := le_total (fun i => (hlog.toGrows.discount_pos i).le)
        (fun x hx => h.nonneg x (List.mem_of_mem_take hx)) (List.getElem?_eq_getElem hlt)
      rwa [hone, mul_one] at hentry
    rw [ndcgAtK_of_pos hk' (List.ne_nil_of_mem hmem), if_neg hideal.ne']
    calc 1 / ((i + 1 : ℕ) : K) ≤ discount log2 i := hlog.place_le_discount i
      _ ≤ total (discount log2) (rels.take k.toNat) := hgain
      _ ≤ total (discount log2) (rels.take k.toNat) /
          total (discount log2) ((desc rels).take k.toNat) :=
        le_div_self ((hlog.toGrows.discount_pos i).le.trans hgain) hideal
          (total_desc_le_one hlog h k.toNat)

end Metrics

/-- The real logarithm. -/
theorem isLog2_realLog2 : IsLog2 realLog2 where
  toGrows := grows_realLog2
  two := Real.logb_self_eq_one (by norm_num)
  le i := by
    rw [realLog2, Real.logb_le_iff_le_rpow (by norm_num) (by positivity), Real.rpow_natCast]
    exact_mod_cast Nat.lt_two_pow_self (n := i + 1)

theorem oneRelevant_relevances {results : List RankedItemDTO} (h : (results.map (·.id)).Nodup)
    (item_id : String) : OneRelevant (relevances results item_id) := by
  refine ⟨fun x hx => ?_, ?_⟩
  · obtain ⟨r, -, rfl⟩ := List.mem_map.mp hx
    split
    · exact .inr rfl
    · exact .inl rfl
  · have hsum : (relevances results item_id).sum = ((results.map (·.id)).count item_id : ℕ) := by
      clear h
      induction results with
      | nil => rfl
      | cons r results ih =>
        rw [relevances, List.map_cons, List.sum_cons]
        rw [relevances] at ih
        rw [ih, List.map_cons, List.count_cons]
        by_cases hid : r.id = item_id
        · simp [hid, add_comm]
        · simp [hid]
    rw [hsum]
    exact_mod_cast List.nodup_iff_count_le_one.mp h item_id

/-! ## The results of a query have distinct ids -/

section Distinct
variable {K : Type} {merged : List (RawCandidate K)}

theorem nodup_setCandidate (h : (merged.map (·.item_id)).Nodup) (c : RawCandidate K) :
    ((setCandidate merged c).map (·.item_id)).Nodup := by
  unfold setCandidate
  split
  · have hsame : ((merged.map fun d => if d.item_id = c.item_id then c else d).map (·.item_id)) =
        merged.map (·.item_id) := by
      rw [List.map_map]
      refine List.map_congr_left fun d _ => ?_
      rw [Function.comp_apply]
      split
      · rename_i hid
        exact hid.symm
      · rfl
    rwa [hsame]
  · rename_i hnew
    rw [List.map_append, List.map_singleton, ← List.concat_eq_append]
    exact h.concat hnew

theorem nodup_setVectorRaw (h : (merged.map (·.item_id)).Nodup) (hit : String × K) :
    ((setVectorRaw merged hit).map (·.item_id)).Nodup := by
  unfold setVectorRaw
  split
  · have hsame : ((merged.map fun d => if d.item_id = hit.1 then { d with vector_raw := some hit.2 }
        else d).map (·.item_id)) = merged.map (·.item_id) := by
      rw [List.map_map]
      refine List.map_congr_left fun d _ => ?_
      rw [Function.comp_apply]
      split
      · rfl
      · rfl
    rwa [hsame]
  · rename_i hnew
    rw [List.map_append, List.map_singleton, ← List.concat_eq_append]
    exact h.concat hnew

theorem nodup_foldl {α : Type} {f : List (RawCandidate K) → α → List (RawCandidate K)}
    (hf : ∀ merged x, (merged.map (·.item_id)).Nodup → ((f merged x).map (·.item_id)).Nodup)
    (l : List α) (h : (merged.map (·.item_id)).Nodup) :
    ((l.foldl f merged).map (·.item_id)).Nodup := by
  induction l generalizing merged with
  | nil => exact h
  | cons x l ih => exact ih (hf merged x h)

/-- The dict of candidates has each id once, whatever the two SELECTs return. -/
theorem nodup_mergeChannels (bm25_rows vector_rows : List (String × K)) :
    ((mergeChannels bm25_rows vector_rows).map (·.item_id)).Nodup := by
  unfold mergeChannels
  refine nodup_foldl (fun _ hit h => nodup_setVectorRaw h hit) vector_rows ?_
  exact nodup_foldl (fun _ hit h => nodup_setCandidate h _) bm25_rows List.nodup_nil

end Distinct

section Rank
variable {env : Env} {db : Postgres ℚ} {cfg : RankerConfig ℚ}
  {redis_client : Option (RedisClient ℚ)}

theorem nodup_rankCandidates {limit : ℤ} {user_ctx : UserContext ℚ}
    {raw_cands : List (RawCandidate ℚ)} {out : List RankedItemDTO}
    (hraw : (raw_cands.map (·.item_id)).Nodup)
    (hout : rankCandidates env db cfg redis_client limit user_ctx raw_cands = .ok out) :
    (out.map (·.id)).Nodup := by
  obtain ⟨value, hvalue⟩ := exists_value_of_rankCandidates hout
  rw [rankCandidates_eq hvalue] at hout
  cases hout
  have hcands : ((fetched env db user_ctx raw_cands).map (·.item_id)).Nodup :=
    hraw.sublist (map_item_id_fetchCandidateRows ..)
  rw [List.map_map]
  refine List.Nodup.sublist (((PyList.sliceTo_prefix _ limit).sublist).map _) ?_
  exact ((TopK.perm_sortDesc _ _).map _).nodup_iff.mpr hcands

theorem nodup_truncate {K : Type} {cands : List (RawCandidate K)} (h : (cands.map (·.item_id)).Nodup)
    (cap : ℤ) : ((truncate cands cap).map (·.item_id)).Nodup := by
  unfold truncate
  split
  · exact h.sublist ((PyList.sliceTo_prefix cands cap).sublist.map _)
  · exact h

theorem nodup_rank {query : String} {user_id : Option String} {limit : ℤ}
    {user_ctx : Option (UserContext ℚ)} {out : List RankedItemDTO}
    (hout : rank env db cfg redis_client (some query) user_id limit user_ctx = .ok out) :
    (out.map (·.id)).Nodup := by
  rw [rank_eq] at hout
  obtain ⟨⟨client, ctx, raw_cands⟩, hpool, hout⟩ := bind_ok hout
  obtain ⟨qvec, -, hpool⟩ := bind_ok hpool
  obtain ⟨raw, hraw, hpool⟩ := bind_ok hpool
  obtain rfl : raw = raw_cands := congrArg (·.2.2) (Except.ok.inj hpool)
  have hquery := queryCandidates_eq env.numerics.round6 db cfg query (some qvec)
  obtain ⟨bm25_rows, -, hraw⟩ := bind_ok (hquery.symm.trans hraw)
  obtain ⟨vector_rows, -, hraw⟩ := bind_ok hraw
  obtain rfl := Except.ok.inj hraw
  exact nodup_rankCandidates (nodup_truncate (nodup_mergeChannels bm25_rows vector_rows) _) hout

end Rank

/-! ## The passes -/

theorem map_ok {ε α β : Type} {x : Except ε α} {f : α → β} {b : β} (h : x.map f = .ok b) :
    ∃ a, x = .ok a ∧ f a = b := by
  cases x with
  | error e => cases h
  | ok a => exact ⟨a, rfl, Except.ok.inj h⟩

theorem forEach_forall {τ α σ : Type} {score : ℕ → τ → σ → Except PyError α × σ} {P : α → Prop}
    (h : ∀ i t s a, (score i t s).1 = .ok a → P a) {ts : List τ} {i : ℕ} {s : σ} {scores : List α}
    (hscores : (forEach score i ts s).1 = .ok scores) : ∀ a ∈ scores, P a := by
  induction ts generalizing i s scores with
  | nil =>
    obtain rfl := Except.ok.inj hscores
    simp
  | cons t ts ih =>
    rw [forEach] at hscores
    rcases hscore : score i t s with ⟨e | a, s'⟩
    · rw [hscore] at hscores
      cases hscores
    · rw [hscore] at hscores
      obtain ⟨rest, hrest, rfl⟩ := map_ok hscores
      have hfirst : P a := h i t s a (congrArg Prod.fst hscore)
      exact List.forall_mem_cons.mpr ⟨hfirst, ih hrest⟩

theorem nodup_rankTriple {session : Except PyError Session} {cfg : RankerConfig ℚ} {limit : ℤ}
    {t : Triple} {redis_client : Option EvalRedis} {results : List RankedItemDTO}
    (h : (rankTriple session cfg limit t redis_client).1 = .ok results) :
    (results.map (·.id)).Nodup := by
  cases session with
  | error e => cases h
  | ok s =>
    have hrank : rank s.env s.db cfg (redis_client.map (·.client)) (some t.query) (some t.user_id)
      limit none = .ok results := h
    exact nodup_rank hrank

theorem nodup_sliceTo {results : List RankedItemDTO} (h : (results.map (·.id)).Nodup) (k : ℤ) :
    ((PyList.sliceTo results k).map (·.id)).Nodup :=
  h.sublist ((PyList.sliceTo_prefix results k).sublist.map _)

section Passes
variable {k : ℤ} {ranker_cfg : RankerConfig ℚ} {llm_cfg : Llm.Client.Config}

theorem oneRelevant_replayTriple {sessions : ℕ → Except PyError Session} {i : ℕ} {t : Triple}
    {redis_client : Option EvalRedis} {rels : List ℚ}
    (h : (replayTriple k sessions ranker_cfg i t redis_client).1 = .ok rels) : OneRelevant rels := by
  obtain ⟨results, hresults, rfl⟩ := map_ok h
  exact oneRelevant_relevances (nodup_rankTriple hresults) t.item_id

/-- A new order has distinct ids too. -/
theorem nodup_llmBlock {sessions : LlmSessions} {t : Triple} {redis_client : Option EvalRedis}
    {final : List RankedItemDTO × Bool}
    (h : (llmBlock k sessions ranker_cfg llm_cfg t redis_client).1 = .ok final) :
    (final.1.map (·.id)).Nodup := by
  unfold llmBlock at h
  split at h
  · cases h
  · obtain ⟨results, hresults, h⟩ := bind_ok h
    obtain ⟨reordered, hreordered, h⟩ := bind_ok h
    have hdistinct := nodup_rankTriple hresults
    unfold Llm.Client.rerankTopK at hreordered
    split at h
    · cases h
      exact nodup_sliceTo hdistinct k
    · rename_i new hnew
      cases h
      refine nodup_sliceTo ?_ k
      split at hreordered
      · cases hreordered
        cases hnew
      · split at hreordered
        · cases hreordered
          cases hnew
        · obtain ⟨answer, -, rfl⟩ := map_ok hreordered
          cases answer with
          | error why => cases hnew
          | ok rerank =>
            obtain rfl := Option.some.inj hnew
            exact Llm.nodup_reorder _ rerank

theorem oneRelevant_llmTriple {sessions : ℕ → LlmSessions} {i : ℕ} {t : Triple}
    {redis_client : Option EvalRedis} {scored : List ℚ × Bool}
    (h : (llmTriple k sessions ranker_cfg llm_cfg i t redis_client).1 = .ok scored) :
    OneRelevant scored.1 := by
  obtain ⟨final, hfinal, rfl⟩ := map_ok h
  exact oneRelevant_relevances (nodup_llmBlock hfinal) t.item_id

/-! ## The means -/

theorem mean_mono {α : Type} {f g : α → ℚ} {l : List α} (h : ∀ x ∈ l, f x ≤ g x) :
    (l.map f).sum / l.length ≤ (l.map g).sum / l.length :=
  div_le_div_of_nonneg_right (List.sum_le_sum h) (Nat.cast_nonneg _)

theorem mean_nonneg {α : Type} {f : α → ℚ} {l : List α} (h : ∀ x ∈ l, 0 ≤ f x) :
    0 ≤ (l.map f).sum / l.length := by
  simpa using mean_mono (f := fun _ => 0) h

theorem mean_le_one {α : Type} {f : α → ℚ} {l : List α} (h : ∀ x ∈ l, f x ≤ 1) :
    (l.map f).sum / l.length ≤ 1 := by
  have hle := mean_mono (g := fun _ => 1) h
  rw [List.map_const', List.sum_replicate, nsmul_one] at hle
  exact hle.trans (div_self_le_one _)

/-- What holds of the metrics of a pass over single clicks. -/
structure PassMetrics.Bounded (m : PassMetrics) : Prop where
  mrr_nonneg : 0 ≤ m.mrr
  mrr_le_ndcg : m.mrr ≤ m.ndcg
  ndcg_le_one : m.ndcg ≤ 1

theorem PassMetrics.Bounded.zero : PassMetrics.Bounded ⟨0, 0, 0⟩ := ⟨le_rfl, le_rfl, zero_le_one⟩

variable {log2 : ℕ → ℚ}

theorem bounded_meanMetrics (hlog : IsLog2 log2) (hk : 0 ≤ k) (triples : List Triple)
    {rels : List (List ℚ)} (h : ∀ r ∈ rels, OneRelevant r) :
    (meanMetrics log2 k triples rels).Bounded where
  mrr_nonneg := mean_nonneg fun r _ => mrrAtK_nonneg r k
  mrr_le_ndcg := mean_mono fun r hr => mrrAtK_le_ndcgAtK hlog (h r hr) hk
  ndcg_le_one := mean_le_one fun r hr => (ndcgAtK_mem_unit hlog.toGrows (h r hr).nonneg k).2

theorem bounded_evalReplayPass (hlog : IsLog2 log2) (hk : 0 ≤ k)
    {sessions : ℕ → Except PyError Session} {triples : List Triple}
    {redis_client : Option EvalRedis} {m : PassMetrics}
    (h : (evalReplayPass log2 k sessions ranker_cfg triples redis_client).1 = .ok m) : m.Bounded := by
  unfold evalReplayPass at h
  split at h
  · cases h
    exact .zero
  · obtain ⟨rels, hrels, rfl⟩ := map_ok h
    exact bounded_meanMetrics hlog hk triples <|
      forEach_forall (fun _ _ _ _ => oneRelevant_replayTriple) hrels

/-- **The metrics of the passes.** Whatever the sessions, Redis and the LLM do, a pass that ends reports
an MRR of at most its NDCG, both in the unit interval, and at most one fallback for each triple. -/
theorem passes_bounded (log2 : ℕ → ℚ) (hlog : IsLog2 log2) (k : ℤ) (hk : 0 ≤ k)
    (ranker_cfg : RankerConfig ℚ) (llm_cfg : Llm.Client.Config) (triples : List Triple)
    (redis_client : Option EvalRedis) :
    (∀ sessions m, (evalReplayPass log2 k sessions ranker_cfg triples redis_client).1 = .ok m →
      m.Bounded) ∧
    ∀ sessions m fallbacks,
      (evalLlmPass log2 k sessions ranker_cfg llm_cfg triples redis_client).1 = .ok (m, fallbacks) →
      m.Bounded ∧ 0 ≤ fallbacks ∧ fallbacks ≤ m.n := by
  refine ⟨fun _ _ => bounded_evalReplayPass hlog hk, fun sessions m fallbacks h => ?_⟩
  unfold evalLlmPass at h
  split at h
  · cases h
    exact ⟨.zero, le_rfl, le_rfl⟩
  · obtain ⟨scored, hscored, heq⟩ := map_ok h
    cases heq
    have hcount : scored.countP (·.2) ≤ triples.length :=
      List.countP_le_length.trans (length_forEach hscored).le
    have hone := forEach_forall (P := fun scored => OneRelevant scored.1)
      (fun _ _ _ _ => oneRelevant_llmTriple) hscored
    refine ⟨bounded_meanMetrics hlog hk triples fun r hr => ?_, Nat.cast_nonneg _,
      Nat.cast_le.mpr hcount⟩
    obtain ⟨s, hs, rfl⟩ := List.mem_map.mp hr
    exact hone s hs

end Passes

/-! ## One item, found by every query -/

/-- The logarithm of 2, which is that of the first place. -/
def firstPlace (n : ℕ) : ℚ := n - 1

theorem isLog2_firstPlace : IsLog2 firstPlace where
  pos i := by
    unfold firstPlace
    push_cast
    linarith [(Nat.cast_nonneg i : (0 : ℚ) ≤ i)]
  mono i j hij := by
    unfold firstPlace
    push_cast
    linarith [(Nat.cast_lt.mpr hij : (i : ℚ) < j)]
  two := by norm_num [firstPlace]
  le i := by
    unfold firstPlace
    push_cast
    linarith

theorem passes_bounded_oneItem : ∃ m m' fallbacks,
    (evalReplayPass firstPlace 1 (fun _ => .ok oneItem) defaultRankerConfig twoQueries none).1 =
        .ok m ∧ m.Bounded ∧
      (evalLlmPass firstPlace 1 (fun _ => ⟨.ok oneItem, .ok oneItem, rateLimited⟩)
        defaultRankerConfig Llm.Client.defaultConfig twoQueries none).1 = .ok (m', fallbacks) ∧
      m'.Bounded ∧ fallbacks ≤ m'.n := by
  have hbounded := passes_bounded firstPlace isLog2_firstPlace 1 zero_le_one defaultRankerConfig
    Llm.Client.defaultConfig twoQueries none
  refine ⟨_, _, _, rfl, hbounded.1 (fun _ => .ok oneItem) _ rfl, rfl, ?_⟩
  have hllm := hbounded.2 (fun _ => ⟨.ok oneItem, .ok oneItem, rateLimited⟩) _ _ rfl
  exact ⟨hllm.1, hllm.2.2⟩

end ClickRec.Eval
