import ClickRec.Llm.ReRanker

/-! # `/search` and `/recommendations`

The re-ranker sees and returns the first `re_rank_input_k` items of the hybrid list only. Where the
limit of the response is larger, the items behind them are missing from it. -/
namespace ClickRec.Api
set_option autoImplicit false

open Llm

/-! ## The routes -/

structure Limit where
  value : ℤ
  ge : 1 ≤ value
  le : value ≤ 100

inductive RouteError where
  | http (status_code : ℕ) (detail : String)
  -- an exception that no handler of the route catches
  | unhandled

section Routes
variable {UserContext QueryIntent : Type}

/-- The functions the routes call. -/
structure Services (UserContext QueryIntent : Type) where
  load_user_context : (user_id : Option String) → Except RouteError UserContext
  rank : (query user_id : Option String) → (limit : ℤ) → Option UserContext →
    Except RouteError (List RankedItemDTO)
  understand_query : (query : String) → Option QueryIntent
  build_summary : UserContext → Option QueryIntent → String
  llm_config : LLMConfig
  get_client : Option GeminiClient

variable (s : Services UserContext QueryIntent)

/-- `(reranked or hybrid)[:limit]`. -/
def orHybrid (reranked : Option (List RankedItemDTO)) (hybrid : List RankedItemDTO) (limit : ℤ) :
    List RankedItemDTO :=
  match reranked with
  | none => PyList.sliceTo hybrid limit
  | some l => PyList.sliceTo (if l.isEmpty then hybrid else l) limit

/-- The common body: `query` is for the ranker, `prompt_query` and `intent` for the prompt. -/
def rankedRoute (query user_id : Option String) (prompt_query : String)
    (intent : Option QueryIntent) (limit : Limit) (use_llm : Bool) :
    Except RouteError (List RankedItemDTO) := do
  let user_ctx ← if use_llm then some <$> s.load_user_context user_id else pure none
  match s.rank query user_id (max limit.value 20) user_ctx with
  | .error _ => throw (.http 503 "ranker unavailable")
  | .ok hybrid =>
    match user_ctx with
    -- the context is loaded exactly when the LLM was asked for
    | none => return PyList.sliceTo hybrid limit.value
    | some ctx =>
      if hybrid.isEmpty then return PyList.sliceTo hybrid limit.value
      else
        let summary := s.build_summary ctx intent
        let reranked := rerankTopK s.get_client prompt_query hybrid (some summary) s.llm_config
        return orHybrid reranked.result hybrid limit.value

def search (q : String) (user_id : Option String) (limit : Limit) (use_llm : Bool) :
    Except RouteError (List RankedItemDTO) :=
  rankedRoute s (some q) user_id q (s.understand_query q) limit use_llm

def recommendations (user_id : String) (limit : Limit) (use_llm : Bool) :
    Except RouteError (List RankedItemDTO) :=
  rankedRoute s none (some user_id) "" none limit use_llm

/-- A request, but for `limit` and `use_llm`. -/
inductive Route where
  | search (q : String) (user_id : Option String)
  | recommendations (user_id : String)

def Route.query : Route → Option String
  | .search q _ => some q
  | .recommendations _ => none

def Route.user_id : Route → Option String
  | .search _ user_id => user_id
  | .recommendations user_id => some user_id

def Route.respond : Route → Limit → Bool → Except RouteError (List RankedItemDTO)
  | .search q user_id => ClickRec.Api.search s q user_id
  | .recommendations user_id => ClickRec.Api.recommendations s user_id

/-! ## The two responses -/

/-- The ranker gives this list with and without the user context loaded before. -/
def Services.Ranks (route : Route) (limit : Limit) (hybrid : List RankedItemDTO) : Prop :=
  s.rank route.query route.user_id (max limit.value 20) none = .ok hybrid ∧
    ∃ ctx, s.load_user_context route.user_id = .ok ctx ∧
      s.rank route.query route.user_id (max limit.value 20) (some ctx) = .ok hybrid

/-- The LLM is there and gives this answer. -/
def Services.Answers (rerank : RerankResult) : Prop :=
  ∃ client, s.get_client = some client ∧
    ∀ prompt timeout, client.generate_json prompt timeout = .ok rerank

/-- The list that is cut to the limit when the LLM answered. -/
def rerankedOrHybrid (cfg : LLMConfig) (hybrid : List RankedItemDTO) (rerank : RerankResult) :
    List RankedItemDTO :=
  if (PyList.sliceTo hybrid cfg.re_rank_input_k).isEmpty then hybrid
  else reorder (PyList.sliceTo hybrid cfg.re_rank_input_k) rerank

variable {s}

theorem nodup_slice {hybrid : List RankedItemDTO} (hdistinct : (hybrid.map (·.id)).Nodup) (n : ℤ) :
    ((PyList.sliceTo hybrid n).map (·.id)).Nodup :=
  hdistinct.sublist ((PyList.sliceTo_prefix hybrid n).sublist.map _)

theorem rankedRoute_plain {query user_id : Option String} {limit : Limit}
    {hybrid : List RankedItemDTO} (prompt_query : String) (intent : Option QueryIntent)
    (h : s.rank query user_id (max limit.value 20) none = .ok hybrid) :
    rankedRoute s query user_id prompt_query intent limit false =
      .ok (PyList.sliceTo hybrid limit.value) := by
  rw [rankedRoute, if_neg Bool.false_ne_true, pure_bind]
  simp only [h]
  rfl

theorem rankedRoute_llm {query user_id : Option String} {limit : Limit} {ctx : UserContext}
    {hybrid : List RankedItemDTO} {rerank : RerankResult} (prompt_query : String)
    (intent : Option QueryIntent) (hdistinct : (hybrid.map (·.id)).Nodup)
    (hctx : s.load_user_context user_id = .ok ctx)
    (h : s.rank query user_id (max limit.value 20) (some ctx) = .ok hybrid)
    (hanswer : s.Answers rerank) :
    rankedRoute s query user_id prompt_query intent limit true =
      .ok (PyList.sliceTo (rerankedOrHybrid s.llm_config hybrid rerank) limit.value) := by
  obtain ⟨client, hclient, hjson⟩ := hanswer
  have hloaded : some <$> s.load_user_context user_id = pure (some ctx) := by
    rw [hctx]
    rfl
  rw [rankedRoute, if_pos rfl, hloaded, pure_bind]
  simp only [h]
  split
  · rename_i hempty
    rw [rerankedOrHybrid, List.isEmpty_iff.mp hempty, PyList.sliceTo_nil, PyList.sliceTo_nil]
    exact congrArg Except.ok (PyList.sliceTo_nil _).symm
  · rename_i hne
    rw [hclient, rerankTopK_answered prompt_query _ _ hne hjson, orHybrid, rerankedOrHybrid,
      isEmpty_reorder (nodup_slice hdistinct _)]
    rfl

theorem respond_plain {route : Route} {limit : Limit} {hybrid : List RankedItemDTO}
    (h : s.Ranks route limit hybrid) :
    route.respond s limit false = .ok (PyList.sliceTo hybrid limit.value) := by
  cases route with
  | search q user_id => exact rankedRoute_plain q _ h.1
  | recommendations user_id => exact rankedRoute_plain "" none h.1

theorem respond_llm {route : Route} {limit : Limit} {hybrid : List RankedItemDTO}
    {rerank : RerankResult} (hdistinct : (hybrid.map (·.id)).Nodup)
    (h : s.Ranks route limit hybrid) (hanswer : s.Answers rerank) :
    route.respond s limit true =
      .ok (PyList.sliceTo (rerankedOrHybrid s.llm_config hybrid rerank) limit.value) := by
  obtain ⟨-, ctx, hctx, hrank⟩ := h
  cases route with
  | search q user_id => exact rankedRoute_llm q _ hdistinct hctx hrank hanswer
  | recommendations user_id => exact rankedRoute_llm "" none hdistinct hctx hrank hanswer

end Routes

/-! ## What the LLM may change -/

/-- The response with the LLM, against the hybrid list and the response without it. -/
structure Faithful (hybrid plain llm : List RankedItemDTO) : Prop where
  same_length : llm.length = plain.length
  distinct : (llm.map (·.id)).Nodup
  from_hybrid : ∀ r ∈ llm, ∃ c ∈ hybrid,
    r.item = c.item ∧ r.score = c.score ∧ r.score_breakdown = c.score_breakdown

section Responses
variable {cfg : LLMConfig} {hybrid : List RankedItemDTO} {rerank : RerankResult}

theorem nodup_rerankedOrHybrid (hdistinct : (hybrid.map (·.id)).Nodup) :
    ((rerankedOrHybrid cfg hybrid rerank).map (·.id)).Nodup := by
  unfold rerankedOrHybrid
  split
  · exact hdistinct
  · exact nodup_reorder _ rerank

theorem mem_rerankedOrHybrid (hdistinct : (hybrid.map (·.id)).Nodup) {r : RankedItemDTO}
    (h : r ∈ rerankedOrHybrid cfg hybrid rerank) :
    ∃ c ∈ hybrid, r = { c with llm_rationale := r.llm_rationale } := by
  unfold rerankedOrHybrid at h
  split at h
  · exact ⟨r, h, rfl⟩
  · obtain ⟨c, hc, hr⟩ := mem_reorder (nodup_slice hdistinct _) h
    exact ⟨c, (PyList.sliceTo_prefix hybrid _).mem hc, hr⟩

theorem length_rerankedOrHybrid (hdistinct : (hybrid.map (·.id)).Nodup) :
    (rerankedOrHybrid cfg hybrid rerank).length =
      if (PyList.sliceTo hybrid cfg.re_rank_input_k).isEmpty then hybrid.length
      else (PyList.sliceTo hybrid cfg.re_rank_input_k).length := by
  unfold rerankedOrHybrid
  split
  · rfl
  · exact length_reorder (nodup_slice hdistinct _) rerank

/-- The response keeps its length exactly when the LLM saw nothing or as many items as it has. -/
theorem same_length_iff (hdistinct : (hybrid.map (·.id)).Nodup) (limit : Limit) :
    (PyList.sliceTo (rerankedOrHybrid cfg hybrid rerank) limit.value).length =
        (PyList.sliceTo hybrid limit.value).length ↔
      PyList.sliceTo hybrid cfg.re_rank_input_k = [] ∨
      min limit.value hybrid.length ≤ (PyList.sliceTo hybrid cfg.re_rank_input_k).length := by
  have hlimit : 0 ≤ limit.value := le_trans zero_le_one limit.ge
  have hhead := (PyList.sliceTo_prefix hybrid cfg.re_rank_input_k).length_le
  rw [PyList.length_sliceTo_of_nonneg _ hlimit, PyList.length_sliceTo_of_nonneg _ hlimit,
    length_rerankedOrHybrid hdistinct, ← List.isEmpty_iff]
  split
  · rename_i hempty
    exact iff_of_true rfl (Or.inl hempty)
  · rename_i hempty
    simp only [hempty, false_or, Bool.false_eq_true]
    omega

end Responses

/-- **The LLM path.** With an answer of the model the response is as long as without the LLM, names
no item twice and shows items of the hybrid list as ranked, exactly when the model was shown no item
or at least as many as the response has. -/
theorem llm_response_faithful_iff {UserContext QueryIntent : Type}
    (s : Services UserContext QueryIntent) (route : Route) (limit : Limit)
    (hybrid : List RankedItemDTO) (hdistinct : (hybrid.map (·.id)).Nodup)
    (hranked : s.Ranks route limit hybrid) (rerank : RerankResult) (hanswer : s.Answers rerank) :
    (∃ plain llm, route.respond s limit false = .ok plain ∧
        route.respond s limit true = .ok llm ∧ Faithful hybrid plain llm) ↔
      PyList.sliceTo hybrid s.llm_config.re_rank_input_k = [] ∨
      min limit.value hybrid.length ≤
        (PyList.sliceTo hybrid s.llm_config.re_rank_input_k).length := by
  rw [← same_length_iff hdistinct limit, respond_plain hranked,
    respond_llm hdistinct hranked hanswer]
  constructor
  · rintro ⟨_, _, hplain, hllm, hfaithful⟩
    cases hplain
    cases hllm
    exact hfaithful.same_length
  · intro hlength
    refine ⟨_, _, rfl, rfl, hlength, ?_, fun r hr => ?_⟩
    · exact nodup_slice (nodup_rerankedOrHybrid hdistinct) _
    · obtain ⟨c, hc, heq⟩ :=
        mem_rerankedOrHybrid hdistinct ((PyList.sliceTo_prefix _ _).mem hr)
      rw [heq]
      exact ⟨c, hc, rfl, rfl, rfl⟩

/-! ## A response without and one with the loss -/

def item (n : ℕ) : RankedItemDTO where
  item := ⟨toString n, "t", "d", "c", "b", 1, "2026-01-01T00:00:00Z", 0⟩
  score := -n
  score_breakdown := []
  llm_rationale := none

def hits (n : ℕ) : List RankedItemDTO := (List.range n).map item

/-- An answer that picks the item "1" only. -/
def onePick : RerankResult := ⟨[⟨"1", 1, "r", by decide, by decide⟩], by decide, by decide⟩

def onePickClient : GeminiClient := ⟨fun _ _ => .ok onePick⟩

/-- A ranker that finds `n` items, with the default configuration of the LLM. -/
def findsHits (n : ℕ) : Services Unit Unit where
  load_user_context _ := .ok ()
  rank _ _ _ _ := .ok (hits n)
  understand_query _ := none
  build_summary _ _ := ""
  llm_config := defaultLLMConfig
  get_client := some onePickClient

theorem findsHits_ranks (n : ℕ) (route : Route) (limit : Limit) :
    (findsHits n).Ranks route limit (hits n) := ⟨rfl, (), rfl, rfl⟩

theorem findsHits_answers (n : ℕ) : (findsHits n).Answers onePick :=
  ⟨onePickClient, rfl, fun _ _ => rfl⟩

def tenItems : Limit := ⟨10, by decide, by decide⟩

def hundredItems : Limit := ⟨100, by decide, by decide⟩

theorem llm_response_faithful_three :
    ∃ plain llm, (Route.search "q" none).respond (findsHits 3) tenItems false = .ok plain ∧
      (Route.search "q" none).respond (findsHits 3) tenItems true = .ok llm ∧
      Faithful (hits 3) plain llm :=
  (llm_response_faithful_iff (findsHits 3) (.search "q" none) tenItems (hits 3) (by decide)
    (findsHits_ranks 3 _ _) onePick (findsHits_answers 3)).mpr (.inr (by decide))

/-- With the default of 20 candidates the 21st item is missing from the response. -/
theorem llm_response_loses_item :
    ∃ plain llm, (Route.search "q" none).respond (findsHits 21) hundredItems false = .ok plain ∧
      (Route.search "q" none).respond (findsHits 21) hundredItems true = .ok llm ∧
      plain.length = 21 ∧ llm.length = 20 := by
  have hdistinct : ((hits 21).map (·.id)).Nodup := by decide
  refine ⟨_, _, respond_plain (findsHits_ranks 21 _ _),
    respond_llm hdistinct (findsHits_ranks 21 _ _) (findsHits_answers 21), by decide, ?_⟩
  rw [PyList.length_sliceTo_of_nonneg _ (by decide), length_rerankedOrHybrid hdistinct]
  decide

end ClickRec.Api
