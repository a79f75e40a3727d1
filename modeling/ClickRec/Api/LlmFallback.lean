import ClickRec.Api.Search
import ClickRec.Ranker.Pipeline

/-! # Without an answer of the LLM

The request that asks for the LLM loads the user context itself and hands it to the ranker, and falls
back to the hybrid list. The only thing a request leaves for the ranker is the cached query vector. -/
namespace ClickRec.Api
set_option autoImplicit false
open Llm Ranker

/-! ## The fallback -/

section Fallback
variable {UserContext QueryIntent : Type} (s : Services UserContext QueryIntent)

def Route.promptQuery : Route → String
  | .search q _ => q
  | .recommendations _ => ""

def Route.intent : Route → Option QueryIntent
  | .search q _ => s.understand_query q
  | .recommendations _ => none

/-- The re-ranker returns None when this request calls it. -/
def Services.FallsBack (route : Route) (limit : Limit) : Prop :=
  ∀ ctx hybrid, s.load_user_context route.user_id = .ok ctx →
    s.rank route.query route.user_id (max limit.value 20) (some ctx) = .ok hybrid →
      (rerankTopK s.get_client route.promptQuery hybrid
        (some (s.build_summary ctx (route.intent s))) s.llm_config).result = none

variable {s}

theorem respond_eq (route : Route) (limit : Limit) (use_llm : Bool) :
    route.respond s limit use_llm = rankedRoute s route.query route.user_id route.promptQuery
      (route.intent s) limit use_llm := by
  cases route with
  | search q user_id => rfl
  | recommendations user_id => rfl

/-- Without an answer the list is the hybrid one, and ranking with the context loaded before gives
the same list. -/
theorem respond_fallback {route : Route} {limit : Limit} {ctx : UserContext}
    (hfalls : s.FallsBack route limit) (hctx : s.load_user_context route.user_id = .ok ctx)
    (hrank : s.rank route.query route.user_id (max limit.value 20) (some ctx) =
      s.rank route.query route.user_id (max limit.value 20) none) :
    route.respond s limit true = route.respond s limit false := by
  have hloaded : some <$> s.load_user_context route.user_id = pure (some ctx) := by
    rw [hctx]
    rfl
  rw [respond_eq, respond_eq, rankedRoute, rankedRoute, if_pos rfl, if_neg Bool.false_ne_true,
    hloaded, pure_bind, pure_bind]
  simp only [← hrank]
  cases hhybrid : s.rank route.query route.user_id (max limit.value 20) (some ctx) with
  | error e => rfl
  | ok hybrid =>
    have hnone := hfalls ctx hybrid hctx hhybrid
    simp only [hnone, orHybrid, ite_self]

end Fallback

/-! ## The routes over the ranker -/

section Ranked
variable {QueryIntent : Type}

/-- The LLM layer as the routes call it. -/
structure LlmLayer (QueryIntent : Type) where
  understand_query : (query : String) → Option QueryIntent
  build_summary : UserContext ℚ → Option QueryIntent → String
  llm_config : LLMConfig
  get_client : Option GeminiClient

/-- What a request finds: the stores and the clock. -/
structure Backend where
  env : Env
  db : Postgres ℚ
  cfg : RankerConfig ℚ
  redis_client : Option (RedisClient ℚ)

/-- Every exception of `rank` is caught by the route in the same way. -/
def ofRank (result : Except PyError (List RankedItemDTO)) : Except RouteError (List RankedItemDTO) :=
  result.mapError fun _ => .unhandled

def Backend.services (b : Backend) (llm : LlmLayer QueryIntent) :
    Services (UserContext ℚ) QueryIntent where
  load_user_context user_id := .ok (loadUserContext b.db b.redis_client user_id b.cfg)
  rank query user_id limit user_ctx :=
    ofRank (Ranker.rank b.env b.db b.cfg b.redis_client query user_id limit user_ctx)
  understand_query := llm.understand_query
  build_summary := llm.build_summary
  llm_config := llm.llm_config
  get_client := llm.get_client

/-- What a request leaves for the next one. -/
def Backend.after (b : Backend) (route : Route) : Backend :=
  match route.query with
  | none => b
  | some q => { b with redis_client := (encodeQuery b.env.embedder b.redis_client q).2 }

theorem after_sameSets (b : Backend) (route : Route) :
    SameSets b.redis_client (b.after route).redis_client := by
  cases route with
  | search q user_id => exact encodeQuery_sameSets b.env.embedder b.redis_client q
  | recommendations user_id => exact .refl _

variable (llm : LlmLayer QueryIntent)

/-- The same request finds the same context again, -/
theorem load_after (b : Backend) (route : Route) :
    ((b.after route).services llm).load_user_context route.user_id =
      (b.services llm).load_user_context route.user_id := by
  have hsame := after_sameSets b route
  cases route with
  | search q user_id => exact congrArg Except.ok (hsame.loadUserContext b.db b.cfg user_id)
  | recommendations user_id => rfl

/-- and is ranked as before. -/
theorem rank_after {b : Backend} (hlossless : b.env.embedder.Lossless) (route : Route) (limit : ℤ)
    (user_ctx : Option (UserContext ℚ)) :
    ((b.after route).services llm).rank route.query route.user_id limit user_ctx =
      (b.services llm).rank route.query route.user_id limit user_ctx := by
  have hsame := after_sameSets b route
  cases route with
  | recommendations user_id => rfl
  | search q user_id =>
    have hvec := encodeQuery_again hlossless b.redis_client q
    have hrank : ∀ ctx, Ranker.rank b.env b.db b.cfg (encodeQuery b.env.embedder b.redis_client q).2
        (some q) user_id limit (some ctx) =
          Ranker.rank b.env b.db b.cfg b.redis_client (some q) user_id limit (some ctx) := by
      intro ctx
      refine SameSets.rank hsame (some q) user_id limit ctx fun q' hq' => ?_
      obtain rfl : q = q' := Option.some.inj hq'
      exact hvec
    cases user_ctx with
    | some ctx => exact congrArg ofRank (hrank ctx)
    | none =>
      have hload := hsame.loadUserContext b.db b.cfg user_id
      have hself := rank_preloaded b.env b.db b.cfg b.redis_client (some q) user_id limit
      have hself' := rank_preloaded b.env b.db b.cfg (encodeQuery b.env.embedder b.redis_client q).2
        (some q) user_id limit
      refine congrArg ofRank (hself'.symm.trans (Eq.trans ?_ hself))
      exact (hrank _).trans (by rw [← hload]; rfl)

/-- The same request again gets the same response. -/
theorem respond_after {b : Backend} (hlossless : b.env.embedder.Lossless) (route : Route)
    (limit : Limit) (use_llm : Bool) :
    route.respond ((b.after route).services llm) limit use_llm =
      route.respond (b.services llm) limit use_llm := by
  have hload := load_after llm b route
  have hrank := rank_after llm hlossless route (max limit.value 20)
  have hintent : route.intent ((b.after route).services llm) = route.intent (b.services llm) := by
    cases route <;> rfl
  rw [respond_eq, respond_eq, rankedRoute, rankedRoute, hload, hintent]
  simp only [hrank]
  rfl

/-- **LLM failure is transparent.** When the re-ranker returns None, a request with the LLM and the
same request without it get the same response, whichever of them comes first. -/
theorem llm_failure_transparent (b : Backend) (hlossless : b.env.embedder.Lossless)
    (route : Route) (limit : Limit)
    (hfalls : (b.services llm).FallsBack route limit) (later : Backend)
    (hlater : later = b ∨ later = b.after route) :
    route.respond (later.services llm) limit true = route.respond (b.services llm) limit false ∧
      route.respond (b.services llm) limit true =
        route.respond (later.services llm) limit false := by
  have hsame : route.respond (b.services llm) limit true =
      route.respond (b.services llm) limit false := by
    refine respond_fallback hfalls rfl ?_
    exact congrArg ofRank (rank_preloaded b.env b.db b.cfg b.redis_client route.query route.user_id _)
  obtain rfl | rfl := hlater
  · exact ⟨hsame, hsame⟩
  · rw [respond_after llm hlossless, respond_after llm hlossless]
    exact ⟨hsame, hsame⟩

end Ranked

/-! ## A new user without an API key for the LLM -/

def oneItemTable : ItemTable ℚ where
  rows := [⟨"i1", "Runner", "", "shoes", "acme", 80, 0, 3, none⟩]
  primaryKey := by decide

/-- One item, clicked five times by others. -/
def newUserBackend : Backend where
  env :=
    { numerics := ⟨id, id, fun x => if x = 0 then .ok 1 else .error ⟨"OverflowError", "", ""⟩⟩
      embedder := ⟨"all-MiniLM-L6-v2", fun bytes => bytes.data.toList,
        fun _ => .error ⟨"OSError", "", ""⟩, fun _ => [], fun _ => .ok []⟩
      now := 0
      isoformat := fun _ => "1970-01-01T00:00:00+00:00" }
  db := ⟨oneItemTable, ⟨[], List.nodup_nil⟩, fun _ _ => .ok [], fun _ _ => .ok []⟩
  cfg := defaultRankerConfig
  redis_client := some
    ⟨fun key => if key = "items:top:_global" then SortedSet.empty.zadd "i1" 5 else .empty,
      fun _ => none, fun _ => .ok⟩

def withoutKey : LlmLayer Unit where
  understand_query _ := none
  build_summary _ _ := "(no recent activity)"
  llm_config := defaultLLMConfig
  get_client := none

theorem withoutKey_fallsBack (b : Backend) (route : Route) (limit : Limit) :
    (b.services withoutKey).FallsBack route limit := by
  intro ctx hybrid _ _
  unfold rerankTopK
  split
  · rfl
  · rfl

/-- An embedder that knows one vector, and a query with one hit. -/
def oneHitBackend : Backend :=
  { newUserBackend with
    env :=
      { newUserBackend.env with
        embedder := ⟨"all-MiniLM-L6-v2", fun bytes => bytes.data.toList, fun _ => .ok [1], fun _ => [0],
          fun _ => .ok [1]⟩ }
    db := ⟨oneItemTable, ⟨[], List.nodup_nil⟩, fun _ _ => .ok [("i1", 2)], fun _ _ => .ok [("i1", 1)]⟩ }

theorem oneHitBackend_lossless : oneHitBackend.env.embedder.Lossless := fun _ _ h => h

/-- The search without the LLM comes second, and finds the query vector cached. -/
theorem llm_failure_transparent_new_user :
    (Route.recommendations "u1").respond (oneHitBackend.services withoutKey) tenItems true =
        (Route.recommendations "u1").respond (oneHitBackend.services withoutKey) tenItems false ∧
      (Route.search "shoes" (some "u1")).respond (oneHitBackend.services withoutKey) tenItems true =
        (Route.search "shoes" (some "u1")).respond
          ((oneHitBackend.after (.search "shoes" (some "u1"))).services withoutKey) tenItems false ∧
      ((Route.recommendations "u1").respond (oneHitBackend.services withoutKey) tenItems
        false).toOption.map List.length = some 1 ∧
      ((Route.search "shoes" (some "u1")).respond (oneHitBackend.services withoutKey) tenItems
        false).toOption.map List.length = some 1 := by
  refine ⟨(llm_failure_transparent withoutKey oneHitBackend oneHitBackend_lossless
    (.recommendations "u1") tenItems (withoutKey_fallsBack _ _ _) oneHitBackend (.inl rfl)).1,
    (llm_failure_transparent withoutKey oneHitBackend oneHitBackend_lossless
      (.search "shoes" (some "u1")) tenItems (withoutKey_fallsBack _ _ _) _ (.inr rfl)).2, ?_, ?_⟩
  · decide +kernel
  · decide +kernel

end ClickRec.Api
