import ClickRec.Eval.Replay

/-! # The judge pass and `run_eval_llm`

The judge is asked twice for each query, about the hybrid order and about the re-ranked one, and
either call may return None. -/
namespace ClickRec.Eval
set_option autoImplicit false
open Llm (RankedItemDTO)
open Llm.Client (JudgeVerdict LlmEnv rerankTopK judgeRanking)
open Ranker

/-! ## The judge pass -/

/-- What a query of the judge pass meets: two sessions, and the LLM layer at the call of the re-ranker
and at the two calls of the judge. -/
structure JudgeSessions where
  profile_session : Except PyError Session
  rank_session : Except PyError Session
  llm : LlmEnv
  hybrid_judge : LlmEnv
  llm_judge : LlmEnv

/-- What the judge returns for the hybrid order and for the re-ranked one. -/
abbrev Verdicts := Option JudgeVerdict × Option JudgeVerdict

def toJudgePayload (r : RankedItemDTO) : List (String × String) :=
  [("id", r.item.id), ("title", r.item.title), ("category", r.item.category), ("brand", r.item.brand)]

/-- `(reordered or hybrid_top)[:k]`. -/
def llmTop (reordered : Option (List RankedItemDTO)) (hybrid_top : List RankedItemDTO) (k : ℤ) :
    List RankedItemDTO :=
  match reordered with
  | none | some [] => PyList.sliceTo hybrid_top k
  | some reordered => PyList.sliceTo reordered k

section Judge
variable (k : ℤ) (ranker_cfg : RankerConfig ℚ) (llm_cfg : Llm.Client.Config)

/-- The waits between the calls are left out. -/
def judgeTriple (sessions : ℕ → JudgeSessions) (i : ℕ) (t : Triple)
    (redis_client : Option EvalRedis) : Except PyError Verdicts × Option EvalRedis :=
  let s := sessions i
  match userProfileSummary s.profile_session ranker_cfg t.user_id redis_client with
  | .error e => (.error e, redis_client)
  | .ok profile =>
    let (ranked, redis_client) := rankTriple s.rank_session ranker_cfg
      (max llm_cfg.re_rank_input_k k) t redis_client
    let verdicts := do
      let hybrid_top ← ranked
      let reordered ← rerankTopK s.llm t.query hybrid_top (some profile) llm_cfg
      let llm_top := llmTop reordered.result hybrid_top k
      let v_hybrid ← judgeRanking s.hybrid_judge t.query
        ((PyList.sliceTo hybrid_top k).map toJudgePayload) llm_cfg
      let v_llm ← judgeRanking s.llm_judge t.query (llm_top.map toJudgePayload) llm_cfg
      return (v_hybrid.result, v_llm.result)
    (verdicts, redis_client)

structure JudgeMetrics where
  judge_hybrid : ℚ
  judge_llm : ℚ
  judge_n : ℚ

def mean (scores : List ℚ) : ℚ := if scores.isEmpty then 0 else scores.sum / scores.length

def hybridScores (verdicts : List Verdicts) : List ℚ :=
  verdicts.filterMap fun v => v.1.map (·.relevance_score)

def llmScores (verdicts : List Verdicts) : List ℚ :=
  verdicts.filterMap fun v => v.2.map (·.relevance_score)

def judgeMetrics (verdicts : List Verdicts) : JudgeMetrics where
  judge_hybrid := mean (hybridScores verdicts)
  judge_llm := mean (llmScores verdicts)
  judge_n := min (hybridScores verdicts).length (llmScores verdicts).length

def evalJudgePass (sessions : ℕ → JudgeSessions) (triples : List Triple) (sample : ℤ)
    (redis_client : Option EvalRedis) : Except PyError JudgeMetrics × Option EvalRedis :=
  if triples.isEmpty ∨ sample ≤ 0 then (.ok ⟨0, 0, 0⟩, redis_client)
  else
    let (verdicts, redis_client) := forEach (judgeTriple k ranker_cfg llm_cfg sessions) 0
      (PyList.sliceTo triples sample) redis_client
    (verdicts.map judgeMetrics, redis_client)

end Judge

/-! ## `run_eval_llm` -/

/-- A part of the run: it may raise, and it leaves the Redis client. -/
abbrev EvalM := ExceptT PyError (StateM (Option EvalRedis))

def bm25OnlyCfg (cfg : RankerConfig ℚ) : RankerConfig ℚ :=
  { cfg with
    w_vector := 0
    w_popularity := 0
    w_recency := 0
    w_personal := 0
    w_co_click := 0
    w_price_fit := 0 }

/-- What the passes of a run meet; `get_client` may raise `LLMUnavailable`. -/
structure RunSessions where
  pass_a : ℕ → Except PyError Session
  pass_a_bm25 : ℕ → Except PyError Session
  pass_b : ℕ → LlmSessions
  client_available : Bool
  pass_c : ℕ → JudgeSessions

/-- `(new - base) / base * 100`, and 0 for a base that is not positive. -/
def upliftPct (base new : ℚ) : ℚ := if 0 < base then (new - base) / base * 100 else 0

structure EvalLlmReport where
  hybrid_ndcg : ℚ
  hybrid_mrr : ℚ
  bm25_ndcg : ℚ
  bm25_mrr : ℚ
  llm_ndcg : ℚ
  llm_mrr : ℚ
  llm_ndcg_uplift_pct : ℚ
  llm_fallback_pct : ℚ
  judge_hybrid_score_mean : ℚ
  judge_llm_score_mean : ℚ
  judge_uplift_pct : ℚ
  judge_sample_size : ℚ
  replay_n : ℚ
  judge_skipped : ℚ

def evalReport (pass_a pass_a_bm25 : PassMetrics) (pass_b : PassMetrics × ℚ)
    (pass_c : Option JudgeMetrics) : EvalLlmReport :=
  let judge := pass_c.getD ⟨0, 0, 0⟩
  { hybrid_ndcg := pass_a.ndcg
    hybrid_mrr := pass_a.mrr
    bm25_ndcg := pass_a_bm25.ndcg
    bm25_mrr := pass_a_bm25.mrr
    llm_ndcg := pass_b.1.ndcg
    llm_mrr := pass_b.1.mrr
    llm_ndcg_uplift_pct := upliftPct pass_a.ndcg pass_b.1.ndcg
    llm_fallback_pct := if 0 < pass_b.1.n then pass_b.2 / pass_b.1.n * 100 else 0
    judge_hybrid_score_mean := judge.judge_hybrid
    judge_llm_score_mean := judge.judge_llm
    judge_uplift_pct := upliftPct judge.judge_hybrid judge.judge_llm
    judge_sample_size := judge.judge_n
    replay_n := pass_a.n
    judge_skipped := if pass_c.isNone then 1 else 0 }

/-- The run on the triples that were loaded. -/
def runEvalLlm (log2 : ℕ → ℚ) (k judge_sample : ℤ) (sessions : RunSessions)
    (ranker_cfg : RankerConfig ℚ) (llm_cfg : Llm.Client.Config) (triples : List Triple) :
    EvalM EvalLlmReport := do
  let pass_a ← (evalReplayPass log2 k sessions.pass_a ranker_cfg triples : EvalM PassMetrics)
  let pass_a_bm25 ← (evalReplayPass log2 k sessions.pass_a_bm25 (bm25OnlyCfg ranker_cfg) triples :
    EvalM PassMetrics)
  let pass_b ← (evalLlmPass log2 k sessions.pass_b ranker_cfg llm_cfg triples :
    EvalM (PassMetrics × ℚ))
  let pass_c ←
    if sessions.client_available then
      some <$> (evalJudgePass k ranker_cfg llm_cfg sessions.pass_c triples judge_sample :
        EvalM JudgeMetrics)
    else pure none
  return evalReport pass_a pass_a_bm25 pass_b pass_c

end ClickRec.Eval
