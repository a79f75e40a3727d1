import ClickRec.Eval.Fallback
import ClickRec.Eval.Judge

/-! # Which verdicts are compared

A call of the judge that returns None is left out of the mean of its arm alone, so the two means may
be taken over different queries. -/
namespace ClickRec.Eval
set_option autoImplicit false
open Llm.Client (JudgeVerdict LlmEnv rerankTopK judgeRanking)
open Ranker

/-! ## Verdicts and their means -/

/-- Which calls of the judge returned a verdict. -/
def returned (v : Verdicts) : Bool × Bool := (v.1.isSome, v.2.isSome)

/-- The scores of every query with two verdicts are equal. -/
def PairedEqual (verdicts : List Verdicts) : Prop :=
  ∀ v ∈ verdicts, ∀ a ∈ v.1, ∀ b ∈ v.2, a.relevance_score = b.relevance_score

/-- The scores of one arm. -/
def armScores (arm : Verdicts → Option JudgeVerdict) (verdicts : List Verdicts) : List ℚ :=
  verdicts.filterMap fun v => (arm v).map (·.relevance_score)

theorem mem_armScores {arm : Verdicts → Option JudgeVerdict} {verdicts : List Verdicts} {x : ℚ} :
    x ∈ armScores arm verdicts ↔
      ∃ v ∈ verdicts, ∃ verdict ∈ arm v, verdict.relevance_score = x := by
  simp only [armScores, List.mem_filterMap, Option.map_eq_some_iff, Option.mem_def]

theorem mean_of_zero {scores : List ℚ} (h : ∀ x ∈ scores, x = 0) : mean scores = 0 := by
  rw [mean, List.sum_eq_zero h, zero_div, ite_self]

theorem mean_pos {scores : List ℚ} (h : ∀ x ∈ scores, 0 ≤ x) (hpos : ∃ x ∈ scores, 0 < x) :
    0 < mean scores := by
  obtain ⟨x, hx, hlt⟩ := hpos
  have hne : scores ≠ [] := List.ne_nil_of_mem hx
  have hsum : 0 < scores.sum := hlt.trans_le (List.single_le_sum h x hx)
  rw [mean, if_neg (by simpa using hne)]
  exact div_pos hsum (by exact_mod_cast List.length_pos_of_mem hx)

/-- When a query has both verdicts or none, and the pairs are equal, both arms have the same scores. -/
theorem scores_eq_of_paired {verdicts : List Verdicts} (hequal : PairedEqual verdicts)
    (hboth : ∀ v ∈ verdicts, v.1.isSome = v.2.isSome) :
    hybridScores verdicts = llmScores verdicts := by
  refine List.filterMap_congr fun v hv => ?_
  obtain ⟨a, b⟩ := v
  have hsome := hboth _ hv
  cases a with
  | none =>
    cases b with
    | none => rfl
    | some b => cases hsome
  | some a =>
    cases b with
    | none => cases hsome
    | some b => exact congrArg some (hequal _ hv a rfl b rfl)

/-! ## Scores that tell the arms apart -/

def zeroVerdict : JudgeVerdict := ⟨0, "", le_rfl, zero_le_one, Nat.zero_le 500⟩

def oneVerdict : JudgeVerdict := ⟨1, "", zero_le_one, le_rfl, Nat.zero_le 500⟩

/-- The calls that return one give this verdict. -/
def giving (verdict : JudgeVerdict) (v : Verdicts) : Verdicts :=
  (v.1.map fun _ => verdict, v.2.map fun _ => verdict)

theorem returned_giving (verdict : JudgeVerdict) (v : Verdicts) :
    returned (giving verdict v) = returned v := by
  simp only [returned, giving, Option.isSome_map]

/-- One query gets the score 1, all others 0. -/
def markOne (before : List Verdicts) (v : Verdicts) (after : List Verdicts) : List Verdicts :=
  before.map (giving zeroVerdict) ++ giving oneVerdict v :: after.map (giving zeroVerdict)

section MarkOne
variable (before after : List Verdicts) {v : Verdicts}

theorem map_returned_markOne (v : Verdicts) :
    (markOne before v after).map returned = (before ++ v :: after).map returned := by
  simp only [markOne, List.map_append, List.map_cons, List.map_map, Function.comp_def,
    returned_giving]

theorem eq_giving_of_mem_markOne {w : Verdicts} (hw : w ∈ markOne before v after) :
    (∃ u, w = giving zeroVerdict u) ∨ w = giving oneVerdict v := by
  rw [markOne, List.mem_append, List.mem_cons] at hw
  obtain hw | rfl | hw := hw
  · obtain ⟨u, -, rfl⟩ := List.mem_map.mp hw
    exact .inl ⟨u, rfl⟩
  · exact .inr rfl
  · obtain ⟨u, -, rfl⟩ := List.mem_map.mp hw
    exact .inl ⟨u, rfl⟩

theorem pairedEqual_markOne (v : Verdicts) : PairedEqual (markOne before v after) := by
  have hsame : ∀ (verdict : JudgeVerdict) (u : Verdicts), ∀ a ∈ (giving verdict u).1,
      ∀ b ∈ (giving verdict u).2, a.relevance_score = b.relevance_score := by
    intro verdict u a ha b hb
    obtain ⟨-, -, rfl⟩ := Option.map_eq_some_iff.mp ha
    obtain ⟨-, -, rfl⟩ := Option.map_eq_some_iff.mp hb
    rfl
  intro w hw
  obtain ⟨u, rfl⟩ | rfl := eq_giving_of_mem_markOne before after hw
  · exact hsame zeroVerdict u
  · exact hsame oneVerdict v

variable {arm : Verdicts → Option JudgeVerdict}

/-- An arm without a verdict for the marked query has the mean 0, the other one a positive mean. -/
theorem mean_markOne_pos_iff
    (harm : ∀ verdict u, arm (giving verdict u) = (arm u).map fun _ => verdict) :
    0 < mean (armScores arm (markOne before v after)) ↔ (arm v).isSome := by
  constructor
  · intro hpos
    by_contra hnone
    refine hpos.ne' (mean_of_zero fun x hx => ?_)
    obtain ⟨w, hw, verdict, hverdict, rfl⟩ := mem_armScores.mp hx
    obtain ⟨u, rfl⟩ | rfl := eq_giving_of_mem_markOne before after hw
    · rw [harm] at hverdict
      obtain ⟨-, -, rfl⟩ := Option.map_eq_some_iff.mp hverdict
      rfl
    · rw [harm, Option.not_isSome_iff_eq_none.mp hnone] at hverdict
      cases hverdict
  · intro hsome
    obtain ⟨verdict, hverdict⟩ := Option.isSome_iff_exists.mp hsome
    refine mean_pos (fun x hx => ?_) ⟨1, mem_armScores.mpr ⟨giving oneVerdict v, ?_, oneVerdict, ?_, rfl⟩,
      one_pos⟩
    · obtain ⟨-, -, verdict, -, rfl⟩ := mem_armScores.mp hx
      exact verdict.score_ge
    · exact List.mem_append_right _ List.mem_cons_self
    · rw [harm, hverdict]
      rfl

/-- When one arm has a verdict for the marked query and the other has none, the means differ. -/
theorem mean_markOne_ne (hone : v.1.isSome ≠ v.2.isSome) :
    mean (hybridScores (markOne before v after)) ≠ mean (llmScores (markOne before v after)) := by
  intro heq
  have hhybrid : 0 < mean (hybridScores (markOne before v after)) ↔ v.1.isSome :=
    mean_markOne_pos_iff before after fun _ _ => rfl
  have hllm : 0 < mean (llmScores (markOne before v after)) ↔ v.2.isSome :=
    mean_markOne_pos_iff before after fun _ _ => rfl
  rw [heq] at hhybrid
  exact hone (Bool.eq_iff_iff.mpr (hhybrid.symm.trans hllm))

end MarkOne

/-! ## The same run with other answers of the judge -/

/-- A judge that returns this verdict, in place of one that returned some verdict. -/
def answering (env : LlmEnv) : Option JudgeVerdict → LlmEnv
  | none => env
  | some verdict =>
    { env with
      get_client := some
        { rerank := fun _ _ _ => .timeout
          intent := fun _ _ _ => .timeout
          verdict := fun _ _ _ => .response ⟨.model verdict, none, [], none⟩ } }

/-- The two judges of a query. -/
def JudgeSessions.withJudges (s : JudgeSessions) (judges : LlmEnv × LlmEnv) : JudgeSessions :=
  { s with
    hybrid_judge := judges.1
    llm_judge := judges.2 }

def JudgeSessions.answered (s : JudgeSessions) (v : Verdicts) : LlmEnv × LlmEnv :=
  (answering s.hybrid_judge v.1, answering s.llm_judge v.2)

theorem judgeRanking_answering {env : LlmEnv} {query : String}
    {ranked_top_10 : List (List (String × String))} {cfg : Llm.Client.Config}
    {judged : Llm.Client.Judged} (h : judgeRanking env query ranked_top_10 cfg = .ok judged)
    {verdict : Option JudgeVerdict} (hsame : verdict.isSome = judged.result.isSome) :
    ∃ judged', judgeRanking (answering env verdict) query ranked_top_10 cfg = .ok judged' ∧
      judged'.result = verdict := by
  cases verdict with
  | none =>
    refine ⟨judged, h, ?_⟩
    rw [← Option.not_isSome_iff_eq_none, ← hsame]
    exact Bool.false_ne_true
  | some verdict =>
    refine ⟨⟨some verdict, []⟩, ?_, rfl⟩
    have hne : ranked_top_10.isEmpty ≠ true := by
      intro hempty
      rw [judgeRanking, if_pos hempty] at h
      rw [← Except.ok.inj h] at hsame
      cases hsame
    rw [judgeRanking, if_neg hne]
    rfl

section Judge
variable (k : ℤ) (ranker_cfg : RankerConfig ℚ) (llm_cfg : Llm.Client.Config)

/-- What the judge is shown of the two orders. -/
def judgePayloads (s : JudgeSessions) (t : Triple) (redis_client : Option EvalRedis) :
    Except PyError (List (List (String × String)) × List (List (String × String))) :=
  userProfileSummary s.profile_session ranker_cfg t.user_id redis_client >>= fun profile =>
    (rankTriple s.rank_session ranker_cfg (max llm_cfg.re_rank_input_k k) t redis_client).1 >>=
      fun hybrid_top => (rerankTopK s.llm t.query hybrid_top (some profile) llm_cfg).map
        fun reordered => ((PyList.sliceTo hybrid_top k).map toJudgePayload,
          (llmTop reordered.result hybrid_top k).map toJudgePayload)

def askJudges (s : JudgeSessions) (query : String)
    (payloads : List (List (String × String)) × List (List (String × String))) :
    Except PyError Verdicts :=
  judgeRanking s.hybrid_judge query payloads.1 llm_cfg >>= fun v_hybrid =>
    (judgeRanking s.llm_judge query payloads.2 llm_cfg).map fun v_llm =>
      (v_hybrid.result, v_llm.result)

/-- The judges are asked last. -/
theorem judgeTriple_fst (sessions : ℕ → JudgeSessions) (i : ℕ) (t : Triple)
    (redis_client : Option EvalRedis) :
    (judgeTriple k ranker_cfg llm_cfg sessions i t redis_client).1 =
      (judgePayloads k ranker_cfg llm_cfg (sessions i) t redis_client >>=
        askJudges llm_cfg (sessions i) t.query) := by
  simp only [judgeTriple, judgePayloads, bind_assoc]
  cases userProfileSummary (sessions i).profile_session ranker_cfg t.user_id redis_client with
  | error e => rfl
  | ok profile =>
    cases (rankTriple (sessions i).rank_session ranker_cfg (max llm_cfg.re_rank_input_k k) t
      redis_client).1 with
    | error e => rfl
    | ok hybrid_top =>
      cases hreordered : rerankTopK (sessions i).llm t.query hybrid_top (some profile) llm_cfg with
      | error e => simp only [bind, Except.bind, hreordered, Except.map]
      | ok reordered =>
        simp only [bind, Except.bind, hreordered, Except.map, pure, Except.pure]
        rfl

variable {k ranker_cfg llm_cfg}

theorem askJudges_answered {s : JudgeSessions} {query : String}
    {payloads : List (List (String × String)) × List (List (String × String))} {v v' : Verdicts}
    (h : askJudges llm_cfg s query payloads = .ok v) (hsame : returned v' = returned v) :
    askJudges llm_cfg (s.withJudges (s.answered v')) query payloads = .ok v' := by
  unfold askJudges at h ⊢
  cases hhybrid : judgeRanking s.hybrid_judge query payloads.1 llm_cfg with
  | error e =>
    rw [hhybrid] at h
    cases h
  | ok v_hybrid =>
    cases hllm : judgeRanking s.llm_judge query payloads.2 llm_cfg with
    | error e =>
      rw [hhybrid, hllm] at h
      cases h
    | ok v_llm =>
      rw [hhybrid, hllm] at h
      obtain rfl := Except.ok.inj h
      obtain ⟨hybrid, hhybrid', hv_hybrid⟩ :=
        judgeRanking_answering hhybrid (congrArg Prod.fst hsame)
      obtain ⟨llm, hllm', hv_llm⟩ := judgeRanking_answering hllm (congrArg Prod.snd hsame)
      simp only [JudgeSessions.withJudges, JudgeSessions.answered, hhybrid', hllm']
      exact congrArg Except.ok (Prod.ext hv_hybrid hv_llm)

variable {sessions sessions' : ℕ → JudgeSessions}

theorem judgeTriple_snd {i : ℕ} {judges : LlmEnv × LlmEnv}
    (hsessions : sessions' i = (sessions i).withJudges judges) (t : Triple)
    (redis_client : Option EvalRedis) :
    (judgeTriple k ranker_cfg llm_cfg sessions' i t redis_client).2 =
      (judgeTriple k ranker_cfg llm_cfg sessions i t redis_client).2 := by
  simp only [judgeTriple, hsessions, JudgeSessions.withJudges]
  cases userProfileSummary (sessions i).profile_session ranker_cfg t.user_id redis_client with
  | error e => rfl
  | ok profile => rfl

theorem judgeTriple_answered {i : ℕ} {t : Triple} {redis_client redis_client' : Option EvalRedis}
    {v v' : Verdicts}
    (h : judgeTriple k ranker_cfg llm_cfg sessions i t redis_client = (.ok v, redis_client'))
    (hsame : returned v' = returned v)
    (hsessions : sessions' i = (sessions i).withJudges ((sessions i).answered v')) :
    judgeTriple k ranker_cfg llm_cfg sessions' i t redis_client = (.ok v', redis_client') := by
  have hask : (judgePayloads k ranker_cfg llm_cfg (sessions i) t redis_client >>=
      askJudges llm_cfg (sessions i) t.query) = .ok v := by
    rw [← judgeTriple_fst, h]
  have hpayloads : judgePayloads k ranker_cfg llm_cfg (sessions' i) t redis_client =
      judgePayloads k ranker_cfg llm_cfg (sessions i) t redis_client := by
    rw [hsessions]
    rfl
  refine Prod.ext ?_ ?_
  · rw [judgeTriple_fst, hpayloads]
    cases hshown : judgePayloads k ranker_cfg llm_cfg (sessions i) t redis_client with
    | error e =>
      rw [hshown] at hask
      cases hask
    | ok payloads =>
      rw [hshown] at hask
      rw [hsessions]
      exact askJudges_answered hask hsame
  · rw [judgeTriple_snd hsessions, h]

/-- Any verdicts may be given where a verdict was returned. -/
theorem forEach_answered {ts : List Triple} {i : ℕ} {redis_client redis_client' : Option EvalRedis}
    {verdicts answers : List Verdicts}
    (h : forEach (judgeTriple k ranker_cfg llm_cfg sessions) i ts redis_client =
      (.ok verdicts, redis_client'))
    (hsame : answers.map returned = verdicts.map returned)
    (hsessions : ∀ n v, answers[n]? = some v →
      sessions' (i + n) = (sessions (i + n)).withJudges ((sessions (i + n)).answered v)) :
    forEach (judgeTriple k ranker_cfg llm_cfg sessions') i ts redis_client =
      (.ok answers, redis_client') := by
  induction ts generalizing i redis_client verdicts answers with
  | nil =>
    obtain ⟨hverdicts, rfl⟩ := Prod.mk.inj h
    obtain rfl := Except.ok.inj hverdicts
    rw [List.map_eq_nil_iff.mp hsame]
    rfl
  | cons t ts ih =>
    rcases hfirst : judgeTriple k ranker_cfg llm_cfg sessions i t redis_client with ⟨e | v, s⟩
    · rw [forEach_error hfirst] at h
      cases (Prod.mk.inj h).1
    · rw [forEach_ok hfirst] at h
      rcases hrest : forEach (judgeTriple k ranker_cfg llm_cfg sessions) (i + 1) ts s with
        ⟨e | rest, s'⟩
      · rw [hrest] at h
        cases (Prod.mk.inj h).1
      · rw [hrest] at h
        obtain ⟨hverdicts, rfl⟩ := Prod.mk.inj h
        obtain rfl := Except.ok.inj hverdicts
        obtain ⟨w, answers, rfl, hw, hanswers⟩ := List.map_eq_cons_iff.mp hsame
        have hone := judgeTriple_answered hfirst hw (hsessions 0 w rfl)
        have hothers : forEach (judgeTriple k ranker_cfg llm_cfg sessions') (i + 1) ts s =
            (.ok answers, s') := by
          refine ih hrest hanswers fun n v hv => ?_
          rw [Nat.add_right_comm, Nat.add_assoc]
          exact hsessions (n + 1) v hv
        rw [forEach_ok hone, hothers]
        rfl

end Judge

/-! ## The run and its verdicts -/

theorem EvalM.map_run {α β : Type} (f : α → β) (x : EvalM α) (s : Option EvalRedis) :
    (f <$> x) s = ((x s).1.map f, (x s).2) := by
  change (ExceptT.map f x) s = _
  unfold ExceptT.map ExceptT.mk
  simp only [bind, StateT.bind]
  rcases x s with ⟨e | a, s'⟩
  · rfl
  · rfl

theorem EvalM.bind_run {α β : Type} (x : EvalM α) (f : α → EvalM β) (s : Option EvalRedis) :
    (x >>= f) s = match x s with
      | (.error e, s) => (.error e, s)
      | (.ok a, s) => f a s := by
  simp only [bind, ExceptT.bind, ExceptT.mk, StateT.bind]
  rcases x s with ⟨e | a, s'⟩
  · rfl
  · rfl

structure RankedPasses where
  pass_a : PassMetrics
  pass_a_bm25 : PassMetrics
  pass_b : PassMetrics × ℚ

/-- What a run measures, with the verdicts in the place of their means; there are none when the judge
is skipped. -/
structure JudgedRun extends RankedPasses where
  asked : Option (List Verdicts)

namespace JudgedRun

def report (run : JudgedRun) : EvalLlmReport :=
  evalReport run.pass_a run.pass_a_bm25 run.pass_b (run.asked.map judgeMetrics)

def verdicts (run : JudgedRun) : List Verdicts := run.asked.getD []

end JudgedRun

/-- The two means of a report are equal, and its uplift is 0. -/
def ReportsTie (report : EvalLlmReport) : Prop :=
  report.judge_hybrid_score_mean = report.judge_llm_score_mean ∧ report.judge_uplift_pct = 0

theorem JudgedRun.reportsTie_iff (run : JudgedRun) : ReportsTie run.report ↔
    mean (hybridScores run.verdicts) = mean (llmScores run.verdicts) := by
  have huplift : ∀ x : ℚ, upliftPct x x = 0 := by
    intro x
    rw [upliftPct, sub_self, zero_div, zero_mul, ite_self]
  obtain ⟨passes, asked⟩ := run
  cases asked with
  | none => exact iff_of_true ⟨rfl, huplift 0⟩ rfl
  | some verdicts =>
    refine and_iff_left_of_imp fun h => ?_
    have hmeans : mean (hybridScores verdicts) = mean (llmScores verdicts) := h
    change upliftPct (mean (hybridScores verdicts)) (mean (llmScores verdicts)) = 0
    rw [hmeans, huplift]

section Run
variable (log2 : ℕ → ℚ) (k judge_sample : ℤ) (ranker_cfg : RankerConfig ℚ)
  (llm_cfg : Llm.Client.Config) (triples : List Triple)

/-- The verdicts of a judge pass. -/
def judged (sessions : ℕ → JudgeSessions) : EvalM (List Verdicts) := fun redis_client =>
  if triples.isEmpty ∨ judge_sample ≤ 0 then (.ok [], redis_client)
  else forEach (judgeTriple k ranker_cfg llm_cfg sessions) 0
    (PyList.sliceTo triples judge_sample) redis_client

theorem evalJudgePass_eq (sessions : ℕ → JudgeSessions) :
    evalJudgePass k ranker_cfg llm_cfg sessions triples judge_sample =
      (judgeMetrics <$> judged k judge_sample ranker_cfg llm_cfg triples sessions :
        EvalM JudgeMetrics) := by
  funext redis_client
  rw [EvalM.map_run]
  unfold evalJudgePass judged
  split
  · rfl
  · rfl

/-- The passes before the judge is asked. -/
def rankedPasses (sessions : RunSessions) : EvalM RankedPasses := do
  let pass_a ← (evalReplayPass log2 k sessions.pass_a ranker_cfg triples : EvalM PassMetrics)
  let pass_a_bm25 ← (evalReplayPass log2 k sessions.pass_a_bm25 (bm25OnlyCfg ranker_cfg) triples :
    EvalM PassMetrics)
  let pass_b ← (evalLlmPass log2 k sessions.pass_b ranker_cfg llm_cfg triples :
    EvalM (PassMetrics × ℚ))
  return ⟨pass_a, pass_a_bm25, pass_b⟩

/-- A run of `run_eval_llm` whose result is what it measures. -/
def judgedRun (sessions : RunSessions) : EvalM JudgedRun := do
  let passes ← rankedPasses log2 k ranker_cfg llm_cfg triples sessions
  if sessions.client_available then
    (fun verdicts => ⟨passes, some verdicts⟩) <$>
      judged k judge_sample ranker_cfg llm_cfg triples sessions.pass_c
  else return ⟨passes, none⟩

theorem runEvalLlm_eq (sessions : RunSessions) :
    runEvalLlm log2 k judge_sample sessions ranker_cfg llm_cfg triples =
      JudgedRun.report <$> judgedRun log2 k judge_sample ranker_cfg llm_cfg triples sessions := by
  simp only [runEvalLlm, judgedRun, rankedPasses, evalJudgePass_eq, map_bind, bind_assoc, pure_bind]
  refine bind_congr fun pass_a => bind_congr fun pass_a_bm25 => bind_congr fun pass_b => ?_
  cases sessions.client_available with
  | false => rfl
  | true =>
    rw [if_pos rfl, if_pos rfl, ← comp_map, ← comp_map, bind_pure_comp, ← comp_map]
    rfl

/-- The judges of every query. -/
def RunSessions.withJudges (sessions : RunSessions) (judges : ℕ → LlmEnv × LlmEnv) : RunSessions :=
  { sessions with pass_c := fun i => (sessions.pass_c i).withJudges (judges i) }

variable {log2 k judge_sample ranker_cfg llm_cfg triples}

theorem judged_answered {sessions : ℕ → JudgeSessions} {redis_client redis_client' : Option EvalRedis}
    {verdicts answers : List Verdicts}
    (h : judged k judge_sample ranker_cfg llm_cfg triples sessions redis_client =
      (.ok verdicts, redis_client'))
    (hsame : answers.map returned = verdicts.map returned) :
    judged k judge_sample ranker_cfg llm_cfg triples
        (fun i => (sessions i).withJudges ((sessions i).answered (answers.getD i (none, none))))
        redis_client = (.ok answers, redis_client') := by
  unfold judged at h ⊢
  split at h
  · rename_i hnone
    obtain ⟨hverdicts, rfl⟩ := Prod.mk.inj h
    obtain rfl := Except.ok.inj hverdicts
    rw [if_pos hnone, List.map_eq_nil_iff.mp hsame]
  · rename_i hsome
    rw [if_neg hsome]
    refine forEach_answered h hsame fun n v hv => ?_
    rw [Nat.zero_add, List.getD_eq_getElem?_getD, hv, Option.getD_some]

/-- A run could have had any scores where the judge returned one. -/
theorem judgedRun_answered {sessions : RunSessions} {redis_client : Option EvalRedis} {run : JudgedRun}
    (h : (judgedRun log2 k judge_sample ranker_cfg llm_cfg triples sessions redis_client).1 = .ok run)
    {answers : List Verdicts} (hsame : answers.map returned = run.verdicts.map returned) :
    ∃ judges run', (judgedRun log2 k judge_sample ranker_cfg llm_cfg triples
      (sessions.withJudges judges) redis_client).1 = .ok run' ∧ run'.verdicts = answers := by
  refine ⟨fun i => (sessions.pass_c i).answered (answers.getD i (none, none)), ?_⟩
  unfold judgedRun at h ⊢
  rw [EvalM.bind_run] at h ⊢
  have hranked : ∀ judges, rankedPasses log2 k ranker_cfg llm_cfg triples
      (sessions.withJudges judges) redis_client =
        rankedPasses log2 k ranker_cfg llm_cfg triples sessions redis_client := fun _ => rfl
  rw [hranked]
  rcases hpasses : rankedPasses log2 k ranker_cfg llm_cfg triples sessions redis_client with
    ⟨e | passes, s⟩
  · rw [hpasses] at h
    cases h
  · rw [hpasses] at h
    have havailable : ∀ judges, (sessions.withJudges judges).client_available =
        sessions.client_available := fun _ => rfl
    simp only [havailable] at h ⊢
    cases hclient : sessions.client_available with
    | false =>
      rw [hclient] at h
      obtain rfl := Except.ok.inj h
      exact ⟨⟨passes, none⟩, rfl, (List.map_eq_nil_iff.mp hsame).symm⟩
    | true =>
      simp only [hclient, if_true, EvalM.map_run] at h ⊢
      rcases hverdicts : judged k judge_sample ranker_cfg llm_cfg triples sessions.pass_c s with
        ⟨e | verdicts, s'⟩
      · rw [hverdicts] at h
        cases h
      · rw [hverdicts] at h
        obtain rfl := Except.ok.inj h
        have hanswers := judged_answered hverdicts hsame
        refine ⟨⟨passes, some answers⟩, ?_, rfl⟩
        exact congrArg (fun r => Except.map _ r.1) hanswers

theorem runEvalLlm_report {sessions : RunSessions} {redis_client : Option EvalRedis}
    {run : JudgedRun}
    (h : (judgedRun log2 k judge_sample ranker_cfg llm_cfg triples sessions redis_client).1 = .ok run) :
    (runEvalLlm log2 k judge_sample sessions ranker_cfg llm_cfg triples redis_client).1 =
      .ok run.report := by
  rw [runEvalLlm_eq, EvalM.map_run, h]
  rfl

variable (log2 k judge_sample ranker_cfg llm_cfg triples)

/-- Whatever the judge answers in this run with this pattern of missing verdicts, when the scores agree
on every query with two of them, the report has a tie. -/
def ComparesPaired (sessions : RunSessions) (redis_client : Option EvalRedis)
    (pattern : List (Bool × Bool)) : Prop :=
  ∀ judges run, (judgedRun log2 k judge_sample ranker_cfg llm_cfg triples
      (sessions.withJudges judges) redis_client).1 = .ok run →
    run.verdicts.map returned = pattern → PairedEqual run.verdicts →
      ∃ report, (runEvalLlm log2 k judge_sample (sessions.withJudges judges) ranker_cfg llm_cfg
        triples redis_client).1 = .ok report ∧ ReportsTie report

/-- **When the judge comparison is paired.** On every query both calls return a verdict or neither
does. -/
theorem comparesPaired_iff (sessions : RunSessions) (redis_client : Option EvalRedis)
    (run : JudgedRun) (hrun : (judgedRun log2 k judge_sample ranker_cfg llm_cfg triples sessions
      redis_client).1 = .ok run) :
    ComparesPaired log2 k judge_sample ranker_cfg llm_cfg triples sessions redis_client
        (run.verdicts.map returned) ↔
      ∀ v ∈ run.verdicts, v.1.isSome = v.2.isSome := by
  constructor
  · intro hpaired v hv
    by_contra hone
    obtain ⟨before, after, hsplit⟩ := List.append_of_mem hv
    have hsame : (markOne before v after).map returned = run.verdicts.map returned := by
      rw [hsplit, map_returned_markOne]
    obtain ⟨judges, run', hrun', hverdicts⟩ := judgedRun_answered hrun hsame
    obtain ⟨report, hreport, htie⟩ := hpaired judges run' hrun' (by rw [hverdicts, hsame])
      (by rw [hverdicts]; exact pairedEqual_markOne before after v)
    rw [runEvalLlm_report hrun'] at hreport
    rw [← Except.ok.inj hreport, run'.reportsTie_iff, hverdicts] at htie
    exact mean_markOne_ne before after hone htie
  · intro hboth judges run' hrun' hsame hequal
    refine ⟨run'.report, runEvalLlm_report hrun', run'.reportsTie_iff.mpr ?_⟩
    rw [scores_eq_of_paired hequal]
    intro v hv
    have hv' : returned v ∈ run.verdicts.map returned := hsame ▸ List.mem_map_of_mem hv
    obtain ⟨w, hw, hreturned⟩ := List.mem_map.mp hv'
    calc v.1.isSome
      _ = w.1.isSome := (congrArg Prod.fst hreturned).symm
      _ = w.2.isSome := hboth w hw
      _ = v.2.isSome := congrArg Prod.snd hreturned

end Run

/-! ## A rate limit -/

def shoe : ItemRow ℚ := ⟨"i1", "Trail shoe", "", "shoes", "acme", 80, 0, 0, none⟩

/-- A session over a catalogue of one item. -/
def oneItem : Session where
  env := emptyCatalogue.env
  db := ⟨⟨[shoe], List.nodup_singleton shoe.id⟩, .empty, fun _ _ => .ok [("i1", 1)],
    fun _ _ => .ok []⟩

def tooManyRequests : PyError := ⟨"ClientError", "429 RESOURCE_EXHAUSTED", ""⟩

/-- A client whose calls all raise. -/
def rateLimited : LlmEnv :=
  { failingLlm with
    get_client := some
      { rerank := fun _ _ _ => .raised tooManyRequests
        intent := fun _ _ _ => .raised tooManyRequests
        verdict := fun _ _ _ => .raised tooManyRequests } }

/-- The judge gives 1 for both orders of the first query. For the second one it fails on the hybrid
order and gives 0 for the re-ranked one. -/
def rateLimitedRun : RunSessions where
  pass_a _ := .ok oneItem
  pass_a_bm25 _ := .ok oneItem
  pass_b _ := ⟨.ok oneItem, .ok oneItem, rateLimited⟩
  client_available := true
  pass_c
    | 0 => ⟨.ok oneItem, .ok oneItem, rateLimited, answering rateLimited (some oneVerdict),
      answering rateLimited (some oneVerdict)⟩
    | _ => ⟨.ok oneItem, .ok oneItem, rateLimited, rateLimited,
      answering rateLimited (some zeroVerdict)⟩

def twoQueries : List Triple := [⟨"u1", "shoes", "i1"⟩, ⟨"u2", "shoes", "i1"⟩]

theorem rateLimitedRun_ok : ∃ run, (judgedRun (fun _ => 1) 10 10 defaultRankerConfig
      Llm.Client.defaultConfig twoQueries rateLimitedRun none).1 = .ok run ∧
    run.verdicts = [(some oneVerdict, some oneVerdict), (none, some zeroVerdict)] :=
  ⟨_, rfl, rfl⟩

theorem comparesPaired_iff_rateLimited : ∃ run, (judgedRun (fun _ => 1) 10 10 defaultRankerConfig
      Llm.Client.defaultConfig twoQueries rateLimitedRun none).1 = .ok run ∧
    (ComparesPaired (fun _ => 1) 10 10 defaultRankerConfig Llm.Client.defaultConfig twoQueries
        rateLimitedRun none (run.verdicts.map returned) ↔
      ∀ v ∈ run.verdicts, v.1.isSome = v.2.isSome) := by
  obtain ⟨run, hrun, -⟩ := rateLimitedRun_ok
  exact ⟨run, hrun, comparesPaired_iff (fun _ => 1) 10 10 defaultRankerConfig
    Llm.Client.defaultConfig twoQueries rateLimitedRun none run hrun⟩

/-- The only query with two verdicts has equal scores, and the means are 1 and 1/2. -/
theorem rate_limit_unpaired :
    ¬ ∀ (log2 : ℕ → ℚ) (k judge_sample : ℤ) (ranker_cfg : RankerConfig ℚ)
      (llm_cfg : Llm.Client.Config) (triples : List Triple) (sessions : RunSessions)
      (redis_client : Option EvalRedis) (run : JudgedRun),
      (judgedRun log2 k judge_sample ranker_cfg llm_cfg triples sessions redis_client).1 = .ok run →
      PairedEqual run.verdicts →
      ∃ report, (runEvalLlm log2 k judge_sample sessions ranker_cfg llm_cfg triples
        redis_client).1 = .ok report ∧ ReportsTie report := by
  intro h
  obtain ⟨run, hrun, hverdicts⟩ := rateLimitedRun_ok
  have hequal : PairedEqual run.verdicts := by
    rw [hverdicts]
    simp [PairedEqual]
  obtain ⟨report, hreport, htie⟩ := h _ _ _ _ _ _ _ _ run hrun hequal
  rw [runEvalLlm_report hrun] at hreport
  rw [← Except.ok.inj hreport, run.reportsTie_iff, hverdicts] at htie
  have hhybrid : hybridScores [(some oneVerdict, some oneVerdict), (none, some zeroVerdict)] = [1] := rfl
  have hllm : llmScores [(some oneVerdict, some oneVerdict), (none, some zeroVerdict)] = [1, 0] := rfl
  rw [hhybrid, hllm] at htie
  norm_num [mean] at htie

end ClickRec.Eval
