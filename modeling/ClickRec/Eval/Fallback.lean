import ClickRec.Eval.Holdout
import ClickRec.Ranker.TopRanked

/-! # A pass in which the re-ranker never answers

The LLM pass asks `rank` for more results than it keeps. Without a new order it keeps the first `k`,
which are what the replay pass asks for. -/
namespace ClickRec.Eval
set_option autoImplicit false
open Llm (RankedItemDTO)
open Ranker

/-! ## Two passes in step -/

section Passes
variable {α β σ : Type}

/-- The triples a pass begins, each with its position and the state it is begun in. -/
def visits (score : ℕ → Triple → σ → Except PyError α × σ) :
    ℕ → List Triple → σ → List (ℕ × Triple × σ)
  | _, [], _ => []
  | i, t :: ts, s =>
    (i, t, s) ::
      match score i t s with
      | (.error _, _) => []
      | (.ok _, s) => visits score (i + 1) ts s

section Step
variable {score : ℕ → Triple → σ → Except PyError α × σ} {i : ℕ} {t : Triple} {s s' : σ}

theorem forEach_error {e : PyError} (h : score i t s = (.error e, s')) (ts : List Triple) :
    forEach score i (t :: ts) s = (.error e, s') := by
  rw [forEach, h]

theorem forEach_ok {a : α} (h : score i t s = (.ok a, s')) (ts : List Triple) :
    forEach score i (t :: ts) s = ((forEach score (i + 1) ts s').1.map (a :: ·),
      (forEach score (i + 1) ts s').2) := by
  rw [forEach, h]

theorem visits_ok {a : α} (h : score i t s = (.ok a, s')) (ts : List Triple) :
    visits score i (t :: ts) s = (i, t, s) :: visits score (i + 1) ts s' := by
  rw [visits, h]

end Step

/-- Scores that are those of another pass up to `f`, wherever they are taken. -/
theorem forEach_map {score : ℕ → Triple → σ → Except PyError α × σ}
    {score' : ℕ → Triple → σ → Except PyError β × σ} {f : α → β} (ts : List Triple) {i : ℕ} {s : σ}
    (h : ∀ v ∈ visits score' i ts s, score' v.1 v.2.1 v.2.2 =
      ((score v.1 v.2.1 v.2.2).1.map f, (score v.1 v.2.1 v.2.2).2)) :
    forEach score' i ts s =
      ((forEach score i ts s).1.map (List.map f), (forEach score i ts s).2) := by
  induction ts generalizing i s with
  | nil => rfl
  | cons t ts ih =>
    have hfirst : score' i t s = ((score i t s).1.map f, (score i t s).2) :=
      h (i, t, s) List.mem_cons_self
    rcases hscore : score i t s with ⟨e | a, s'⟩
    · rw [hscore] at hfirst
      rw [forEach_error hfirst, forEach_error hscore]
      rfl
    · rw [hscore] at hfirst
      rw [visits_ok hfirst] at h
      rw [forEach_ok hfirst, forEach_ok hscore, ih fun v hv => h v (List.mem_cons_of_mem _ hv)]
      cases (forEach score (i + 1) ts s').1 with
      | error e => rfl
      | ok scores => rfl

theorem length_forEach {score : ℕ → Triple → σ → Except PyError α × σ} {ts : List Triple} {i : ℕ}
    {s : σ} {scores : List α} (h : (forEach score i ts s).1 = .ok scores) :
    scores.length = ts.length := by
  induction ts generalizing i s scores with
  | nil =>
    obtain rfl := Except.ok.inj h
    rfl
  | cons t ts ih =>
    rcases hscore : score i t s with ⟨e | a, s'⟩
    · rw [forEach_error hscore] at h
      cases h
    · rw [forEach_ok hscore] at h
      cases hrest : (forEach score (i + 1) ts s').1 with
      | error e =>
        rw [hrest] at h
        cases h
      | ok rest =>
        rw [hrest] at h
        obtain rfl := Except.ok.inj h
        rw [List.length_cons, List.length_cons, ih hrest]

end Passes

/-! ## One triple -/

section Triple
variable (k : ℤ) (session : Except PyError Session) (llm : Llm.Client.LlmEnv)
  (ranker_cfg : RankerConfig ℚ) (llm_cfg : Llm.Client.Config) (t : Triple)

/-- While the clicked item is held out, the re-ranker returns None on what it is called with. -/
def FallsBack (held_out : Option EvalRedis) : Prop :=
  ∀ profile results, userProfileSummary session ranker_cfg t.user_id held_out = .ok profile →
    (rankTriple session ranker_cfg (max llm_cfg.re_rank_input_k k) t held_out).1 = .ok results →
    ∃ reranked, Llm.Client.rerankTopK llm t.query results (some profile) llm_cfg = .ok reranked ∧
      reranked.result = none

theorem fallsBack_of_unavailable (hllm : llm.get_client = none) (held_out : Option EvalRedis) :
    FallsBack k session llm ranker_cfg llm_cfg t held_out := by
  intro _ results _ _
  unfold Llm.Client.rerankTopK
  rw [hllm]
  split
  · exact ⟨_, rfl, rfl⟩
  · exact ⟨_, rfl, rfl⟩

variable {k}

theorem rankTriple_take {limit : ℤ} (hk : 0 ≤ k) (hle : k ≤ limit)
    (redis_client : Option EvalRedis) :
    rankTriple session ranker_cfg k t redis_client =
      ((rankTriple session ranker_cfg limit t redis_client).1.map (·.take k.toNat),
        (rankTriple session ranker_cfg limit t redis_client).2) := by
  cases session with
  | error e => rfl
  | ok s => exact Prod.ext (rank_take hk hle (some t.query) (some t.user_id) none) rfl

theorem llmBlock_of_fallsBack (hk : 0 ≤ k) {held_out : Option EvalRedis}
    (h : FallsBack k session llm ranker_cfg llm_cfg t held_out) :
    llmBlock k ⟨session, session, llm⟩ ranker_cfg llm_cfg t held_out =
      ((rankTriple session ranker_cfg k t held_out).1.map (·, true),
        (rankTriple session ranker_cfg k t held_out).2) := by
  rw [rankTriple_take session ranker_cfg t hk (le_max_right llm_cfg.re_rank_input_k k)]
  unfold llmBlock
  cases hprofile : userProfileSummary session ranker_cfg t.user_id held_out with
  | error e =>
    cases session with
    | error e' =>
      obtain rfl := Except.error.inj hprofile
      rfl
    | ok s => cases hprofile
  | ok profile =>
    simp only
    cases hranked : (rankTriple session ranker_cfg (max llm_cfg.re_rank_input_k k) t held_out).1 with
    | error e => rfl
    | ok results =>
      obtain ⟨reranked, hreranked, hnone⟩ := h profile results hprofile hranked
      simp only [bind, Except.bind, hreranked, hnone, pure, Except.pure, Except.map,
        PyList.sliceTo_of_nonneg results hk]

/-- The results of the replay pass, and one more fallback. -/
theorem llmTriple_of_fallsBack (hk : 0 ≤ k) {i : ℕ} {sessions : ℕ → Except PyError Session}
    {llms : ℕ → Llm.Client.LlmEnv} {redis_client : Option EvalRedis}
    (h : FallsBack k (sessions i) (llms i) ranker_cfg llm_cfg t
      (holdoutRemove redis_client t.user_id t.item_id).2) :
    llmTriple k (fun i => ⟨sessions i, sessions i, llms i⟩) ranker_cfg llm_cfg i t redis_client =
      ((replayTriple k sessions ranker_cfg i t redis_client).1.map (·, true),
        (replayTriple k sessions ranker_cfg i t redis_client).2) := by
  have hblock := llmBlock_of_fallsBack (sessions i) (llms i) ranker_cfg llm_cfg t hk h
  simp only [llmTriple, replayTriple, heldOut, hblock]
  cases (rankTriple (sessions i) ranker_cfg k t
      (holdoutRemove redis_client t.user_id t.item_id).2).1 with
  | error e => rfl
  | ok results => rfl

end Triple

/-! ## The pass -/

/-- **A pass of fallbacks reports what the replay pass reports.** When the re-ranker returns None for
every triple, the metrics, the state and any exception are those of the replay pass, and the number of
fallbacks is `n`. -/
theorem evalLlmPass_of_fallsBack (log2 : ℕ → ℚ) {k : ℤ} (hk : 1 ≤ k)
    (sessions : ℕ → Except PyError Session) (llms : ℕ → Llm.Client.LlmEnv)
    (ranker_cfg : RankerConfig ℚ) (llm_cfg : Llm.Client.Config) (triples : List Triple)
    (redis_client : Option EvalRedis)
    (hnone : ∀ v ∈ visits (llmTriple k (fun i => ⟨sessions i, sessions i, llms i⟩) ranker_cfg llm_cfg)
      0 triples redis_client, FallsBack k (sessions v.1) (llms v.1) ranker_cfg llm_cfg v.2.1
        (holdoutRemove v.2.2 v.2.1.user_id v.2.1.item_id).2) :
    evalLlmPass log2 k (fun i => ⟨sessions i, sessions i, llms i⟩) ranker_cfg llm_cfg triples
        redis_client =
      ((evalReplayPass log2 k sessions ranker_cfg triples redis_client).1.map fun m => (m, m.n),
        (evalReplayPass log2 k sessions ranker_cfg triples redis_client).2) := by
  cases triples with
  | nil => rfl
  | cons t ts =>
    have hpass := forEach_map (t :: ts) fun v hv => llmTriple_of_fallsBack ranker_cfg llm_cfg v.2.1
      (zero_le_one.trans hk) (hnone v hv)
    simp only [evalLlmPass, evalReplayPass, List.isEmpty_cons, Bool.false_eq_true, if_false, hpass]
    cases hrels : (forEach (replayTriple k sessions ranker_cfg) 0 (t :: ts) redis_client).1 with
    | error e => rfl
    | ok rels =>
      have hfallbacks : (rels.map fun rels => (rels, true)).countP (·.2) = (t :: ts).length := by
        rw [List.countP_map, ← length_forEach hrels]
        exact congrFun List.countP_true rels
      have hkept : (rels.map fun rels => (rels, true)).map (·.1) = rels := by
        rw [List.map_map]
        exact List.map_id rels
      simp only [Except.map, hfallbacks, hkept]
      rfl

/-- Three hits for every query. -/
def threeShoes : Session where
  env := emptyCatalogue.env
  db :=
    { item := ⟨["i1", "i2", "i3"].map fun id => ⟨id, "Runner", "", "shoes", "acme", 80, 0, 0, none⟩,
        by decide⟩
      co_click := .empty
      bm25 := fun _ _ => .ok [("i2", 3), ("i1", 2), ("i3", 1)]
      vector := fun _ _ => .ok [] }

/-- A click on the second hit, and one on the third. -/
def twoShoeQueries : List Triple := [⟨"u1", "shoes", "i1"⟩, ⟨"u1", "runner", "i3"⟩]

/-- With a `k` of 2 the third hit is cut, and counts as no hit. -/
theorem evalLlmPass_of_fallsBack_cut :
    (evalReplayPass (fun _ => 1) 2 (fun _ => .ok threeShoes) defaultRankerConfig twoShoeQueries
        (some twoClicks)).1.toOption.map (fun m => (m.mrr, m.n)) = some (1 / 4, 2) ∧
      evalLlmPass (fun _ => 1) 2 (fun _ => ⟨.ok threeShoes, .ok threeShoes, failingLlm⟩)
          defaultRankerConfig Llm.Client.defaultConfig twoShoeQueries (some twoClicks) =
        ((evalReplayPass (fun _ => 1) 2 (fun _ => .ok threeShoes) defaultRankerConfig twoShoeQueries
            (some twoClicks)).1.map fun m => (m, m.n),
          (evalReplayPass (fun _ => 1) 2 (fun _ => .ok threeShoes) defaultRankerConfig twoShoeQueries
            (some twoClicks)).2) := by
  refine ⟨?_, evalLlmPass_of_fallsBack (fun _ => 1) (by decide) (fun _ => .ok threeShoes)
    (fun _ => failingLlm) defaultRankerConfig Llm.Client.defaultConfig twoShoeQueries (some twoClicks)
    fun v _ => fallsBack_of_unavailable 2 _ failingLlm _ _ v.2.1 rfl _⟩
  decide +kernel

end ClickRec.Eval
