import ClickRec.Eval.PassBounds

/-! # `eval-offline` and its gate

Four passes over one Redis client: hybrid and BM25 over the replay log, then both over the hand-made
golden queries. The uplift of the first basis with a positive baseline decides the exit code. -/
namespace ClickRec.Eval
set_option autoImplicit false
open Llm (RankedItemDTO)
open Ranker

/-! ## The golden queries -/

/-- An entry of the golden file; a missing or null list is empty. -/
structure GoldenEntry where
  query : Option String
  expected_categories : List String
  expected_brands : List String

/-- `rank` without a user, in a session of its own. -/
def rankGolden (session : Except PyError Session) (cfg : RankerConfig ℚ) (limit : ℤ) (query : String)
    (redis_client : Option EvalRedis) : Except PyError (List RankedItemDTO) × Option EvalRedis :=
  match session with
  | .error e => (.error e, redis_client)
  | .ok s =>
    (rank s.env s.db cfg (redis_client.map (·.client)) (some query) none limit none,
      afterRank s.env redis_client query)

/-- A result is relevant by its category or by its brand. -/
def goldenRelevances (results : List RankedItemDTO) (entry : GoldenEntry) : List ℚ :=
  results.map fun r =>
    if r.item.category ∈ entry.expected_categories ∨ r.item.brand ∈ entry.expected_brands then 1
    else 0

section Hand
variable (log2 : ℕ → ℚ) (k : ℤ)

def handEntry (sessions : ℕ → Except PyError Session) (cfg : RankerConfig ℚ) (i : ℕ)
    (entry : GoldenEntry) (redis_client : Option EvalRedis) :
    Except PyError (List ℚ) × Option EvalRedis :=
  match entry.query with
  | none => (.error ⟨"KeyError", "'query'", ""⟩, redis_client)
  | some query =>
    let (results, redis_client) := rankGolden (sessions i) cfg k query redis_client
    (results.map fun results => goldenRelevances results entry, redis_client)

def handMetrics (golden : List GoldenEntry) (rels : List (List ℚ)) : PassMetrics where
  ndcg := (rels.map fun rels => ndcgAtK log2 rels k).sum / rels.length
  mrr := (rels.map fun rels => mrrAtK rels k).sum / rels.length
  n := golden.length

def evalHandPass (sessions : ℕ → Except PyError Session) (cfg : RankerConfig ℚ)
    (golden : List GoldenEntry) (redis_client : Option EvalRedis) :
    Except PyError PassMetrics × Option EvalRedis :=
  if golden.isEmpty then (.ok ⟨0, 0, 0⟩, redis_client)
  else
    let (rels, redis_client) := forEach (handEntry k sessions cfg) 0 golden redis_client
    (rels.map (handMetrics log2 k golden), redis_client)

end Hand

/-! ## The run -/

inductive UpliftBasis where
  | replay
  | hand
  | none

def basisToFloat : UpliftBasis → ℚ
  | .replay => 1
  | .hand => 2
  | .none => 0

structure OfflineReport where
  hybrid_ndcg : ℚ
  hybrid_mrr : ℚ
  bm25_ndcg : ℚ
  bm25_mrr : ℚ
  replay_n : ℚ
  hand_hybrid_ndcg : ℚ
  hand_hybrid_mrr : ℚ
  hand_bm25_ndcg : ℚ
  hand_bm25_mrr : ℚ
  hand_n : ℚ
  ndcg_uplift_pct : ℚ
  uplift_basis : ℚ

def headline (replay_hybrid replay_bm25 hand_hybrid hand_bm25 : PassMetrics) : ℚ × UpliftBasis :=
  if 0 < replay_hybrid.n ∧ 0 < replay_bm25.ndcg then
    ((replay_hybrid.ndcg - replay_bm25.ndcg) / replay_bm25.ndcg * 100, .replay)
  else if 0 < hand_hybrid.n ∧ 0 < hand_bm25.ndcg then
    ((hand_hybrid.ndcg - hand_bm25.ndcg) / hand_bm25.ndcg * 100, .hand)
  else (0, .none)

def offlineReport (replay_hybrid replay_bm25 hand_hybrid hand_bm25 : PassMetrics) : OfflineReport :=
  let (uplift, uplift_basis) := headline replay_hybrid replay_bm25 hand_hybrid hand_bm25
  { hybrid_ndcg := replay_hybrid.ndcg
    hybrid_mrr := replay_hybrid.mrr
    bm25_ndcg := replay_bm25.ndcg
    bm25_mrr := replay_bm25.mrr
    replay_n := replay_hybrid.n
    hand_hybrid_ndcg := hand_hybrid.ndcg
    hand_hybrid_mrr := hand_hybrid.mrr
    hand_bm25_ndcg := hand_bm25.ndcg
    hand_bm25_mrr := hand_bm25.mrr
    hand_n := hand_hybrid.n
    ndcg_uplift_pct := uplift
    uplift_basis := basisToFloat uplift_basis }

/-- What the four passes of a run meet. -/
structure OfflineSessions where
  replay_hybrid : ℕ → Except PyError Session
  replay_bm25 : ℕ → Except PyError Session
  hand_hybrid : ℕ → Except PyError Session
  hand_bm25 : ℕ → Except PyError Session

section Run
variable (log2 : ℕ → ℚ) (k : ℤ) (sessions : OfflineSessions) (cfg_hybrid : RankerConfig ℚ)
  (triples : List Triple) (golden : List GoldenEntry)

/-- The run on the triples and the golden queries that were loaded. -/
def runOfflineEval : EvalM OfflineReport := do
  let cfg_bm25 := bm25OnlyCfg cfg_hybrid
  let replay_hybrid ← (evalReplayPass log2 k sessions.replay_hybrid cfg_hybrid triples :
    EvalM PassMetrics)
  let replay_bm25 ← (evalReplayPass log2 k sessions.replay_bm25 cfg_bm25 triples :
    EvalM PassMetrics)
  let hand_hybrid ← (evalHandPass log2 k sessions.hand_hybrid cfg_hybrid golden : EvalM PassMetrics)
  let hand_bm25 ← (evalHandPass log2 k sessions.hand_bm25 cfg_bm25 golden : EvalM PassMetrics)
  return offlineReport replay_hybrid replay_bm25 hand_hybrid hand_bm25

def exitCode (results : OfflineReport) : ℤ := if results.ndcg_uplift_pct < 15 then 1 else 0

/-- The exit code of `eval-offline`, without the artifact and the table it writes. -/
def runOfflineEvalCli : EvalM ℤ := do
  let results ← runOfflineEval log2 k sessions cfg_hybrid triples golden
  return exitCode results

end Run

/-! ## The hand pass -/

theorem mrrAtK_le_one (rels : List ℚ) (k : ℤ) : mrrAtK rels k ≤ 1 := by
  unfold mrrAtK
  split
  · exact zero_le_one
  · rename_i i _
    refine (div_le_one (Nat.cast_pos.mpr i.succ_pos)).mpr ?_
    exact_mod_cast Nat.succ_le_succ (Nat.zero_le i)

theorem goldenRelevances_nonneg (results : List RankedItemDTO) (entry : GoldenEntry) :
    ∀ x ∈ goldenRelevances results entry, 0 ≤ x := by
  intro x hx
  obtain ⟨r, -, rfl⟩ := List.mem_map.mp hx
  split
  · exact zero_le_one
  · exact le_rfl

/-- Several results can be relevant, so the MRR may be above the NDCG. -/
structure PassMetrics.InUnit (m : PassMetrics) : Prop where
  ndcg_nonneg : 0 ≤ m.ndcg
  ndcg_le_one : m.ndcg ≤ 1
  mrr_nonneg : 0 ≤ m.mrr
  mrr_le_one : m.mrr ≤ 1

section Passes
variable {log2 : ℕ → ℚ} {k : ℤ} {cfg : RankerConfig ℚ} {redis_client : Option EvalRedis}
  {m : PassMetrics}

theorem inUnit_evalHandPass (hlog : IsLog2 log2) {sessions : ℕ → Except PyError Session}
    {golden : List GoldenEntry}
    (h : (evalHandPass log2 k sessions cfg golden redis_client).1 = .ok m) : m.InUnit := by
  unfold evalHandPass at h
  split at h
  · cases h
    exact ⟨le_rfl, zero_le_one, le_rfl, zero_le_one⟩
  · obtain ⟨rels, hrels, rfl⟩ := map_ok h
    have hnonneg : ∀ r ∈ rels, ∀ x ∈ r, (0 : ℚ) ≤ x := by
      refine forEach_forall (fun i entry s r hr => ?_) hrels
      unfold handEntry at hr
      split at hr
      · cases hr
      · obtain ⟨results, -, rfl⟩ := map_ok hr
        exact goldenRelevances_nonneg results entry
    have hndcg := fun r hr => ndcgAtK_mem_unit hlog.toGrows (hnonneg r hr) k
    exact ⟨mean_nonneg fun r hr => (hndcg r hr).1, mean_le_one fun r hr => (hndcg r hr).2,
      mean_nonneg fun r _ => mrrAtK_nonneg r k, mean_le_one fun r _ => mrrAtK_le_one r k⟩

theorem n_evalHandPass {sessions : ℕ → Except PyError Session} {golden : List GoldenEntry}
    (h : (evalHandPass log2 k sessions cfg golden redis_client).1 = .ok m) : m.n = golden.length := by
  unfold evalHandPass at h
  split at h
  · rename_i hempty
    cases h
    rw [List.isEmpty_iff.mp hempty]
    rfl
  · obtain ⟨rels, -, rfl⟩ := map_ok h
    rfl

theorem n_evalReplayPass {sessions : ℕ → Except PyError Session} {triples : List Triple}
    (h : (evalReplayPass log2 k sessions cfg triples redis_client).1 = .ok m) :
    m.n = triples.length := by
  unfold evalReplayPass at h
  split at h
  · rename_i hempty
    cases h
    rw [List.isEmpty_iff.mp hempty]
    rfl
  · obtain ⟨rels, -, rfl⟩ := map_ok h
    rfl

end Passes

/-! ## The gate -/

/-- At least 15 percent above a positive baseline. -/
def Improves (base new : ℚ) : Prop := 0 < base ∧ 23 / 20 * base ≤ new

theorem uplift_ge_iff {base new : ℚ} (hbase : 0 < base) :
    ¬ (new - base) / base * 100 < 15 ↔ 23 / 20 * base ≤ new := by
  rw [not_lt, div_mul_eq_mul_div, le_div_iff₀ hbase]
  constructor
  · intro h
    linarith
  · intro h
    linarith

theorem Improves.base_le {base new : ℚ} (h : Improves base new) (hnew : new ≤ 1) :
    base ≤ 20 / 23 := by
  obtain ⟨-, h⟩ := h
  linarith

theorem exitCode_eq_zero {results : OfflineReport} :
    exitCode results = 0 ↔ ¬ results.ndcg_uplift_pct < 15 := by
  unfold exitCode
  by_cases hbelow : results.ndcg_uplift_pct < 15
  · rw [if_pos hbelow]
    exact iff_of_false one_ne_zero fun h => h hbelow
  · rw [if_neg hbelow]
    exact iff_of_true rfl hbelow

theorem exitCode_eq_zero_iff (replay_hybrid replay_bm25 hand_hybrid hand_bm25 : PassMetrics) :
    exitCode (offlineReport replay_hybrid replay_bm25 hand_hybrid hand_bm25) = 0 ↔
      (0 < replay_hybrid.n ∧ Improves replay_bm25.ndcg replay_hybrid.ndcg) ∨
      (¬ (0 < replay_hybrid.n ∧ 0 < replay_bm25.ndcg) ∧ 0 < hand_hybrid.n ∧
        Improves hand_bm25.ndcg hand_hybrid.ndcg) := by
  rw [exitCode_eq_zero, offlineReport, headline]
  by_cases hreplay : 0 < replay_hybrid.n ∧ 0 < replay_bm25.ndcg
  · rw [if_pos hreplay, uplift_ge_iff hreplay.2, or_iff_left fun h => h.1 hreplay,
      and_iff_right hreplay.1]
    exact (and_iff_right hreplay.2).symm
  · have hnot : ¬ (0 < replay_hybrid.n ∧ Improves replay_bm25.ndcg replay_hybrid.ndcg) :=
      fun h => hreplay ⟨h.1, h.2.1⟩
    rw [if_neg hreplay, or_iff_right hnot, and_iff_right hreplay]
    by_cases hhand : 0 < hand_hybrid.n ∧ 0 < hand_bm25.ndcg
    · rw [if_pos hhand, uplift_ge_iff hhand.2, and_iff_right hhand.1]
      exact (and_iff_right hhand.2).symm
    · rw [if_neg hhand]
      exact iff_of_false (by norm_num) fun h => hhand ⟨h.1, h.2.1⟩

/-! ## The run -/

theorem EvalM.bind_ok {α β : Type} {x : EvalM α} {f : α → EvalM β} {s : Option EvalRedis} {b : β}
    (h : ((x >>= f) s).1 = .ok b) : ∃ a s', (x s).1 = .ok a ∧ (f a s').1 = .ok b := by
  rw [EvalM.bind_run] at h
  rcases hx : x s with ⟨e | a, s'⟩
  · rw [hx] at h
    cases h
  · rw [hx] at h
    exact ⟨a, s', rfl, h⟩

/-- What a run promises of its metrics. -/
structure OfflineReport.Bounded (r : OfflineReport) : Prop where
  hybrid : 0 ≤ r.hybrid_mrr ∧ r.hybrid_mrr ≤ r.hybrid_ndcg ∧ r.hybrid_ndcg ≤ 1
  bm25 : 0 ≤ r.bm25_mrr ∧ r.bm25_mrr ≤ r.bm25_ndcg ∧ r.bm25_ndcg ≤ 1
  hand_hybrid : 0 ≤ r.hand_hybrid_ndcg ∧ r.hand_hybrid_ndcg ≤ 1 ∧ 0 ≤ r.hand_hybrid_mrr ∧
    r.hand_hybrid_mrr ≤ 1
  hand_bm25 : 0 ≤ r.hand_bm25_ndcg ∧ r.hand_bm25_ndcg ≤ 1 ∧ 0 ≤ r.hand_bm25_mrr ∧
    r.hand_bm25_mrr ≤ 1

/-- Every pass finds the one item. -/
def oneItemSessions : OfflineSessions :=
  ⟨fun _ => .ok oneItem, fun _ => .ok oneItem, fun _ => .ok oneItem, fun _ => .ok oneItem⟩

end ClickRec.Eval
