import ClickRec.Eval.Replay

/-! # The holdout and the user's history

The clicked item is put back with its score, also when a triple raises. The expiry of the history is
not put back: it goes with the key where the clicked item is the only member. -/
namespace ClickRec.Eval
set_option autoImplicit false
open Kafka (recentKey)
open Ranker

/-! ## What a triple reads -/

/-- The sorted sets; without a client there are none. -/
def zsetsOf (redis_client : Option EvalRedis) (key : String) : StoredSet ℚ String :=
  redis_client.elim .absent fun redis => redis.zsets key

/-- The commands of the holdout succeed. -/
def HoldoutSucceeds (redis_client : Option EvalRedis) : Prop :=
  ∀ redis ∈ redis_client, ∀ command, redis.holdout_outcome command = .ok

/-- The second client differs from the first in the cached texts only. -/
inductive SameZsets : Option EvalRedis → Option EvalRedis → Prop
  | missing : SameZsets none none
  | started {redis redis' : EvalRedis} : redis'.zsets = redis.zsets →
    redis'.holdout_outcome = redis.holdout_outcome → SameZsets (some redis) (some redis')

theorem SameZsets.refl (redis_client : Option EvalRedis) : SameZsets redis_client redis_client := by
  cases redis_client with
  | none => exact .missing
  | some redis => exact .started rfl rfl

theorem afterRank_same (env : Ranker.Env) (redis_client : Option EvalRedis) (query : String) :
    SameZsets redis_client (afterRank env redis_client query) := by
  unfold afterRank
  split
  · exact .started rfl rfl
  · exact .refl _

theorem rankTriple_same (session : Except PyError Session) (cfg : RankerConfig ℚ) (limit : ℤ)
    (t : Triple) (redis_client : Option EvalRedis) :
    SameZsets redis_client (rankTriple session cfg limit t redis_client).2 := by
  cases session with
  | error e => exact .refl _
  | ok s => exact afterRank_same s.env redis_client t.query

theorem llmBlock_same (k : ℤ) (sessions : LlmSessions) (ranker_cfg : RankerConfig ℚ)
    (llm_cfg : Llm.Client.Config) (t : Triple) (redis_client : Option EvalRedis) :
    SameZsets redis_client (llmBlock k sessions ranker_cfg llm_cfg t redis_client).2 := by
  unfold llmBlock
  split
  · exact .refl _
  · exact rankTriple_same _ _ _ t redis_client

/-! ## One triple -/

/-- What a triple does to the sorted sets. -/
def readdClicked (zsets : String → StoredSet ℚ String) (t : Triple) :
    String → StoredSet ℚ String :=
  Function.update zsets (recentKey t.user_id) ((zsets (recentKey t.user_id)).readd t.item_id)

theorem holdoutRemove_eq {redis : EvalRedis} (h : HoldoutSucceeds (some redis))
    (user_id item_id : String) :
    holdoutRemove (some redis) user_id item_id =
      match (redis.zsets (recentKey user_id)).members.zscore item_id with
      | none => (none, some redis)
      | some prior =>
        (some prior, some (redis.onZset (recentKey user_id) fun s => s.zrem item_id)) := by
  simp only [holdoutRemove, EvalRedis.write, h redis rfl]
  split <;> simp_all

theorem holdoutRestore_eq {redis : EvalRedis} (h : HoldoutSucceeds (some redis))
    (user_id item_id : String) (prior : ℚ) :
    holdoutRestore (some redis) user_id item_id (some prior) =
      some (redis.onZset (recentKey user_id) fun s => s.zadd item_id prior) := by
  simp only [holdoutRestore, EvalRedis.write, h redis rfl]

theorem heldOut_none {α : Type} {t : Triple} {block : Option EvalRedis → α × Option EvalRedis}
    (hblock : ∀ redis_client, SameZsets redis_client (block redis_client).2) :
    (heldOut t block none).2 = none := by
  have hsame := hblock none
  simp only [heldOut, holdoutRemove]
  generalize (block none).2 = after at hsame
  cases hsame
  rfl

/-- Without Redis errors the clicked item is removed and added again. -/
theorem heldOut_some {α : Type} {t : Triple} {block : Option EvalRedis → α × Option EvalRedis}
    (hblock : ∀ redis_client, SameZsets redis_client (block redis_client).2) {redis : EvalRedis}
    (h : HoldoutSucceeds (some redis)) :
    ∃ redis', (heldOut t block (some redis)).2 = some redis' ∧
      redis'.holdout_outcome = redis.holdout_outcome ∧
      redis'.zsets = readdClicked redis.zsets t := by
  simp only [heldOut, holdoutRemove_eq h, readdClicked, StoredSet.readd]
  cases hscore : (redis.zsets (recentKey t.user_id)).members.zscore t.item_id with
  | none =>
    have hsame := hblock (some redis)
    simp only [Function.update_eq_self]
    generalize (block (some redis)).2 = after at hsame
    cases hsame with
    | started hzsets houtcome => exact ⟨_, rfl, houtcome, hzsets⟩
  | some prior =>
    have hsame := hblock (some (redis.onZset (recentKey t.user_id) fun s => s.zrem t.item_id))
    simp only
    generalize (block (some (redis.onZset (recentKey t.user_id) _))).2 = after at hsame
    cases hsame with
    | started hzsets houtcome =>
      rw [holdoutRestore_eq fun _ hredis command => by
        rw [← Option.some.inj hredis, houtcome]
        exact h redis rfl command]
      refine ⟨_, rfl, houtcome, ?_⟩
      simp only [EvalRedis.onZset, hzsets, Function.update_self, Function.update_idem]

theorem heldOut_spec {α : Type} {t : Triple} {block : Option EvalRedis → α × Option EvalRedis}
    (hblock : ∀ redis_client, SameZsets redis_client (block redis_client).2)
    {redis_client : Option EvalRedis} (h : HoldoutSucceeds redis_client) :
    zsetsOf (heldOut t block redis_client).2 = readdClicked (zsetsOf redis_client) t ∧
      HoldoutSucceeds (heldOut t block redis_client).2 := by
  cases redis_client with
  | none =>
    rw [heldOut_none hblock]
    refine ⟨?_, h⟩
    exact (Function.update_eq_self _ _).symm
  | some redis =>
    obtain ⟨redis', heq, houtcome, hzsets⟩ := heldOut_some (t := t) hblock h
    rw [heq]
    refine ⟨hzsets, fun _ hredis command => ?_⟩
    rw [← Option.some.inj hredis, houtcome]
    exact h redis rfl command

/-! ## The triples of a pass -/

/-- The triples that are ranked: all of them, or up to the first one that raises. -/
def reached {α σ : Type} (score : ℕ → Triple → σ → Except PyError α × σ) :
    ℕ → List Triple → σ → List Triple
  | _, [], _ => []
  | i, t :: ts, s =>
    match score i t s with
    | (.error _, _) => [t]
    | (.ok _, s) => t :: reached score (i + 1) ts s

theorem forEach_zsets {α : Type}
    {score : ℕ → Triple → Option EvalRedis → Except PyError α × Option EvalRedis}
    (hscore : ∀ i t redis_client, HoldoutSucceeds redis_client →
      zsetsOf (score i t redis_client).2 = readdClicked (zsetsOf redis_client) t ∧
        HoldoutSucceeds (score i t redis_client).2)
    (triples : List Triple) (i : ℕ) {redis_client : Option EvalRedis}
    (h : HoldoutSucceeds redis_client) :
    zsetsOf (forEach score i triples redis_client).2 =
      (reached score i triples redis_client).foldl readdClicked (zsetsOf redis_client) := by
  induction triples generalizing i redis_client with
  | nil => rfl
  | cons t ts ih =>
    obtain ⟨hzsets, hsucceeds⟩ := hscore i t redis_client h
    rw [forEach, reached]
    generalize score i t redis_client = scored at hzsets hsucceeds
    obtain ⟨_ | a, after⟩ := scored
    · exact hzsets
    · rw [List.foldl_cons, ← hzsets]
      exact ih (i + 1) hsucceeds

/-- The clicked item is the only one of a history that has an expiry. -/
def LosesExpiry (zsets : String → StoredSet ℚ String) (t : Triple) : Prop :=
  (zsets (recentKey t.user_id)).Sole t.item_id ∧ (zsets (recentKey t.user_id)).expire_at ≠ none

theorem foldl_readdClicked_expire_at {zsets : String → StoredSet ℚ String} {key : String}
    (h : (zsets key).expire_at = none) (ts : List Triple) :
    (ts.foldl readdClicked zsets key).expire_at = none := by
  induction ts generalizing zsets with
  | nil => exact h
  | cons t ts ih =>
    refine ih ?_
    unfold readdClicked
    obtain rfl | hkey := eq_or_ne key (recentKey t.user_id)
    · rw [Function.update_self]
      exact StoredSet.expire_at_readd_of_none _ h
    · rw [Function.update_of_ne hkey, h]

/-- A history that loses its expiry does not get it back. -/
theorem foldl_readdClicked_iff (zsets : String → StoredSet ℚ String) (ts : List Triple) :
    (∀ user_id, ts.foldl readdClicked zsets (recentKey user_id) = zsets (recentKey user_id)) ↔
      ∀ t ∈ ts, ¬ LosesExpiry zsets t := by
  induction ts with
  | nil => simp
  | cons t ts ih =>
    rw [List.foldl_cons, List.forall_mem_cons]
    by_cases hloses : LosesExpiry zsets t
    · refine iff_of_false (fun h => hloses.2 ?_) fun h => h.1 hloses
      rw [← h t.user_id]
      refine foldl_readdClicked_expire_at ?_ ts
      rw [readdClicked, Function.update_self]
      exact StoredSet.expire_at_readd_of_sole hloses.1
    · have hsame : readdClicked zsets t = zsets := by
        rw [readdClicked, (StoredSet.readd_eq_self_iff _ _).mpr hloses, Function.update_eq_self]
      rw [hsame, ih, and_iff_right hloses]

/-! ## The passes -/

section Passes
variable (log2 : ℕ → ℚ) (k : ℤ) (ranker_cfg : RankerConfig ℚ) (llm_cfg : Llm.Client.Config)
  (sessions : ℕ → Except PyError Session) (llm_sessions : ℕ → LlmSessions) (triples : List Triple)
  {redis_client : Option EvalRedis}

theorem replayTriple_spec (i : ℕ) (t : Triple) (redis_client : Option EvalRedis)
    (h : HoldoutSucceeds redis_client) :
    zsetsOf (replayTriple k sessions ranker_cfg i t redis_client).2 =
        readdClicked (zsetsOf redis_client) t ∧
      HoldoutSucceeds (replayTriple k sessions ranker_cfg i t redis_client).2 :=
  heldOut_spec (rankTriple_same (sessions i) ranker_cfg k t) h

theorem llmTriple_spec (i : ℕ) (t : Triple) (redis_client : Option EvalRedis)
    (h : HoldoutSucceeds redis_client) :
    zsetsOf (llmTriple k llm_sessions ranker_cfg llm_cfg i t redis_client).2 =
        readdClicked (zsetsOf redis_client) t ∧
      HoldoutSucceeds (llmTriple k llm_sessions ranker_cfg llm_cfg i t redis_client).2 :=
  heldOut_spec (llmBlock_same k (llm_sessions i) ranker_cfg llm_cfg t) h

theorem evalReplayPass_zsets (h : HoldoutSucceeds redis_client) :
    zsetsOf (evalReplayPass log2 k sessions ranker_cfg triples redis_client).2 =
      (reached (replayTriple k sessions ranker_cfg) 0 triples redis_client).foldl readdClicked
        (zsetsOf redis_client) := by
  cases triples with
  | nil => rfl
  | cons t ts =>
    exact forEach_zsets (replayTriple_spec k ranker_cfg sessions) (t :: ts) 0 h

theorem evalLlmPass_zsets (h : HoldoutSucceeds redis_client) :
    zsetsOf (evalLlmPass log2 k llm_sessions ranker_cfg llm_cfg triples redis_client).2 =
      (reached (llmTriple k llm_sessions ranker_cfg llm_cfg) 0 triples redis_client).foldl
        readdClicked (zsetsOf redis_client) := by
  cases triples with
  | nil => rfl
  | cons t ts =>
    exact forEach_zsets (llmTriple_spec k ranker_cfg llm_cfg llm_sessions) (t :: ts) 0 h

/-- Every history has its members, their scores and its expiry. -/
def LeavesHistories (before after : Option EvalRedis) : Prop :=
  ∀ user_id, zsetsOf after (recentKey user_id) = zsetsOf before (recentKey user_id)

/-- **When evaluation leaves user state untouched.** No triple that is ranked has as its clicked item
the only member of a history with an expiry. -/
theorem leaves_histories_iff (h : HoldoutSucceeds redis_client) :
    (LeavesHistories redis_client
        (evalReplayPass log2 k sessions ranker_cfg triples redis_client).2 ↔
      ∀ t ∈ reached (replayTriple k sessions ranker_cfg) 0 triples redis_client,
        ¬ LosesExpiry (zsetsOf redis_client) t) ∧
    (LeavesHistories redis_client
        (evalLlmPass log2 k llm_sessions ranker_cfg llm_cfg triples redis_client).2 ↔
      ∀ t ∈ reached (llmTriple k llm_sessions ranker_cfg llm_cfg) 0 triples redis_client,
        ¬ LosesExpiry (zsetsOf redis_client) t) := by
  unfold LeavesHistories
  rw [evalReplayPass_zsets log2 k ranker_cfg sessions triples h,
    evalLlmPass_zsets log2 k ranker_cfg llm_cfg llm_sessions triples h]
  exact ⟨foldl_readdClicked_iff _ _, foldl_readdClicked_iff _ _⟩

end Passes

/-- A session over an empty catalogue. -/
def emptyCatalogue : Session where
  env :=
    { numerics := ⟨id, id, fun _ => .ok 1⟩
      embedder := ⟨"all-MiniLM-L6-v2", fun bytes => bytes.data.toList, fun _ => .ok [], fun _ => [],
        fun _ => .ok []⟩
      now := 0
      isoformat := fun _ => "1970-01-01T00:00:00+00:00" }
  db := ⟨.empty, .empty, fun _ _ => .ok [], fun _ _ => .ok []⟩

def failingLlm : Llm.Client.LlmEnv where
  json := ⟨fun _ => .ok .null, fun _ => .ok .null, fun _ => ""⟩
  rerank_schema := ⟨fun _ => none⟩
  intent_schema := ⟨fun _ => none⟩
  verdict_schema := ⟨fun _ => none⟩
  sha256 _ := []
  lower := id
  runtime_model := "gemini-2.5-flash"
  judge_model := "gemini-2.5-pro"
  get_client := none

/-- One user, with one click. -/
def oneClick : EvalRedis where
  zsets key :=
    if key = recentKey "u1" then
      ⟨SortedSet.empty.zadd "i1" 5, some 86400, fun h => absurd h (by decide)⟩
    else .absent
  strings _ := none
  outcome _ := .ok
  holdout_outcome _ := .ok

theorem oneClick_succeeds : HoldoutSucceeds (some oneClick) := by
  intro redis hredis command
  rw [← Option.some.inj hredis]
  rfl

theorem reached_single {α σ : Type} (score : ℕ → Triple → σ → Except PyError α × σ) (i : ℕ)
    (t : Triple) (s : σ) : reached score i [t] s = [t] := by
  rw [reached]
  split
  · rfl
  · rfl

/-- The user has clicked another item before. -/
def twoClicks : EvalRedis :=
  { oneClick with
    zsets := fun key =>
      if key = recentKey "u1" then
        ⟨(SortedSet.empty.zadd "i2" 4).zadd "i1" 5, some 86400, fun h => absurd h (by decide)⟩
      else .absent }

theorem twoClicks_succeeds : HoldoutSucceeds (some twoClicks) := by
  intro redis hredis command
  rw [← Option.some.inj hredis]
  rfl

theorem not_losesExpiry_twoClicks :
    ¬ LosesExpiry (zsetsOf (some twoClicks)) ⟨"u1", "shoes", "i1"⟩ := by
  rintro ⟨⟨-, hsole⟩, -⟩
  exact absurd hsole (by decide)

/-- The clicked item is held out, and the history is as before. -/
theorem leaves_histories_iff_twoClicks :
    (holdoutRemove (some twoClicks) "u1" "i1").2.map (fun redis =>
        (redis.zsets (recentKey "u1")).members.members) = some ["i2"] ∧
      LeavesHistories (some twoClicks) (evalReplayPass (fun _ => 1) 10 (fun _ => .ok emptyCatalogue)
        defaultRankerConfig [⟨"u1", "shoes", "i1"⟩] (some twoClicks)).2 ∧
      LeavesHistories (some twoClicks) (evalLlmPass (fun _ => 1) 10
        (fun _ => ⟨.ok emptyCatalogue, .ok emptyCatalogue, failingLlm⟩) defaultRankerConfig
        Llm.Client.defaultConfig [⟨"u1", "shoes", "i1"⟩] (some twoClicks)).2 := by
  obtain ⟨hreplay, hllm⟩ := leaves_histories_iff (fun _ => 1) 10 defaultRankerConfig
    Llm.Client.defaultConfig (fun _ => .ok emptyCatalogue)
    (fun _ => ⟨.ok emptyCatalogue, .ok emptyCatalogue, failingLlm⟩) [⟨"u1", "shoes", "i1"⟩]
    twoClicks_succeeds
  refine ⟨by decide, hreplay.mpr ?_, hllm.mpr ?_⟩
  · rw [reached_single]
    exact List.forall_mem_singleton.mpr not_losesExpiry_twoClicks
  · rw [reached_single]
    exact List.forall_mem_singleton.mpr not_losesExpiry_twoClicks

/-- The history with the clicked item alone comes back without its expiry. -/
theorem single_click_loses_expiry :
    ¬ ∀ (log2 : ℕ → ℚ) (k : ℤ) (cfg : RankerConfig ℚ) (sessions : ℕ → Except PyError Session)
      (triples : List Triple) (redis_client : Option EvalRedis), HoldoutSucceeds redis_client →
      LeavesHistories redis_client
        (evalReplayPass log2 k sessions cfg triples redis_client).2 := by
  intro h
  have hleaves := h (fun _ => 1) 10 defaultRankerConfig (fun _ => .ok emptyCatalogue)
    [⟨"u1", "shoes", "i1"⟩] (some oneClick) oneClick_succeeds "u1"
  rw [evalReplayPass_zsets _ _ _ _ _ oneClick_succeeds, reached_single, List.foldl_cons,
    List.foldl_nil, readdClicked, Function.update_self] at hleaves
  have hexpire := congrArg StoredSet.expire_at hleaves
  rw [StoredSet.expire_at_readd_of_sole ⟨by decide, by decide⟩] at hexpire
  exact absurd hexpire (by decide)

end ClickRec.Eval
