import ClickRec.Ranker.ChannelMerge
import ClickRec.Ranker.ConfigLoader

/-! # `candidate_cap` and `personal_recent_clicks_n` as bounds

`ZREVRANGE` includes its stop, so the code subtracts one from the bound. From a bound of 0 that makes
-1, the last rank, and the whole set is read. The loader takes any number for `bm25_k` and `vector_k` as
well, and Postgres rejects the SELECTs of some. -/
namespace ClickRec.Ranker
set_option autoImplicit false
open Kafka (recentKey topKey)

variable {K : Type} [LinearOrder K]

/-! ## Reading a sorted set -/

/-- What a read of the top `n` returns, nothing where it raises. -/
def readTop (client : RedisClient K) (key : String) (n : ℤ) : List String :=
  (client.zrevrange key 0 (n - 1)).getD []

/-- There is nothing that a read could return. -/
def ReadsNothing (client : RedisClient K) (key : String) : Prop :=
  client.outcome (.zrevrange key) ≠ .ok ∨ (client.zsets key).descending = []

theorem readTop_of_failed {client : RedisClient K} {key : String}
    (h : client.outcome (.zrevrange key) ≠ .ok) (n : ℤ) : readTop client key n = [] := by
  unfold readTop RedisClient.zrevrange RedisClient.reply
  cases houtcome : client.outcome (.zrevrange key) with
  | ok => exact absurd houtcome h
  | error took => rfl

theorem readTop_of_ok {client : RedisClient K} {key : String}
    (h : client.outcome (.zrevrange key) = .ok) (n : ℤ) :
    readTop client key n = (client.zsets key).zrevrange 0 (n - 1) := by
  unfold readTop RedisClient.zrevrange RedisClient.reply
  rw [h]
  rfl

/-- A bound of 0 reads everything. -/
theorem readTop_zero {client : RedisClient K} {key : String}
    (h : client.outcome (.zrevrange key) = .ok) :
    readTop client key 0 = (client.zsets key).descending := by
  rw [readTop_of_ok h]
  exact SortedSet.zrevrange_all _

theorem readTop_of_pos {client : RedisClient K} {key : String}
    (h : client.outcome (.zrevrange key) = .ok) {n : ℤ} (hn : 1 ≤ n) :
    readTop client key n = (client.zsets key).descending.take n.toNat := by
  rw [readTop_of_ok h, SortedSet.zrevrange_of_pos _ hn]

theorem isPrefix_readTop (client : RedisClient K) (key : String) {n : ℤ} (hn : 0 ≤ n) :
    readTop client key n <+: (client.zsets key).descending := by
  by_cases h : client.outcome (.zrevrange key) = .ok
  · obtain rfl | hpos := hn.eq_or_lt
    · rw [readTop_zero h]
    · rw [readTop_of_pos h hpos]
      exact List.take_prefix _ _
  · rw [readTop_of_failed h]
    exact List.nil_prefix

theorem length_readTop_le (client : RedisClient K) (key : String) {n : ℤ} (hn : 0 < n) :
    (readTop client key n).length ≤ n.toNat := by
  by_cases h : client.outcome (.zrevrange key) = .ok
  · rw [readTop_of_pos h hn, List.length_take]
    exact min_le_left _ _
  · rw [readTop_of_failed h]
    exact Nat.zero_le _

theorem readTop_eq_nil (client : RedisClient K) (key : String) {n : ℤ} (hn : 0 ≤ n) :
    readTop client key n = [] ↔ ReadsNothing client key := by
  by_cases h : client.outcome (.zrevrange key) = .ok
  · rw [ReadsNothing, or_iff_right (not_not.mpr h)]
    obtain rfl | hpos := hn.eq_or_lt
    · rw [readTop_zero h]
    · rw [readTop_of_pos h hpos, List.take_eq_nil_iff]
      exact or_iff_right (by omega)
  · exact iff_of_true (readTop_of_failed h n) (.inl h)

/-! ## The tiers -/

/-- No id twice, and no more than the bound. -/
structure Bounded (cap : ℤ) (raw : List (RawCandidate K)) : Prop where
  distinct : (raw.map (·.item_id)).Nodup
  length_le : raw.length ≤ cap.toNat

omit [LinearOrder K] in
theorem map_item_id_unscored (ids : List String) :
    ((ids.map unscored : List (RawCandidate K)).map (·.item_id)) = ids := by
  rw [List.map_map]
  exact List.map_id ids

omit [LinearOrder K] in
theorem bounded_truncate {cands : List (RawCandidate K)} (h : (cands.map (·.item_id)).Nodup) {cap : ℤ}
    (hcap : 0 ≤ cap) : Bounded cap (truncate cands cap) := by
  rw [truncate_eq _ hcap]
  refine ⟨?_, ?_⟩
  · rw [List.map_take]
    exact h.sublist (List.take_sublist _ _)
  · rw [List.length_take]
    exact min_le_left _ _

theorem globalTopCandidates_eq (client : RedisClient K) (n : ℤ) :
    globalTopCandidates (some client) n = (readTop client (topKey "_global") n).map unscored := by
  cases hread : client.zrevrange (topKey "_global") 0 (n - 1) with
  | none => simp only [globalTopCandidates, readTop, hread, Option.getD_none, List.map_nil]
  | some members => simp only [globalTopCandidates, readTop, hread, Option.getD_some]

theorem bounded_globalTop (redis_client : Option (RedisClient K)) {cap : ℤ} (hcap : 0 < cap) :
    Bounded cap (globalTopCandidates redis_client cap) := by
  cases redis_client with
  | none => exact ⟨List.nodup_nil, Nat.zero_le _⟩
  | some client =>
    rw [globalTopCandidates_eq]
    refine ⟨?_, ?_⟩
    · rw [map_item_id_unscored]
      exact (SortedSet.nodup_descending _).sublist (isPrefix_readTop client _ hcap.le).sublist
    · rw [List.length_map]
      exact length_readTop_le client _ hcap

theorem distinct_categoryTop (redis_client : Option (RedisClient K)) (categories : List String)
    (k_per_cat : ℤ) :
    ((categoryTopCandidates redis_client categories k_per_cat).map (·.item_id)).Nodup := by
  cases redis_client with
  | none => exact List.nodup_nil
  | some client =>
    rw [categoryTopCandidates, map_item_id_unscored]
    exact PyList.nodup_keepFirst_id

theorem one_le_perCategory (cap : ℤ) (recent_categories : List String) :
    1 ≤ perCategory cap recent_categories := le_max_left _ _

/-- The second tier is empty when there is nothing to read in any of the categories. -/
theorem categoryTop_eq_nil (client : RedisClient K) (categories : List String) {k_per_cat : ℤ}
    (hk : 0 ≤ k_per_cat) : categoryTopCandidates (some client) categories k_per_cat = [] ↔
      ∀ cat ∈ categories, ReadsNothing client (topKey cat) := by
  have hempty : PyList.keepFirst id (categoryMembers client categories k_per_cat) = [] ↔
      categoryMembers client categories k_per_cat = [] := by
    simp only [List.eq_nil_iff_forall_not_mem, PyList.mem_keepFirst_id]
  rw [categoryTopCandidates, List.map_eq_nil_iff, hempty, categoryMembers, List.flatMap_eq_nil_iff]
  exact forall₂_congr fun cat _ => readTop_eq_nil client (topKey cat) hk

/-- Without categories the second tier is empty as well. -/
theorem topCandidates_eq (cfg : RankerConfig K) (redis_client : Option (RedisClient K))
    (recent_categories : List String) : topCandidates cfg redis_client recent_categories =
      let cands := categoryTopCandidates redis_client recent_categories
        (perCategory cfg.candidate_cap recent_categories)
      if cands.isEmpty then globalTopCandidates redis_client cfg.candidate_cap
      else truncate cands cfg.candidate_cap := by
  unfold topCandidates
  cases recent_categories with
  | nil =>
    have hnone : ∀ k, categoryTopCandidates redis_client [] k = [] := by
      cases redis_client with
      | none => exact fun _ => rfl
      | some client => exact fun _ => rfl
    rw [hnone]
    rfl
  | cons cat cats => rfl

theorem topCandidates_of_empty {cfg : RankerConfig K} {client : RedisClient K}
    {recent_categories : List String}
    (h : ∀ cat ∈ recent_categories, ReadsNothing client (topKey cat)) :
    topCandidates cfg (some client) recent_categories =
      globalTopCandidates (some client) cfg.candidate_cap := by
  have hcat := (categoryTop_eq_nil client recent_categories
    (zero_le_one.trans (one_le_perCategory cfg.candidate_cap recent_categories))).mpr h
  rw [topCandidates_eq, hcat]
  rfl

theorem bounded_topCandidates {cfg : RankerConfig K} (hcap : 0 ≤ cfg.candidate_cap)
    (redis_client : Option (RedisClient K)) (recent_categories : List String)
    (h : cfg.candidate_cap = 0 → ∀ client, redis_client = some client →
      (∀ cat ∈ recent_categories, ReadsNothing client (topKey cat)) →
      ReadsNothing client (topKey "_global")) :
    Bounded cfg.candidate_cap (topCandidates cfg redis_client recent_categories) := by
  rw [topCandidates_eq]
  simp only
  split
  · rename_i hempty
    obtain hzero | hpos := hcap.eq_or_lt
    · cases redis_client with
      | none => exact ⟨List.nodup_nil, Nat.zero_le _⟩
      | some client =>
        -- no category has members, so the global set has none to return either
        have hcats := (categoryTop_eq_nil client recent_categories
          (zero_le_one.trans (one_le_perCategory _ _))).mp (List.isEmpty_iff.mp hempty)
        have hread := (readTop_eq_nil client (topKey "_global") hcap).mpr (h hzero.symm client rfl hcats)
        rw [globalTopCandidates_eq, hread]
        exact ⟨List.nodup_nil, Nat.zero_le _⟩
    · exact bounded_globalTop redis_client hpos
  · exact bounded_truncate (distinct_categoryTop redis_client _ _) hcap

/-! ## Both modes -/

variable (round6 : K → K)

/-- An id is a primary key, so a SELECT on `item` returns none twice. -/
structure DistinctHits (db : Postgres K) : Prop where
  bm25 : ∀ q k rows, db.bm25 q k = .ok rows → (rows.map Prod.fst).Nodup
  vector : ∀ v k rows, db.vector v k = .ok rows → (rows.map Prod.fst).Nodup

/-- A `bigint` that is not negative. -/
def ValidLimit (k : ℤ) : Prop := 0 ≤ k ∧ k < 2 ^ 63

instance (k : ℤ) : Decidable (ValidLimit k) := inferInstanceAs (Decidable (0 ≤ k ∧ k < 2 ^ 63))

/-- Postgres answers the SELECTs of the request but for those with another LIMIT. -/
structure ChecksLimits (db : Postgres K) (query : Option String)
    (qvec profile_vec : Option (List K)) : Prop where
  bm25 : ∀ q ∈ query, ∀ k, (∃ rows, db.bm25 q k = .ok rows) ↔ ValidLimit k
  vector : ∀ v, v ∈ qvec ∨ v ∈ profile_vec → ∀ k,
    (∃ rows, db.vector (formatVector round6 v) k = .ok rows) ↔ ValidLimit k

/-- The request sends a SELECT that is rejected. -/
def LimitRejected (cfg : RankerConfig K) (query : Option String)
    (qvec profile_vec : Option (List K)) : Prop :=
  match query with
  | some _ => ¬ ValidLimit cfg.bm25_k ∨ qvec.isSome = true ∧ ¬ ValidLimit cfg.vector_k
  | none => profile_vec.isSome = true ∧ ¬ ValidLimit cfg.vector_k

/-- The bound is 0 and the request ends at the global set, which has members to return. -/
def WholeGlobalSet (db : Postgres K) (cfg : RankerConfig K) (query : Option String)
    (profile_vec : Option (List K)) (recent_categories : List String)
    (redis_client : Option (RedisClient K)) : Prop :=
  cfg.candidate_cap = 0 ∧ query = none ∧
    (∀ v ∈ profile_vec, db.vector (formatVector round6 v) cfg.vector_k = .ok []) ∧
    ∃ client, redis_client = some client ∧
      (∀ cat ∈ recent_categories, ReadsNothing client (topKey cat)) ∧
      ¬ ReadsNothing client (topKey "_global")

/-- The bound is 0 and the user has a history to return. -/
def WholeHistory (cfg : RankerConfig K) (user_id : Option String)
    (redis_client : Option (RedisClient K)) : Prop :=
  cfg.personal_recent_clicks_n = 0 ∧ ∃ user client, user_id = some user ∧
    redis_client = some client ∧ ¬ ReadsNothing client (recentKey user)

omit [LinearOrder K] in
theorem distinct_vectorChannel {db : Postgres K} (hdb : DistinctHits db) {cfg : RankerConfig K}
    {vec : Option (List K)} {rows : List (String × K)}
    (h : vectorChannel round6 db cfg vec = .ok rows) : (rows.map Prod.fst).Nodup := by
  cases vec with
  | none =>
    obtain rfl := Except.ok.inj h
    exact List.nodup_nil
  | some v => exact hdb.vector _ _ _ h

omit [LinearOrder K] in
/-- The vector channel has no hits when it is not asked, or when it is asked and finds nothing. -/
theorem vectorChannel_eq_nil {db : Postgres K} {cfg : RankerConfig K} {vec : Option (List K)} :
    vectorChannel round6 db cfg vec = .ok [] ↔
      ∀ v ∈ vec, db.vector (formatVector round6 v) cfg.vector_k = .ok [] := by
  cases vec with
  | none => exact iff_of_true rfl fun _ h => nomatch h
  | some v => exact ⟨fun h w hw => Option.some.inj hw ▸ h, fun h => h v rfl⟩

theorem recommendedCandidates_eq (db : Postgres K) (cfg : RankerConfig K)
    (redis_client : Option (RedisClient K)) (profile_vec : Option (List K))
    (recent_categories : List String) :
    recommendedCandidates round6 db cfg redis_client profile_vec recent_categories = do
      let vector_rows ← vectorChannel round6 db cfg profile_vec
      if vector_rows.isEmpty then return topCandidates cfg redis_client recent_categories
      else return truncate (vector_rows.map fun hit => ⟨hit.1, none, some hit.2⟩) cfg.candidate_cap := by
  cases profile_vec with
  | none => rfl
  | some v => rfl

theorem recommendedCandidates_of_no_hits {db : Postgres K} {cfg : RankerConfig K}
    {redis_client : Option (RedisClient K)} {profile_vec : Option (List K)}
    {recent_categories : List String}
    (h : ∀ v ∈ profile_vec, db.vector (formatVector round6 v) cfg.vector_k = .ok []) :
    recommendedCandidates round6 db cfg redis_client profile_vec recent_categories =
      .ok (topCandidates cfg redis_client recent_categories) := by
  rw [recommendedCandidates_eq, (vectorChannel_eq_nil round6).mpr h]
  rfl

theorem bounded_generateCandidates {db : Postgres K} (hdb : DistinctHits db) {cfg : RankerConfig K}
    (hcap : 0 ≤ cfg.candidate_cap) {query : Option String} {qvec profile_vec : Option (List K)}
    {recent_categories : List String} {redis_client : Option (RedisClient K)}
    (hnot : ¬ WholeGlobalSet round6 db cfg query profile_vec recent_categories redis_client)
    {raw : List (RawCandidate K)} (h : generateCandidates round6 db cfg query qvec profile_vec
      recent_categories redis_client = .ok raw) : Bounded cfg.candidate_cap raw := by
  cases query with
  | some query =>
    rw [generateCandidates, queryCandidates_eq] at h
    cases hbm25 : db.bm25 query cfg.bm25_k with
    | error e =>
      rw [hbm25] at h
      cases h
    | ok bm25_rows =>
      cases hvector : vectorChannel round6 db cfg qvec with
      | error e =>
        rw [hbm25, hvector] at h
        cases h
      | ok vector_rows =>
        rw [hbm25, hvector] at h
        obtain rfl := Except.ok.inj h
        have hdistinct := distinct_vectorChannel round6 hdb hvector
        refine bounded_truncate ?_ hcap
        rw [mergeChannels_eq (hdb.bm25 _ _ _ hbm25) hdistinct, List.map_map]
        exact (List.map_id _).symm ▸ nodup_mergedIds (hdb.bm25 _ _ _ hbm25) hdistinct
  | none =>
    rw [generateCandidates, recommendedCandidates_eq] at h
    cases hvector : vectorChannel round6 db cfg profile_vec with
    | error e =>
      rw [hvector] at h
      cases h
    | ok rows =>
      rw [hvector] at h
      cases rows with
      | nil =>
        obtain rfl := Except.ok.inj h
        refine bounded_topCandidates hcap redis_client recent_categories ?_
        intro hzero client hclient hcats
        by_contra hglobal
        exact hnot ⟨hzero, rfl, (vectorChannel_eq_nil round6).mp hvector, client, hclient, hcats,
          hglobal⟩
      | cons hit rows =>
        obtain rfl := Except.ok.inj h
        refine bounded_truncate ?_ hcap
        rw [List.map_map]
        exact distinct_vectorChannel round6 hdb hvector

omit [LinearOrder K] in
theorem vectorChannel_returns_iff {db : Postgres K} {cfg : RankerConfig K} {vec : Option (List K)}
    (h : ∀ v ∈ vec, (∃ rows, db.vector (formatVector round6 v) cfg.vector_k = .ok rows) ↔
      ValidLimit cfg.vector_k) :
    (∃ rows, vectorChannel round6 db cfg vec = .ok rows) ↔
      ¬ (vec.isSome = true ∧ ¬ ValidLimit cfg.vector_k) := by
  cases vec with
  | none => exact iff_of_true ⟨[], rfl⟩ fun hsome => nomatch hsome.1
  | some v =>
    rw [Option.isSome_some, and_iff_right rfl, not_not]
    exact h v rfl

theorem not_returns {α : Type} {e : PyError} : ¬ ∃ a : α, (.error e : Except PyError α) = .ok a := by
  rintro ⟨a, h⟩
  cases h

/-- The SELECTs decide whether there is a list. -/
theorem generateCandidates_returns_iff {db : Postgres K} {cfg : RankerConfig K}
    {query : Option String} {qvec profile_vec : Option (List K)}
    (hlimits : ChecksLimits round6 db query qvec profile_vec) (recent_categories : List String)
    (redis_client : Option (RedisClient K)) :
    (∃ raw, generateCandidates round6 db cfg query qvec profile_vec recent_categories redis_client =
      .ok raw) ↔ ¬ LimitRejected cfg query qvec profile_vec := by
  cases query with
  | some query =>
    have hvector := vectorChannel_returns_iff round6 fun v hv =>
      hlimits.vector v (.inl hv) cfg.vector_k
    rw [LimitRejected, not_or, not_not, ← hvector, ← hlimits.bm25 query rfl, generateCandidates,
      queryCandidates_eq]
    cases db.bm25 query cfg.bm25_k with
    | error e => exact iff_of_false not_returns fun h => not_returns h.1
    | ok bm25_rows =>
      cases vectorChannel round6 db cfg qvec with
      | error e => exact iff_of_false not_returns fun h => not_returns h.2
      | ok vector_rows => exact iff_of_true ⟨_, rfl⟩ ⟨⟨_, rfl⟩, _, rfl⟩
  | none =>
    have hvector := vectorChannel_returns_iff round6 fun v hv =>
      hlimits.vector v (.inr hv) cfg.vector_k
    rw [LimitRejected, ← hvector, generateCandidates, recommendedCandidates_eq]
    cases vectorChannel round6 db cfg profile_vec with
    | error e => exact iff_of_false not_returns not_returns
    | ok rows =>
      refine iff_of_true ?_ ⟨_, rfl⟩
      cases rows with
      | nil => exact ⟨_, rfl⟩
      | cons hit rows => exact ⟨_, rfl⟩

/-! ## The history -/

variable [Field K]

/-- The items of the user's history, the most recent first. -/
def historyOf (redis_client : Option (RedisClient K)) (user_id : Option String) : List String :=
  match user_id, redis_client with
  | some user_id, some client => (client.zsets (recentKey user_id)).descending
  | _, _ => []

/-- The context is made of at most `n` items of the history, the most recent ones. -/
def UsesMostRecent (db : Postgres K) (n : ℤ) (history : List String) (ctx : UserContext K) : Prop :=
  ∃ ids, ids <+: history ∧ ids.length ≤ n.toNat ∧
    ctx = contextOf ids (db.item.rows.filter (·.id ∈ ids))

theorem loadUserContext_eq (db : Postgres K) (client : RedisClient K) (user_id : String)
    (cfg : RankerConfig K) :
    loadUserContext db (some client) (some user_id) cfg =
      contextOf (readTop client (recentKey user_id) cfg.personal_recent_clicks_n)
        (db.item.rows.filter
          (·.id ∈ readTop client (recentKey user_id) cfg.personal_recent_clicks_n)) := by
  have hcold : (cold : UserContext K) = contextOf [] (db.item.rows.filter (·.id ∈ [])) := by
    simp [contextOf, cold]
  cases hread : client.zrevrange (recentKey user_id) 0 (cfg.personal_recent_clicks_n - 1) with
  | none => simp only [loadUserContext, readTop, hread, Option.getD_none, hcold]
  | some recent_ids =>
    simp only [loadUserContext, readTop, hread, Option.getD_some]
    cases recent_ids with
    | nil => exact hcold
    | cons id ids => rfl

omit [LinearOrder K] in
theorem contextOf_recent (ids : List String) (rows : List (ItemRow K)) :
    (contextOf ids rows).recent_item_ids = ids := by
  unfold contextOf
  split
  · rfl
  · rfl

theorem usesMostRecent_iff (db : Postgres K) {cfg : RankerConfig K}
    (hn : 0 ≤ cfg.personal_recent_clicks_n) (user_id : Option String)
    (redis_client : Option (RedisClient K)) :
    UsesMostRecent db cfg.personal_recent_clicks_n (historyOf redis_client user_id)
      (loadUserContext db redis_client user_id cfg) ↔ ¬ WholeHistory cfg user_id redis_client := by
  have hcold : UsesMostRecent db cfg.personal_recent_clicks_n [] (cold : UserContext K) :=
    ⟨[], List.nil_prefix, Nat.zero_le _, by simp [contextOf, cold]⟩
  cases user_id with
  | none =>
    refine iff_of_true ?_ fun ⟨_, _, _, h, _⟩ => by cases h
    exact hcold
  | some user_id =>
    cases redis_client with
    | none =>
      refine iff_of_true ?_ fun ⟨_, _, _, _, h, _⟩ => by cases h
      exact hcold
    | some client =>
      rw [loadUserContext_eq]
      constructor
      · rintro ⟨ids, -, hlength, hctx⟩ ⟨hzero, user, client', huser, hclient, hread⟩
        obtain rfl := Option.some.inj huser
        obtain rfl := Option.some.inj hclient
        rw [hzero] at hlength hctx
        obtain rfl : ids = [] := List.length_eq_zero_iff.mp (Nat.le_zero.mp hlength)
        -- the ids in the context are those that were read
        have hids : readTop client (recentKey user_id) 0 = [] := by
          have hrecent := congrArg UserContext.recent_item_ids hctx
          rwa [contextOf_recent, contextOf_recent] at hrecent
        exact hread ((readTop_eq_nil client (recentKey user_id) le_rfl).mp hids)
      · intro hnot
        refine ⟨_, isPrefix_readTop client _ hn, ?_, rfl⟩
        obtain hzero | hpos := hn.eq_or_lt
        · have hnothing : ReadsNothing client (recentKey user_id) := by
            by_contra h
            exact hnot ⟨hzero.symm, user_id, client, rfl, rfl, h⟩
          rw [(readTop_eq_nil client _ hn).mpr hnothing]
          exact Nat.zero_le _
        · exact length_readTop_le client _ hpos

/-! ## The bounds -/

/-- There is a list of candidates, and both settings bound what the request works with. -/
structure WithinKnobs (db : Postgres K) (cfg : RankerConfig K) (query : Option String)
    (qvec profile_vec : Option (List K)) (recent_categories : List String)
    (redis_client : Option (RedisClient K)) (user_id : Option String) : Prop where
  candidates : ∃ raw, generateCandidates round6 db cfg query qvec profile_vec recent_categories
    redis_client = .ok raw ∧ Bounded cfg.candidate_cap raw
  context : UsesMostRecent db cfg.personal_recent_clicks_n (historyOf redis_client user_id)
    (loadUserContext db redis_client user_id cfg)

/-- **The bounds hold** except where a LIMIT is rejected, or one of them is 0 and a whole set is read
instead. -/
theorem within_knobs_iff (db : Postgres K) (hdb : DistinctHits db) (cfg : RankerConfig K)
    (hcap : 0 ≤ cfg.candidate_cap) (hn : 0 ≤ cfg.personal_recent_clicks_n) (query : Option String)
    (qvec profile_vec : Option (List K)) (hlimits : ChecksLimits round6 db query qvec profile_vec)
    (recent_categories : List String) (redis_client : Option (RedisClient K))
    (user_id : Option String) :
    WithinKnobs round6 db cfg query qvec profile_vec recent_categories redis_client user_id ↔
      ¬ LimitRejected cfg query qvec profile_vec ∧
      ¬ WholeGlobalSet round6 db cfg query profile_vec recent_categories redis_client ∧
      ¬ WholeHistory cfg user_id redis_client := by
  rw [← usesMostRecent_iff db hn,
    ← generateCandidates_returns_iff round6 hlimits recent_categories redis_client]
  constructor
  · rintro ⟨⟨raw, hraw, hbounded⟩, hcontext⟩
    refine ⟨⟨raw, hraw⟩, ?_, hcontext⟩
    rintro ⟨hzero, rfl, hnone, client, rfl, hcats, hglobal⟩
    have hwhole : generateCandidates round6 db cfg none qvec profile_vec recent_categories
        (some client) = .ok ((readTop client (topKey "_global") 0).map unscored) := by
      rw [generateCandidates, recommendedCandidates_of_no_hits round6 hnone,
        topCandidates_of_empty hcats, globalTopCandidates_eq, hzero]
    obtain rfl := Except.ok.inj (hraw.symm.trans hwhole)
    have hlength := hbounded.length_le
    rw [hzero, List.length_map] at hlength
    refine hglobal ((readTop_eq_nil client (topKey "_global") le_rfl).mp ?_)
    exact List.length_eq_zero_iff.mp (Nat.le_zero.mp hlength)
  · rintro ⟨⟨raw, hraw⟩, hnot, hcontext⟩
    exact ⟨⟨raw, hraw, bounded_generateCandidates round6 hdb hcap hnot hraw⟩, hcontext⟩

/-! ## Bounds of 0 -/

/-- A global set and a history of one item each, in a healthy Redis. -/
def oneItemClient : RedisClient ℚ where
  zsets _ := SortedSet.empty.zadd "i1" 1
  strings _ := none
  outcome _ := .ok

/-- Postgres with nothing in it. -/
def noRows (k : ℤ) : Except PyError (List (String × ℚ)) :=
  if ValidLimit k then .ok [] else .error ⟨"DBAPIError", "LIMIT must not be negative", ""⟩

def emptyPostgres : Postgres ℚ where
  item := .empty
  co_click := .empty
  bm25 _ := noRows
  vector _ := noRows

theorem noRows_eq_ok {k : ℤ} {rows : List (String × ℚ)} (h : noRows k = .ok rows) : rows = [] := by
  unfold noRows at h
  split at h
  · exact (Except.ok.inj h).symm
  · cases h

theorem noRows_returns_iff (k : ℤ) : (∃ rows, noRows k = .ok rows) ↔ ValidLimit k := by
  unfold noRows
  split
  · rename_i hvalid
    exact iff_of_true ⟨_, rfl⟩ hvalid
  · rename_i hinvalid
    exact iff_of_false not_returns hinvalid

theorem distinctHits_empty : DistinctHits emptyPostgres where
  bm25 _ k rows h := by
    rw [noRows_eq_ok h]
    exact List.nodup_nil
  vector _ k rows h := by
    rw [noRows_eq_ok h]
    exact List.nodup_nil

theorem checksLimits_empty (query : Option String) (qvec profile_vec : Option (List ℚ)) :
    ChecksLimits id emptyPostgres query qvec profile_vec where
  bm25 _ _ := noRows_returns_iff
  vector _ _ := noRows_returns_iff

theorem within_knobs_default :
    WithinKnobs id emptyPostgres defaultRankerConfig none none none [] (some oneItemClient)
      (some "u1") := by
  refine (within_knobs_iff id emptyPostgres distinctHits_empty defaultRankerConfig (by decide)
    (by decide) none none none (checksLimits_empty none none none) [] (some oneItemClient)
    (some "u1")).mpr ⟨?_, ?_, ?_⟩
  · exact fun h => nomatch h.1
  · exact fun h => absurd h.1 (by decide)
  · exact fun h => absurd h.1 (by decide)

/-- The loader accepts a cap of 0, and the whole global set comes back. -/
theorem cap_of_zero_is_no_bound :
    ¬ ∀ (numerals : Numerals) (file : Option (Except PyError Yaml)) (cfg : RankerConfig ℚ),
      loadRankerConfig numerals file = cfg.map .fin → 0 ≤ cfg.candidate_cap →
      0 ≤ cfg.personal_recent_clicks_n →
      WithinKnobs id emptyPostgres cfg none none none [] (some oneItemClient) (some "u1") := by
  intro h
  have hwithin := h ⟨fun _ => .ok 0, fun _ => .ok .nan⟩ _
    { defaultRankerConfig with candidate_cap := 0 } (loadRankerConfig_documentOf _ _) le_rfl (by decide)
  have hraw : generateCandidates id emptyPostgres { defaultRankerConfig with candidate_cap := 0 } none
      none none [] (some oneItemClient) = .ok [unscored "i1"] := rfl
  obtain ⟨raw, heq, hbounded⟩ := hwithin.candidates
  obtain rfl := Except.ok.inj (heq.symm.trans hraw)
  exact absurd hbounded.length_le (by decide)

end ClickRec.Ranker
