import ClickRec.Json
import ClickRec.Kafka.RecentClicks
import ClickRec.Lib.ScoreMap

/-! # The popularity refresher: one `items:top:*` sorted set

`_refresh_one_category` trims a set, decays what is left and drops what has come down to the floor;
`increment_popularity` adds one. Scores are in an ordered field; the expiry of keys is left to the
environment, so a key that is absent is an empty set. -/
namespace ClickRec.Cache
open Kafka
set_option autoImplicit false

structure RefreshSettings where
  cache_refresh_interval_seconds : ℤ
  cache_refresh_half_life_seconds : ℤ
  cache_top_max_members : ℤ

/-- The values of `config.py`. -/
def defaultRefreshSettings : RefreshSettings where
  cache_refresh_interval_seconds := 60
  cache_refresh_half_life_seconds := 3600
  cache_top_max_members := 200

variable {K : Type*} [Field K] [LinearOrder K]

/-! ## `_refresh_one_category` -/

def zeroDivisionError : PyError := ⟨"ZeroDivisionError", "division by zero", ""⟩

/-- `exp` is `math.exp`. -/
def decayFactor (exp : K → K) (settings : RefreshSettings) : Except PyError K :=
  if settings.cache_refresh_half_life_seconds = 0 then .error zeroDivisionError
  else .ok (exp (-(settings.cache_refresh_interval_seconds : K) /
    (settings.cache_refresh_half_life_seconds : K)))

/-- `ZREMRANGEBYRANK key 0 trim_stop`. -/
def trim (settings : RefreshSettings) (s : SortedSet K String) : SortedSet K String :=
  s.zremrangebyrank 0 (-(settings.cache_top_max_members + 1))

/-- The new score, unless it is effectively zero. -/
def newScore (decay score : K) : Option K :=
  if 1 / 1000000 < score * decay then some (score * decay) else none

def decayedScores (decay : K) (members : List (String × K)) : List (String × K) :=
  members.filterMap fun m => (newScore decay m.2).map fun new_score => (m.1, new_score)

/-- The commands after the trim. -/
def decayAll (decay : K) (s : SortedSet K String) : SortedSet K String :=
  let members := s.withScores
  let decayed := decayedScores decay members
  let to_remove := (members.map Prod.fst).filter fun m => !(decayed.map Prod.fst).contains m
  to_remove.foldl SortedSet.zrem (decayed.foldl (fun s e => s.zadd e.1 e.2) s)

def refreshOneCategory (exp : K → K) (settings : RefreshSettings) (s : SortedSet K String) :
    Except PyError (SortedSet K String) :=
  (decayFactor exp settings).map fun decay => decayAll decay (trim settings s)

/-! ## `increment_popularity` on one key -/

/-- How many of its two `ZINCRBY` are on the key. -/
def increments (key category : String) : ℕ :=
  (if topKey category = key then 1 else 0) + if topKey "_global" = key then 1 else 0

def clickOnKey (key category item_id : String) (s : SortedSet K String) : SortedSet K String :=
  (fun s => s.zincrby item_id 1)^[increments key category] s

/-- These are the commands of `increment_popularity` on that key. -/
theorem clickOnKey_eq (settings : Settings) (key category item_id : String)
    (s : SortedSet ℚ String) :
    (incrementPopularity settings category item_id).foldl (fun s op => op.onKey key s) s =
      clickOnKey key category item_id s := by
  by_cases hc : topKey category = key
  · by_cases hg : topKey "_global" = key
    · simp [incrementPopularity, Op.onKey, clickOnKey, increments, hc, hg]
    · simp [incrementPopularity, Op.onKey, clickOnKey, increments, hc, hg]
  · by_cases hg : topKey "_global" = key
    · simp [incrementPopularity, Op.onKey, clickOnKey, increments, hc, hg]
    · simp [incrementPopularity, Op.onKey, clickOnKey, increments, hc, hg]

/-! ## What a refresh does to the scores -/

theorem newScore_eq_some {decay score y : K} :
    newScore decay score = some y ↔ 1 / 1000000 < y ∧ y = score * decay := by
  unfold newScore
  split
  · rename_i h
    rw [Option.some.injEq]
    constructor
    · rintro rfl
      exact ⟨h, rfl⟩
    · exact fun hy => hy.2.symm
  · rename_i h
    refine iff_of_false (by simp) fun hy => h ?_
    rw [← hy.2]
    exact hy.1

theorem mem_decayedScores {decay : K} {members : List (String × K)} {m : String} {y : K} :
    (m, y) ∈ decayedScores decay members ↔ ∃ x, (m, x) ∈ members ∧ newScore decay x = some y := by
  rw [decayedScores, List.mem_filterMap]
  constructor
  · rintro ⟨⟨n, x⟩, hmem, hy⟩
    obtain ⟨z, hz, heq⟩ := Option.map_eq_some_iff.mp hy
    obtain ⟨rfl, rfl⟩ := Prod.mk.inj heq
    exact ⟨x, hmem, hz⟩
  · rintro ⟨x, hmem, hy⟩
    exact ⟨(m, x), hmem, Option.map_eq_some_iff.mpr ⟨y, hy, rfl⟩⟩

theorem map_fst_decayedScores_sublist (decay : K) (members : List (String × K)) :
    ((decayedScores decay members).map Prod.fst).Sublist (members.map Prod.fst) := by
  induction members with
  | nil => exact .slnil
  | cons m members ih =>
    rw [decayedScores, List.filterMap_cons]
    cases hm : newScore decay m.2 with
    | none => exact ih.cons _
    | some y => exact ih.cons_cons _

/-- The decayed members are those above the floor. -/
theorem mem_map_fst_decayedScores {decay : K} {s : SortedSet K String} {m : String} :
    m ∈ (decayedScores decay s.withScores).map Prod.fst ↔
      ((s.zscore m).bind (newScore decay)).isSome = true := by
  rw [List.mem_map, Option.isSome_iff_exists]
  constructor
  · rintro ⟨⟨n, y⟩, hmem, rfl⟩
    obtain ⟨x, hx, hy⟩ := mem_decayedScores.mp hmem
    exact ⟨y, Option.bind_eq_some_iff.mpr ⟨x, SortedSet.mem_withScores.mp hx, hy⟩⟩
  · rintro ⟨y, h⟩
    obtain ⟨x, hx, hy⟩ := Option.bind_eq_some_iff.mp h
    exact ⟨(m, y), mem_decayedScores.mpr ⟨x, SortedSet.mem_withScores.mpr hx, hy⟩, rfl⟩

variable [IsStrictOrderedRing K]

theorem newScore_keepsOrder {decay : K} (h : 0 < decay) : SortedSet.KeepsOrder (newScore decay) := by
  intro x y x' y' hx hy hxy
  rw [(newScore_eq_some.mp hx).2, (newScore_eq_some.mp hy).2]
  exact mul_lt_mul_of_pos_right hxy h

/-- The commands after the trim map every score. -/
theorem decayAll_eq {decay : K} (h : 0 < decay) (s : SortedSet K String) :
    decayAll decay s = SortedSet.mapScores (newScore decay) (newScore_keepsOrder h) s := by
  refine SortedSet.ext_zscore fun m => ?_
  have hnodup : ((decayedScores decay s.withScores).map Prod.fst).Nodup := by
    refine List.Nodup.sublist (map_fst_decayedScores_sublist decay s.withScores) ?_
    rw [SortedSet.map_fst_withScores]
    exact s.distinct
  have hdecayed := @mem_map_fst_decayedScores K _ _ decay s m
  rw [decayAll, SortedSet.zscore_foldl_zrem, SortedSet.zscore_mapScores]
  cases hy : (s.zscore m).bind (newScore decay) with
  | some y =>
    -- written back, and not removed
    obtain ⟨x, hx, hxy⟩ := Option.bind_eq_some_iff.mp hy
    have hmem := mem_decayedScores.mpr ⟨x, SortedSet.mem_withScores.mpr hx, hxy⟩
    rw [SortedSet.zscore_foldl_zadd hnodup s hmem, if_neg]
    simp [hdecayed, hy]
  | none =>
    have hnot : m ∉ (decayedScores decay s.withScores).map Prod.fst := by simp [hdecayed, hy]
    rw [SortedSet.zscore_foldl_zadd_of_not_mem hnot]
    by_cases hm : m ∈ s.members
    · rw [if_pos]
      rw [SortedSet.map_fst_withScores, List.mem_filter]
      exact ⟨hm, by simpa using hnot⟩
    · have hnone : s.zscore m = none := by
        by_contra hne
        obtain ⟨x, hx⟩ := Option.ne_none_iff_exists'.mp hne
        exact hm (SortedSet.mem_members.mpr ⟨x, hx⟩)
      rw [hnone, ite_self]

end ClickRec.Cache
