import ClickRec.Cache.PopularityRefresher
import ClickRec.Ranker.ConfigLoader
import ClickRec.Ranker.Features

/-! # The decays in floats

`recency_scores`, `price_fit_scores` and the decay factor of the refresher over the values a
configuration can have, nan and the infinities among them. Of the three divisors only the price scale is
guarded, and only against 0. -/
namespace ClickRec.Ranker.Floats
set_option autoImplicit false
open PyFloat
open Cache (RefreshSettings)

/-! ## The code -/

def recencyScores (exp : ℚ → Except PyError ℚ) (now : ℚ) (cands : List (RankingCandidate (PyFloat ℚ)))
    (cfg : LoadedConfig) : Except PyError (List (PyFloat ℚ)) :=
  cands.mapM fun c => decayed zeroDivision exp (fin (ageDays now c.created_at)) cfg.recency_half_life_days

/-- `x or 1.0`. -/
def orOne : PyFloat ℚ → PyFloat ℚ
  | fin x => if x = 0 then fin 1 else fin x
  | x => x

def priceFitScores (exp : ℚ → Except PyError ℚ) (cands : List (RankingCandidate (PyFloat ℚ)))
    (user_avg_price : Option (PyFloat ℚ)) (cfg : LoadedConfig) : Except PyError (List (PyFloat ℚ)) :=
  match user_avg_price with
  | none => pure (List.replicate cands.length (fin 0))
  | some avg => cands.mapM fun c =>
    decayed zeroDivision exp (c.price.sub avg).abs (orOne cfg.price_fit_scale)

def quotientTooLarge : PyError :=
  ⟨"OverflowError", "integer division result too large for a float", ""⟩

/-- The quotient of the two integers may be too large for a float, of either sign. -/
def decayFactor (exp : ℚ → Except PyError ℚ) (settings : RefreshSettings) : Except PyError ℚ :=
  if settings.cache_refresh_half_life_seconds = 0 then .error Cache.zeroDivisionError
  else
    let q := -(settings.cache_refresh_interval_seconds : ℚ) / settings.cache_refresh_half_life_seconds
    if limit ≤ |q| then .error quotientTooLarge else exp q

/-! ## On finite values -/

def mapFloats {K L : Type} (f : K → L) (c : RankingCandidate K) : RankingCandidate L where
  item_id := c.item_id
  title := c.title
  description := c.description
  category := c.category
  brand := c.brand
  price := f c.price
  created_at := c.created_at
  popularity_score := f c.popularity_score
  embedding := c.embedding.map (List.map f)
  bm25_raw := c.bm25_raw.map f
  vector_raw := c.vector_raw.map f
  personal_raw := c.personal_raw.map f

theorem decayed_fin (exp : ℚ → Except PyError ℚ) {x y : ℚ} (h : |-x / y| < limit) :
    decayed zeroDivision exp (fin x) (fin y) =
      (if y = 0 then throw zeroDivision else exp (-x / y)).map fin := by
  by_cases hy : y = 0
  · rw [decayed, div, if_pos hy, if_pos hy]
    rfl
  · rw [abs_lt] at h
    have hfin : ofExact (-x / y) = fin (-x / y) := by
      rw [ofExact, if_neg h.2.not_ge, if_neg h.1.not_ge]
    rw [decayed, div, if_neg hy, if_neg hy, neg, divFin, hfin]
    rfl

theorem mapM_map_fin {f : RankingCandidate ℚ → Except PyError ℚ}
    {g : RankingCandidate (PyFloat ℚ) → Except PyError (PyFloat ℚ)}
    {cands : List (RankingCandidate ℚ)} (h : ∀ c ∈ cands, g (mapFloats fin c) = (f c).map fin) :
    (cands.map (mapFloats fin)).mapM g = (cands.mapM f).map (List.map fin) := by
  induction cands with
  | nil => rfl
  | cons c cands ih =>
    rw [List.map_cons, List.mapM_cons, List.mapM_cons, h c List.mem_cons_self,
      ih fun d hd => h d (List.mem_cons_of_mem c hd)]
    cases f c with
    | error e => rfl
    | ok x =>
      cases cands.mapM f with
      | error e => rfl
      | ok xs => rfl

/-- Finite values whose quotients are not too large give what exact arithmetic gives. -/
theorem recencyScores_fin (exp : ℚ → Except PyError ℚ) (now : ℚ) (cands : List (RankingCandidate ℚ))
    (cfg : RankerConfig ℚ)
    (h : ∀ c ∈ cands, |-ageDays now c.created_at / cfg.recency_half_life_days| < limit) :
    recencyScores exp now (cands.map (mapFloats fin)) (cfg.map fin) =
      (Ranker.recencyScores exp now cands cfg).map (List.map fin) :=
  mapM_map_fin fun c hc => decayed_fin exp (h c hc)

theorem priceFitScores_fin (exp : ℚ → Except PyError ℚ) (cands : List (RankingCandidate ℚ))
    (avg : ℚ) (cfg : RankerConfig ℚ) (hsub : ∀ c ∈ cands, |c.price - avg| < limit)
    (h : ∀ c ∈ cands,
      |-|c.price - avg| / if cfg.price_fit_scale = 0 then 1 else cfg.price_fit_scale| < limit) :
    priceFitScores exp (cands.map (mapFloats fin)) (some (fin avg)) (cfg.map fin) =
      (Ranker.priceFitScores exp cands (some avg) cfg).map (List.map fin) := by
  refine mapM_map_fin fun c hc => ?_
  have hdist : ((fin c.price).sub (fin avg)).abs = fin |c.price - avg| := by
    have hlt := abs_lt.mp (hsub c hc)
    rw [sub, ofExact, if_neg hlt.2.not_ge, if_neg hlt.1.not_ge, PyFloat.abs]
  have hscale : orOne (fin cfg.price_fit_scale) =
      fin (if cfg.price_fit_scale = 0 then 1 else cfg.price_fit_scale) := by
    rw [orOne]
    split
    · rfl
    · rfl
  have hne : (if cfg.price_fit_scale = 0 then 1 else cfg.price_fit_scale) ≠ 0 := by
    split
    · exact one_ne_zero
    · assumption
  show decayed zeroDivision exp ((fin c.price).sub (fin avg)).abs (orOne (fin cfg.price_fit_scale)) = _
  rw [hdist, hscale, decayed_fin exp (h c hc), if_neg hne]

/-- The decay factor of the refresher is that of exact arithmetic where the quotient is not too large
and `math.exp` answers. -/
theorem decayFactor_eq {exp : ℚ → Except PyError ℚ} {exp' : ℚ → ℚ} {settings : RefreshSettings}
    (h : |-(settings.cache_refresh_interval_seconds : ℚ) /
      settings.cache_refresh_half_life_seconds| < limit)
    (hexp : exp (-(settings.cache_refresh_interval_seconds : ℚ) /
        settings.cache_refresh_half_life_seconds) =
      .ok (exp' (-(settings.cache_refresh_interval_seconds : ℚ) /
        settings.cache_refresh_half_life_seconds))) :
    decayFactor exp settings = Cache.decayFactor exp' settings := by
  unfold decayFactor Cache.decayFactor
  by_cases hzero : settings.cache_refresh_half_life_seconds = 0
  · rw [if_pos hzero, if_pos hzero]
  · rw [if_neg hzero, if_neg hzero]
    simp only [if_neg h.not_ge, hexp]

/-! ## When they succeed -/

/-- One value in the unit interval for each candidate. -/
def Succeeds (scores : Except PyError (List (PyFloat ℚ))) (n : ℕ) : Prop :=
  ∃ values, scores = .ok values ∧ values.length = n ∧ ∀ x ∈ values, InUnit x

variable {exp : ℚ → Except PyError ℚ} {tiny : ℚ}

theorem recencyScores_succeeds_iff (hexp : ExpSpec exp tiny) (now : ℚ)
    (cands : List (RankingCandidate (PyFloat ℚ))) (cfg : LoadedConfig) :
    Succeeds (recencyScores exp now cands cfg) cands.length ↔
      ∀ c ∈ cands, Decays tiny (fin (ageDays now c.created_at)) cfg.recency_half_life_days := by
  rw [Succeeds, recencyScores, PyList.exists_mapM_iff]
  refine forall₂_congr fun c _ => decayed_iff hexp ?_ _
  show 0 ≤ ageDays now c.created_at
  simp [ageDays]

theorem priceFitScores_succeeds_iff (hexp : ExpSpec exp tiny)
    (cands : List (RankingCandidate (PyFloat ℚ))) (user_avg_price : Option (PyFloat ℚ))
    (cfg : LoadedConfig) :
    Succeeds (priceFitScores exp cands user_avg_price cfg) cands.length ↔
      ∀ avg ∈ user_avg_price, ∀ c ∈ cands,
        Decays tiny (c.price.sub avg).abs (orOne cfg.price_fit_scale) := by
  cases user_avg_price with
  | none =>
    refine iff_of_true ⟨_, rfl, by simp, fun x hx => ?_⟩ (by simp)
    obtain rfl := List.eq_of_mem_replicate hx
    exact ⟨le_rfl, zero_le_one⟩
  | some avg =>
    rw [Succeeds, priceFitScores, PyList.exists_mapM_iff]
    simp only [Option.mem_some_iff, forall_eq']
    exact forall₂_congr fun c _ => decayed_iff hexp (isDistance_abs _) _

theorem decayFactor_iff (hexp : ExpSpec exp tiny) (settings : RefreshSettings) :
    (∃ decay, decayFactor exp settings = .ok decay ∧ 0 ≤ decay ∧ decay ≤ 1) ↔
      settings.cache_refresh_half_life_seconds ≠ 0 ∧
      -limit < -(settings.cache_refresh_interval_seconds : ℚ) /
        settings.cache_refresh_half_life_seconds ∧
      -(settings.cache_refresh_interval_seconds : ℚ) /
        settings.cache_refresh_half_life_seconds ≤ tiny := by
  unfold decayFactor
  by_cases hzero : settings.cache_refresh_half_life_seconds = 0
  · rw [if_pos hzero]
    exact iff_of_false (by simp) fun h => h.1 hzero
  · rw [if_neg hzero]
    simp only
    split
    · rename_i hlarge
      refine iff_of_false (by simp) fun h => hlarge.not_gt (abs_lt.mpr ⟨h.2.1, ?_⟩)
      exact h.2.2.trans_lt hexp.lt_limit
    · rename_i hsmall
      rw [hexp.unit_iff]
      have hlt := (abs_lt.mp (not_le.mp hsmall)).1
      exact ⟨fun h => ⟨hzero, hlt, h⟩, fun h => h.2.2⟩

/-- All three give values in the unit interval. -/
structure Works (exp : ℚ → Except PyError ℚ) (cfg : LoadedConfig) (settings : RefreshSettings)
    (cands : List (RankingCandidate (PyFloat ℚ))) (user_avg_price : Option (PyFloat ℚ)) (now : ℚ) :
    Prop where
  recency : Succeeds (recencyScores exp now cands cfg) cands.length
  price_fit : Succeeds (priceFitScores exp cands user_avg_price cfg) cands.length
  decay : ∃ decay, decayFactor exp settings = .ok decay ∧ 0 ≤ decay ∧ decay ≤ 1

/-- The divisors are positive, or infinite, or there is next to nothing to divide; only the price scale
may be 0. -/
structure Fits (tiny : ℚ) (cfg : LoadedConfig) (settings : RefreshSettings)
    (cands : List (RankingCandidate (PyFloat ℚ))) (user_avg_price : Option (PyFloat ℚ)) (now : ℚ) :
    Prop where
  half_life : ∀ c ∈ cands, Decays tiny (fin (ageDays now c.created_at)) cfg.recency_half_life_days
  scale : ∀ avg ∈ user_avg_price, ∀ c ∈ cands,
    Decays tiny (c.price.sub avg).abs (orOne cfg.price_fit_scale)
  refresh_half_life : settings.cache_refresh_half_life_seconds ≠ 0
  quotient_gt : -limit < -(settings.cache_refresh_interval_seconds : ℚ) /
    settings.cache_refresh_half_life_seconds
  quotient_le : -(settings.cache_refresh_interval_seconds : ℚ) /
    settings.cache_refresh_half_life_seconds ≤ tiny

/-- **When no decay fails.** -/
theorem works_iff_fits (hexp : ExpSpec exp tiny) (cfg : LoadedConfig) (settings : RefreshSettings)
    (cands : List (RankingCandidate (PyFloat ℚ))) (user_avg_price : Option (PyFloat ℚ)) (now : ℚ) :
    Works exp cfg settings cands user_avg_price now ↔
      Fits tiny cfg settings cands user_avg_price now := by
  constructor
  · intro h
    obtain ⟨hne, hgt, hle⟩ := (decayFactor_iff hexp settings).mp h.decay
    exact ⟨(recencyScores_succeeds_iff hexp now cands cfg).mp h.recency,
      (priceFitScores_succeeds_iff hexp cands user_avg_price cfg).mp h.price_fit, hne, hgt, hle⟩
  · intro h
    exact ⟨(recencyScores_succeeds_iff hexp now cands cfg).mpr h.half_life,
      (priceFitScores_succeeds_iff hexp cands user_avg_price cfg).mpr h.scale,
      (decayFactor_iff hexp settings).mpr ⟨h.refresh_half_life, h.quotient_gt, h.quotient_le⟩⟩

/-- A configuration whose half-life is neither positive nor infinite fails some candidate. -/
theorem recencyScores_always_succeeds_iff (hexp : ExpSpec exp tiny) (cfg : LoadedConfig) :
    (∀ now cands, Succeeds (recencyScores exp now cands cfg) cands.length) ↔
      cfg.recency_half_life_days ≠ nan ∧ ∀ y, cfg.recency_half_life_days = fin y → 0 < y := by
  simp only [recencyScores_succeeds_iff hexp]
  constructor
  · intro h
    -- an item that is old enough for this half-life
    have hold : ∀ a : ℚ, 0 ≤ a → Decays tiny (fin a) cfg.recency_half_life_days := by
      intro a ha
      have hcand := h (a * 86400) [⟨"", "", "", "", "", nan, 0, nan, none, none, none, none⟩] _
        List.mem_cons_self
      have hage : (ageDays (a * 86400) 0 : ℚ) = a := by simp [ageDays, ha]
      rwa [hage] at hcand
    constructor
    · intro hnan
      rw [hnan] at hold
      exact hold 0 le_rfl
    · intro y hy
      rw [hy] at hold
      by_contra hpos
      obtain hpos' | ⟨hneg, hle⟩ := hold (tiny * |y| + 1)
        (add_nonneg (mul_nonneg hexp.nonneg (abs_nonneg y)) zero_le_one)
      · exact hpos hpos'
      · rw [abs_of_neg hneg] at hle
        linarith
  · rintro ⟨hnan, hpos⟩ now cands c _
    cases hy : cfg.recency_half_life_days with
    | nan => exact absurd hy hnan
    | inf => trivial
    | negInf => trivial
    | fin y => exact .inl (hpos y hy)

/-! ## Loaded configurations -/

/-- An exponential that is exact at 0. -/
def roughExp (x : ℚ) : Except PyError ℚ :=
  if x ≤ 0 then .ok (1 / (1 - x))
  else if x ≤ 709 then .ok (1 + x)
  else .error ⟨"OverflowError", "math range error", ""⟩

theorem roughExp_spec : ExpSpec roughExp 0 where
  nonneg := le_rfl
  lt_limit := limit_pos
  unit_iff x := by
    unfold roughExp
    by_cases hx : x ≤ 0
    · rw [if_pos hx]
      refine iff_of_true ⟨_, rfl, ?_, ?_⟩ hx
      · exact one_div_nonneg.mpr (by linarith)
      · exact (div_le_one (by linarith)).mpr (by linarith)
    · rw [if_neg hx]
      refine iff_of_false ?_ hx
      rintro ⟨y, hy, -, hle⟩
      split at hy
      · obtain rfl := Except.ok.inj hy
        linarith
      · cases hy

/-- No text is a number. -/
def noNumerals : Numerals where
  int_str _ := .error ⟨"ValueError", "invalid literal for int() with base 10", ""⟩
  float_str _ := .error ⟨"ValueError", "could not convert string to float", ""⟩

/-- An item created when the clock is at 0, at the average price. -/
def newItem : RankingCandidate (PyFloat ℚ) :=
  ⟨"i1", "Runner", "", "shoes", "acme", fin 80, 0, fin 0, none, some (fin 1), none, none⟩

def stillSettings : RefreshSettings := ⟨0, 3600, 200⟩

/-- Ten days later, for a user whose average price is 50, with the refresher of `config.py`. -/
theorem works_tenDays : Works roughExp defaultLoadedConfig Cache.defaultRefreshSettings [newItem]
    (some (fin 50)) 864000 := by
  have hlimit : (30 : ℚ) < limit := by
    have hpow : (2 : ℚ) ^ 1024 = 2 ^ 970 * 2 ^ 54 := (pow_add 2 970 54)
    have hle : (2 : ℚ) ^ 5 ≤ 2 ^ 970 := pow_le_pow_right₀ one_le_two (by decide)
    rw [limit, hpow]
    generalize (2 : ℚ) ^ 970 = x at hle ⊢
    norm_num at hle ⊢
    linarith
  refine (works_iff_fits roughExp_spec defaultLoadedConfig Cache.defaultRefreshSettings [newItem]
    (some (fin 50)) 864000).mpr ⟨fun c _ => ?_, fun avg havg c hc => ?_, by decide, ?_, ?_⟩
  · exact .inl (by norm_num [defaultLoadedConfig, defaultRankerConfig, RankerConfig.map])
  · obtain rfl := Option.some.inj havg
    obtain rfl := List.mem_singleton.mp hc
    have hdist : (newItem.price.sub (fin 50)).abs = fin 30 := by
      have hneg : ¬ (30 : ℚ) ≤ -limit := by linarith
      have hsub : (80 : ℚ) - 50 = 30 := by norm_num
      simp only [newItem, sub, hsub, ofExact, if_neg hlimit.not_ge, if_neg hneg, PyFloat.abs]
      norm_num
    rw [hdist]
    exact .inl (by norm_num [defaultLoadedConfig, defaultRankerConfig, RankerConfig.map, orOne])
  · have hquotient : -((60 : ℤ) : ℚ) / ((3600 : ℤ) : ℚ) = -1 / 60 := by norm_num
    show -limit < -((60 : ℤ) : ℚ) / ((3600 : ℤ) : ℚ)
    rw [hquotient]
    linarith
  · norm_num [Cache.defaultRefreshSettings]

/-- The file sets the half-life to 0. -/
theorem zero_half_life_fails :
    ¬ ∀ (file : Option (Except PyError Yaml)) (settings : RefreshSettings)
      (cands : List (RankingCandidate (PyFloat ℚ))) (user_avg_price : Option (PyFloat ℚ)) (now : ℚ),
      cands ≠ [] →
      Works roughExp (loadRankerConfig noNumerals file) settings cands user_avg_price now := by
  intro h
  have hworks := h
    (some (.ok (documentOf { defaultLoadedConfig with recency_half_life_days := fin 0 })))
    stillSettings [newItem] none 0 (by simp)
  obtain ⟨values, hvalues, -⟩ := hworks.recency
  have hraises : recencyScores roughExp 0 [newItem]
      { defaultLoadedConfig with recency_half_life_days := fin 0 } = .error zeroDivision := rfl
  rw [loadRankerConfig_documentOf, hraises] at hvalues
  cases hvalues

end ClickRec.Ranker.Floats
