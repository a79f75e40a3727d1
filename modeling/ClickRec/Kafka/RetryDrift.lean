import ClickRec.Kafka.Attempts

/-! # Bounded drift on retries

After attempts that fail and one that succeeds, the history is the same as after one clean run.
Every accumulator has gained one for each attempt whose step on it took effect, which is what the
clean run gains and one for each further attempt, except where the category is named `_global`:
then one attempt has two steps on the global set. -/
namespace ClickRec.Kafka
set_option autoImplicit false

/-! ## Bounded drift -/

/-- A score against the clean one, at most `n` above it. -/
def ScoreDrift (clean score : Option ℚ) (n : ℕ) : Prop :=
  clean.isSome = score.isSome ∧ clean.getD 0 ≤ score.getD 0 ∧ score.getD 0 ≤ clean.getD 0 + n

/-- The state after a series against the one after a clean run. -/
structure BoundedDrift (clean : World) (s : Series) : Prop where
  recent_clicks : ∀ user,
    s.world.redis.zsets (recentKey user) = clean.redis.zsets (recentKey user)
  co_click : ∀ p, (clean.db.co_click p).getD 0 ≤ (s.world.db.co_click p).getD 0 ∧
    (s.world.db.co_click p).getD 0 ≤ (clean.db.co_click p).getD 0 + (inEffect Op.commits s.took - 1)
  counter : ∀ key, clean.redis.counters key ≤ s.world.redis.counters key ∧
    s.world.redis.counters key ≤
      clean.redis.counters key + (inEffect (fun op => op = .incr key) s.took - 1)
  score : ∀ category m, ScoreDrift ((clean.redis.zsets (topKey category)).zscore m)
    ((s.world.redis.zsets (topKey category)).zscore m)
    (inEffect (Op.bumps (topKey category)) s.took - 1)
  /-- The last attempt is then the only one whose commit took effect. -/
  no_commit_no_drift : inEffect Op.commits s.took ≤ 1 →
    s.world.db = clean.db ∧ s.world.redis = clean.redis

section Series
variable {settings : Settings} {event : ClickEventDTO} {row : ItemMeta} {w : World} {s : Series}

/-! ## Attempts and steps -/

theorem inEffect_le_countP (counts : Op → Bool) (took : List (List Op)) :
    inEffect counts took ≤ took.flatten.countP counts := by
  induction took with
  | nil => exact Nat.zero_le _
  | cons ops took ih =>
    have hops : (if ops.any counts then 1 else 0) ≤ ops.countP counts := by
      split
      · rename_i hany
        obtain ⟨op, hop, hcounts⟩ := List.any_eq_true.mp hany
        exact List.countP_pos_iff.mpr ⟨op, hop, hcounts⟩
      · exact Nat.zero_le _
    rw [inEffect, List.countP_cons, ← inEffect, List.flatten_cons, List.countP_append]
    omega

/-- As many steps as attempts took effect exactly when no attempt has two of them. -/
theorem countP_le_inEffect_iff (counts : Op → Bool) (took : List (List Op)) :
    took.flatten.countP counts ≤ inEffect counts took ↔ ∀ ops ∈ took, ops.countP counts ≤ 1 := by
  induction took with
  | nil => simp [inEffect]
  | cons ops took ih =>
    have hrest := inEffect_le_countP counts took
    have hops : (if ops.any counts then 1 else 0) ≤ ops.countP counts := by
      have hone := inEffect_le_countP counts [ops]
      simpa [inEffect, List.countP_cons] using hone
    rw [inEffect, List.countP_cons, ← inEffect, List.flatten_cons, List.countP_append,
      List.forall_mem_cons, ← ih]
    have hany : ops.countP counts ≠ 0 → ops.any counts = true := by
      intro hpos
      obtain ⟨op, hop, hcounts⟩ := List.countP_pos_iff.mp (Nat.pos_of_ne_zero hpos)
      exact List.any_eq_true.mpr ⟨op, hop, hcounts⟩
    split at hops
    · rename_i htrue
      rw [if_pos htrue]
      omega
    · rename_i hfalse
      have hzero : ops.countP counts = 0 := by
        by_contra hpos
        exact hfalse (hany hpos)
      rw [if_neg hfalse, hzero]
      omega

/-! ## Against the clean run -/

/-- The side-effects of a whole attempt, of which those of a stopped one are a part. -/
theorem countP_take_le (counts : Op → Bool) (k : ℕ) (category : String) (items : List String) :
    ((effects settings event category items).take k).countP counts ≤
      (effects settings event category items).countP counts :=
  (List.take_sublist k _).countP_le

theorem scoreDrift_iterate (s : SortedSet ℚ String) (item_id m : String) {clean drifted n : ℕ}
    (hlow : clean ≤ drifted) (hzero : clean = 0 → drifted = 0) (hhigh : drifted ≤ clean + n) :
    ScoreDrift (((bump item_id)^[clean] s).zscore m) (((bump item_id)^[drifted] s).zscore m) n := by
  have hclean := SortedSet.zscore_zincrby_iterate s item_id m clean
  have hdrifted := SortedSet.zscore_zincrby_iterate s item_id m drifted
  have hn : (0 : ℚ) ≤ n := Nat.cast_nonneg n
  unfold bump
  rw [hclean, hdrifted]
  by_cases hm : m = item_id
  · by_cases h0 : clean = 0
    · simp only [h0, hzero h0, ne_eq, not_true_eq_false, and_false, if_false]
      exact ⟨rfl, le_rfl, by linarith⟩
    · have hd : drifted ≠ 0 := by omega
      have hlow : (clean : ℚ) ≤ drifted := Nat.cast_le.mpr hlow
      have hhigh : (drifted : ℚ) ≤ clean + n := by
        rw [← Nat.cast_add]
        exact Nat.cast_le.mpr hhigh
      rw [if_pos ⟨hm, h0⟩, if_pos ⟨hm, hd⟩]
      refine ⟨rfl, ?_, ?_⟩
      · simp only [Option.getD_some]
        linarith
      · simp only [Option.getD_some]
        linarith
  · rw [if_neg fun h => hm h.1, if_neg fun h => hm h.1]
    exact ⟨rfl, le_rfl, by linarith⟩

theorem le_of_scoreDrift {s : SortedSet ℚ String} {item_id : String} {clean drifted n : ℕ}
    (hclean : clean ≠ 0) (hdrifted : drifted ≠ 0)
    (h : ScoreDrift (((bump item_id)^[clean] s).zscore item_id)
      (((bump item_id)^[drifted] s).zscore item_id) n) : drifted ≤ clean + n := by
  have hscore := SortedSet.zscore_zincrby_iterate s item_id item_id clean
  have hscore' := SortedSet.zscore_zincrby_iterate s item_id item_id drifted
  rw [if_pos ⟨rfl, hclean⟩] at hscore
  rw [if_pos ⟨rfl, hdrifted⟩] at hscore'
  have hhigh := h.2.2
  unfold bump at hhigh
  rw [hscore, hscore', Option.getD_some, Option.getD_some] at hhigh
  have hcast : (drifted : ℚ) ≤ ((clean + n : ℕ) : ℚ) := by
    rw [Nat.cast_add]
    linarith
  exact Nat.cast_le.mp hcast

/-- A series before and after its last attempt, and a clean run from the same state. -/
structure Compared (settings : Settings) (event : ClickEventDTO) (row : ItemMeta) (w : World)
    (s final clean : Series) : Prop where
  before : SeriesInv settings event row w s
  last : SeriesInv settings event row w final
  once : SeriesInv settings event row w clean
  took_last : final.took =
    s.took ++ [effects settings event row.category (sessionItems settings s.world.redis event)]
  took_once : clean.took =
    [effects settings event row.category (sessionItems settings w.redis event)]
  run_last : ∃ caches, runOps { s.world with caches := caches }
    (effects settings event row.category (sessionItems settings s.world.redis event)) =
      (.ok (), final.world)
  run_once : ∃ caches, runOps { w with caches := caches }
    (effects settings event row.category (sessionItems settings w.redis event)) =
      (.ok (), clean.world)

namespace Compared
variable {final clean : Series}

theorem commits_last (h : Compared settings event row w s final clean) :
    inEffect Op.commits final.took = inEffect Op.commits s.took + 1 := by
  rw [h.took_last, inEffect_append]
  rfl

theorem commits_once (h : Compared settings event row w s final clean) :
    inEffect Op.commits clean.took = 1 := by
  rw [h.took_once]
  rfl

theorem recent_clicks (h : Compared settings event row w s final clean) (user : String) :
    final.world.redis.zsets (recentKey user) = clean.world.redis.zsets (recentKey user) := by
  obtain ⟨_, hlast⟩ := h.run_last
  obtain ⟨_, honce⟩ := h.run_once
  have hzset := runOps_zsets hlast (recentKey user)
  have hzset' := runOps_zsets honce (recentKey user)
  rw [effects_onKey] at hzset hzset'
  exact hzset.trans ((h.before.recent user).trans hzset'.symm)

theorem co_click (h : Compared settings event row w s final clean) (p : String × String) :
    (clean.world.db.co_click p).getD 0 ≤ (final.world.db.co_click p).getD 0 ∧
      (final.world.db.co_click p).getD 0 ≤
        (clean.world.db.co_click p).getD 0 + (inEffect Op.commits final.took - 1) := by
  have honce := h.once.co_click (by rw [h.commits_once]; exact one_ne_zero) p
  have hlast := h.last.co_click (by rw [h.commits_last]; exact Nat.succ_ne_zero _) p
  rw [h.commits_once] at honce
  omega

/-- All parts of attempts have at most as many steps of a kind as a whole one. -/
theorem countP_le_of_mem (h : SeriesInv settings event row w s) {counts : Op → Bool} {n : ℕ}
    (hn : ∀ items, (effects settings event row.category items).countP counts = n) {ops : List Op}
    (hops : ops ∈ s.took) : ops.countP counts ≤ n := by
  obtain ⟨k, items, rfl⟩ := h.part ops hops
  exact (countP_take_le counts k row.category items).trans (hn items).le

/-! In the following a whole attempt has `n` steps of a kind. -/

variable {counts : Op → Bool} {n : ℕ}

theorem count_once (h : Compared settings event row w s final clean)
    (hn : ∀ items, (effects settings event row.category items).countP counts = n) :
    clean.took.flatten.countP counts = n := by
  rw [h.took_once, List.flatten_singleton, hn]

theorem count_last (h : Compared settings event row w s final clean)
    (hn : ∀ items, (effects settings event row.category items).countP counts = n) :
    final.took.flatten.countP counts = s.took.flatten.countP counts + n := by
  rw [h.took_last, List.flatten_append, List.countP_append, List.flatten_singleton, hn]

theorem count_before (h : Compared settings event row w s final clean)
    (hn : ∀ items, (effects settings event row.category items).countP counts = 0) :
    s.took.flatten.countP counts = 0 := by
  refine List.countP_eq_zero.mpr fun op hop => ?_
  obtain ⟨ops, hops, hmem⟩ := List.mem_flatten.mp hop
  exact List.countP_eq_zero.mp (Nat.le_zero.mp (countP_le_of_mem h.before hn hops)) op hmem

theorem inEffect_last (h : Compared settings event row w s final clean)
    (hn : ∀ items, (effects settings event row.category items).countP counts = n) (hpos : n ≠ 0) :
    inEffect counts final.took = inEffect counts s.took + 1 := by
  have hwhole : 0 < (effects settings event row.category
      (sessionItems settings s.world.redis event)).countP counts := by
    rw [hn]
    exact Nat.pos_of_ne_zero hpos
  obtain ⟨op, hop, hcounts⟩ := List.countP_pos_iff.mp hwhole
  rw [h.took_last, inEffect_append, if_pos (List.any_eq_true.mpr ⟨op, hop, hcounts⟩)]

/-- The drift is within the bound exactly when no failed attempt made two steps of the kind. -/
theorem count_le_iff (h : Compared settings event row w s final clean)
    (hn : ∀ items, (effects settings event row.category items).countP counts = n) :
    final.took.flatten.countP counts ≤ n + (inEffect counts final.took - 1) ↔
      ∀ ops ∈ s.took, ops.countP counts ≤ 1 := by
  rw [← countP_le_inEffect_iff, h.count_last hn]
  by_cases hzero : n = 0
  · subst hzero
    simp [h.count_before hn]
  · rw [h.inEffect_last hn hzero]
    omega

theorem counter (h : Compared settings event row w s final clean) (key : String) :
    clean.world.redis.counters key ≤ final.world.redis.counters key ∧
      final.world.redis.counters key ≤ clean.world.redis.counters key +
        (inEffect (fun op => op = .incr key) final.took - 1) := by
  obtain ⟨n, hn, hone⟩ : ∃ n, (∀ items, (effects settings event row.category items).countP
      (fun op => op = .incr key) = n) ∧ n ≤ 1 :=
    ⟨_, fun _ => countP_incr_effects key, by split <;> omega⟩
  have hhigh := (h.count_le_iff hn).mpr fun ops hops =>
    (countP_le_of_mem h.before hn hops).trans hone
  rw [h.once.counter, h.last.counter, h.count_once hn]
  have hlow := h.count_last hn
  omega

/-- Every score in a top set drifts within the bound exactly when no failed attempt raised it
twice. -/
theorem score_iff (h : Compared settings event row w s final clean) (category : String) :
    (∀ m, ScoreDrift ((clean.world.redis.zsets (topKey category)).zscore m)
        ((final.world.redis.zsets (topKey category)).zscore m)
        (inEffect (Op.bumps (topKey category)) final.took - 1)) ↔
      ∀ ops ∈ s.took, ops.countP (Op.bumps (topKey category)) ≤ 1 := by
  obtain ⟨n, hn⟩ : ∃ n, ∀ items, (effects settings event row.category items).countP
      (Op.bumps (topKey category)) = n := ⟨_, fun _ => countP_bumps_effects category⟩
  rw [h.once.top, h.last.top, h.count_once hn, ← h.count_le_iff hn]
  have hlast := h.count_last hn
  constructor
  · intro hdrift
    by_cases hzero : n = 0
    · subst hzero
      rw [hlast, h.count_before hn]
      exact Nat.zero_le _
    · exact le_of_scoreDrift hzero (by omega) (hdrift event.item_id)
  · intro hhigh m
    refine scoreDrift_iterate _ _ m (by omega) (fun hzero => ?_) hhigh
    subst hzero
    rw [hlast, h.count_before hn]

theorem no_commit_no_drift (h : Compared settings event row w s final clean)
    (hone : inEffect Op.commits final.took ≤ 1) :
    final.world.db = clean.world.db ∧ final.world.redis = clean.world.redis := by
  obtain ⟨hdb, hredis⟩ := h.before.fresh (by rw [h.commits_last] at hone; omega)
  obtain ⟨_, hlast⟩ := h.run_last
  obtain ⟨_, honce⟩ := h.run_once
  rw [hredis] at hlast
  exact runOps_congr hlast honce hdb hredis

theorem bounded_iff (h : Compared settings event row w s final clean) :
    BoundedDrift clean.world final ↔
      ∀ ops ∈ s.took, ∀ category, ops.countP (Op.bumps (topKey category)) ≤ 1 := by
  constructor
  · intro hdrift ops hops category
    exact (h.score_iff category).mp (hdrift.score category) ops hops
  · intro hops
    exact
      { recent_clicks := h.recent_clicks
        co_click := h.co_click
        counter := h.counter
        score := fun category => (h.score_iff category).mpr fun ops hmem => hops ops hmem category
        no_commit_no_drift := h.no_commit_no_drift }

end Compared

/-- A part of an attempt raises no score twice unless it raises the global one under two names. -/
theorem bumps_take_le_one_iff (k : ℕ) (category : String) (items : List String) :
    (∀ d, ((effects settings event category items).take k).countP (Op.bumps (topKey d)) ≤ 1) ↔
      category ≠ "_global" ∨ k < 8 := by
  constructor
  · intro hle
    by_contra hnot
    rw [not_or, not_not, not_lt] at hnot
    obtain ⟨rfl, hk⟩ := hnot
    have htwo : ((effects settings event "_global" items).take 8).countP
        (Op.bumps (topKey "_global")) = 2 := by
      simp [effects_eq, Op.bumps]
    have hsub := (List.take_sublist_take_left
      (l := effects settings event "_global" items) hk).countP_le (p := Op.bumps (topKey "_global"))
    have := hle "_global"
    omega
  · rintro (hne | hk) d
    · refine (countP_take_le _ k category items).trans ?_
      rw [countP_bumps_effects]
      by_cases hd : category = d
      · rw [if_pos hd, if_neg fun h => hne (hd.trans h.symm)]
      · rw [if_neg hd]
        split <;> omega
    · have hsub := (List.take_sublist_take_left
        (l := effects settings event category items) (Nat.le_of_lt_succ hk)).countP_le
          (p := Op.bumps (topKey d))
      refine hsub.trans ?_
      -- the seventh step is the one on the set of the category
      have hseven : ((effects settings event category items).take 7).countP
          (Op.bumps (topKey d)) = if topKey category = topKey d then 1 else 0 := by
        simp [effects_eq, List.countP_cons, Op.bumps]
      rw [hseven]
      split <;> omega

/-! ## The drift of a series -/

theorem lastAttempt_eq_some {caches : ItemCaches} {final : Series}
    (hknown : Knows settings event row s.world caches) (hts : event.converts = true)
    (h : lastAttempt settings event s caches = some final) :
    final.took =
        s.took ++ [effects settings event row.category (sessionItems settings s.world.redis event)] ∧
      ∃ caches, runOps { s.world with caches := caches }
        (effects settings event row.category (sessionItems settings s.world.redis event)) =
          (.ok (), final.world) := by
  rw [lastAttempt_eq hknown hts] at h
  obtain ⟨v, hrun, rfl⟩ := attempt_eq_some h
  rw [hknown.attemptOps hts] at hrun ⊢
  exact ⟨rfl, _, hrun⟩

/-- A series that ends well could have ended well at once. -/
theorem exists_once (h : SeriesInv settings event row w s)
    (hcommits : inEffect Op.commits s.took ≠ 0) (hknown : Knows settings event row w w.caches)
    (hts : event.converts = true) :
    ∃ clean, applyEnrichment settings event w = (.ok (), clean) ∧
      lastAttempt settings event ⟨w, []⟩ w.caches =
        some ⟨clean, [attemptOps settings event w w.caches]⟩ := by
  have heq : Kafka.applyEnrichment settings event w = _ := hknown.applyEnrichment hts
  obtain ⟨hexist, hok⟩ | ⟨hnot, -⟩ := runOps_effects settings event row.category
    (sessionItems settings w.redis event)
    { w with caches := (resolveItemMeta settings w.db w.caches event.item_id).2 }
  · obtain ⟨clean, hrun⟩ : ∃ clean, applyEnrichment settings event w = (.ok (), clean) :=
      ⟨_, Prod.ext (heq ▸ hok) rfl⟩
    refine ⟨clean, hrun, ?_⟩
    simp only [lastAttempt]
    rw [hrun]
    rfl
  · exact absurd (h.exist hcommits) hnot

/-- The accumulators drift within their bounds exactly when the category is not the name of the
global set, or no failed attempt got as far as its second step on it. -/
theorem bounded_drift_iff (hcap : 0 < settings.recent_clicks_cap) {attempts : List Attempt}
    {caches : ItemCaches} {final : Series} (hclean : Knows settings event row w w.caches)
    (hknown : ∀ a ∈ attempts, Knows settings event row w a.caches)
    (hlast : Knows settings event row w caches)
    (hrun : Trace.exec (attempt settings event) ⟨w, []⟩ attempts = some s)
    (hfinal : lastAttempt settings event s caches = some final) :
    ∃ clean, applyEnrichment settings event w = (.ok (), clean) ∧
      (BoundedDrift clean final ↔ row.category ≠ "_global" ∨ ∀ a ∈ attempts, a.steps < 8) := by
  have hitem : s.world.db.item = w.db.item :=
    Trace.exec_preserves (I := fun u : Series => u.world.db.item = w.db.item)
      (fun _ _ _ hI hstep => (attempt_item hstep).trans hI) hrun rfl
  have hts := (hlast.of_item hitem).converts hfinal
  have hbefore := seriesInv_exec hcap hts hknown hrun
  have hafter : SeriesInv settings event row w final := seriesInv_attempt hcap hts hbefore hlast
    ((lastAttempt_eq (hlast.of_item hitem) hts).symm.trans hfinal)
  obtain ⟨htook, hops⟩ := lastAttempt_eq_some (hlast.of_item hitem) hts hfinal
  have hcommits : inEffect Op.commits final.took ≠ 0 := by
    rw [htook, inEffect_append]
    exact Nat.succ_ne_zero _
  obtain ⟨clean, hok, honce⟩ := exists_once hafter hcommits hclean hts
  have hcleanInv : SeriesInv settings event row w ⟨clean, [attemptOps settings event w w.caches]⟩ :=
    seriesInv_attempt hcap hts (seriesInv_start w) hclean
      ((lastAttempt_eq (s := ⟨w, []⟩) hclean hts).symm.trans honce)
  obtain ⟨htook', hops'⟩ := lastAttempt_eq_some (s := ⟨w, []⟩) hclean hts honce
  have hcompared : Compared settings event row w s final
      ⟨clean, [attemptOps settings event w w.caches]⟩ :=
    ⟨hbefore, hafter, hcleanInv, htook, htook', hops, hops'⟩
  refine ⟨clean, hok, hcompared.bounded_iff.trans ?_⟩
  rw [(forall_took_iff hts (fun k items => bumps_take_le_one_iff k row.category items) hknown hrun).2]
  simp only [forall_or_left]

end Series

theorem bounded_drift_iff_shoes : ∃ s final clean,
    Trace.exec (attempt defaultSettings (clickAt 1 1)) ⟨World.start oneItem, []⟩ [⟨⟨[], []⟩, 8⟩] =
        some s ∧
      lastAttempt defaultSettings (clickAt 1 1) s ⟨[], []⟩ = some final ∧
      applyEnrichment defaultSettings (clickAt 1 1) (World.start oneItem) = (.ok (), clean) ∧
      BoundedDrift clean final := by
  obtain ⟨s, hrun⟩ : ∃ s, Trace.exec (attempt defaultSettings (clickAt 1 1))
      ⟨World.start oneItem, []⟩ [⟨⟨[], []⟩, 8⟩] = some s := ⟨_, rfl⟩
  obtain ⟨final, hfinal⟩ : ∃ final,
      lastAttempt defaultSettings (clickAt 1 1) s ⟨[], []⟩ = some final := by
    obtain rfl := Option.some.inj hrun
    exact ⟨_, rfl⟩
  have hknown : Knows defaultSettings (clickAt 1 1) ⟨"shoes", 10⟩ (World.start oneItem) ⟨[], []⟩ := rfl
  obtain ⟨clean, hclean, hiff⟩ := bounded_drift_iff (by decide) hknown (by simpa using hknown) hknown
    hrun hfinal
  exact ⟨s, final, clean, hrun, hfinal, hclean, hiff.mpr (.inl (by decide))⟩

def globalItem (id : String) : Option ItemMeta := if id = "i1" then some ⟨"_global", 10⟩ else none

theorem failed_publish_inflates_global_twice :
    ¬ ∀ (settings : Settings) (event : ClickEventDTO) (row : ItemMeta) (w : World)
      (attempts : List Attempt) (caches : ItemCaches) (s final : Series),
      0 < settings.session_window → 0 < settings.recent_clicks_cap →
      Knows settings event row w w.caches →
      (∀ a ∈ attempts, Knows settings event row w a.caches) →
      Knows settings event row w caches →
      Trace.exec (attempt settings event) ⟨w, []⟩ attempts = some s →
      lastAttempt settings event s caches = some final →
        ∃ clean, applyEnrichment settings event w = (.ok (), clean) ∧ BoundedDrift clean final := by
  intro h
  obtain ⟨s, hrun⟩ : ∃ s, Trace.exec (attempt defaultSettings (clickAt 1 1))
      ⟨World.start globalItem, []⟩ [⟨⟨[], []⟩, 8⟩] = some s := ⟨_, rfl⟩
  obtain ⟨final, hfinal, hscore, htook⟩ : ∃ final,
      lastAttempt defaultSettings (clickAt 1 1) s ⟨[], []⟩ = some final ∧
        (final.world.redis.zsets (topKey "_global")).zscore "i1" = some 4 ∧
        inEffect (Op.bumps (topKey "_global")) final.took = 2 := by
    obtain rfl := Option.some.inj hrun
    refine ⟨_, rfl, ?_, ?_⟩
    · decide +kernel
    · decide +kernel
  have hknown : Knows defaultSettings (clickAt 1 1) ⟨"_global", 10⟩ (World.start globalItem)
      ⟨[], []⟩ := rfl
  obtain ⟨clean, hclean, hdrift⟩ := h _ _ _ _ _ _ _ _ (by decide) (by decide) hknown
    (by simpa using hknown) hknown hrun hfinal
  have honce : (clean.redis.zsets (topKey "_global")).zscore "i1" = some 2 := by
    obtain rfl := (Prod.ext_iff.mp hclean).2
    decide +kernel
  have hhigh := (hdrift.score "_global" "i1").2.2
  rw [hscore, honce, htook] at hhigh
  revert hhigh
  decide +kernel

end ClickRec.Kafka
