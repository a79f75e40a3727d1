import ClickRec.Ranker.PoolOfClicks

/-! # Recommendations to a newcomer

Without clicks of one's own the candidates are the top of the global set, and only popularity and
recency tell them apart. What is recommended was clicked, and an item that stays ahead of another one
of its category, and is no older, is recommended before it. -/
namespace ClickRec.Ranker
set_option autoImplicit false
open Cache (RefreshSettings)
open Kafka (ItemMeta Settings World recentKey topKey)
open Llm (RankedItemDTO)
open scoped List

/-! ## The newcomer -/

section Newcomer
variable {exp : ℚ → ℚ} {refreshes : RefreshSettings} {settings : Settings}
  {item : String → Option ItemMeta} {w : World} {acts : List PoolAct}

theorem recent_empty {user : String} (hnew : ∀ event, .click event ∈ acts → event.user_id ≠ user)
    (h : runPool exp refreshes settings item acts = some w) :
    w.redis.zsets (recentKey user) = .empty := by
  have hrun : Unchanged item w ∧ ((∀ event, .click event ∈ acts → event.user_id ≠ user) →
      w.redis.zsets (recentKey user) = .empty) := by
    refine Trace.exec_concat_induction (I := fun acts w => Unchanged item w ∧
        ((∀ event, PoolAct.click event ∈ acts → event.user_id ≠ user) →
          w.redis.zsets (recentKey user) = .empty))
      ⟨unchanged_start, fun _ => rfl⟩ (fun acts u a u' _ hI hstep => ?_) h
    obtain ⟨hkept, hcases⟩ := a.step_cases hI.1 hstep
    refine ⟨hkept, fun hnew => ?_⟩
    have hbefore := hI.2 fun event hevent => hnew event (List.mem_append_left _ hevent)
    obtain ⟨event, row, rfl, -, hclick, -⟩ | ⟨category, decay, rfl, -, hother, -⟩ := hcases
    · rw [Kafka.enrich_recent hclick, if_neg (hnew event (by simp)), hbefore]
    · rw [hother _ (Kafka.topKey_ne_recentKey category user).symm, hbefore]
  exact hrun.2 hnew

theorem loadUserContext_newcomer {db : Postgres ℚ} {client : RedisClient ℚ} {user : Option String}
    (hempty : ∀ u, user = some u → client.zsets (recentKey u) = .empty) (cfg : RankerConfig ℚ) :
    loadUserContext db (some client) user cfg = cold := by
  cases user with
  | none => rfl
  | some u =>
    have hread : readTop client (recentKey u) cfg.personal_recent_clicks_n = [] := by
      unfold readTop RedisClient.zrevrange RedisClient.reply
      rw [hempty u rfl]
      cases client.outcome (.zrevrange (recentKey u)) with
      | error took => rfl
      | ok => simp [SortedSet.zrevrange, SortedSet.empty]
    rw [loadUserContext_eq, hread]
    simp [contextOf, cold]

end Newcomer

/-! ## The candidates and their scores -/

section Scores
variable {env : Env} {db : Postgres ℚ} {cfg : RankerConfig ℚ} {client : RedisClient ℚ}

theorem retrieve_newcomer {user : Option String}
    (hcold : loadUserContext db (some client) user cfg = cold) :
    retrieve env db cfg (some client) none user none =
      .ok (some client, cold, (readTop client (topKey "_global") cfg.candidate_cap).map unscored) := by
  have htop : topCandidates cfg (some client) [] =
      (readTop client (topKey "_global") cfg.candidate_cap).map unscored :=
    globalTopCandidates_eq client cfg.candidate_cap
  simp only [retrieve, Option.getD_none, hcold, cold, generateCandidates, recommendedCandidates]
  rw [← htop]
  rfl

/-- The candidate made of a row, with nothing from the channels. -/
def plainCandidate (env : Env) (row : ItemRow ℚ) : RankingCandidate ℚ :=
  candidateOf env.numerics.sqrt env.numerics.round6 none row

theorem withScores_none {raw : List (RawCandidate ℚ)}
    (hraw : ∀ c ∈ raw, c.bm25_raw = none ∧ c.vector_raw = none) {c : RawCandidate ℚ} (hc : c ∈ raw)
    {cand : RankingCandidate ℚ} (hcand : cand.bm25_raw = none ∧ cand.vector_raw = none) :
    withScores raw c cand = cand := by
  have hlast : ((raw.reverse.find? (·.item_id = c.item_id)).getD c).bm25_raw = none ∧
      ((raw.reverse.find? (·.item_id = c.item_id)).getD c).vector_raw = none := by
    cases hfind : raw.reverse.find? (·.item_id = c.item_id) with
    | none => exact hraw c hc
    | some d => exact hraw d (List.mem_reverse.mp (List.mem_of_find?_eq_some hfind))
  cases cand
  obtain ⟨rfl, rfl⟩ := hcand
  simp only [withScores, hlast]

theorem fetched_unscored (ids : List String) : fetched env db cold (ids.map unscored) =
    ids.filterMap fun id => (db.item.row id).map (plainCandidate env) := by
  rw [fetched, fetchCandidateRows_eq, List.filterMap_map]
  refine List.filterMap_congr fun id hid => ?_
  have hraw : ∀ c ∈ ids.map (unscored (K := ℚ)), c.bm25_raw = none ∧ c.vector_raw = none := by
    intro c hc
    obtain ⟨id', -, rfl⟩ := List.mem_map.mp hc
    exact ⟨rfl, rfl⟩
  refine congrArg (Option.map · (db.item.row id)) (funext fun row => ?_)
  exact withScores_none hraw (List.mem_map_of_mem hid) ⟨rfl, rfl⟩

theorem coClickOf_nil (table : CoClickTable) (c : RankingCandidate ℚ) :
    (coClickOf table [] c : ℚ) = 0 := by
  have hnone : (table.rows.map (share [] c.item_id)).sum = 0 := by
    refine List.sum_eq_zero fun n hn => ?_
    obtain ⟨row, -, rfl⟩ := List.mem_map.mp hn
    simp [share]
  rw [coClickOf, hnone, Nat.cast_zero]

/-- For a newcomer the score grows with popularity and recency. -/
theorem scoreOf_newcomer_le {cands : List (RankingCandidate ℚ)}
    {value : String → RankingCandidate ℚ → Option ℚ}
    (hvalue : ∀ c ∈ cands, ∀ name ∈ FEATURE_NAMES,
      featureOf env.numerics db (some client) env.now cfg cands cold c name = .ok (value name c))
    (hplain : ∀ c ∈ cands, c.bm25_raw = none ∧ c.vector_raw = none)
    (hpopularity : 0 ≤ cfg.w_popularity) (hrecency : 0 ≤ cfg.w_recency)
    {c d : RankingCandidate ℚ} (hc : c ∈ cands) (hd : d ∈ cands)
    (hpop : AtMost (value "popularity" d) (value "popularity" c))
    (hrec : AtMost (value "recency" d) (value "recency" c)) :
    scoreOf cfg cands value d ≤ scoreOf cfg cands value c := by
  have hsame : ∀ name ∈ FEATURE_NAMES, name ≠ "popularity" → name ≠ "recency" →
      value name d = value name c := by
    intro name hname hnpop hnrec
    have hcv := hvalue c hc name hname
    have hdv := hvalue d hd name hname
    simp only [FEATURE_NAMES, List.mem_cons, List.not_mem_nil, or_false] at hname
    obtain rfl | rfl | rfl | rfl | rfl | rfl | rfl := hname
    · rw [← Except.ok.inj hcv, ← Except.ok.inj hdv, (hplain c hc).1, (hplain d hd).1]
    · rw [← Except.ok.inj hcv, ← Except.ok.inj hdv, (hplain c hc).2, (hplain d hd).2]
    · exact absurd rfl hnpop
    · exact absurd rfl hnrec
    · exact (Except.ok.inj hdv).symm.trans (Except.ok.inj hcv)
    · rw [← Except.ok.inj hcv, ← Except.ok.inj hdv]
      exact congrArg some ((coClickOf_nil _ d).trans (coClickOf_nil _ c).symm)
    · exact (Except.ok.inj hdv).symm.trans (Except.ok.inj hcv)
  refine List.sum_le_sum fun name hname => ?_
  unfold part
  by_cases hpopName : name = "popularity"
  · subst hpopName
    exact mul_le_mul_of_nonneg_left (normalize_mono (List.mem_map_of_mem hc) hpop) hpopularity
  · by_cases hrecName : name = "recency"
    · subst hrecName
      exact mul_le_mul_of_nonneg_left (normalize_mono (List.mem_map_of_mem hc) hrec) hrecency
    · rw [hsame name hname hpopName hrecName]

/-- A later item has at least the recency. -/
theorem recencyOf_le {exp : ℚ → Except PyError ℚ}
    (hexp : ∀ x y u v, x ≤ y → exp x = .ok u → exp y = .ok v → u ≤ v) {now : ℚ}
    (hhalf : 0 ≤ cfg.recency_half_life_days) {c d : RankingCandidate ℚ}
    (hnewer : d.created_at ≤ c.created_at) {u v : ℚ} (hd : recencyOf exp now cfg d = .ok u)
    (hc : recencyOf exp now cfg c = .ok v) : u ≤ v := by
  unfold recencyOf at hc hd
  split at hc
  · cases hc
  · rename_i hne
    rw [if_neg hne] at hd
    refine hexp _ _ u v ?_ hd hc
    have hage : (ageDays now c.created_at : ℚ) ≤ ageDays now d.created_at := by
      unfold ageDays
      have hdays : (now - c.created_at) / 86400 ≤ (now - d.created_at) / 86400 := by linarith
      exact_mod_cast max_le_max_left 0 hdays
    exact div_le_div_of_nonneg_right (neg_le_neg hage) hhalf

end Scores

/-! ## What is recommended -/

section Recommended
variable {env : Env} {db : Postgres ℚ} {cfg : RankerConfig ℚ} {client : RedisClient ℚ}

theorem pair_filterMap {ids : List String} {a b : ItemRow ℚ} (ha : a ∈ db.item.rows)
    (hb : b ∈ db.item.rows) (h : [a.id, b.id] <+ ids) :
    [plainCandidate env a, plainCandidate env b] <+
      ids.filterMap fun id => (db.item.row id).map (plainCandidate env) := by
  have hpair := h.filterMap fun id => (db.item.row id).map (plainCandidate env)
  rwa [List.filterMap_cons, ItemTable.row_eq_some.mpr ⟨ha, rfl⟩, List.filterMap_cons,
    ItemTable.row_eq_some.mpr ⟨hb, rfl⟩] at hpair

/-- Of the candidates of a newcomer one that comes first, with as much popularity and recency, is
recommended first. -/
theorem pair_recommended {ids : List String} (hids : ids.Nodup) {limit : ℤ} (hlimit : 0 ≤ limit)
    {out : List RankedItemDTO}
    (hout : rankCandidates env db cfg (some client) limit cold (ids.map unscored) = .ok out)
    (hexp : ∀ x y u v, x ≤ y → env.numerics.exp x = .ok u → env.numerics.exp y = .ok v → u ≤ v)
    (hhalf : 0 ≤ cfg.recency_half_life_days) (hpopularity : 0 ≤ cfg.w_popularity)
    (hrecency : 0 ≤ cfg.w_recency) {a b : ItemRow ℚ} (ha : a ∈ db.item.rows)
    (hb : b ∈ db.item.rows) (hpair : [a.id, b.id] <+ ids) (hnewer : b.created_at ≤ a.created_at)
    (hpop : popularityOf (some client) (plainCandidate env b) ≤
      popularityOf (some client) (plainCandidate env a))
    (hmem : b.id ∈ out.map (·.item.id)) : [a.id, b.id] <+ out.map (·.item.id) := by
  obtain ⟨value, hvalue⟩ := exists_value_of_rankCandidates hout
  have hnodup : ((fetched env db cold (ids.map unscored)).map (·.item_id)).Nodup := by
    have hraw : ((ids.map (unscored (K := ℚ))).map (·.item_id)).Nodup := by
      rwa [map_item_id_unscored]
    exact hraw.sublist (map_item_id_fetchCandidateRows ..)
  rw [rankCandidates_eq hvalue, PyList.sliceTo_of_nonneg _ hlimit] at hout
  have hcands : fetched env db cold (ids.map unscored) =
      ids.filterMap fun id => (db.item.row id).map (plainCandidate env) := fetched_unscored ids
  have hpair : [plainCandidate env a, plainCandidate env b] <+
      fetched env db cold (ids.map unscored) := by
    rw [hcands]
    exact pair_filterMap ha hb hpair
  have hplain : ∀ c ∈ fetched env db cold (ids.map unscored),
      c.bm25_raw = none ∧ c.vector_raw = none := by
    rw [hcands]
    intro c hc
    obtain ⟨id, -, hid⟩ := List.mem_filterMap.mp hc
    obtain ⟨row, -, rfl⟩ := Option.map_eq_some_iff.mp hid
    exact ⟨rfl, rfl⟩
  generalize fetched env db cold (ids.map unscored) = cands at hvalue hout hnodup hpair hplain
  have hca : plainCandidate env a ∈ cands := hpair.subset (by simp)
  have hcb : plainCandidate env b ∈ cands := hpair.subset (by simp)
  have hscore : scoreOf cfg cands value (plainCandidate env b) ≤
      scoreOf cfg cands value (plainCandidate env a) := by
    refine scoreOf_newcomer_le hvalue hplain hpopularity hrecency hca hcb ?_ ?_
    · rw [← Except.ok.inj (hvalue _ hca "popularity" (by decide)),
        ← Except.ok.inj (hvalue _ hcb "popularity" (by decide))]
      exact .inr ⟨_, _, rfl, rfl, hpop⟩
    · obtain ⟨hra, hva⟩ := ok_of_map_some (hvalue _ hca "recency" (by decide))
      obtain ⟨hrb, hvb⟩ := ok_of_map_some (hvalue _ hcb "recency" (by decide))
      rw [← hva, ← hvb]
      exact .inr ⟨_, _, rfl, rfl, recencyOf_le hexp hhalf hnewer hrb hra⟩
  have hbefore : TopK.Before (scoreOf cfg cands value) cands (plainCandidate env a)
      (plainCandidate env b) := hscore.lt_or_eq.imp id fun heq => ⟨heq.symm, hpair⟩
  have htop := TopK.is_take (scoreOf cfg cands value) hnodup.of_map limit.toNat
  cases hout
  rw [List.map_map] at hmem ⊢
  obtain ⟨c, hc, hid⟩ := List.mem_map.mp hmem
  obtain rfl : c = plainCandidate env b :=
    List.inj_on_of_nodup_map hnodup (htop.subset c hc) hcb hid
  have hpicked := htop.pair_sublist hnodup.of_map hbefore hca hc
  exact hpicked.map ((·.item.id) ∘ entryOf env cfg cands value)

theorem mem_recommended {ids : List String} {limit : ℤ} {out : List RankedItemDTO}
    (hout : rankCandidates env db cfg (some client) limit cold (ids.map unscored) = .ok out)
    {r : RankedItemDTO} (hr : r ∈ out) : r.item.id ∈ ids := by
  obtain ⟨value, hvalue⟩ := exists_value_of_rankCandidates hout
  rw [rankCandidates_eq hvalue] at hout
  cases hout
  obtain ⟨c, hc, rfl⟩ := List.mem_map.mp hr
  have hfetched : c ∈ fetched env db cold (ids.map unscored) :=
    (TopK.perm_sortDesc _ _).mem_iff.mp ((PyList.sliceTo_prefix _ _).subset hc)
  have hsub := map_item_id_fetchCandidateRows env.numerics.sqrt env.numerics.round6 db.item
    (ids.map unscored) none
  rw [map_item_id_unscored] at hsub
  exact hsub.subset (List.mem_map_of_mem hfetched)

/-- **What a newcomer sees.** After any run of enriched clicks and refreshes of single top sets,
everything that is recommended to a user without clicks was clicked. Of two items of one category, the
one that gets more clicks between any two refreshes, and is no older, comes before the other. -/
theorem newcomer_recommendations (settings : Settings) (refreshes : RefreshSettings) (exp : ℚ → ℚ)
    (hexp : ∀ x, 0 < exp x) (hmax : 0 ≤ refreshes.cache_top_max_members)
    (item : String → Option ItemMeta) (acts : List PoolAct) (w : World)
    (hrun : runPool exp refreshes settings item acts = some w) (env : Env)
    (hmono : ∀ x y u v, x ≤ y → env.numerics.exp x = .ok u → env.numerics.exp y = .ok v → u ≤ v)
    (db : Postgres ℚ)
    (htable : ∀ row ∈ db.item.rows, (item row.id).map (·.category) = some row.category)
    (client : RedisClient ℚ) (hsame : client.zsets = w.redis.zsets)
    (htop : client.outcome (.zrevrange (topKey "_global")) = .ok)
    (hscores : client.outcome .zscores = .ok) (cfg : RankerConfig ℚ) (hcap : 1 ≤ cfg.candidate_cap)
    (hhalf : 0 ≤ cfg.recency_half_life_days) (hpopularity : 0 ≤ cfg.w_popularity)
    (hrecency : 0 ≤ cfg.w_recency) (user : Option String)
    (hnew : ∀ event, .click event ∈ acts → some event.user_id ≠ user) (limit : ℤ)
    (hlimit : 0 ≤ limit) (out : List RankedItemDTO)
    (hout : rank env db cfg (some client) none user limit none = .ok out) :
    (∀ r ∈ out, ∃ event, .click event ∈ acts ∧ event.item_id = r.item.id) ∧
    ∀ a ∈ db.item.rows, ∀ b ∈ db.item.rows, a.category = b.category → a.category ≠ "_global" →
      b.created_at ≤ a.created_at → MoreClicked a.id b.id 0 0 acts →
      b.id ∈ out.map (·.item.id) → [a.id, b.id] <+ out.map (·.item.id) := by
  obtain ⟨-, honly⟩ := onlyClicked_run hexp hrun
  have hcold : loadUserContext db (some client) user cfg = cold := by
    refine loadUserContext_newcomer (fun u hu => ?_) cfg
    rw [hsame]
    exact recent_empty (fun event hevent heq => hnew event hevent (hu ▸ congrArg some heq)) hrun
  rw [rank_eq, retrieve_newcomer hcold] at hout
  have hout : rankCandidates env db cfg (some client) limit cold
      ((readTop client (topKey "_global") cfg.candidate_cap).map unscored) = .ok out := hout
  rw [readTop_of_pos htop hcap, hsame] at hout
  have hscored : ∀ r ∈ out, ∃ x, (w.redis.zsets (topKey "_global")).zscore r.item.id = some x :=
    fun r hr => SortedSet.mem_descending.mp (List.mem_of_mem_take (mem_recommended hout hr))
  refine ⟨fun r hr => ?_, fun a ha b hb hcategory hglobal hnewer hmore hmem => ?_⟩
  · obtain ⟨x, hx⟩ := hscored r hr
    exact honly "_global" r.item.id x hx
  · have hcb : (item b.id).map (·.category) = some a.category := hcategory ▸ htable b hb
    have hstart : ∀ d, Ahead ((World.start item).redis.zsets (topKey d)) a.id b.id 0 0 := fun d =>
      ahead_of_lt (fun m x hx => nomatch hx) fun y hy => nomatch hy
    have hahead : ∀ d, d = a.category ∨ d = "_global" →
        Ahead (w.redis.zsets (topKey d)) a.id b.id 0 0 := fun d hd =>
      ahead_run hexp hmax hglobal hd (htable a ha) hcb unchanged_start (hstart d) hmore hrun
    have hids := SortedSet.nodup_descending (w.redis.zsets (topKey "_global"))
    obtain ⟨r, hr, hrid⟩ := List.mem_map.mp hmem
    have hrid : r.item.id = b.id := hrid
    have htaken : b.id ∈ (w.redis.zsets (topKey "_global")).descending.take
        cfg.candidate_cap.toNat := hrid ▸ mem_recommended hout hr
    refine pair_recommended (hids.sublist (List.take_sublist _ _)) hlimit hout hmono hhalf
      hpopularity hrecency ha hb (TopK.pair_sublist_take hids ?_ htaken) hnewer ?_ hmem
    · obtain ⟨y, hy⟩ := SortedSet.mem_descending.mp (List.mem_of_mem_take htaken)
      obtain ⟨x, hx, hlt⟩ := (hahead "_global" (.inr rfl)).lt hy
      have hne : a.id ≠ b.id := by
        intro heq
        rw [heq, hy] at hx
        exact hlt.ne (Option.some.inj hx)
      refine (TopK.pair_sublist_or (SortedSet.mem_descending.mpr ⟨x, hx⟩)
        (List.mem_of_mem_take htaken) hne).resolve_right fun hba => ?_
      exact hlt.not_ge (List.pairwise_iff_forall_sublist.mp
        (SortedSet.pairwise_descending _) hba y x hy hx)
    · have hle := (hahead a.category (.inl rfl)).le
      have hcat : (plainCandidate env b).category = a.category := hcategory.symm
      simp only [popularityOf, hscores, hsame, hcat]
      exact hle

end Recommended

/-! ## Two items of one category -/

/-- The first item is clicked twice and the second one once; then both sets decay, with another click
on the first item between. -/
def twoItemsClicked : List PoolAct :=
  [.click ⟨1, .ok 1, "u1", "i1"⟩, .click ⟨2, .ok 2, "u1", "i2"⟩, .click ⟨3, .ok 3, "u2", "i1"⟩,
    .refresh "_global", .click ⟨4, .ok 4, "u1", "i1"⟩, .refresh "c"]

/-- The ids that are recommended to somebody else after these. -/
def recommendedIds (acts : List PoolAct) : Option (List String) :=
  (runPool (fun _ => 1 / 2) Cache.defaultRefreshSettings Kafka.defaultSettings oneCategory
    acts).bind fun w =>
      (rank exactEnv nearItems defaultRankerConfig (some (answering w)) none (some "u3") 20
        none).toOption.map fun out => out.map (·.item.id)

theorem newcomer_recommendations_two : ∃ w out,
    runPool (fun _ => 1 / 2) Cache.defaultRefreshSettings Kafka.defaultSettings oneCategory
      twoItemsClicked = some w ∧
    rank exactEnv nearItems defaultRankerConfig (some (answering w)) none (some "u3") 20 none =
      .ok out ∧
    "i2" ∈ out.map (·.item.id) ∧ ["i1", "i2"] <+ out.map (·.item.id) := by
  have hids : recommendedIds twoItemsClicked = some ["i1", "i2"] := by decide +kernel
  obtain ⟨w, hrun, hout⟩ := Option.bind_eq_some_iff.mp hids
  obtain ⟨out, hout, hlist⟩ := Option.map_eq_some_iff.mp hout
  have hrank : rank exactEnv nearItems defaultRankerConfig (some (answering w)) none (some "u3") 20
      none = .ok out := by
    cases h : rank exactEnv nearItems defaultRankerConfig (some (answering w)) none (some "u3") 20
      none with
    | error e =>
      rw [h] at hout
      cases hout
    | ok out' =>
      rw [h] at hout
      exact congrArg Except.ok (Option.some.inj hout)
  have hmem : "i2" ∈ out.map (·.item.id) := by
    rw [hlist]
    decide
  have hnew : ∀ event, PoolAct.click event ∈ twoItemsClicked → some event.user_id ≠ some "u3" := by
    intro event hevent
    simp only [twoItemsClicked, List.mem_cons, PoolAct.click.injEq, List.not_mem_nil, or_false,
      reduceCtorEq, false_or] at hevent
    rcases hevent with rfl | rfl | rfl | rfl <;> decide
  have hall := newcomer_recommendations Kafka.defaultSettings Cache.defaultRefreshSettings
    (fun _ => 1 / 2) (fun _ => by norm_num) (by decide) oneCategory twoItemsClicked w hrun exactEnv
    (fun _ _ u v _ hu hv => (Except.ok.inj (hu.symm.trans hv)).le) nearItems (by decide)
    (answering w) rfl rfl rfl defaultRankerConfig (by decide) (by decide) (by decide +kernel)
    (by decide +kernel) (some "u3") hnew 20 (by decide) out hrank
  refine ⟨w, out, hrun, hrank, hmem, hall.2 (itemRow "i1" [0, 1]) (by simp [nearItems])
    (itemRow "i2" [1, 0]) (by simp [nearItems]) rfl (by decide) le_rfl ?_ hmem⟩
  simp [MoreClicked, twoItemsClicked, itemRow]

end ClickRec.Ranker
