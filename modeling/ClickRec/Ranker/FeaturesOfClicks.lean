import ClickRec.Kafka.Attempts
import ClickRec.Kafka.SessionWindow
import ClickRec.Ranker.ContextOfClicks
import ClickRec.Ranker.TopRanked

/-! # From clicks to features

What `apply_enrichment` has written after a run of clicks, and what `gather_features` makes of it:
popularity counts the clicks on an item, co-click the sessions with it and a recent item. -/
namespace ClickRec.Kafka
set_option autoImplicit false

/-! ## What a click adds to the stores -/

/-- How many of the clicks are on this item. -/
def clicksOn (id : String) (events : List ClickEventDTO) : ℕ := events.countP (·.item_id = id)

theorem clicksOn_append (id : String) (events : List ClickEventDTO) (event : ClickEventDTO) :
    clicksOn id (events ++ [event]) =
      clicksOn id events + if event.item_id = id then 1 else 0 := by
  simp [clicksOn, List.countP_cons]

/-- Without the transaction the database stays. -/
theorem runOps_db {ops : List Op} (hops : ∀ op ∈ ops, op.commits = false) {w w' : World}
    (h : runOps w ops = (.ok (), w')) : w'.db = w.db := by
  induction ops generalizing w with
  | nil => rw [runOps_nil h]
  | cons op ops ih =>
    obtain ⟨v, hop, hrest⟩ := runOps_cons h
    rw [ih (fun o ho => hops o (List.mem_cons_of_mem op ho)) hrest]
    have hplain := hops op List.mem_cons_self
    cases op with
    | upsertCommit pairs => cases hplain
    | zadd key member score => cases hop; rfl
    | zremrangebyrank key start stop => cases hop; rfl
    | expire key seconds => cases hop; rfl
    | incr key => cases hop; rfl
    | zincrby key amount member => cases hop; rfl
    | send update => cases hop; rfl

theorem runOps_caches {ops : List Op} {w w' : World} (h : runOps w ops = (.ok (), w')) :
    w'.caches = w.caches := by
  induction ops generalizing w with
  | nil => rw [runOps_nil h]
  | cons op ops ih =>
    obtain ⟨v, hop, hrest⟩ := runOps_cons h
    rw [ih hrest, (Op.run_item hop).2]

/-- The transaction is the call of `upsert_co_clicks` for the session. -/
theorem runOps_effects_db {settings : Settings} {event : ClickEventDTO} {category : String}
    {items : List String} {w w' : World}
    (h : runOps w (effects settings event category items) = (.ok (), w')) :
    upsertCall w.db items = some w'.db := by
  obtain ⟨v, hop, hrest⟩ := runOps_cons h
  have hdb : w'.db = v.db := runOps_db (fun op hmem => by
    have hmem : op ∈ updateRecentClicks settings event.user_id event.item_id event.ts_ms ++
        incrementPopularity settings category event.item_id ++ publishProfileUpdate event category :=
      hmem
    simp only [updateRecentClicks, incrementPopularity, publishProfileUpdate, List.cons_append,
      List.nil_append, List.mem_cons, List.not_mem_nil, or_false] at hmem
    rcases hmem with rfl | rfl | rfl | rfl | rfl | rfl | rfl | rfl <;> rfl) hrest
  rw [hdb, upsertCall]
  simp only [Op.run] at hop
  cases hupsert : w.db.upsert (coClickPairs items) with
  | error e =>
    rw [hupsert] at hop
    cases hop
  | ok db =>
    rw [hupsert] at hop
    cases hop
    rfl

/-- One more in the sorted set of the item's category. -/
theorem runOps_effects_top {settings : Settings} {event : ClickEventDTO} {category : String}
    {items : List String} {w w' : World}
    (h : runOps w (effects settings event category items) = (.ok (), w')) {d : String}
    (hd : d ≠ "_global") (id : String) :
    ((w'.redis.zsets (topKey d)).zscore id).getD 0 = ((w.redis.zsets (topKey d)).zscore id).getD 0 +
      if event.item_id = id ∧ category = d then 1 else 0 := by
  rw [runOps_zsets h, foldl_onKey_topKey (fun op hop => hop), countP_bumps_effects,
    if_neg (Ne.symm hd)]
  have hscore := SortedSet.zscore_zincrby_iterate (w.redis.zsets (topKey d)) event.item_id id
    (if category = d then 1 else 0)
  rw [add_zero]
  refine (congrArg (·.getD 0) hscore).trans ?_
  by_cases hid : event.item_id = id
  · by_cases hc : category = d
    · simp [hid, hc]
    · simp [hc]
  · simp [hid, Ne.symm hid]

end ClickRec.Kafka

namespace ClickRec.Ranker
set_option autoImplicit false
open Kafka (World Settings ItemMeta CachesAgree Counts NeverOlder clicksOf clicksOn enrich enrichAll
  lastClicks others recentKey sessionItems together topKey)

/-! ## The stores after a run -/

/-- The session of each click: its item, then up to `n` of the items that its user had clicked, the
one clicked last first. -/
inductive SessionsOf (n : ℕ) : List ClickEventDTO → List (List String) → Prop
  | start : SessionsOf n [] []
  | click {events : List ClickEventDTO} {sessions : List (List String)} {event : ClickEventDTO}
      {before : List String} (earlier : SessionsOf n events sessions)
      (last : LastClicked (clicksOf event.user_id events) n before) :
      SessionsOf n (events ++ [event]) (sessions ++ [event.item_id :: before])

/-- `co_click` counts the sessions, and `items:top:{category}` the clicks. -/
structure Reflects (settings : Settings) (item : String → Option ItemMeta)
    (events : List ClickEventDTO) (sessions : List (List String)) (w : World) : Prop where
  session : SessionsOf (others settings) events sessions
  counts : Counts sessions w.db
  catalogue : w.db.item = item
  caches : CachesAgree w
  top : ∀ d, d ≠ "_global" → ∀ id, ((w.redis.zsets (topKey d)).zscore id).getD 0 =
    if (item id).map (·.category) = some d then (clicksOn id events : ℚ) else 0

variable {settings : Settings} {item : String → Option ItemMeta}

theorem reflects_start : Reflects settings item [] [] (World.start item) where
  session := .start
  counts := Kafka.counts_exec (Trace.exec_nil ..)
  catalogue := rfl
  caches := ⟨fun _ hx => absurd hx List.not_mem_nil, fun _ he => absurd he List.not_mem_nil⟩
  top d _ id := by simp [World.start, clicksOn]

theorem sessionItems_of_clicks (hwindow : 1 ≤ settings.session_window)
    (hcap : (others settings : ℤ) ≤ settings.recent_clicks_cap) {events : List ClickEventDTO}
    {event : ClickEventDTO} {w : World}
    (hhistory : w.redis.zsets (recentKey event.user_id) = lastClicks settings event.user_id events) :
    ∃ before, sessionItems settings w.redis event = event.item_id :: before ∧
      LastClicked (clicksOf event.user_id events) (others settings) before := by
  refine ⟨_, Kafka.sessionItems_eq hwindow w.redis event, ?_⟩
  rw [Kafka.history, hhistory, lastClicks, SortedSet.take_descending_keepTop (by omega)]
  exact lastClicked_take _ _

theorem reflects_step (hwindow : 1 ≤ settings.session_window)
    (hcap : (others settings : ℤ) ≤ settings.recent_clicks_cap) {events : List ClickEventDTO}
    {sessions : List (List String)} {event : ClickEventDTO} {w w' : World}
    (h : Reflects settings item events sessions w)
    (hhistory : w.redis.zsets (recentKey event.user_id) = lastClicks settings event.user_id events)
    (hstep : enrich settings w event = some w') :
    Reflects settings item (events ++ [event])
      (sessions ++ [sessionItems settings w.redis event]) w' := by
  obtain ⟨row, caches, hres, hrun⟩ := Kafka.enrich_eq_some hstep
  obtain ⟨hrow, hcaches⟩ := h.caches.resolve hres
  have hitem : w'.db.item = w.db.item := (Kafka.runOps_item hrun :)
  obtain ⟨before, hsession, hlast⟩ := sessionItems_of_clicks hwindow hcap hhistory
  refine ⟨?_, ?_, hitem.trans h.catalogue, ?_, fun d hd id => ?_⟩
  · rw [hsession]
    exact .click h.session hlast
  · have hcall := Kafka.runOps_effects_db hrun
    exact Kafka.counts_step h.counts hcall
  · exact hcaches.of_eq hitem (Kafka.runOps_caches hrun)
  · have hcategory : (item event.item_id).map (·.category) = some row.category := by
      rw [← h.catalogue, ← hrow]
      rfl
    rw [Kafka.runOps_effects_top hrun hd, h.top d hd, Kafka.clicksOn_append]
    by_cases hid : event.item_id = id
    · subst hid
      by_cases hd' : row.category = d
      · simp [hcategory, hd']
      · simp [hcategory, hd']
    · simp [hid]

/-- A run in order. -/
theorem reflects_run (hwindow : 1 ≤ settings.session_window)
    (hcap : (others settings : ℤ) ≤ settings.recent_clicks_cap) {events : List ClickEventDTO}
    {w : World} (hrun : enrichAll settings item events = some w)
    (hnever : ∀ user, NeverOlder settings user events) :
    ∃ sessions, Reflects settings item events sessions w := by
  have hhistory : ∀ user, Kafka.HistoryOfClicks settings item user events := fun user =>
    (Kafka.historyOfClicks_iff hrun).mpr (hnever user)
  have hprefix : ∀ p, p <+: events → ∀ v, enrichAll settings item p = some v →
      ∃ sessions, Reflects settings item p sessions v := by
    intro p
    induction p using List.reverseRecOn with
    | nil =>
      intro _ v hv
      obtain rfl : World.start item = v := by simpa using hv
      exact ⟨[], reflects_start⟩
    | append_singleton p event ih =>
      intro hp v hv
      obtain ⟨u, hu, hlast⟩ := Trace.exec_append.mp hv
      obtain ⟨v', hevent, hnil⟩ := Trace.exec_cons.mp hlast
      obtain rfl : v' = v := by simpa using hnil
      have hbefore := (List.prefix_append p [event]).trans hp
      obtain ⟨sessions, hsessions⟩ := ih hbefore u hu
      exact ⟨_, reflects_step hwindow hcap hsessions (hhistory event.user_id p u hbefore hu) hevent⟩
  exact hprefix events (List.prefix_refl _) w hrun

/-! ## The features -/

theorem gatherFeatures_columns {numerics : Numerics ℚ} {db : Postgres ℚ}
    {redis_client : Option (RedisClient ℚ)} {now : ℚ} {cfg : RankerConfig ℚ}
    {cands : List (RankingCandidate ℚ)} {user_ctx : UserContext ℚ} {features : Features ℚ}
    (h : gatherFeatures numerics db redis_client now cfg cands user_ctx = .ok features) :
    features "popularity" = some ((cands.map (popularityOf redis_client)).map some) ∧
    features "co_click" =
      some ((cands.map (coClickOf db.co_click user_ctx.recent_item_ids)).map some) := by
  unfold gatherFeatures at h
  rw [popularityScores_eq, coClickScores_eq] at h
  cases hrecency : recencyScores numerics.exp now cands cfg with
  | error e =>
    rw [hrecency] at h
    cases h
  | ok recency =>
    rw [hrecency] at h
    cases hprice : priceFitScores numerics.exp cands user_ctx.avg_price cfg with
    | error e =>
      rw [hprice] at h
      cases h
    | ok price_fit =>
      rw [hprice] at h
      cases h
      exact ⟨rfl, rfl⟩

/-- After a run of enriched clicks of which none is older than what the history of its user has for
its item, the popularity of a candidate is the number of clicks on it. Its co-click feature adds up,
over the other items that the user clicked last, the clicks whose session has both. -/
theorem features_of_clicks (settings : Settings) (item : String → Option ItemMeta)
    (hwindow : 1 ≤ settings.session_window)
    (hkept : (others settings : ℤ) ≤ settings.recent_clicks_cap) (events : List ClickEventDTO)
    (w : World) (hrun : enrichAll settings item events = some w)
    (hnever : ∀ user, NeverOlder settings user events) (db : Postgres ℚ)
    (htable : db.co_click.Of w.db) (client : RedisClient ℚ) (hsame : client.zsets = w.redis.zsets)
    (user : String) (hrecent : client.outcome (.zrevrange (recentKey user)) = .ok)
    (hscores : client.outcome .zscores = .ok) (cfg : RankerConfig ℚ)
    (hn : 1 ≤ cfg.personal_recent_clicks_n)
    (hcap : cfg.personal_recent_clicks_n ≤ settings.recent_clicks_cap)
    (cands : List (RankingCandidate ℚ))
    (hcands : ∀ c ∈ cands, (item c.item_id).map (·.category) = some c.category ∧
      c.category ≠ "_global") (numerics : Numerics ℚ) (now : ℚ) (features : Features ℚ)
    (hgathered : gatherFeatures numerics db (some client) now cfg cands
      (loadUserContext db (some client) (some user) cfg) = .ok features) :
    ∃ ids sessions, LastClicked (clicksOf user events) cfg.personal_recent_clicks_n.toNat ids ∧
      SessionsOf (others settings) events sessions ∧
      features "popularity" = some (cands.map fun c => some (clicksOn c.item_id events : ℚ)) ∧
      features "co_click" = some (cands.map fun c =>
        some ((∑ r ∈ ids.toFinset.erase c.item_id, together c.item_id r sessions : ℕ) : ℚ)) := by
  obtain ⟨sessions, h⟩ := reflects_run hwindow hkept hrun hnever
  obtain ⟨hpopularity, hco_click⟩ := gatherFeatures_columns hgathered
  refine ⟨_, sessions, lastClicked_take _ _, h.session, ?_, ?_⟩
  · rw [hpopularity, List.map_map]
    refine congrArg some (List.map_congr_left fun c hc => ?_)
    obtain ⟨hcategory, hglobal⟩ := hcands c hc
    simp only [Function.comp_apply, popularityOf, hscores, hsame]
    rw [h.top c.category hglobal, if_pos hcategory]
  · rw [hco_click, List.map_map, loadUserContext_of_clicks hrun (hnever user) hsame hrecent hn hcap,
      contextOf_recent]
    refine congrArg some (List.map_congr_left fun c hc => ?_)
    rw [Function.comp_apply, coClickOf, sum_share h.counts htable]

/-! ## Two clicks in one session -/

def twoClicks : List ClickEventDTO := [⟨1, .ok 1, "u1", "i1"⟩, ⟨2, .ok 2, "u1", "i2"⟩]

/-- `math.exp` at 0. -/
def expAtZero : Numerics ℚ :=
  ⟨id, id, fun x => if x = 0 then .ok 1 else .error ⟨"OverflowError", "math range error", ""⟩⟩

theorem features_of_clicks_two : ∃ w db features ids sessions,
    enrichAll Kafka.defaultSettings oneCategory twoClicks = some w ∧ db.co_click.Of w.db ∧
    gatherFeatures expAtZero db (some (answering w)) 0 defaultRankerConfig
      [candidate "i1", candidate "i3"]
      (loadUserContext db (some (answering w)) (some "u1") defaultRankerConfig) = .ok features ∧
    LastClicked [("i1", 1), ("i2", 2)] 20 ids ∧ SessionsOf 4 twoClicks sessions ∧
    features "popularity" = some [some 1, some 0] ∧
    features "co_click" = some ([candidate "i1", candidate "i3"].map fun c =>
      some ((∑ r ∈ ids.toFinset.erase c.item_id, together c.item_id r sessions : ℕ) : ℚ)) := by
  obtain ⟨w, hrun⟩ : ∃ w, enrichAll Kafka.defaultSettings oneCategory twoClicks = some w := ⟨_, rfl⟩
  have hnever : ∀ user, NeverOlder Kafka.defaultSettings user twoClicks := fun user =>
    neverOlder_of_sorted (by decide)
  obtain ⟨calls, hcalls⟩ := reflects_run (by decide) (by decide) hrun hnever
  let db : Postgres ℚ := { emptyPostgres with co_click := tableOf calls }
  have htable : db.co_click.Of w.db := tableOf_of hcalls.counts
  have hctx : loadUserContext db (some (answering w)) (some "u1") defaultRankerConfig =
      contextOf _ [] := loadUserContext_of_clicks hrun (hnever "u1") rfl rfl (by decide) (by decide)
  obtain ⟨features, hgathered⟩ : ∃ features, gatherFeatures expAtZero db (some (answering w)) 0
      defaultRankerConfig [candidate "i1", candidate "i3"]
      (loadUserContext db (some (answering w)) (some "u1") defaultRankerConfig) = .ok features := by
    have hrecency : recencyScores expAtZero.exp 0 [candidate "i1", candidate "i3"]
        defaultRankerConfig = .ok [1, 1] := by
      have hage : ageDays 0 0 = (0 : ℚ) := by simp [ageDays]
      simp [recencyScores, defaultRankerConfig, candidate, expAtZero, hage]
      rfl
    unfold gatherFeatures
    rw [hctx, hrecency]
    exact ⟨_, rfl⟩
  obtain ⟨ids, sessions, hids, hsessions, hpopularity, hco_click⟩ := features_of_clicks _ _ (by decide)
    (by decide) twoClicks w hrun hnever db htable (answering w) rfl "u1" rfl rfl defaultRankerConfig
    (by decide) (by decide) [candidate "i1", candidate "i3"] (by decide) expAtZero 0 features
    hgathered
  exact ⟨w, db, features, ids, sessions, hrun, htable, hgathered, hids, hsessions, hpopularity,
    hco_click⟩

end ClickRec.Ranker
