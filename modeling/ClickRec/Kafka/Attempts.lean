import ClickRec.Kafka.ExactlyOnce
import ClickRec.Kafka.DeletedItems
import ClickRec.Kafka.RecentClicks

/-! # Attempts that fail before one that succeeds

Each failed attempt stops after any of its side-effects. What a series of them has done to the
stores is kept in an invariant beside the side-effects that took effect. -/
namespace ClickRec.Kafka
set_option autoImplicit false

/-! ## Attempts -/

/-- A failed attempt: the caches of its process, and how many side-effects took effect. -/
structure Attempt where
  caches : ItemCaches
  steps : ℕ

/-- The side-effects of an attempt that finds the stores in this state. -/
def attemptOps (settings : Settings) (event : ClickEventDTO) (w : World) (caches : ItemCaches) :
    List Op :=
  enrichmentOps settings event { w with caches := caches }

/-- The stores, and the side-effects that took effect in each attempt so far. -/
structure Series where
  world : World
  took : List (List Op)

/-- One attempt; a side-effect that raises by itself did not take effect. -/
def attempt (settings : Settings) (event : ClickEventDTO) (s : Series) (a : Attempt) : Option Series :=
  let caches := (resolveItemMeta settings s.world.db a.caches event.item_id).2
  let ops := (attemptOps settings event s.world a.caches).take a.steps
  match runOps { s.world with caches := caches } ops with
  | (.error _, _) => none
  | (.ok (), w) => some ⟨w, s.took ++ [ops]⟩

/-- The last attempt, which is not stopped. -/
def lastAttempt (settings : Settings) (event : ClickEventDTO) (s : Series) (caches : ItemCaches) :
    Option Series :=
  match applyEnrichment settings event { s.world with caches := caches } with
  | (.error _, _) => none
  | (.ok (), w) => some ⟨w, s.took ++ [attemptOps settings event s.world caches]⟩

/-! ## How often a step took effect -/

def Op.commits : Op → Bool
  | .upsertCommit _ => true
  | _ => false

def Op.bumps (key : String) : Op → Bool
  | .zincrby k _ _ => k = key
  | _ => false

/-- In how many attempts such a step took effect. -/
def inEffect (counts : Op → Bool) (took : List (List Op)) : ℕ := took.countP fun ops => ops.any counts

/-! ## The side-effects of one attempt -/

section Effects
variable {settings : Settings} {event : ClickEventDTO} {category : String} {items : List String}

theorem inEffect_append (counts : Op → Bool) (took : List (List Op)) (ops : List Op) :
    inEffect counts (took ++ [ops]) = inEffect counts took + if ops.any counts then 1 else 0 := by
  simp [inEffect, List.countP_cons]

/-- The nine of them. -/
theorem effects_eq : effects settings event category items =
    [.upsertCommit (coClickPairs items),
      .zadd (recentKey event.user_id) event.item_id event.ts_ms,
      .zremrangebyrank (recentKey event.user_id) 0 (-(settings.recent_clicks_cap + 1)),
      .expire (recentKey event.user_id) settings.recent_clicks_ttl_seconds,
      .incr (counterKey category), .expire (counterKey category) settings.popularity_ttl_seconds,
      .zincrby (topKey category) 1 event.item_id, .zincrby (topKey "_global") 1 event.item_id,
      .send ⟨uuidStr event.event_id, event.user_id, event.item_id, category, "click"⟩] := rfl

theorem effects_take_succ (n : ℕ) : (effects settings event category items).take (n + 1) =
    .upsertCommit (coClickPairs items) ::
      (updateRecentClicks settings event.user_id event.item_id event.ts_ms ++
        incrementPopularity settings category event.item_id ++
          publishProfileUpdate event category).take n := rfl

theorem any_commits_take (k : ℕ) :
    ((effects settings event category items).take k).any Op.commits = decide (k ≠ 0) := by
  cases k with
  | zero => rfl
  | succ n => rw [effects_take_succ]; rfl

theorem countP_upserts_take (k : ℕ) (p : String × String) :
    ((effects settings event category items).take k).countP (Op.upserts p) =
      if k ≠ 0 ∧ p ∈ coClickPairs items then 1 else 0 := by
  cases k with
  | zero => rfl
  | succ n =>
    have hrest : ((updateRecentClicks settings event.user_id event.item_id event.ts_ms ++
        incrementPopularity settings category event.item_id ++
          publishProfileUpdate event category).take n).countP (Op.upserts p) = 0 := by
      refine List.countP_eq_zero.mpr fun op hop => ?_
      have hmem := List.mem_of_mem_take hop
      simp only [updateRecentClicks, incrementPopularity, publishProfileUpdate, List.cons_append,
        List.nil_append, List.mem_cons, List.not_mem_nil, or_false] at hmem
      rcases hmem with rfl | rfl | rfl | rfl | rfl | rfl | rfl | rfl <;> simp [Op.upserts]
    rw [effects_take_succ, List.countP_cons, hrest]
    simp [Op.upserts]

theorem topKey_injective {c d : String} (h : topKey c = topKey d) : c = d := by
  have hlist := congrArg String.toList h
  simp only [topKey, String.toList_append, List.append_cancel_left_eq] at hlist
  exact String.toList_injective hlist

theorem topKey_inj {c d : String} : topKey c = topKey d ↔ c = d :=
  ⟨topKey_injective, fun h => h ▸ rfl⟩

theorem countP_incr_effects (key : String) :
    (effects settings event category items).countP (fun op => op = .incr key) =
      if counterKey category = key then 1 else 0 := by
  simp [effects_eq, List.countP_cons]

theorem countP_bumps_effects (d : String) :
    (effects settings event category items).countP (Op.bumps (topKey d)) =
      (if category = d then 1 else 0) + if "_global" = d then 1 else 0 := by
  simp only [effects_eq, List.countP_cons, List.countP_nil, Op.bumps, topKey_inj]
  simp [add_comm]

end Effects

/-! ## What a run of side-effects adds -/

section Runs
variable {settings : Settings} {event : ClickEventDTO} {category : String} {items : List String}
  {ops : List Op} {w w' : World}

theorem runOps_quantity (f : World → ℕ) (counts : Op → Bool)
    (hop : ∀ op v v', Op.run v op = .ok v' → f v' = f v + if counts op then 1 else 0)
    (h : runOps w ops = (.ok (), w')) : f w' = f w + ops.countP counts := by
  induction ops generalizing w with
  | nil =>
    obtain rfl := runOps_nil h
    rfl
  | cons op ops ih =>
    obtain ⟨v, hrun, hrest⟩ := runOps_cons h
    rw [ih hrest, hop op w v hrun, List.countP_cons]
    omega

theorem runOps_co_click (h : runOps w ops = (.ok (), w')) (p : String × String) :
    (w'.db.co_click p).getD 0 = (w.db.co_click p).getD 0 + ops.countP (Op.upserts p) :=
  runOps_quantity (fun w => (w.db.co_click p).getD 0) _ (fun _ _ _ hop => Op.run_co_click hop p) h

theorem runOps_counters (h : runOps w ops = (.ok (), w')) (key : String) :
    w'.redis.counters key = w.redis.counters key + ops.countP fun op => op = .incr key :=
  runOps_quantity (fun w => w.redis.counters key) _
    (fun _ _ _ hop => by simpa using Op.run_counters hop key) h

theorem runOps_item (h : runOps w ops = (.ok (), w')) : w'.db.item = w.db.item := by
  induction ops generalizing w with
  | nil =>
    obtain rfl := runOps_nil h
    rfl
  | cons op ops ih =>
    obtain ⟨v, hrun, hrest⟩ := runOps_cons h
    rw [ih hrest, (Op.run_item hrun).1]

/-- The databases and Redis only depend on the databases and Redis before. -/
theorem Op.run_congr {op : Op} {v v' u u' : World} (h : op.run v = .ok u) (h' : op.run v' = .ok u')
    (hdb : v.db = v'.db) (hredis : v.redis = v'.redis) : u.db = u'.db ∧ u.redis = u'.redis := by
  cases op with
  | upsertCommit pairs =>
    obtain ⟨-, rfl⟩ := run_upsertCommit h
    obtain ⟨-, rfl⟩ := run_upsertCommit h'
    exact ⟨by rw [hdb], hredis⟩
  | zadd key member score =>
    cases h
    cases h'
    exact ⟨hdb, by rw [hredis]⟩
  | zremrangebyrank key start stop =>
    cases h
    cases h'
    exact ⟨hdb, by rw [hredis]⟩
  | expire key seconds =>
    cases h
    cases h'
    exact ⟨hdb, hredis⟩
  | incr key =>
    cases h
    cases h'
    exact ⟨hdb, by rw [hredis]⟩
  | zincrby key amount member =>
    cases h
    cases h'
    exact ⟨hdb, by rw [hredis]⟩
  | send update =>
    cases h
    cases h'
    exact ⟨hdb, hredis⟩

theorem runOps_congr {v v' u u' : World} (h : runOps v ops = (.ok (), u))
    (h' : runOps v' ops = (.ok (), u')) (hdb : v.db = v'.db) (hredis : v.redis = v'.redis) :
    u.db = u'.db ∧ u.redis = u'.redis := by
  induction ops generalizing v v' with
  | nil =>
    obtain rfl := runOps_nil h
    obtain rfl := runOps_nil h'
    exact ⟨hdb, hredis⟩
  | cons op ops ih =>
    obtain ⟨x, hop, hrest⟩ := runOps_cons h
    obtain ⟨x', hop', hrest'⟩ := runOps_cons h'
    obtain ⟨hdb, hredis⟩ := Op.run_congr hop hop' hdb hredis
    exact ih hrest hrest' hdb hredis

/-- One more in the popularity of the clicked item. -/
def bump (item_id : String) (s : SortedSet ℚ String) : SortedSet ℚ String := s.zincrby item_id 1

theorem onKey_topKey {op : Op} (hop : op ∈ effects settings event category items) (d : String)
    (s : SortedSet ℚ String) :
    op.onKey (topKey d) s = if op.bumps (topKey d) then bump event.item_id s else s := by
  simp only [effects_eq, List.mem_cons, List.not_mem_nil, or_false] at hop
  have hne := (topKey_ne_recentKey d event.user_id).symm
  rcases hop with rfl | rfl | rfl | rfl | rfl | rfl | rfl | rfl | rfl <;>
    simp [Op.onKey, Op.bumps, bump, hne]

theorem foldl_onKey_topKey (hops : ∀ op ∈ ops, op ∈ effects settings event category items)
    (d : String) (s : SortedSet ℚ String) : ops.foldl (fun s op => op.onKey (topKey d) s) s =
      (bump event.item_id)^[ops.countP (Op.bumps (topKey d))] s := by
  induction ops generalizing s with
  | nil => rfl
  | cons op ops ih =>
    rw [List.foldl_cons, ih fun o ho => hops o (List.mem_cons_of_mem op ho),
      onKey_topKey (hops op List.mem_cons_self), List.countP_cons]
    split
    · rw [Function.iterate_add_apply]
      rfl
    · rfl

/-! ## The history -/

/-- The history of a user after the click. -/
def clicked (settings : Settings) (event : ClickEventDTO) (user : String)
    (s : SortedSet ℚ String) : SortedSet ℚ String :=
  if event.user_id = user then
    (s.zadd event.item_id event.ts_ms).zremrangebyrank 0 (-(settings.recent_clicks_cap + 1))
  else s

theorem clicked_zadd (user : String) (s : SortedSet ℚ String) (hu : event.user_id = user) :
    clicked settings event user (s.zadd event.item_id event.ts_ms) =
      clicked settings event user s := by
  rw [clicked, clicked, if_pos hu, if_pos hu, SortedSet.zadd_zadd_self]

/-- The click a second time changes nothing. -/
theorem clicked_clicked (hcap : 0 < settings.recent_clicks_cap) (user : String)
    (s : SortedSet ℚ String) :
    clicked settings event user (clicked settings event user s) = clicked settings event user s := by
  by_cases hu : event.user_id = user
  · simp only [clicked, if_pos hu, SortedSet.zremrangebyrank_cap_of_nonneg _ hcap.le]
    exact SortedSet.keepTop_zadd_again _ _ _ _
  · simp only [clicked, if_neg hu]

theorem foldl_onKey_same {key : String} (h : ∀ op ∈ ops, ∀ s, op.onKey key s = s)
    (s : SortedSet ℚ String) : ops.foldl (fun s op => op.onKey key s) s = s := by
  induction ops with
  | nil => rfl
  | cons op ops ih =>
    rw [List.foldl_cons, h op List.mem_cons_self]
    exact ih fun o ho => h o (List.mem_cons_of_mem op ho)

/-- What comes after the trimming leaves the histories alone, and so does everything for other
users. -/
theorem onKey_recentKey_same {op : Op} {user : String}
    (hop : op ∈ (effects settings event category items).drop 3 ∨
      op ∈ effects settings event category items ∧ event.user_id ≠ user)
    (s : SortedSet ℚ String) : op.onKey (recentKey user) s = s := by
  have htop := fun c => topKey_ne_recentKey c user
  obtain hop | ⟨hop, hu⟩ := hop
  · simp only [effects_eq, List.drop_succ_cons, List.drop_zero, List.mem_cons, List.not_mem_nil,
      or_false] at hop
    rcases hop with rfl | rfl | rfl | rfl | rfl | rfl <;> simp [Op.onKey, htop]
  · have hkey : recentKey event.user_id ≠ recentKey user := fun h => hu (recentKey_injective h)
    simp only [effects_eq, List.mem_cons, List.not_mem_nil, or_false] at hop
    rcases hop with rfl | rfl | rfl | rfl | rfl | rfl | rfl | rfl | rfl <;>
      simp [Op.onKey, htop, hkey]

/-- After a part of the side-effects the click still leads to the same history. -/
theorem clicked_take (hcap : 0 < settings.recent_clicks_cap) (k : ℕ) (user : String)
    (s : SortedSet ℚ String) :
    clicked settings event user (((effects settings event category items).take k).foldl
      (fun s op => op.onKey (recentKey user) s) s) = clicked settings event user s := by
  by_cases hu : event.user_id = user
  · match k with
    | 0 => rfl
    | 1 => rfl
    | 2 =>
      have hadd : ((effects settings event category items).take 2).foldl
          (fun s op => op.onKey (recentKey user) s) s =
            s.zadd event.item_id event.ts_ms := by
        rw [← hu]
        exact if_pos rfl
      rw [hadd, clicked_zadd user s hu]
    | n + 3 =>
      have hthree : ((effects settings event category items).take 3).foldl
          (fun s op => op.onKey (recentKey user) s) s = clicked settings event user s := by
        simp [effects_eq, Op.onKey, clicked, hu]
      have hsplit : (effects settings event category items).take (n + 3) =
          (effects settings event category items).take 3 ++
            ((effects settings event category items).drop 3).take n := by
        rw [Nat.add_comm n 3, List.take_add]
      rw [hsplit, List.foldl_append, hthree, foldl_onKey_same fun op hop s =>
        onKey_recentKey_same (.inl (List.mem_of_mem_take hop)) s, clicked_clicked hcap]
  · rw [foldl_onKey_same fun op hop s =>
      onKey_recentKey_same (.inr ⟨List.mem_of_mem_take hop, hu⟩) s]

end Runs

/-! ## The series -/

section Series
variable {settings : Settings} {event : ClickEventDTO} {row : ItemMeta} {w : World} {s s' : Series}

/-- The pairs of a clean run. -/
def cleanPairs (settings : Settings) (event : ClickEventDTO) (w : World) : List (String × String) :=
  coClickPairs (sessionItems settings w.redis event)

/-- The count of a pair after a clean run. -/
def cleanCount (settings : Settings) (event : ClickEventDTO) (w : World) (p : String × String) : ℕ :=
  (w.db.co_click p).getD 0 + if (cleanPairs settings event w).contains p then 1 else 0

/-- After some attempts that began in `w`. -/
structure SeriesInv (settings : Settings) (event : ClickEventDTO) (row : ItemMeta) (w : World)
    (s : Series) : Prop where
  item : s.world.db.item = w.db.item
  part : ∀ ops ∈ s.took, ∃ k items, ops = (effects settings event row.category items).take k
  fresh : inEffect Op.commits s.took = 0 → s.world.db = w.db ∧ s.world.redis = w.redis
  exist : inEffect Op.commits s.took ≠ 0 → ∀ q ∈ cleanPairs settings event w,
    (w.db.item q.1).isSome ∧ (w.db.item q.2).isSome
  co_click : inEffect Op.commits s.took ≠ 0 → ∀ p,
    cleanCount settings event w p ≤ (s.world.db.co_click p).getD 0 ∧
      (s.world.db.co_click p).getD 0 ≤
        cleanCount settings event w p + (inEffect Op.commits s.took - 1)
  recent : ∀ user, clicked settings event user (s.world.redis.zsets (recentKey user)) =
    clicked settings event user (w.redis.zsets (recentKey user))
  counter : ∀ key, s.world.redis.counters key =
    w.redis.counters key + s.took.flatten.countP fun op => op = .incr key
  top : ∀ category, s.world.redis.zsets (topKey category) =
    (bump event.item_id)^[s.took.flatten.countP (Op.bumps (topKey category))]
      (w.redis.zsets (topKey category))

theorem seriesInv_start (w : World) : SeriesInv settings event row w ⟨w, []⟩ where
  item := rfl
  part ops hops := by cases hops
  fresh _ := ⟨rfl, rfl⟩
  exist h := absurd rfl h
  co_click h := absurd rfl h
  recent _ := rfl
  counter _ := rfl
  top _ := rfl

theorem upsert_exist {pairs : List (String × String)} {ops : List Op} {v v' : World}
    (h : runOps v (.upsertCommit pairs :: ops) = (.ok (), v')) :
    ∀ q ∈ pairs, (v.db.item q.1).isSome ∧ (v.db.item q.2).isSome := by
  obtain ⟨_, hop, -⟩ := runOps_cons h
  exact (Op.run_upsertCommit hop).1

/-! One attempt after these, in a process with any caches. -/

section Took
variable {k : ℕ} {caches : ItemCaches} {v : World} {ops : List Op}

theorem commits_took (took : List (List Op)) {items : List String}
    (hops : ops = (effects settings event row.category items).take k) :
    inEffect Op.commits (took ++ [ops]) = inEffect Op.commits took + if k ≠ 0 then 1 else 0 := by
  rw [inEffect_append, hops, any_commits_take]
  simp

/-- Before the first commit the window is still that of the clean run. -/
theorem SeriesInv.window (h : SeriesInv settings event row w s)
    (hnone : inEffect Op.commits s.took = 0) :
    coClickPairs (sessionItems settings s.world.redis event) = cleanPairs settings event w := by
  rw [(h.fresh hnone).2, cleanPairs]

theorem fresh_took (h : SeriesInv settings event row w s) (hops : ops =
      (effects settings event row.category (sessionItems settings s.world.redis event)).take k)
    (hrun : runOps { s.world with caches := caches } ops = (.ok (), v))
    (hnone : inEffect Op.commits (s.took ++ [ops]) = 0) : v.db = w.db ∧ v.redis = w.redis := by
  rw [commits_took s.took hops] at hnone
  have hk : k = 0 := by
    by_contra hk
    rw [if_pos hk] at hnone
    omega
  rw [hops, hk] at hrun
  obtain rfl := runOps_nil hrun
  exact h.fresh (by omega)

theorem exist_took (h : SeriesInv settings event row w s) (hops : ops =
      (effects settings event row.category (sessionItems settings s.world.redis event)).take k)
    (hrun : runOps { s.world with caches := caches } ops = (.ok (), v))
    (hsome : inEffect Op.commits (s.took ++ [ops]) ≠ 0) :
    ∀ q ∈ cleanPairs settings event w, (w.db.item q.1).isSome ∧ (w.db.item q.2).isSome := by
  by_cases hnone : inEffect Op.commits s.took = 0
  · obtain ⟨n, rfl⟩ : ∃ n, k = n + 1 := Nat.exists_eq_succ_of_ne_zero fun hk => by
      rw [commits_took s.took hops, hk] at hsome
      exact hsome (by simpa using hnone)
    rw [hops, effects_take_succ] at hrun
    have hexist := upsert_exist hrun
    rw [h.window hnone] at hexist
    rwa [show s.world.db.item = w.db.item from h.item] at hexist
  · exact h.exist hnone

theorem co_click_took (h : SeriesInv settings event row w s) (hops : ops =
      (effects settings event row.category (sessionItems settings s.world.redis event)).take k)
    (hrun : runOps { s.world with caches := caches } ops = (.ok (), v))
    (hsome : inEffect Op.commits (s.took ++ [ops]) ≠ 0) (p : String × String) :
    cleanCount settings event w p ≤ (v.db.co_click p).getD 0 ∧
      (v.db.co_click p).getD 0 ≤
        cleanCount settings event w p + (inEffect Op.commits (s.took ++ [ops]) - 1) := by
  have hcount : (v.db.co_click p).getD 0 = (s.world.db.co_click p).getD 0 +
      if k ≠ 0 ∧ p ∈ coClickPairs (sessionItems settings s.world.redis event) then 1 else 0 := by
    rw [← countP_upserts_take, ← hops]
    exact runOps_co_click hrun p
  rw [commits_took s.took hops] at hsome ⊢
  by_cases hk : k = 0
  · -- nothing took effect
    rw [if_neg (not_not.mpr hk)] at hsome ⊢
    rw [if_neg fun hboth => hboth.1 hk] at hcount
    rw [hcount]
    exact h.co_click (by omega) p
  · by_cases hnone : inEffect Op.commits s.took = 0
    · -- the first commit is that of the clean run
      have hdb : (s.world.db.co_click p).getD 0 = (w.db.co_click p).getD 0 := by
        rw [(h.fresh hnone).1]
      have hclean : cleanCount settings event w p = (v.db.co_click p).getD 0 := by
        rw [hcount, cleanCount, h.window hnone]
        simp only [hk, ne_eq, not_false_eq_true, true_and, List.contains_iff_mem]
        rw [hdb]
      rw [hclean]
      exact ⟨le_rfl, Nat.le_add_right _ _⟩
    · -- a further commit adds at most one, whatever its window
      obtain ⟨hlow, hhigh⟩ := h.co_click hnone p
      have hone : (if k ≠ 0 ∧ p ∈ coClickPairs (sessionItems settings s.world.redis event) then 1
          else 0) ≤ 1 := by split <;> omega
      rw [hcount]
      simp only [if_pos hk]
      omega

theorem seriesInv_took (hcap : 0 < settings.recent_clicks_cap)
    (h : SeriesInv settings event row w s) (hops : ops =
      (effects settings event row.category (sessionItems settings s.world.redis event)).take k)
    (hrun : runOps { s.world with caches := caches } ops = (.ok (), v)) :
    SeriesInv settings event row w ⟨v, s.took ++ [ops]⟩ where
  item := (runOps_item hrun).trans h.item
  part o ho := by
    obtain ho | ho := List.mem_append.mp ho
    · exact h.part o ho
    · exact ⟨k, _, (List.mem_singleton.mp ho).trans hops⟩
  fresh := fresh_took h hops hrun
  exist := exist_took h hops hrun
  co_click := co_click_took h hops hrun
  recent user := by
    have hzset := runOps_zsets hrun (recentKey user)
    simp only at hzset ⊢
    rw [hzset, hops, clicked_take hcap, h.recent]
  counter key := by
    have hcounter := runOps_counters hrun key
    simp only at hcounter ⊢
    rw [hcounter, h.counter, List.flatten_append, List.countP_append, List.flatten_singleton,
      Nat.add_assoc]
  top category := by
    have hzset := runOps_zsets hrun (topKey category)
    have hmem : ∀ op ∈ ops, op ∈ effects settings event row.category
        (sessionItems settings s.world.redis event) := fun op hop =>
      List.mem_of_mem_take (hops ▸ hop)
    simp only at hzset ⊢
    rw [hzset, foldl_onKey_topKey hmem, h.top, List.flatten_append, List.countP_append,
      List.flatten_singleton, Nat.add_comm, Function.iterate_add_apply]

end Took

/-! ## An attempt in the series -/

/-- A process with these caches finds the item, with this row. -/
def Knows (settings : Settings) (event : ClickEventDTO) (row : ItemMeta) (w : World)
    (caches : ItemCaches) : Prop :=
  (resolveItemMeta settings w.db caches event.item_id).1 = some row

theorem Knows.of_item {v : World} {caches : ItemCaches} (h : Knows settings event row w caches)
    (hitem : v.db.item = w.db.item) : Knows settings event row v caches := by
  unfold Knows resolveItemMeta at *
  rwa [hitem]

theorem Knows.attemptOps {caches : ItemCaches} (h : Knows settings event row w caches)
    (hts : event.converts = true) : attemptOps settings event w caches =
      effects settings event row.category (sessionItems settings w.redis event) := by
  exact enrichmentOps_of_converts hts h

theorem Knows.resolves {caches : ItemCaches} (h : Knows settings event row w caches) :
    resolveItemMeta settings w.db caches event.item_id =
      (some row, (resolveItemMeta settings w.db caches event.item_id).2) := by
  exact Prod.ext h rfl

theorem Knows.applyEnrichment {caches : ItemCaches} (h : Knows settings event row w caches)
    (hts : event.converts = true) : applyEnrichment settings event { w with caches := caches } =
      runOps { w with caches := (resolveItemMeta settings w.db caches event.item_id).2 }
        (effects settings event row.category (sessionItems settings w.redis event)) := by
  exact applyEnrichment_of_converts hts h.resolves

/-- An event of which an attempt succeeded converts. -/
theorem Knows.converts {caches : ItemCaches} (h : Knows settings event row s.world caches)
    (hlast : lastAttempt settings event s caches = some s') : event.converts = true := by
  unfold lastAttempt at hlast
  split at hlast
  · cases hlast
  · rename_i v hrun
    exact converts_of_applyEnrichment h.resolves hrun

theorem attempt_eq_some {a : Attempt} (h : attempt settings event s a = some s') :
    ∃ v, runOps { s.world with
          caches := (resolveItemMeta settings s.world.db a.caches event.item_id).2 }
        ((attemptOps settings event s.world a.caches).take a.steps) = (.ok (), v) ∧
      s' = ⟨v, s.took ++ [(attemptOps settings event s.world a.caches).take a.steps]⟩ := by
  unfold attempt at h
  simp only at h
  split at h
  · cases h
  · rename_i v hrun
    exact ⟨v, hrun, (Option.some.inj h).symm⟩

theorem attempt_item {a : Attempt} (h : attempt settings event s a = some s') :
    s'.world.db.item = s.world.db.item := by
  obtain ⟨v, hrun, rfl⟩ := attempt_eq_some h
  exact (runOps_item hrun :)

/-- The last attempt is one that is not stopped before its ninth and last side-effect. -/
theorem lastAttempt_eq {caches : ItemCaches} (h : Knows settings event row s.world caches)
    (hts : event.converts = true) :
    lastAttempt settings event s caches = attempt settings event s ⟨caches, 9⟩ := by
  have hall : (attemptOps settings event s.world caches).take 9 =
      attemptOps settings event s.world caches := by
    rw [h.attemptOps hts]
    rfl
  rw [lastAttempt, attempt, h.applyEnrichment hts, hall, h.attemptOps hts]

theorem seriesInv_attempt (hcap : 0 < settings.recent_clicks_cap) (hts : event.converts = true)
    (h : SeriesInv settings event row w s) {a : Attempt}
    (hknown : Knows settings event row w a.caches)
    (hstep : attempt settings event s a = some s') : SeriesInv settings event row w s' := by
  obtain ⟨v, hrun, rfl⟩ := attempt_eq_some hstep
  have hops := (hknown.of_item h.item).attemptOps hts
  rw [hops] at hrun ⊢
  exact seriesInv_took hcap h rfl hrun

theorem seriesInv_exec (hcap : 0 < settings.recent_clicks_cap) (hts : event.converts = true)
    {attempts : List Attempt}
    (hknown : ∀ a ∈ attempts, Knows settings event row w a.caches)
    (hrun : Trace.exec (attempt settings event) ⟨w, []⟩ attempts = some s) :
    SeriesInv settings event row w s :=
  Trace.exec_invariant (C := fun _ a => Knows settings event row w a.caches)
    (fun _ _ _ h hC hstep => seriesInv_attempt hcap hts h hC hstep) (Trace.along_of_mem hknown) hrun
    (seriesInv_start w)

/-- What is said of the side-effects that took effect can be said of where the attempts stopped. -/
theorem forall_took_iff (hts : event.converts = true) {Q : List Op → Prop} {P : ℕ → Prop}
    (hQ : ∀ k items, Q ((effects settings event row.category items).take k) ↔ P k)
    {attempts : List Attempt} (hknown : ∀ a ∈ attempts, Knows settings event row w a.caches)
    (hrun : Trace.exec (attempt settings event) ⟨w, []⟩ attempts = some s) :
    s.world.db.item = w.db.item ∧
      ((∀ ops ∈ s.took, Q ops) ↔ ∀ a ∈ attempts, P a.steps) := by
  induction attempts using List.reverseRecOn generalizing s with
  | nil =>
    obtain rfl : ⟨w, []⟩ = s := by simpa using hrun
    simp
  | append_singleton attempts a ih =>
    obtain ⟨u, hbefore, hlast⟩ := Trace.exec_append.mp hrun
    obtain ⟨u', hstep, hnil⟩ := Trace.exec_cons.mp hlast
    obtain rfl : u' = s := by simpa using hnil
    obtain ⟨hitem, hiff⟩ := ih (fun b hb => hknown b (List.mem_append_left _ hb)) hbefore
    obtain ⟨v, hops, rfl⟩ := attempt_eq_some hstep
    have hknows : Knows settings event row u.world a.caches := (hknown a (by simp)).of_item hitem
    refine ⟨(runOps_item hops).trans hitem, ?_⟩
    rw [hknows.attemptOps hts]
    simp only [List.mem_append, List.mem_singleton, or_imp, forall_and, forall_eq, hQ, hiff]

end Series

end ClickRec.Kafka
