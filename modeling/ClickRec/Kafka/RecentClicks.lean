import ClickRec.Kafka.Enrichment
import ClickRec.Lib.Trace

/-! # The recent-click history over whole runs

`user:{id}:recent_clicks` holds the greatest timestamp of each of the `recent_clicks_cap` most
recently clicked items as long as no click on one of them is older than it is there: `ZADD`
overwrites the score, in either direction. -/
namespace ClickRec.Kafka
set_option autoImplicit false

/-! ## The keys of the sorted sets -/

theorem recentKey_injective {u v : String} (h : recentKey u = recentKey v) : u = v := by
  have hlist := congrArg String.toList h
  simp only [recentKey, String.toList_append, List.append_assoc, List.append_cancel_left_eq,
    List.append_cancel_right_eq] at hlist
  exact String.toList_injective hlist

theorem topKey_ne_recentKey (category user : String) : topKey category ≠ recentKey user := by
  intro h
  have hhead := congrArg (fun s => s.toList.head?) h
  simp [recentKey, topKey] at hhead

/-! ## What a run of side-effects does to one sorted set -/

/-- What a side-effect does to the sorted set at `key`. -/
def Op.onKey (key : String) (s : SortedSet ℚ String) : Op → SortedSet ℚ String
  | .zadd k member score => if k = key then s.zadd member score else s
  | .zremrangebyrank k start stop => if k = key then s.zremrangebyrank start stop else s
  | .zincrby k amount member => if k = key then s.zincrby member amount else s
  | _ => s

theorem onZset_zsets (redis : Redis) (k key : String)
    (f : SortedSet ℚ String → SortedSet ℚ String) :
    (redis.onZset k f).zsets key = if k = key then f (redis.zsets key) else redis.zsets key := by
  by_cases hk : k = key
  · subst hk
    simp [Redis.onZset]
  · simp [Redis.onZset, hk, Function.update_of_ne (Ne.symm hk)]

theorem Op.run_zsets {op : Op} {w w' : World} (h : op.run w = .ok w') (key : String) :
    w'.redis.zsets key = op.onKey key (w.redis.zsets key) := by
  cases op with
  | upsertCommit pairs =>
    obtain ⟨-, rfl⟩ := run_upsertCommit h
    rfl
  | zadd k member score =>
    simp only [run, Except.ok.injEq] at h
    rw [← h, onZset_zsets]
    rfl
  | zremrangebyrank k start stop =>
    simp only [run, Except.ok.injEq] at h
    rw [← h, onZset_zsets]
    rfl
  | zincrby k amount member =>
    simp only [run, Except.ok.injEq] at h
    rw [← h, onZset_zsets]
    rfl
  | expire k seconds =>
    simp only [run, Except.ok.injEq] at h
    rw [← h]
    rfl
  | incr k =>
    simp only [run, Except.ok.injEq] at h
    rw [← h]
    rfl
  | send update =>
    simp only [run, Except.ok.injEq] at h
    rw [← h]
    rfl

theorem runOps_zsets {ops : List Op} {w w' : World} (h : runOps w ops = (.ok (), w'))
    (key : String) :
    w'.redis.zsets key = ops.foldl (fun s op => op.onKey key s) (w.redis.zsets key) := by
  induction ops generalizing w with
  | nil =>
    obtain rfl := runOps_nil h
    rfl
  | cons op ops ih =>
    obtain ⟨v, hop, hrest⟩ := runOps_cons h
    rw [ih hrest, Op.run_zsets hop, List.foldl_cons]

/-- The sorted set after a click: that user's gains the click and is trimmed. -/
theorem effects_onKey (settings : Settings) (event : ClickEventDTO) (category : String)
    (session_items : List String) (user : String) (s : SortedSet ℚ String) :
    (effects settings event category session_items).foldl
      (fun s op => op.onKey (recentKey user) s) s =
    if event.user_id = user then
      (s.zadd event.item_id event.ts_ms).zremrangebyrank 0 (-(settings.recent_clicks_cap + 1))
    else s := by
  by_cases hu : event.user_id = user
  · simp [effects, upsertCoClicks, updateRecentClicks, incrementPopularity, publishProfileUpdate,
      Op.onKey, hu, topKey_ne_recentKey]
  · have hkey : recentKey event.user_id ≠ recentKey user := fun h => hu (recentKey_injective h)
    simp [effects, upsertCoClicks, updateRecentClicks, incrementPopularity, publishProfileUpdate,
      Op.onKey, hu, hkey, topKey_ne_recentKey]

/-! ## Runs of enriched clicks -/

/-- One click that is enriched: its item is resolved and no side-effect raises. -/
def enrich (settings : Settings) (w : World) (event : ClickEventDTO) : Option World :=
  match (resolveItemMeta settings w.db w.caches event.item_id).1, applyEnrichment settings event w with
  | some _, (.ok (), w') => some w'
  | _, _ => none

/-- The state after these clicks, from an empty Redis. -/
abbrev enrichAll (settings : Settings) (item : String → Option ItemMeta) :
    List ClickEventDTO → Option World :=
  Trace.exec (enrich settings) (World.start item)

theorem enrich_eq_some {settings : Settings} {w w' : World} {event : ClickEventDTO}
    (h : enrich settings w event = some w') : ∃ row caches,
      resolveItemMeta settings w.db w.caches event.item_id = (some row, caches) ∧
      runOps { w with caches := caches }
        (effects settings event row.category (sessionItems settings w.redis event)) = (.ok (), w') := by
  unfold enrich at h
  obtain ⟨⟨row, caches⟩, hres⟩ : ∃ r, resolveItemMeta settings w.db w.caches event.item_id = r :=
    ⟨_, rfl⟩
  rw [hres] at h
  cases row with
  | none => cases h
  | some row =>
    simp only at h
    split at h
    · rename_i v _ hrun
      obtain rfl : v = w' := Option.some.inj h
      rw [applyEnrichment_of_converts (converts_of_applyEnrichment hres hrun) hres] at hrun
      exact ⟨row, caches, hres, hrun⟩
    · cases h

theorem enrich_recent {settings : Settings} {w w' : World} {event : ClickEventDTO}
    (h : enrich settings w event = some w') (user : String) :
    w'.redis.zsets (recentKey user) = if event.user_id = user then
      ((w.redis.zsets (recentKey user)).zadd event.item_id event.ts_ms).zremrangebyrank 0
        (-(settings.recent_clicks_cap + 1))
    else w.redis.zsets (recentKey user) := by
  obtain ⟨row, caches, -, hrun⟩ := enrich_eq_some h
  rw [runOps_zsets hrun, effects_onKey]

/-! ## The history the clicks stand for -/

/-- The clicks of one user. -/
def clicksOf (user : String) (events : List ClickEventDTO) : List (String × ℚ) :=
  (events.filter (·.user_id = user)).map fun event => (event.item_id, event.ts_ms)

/-- The `recent_clicks_cap` items with the greatest last-click timestamp, each with it. -/
def lastClicks (settings : Settings) (user : String) (events : List ClickEventDTO) :
    SortedSet ℚ String :=
  .keepTop settings.recent_clicks_cap.toNat (.greatest (clicksOf user events))

/-- After every click so far the history is that of the clicks. -/
def HistoryOfClicks (settings : Settings) (item : String → Option ItemMeta) (user : String)
    (events : List ClickEventDTO) : Prop :=
  ∀ p w, p <+: events → enrichAll settings item p = some w →
    w.redis.zsets (recentKey user) = lastClicks settings user p

/-- No click is older than what the history has for its item. -/
def NeverOlder (settings : Settings) (user : String) (events : List ClickEventDTO) : Prop :=
  ∀ p event, p ++ [event] <+: events → event.user_id = user →
    ∀ ts, (lastClicks settings user p).zscore event.item_id = some ts → ts ≤ event.ts_ms

theorem clicksOf_append (user : String) (p : List ClickEventDTO) (event : ClickEventDTO) :
    clicksOf user (p ++ [event]) =
      clicksOf user p ++
        if event.user_id = user then [(event.item_id, event.ts_ms)] else [] := by
  by_cases hu : event.user_id = user <;> simp [clicksOf, hu]

theorem lastClicks_append {settings : Settings} {user : String} {p : List ClickEventDTO}
    {event : ClickEventDTO} (hu : event.user_id = user) :
    lastClicks settings user (p ++ [event]) = .keepTop settings.recent_clicks_cap.toNat
      ((SortedSet.greatest (clicksOf user p)).zaddGt event.item_id event.ts_ms) := by
  rw [lastClicks, clicksOf_append, if_pos hu, SortedSet.greatest_append]

theorem lastClicks_append_other {settings : Settings} {user : String} {p : List ClickEventDTO}
    {event : ClickEventDTO} (hu : event.user_id ≠ user) :
    lastClicks settings user (p ++ [event]) = lastClicks settings user p := by
  rw [lastClicks, clicksOf_append, if_neg hu, List.append_nil, lastClicks]

/-- A click on a history as it should be. -/
theorem enrich_lastClicks {settings : Settings} {w w' : World} {user : String}
    {p : List ClickEventDTO} {event : ClickEventDTO} (hu : event.user_id = user)
    (hw : w.redis.zsets (recentKey user) = lastClicks settings user p)
    (h : enrich settings w event = some w') :
    w'.redis.zsets (recentKey user) = .keepTop settings.recent_clicks_cap.toNat
      ((lastClicks settings user p).zadd event.item_id event.ts_ms) := by
  rw [enrich_recent h, if_pos hu, hw]
  apply SortedSet.zremrangebyrank_cap
  have hcard := SortedSet.card_zadd_le (lastClicks settings user p) event.item_id event.ts_ms
  have hkept := SortedSet.card_keepTop_le settings.recent_clicks_cap.toNat
    (SortedSet.greatest (clicksOf user p))
  rw [lastClicks] at hcard ⊢
  omega

theorem history_step {settings : Settings} {w w' : World} {user : String} {p : List ClickEventDTO}
    {event : ClickEventDTO} (hw : w.redis.zsets (recentKey user) = lastClicks settings user p)
    (h : enrich settings w event = some w')
    (hnew : event.user_id = user → ∀ ts,
      (lastClicks settings user p).zscore event.item_id = some ts → ts ≤ event.ts_ms) :
    w'.redis.zsets (recentKey user) = lastClicks settings user (p ++ [event]) := by
  by_cases hu : event.user_id = user
  · rw [enrich_lastClicks hu hw h, lastClicks_append hu]
    exact SortedSet.keepTop_zaddGt (hnew hu)
  · rw [enrich_recent h, if_neg hu, hw, lastClicks_append_other hu]

theorem history_start (settings : Settings) (item : String → Option ItemMeta) (user : String) :
    (World.start item).redis.zsets (recentKey user) = lastClicks settings user [] :=
  (SortedSet.keepTop_of_card_le (Nat.zero_le _)).symm

theorem historyOfClicks_iff {settings : Settings} {item : String → Option ItemMeta} {user : String}
    {events : List ClickEventDTO} {w : World} (hrun : enrichAll settings item events = some w) :
    HistoryOfClicks settings item user events ↔ NeverOlder settings user events := by
  constructor
  · intro h p event hp hu ts hts
    by_contra hlt
    obtain ⟨rest, rfl⟩ := hp
    obtain ⟨v, hv, -⟩ := Trace.exec_append.mp hrun
    obtain ⟨u, hpre, hlast⟩ := Trace.exec_append.mp hv
    obtain ⟨v', hevent, hnil⟩ := Trace.exec_cons.mp hlast
    obtain rfl : v' = v := by simpa using hnil
    have hbefore := h p u ⟨event :: rest, by simp⟩ hpre
    have hafter := h (p ++ [event]) v' ⟨rest, rfl⟩ hv
    rw [enrich_lastClicks hu hbefore hevent, lastClicks_append hu] at hafter
    exact SortedSet.keepTop_zadd_ne_zaddGt hts (not_le.mp hlt) hafter
  · intro h p
    induction p using List.reverseRecOn with
    | nil =>
      intro v _ hv
      obtain rfl : World.start item = v := by simpa using hv
      exact history_start settings item user
    | append_singleton p event ih =>
      intro v hp hv
      obtain ⟨u, hpre, hlast⟩ := Trace.exec_append.mp hv
      obtain ⟨v', hevent, hnil⟩ := Trace.exec_cons.mp hlast
      obtain rfl : v' = v := by simpa using hnil
      have hbefore := ih u ((List.prefix_append p [event]).trans hp) hpre
      exact history_step hbefore hevent (h p event hp)

/-! ## Other orders and replays -/

theorem lastClicks_eq_of_mem_iff {settings : Settings} {user : String} {l r : List ClickEventDTO}
    (h : ∀ event, event ∈ l ↔ event ∈ r) :
    lastClicks settings user l = lastClicks settings user r := by
  have hclicks : ∀ e, e ∈ clicksOf user l ↔ e ∈ clicksOf user r := fun e => by
    simp only [clicksOf, List.mem_map, List.mem_filter, h]
  rw [lastClicks, SortedSet.greatest_eq_of_mem_iff hclicks, lastClicks]

theorem replay_unchanged_iff {settings : Settings} {w w' : World} {user : String}
    {events : List ClickEventDTO} {event : ClickEventDTO} (hmem : event ∈ events)
    (hu : event.user_id = user)
    (hw : w.redis.zsets (recentKey user) = lastClicks settings user events)
    (h : enrich settings w event = some w') :
    w'.redis.zsets (recentKey user) = w.redis.zsets (recentKey user) ↔
      ∀ ts, (lastClicks settings user events).zscore event.item_id = some ts →
        ts ≤ event.ts_ms := by
  have hsame : lastClicks settings user (events ++ [event]) = lastClicks settings user events :=
    lastClicks_eq_of_mem_iff fun e => by
      simp only [List.mem_append, List.mem_singleton]
      exact ⟨fun he => he.elim id fun he => he ▸ hmem, .inl⟩
  constructor
  · intro heq ts hts
    by_contra hlt
    rw [enrich_lastClicks hu hw h, hw] at heq
    have hgt : lastClicks settings user (events ++ [event]) = _ := lastClicks_append hu
    exact SortedSet.keepTop_zadd_ne_zaddGt hts (not_le.mp hlt) (heq.trans (hsame.symm.trans hgt))
  · intro hle
    rw [history_step hw h fun _ => hle, hsame, hw]

/-- **The history is that of the clicks.** In a run of enriched clicks the recent-click history of a
user is after every click that of the clicks so far exactly when no click on an item of the history
is older than it is there. Then every other order of the same clicks with this property gives the
same history, and replaying a click changes nothing exactly when it is not older either. -/
theorem recent_clicks_of_clicks_iff (settings : Settings) (item : String → Option ItemMeta)
    (user : String) (events : List ClickEventDTO) (w : World)
    (hrun : enrichAll settings item events = some w) :
    (HistoryOfClicks settings item user events ↔ NeverOlder settings user events) ∧
    (NeverOlder settings user events →
      (∀ events' w', events'.Perm events → enrichAll settings item events' = some w' →
        NeverOlder settings user events' →
          w'.redis.zsets (recentKey user) = w.redis.zsets (recentKey user)) ∧
      (∀ event w', event ∈ events → event.user_id = user → enrich settings w event = some w' →
        (w'.redis.zsets (recentKey user) = w.redis.zsets (recentKey user) ↔
          ∀ ts, (lastClicks settings user events).zscore event.item_id = some ts →
            ts ≤ event.ts_ms))) := by
  refine ⟨historyOfClicks_iff hrun, fun hnever => ?_⟩
  have hw : w.redis.zsets (recentKey user) = lastClicks settings user events :=
    (historyOfClicks_iff hrun).mpr hnever events w (List.prefix_refl _) hrun
  constructor
  · intro events' w' hperm hrun' hnever'
    rw [(historyOfClicks_iff hrun').mpr hnever' events' w' (List.prefix_refl _) hrun', hw]
    exact lastClicks_eq_of_mem_iff fun event => hperm.mem_iff
  · intro event w' hmem hu hstep
    exact replay_unchanged_iff hmem hu hw hstep

/-! ## A replay after a newer click -/

/-- A catalogue of one item. -/
def oneItem (id : String) : Option ItemMeta := if id = "i1" then some ⟨"shoes", 10⟩ else none

def clickAt (event_id : Uuid) (ts_ms : ℚ) : ClickEventDTO := ⟨event_id, .ok ts_ms, "u1", "i1"⟩

theorem recent_clicks_of_clicks_iff_two :
    HistoryOfClicks defaultSettings oneItem "u1" [clickAt 1 1, clickAt 2 2] := by
  obtain ⟨w, hrun⟩ : ∃ w, enrichAll defaultSettings oneItem [clickAt 1 1, clickAt 2 2] = some w :=
    ⟨_, rfl⟩
  refine (recent_clicks_of_clicks_iff _ _ "u1" _ w hrun).1.mpr ?_
  intro p event hp _ ts hts
  obtain ⟨rest, hrest⟩ := hp
  rcases p with _ | ⟨first, _ | ⟨second, more⟩⟩
  · cases hts
  · obtain ⟨rfl, rfl, -⟩ : first = clickAt 1 1 ∧ event = clickAt 2 2 ∧ rest = [] := by
      simpa using hrest
    obtain rfl : 1 = ts := Option.some.inj hts
    decide
  · have hlen := congrArg List.length hrest
    simp at hlen

theorem replayed_click_moves_history_back :
    ¬ ∀ (settings : Settings) (item : String → Option ItemMeta) (user : String)
      (events : List ClickEventDTO) (w : World), enrichAll settings item events = some w →
        HistoryOfClicks settings item user events := by
  intro h
  obtain ⟨w, hrun, hscore⟩ : ∃ w,
      enrichAll defaultSettings oneItem [clickAt 1 1, clickAt 2 2, clickAt 1 1] = some w ∧
        (w.redis.zsets (recentKey "u1")).zscore "i1" = some 1 := by
    refine ⟨_, rfl, ?_⟩
    decide
  have hhistory := h _ _ "u1" _ w hrun _ w (List.prefix_refl _) hrun
  rw [hhistory] at hscore
  revert hscore
  decide

end ClickRec.Kafka
