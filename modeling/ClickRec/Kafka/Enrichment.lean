import ClickRec.Lib.PyList
import ClickRec.Lib.SortedSet
import ClickRec.Kafka.Records
import ClickRec.Models
import Mathlib.Data.String.Basic

/-! # `apply_enrichment`: the side-effects of one click

Every side-effect is one `Op` on the stores, so that a failure, a crash or another worker can fall
between any two of them. Postgres enforces the foreign keys of `co_click`; the expiry of keys is
left to the environment. -/
namespace ClickRec.Kafka
set_option autoImplicit false

/-! ## The stores -/

structure Settings where
  session_window : ℤ
  recent_clicks_cap : ℤ
  recent_clicks_ttl_seconds : ℤ
  popularity_ttl_seconds : ℤ
  item_cache_max_size : ℤ
  consumer_max_retries : ℕ
  consumer_backoff_base_s : ℚ
  /-- The order in which Python iterates over a `set` with these elements. -/
  setOrder : List String → List String

/-- The values of `config.py`. -/
def defaultSettings : Settings where
  session_window := 5
  recent_clicks_cap := 100
  recent_clicks_ttl_seconds := 86400
  popularity_ttl_seconds := 3600
  item_cache_max_size := 10000
  consumer_max_retries := 3
  consumer_backoff_base_s := 1 / 2
  setOrder := id

structure ItemMeta where
  category : String
  price : ℚ
  deriving DecidableEq

/-- The tables `item` and `co_click`; the primary key of the latter is the pair. -/
structure Database where
  item : String → Option ItemMeta
  co_click : String × String → Option ℕ

structure Redis where
  zsets : String → SortedSet ℚ String
  counters : String → ℕ
  processed : Uuid → Bool

structure ProfileUpdate where
  event_id : String
  user_id : String
  item_id : String
  category : String
  source : String
  deriving DecidableEq

/-- `_item_cache` in insertion order and `_item_negative_cache`. -/
structure ItemCaches where
  item_cache : List (String × ItemMeta)
  item_negative_cache : List String

structure World where
  db : Database
  redis : Redis
  caches : ItemCaches
  profile_updates : List ProfileUpdate
  dlq : List Bytes

/-- A consumer process that has just started, over these items and an empty Redis. -/
def World.start (item : String → Option ItemMeta) : World :=
  ⟨⟨item, fun _ => none⟩, ⟨fun _ => .empty, fun _ => 0, fun _ => false⟩, ⟨[], []⟩, [], []⟩

/-! ## `resolve_item_meta` -/

/-- How many entries an eviction drops: `max(1, cap // 10)`. -/
def evicted (cap : ℤ) : ℕ := (max 1 (cap / 10)).toNat

def evictIfFull (cache : List (String × ItemMeta)) (cap : ℤ) : List (String × ItemMeta) :=
  if cap ≤ cache.length then cache.drop (evicted cap) else cache

def evictNegativeIfFull (settings : Settings) (cache : List String) : List String :=
  if settings.item_cache_max_size ≤ cache.length then
    cache.filter (· ∉ (settings.setOrder cache).take (evicted settings.item_cache_max_size))
  else cache

def resolveItemMeta (settings : Settings) (db : Database) (caches : ItemCaches) (item_id : String) :
    Option ItemMeta × ItemCaches :=
  if item_id ∈ caches.item_negative_cache then (none, caches)
  else match caches.item_cache.lookup item_id with
    | some cached => (some cached, caches)
    | none =>
      match db.item item_id with
      | none =>
        (none, { caches with
          item_negative_cache := evictNegativeIfFull settings caches.item_negative_cache ++ [item_id] })
      | some row =>
        (some row, { caches with
          item_cache :=
            evictIfFull caches.item_cache settings.item_cache_max_size ++ [(item_id, row)] })

/-! ## The session window -/

def recentKey (user_id : String) : String := "user:" ++ user_id ++ ":recent_clicks"

def counterKey (category : String) : String := "popularity:" ++ category

def topKey (category : String) : String := "items:top:" ++ category

/-- `n` most recent items, newest first; `ZREVRANGE` reads the stop `-1` as the last rank. -/
def getLastSessionItems (redis : Redis) (user_id : String) (n : ℤ) : List String :=
  (redis.zsets (recentKey user_id)).zrevrange 0 (n - 1)

def sessionItems (settings : Settings) (redis : Redis) (event : ClickEventDTO) : List String :=
  PyList.sliceTo (event.item_id :: getLastSessionItems redis event.user_id settings.session_window)
    settings.session_window

/-! ## Co-click pairs -/

/-- `list(dict.fromkeys(l))`. -/
def fromkeys (l : List String) : List String :=
  PyList.keepFirst id l

/-- `itertools.combinations(l, 2)`. -/
def combinations2 {α : Type} : List α → List (α × α)
  | [] => []
  | x :: xs => xs.map (x, ·) ++ combinations2 xs

def coClickPairs (item_ids : List String) : List (String × String) :=
  let unique := fromkeys item_ids
  if unique.length < 2 then []
  else
    ((combinations2 unique).map fun p => (min p.1 p.2, max p.1 p.2)).dedup.insertionSort
      fun p q => toLex p ≤ toLex q

/-! ## The side-effects -/

inductive Op where
  -- one transaction: the upsert of these pairs and the commit
  | upsertCommit (pairs : List (String × String))
  | zadd (key member : String) (score : ℚ)
  | zremrangebyrank (key : String) (start stop : ℤ)
  | expire (key : String) (seconds : ℤ)
  | incr (key : String)
  | zincrby (key : String) (amount : ℚ) (member : String)
  | send (update : ProfileUpdate)
  deriving DecidableEq

def upsertCoClicks (item_ids : List String) : List Op := [.upsertCommit (coClickPairs item_ids)]

def updateRecentClicks (settings : Settings) (user_id item_id : String) (ts_ms : ℚ) : List Op :=
  let key := recentKey user_id
  [.zadd key item_id ts_ms, .zremrangebyrank key 0 (-(settings.recent_clicks_cap + 1)),
    .expire key settings.recent_clicks_ttl_seconds]

def incrementPopularity (settings : Settings) (category item_id : String) : List Op :=
  [.incr (counterKey category), .expire (counterKey category) settings.popularity_ttl_seconds,
    .zincrby (topKey category) 1 item_id, .zincrby (topKey "_global") 1 item_id]

def publishProfileUpdate (event : ClickEventDTO) (category : String) : List Op :=
  [.send ⟨uuidStr event.event_id, event.user_id, event.item_id, category, "click"⟩]

/-- The side-effects of `apply_enrichment` once the item is resolved and the timestamp converted, in
their order. -/
def effects (settings : Settings) (event : ClickEventDTO) (category : String)
    (session_items : List String) : List Op :=
  upsertCoClicks session_items ++
    updateRecentClicks settings event.user_id event.item_id event.ts_ms ++
    incrementPopularity settings category event.item_id ++ publishProfileUpdate event category

/-! ## What a side-effect does to healthy stores -/

def foreignKeyViolation : PyError :=
  ⟨"IntegrityError", "insert or update on table co_click violates foreign key constraint", ""⟩

/-- `INSERT … ON CONFLICT DO UPDATE SET count = count + excluded.count`, rejected as a whole when a
pair names an item that is not there. -/
def Database.upsert (db : Database) (pairs : List (String × String)) : Except PyError Database :=
  if ∀ p ∈ pairs, (db.item p.1).isSome ∧ (db.item p.2).isSome then
    .ok { db with
      co_click := fun p => if p ∈ pairs then some ((db.co_click p).getD 0 + 1) else db.co_click p }
  else .error foreignKeyViolation

/-- `DELETE FROM item`, which cascades to `co_click`. -/
def Database.delete (db : Database) (id : String) : Database where
  item := Function.update db.item id none
  co_click := fun p => if p.1 = id ∨ p.2 = id then none else db.co_click p

def Redis.onZset (redis : Redis) (key : String)
    (f : SortedSet ℚ String → SortedSet ℚ String) : Redis :=
  { redis with zsets := Function.update redis.zsets key (f (redis.zsets key)) }

def Op.run (w : World) : Op → Except PyError World
  | .upsertCommit pairs => (w.db.upsert pairs).map fun db => { w with db := db }
  | .zadd key member score =>
    .ok { w with redis := w.redis.onZset key fun s => s.zadd member score }
  | .zremrangebyrank key start stop =>
    .ok { w with redis := w.redis.onZset key fun s => s.zremrangebyrank start stop }
  | .expire _ _ => .ok w
  | .incr key =>
    .ok { w with redis :=
      { w.redis with counters := Function.update w.redis.counters key (w.redis.counters key + 1) } }
  | .zincrby key amount member =>
    .ok { w with redis := w.redis.onZset key fun s => s.zincrby member amount }
  | .send update => .ok { w with profile_updates := update :: w.profile_updates }

/-- The side-effects one after the other, up to the first that raises. -/
def runOps (w : World) : List Op → Except PyError Unit × World
  | [] => (.ok (), w)
  | op :: ops =>
    match op.run w with
    | .error e => (.error e, w)
    | .ok w' => runOps w' ops

/-- The transaction commits when the items of all pairs are there. -/
theorem Op.run_upsertCommit {pairs : List (String × String)} {w w' : World}
    (h : (Op.upsertCommit pairs).run w = .ok w') :
    (∀ p ∈ pairs, (w.db.item p.1).isSome ∧ (w.db.item p.2).isSome) ∧
      w' = { w with db := { w.db with
        co_click := fun p =>
          if p ∈ pairs then some ((w.db.co_click p).getD 0 + 1) else w.db.co_click p } } := by
  rw [run, Database.upsert] at h
  split at h
  · rename_i hall
    exact ⟨hall, (Except.ok.inj h).symm⟩
  · cases h

theorem runOps_nil {w w' : World} (h : runOps w [] = (.ok (), w')) : w' = w :=
  (Prod.mk.inj h).2.symm

theorem runOps_cons {op : Op} {ops : List Op} {w w' : World}
    (h : runOps w (op :: ops) = (.ok (), w')) :
    ∃ v, op.run w = .ok v ∧ runOps v ops = (.ok (), w') := by
  rw [runOps] at h
  cases hop : op.run w with
  | error e =>
    rw [hop] at h
    cases h
  | ok v =>
    rw [hop] at h
    exact ⟨v, rfl, h⟩

/-- `apply_enrichment` with nothing else going on. -/
def applyEnrichment (settings : Settings) (event : ClickEventDTO) (w : World) :
    Except PyError Unit × World :=
  match resolveItemMeta settings w.db w.caches event.item_id with
  | (none, caches) => (.ok (), { w with caches := caches })
  | (some row, caches) =>
    match event.timestamp_ms with
    | .error e => (.error e, { w with caches := caches })
    | .ok _ =>
      runOps { w with caches := caches }
        (effects settings event row.category (sessionItems settings w.redis event))

/-- The side-effects that the call runs. -/
def enrichmentOps (settings : Settings) (event : ClickEventDTO) (w : World) : List Op :=
  match (resolveItemMeta settings w.db w.caches event.item_id).1, event.timestamp_ms with
  | some row, .ok _ => effects settings event row.category (sessionItems settings w.redis event)
  | _, _ => []

/-- They leave the stores as the call does. -/
theorem applyEnrichment_world (settings : Settings) (event : ClickEventDTO) (w : World) :
    (applyEnrichment settings event w).2 =
      (runOps { w with caches := (resolveItemMeta settings w.db w.caches event.item_id).2 }
        (enrichmentOps settings event w)).2 := by
  unfold applyEnrichment enrichmentOps
  obtain ⟨_ | row, caches⟩ := resolveItemMeta settings w.db w.caches event.item_id
  · rfl
  · cases event.timestamp_ms with
    | error e => rfl
    | ok ts => rfl

theorem enrichmentOps_of_converts {settings : Settings} {event : ClickEventDTO} {w : World}
    {row : ItemMeta} (h : event.converts = true)
    (hresolved : (resolveItemMeta settings w.db w.caches event.item_id).1 = some row) :
    enrichmentOps settings event w =
      effects settings event row.category (sessionItems settings w.redis event) := by
  rw [enrichmentOps, hresolved, ClickEventDTO.timestamp_ms_of_converts h]

theorem enrichmentOps_of_not_converts (settings : Settings) {event : ClickEventDTO} (w : World)
    (h : event.converts = false) : enrichmentOps settings event w = [] := by
  obtain ⟨e, he⟩ := ClickEventDTO.exists_error_of_not_converts h
  rw [enrichmentOps, he]
  cases (resolveItemMeta settings w.db w.caches event.item_id).1 with
  | none => rfl
  | some row => rfl

theorem applyEnrichment_of_converts {settings : Settings} {event : ClickEventDTO} {w : World}
    {row : ItemMeta} {caches : ItemCaches} (h : event.converts = true)
    (hres : resolveItemMeta settings w.db w.caches event.item_id = (some row, caches)) :
    applyEnrichment settings event w = runOps { w with caches := caches }
      (effects settings event row.category (sessionItems settings w.redis event)) := by
  rw [applyEnrichment, hres, ClickEventDTO.timestamp_ms_of_converts h]

/-- The conversion comes before the first side-effect. -/
theorem applyEnrichment_of_not_converts (settings : Settings) {event : ClickEventDTO} {w : World}
    {row : ItemMeta} {caches : ItemCaches} (h : event.converts = false)
    (hres : resolveItemMeta settings w.db w.caches event.item_id = (some row, caches)) :
    ∃ e, applyEnrichment settings event w = (.error e, { w with caches := caches }) := by
  obtain ⟨e, he⟩ := ClickEventDTO.exists_error_of_not_converts h
  exact ⟨e, by rw [applyEnrichment, hres, he]⟩

/-- A call that returns for a known item has converted the timestamp. -/
theorem converts_of_applyEnrichment {settings : Settings} {event : ClickEventDTO} {w w' : World}
    {row : ItemMeta} {caches : ItemCaches}
    (hres : resolveItemMeta settings w.db w.caches event.item_id = (some row, caches))
    (h : applyEnrichment settings event w = (.ok (), w')) : event.converts = true := by
  by_contra hnot
  obtain ⟨e, he⟩ := applyEnrichment_of_not_converts settings (Bool.eq_false_iff.mpr hnot) hres
  rw [h] at he
  cases he

end ClickRec.Kafka
