import ClickRec.Kafka.RecentClicks
import ClickRec.Ranker.SizeKnobs
import ClickRec.Ranker.TopRanked

/-! # From the clicks of a user to the user's context

The consumers write `user:{id}:recent_clicks`, the ranker reads it. Between the two lie a cap on what
is kept and another on what is read; what comes out are the items clicked last. -/
namespace SortedSet
set_option autoImplicit false

variable {K α : Type*} [LinearOrder K] [LinearOrder α]

/-! ## The top of a sorted set -/

/-- What is kept does not matter to a shorter read. -/
theorem take_descending_keepTop {n k : ℕ} (h : n ≤ k) (s : SortedSet K α) :
    (keepTop k s).descending.take n = s.descending.take n := by
  have hkeep : (keepTop k s).entries.reverse = s.entries.reverse.take k :=
    List.take_reverse.symm
  rw [descending, hkeep, ← List.map_take, List.take_take, min_eq_left h, List.map_take, descending]

theorem mem_descending {s : SortedSet K α} {m : α} :
    m ∈ s.descending ↔ ∃ x, s.zscore m = some x := by
  rw [descending, List.mem_map]
  constructor
  · rintro ⟨e, he, rfl⟩
    exact ⟨(ofLex e).1, zscore_eq_some.mpr (List.mem_reverse.mp he)⟩
  · rintro ⟨x, hx⟩
    exact ⟨toLex (x, m), List.mem_reverse.mpr (zscore_eq_some.mp hx), rfl⟩

/-- The scores fall. -/
theorem pairwise_descending (s : SortedSet K α) :
    s.descending.Pairwise fun a b => ∀ x y, s.zscore a = some x → s.zscore b = some y → y ≤ x := by
  rw [descending, List.pairwise_map, List.pairwise_reverse]
  refine s.sorted.imp_of_mem fun {e f} he hf hlt x y hx hy => ?_
  obtain rfl : (ofLex f).1 = x :=
    congrArg (fun e => (ofLex e).1) (eq_of_member_eq hf (zscore_eq_some.mp hx) rfl)
  obtain rfl : (ofLex e).1 = y :=
    congrArg (fun e => (ofLex e).1) (eq_of_member_eq he (zscore_eq_some.mp hy) rfl)
  exact (Prod.Lex.toLex_le_toLex'.mp hlt.le).1

end SortedSet

namespace ClickRec.Ranker
set_option autoImplicit false
open Kafka (recentKey clicksOf enrichAll NeverOlder lastClicks)

/-! ## The items clicked last -/

/-- No click on `b` is later than the last one on `a`. -/
def ClickedSince (clicks : List (String × ℚ)) (a b : String) : Prop :=
  ∀ ts, (b, ts) ∈ clicks → ∃ ts', (a, ts') ∈ clicks ∧ ts ≤ ts'

/-- Up to `n` of the items that were clicked, the one clicked last first, and all of them if there
are no more. -/
structure LastClicked (clicks : List (String × ℚ)) (n : ℕ) (ids : List String) : Prop where
  distinct : ids.Nodup
  clicked : ∀ id ∈ ids, ∃ ts, (id, ts) ∈ clicks
  length_le : ids.length ≤ n
  order : ids.Pairwise (ClickedSince clicks)
  others : ∀ id ts, (id, ts) ∈ clicks → id ∉ ids →
    ids.length = n ∧ ∀ a ∈ ids, ClickedSince clicks a id

theorem clickedSince_of_zscore {clicks : List (String × ℚ)} {a b : String}
    (ha : ∃ x, (SortedSet.greatest clicks).zscore a = some x)
    (h : ∀ x y, (SortedSet.greatest clicks).zscore a = some x →
      (SortedSet.greatest clicks).zscore b = some y → y ≤ x) : ClickedSince clicks a b := by
  intro ts hts
  obtain ⟨x, hx⟩ := ha
  obtain ⟨y, hy⟩ : ∃ y, (SortedSet.greatest clicks).zscore b = some y := by
    refine Option.ne_none_iff_exists'.mp fun hnone => ?_
    exact SortedSet.zscore_greatest_eq_none.mp hnone ts hts
  exact ⟨x, (SortedSet.zscore_greatest.mp hx).1,
    ((SortedSet.zscore_greatest.mp hy).2 ts hts).trans (h x y hx hy)⟩

theorem lastClicked_take (clicks : List (String × ℚ)) (n : ℕ) :
    LastClicked clicks n ((SortedSet.greatest clicks).descending.take n) := by
  have hscored : ∀ id ∈ (SortedSet.greatest clicks).descending,
      ∃ x, (SortedSet.greatest clicks).zscore id = some x := fun id => SortedSet.mem_descending.mp
  have hall : (SortedSet.greatest clicks).descending.Pairwise (ClickedSince clicks) :=
    (SortedSet.pairwise_descending _).imp_of_mem fun ha _ h => clickedSince_of_zscore (hscored _ ha) h
  refine ⟨?_, fun id hid => ?_, List.length_take_le _ _, hall.sublist (List.take_sublist _ _),
    fun id ts hts hid => ?_⟩
  · exact (SortedSet.nodup_descending _).sublist (List.take_sublist _ _)
  · obtain ⟨x, hx⟩ := hscored id (List.mem_of_mem_take hid)
    exact ⟨x, (SortedSet.zscore_greatest.mp hx).1⟩
  · have hmem : id ∈ (SortedSet.greatest clicks).descending := by
      refine SortedSet.mem_descending.mpr (Option.ne_none_iff_exists'.mp fun hnone => ?_)
      exact SortedSet.zscore_greatest_eq_none.mp hnone ts hts
    -- it comes after all that were taken
    have hrest : id ∈ (SortedSet.greatest clicks).descending.drop n := by
      rw [← List.take_append_drop n (SortedSet.greatest clicks).descending] at hmem
      exact (List.mem_append.mp hmem).resolve_left hid
    have hsplit := hall
    rw [← List.take_append_drop n (SortedSet.greatest clicks).descending] at hsplit
    refine ⟨?_, fun a ha => (List.pairwise_append.mp hsplit).2.2 a ha id hrest⟩
    have hlt := List.length_pos_of_mem hrest
    rw [List.length_drop] at hlt
    rw [List.length_take]
    omega

/-! ## What the ranker knows of a user -/

theorem loadUserContext_of_clicks {settings : Kafka.Settings} {item : String → Option Kafka.ItemMeta}
    {events : List ClickEventDTO} {w : Kafka.World} (hrun : enrichAll settings item events = some w)
    {user : String} (hnever : NeverOlder settings user events) {db : Postgres ℚ}
    {client : RedisClient ℚ} (hsame : client.zsets = w.redis.zsets)
    (hreply : client.outcome (.zrevrange (recentKey user)) = .ok) {cfg : RankerConfig ℚ}
    (hn : 1 ≤ cfg.personal_recent_clicks_n)
    (hcap : cfg.personal_recent_clicks_n ≤ settings.recent_clicks_cap) :
    loadUserContext db (some client) (some user) cfg =
      let ids := (SortedSet.greatest (clicksOf user events)).descending.take
        cfg.personal_recent_clicks_n.toNat
      contextOf ids (db.item.rows.filter (·.id ∈ ids)) := by
  have hhistory : w.redis.zsets (recentKey user) = lastClicks settings user events :=
    (Kafka.historyOfClicks_iff hrun).mpr hnever events w (List.prefix_refl _) hrun
  rw [loadUserContext_eq, readTop_of_pos hreply hn, hsame, hhistory, lastClicks,
    SortedSet.take_descending_keepTop (Int.toNat_le_toNat hcap)]

/-- After a run of enriched clicks of which none is older than what the history has for its item, the
context that the ranker loads is that of the items the user clicked last. -/
theorem context_of_clicks (settings : Kafka.Settings) (item : String → Option Kafka.ItemMeta)
    (events : List ClickEventDTO) (w : Kafka.World) (hrun : enrichAll settings item events = some w)
    (user : String) (hnever : NeverOlder settings user events) (db : Postgres ℚ)
    (client : RedisClient ℚ) (hsame : client.zsets = w.redis.zsets)
    (hreply : client.outcome (.zrevrange (recentKey user)) = .ok) (cfg : RankerConfig ℚ)
    (hn : 1 ≤ cfg.personal_recent_clicks_n)
    (hcap : cfg.personal_recent_clicks_n ≤ settings.recent_clicks_cap) :
    ∃ ids, LastClicked (clicksOf user events) cfg.personal_recent_clicks_n.toNat ids ∧
      loadUserContext db (some client) (some user) cfg =
        contextOf ids (db.item.rows.filter (·.id ∈ ids)) := by
  exact ⟨_, lastClicked_take _ _, loadUserContext_of_clicks hrun hnever hsame hreply hn hcap⟩

/-- Clicks that come in the order of their timestamps. -/
theorem neverOlder_of_sorted {settings : Kafka.Settings} {user : String} {events : List ClickEventDTO}
    (h : events.Pairwise fun e f => e.ts_ms ≤ f.ts_ms) :
    NeverOlder settings user events := by
  intro p event hp _ ts hts
  have hclick := (SortedSet.zscore_greatest.mp (SortedSet.zscore_of_zscore_keepTop hts)).1
  obtain ⟨e, he, heq⟩ := List.mem_map.mp hclick
  obtain ⟨-, rfl⟩ := Prod.mk.inj heq
  have hsorted := h.sublist hp.sublist
  exact (List.pairwise_append.mp hsorted).2.2 e (List.mem_of_mem_filter he) event (by simp)

/-- A Redis that answers, with the sorted sets of the consumers. -/
def answering (w : Kafka.World) : RedisClient ℚ where
  zsets := w.redis.zsets
  strings _ := none
  outcome _ := .ok

/-- A catalogue in which everything has this category. -/
def oneCategory (_ : String) : Option Kafka.ItemMeta := some ⟨"c", 1⟩

/-- Three items, the first one clicked again at the end. -/
def fourClicks : List ClickEventDTO :=
  [⟨1, .ok 1, "u1", "i1"⟩, ⟨2, .ok 2, "u1", "i2"⟩, ⟨3, .ok 3, "u1", "i3"⟩, ⟨4, .ok 4, "u1", "i1"⟩]

/-- The history keeps two items, and two are read. -/
theorem context_of_clicks_two : ∃ w ids,
    enrichAll { Kafka.defaultSettings with recent_clicks_cap := 2 } oneCategory fourClicks = some w ∧
      LastClicked (clicksOf "u1" fourClicks) 2 ids ∧ ids = ["i1", "i3"] ∧
      loadUserContext nearItems (some (answering w)) (some "u1")
          { defaultRankerConfig with personal_recent_clicks_n := 2 } =
        contextOf ids (nearItems.item.rows.filter (·.id ∈ ids)) := by
  obtain ⟨w, hrun, hread⟩ : ∃ w,
      enrichAll { Kafka.defaultSettings with recent_clicks_cap := 2 } oneCategory fourClicks = some w ∧
        (loadUserContext nearItems (some (answering w)) (some "u1")
          { defaultRankerConfig with personal_recent_clicks_n := 2 }).recent_item_ids =
            ["i1", "i3"] := by
    refine ⟨_, rfl, ?_⟩
    decide +kernel
  obtain ⟨ids, hids, hctx⟩ := context_of_clicks _ _ _ w hrun "u1"
    (neverOlder_of_sorted (by decide)) nearItems (answering w) rfl rfl
    { defaultRankerConfig with personal_recent_clicks_n := 2 } (by decide) (by decide)
  refine ⟨w, ids, hrun, hids, ?_, hctx⟩
  rwa [hctx, contextOf_recent] at hread

end ClickRec.Ranker
