import ClickRec.Kafka.Enrichment

/-! # The process-local item caches

The negative cache never names an item of the catalogue, and while nothing is deleted the positive
cache agrees with the catalogue. -/
namespace ClickRec.Kafka
set_option autoImplicit false

/-! ## The negative cache names no item that exists -/

def NegativeMissing (w : World) : Prop :=
  ∀ x ∈ w.caches.item_negative_cache, w.db.item x = none

theorem evictNegativeIfFull_subset {settings : Settings} {cache : List String} {x : String}
    (h : x ∈ evictNegativeIfFull settings cache) : x ∈ cache := by
  unfold evictNegativeIfFull at h
  split at h
  · exact List.mem_of_mem_filter h
  · exact h

theorem resolveItemMeta_negative {settings : Settings} {w : World} {x : String}
    {row : Option ItemMeta} {caches : ItemCaches} (h : NegativeMissing w)
    (hres : resolveItemMeta settings w.db w.caches x = (row, caches)) :
    NegativeMissing { w with caches := caches } := by
  unfold resolveItemMeta at hres
  split at hres
  · obtain ⟨-, rfl⟩ := Prod.mk.inj hres
    exact h
  · split at hres
    · obtain ⟨-, rfl⟩ := Prod.mk.inj hres
      exact h
    · split at hres
      · rename_i hmissing
        obtain ⟨-, rfl⟩ := Prod.mk.inj hres
        intro y hy
        obtain hy | hy := List.mem_append.mp hy
        · exact h y (evictNegativeIfFull_subset hy)
        · rw [List.mem_singleton.mp hy]
          exact hmissing
      · obtain ⟨-, rfl⟩ := Prod.mk.inj hres
        exact h

theorem Op.run_item {op : Op} {w w' : World} (h : op.run w = .ok w') :
    w'.db.item = w.db.item ∧ w'.caches = w.caches := by
  cases op with
  | upsertCommit pairs =>
    obtain ⟨-, rfl⟩ := run_upsertCommit h
    exact ⟨rfl, rfl⟩
  | zadd key member score =>
    cases h
    exact ⟨rfl, rfl⟩
  | zremrangebyrank key start stop =>
    cases h
    exact ⟨rfl, rfl⟩
  | expire key seconds =>
    cases h
    exact ⟨rfl, rfl⟩
  | incr key =>
    cases h
    exact ⟨rfl, rfl⟩
  | zincrby key amount member =>
    cases h
    exact ⟨rfl, rfl⟩
  | send update =>
    cases h
    exact ⟨rfl, rfl⟩

theorem NegativeMissing.of_eq {w w' : World} (h : NegativeMissing w)
    (hitem : w'.db.item = w.db.item) (hcaches : w'.caches = w.caches) : NegativeMissing w' := by
  unfold NegativeMissing
  rw [hitem, hcaches]
  exact h

/-! ## The caches over a catalogue that does not change -/

/-- The caches say nothing else than the catalogue. -/
structure CachesAgree (w : World) : Prop where
  negative : NegativeMissing w
  positive : ∀ e ∈ w.caches.item_cache, w.db.item e.1 = some e.2

theorem mem_of_lookup {cache : List (String × ItemMeta)} {x : String} {row : ItemMeta}
    (h : cache.lookup x = some row) : (x, row) ∈ cache := by
  obtain ⟨l, r, rfl, -⟩ := List.lookup_eq_some_iff.mp h
  exact List.mem_append_right l List.mem_cons_self

theorem evictIfFull_subset {cache : List (String × ItemMeta)} {cap : ℤ} {e : String × ItemMeta}
    (h : e ∈ evictIfFull cache cap) : e ∈ cache := by
  unfold evictIfFull at h
  split at h
  · exact List.mem_of_mem_drop h
  · exact h

/-- Then `resolve_item_meta` answers from the catalogue, whatever the caches hold. -/
theorem CachesAgree.resolve {settings : Settings} {w : World} {x : String} {row : Option ItemMeta}
    {caches : ItemCaches} (h : CachesAgree w)
    (hres : resolveItemMeta settings w.db w.caches x = (row, caches)) :
    row = w.db.item x ∧ CachesAgree { w with caches := caches } := by
  have hneg := resolveItemMeta_negative h.negative hres
  unfold resolveItemMeta at hres
  split at hres
  · rename_i hmem
    obtain ⟨rfl, rfl⟩ := Prod.mk.inj hres
    exact ⟨(h.negative x hmem).symm, h⟩
  · split at hres
    · rename_i cached hcached
      obtain ⟨rfl, rfl⟩ := Prod.mk.inj hres
      exact ⟨(h.positive _ (mem_of_lookup hcached)).symm, h⟩
    · split at hres
      · rename_i hmissing
        obtain ⟨rfl, rfl⟩ := Prod.mk.inj hres
        exact ⟨hmissing.symm, hneg, h.positive⟩
      · rename_i found hfound
        obtain ⟨rfl, rfl⟩ := Prod.mk.inj hres
        refine ⟨hfound.symm, hneg, fun e he => ?_⟩
        obtain he | he := List.mem_append.mp he
        · exact h.positive e (evictIfFull_subset he)
        · rw [List.mem_singleton.mp he]
          exact hfound

theorem CachesAgree.of_eq {w w' : World} (h : CachesAgree w) (hitem : w'.db.item = w.db.item)
    (hcaches : w'.caches = w.caches) : CachesAgree w' where
  negative := h.negative.of_eq hitem hcaches
  positive := by
    rw [hitem, hcaches]
    exact h.positive

end ClickRec.Kafka
