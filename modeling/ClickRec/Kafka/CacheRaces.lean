import ClickRec.Kafka.ConsumerPool
import ClickRec.Kafka.ItemCaches

/-! # `resolve_item_meta` of many tasks

The workers of a process share the two caches, and each lookup awaits its SELECT between the check and
the insertion, while the table may change. The caches stay within their size, and every answer was true
at some time. -/
namespace ClickRec.Kafka
set_option autoImplicit false

/-! ## One lookup, step by step -/

/-- The caches of the process and the table. -/
structure Catalog where
  caches : ItemCaches
  item : String → Option ItemMeta

namespace Lookup

inductive Stage where
  | start
  | asked
  | read (row : Option ItemMeta)
  | answered (row : Option ItemMeta)
  | raised (e : PyError)

inductive Event where
  | check
  | select (r : Except PyError Unit)
  | store

/-- `_item_cache[item_id] = row`: a key that is there keeps its place. -/
def setItem (cache : List (String × ItemMeta)) (item_id : String) (row : ItemMeta) :
    List (String × ItemMeta) :=
  if item_id ∈ cache.map (·.1) then cache.map fun e => if e.1 = item_id then (item_id, row) else e
  else cache ++ [(item_id, row)]

/-- `_item_negative_cache.add(item_id)`. -/
def addItem (cache : List String) (item_id : String) : List String :=
  if item_id ∈ cache then cache else cache ++ [item_id]

variable {ι : Type} (settings : Settings) (item_id : ι → String)

/-- What the task does when its SELECT has returned. -/
def stored (caches : ItemCaches) (item_id : String) : Option ItemMeta → ItemCaches
  | none => { caches with
      item_negative_cache := addItem (evictNegativeIfFull settings caches.item_negative_cache) item_id }
  | some row => { caches with
      item_cache := setItem (evictIfFull caches.item_cache settings.item_cache_max_size) item_id row }

def lookupStep (i : ι) (s : Catalog) : Stage → Event → Option (Catalog × Stage)
  | .start, .check =>
    if item_id i ∈ s.caches.item_negative_cache then some (s, .answered none)
    else
      match s.caches.item_cache.lookup (item_id i) with
      | some cached => some (s, .answered (some cached))
      | none => some (s, .asked)
  | .asked, .select (.ok ()) => some (s, .read (s.item (item_id i)))
  | .asked, .select (.error e) => some (s, .raised e)
  | .read row, .store =>
    some ({ s with caches := stored settings s.caches (item_id i) row }, .answered row)
  | _, _ => none

/-- A row is inserted, changed or deleted. -/
structure Write where
  item_id : String
  row : Option ItemMeta

def writeStep (s : Catalog) (w : Write) : Option Catalog :=
  some { s with item := Function.update s.item w.item_id w.row }

abbrev Lookups (ι : Type) := Trace.Config ι Catalog Stage

abbrev LookupAct (ι : Type) := Trace.Act ι Event Write

def lookupsStep [DecidableEq ι] (c : Lookups ι) (a : LookupAct ι) : Option (Lookups ι) :=
  Trace.turn (lookupStep settings item_id) writeStep c a

/-- A process that has just started. -/
def begin (item : String → Option ItemMeta) : Lookups ι := ⟨⟨⟨[], []⟩, item⟩, fun _ => .start⟩

/-- At some time of the run this was the row of the item. -/
def WasRow [DecidableEq ι] (item : String → Option ItemMeta) (as : List (LookupAct ι)) (x : String)
    (row : Option ItemMeta) : Prop :=
  ∃ pre c, pre <+: as ∧ Trace.exec (lookupsStep settings item_id) (begin item) pre = some c ∧
    c.shared.item x = row

/-! ## Sizes -/

/-- Each key is cached once, and neither cache outgrows its size. -/
structure Bounded (caches : ItemCaches) : Prop where
  positive_nodup : (caches.item_cache.map (·.1)).Nodup
  negative_nodup : caches.item_negative_cache.Nodup
  positive_le : (caches.item_cache.length : ℤ) ≤ max 1 settings.item_cache_max_size
  negative_le : (caches.item_negative_cache.length : ℤ) ≤ max 1 settings.item_cache_max_size

theorem keys_setItem (cache : List (String × ItemMeta)) (item_id : String) (row : ItemMeta) :
    (setItem cache item_id row).map (·.1) = addItem (cache.map (·.1)) item_id := by
  unfold setItem addItem
  split
  · rw [List.map_map]
    refine List.map_congr_left fun e _ => ?_
    rw [Function.comp_apply]
    split
    · rename_i h
      exact h.symm
    · rfl
  · rw [List.map_append]
    rfl

theorem nodup_addItem {cache : List String} (h : cache.Nodup) (item_id : String) :
    (addItem cache item_id).Nodup := by
  unfold addItem
  split
  · exact h
  · rename_i hnew
    exact h.append (List.nodup_singleton _) (by simpa using hnew)

theorem length_addItem (cache : List String) (item_id : String) :
    (addItem cache item_id).length ≤ cache.length + 1 := by
  unfold addItem
  split
  · exact Nat.le_succ _
  · rw [List.length_append, List.length_singleton]

theorem one_le_evicted (cap : ℤ) : 1 ≤ evicted cap := by
  unfold evicted
  omega

variable {settings}

/-- Room for one entry is made in a full cache. -/
theorem length_evictIfFull {cache : List (String × ItemMeta)} {cap : ℤ}
    (h : (cache.length : ℤ) ≤ max 1 cap) : ((evictIfFull cache cap).length : ℤ) + 1 ≤ max 1 cap := by
  have hone := one_le_evicted cap
  unfold evictIfFull
  split
  · rw [List.length_drop]
    omega
  · omega

theorem length_evictNegativeIfFull (hset : ∀ l, (settings.setOrder l).Perm l) {cache : List String}
    (hnodup : cache.Nodup) (h : (cache.length : ℤ) ≤ max 1 settings.item_cache_max_size) :
    ((evictNegativeIfFull settings cache).length : ℤ) + 1 ≤ max 1 settings.item_cache_max_size := by
  have hone := one_le_evicted settings.item_cache_max_size
  unfold evictNegativeIfFull
  split
  · rename_i hfull
    generalize evicted settings.item_cache_max_size = n at hone ⊢
    have hperm := hset cache
    have hlength : (cache.filter (· ∉ (settings.setOrder cache).take n)).length + min n cache.length =
        cache.length := by
      have hsplit : ((settings.setOrder cache).take n).length = min n cache.length := by
        rw [List.length_take, hperm.length_eq]
      have hcount : (cache.filter (· ∈ (settings.setOrder cache).take n)).length = min n cache.length := by
        rw [← hsplit]
        refine List.Perm.length_eq ((List.perm_ext_iff_of_nodup (hnodup.filter _) ?_).mpr fun x => ?_)
        · exact (hperm.nodup_iff.mpr hnodup).sublist (List.take_sublist _ _)
        · simp only [List.mem_filter, decide_eq_true_eq, and_iff_right_iff_imp]
          exact fun hx => hperm.mem_iff.mp (List.mem_of_mem_take hx)
      rw [← hcount, Nat.add_comm]
      have := List.length_eq_length_filter_add (l := cache) fun x => decide (x ∈ (settings.setOrder cache).take n)
      simpa using this.symm
    omega
  · omega

theorem Bounded.stored (hset : ∀ l, (settings.setOrder l).Perm l) {caches : ItemCaches}
    (h : Bounded settings caches) (x : String) (row : Option ItemMeta) :
    Bounded settings (stored settings caches x row) := by
  cases row with
  | none =>
    refine ⟨h.positive_nodup, nodup_addItem ?_ x, h.positive_le, ?_⟩
    · unfold evictNegativeIfFull
      split
      · exact h.negative_nodup.filter _
      · exact h.negative_nodup
    · have hroom := length_evictNegativeIfFull hset h.negative_nodup h.negative_le
      have := length_addItem (evictNegativeIfFull settings caches.item_negative_cache) x
      exact le_trans (by exact_mod_cast this) hroom
  | some row =>
    refine ⟨?_, h.negative_nodup, ?_, h.negative_le⟩
    · simp only [Lookup.stored]
      rw [keys_setItem]
      refine nodup_addItem ?_ x
      unfold evictIfFull
      split
      · rw [List.map_drop]
        exact h.positive_nodup.sublist (List.drop_sublist _ _)
      · exact h.positive_nodup
    · have hroom := length_evictIfFull h.positive_le
      have hkeys := length_addItem
        ((evictIfFull caches.item_cache settings.item_cache_max_size).map (·.1)) x
      rw [← keys_setItem _ x row, List.length_map, List.length_map] at hkeys
      exact le_trans (by exact_mod_cast hkeys) hroom

/-! ## Alone -/

theorem not_mem_keys {cache : List (String × ItemMeta)} {x : String} (h : cache.lookup x = none) :
    x ∉ cache.map (·.1) := by
  intro hmem
  obtain ⟨e, he, rfl⟩ := List.mem_map.mp hmem
  have hne := List.lookup_eq_none_iff.mp h e he
  simp at hne

/-- The steps of one task with nothing between them are `resolve_item_meta`. -/
theorem alone (i : ι) (s : Catalog) :
    ∃ events, Trace.exec (Trace.solo (lookupStep settings item_id) i) (s, .start) events =
      some ({ s with caches := (resolveItemMeta settings ⟨s.item, fun _ => none⟩ s.caches (item_id i)).2 },
        .answered (resolveItemMeta settings ⟨s.item, fun _ => none⟩ s.caches (item_id i)).1) := by
  unfold resolveItemMeta
  by_cases hneg : item_id i ∈ s.caches.item_negative_cache
  · refine ⟨[.check], ?_⟩
    simp [Trace.exec, Trace.solo, lookupStep, hneg]
  · cases hcached : s.caches.item_cache.lookup (item_id i) with
    | some cached =>
      refine ⟨[.check], ?_⟩
      simp [Trace.exec, Trace.solo, lookupStep, hneg, hcached]
    | none =>
      refine ⟨[.check, .select (.ok ()), .store], ?_⟩
      cases hrow : s.item (item_id i) with
      | none =>
        have hnew : item_id i ∉ evictNegativeIfFull settings s.caches.item_negative_cache :=
          fun h => hneg (evictNegativeIfFull_subset h)
        simp [Trace.exec, Trace.solo, lookupStep, hneg, hcached, hrow, Lookup.stored, addItem, hnew]
      | some row =>
        have hnew : item_id i ∉
            (evictIfFull s.caches.item_cache settings.item_cache_max_size).map (·.1) := by
          intro h
          obtain ⟨e, he, heq⟩ := List.mem_map.mp h
          exact not_mem_keys hcached (heq ▸ List.mem_map_of_mem (evictIfFull_subset he))
        simp only [Trace.exec, Trace.solo, lookupStep, hneg, hcached, hrow, Lookup.stored, setItem,
          if_neg hnew, if_false, Option.bind_some]

/-- The caches and the table of a consumer pool. -/
def catalogOf (p : Pool ι) : Catalog := ⟨p.world.caches, p.world.db.item⟩

/-- Where `apply_enrichment` goes on with the answer. -/
def resumed (attempt : ℕ) : Option ItemMeta → Kafka.Stage
  | none => .marking attempt
  | some row => .reading attempt row.category

/-- The pool resolves an item in one step: the lookup with no other task between its steps. -/
theorem resolve_alone {deliveries : Deliveries ι} {i : ι} {p q : Pool ι} {k : ℕ} {m : Kafka.Stage}
    (h : recordStep settings deliveries i p (.resolving k) (.resolve .ok) = some (q, m)) :
    ∃ events row,
      Trace.exec (Trace.solo (lookupStep settings fun j => (deliveries.event j).item_id) i)
        (catalogOf p, .start) events = some (catalogOf q, .answered row) ∧ m = resumed k row := by
  obtain ⟨events, hevents⟩ := @alone ι settings (fun j => (deliveries.event j).item_id) i (catalogOf p)
  have hsame : resolveItemMeta settings ⟨(catalogOf p).item, fun _ => none⟩ (catalogOf p).caches
      (deliveries.event i).item_id =
      resolveItemMeta settings p.world.db p.world.caches (deliveries.event i).item_id := rfl
  rw [hsame] at hevents
  rcases hres : resolveItemMeta settings p.world.db p.world.caches (deliveries.event i).item_id with
    ⟨_ | row, caches⟩
  · rw [hres] at hevents
    simp only [recordStep, hres, Option.some.injEq, Prod.mk.injEq] at h
    obtain ⟨rfl, rfl⟩ := h
    exact ⟨events, none, hevents, rfl⟩
  · rw [hres] at hevents
    simp only [recordStep, hres, Option.some.injEq, Prod.mk.injEq] at h
    obtain ⟨rfl, rfl⟩ := h
    exact ⟨events, some row, hevents, rfl⟩

/-- What a step of a lookup does. -/
theorem lookupStep_cases {i : ι} {s t : Catalog} {l m : Stage} {e : Event}
    (h : lookupStep settings item_id i s l e = some (t, m)) :
    (t = s ∧ ((m = .answered none ∧ item_id i ∈ s.caches.item_negative_cache) ∨
      (∃ cached, m = .answered (some cached) ∧ (item_id i, cached) ∈ s.caches.item_cache) ∨
      m = .asked ∨ m = .read (s.item (item_id i)) ∨ ∃ e, m = .raised e)) ∨
    ∃ row, l = .read row ∧ m = .answered row ∧
      t = { s with caches := stored settings s.caches (item_id i) row } := by
  unfold lookupStep at h
  split at h
  · split at h
    · rename_i hmem
      obtain ⟨rfl, rfl⟩ := Prod.mk.inj (Option.some.inj h)
      exact .inl ⟨rfl, .inl ⟨rfl, hmem⟩⟩
    · split at h
      · rename_i cached hcached
        obtain ⟨rfl, rfl⟩ := Prod.mk.inj (Option.some.inj h)
        exact .inl ⟨rfl, .inr (.inl ⟨cached, rfl, mem_of_lookup hcached⟩)⟩
      · obtain ⟨rfl, rfl⟩ := Prod.mk.inj (Option.some.inj h)
        exact .inl ⟨rfl, .inr (.inr (.inl rfl))⟩
  · obtain ⟨rfl, rfl⟩ := Prod.mk.inj (Option.some.inj h)
    exact .inl ⟨rfl, .inr (.inr (.inr (.inl rfl)))⟩
  · obtain ⟨rfl, rfl⟩ := Prod.mk.inj (Option.some.inj h)
    exact .inl ⟨rfl, .inr (.inr (.inr (.inr ⟨_, rfl⟩)))⟩
  · obtain ⟨rfl, rfl⟩ := Prod.mk.inj (Option.some.inj h)
    exact .inr ⟨_, rfl, rfl, rfl⟩
  · cases h

/-! ## All tasks -/

section Runs
variable [DecidableEq ι] {item_id} {item : String → Option ItemMeta} {as : List (LookupAct ι)}
  {c d : Lookups ι}

theorem WasRow.append {x : String} {row : Option ItemMeta} (h : WasRow settings item_id item as x row)
    (a : LookupAct ι) : WasRow settings item_id item (as ++ [a]) x row := by
  obtain ⟨pre, c, hpre, hc⟩ := h
  exact ⟨pre, c, hpre.trans (List.prefix_append as [a]), hc⟩

theorem wasRow_now (h : Trace.exec (lookupsStep settings item_id) (begin item) as = some c) (x : String) :
    WasRow settings item_id item as x (c.shared.item x) :=
  ⟨as, c, List.prefix_rfl, h, rfl⟩

/-- What a task read or answered. -/
def Stage.Told (was : Option ItemMeta → Prop) : Stage → Prop
  | read row => was row
  | answered row => was row
  | _ => True

theorem Stage.Told.mono {was was' : Option ItemMeta → Prop} (h : ∀ row, was row → was' row) {l : Stage}
    (hl : l.Told was) : l.Told was' := by
  cases l with
  | read row => exact h row hl
  | answered row => exact h row hl
  | _ => trivial

/-- The caches are bounded, and what they and the tasks say was true at some time. -/
structure TrueRun (settings : Settings) (item_id : ι → String) (item : String → Option ItemMeta)
    (as : List (LookupAct ι)) (c : Lookups ι) : Prop where
  bounded : Bounded settings c.shared.caches
  positive : ∀ e ∈ c.shared.caches.item_cache, WasRow settings item_id item as e.1 (some e.2)
  negative : ∀ x ∈ c.shared.caches.item_negative_cache, WasRow settings item_id item as x none
  stages : ∀ i, (c.locals i).Told (WasRow settings item_id item as (item_id i))

theorem trueRun_begin : TrueRun settings item_id item [] (begin item) where
  bounded := ⟨List.nodup_nil, List.nodup_nil, by simp [begin], by simp [begin]⟩
  positive := nofun
  negative := nofun
  stages := fun _ => trivial

theorem mem_setItem {cache : List (String × ItemMeta)} {x : String} {row : ItemMeta}
    {e : String × ItemMeta} (h : e ∈ setItem cache x row) : e ∈ cache ∨ e = (x, row) := by
  unfold setItem at h
  split at h
  · obtain ⟨e', he', rfl⟩ := List.mem_map.mp h
    split
    · exact .inr rfl
    · exact .inl he'
  · simpa using h

theorem mem_addItem {cache : List String} {x y : String} (h : y ∈ addItem cache x) : y ∈ cache ∨ y = x := by
  unfold addItem at h
  split at h
  · exact .inl h
  · simpa using h

/-- The caches after an insertion that was true. -/
theorem TrueRun.stored (hset : ∀ l, (settings.setOrder l).Perm l)
    (h : TrueRun settings item_id item as c) (a : LookupAct ι) {x : String} {row : Option ItemMeta}
    (hrow : WasRow settings item_id item as x row) :
    Bounded settings (stored settings c.shared.caches x row) ∧
    (∀ e ∈ (stored settings c.shared.caches x row).item_cache,
      WasRow settings item_id item (as ++ [a]) e.1 (some e.2)) ∧
    ∀ y ∈ (stored settings c.shared.caches x row).item_negative_cache,
      WasRow settings item_id item (as ++ [a]) y none := by
  refine ⟨h.bounded.stored hset x row, ?_, ?_⟩
  · intro e he
    cases row with
    | none => exact (h.positive e he).append a
    | some row =>
      obtain he | rfl := mem_setItem he
      · exact (h.positive e (evictIfFull_subset he)).append a
      · exact hrow.append a
  · intro y hy
    cases row with
    | none =>
      obtain hy | rfl := mem_addItem hy
      · exact (h.negative y (evictNegativeIfFull_subset hy)).append a
      · exact hrow.append a
    | some row => exact (h.negative y hy).append a

theorem TrueRun.proc (hset : ∀ l, (settings.setOrder l).Perm l)
    (h : TrueRun settings item_id item as c)
    (hc : Trace.exec (lookupsStep settings item_id) (begin item) as = some c) {i : ι} {e : Event}
    (hstep : lookupsStep settings item_id c (.proc i e) = some d) :
    TrueRun settings item_id item (as ++ [.proc i e]) d := by
  obtain ⟨t, m, hlookup, hshared, hlocal, hframe⟩ := Trace.turn_proc hstep
  have hi := h.stages i
  have hstages : ∀ m : Stage, m.Told (WasRow settings item_id item as (item_id i)) → d.locals i = m →
      ∀ j, (d.locals j).Told (WasRow settings item_id item (as ++ [.proc i e]) (item_id j)) := by
    intro m hm hd j
    by_cases hj : j = i
    · rw [hj, hd]
      exact hm.mono fun row hrow => hrow.append _
    · rw [hframe j hj]
      exact (h.stages j).mono fun row hrow => hrow.append _
  obtain ⟨rfl, hcases⟩ | ⟨row, hread, rfl, rfl⟩ := lookupStep_cases item_id hlookup
  · have hm : m.Told (WasRow settings item_id item as (item_id i)) := by
      obtain ⟨rfl, hmem⟩ | ⟨cached, rfl, hmem⟩ | rfl | rfl | ⟨_, rfl⟩ := hcases
      · exact h.negative _ hmem
      · exact h.positive _ hmem
      · trivial
      · exact wasRow_now hc (item_id i)
      · trivial
    refine ⟨?_, ?_, ?_, hstages m hm hlocal⟩
    · rw [hshared]
      exact h.bounded
    · rw [hshared]
      exact fun e he => (h.positive e he).append _
    · rw [hshared]
      exact fun y hy => (h.negative y hy).append _
  · rw [hread] at hi
    obtain ⟨hbounded, hpositive, hnegative⟩ := h.stored hset (.proc i e) hi
    refine ⟨?_, ?_, ?_, hstages (.answered row) hi hlocal⟩
    · rw [hshared]
      exact hbounded
    · rw [hshared]
      exact hpositive
    · rw [hshared]
      exact hnegative

theorem TrueRun.env (h : TrueRun settings item_id item as c) {w : Write}
    (hstep : lookupsStep settings item_id c (.env w) = some d) :
    TrueRun settings item_id item (as ++ [.env w]) d := by
  obtain ⟨hwrite, hlocals⟩ := Trace.turn_env hstep
  have hcaches : d.shared.caches = c.shared.caches :=
    (congrArg Catalog.caches (Option.some.inj hwrite)).symm
  refine ⟨?_, ?_, ?_, fun j => ?_⟩
  · rw [hcaches]
    exact h.bounded
  · rw [hcaches]
    exact fun e he => (h.positive e he).append _
  · rw [hcaches]
    exact fun y hy => (h.negative y hy).append _
  · rw [hlocals]
    exact (h.stages j).mono fun row hrow => hrow.append _

theorem trueRun_exec (hset : ∀ l, (settings.setOrder l).Perm l)
    (h : Trace.exec (lookupsStep settings item_id) (begin item) as = some c) :
    TrueRun settings item_id item as c := by
  refine Trace.exec_concat_induction (I := fun as c => TrueRun settings item_id item as c) trueRun_begin
    (fun as t a u ht hI hu => ?_) h
  cases a with
  | proc i e => exact hI.proc hset ht hu
  | env w => exact hI.env hu

/-- While the table does not change, each task answers its row, however they take turns. -/
theorem answered_of_unchanged (hset : ∀ l, (settings.setOrder l).Perm l)
    (h : Trace.exec (lookupsStep settings item_id) (begin item) as = some c)
    (hwrites : ∀ w, Trace.Act.env w ∉ as) {i : ι} {row : Option ItemMeta}
    (hi : c.locals i = .answered row) : row = item (item_id i) := by
  have htold := (trueRun_exec hset h).stages i
  rw [hi] at htold
  obtain ⟨pre, d, hpre, hd, hrow⟩ := htold
  have hquiet : ∀ a ∈ pre, ∀ w, a ≠ Trace.Act.env w := by
    rintro a ha w rfl
    exact hwrites w (hpre.subset ha)
  have htable : d.shared.item = item := by
    refine Trace.exec_invariant (I := fun c : Lookups ι => c.shared.item = item)
      (fun s a t hI hC hstep => ?_) (Trace.along_of_mem hquiet) hd rfl
    cases a with
    | proc j e =>
      obtain ⟨u, m, hlookup, hshared, -, -⟩ := Trace.turn_proc hstep
      rw [hshared]
      obtain ⟨rfl, -⟩ | ⟨row, -, -, rfl⟩ := lookupStep_cases item_id hlookup
      · exact hI
      · exact hI
    | env w => exact absurd rfl (hC w)
  rw [← hrow, htable]

end Runs

/-- **The caches under any interleaving.** They stay within their size, and whatever they hold or a lookup
answers was the row, or the lack of one, at some time of the run. -/
theorem lookups_true {ι : Type} [DecidableEq ι] (settings : Settings)
    (hset : ∀ l, (settings.setOrder l).Perm l) (item_id : ι → String) (item : String → Option ItemMeta)
    (as : List (LookupAct ι)) (c : Lookups ι)
    (h : Trace.exec (lookupsStep settings item_id) (begin item) as = some c) :
    TrueRun settings item_id item as c := by
  exact trueRun_exec hset h

/-- Two tasks ask for the same item, which is inserted between their SELECTs: it is then in both caches,
and is answered as missing. -/
theorem lookups_true_masked : ∃ c,
    Trace.exec (lookupsStep defaultSettings fun _ : Trace.Two => "i1") (begin fun _ => none)
      [.proc .first .check, .proc .second .check, .proc .first (.select (.ok ())),
        .env ⟨"i1", some ⟨"audio", 50⟩⟩, .proc .second (.select (.ok ())), .proc .second .store,
        .proc .first .store] = some c ∧
    c.shared.caches = ⟨[("i1", ⟨"audio", 50⟩)], ["i1"]⟩ ∧
    TrueRun defaultSettings (fun _ : Trace.Two => "i1") (fun _ => none)
      [.proc .first .check, .proc .second .check, .proc .first (.select (.ok ())),
        .env ⟨"i1", some ⟨"audio", 50⟩⟩, .proc .second (.select (.ok ())), .proc .second .store,
        .proc .first .store] c :=
  ⟨_, rfl, rfl, lookups_true defaultSettings (fun _ => List.Perm.refl _) (fun _ : Trace.Two => "i1")
    (fun _ => none) _ _ rfl⟩

end Lookup

end ClickRec.Kafka
