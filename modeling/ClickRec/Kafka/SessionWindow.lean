import ClickRec.Kafka.CoClicks

/-! # The session window

The pairs of a click are those of the session window: the clicked item and the items clicked before
it. The window is cut to its size before repeats are dropped, so a clicked item that is in the
history already takes up a place. -/
namespace ClickRec.Kafka
set_option autoImplicit false

/-! ## The first elements without one of them -/

theorem take_filter_of_not_mem {α : Type} [DecidableEq α] {l : List α} {x : α} {n : ℕ}
    (h : x ∉ l.take n) : (l.filter (· ≠ x)).take n = l.take n := by
  have hkept : (l.take n).filter (· ≠ x) = l.take n := by
    refine List.filter_eq_self.mpr fun y hy => decide_eq_true ?_
    rintro rfl
    exact h hy
  obtain hle | hlt := le_or_gt l.length n
  · rw [List.take_of_length_le hle] at hkept ⊢
    rw [hkept, List.take_of_length_le hle]
  · rw [← List.take_append_drop n l, List.filter_append, hkept, List.take_append_drop]
    exact List.take_left' (by rw [List.length_take, min_eq_left hlt.le])

/-- The next element moves up. -/
theorem exists_mem_take_filter {α : Type} [DecidableEq α] {l : List α} (hl : l.Nodup) {x : α}
    {n : ℕ} (hx : x ∈ l.take n) (hn : n < l.length) :
    ∃ y ∈ (l.filter (· ≠ x)).take n, y ∉ l.take n ∧ y ≠ x := by
  have hsucc : l.take (n + 1) = l.take n ++ [l[n]] := by rw [List.take_append_getElem]
  have hnew : l[n] ∉ l.take n := by
    have hnodup := hl.sublist (List.take_sublist (n + 1) l)
    rw [hsucc] at hnodup
    exact fun hmem => (List.nodup_append.mp hnodup).2.2 _ hmem _ (by simp) rfl
  have hne : l[n] ≠ x := fun h => hnew (h ▸ hx)
  have hshort : ((l.take (n + 1)).filter (· ≠ x)).length < (l.take (n + 1)).length :=
    List.length_filter_lt_length_iff_exists.mpr
      ⟨x, hsucc ▸ List.mem_append_left _ hx, by simp⟩
  have hlength : (l.take (n + 1)).length = n + 1 := by
    rw [List.length_take]
    omega
  have hprefix : (l.take (n + 1)).filter (· ≠ x) <+: (l.filter (· ≠ x)).take n :=
    List.prefix_take_iff.mpr ⟨(List.take_prefix _ _).filter _, by omega⟩
  refine ⟨l[n], hprefix.mem (List.mem_filter.mpr ⟨?_, by simpa using hne⟩), hnew, hne⟩
  rw [hsucc]
  exact List.mem_append_right _ (List.mem_singleton_self _)

/-! ## What `apply_enrichment` upserts -/

def Op.upserted : Op → List (String × String)
  | .upsertCommit pairs => pairs
  | _ => []

def upsertedPairs (settings : Settings) (event : ClickEventDTO) (w : World) :
    List (String × String) :=
  (enrichmentOps settings event w).flatMap Op.upserted

theorem upsertedPairs_eq {settings : Settings} {event : ClickEventDTO} {w : World} {row : ItemMeta}
    (hresolved : (resolveItemMeta settings w.db w.caches event.item_id).1 = some row)
    (hts : event.converts = true) :
    upsertedPairs settings event w = coClickPairs (sessionItems settings w.redis event) := by
  rw [upsertedPairs, enrichmentOps_of_converts hts hresolved]
  exact List.append_nil _

theorem upsertedPairs_of_not_converts {settings : Settings} {event : ClickEventDTO} {w : World}
    (hts : event.converts = false) : upsertedPairs settings event w = [] := by
  rw [upsertedPairs, enrichmentOps_of_not_converts settings w hts]
  rfl

/-! ## The window -/

/-- The user's recent items, the latest first. -/
def history (redis : Redis) (user_id : String) : List String :=
  (redis.zsets (recentKey user_id)).descending

/-- How many items the window has beside the click. -/
def others (settings : Settings) : ℕ := (settings.session_window - 1).toNat

theorem sessionItems_eq {settings : Settings} (hwindow : 1 ≤ settings.session_window)
    (redis : Redis) (event : ClickEventDTO) :
    sessionItems settings redis event =
      event.item_id :: (history redis event.user_id).take (others settings) := by
  have hsize : settings.session_window.toNat = others settings + 1 := by
    unfold others
    omega
  rw [sessionItems, getLastSessionItems, SortedSet.zrevrange_of_pos _ hwindow,
    PyList.sliceTo_of_nonneg _ (by omega), hsize, List.take_succ_cons, List.take_take,
    min_eq_left (Nat.le_succ _), history]

/-- The click with the latest of the other items. -/
def fullWindow (settings : Settings) (redis : Redis) (event : ClickEventDTO) : List String :=
  event.item_id ::
    ((history redis event.user_id).filter (· ≠ event.item_id)).take (others settings)

/-- The pairs upserted are those of the full window. -/
def UpsertsFullWindow (settings : Settings) (event : ClickEventDTO) (w : World) : Prop :=
  ∀ a b, (a, b) ∈ upsertedPairs settings event w ↔
    a < b ∧ a ∈ fullWindow settings w.redis event ∧ b ∈ fullWindow settings w.redis event

theorem mem_sessionItems_of_fits {settings : Settings} (hwindow : 1 ≤ settings.session_window)
    {redis : Redis} {event : ClickEventDTO}
    (hfits : event.item_id ∉ (history redis event.user_id).take (others settings) ∨
      (history redis event.user_id).length ≤ others settings) (x : String) :
    x ∈ sessionItems settings redis event ↔ x ∈ fullWindow settings redis event := by
  rw [sessionItems_eq hwindow, fullWindow]
  obtain hnew | hshort := hfits
  · rw [take_filter_of_not_mem hnew]
  · rw [List.take_of_length_le hshort,
      List.take_of_length_le ((List.length_filter_le _ _).trans hshort), List.mem_cons,
      List.mem_cons, List.mem_filter, decide_eq_true_eq]
    constructor
    · rintro (rfl | hx)
      · exact .inl rfl
      · exact or_iff_not_imp_left.mpr fun hne => ⟨hx, hne⟩
    · exact Or.imp_right And.left

theorem upserts_full_window_iff_of_converts {settings : Settings} {event : ClickEventDTO} {w : World}
    {row : ItemMeta} (hwindow : 1 ≤ settings.session_window)
    (hresolved : (resolveItemMeta settings w.db w.caches event.item_id).1 = some row)
    (hts : event.converts = true) :
    UpsertsFullWindow settings event w ↔
      event.item_id ∉ (history w.redis event.user_id).take (others settings) ∨
        (history w.redis event.user_id).length ≤ others settings := by
  constructor
  · intro h
    by_contra hnot
    obtain ⟨hmem, hlong⟩ := not_or.mp hnot
    -- The first item beyond the window belongs to the full one.
    obtain ⟨y, hfull, hnew, hne⟩ := exists_mem_take_filter
      (SortedSet.nodup_descending (w.redis.zsets (recentKey event.user_id)))
      (not_not.mp hmem) (not_le.mp hlong)
    have hmissing : y ∉ sessionItems settings w.redis event := by
      rw [sessionItems_eq hwindow, List.mem_cons]
      exact not_or.mpr ⟨hne, hnew⟩
    have hclick : event.item_id ∈ fullWindow settings w.redis event := List.mem_cons_self
    have hy : y ∈ fullWindow settings w.redis event := List.mem_cons_of_mem _ hfull
    obtain hlt | hlt := hne.lt_or_gt
    · have hpair := (h _ _).mpr ⟨hlt, hy, hclick⟩
      rw [upsertedPairs_eq hresolved hts, mem_coClickPairs_iff] at hpair
      exact hmissing hpair.2.1
    · have hpair := (h _ _).mpr ⟨hlt, hclick, hy⟩
      rw [upsertedPairs_eq hresolved hts, mem_coClickPairs_iff] at hpair
      exact hmissing hpair.2.2
  · intro hfits a b
    rw [upsertedPairs_eq hresolved hts, mem_coClickPairs_iff, mem_sessionItems_of_fits hwindow hfits,
      mem_sessionItems_of_fits hwindow hfits]

/-- Without an upsert only the window of the click alone is served. -/
theorem upserts_full_window_iff_of_not_converts {settings : Settings} {event : ClickEventDTO}
    {w : World} (hts : event.converts = false) :
    UpsertsFullWindow settings event w ↔
      fullWindow settings w.redis event = [event.item_id] := by
  simp only [UpsertsFullWindow, upsertedPairs_of_not_converts hts, List.not_mem_nil, false_iff]
  constructor
  · intro h
    rw [fullWindow, List.cons.injEq, List.eq_nil_iff_forall_not_mem]
    refine ⟨rfl, fun y hy => ?_⟩
    have hne : y ≠ event.item_id := by
      simpa using (List.mem_filter.mp (List.mem_of_mem_take hy)).2
    obtain hlt | hlt := hne.lt_or_gt
    · exact h _ _ ⟨hlt, List.mem_cons_of_mem _ hy, List.mem_cons_self⟩
    · exact h _ _ ⟨hlt, List.mem_cons_self, List.mem_cons_of_mem _ hy⟩
  · rintro h a b ⟨hlt, ha, hb⟩
    rw [h, List.mem_singleton] at ha hb
    exact hlt.ne (ha.trans hb.symm)

/-- **When the window is full.** The clicked item is none of the items that the window takes from
the history, or the history is short enough to be taken whole; an event whose timestamp cannot be
converted upserts nothing. -/
theorem upserts_full_window_iff {settings : Settings} {event : ClickEventDTO} {w : World}
    {row : ItemMeta} (hwindow : 1 ≤ settings.session_window)
    (hresolved : (resolveItemMeta settings w.db w.caches event.item_id).1 = some row) :
    UpsertsFullWindow settings event w ↔
      (event.converts = true ∧
        (event.item_id ∉ (history w.redis event.user_id).take (others settings) ∨
          (history w.redis event.user_id).length ≤ others settings)) ∨
      (event.converts = false ∧ fullWindow settings w.redis event = [event.item_id]) := by
  cases hts : event.converts with
  | true => simpa using upserts_full_window_iff_of_converts hwindow hresolved hts
  | false => simpa using upserts_full_window_iff_of_not_converts hts

/-- Five items clicked by one user, the last one last. -/
def fiveClicks : SortedSet ℚ String :=
  ((((SortedSet.empty.zadd "i1" 1).zadd "i2" 2).zadd "i3" 3).zadd "i4" 4).zadd "i5" 5

def afterFiveClicks : World :=
  { World.start (fun _ => some ⟨"shoes", 80⟩) with
    redis := ⟨fun _ => fiveClicks, fun _ => 0, fun _ => false⟩ }

theorem upserts_full_window_iff_fresh :
    UpsertsFullWindow defaultSettings ⟨1, .ok 6, "u1", "i6"⟩ afterFiveClicks :=
  (upserts_full_window_iff (by decide) rfl).mpr (.inl ⟨rfl, .inl (by decide)⟩)

/-- A second click on the last item leaves the window with four items. -/
theorem repeated_click_short_window :
    ¬ ∀ (settings : Settings) (event : ClickEventDTO) (w : World), 1 ≤ settings.session_window →
      ((resolveItemMeta settings w.db w.caches event.item_id).1).isSome →
      UpsertsFullWindow settings event w := by
  intro h
  have hfull : "i1" ∈ fullWindow defaultSettings afterFiveClicks.redis ⟨1, .ok 6, "u1", "i5"⟩ := by
    decide
  have hpair := (h defaultSettings ⟨1, .ok 6, "u1", "i5"⟩ afterFiveClicks (by decide) rfl "i1"
    "i5").mpr ⟨by decide, hfull, List.mem_cons_self⟩
  have hresolved : (resolveItemMeta defaultSettings afterFiveClicks.db afterFiveClicks.caches
      "i5").1 = some ⟨"shoes", 80⟩ := rfl
  rw [upsertedPairs_eq hresolved rfl, mem_coClickPairs_iff] at hpair
  exact absurd hpair.2.1 (by decide)

end ClickRec.Kafka
