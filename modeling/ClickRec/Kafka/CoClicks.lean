import ClickRec.Kafka.Enrichment
import ClickRec.Lib.Trace

/-! # The table `co_click`

A call of `upsert_co_clicks` counts once each pair of two different items of its list, the lesser
one first. -/
namespace ClickRec.Kafka
set_option autoImplicit false

/-! ## The pairs of a list -/

theorem mem_fromkeys {l : List String} {x : String} : x ∈ fromkeys l ↔ x ∈ l :=
  PyList.mem_keepFirst_id

theorem mem_of_mem_combinations2 {α : Type} {l : List α} {p : α × α} (h : p ∈ combinations2 l) :
    p.1 ∈ l ∧ p.2 ∈ l := by
  induction l with
  | nil => cases h
  | cons x xs ih =>
    obtain h | h := List.mem_append.mp h
    · obtain ⟨y, hy, rfl⟩ := List.mem_map.mp h
      exact ⟨List.mem_cons_self, List.mem_cons_of_mem x hy⟩
    · exact ⟨List.mem_cons_of_mem x (ih h).1, List.mem_cons_of_mem x (ih h).2⟩

/-- In a list of two or more every element is in a pair. -/
theorem exists_mem_combinations2 {α : Type} {l : List α} {x : α} (hx : x ∈ l) (hl : 2 ≤ l.length) :
    ∃ p ∈ combinations2 l, x = p.1 ∨ x = p.2 := by
  match l with
  | [] => cases hx
  | [_] => simp at hl
  | a :: b :: rest =>
    obtain rfl | hx := List.mem_cons.mp hx
    · exact ⟨(x, b), by simp [combinations2], .inl rfl⟩
    · exact ⟨(a, x), List.mem_append_left _ (List.mem_map.mpr ⟨x, hx, rfl⟩), .inr rfl⟩

theorem mem_coClickPairs {l : List String} {q : String × String} (hl : 2 ≤ (fromkeys l).length) :
    q ∈ coClickPairs l ↔ ∃ p ∈ combinations2 (fromkeys l), (min p.1 p.2, max p.1 p.2) = q := by
  rw [coClickPairs, if_neg (by omega), List.mem_insertionSort, List.mem_dedup, List.mem_map]

/-- With distinct elements any two different ones are a pair, in one order. -/
theorem mem_combinations2_of_ne {α : Type} {l : List α} {x y : α} (hx : x ∈ l) (hy : y ∈ l)
    (hne : x ≠ y) : (x, y) ∈ combinations2 l ∨ (y, x) ∈ combinations2 l := by
  induction l with
  | nil => cases hx
  | cons z l ih =>
    rw [combinations2, List.mem_append, List.mem_append, List.mem_map, List.mem_map]
    obtain rfl | hx := List.mem_cons.mp hx
    · exact .inl (.inl ⟨y, (List.mem_cons.mp hy).resolve_left hne.symm, rfl⟩)
    · cases List.mem_cons.mp hy with
      | inl hyz => exact .inr (.inl ⟨x, hx, by rw [hyz]⟩)
      | inr hy => exact (ih hx hy).imp .inr .inr

theorem ne_of_mem_combinations2 {α : Type} {l : List α} {p : α × α} (hl : l.Nodup)
    (h : p ∈ combinations2 l) : p.1 ≠ p.2 := by
  induction l with
  | nil => cases h
  | cons z l ih =>
    obtain ⟨hz, hl⟩ := List.nodup_cons.mp hl
    obtain h | h := List.mem_append.mp h
    · obtain ⟨y, hy, rfl⟩ := List.mem_map.mp h
      intro hzy
      have hzy : z = y := hzy
      exact hz (hzy ▸ hy)
    · exact ih hl h

theorem nodup_fromkeys (l : List String) : (fromkeys l).Nodup := PyList.nodup_keepFirst_id

/-- **The pairs.** Those of two different items of the list, the lesser one first. -/
theorem mem_coClickPairs_iff {l : List String} {a b : String} :
    (a, b) ∈ coClickPairs l ↔ a < b ∧ a ∈ l ∧ b ∈ l := by
  by_cases hl : (fromkeys l).length < 2
  · rw [coClickPairs, if_pos hl]
    refine iff_of_false List.not_mem_nil ?_
    rintro ⟨hab, ha, hb⟩
    have hpair : [a, b].Subperm (fromkeys l) := by
      refine List.subperm_of_subset (by simpa using hab.ne) ?_
      intro x hx
      obtain rfl | rfl : x = a ∨ x = b := by simpa using hx
      · exact mem_fromkeys.mpr ha
      · exact mem_fromkeys.mpr hb
    have hlength := hpair.length_le
    rw [List.length_cons, List.length_singleton] at hlength
    omega
  · rw [mem_coClickPairs (by omega)]
    constructor
    · rintro ⟨⟨x, y⟩, hp, heq⟩
      obtain ⟨rfl, rfl⟩ := Prod.mk.inj heq
      obtain ⟨hx, hy⟩ := mem_of_mem_combinations2 hp
      have hx : x ∈ l := mem_fromkeys.mp hx
      have hy : y ∈ l := mem_fromkeys.mp hy
      have hne : x ≠ y := ne_of_mem_combinations2 (nodup_fromkeys l) hp
      obtain hlt | hlt := hne.lt_or_gt
      · have hmin : min x y = x := min_eq_left hlt.le
        have hmax : max x y = y := max_eq_right hlt.le
        simp only [hmin, hmax]
        exact ⟨hlt, hx, hy⟩
      · have hmin : min x y = y := min_eq_right hlt.le
        have hmax : max x y = x := max_eq_left hlt.le
        simp only [hmin, hmax]
        exact ⟨hlt, hy, hx⟩
    · rintro ⟨hab, ha, hb⟩
      obtain hp | hp := mem_combinations2_of_ne (mem_fromkeys.mpr ha) (mem_fromkeys.mpr hb) hab.ne
      · exact ⟨(a, b), hp, by rw [min_eq_left hab.le, max_eq_right hab.le]⟩
      · exact ⟨(b, a), hp, by rw [min_eq_right hab.le, max_eq_left hab.le]⟩

/-! ## Calls one after the other -/

/-- One call, unless it raises. -/
def upsertCall (db : Database) (item_ids : List String) : Option Database :=
  (db.upsert (coClickPairs item_ids)).toOption

/-- A database in which no pair is counted. -/
def noCoClicks (item : String → Option ItemMeta) : Database := ⟨item, fun _ => none⟩

/-- The number of calls whose list contains both items. -/
def together (a b : String) (calls : List (List String)) : ℕ :=
  calls.countP fun l => a ∈ l ∧ b ∈ l

theorem together_comm (a b : String) (calls : List (List String)) :
    together a b calls = together b a calls := by
  simp only [together, and_comm]

theorem together_append (a b : String) (calls : List (List String)) (l : List String) :
    together a b (calls ++ [l]) = together a b calls + if a ∈ l ∧ b ∈ l then 1 else 0 := by
  simp [together, List.countP_cons]

/-- The table counts these calls, in rows with the lesser item first. -/
def Counts (calls : List (List String)) (db : Database) : Prop :=
  ∀ a b, db.co_click (a, b) =
    if a < b ∧ 0 < together a b calls then some (together a b calls) else none

theorem Counts.of_some {calls : List (List String)} {db : Database} (h : Counts calls db)
    {a b : String} {n : ℕ} (hn : db.co_click (a, b) = some n) : a < b ∧ n = together a b calls := by
  rw [h] at hn
  split at hn
  · rename_i hab
    exact ⟨hab.1, (Option.some.inj hn).symm⟩
  · cases hn

/-- The count of two different items, under the key of their pair. -/
theorem Counts.getD_min_max {calls : List (List String)} {db : Database} (h : Counts calls db)
    {x y : String} (hne : x ≠ y) : (db.co_click (min x y, max x y)).getD 0 = together x y calls := by
  have hlt : ∀ {a b}, a < b → (db.co_click (a, b)).getD 0 = together a b calls := by
    intro a b hab
    obtain hzero | hpos := Nat.eq_zero_or_pos (together a b calls)
    · simp [h a b, hzero]
    · simp [h a b, hab, hpos]
  obtain hxy | hyx := hne.lt_or_gt
  · rw [min_eq_left hxy.le, max_eq_right hxy.le, hlt hxy]
  · rw [min_eq_right hyx.le, max_eq_left hyx.le, hlt hyx, together_comm]

theorem upsertCall_eq_some {db db' : Database} {l : List String} (h : upsertCall db l = some db')
    (p : String × String) : db'.co_click p =
      if p ∈ coClickPairs l then some ((db.co_click p).getD 0 + 1) else db.co_click p := by
  unfold upsertCall Database.upsert at h
  split at h
  · obtain rfl := Option.some.inj h
    rfl
  · cases h

theorem counts_step {calls : List (List String)} {db db' : Database} {l : List String}
    (hdb : Counts calls db) (h : upsertCall db l = some db') : Counts (calls ++ [l]) db' := by
  intro a b
  simp only [upsertCall_eq_some h, mem_coClickPairs_iff, hdb a b, together_append]
  by_cases hab : a < b
  · by_cases hl : a ∈ l ∧ b ∈ l
    · obtain hzero | hpos := Nat.eq_zero_or_pos (together a b calls)
      · simp [hab, hl, hzero]
      · simp [hab, hl, hpos]
    · simp [hab, hl]
  · simp [hab]

theorem counts_exec {item : String → Option ItemMeta} {calls : List (List String)} {db : Database}
    (h : Trace.exec upsertCall (noCoClicks item) calls = some db) : Counts calls db := by
  induction calls using List.reverseRecOn generalizing db with
  | nil =>
    obtain rfl : noCoClicks item = db := by simpa using h
    intro a b
    simp [noCoClicks, together]
  | append_singleton calls l ih =>
    obtain ⟨before, hbefore, hlast⟩ := Trace.exec_append.mp h
    obtain ⟨after, hstep, hnil⟩ := Trace.exec_cons.mp hlast
    obtain rfl : after = db := by simpa using hnil
    exact counts_step (ih hbefore) hstep

end ClickRec.Kafka
