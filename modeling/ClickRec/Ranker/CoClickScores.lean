import ClickRec.Kafka.CoClicks
import ClickRec.Ranker.Candidates
import Mathlib.Algebra.BigOperators.Group.Finset.Basic
import Mathlib.Data.Sym.Sym2

/-! # `co_click_scores` reads what `upsert_co_clicks` writes

A row of the table belongs to two items, and the reader looks for it from the side of each candidate.
For one candidate it counts a row once, also when both items are candidates and recent. -/
namespace ClickRec.Ranker
set_option autoImplicit false
open Kafka (Database ItemMeta Counts coClickPairs together upsertCall noCoClicks)

/-! ## The table -/

structure CoClickRow where
  item_a : String
  item_b : String
  count : ℕ
  deriving DecidableEq

def CoClickRow.key (row : CoClickRow) : String × String := (row.item_a, row.item_b)

/-- The rows in the order in which a SELECT without ORDER BY happens to return them. -/
structure CoClickTable where
  rows : List CoClickRow
  primaryKey : (rows.map CoClickRow.key).Nodup

theorem nodup_no_keys : (([] : List CoClickRow).map CoClickRow.key).Nodup := List.nodup_nil

def CoClickTable.empty : CoClickTable := ⟨[], nodup_no_keys⟩

/-- These are the rows of the table `co_click`. -/
def CoClickTable.Of (table : CoClickTable) (db : Database) : Prop :=
  ∀ row, row ∈ table.rows ↔ db.co_click row.key = some row.count

/-- The table that counts these calls. -/
def tableOf (calls : List (List String)) : CoClickTable where
  rows := (calls.flatMap coClickPairs).dedup.map fun p => ⟨p.1, p.2, together p.1 p.2 calls⟩
  primaryKey := by
    rw [List.map_map]
    have hid : CoClickRow.key ∘ (fun p => ⟨p.1, p.2, together p.1 p.2 calls⟩) = id := rfl
    rw [hid, List.map_id]
    exact List.nodup_dedup _

theorem tableOf_of {calls : List (List String)} {db : Database} (h : Counts calls db) :
    (tableOf calls).Of db := by
  intro row
  obtain ⟨a, b, n⟩ := row
  have hmem : (⟨a, b, n⟩ : CoClickRow) ∈ (tableOf calls).rows ↔
      (a, b) ∈ calls.flatMap coClickPairs ∧ together a b calls = n := by
    simp [tableOf]
  have hpair : (a, b) ∈ calls.flatMap coClickPairs ↔ a < b ∧ 0 < together a b calls := by
    simp only [List.mem_flatMap, Kafka.mem_coClickPairs_iff, together, List.countP_pos_iff,
      decide_eq_true_eq]
    constructor
    · rintro ⟨l, hl, hab, hboth⟩
      exact ⟨hab, l, hl, hboth⟩
    · rintro ⟨hab, l, hl, hboth⟩
      exact ⟨l, hl, hab, hboth⟩
  rw [hmem, hpair, CoClickRow.key, h]
  simp

/-! ## The code -/

section Reader
variable {K : Type} [Field K]

/-- `counts[id] = counts.get(id, 0.0) + float(count)`. -/
def addCount (counts : String → Option K) (id : String) (count : ℕ) : String → Option K :=
  Function.update counts id (some ((counts id).getD 0 + count))

/-- One turn of the loop over the rows. -/
def addRow (recent cands : List String) (counts : String → Option K) (row : CoClickRow) :
    String → Option K :=
  let counts :=
    if row.item_a ∈ cands ∧ row.item_b ∈ recent then addCount counts row.item_a row.count else counts
  if row.item_b ∈ cands ∧ row.item_a ∈ recent then addCount counts row.item_b row.count else counts

/-- The WHERE clause of `_CO_CLICK_SQL`. -/
def coClickRows (table : CoClickTable) (recent cands : List String) : List CoClickRow :=
  table.rows.filter fun row =>
    (row.item_a ∈ recent ∧ row.item_b ∈ cands) ∨ (row.item_a ∈ cands ∧ row.item_b ∈ recent)

def coClickScores (table : CoClickTable) (cands : List (RankingCandidate K))
    (recent_item_ids : List String) : List K :=
  if cands.isEmpty ∨ recent_item_ids.isEmpty then List.replicate cands.length 0
  else
    let cand_ids := cands.map (·.item_id)
    let counts := (coClickRows table recent_item_ids cand_ids).foldl
      (addRow recent_item_ids cand_ids) (PyList.dictOf id (fun _ => 0) cand_ids)
    cand_ids.map fun cid => (counts cid).getD 0

/-! ## What a row gives to a candidate -/

/-- The part of a candidate in a row. -/
def share (recent : List String) (c : String) (row : CoClickRow) : ℕ :=
  (if row.item_a = c ∧ row.item_b ∈ recent then row.count else 0) +
    if row.item_b = c ∧ row.item_a ∈ recent then row.count else 0

theorem addCount_getD (counts : String → Option K) (id c : String) (count : ℕ) :
    (addCount counts id count c).getD 0 = (counts c).getD 0 + if id = c then (count : K) else 0 := by
  by_cases h : id = c
  · subst h
    simp [addCount]
  · simp [addCount, h, Function.update_of_ne (Ne.symm h)]

theorem addRow_getD {recent cands : List String} {c : String} (hc : c ∈ cands)
    (counts : String → Option K) (row : CoClickRow) :
    (addRow recent cands counts row c).getD 0 =
      (counts c).getD 0 + (share recent c row : K) := by
  have hside : ∀ (counts : String → Option K) (id other : String),
      ((if id ∈ cands ∧ other ∈ recent then addCount counts id row.count else counts) c).getD 0 =
        (counts c).getD 0 + ((if id = c ∧ other ∈ recent then row.count else 0 : ℕ) : K) := by
    intro counts id other
    split
    · rename_i hboth
      rw [addCount_getD]
      simp [hboth.2]
    · rename_i hnot
      have hid : ¬ (id = c ∧ other ∈ recent) := fun h => hnot ⟨h.1 ▸ hc, h.2⟩
      simp [hid]
  unfold addRow share
  rw [hside, hside, add_assoc, Nat.cast_add]

theorem foldl_addRow_getD {recent cands : List String} {c : String} (hc : c ∈ cands)
    (rows : List CoClickRow) (counts : String → Option K) :
    (rows.foldl (addRow recent cands) counts c).getD 0 =
      (counts c).getD 0 + ((rows.map (share recent c)).sum : K) := by
  induction rows generalizing counts with
  | nil => simp
  | cons row rows ih =>
    rw [List.foldl_cons, ih, addRow_getD hc, List.map_cons, List.sum_cons, Nat.cast_add, add_assoc]

theorem dictOf_zero_getD (cands : List String) (c : String) :
    (PyList.dictOf id (fun _ => (0 : K)) cands c).getD 0 = 0 := by
  by_cases hc : c ∈ cands
  · rw [PyList.dictOf_const (by rwa [List.map_id])]
    rfl
  · have hnone : PyList.dictOf id (fun _ => (0 : K)) cands c = none :=
      PyList.dictOf_of_not_mem fun x hx hxc => hc ((show x = c from hxc) ▸ hx)
    rw [hnone]
    rfl

/-- The WHERE clause leaves out only rows without a part for a candidate. -/
theorem sum_share_coClickRows {recent cands : List String} {c : String} (hc : c ∈ cands)
    (table : CoClickTable) :
    ((coClickRows table recent cands).map (share recent c)).sum =
      (table.rows.map (share recent c)).sum := by
  unfold coClickRows
  induction table.rows with
  | nil => rfl
  | cons row rows ih =>
    rw [List.filter_cons, List.map_cons, List.sum_cons, ← ih]
    split
    · rw [List.map_cons, List.sum_cons]
    · rename_i hnot
      have hzero : share recent c row = 0 := by
        simp only [decide_eq_true_eq] at hnot
        have ha : ¬ (row.item_a = c ∧ row.item_b ∈ recent) := fun h => hnot (.inr ⟨h.1 ▸ hc, h.2⟩)
        have hb : ¬ (row.item_b = c ∧ row.item_a ∈ recent) := fun h => hnot (.inl ⟨h.2, h.1 ▸ hc⟩)
        rw [share, if_neg ha, if_neg hb]
      rw [hzero, zero_add]

/-- The row of a pair, found by its key. -/
theorem sum_rows_eq {rows : List CoClickRow} (hkeys : (rows.map CoClickRow.key).Nodup)
    (k : String × String) :
    (rows.map fun row => if row.key = k then row.count else 0).sum =
      ((rows.find? fun row => row.key = k).map (·.count)).getD 0 := by
  induction rows with
  | nil => rfl
  | cons row rows ih =>
    obtain ⟨hrow, hkeys⟩ := List.nodup_cons.mp hkeys
    rw [List.map_cons, List.sum_cons, ih hkeys, List.find?_cons]
    by_cases hk : row.key = k
    · have hnone : (rows.find? fun row => row.key = k) = none := by
        refine List.find?_eq_none.mpr fun other hother heq => hrow ?_
        have hother' : other.key = row.key := (by simpa using heq : other.key = k).trans hk.symm
        exact hother' ▸ List.mem_map_of_mem hother
      simp [hk, hnone]
    · simp [hk]

theorem CoClickTable.Of.sum_rows {table : CoClickTable} {db : Database} (h : table.Of db)
    (k : String × String) :
    (table.rows.map fun row => if row.key = k then row.count else 0).sum =
      (db.co_click k).getD 0 := by
  rw [sum_rows_eq table.primaryKey]
  cases hfind : table.rows.find? fun row => row.key = k with
  | some row =>
    have hkey : row.key = k := by simpa using List.find?_some hfind
    rw [← hkey, (h row).mp (List.mem_of_find?_eq_some hfind)]
    rfl
  | none =>
    cases hk : db.co_click k with
    | none => rfl
    | some n =>
      have hrow := List.find?_eq_none.mp hfind ⟨k.1, k.2, n⟩ ((h ⟨k.1, k.2, n⟩).mpr hk)
      simp [CoClickRow.key] at hrow

/-- The key of the row of two items. -/
def pairKey (c r : String) : String × String := (min c r, max c r)

/-- A row with the lesser item first gives a candidate its count for each other recent item it is
the row of, which is at most one. -/
theorem share_eq_sum {recent : List String} {c : String} {row : CoClickRow}
    (hrow : row.item_a < row.item_b) :
    share recent c row =
      ∑ r ∈ recent.toFinset.erase c, if row.key = pairKey c r then row.count else 0 := by
  have hkey : ∀ r, row.key = pairKey c r ↔
      (row.item_a = c ∧ row.item_b = r) ∨ (row.item_b = c ∧ row.item_a = r) := by
    intro r
    obtain hle | hle := le_total c r
    · simp only [CoClickRow.key, pairKey, min_eq_left hle, max_eq_right hle, Prod.mk.injEq]
      refine (or_iff_left ?_).symm
      rintro ⟨rfl, rfl⟩
      exact hrow.not_ge hle
    · simp only [CoClickRow.key, pairKey, min_eq_right hle, max_eq_left hle, Prod.mk.injEq]
      rw [and_comm]
      refine (or_iff_right ?_).symm
      rintro ⟨rfl, rfl⟩
      exact hrow.not_ge hle
  simp only [hkey, share]
  by_cases ha : row.item_a = c
  · have hb : row.item_b ≠ c := fun hb => hrow.ne (ha.trans hb.symm)
    simp [ha, hb, Finset.sum_ite_eq]
  · by_cases hb : row.item_b = c
    · simp [ha, hb, Finset.sum_ite_eq]
    · simp [ha, hb]

theorem sum_map_sum {α ι : Type} (l : List α) (s : Finset ι) (f : α → ι → ℕ) :
    (l.map fun x => ∑ i ∈ s, f x i).sum = ∑ i ∈ s, (l.map fun x => f x i).sum := by
  induction l with
  | nil => simp
  | cons x l ih =>
    simp only [List.map_cons, List.sum_cons]
    rw [ih, Finset.sum_add_distrib]

/-- Over all rows a candidate gets the counts of its pairs with the other recent items. -/
theorem sum_share {calls : List (List String)} {db : Database} (hdb : Counts calls db)
    {table : CoClickTable} (htable : table.Of db) (recent : List String) (c : String) :
    (table.rows.map (share recent c)).sum =
      ∑ r ∈ recent.toFinset.erase c, together c r calls := by
  have hrows : ∀ row ∈ table.rows, row.item_a < row.item_b := fun row hrow =>
    (hdb.of_some ((htable row).mp hrow)).1
  have hshare : table.rows.map (share recent c) = table.rows.map fun row =>
      ∑ r ∈ recent.toFinset.erase c, if row.key = pairKey c r then row.count else 0 :=
    List.map_congr_left fun row hrow => share_eq_sum (hrows row hrow)
  rw [hshare, sum_map_sum]
  refine Finset.sum_congr rfl fun r hr => ?_
  rw [htable.sum_rows, pairKey, hdb.getD_min_max (Finset.ne_of_mem_erase hr).symm]

/-- **Writer and reader agree.** After any calls of `upsert_co_clicks` on an empty table each row has
the lesser item first, no two rows are for the same two items, and a row counts the calls with both
its items; and `co_click_scores` gives each candidate the number of calls with it and a recent item,
added up over the other recent items. -/
theorem co_click_writer_reader_agree (item : String → Option ItemMeta) (calls : List (List String))
    (db : Database) (hrun : Trace.exec upsertCall (noCoClicks item) calls = some db)
    (table : CoClickTable) (htable : table.Of db) :
    (∀ row ∈ table.rows, row.item_a < row.item_b) ∧
    (table.rows.map fun row => s(row.item_a, row.item_b)).Nodup ∧
    (∀ row ∈ table.rows, row.count = together row.item_a row.item_b calls) ∧
    (∀ a b, a ≠ b → 0 < together a b calls →
      ∃ row ∈ table.rows, s(row.item_a, row.item_b) = s(a, b)) ∧
    ∀ (cands : List (RankingCandidate K)) (recent_item_ids : List String),
      coClickScores table cands recent_item_ids = cands.map fun c =>
        ((∑ r ∈ recent_item_ids.toFinset.erase c.item_id, together c.item_id r calls : ℕ) : K) := by
  have hdb : Counts calls db := Kafka.counts_exec hrun
  have hrow : ∀ row ∈ table.rows, row.item_a < row.item_b ∧
      row.count = together row.item_a row.item_b calls := fun row hmem =>
    hdb.of_some ((htable row).mp hmem)
  refine ⟨fun row hmem => (hrow row hmem).1, ?_, fun row hmem => (hrow row hmem).2, ?_, ?_⟩
  · have hnodup : table.rows.Nodup := table.primaryKey.of_map
    refine hnodup.map_on fun row hmem row' hmem' heq => ?_
    refine List.inj_on_of_nodup_map table.primaryKey hmem hmem' ?_
    obtain ⟨ha, hb⟩ | ⟨ha, hb⟩ := Sym2.eq_iff.mp heq
    · exact Prod.ext ha hb
    · -- the two rows would have their items in opposite orders
      have hlt := (hrow row hmem).1
      have hlt' := (hrow row' hmem').1
      rw [ha, hb] at hlt
      exact absurd hlt hlt'.not_gt
  · intro a b hne hpos
    have hex : ∀ {x y}, x < y → 0 < together x y calls →
        ∃ row ∈ table.rows, s(row.item_a, row.item_b) = s(x, y) := by
      intro x y hxy hpos
      refine ⟨⟨x, y, together x y calls⟩, (htable _).mpr ?_, rfl⟩
      exact (hdb x y).trans (if_pos ⟨hxy, hpos⟩)
    obtain hab | hba := hne.lt_or_gt
    · exact hex hab hpos
    · obtain ⟨row, hmem, heq⟩ := hex hba (Kafka.together_comm a b calls ▸ hpos)
      exact ⟨row, hmem, heq.trans Sym2.eq_swap⟩
  · intro cands recent
    unfold coClickScores
    split
    · rename_i hnone
      obtain hcands | hrecent := hnone
      · rw [List.isEmpty_iff.mp hcands]
        rfl
      · rw [List.isEmpty_iff.mp hrecent]
        simp [List.map_const']
    · rw [List.map_map]
      refine List.map_congr_left fun c hc => ?_
      have hmem : c.item_id ∈ cands.map (·.item_id) := List.mem_map_of_mem hc
      rw [Function.comp_apply, foldl_addRow_getD hmem, dictOf_zero_getD, zero_add,
        sum_share_coClickRows hmem, sum_share hdb htable]

end Reader

/-! ## A candidate that is recent as well -/

def candidate (id : String) : RankingCandidate ℚ :=
  ⟨id, "t", "d", "c", "b", 1, 0, 0, none, none, none, none⟩

def twoCalls : List (List String) := [["i1", "i2", "i1"], ["i3", "i2", "i1"]]

theorem co_click_writer_reader_agree_overlap :
    ∃ db, Trace.exec upsertCall (noCoClicks fun _ => some ⟨"shoes", 10⟩) twoCalls = some db ∧
      coClickScores (tableOf twoCalls) [candidate "i1", candidate "i4"] ["i1", "i2"] = [2, 0] := by
  obtain ⟨db, hrun⟩ : ∃ db,
      Trace.exec upsertCall (noCoClicks fun _ => some ⟨"shoes", 10⟩) twoCalls = some db := ⟨_, rfl⟩
  refine ⟨db, hrun, ?_⟩
  rw [(co_click_writer_reader_agree _ twoCalls db hrun (tableOf twoCalls)
    (tableOf_of (Kafka.counts_exec hrun))).2.2.2.2]
  decide

end ClickRec.Ranker
