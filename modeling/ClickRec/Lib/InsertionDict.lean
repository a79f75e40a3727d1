import ClickRec.Lib.PyList

/-! Dicts in the order of insertion. Keys are compared by `key`; one that is set again keeps its place
and the object it was first set with, and gets the new value. -/
namespace InsertionDict
set_option autoImplicit false
open PyList (keepFirst keepFirst_concat pushNew mem_of_mem_keepFirst)

variable {α β κ : Type*} [DecidableEq κ] (key : α → κ)

/-- `d[row.1] = row.2`. -/
def set (d : List (α × β)) (row : α × β) : List (α × β) :=
  if key row.1 ∈ d.map fun e => key e.1 then
    d.map fun e => if key e.1 = key row.1 then (e.1, row.2) else e
  else d ++ [row]

def ofRows (rows : List (α × β)) : List (α × β) := rows.foldl (set key) []

/-- The last row with this key. -/
def lastOf (rows : List (α × β)) (k : κ) : Option (α × β) :=
  rows.reverse.find? fun row => key row.1 = k

/-- The keys in the order of their first rows. -/
def firsts (rows : List (α × β)) : List α := (keepFirst (fun row => key row.1) rows).map (·.1)

/-! ## The last row of a key -/

section LastOf
variable {key} {rows : List (α × β)} {row : α × β} {k : κ}

theorem lastOf_concat (rows : List (α × β)) (row : α × β) (k : κ) :
    lastOf key (rows ++ [row]) k = if key row.1 = k then some row else lastOf key rows k := by
  rw [lastOf, List.reverse_append, List.reverse_singleton, List.singleton_append, List.find?_cons]
  by_cases h : key row.1 = k
  · simp [h]
  · simp [h, lastOf]

theorem key_of_lastOf (h : lastOf key rows k = some row) : key row.1 = k := by
  simpa using List.find?_some h

variable (key) in
theorem exists_lastOf (h : row ∈ rows) : ∃ last, lastOf key rows (key row.1) = some last := by
  cases hlast : lastOf key rows (key row.1) with
  | none =>
    have hnot := List.find?_eq_none.mp hlast row (List.mem_reverse.mpr h)
    simp at hnot
  | some last => exact ⟨last, rfl⟩

/-- A last row that passes a filter is the last one of those that pass. -/
theorem lastOf_filter {p : α × β → Bool} (h : lastOf key rows k = some row) (hp : p row = true) :
    lastOf key (rows.filter p) k = some row := by
  induction rows using List.reverseRecOn with
  | nil => cases h
  | append_singleton rows x ih =>
    rw [lastOf_concat] at h
    rw [List.filter_append, List.filter_singleton]
    split at h
    · rename_i hk
      obtain rfl := Option.some.inj h
      rw [hp, cond_true, lastOf_concat, if_pos hk]
    · rename_i hk
      cases p x with
      | false =>
        rw [cond_false, List.append_nil]
        exact ih h
      | true =>
        rw [cond_true, lastOf_concat, if_neg hk]
        exact ih h

end LastOf

/-! ## The dict of a list of rows -/

/-- The entry of a first row: its key object, and the value of the last row of its key. -/
def entry (rows : List (α × β)) (row : α × β) : α × β :=
  (row.1, ((lastOf key rows (key row.1)).getD row).2)

theorem key_entry (rows : List (α × β)) (row : α × β) : (entry key rows row).1 = row.1 := rfl

/-- Every key in the order of its first row, with the value of its last one. -/
theorem ofRows_eq (rows : List (α × β)) :
    ofRows key rows = (keepFirst (fun row => key row.1) rows).map (entry key rows) := by
  induction rows using List.reverseRecOn with
  | nil => rfl
  | append_singleton rows x ih =>
    have hkeys : (ofRows key rows).map (fun e => key e.1) =
        (keepFirst (fun row => key row.1) rows).map fun row => key row.1 := by
      rw [ih, List.map_map]
      rfl
    have hset : ofRows key (rows ++ [x]) = set key (ofRows key rows) x := by
      rw [ofRows, List.foldl_append]
      rfl
    rw [hset, set, hkeys, keepFirst_concat, pushNew, ih]
    split
    · rw [List.map_map]
      refine List.map_congr_left fun row _ => ?_
      rw [Function.comp_apply, key_entry, entry, entry, lastOf_concat]
      by_cases hx : key x.1 = key row.1
      · rw [if_pos hx.symm, if_pos hx]
        rfl
      · rw [if_neg (Ne.symm hx), if_neg hx]
    · rename_i hnew
      rw [List.map_append, List.map_singleton]
      refine congrArg₂ (· ++ ·) (List.map_congr_left fun row hrow => ?_) ?_
      · have hne : key x.1 ≠ key row.1 := fun heq =>
          hnew (heq ▸ List.mem_map_of_mem (f := fun row : α × β => key row.1) hrow)
        rw [entry, entry, lastOf_concat, if_neg hne]
      · rw [entry, lastOf_concat, if_pos rfl]
        rfl

/-! ## The dict of some of the rows -/

/-- The value at a key, if there is one. -/
def valueOf (rows : List (α × β)) (a : α) : Option β := (lastOf key rows (key a)).map (·.2)

theorem map_ofRows (rows : List (α × β)) :
    (ofRows key rows).map (Prod.map id some) = (firsts key rows).map fun a => (a, valueOf key rows a) := by
  rw [ofRows_eq, firsts, List.map_map, List.map_map]
  refine List.map_congr_left fun row hrow => ?_
  obtain ⟨last, hlast⟩ := exists_lastOf key (mem_of_mem_keepFirst hrow)
  simp only [Function.comp_apply, entry, valueOf, hlast, Prod.map_apply, id_eq, Option.getD_some,
    Option.map_some]

variable {key} {rows : List (α × β)} {p : α × β → Bool}

theorem mem_of_mem_firsts {a : α} (h : a ∈ firsts key rows) : ∃ row ∈ rows, row.1 = a := by
  obtain ⟨row, hrow, rfl⟩ := List.mem_map.mp h
  exact ⟨row, mem_of_mem_keepFirst hrow, rfl⟩

/-- The filter looks at the key and at the value. -/
theorem valueOf_filter_iff (hp : ∀ row row', key row.1 = key row'.1 → row.2 = row'.2 → p row = p row')
    {a : α} (h : a ∈ firsts key (rows.filter p)) :
    valueOf key rows a = valueOf key (rows.filter p) a ↔
      ∃ row, lastOf key rows (key a) = some row ∧ p row = true := by
  constructor
  · intro heq
    obtain ⟨row, hrow, rfl⟩ := mem_of_mem_firsts h
    obtain ⟨kept, hkept⟩ := exists_lastOf key hrow
    obtain ⟨last, hlast⟩ := exists_lastOf key (List.mem_of_mem_filter hrow)
    have hpass : p kept = true :=
      (List.mem_filter.mp (List.mem_reverse.mp (List.mem_of_find?_eq_some hkept))).2
    have hvalue : last.2 = kept.2 := by
      rw [valueOf, valueOf, hlast, hkept] at heq
      exact Option.some.inj heq
    refine ⟨last, hlast, ?_⟩
    rw [hp last kept ((key_of_lastOf hlast).trans (key_of_lastOf hkept).symm) hvalue, hpass]
  · rintro ⟨row, hrow, hpass⟩
    rw [valueOf, valueOf, hrow, lastOf_filter hrow hpass]

/-- Leaving rows out changes nothing among the first `n` keys: these are the same, in the same order, and
the last row of each is kept. -/
theorem take_ofRows_filter_iff
    (hp : ∀ row row', key row.1 = key row'.1 → row.2 = row'.2 → p row = p row') (n : ℕ) :
    (ofRows key rows).take n = (ofRows key (rows.filter p)).take n ↔
      (firsts key rows).take n = (firsts key (rows.filter p)).take n ∧
        ∀ a ∈ (firsts key rows).take n, ∃ row, lastOf key rows (key a) = some row ∧ p row = true := by
  have hinj : Function.Injective (Prod.map id some : α × β → α × Option β) :=
    Function.injective_id.prodMap (Option.some_injective β)
  rw [← (List.map_injective_iff.mpr hinj).eq_iff, List.map_take, List.map_take, map_ofRows, map_ofRows,
    ← List.map_take, ← List.map_take]
  constructor
  · intro h
    have hfirsts : (firsts key rows).take n = (firsts key (rows.filter p)).take n := by
      have hfst := congrArg (List.map Prod.fst) h
      simpa only [List.map_map, Function.comp_def, List.map_id'] using hfst
    refine ⟨hfirsts, fun a ha => ?_⟩
    rw [← hfirsts] at h
    refine (valueOf_filter_iff hp (List.mem_of_mem_take (hfirsts ▸ ha))).mp ?_
    exact congrArg Prod.snd (List.map_inj_left.mp h a ha)
  · rintro ⟨hfirsts, hlast⟩
    rw [← hfirsts]
    refine List.map_congr_left fun a ha => Prod.ext rfl ?_
    exact (valueOf_filter_iff hp (List.mem_of_mem_take (hfirsts ▸ ha))).mpr (hlast a ha)

/-! ## Rows under another type of keys and values -/

section Map
variable {α' β' κ' : Type*} [DecidableEq κ'] {key' : α' → κ'} {f : α' → α} (g : β' → β)

theorem set_map (hf : ∀ a b, key (f a) = key (f b) ↔ key' a = key' b) (d : List (α' × β'))
    (row : α' × β') :
    set key (d.map (Prod.map f g)) (Prod.map f g row) = (set key' d row).map (Prod.map f g) := by
  have hmem : key (f row.1) ∈ ((d.map (Prod.map f g)).map fun e => key e.1) ↔
      key' row.1 ∈ d.map fun e => key' e.1 := by
    simp only [List.map_map, List.mem_map, Function.comp_apply, Prod.map_fst, hf]
  rw [set, set, Prod.map_fst, if_congr hmem rfl rfl]
  split
  · rw [List.map_map, List.map_map]
    refine List.map_congr_left fun e _ => ?_
    rw [Function.comp_apply, Function.comp_apply, Prod.map_fst, if_congr (hf e.1 row.1) rfl rfl]
    split
    · rfl
    · rfl
  · rw [List.map_append, List.map_singleton]

/-- The embedding keeps keys apart. -/
theorem ofRows_map (hf : ∀ a b, key (f a) = key (f b) ↔ key' a = key' b) (rows : List (α' × β')) :
    ofRows key (rows.map (Prod.map f g)) = (ofRows key' rows).map (Prod.map f g) := by
  induction rows using List.reverseRecOn with
  | nil => rfl
  | append_singleton rows x ih =>
    rw [ofRows, ofRows, List.map_append, List.map_singleton, List.foldl_append, List.foldl_append,
      ← ofRows, ← ofRows, ih]
    exact set_map g hf _ x

end Map

end InsertionDict
