import ClickRec.Kafka.ReplayDlq
import ClickRec.Lib.InsertionDict
import ClickRec.Llm.FailOpen

/-! # `load_replay_triples`

A line that is not JSON is passed over, and so is a row with a falsy field. Nothing looks at the types:
a line may be a value that has no `get`, and a field may be any truthy value. -/
namespace ClickRec.Eval
set_option autoImplicit false
open Kafka.ReplayDlq (typeName noAttributeGet)
open Llm.Client (JsonLib strip)

/-! ## Python values -/

/-- `bool(v)`. -/
def truthy : Json → Bool
  | .null => false
  | .bool b => b
  | .int i => i ≠ 0
  | .float x => x ≠ 0
  | .str s => s ≠ ""
  | .arr items => !items.isEmpty
  | .obj entries => !entries.isEmpty

/-- What the keys of a dict are compared by: `1`, `1.0` and `True` are one key. -/
inductive HashKey where
  | none
  | number (x : ℚ)
  | text (s : String)
  deriving DecidableEq

/-- A list and a dict are not hashable. -/
def hashKey : Json → Option HashKey
  | .null => some .none
  | .bool b => some (.number (if b then 1 else 0))
  | .int i => some (.number i)
  | .float x => some (.number x)
  | .str s => some (.text s)
  | .arr _ => none
  | .obj _ => none

def unhashableType (v : Json) : PyError :=
  ⟨"TypeError", "unhashable type: '" ++ typeName v ++ "'", ""⟩

/-! ## The loop over the lines -/

/-- A user_id, and the query and the item_id it is mapped to. -/
abbrev LogRow := Json × Json × Json

/-- `row.get(…)` of the three fields. -/
def fields (row : List (String × Json)) : LogRow :=
  ((row.lookup "user_id").getD .null, (row.lookup "query").getD .null,
    (row.lookup "item_id").getD .null)

def complete (row : LogRow) : Bool := truthy row.1 && truthy row.2.1 && truthy row.2.2

def readRow (json : JsonLib) (line : String) : Except PyError (Option LogRow) :=
  let line := strip line
  if line = "" then .ok none
  else
    match json.loads line with
    | .error e => if e.cls = "JSONDecodeError" then .ok none else .error e
    | .ok (.obj row) => .ok (if complete (fields row) then some (fields row) else none)
    | .ok v => .error (noAttributeGet v)

/-- `last_by_user[user_id] = (query, item_id)`. -/
def setUser (last_by_user : List LogRow) (row : LogRow) : Except PyError (List LogRow) :=
  if (hashKey row.1).isNone then .error (unhashableType row.1)
  else .ok (InsertionDict.set hashKey last_by_user row)

def loadRows (json : JsonLib) : List String → List LogRow → Except PyError (List LogRow)
  | [], last_by_user => .ok last_by_user
  | line :: lines, last_by_user => do
    match ← readRow json line with
    | none => loadRows json lines last_by_user
    | some row => loadRows json lines (← setUser last_by_user row)

/-- The lines of the file, when it exists. -/
def loadReplayTriples (json : JsonLib) (file : Option (List String)) (num_users : ℤ) :
    Except PyError (List LogRow) :=
  match file with
  | none => .ok []
  | some lines => (loadRows json lines []).map fun last_by_user => PyList.sliceTo last_by_user num_users

/-! ## Valid rows -/

/-- The row of a line that is a JSON object with three strings that are not empty. -/
def validRow (json : JsonLib) (line : String) : Option (String × String × String) :=
  if strip line = "" then none
  else
    match json.loads (strip line) with
    | .ok (.obj row) =>
      match fields row with
      | (.str user_id, .str query, .str item_id) =>
        if user_id ≠ "" ∧ query ≠ "" ∧ item_id ≠ "" then some (user_id, query, item_id) else none
      | _ => none
    | _ => none

/-- The last row of every user, in the order of their first rows. -/
def lastRows (rows : List (String × String × String)) : List (String × String × String) :=
  (PyList.keepFirst (·.1) rows).map fun row => (rows.reverse.find? (·.1 = row.1)).getD row

def asRow : String × String × String → LogRow := Prod.map .str (Prod.map .str .str)

/-! ## Lines that raise -/

/-- The line ends the loop: another exception of `json.loads`, a value without `get`, or three truthy
fields of which the user_id cannot be the key of a dict. -/
def Raises (json : JsonLib) (line : String) : Prop :=
  strip line ≠ "" ∧
    match json.loads (strip line) with
    | .error e => e.cls ≠ "JSONDecodeError"
    | .ok (.obj row) => complete (fields row) = true ∧ hashKey (fields row).1 = none
    | .ok _ => True

/-- The row of a line that reaches the dict. -/
def acceptedRow (json : JsonLib) (line : String) : Option LogRow :=
  match readRow json line with
  | .ok row => row
  | .error _ => none

def acceptedRows (json : JsonLib) (lines : List String) : List LogRow :=
  lines.filterMap (acceptedRow json)

/-- A user_id that is hashable is set. -/
theorem setUser_ok {row : LogRow} (h : hashKey row.1 ≠ none) (last_by_user : List LogRow) :
    setUser last_by_user row = .ok (InsertionDict.set hashKey last_by_user row) := by
  rw [setUser, if_neg (by simpa using h)]

section Lines
variable (json : JsonLib) {line : String}

theorem readRow_cases (line : String) :
    (Raises json line ∧ ((∃ e, readRow json line = .error e) ∨
      ∃ row, readRow json line = .ok (some row) ∧ hashKey row.1 = none)) ∨
    (¬ Raises json line ∧ (readRow json line = .ok none ∨
      ∃ row, readRow json line = .ok (some row) ∧ hashKey row.1 ≠ none)) := by
  unfold Raises readRow
  by_cases hblank : strip line = ""
  · exact .inr ⟨fun h => h.1 hblank, .inl (if_pos hblank)⟩
  · simp only [hblank, if_false, ne_eq, not_false_eq_true, true_and]
    cases hloads : json.loads (strip line) with
    | error e =>
      by_cases hcls : e.cls = "JSONDecodeError"
      · exact .inr ⟨fun h => h hcls, .inl (if_pos hcls)⟩
      · exact .inl ⟨hcls, .inl ⟨e, if_neg hcls⟩⟩
    | ok v =>
      cases v with
      | obj row =>
        by_cases hcomplete : complete (fields row) = true
        · simp only [hcomplete, if_true, true_and]
          by_cases hkey : hashKey (fields row).1 = none
          · exact .inl ⟨hkey, .inr ⟨fields row, rfl, hkey⟩⟩
          · exact .inr ⟨hkey, .inr ⟨fields row, rfl, hkey⟩⟩
        · exact .inr ⟨fun h => hcomplete h.1, .inl (congrArg Except.ok (if_neg hcomplete))⟩
      | _ => exact .inl ⟨trivial, .inl ⟨_, rfl⟩⟩

/-- The loop ends with the dict of the accepted rows. -/
theorem loadRows_ok {lines : List String} (h : ∀ line ∈ lines, ¬ Raises json line)
    (last_by_user : List LogRow) :
    loadRows json lines last_by_user =
      .ok ((acceptedRows json lines).foldl (InsertionDict.set hashKey) last_by_user) := by
  induction lines generalizing last_by_user with
  | nil => rfl
  | cons line lines ih =>
    rw [List.forall_mem_cons] at h
    rw [loadRows, acceptedRows, List.filterMap_cons, acceptedRow]
    obtain ⟨hraises, -⟩ | ⟨-, hnone | ⟨row, hrow, hkey⟩⟩ := readRow_cases json line
    · exact absurd hraises h.1
    · rw [hnone]
      exact ih h.2 last_by_user
    · rw [hrow]
      simp only [bind, Except.bind, setUser_ok hkey]
      exact ih h.2 _

theorem loadRows_error {lines : List String} (h : ∃ line ∈ lines, Raises json line)
    (last_by_user : List LogRow) : ∃ e, loadRows json lines last_by_user = .error e := by
  induction lines generalizing last_by_user with
  | nil => simp at h
  | cons line lines ih =>
    rw [List.exists_mem_cons_iff] at h
    rw [loadRows]
    obtain ⟨-, ⟨e, he⟩ | ⟨row, hrow, hkey⟩⟩ | ⟨hok, hread⟩ := readRow_cases json line
    · rw [he]
      exact ⟨e, rfl⟩
    · rw [hrow]
      simp only [bind, Except.bind, setUser, hkey]
      exact ⟨_, rfl⟩
    · have hrest := ih (h.resolve_left hok)
      obtain hnone | ⟨row, hrow, hkey⟩ := hread
      · rw [hnone]
        exact hrest last_by_user
      · rw [hrow]
        simp only [bind, Except.bind, setUser_ok hkey]
        exact hrest _

end Lines

/-! ## The rows that are valid -/

def isStr : Json → Bool
  | .str _ => true
  | _ => false

def isText (row : LogRow) : Bool := isStr row.1 && isStr row.2.1 && isStr row.2.2

theorem isStr_eq (v : Json) : isStr v = (match hashKey v with
    | some (.text _) => true
    | _ => false) := by
  cases v with
  | _ => rfl

/-- Rows of one key and value are all text or none is. -/
theorem isText_congr (row row' : LogRow) (hkey : hashKey row.1 = hashKey row'.1)
    (hvalue : row.2 = row'.2) : isText row = isText row' := by
  rw [isText, isText, isStr_eq row.1, isStr_eq row'.1, hkey, hvalue]

theorem hashKey_str (a b : String) : hashKey (.str a) = hashKey (.str b) ↔ id a = id b := by
  simp [hashKey]

theorem filter_of_not_isText {row : LogRow} (h : isText row = false) :
    (if complete row = true then some row else none).filter isText = none := by
  split
  · rw [Option.filter_some, h]
    rfl
  · rfl

theorem filter_complete (row : LogRow) :
    (if complete row = true then some row else none).filter isText =
      (match row with
        | (.str user_id, .str query, .str item_id) =>
          if user_id ≠ "" ∧ query ≠ "" ∧ item_id ≠ "" then some (user_id, query, item_id) else none
        | _ => none).map asRow := by
  obtain ⟨user_id, query, item_id⟩ := row
  cases user_id with
  | str user_id =>
    cases query with
    | str query =>
      cases item_id with
      | str item_id =>
        have hcomplete : complete (.str user_id, .str query, .str item_id) = true ↔
            user_id ≠ "" ∧ query ≠ "" ∧ item_id ≠ "" := by
          simp [complete, truthy, and_assoc]
        simp only [hcomplete]
        split
        · rfl
        · rfl
      | _ => exact filter_of_not_isText rfl
    | _ => exact filter_of_not_isText rfl
  | _ => exact filter_of_not_isText rfl

/-- The valid rows are the accepted ones that are text. -/
theorem map_validRow (json : JsonLib) (line : String) :
    (validRow json line).map asRow = (acceptedRow json line).filter isText := by
  unfold validRow acceptedRow readRow
  by_cases hblank : strip line = ""
  · simp only [hblank, if_true]
    rfl
  · simp only [hblank, if_false]
    cases json.loads (strip line) with
    | error e =>
      by_cases hcls : e.cls = "JSONDecodeError"
      · simp only [hcls, if_true]
        rfl
      · simp only [hcls, if_false]
        rfl
    | ok v =>
      cases v with
      | obj row => exact (filter_complete (fields row)).symm
      | _ => rfl

theorem map_validRows (json : JsonLib) (lines : List String) :
    (lines.filterMap (validRow json)).map asRow = (acceptedRows json lines).filter isText := by
  rw [acceptedRows, List.map_filterMap, List.filter_filterMap]
  exact List.filterMap_congr fun line _ => map_validRow json line

theorem map_lastRows (rows : List (String × String × String)) :
    (lastRows rows).map asRow = InsertionDict.ofRows hashKey (rows.map asRow) := by
  have hlast : lastRows rows = InsertionDict.ofRows id rows := by
    rw [InsertionDict.ofRows_eq]
    refine List.map_congr_left fun row hrow => ?_
    obtain ⟨last, hlast⟩ := InsertionDict.exists_lastOf id (PyList.mem_of_mem_keepFirst hrow)
    have hfind : rows.reverse.find? (·.1 = row.1) = some last := hlast
    have hkey : last.1 = row.1 := InsertionDict.key_of_lastOf hlast
    rw [hfind, InsertionDict.entry, hlast]
    exact Prod.ext hkey rfl
  rw [hlast]
  exact (InsertionDict.ofRows_map (Prod.map Json.str Json.str) hashKey_str rows).symm

/-! ## What is loaded -/

/-- The first `n` users, in the order of their first rows. -/
def firstUsers (rows : List LogRow) (n : ℕ) : List Json := (InsertionDict.firsts hashKey rows).take n

/-- **When any log is read as its valid rows.** No line raises, the first users are the same as without
the rows that are not text, and the last row of each of them is text. -/
theorem loadReplayTriples_iff (json : JsonLib) (lines : List String) {num_users : ℤ}
    (hn : 0 ≤ num_users) :
    loadReplayTriples json (some lines) num_users =
        .ok (((lastRows (lines.filterMap (validRow json))).take num_users.toNat).map asRow) ↔
      (∀ line ∈ lines, ¬ Raises json line) ∧
      firstUsers (acceptedRows json lines) num_users.toNat =
        firstUsers ((acceptedRows json lines).filter isText) num_users.toNat ∧
      ∀ user ∈ firstUsers (acceptedRows json lines) num_users.toNat, ∃ row,
        InsertionDict.lastOf hashKey (acceptedRows json lines) (hashKey user) = some row ∧
          isText row = true := by
  by_cases hraises : ∃ line ∈ lines, Raises json line
  · obtain ⟨e, he⟩ := loadRows_error json hraises []
    refine iff_of_false (fun h => ?_) fun h => ?_
    · rw [loadReplayTriples, he] at h
      cases h
    · obtain ⟨line, hline, hline'⟩ := hraises
      exact h.1 line hline hline'
  · have hok : ∀ line ∈ lines, ¬ Raises json line := fun line hline h => hraises ⟨line, hline, h⟩
    rw [and_iff_right hok, loadReplayTriples, loadRows_ok json hok, List.map_take, map_lastRows,
      map_validRows]
    simp only [Except.map, PyList.sliceTo_of_nonneg _ hn, Except.ok.injEq]
    exact InsertionDict.take_ofRows_filter_iff isText_congr num_users.toNat

/-! ## A line that is no object -/

/-- A log of one valid row, a line cut off and `null`. -/
def sampleRow : String :=
  "\x7b\"user_id\": \"u1\", \"query\": \"shoes\", \"item_id\": \"i1\"\x7d"

def sampleJson : JsonLib where
  loads text :=
    if text = sampleRow then
      .ok (.obj [("user_id", .str "u1"), ("query", .str "shoes"), ("item_id", .str "i1")])
    else if text = "null" then .ok .null
    else .error ⟨"JSONDecodeError", "Expecting value: line 1 column 1 (char 0)", ""⟩
  loads_bytes _ := .error ⟨"JSONDecodeError", "Expecting value: line 1 column 1 (char 0)", ""⟩
  dumps _ := ""

theorem loadReplayTriples_iff_sample :
    loadReplayTriples sampleJson (some [sampleRow, "", "[1,"]) 200 =
        .ok (((lastRows ([sampleRow, "", "[1,"].filterMap (validRow sampleJson))).take
          (200 : ℤ).toNat).map asRow) ↔
      (∀ line ∈ [sampleRow, "", "[1,"], ¬ Raises sampleJson line) ∧
      firstUsers (acceptedRows sampleJson [sampleRow, "", "[1,"]) (200 : ℤ).toNat =
        firstUsers ((acceptedRows sampleJson [sampleRow, "", "[1,"]).filter isText)
          (200 : ℤ).toNat ∧
      ∀ user ∈ firstUsers (acceptedRows sampleJson [sampleRow, "", "[1,"]) (200 : ℤ).toNat, ∃ row,
        InsertionDict.lastOf hashKey (acceptedRows sampleJson [sampleRow, "", "[1,"])
          (hashKey user) = some row ∧ isText row = true :=
  loadReplayTriples_iff sampleJson [sampleRow, "", "[1,"] (by decide)

theorem sampleJson_documented : sampleJson.Documented := by
  intro text e h
  simp only [sampleJson] at h
  split at h
  · cases h
  · split at h
    · cases h
    · rw [← Except.error.inj h]
      exact .inl rfl

/-- `null` is JSON and has no `get`. -/
theorem null_line_raises :
    ¬ ∀ (json : JsonLib) (lines : List String) (num_users : ℤ), json.Documented → 0 ≤ num_users →
      loadReplayTriples json (some lines) num_users =
        .ok (((lastRows (lines.filterMap (validRow json))).take num_users.toNat).map asRow) := by
  intro h
  have hload := h sampleJson ["null"] 200 sampleJson_documented (by decide)
  have hraises : ∃ line ∈ ["null"], Raises sampleJson line := by
    have hstrip : strip "null" = "null" := by decide
    have hloads : sampleJson.loads "null" = .ok .null := by
      simp [sampleJson, sampleRow]
    refine ⟨"null", List.mem_singleton_self _, ?_⟩
    rw [Raises, hstrip, hloads]
    exact ⟨by decide, trivial⟩
  obtain ⟨e, he⟩ := loadRows_error sampleJson hraises []
  rw [loadReplayTriples, he] at hload
  cases hload

end ClickRec.Eval
