import ClickRec.Lib.PyList
import ClickRec.Models
import Mathlib.Algebra.Field.Basic
import Mathlib.Algebra.Order.Ring.Unbundled.Rat
import Mathlib.Tactic

/-! # `fetch_candidate_rows`

Numbers are elements of a field `K`, and the square root and the rounding to six decimals of the
vectors sent to pgvector are parameters, so that arithmetic is exact where these are. -/
namespace ClickRec.Ranker
set_option autoImplicit false

/-! ## Rows and candidates -/

/-- A row of the table `item`. -/
structure ItemRow (K : Type) where
  id : String
  title : String
  description : String
  category : String
  brand : String
  price : K
  created_at : ℚ
  popularity_score : K
  embedding : Option (List K)

/-- The table, in the order in which a SELECT without ORDER BY happens to return it. -/
structure ItemTable (K : Type) where
  rows : List (ItemRow K)
  primaryKey : (rows.map (·.id)).Nodup

theorem nodup_no_ids (K : Type) : (([] : List (ItemRow K)).map (·.id)).Nodup := List.nodup_nil

def ItemTable.empty {K : Type} : ItemTable K := ⟨[], nodup_no_ids K⟩

structure RawCandidate (K : Type) where
  item_id : String
  bm25_raw : Option K
  vector_raw : Option K

structure RankingCandidate (K : Type) where
  item_id : String
  title : String
  description : String
  category : String
  brand : String
  price : K
  created_at : ℚ
  popularity_score : K
  embedding : Option (List K)
  bm25_raw : Option K
  vector_raw : Option K
  personal_raw : Option K

variable {K : Type}

def ItemTable.row (table : ItemTable K) (id : String) : Option (ItemRow K) :=
  table.rows.find? (·.id = id)

theorem ItemTable.row_eq_some {table : ItemTable K} {id : String} {row : ItemRow K} :
    table.row id = some row ↔ row ∈ table.rows ∧ row.id = id := by
  constructor
  · intro h
    exact ⟨List.mem_of_find?_eq_some h, by simpa using List.find?_some h⟩
  · rintro ⟨hmem, rfl⟩
    cases hfind : table.row row.id with
    | none =>
      have hnot := List.find?_eq_none.mp hfind row hmem
      simp at hnot
    | some other =>
      have hid : other.id = row.id := by simpa using List.find?_some hfind
      rw [List.inj_on_of_nodup_map table.primaryKey (List.mem_of_find?_eq_some hfind) hmem hid]

/-! ## Vectors -/

section Vectors
variable [Field K] (sqrt : K → K) (round6 : K → K)

def dot (v w : List K) : K := (List.zipWith (· * ·) v w).sum

/-- `np.linalg.norm`. -/
def norm (v : List K) : K := sqrt (dot v v)

def cosine (v w : List K) : K := dot v w / (norm sqrt v * norm sqrt w)

/-- The vector pgvector reads from the text of `_format_vector`. -/
def formatVector (vec : List K) : List K := vec.map round6

/-! ## The SELECT and its result -/

/-- `1 - (embedding <=> CAST(:pvec AS vector)) AS personal_raw`, when the profile vector is known. -/
def personalRaw (profile_vec : Option (List K)) (row : ItemRow K) : Option K :=
  profile_vec.bind fun pvec => row.embedding.map (cosine sqrt (formatVector round6 pvec))

/-- The candidate made of a row; neither SELECT returns the embedding. -/
def candidateOf (profile_vec : Option (List K)) (row : ItemRow K) : RankingCandidate K where
  item_id := row.id
  title := row.title
  description := row.description
  category := row.category
  brand := row.brand
  price := row.price
  created_at := row.created_at
  popularity_score := row.popularity_score
  embedding := none
  bm25_raw := none
  vector_raw := none
  personal_raw := personalRaw sqrt round6 profile_vec row

/-- The dict `by_id` of the rows selected for these ids. -/
def byId (table : ItemTable K) (raw : List (RawCandidate K)) (profile_vec : Option (List K)) :
    String → Option (RankingCandidate K) :=
  PyList.dictOf (·.id) (candidateOf sqrt round6 profile_vec)
    (table.rows.filter fun row => row.id ∈ raw.map (·.item_id))

/-- A candidate is one object for all occurrences of its id, so the last raw scores are those of
all. -/
def withScores (raw : List (RawCandidate K)) (c : RawCandidate K) (cand : RankingCandidate K) :
    RankingCandidate K :=
  let last := (raw.reverse.find? (·.item_id = c.item_id)).getD c
  { cand with bm25_raw := last.bm25_raw, vector_raw := last.vector_raw }

def fetchCandidateRows (table : ItemTable K) (raw : List (RawCandidate K))
    (profile_vec : Option (List K)) : List (RankingCandidate K) :=
  raw.filterMap fun c =>
    (byId sqrt round6 table raw profile_vec c.item_id).map (withScores raw c)

/-! ## What is fetched -/

/-- For an id that was asked for, the dict holds the candidate of its row. -/
theorem byId_eq {table : ItemTable K} {raw : List (RawCandidate K)}
    {profile_vec : Option (List K)} {c : RawCandidate K} (hc : c ∈ raw) :
    byId sqrt round6 table raw profile_vec c.item_id =
      (table.row c.item_id).map (candidateOf sqrt round6 profile_vec) := by
  have hasked : c.item_id ∈ raw.map (·.item_id) := List.mem_map_of_mem hc
  cases hrow : table.row c.item_id with
  | none =>
    refine PyList.dictOf_of_not_mem fun row hmem hid => ?_
    have hnone := List.find?_eq_none.mp hrow row (List.mem_of_mem_filter hmem)
    simp [hid] at hnone
  | some row =>
    obtain ⟨hmem, hid⟩ := ItemTable.row_eq_some.mp hrow
    have hsub : ((table.rows.filter fun row => row.id ∈ raw.map (·.item_id)).map (·.id)).Nodup :=
      table.primaryKey.sublist (List.filter_sublist.map _)
    rw [← hid]
    exact PyList.dictOf_of_mem hsub (List.mem_filter.mpr ⟨hmem, by simpa [hid] using hasked⟩)

/-- The candidates come from the rows of the raw candidates, in their order. -/
theorem fetchCandidateRows_eq (table : ItemTable K) (raw : List (RawCandidate K))
    (profile_vec : Option (List K)) :
    fetchCandidateRows sqrt round6 table raw profile_vec = raw.filterMap fun c =>
      (table.row c.item_id).map fun row =>
        withScores raw c (candidateOf sqrt round6 profile_vec row) := by
  refine List.filterMap_congr fun c hc => ?_
  rw [byId_eq sqrt round6 hc, Option.map_map]
  rfl

end Vectors

end ClickRec.Ranker
