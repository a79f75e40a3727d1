import ClickRec.Ranker.Candidates
import Mathlib.Analysis.Real.Sqrt

/-! # `personal_scores` against its definition

The cosines computed in SQL are used only if every candidate has one, and the other path looks at an
embedding that no candidate carries. So one row without embedding turns the feature off for the
whole pool. -/
namespace ClickRec.Ranker
set_option autoImplicit false

variable {K : Type} [Field K]

section Scores
variable [LinearOrder K] (sqrt : K → K)

/-! ## The code -/

/-- The score of one candidate in the numpy loop. -/
def numpyScore (pv : List K) (pv_norm : K) (c : RankingCandidate K) : K :=
  match c.embedding with
  | none => 0
  | some cv =>
    let cv_norm := norm sqrt cv
    if cv_norm = 0 then 0 else max 0 (dot pv cv / (pv_norm * cv_norm))

def personalScores (cands : List (RankingCandidate K)) (profile_vec : Option (List K)) : List K :=
  match profile_vec with
  | none => List.replicate cands.length 0
  | some pv =>
    if cands.isEmpty then List.replicate cands.length 0
    -- fast path: the cosine came with every row
    else if cands.all fun c => c.personal_raw.isSome then
      cands.map fun c => max 0 (c.personal_raw.getD 0)
    else
      let pv_norm := norm sqrt pv
      if pv_norm = 0 then List.replicate cands.length 0
      else cands.map (numpyScore sqrt pv pv_norm)

/-! ## The definition -/

/-- The clamped cosine with the stored embedding, 0 where there is none. -/
def plainScore (table : ItemTable K) (pv : List K) (c : RankingCandidate K) : K :=
  match (table.row c.item_id).bind (·.embedding) with
  | none => 0
  | some e => max 0 (cosine sqrt pv e)

end Scores

/-! ## The fetched candidates -/

variable {sqrt round6 : K → K} {table : ItemTable K} {raw : List (RawCandidate K)} {pv : List K}

/-- A fetched candidate comes from a row, has its cosine and no embedding. -/
theorem mem_fetchCandidateRows {cand : RankingCandidate K}
    (h : cand ∈ fetchCandidateRows sqrt round6 table raw (some pv)) :
    ∃ c ∈ raw, ∃ row, table.row c.item_id = some row ∧ cand.item_id = c.item_id ∧
      cand.embedding = none ∧
      cand.personal_raw = row.embedding.map (cosine sqrt (formatVector round6 pv)) := by
  rw [fetchCandidateRows_eq] at h
  obtain ⟨c, hc, hcand⟩ := List.mem_filterMap.mp h
  obtain ⟨row, hrow, rfl⟩ := Option.map_eq_some_iff.mp hcand
  exact ⟨c, hc, row, hrow, (ItemTable.row_eq_some.mp hrow).2, rfl, rfl⟩

variable (sqrt round6 pv) in
/-- Every row that was asked for gives a candidate. -/
theorem exists_mem_fetchCandidateRows {c : RawCandidate K} {row : ItemRow K} (hc : c ∈ raw)
    (hrow : table.row c.item_id = some row) :
    ∃ cand ∈ fetchCandidateRows sqrt round6 table raw (some pv), cand.item_id = c.item_id := by
  rw [fetchCandidateRows_eq]
  refine ⟨_, List.mem_filterMap.mpr ⟨c, hc, by rw [hrow]; rfl⟩, ?_⟩
  exact (ItemTable.row_eq_some.mp hrow).2

variable (sqrt round6 pv) in
/-- What holds of the rows behind all candidates holds of all rows asked for. -/
theorem forall_fetched_iff (P : ItemRow K → Prop) :
    (∀ cand ∈ fetchCandidateRows sqrt round6 table raw (some pv), ∀ row,
      table.row cand.item_id = some row → P row) ↔
      ∀ c ∈ raw, ∀ row, table.row c.item_id = some row → P row := by
  constructor
  · intro h c hc row hrow
    obtain ⟨cand, hcand, hid⟩ :=
      exists_mem_fetchCandidateRows sqrt round6 pv hc hrow
    exact h cand hcand row (by rw [hid, hrow])
  · intro h cand hcand row hrow
    obtain ⟨c, hc, _, -, hid, -⟩ := mem_fetchCandidateRows hcand
    exact h c hc row (by rw [← hid, hrow])

variable (sqrt round6 pv) in
/-- All cosines are there exactly when all rows asked for have an embedding. -/
theorem fast_path_iff :
    (∀ cand ∈ fetchCandidateRows sqrt round6 table raw (some pv), cand.personal_raw.isSome) ↔
      ∀ c ∈ raw, ∀ row, table.row c.item_id = some row → row.embedding.isSome := by
  rw [← forall_fetched_iff sqrt round6 pv]
  refine forall₂_congr fun cand hcand => ?_
  obtain ⟨c, -, row, hrow, hid, -, hraw⟩ := mem_fetchCandidateRows hcand
  rw [hraw, hid, hrow, Option.isSome_map]
  simp only [Option.some.injEq, forall_eq']

/-! ## Agreement -/

variable [LinearOrder K]

theorem plainScore_of_row {c : RankingCandidate K} {row : ItemRow K}
    (h : table.row c.item_id = some row) :
    plainScore sqrt table pv c = (row.embedding.map (cosine sqrt pv)).elim 0 (max 0) := by
  rw [plainScore, h]
  cases hemb : row.embedding with
  | none => simp [hemb]
  | some e => simp [hemb]

/-- With a cosine on every candidate the scores are those of the definition. -/
theorem fast_path (hround : ∀ x, round6 x = x)
    (hall : ∀ cand ∈ fetchCandidateRows sqrt round6 table raw (some pv), cand.personal_raw.isSome) :
    personalScores sqrt (fetchCandidateRows sqrt round6 table raw (some pv)) (some pv) =
      (fetchCandidateRows sqrt round6 table raw (some pv)).map (plainScore sqrt table pv) := by
  have hformat : formatVector round6 pv = pv := by
    rw [formatVector, funext hround]
    exact List.map_id' pv
  unfold personalScores
  simp only
  split
  · rename_i hempty
    rw [List.isEmpty_iff.mp hempty]
    rfl
  · rw [if_pos (List.all_eq_true.mpr hall)]
    refine List.map_congr_left fun cand hcand => ?_
    obtain ⟨c, -, row, hrow, hid, -, hraw⟩ := mem_fetchCandidateRows hcand
    have hsome := hall cand hcand
    rw [plainScore_of_row (hid ▸ hrow), hraw, hformat]
    rw [hraw] at hsome
    cases hemb : row.embedding with
    | none => simp [hemb] at hsome
    | some e => rfl

/-- Without a cosine on every candidate the whole pool scores 0. -/
theorem slow_path
    (hnot : ¬ ∀ cand ∈ fetchCandidateRows sqrt round6 table raw (some pv), cand.personal_raw.isSome) :
    personalScores sqrt (fetchCandidateRows sqrt round6 table raw (some pv)) (some pv) =
      (fetchCandidateRows sqrt round6 table raw (some pv)).map fun _ => 0 := by
  unfold personalScores
  simp only
  rw [if_neg, if_neg]
  · split
    · rw [List.map_const']
    · refine List.map_congr_left fun cand hcand => ?_
      obtain ⟨_, -, _, -, -, hembedding, -⟩ := mem_fetchCandidateRows hcand
      rw [numpyScore, hembedding]
  · rw [List.all_eq_true]
    exact hnot
  · rw [List.isEmpty_iff]
    intro hempty
    rw [hempty] at hnot
    exact hnot fun _ h => by cases h

/-- The definition gives the whole pool 0 exactly when no stored embedding has a positive cosine. -/
theorem plain_zero_iff :
    ((fetchCandidateRows sqrt round6 table raw (some pv)).map fun _ => (0 : K)) =
        (fetchCandidateRows sqrt round6 table raw (some pv)).map (plainScore sqrt table pv) ↔
      ∀ c ∈ raw, ∀ row, table.row c.item_id = some row → ∀ e, row.embedding = some e →
        cosine sqrt pv e ≤ 0 := by
  rw [List.map_inj_left, ← forall_fetched_iff sqrt round6 pv]
  refine forall₂_congr fun cand hcand => ?_
  obtain ⟨c, -, row, hrow, hid, -, -⟩ := mem_fetchCandidateRows hcand
  rw [plainScore_of_row (hid ▸ hrow), hid, hrow]
  simp only [Option.some.injEq, forall_eq']
  cases row.embedding with
  | none => simp
  | some e => simp [eq_comm (a := (0 : K))]

/-- **The personal score.** For the candidates fetched with a profile vector, `personal_scores` is
the clamped cosine with each stored embedding exactly when all rows asked for have an embedding, or
none has one with a positive cosine. -/
theorem personal_scores_agree_iff (sqrt round6 : K → K) (hround : ∀ x, round6 x = x)
    (table : ItemTable K) (raw : List (RawCandidate K)) (pv : List K) :
    personalScores sqrt (fetchCandidateRows sqrt round6 table raw (some pv)) (some pv) =
        (fetchCandidateRows sqrt round6 table raw (some pv)).map (plainScore sqrt table pv) ↔
      (∀ c ∈ raw, ∀ row, table.row c.item_id = some row → row.embedding.isSome) ∨
      (∀ c ∈ raw, ∀ row, table.row c.item_id = some row → ∀ e, row.embedding = some e →
        cosine sqrt pv e ≤ 0) := by
  rw [← fast_path_iff sqrt round6 pv]
  by_cases hall :
      ∀ cand ∈ fetchCandidateRows sqrt round6 table raw (some pv), cand.personal_raw.isSome
  · exact iff_of_true (fast_path hround hall) (Or.inl hall)
  · rw [slow_path hall, plain_zero_iff]
    constructor
    · exact Or.inr
    · intro h
      exact h.resolve_left hall

/-- An item row with this id and embedding. -/
def embeddedRow (id : String) (embedding : Option (List ℝ)) : ItemRow ℝ where
  id := id
  title := "t"
  description := "d"
  category := "c"
  brand := "b"
  price := 1
  created_at := 0
  popularity_score := 0
  embedding := embedding

/-- A table with one item aligned with the profile vector `[1, 0]` and one with the embedding `e`. -/
def twoItems (e : Option (List ℝ)) : ItemTable ℝ where
  rows := [embeddedRow "a" (some [1, 0]), embeddedRow "b" e]
  primaryKey := by simp [embeddedRow]

def bothHits : List (RawCandidate ℝ) := [⟨"a", none, some 1⟩, ⟨"b", some 1, none⟩]

theorem personal_scores_agree_embedded :
    personalScores Real.sqrt
        (fetchCandidateRows Real.sqrt id (twoItems (some [0, 1])) bothHits (some [1, 0]))
        (some [1, 0]) =
      (fetchCandidateRows Real.sqrt id (twoItems (some [0, 1])) bothHits (some [1, 0])).map
        (plainScore Real.sqrt (twoItems (some [0, 1])) [1, 0]) :=
  (personal_scores_agree_iff Real.sqrt id (fun _ => rfl) _ bothHits [1, 0]).mpr <| Or.inl <| by
    simp [bothHits, twoItems, ItemTable.row, embeddedRow]

/-- The item without embedding takes the score 1 from the other one. -/
theorem missing_embedding_zeroes_pool :
    personalScores Real.sqrt
        (fetchCandidateRows Real.sqrt id (twoItems none) bothHits (some [1, 0]))
        (some [1, 0]) = [0, 0] ∧
      (fetchCandidateRows Real.sqrt id (twoItems none) bothHits (some [1, 0])).map
        (plainScore Real.sqrt (twoItems none) [1, 0]) = [1, 0] := by
  constructor
  · simp [personalScores, numpyScore, fetchCandidateRows_eq, bothHits, twoItems, ItemTable.row,
      embeddedRow, candidateOf, withScores, personalRaw]
  · simp [plainScore, fetchCandidateRows_eq, bothHits, twoItems, ItemTable.row, embeddedRow,
      candidateOf, withScores, cosine, dot, norm]

end ClickRec.Ranker
