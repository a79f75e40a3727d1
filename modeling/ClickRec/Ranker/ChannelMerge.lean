import ClickRec.Ranker.Retrieval

/-! # The two channels of a query

What `generate_candidates` makes of the two results and `fetch_candidate_rows` of that: each id once,
with the score of each channel that surfaced it. -/
namespace ClickRec.Ranker
set_option autoImplicit false

variable {K : Type}

/-! ## Merging -/

/-- The ids of the first channel and then those of the second one alone. -/
def mergedIds (bm25_rows vector_rows : List (String × K)) : List String :=
  bm25_rows.map Prod.fst ++ (vector_rows.map Prod.fst).filter (· ∉ bm25_rows.map Prod.fst)

/-- The candidate of an id, with its score in each channel that surfaced it. -/
def mergedCandidate (bm25_rows vector_rows : List (String × K)) (id : String) : RawCandidate K :=
  ⟨id, bm25_rows.lookup id, vector_rows.lookup id⟩

theorem lookup_eq_none_of_not_mem {rows : List (String × K)} {id : String}
    (h : id ∉ rows.map Prod.fst) : rows.lookup id = none := by
  rw [List.lookup_eq_none_iff]
  intro row hrow
  rw [bne_iff_ne]
  rintro rfl
  exact h (List.mem_map_of_mem hrow)

theorem lookup_concat {rows : List (String × K)} {hit : String × K} (h : hit.1 ∉ rows.map Prod.fst)
    (id : String) :
    (rows ++ [hit]).lookup id = if id = hit.1 then some hit.2 else rows.lookup id := by
  rw [List.lookup_append, List.lookup_cons]
  split
  · rename_i heq
    obtain rfl : id = hit.1 := by simpa using heq
    rw [lookup_eq_none_of_not_mem h, if_pos rfl]
    rfl
  · rename_i hne
    rw [if_neg (by simpa using hne), List.lookup_nil, Option.or_none]

theorem lookup_eq_some_iff {rows : List (String × K)} (h : (rows.map Prod.fst).Nodup) {id : String}
    {x : K} : rows.lookup id = some x ↔ (id, x) ∈ rows := by
  induction rows with
  | nil => simp
  | cons row rows ih =>
    obtain ⟨other, y⟩ := row
    obtain ⟨hother, hrows⟩ := List.nodup_cons.mp h
    by_cases hid : id = other
    · subst hid
      have hnot : (id, x) ∉ rows := fun hmem => hother (List.mem_map.mpr ⟨_, hmem, rfl⟩)
      simp [hnot, eq_comm]
    · have hbeq : (id == other) = false := by simpa using hid
      rw [List.lookup_cons, hbeq, List.mem_cons]
      simpa [hid] using ih hrows

theorem nodup_mergedIds {bm25_rows vector_rows : List (String × K)}
    (hbm25 : (bm25_rows.map Prod.fst).Nodup) (hvector : (vector_rows.map Prod.fst).Nodup) :
    (mergedIds bm25_rows vector_rows).Nodup := by
  refine hbm25.append (hvector.filter _) fun id hid hid' => ?_
  simpa [hid] using (List.mem_filter.mp hid').2

/-- The loop over the first channel. -/
theorem foldl_setCandidate {bm25_rows : List (String × K)} (h : (bm25_rows.map Prod.fst).Nodup) :
    bm25_rows.foldl (fun merged hit => setCandidate merged ⟨hit.1, some hit.2, none⟩) [] =
      (bm25_rows.map Prod.fst).map fun id => ⟨id, bm25_rows.lookup id, none⟩ := by
  induction bm25_rows using List.reverseRecOn with
  | nil => rfl
  | append_singleton rows hit ih =>
    rw [List.map_append, List.nodup_append] at h
    obtain ⟨hrows, -, hdisjoint⟩ := h
    have hnew : hit.1 ∉ rows.map Prod.fst := fun hmem => hdisjoint _ hmem _ (by simp) rfl
    rw [List.foldl_append, List.foldl_cons, List.foldl_nil, ih hrows, setCandidate, if_neg]
    · rw [List.map_append, List.map_append]
      congr 1
      · refine List.map_congr_left fun id hid => ?_
        rw [lookup_concat hnew, if_neg]
        rintro rfl
        exact hnew hid
      · simp [lookup_concat hnew]
    · rw [List.map_map]
      simpa using hnew

/-- One hit of the second channel. -/
theorem setVectorRaw_merged {bm25_rows rows : List (String × K)} {hit : String × K}
    (hnew : hit.1 ∉ rows.map Prod.fst) :
    setVectorRaw ((mergedIds bm25_rows rows).map (mergedCandidate bm25_rows rows)) hit =
      (mergedIds bm25_rows (rows ++ [hit])).map (mergedCandidate bm25_rows (rows ++ [hit])) := by
  have hids : ((mergedIds bm25_rows rows).map (mergedCandidate bm25_rows rows)).map (·.item_id) =
      mergedIds bm25_rows rows := by
    rw [List.map_map]
    exact List.map_id _
  have hkeep : ∀ id, id ≠ hit.1 →
      mergedCandidate bm25_rows (rows ++ [hit]) id = mergedCandidate bm25_rows rows id := by
    intro id hne
    rw [mergedCandidate, mergedCandidate, lookup_concat hnew, if_neg hne]
  have hself : mergedCandidate bm25_rows (rows ++ [hit]) hit.1 =
      ⟨hit.1, bm25_rows.lookup hit.1, some hit.2⟩ := by
    rw [mergedCandidate, lookup_concat hnew, if_pos rfl]
  rw [setVectorRaw, hids]
  by_cases hmem : hit.1 ∈ bm25_rows.map Prod.fst
  · -- the id keeps its place and gets its score
    have hsame : mergedIds bm25_rows (rows ++ [hit]) = mergedIds bm25_rows rows := by
      rw [mergedIds, mergedIds, List.map_append, List.filter_append, List.map_singleton,
        List.filter_singleton]
      simp [hmem]
    have hin : hit.1 ∈ mergedIds bm25_rows rows := List.mem_append_left _ hmem
    rw [if_pos hin, hsame, List.map_map]
    refine List.map_congr_left fun id _ => ?_
    rw [Function.comp_apply]
    by_cases hid : id = hit.1
    · subst hid
      rw [hself]
      exact if_pos rfl
    · rw [hkeep id hid]
      exact if_neg hid
  · have hnot : hit.1 ∉ mergedIds bm25_rows rows := by
      rw [mergedIds, List.mem_append, not_or]
      exact ⟨hmem, fun h => hnew (List.mem_of_mem_filter h)⟩
    have hmore : mergedIds bm25_rows (rows ++ [hit]) = mergedIds bm25_rows rows ++ [hit.1] := by
      rw [mergedIds, mergedIds, List.map_append, List.filter_append, List.append_assoc,
        List.map_singleton, List.filter_singleton]
      simp [hmem]
    rw [if_neg hnot, hmore, List.map_append, List.map_singleton, hself,
      lookup_eq_none_of_not_mem hmem]
    congr 1
    refine List.map_congr_left fun id hid => (hkeep id ?_).symm
    rintro rfl
    exact hnot hid

theorem mergeChannels_eq {bm25_rows vector_rows : List (String × K)}
    (hbm25 : (bm25_rows.map Prod.fst).Nodup) (hvector : (vector_rows.map Prod.fst).Nodup) :
    mergeChannels bm25_rows vector_rows =
      (mergedIds bm25_rows vector_rows).map (mergedCandidate bm25_rows vector_rows) := by
  unfold mergeChannels
  induction vector_rows using List.reverseRecOn with
  | nil =>
    rw [List.foldl_nil, foldl_setCandidate hbm25, mergedIds, List.map_nil, List.filter_nil,
      List.append_nil]
    rfl
  | append_singleton rows hit ih =>
    rw [List.map_append, List.nodup_append] at hvector
    obtain ⟨hrows, -, hdisjoint⟩ := hvector
    rw [List.foldl_append, List.foldl_cons, List.foldl_nil, ih hrows]
    exact setVectorRaw_merged fun hmem => hdisjoint _ hmem _ (by simp) rfl

theorem truncate_eq (cands : List (RawCandidate K)) {cap : ℤ} (h : 0 ≤ cap) :
    truncate cands cap = cands.take cap.toNat := by
  unfold truncate
  split
  · exact PyList.sliceTo_of_nonneg cands h
  · rename_i hlength
    rw [List.take_of_length_le (by omega)]

/-! ## The rows of the merged candidates -/

section Fetch
variable [Field K] (sqrt round6 : K → K)

omit [Field K] in
/-- Where no id occurs twice, a candidate gets the raw scores it was fetched for. -/
theorem withScores_of_nodup {raw : List (RawCandidate K)} (h : (raw.map (·.item_id)).Nodup)
    {c : RawCandidate K} (hc : c ∈ raw) (cand : RankingCandidate K) :
    withScores raw c cand = { cand with bm25_raw := c.bm25_raw, vector_raw := c.vector_raw } := by
  have hlast : raw.reverse.find? (·.item_id = c.item_id) = some c := by
    cases hfind : raw.reverse.find? (·.item_id = c.item_id) with
    | none =>
      have hnone := List.find?_eq_none.mp hfind c (List.mem_reverse.mpr hc)
      simp at hnone
    | some d =>
      have hd : d ∈ raw := List.mem_reverse.mp (List.mem_of_find?_eq_some hfind)
      have hid : d.item_id = c.item_id := by simpa using List.find?_some hfind
      rw [List.inj_on_of_nodup_map h hd hc hid]
  rw [withScores, hlast, Option.getD_some]

/-- A fetched candidate of the merge. -/
def fetchedCandidate (table : ItemTable K) (profile_vec : Option (List K))
    (bm25_rows vector_rows : List (String × K)) (id : String) : Option (RankingCandidate K) :=
  (table.row id).map fun row =>
    { candidateOf sqrt round6 profile_vec row with
      bm25_raw := bm25_rows.lookup id, vector_raw := vector_rows.lookup id }

theorem fetchCandidateRows_merged (table : ItemTable K) (profile_vec : Option (List K))
    (bm25_rows vector_rows : List (String × K)) {ids : List String} (h : ids.Nodup) :
    fetchCandidateRows sqrt round6 table (ids.map (mergedCandidate bm25_rows vector_rows))
        profile_vec =
      ids.filterMap (fetchedCandidate sqrt round6 table profile_vec bm25_rows vector_rows) := by
  have hids : ((ids.map (mergedCandidate bm25_rows vector_rows)).map (·.item_id)).Nodup := by
    rw [List.map_map]
    exact (List.map_id ids).symm ▸ h
  rw [fetchCandidateRows_eq, List.filterMap_map]
  refine List.filterMap_congr fun id hid => ?_
  simp only [Function.comp_apply, withScores_of_nodup hids (List.mem_map_of_mem hid)]
  rfl

theorem fetchedCandidate_eq_some {table : ItemTable K} {profile_vec : Option (List K)}
    {bm25_rows vector_rows : List (String × K)} {id : String} {c : RankingCandidate K}
    (h : fetchedCandidate sqrt round6 table profile_vec bm25_rows vector_rows id = some c) :
    c.item_id = id ∧ c.bm25_raw = bm25_rows.lookup id ∧ c.vector_raw = vector_rows.lookup id := by
  obtain ⟨row, hrow, rfl⟩ := Option.map_eq_some_iff.mp h
  exact ⟨(ItemTable.row_eq_some.mp hrow).2, rfl, rfl⟩

theorem map_item_id_fetched (table : ItemTable K) (profile_vec : Option (List K))
    (bm25_rows vector_rows : List (String × K)) (ids : List String) :
    (ids.filterMap (fetchedCandidate sqrt round6 table profile_vec bm25_rows vector_rows)).map
      (·.item_id) = ids.filter fun id => (table.row id).isSome := by
  induction ids with
  | nil => rfl
  | cons id ids ih =>
    rw [List.filterMap_cons, List.filter_cons]
    cases hrow : table.row id with
    | none =>
      simp only [fetchedCandidate, hrow, Option.map_none] at ih ⊢
      exact ih
    | some row =>
      simp only [fetchedCandidate, hrow, Option.map_some, Option.isSome_some, if_true,
        List.map_cons] at ih ⊢
      rw [ih]
      exact congrArg (· :: _) (ItemTable.row_eq_some.mp hrow).2

/-! ## A query -/

/-- The second channel, which is left out without a query vector. -/
def vectorChannel (db : Postgres K) (cfg : RankerConfig K) (qvec : Option (List K)) :
    Except PyError (List (String × K)) :=
  match qvec with
  | none => .ok []
  | some qvec => db.vector (formatVector round6 qvec) cfg.vector_k

omit [Field K] in
theorem queryCandidates_eq [LinearOrder K] (db : Postgres K) (cfg : RankerConfig K) (query : String)
    (qvec : Option (List K)) :
    queryCandidates round6 db cfg query qvec = do
      let bm25_rows ← db.bm25 query cfg.bm25_k
      let vector_rows ← vectorChannel round6 db cfg qvec
      return truncate (mergeChannels bm25_rows vector_rows) cfg.candidate_cap := by
  cases qvec with
  | none => rfl
  | some qvec => rfl

omit [Field K] in
theorem queryCandidates_of_hits [LinearOrder K] {db : Postgres K} {cfg : RankerConfig K}
    {query : String} {qvec : Option (List K)} {bm25_rows vector_rows : List (String × K)}
    (hbm25 : db.bm25 query cfg.bm25_k = .ok bm25_rows)
    (hvector : vectorChannel round6 db cfg qvec = .ok vector_rows) :
    queryCandidates round6 db cfg query qvec =
      .ok (truncate (mergeChannels bm25_rows vector_rows) cfg.candidate_cap) := by
  rw [queryCandidates_eq, hbm25, hvector]
  rfl

/-- What is promised of the candidates fetched for two results: the ids in order, each once if it is
still in the table, with the score of each channel that surfaced it and None for the other. -/
structure MergedExactly (table : ItemTable K) (profile_vec : Option (List K)) (cap : ℕ)
    (bm25_rows vector_rows : List (String × K)) (fetched : List (RankingCandidate K)) : Prop where
  ids : fetched.map (·.item_id) =
    ((mergedIds bm25_rows vector_rows).take cap).filter fun id => (table.row id).isSome
  distinct : (fetched.map (·.item_id)).Nodup
  bm25_raw : ∀ c ∈ fetched, ∀ x, c.bm25_raw = some x ↔ (c.item_id, x) ∈ bm25_rows
  vector_raw : ∀ c ∈ fetched, ∀ x, c.vector_raw = some x ↔ (c.item_id, x) ∈ vector_rows
  row : ∀ c ∈ fetched, ∃ row, table.row c.item_id = some row ∧
    c = { candidateOf sqrt round6 profile_vec row with
      bm25_raw := c.bm25_raw, vector_raw := c.vector_raw }

/-- **The merge loses and invents nothing.** -/
theorem generateCandidates_merged [LinearOrder K] (db : Postgres K) (cfg : RankerConfig K)
    (query : String) (qvec profile_vec : Option (List K)) (recent_categories : List String)
    (redis_client : Option (RedisClient K)) (table : ItemTable K)
    {bm25_rows vector_rows : List (String × K)}
    (hbm25 : db.bm25 query cfg.bm25_k = .ok bm25_rows)
    (hvector : vectorChannel round6 db cfg qvec = .ok vector_rows)
    (hdistinct : (bm25_rows.map Prod.fst).Nodup) (hdistinct' : (vector_rows.map Prod.fst).Nodup)
    (hcap : 0 ≤ cfg.candidate_cap) :
    ∃ raw, generateCandidates round6 db cfg (some query) qvec profile_vec recent_categories
        redis_client = .ok raw ∧
      MergedExactly sqrt round6 table profile_vec cfg.candidate_cap.toNat bm25_rows vector_rows
        (fetchCandidateRows sqrt round6 table raw profile_vec) := by
  refine ⟨_, queryCandidates_of_hits round6 hbm25 hvector, ?_⟩
  have hnodup : ((mergedIds bm25_rows vector_rows).take cfg.candidate_cap.toNat).Nodup :=
    (nodup_mergedIds hdistinct hdistinct').sublist (List.take_sublist _ _)
  rw [truncate_eq _ hcap, mergeChannels_eq hdistinct hdistinct', ← List.map_take,
    fetchCandidateRows_merged sqrt round6 table profile_vec bm25_rows vector_rows hnodup]
  have hids := map_item_id_fetched sqrt round6 table profile_vec bm25_rows vector_rows
    ((mergedIds bm25_rows vector_rows).take cfg.candidate_cap.toNat)
  refine ⟨hids, by rw [hids]; exact hnodup.filter _, fun c hc x => ?_, fun c hc x => ?_, fun c hc => ?_⟩
  · obtain ⟨id, -, hid⟩ := List.mem_filterMap.mp hc
    obtain ⟨rfl, hraw, -⟩ := fetchedCandidate_eq_some sqrt round6 hid
    rw [hraw, lookup_eq_some_iff hdistinct]
  · obtain ⟨id, -, hid⟩ := List.mem_filterMap.mp hc
    obtain ⟨rfl, -, hraw⟩ := fetchedCandidate_eq_some sqrt round6 hid
    rw [hraw, lookup_eq_some_iff hdistinct']
  · obtain ⟨id, -, hid⟩ := List.mem_filterMap.mp hc
    obtain ⟨row, hrow, rfl⟩ := Option.map_eq_some_iff.mp hid
    have hself : row.id = id := (ItemTable.row_eq_some.mp hrow).2
    exact ⟨row, hself ▸ hrow, rfl⟩

end Fetch

/-! ## A query that both channels answer -/

def plainRow (id : String) : ItemRow ℚ where
  id := id
  title := ""
  description := ""
  category := "shoes"
  brand := ""
  price := 10
  created_at := 0
  popularity_score := 0
  embedding := none

theorem nodup_plainRows : (["i3", "i1"].map fun id => (plainRow id).id).Nodup := by decide

/-- The item that both channels find is no longer in the table. -/
def overlapping : Postgres ℚ where
  item := ⟨["i3", "i1"].map plainRow, by rw [List.map_map]; exact nodup_plainRows⟩
  co_click := .empty
  bm25 _ _ := .ok [("i1", 0), ("i2", 2)]
  vector _ _ := .ok [("i2", 1), ("i3", 1 / 2)]

theorem generateCandidates_merged_overlapping :
    ∃ raw, generateCandidates id overlapping defaultRankerConfig (some "shoes") (some [1]) none []
        none = .ok raw ∧
      (fetchCandidateRows id id overlapping.item raw none).map (·.item_id) = ["i1", "i3"] := by
  obtain ⟨raw, hraw, hmerged⟩ := generateCandidates_merged id id overlapping defaultRankerConfig
    "shoes" (some [1]) none [] none overlapping.item rfl rfl (by decide) (by decide) (by decide)
  exact ⟨raw, hraw, hmerged.ids.trans (by decide)⟩

end ClickRec.Ranker
