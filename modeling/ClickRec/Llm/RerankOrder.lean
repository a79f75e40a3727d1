import ClickRec.Lib.TopK
import ClickRec.Llm.ReRanker

/-! # The order of the re-ranked list

Whatever the model's answer is, the reordered list has each candidate once, the mentioned ones by
their best mention and the rest as they stood. -/
namespace ClickRec.Llm
set_option autoImplicit false

/-! ## The mentions of the answer -/

/-- A place in the answer; the picks are told apart by it, as an id may be picked twice. -/
abbrev RerankResult.Place (rerank : RerankResult) := Fin rerank.items.length

variable {rerank : RerankResult}

/-- The pick at the first place has the smaller rank, or the same rank and comes first. -/
def Earlier (i j : rerank.Place) : Prop :=
  (rerank.items.get i).rank < (rerank.items.get j).rank ∨
    (rerank.items.get i).rank = (rerank.items.get j).rank ∧ i < j

theorem Earlier.asymm (i j : rerank.Place) (h : Earlier i j) : ¬ Earlier j i := by
  rintro (hlt | ⟨heq, hlt⟩)
  · obtain h | h := h <;> omega
  · obtain h | ⟨-, h⟩ := h
    · omega
    · exact lt_asymm h hlt

/-- The place where the answer names a candidate, the best one of its id. -/
def BestMention (candidates : List RankedItemDTO) (i : rerank.Place) : Prop :=
  (rerank.items.get i).item_id ∈ candidates.map (·.id) ∧
    ∀ j : rerank.Place, (rerank.items.get j).item_id = (rerank.items.get i).item_id →
      j = i ∨ Earlier i j

/-- The entry is the candidate the pick names, with the rationale of the pick and every other field
of the candidate. -/
def Carries (candidates : List RankedItemDTO) (i : rerank.Place) (entry : RankedItemDTO) : Prop :=
  ∃ c ∈ candidates, c.id = (rerank.items.get i).item_id ∧
    entry = { c with llm_rationale := some (rerank.items.get i).rationale }

/-- A candidate without its rationale. -/
def RankedItemDTO.bare (c : RankedItemDTO) : RankedItemDTO := { c with llm_rationale := none }

/-! ## The places by rank -/

/-- The places in the order of `sorted(rerank.items, key=lambda it: it.rank)`. -/
def places (rerank : RerankResult) : List rerank.Place :=
  TopK.sortDesc (fun i => OrderDual.toDual (rerank.items.get i).rank)
    (List.finRange rerank.items.length)

theorem map_get_places (rerank : RerankResult) :
    (places rerank).map rerank.items.get = sortedPicks rerank := by
  have h := TopK.map_sortDesc rerank.items.get (fun it => OrderDual.toDual it.rank)
    (List.finRange rerank.items.length)
  rw [List.map_get_finRange] at h
  exact h

theorem mem_places (i : rerank.Place) : i ∈ places rerank :=
  (TopK.perm_sortDesc _ _).mem_iff.mpr (List.mem_finRange i)

/-- The sort is stable, so places with one rank stay in the order of the answer. -/
theorem pairwise_places (rerank : RerankResult) : (places rerank).Pairwise Earlier := by
  refine (TopK.pairwise_sortDesc _ (List.nodup_finRange _)).imp fun {i j} h => ?_
  obtain hlt | ⟨heq, hplace⟩ := h
  · exact .inl hlt
  · have hlt : i < j := List.pairwise_iff_forall_sublist.mp (List.pairwise_lt_finRange _) hplace
    exact .inr ⟨heq, hlt⟩

/-! ## The mentioned candidates -/

theorem isSome_mention {candidates : List RankedItemDTO}
    (hdistinct : (candidates.map (·.id)).Nodup) (pick : RerankItem) :
    (mention candidates pick).isSome ↔ pick.item_id ∈ candidates.map (·.id) := by
  rw [mention, Option.isSome_map, Option.isSome_iff_exists, List.mem_map]
  constructor
  · rintro ⟨cand, hcand⟩
    obtain ⟨c, hc, hid, -⟩ := (PyList.dictOf_eq_some hdistinct).mp hcand
    exact ⟨c, hc, hid⟩
  · rintro ⟨c, hc, hid⟩
    exact ⟨c, (PyList.dictOf_eq_some hdistinct).mpr ⟨c, hc, hid, rfl⟩⟩

/-- The places whose picks enter the list. -/
def pickedPlaces (candidates : List RankedItemDTO) (rerank : RerankResult) : List rerank.Place :=
  PyList.keepFirst (fun i => (rerank.items.get i).item_id)
    ((places rerank).filter fun i => (mention candidates (rerank.items.get i)).isSome)

theorem pairwise_pickedPlaces (candidates : List RankedItemDTO) (rerank : RerankResult) :
    (pickedPlaces candidates rerank).Pairwise Earlier :=
  (pairwise_places rerank).sublist ((PyList.keepFirst_sublist _).trans List.filter_sublist)

theorem mem_pickedPlaces {candidates : List RankedItemDTO}
    (hdistinct : (candidates.map (·.id)).Nodup) (i : rerank.Place) :
    i ∈ pickedPlaces candidates rerank ↔ BestMention candidates i := by
  have hnames : ∀ j : rerank.Place,
      j ∈ (places rerank).filter (fun i => (mention candidates (rerank.items.get i)).isSome) ↔
        (rerank.items.get j).item_id ∈ candidates.map (·.id) := by
    intro j
    rw [List.mem_filter, and_iff_right (mem_places j), isSome_mention hdistinct]
  rw [pickedPlaces, PyList.mem_keepFirst_of_pairwise Earlier.asymm
    ((pairwise_places rerank).sublist List.filter_sublist), hnames]
  refine and_congr_right fun hi => ?_
  constructor
  · intro hmin j hid
    exact hmin j ((hnames j).mpr (hid ▸ hi)) hid
  · exact fun hmin j _ hid => hmin j hid

theorem keepFirst_mentions {candidates : List RankedItemDTO}
    (hdistinct : (candidates.map (·.id)).Nodup) (rerank : RerankResult) :
    PyList.keepFirst RankedItemDTO.id (mentions candidates rerank) =
      (pickedPlaces candidates rerank).filterMap
        fun i => mention candidates (rerank.items.get i) := by
  rw [mentions, ← map_get_places, List.filterMap_map]
  refine PyList.keepFirst_filterMap (fun i entry hentry => ?_) (places rerank)
  obtain ⟨c, -, hid, rfl⟩ := mention_eq_some hdistinct hentry
  exact hid

theorem carries_pickedPlaces {candidates : List RankedItemDTO}
    (hdistinct : (candidates.map (·.id)).Nodup) (rerank : RerankResult) :
    List.Forall₂ (Carries candidates) (pickedPlaces candidates rerank)
      ((pickedPlaces candidates rerank).filterMap
        fun i => mention candidates (rerank.items.get i)) := by
  refine PyList.forall₂_filterMap fun i hi => ?_
  have hnamed := ((mem_pickedPlaces hdistinct i).mp hi).1
  obtain ⟨entry, hentry⟩ := Option.isSome_iff_exists.mp ((isSome_mention hdistinct _).mpr hnamed)
  exact ⟨entry, hentry, mention_eq_some hdistinct hentry⟩

theorem mem_ids_mentions {candidates : List RankedItemDTO}
    (hdistinct : (candidates.map (·.id)).Nodup) {c : RankedItemDTO} (hc : c ∈ candidates) :
    c.id ∈ (mentions candidates rerank).map (·.id) ↔ c.id ∈ rerank.items.map (·.item_id) := by
  have hpicks : ∀ pick, pick ∈ sortedPicks rerank ↔ pick ∈ rerank.items := fun pick =>
    (List.perm_insertionSort _ _).mem_iff
  constructor
  · intro h
    obtain ⟨entry, hentry, hid⟩ := List.mem_map.mp h
    obtain ⟨pick, hpick, hmention⟩ := List.mem_filterMap.mp hentry
    obtain ⟨c', -, hid', rfl⟩ := mention_eq_some hdistinct hmention
    exact List.mem_map.mpr ⟨pick, (hpicks pick).mp hpick, hid'.symm.trans hid⟩
  · intro h
    obtain ⟨pick, hpick, hid⟩ := List.mem_map.mp h
    have hnamed : (mention candidates pick).isSome :=
      (isSome_mention hdistinct pick).mpr (hid ▸ List.mem_map_of_mem hc)
    obtain ⟨entry, hentry⟩ := Option.isSome_iff_exists.mp hnamed
    obtain ⟨c', -, hid', rfl⟩ := mention_eq_some hdistinct hentry
    exact List.mem_map.mpr ⟨_, List.mem_filterMap.mpr ⟨pick, (hpicks pick).mpr hpick, hentry⟩,
      hid'.trans hid⟩

theorem reorder_split {candidates : List RankedItemDTO}
    (hdistinct : (candidates.map (·.id)).Nodup) (rerank : RerankResult) :
    reorder candidates rerank =
      ((pickedPlaces candidates rerank).filterMap
        fun i => mention candidates (rerank.items.get i)) ++
      candidates.filter fun c => c.id ∉ rerank.items.map (·.item_id) := by
  rw [reorder_eq, PyList.keepFirst_append, PyList.keepFirst_of_nodup hdistinct,
    keepFirst_mentions hdistinct]
  refine congrArg _ (List.filter_congr fun c hc => ?_)
  rw [decide_eq_decide, not_iff_not]
  exact mem_ids_mentions hdistinct hc

/-! ## The reordered list -/

/-- Each candidate is returned once, with every field but its rationale as it was. -/
theorem bare_reorder_perm {candidates : List RankedItemDTO}
    (hdistinct : (candidates.map (·.id)).Nodup) (rerank : RerankResult) :
    ((reorder candidates rerank).map (·.bare)).Perm (candidates.map (·.bare)) := by
  have hids : ∀ l : List RankedItemDTO, (l.map (·.bare)).map (·.id) = l.map (·.id) :=
    fun l => List.map_map
  have hnodup : ∀ l : List RankedItemDTO, (l.map (·.id)).Nodup → (l.map (·.bare)).Nodup :=
    fun l hl => List.Nodup.of_map (·.id) ((hids l).symm ▸ hl)
  refine (List.perm_ext_iff_of_nodup (hnodup _ (nodup_reorder candidates rerank))
    (hnodup _ hdistinct)).mpr fun b => ?_
  constructor
  · intro hb
    obtain ⟨entry, hentry, rfl⟩ := List.mem_map.mp hb
    obtain ⟨c, hc, heq⟩ := mem_reorder hdistinct hentry
    rw [heq]
    exact List.mem_map.mpr ⟨c, hc, rfl⟩
  · intro hb
    obtain ⟨c, hc, rfl⟩ := List.mem_map.mp hb
    have hid := (reorder_perm hdistinct rerank).mem_iff.mpr (List.mem_map_of_mem hc)
    obtain ⟨entry, hentry, hsame⟩ := List.mem_map.mp hid
    obtain ⟨c', hc', heq⟩ := mem_reorder hdistinct hentry
    have hcc' : c' = c := List.inj_on_of_nodup_map hdistinct hc' hc (by rw [← hsame, heq]; rfl)
    refine List.mem_map.mpr ⟨entry, hentry, ?_⟩
    rw [heq, hcc']
    rfl

/-- Re-ranking is a permutation: the mentioned candidates by their best mention and with its
rationale, then the others as they stood. -/
theorem reorder_by_best_mention (candidates : List RankedItemDTO)
    (hdistinct : (candidates.map (·.id)).Nodup) (rerank : RerankResult) :
    ((reorder candidates rerank).map (·.bare)).Perm (candidates.map (·.bare)) ∧
      ∃ (picked : List rerank.Place) (front : List RankedItemDTO),
        picked.Pairwise Earlier ∧ (∀ i, i ∈ picked ↔ BestMention candidates i) ∧
        List.Forall₂ (Carries candidates) picked front ∧
        reorder candidates rerank =
          front ++ candidates.filter fun c => c.id ∉ rerank.items.map (·.item_id) :=
  ⟨bare_reorder_perm hdistinct rerank, pickedPlaces candidates rerank, _,
    pairwise_pickedPlaces candidates rerank, mem_pickedPlaces hdistinct,
    carries_pickedPlaces hdistinct rerank, reorder_split hdistinct rerank⟩

def hybridHit (id : String) : RankedItemDTO where
  item := ⟨id, "Runner", "", "shoes", "acme", 80, "2024-01-01T00:00:00Z", 0⟩
  score := 1
  score_breakdown := []
  llm_rationale := none

theorem one_le_rank (n : ℕ) : (1 : ℤ) ≤ n + 1 := by omega

theorem length_note_le (note : Char) : (String.singleton note).length ≤ 200 := by
  rw [String.length_singleton]
  decide

/-- A pick with a rationale of one letter. -/
def noted (item_id : String) (n : ℕ) (note : Char) : RerankItem :=
  ⟨item_id, n + 1, .singleton note, one_le_rank n, length_note_le note⟩

/-- The second item is named twice with one rank, and one id is no candidate's. -/
def repeatedPicks : RerankResult where
  items := [noted "i2" 2 'a', noted "i9" 0 'b', noted "i2" 1 'c', noted "i2" 1 'd']
  min_length := by decide
  max_length := by decide

theorem reorder_by_best_mention_repeated :
    ((reorder [hybridHit "i1", hybridHit "i2"] repeatedPicks).map (·.bare)).Perm
        [hybridHit "i1", hybridHit "i2"] ∧
      ∃ (picked : List repeatedPicks.Place) (front : List RankedItemDTO),
        picked.Pairwise Earlier ∧
        (∀ i, i ∈ picked ↔ BestMention [hybridHit "i1", hybridHit "i2"] i) ∧
        List.Forall₂ (Carries [hybridHit "i1", hybridHit "i2"]) picked front ∧
        reorder [hybridHit "i1", hybridHit "i2"] repeatedPicks =
          front ++ [hybridHit "i1", hybridHit "i2"].filter
            fun c => c.id ∉ repeatedPicks.items.map (·.item_id) :=
  reorder_by_best_mention [hybridHit "i1", hybridHit "i2"] (by decide) repeatedPicks

example : (reorder [hybridHit "i1", hybridHit "i2"] repeatedPicks).map (·.llm_rationale) =
    [some "c", none] := by decide

end ClickRec.Llm
