import ClickRec.Replay.Clicks

/-! # The clicks of a segment

Each of the five branches takes the first items of the impression under a key of its own: the cheapest,
the dearest, the newest, those of the pinned brand, or those of the categories drawn first. -/
namespace ClickRec.Replay
set_option autoImplicit false
open scoped List
open PyList (group groupInto groupInto_eq keepFirst nodup_keepFirst_id flatMap_group_perm mem_keepFirst_id)

/-! ## Shuffles -/

theorem map_shuffled {α β : Type} (f : α → β) (l : List α) (draw : ∀ size, Indices size size) :
    shuffled (l.map f) draw = (shuffled l draw).map f := by
  have hget : ∀ {γ : Type} (l : List γ), shuffled l draw =
      ((draw l.length).list.map Fin.val).filterMap fun i => l[i]? := by
    intro γ l
    rw [shuffled, List.filterMap_map, ← List.filterMap_eq_map]
    refine List.filterMap_congr fun i _ => ?_
    simp
  rw [hget, hget, List.length_map, List.map_filterMap]
  refine List.filterMap_congr fun i _ => ?_
  rw [List.getElem?_map]

theorem shuffled_perm {α : Type} (l : List α) (draw : ∀ size, Indices size size) :
    (shuffled l draw).Perm l := by
  have hall : (draw l.length).list.Perm (List.finRange l.length) := by
    refine (List.perm_ext_iff_of_nodup (draw l.length).nodup (List.nodup_finRange _)).mpr fun i => ?_
    refine iff_of_true ?_ (List.mem_finRange i)
    have hcard : (draw l.length).list.toFinset = Finset.univ := by
      refine Finset.eq_univ_of_card _ ?_
      rw [List.toFinset_card_of_nodup (draw l.length).nodup, (draw l.length).length, Fintype.card_fin]
    exact List.mem_toFinset.mp (hcard ▸ Finset.mem_univ i)
  have hmap := hall.map l.get
  rwa [List.map_get_finRange] at hmap

/-! ## The keys -/

/-- The categories of the impression in the order drawn. -/
def categoryOrder (pool : List Candidate) (shuffle : ∀ size, Indices size size) : List String :=
  shuffled (keepFirst id (pool.map (·.category))) shuffle

/-- What a user of the segment looks for. -/
def segmentKey (segment : String) (pool : List Candidate) (pinned_brand : Option String)
    (shuffle : ∀ size, Indices size size) (c : Candidate) : ℚ :=
  if segment = "bargain_hunter" then -c.price
  else if segment = "premium" then c.price
  else if segment = "new_arrivals" then c.created_at
  else if segment = "brand_loyalist" then if isPinned pinned_brand c then 1 else 0
  else -((categoryOrder pool shuffle).idxOf c.category : ℚ)

theorem pairwise_before_of_sublist {key : Candidate → ℚ} {pool t : List Candidate} (ht : t <+ pool)
    (hkey : ∀ a ∈ t, ∀ b ∈ t, key a = key b) : t.Pairwise (TopK.Before key pool) := by
  refine List.pairwise_iff_forall_sublist.mpr fun {a b} hab => ?_
  exact .inr ⟨hkey a (hab.subset (by simp)) b (hab.subset (by simp)), hab.trans ht⟩

section Orders
variable {pool : List Candidate} (hpool : pool.Nodup)
include hpool

/-- The preferred items come first, the others after them. -/
theorem loyalist_order (pinned_brand : Option String) :
    (if pool.filter (isPinned pinned_brand) ≠ [] then
        pool.filter (isPinned pinned_brand) ++
          pool.filter (· ∉ pool.filter (isPinned pinned_brand))
      else pool) =
      TopK.sortDesc (fun c => if isPinned pinned_brand c then (1 : ℚ) else 0) pool := by
  have hrest : pool.filter (· ∉ pool.filter (isPinned pinned_brand)) =
      pool.filter fun c => !isPinned pinned_brand c := by
    refine List.filter_congr fun c hc => ?_
    simp [List.mem_filter, hc]
  rw [hrest]
  by_cases hnone : pool.filter (isPinned pinned_brand) = []
  · rw [if_neg (not_not.mpr hnone)]
    refine TopK.eq_sortDesc hpool (List.Perm.refl pool) ?_
    refine pairwise_before_of_sublist (List.Sublist.refl pool) fun a ha b hb => ?_
    have hnot := List.filter_eq_nil_iff.mp hnone
    rw [if_neg (hnot a ha), if_neg (hnot b hb)]
  · rw [if_pos hnone]
    refine TopK.eq_sortDesc hpool (List.filter_append_perm _ pool) ?_
    rw [List.pairwise_append]
    refine ⟨?_, ?_, fun a ha b hb => .inl ?_⟩
    · refine pairwise_before_of_sublist List.filter_sublist fun a ha b hb => ?_
      rw [if_pos (List.mem_filter.mp ha).2, if_pos (List.mem_filter.mp hb).2]
    · refine pairwise_before_of_sublist List.filter_sublist fun a ha b hb => ?_
      have ha := (List.mem_filter.mp ha).2
      have hb := (List.mem_filter.mp hb).2
      simp only [Bool.not_eq_true'] at ha hb
      rw [if_neg (by simp [ha]), if_neg (by simp [hb])]
    · have ha := (List.mem_filter.mp ha).2
      have hb := (List.mem_filter.mp hb).2
      simp only [Bool.not_eq_true'] at hb
      simp [ha, hb]

/-- The buckets come in the order drawn, the items of one bucket as they were shown. -/
theorem explorer_order (shuffle : ∀ size, Indices size size) :
    (shuffled ((groupInto (·.category) pool).map (·.2)) shuffle).flatten =
      TopK.sortDesc (fun c => -((categoryOrder pool shuffle).idxOf c.category : ℚ)) pool := by
  have hbuckets : (groupInto (·.category) pool).map (·.2) =
      (keepFirst id (pool.map (·.category))).map (group (·.category) pool) := by
    rw [groupInto_eq, List.map_map]
    rfl
  rw [hbuckets, map_shuffled, ← categoryOrder, ← List.flatMap_def]
  have hperm : (categoryOrder pool shuffle).Perm (keepFirst id (pool.map (·.category))) :=
    shuffled_perm _ shuffle
  have hnodup : (categoryOrder pool shuffle).Nodup := hperm.nodup_iff.mpr nodup_keepFirst_id
  refine TopK.eq_sortDesc hpool ?_ ?_
  · exact flatMap_group_perm hnodup fun c hc =>
      hperm.mem_iff.mpr (mem_keepFirst_id.mpr (List.mem_map_of_mem hc))
  · have hcategory : ∀ {k : String} {c : Candidate}, c ∈ group (·.category) pool k → c.category = k :=
      fun hc => of_decide_eq_true (List.mem_filter.mp hc).2
    rw [List.flatMap_def, List.pairwise_flatten, List.pairwise_map]
    constructor
    · intro bucket hbucket
      obtain ⟨k, -, rfl⟩ := List.mem_map.mp hbucket
      refine pairwise_before_of_sublist List.filter_sublist fun a ha b hb => ?_
      rw [hcategory ha, hcategory hb]
    · refine List.pairwise_iff_getElem.mpr fun i j hi hj hij a ha b hb => .inl ?_
      simp only [hcategory ha, hcategory hb, hnodup.idxOf_getElem i hi, hnodup.idxOf_getElem j hj,
        neg_lt_neg_iff, Nat.cast_lt]
      exact hij

theorem rankForSegment_eq (segment : String) (pinned_brand : Option String)
    (shuffle : ∀ size, Indices size size) :
    rankForSegment segment pool pinned_brand shuffle =
      TopK.sortDesc (segmentKey segment pool pinned_brand shuffle) pool := by
  unfold rankForSegment segmentKey
  split
  · unfold PyList.sortBy TopK.sortDesc
    simp only [neg_le_neg_iff]
  · split
    · rfl
    · split
      · rfl
      · split
        · exact loyalist_order hpool pinned_brand
        · exact explorer_order hpool shuffle

/-- **What is clicked on.** The first items of the impression under the key of the segment, and of equal
items the one shown first. -/
theorem picked_is (segment : String) (pinned_brand : Option String) (num_clicks : ℕ)
    (shuffle : ∀ size, Indices size size) :
    TopK.Is (segmentKey segment pool pinned_brand shuffle) pool num_clicks
      (pickClicksForSegment segment pool pinned_brand num_clicks shuffle) := by
  have hpick : pickClicksForSegment segment pool pinned_brand num_clicks shuffle =
      (TopK.sortDesc (segmentKey segment pool pinned_brand shuffle) pool).take num_clicks := by
    unfold pickClicksForSegment
    by_cases hnone : pool = [] ∨ num_clicks = 0
    · rw [if_pos hnone]
      obtain rfl | rfl := hnone
      · exact List.take_nil.symm
      · rfl
    · rw [if_neg hnone]
      simp only [rankForSegment_eq hpool]
      rw [List.take_eq_take_iff]
      omega
  rw [hpick]
  exact TopK.is_take _ hpool num_clicks

end Orders

/-- Two items of two categories, the second one cheaper. -/
def sampleItems : List Candidate :=
  [⟨"i1", "electronics/earbuds", "Apple", 120, 1⟩, ⟨"i2", "electronics/speakers", "Bose", 80, 2⟩]

def inOrder (size n : ℕ) (h : n ≤ size) : Indices size n where
  list := (List.finRange n).map (Fin.castLE h)
  nodup := (List.nodup_finRange n).map (Fin.castLE_injective h)
  length := by rw [List.length_map, List.length_finRange]

theorem picked_is_sample : TopK.Is (segmentKey "brand_loyalist" sampleItems (some "Bose") fun n =>
    inOrder n n le_rfl) sampleItems 1 (pickClicksForSegment "brand_loyalist" sampleItems (some "Bose") 1
      fun n => inOrder n n le_rfl) :=
  picked_is (by decide +kernel) "brand_loyalist" (some "Bose") 1 fun n => inOrder n n le_rfl

end ClickRec.Replay
