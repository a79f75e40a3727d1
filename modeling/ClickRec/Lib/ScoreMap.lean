import ClickRec.Lib.SortedSet
import Mathlib.Algebra.BigOperators.Group.List.Basic
import Mathlib.Algebra.Order.BigOperators.Group.List

/-! Sorted sets under changes of all their scores: a map of the scores that keeps their order, members
added and removed by lists, and the sum of the scores. -/
namespace SortedSet
set_option autoImplicit false

variable {K α : Type*} [LinearOrder K] [LinearOrder α]

/-! ## Members -/

/-- `ZRANGE 0 -1`. -/
def members (s : SortedSet K α) : List α := s.entries.map fun e => (ofLex e).2

theorem mem_members {s : SortedSet K α} {m : α} : m ∈ s.members ↔ ∃ x, s.zscore m = some x := by
  constructor
  · intro h
    obtain ⟨e, he, rfl⟩ := List.mem_map.mp h
    exact ⟨(ofLex e).1, zscore_eq_some.mpr he⟩
  · rintro ⟨x, hx⟩
    exact List.mem_map_of_mem (zscore_eq_some.mp hx)

/-- `ZRANGE 0 -1 WITHSCORES`. -/
def withScores (s : SortedSet K α) : List (α × K) :=
  s.entries.map fun e => ((ofLex e).2, (ofLex e).1)

theorem mem_withScores {s : SortedSet K α} {m : α} {x : K} :
    (m, x) ∈ s.withScores ↔ s.zscore m = some x := by
  rw [zscore_eq_some, withScores, List.mem_map]
  constructor
  · rintro ⟨e, he, hex⟩
    obtain ⟨rfl, rfl⟩ := Prod.mk.inj hex
    exact he
  · intro h
    exact ⟨_, h, rfl⟩

theorem map_fst_withScores (s : SortedSet K α) : s.withScores.map Prod.fst = s.members := by
  rw [withScores, List.map_map]
  rfl

theorem zscore_zrem (s : SortedSet K α) (m n : α) :
    (s.zrem m).zscore n = if n = m then none else s.zscore n := by
  ext x
  rw [zscore_eq_some, mem_zrem]
  by_cases hn : n = m
  · simp [hn]
  · simp [hn, zscore_eq_some]

theorem zscore_foldl_zrem (l : List α) (s : SortedSet K α) (n : α) :
    (l.foldl zrem s).zscore n = if n ∈ l then none else s.zscore n := by
  induction l generalizing s with
  | nil => simp
  | cons m l ih =>
    rw [List.foldl_cons, ih, zscore_zrem]
    by_cases hl : n ∈ l
    · simp [hl]
    · by_cases hm : n = m
      · simp [hm]
      · simp [hl, hm]

/-- `ZADD` with several members. -/
theorem zscore_foldl_zadd {l : List (α × K)} (hl : (l.map Prod.fst).Nodup) (s : SortedSet K α)
    {n : α} {x : K} (h : (n, x) ∈ l) :
    (l.foldl (fun s e => s.zadd e.1 e.2) s).zscore n = some x := by
  induction l using List.reverseRecOn with
  | nil => cases h
  | append_singleton l e ih =>
    rw [List.map_append, List.nodup_append] at hl
    obtain ⟨hl, -, hdisjoint⟩ := hl
    rw [List.foldl_append, List.foldl_cons, List.foldl_nil, zscore_zadd]
    obtain h | h := List.mem_append.mp h
    · have hne : n ≠ e.1 := hdisjoint n (List.mem_map_of_mem h) e.1 (by simp)
      rw [if_neg hne]
      exact ih hl h
    · obtain rfl : (n, x) = e := List.mem_singleton.mp h
      rw [if_pos rfl]

theorem zscore_foldl_zadd_of_not_mem {l : List (α × K)} {n : α} (h : n ∉ l.map Prod.fst)
    (s : SortedSet K α) :
    (l.foldl (fun s e => s.zadd e.1 e.2) s).zscore n = s.zscore n := by
  induction l generalizing s with
  | nil => rfl
  | cons e l ih =>
    rw [List.map_cons, List.mem_cons, not_or] at h
    rw [List.foldl_cons, ih h.2, zscore_zadd, if_neg h.1]

/-! ## Increments by one -/

/-- `ZINCRBY` by one of each of these in turn. -/
def bumpAll {K : Type*} [LinearOrder K] [AddMonoidWithOne K] (l : List α) (s : SortedSet K α) :
    SortedSet K α :=
  l.foldl (fun s m => s.zincrby m 1) s

theorem zscore_bumpAll {K : Type*} [LinearOrder K] [AddMonoidWithOne K] (l : List α)
    (s : SortedSet K α) (m : α) : (bumpAll l s).zscore m =
      if l.count m = 0 then s.zscore m else some ((s.zscore m).getD 0 + l.count m) := by
  induction l using List.reverseRecOn with
  | nil => simp [bumpAll]
  | append_singleton l n ih =>
    rw [bumpAll, List.foldl_append, List.foldl_cons, List.foldl_nil, zincrby, zscore_zadd,
      List.count_append]
    change (if m = n then some (((bumpAll l s).zscore n).getD 0 + 1) else (bumpAll l s).zscore m) = _
    by_cases hn : m = n
    · subst hn
      rw [ih, if_pos rfl]
      by_cases hl : l.count m = 0
      · simp [hl]
      · simp [hl, add_assoc]
    · have hcount : [n].count m = 0 := by simpa [List.count_eq_zero] using hn
      rw [if_neg hn, ih, hcount, Nat.add_zero]

/-- The score of a member depends on its score and its increments only. -/
theorem zscore_bumpAll_congr {K : Type*} [LinearOrder K] [AddMonoidWithOne K] {l l' : List α}
    {s t : SortedSet K α} {m : α} (hs : s.zscore m = t.zscore m) (hl : l.count m = l'.count m) :
    (bumpAll l s).zscore m = (bumpAll l' t).zscore m := by
  rw [zscore_bumpAll, zscore_bumpAll, hs, hl]

/-! ## A map of the scores -/

/-- It keeps the order of the scores it does not drop. -/
def KeepsOrder (f : K → Option K) : Prop :=
  ∀ x y x' y' : K, f x = some x' → f y = some y' → x < y → x' < y'

def mapEntry (f : K → Option K) (e : K ×ₗ α) : Option (K ×ₗ α) :=
  (f (ofLex e).1).map fun x => toLex (x, (ofLex e).2)

omit [LinearOrder K] [LinearOrder α] in
theorem mapEntry_eq_some {f : K → Option K} {e e' : K ×ₗ α} :
    mapEntry f e = some e' ↔ f (ofLex e).1 = some (ofLex e').1 ∧ (ofLex e).2 = (ofLex e').2 := by
  rw [mapEntry, Option.map_eq_some_iff]
  constructor
  · rintro ⟨x, hx, rfl⟩
    exact ⟨hx, rfl⟩
  · rintro ⟨hx, hm⟩
    exact ⟨_, hx, by rw [hm]; rfl⟩

omit [LinearOrder K] [LinearOrder α] in
theorem members_filterMap (f : K → Option K) (l : List (K ×ₗ α)) :
    ((l.filterMap (mapEntry f)).map fun e => (ofLex e).2).Sublist (l.map fun e => (ofLex e).2) := by
  induction l with
  | nil => exact .slnil
  | cons e l ih =>
    rw [List.filterMap_cons]
    cases he : mapEntry f e with
    | none => exact ih.cons _
    | some e' =>
      rw [List.map_cons, List.map_cons, ← (mapEntry_eq_some.mp he).2]
      exact ih.cons_cons _

/-- The set with every score mapped, without the members whose score is dropped. -/
def mapScores (f : K → Option K) (hf : KeepsOrder f) (s : SortedSet K α) : SortedSet K α where
  entries := s.entries.filterMap (mapEntry f)
  sorted := by
    refine List.pairwise_filterMap.mpr (s.sorted.imp fun {a b} hab a' ha b' hb => ?_)
    obtain ⟨ha, ham⟩ := mapEntry_eq_some.mp ha
    obtain ⟨hb, hbm⟩ := mapEntry_eq_some.mp hb
    rw [Prod.Lex.lt_iff] at hab ⊢
    obtain hlt | ⟨heq, hlt⟩ := hab
    · exact .inl (hf _ _ _ _ ha hb hlt)
    · rw [heq, hb] at ha
      exact .inr ⟨(Option.some.inj ha).symm, ham ▸ hbm ▸ hlt⟩
  distinct := s.distinct.sublist (members_filterMap f s.entries)

variable {f : K → Option K} {hf : KeepsOrder f}

theorem zscore_mapScores (s : SortedSet K α) (m : α) :
    (mapScores f hf s).zscore m = (s.zscore m).bind f := by
  ext y
  rw [zscore_eq_some, Option.bind_eq_some_iff]
  constructor
  · intro h
    obtain ⟨e, he, hey⟩ := List.mem_filterMap.mp h
    obtain ⟨hy, hm⟩ := mapEntry_eq_some.mp hey
    have hm : (ofLex e).2 = m := hm
    refine ⟨(ofLex e).1, zscore_eq_some.mpr ?_, hy⟩
    rw [← hm]
    exact he
  · rintro ⟨x, hx, hy⟩
    exact List.mem_filterMap.mpr ⟨_, zscore_eq_some.mp hx, mapEntry_eq_some.mpr ⟨hy, rfl⟩⟩

/-- The members that are left are in the order they were in. -/
theorem members_mapScores (s : SortedSet K α) : (mapScores f hf s).members.Sublist s.members :=
  members_filterMap f s.entries

theorem card_mapScores_le (s : SortedSet K α) : (mapScores f hf s).card ≤ s.card :=
  List.length_filterMap_le _ _

/-! ## The highest scores -/

theorem entries_zremrangebyrank_sublist (s : SortedSet K α) (start stop : ℤ) :
    (s.zremrangebyrank start stop).entries.Sublist s.entries :=
  take_append_drop_sublist s.entries (le_max_left _ _)

theorem members_keepTop (k : ℕ) (s : SortedSet K α) : (keepTop k s).members.Sublist s.members :=
  (List.drop_sublist _ _).map _

/-- What is cut off is not above what is kept. -/
theorem le_of_keepTop {k : ℕ} {s : SortedSet K α} {m n : α} {x y : K} (hm : s.zscore m = some x)
    (hcut : (keepTop k s).zscore m = none) (hn : (keepTop k s).zscore n = some y) : x ≤ y := by
  have hsplit := lastEntries_split k s.entries
  have hsorted := s.sorted
  have hmem : toLex (x, m) ∈ s.entries := zscore_eq_some.mp hm
  rw [hsplit] at hsorted hmem
  obtain ⟨-, -, hlt⟩ := List.pairwise_append.mp hsorted
  obtain hmem | hmem := List.mem_append.mp hmem
  · have hbelow := hlt _ hmem _ (zscore_eq_some.mp hn)
    rw [Prod.Lex.toLex_lt_toLex] at hbelow
    obtain hlt | ⟨heq, -⟩ := hbelow
    · exact hlt.le
    · exact heq.le
  · have hkept : (keepTop k s).zscore m = some x := zscore_eq_some.mpr hmem
    rw [hkept] at hcut
    cases hcut

/-! ## The sum of the scores -/

section Total
variable {K : Type*} [AddCommGroup K] [LinearOrder K] [IsOrderedAddMonoid K]

def total (s : SortedSet K α) : K := (s.entries.map fun e => (ofLex e).1).sum

omit [IsOrderedAddMonoid K] in
theorem total_zrem (s : SortedSet K α) (m : α) :
    s.total = (s.zscore m).getD 0 + (s.zrem m).total := by
  cases hm : s.zscore m with
  | none => rw [zrem_of_zscore_eq_none hm, Option.getD_none, zero_add]
  | some x =>
    have hmem : toLex (x, m) ∈ s.entries := zscore_eq_some.mp hm
    have hnot : toLex (x, m) ∉ (s.zrem m).entries := not_mem_zrem
    have hnodup : s.entries.Nodup := s.sorted.imp ne_of_lt
    have hperm : s.entries.Perm (toLex (x, m) :: (s.zrem m).entries) := by
      refine (List.perm_ext_iff_of_nodup hnodup
        (List.nodup_cons.mpr ⟨hnot, (s.zrem m).sorted.imp ne_of_lt⟩)).mpr fun e => ?_
      rw [List.mem_cons, mem_zrem]
      constructor
      · intro he
        by_cases hem : (ofLex e).2 = m
        · exact .inl (eq_of_member_eq he hmem hem)
        · exact .inr ⟨he, hem⟩
      · rintro (rfl | ⟨he, -⟩)
        · exact hmem
        · exact he
    rw [total, (hperm.map _).sum_eq, List.map_cons, List.sum_cons]
    rfl

omit [IsOrderedAddMonoid K] in
theorem total_zadd (s : SortedSet K α) (m : α) (x : K) :
    (s.zadd m x).total = x + (s.zrem m).total := by
  rw [total, entries_zadd, ((List.perm_orderedInsert _ _ _).map _).sum_eq, List.map_cons,
    List.sum_cons]
  rfl

omit [IsOrderedAddMonoid K] in
theorem total_zincrby (s : SortedSet K α) (m : α) (x : K) :
    (s.zincrby m x).total = s.total + x := by
  rw [zincrby, total_zadd, total_zrem s m]
  abel

/-- Every member has a positive score. -/
def Positive (s : SortedSet K α) : Prop := ∀ m x, s.zscore m = some x → 0 < x

omit [IsOrderedAddMonoid K] in
theorem Positive.scores {s : SortedSet K α} (h : s.Positive) :
    ∀ x ∈ s.entries.map fun e => (ofLex e).1, 0 < x := by
  intro x hx
  obtain ⟨e, he, rfl⟩ := List.mem_map.mp hx
  exact h (ofLex e).2 _ (zscore_eq_some.mpr he)

theorem Positive.total_nonneg {s : SortedSet K α} (h : s.Positive) : 0 ≤ s.total :=
  List.sum_nonneg fun x hx => (h.scores x hx).le

theorem Positive.total_pos {s : SortedSet K α} (h : s.Positive) (hs : s.entries ≠ []) :
    0 < s.total :=
  List.sum_pos _ h.scores (by simpa using hs)

theorem Positive.total_le_of_sublist {s t : SortedSet K α} (h : s.Positive)
    (hsub : t.entries.Sublist s.entries) : t.total ≤ s.total :=
  (hsub.map _).sum_le_sum fun x hx => (h.scores x hx).le

omit [IsOrderedAddMonoid K] in
theorem Positive.of_sublist {s t : SortedSet K α} (h : s.Positive)
    (hsub : t.entries.Sublist s.entries) : t.Positive := fun m x hx =>
  h m x (zscore_eq_some.mpr (hsub.mem (zscore_eq_some.mp hx)))

end Total

theorem total_mapScores_le {K : Type*} [CommRing K] [LinearOrder K] [IsStrictOrderedRing K]
    {f : K → Option K} {hf : KeepsOrder f} {c : K} (hc : 0 ≤ c)
    (hle : ∀ x y, f x = some y → y ≤ x * c) {s : SortedSet K α} (hs : s.Positive) :
    (mapScores f hf s).total ≤ s.total * c := by
  have hscores := hs.scores
  have hentries : (mapScores f hf s).entries = s.entries.filterMap (mapEntry f) := rfl
  rw [total, total, hentries]
  generalize s.entries = l at hscores
  induction l with
  | nil => simp
  | cons e l ih =>
    rw [List.map_cons, List.forall_mem_cons] at hscores
    have hl := ih hscores.2
    rw [List.map_cons, List.sum_cons, add_mul, List.filterMap_cons]
    cases he : mapEntry f e with
    | none => exact hl.trans (le_add_of_nonneg_left (mul_nonneg hscores.1.le hc))
    | some e' =>
      rw [List.map_cons, List.sum_cons]
      exact add_le_add (hle _ _ (mapEntry_eq_some.mp he).1) hl

end SortedSet
