import ClickRec.Ranker.Scorer
import Mathlib.Data.List.ReduceOption

/-! # What `score` makes of a table

A row gets the weighted sum of its normalised values. A column normalises a value by what else is in
it, in one of four ways, and each of them keeps the order and ends in the unit interval. -/
namespace ClickRec.Ranker
set_option autoImplicit false

/-! ## One value of a column -/

section Fold
variable {K : Type} [LinearOrder K]

theorem foldl_min_le (l : List K) (x : K) : ∀ y ∈ x :: l, l.foldl min x ≤ y := by
  induction l generalizing x with
  | nil => simp
  | cons z l ih =>
    intro y hy
    rw [List.foldl_cons]
    have hmin := ih (min x z)
    have hfirst := hmin (min x z) List.mem_cons_self
    obtain rfl | hy := List.mem_cons.mp hy
    · exact hfirst.trans (min_le_left _ _)
    · obtain rfl | hy := List.mem_cons.mp hy
      · exact hfirst.trans (min_le_right _ _)
      · exact hmin y (List.mem_cons_of_mem _ hy)

theorem le_foldl_max (l : List K) (x : K) : ∀ y ∈ x :: l, y ≤ l.foldl max x :=
  foldl_min_le (K := Kᵒᵈ) l x

end Fold

variable {K : Type} [Field K] [LinearOrder K]

def normalize (xs : List (Option K)) (x : Option K) : K :=
  match xs.reduceOption with
  | [] => 0
  | [_] => if x.isSome then 1 else 0
  | x₀ :: real =>
    let lo := real.foldl min x₀
    let hi := real.foldl max x₀
    if hi ≤ lo then 0 else x.elim 0 fun x => (x - lo) / (hi - lo)

theorem minMax_eq_map (xs : List (Option K)) : minMax xs = xs.map (normalize xs) := by
  unfold minMax normalize
  cases xs.reduceOption with
  | nil => rfl
  | cons x₀ real =>
    cases real with
    | nil => rfl
    | cons x₁ real =>
      simp only
      split
      · rfl
      · rfl

/-- The value is 0, it is 1 where there is a value, or it lies between the least and the greatest of
its column. -/
theorem normalize_cases (xs : List (Option K)) :
    (∀ x, normalize xs x = 0) ∨ (∃ v, xs.reduceOption = [v] ∧
      ∀ x, normalize xs x = if x.isSome then 1 else 0) ∨
    ∃ lo hi, lo < hi ∧ (∀ v, some v ∈ xs → lo ≤ v ∧ v ≤ hi) ∧
      ∀ x, normalize xs x = x.elim 0 fun v => (v - lo) / (hi - lo) := by
  unfold normalize
  cases hreal : xs.reduceOption with
  | nil => exact .inl fun _ => rfl
  | cons x₀ real =>
    cases real with
    | nil => exact .inr (.inl ⟨x₀, rfl, fun _ => rfl⟩)
    | cons x₁ real =>
      simp only
      by_cases hconst : (x₁ :: real).foldl max x₀ ≤ (x₁ :: real).foldl min x₀
      · exact .inl fun _ => if_pos hconst
      · refine .inr (.inr ⟨_, _, not_le.mp hconst, fun v hv => ?_, fun _ => if_neg hconst⟩)
        have hmem : v ∈ x₀ :: x₁ :: real := by
          rw [← hreal]
          exact List.reduceOption_mem_iff.mpr hv
        exact ⟨foldl_min_le _ _ v hmem, le_foldl_max _ _ v hmem⟩

/-! ## The loops -/

section Check
variable {K : Type} {features : Features K}

theorem checkColumn_eq {name : String} {col : List (Option K)} (h : features name = some col) :
    checkColumn features 0 name = .ok col.length ∧
      checkColumn features col.length name = .ok col.length := by
  unfold checkColumn
  rw [h]
  simp only
  refine ⟨rfl, ?_⟩
  split
  · rfl
  · rfl

theorem foldlM_checkColumn {n : ℕ} {names : List String}
    (h : ∀ name ∈ names, ∃ col, features name = some col ∧ col.length = n) :
    names.foldlM (checkColumn features) n = .ok n := by
  induction names with
  | nil => rfl
  | cons name names ih =>
    obtain ⟨col, hcol, rfl⟩ := h name List.mem_cons_self
    rw [List.foldlM_cons, (checkColumn_eq hcol).2]
    exact ih fun name' hname => h name' (List.mem_cons_of_mem _ hname)

theorem checkColumns_eq {n : ℕ}
    (h : ∀ name ∈ FEATURE_NAMES, ∃ col, features name = some col ∧ col.length = n) :
    FEATURE_NAMES.foldlM (checkColumn features) 0 = .ok n := by
  obtain ⟨col, hcol, rfl⟩ := h "bm25" (by decide)
  rw [FEATURE_NAMES, List.foldlM_cons, (checkColumn_eq hcol).1]
  refine foldlM_checkColumn fun name hname => h name ?_
  exact List.mem_cons_of_mem _ hname

/-- The row numbers of a table and its values by row. -/
theorem column_eq_map {col : List (Option K)} {n : ℕ} (hn : col.length = n) :
    col = (List.range n).map fun i => col[i]?.join := by
  refine List.ext_getElem (by simp [hn]) fun i hi _ => ?_
  simp [hi]

end Check

section Score
variable {ι : Type} {features : Features K} {cfg : RankerConfig K} {l : List ι}
  {value : String → ι → Option K}

/-- What a feature adds to the score of one row of a table. -/
def part (cfg : RankerConfig K) (l : List ι) (value : String → ι → Option K) (i : ι)
    (name : String) : K :=
  cfg.weight name * normalize (l.map (value name)) (value name i)

def scoredRow (cfg : RankerConfig K) (l : List ι) (value : String → ι → Option K) (i : ι) :
    Scored K :=
  ((FEATURE_NAMES.map (part cfg l value i)).sum,
    FEATURE_NAMES.map fun name => (name, part cfg l value i name))

theorem addFeature_eq {name : String} (h : features name = some (l.map (value name)))
    (row : ι → Scored K) : addFeature features cfg (l.map row) name = .ok (l.map fun i =>
      ((row i).1 + part cfg l value i name, (row i).2 ++ [(name, part cfg l value i name)])) := by
  unfold addFeature
  rw [h, Option.getD_some, minMax_eq_map]
  simp only [List.length_map, lt_irrefl, if_false]
  rw [List.map_map, List.zipWith_map, List.zipWith_self]
  rfl

/-- The loop over the features, from any state of the two accumulators. -/
theorem foldlM_addFeature {names : List String}
    (h : ∀ name ∈ names, features name = some (l.map (value name))) (row : ι → Scored K) :
    names.foldlM (addFeature features cfg) (l.map row) = .ok (l.map fun i =>
      ((row i).1 + (names.map (part cfg l value i)).sum,
        (row i).2 ++ names.map fun name => (name, part cfg l value i name))) := by
  induction names generalizing row with
  | nil => simp [pure, Except.pure]
  | cons name names ih =>
    rw [List.foldlM_cons, addFeature_eq (h name List.mem_cons_self)]
    refine (ih (fun name' hname => h name' (List.mem_cons_of_mem _ hname)) _).trans ?_
    simp only [List.map_cons, List.sum_cons, add_assoc, List.append_assoc, List.singleton_append]

/-- A table whose columns are values of the same rows is scored row by row. -/
theorem score_eq (h : ∀ name ∈ FEATURE_NAMES, features name = some (l.map (value name))) :
    score features cfg = .ok (l.map (scoredRow cfg l value)) := by
  have hcheck : FEATURE_NAMES.foldlM (checkColumn features) 0 = .ok l.length :=
    checkColumns_eq fun name hname => ⟨_, h name hname, List.length_map _⟩
  unfold score
  rw [hcheck]
  by_cases hl : l.length = 0
  · rw [List.length_eq_zero_iff.mp hl]
    rfl
  · have hrows : List.replicate l.length ((0, []) : Scored K) = l.map fun _ => (0, []) := by
      rw [List.map_const']
    show (if l.length = 0 then pure [] else _) = _
    rw [if_neg hl, hrows, foldlM_addFeature h]
    simp only [zero_add, List.nil_append]
    rfl

end Score

/-! ## The order of the values -/

variable [IsStrictOrderedRing K]

theorem normalize_mem_unit {xs : List (Option K)} {x : Option K} (hx : x ∈ xs) :
    0 ≤ normalize xs x ∧ normalize xs x ≤ 1 := by
  obtain hzero | ⟨_, -, hsingle⟩ | ⟨lo, hi, hlt, hbounds, hvalue⟩ := normalize_cases xs
  · rw [hzero]
    exact ⟨le_rfl, zero_le_one⟩
  · rw [hsingle]
    split
    · exact ⟨zero_le_one, le_rfl⟩
    · exact ⟨le_rfl, zero_le_one⟩
  · rw [hvalue]
    cases x with
    | none => exact ⟨le_rfl, zero_le_one⟩
    | some v =>
      obtain ⟨hlo, hhi⟩ := hbounds v hx
      have hspan : 0 < hi - lo := sub_pos.mpr hlt
      exact ⟨div_nonneg (sub_nonneg.mpr hlo) hspan.le,
        (div_le_one hspan).mpr (sub_le_sub_right hhi lo)⟩

/-- `None` is the least value. -/
def AtMost (x y : Option K) : Prop := x = none ∨ ∃ a b, x = some a ∧ y = some b ∧ a ≤ b

theorem normalize_mono {xs : List (Option K)} {x y : Option K} (hy : y ∈ xs) (h : AtMost x y) :
    normalize xs x ≤ normalize xs y := by
  obtain rfl | ⟨a, b, rfl, rfl, hab⟩ := h
  · have hnone : normalize xs none = 0 := by
      obtain hzero | ⟨_, -, hsingle⟩ | ⟨lo, hi, -, -, hvalue⟩ := normalize_cases xs
      · exact hzero none
      · exact hsingle none
      · exact hvalue none
    rw [hnone]
    exact (normalize_mem_unit hy).1
  · obtain hzero | ⟨_, -, hsingle⟩ | ⟨lo, hi, hlt, -, hvalue⟩ := normalize_cases xs
    · rw [hzero, hzero]
    · rw [hsingle, hsingle]
      exact le_rfl
    · rw [hvalue, hvalue]
      exact div_le_div_of_nonneg_right (sub_le_sub_right hab lo) (sub_pos.mpr hlt).le

/-- **Scoring is monotone.** With weights that are not negative, a row that is nowhere worse than
another one scores at least as much. -/
theorem score_mono (features : Features K) (cfg : RankerConfig K) (n : ℕ)
    (hcols : ∀ name ∈ FEATURE_NAMES, ∃ col, features name = some col ∧ col.length = n)
    (hweights : ∀ name ∈ FEATURE_NAMES, 0 ≤ cfg.weight name) :
    ∃ scored, score features cfg = .ok scored ∧ scored.length = n ∧
      ∀ i < n, ∀ j < n,
        (∀ name ∈ FEATURE_NAMES, ∀ col, features name = some col →
          AtMost col[j]?.join col[i]?.join) →
        ∃ row row', scored[i]? = some row ∧ scored[j]? = some row' ∧ row'.1 ≤ row.1 := by
  let value : String → ℕ → Option K := fun name i => ((features name).getD [])[i]?.join
  have htable : ∀ name ∈ FEATURE_NAMES, features name = some ((List.range n).map (value name)) := by
    intro name hname
    obtain ⟨col, hcol, hn⟩ := hcols name hname
    rw [hcol, column_eq_map hn]
    simp [value, hcol]
  refine ⟨_, score_eq htable, by simp, fun i hi j hj hdom => ?_⟩
  refine ⟨scoredRow cfg (List.range n) value i, scoredRow cfg (List.range n) value j, by simp [hi],
    by simp [hj], ?_⟩
  refine List.sum_le_sum fun name hname => mul_le_mul_of_nonneg_left ?_ (hweights name hname)
  obtain ⟨col, hcol, -⟩ := hcols name hname
  have hvalue : ∀ k, value name k = col[k]?.join := fun k => by simp [value, hcol]
  refine normalize_mono (List.mem_map_of_mem (List.mem_range.mpr hi)) ?_
  rw [hvalue, hvalue]
  exact hdom name hname col hcol

/-- A table with two rows and one value. -/
def oneHit : Features ℚ := fun name =>
  if name = "bm25" then some [some 2, none] else some [none, none]

theorem oneHit_columns : ∀ name ∈ FEATURE_NAMES, ∃ col, oneHit name = some col ∧ col.length = 2 := by
  intro name _
  unfold oneHit
  split
  · exact ⟨_, rfl, rfl⟩
  · exact ⟨_, rfl, rfl⟩

theorem score_mono_oneHit : ∃ scored, score oneHit defaultRankerConfig = .ok scored ∧
    ∃ row row', scored[0]? = some row ∧ scored[1]? = some row' ∧ row'.1 ≤ row.1 := by
  obtain ⟨scored, hscored, -, hmono⟩ := score_mono oneHit defaultRankerConfig 2 oneHit_columns
    (by simp [FEATURE_NAMES, RankerConfig.weight, defaultRankerConfig]; norm_num)
  refine ⟨scored, hscored, hmono 0 (by decide) 1 (by decide) fun name _ col hcol => .inl ?_⟩
  unfold oneHit at hcol
  split at hcol
  · cases hcol
    rfl
  · cases hcol
    rfl

end ClickRec.Ranker
