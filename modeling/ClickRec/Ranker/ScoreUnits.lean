import ClickRec.Ranker.ScoreTable

/-! # Units and positions

Where a column starts and in which unit it counts is lost in its normalisation, and so is the order of
its rows. -/
namespace ClickRec.Ranker
set_option autoImplicit false

/-! ## The extremes of a column -/

section Fold
variable {K : Type} [LinearOrder K]

theorem foldl_min_mem (l : List K) (x : K) : l.foldl min x ∈ x :: l := by
  induction l generalizing x with
  | nil => exact List.mem_cons_self
  | cons y l ih =>
    rw [List.foldl_cons]
    obtain hmin | hl := List.mem_cons.mp (ih (min x y))
    · rw [hmin]
      obtain hx | hy := min_choice x y
      · rw [hx]
        exact List.mem_cons_self
      · rw [hy]
        exact List.mem_cons_of_mem x List.mem_cons_self
    · exact List.mem_cons_of_mem x (List.mem_cons_of_mem y hl)

theorem foldl_min_perm {x y : K} {l m : List K} (h : (x :: l).Perm (y :: m)) :
    l.foldl min x = m.foldl min y := by
  apply le_antisymm
  · exact foldl_min_le l x _ (h.symm.subset (foldl_min_mem m y))
  · exact foldl_min_le m y _ (h.subset (foldl_min_mem l x))

theorem foldl_max_perm {x y : K} {l m : List K} (h : (x :: l).Perm (y :: m)) :
    l.foldl max x = m.foldl max y :=
  foldl_min_perm (K := Kᵒᵈ) h

theorem foldl_min_map {f : K → K} (hf : Monotone f) (l : List K) (x : K) :
    (l.map f).foldl min (f x) = f (l.foldl min x) := by
  rw [List.foldl_map]
  exact List.foldl_hom f fun y z => hf.map_min.symm

theorem foldl_max_map {f : K → K} (hf : Monotone f) (l : List K) (x : K) :
    (l.map f).foldl max (f x) = f (l.foldl max x) := by
  rw [List.foldl_map]
  exact List.foldl_hom f fun y z => hf.map_max.symm

end Fold

/-! ## One value of a column -/

variable {K : Type} [Field K] [LinearOrder K]

theorem normalize_perm {xs ys : List (Option K)} (h : xs.Perm ys) (x : Option K) :
    normalize xs x = normalize ys x := by
  have hreal : xs.reduceOption.Perm ys.reduceOption := h.filterMap id
  unfold normalize
  cases hxs : xs.reduceOption with
  | nil =>
    rw [hxs] at hreal
    rw [hreal.nil_eq]
  | cons x₀ real =>
    cases hys : ys.reduceOption with
    | nil =>
      rw [hys] at hreal
      rw [hxs] at hreal
      exact absurd hreal.eq_nil (List.cons_ne_nil _ _)
    | cons y₀ real' =>
      rw [hxs, hys] at hreal
      cases real with
      | nil =>
        obtain hsingle := List.singleton_perm.mp hreal
        rw [← hsingle]
      | cons x₁ real =>
        cases real' with
        | nil =>
          have hlength := hreal.length_eq
          simp at hlength
        | cons y₁ real' => simp only [foldl_min_perm hreal, foldl_max_perm hreal]

variable [IsStrictOrderedRing K]

omit [IsStrictOrderedRing K] in
/-- A factor and an offset cancel from the position of a value between two others. -/
theorem affine_position {a b lo hi v : K} (ha : 0 < a) :
    (a * v + b - (a * lo + b)) / (a * hi + b - (a * lo + b)) = (v - lo) / (hi - lo) := by
  have hnum : a * v + b - (a * lo + b) = a * (v - lo) := by ring
  have hden : a * hi + b - (a * lo + b) = a * (hi - lo) := by ring
  rw [hnum, hden, mul_div_mul_left _ _ ha.ne']

theorem normalize_affine {a b : K} (ha : 0 < a) (xs : List (Option K)) (x : Option K) :
    normalize (xs.map (Option.map fun v => a * v + b)) (x.map fun v => a * v + b) =
      normalize xs x := by
  have hmono : StrictMono fun v : K => a * v + b := fun v w h =>
    add_lt_add_left (mul_lt_mul_of_pos_left h ha) b
  unfold normalize
  rw [List.reduceOption_map]
  cases xs.reduceOption with
  | nil => rfl
  | cons x₀ real =>
    cases real with
    | nil => simp only [List.map_cons, List.map_nil, Option.isSome_map]
    | cons x₁ real =>
      have hlo := foldl_min_map hmono.monotone (x₁ :: real) x₀
      have hhi := foldl_max_map hmono.monotone (x₁ :: real) x₀
      simp only [List.map_cons] at hlo hhi ⊢
      simp only [hlo, hhi, hmono.le_iff_le]
      split
      · rfl
      · cases x with
        | none => rfl
        | some v => exact affine_position ha

/-! ## A table in other units and another order -/

/-- Row `i` of the new table is row `σ i` of the old one, each real value with the factor and the offset
of its column. -/
def transformed {n : ℕ} (features : Features K) (a b : String → K) (σ : Equiv.Perm (Fin n)) :
    Features K := fun name =>
  (features name).map fun col =>
    List.ofFn fun i : Fin n => (col[(σ i : ℕ)]?.join).map fun x => a name * x + b name

omit [Field K] [LinearOrder K] [IsStrictOrderedRing K] in
theorem perm_map_equiv {n : ℕ} (σ : Equiv.Perm (Fin n)) (f : Fin n → Option K) :
    ((List.finRange n).map fun i => f (σ i)).Perm ((List.finRange n).map f) := by
  have hσ : ((List.finRange n).map σ).Perm (List.finRange n) := by
    refine (List.perm_ext_iff_of_nodup ?_ (List.nodup_finRange n)).mpr fun i => ?_
    · exact (List.nodup_finRange n).map σ.injective
    · refine iff_of_true (List.mem_map.mpr ⟨σ.symm i, List.mem_finRange _, ?_⟩) (List.mem_finRange i)
      exact σ.apply_symm_apply i
  have hmap := hσ.map f
  rw [List.map_map] at hmap
  exact hmap

/-- **Scores have no unit and follow the rows.** -/
theorem score_transformed (features : Features K) (cfg : RankerConfig K) (n : ℕ)
    (hcols : ∀ name ∈ FEATURE_NAMES, ∃ col, features name = some col ∧ col.length = n)
    (a b : String → K) (ha : ∀ name ∈ FEATURE_NAMES, 0 < a name) (σ : Equiv.Perm (Fin n)) :
    ∃ scored scored', score features cfg = .ok scored ∧ scored.length = n ∧
      score (transformed features a b σ) cfg = .ok scored' ∧ scored'.length = n ∧
      ∀ i : Fin n, scored'[(i : ℕ)]? = scored[(σ i : ℕ)]? := by
  let value : String → Fin n → Option K := fun name i => ((features name).getD [])[(i : ℕ)]?.join
  let value' : String → Fin n → Option K := fun name i =>
    (value name (σ i)).map fun x => a name * x + b name
  have htable : ∀ name ∈ FEATURE_NAMES,
      features name = some ((List.finRange n).map (value name)) := by
    intro name hname
    obtain ⟨col, hcol, hn⟩ := hcols name hname
    rw [hcol]
    refine congrArg some (List.ext_getElem (by simp [hn]) fun i hi _ => ?_)
    simp [value, hcol, hi]
  have htable' : ∀ name ∈ FEATURE_NAMES,
      transformed features a b σ name = some ((List.finRange n).map (value' name)) := by
    intro name hname
    obtain ⟨col, hcol, -⟩ := hcols name hname
    rw [transformed, hcol, Option.map_some, List.ofFn_eq_map]
    simp only [value', value, hcol, Option.getD_some]
  refine ⟨_, _, score_eq htable, by simp, score_eq htable', by simp, fun i => ?_⟩
  have hrow : scoredRow cfg (List.finRange n) value' i =
      scoredRow cfg (List.finRange n) value (σ i) := by
    have hpart : ∀ name ∈ FEATURE_NAMES, part cfg (List.finRange n) value' i name =
        part cfg (List.finRange n) value (σ i) name := by
      intro name hname
      have hmap : (List.finRange n).map (value' name) =
          ((List.finRange n).map fun i => value name (σ i)).map
            (Option.map fun x => a name * x + b name) := by
        rw [List.map_map]
        rfl
      rw [part, part, hmap, normalize_affine (ha name hname), normalize_perm (perm_map_equiv σ _)]
    rw [scoredRow, scoredRow, List.map_congr_left hpart]
    exact Prod.ext rfl (List.map_congr_left fun name hname => congrArg (Prod.mk name) (hpart name hname))
  simp [hrow]

theorem score_transformed_oneHit : ∃ scored scored', score oneHit defaultRankerConfig = .ok scored ∧
    score (transformed oneHit (fun _ => 2) (fun _ => 1) (Equiv.swap (0 : Fin 2) 1))
      defaultRankerConfig = .ok scored' ∧ scored'[1]? = scored[0]? := by
  obtain ⟨scored, scored', hscored, -, hscored', -, hrows⟩ := score_transformed oneHit
    defaultRankerConfig 2 oneHit_columns (fun _ => 2) (fun _ => 1) (by norm_num) (Equiv.swap 0 1)
  exact ⟨scored, scored', hscored, hscored', hrows 1⟩

end ClickRec.Ranker
