import ClickRec.Eval.Metrics
import ClickRec.Lib.Discounted
import Mathlib.Analysis.SpecialFunctions.Log.Base

/-! # NDCG

The gain of a place is divided by the logarithm of its number, so the places weigh less and less, and
no order of the relevances has a greater gain than the decreasing one. -/
namespace ClickRec.Eval
set_option autoImplicit false
open Discounted

/-! ## Any logarithm that grows -/

section Gain
variable {K : Type} [Field K] [LinearOrder K] {log2 : ℕ → K}

/-- The weight of a place, counted from 0. -/
def discount (log2 : ℕ → K) (i : ℕ) : K := 1 / log2 (i + 2)

omit [LinearOrder K] in
theorem dcg_eq_total (rels : List K) : dcg log2 rels = total (discount log2) rels := by
  rw [dcg, total]
  refine congrArg List.sum (List.map_congr_left fun p _ => ?_)
  rw [discount, one_div_mul_eq_div]

theorem ndcgAtK_of_pos {rels : List K} {k : ℤ} (hk : 1 ≤ k) (hne : rels ≠ []) :
    ndcgAtK log2 rels k =
      if total (discount log2) ((desc rels).take k.toNat) = 0 then 0
      else total (discount log2) (rels.take k.toNat) /
        total (discount log2) ((desc rels).take k.toNat) := by
  have hsome : ¬ (k ≤ 0 ∨ rels.isEmpty) := by
    rw [List.isEmpty_iff]
    exact not_or.mpr ⟨by omega, hne⟩
  rw [ndcgAtK, if_neg hsome]
  simp only [dcg_eq_total, PyList.sliceTo_of_nonneg _ (zero_le_one.trans hk)]
  rfl

theorem ndcgAtK_of_none {rels : List K} {k : ℤ} (h : k ≤ 0 ∨ rels = []) : ndcgAtK log2 rels k = 0 := by
  rw [ndcgAtK, if_pos (h.imp_right List.isEmpty_iff.mpr)]

variable [IsStrictOrderedRing K]

/-- The logarithms of the places are positive and grow. -/
structure Grows (log2 : ℕ → K) : Prop where
  pos : ∀ i, 0 < log2 (i + 2)
  mono : ∀ i j, i < j → log2 (i + 2) < log2 (j + 2)

theorem Grows.discount_pos (h : Grows log2) (i : ℕ) : 0 < discount log2 i :=
  one_div_pos.mpr (h.pos i)

theorem Grows.strictAnti_discount (h : Grows log2) : StrictAnti (discount log2) :=
  fun i j hij => one_div_lt_one_div_of_lt (h.pos i) (h.mono i j hij)

variable {rels : List K}

theorem ideal_nonneg (h : Grows log2) (hrels : ∀ x ∈ rels, 0 ≤ x) (n : ℕ) :
    0 ≤ total (discount log2) ((desc rels).take n) :=
  total_nonneg (fun i => (h.discount_pos i).le) fun x hx =>
    hrels x ((perm_desc rels).mem_iff.mp (List.mem_of_mem_take hx))

/-- An ideal order of the first `n ≥ 1` entries has a gain when some relevance is positive. -/
theorem ideal_pos_iff (h : Grows log2) (hrels : ∀ x ∈ rels, 0 ≤ x) {n : ℕ} (hn : 0 < n) :
    0 < total (discount log2) ((desc rels).take n) ↔ ∃ x ∈ rels, 0 < x := by
  have hmem : ∀ x ∈ (desc rels).take n, x ∈ rels := fun x hx =>
    (perm_desc rels).mem_iff.mp (List.mem_of_mem_take hx)
  constructor
  · intro hpos
    by_contra hnone
    have hzero : ∀ x ∈ (desc rels).take n, x ≤ 0 := fun x hx =>
      not_lt.mp fun hx' => hnone ⟨x, hmem x hx, hx'⟩
    exact absurd hpos (total_nonpos (fun i => (h.discount_pos i).le) hzero).not_gt
  · intro hsome
    exact total_pos h.discount_pos (fun x hx => hrels x (hmem x hx)) (exists_mem_take_desc hn hsome)

theorem ndcgAtK_mem_unit (h : Grows log2) (hrels : ∀ x ∈ rels, 0 ≤ x) (k : ℤ) :
    0 ≤ ndcgAtK log2 rels k ∧ ndcgAtK log2 rels k ≤ 1 := by
  by_cases hnone : k ≤ 0 ∨ rels = []
  · rw [ndcgAtK_of_none hnone]
    exact ⟨le_rfl, zero_le_one⟩
  · obtain ⟨hk, hne⟩ := not_or.mp hnone
    rw [ndcgAtK_of_pos (by omega) hne]
    split
    · exact ⟨le_rfl, zero_le_one⟩
    · have hactual : 0 ≤ total (discount log2) (rels.take k.toNat) :=
        total_nonneg (fun i => (h.discount_pos i).le) fun x hx => hrels x (List.mem_of_mem_take hx)
      have hle := total_take_le h.strictAnti_discount.antitone (fun i => (h.discount_pos i).le) rels
        k.toNat
      exact ⟨div_nonneg hactual (hactual.trans hle), div_le_one_of_le₀ hle (hactual.trans hle)⟩

theorem ndcgAtK_eq_one_iff (h : Grows log2) (hrels : ∀ x ∈ rels, 0 ≤ x) (k : ℤ) :
    ndcgAtK log2 rels k = 1 ↔
      1 ≤ k ∧ (∃ x ∈ rels, 0 < x) ∧ rels.take k.toNat = (desc rels).take k.toNat := by
  by_cases hnone : k ≤ 0 ∨ rels = []
  · rw [ndcgAtK_of_none hnone]
    refine iff_of_false zero_ne_one ?_
    rintro ⟨hk, ⟨x, hx, -⟩, -⟩
    obtain hk' | rfl := hnone
    · omega
    · cases hx
  · obtain ⟨hk, hne⟩ := not_or.mp hnone
    have hk : 1 ≤ k := by omega
    have hideal := ideal_pos_iff h hrels (n := k.toNat) (by omega)
    rw [ndcgAtK_of_pos hk hne, and_iff_right hk, ← hideal]
    split
    · rename_i hzero
      exact iff_of_false zero_ne_one fun hpos => hpos.1.ne' hzero
    · rename_i hzero
      rw [div_eq_one_iff_eq hzero, total_take_eq_iff h.strictAnti_discount h.discount_pos]
      exact (and_iff_right (lt_of_le_of_ne (ideal_nonneg h hrels _) (Ne.symm hzero))).symm

end Gain

/-! ## The real logarithm -/

noncomputable def realLog2 (n : ℕ) : ℝ := Real.logb (2 : ℕ) n

theorem grows_realLog2 : Grows realLog2 where
  pos i := Real.logb_pos (Nat.one_lt_cast.mpr one_lt_two) (by exact_mod_cast (by omega : 1 < i + 2))
  mono i j hij :=
    Real.logb_lt_logb (Nat.one_lt_cast.mpr one_lt_two) (by positivity) (by exact_mod_cast (by omega))

/-- **NDCG is normalised.** It is in the unit interval, and 1 exactly for the lists whose first `k`
entries are those of the decreasing order and not all zero. -/
theorem ndcgAtK_normalised (rels : List ℝ) (hrels : ∀ x ∈ rels, 0 ≤ x) (k : ℤ) :
    0 ≤ ndcgAtK realLog2 rels k ∧ ndcgAtK realLog2 rels k ≤ 1 ∧
      (ndcgAtK realLog2 rels k = 1 ↔ 1 ≤ k ∧ (∃ x ∈ rels, 0 < x) ∧
        rels.take k.toNat = (rels.insertionSort fun x y => y ≤ x).take k.toNat) :=
  ⟨(ndcgAtK_mem_unit grows_realLog2 hrels k).1, (ndcgAtK_mem_unit grows_realLog2 hrels k).2,
    ndcgAtK_eq_one_iff grows_realLog2 hrels k⟩

theorem ndcgAtK_normalised_secondPlace :
    0 ≤ ndcgAtK realLog2 [0, 1, 0] 10 ∧ ndcgAtK realLog2 [0, 1, 0] 10 ≤ 1 ∧
      (ndcgAtK realLog2 [0, 1, 0] 10 = 1 ↔ (1 : ℤ) ≤ 10 ∧ (∃ x ∈ [(0 : ℝ), 1, 0], 0 < x) ∧
        [(0 : ℝ), 1, 0].take (10 : ℤ).toNat =
          ([(0 : ℝ), 1, 0].insertionSort fun x y => y ≤ x).take (10 : ℤ).toNat) :=
  ndcgAtK_normalised [0, 1, 0] (by simp) 10

end ClickRec.Eval
