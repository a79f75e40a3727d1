import Mathlib.Algebra.BigOperators.Fin
import Mathlib.Algebra.Order.Rearrangement
import Mathlib.Data.Fin.Tuple.Sort
import Mathlib.Tactic

/-! Sums of a list whose entries weigh less from place to place. Of all orders of the list the
decreasing one has the greatest sum, also where only the first places count. -/
namespace Discounted
set_option autoImplicit false

/-! ## The decreasing order of a list -/

section Desc
variable {K : Type*} [LinearOrder K]

def desc (l : List K) : List K := l.insertionSort fun x y => y ≤ x

theorem pairwise_desc (l : List K) : (desc l).Pairwise fun x y => y ≤ x :=
  List.pairwise_insertionSort _ l

theorem perm_desc (l : List K) : (desc l).Perm l := List.perm_insertionSort _ l

/-- There is no other. -/
theorem eq_desc {l m : List K} (hperm : m.Perm l) (hm : m.Pairwise fun x y => y ≤ x) :
    m = desc l :=
  (hperm.trans (perm_desc l).symm).eq_of_pairwise (fun _ _ _ _ h h' => le_antisymm h' h) hm
    (pairwise_desc l)

theorem exists_desc_ofFn {n : ℕ} (f : Fin n → K) :
    ∃ σ : Equiv.Perm (Fin n), desc (List.ofFn f) = List.ofFn (f ∘ σ) ∧ Antitone (f ∘ σ) := by
  have hanti : Antitone (f ∘ Tuple.sort (OrderDual.toDual ∘ f)) :=
    Tuple.monotone_sort (OrderDual.toDual ∘ f)
  refine ⟨_, (eq_desc (Equiv.Perm.ofFn_comp_perm _ f) ?_).symm, hanti⟩
  exact List.pairwise_ofFn.mpr fun i j hij => hanti hij.le

/-- Decreasing entries of which none is below a later one are the greatest. -/
theorem take_eq_take_desc {l : List K} {k : ℕ} (hfirst : (l.take k).Pairwise fun x y => y ≤ x)
    (hrest : ∀ x ∈ l.take k, ∀ y ∈ l.drop k, y ≤ x) : l.take k = (desc l).take k := by
  have hperm : (l.take k ++ desc (l.drop k)).Perm l := by
    have happend := (perm_desc (l.drop k)).append_left (l.take k)
    rwa [List.take_append_drop] at happend
  have hsorted : (l.take k ++ desc (l.drop k)).Pairwise fun x y => y ≤ x := by
    refine List.pairwise_append.mpr ⟨hfirst, pairwise_desc _, fun x hx y hy => ?_⟩
    exact hrest x hx y ((perm_desc _).mem_iff.mp hy)
  rw [← eq_desc hperm hsorted]
  obtain hk | hk := le_total k l.length
  · rw [List.take_left' (List.length_take_of_le hk)]
  · rw [List.take_of_length_le hk, List.drop_of_length_le hk]
    have hnil : desc ([] : List K) = [] := rfl
    rw [hnil, List.append_nil, List.take_of_length_le hk]

/-- A list with an entry above a bound has such an entry in the first place. -/
theorem exists_mem_take_desc {l : List K} {k : ℕ} (hk : 0 < k) {b : K} (h : ∃ x ∈ l, b < x) :
    ∃ x ∈ (desc l).take k, b < x := by
  obtain ⟨x, hx, hlt⟩ := h
  obtain ⟨n, rfl⟩ := Nat.exists_eq_succ_of_ne_zero hk.ne'
  have hx' := (perm_desc l).mem_iff.mpr hx
  have hsorted := pairwise_desc l
  cases hdesc : desc l with
  | nil =>
    rw [hdesc] at hx'
    cases hx'
  | cons y ys =>
    rw [hdesc] at hx' hsorted
    refine ⟨y, List.mem_cons_self, ?_⟩
    obtain rfl | hmem := List.mem_cons.mp hx'
    · exact hlt
    · exact hlt.trans_le ((List.pairwise_cons.mp hsorted).1 x hmem)

end Desc

/-! ## Weights of places -/

section Total
variable {K : Type*} [Semiring K]

/-- The sum of the entries, each with the weight of its place. -/
def total (w : ℕ → K) (l : List K) : K := (l.zipIdx.map fun p => w p.2 * p.1).sum

/-- The weights of the first `k` places. -/
def upTo (w : ℕ → K) (k : ℕ) (i : ℕ) : K := if i < k then w i else 0

@[simp] theorem total_nil (w : ℕ → K) : total w [] = 0 := rfl

theorem total_cons (w : ℕ → K) (x : K) (l : List K) :
    total w (x :: l) = w 0 * x + total (fun i => w (i + 1)) l := by
  rw [total, List.zipIdx_cons, List.map_cons, List.sum_cons, total, List.zipIdx_succ, List.map_map]
  rfl

theorem total_ofFn (w : ℕ → K) {n : ℕ} (f : Fin n → K) :
    total w (List.ofFn f) = ∑ i : Fin n, w i * f i := by
  induction n generalizing w with
  | zero => simp
  | succ n ih =>
    rw [List.ofFn_succ, total_cons, ih, Fin.sum_univ_succ]
    rfl

theorem total_take (w : ℕ → K) (l : List K) (k : ℕ) : total w (l.take k) = total (upTo w k) l := by
  induction l generalizing w k with
  | nil => rw [List.take_nil, total_nil, total_nil]
  | cons x l ih =>
    cases k with
    | zero =>
      have hnone : upTo w 0 = fun _ => 0 := funext fun i => if_neg (Nat.not_lt_zero i)
      simp [hnone, total]
    | succ k =>
      have hshift : (fun i => upTo w (k + 1) (i + 1)) = upTo (fun i => w (i + 1)) k := by
        funext i
        simp [upTo]
      rw [List.take_succ_cons, total_cons, total_cons, ih, hshift, upTo, if_pos k.succ_pos]

end Total

section Falling
variable {K : Type*} [Semiring K] [LinearOrder K] {w : ℕ → K}

theorem antitone_upTo (hw : Antitone w) (hpos : ∀ i, 0 ≤ w i) (k : ℕ) : Antitone (upTo w k) := by
  intro i j hij
  unfold upTo
  by_cases hj : j < k
  · rw [if_pos hj, if_pos (hij.trans_lt hj)]
    exact hw hij
  · rw [if_neg hj]
    split
    · exact hpos i
    · exact le_rfl

theorem upTo_lt (hw : StrictAnti w) (hpos : ∀ i, 0 < w i) {k i j : ℕ} (hi : i < k) (hij : i < j) :
    upTo w k j < upTo w k i := by
  unfold upTo
  rw [if_pos hi]
  split
  · exact hw hij
  · exact hpos i

end Falling

section Sign
variable {K : Type*} [Semiring K] [LinearOrder K] [IsStrictOrderedRing K] {w : ℕ → K} {l : List K}

theorem total_nonneg (hpos : ∀ i, 0 ≤ w i) (hl : ∀ x ∈ l, 0 ≤ x) : 0 ≤ total w l := by
  induction l generalizing w with
  | nil => exact le_rfl
  | cons x l ih =>
    rw [List.forall_mem_cons] at hl
    rw [total_cons]
    exact add_nonneg (mul_nonneg (hpos 0) hl.1) (ih (fun i => hpos (i + 1)) hl.2)

theorem total_nonpos (hpos : ∀ i, 0 ≤ w i) (hl : ∀ x ∈ l, x ≤ 0) : total w l ≤ 0 := by
  induction l generalizing w with
  | nil => exact le_rfl
  | cons x l ih =>
    rw [List.forall_mem_cons] at hl
    rw [total_cons]
    exact add_nonpos (mul_nonpos_of_nonneg_of_nonpos (hpos 0) hl.1)
      (ih (fun i => hpos (i + 1)) hl.2)

theorem total_pos (hpos : ∀ i, 0 < w i) (hl : ∀ x ∈ l, 0 ≤ x) (h : ∃ x ∈ l, 0 < x) :
    0 < total w l := by
  induction l generalizing w with
  | nil => simp at h
  | cons x l ih =>
    rw [List.forall_mem_cons] at hl
    rw [total_cons]
    obtain ⟨y, hy, hypos⟩ := h
    obtain rfl | hy := List.mem_cons.mp hy
    · exact add_pos_of_pos_of_nonneg (mul_pos (hpos 0) hypos)
        (total_nonneg (fun i => (hpos (i + 1)).le) hl.2)
    · exact add_pos_of_nonneg_of_pos (mul_nonneg (hpos 0).le hl.1)
        (ih (fun i => hpos (i + 1)) hl.2 ⟨y, hy, hypos⟩)

/-- Weights up to 1 give at most the plain sum. -/
theorem total_le_sum (hw : ∀ i, w i ≤ 1) (hl : ∀ x ∈ l, 0 ≤ x) : total w l ≤ l.sum := by
  induction l generalizing w with
  | nil => exact le_rfl
  | cons x l ih =>
    rw [List.forall_mem_cons] at hl
    rw [total_cons, List.sum_cons]
    exact add_le_add (mul_le_of_le_one_left hl.1 (hw 0)) (ih (fun i => hw (i + 1)) hl.2)

theorem le_total (hpos : ∀ i, 0 ≤ w i) (hl : ∀ x ∈ l, 0 ≤ x) {i : ℕ} {x : K} (hi : l[i]? = some x) :
    w i * x ≤ total w l := by
  induction l generalizing w i with
  | nil => simp at hi
  | cons y l ih =>
    rw [List.forall_mem_cons] at hl
    rw [total_cons]
    cases i with
    | zero =>
      obtain rfl : y = x := by simpa using hi
      exact le_add_of_nonneg_right (total_nonneg (fun i => hpos (i + 1)) hl.2)
    | succ i =>
      have hrest := ih (fun i => hpos (i + 1)) hl.2 (i := i) (by simpa using hi)
      exact hrest.trans (le_add_of_nonneg_left (mul_nonneg (hpos 0) hl.1))

end Sign

/-! ## The greatest sum -/

section Rearrangement
variable {K : Type*} [Field K] [LinearOrder K] [IsStrictOrderedRing K] {w : ℕ → K}

omit [IsStrictOrderedRing K] in
/-- The sums of the first `k` places, of a list in its own order and in the decreasing one. -/
theorem exists_rearrangement (hw : Antitone w) (hpos : ∀ i, 0 ≤ w i) (l : List K) (k : ℕ) :
    ∃ (σ : Equiv.Perm (Fin l.length)) (s : Fin l.length → K), s ∘ σ = l.get ∧
      Monovary (fun i : Fin l.length => upTo w k i) s ∧
      total w (l.take k) = ∑ i : Fin l.length, upTo w k i * s (σ i) ∧
      total w ((desc l).take k) = ∑ i : Fin l.length, upTo w k i * s i := by
  obtain ⟨σ, hdesc, hanti⟩ := exists_desc_ofFn l.get
  rw [List.ofFn_get] at hdesc
  have hget : (l.get ∘ σ) ∘ σ.symm = l.get := by
    funext i
    simp
  have htotal := total_ofFn (upTo w k) l.get
  rw [List.ofFn_get, ← hget] at htotal
  refine ⟨σ.symm, l.get ∘ σ, hget, ?_, ?_, ?_⟩
  · exact Antitone.monovary (fun i j hij => antitone_upTo hw hpos k hij) hanti
  · rw [total_take, htotal]
    rfl
  · rw [total_take, hdesc, total_ofFn]

/-- **Rearrangement.** No order has more in its first places than the decreasing one. -/
theorem total_take_le (hw : Antitone w) (hpos : ∀ i, 0 ≤ w i) (l : List K) (k : ℕ) :
    total w (l.take k) ≤ total w ((desc l).take k) := by
  obtain ⟨σ, s, -, hmono, hown, hdesc⟩ := exists_rearrangement hw hpos l k
  rw [hown, hdesc]
  exact hmono.sum_mul_comp_perm_le_sum_mul

/-- An order has as much there only with the same entries. -/
theorem total_take_eq_iff (hw : StrictAnti w) (hpos : ∀ i, 0 < w i) (l : List K) (k : ℕ) :
    total w (l.take k) = total w ((desc l).take k) ↔ l.take k = (desc l).take k := by
  refine ⟨fun h => ?_, congrArg (total w)⟩
  obtain ⟨σ, s, hget, hmono, hown, hdesc⟩ :=
    exists_rearrangement hw.antitone (fun i => (hpos i).le) l k
  rw [hown, hdesc, hmono.sum_mul_comp_perm_eq_sum_mul_iff, hget] at h
  -- an entry of the first places is at least every later one
  have hlater : ∀ i j (hi : i < l.length) (hj : j < l.length), i < k → i < j → l[j] ≤ l[i] := by
    intro i j hi hj hik hij
    by_contra hlt
    have hle := h (i := ⟨i, hi⟩) (j := ⟨j, hj⟩) (not_le.mp hlt)
    exact absurd (upTo_lt hw hpos hik hij) hle.not_gt
  refine take_eq_take_desc ?_ ?_
  · refine List.pairwise_iff_getElem.mpr fun i j hi hj hij => ?_
    rw [List.getElem_take, List.getElem_take]
    rw [List.length_take] at hi hj
    exact hlater i j (by omega) (by omega) (by omega) hij
  · intro x hx y hy
    obtain ⟨i, hi, rfl⟩ := List.getElem_of_mem hx
    obtain ⟨j, hj, rfl⟩ := List.getElem_of_mem hy
    rw [List.getElem_take, List.getElem_drop]
    rw [List.length_take] at hi
    rw [List.length_drop] at hj
    exact hlater i (k + j) (by omega) (by omega) (by omega) (by omega)

end Rearrangement

end Discounted
