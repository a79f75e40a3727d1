import Mathlib.Data.List.Nodup
import Mathlib.Data.List.Sort
import Mathlib.Tactic

/-! The first elements of a list sorted by a key, the highest key first and equal keys in the order
of the list. -/
namespace TopK
set_option autoImplicit false
open scoped List

variable {α K : Type*} [LinearOrder K]

/-! ## The order of the elements of a list -/

theorem pair_sublist_or {l : List α} {a b : α} (ha : a ∈ l) (hb : b ∈ l) (hne : a ≠ b) :
    [a, b] <+ l ∨ [b, a] <+ l := by
  induction l with
  | nil => cases ha
  | cons x l ih =>
    obtain rfl | ha' := List.mem_cons.mp ha
    · have hb' : b ∈ l := (List.mem_cons.mp hb).resolve_left hne.symm
      exact .inl ((List.singleton_sublist.mpr hb').cons_cons a)
    · obtain rfl | hb' := List.mem_cons.mp hb
      · exact .inr ((List.singleton_sublist.mpr ha').cons_cons b)
      · exact (ih ha' hb').imp (fun h => h.cons x) fun h => h.cons x

theorem pair_sublist_asymm {l : List α} (hl : l.Nodup) {a b : α} (hab : [a, b] <+ l)
    (hba : [b, a] <+ l) : False := by
  induction l with
  | nil => cases hab
  | cons x l ih =>
    obtain ⟨hx, hl⟩ := List.nodup_cons.mp hl
    cases hab with
    | cons _ hab =>
      cases hba with
      | cons _ hba => exact ih hl hab hba
      | cons_cons _ _ => exact hx (hab.subset (by simp))
    | cons_cons _ hb =>
      cases hba with
      | cons _ hba => exact hx (hba.subset (by simp))
      | cons_cons _ _ => exact hx (List.singleton_sublist.mp hb)

/-- What comes before a taken element is taken. -/
theorem pair_sublist_take {l : List α} (hl : l.Nodup) {a b : α} (h : [a, b] <+ l) {n : ℕ}
    (hb : b ∈ l.take n) : [a, b] <+ l.take n := by
  have hne : a ≠ b := by
    rintro rfl
    exact List.nodup_iff_sublist.mp hl a h
  have ha : a ∈ l.take n := by
    have hmem : a ∈ l.take n ++ l.drop n := by
      rw [List.take_append_drop]
      exact h.subset List.mem_cons_self
    refine (List.mem_append.mp hmem).resolve_right fun hdrop => pair_sublist_asymm hl h ?_
    have hba := (List.singleton_sublist.mpr hb).append (List.singleton_sublist.mpr hdrop)
    rwa [List.take_append_drop] at hba
  refine (pair_sublist_or ha hb hne).resolve_right fun hba => pair_sublist_asymm hl h ?_
  exact hba.trans (List.take_sublist n l)

/-! ## Sorting by a key -/

def sortDesc (key : α → K) (l : List α) : List α := l.insertionSort fun a b => key b ≤ key a

/-- The first element comes before the second: a higher key, or the same key and an earlier place. -/
def Before (key : α → K) (l : List α) (a b : α) : Prop :=
  key b < key a ∨ key a = key b ∧ [a, b] <+ l

variable {key : α → K} {l : List α}

theorem Before.le {a b : α} (h : Before key l a b) : key b ≤ key a := by
  obtain h | ⟨h, -⟩ := h
  · exact h.le
  · exact h.ge

theorem perm_sortDesc (key : α → K) (l : List α) : (sortDesc key l).Perm l :=
  List.perm_insertionSort _ l

/-- Sorting keeps the order of equal keys. -/
theorem pairwise_sortDesc (key : α → K) (hl : l.Nodup) :
    (sortDesc key l).Pairwise (Before key l) := by
  have htrans : IsTrans α fun a b => key b ≤ key a := ⟨fun a b c hab hbc => hbc.trans hab⟩
  have htotal : Std.Total fun a b : α => key b ≤ key a := ⟨fun a b => le_total (key b) (key a)⟩
  have hnodup : (sortDesc key l).Nodup := (perm_sortDesc key l).nodup_iff.mpr hl
  have hsorted := List.pairwise_insertionSort (fun a b : α => key b ≤ key a) l
  refine List.pairwise_iff_forall_sublist.mpr fun {a b} hab => ?_
  have hle : key b ≤ key a := List.pairwise_iff_forall_sublist.mp hsorted hab
  obtain hlt | heq := hle.lt_or_eq
  · exact .inl hlt
  · have hne : a ≠ b := by
      rintro rfl
      exact (List.nodup_iff_sublist.mp hnodup a) hab
    have ha : a ∈ l := (perm_sortDesc key l).mem_iff.mp (hab.subset (by simp))
    have hb : b ∈ l := (perm_sortDesc key l).mem_iff.mp (hab.subset (by simp))
    refine .inr ⟨heq.symm, (pair_sublist_or ha hb hne).resolve_right fun hba => ?_⟩
    exact pair_sublist_asymm hnodup hab
      (List.pair_sublist_insertionSort (r := fun a b : α => key b ≤ key a) heq.ge hba)

theorem Before.asymm (hl : l.Nodup) {a b : α} (hab : Before key l a b) (hba : Before key l b a) :
    False := by
  obtain hlt | ⟨heq, hab⟩ := hab
  · exact absurd hba.le (not_le.mpr hlt)
  · obtain hlt | ⟨-, hba⟩ := hba
    · exact hlt.ne heq
    · exact pair_sublist_asymm hl hab hba

/-- There is one list of these elements in this order. -/
theorem eq_sortDesc (hl : l.Nodup) {t : List α} (hperm : t.Perm l) (ht : t.Pairwise (Before key l)) :
    t = sortDesc key l :=
  (hperm.trans (perm_sortDesc key l).symm).eq_of_pairwise
    (fun _ _ _ _ hab hba => (hab.asymm hl hba).elim) ht (pairwise_sortDesc key hl)

/-! ## The first elements -/

/-- These are the `k` elements that come first, in order. -/
structure Is (key : α → K) (l : List α) (k : ℕ) (picked : List α) : Prop where
  length : picked.length = min k l.length
  subset : ∀ a ∈ picked, a ∈ l
  nodup : picked.Nodup
  order : picked.Pairwise (Before key l)
  omitted : ∀ a ∈ l, a ∉ picked → ∀ b ∈ picked, Before key l b a

theorem is_take (key : α → K) (hl : l.Nodup) (k : ℕ) : Is key l k ((sortDesc key l).take k) where
  length := by rw [List.length_take, (perm_sortDesc key l).length_eq]
  subset a ha := (perm_sortDesc key l).mem_iff.mp (List.mem_of_mem_take ha)
  nodup := ((perm_sortDesc key l).nodup_iff.mpr hl).sublist (List.take_sublist k _)
  order := (pairwise_sortDesc key hl).sublist (List.take_sublist k _)
  omitted a ha hnot b hb := by
    have hsplit := pairwise_sortDesc key hl
    rw [← List.take_append_drop k (sortDesc key l), List.pairwise_append] at hsplit
    have hsorted : a ∈ sortDesc key l := (perm_sortDesc key l).mem_iff.mpr ha
    rw [← List.take_append_drop k (sortDesc key l), List.mem_append] at hsorted
    exact hsplit.2.2 b hb a (hsorted.resolve_left hnot)

/-- What comes before a picked element is picked, before it. -/
theorem Is.pair_sublist {k : ℕ} {picked : List α} (h : Is key l k picked) (hl : l.Nodup) {a b : α}
    (hab : Before key l a b) (ha : a ∈ l) (hb : b ∈ picked) : [a, b] <+ picked := by
  have hpicked : a ∈ picked := by
    by_contra hnot
    exact hab.asymm hl (h.omitted a ha hnot b hb)
  have hne : a ≠ b := by
    rintro rfl
    exact hab.asymm hl hab
  refine (pair_sublist_or hpicked hb hne).resolve_right fun hba => hab.asymm hl ?_
  exact List.pairwise_iff_forall_sublist.mp h.order hba

/-- Keys in another type of elements. -/
theorem map_sortDesc {β : Type*} (f : β → α) (key : α → K) (l : List β) :
    (sortDesc (fun b => key (f b)) l).map f = sortDesc key (l.map f) :=
  List.map_insertionSort _ _ f l fun _ _ _ _ => Iff.rfl

end TopK
