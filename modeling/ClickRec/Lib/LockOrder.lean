import Mathlib.Data.Fintype.Lattice
import Mathlib.Logic.Function.Basic
import Mathlib.Logic.Relation
import Mathlib.Tactic

/-! Clients that lock resources one after the other and release all of them when they are done. When
all take them in one order, no set of clients can wait for each other. -/
namespace LockOrder
set_option autoImplicit false

variable {ι ρ : Type*}

/-- What a client holds, and what it has still to lock, the next first. -/
structure Client (ρ : Type*) where
  held : List ρ
  todo : List ρ

namespace Client

def start (todo : List ρ) : Client ρ := ⟨[], todo⟩

def locked (c : Client ρ) (r : ρ) (rest : List ρ) : Client ρ := ⟨c.held ++ [r], rest⟩

def released : Client ρ := ⟨[], []⟩

end Client

section Steps
variable [DecidableEq ι]

/-- A resource is locked when no other client holds it; all are released after the last one. -/
inductive Step : (ι → Client ρ) → (ι → Client ρ) → Prop
  | lock {s : ι → Client ρ} {i : ι} {r : ρ} {rest : List ρ} (htodo : (s i).todo = r :: rest)
    (hfree : ∀ j ≠ i, r ∉ (s j).held) : Step s (Function.update s i ((s i).locked r rest))
  | release {s : ι → Client ρ} {i : ι} (htodo : (s i).todo = []) (hheld : (s i).held ≠ []) :
    Step s (Function.update s i .released)

abbrev Reaches : (ι → Client ρ) → (ι → Client ρ) → Prop := Relation.ReflTransGen Step

/-- Everything a client locks until it releases, in its order. -/
def Ordered [LT ρ] (s : ι → Client ρ) : Prop :=
  ∀ i, ((s i).held ++ (s i).todo).Pairwise (· < ·)

omit [DecidableEq ι] in
theorem ordered_start [LT ρ] {todo : ι → List ρ} (h : ∀ i, (todo i).Pairwise (· < ·)) :
    Ordered fun i => Client.start (todo i) := h

theorem ordered_step [LT ρ] {s s' : ι → Client ρ} (h : Ordered s) (hstep : Step s s') :
    Ordered s' := by
  intro j
  cases hstep with
  | @lock i r rest htodo hfree =>
    obtain rfl | hj := eq_or_ne j i
    · have hordered := h j
      rw [htodo] at hordered
      rw [Function.update_self]
      simpa [Client.locked] using hordered
    · rw [Function.update_of_ne hj]
      exact h j
  | @release i htodo hheld =>
    obtain rfl | hj := eq_or_ne j i
    · rw [Function.update_self]
      exact List.Pairwise.nil
    · rw [Function.update_of_ne hj]
      exact h j

theorem ordered_reaches [LT ρ] {s s' : ι → Client ρ} (h : Ordered s) (hrun : Reaches s s') :
    Ordered s' := by
  induction hrun with
  | refl => exact h
  | tail _ hstep ih => exact ordered_step ih hstep

/-- Of the clients that wait, the one that waits for the greatest resource can go on. -/
theorem exists_step [Finite ι] [LinearOrder ρ] {s : ι → Client ρ} (h : Ordered s)
    (hbusy : ∃ i, (s i).todo ≠ []) : ∃ s', Step s s' := by
  by_cases hdone : ∃ i, (s i).todo = [] ∧ (s i).held ≠ []
  · obtain ⟨i, htodo, hheld⟩ := hdone
    exact ⟨_, .release htodo hheld⟩
  · let next : Set ρ := {r | ∃ i rest, (s i).todo = r :: rest}
    have hfinite : next.Finite := by
      refine ((Set.finite_range fun i => (s i).todo.head?).preimage
        (Option.some_injective ρ).injOn).subset ?_
      rintro r ⟨i, rest, htodo⟩
      exact ⟨i, congrArg List.head? htodo⟩
    have hne : next.Nonempty := by
      obtain ⟨i, hi⟩ := hbusy
      obtain ⟨r, rest, htodo⟩ := List.exists_cons_of_ne_nil hi
      exact ⟨r, i, rest, htodo⟩
    obtain ⟨r, ⟨i, rest, htodo⟩, hmax⟩ := Set.exists_max_image next id hfinite hne
    by_cases hfree : ∀ j ≠ i, r ∉ (s j).held
    · exact ⟨_, .lock htodo hfree⟩
    · push Not at hfree
      obtain ⟨j, -, hheld⟩ := hfree
      -- the holder waits for a resource greater than `r`
      have hbusy : (s j).todo ≠ [] := fun hnone => hdone ⟨j, hnone, List.ne_nil_of_mem hheld⟩
      obtain ⟨r', rest', htodo'⟩ := List.exists_cons_of_ne_nil hbusy
      have hlt : r < r' :=
        (List.pairwise_append.mp (h j)).2.2 r hheld r' (htodo' ▸ List.mem_cons_self)
      exact absurd (hmax r' ⟨j, rest', htodo'⟩) (not_le.mpr hlt)

/-- **No deadlock.** Where clients lock in one order, a run goes on until all of them are done. -/
theorem no_deadlock [Finite ι] [LinearOrder ρ] {todo : ι → List ρ}
    (h : ∀ i, (todo i).Pairwise (· < ·)) {s : ι → Client ρ}
    (hrun : Reaches (fun i => Client.start (todo i)) s) :
    (∀ i, s i = .released) ∨ ∃ s', Step s s' := by
  have hordered : Ordered s := ordered_reaches (ordered_start h) hrun
  by_cases hbusy : ∃ i, (s i).todo ≠ []
  · exact .inr (exists_step hordered hbusy)
  · push Not at hbusy
    by_cases hheld : ∃ i, (s i).held ≠ []
    · obtain ⟨i, hi⟩ := hheld
      exact .inr ⟨_, .release (hbusy i) hi⟩
    · push Not at hheld
      refine .inl fun i => ?_
      have hi : s i = ⟨(s i).held, (s i).todo⟩ := rfl
      rw [hi, hheld i, hbusy i]
      rfl

end Steps

end LockOrder
