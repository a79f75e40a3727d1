import Mathlib.Tactic

/-! A value that is built at most once, under a lock: whoever takes the lock looks for the value first,
and builds it only when there is none. The builder may fail, and the next holder builds again. -/
namespace Once
set_option autoImplicit false

/-- The value, the holder of the lock, and how many builds were begun and given up. -/
structure Cell (ι V : Type*) where
  value : Option V
  holder : Option ι
  begun : ℕ
  aborted : ℕ

variable {ι V L : Type*}

namespace Cell

def empty : Cell ι V := ⟨none, none, 0, 0⟩

/-- Taking the lock, which waits while it is held: the value, or `none` for the one that builds it. -/
def enter (o : Cell ι V) (i : ι) : Option (Cell ι V × Option V) :=
  match o.holder with
  | some _ => none
  | none =>
    match o.value with
    | some v => some (o, some v)
    | none => some ({ o with holder := some i, begun := o.begun + 1 }, none)

def publish (o : Cell ι V) (v : V) : Cell ι V := { o with value := some v, holder := none }

def abort (o : Cell ι V) : Cell ι V := { o with holder := none, aborted := o.aborted + 1 }

/-- Entering finds the value, or takes the lock of a cell without one. -/
theorem enter_cases {o o' : Cell ι V} {i : ι} {r : Option V} (h : o.enter i = some (o', r)) :
    o.holder = none ∧ ((∃ v, o.value = some v ∧ r = some v ∧ o' = o) ∨
      (o.value = none ∧ r = none ∧ o' = { o with holder := some i, begun := o.begun + 1 })) := by
  unfold enter at h
  split at h
  · cases h
  · rename_i hfree
    refine ⟨hfree, ?_⟩
    split at h
    · rename_i v hv
      obtain ⟨rfl, rfl⟩ := Prod.mk.inj (Option.some.inj h)
      exact .inl ⟨v, hv, rfl, rfl⟩
    · rename_i hv
      obtain ⟨rfl, rfl⟩ := Prod.mk.inj (Option.some.inj h)
      exact .inr ⟨hv, rfl, rfl⟩

end Cell

/-! ## Processes around the cell -/

variable (builds : L → Prop) (sees : L → Option V)

/-- The holder is the one process that builds, nobody builds once there is a value, all who have seen a
value have seen this one, and every build but the last was given up. -/
structure Inv (o : Cell ι V) (locals : ι → L) : Prop where
  holder : ∀ i, o.holder = some i ↔ builds (locals i)
  unset : o.holder ≠ none → o.value = none
  seen : ∀ i v, sees (locals i) = some v → o.value = some v
  count : o.begun = o.aborted + if o.holder.isSome ∨ o.value.isSome then 1 else 0

variable {builds sees} {o o' : Cell ι V} {locals locals' : ι → L} {i : ι} {l : L}

theorem Inv.start (hbuilds : ¬ builds l) (hsees : sees l = none) :
    Inv builds sees (Cell.empty : Cell ι V) fun _ => l where
  holder i := iff_of_false nofun hbuilds
  unset h := absurd rfl h
  seen i v h := by
    rw [hsees] at h
    cases h
  count := rfl

theorem Inv.exclusive (h : Inv builds sees o locals) {j : ι} (hi : builds (locals i))
    (hj : builds (locals j)) : i = j :=
  Option.some.inj (((h.holder i).mpr hi).symm.trans ((h.holder j).mpr hj))

/-- A process moves away from the cell. -/
theorem Inv.stay (h : Inv builds sees o locals) (hmoved : locals' i = l)
    (hframe : ∀ j, j ≠ i → locals' j = locals j) (hbuilds : builds l ↔ builds (locals i))
    (hsees : ∀ v, sees l = some v → o.value = some v) : Inv builds sees o locals' where
  holder j := by
    by_cases hj : j = i
    · rw [hj, hmoved, hbuilds]
      exact h.holder i
    · rw [hframe j hj]
      exact h.holder j
  unset := h.unset
  seen j v hv := by
    by_cases hj : j = i
    · rw [hj, hmoved] at hv
      exact hsees v hv
    · rw [hframe j hj] at hv
      exact h.seen j v hv
  count := h.count

theorem Inv.enter (h : Inv builds sees o locals) {r : Option V} (henter : o.enter i = some (o', r))
    (hmoved : locals' i = l) (hframe : ∀ j, j ≠ i → locals' j = locals j)
    (hbuilds : builds l ↔ r = none) (hsees : sees l = r) : Inv builds sees o' locals' := by
  obtain ⟨hfree, ⟨v, hv, rfl, rfl⟩ | ⟨hv, rfl, rfl⟩⟩ := Cell.enter_cases henter
  · refine h.stay hmoved hframe ?_ fun w hw => hv.trans (hsees.symm.trans hw)
    rw [hbuilds, ← h.holder i, hfree]
    exact iff_of_false nofun nofun
  · refine ⟨fun j => ?_, fun _ => hv, fun j w hw => ?_, ?_⟩
    · by_cases hj : j = i
      · rw [hj, hmoved]
        exact iff_of_true rfl (hbuilds.mpr rfl)
      · rw [hframe j hj, ← h.holder j, hfree]
        exact iff_of_false (fun heq => hj (Option.some.inj heq).symm) nofun
    · by_cases hj : j = i
      · rw [hj, hmoved, hsees] at hw
        cases hw
      · rw [hframe j hj] at hw
        exact h.seen j w hw
    · have hcount := h.count
      simp only [hfree, hv, Option.isSome_none, Bool.false_eq_true, or_self, if_false] at hcount
      simp [hcount]

/-- The builder releases the lock, with a value or without. -/
theorem Inv.release (h : Inv builds sees o locals) (hi : builds (locals i)) (hmoved : locals' i = l)
    (hframe : ∀ j, j ≠ i → locals' j = locals j) (hbuilds : ¬ builds l) :
    ∀ j, (none : Option ι) = some j ↔ builds (locals' j) := by
  intro j
  refine iff_of_false nofun ?_
  by_cases hj : j = i
  · rw [hj, hmoved]
    exact hbuilds
  · rw [hframe j hj]
    exact fun hb => hj (h.exclusive hb hi)

theorem Inv.holds (h : Inv builds sees o locals) (hi : builds (locals i)) :
    o.holder = some i ∧ o.value = none := by
  have hholder := (h.holder i).mpr hi
  exact ⟨hholder, h.unset (hholder ▸ nofun)⟩

theorem Inv.publish (h : Inv builds sees o locals) (hi : builds (locals i)) {v : V}
    (hmoved : locals' i = l) (hframe : ∀ j, j ≠ i → locals' j = locals j) (hbuilds : ¬ builds l)
    (hsees : sees l = some v) : Inv builds sees (o.publish v) locals' where
  holder := h.release hi hmoved hframe hbuilds
  unset hheld := absurd rfl hheld
  seen j w hw := by
    by_cases hj : j = i
    · rw [hj, hmoved, hsees] at hw
      exact hw
    · rw [hframe j hj] at hw
      have hnone := (h.holds hi).2
      rw [h.seen j w hw] at hnone
      cases hnone
  count := by
    have hcount := h.count
    simp only [(h.holds hi).1, Option.isSome_some, true_or, if_true] at hcount
    simp [Cell.publish, hcount]

theorem Inv.abort (h : Inv builds sees o locals) (hi : builds (locals i)) (hmoved : locals' i = l)
    (hframe : ∀ j, j ≠ i → locals' j = locals j) (hbuilds : ¬ builds l) (hsees : sees l = none) :
    Inv builds sees o.abort locals' where
  holder := h.release hi hmoved hframe hbuilds
  unset hheld := absurd rfl hheld
  seen j w hw := by
    by_cases hj : j = i
    · rw [hj, hmoved, hsees] at hw
      cases hw
    · rw [hframe j hj] at hw
      exact h.seen j w hw
  count := by
    have hcount := h.count
    simp only [(h.holds hi).1, Option.isSome_some, true_or, if_true] at hcount
    simp [Cell.abort, hcount, (h.holds hi).2]

/-- A cell without a value has its lock free, or a builder who can go on. -/
theorem Inv.free_or_held (h : Inv builds sees o locals) :
    (o.enter i).isSome ∨ ∃ j, builds (locals j) := by
  cases hheld : o.holder with
  | none =>
    left
    unfold Cell.enter
    rw [hheld]
    cases o.value with
    | none => rfl
    | some v => rfl
  | some j => exact .inr ⟨j, (h.holder j).mp hheld⟩

end Once
