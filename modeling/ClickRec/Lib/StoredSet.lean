import ClickRec.Lib.ScoreMap

/-! A sorted set under its key, with the time at which the key expires. Redis keeps no empty sorted
set: the removal of the last member deletes the key, and its expiry with it. -/
set_option autoImplicit false

variable {K α : Type*} [LinearOrder K] [LinearOrder α]

structure StoredSet (K α : Type*) [LinearOrder K] [LinearOrder α] where
  members : SortedSet K α
  expire_at : Option ℤ
  kept : members.card = 0 → expire_at = none

namespace StoredSet

theorem ext_fields {s t : StoredSet K α} (hmembers : s.members = t.members)
    (hexpire : s.expire_at = t.expire_at) : s = t := by
  cases s
  cases t
  simp_all

def absent : StoredSet K α := ⟨.empty, none, fun _ => rfl⟩

def zrem (s : StoredSet K α) (m : α) : StoredSet K α where
  members := s.members.zrem m
  expire_at := if (s.members.zrem m).card = 0 then none else s.expire_at
  kept h := if_pos h

def zadd (s : StoredSet K α) (m : α) (x : K) : StoredSet K α where
  members := s.members.zadd m x
  expire_at := s.expire_at
  kept h := by
    rw [SortedSet.card, SortedSet.entries_zadd, List.orderedInsert_length] at h
    exact absurd h (Nat.succ_ne_zero _)

/-! ## A member taken out and put back -/

/-- The member is removed and added again with the score it had. -/
def readd (s : StoredSet K α) (m : α) : StoredSet K α :=
  match s.members.zscore m with
  | none => s
  | some x => (s.zrem m).zadd m x

/-- There is no other member. -/
def Sole (s : StoredSet K α) (m : α) : Prop :=
  (s.members.zscore m).isSome ∧ (s.members.zrem m).card = 0

theorem members_readd (s : StoredSet K α) (m : α) : (s.readd m).members = s.members := by
  unfold readd
  cases hscore : s.members.zscore m with
  | none => rfl
  | some x =>
    refine SortedSet.ext_zscore fun n => ?_
    change ((s.members.zrem m).zadd m x).zscore n = s.members.zscore n
    rw [SortedSet.zscore_zadd, SortedSet.zscore_zrem]
    by_cases hn : n = m
    · rw [if_pos hn, hn, hscore]
    · rw [if_neg hn, if_neg hn]

theorem expire_at_readd_of_sole {s : StoredSet K α} {m : α} (h : s.Sole m) :
    (s.readd m).expire_at = none := by
  obtain ⟨x, hx⟩ := Option.isSome_iff_exists.mp h.1
  rw [readd, hx]
  exact if_pos h.2

theorem readd_of_not_sole {s : StoredSet K α} {m : α} (h : ¬ s.Sole m) : s.readd m = s := by
  refine ext_fields (members_readd s m) ?_
  unfold readd
  cases hscore : s.members.zscore m with
  | none => rfl
  | some x => exact if_neg fun hcard => h ⟨by rw [hscore]; rfl, hcard⟩

/-- An expiry that is not there stays so. -/
theorem expire_at_readd_of_none {s : StoredSet K α} (m : α) (h : s.expire_at = none) :
    (s.readd m).expire_at = none := by
  by_cases hsole : s.Sole m
  · exact expire_at_readd_of_sole hsole
  · rw [readd_of_not_sole hsole, h]

/-- Only the expiry can be lost, with the last member. -/
theorem readd_eq_self_iff (s : StoredSet K α) (m : α) :
    s.readd m = s ↔ ¬ (s.Sole m ∧ s.expire_at ≠ none) := by
  constructor
  · rintro h ⟨hsole, hexpire⟩
    exact hexpire (h ▸ expire_at_readd_of_sole hsole)
  · intro h
    by_cases hsole : s.Sole m
    · refine ext_fields (members_readd s m) ?_
      rw [expire_at_readd_of_sole hsole]
      exact (not_not.mp fun hexpire => h ⟨hsole, hexpire⟩).symm
    · exact readd_of_not_sole hsole

end StoredSet
