import Mathlib.Tactic

/-! A loop that sends the elements of a list one by one until a limit of all that was sent is reached or
a send fails. -/
namespace SendLoop
set_option autoImplicit false

variable {ε β : Type} (fails : ℕ → Option ε) (limit : ℕ)

/-- `fails n` is the error of the send after `n` others. -/
def sendAll : List β → List β → Except (ε × List β) (List β)
  | [], sent => .ok sent
  | x :: xs, sent =>
    if limit ≤ sent.length then .ok sent
    else
      match fails sent.length with
      | some e => .error (e, sent)
      | none => sendAll xs (sent ++ [x])

variable {fails limit}

theorem sendAll_of_limit {sent : List β} (h : limit ≤ sent.length) (xs : List β) :
    sendAll fails limit xs sent = .ok sent := by
  cases xs with
  | nil => rfl
  | cons x xs => rw [sendAll, if_pos h]

theorem sendAll_append (xs ys : List β) (sent : List β) :
    sendAll fails limit (xs ++ ys) sent =
      (sendAll fails limit xs sent).bind (sendAll fails limit ys) := by
  induction xs generalizing sent with
  | nil => rfl
  | cons x xs ih =>
    rw [List.cons_append, sendAll, sendAll]
    by_cases h : limit ≤ sent.length
    · rw [if_pos h, if_pos h]
      exact (sendAll_of_limit h ys).symm
    · rw [if_neg h, if_neg h]
      cases fails sent.length with
      | some e => rfl
      | none => exact ih (sent ++ [x])

variable (fails limit) in
/-- The limit cuts the list, or the first failing send does. -/
theorem sendAll_cases (xs sent : List β) :
    ((∀ j < xs.length, sent.length + j < limit → fails (sent.length + j) = none) ∧
      sendAll fails limit xs sent = .ok (sent ++ xs.take (limit - sent.length))) ∨
    ∃ k e, k < xs.length ∧ sent.length + k < limit ∧ fails (sent.length + k) = some e ∧
      (∀ j < k, fails (sent.length + j) = none) ∧
      sendAll fails limit xs sent = .error (e, sent ++ xs.take k) := by
  induction xs generalizing sent with
  | nil =>
    left
    rw [sendAll, List.take_nil, List.append_nil]
    exact ⟨fun j hj => absurd hj (Nat.not_lt_zero j), rfl⟩
  | cons x xs ih =>
    rw [sendAll]
    by_cases h : limit ≤ sent.length
    · left
      rw [if_pos h, Nat.sub_eq_zero_of_le h, List.take_zero, List.append_nil]
      exact ⟨fun j _ hj => by omega, rfl⟩
    · rw [if_neg h]
      cases hfails : fails sent.length with
      | some e =>
        right
        refine ⟨0, e, Nat.succ_pos _, by omega, hfails, fun j hj => absurd hj (Nat.not_lt_zero j), ?_⟩
        rw [List.take_zero, List.append_nil]
      | none =>
        have hlength : (sent ++ [x]).length = sent.length + 1 := by
          rw [List.length_append, List.length_singleton]
        have hnone : ∀ m, (∀ j < m, fails ((sent ++ [x]).length + j) = none) →
            ∀ j < m + 1, fails (sent.length + j) = none := by
          intro m hm j hj
          cases j with
          | zero => exact hfails
          | succ j =>
            have := hm j (by omega)
            rwa [hlength, Nat.add_assoc, Nat.add_comm 1 j] at this
        obtain ⟨hnot, hok⟩ | ⟨k, e, hk, hlimit, he, hbefore, herror⟩ := ih (sent ++ [x])
        · left
          constructor
          · intro j hj hj'
            refine hnone j (fun i hi => hnot i ?_ ?_) j (Nat.lt_succ_self j)
            · exact lt_of_lt_of_le hi (Nat.le_of_lt_succ hj)
            · rw [hlength]
              omega
          · have hroom : limit - sent.length = (limit - (sent.length + 1)) + 1 := by omega
            rw [hroom, List.take_succ_cons]
            simpa only [hlength, List.append_assoc, List.singleton_append] using hok
        · right
          refine ⟨k + 1, e, Nat.succ_lt_succ hk, by omega, ?_, hnone k hbefore, ?_⟩
          · rwa [hlength, Nat.add_assoc, Nat.add_comm 1 k] at he
          · rw [List.take_succ_cons]
            simpa only [List.append_assoc, List.singleton_append] using herror

end SendLoop
