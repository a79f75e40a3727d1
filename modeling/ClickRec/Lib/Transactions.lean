import Mathlib.Tactic

/-! A client that writes in transactions and may be killed. Until it commits, its writes are seen by
itself only; an open transaction of a client that is killed is rolled back. -/
namespace Transactions
set_option autoImplicit false

variable {σ : Type*}

inductive Action (σ : Type*) where
  | write (f : σ → σ)
  | commit

def Action.isCommit : Action σ → Bool
  | .write _ => false
  | .commit => true

/-- What is committed, and what the client sees. -/
structure Connection (σ : Type*) where
  durable : σ
  working : σ

def connect (s : σ) : Connection σ := ⟨s, s⟩

def Connection.step (c : Connection σ) : Action σ → Connection σ
  | .write f => { c with working := f c.working }
  | .commit => { c with durable := c.working }

def Connection.run (c : Connection σ) (actions : List (Action σ)) : Connection σ :=
  actions.foldl Connection.step c

/-- The writes, and the commit after them. -/
def transaction (writes : List (σ → σ)) : List (Action σ) := writes.map .write ++ [.commit]

def apply (writes : List (σ → σ)) (s : σ) : σ := writes.foldl (fun s f => f s) s

/-- What is committed when the client is killed after `n` actions. -/
def killed (actions : List (Action σ)) (n : ℕ) (s : σ) : σ :=
  ((connect s).run (actions.take n)).durable

def completed (actions : List (Action σ)) (s : σ) : σ := ((connect s).run actions).durable

/-- The commits among the first `n` actions. -/
def commits (actions : List (Action σ)) (n : ℕ) : ℕ := (actions.take n).countP Action.isCommit

/-! ## Runs -/

theorem run_append (c : Connection σ) (actions actions' : List (Action σ)) :
    c.run (actions ++ actions') = (c.run actions).run actions' := List.foldl_append

theorem run_writes (c : Connection σ) (writes : List (σ → σ)) :
    c.run (writes.map .write) = { c with working := apply writes c.working } := by
  induction writes generalizing c with
  | nil => rfl
  | cons f writes ih => exact ih _

theorem run_transaction (s : σ) (writes : List (σ → σ)) :
    (connect s).run (transaction writes) = connect (apply writes s) := by
  rw [transaction, run_append, run_writes]
  rfl

theorem length_transaction (writes : List (σ → σ)) : (transaction writes).length = writes.length + 1 := by
  rw [transaction, List.length_append, List.length_map, List.length_singleton]

/-- Before its commit a transaction leaves nothing. -/
theorem take_transaction {writes : List (σ → σ)} {n : ℕ} (h : n ≤ writes.length) :
    (transaction writes).take n = (writes.take n).map .write := by
  rw [transaction, List.take_append_of_le_length (by rwa [List.length_map]), List.map_take]

theorem countP_writes (writes : List (σ → σ)) :
    (writes.map Action.write).countP Action.isCommit = 0 := by
  rw [List.countP_eq_zero]
  rintro action haction
  obtain ⟨f, -, rfl⟩ := List.mem_map.mp haction
  exact Bool.false_ne_true

theorem countP_transaction (writes : List (σ → σ)) :
    (transaction writes).countP Action.isCommit = 1 := by
  rw [transaction, List.countP_append, countP_writes]
  rfl

/-! ## Kills -/

section Kills
variable (writes : List (σ → σ)) (actions : List (Action σ)) (s : σ)

theorem take_of_le {n : ℕ} (h : n ≤ writes.length) :
    (transaction writes ++ actions).take n = (writes.take n).map .write := by
  rw [List.take_append_of_le_length (by rw [length_transaction]; omega), take_transaction h]

theorem take_of_lt {n : ℕ} (h : writes.length < n) : (transaction writes ++ actions).take n =
    transaction writes ++ actions.take (n - (writes.length + 1)) := by
  rw [List.take_append, List.take_of_length_le (by rw [length_transaction]; omega),
    length_transaction]

/-- **A client that is killed leaves the transactions it committed, and nothing of the others.** -/
theorem killed_eq (txns : List (List (σ → σ))) (n : ℕ) (s : σ) :
    killed (txns.flatMap transaction) n s =
      (txns.take (commits (txns.flatMap transaction) n)).foldl (fun s writes => apply writes s) s := by
  induction txns generalizing n s with
  | nil => simp [killed, Connection.run, connect]
  | cons writes txns ih =>
    rw [List.flatMap_cons, killed, commits]
    by_cases h : n ≤ writes.length
    · rw [take_of_le writes _ h, run_writes, countP_writes]
      rfl
    · rw [take_of_lt writes _ (not_le.mp h), run_append, run_transaction, List.countP_append,
        countP_transaction, Nat.add_comm 1, List.take_succ_cons, List.foldl_cons]
      exact ih _ _

theorem completed_eq (txns : List (List (σ → σ))) (s : σ) :
    completed (txns.flatMap transaction) s = txns.foldl (fun s writes => apply writes s) s := by
  induction txns generalizing s with
  | nil => rfl
  | cons writes txns ih =>
    rw [List.flatMap_cons, completed, run_append, run_transaction]
    exact ih _

/-- Killed right after its first commit. -/
theorem killed_after_first :
    killed (transaction writes ++ actions) (writes.length + 1) s = apply writes s := by
  rw [killed, take_of_lt writes actions (Nat.lt_succ_self _), Nat.sub_self, List.take_zero,
    List.append_nil, run_transaction]
  rfl

end Kills

theorem commits_le (txns : List (List (σ → σ))) (n : ℕ) :
    commits (txns.flatMap transaction) n ≤ txns.length := by
  have hall : (txns.flatMap transaction).countP Action.isCommit = txns.length := by
    rw [List.countP_flatMap]
    simp [Function.comp_def, countP_transaction]
  rw [← hall]
  exact (List.take_sublist n _).countP_le

end Transactions
