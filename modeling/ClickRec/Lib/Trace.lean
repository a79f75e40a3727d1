import Mathlib.Logic.Function.Basic
import Mathlib.Tactic

/-! Executions of a partial step function: the state after a trace, conditions on the steps taken
along it, the invariant rule, and processes that take turns over one shared state. -/
namespace Trace
set_option autoImplicit false

variable {σ α : Type*}

/-! ## Executions -/

/-- The state after the actions of a trace, in order; `none` once an action is not enabled. -/
def exec (step : σ → α → Option σ) : σ → List α → Option σ
  | s, [] => some s
  | s, a :: as => (step s a).bind fun t => exec step t as

@[simp] theorem exec_nil (step : σ → α → Option σ) (s : σ) : exec step s [] = some s := rfl

theorem exec_cons {step : σ → α → Option σ} {s u : σ} {a : α} {as : List α} :
    exec step s (a :: as) = some u ↔ ∃ t, step s a = some t ∧ exec step t as = some u := by
  simp [exec, Option.bind_eq_some_iff]

theorem exec_append {step : σ → α → Option σ} {s u : σ} {as bs : List α} :
    exec step s (as ++ bs) = some u ↔ ∃ t, exec step s as = some t ∧ exec step t bs = some u := by
  induction as generalizing s with
  | nil => simp
  | cons a as ih =>
    simp only [List.cons_append, exec_cons, ih]
    constructor
    · rintro ⟨t, ht, v, hv, hu⟩
      exact ⟨v, ⟨t, ht, hv⟩, hu⟩
    · rintro ⟨v, ⟨t, ht, hv⟩, hu⟩
      exact ⟨t, ht, v, hv, hu⟩

theorem exec_concat {step : σ → α → Option σ} {s u : σ} {a : α} {as : List α} :
    exec step s (as ++ [a]) = some u ↔ ∃ t, exec step s as = some t ∧ step t a = some u := by
  simp [exec_append, exec_cons]

/-- **The rule for properties of a trace and its end.** -/
theorem exec_concat_induction {step : σ → α → Option σ} {I : List α → σ → Prop} {s : σ}
    (hnil : I [] s)
    (hstep : ∀ as t a u, exec step s as = some t → I as t → step t a = some u → I (as ++ [a]) u)
    {as : List α} {u : σ} (hu : exec step s as = some u) : I as u := by
  induction as using List.reverseRecOn generalizing u with
  | nil =>
    obtain rfl : s = u := by simpa using hu
    exact hnil
  | append_singleton as a ih =>
    obtain ⟨t, ht, ha⟩ := exec_concat.mp hu
    exact hstep as t a u ht (ih ht) ha

/-- Some trace leads from one state to the other. -/
def Reaches (step : σ → α → Option σ) (s u : σ) : Prop := ∃ as, exec step s as = some u

theorem Reaches.refl {step : σ → α → Option σ} (s : σ) : Reaches step s s := ⟨[], rfl⟩

theorem Reaches.head {step : σ → α → Option σ} {s t u : σ} (a : α) (h : step s a = some t)
    (hu : Reaches step t u) : Reaches step s u := by
  obtain ⟨as, has⟩ := hu
  exact ⟨a :: as, exec_cons.mpr ⟨t, h, has⟩⟩

theorem Reaches.single {step : σ → α → Option σ} {s t : σ} (a : α) (h : step s a = some t) :
    Reaches step s t := .head a h (.refl t)

theorem Reaches.trans {step : σ → α → Option σ} {s t u : σ} (h : Reaches step s t)
    (hu : Reaches step t u) : Reaches step s u := by
  obtain ⟨as, has⟩ := h
  obtain ⟨bs, hbs⟩ := hu
  exact ⟨as ++ bs, exec_append.mpr ⟨t, has, hbs⟩⟩

/-! ## Conditions on the steps of an execution -/

/-- Every action of the trace meets `C` in the state it is taken in. -/
def Along (step : σ → α → Option σ) (C : σ → α → Prop) : σ → List α → Prop
  | _, [] => True
  | s, a :: as => C s a ∧ match step s a with
    | none => True
    | some t => Along step C t as

instance decidableAlong (step : σ → α → Option σ) (C : σ → α → Prop) [∀ s a, Decidable (C s a)] :
    ∀ s as, Decidable (Along step C s as)
  | _, [] => isTrue trivial
  | s, a :: as => by
      unfold Along
      cases step s a with
      | none => exact inferInstanceAs (Decidable (C s a ∧ True))
      | some t =>
        have : Decidable (Along step C t as) := decidableAlong step C t as
        exact inferInstanceAs (Decidable (C s a ∧ Along step C t as))

theorem Along.head {step : σ → α → Option σ} {C : σ → α → Prop} {s : σ} {a : α} {as : List α}
    (h : Along step C s (a :: as)) : C s a := h.1

theorem Along.tail {step : σ → α → Option σ} {C : σ → α → Prop} {s t : σ} {a : α} {as : List α}
    (h : Along step C s (a :: as)) (ht : step s a = some t) : Along step C t as := by
  have h2 := h.2
  rw [ht] at h2
  exact h2

theorem along_cons {step : σ → α → Option σ} {C : σ → α → Prop} {s t : σ} {a : α} {as : List α}
    (ht : step s a = some t) : Along step C s (a :: as) ↔ C s a ∧ Along step C t as :=
  ⟨fun h => ⟨h.head, h.tail ht⟩, fun h => ⟨h.1, by rw [ht]; exact h.2⟩⟩

theorem along_append {step : σ → α → Option σ} {C : σ → α → Prop} {s t : σ} {as bs : List α}
    (h : exec step s as = some t) :
    Along step C s (as ++ bs) ↔ Along step C s as ∧ Along step C t bs := by
  induction as generalizing s with
  | nil =>
    obtain rfl : s = t := by simpa using h
    simp [Along]
  | cons a as ih =>
    obtain ⟨u, hu, hrest⟩ := exec_cons.mp h
    rw [List.cons_append, along_cons hu, along_cons hu, ih hrest, and_assoc]

theorem along_of_mem {step : σ → α → Option σ} {P : α → Prop} {s : σ} {as : List α}
    (hP : ∀ a ∈ as, P a) : Along step (fun _ a => P a) s as := by
  induction as generalizing s with
  | nil => trivial
  | cons a as ih =>
    refine ⟨hP a List.mem_cons_self, ?_⟩
    cases step s a with
    | none => trivial
    | some t => exact ih fun b hb => hP b (List.mem_cons_of_mem a hb)

theorem along_and {step : σ → α → Option σ} {C D : σ → α → Prop} {s : σ} {as : List α}
    (hC : Along step C s as) (hD : Along step D s as) :
    Along step (fun s a => C s a ∧ D s a) s as := by
  induction as generalizing s with
  | nil => trivial
  | cons a as ih =>
    refine ⟨⟨hC.head, hD.head⟩, ?_⟩
    cases ht : step s a with
    | none => trivial
    | some t => exact ih (hC.tail ht) (hD.tail ht)

theorem along_and_mem {step : σ → α → Option σ} {P : α → Prop} {C : σ → α → Prop} {s : σ}
    {as : List α} (hP : ∀ a ∈ as, P a) (hC : Along step C s as) :
    Along step (fun s a => P a ∧ C s a) s as :=
  along_and (along_of_mem hP) hC

/-- **The invariant rule.** What every step meeting `C` preserves holds after every trace along
which all steps meet `C`. -/
theorem exec_invariant {step : σ → α → Option σ} {C : σ → α → Prop} {I : σ → Prop}
    (hstep : ∀ s a t, I s → C s a → step s a = some t → I t) :
    ∀ {as : List α} {s u : σ}, Along step C s as → exec step s as = some u → I s → I u
  | [], s, u, _, hu, hI => by
      have hsu : s = u := by simpa using hu
      exact hsu ▸ hI
  | a :: as, s, u, hC, hu, hI => by
      obtain ⟨t, ht, hu⟩ := exec_cons.mp hu
      exact exec_invariant hstep (hC.tail ht) hu (hstep s a t hI hC.head ht)

/-- The invariant rule without a condition on the steps. -/
theorem exec_preserves {step : σ → α → Option σ} {I : σ → Prop}
    (hstep : ∀ s a t, I s → step s a = some t → I t) {as : List α} {s u : σ}
    (hu : exec step s as = some u) (hI : I s) : I u := by
  induction as generalizing s with
  | nil =>
    have hsu : s = u := by simpa using hu
    exact hsu ▸ hI
  | cons a as ih =>
    obtain ⟨t, ht, hu⟩ := exec_cons.mp hu
    exact ih hu (hstep s a t hI ht)

/-- An execution with a step against `C` splits at the first such step. -/
theorem exists_step_of_not_along {step : σ → α → Option σ} {C : σ → α → Prop} :
    ∀ {as : List α} {s u : σ}, exec step s as = some u → ¬ Along step C s as →
      ∃ pre a post v w, as = pre ++ a :: post ∧ exec step s pre = some v ∧ ¬ C v a ∧
        step v a = some w ∧ exec step w post = some u
  | [], _, _, _, hC => absurd trivial hC
  | a :: as, s, u, hu, hC => by
      obtain ⟨t, ht, hu⟩ := exec_cons.mp hu
      by_cases ha : C s a
      · have hC' : ¬ Along step C t as := fun h => hC ((along_cons ht).mpr ⟨ha, h⟩)
        obtain ⟨pre, b, post, v, w, rfl, hv, hb, hw, hpost⟩ := exists_step_of_not_along hu hC'
        exact ⟨a :: pre, b, post, v, w, rfl, exec_cons.mpr ⟨t, ht, hv⟩, hb, hw, hpost⟩
      · exact ⟨[], a, as, s, t, rfl, rfl, ha, ht, hu⟩

/-- A quantity that only grows stays within a bound exactly when no step is against `C`, where a
step meeting `C` keeps it within the bound and one against `C` takes it past. -/
theorem exec_le_iff_along {step : σ → α → Option σ} {C : σ → α → Prop} {I : σ → Prop} {f : σ → ℕ}
    {bound : ℕ} (hstep : ∀ s a t, I s → step s a = some t → I t)
    (hgrows : ∀ s a t, I s → step s a = some t → f s ≤ f t)
    (hwithin : ∀ s a t, I s → C s a → step s a = some t → f s ≤ bound → f t ≤ bound)
    (hpast : ∀ s a t, I s → ¬ C s a → step s a = some t → bound < f t) {as : List α} {s u : σ}
    (hu : exec step s as = some u) (hI : I s) (hs : f s ≤ bound) :
    f u ≤ bound ↔ Along step C s as := by
  constructor
  · intro hle
    by_contra hnot
    obtain ⟨pre, a, post, v, w, rfl, hv, ha, hw, hpost⟩ := exists_step_of_not_along hu hnot
    have hIv : I v := exec_preserves hstep hv hI
    have hgrown : I u ∧ f w ≤ f u := exec_preserves (I := fun x => I x ∧ f w ≤ f x)
      (fun x b y hx hy => ⟨hstep x b y hx.1 hy, hx.2.trans (hgrows x b y hx.1 hy)⟩) hpost
      ⟨hstep v a w hIv hw, le_rfl⟩
    have := hpast v a w hIv ha hw
    omega
  · intro hC
    exact (exec_invariant (I := fun x => I x ∧ f x ≤ bound)
      (fun x b y hx hC hy => ⟨hstep x b y hx.1 hy, hwithin x b y hx.1 hC hy hx.2⟩) hC hu ⟨hI, hs⟩).2

/-! ## Counting steps -/

/-- How many actions of the trace meet `C` in the state they are taken in. -/
def countAlong (step : σ → α → Option σ) (C : σ → α → Prop) [∀ s a, Decidable (C s a)] :
    σ → List α → ℕ
  | _, [] => 0
  | s, a :: as => (if C s a then 1 else 0) + match step s a with
    | none => 0
    | some t => countAlong step C t as

theorem countAlong_concat {step : σ → α → Option σ} {C : σ → α → Prop} [∀ s a, Decidable (C s a)]
    {s t : σ} {a : α} {as : List α} (h : exec step s as = some t) :
    countAlong step C s (as ++ [a]) = countAlong step C s as + if C t a then 1 else 0 := by
  induction as generalizing s with
  | nil =>
    obtain rfl : s = t := by simpa using h
    simp only [List.nil_append, countAlong]
    cases step s a <;> simp
  | cons b as ih =>
    obtain ⟨u, hu, hrest⟩ := exec_cons.mp h
    simp only [List.cons_append, countAlong, hu, ih hrest, add_assoc]

/-! ## History variables -/

section History
variable {η : Type*} (step : σ → α → Option σ) (update : σ → α → σ → η → η)

/-- The step function over states with a history that every step updates. -/
def withHistory (x : σ × η) (a : α) : Option (σ × η) :=
  (step x.1 a).map fun t => (t, update x.1 a t x.2)

variable {step update}

theorem withHistory_eq_some {x y : σ × η} {a : α} : withHistory step update x a = some y ↔
    step x.1 a = some y.1 ∧ y.2 = update x.1 a y.1 x.2 := by
  rw [withHistory, Option.map_eq_some_iff]
  constructor
  · rintro ⟨t, ht, rfl⟩
    exact ⟨ht, rfl⟩
  · rintro ⟨ht, hh⟩
    exact ⟨y.1, ht, by rw [← hh]⟩

/-- A history changes nothing about the executions. -/
theorem exec_withHistory {s u : σ} {h : η} {as : List α} :
    (∃ h', exec (withHistory step update) (s, h) as = some (u, h')) ↔ exec step s as = some u := by
  induction as generalizing s h with
  | nil => simp
  | cons a as ih =>
    constructor
    · rintro ⟨h', hrun⟩
      obtain ⟨x, hx, hrest⟩ := exec_cons.mp hrun
      exact exec_cons.mpr ⟨x.1, (withHistory_eq_some.mp hx).1, ih.mp ⟨h', hrest⟩⟩
    · intro hrun
      obtain ⟨t, ht, hrest⟩ := exec_cons.mp hrun
      obtain ⟨h', hh'⟩ := (ih (h := update s a t h)).mpr hrest
      exact ⟨h', exec_cons.mpr ⟨(t, update s a t h), withHistory_eq_some.mpr ⟨ht, rfl⟩, hh'⟩⟩

/-- A condition on the steps that follows from one on the steps with their history. -/
theorem along_of_withHistory {I : σ × η → Prop} {C : σ × η → α → Prop} {D : σ → α → Prop}
    (hstep : ∀ x a y, I x → C x a → withHistory step update x a = some y → I y)
    (hcond : ∀ x a, I x → C x a → D x.1 a) :
    ∀ {as : List α} {x : σ × η}, I x → Along (withHistory step update) C x as → Along step D x.1 as
  | [], _, _, _ => trivial
  | a :: as, x, hI, hC => by
      cases ht : step x.1 a with
      | none => exact ⟨hcond x a hI hC.head, by simp [ht]⟩
      | some t =>
        have hx : withHistory step update x a = some (t, update x.1 a t x.2) :=
          withHistory_eq_some.mpr ⟨ht, rfl⟩
        refine (along_cons ht).mpr ⟨hcond x a hI hC.head, ?_⟩
        exact along_of_withHistory hstep hcond (hstep x a _ hI hC.head hx) (hC.tail hx)

end History

/-! ## Processes over a shared state -/

/-- A shared state and one local state for each process. -/
structure Config (ι S L : Type*) where
  shared : S
  locals : ι → L

/-- An action of one process, or of the environment on the shared state. -/
inductive Act (ι A E : Type*) where
  | proc (i : ι) (a : A)
  | env (e : E)
  deriving DecidableEq

section Interleaving
variable {ι S L A E : Type*} [DecidableEq ι]

/-- One turn of one process, or of the environment. A process sees the shared state and its own
local state only. -/
def turn (proc : ι → S → L → A → Option (S × L)) (env : S → E → Option S) (c : Config ι S L) :
    Act ι A E → Option (Config ι S L)
  | .proc i a => (proc i c.shared (c.locals i) a).map fun r => ⟨r.1, Function.update c.locals i r.2⟩
  | .env e => (env c.shared e).map fun r => ⟨r, c.locals⟩

variable {proc : ι → S → L → A → Option (S × L)} {env : S → E → Option S} {c d : Config ι S L}

theorem turn_proc {i : ι} {a : A} (h : turn proc env c (.proc i a) = some d) :
    ∃ s l, proc i c.shared (c.locals i) a = some (s, l) ∧
      d.shared = s ∧ d.locals i = l ∧ ∀ j, j ≠ i → d.locals j = c.locals j := by
  obtain ⟨⟨s, l⟩, hr, rfl⟩ := Option.map_eq_some_iff.mp h
  exact ⟨s, l, hr, rfl, by simp, fun j hj => by simp [hj]⟩

theorem turn_env {e : E} (h : turn proc env c (.env e) = some d) :
    env c.shared e = some d.shared ∧ d.locals = c.locals := by
  obtain ⟨s, hr, rfl⟩ := Option.map_eq_some_iff.mp h
  exact ⟨hr, rfl⟩

omit [DecidableEq ι] in
/-- What holds of every process still does when it holds of the one that moved. -/
theorem forall_locals {P : ι → L → Prop} {i : ι} {l : L} (hmoved : d.locals i = l)
    (hframe : ∀ j, j ≠ i → d.locals j = c.locals j) (hl : P i l) (h : ∀ j, P j (c.locals j)) :
    ∀ j, P j (d.locals j) := by
  intro j
  by_cases hj : j = i
  · rw [hj, hmoved]
    exact hl
  · rw [hframe j hj]
    exact h j

/-- The steps of process `i` when no other process and no environment interferes. -/
def solo (proc : ι → S → L → A → Option (S × L)) (i : ι) (x : S × L) (a : A) : Option (S × L) :=
  proc i x.1 x.2 a

theorem exec_solo {i : ι} {as : List A} {s : S} {l : L}
    (h : exec (solo proc i) (c.shared, c.locals i) as = some (s, l)) :
    exec (turn proc env) c (as.map (.proc i)) = some ⟨s, Function.update c.locals i l⟩ := by
  induction as generalizing c with
  | nil =>
    obtain ⟨rfl, rfl⟩ := Prod.mk.inj (Option.some.inj h)
    rw [Function.update_eq_self]
    rfl
  | cons a as ih =>
    obtain ⟨⟨s1, l1⟩, hstep, hrest⟩ := exec_cons.mp h
    have hturn : turn proc env c (.proc i a) = some ⟨s1, Function.update c.locals i l1⟩ := by
      have hproc : proc i c.shared (c.locals i) a = some (s1, l1) := hstep
      rw [turn, hproc]
      rfl
    have hlocal : exec (solo proc i) (s1, Function.update c.locals i l1 i) as = some (s, l) := by
      rwa [Function.update_self]
    rw [List.map_cons, exec_cons]
    refine ⟨_, hturn, ?_⟩
    rw [ih hlocal, Function.update_idem]

end Interleaving

/-- The processes of a run of two. -/
inductive Two where
  | first
  | second
  deriving DecidableEq, Inhabited

instance : Fintype Two where
  elems := {.first, .second}
  complete k := by cases k <;> decide

end Trace
