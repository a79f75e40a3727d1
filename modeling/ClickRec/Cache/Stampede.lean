import ClickRec.Cache.CacheAside

/-! # How many SELECTs a cold key costs

The lock is free again once the filler is done, and a caller whose first GET came before the fill
asks for it without looking at the key again. So one SELECT is executed exactly when no such caller
finds the lock free after the fill. -/
namespace ClickRec.Cache
set_option autoImplicit false
open Kafka (Bytes)

/-! ## Healthy runs -/

section Runs
variable {ι : Type}

/-- Redis and Postgres answer, no key expires, and no caller waits too long. -/
def Healthy : CallerAct ι → Prop
  | .proc _ (.get r) => r = .ok
  | .proc _ (.setLock r) => r = .ok
  | .proc _ (.poll r) => r = .ok
  | .proc _ .timeout => False
  | .proc _ (.select (.ok ())) => True
  | .proc _ (.select (.error _)) => False
  | .proc _ (.populate r) => r = .ok
  | .proc _ (.release r) => r = .ok
  | .env (.setRow _) => True
  | .env .expireItem => False
  | .env .expireLock => False

/-- A caller that takes the lock finds the key cold. -/
def LockedCold (c : Callers ι) : CallerAct ι → Prop
  | .proc _ (.setLock _) => c.shared.lock = none → c.shared.item = none
  | _ => True

instance (c : Callers ι) : ∀ a, Decidable (LockedCold c a)
  | .proc _ (.setLock _) => inferInstanceAs (Decidable (c.shared.lock = none → c.shared.item = none))
  | .proc _ (.get _) => isTrue trivial
  | .proc _ (.poll _) => isTrue trivial
  | .proc _ .timeout => isTrue trivial
  | .proc _ (.select _) => isTrue trivial
  | .proc _ (.populate _) => isTrue trivial
  | .proc _ (.release _) => isTrue trivial
  | .env _ => isTrue trivial

/-- One caller reads the row, all the others are served from the cache. -/
def SelectOnce (c : Callers ι) : Prop :=
  ∃ i, c.shared.selects = [i] ∧ (∃ dto, c.locals i = .done dto .db) ∧
    ∀ j, j ≠ i → ∃ dto, c.locals j = .done dto .cache

end Runs

/-! ## The steps of a caller in a healthy run -/

section Steps
variable {ι : Type} {codec : Codec} {caller_id : ι → Bytes} {i : ι} {s t : Store ι} {l m : Stage}

inductive HealthyStep (codec : Codec) (caller_id : ι → Bytes) (i : ι) (s : Store ι) :
    Stage → Store ι → Stage → Prop where
  | hit {raw : Bytes} : s.item = some raw →
    HealthyStep codec caller_id i s .start s (present codec raw)
  | miss : s.item = none → HealthyStep codec caller_id i s .start s .missed
  | acquire : s.lock = none →
    HealthyStep codec caller_id i s .missed (s.setNx (caller_id i)) .filling
  | wait {holder : Bytes} : s.lock = some holder →
    HealthyStep codec caller_id i s .missed s .waiting
  | pollHit {raw : Bytes} : s.item = some raw →
    HealthyStep codec caller_id i s .waiting s (present codec raw)
  | pollMiss : s.item = none → HealthyStep codec caller_id i s .waiting s .waiting
  | fallback : HealthyStep codec caller_id i s .fallback (s.executed i) (.done s.row .db)
  | fill : HealthyStep codec caller_id i s .filling (s.executed i) (.populating s.row)
  | populate {dto : Option ItemDTO} : HealthyStep codec caller_id i s (.populating dto)
      { s with item := some (codec.payload dto) } (.releasing (.ok dto))
  | release {result : Except PyError (Option ItemDTO)} :
    HealthyStep codec caller_id i s (.releasing result) (s.releaseLock (caller_id i))
      (returned result)

theorem healthyStep {a : Event} (hh : Healthy (.proc i a))
    (h : callerStep codec caller_id i s l a = some (t, m)) :
    HealthyStep codec caller_id i s l t m := by
  cases callerStep_cases h with
  | hit hitem => exact .hit hitem
  | miss hitem => exact .miss hitem
  | getFailed => cases hh
  | acquire hlock => exact .acquire hlock
  | wait hlock => exact .wait hlock
  | setLockFailed => cases hh
  | pollHit hitem => exact .pollHit hitem
  | pollMiss hitem => exact .pollMiss hitem
  | pollFailed => cases hh
  | timeout => exact hh.elim
  | fallback => exact .fallback
  | fallbackFailed => exact hh.elim
  | fill => exact .fill
  | fillFailed => exact hh.elim
  | populate => exact .populate
  | populateFailed => cases hh
  | release => exact .release
  | releaseFailed => cases hh

/-! ## Callers that have not read the row -/

/-- No answer yet and no part in the fill. -/
def Stage.unserved : Stage → Bool
  | start => true
  | missed => true
  | waiting => true
  | _ => false

def Stage.fromCache : Stage → Bool
  | start => true
  | missed => true
  | waiting => true
  | done _ source => source = .cache
  | raised _ => true
  | _ => false

theorem fromCache_of_unserved (h : l.unserved = true) : l.fromCache = true := by
  cases l with
  | start => rfl
  | missed => rfl
  | waiting => rfl
  | fallback => cases h
  | filling => cases h
  | populating dto => cases h
  | releasing result => cases h
  | done dto source => cases h
  | raised e => cases h

theorem fromCache_present (raw : Bytes) : (present codec raw).fromCache = true := by
  unfold present
  split <;> rfl

/-- Such a caller changes nothing, unless it takes the lock. -/
theorem HealthyStep.of_fromCache (h : HealthyStep codec caller_id i s l t m)
    (hl : l.fromCache = true) :
    (t = s ∧ m.fromCache = true ∧ (s.item = none → l.unserved = true → m.unserved = true)) ∨
    (l = .missed ∧ s.lock = none ∧ t = s.setNx (caller_id i) ∧ m = .filling) := by
  cases h with
  | hit hitem =>
    refine .inl ⟨rfl, fromCache_present _, fun hnone => ?_⟩
    rw [hitem] at hnone
    cases hnone
  | miss hitem => exact .inl ⟨rfl, rfl, fun _ _ => rfl⟩
  | acquire hlock => exact .inr ⟨rfl, hlock, rfl, rfl⟩
  | wait hlock => exact .inl ⟨rfl, rfl, fun _ _ => rfl⟩
  | pollHit hitem =>
    refine .inl ⟨rfl, fromCache_present _, fun hnone => ?_⟩
    rw [hitem] at hnone
    cases hnone
  | pollMiss hitem => exact .inl ⟨rfl, rfl, fun _ _ => rfl⟩
  | fallback => cases hl
  | fill => cases hl
  | populate => cases hl
  | release => cases hl

/-- In a healthy run only the row changes under the callers. -/
theorem healthy_env [DecidableEq ι] {c d : Callers ι} {e : Outside} (hh : Healthy (.env e : CallerAct ι))
    (hstep : callersStep codec caller_id c (.env e) = some d) :
    ∃ row, d = ⟨{ c.shared with row := row }, c.locals⟩ := by
  cases e with
  | expireItem => exact hh.elim
  | expireLock => exact hh.elim
  | setRow row => exact ⟨row, (Option.some.inj hstep).symm⟩

end Steps

/-! ## The phases of a run in which the lock is only taken cold -/

section Phases
variable {ι : Type} {codec : Codec} {caller_id : ι → Bytes} {c d : Callers ι}

inductive Phase (caller_id : ι → Bytes) (c : Callers ι) : Prop where
  | untouched : c.shared.item = none → c.shared.lock = none → c.shared.selects = [] →
      (∀ j, (c.locals j).unserved = true) → Phase caller_id c
  | filling (i : ι) : c.shared.item = none → c.shared.lock = some (caller_id i) →
      c.shared.selects = [] → c.locals i = .filling →
      (∀ j, j ≠ i → (c.locals j).unserved = true) → Phase caller_id c
  | populating (i : ι) (dto : Option ItemDTO) : c.shared.item = none →
      c.shared.lock = some (caller_id i) → c.shared.selects = [i] → c.locals i = .populating dto →
      (∀ j, j ≠ i → (c.locals j).unserved = true) → Phase caller_id c
  | releasing (i : ι) (dto : Option ItemDTO) : c.shared.item ≠ none →
      c.shared.lock = some (caller_id i) → c.shared.selects = [i] →
      c.locals i = .releasing (.ok dto) →
      (∀ j, j ≠ i → (c.locals j).fromCache = true) → Phase caller_id c
  | warm (i : ι) (dto : Option ItemDTO) : c.shared.item ≠ none → c.shared.lock = none →
      c.shared.selects = [i] → c.locals i = .done dto .db →
      (∀ j, j ≠ i → (c.locals j).fromCache = true) → Phase caller_id c

theorem phase_cold (row : Option ItemDTO) : Phase caller_id (cold row : Callers ι) :=
  .untouched rfl rfl rfl fun _ => rfl

theorem selectOnce_of_phase [Nonempty ι] (h : Phase caller_id c)
    (hdone : ∀ i, ∃ dto source, c.locals i = .done dto source) : SelectOnce c := by
  cases h with
  | untouched hitem hlock hselects hothers =>
    obtain ⟨dto, source, hj⟩ := hdone (Classical.arbitrary ι)
    have hun := hothers (Classical.arbitrary ι)
    rw [hj] at hun
    cases hun
  | filling i hitem hlock hselects hfill hothers =>
    obtain ⟨dto, source, hi⟩ := hdone i
    rw [hfill] at hi
    cases hi
  | populating i dto hitem hlock hselects hpopulate hothers =>
    obtain ⟨dto, source, hi⟩ := hdone i
    rw [hpopulate] at hi
    cases hi
  | releasing i dto hitem hlock hselects hrelease hothers =>
    obtain ⟨dto, source, hi⟩ := hdone i
    rw [hrelease] at hi
    cases hi
  | warm i dto hitem hlock hselects hi hothers =>
    refine ⟨i, hselects, ⟨dto, hi⟩, fun j hj => ?_⟩
    obtain ⟨dto, source, hdone⟩ := hdone j
    have hfrom := hothers j hj
    rw [hdone] at hfrom
    obtain rfl : source = .cache := by simpa [Stage.fromCache] using hfrom
    exact ⟨dto, hdone⟩

variable [DecidableEq ι]

omit [DecidableEq ι] in
/-- The other callers while one fills the key or has filled it. -/
theorem others_step {i k : ι} {m : Stage} {P : Stage → Prop}
    (hm : d.locals k = m) (hframe : ∀ j, j ≠ k → d.locals j = c.locals j) (hmove : P m)
    (h : ∀ j, j ≠ i → P (c.locals j)) : ∀ j, j ≠ i → P (d.locals j) :=
  Trace.forall_locals (P := fun j l => j ≠ i → P l) hm hframe (fun _ => hmove) h

theorem phase_step {a : CallerAct ι} (h : Phase caller_id c) (hh : Healthy a)
    (hcold : LockedCold c a) (hstep : callersStep codec caller_id c a = some d) :
    Phase caller_id d := by
  cases a with
  | env e =>
    obtain ⟨row, rfl⟩ := healthy_env hh hstep
    cases h with
    | untouched h1 h2 h3 h4 => exact .untouched h1 h2 h3 h4
    | filling i h1 h2 h3 h4 h5 => exact .filling i h1 h2 h3 h4 h5
    | populating i dto h1 h2 h3 h4 h5 => exact .populating i dto h1 h2 h3 h4 h5
    | releasing i dto h1 h2 h3 h4 h5 => exact .releasing i dto h1 h2 h3 h4 h5
    | warm i dto h1 h2 h3 h4 h5 => exact .warm i dto h1 h2 h3 h4 h5
  | proc k a =>
    obtain ⟨q, m, hcaller, hq, hm, hframe⟩ := Trace.turn_proc hstep
    have hs := healthyStep hh hcaller
    cases h with
    | untouched hitem hlock hselects hothers =>
      obtain ⟨rfl, -, hun⟩ | ⟨-, -, rfl, rfl⟩ := hs.of_fromCache (fromCache_of_unserved (hothers k))
      · exact .untouched (by rw [hq, hitem]) (by rw [hq, hlock]) (by rw [hq, hselects])
          (Trace.forall_locals (P := fun _ l => l.unserved = true) hm hframe
            (hun hitem (hothers k)) hothers)
      · refine .filling k (by rw [hq]; exact hitem) ?_ (by rw [hq]; exact hselects) hm fun j hj => ?_
        · rw [hq, Store.setNx, hlock]
          rfl
        · rw [hframe j hj]
          exact hothers j
    | filling i hitem hlock hselects hfill hothers =>
      by_cases hk : k = i
      · subst hk
        rw [hfill] at hs
        cases hs with
        | fill =>
          refine .populating k c.shared.row (by rw [hq]; exact hitem) (by rw [hq]; exact hlock) ?_ hm
            fun j hj => ?_
          · rw [hq, Store.executed, hselects]
            rfl
          · rw [hframe j hj]
            exact hothers j hj
      · obtain ⟨rfl, -, hun⟩ | ⟨-, hfree, -, -⟩ :=
          hs.of_fromCache (fromCache_of_unserved (hothers k hk))
        · exact .filling i (by rw [hq, hitem]) (by rw [hq, hlock]) (by rw [hq, hselects])
            (by rw [hframe i (Ne.symm hk), hfill])
            (others_step (P := fun l => l.unserved = true) hm hframe (hun hitem (hothers k hk)) hothers)
        · rw [hlock] at hfree
          cases hfree
    | populating i dto hitem hlock hselects hpopulate hothers =>
      by_cases hk : k = i
      · subst hk
        rw [hpopulate] at hs
        cases hs with
        | populate =>
          refine .releasing k dto (by rw [hq]; simp) (by rw [hq]; exact hlock)
            (by rw [hq]; exact hselects) hm fun j hj => ?_
          rw [hframe j hj]
          exact fromCache_of_unserved (hothers j hj)
      · obtain ⟨rfl, -, hun⟩ | ⟨-, hfree, -, -⟩ :=
          hs.of_fromCache (fromCache_of_unserved (hothers k hk))
        · exact .populating i dto (by rw [hq, hitem]) (by rw [hq, hlock]) (by rw [hq, hselects])
            (by rw [hframe i (Ne.symm hk), hpopulate])
            (others_step (P := fun l => l.unserved = true) hm hframe (hun hitem (hothers k hk)) hothers)
        · rw [hlock] at hfree
          cases hfree
    | releasing i dto hitem hlock hselects hrelease hothers =>
      by_cases hk : k = i
      · subst hk
        rw [hrelease] at hs
        cases hs with
        | release =>
          refine .warm k dto (by rw [hq]; exact hitem) ?_ (by rw [hq]; exact hselects) hm
            fun j hj => ?_
          · rw [hq, Store.releaseLock]
            exact if_pos hlock
          · rw [hframe j hj]
            exact hothers j hj
      · obtain ⟨rfl, hfrom, -⟩ | ⟨-, hfree, -, -⟩ := hs.of_fromCache (hothers k hk)
        · exact .releasing i dto (by rw [hq]; exact hitem) (by rw [hq, hlock]) (by rw [hq, hselects])
            (by rw [hframe i (Ne.symm hk), hrelease])
            (others_step (P := fun l => l.fromCache = true) hm hframe hfrom hothers)
        · rw [hlock] at hfree
          cases hfree
    | warm i dto hitem hlock hselects hdone hothers =>
      by_cases hk : k = i
      · subst hk
        rw [hdone] at hs
        cases hs
      · obtain ⟨rfl, hfrom, -⟩ | ⟨hmissed, hfree, -, -⟩ := hs.of_fromCache (hothers k hk)
        · exact .warm i dto (by rw [hq]; exact hitem) (by rw [hq, hlock]) (by rw [hq, hselects])
            (by rw [hframe i (Ne.symm hk), hdone])
            (others_step (P := fun l => l.fromCache = true) hm hframe hfrom hothers)
        · rw [hmissed] at hcaller
          cases a with
          | setLock r => exact absurd (hcold hfree) hitem
          | get r => cases hcaller
          | poll r => cases hcaller
          | timeout => cases hcaller
          | select r => cases hcaller
          | populate r => cases hcaller
          | release r => cases hcaller

end Phases

/-! ## Who executed a SELECT -/

section Selects
variable {ι : Type} {codec : Codec} {caller_id : ι → Bytes} {c d : Callers ι}

def Stage.selected : Stage → Bool
  | populating _ => true
  | releasing (.ok _) => true
  | done _ source => source = .db
  | _ => false

structure Recorded (c : Callers ι) : Prop where
  selected : ∀ i, i ∈ c.shared.selects ↔ (c.locals i).selected = true
  filled : c.shared.item ≠ none → ∃ i, i ∈ c.shared.selects

theorem selected_present (raw : Bytes) : (present codec raw).selected = false := by
  unfold present
  split <;> rfl

theorem HealthyStep.selects {i : ι} {s t : Store ι} {l m : Stage}
    (h : HealthyStep codec caller_id i s l t m) :
    (t.selects = s.selects ∧ m.selected = l.selected) ∨
      (t.selects = s.selects ++ [i] ∧ m.selected = true) := by
  cases h with
  | hit hitem => exact .inl ⟨rfl, selected_present _⟩
  | pollHit hitem => exact .inl ⟨rfl, selected_present _⟩
  | miss hitem => exact .inl ⟨rfl, rfl⟩
  | acquire hlock => exact .inl ⟨rfl, rfl⟩
  | wait hlock => exact .inl ⟨rfl, rfl⟩
  | pollMiss hitem => exact .inl ⟨rfl, rfl⟩
  | fallback => exact .inr ⟨rfl, rfl⟩
  | fill => exact .inr ⟨rfl, rfl⟩
  | populate => exact .inl ⟨rfl, rfl⟩
  | @release result =>
    cases result with
    | ok dto => exact .inl ⟨rfl, rfl⟩
    | error e => exact .inl ⟨rfl, rfl⟩

/-- Only a caller that has read the row fills the key. -/
theorem HealthyStep.item {i : ι} {s t : Store ι} {l m : Stage}
    (h : HealthyStep codec caller_id i s l t m) : t.item = s.item ∨ l.selected = true := by
  cases h with
  | populate => exact .inr rfl
  | hit hitem => exact .inl rfl
  | pollHit hitem => exact .inl rfl
  | miss hitem => exact .inl rfl
  | acquire hlock => exact .inl rfl
  | wait hlock => exact .inl rfl
  | pollMiss hitem => exact .inl rfl
  | fallback => exact .inl rfl
  | fill => exact .inl rfl
  | release => exact .inl rfl

theorem recorded_cold (row : Option ItemDTO) : Recorded (cold row : Callers ι) where
  selected := fun i => by simp [cold, Stage.selected]
  filled := fun h => absurd rfl h

theorem not_lockedCold {a : CallerAct ι} (h : ¬ LockedCold c a) :
    ∃ j r, a = .proc j (.setLock r) ∧ c.shared.lock = none ∧ c.shared.item ≠ none := by
  cases a with
  | env e => exact absurd trivial h
  | proc j a =>
    cases a with
    | setLock r => exact ⟨j, r, rfl, Classical.not_imp.mp h⟩
    | _ => exact absurd trivial h

/-- Only a caller that has missed asks for the lock, and a free one is taken. -/
theorem callerStep_setLock {i : ι} {s t : Store ι} {l m : Stage} (hfree : s.lock = none)
    (h : callerStep codec caller_id i s l (.setLock .ok) = some (t, m)) :
    l = .missed ∧ m = .filling := by
  cases l with
  | missed =>
    simp only [callerStep, hfree, Option.some.injEq, Prod.mk.injEq] at h
    exact ⟨rfl, h.2.symm⟩
  | _ => cases h

variable [DecidableEq ι]

theorem selects_mono {a : CallerAct ι} {i : ι} (hh : Healthy a)
    (hstep : callersStep codec caller_id c a = some d) (h : i ∈ c.shared.selects) :
    i ∈ d.shared.selects := by
  cases a with
  | env e =>
    obtain ⟨row, rfl⟩ := healthy_env hh hstep
    exact h
  | proc k a =>
    obtain ⟨q, m, hcaller, hq, -, -⟩ := Trace.turn_proc hstep
    rw [hq]
    obtain ⟨hsame, -⟩ | ⟨hadd, -⟩ := (healthyStep hh hcaller).selects
    · rw [hsame]
      exact h
    · rw [hadd]
      exact List.mem_append_left _ h

theorem recorded_step {a : CallerAct ι} (h : Recorded c) (hh : Healthy a)
    (hstep : callersStep codec caller_id c a = some d) : Recorded d := by
  cases a with
  | env e =>
    obtain ⟨row, rfl⟩ := healthy_env hh hstep
    exact ⟨h.selected, h.filled⟩
  | proc k a =>
    obtain ⟨q, m, hcaller, hq, hm, hframe⟩ := Trace.turn_proc hstep
    have hs := healthyStep hh hcaller
    refine ⟨fun i => ?_, fun hitem => ?_⟩
    · rw [hq]
      by_cases hi : i = k
      · rw [hi, hm]
        obtain ⟨hsame, hsel⟩ | ⟨hadd, hsel⟩ := hs.selects
        · rw [hsame, hsel]
          exact h.selected k
        · rw [hadd, hsel]
          simp
      · rw [hframe i hi]
        obtain ⟨hsame, -⟩ | ⟨hadd, -⟩ := hs.selects
        · rw [hsame]
          exact h.selected i
        · rw [hadd, List.mem_append, List.mem_singleton, ← h.selected i]
          exact ⟨fun hmem => hmem.resolve_right hi, .inl⟩
    · have hexists : ∃ i, i ∈ c.shared.selects := by
        obtain hsame | hsel := hs.item
        · rw [hq, hsame] at hitem
          exact h.filled hitem
        · exact ⟨k, (h.selected k).mpr hsel⟩
      obtain ⟨i, hi⟩ := hexists
      exact ⟨i, selects_mono hh hstep hi⟩

/-- A caller that holds the lock reads the row. -/
theorem filling_step {a : CallerAct ι} {i : ι} (hh : Healthy a)
    (hstep : callersStep codec caller_id c a = some d)
    (h : c.locals i = .filling ∨ i ∈ c.shared.selects) :
    d.locals i = .filling ∨ i ∈ d.shared.selects := by
  obtain hfill | hmem := h
  · cases a with
    | env e =>
      obtain ⟨row, rfl⟩ := healthy_env hh hstep
      exact .inl hfill
    | proc k a =>
      obtain ⟨q, m, hcaller, hq, -, hframe⟩ := Trace.turn_proc hstep
      by_cases hk : i = k
      · subst hk
        have hs := healthyStep hh hcaller
        rw [hfill] at hs
        cases hs with
        | fill =>
          rw [hq]
          exact .inr (List.mem_append_right _ (List.mem_singleton_self i))
      · rw [hframe i hk]
        exact .inl hfill
  · exact .inr (selects_mono hh hstep hmem)

/-- A caller that takes the lock on a filled key reads the row again. -/
theorem two_readers {a : CallerAct ι} (h : Recorded c) (hcold : ¬ LockedCold c a) (hh : Healthy a)
    (hstep : callersStep codec caller_id c a = some d) :
    ∃ i j, i ∈ d.shared.selects ∧ d.locals j = .filling ∧ i ≠ j := by
  obtain ⟨j, r, rfl, hfree, hitem⟩ := not_lockedCold hcold
  have hr : r = .ok := hh
  subst hr
  obtain ⟨i, hi⟩ := h.filled hitem
  obtain ⟨q, m, hcaller, -, hm, -⟩ := Trace.turn_proc hstep
  obtain ⟨hmissed, rfl⟩ := callerStep_setLock hfree hcaller
  refine ⟨i, j, selects_mono hh hstep hi, hm, ?_⟩
  rintro rfl
  have hselected := (h.selected i).mp hi
  rw [hmissed] at hselected
  cases hselected

theorem recorded_exec {as : List (CallerAct ι)} (hhealthy : ∀ a ∈ as, Healthy a)
    (hrun : Trace.exec (callersStep codec caller_id) c as = some d) (h : Recorded c) : Recorded d :=
  Trace.exec_invariant (C := fun _ a => Healthy a)
    (fun _ _ _ hI hC hstep => recorded_step hI hC hstep) (Trace.along_of_mem hhealthy) hrun h

/-- A caller that holds the lock or has read the row has read it when all are done. -/
theorem selects_exec {as : List (CallerAct ι)} {i : ι} (hhealthy : ∀ a ∈ as, Healthy a)
    (hrun : Trace.exec (callersStep codec caller_id) c as = some d)
    (hdone : ∃ dto source, d.locals i = .done dto source)
    (h : c.locals i = .filling ∨ i ∈ c.shared.selects) : i ∈ d.shared.selects := by
  have hend : d.locals i = .filling ∨ i ∈ d.shared.selects := Trace.exec_invariant
    (C := fun _ a => Healthy a)
    (I := fun c : Callers ι => c.locals i = .filling ∨ i ∈ c.shared.selects)
    (fun _ _ _ hI hC hstep => filling_step hC hstep hI) (Trace.along_of_mem hhealthy) hrun h
  refine hend.resolve_left fun hfill => ?_
  obtain ⟨dto, source, hdone⟩ := hdone
  rw [hdone] at hfill
  cases hfill

/-- **Stampede protection.** In a run on a cold key in which nothing fails, expires or takes too long
and every caller returns, exactly one SELECT is executed and all other callers are served from the
cache, exactly when no caller takes the lock while the key is filled. -/
theorem select_once_iff [Nonempty ι] (codec : Codec) (caller_id : ι → Bytes)
    (row : Option ItemDTO) (as : List (CallerAct ι)) (c : Callers ι)
    (hhealthy : ∀ a ∈ as, Healthy a)
    (hrun : Trace.exec (callersStep codec caller_id) (cold row) as = some c)
    (hdone : ∀ i, ∃ dto source, c.locals i = .done dto source) :
    SelectOnce c ↔ Trace.Along (callersStep codec caller_id) LockedCold (cold row) as := by
  constructor
  · rintro ⟨n, hselects, -, -⟩
    by_contra hcold
    obtain ⟨pre, a, post, v, w, rfl, hpre, ha, hw, hpost⟩ :=
      Trace.exists_step_of_not_along hrun hcold
    have hbefore : ∀ b ∈ pre, Healthy b := fun b hb => hhealthy b (by simp [hb])
    have hafter : ∀ b ∈ post, Healthy b := fun b hb => hhealthy b (by simp [hb])
    obtain ⟨i, j, hi, hj, hij⟩ :=
      two_readers (recorded_exec hbefore hpre (recorded_cold row)) ha (hhealthy a (by simp)) hw
    have hi := selects_exec hafter hpost (hdone i) (.inr hi)
    have hj := selects_exec hafter hpost (hdone j) (.inl hj)
    rw [hselects, List.mem_singleton] at hi hj
    exact hij (hi.trans hj.symm)
  · intro hcold
    have hphase : Phase caller_id c := Trace.exec_invariant
      (fun _ _ _ hI hC hstep => phase_step hI hC.1 hC.2 hstep)
      (Trace.along_and_mem hhealthy hcold) hrun (phase_cold row)
    exact selectOnce_of_phase hphase hdone

end Selects

/-! ## Two callers -/

def shoe : ItemDTO := ⟨"i1", "Shoe", "A shoe", "shoes", "b", 10, "2026-01-01T00:00:00Z", 0⟩

/-- The JSON text of `shoe`. -/
def shoeJson : Bytes :=
  0x7B :: ("\"id\":\"i1\",\"title\":\"Shoe\",\"description\":\"A shoe\",\"category\":\"shoes\"," ++
    "\"brand\":\"b\",\"price\":10.0,\"created_at\":\"2026-01-01T00:00:00Z\"," ++
    "\"popularity_score\":0.0\x7d").toList.map fun ch => UInt8.ofNat ch.toNat

theorem shoeJson_ne_null : shoeJson ≠ nullSentinel := by
  intro h
  have hhead := (List.cons.inj h).1
  revert hhead
  decide

attribute [irreducible] shoeJson

def shoeCodec : Codec where
  serializeItem _ := shoeJson
  validateJson raw := if raw = shoeJson then .ok shoe
    else .error ⟨"JSONDecodeError", "unexpected character", ""⟩

theorem present_shoe : present shoeCodec shoeJson = .done (some shoe) .cache := by
  have hjson : shoeCodec.validateJson shoeJson = .ok shoe := by simp [shoeCodec]
  simp only [present, Codec.deserializeItem, if_neg shoeJson_ne_null, hjson, Except.map]

def callerId : Trace.Two → Bytes
  | .first => [48]
  | .second => [49]

/-- The second caller asks for the lock while the first holds it. -/
def waitsForFiller : List (CallerAct (Trace.Two)) :=
  [.proc .first (.get .ok), .proc .second (.get .ok), .proc .first (.setLock .ok), .proc .second (.setLock .ok),
    .proc .first (.select (.ok ())), .proc .first (.populate .ok), .proc .second (.poll .ok), .proc .first (.release .ok)]

/-- The second caller has missed before the fill and asks for the lock after the release. -/
def locksAfterFiller : List (CallerAct (Trace.Two)) :=
  [.proc .first (.get .ok), .proc .second (.get .ok), .proc .first (.setLock .ok), .proc .first (.select (.ok ())),
    .proc .first (.populate .ok), .proc .first (.release .ok), .proc .second (.setLock .ok),
    .proc .second (.select (.ok ())), .proc .second (.populate .ok), .proc .second (.release .ok)]

theorem select_once_waits :
    ∃ c, Trace.exec (callersStep shoeCodec callerId) (cold (some shoe)) waitsForFiller = some c ∧
      SelectOnce c := by
  obtain ⟨c, hc, h0, h1⟩ : ∃ c,
      Trace.exec (callersStep shoeCodec callerId) (cold (some shoe)) waitsForFiller = some c ∧
        c.locals .first = .done (some shoe) .db ∧ c.locals .second = present shoeCodec shoeJson :=
    ⟨_, rfl, rfl, rfl⟩
  rw [present_shoe] at h1
  refine ⟨c, hc, (select_once_iff shoeCodec callerId (some shoe) waitsForFiller c ?_ hc fun i => ?_).mpr
    ?_⟩
  · simp [waitsForFiller, Healthy]
  · match i with
    | .first => exact ⟨_, _, h0⟩
    | .second => exact ⟨_, _, h1⟩
  · decide

theorem lock_taken_after_fill :
    ¬ ∀ (codec : Codec) (caller_id : Trace.Two → Bytes) (row : Option ItemDTO)
      (as : List (CallerAct (Trace.Two))) (c : Callers (Trace.Two)), (∀ a ∈ as, Healthy a) →
      Trace.exec (callersStep codec caller_id) (cold row) as = some c →
      (∀ i, ∃ dto source, c.locals i = .done dto source) → SelectOnce c := by
  intro h
  obtain ⟨c, hc, h0, h1, hselects⟩ : ∃ c,
      Trace.exec (callersStep shoeCodec callerId) (cold (some shoe)) locksAfterFiller = some c ∧
        c.locals .first = .done (some shoe) .db ∧ c.locals .second = .done (some shoe) .db ∧
        c.shared.selects = [.first, .second] :=
    ⟨_, rfl, rfl, rfl, rfl⟩
  have honce := h shoeCodec callerId (some shoe) locksAfterFiller c
    (by simp [locksAfterFiller, Healthy]) hc fun i =>
      match i with
      | .first => ⟨_, _, h0⟩
      | .second => ⟨_, _, h1⟩
  obtain ⟨n, hn, -⟩ := honce
  rw [hselects] at hn
  cases hn

end ClickRec.Cache
