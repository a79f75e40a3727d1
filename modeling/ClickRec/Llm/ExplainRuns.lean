import ClickRec.Lib.Trace
import ClickRec.Llm.Explain

/-! # Runs of `GET /explain`

What is cached was generated for a request of the same key, and nothing else is. A rationale from the
cache is younger than its lifetime and costs no call; a request makes one call at most, and the
counters agree with what was answered. -/
namespace ClickRec.Llm.Explain
set_option autoImplicit false
open Client (SdkOutcome extractText failOpen judgeReason)

/-! ## What is recorded -/

section Records
variable {ι : Type} [DecidableEq ι]

/-- The calls of one request. -/
def Shared.callsOf (s : Shared ι) (i : ι) : List (ι × String × SdkOutcome Unit) :=
  s.calls.filter (·.1 = i)

/-- The provider gave this text, which is not empty. -/
def Texts (outcome : SdkOutcome Unit) (text : String) : Prop :=
  ∃ r, outcome = .response r ∧ extractText r = text ∧ text ≠ ""

/-- The request made one call, which gave the text. -/
def Generated (s : Shared ι) (i : ι) (text : String) : Prop :=
  ∃ prompt outcome, s.callsOf i = [(i, prompt, outcome)] ∧ Texts outcome text

def Answer.isHit : Answer → Bool
  | hit .. => true
  | _ => false

def Answer.reason : Answer → Option String
  | fallback reason => some reason
  | _ => none

/-- The counters are those of the answers and the calls. -/
structure Counted (s : Shared ι) : Prop where
  hits : s.hits = (s.finished.filter fun x => x.2.isHit).length
  fallbacks : s.fallbacks = s.finished.filterMap fun x => x.2.reason
  outcomes : s.outcomes = s.calls.flatMap fun call => (generateText call.2.2).outcomes

variable (explain_cache_ttl : ℤ) (requests : ι → Request)

/-- A request of this key wrote the text at this time, and had generated it. -/
def Wrote (s : Shared ι) (key text : String) (time : ℕ) : Prop :=
  ∃ j, (j, text, time) ∈ s.writes ∧ (requests j).key = key ∧ Generated s j text

/-- What lies behind an answer. -/
def Answer.Sound (s : Shared ι) (i : ι) : Answer → Prop
  | hit text time => s.callsOf i = [] ∧ ∃ written, Wrote requests s (requests i).key text written ∧
      written ≤ time ∧ time < written + lifetime explain_cache_ttl
  | generated text => Generated s i text
  | fallback _ => s.callsOf i = [] ∨ ∃ prompt outcome, s.callsOf i = [(i, prompt, outcome)] ∧
      ∀ text, ¬ Texts outcome text
  | raised _ => s.callsOf i = [] ∨ ∃ prompt outcome, s.callsOf i = [(i, prompt, outcome)] ∧
      ∀ text, ¬ Texts outcome text

def Stage.Sound (s : Shared ι) (i : ι) : Stage → Prop
  | ended a => (i, a) ∈ s.finished
  | storing text => Generated s i text
  | _ => s.callsOf i = []

/-- What is stored and counted. -/
structure SoundShared (s : Shared ι) : Prop where
  counted : Counted s
  written : ∀ w ∈ s.writes, w.2.2 ≤ s.now ∧ Generated s w.1 w.2.1
  cells : ∀ key text expires, s.cells key = some (text, expires) →
    ∃ time, Wrote requests s key text time ∧ time ≤ s.now ∧
      expires = time + lifetime explain_cache_ttl

/-- What holds in every state of a run. -/
structure SoundRun (c : Requests ι) : Prop where
  shared : SoundShared explain_cache_ttl requests c.shared
  stages : ∀ i, (c.locals i).Sound c.shared i
  finished : ∀ x ∈ c.shared.finished, c.locals x.1 = .ended x.2
  once : (c.shared.finished.map (·.1)).Nodup
  answers : ∀ x ∈ c.shared.finished, x.2.Sound explain_cache_ttl requests c.shared x.1

end Records

/-! ## The steps of a request -/

/-- Before the answer of the provider. -/
def Stage.Early : Stage → Prop
  | storing _ => False
  | ended _ => False
  | _ => True

section Moves
variable {ι : Type} (explain_cache_ttl : ℤ) (requests : ι → Request)

def Answer.Failed : Answer → Prop
  | fallback _ => True
  | raised _ => True
  | _ => False

/-- What a step of a request does. -/
inductive Moves (i : ι) (s : Shared ι) : Stage → Shared ι → Stage → Prop
  | wait {l m : Stage} (hl : l.Early) (hm : m.Early) : Moves i s l s m
  | hit {text : String} (h : s.lookup (requests i).key = some text) :
      Moves i s .start (s.finish i (.hit text s.now)).1 (.ended (.hit text s.now))
  | fail {l : Stage} {a : Answer} (hl : l.Early) (ha : a.Failed) :
      Moves i s l (s.finish i a).1 (.ended a)
  | call {l : Stage} {prompt text : String} {outcome : SdkOutcome Unit} (hl : l.Early)
      (h : Texts outcome text) : Moves i s l (s.called i prompt outcome) (.storing text)
  | answer {l : Stage} {prompt text : String} {outcome : SdkOutcome Unit} (hl : l.Early)
      (h : Texts outcome text) :
      Moves i s l ((s.called i prompt outcome).finish i (.generated text)).1 (.ended (.generated text))
  | failed {l : Stage} {prompt : String} {outcome : SdkOutcome Unit} {a : Answer} (hl : l.Early)
      (h : ∀ text, ¬ Texts outcome text) (ha : a.Failed) :
      Moves i s l ((s.called i prompt outcome).finish i a).1 (.ended a)
  | store {text : String} {t : Shared ι} (h : s.setEx explain_cache_ttl requests i text = some t) :
      Moves i s (.storing text) (t.finish i (.generated text)).1 (.ended (.generated text))
  | lost {text : String} : Moves i s (.storing text) (s.finish i (.generated text)).1
      (.ended (.generated text))

/-- The text of an outcome, or the failure a call ends with. -/
theorem failOpen_cases (outcome : SdkOutcome Unit) :
    (∃ text, failOpen judgeReason (generateText outcome) = .ok (.ok text) ∧ Texts outcome text) ∨
    (∃ reason, failOpen judgeReason (generateText outcome) = .ok (.error reason) ∧
      ∀ text, ¬ Texts outcome text) := by
  cases outcome with
  | timeout => exact .inr ⟨_, rfl, fun text h => by obtain ⟨r, hr, -⟩ := h; cases hr⟩
  | raised e => exact .inr ⟨_, rfl, fun text h => by obtain ⟨r, hr, -⟩ := h; cases hr⟩
  | response r =>
    simp only [generateText]
    by_cases htext : extractText r = ""
    · right
      rw [if_pos htext]
      refine ⟨_, rfl, fun text h => ?_⟩
      obtain ⟨r', hr', htext', hne⟩ := h
      obtain rfl := SdkOutcome.response.inj hr'
      exact hne (htext'.symm.trans htext)
    · left
      rw [if_neg htext]
      exact ⟨_, rfl, r, rfl, rfl, htext⟩

variable {explain_cache_ttl requests} {i : ι} {s t : Shared ι} {l m : Stage} {e : Event}

theorem finish_inj {a : Answer} (h : s.finish i a = (t, m)) : t = (s.finish i a).1 ∧ m = .ended a :=
  ⟨(congrArg Prod.fst h).symm, (congrArg Prod.snd h).symm⟩

theorem afterCall_moves {prompt : String} {outcome : SdkOutcome Unit} (hl : l.Early)
    (h : afterCall requests (s.called i prompt outcome) i outcome = (t, m)) :
    Moves explain_cache_ttl requests i s l t m := by
  unfold afterCall at h
  obtain ⟨text, hok, htexts⟩ | ⟨reason, hfail, hnone⟩ := failOpen_cases outcome
  · rw [hok] at h
    by_cases hredis : (requests i).redis = true
    · simp only [if_pos hredis] at h
      obtain ⟨rfl, rfl⟩ := Prod.mk.inj h
      exact .call hl htexts
    · simp only [if_neg hredis] at h
      obtain ⟨rfl, rfl⟩ := finish_inj h
      exact .answer hl htexts
  · rw [hfail] at h
    obtain ⟨rfl, rfl⟩ := finish_inj h
    exact .failed hl hnone trivial

theorem requestStep_moves (h : requestStep explain_cache_ttl requests i s l e = some (t, m)) :
    Moves explain_cache_ttl requests i s l t m := by
  unfold requestStep at h
  split at h
  · split at h
    · split at h
      · rename_i text htext
        obtain ⟨rfl, rfl⟩ := finish_inj (Option.some.inj h)
        exact .hit htext
      · obtain ⟨rfl, rfl⟩ := Prod.mk.inj (Option.some.inj h)
        exact .wait trivial trivial
    · cases h
  · split at h
    · obtain ⟨rfl, rfl⟩ := Prod.mk.inj (Option.some.inj h)
      exact .wait trivial trivial
    · cases h
  · split at h
    · cases h
    · obtain ⟨rfl, rfl⟩ := Prod.mk.inj (Option.some.inj h)
      exact .wait trivial trivial
  · obtain ⟨rfl, rfl⟩ := finish_inj (Option.some.inj h)
    exact .fail trivial trivial
  · obtain ⟨rfl, rfl⟩ := finish_inj (Option.some.inj h)
    exact .fail trivial trivial
  · obtain ⟨rfl, rfl⟩ := Prod.mk.inj (Option.some.inj h)
    exact .wait trivial trivial
  · obtain ⟨rfl, rfl⟩ := finish_inj (Option.some.inj h)
    exact .fail trivial trivial
  · obtain ⟨rfl, rfl⟩ := Prod.mk.inj (Option.some.inj h)
    exact .wait trivial trivial
  · obtain ⟨rfl, rfl⟩ := finish_inj (Option.some.inj h)
    exact .fail trivial trivial
  · obtain ⟨rfl, rfl⟩ := Prod.mk.inj (Option.some.inj h)
    exact .wait trivial trivial
  · exact afterCall_moves trivial (Option.some.inj h)
  · obtain ⟨u, hu, hfinish⟩ := Option.map_eq_some_iff.mp h
    obtain ⟨rfl, rfl⟩ := finish_inj hfinish
    exact .store hu
  · obtain ⟨u, hu, hfinish⟩ := Option.map_eq_some_iff.mp h
    obtain ⟨rfl, rfl⟩ := finish_inj hfinish
    exact .store hu
  · obtain ⟨rfl, rfl⟩ := finish_inj (Option.some.inj h)
    exact .lost
  · cases h

end Moves

/-! ## What a step keeps -/

section Keep
variable {ι : Type} [DecidableEq ι] {explain_cache_ttl : ℤ} {requests : ι → Request}

/-- Calls are added to requests that have none, writes are added. -/
structure Grows (s t : Shared ι) : Prop where
  calls : ∀ j, s.callsOf j ≠ [] → t.callsOf j = s.callsOf j
  writes : ∀ w ∈ s.writes, w ∈ t.writes

section Grows
variable {s t : Shared ι} (h : Grows s t) {j : ι}
include h

theorem Grows.generated {text : String} (hj : Generated s j text) : Generated t j text := by
  obtain ⟨prompt, outcome, hcalls, htexts⟩ := hj
  refine ⟨prompt, outcome, ?_, htexts⟩
  rw [h.calls j (by simp [hcalls]), hcalls]

theorem Grows.wrote {key text : String} {time : ℕ} (hj : Wrote requests s key text time) :
    Wrote requests t key text time := by
  obtain ⟨k, hk, hkey, hgenerated⟩ := hj
  exact ⟨k, h.writes _ hk, hkey, h.generated hgenerated⟩

theorem Grows.answer {a : Answer} (hcalls : t.callsOf j = s.callsOf j)
    (ha : a.Sound explain_cache_ttl requests s j) : a.Sound explain_cache_ttl requests t j := by
  cases a with
  | hit text time =>
    obtain ⟨hnone, written, hwrote, hage⟩ := ha
    exact ⟨hcalls.trans hnone, written, h.wrote hwrote, hage⟩
  | generated text => exact h.generated ha
  | fallback reason =>
    rw [Answer.Sound, hcalls]
    exact ha
  | raised e =>
    rw [Answer.Sound, hcalls]
    exact ha

theorem Grows.stage {l : Stage} (hcalls : t.callsOf j = s.callsOf j)
    (hfinished : ∀ x ∈ s.finished, x ∈ t.finished) (hl : l.Sound s j) : l.Sound t j := by
  cases l with
  | ended a => exact hfinished _ hl
  | storing text => exact h.generated hl
  | _ => exact hcalls.trans hl

end Grows

theorem Stage.Early.callsOf {s : Shared ι} {i : ι} {l : Stage} (hl : l.Early) (h : l.Sound s i) :
    s.callsOf i = [] := by
  cases l with
  | storing text => exact hl.elim
  | ended a => exact hl.elim
  | _ => exact h

theorem Stage.Early.sound {s : Shared ι} {i : ι} {l : Stage} (hl : l.Early) (h : s.callsOf i = []) :
    l.Sound s i := by
  cases l with
  | storing text => exact hl.elim
  | ended a => exact hl.elim
  | _ => exact h

section Calls
variable {s : Shared ι} {i : ι} (prompt : String) (outcome : SdkOutcome Unit)

theorem callsOf_called_other {j : ι} (hj : j ≠ i) : (s.called i prompt outcome).callsOf j = s.callsOf j := by
  rw [Shared.callsOf, Shared.called, List.filter_append, List.filter_singleton]
  simp [Ne.symm hj, Shared.callsOf]

theorem callsOf_called_self (hnone : s.callsOf i = []) :
    (s.called i prompt outcome).callsOf i = [(i, prompt, outcome)] := by
  rw [Shared.callsOf] at hnone
  rw [Shared.callsOf, Shared.called, List.filter_append, hnone, List.filter_singleton]
  simp

theorem grows_called (hnone : s.callsOf i = []) : Grows s (s.called i prompt outcome) where
  calls := by
    intro j hj
    refine callsOf_called_other prompt outcome ?_
    rintro rfl
    exact hj hnone
  writes := fun _ hw => hw

theorem SoundShared.called (h : SoundShared explain_cache_ttl requests s) (hnone : s.callsOf i = []) :
    SoundShared explain_cache_ttl requests (s.called i prompt outcome) := by
  have hgrows := grows_called prompt outcome hnone
  refine ⟨⟨h.counted.hits, h.counted.fallbacks, ?_⟩, fun w hw => ?_, fun key text expires hcell => ?_⟩
  · simp [Shared.called, h.counted.outcomes]
  · exact ⟨(h.written w hw).1, hgrows.generated (h.written w hw).2⟩
  · obtain ⟨time, hwrote, hage⟩ := h.cells key text expires hcell
    exact ⟨time, hgrows.wrote hwrote, hage⟩

end Calls

section Store
variable {s t : Shared ι} {i : ι} {text : String}

omit [DecidableEq ι] in
theorem setEx_eq (h : s.setEx explain_cache_ttl requests i text = some t) :
    0 < explain_cache_ttl ∧ t = { s with
      cells := Function.update s.cells (requests i).key (some (text, s.now + lifetime explain_cache_ttl))
      writes := s.writes ++ [(i, text, s.now)] } := by
  unfold Shared.setEx at h
  split at h
  · rename_i hpos
    exact ⟨hpos, (Option.some.inj h).symm⟩
  · cases h

theorem grows_setEx (h : s.setEx explain_cache_ttl requests i text = some t) : Grows s t := by
  obtain ⟨-, rfl⟩ := setEx_eq h
  exact ⟨fun _ _ => rfl, fun w hw => List.mem_append_left _ hw⟩

theorem SoundShared.setEx (hs : SoundShared explain_cache_ttl requests s) (hi : Generated s i text)
    (h : s.setEx explain_cache_ttl requests i text = some t) :
    SoundShared explain_cache_ttl requests t := by
  have hgrows := grows_setEx h
  obtain ⟨-, rfl⟩ := setEx_eq h
  refine ⟨⟨hs.counted.hits, hs.counted.fallbacks, hs.counted.outcomes⟩, fun w hw => ?_,
    fun key text' expires hcell => ?_⟩
  · obtain hw | hw := List.mem_append.mp hw
    · exact ⟨(hs.written w hw).1, hgrows.generated (hs.written w hw).2⟩
    · obtain rfl := List.mem_singleton.mp hw
      exact ⟨le_rfl, hgrows.generated hi⟩
  · by_cases hkey : key = (requests i).key
    · rw [hkey] at hcell ⊢
      simp only [Function.update_self, Option.some.injEq, Prod.mk.injEq] at hcell
      obtain ⟨rfl, rfl⟩ := hcell
      exact ⟨s.now, ⟨i, by simp, rfl, hgrows.generated hi⟩, le_rfl, rfl⟩
    · simp only [Function.update_of_ne hkey] at hcell
      obtain ⟨time, hwrote, hage⟩ := hs.cells key text' expires hcell
      exact ⟨time, hgrows.wrote hwrote, hage⟩

end Store

/-! ## The invariant -/

section Invariant
variable {c d : Requests ι} {i : ι} {u : Shared ι}

/-- A request moves on without an answer. -/
theorem SoundRun.stay (h : SoundRun explain_cache_ttl requests c) {m : Stage}
    (hu : SoundShared explain_cache_ttl requests u) (hgrows : Grows c.shared u)
    (hcalls : ∀ j, j ≠ i → u.callsOf j = c.shared.callsOf j) (hfinished : u.finished = c.shared.finished)
    (hopen : ∀ a, c.locals i ≠ .ended a) (hm : m.Sound u i) (hshared : d.shared = u)
    (hlocal : d.locals i = m) (hframe : ∀ j, j ≠ i → d.locals j = c.locals j) :
    SoundRun explain_cache_ttl requests d := by
  subst hshared
  have hother : ∀ x ∈ c.shared.finished, x.1 ≠ i := by
    intro x hx hxi
    exact hopen x.2 (hxi ▸ h.finished x hx)
  refine ⟨hu, fun j => ?_, fun x hx => ?_, by rw [hfinished]; exact h.once, fun x hx => ?_⟩
  · by_cases hj : j = i
    · rw [hj, hlocal]
      exact hm
    · rw [hframe j hj]
      exact hgrows.stage (hcalls j hj) (fun x hx => hfinished ▸ hx) (h.stages j)
  · rw [hfinished] at hx
    rw [hframe x.1 (hother x hx)]
    exact h.finished x hx
  · rw [hfinished] at hx
    exact hgrows.answer (hcalls x.1 (hother x hx)) (h.answers x hx)

/-- A request ends with an answer. -/
theorem SoundRun.finish (h : SoundRun explain_cache_ttl requests c) {a : Answer}
    (hu : SoundShared explain_cache_ttl requests u) (hgrows : Grows c.shared u)
    (hcalls : ∀ j, j ≠ i → u.callsOf j = c.shared.callsOf j) (hfinished : u.finished = c.shared.finished)
    (hopen : ∀ a, c.locals i ≠ .ended a) (ha : a.Sound explain_cache_ttl requests u i)
    (hshared : d.shared = (u.finish i a).1) (hlocal : d.locals i = .ended a)
    (hframe : ∀ j, j ≠ i → d.locals j = c.locals j) : SoundRun explain_cache_ttl requests d := by
  have hmem : ∀ x, x ∈ d.shared.finished ↔ x ∈ c.shared.finished ∨ x = (i, a) := by
    intro x
    rw [hshared, ← hfinished]
    simp [Shared.finish]
  have hother : ∀ x ∈ c.shared.finished, x.1 ≠ i := by
    intro x hx hxi
    exact hopen x.2 (hxi ▸ h.finished x hx)
  have hsame : Grows u d.shared := by
    rw [hshared]
    exact ⟨fun _ _ => rfl, fun _ hw => hw⟩
  have hcallsOf : ∀ j, d.shared.callsOf j = u.callsOf j := by
    intro j
    rw [hshared]
    rfl
  refine ⟨?_, fun j => ?_, fun x hx => ?_, ?_, fun x hx => ?_⟩
  · rw [hshared]
    have hcounted := hu.counted
    refine ⟨?_, hu.written, hu.cells⟩
    cases a <;> exact ⟨by simp [Shared.finish, Answer.isHit, hcounted.hits],
      by simp [Shared.finish, Answer.reason, hcounted.fallbacks], hcounted.outcomes⟩
  · by_cases hj : j = i
    · rw [hj, hlocal]
      exact (hmem _).mpr (.inr rfl)
    · rw [hframe j hj]
      exact hsame.stage (hcallsOf j) (fun x hx => (hmem x).mpr (.inl (hfinished ▸ hx)))
        (hgrows.stage (hcalls j hj) (fun x hx => hfinished ▸ hx) (h.stages j))
  · obtain hx | rfl := (hmem x).mp hx
    · rw [hframe x.1 (hother x hx)]
      exact h.finished x hx
    · exact hlocal
  · have hlist : d.shared.finished = c.shared.finished ++ [(i, a)] := by
      rw [hshared, ← hfinished]
      rfl
    rw [hlist, List.map_append]
    refine h.once.append (List.nodup_singleton _) ?_
    simp only [List.map_singleton, List.disjoint_singleton, List.mem_map]
    rintro ⟨x, hx, hxi⟩
    exact hother x hx hxi
  · obtain hx | rfl := (hmem x).mp hx
    · exact hsame.answer (hcallsOf x.1) (hgrows.answer (hcalls x.1 (hother x hx)) (h.answers x hx))
    · exact hsame.answer (hcallsOf i) ha

theorem SoundRun.proc {e : Event} (h : SoundRun explain_cache_ttl requests c)
    (hstep : explainStep explain_cache_ttl requests c (.proc i e) = some d) :
    SoundRun explain_cache_ttl requests d := by
  obtain ⟨t, m, hrequest, hshared, hlocal, hframe⟩ := Trace.turn_proc hstep
  have hmoves := requestStep_moves hrequest
  have hi := h.stages i
  have hsame : Grows c.shared c.shared := ⟨fun _ _ => rfl, fun _ hw => hw⟩
  generalize hl : c.locals i = l at hmoves hi
  have hearly : l.Early → ∀ a, c.locals i ≠ .ended a := by
    rintro hearly a ha
    rw [← hl, ha] at hearly
    exact hearly
  cases hmoves with
  | wait hwait hm =>
    exact h.stay h.shared hsame (fun _ _ => rfl) rfl (hearly hwait) (hm.sound (hwait.callsOf hi)) hshared
      hlocal hframe
  | hit hlookup =>
    refine h.finish h.shared hsame (fun _ _ => rfl) rfl (hearly trivial) ?_ hshared hlocal hframe
    unfold Shared.lookup at hlookup
    split at hlookup
    · rename_i text' expires hcell
      split at hlookup
      · rename_i hlive
        obtain rfl := Option.some.inj hlookup
        obtain ⟨time, hwrote, hle, rfl⟩ := h.shared.cells _ _ _ hcell
        exact ⟨hi, time, hwrote, hle, hlive⟩
      · cases hlookup
    · cases hlookup
  | @fail l a hfail ha =>
    refine h.finish h.shared hsame (fun _ _ => rfl) rfl (hearly hfail) ?_ hshared hlocal hframe
    cases a with
    | hit text time => exact ha.elim
    | generated text => exact ha.elim
    | fallback reason => exact .inl (hfail.callsOf hi)
    | raised e => exact .inl (hfail.callsOf hi)
  | @call l prompt text outcome hcall htexts =>
    have hnone := hcall.callsOf hi
    have hgenerated : Generated (c.shared.called i prompt outcome) i text :=
      ⟨prompt, outcome, callsOf_called_self prompt outcome hnone, htexts⟩
    exact h.stay (m := .storing text) (h.shared.called prompt outcome hnone)
      (grows_called prompt outcome hnone) (fun j hj => callsOf_called_other prompt outcome hj) rfl
      (hearly hcall) hgenerated hshared hlocal hframe
  | @answer l prompt text outcome hcall htexts =>
    have hnone := hcall.callsOf hi
    have hgenerated : Generated (c.shared.called i prompt outcome) i text :=
      ⟨prompt, outcome, callsOf_called_self prompt outcome hnone, htexts⟩
    exact h.finish (a := .generated text) (h.shared.called prompt outcome hnone)
      (grows_called prompt outcome hnone) (fun j hj => callsOf_called_other prompt outcome hj) rfl
      (hearly hcall) hgenerated hshared hlocal hframe
  | @failed l prompt outcome a hcall hnot ha =>
    have hnone := hcall.callsOf hi
    have hcalls := callsOf_called_self prompt outcome hnone
    refine h.finish (h.shared.called _ _ hnone) (grows_called _ _ hnone)
      (fun j hj => callsOf_called_other _ _ hj) rfl (hearly hcall) ?_ hshared hlocal hframe
    cases a with
    | hit text time => exact ha.elim
    | generated text => exact ha.elim
    | fallback reason => exact .inr ⟨_, _, hcalls, hnot⟩
    | raised e => exact .inr ⟨_, _, hcalls, hnot⟩
  | @store text u hset =>
    have hgrows := grows_setEx hset
    have hsound := h.shared.setEx hi hset
    have hgenerated : Generated u i text := hgrows.generated hi
    obtain ⟨-, hu⟩ := setEx_eq hset
    exact h.finish (a := .generated text) hsound hgrows (fun _ _ => by rw [hu]; rfl) (by rw [hu])
      (by simp [hl]) hgenerated hshared hlocal hframe
  | @lost text =>
    have hgenerated : Generated c.shared i text := hi
    exact h.finish (a := .generated text) h.shared hsame (fun _ _ => rfl) rfl (by simp [hl]) hgenerated
      hshared hlocal hframe

theorem SoundRun.env {e : Outside} (h : SoundRun explain_cache_ttl requests c)
    (hstep : explainStep explain_cache_ttl requests c (.env e) = some d) :
    SoundRun explain_cache_ttl requests d := by
  obtain ⟨hshared, hlocals⟩ := Trace.turn_env hstep
  obtain ⟨⟨hcounted, hwritten, hcells⟩, hstages, hfinished, honce, hanswers⟩ := h
  cases e with
  | tick ms =>
    obtain hd := Option.some.inj hshared
    refine ⟨?_, ?_, ?_, ?_, ?_⟩
    · rw [← hd]
      refine ⟨⟨hcounted.hits, hcounted.fallbacks, hcounted.outcomes⟩, fun w hw => ?_,
        fun key text expires hcell => ?_⟩
      · exact ⟨Nat.le_add_right_of_le (hwritten w hw).1, (hwritten w hw).2⟩
      · obtain ⟨time, hwrote, hle, hexpires⟩ := hcells key text expires hcell
        exact ⟨time, hwrote, Nat.le_add_right_of_le hle, hexpires⟩
    · rw [← hd, hlocals]
      exact hstages
    · rw [← hd, hlocals]
      exact hfinished
    · rw [← hd]
      exact honce
    · rw [← hd]
      exact hanswers
  | lose key =>
    obtain hd := Option.some.inj hshared
    refine ⟨?_, ?_, ?_, ?_, ?_⟩
    · rw [← hd]
      refine ⟨⟨hcounted.hits, hcounted.fallbacks, hcounted.outcomes⟩, hwritten,
        fun key' text expires hcell => ?_⟩
      by_cases hkey : key' = key
      · rw [hkey] at hcell
        simp at hcell
      · simp only [Function.update_of_ne hkey] at hcell
        exact hcells key' text expires hcell
    · rw [← hd, hlocals]
      exact hstages
    · rw [← hd, hlocals]
      exact hfinished
    · rw [← hd]
      exact honce
    · rw [← hd]
      exact hanswers

theorem soundRun_begin : SoundRun explain_cache_ttl requests (begin : Requests ι) :=
  ⟨⟨⟨rfl, rfl, rfl⟩, nofun, nofun⟩, fun _ => rfl, nofun, List.nodup_nil, nofun⟩

end Invariant

end Keep

/-- **Runs of `GET /explain`.** Every state is sound, and a request that has ended made one call at most and
answered with a text that was generated for its key, or with 503. -/
theorem explain_runs {ι : Type} [DecidableEq ι] (explain_cache_ttl : ℤ) (requests : ι → Request)
    (as : List (ExplainAct ι)) (c : Requests ι)
    (h : Trace.exec (explainStep explain_cache_ttl requests) begin as = some c) :
    SoundRun explain_cache_ttl requests c ∧
      ∀ i a, c.locals i = .ended a → (c.shared.callsOf i).length ≤ 1 ∧
        ((∃ text j, a.response = .ok text ∧ text ≠ "" ∧ (requests j).key = (requests i).key ∧
            Generated c.shared j text) ∨
          a.response = .unavailable "explain temporarily unavailable") := by
  have hsound : SoundRun explain_cache_ttl requests c := by
    refine Trace.exec_preserves (fun s a t hs ht => ?_) h soundRun_begin
    cases a with
    | proc i e => exact hs.proc ht
    | env e => exact hs.env ht
  refine ⟨hsound, fun i a hi => ?_⟩
  have hanswer : a.Sound explain_cache_ttl requests c.shared i := by
    have hmem := hsound.stages i
    rw [hi] at hmem
    exact hsound.answers (i, a) hmem
  cases a with
  | hit text time =>
    obtain ⟨hnone, written, ⟨j, -, hkey, hgenerated⟩, -⟩ := hanswer
    have htext : text ≠ "" := by
      obtain ⟨_, _, _, _, _, _, hne⟩ := hgenerated
      exact hne
    exact ⟨by simp [hnone], .inl ⟨text, j, rfl, htext, hkey, hgenerated⟩⟩
  | generated text =>
    have hgenerated : Generated c.shared i text := hanswer
    obtain ⟨prompt, outcome, hcalls, -, -, -, hne⟩ := hanswer
    exact ⟨by simp [hcalls], .inl ⟨text, i, rfl, hne, rfl, hgenerated⟩⟩
  | fallback reason =>
    obtain hnone | ⟨prompt, outcome, hcalls, -⟩ := hanswer
    · exact ⟨by simp [hnone], .inr rfl⟩
    · exact ⟨by simp [hcalls], .inr rfl⟩
  | raised e =>
    obtain hnone | ⟨prompt, outcome, hcalls, -⟩ := hanswer
    · exact ⟨by simp [hnone], .inr rfl⟩
    · exact ⟨by simp [hcalls], .inr rfl⟩

def sampleRequests (_ : Trace.Two) : Request := ⟨"u1", "i1", true⟩

/-- The `SET` of the first request raises after it took effect; the second finds its text. -/
def sampleRun : List (ExplainAct Trace.Two) :=
  [.proc .first (.get .ok),
    .proc .first (.item (.ok (some ⟨"i1", "Buds", "", "audio", "Sony", 50, "", 0⟩))),
    .proc .first (.history (.ok ([], none, []))), .proc .first (.client true),
    .proc .first (.generate (.response ⟨.other, some " Fits your taste. ", [], none⟩)),
    .env (.tick 40), .proc .first (.set (.error true)), .env (.tick 3000), .proc .second (.get .ok)]

theorem explain_runs_hit : ∃ c, Trace.exec (explainStep 3600 sampleRequests) begin sampleRun = some c ∧
    c.locals .second = .ended (.hit "Fits your taste." 3040) ∧
    SoundRun 3600 sampleRequests c ∧
      ∀ i a, c.locals i = .ended a → (c.shared.callsOf i).length ≤ 1 ∧
        ((∃ text j, a.response = .ok text ∧ text ≠ "" ∧
            (sampleRequests j).key = (sampleRequests i).key ∧ Generated c.shared j text) ∨
          a.response = .unavailable "explain temporarily unavailable") :=
  ⟨_, rfl, rfl, explain_runs 3600 sampleRequests sampleRun _ rfl⟩

end ClickRec.Llm.Explain
