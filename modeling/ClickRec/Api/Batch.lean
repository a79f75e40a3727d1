import ClickRec.Api.Ingest
import ClickRec.Lib.PyList

/-! # `_ingest_group`: the events of one user one after the other

The tasks of the event loop run concurrently: a group of a batch ingests its events in order and
collects their results; a single-event endpoint is a task with one event. -/
namespace ClickRec.Api.Ingest
set_option autoImplicit false

/-! ## What a task works with -/

/-- The events each task ingests, with their index in the request. -/
abbrev Items (γ : Type) := γ → List (ℕ × Call)

/-- An event of a task, by its position. -/
abbrev Item {γ : Type} (items : Items γ) := { p : γ × ℕ // p.2 < (items p.1).length }

section Task
variable {γ : Type} {items : Items γ}

def Item.call (p : Item items) : Call := ((items p.1.1).get ⟨p.1.2, p.2⟩).2

inductive BatchResult where
  | ingested (response : IngestResponse)
  | error (event_id detail : String)
  deriving DecidableEq

/-- `_batch_error`. -/
def batchError (ev : EventRequest) (detail : String) : BatchResult :=
  .error ((ev.event_id.map uuidStr).getD "") detail

/-- The result of one event, once `_ingest_one` has ended. -/
def itemResult (call : Call) : Stage → Option BatchResult
  | .done response => some (.ingested response)
  | .failed (.httpException _ detail _) => some (batchError call.req detail)
  | .failed (.propagated e) => some (batchError call.req ("internal error: " ++ e.cls))
  | _ => none

/-- The results so far, and how far the next event has come. -/
structure Group where
  results : List (ℕ × BatchResult)
  stage : Stage

inductive GroupEvent where
  | item (a : Event)
  -- the result is appended and the loop goes on
  | next

def groupStep (items : Items γ) (g : γ) (s : Edge (Item items)) (group : Group) :
    GroupEvent → Option (Edge (Item items) × Group)
  | .item a =>
    if h : group.results.length < (items g).length then
      (requestStep Item.call ⟨(g, group.results.length), h⟩ s group.stage a).map fun r =>
        (r.1, { group with stage := r.2 })
    else none
  | .next =>
    match (items g)[group.results.length]? with
    | none => none
    | some (idx, call) => (itemResult call group.stage).map fun res =>
        (s, ⟨group.results ++ [(idx, res)], .start⟩)

/-! ## Concurrent tasks -/

abbrev Tasks (items : Items γ) := Trace.Config γ (Edge (Item items)) Group
abbrev TaskAct (γ : Type) := Trace.Act γ GroupEvent Uuid

def tasksStart (items : Items γ) : Tasks items := ⟨⟨fun _ => none, [], []⟩, fun _ => ⟨[], .start⟩⟩

/-! ## Tasks run as requests -/

/-- The requests that stand for the events of the tasks: the finished ones have ended with the
results collected, the next one has come as far as its task, and the later ones have not started. -/
structure Simulates (c : Tasks items) (r : Requests (Item items)) : Prop where
  shared : r.shared = c.shared
  finished : ∀ p : Item items, p.1.2 < (c.locals p.1.1).results.length → ∃ idx res,
    (c.locals p.1.1).results[p.1.2]? = some (idx, res) ∧ itemResult p.call (r.locals p) = some res
  current : ∀ p : Item items, p.1.2 = (c.locals p.1.1).results.length →
    r.locals p = (c.locals p.1.1).stage
  later : ∀ p : Item items, (c.locals p.1.1).results.length < p.1.2 → r.locals p = .start

theorem simulates_start : Simulates (tasksStart items) (start : Requests (Item items)) where
  shared := rfl
  finished := fun _ h => absurd h (Nat.not_lt_zero _)
  current := fun _ _ => rfl
  later := fun _ _ => rfl

/-- The request does what the task does with its event. -/
def OfItem (a : TaskAct γ) (b : RequestAct (Item items)) : Prop :=
  match a, b with
  | .proc g (.item e), .proc p e' => p.1.1 = g ∧ e = e'
  | .env id, .env id' => id = id'
  | _, _ => False

variable [DecidableEq γ]

def taskStep (items : Items γ) : Tasks items → TaskAct γ → Option (Tasks items) :=
  Trace.turn (groupStep items) expire

variable {c d : Tasks items} {r : Requests (Item items)} {g : γ}

/-- The request of the next event moves with its task. -/
theorem Simulates.item (h : Simulates c r) {p : Item items} {q : Requests (Item items)} {m : Stage}
    (hg : p.1.1 = g) (hpos : p.1.2 = (c.locals g).results.length)
    (hi : d.locals g = { c.locals g with stage := m }) (hframe : ∀ k, k ≠ g → d.locals k = c.locals k)
    (hs : q.shared = d.shared) (hp : q.locals p = m) (hrest : ∀ k, k ≠ p → q.locals k = r.locals k) :
    Simulates d q := by
  have hresults : ∀ k, (d.locals k).results = (c.locals k).results := by
    intro k
    by_cases hk : k = g
    · rw [hk, hi]
    · rw [hframe k hk]
  have hne : ∀ k : Item items, k.1.2 ≠ (d.locals k.1.1).results.length → k ≠ p := by
    rintro k hk rfl
    exact hk (by rw [hresults, hpos, hg])
  refine ⟨hs, fun k hk => ?_, fun k hk => ?_, fun k hk => ?_⟩
  · rw [hrest k (hne k hk.ne), hresults]
    exact h.finished k (hresults _ ▸ hk)
  · by_cases hkg : k.1.1 = g
    · obtain rfl : k = p := by
        rw [hresults, hkg, ← hpos] at hk
        exact Subtype.ext (Prod.ext (hkg.trans hg.symm) hk)
      rw [hp, hkg, hi]
    · have hkp : k ≠ p := fun hkp => hkg (by rw [hkp, hg])
      rw [hrest k hkp, hframe _ hkg]
      exact h.current k (by rw [hk, hframe _ hkg])
  · rw [hrest k (hne k hk.ne')]
    exact h.later k (hresults _ ▸ hk)

/-- The task collects the result of an event and goes on to the next one. -/
theorem Simulates.next (h : Simulates c r) {idx : ℕ} {call : Call} {res : BatchResult}
    (hitem : (items g)[(c.locals g).results.length]? = some (idx, call))
    (hres : itemResult call (c.locals g).stage = some res) (hs : d.shared = c.shared)
    (hi : d.locals g = ⟨(c.locals g).results ++ [(idx, res)], .start⟩)
    (hframe : ∀ k, k ≠ g → d.locals k = c.locals k) : Simulates d r := by
  obtain ⟨_, hget⟩ := List.getElem?_eq_some_iff.mp hitem
  have hlength : (d.locals g).results.length = (c.locals g).results.length + 1 := by
    rw [hi, List.length_append, List.length_singleton]
  refine ⟨by rw [hs, h.shared], ?_, ?_, ?_⟩
  · rintro ⟨⟨k, n⟩, hn⟩ hp
    by_cases hk : k = g
    · subst hk
      simp only [hlength] at hp
      obtain hlt | rfl := Nat.lt_succ_iff_lt_or_eq.mp hp
      · simp only [hi, List.getElem?_append_left hlt]
        exact h.finished ⟨(k, n), hn⟩ hlt
      · refine ⟨idx, res, by simp [hi], ?_⟩
        rw [h.current ⟨(k, _), hn⟩ rfl, Item.call]
        simp only [List.get_eq_getElem, hget]
        exact hres
    · simp only [hframe k hk] at hp ⊢
      exact h.finished ⟨(k, n), hn⟩ hp
  · rintro ⟨⟨k, n⟩, hn⟩ hp
    by_cases hk : k = g
    · subst hk
      simp only [hlength] at hp
      rw [h.later ⟨(k, n), hn⟩ (by simp only; omega)]
      simp only [hi]
    · simp only [hframe k hk] at hp ⊢
      exact h.current ⟨(k, n), hn⟩ hp
  · rintro ⟨⟨k, n⟩, hn⟩ hp
    by_cases hk : k = g
    · subst hk
      simp only [hlength] at hp
      exact h.later ⟨(k, n), hn⟩ (by simp only; omega)
    · simp only [hframe k hk] at hp
      exact h.later ⟨(k, n), hn⟩ hp

theorem simulates_step {a : TaskAct γ} (h : Simulates c r) (hstep : taskStep items c a = some d) :
    ∃ (bs : List (RequestAct (Item items))) (q : Requests (Item items)),
      Trace.exec (step Item.call) r bs = some q ∧ Simulates d q ∧ ∀ b ∈ bs, OfItem a b := by
  cases a with
  | env id =>
    obtain ⟨hexpire, hlocals⟩ := Trace.turn_env hstep
    refine ⟨[.env id], ⟨d.shared, r.locals⟩, ?_, ⟨rfl, ?_, ?_, ?_⟩, by simp [OfItem]⟩
    · refine Trace.exec_cons.mpr ⟨_, ?_, Trace.exec_nil _ _⟩
      rw [step, Trace.turn, h.shared, hexpire]
      rfl
    · rw [hlocals]
      exact h.finished
    · rw [hlocals]
      exact h.current
    · rw [hlocals]
      exact h.later
  | proc g e =>
    obtain ⟨s, group, hgroup, hs, hg, hframe⟩ := Trace.turn_proc hstep
    cases e with
    | item e =>
      simp only [groupStep] at hgroup
      split at hgroup
      · rename_i hpos
        obtain ⟨⟨t, m⟩, hrequest, hpair⟩ := Option.map_eq_some_iff.mp hgroup
        obtain ⟨rfl, rfl⟩ := Prod.mk.inj hpair
        let p : Item items := ⟨(g, (c.locals g).results.length), hpos⟩
        refine ⟨[.proc p e], ⟨d.shared, Function.update r.locals p m⟩, ?_,
          h.item (p := p) rfl rfl hg hframe rfl (Function.update_self ..)
            fun k hk => Function.update_of_ne hk .., by simp [OfItem, p]⟩
        refine Trace.exec_cons.mpr ⟨_, ?_, Trace.exec_nil _ _⟩
        have hstage : r.locals p = (c.locals g).stage := h.current p rfl
        rw [step, Trace.turn, h.shared, hstage, hrequest, hs]
        rfl
      · cases hgroup
    | next =>
      simp only [groupStep] at hgroup
      split at hgroup
      · cases hgroup
      · rename_i idx call hitem
        obtain ⟨res, hres, hpair⟩ := Option.map_eq_some_iff.mp hgroup
        obtain ⟨rfl, rfl⟩ := Prod.mk.inj hpair
        exact ⟨[], r, rfl, h.next hitem hres hs hg hframe, by simp⟩

/-- **Tasks run as requests.** In every run of tasks the claims, the publishes and the answers are
those of a run of requests, one for each event. -/
theorem tasks_simulate {as : List (TaskAct γ)}
    (hrun : Trace.exec (taskStep items) (tasksStart items) as = some c) :
    ∃ (bs : List (RequestAct (Item items))) (r : Requests (Item items)),
      Trace.exec (step Item.call) start bs = some r ∧ Simulates c r ∧
        ∀ b ∈ bs, ∃ a ∈ as, OfItem a b := by
  induction as using List.reverseRecOn generalizing c with
  | nil =>
    obtain rfl : tasksStart items = c := by simpa using hrun
    exact ⟨[], start, rfl, simulates_start, by simp⟩
  | append_singleton as a ih =>
    obtain ⟨e, hpre, hlast⟩ := Trace.exec_append.mp hrun
    obtain ⟨c', hstep, hnil⟩ := Trace.exec_cons.mp hlast
    obtain rfl : c' = c := by simpa using hnil
    obtain ⟨bs, r, hbs, hsim, hfrom⟩ := ih hpre
    obtain ⟨bs', q, hbs', hsim', hfrom'⟩ := simulates_step hsim hstep
    refine ⟨bs ++ bs', q, Trace.exec_append.mpr ⟨r, hbs, hbs'⟩, hsim', fun b hb => ?_⟩
    obtain hb | hb := List.mem_append.mp hb
    · obtain ⟨a', ha', hof⟩ := hfrom b hb
      exact ⟨a', List.mem_append_left _ ha', hof⟩
    · exact ⟨a, by simp, hfrom' b hb⟩

end Task

end ClickRec.Api.Ingest
