import ClickRec.Api.IngestBatch

/-! # The groups of a batch under every interleaving

The groups of `ingest_batch` take turns at their awaits. Every interleaving ends with the response of
the groups ingested one by one, and starts the publishes of each user in the order of the events. -/
namespace ClickRec.Api.Ingest
set_option autoImplicit false

/-! ## One event, await by await -/

def advance (call : Call) (a : Answers) : Stage → Option Stage
  | .start => some (match a.claim with
    | .ok true => .claimed
    | .ok false => .done ⟨uuidStr call.eventId, .duplicate⟩
    | .error e => .failed (.propagated e))
  -- `publish_event` is called
  | .claimed => some .inFlight
  | .inFlight => some (match a.publish with
    | .ok () => .done ⟨uuidStr call.eventId, .accepted⟩
    | .error e => if e.caught then .releasing e else .failed (raised e))
  | .releasing e => some (match a.release with
    | .ok () => .failed (raised e)
    | .error e' => .failed (.propagated e'))
  | _ => none

/-- How the event ends, once it has. -/
def settled : Stage → Option (Except IngestError IngestResponse)
  | .done response => some (.ok response)
  | .failed e => some (.error e)
  | _ => none

/-- How it will end. -/
def outcomeFrom (call : Call) (a : Answers) : Stage → Except IngestError IngestResponse
  | .start => ingestAnswered call a
  | .claimed => afterPublish call a
  | .inFlight => afterPublish call a
  | .releasing e => afterRelease a e
  | .done response => .ok response
  | .failed e => .error e

theorem outcomeFrom_settled {call : Call} {a : Answers} {m : Stage}
    {r : Except IngestError IngestResponse} (h : settled m = some r) : outcomeFrom call a m = r := by
  cases m with
  | done response => exact Option.some.inj h
  | failed e => exact Option.some.inj h
  | start => cases h
  | claimed => cases h
  | inFlight => cases h
  | releasing e => cases h

theorem outcomeFrom_advance {call : Call} {a : Answers} {l m : Stage}
    (h : advance call a l = some m) : outcomeFrom call a m = outcomeFrom call a l := by
  cases l with
  | start =>
    obtain rfl := Option.some.inj h
    rw [outcomeFrom, ingestAnswered]
    cases a.claim with
    | ok held =>
      cases held with
      | false => rfl
      | true => rfl
    | error e => rfl
  | claimed =>
    obtain rfl := Option.some.inj h
    rfl
  | inFlight =>
    obtain rfl := Option.some.inj h
    rw [outcomeFrom.eq_3, afterPublish]
    cases a.publish with
    | ok u => rfl
    | error e =>
      simp only
      split
      · rfl
      · rfl
  | releasing e =>
    obtain rfl := Option.some.inj h
    rw [outcomeFrom.eq_4, afterRelease]
    cases a.release with
    | ok u => rfl
    | error e' => rfl
  | done response => cases h
  | failed e => cases h

/-! ## Requests that share a Redis

`ingestAnswered` leaves open what the calls end with; with the Redis of `step` it is the other requests
that decide. -/

/-- What the request ended with, or is going to, is what some answers make of it. -/
def EndsAnswered (call : Call) : Stage → Prop
  | .releasing e => e.caught = true
  | .done response => ∃ a, ingestAnswered call a = .ok response
  | .failed e => ∃ a, ingestAnswered call a = .error e
  | _ => True

section Shared
variable {ι : Type} {calls : ι → Call}

theorem endsAnswered_requestStep {i : ι} {s t : Edge ι} {l m : Stage} {a : Event}
    (h : requestStep calls i s l a = some (t, m)) (hl : EndsAnswered (calls i) l) :
    EndsAnswered (calls i) m := by
  cases requestStep_inv h with
  | duplicate => exact ⟨⟨.ok false, .ok (), .ok ()⟩, rfl⟩
  | claim => trivial
  | claimFailed => trivial
  | publish => trivial
  | ack => exact ⟨⟨.ok true, .ok (), .ok ()⟩, rfl⟩
  | publishFailed he => exact he
  | @publishRaised e he =>
    refine ⟨⟨.ok true, .error e, .ok ()⟩, ?_⟩
    simp only [ingestAnswered, afterPublish, he, Bool.false_eq_true, if_false]
  | @release e =>
    have he : e.caught = true := hl
    refine ⟨⟨.ok true, .error e, .ok ()⟩, ?_⟩
    simp only [ingestAnswered, afterPublish, afterRelease, he, if_true]
  | @releaseFailed e =>
    have he : e.caught = true := hl
    refine ⟨⟨.ok true, .error e, .ok ()⟩, ?_⟩
    simp only [ingestAnswered, afterPublish, afterRelease, he, if_true]

/-- However requests take turns, each one ends as `_ingest_one` does for some answers. -/
theorem ends_answered [DecidableEq ι] {as : List (RequestAct ι)} {c : Requests ι}
    (hrun : Trace.exec (step calls) start as = some c) (i : ι) :
    EndsAnswered (calls i) (c.locals i) := by
  refine Trace.exec_preserves (I := fun c : Requests ι => ∀ i, EndsAnswered (calls i) (c.locals i))
    (fun s a t hI hstep => ?_) hrun (fun _ => trivial) i
  cases a with
  | proc j a =>
    obtain ⟨_, m, hr, -, hm, hframe⟩ := Trace.turn_proc hstep
    exact Trace.forall_locals hm hframe (endsAnswered_requestStep hr (hI j)) hI
  | env id =>
    rw [(Trace.turn_env hstep).2]
    exact hI

end Shared

/-- `publish_event` has been called. -/
def Stage.published : Stage → Bool
  | .inFlight => true
  | .releasing _ => true
  | _ => false

def Stage.rank : Stage → ℕ
  | .claimed => 1
  | .inFlight => 2
  | .releasing _ => 3
  | _ => 0

theorem advance_cases {call : Call} {a : Answers} {l m : Stage} (h : advance call a l = some m)
    (hm : settled m = none) : l = .start ∧ m = .claimed ∨ l = .claimed ∧ m = .inFlight ∨
      l = .inFlight ∧ ∃ e, m = .releasing e := by
  cases l with
  | start =>
    obtain rfl := Option.some.inj h
    cases hc : a.claim with
    | ok held =>
      cases held with
      | false => simp [hc, settled] at hm
      | true => exact .inl ⟨rfl, rfl⟩
    | error e => simp [hc, settled] at hm
  | claimed =>
    obtain rfl := Option.some.inj h
    exact .inr (.inl ⟨rfl, rfl⟩)
  | inFlight =>
    obtain rfl := Option.some.inj h
    cases hp : a.publish with
    | ok u => simp [hp, settled] at hm
    | error e =>
      by_cases he : e.caught = true
      · exact .inr (.inr ⟨rfl, e, by simp only [he, if_true]⟩)
      · simp [hp, he, settled] at hm
  | releasing e =>
    obtain rfl := Option.some.inj h
    cases hr : a.release with
    | ok u => simp [hr, settled] at hm
    | error e' => simp [hr, settled] at hm
  | done response => cases h
  | failed e => cases h

theorem rank_advance {call : Call} {a : Answers} {l m : Stage} (h : advance call a l = some m)
    (hm : settled m = none) : m.rank = l.rank + 1 := by
  obtain ⟨rfl, rfl⟩ | ⟨rfl, rfl⟩ | ⟨rfl, e, rfl⟩ := advance_cases h hm
  · rfl
  · rfl
  · rfl

/-- An event that has not ended can go on. -/
theorem exists_advance_of_not_settled (call : Call) (a : Answers) {l : Stage}
    (h : settled l = none) : ∃ m, advance call a l = some m := by
  cases l with
  | start => exact ⟨_, rfl⟩
  | claimed => exact ⟨_, rfl⟩
  | inFlight => exact ⟨_, rfl⟩
  | releasing e => exact ⟨_, rfl⟩
  | done response => cases h
  | failed e => cases h

theorem rank_lt_four (l : Stage) : l.rank < 4 := by
  cases l with
  | start => decide
  | claimed => decide
  | inFlight => decide
  | releasing e => exact Nat.lt_succ_self 3
  | done response => exact Nat.succ_pos 3
  | failed e => exact Nat.succ_pos 3

/-! ## The groups taking turns -/

inductive LogEntry where
  | started (user_id : String) (idx : ℕ)
  | finished (user_id : String) (idx : ℕ)
  deriving DecidableEq

/-- One `_ingest_group`: the results so far, the events that have none yet, how far the first of
these has come, and what has ended the group. -/
structure GroupRun where
  results : List (ℕ × BatchResult)
  rest : List (ℕ × EventRequest)
  stage : Stage
  ended : Option PyError

/-- The groups, and what has happened, the latest first. -/
structure BatchRun where
  runs : String → GroupRun
  log : List LogEntry

def batchStart (events : List EventRequest) : BatchRun :=
  ⟨fun u => ⟨[], itemsOf events u, .start, none⟩, []⟩

def BatchRun.put (c : BatchRun) (u : String) (g : GroupRun) (entries : List LogEntry) : BatchRun :=
  ⟨Function.update c.runs u g, entries ++ c.log⟩

def startedEntries (u : String) (idx : ℕ) : Stage → List LogEntry
  | .inFlight => [.started u idx]
  | _ => []

section Step
variable (draw : Draws) (answers : ℕ → Answers)

/-- The group of this user goes on to its next await. -/
def batchStep (c : BatchRun) (u : String) : Option BatchRun :=
  match (c.runs u).ended, (c.runs u).rest with
  | none, p :: rest =>
    (advance (callOf draw p) (answers p.1) (c.runs u).stage).map fun m =>
      match settled m with
      | none => c.put u { c.runs u with stage := m } (startedEntries u p.1 m)
      | some r =>
        match settle p.2 r with
        | .ok res =>
          c.put u ⟨(c.runs u).results ++ [(p.1, res)], rest, .start, none⟩ [.finished u p.1]
        | .error e => c.put u { c.runs u with ended := some e } [.finished u p.1]
  | _, _ => none

end Step

def GroupRun.over (g : GroupRun) : Bool := g.ended.isSome || g.rest.isEmpty

def GroupRun.result (g : GroupRun) : Except PyError (List (ℕ × BatchResult)) :=
  match g.ended with
  | some e => .error e
  | none => .ok g.results

/-- What `ingest_batch` returns once `gather` does. -/
def BatchRun.response (events : List EventRequest) (c : BatchRun) : Option (List BatchResult) :=
  if (groups events).all fun g => (c.runs g.1).over then
    some (gathered ((groups events).map fun g => (c.runs g.1).result) (groups events))
  else none

/-! ## What a turn can be -/

variable {draw : Draws} {answers : ℕ → Answers} {events : List EventRequest} {c d : BatchRun}
  {u : String}

/-- A turn of the group of `u`, at its event `p`. -/
inductive Turn (draw : Draws) (answers : ℕ → Answers) (c : BatchRun) (u : String)
    (p : ℕ × EventRequest) (rest : List (ℕ × EventRequest)) : BatchRun → Prop where
  | awaits {m : Stage} : advance (callOf draw p) (answers p.1) (c.runs u).stage = some m →
    settled m = none →
    Turn draw answers c u p rest (c.put u { c.runs u with stage := m } (startedEntries u p.1 m))
  | answered {res : BatchResult} : settle p.2
      (outcomeFrom (callOf draw p) (answers p.1) (c.runs u).stage) = .ok res →
    Turn draw answers c u p rest
      (c.put u ⟨(c.runs u).results ++ [(p.1, res)], rest, .start, none⟩ [.finished u p.1])
  | ends {e : PyError} : settle p.2
      (outcomeFrom (callOf draw p) (answers p.1) (c.runs u).stage) = .error e →
    Turn draw answers c u p rest (c.put u { c.runs u with ended := some e } [.finished u p.1])

theorem batchStep_inv (h : batchStep draw answers c u = some d) :
    ∃ p rest, (c.runs u).ended = none ∧ (c.runs u).rest = p :: rest ∧
      Turn draw answers c u p rest d := by
  unfold batchStep at h
  split at h
  · rename_i p rest hended hrest
    obtain ⟨m, hm, rfl⟩ := Option.map_eq_some_iff.mp h
    refine ⟨p, rest, hended, hrest, ?_⟩
    cases hs : settled m with
    | none => exact .awaits hm hs
    | some r =>
      have hout : outcomeFrom (callOf draw p) (answers p.1) (c.runs u).stage = r := by
        rw [← outcomeFrom_advance hm, outcomeFrom_settled hs]
      cases hr : settle p.2 r with
      | ok res =>
        simp only [hr]
        exact .answered (by rw [hout, hr])
      | error e =>
        simp only [hr]
        exact .ends (by rw [hout, hr])
  · cases h

/-! ## What every run keeps -/

/-- The publishes of a user, the latest first. -/
def startedBy (u : String) (log : List LogEntry) : List ℕ :=
  log.filterMap fun
    | .started v idx => if v = u then some idx else none
    | .finished _ _ => none

/-- A group has ingested its first events, and its log has them; the event it is at ends as it would
on its own, and no later one has been published. -/
structure GroupOk (draw : Draws) (answers : ℕ → Answers) (u : String)
    (items : List (ℕ × EventRequest)) (g : GroupRun) (log : List LogEntry) : Prop where
  split : ∃ ingested, items = ingested ++ g.rest ∧
    ingestGroup draw answers ingested = .ok g.results ∧
    ∀ p ∈ ingested, .finished u p.1 ∈ log
  current : g.ended = none → ∀ p rest, g.rest = p :: rest → settled g.stage = none ∧
    outcomeFrom (callOf draw p) (answers p.1) g.stage =
      ingestAnswered (callOf draw p) (answers p.1)
  stopped : ∀ e, g.ended = some e → ∃ p rest, g.rest = p :: rest ∧
    ingestItem draw answers p = .error e
  started : g.ended = none → ∀ idx ∈ startedBy u log, ∀ p rest, g.rest = p :: rest →
    idx < p.1 ∨ idx = p.1 ∧ g.stage.published = true

section Log
variable {v : String} {idx : ℕ} {log entries : List LogEntry}

theorem startedBy_append : startedBy v (entries ++ log) = startedBy v entries ++ startedBy v log :=
  List.filterMap_append

@[simp] theorem startedBy_self : startedBy u (.started u idx :: log) = idx :: startedBy u log := by
  simp [startedBy]

theorem startedBy_ne (h : u ≠ v) : startedBy v (.started u idx :: log) = startedBy v log := by
  simp [startedBy, h]

end Log

@[simp] theorem BatchRun.put_runs_self (c : BatchRun) (u : String) (g : GroupRun)
    (entries : List LogEntry) : (c.put u g entries).runs u = g := Function.update_self ..

theorem BatchRun.put_runs_ne (c : BatchRun) {u v : String} (h : v ≠ u) (g : GroupRun)
    (entries : List LogEntry) : (c.put u g entries).runs v = c.runs v := Function.update_of_ne h ..

/-- A group does not see the turns of the others. -/
theorem GroupOk.frame {v : String} {items : List (ℕ × EventRequest)} {g : GroupRun}
    {log entries : List LogEntry} (h : GroupOk draw answers v items g log)
    (hentries : startedBy v entries = []) : GroupOk draw answers v items g (entries ++ log) where
  split := by
    obtain ⟨ingested, hitems, hresults, hlog⟩ := h.split
    exact ⟨ingested, hitems, hresults, fun p hp => List.mem_append_right entries (hlog p hp)⟩
  current := h.current
  stopped := h.stopped
  started := by
    rw [startedBy_append, hentries]
    exact h.started

section OwnTurn
variable {items rest : List (ℕ × EventRequest)} {p : ℕ × EventRequest} {g : GroupRun}
  {log : List LogEntry}

theorem ingestItem_eq_of_current (h : GroupOk draw answers u items g log) (hended : g.ended = none)
    (hrest : g.rest = p :: rest) : ingestItem draw answers p =
      settle p.2 (outcomeFrom (callOf draw p) (answers p.1) g.stage) := by
  rw [ingestItem, (h.current hended p rest hrest).2]

/-- Before `publish_event` is called for an event, no later one has been published. -/
theorem GroupOk.started_before (h : GroupOk draw answers u items g log) (hended : g.ended = none)
    (hrest : g.rest = p :: rest) (hstage : g.stage.published = false) :
    ∀ idx ∈ startedBy u log, idx < p.1 := by
  intro idx hidx
  obtain hlt | ⟨-, hpublished⟩ := h.started hended idx hidx p rest hrest
  · exact hlt
  · rw [hstage] at hpublished
    cases hpublished

theorem GroupOk.awaits (h : GroupOk draw answers u items g log) (hended : g.ended = none)
    (hrest : g.rest = p :: rest) {m : Stage}
    (hm : advance (callOf draw p) (answers p.1) g.stage = some m) (hs : settled m = none) :
    GroupOk draw answers u items { g with stage := m } (startedEntries u p.1 m ++ log) where
  split := by
    obtain ⟨ingested, hitems, hresults, hlog⟩ := h.split
    exact ⟨ingested, hitems, hresults, fun q hq => List.mem_append_right _ (hlog q hq)⟩
  current := by
    intro _ q rest' hq
    obtain ⟨rfl, rfl⟩ := List.cons.inj (hrest.symm.trans hq)
    exact ⟨hs, (outcomeFrom_advance hm).trans (h.current hended p rest hrest).2⟩
  stopped := fun e he => absurd (hended.symm.trans he) (by simp)
  started := by
    intro _ idx hidx q rest' hq
    obtain ⟨rfl, rfl⟩ := List.cons.inj (hrest.symm.trans hq)
    obtain ⟨hl, rfl⟩ | ⟨hl, rfl⟩ | ⟨hl, e, rfl⟩ := advance_cases hm hs
    · exact .inl (h.started_before hended hrest (by rw [hl]; rfl) idx hidx)
    · -- `publish_event` is called for `p`
      have hstart : startedEntries u p.1 .inFlight ++ log = .started u p.1 :: log := rfl
      rw [hstart, startedBy_self] at hidx
      obtain rfl | hidx := List.mem_cons.mp hidx
      · exact .inr ⟨rfl, rfl⟩
      · exact .inl (h.started_before hended hrest (by rw [hl]; rfl) idx hidx)
    · exact (h.started hended idx hidx p rest hrest).imp_right fun hp => ⟨hp.1, rfl⟩

theorem GroupOk.answered (h : GroupOk draw answers u items g log) (hended : g.ended = none)
    (hrest : g.rest = p :: rest) (hsorted : items.Pairwise fun p q => p.1 < q.1) {res : BatchResult}
    (hres : ingestItem draw answers p = .ok res) :
    GroupOk draw answers u items ⟨g.results ++ [(p.1, res)], rest, .start, none⟩
      (.finished u p.1 :: log) where
  split := by
    obtain ⟨ingested, hitems, hresults, hlog⟩ := h.split
    refine ⟨ingested ++ [p], by rw [hitems, hrest]; simp, ?_, fun q hq => ?_⟩
    · rw [ingestGroup] at hresults ⊢
      rw [List.mapM_append, hresults, List.mapM_cons, hres]
      rfl
    · obtain hq | hq := List.mem_append.mp hq
      · exact List.mem_cons_of_mem _ (hlog q hq)
      · rw [List.mem_singleton.mp hq]
        exact List.mem_cons_self
  current := fun _ _ _ _ => ⟨rfl, rfl⟩
  stopped := fun e he => by cases he
  started := by
    intro _ idx hidx q rest' hq
    have hle := h.started hended idx hidx p rest hrest
    obtain ⟨ingested, hitems, -, -⟩ := h.split
    rw [hitems, hrest] at hsorted
    have hpq : p.1 < q.1 :=
      (List.pairwise_cons.mp (List.pairwise_append.mp hsorted).2.1).1 q (by
        have hq : rest = q :: rest' := hq
        rw [hq]
        exact List.mem_cons_self)
    obtain hlt | ⟨rfl, -⟩ := hle
    · exact .inl (hlt.trans hpq)
    · exact .inl hpq

theorem GroupOk.ends (h : GroupOk draw answers u items g log) (hrest : g.rest = p :: rest)
    {e : PyError} (he : ingestItem draw answers p = .error e) :
    GroupOk draw answers u items { g with ended := some e } (.finished u p.1 :: log) where
  split := by
    obtain ⟨ingested, hitems, hresults, hlog⟩ := h.split
    exact ⟨ingested, hitems, hresults, fun q hq => List.mem_cons_of_mem _ (hlog q hq)⟩
  current := fun hnone => by cases hnone
  stopped := by
    intro e' he'
    obtain rfl := Option.some.inj he'
    exact ⟨p, rest, hrest, he⟩
  started := fun hnone => by cases hnone

end OwnTurn

/-- Publishes of one user start in the order of the events, each after the events before it have
finished. -/
structure OrderedLog (events : List EventRequest) (log : List LogEntry) : Prop where
  increasing : ∀ u, (startedBy u log).Pairwise (· > ·)
  after : ∀ u idx later earlier, log = later ++ .started u idx :: earlier →
    ∀ i ev, i < idx → events[i]? = some ev → ev.user_id = u → .finished u i ∈ earlier


def BatchOk (draw : Draws) (answers : ℕ → Answers) (events : List EventRequest) (c : BatchRun) :
    Prop :=
  ∀ u, GroupOk draw answers u (itemsOf events u) (c.runs u) c.log

theorem pairwise_itemsOf (events : List EventRequest) (u : String) :
    (itemsOf events u).Pairwise fun p q => p.1 < q.1 :=
  (pairwise_enumerate events).sublist List.filter_sublist

theorem batchOk_start : BatchOk draw answers events (batchStart events) := fun u =>
  { split := ⟨[], rfl, rfl, fun p hp => by cases hp⟩
    current := fun _ _ _ _ => ⟨rfl, rfl⟩
    stopped := fun e he => by cases he
    started := fun _ idx hidx => by cases hidx }

theorem startedBy_startedEntries {v : String} (h : u ≠ v) (idx : ℕ) (m : Stage) :
    startedBy v (startedEntries u idx m) = [] := by
  cases m with
  | inFlight => exact startedBy_ne h
  | start => rfl
  | claimed => rfl
  | releasing e => rfl
  | done response => rfl
  | failed e => rfl

theorem batchOk_step (h : BatchOk draw answers events c)
    (hstep : batchStep draw answers c u = some d) : BatchOk draw answers events d := by
  obtain ⟨p, rest, hended, hrest, hturn⟩ := batchStep_inv hstep
  have hitem := ingestItem_eq_of_current (h u) hended hrest
  intro v
  by_cases hv : v = u
  · subst hv
    cases hturn with
    | awaits hm hs =>
      rw [BatchRun.put_runs_self]
      exact (h v).awaits hended hrest hm hs
    | answered hres =>
      rw [BatchRun.put_runs_self]
      exact (h v).answered hended hrest (pairwise_itemsOf events v) (hitem.trans hres)
    | ends he =>
      rw [BatchRun.put_runs_self]
      exact (h v).ends hrest (hitem.trans he)
  · cases hturn with
    | awaits hm hs =>
      rw [BatchRun.put_runs_ne c hv]
      exact (h v).frame (startedBy_startedEntries (Ne.symm hv) p.1 _)
    | answered hres =>
      rw [BatchRun.put_runs_ne c hv]
      exact (h v).frame rfl
    | ends he =>
      rw [BatchRun.put_runs_ne c hv]
      exact (h v).frame rfl

theorem batchOk_exec {acts : List String}
    (hrun : Trace.exec (batchStep draw answers) (batchStart events) acts = some c) :
    BatchOk draw answers events c :=
  Trace.exec_preserves (fun _ _ _ h hstep => batchOk_step h hstep) hrun batchOk_start

/-! ## The order of the publishes -/

theorem OrderedLog.finished {log : List LogEntry} (h : OrderedLog events log) (u : String) (idx : ℕ) :
    OrderedLog events (.finished u idx :: log) where
  increasing := h.increasing
  after := by
    intro v i later earlier hlog
    cases later with
    | nil => cases hlog
    | cons e later =>
      obtain ⟨-, hlog⟩ := List.cons.inj hlog
      exact h.after v i later earlier hlog

theorem OrderedLog.started {log : List LogEntry} (h : OrderedLog events log) {idx : ℕ}
    (hfirst : ∀ i ∈ startedBy u log, i < idx)
    (hafter : ∀ i ev, i < idx → events[i]? = some ev → ev.user_id = u → .finished u i ∈ log) :
    OrderedLog events (.started u idx :: log) where
  increasing := by
    intro v
    by_cases hv : u = v
    · subst hv
      rw [startedBy_self]
      exact List.pairwise_cons.mpr ⟨hfirst, h.increasing u⟩
    · rw [startedBy_ne hv]
      exact h.increasing v
  after := by
    intro v i later earlier hlog
    cases later with
    | nil =>
      obtain ⟨hentry, rfl⟩ := List.cons.inj hlog
      obtain ⟨rfl, rfl⟩ := LogEntry.started.inj hentry
      exact hafter
    | cons e later =>
      obtain ⟨-, hlog⟩ := List.cons.inj hlog
      exact h.after v i later earlier hlog

theorem mem_itemsOf {u : String} {i : ℕ} {ev : EventRequest} :
    (i, ev) ∈ itemsOf events u ↔ events[i]? = some ev ∧ ev.user_id = u := by
  rw [itemsOf, PyList.group, List.mem_filter, mem_enumerate, decide_eq_true_iff]

/-- The events of the user before the one its group is at have finished. -/
theorem GroupOk.finished_before {g : GroupRun} {log : List LogEntry} {p : ℕ × EventRequest}
    {rest : List (ℕ × EventRequest)} (h : GroupOk draw answers u (itemsOf events u) g log)
    (hrest : g.rest = p :: rest) {i : ℕ} {ev : EventRequest} (hi : i < p.1)
    (hev : events[i]? = some ev) (hu : ev.user_id = u) : .finished u i ∈ log := by
  obtain ⟨ingested, hitems, -, hlog⟩ := h.split
  have hsorted := pairwise_itemsOf events u
  have hmem := mem_itemsOf.mpr ⟨hev, hu⟩
  rw [hitems, hrest] at hsorted hmem
  obtain hmem | hmem := List.mem_append.mp hmem
  · exact hlog (i, ev) hmem
  · obtain heq | hmem := List.mem_cons.mp hmem
    · rw [← heq] at hi
      exact absurd hi (lt_irrefl i)
    · have hlt := (List.pairwise_cons.mp (List.pairwise_append.mp hsorted).2.1).1 (i, ev) hmem
      exact absurd hi hlt.not_gt

theorem orderedLog_step (hok : BatchOk draw answers events c) (h : OrderedLog events c.log)
    (hstep : batchStep draw answers c u = some d) : OrderedLog events d.log := by
  obtain ⟨p, rest, hended, hrest, hturn⟩ := batchStep_inv hstep
  cases hturn with
  | awaits hm hs =>
    obtain ⟨hl, rfl⟩ | ⟨hl, rfl⟩ | ⟨hl, e, rfl⟩ := advance_cases hm hs
    · exact h
    · exact h.started ((hok u).started_before hended hrest (by rw [hl]; rfl))
        fun i ev hi hev hu => (hok u).finished_before hrest hi hev hu
    · exact h
  | answered hres => exact h.finished u p.1
  | ends he => exact h.finished u p.1

theorem orderedLog_exec {acts : List String}
    (hrun : Trace.exec (batchStep draw answers) (batchStart events) acts = some c) :
    OrderedLog events c.log := by
  have hstart : BatchOk draw answers events (batchStart events) ∧
      OrderedLog events (batchStart events).log :=
    ⟨batchOk_start, ⟨fun _ => List.Pairwise.nil, fun _ _ _ _ h => absurd h (by simp [batchStart])⟩⟩
  have hstep : ∀ c u d, BatchOk draw answers events c ∧ OrderedLog events c.log →
      batchStep draw answers c u = some d → BatchOk draw answers events d ∧ OrderedLog events d.log :=
    fun _ _ _ h hstep => ⟨batchOk_step h.1 hstep, orderedLog_step h.1 h.2 hstep⟩
  exact (Trace.exec_preserves hstep hrun hstart).2

/-! ## The response -/

/-- A group that is over has the result it would have on its own. -/
theorem GroupOk.result_eq {items : List (ℕ × EventRequest)} {g : GroupRun} {log : List LogEntry}
    (h : GroupOk draw answers u items g log) (hover : g.over = true) :
    g.result = ingestGroup draw answers items := by
  obtain ⟨ingested, hitems, hresults, -⟩ := h.split
  rw [GroupRun.result]
  cases hended : g.ended with
  | some e =>
    obtain ⟨p, rest, hrest, he⟩ := h.stopped e hended
    rw [hitems, hrest]
    exact (PyList.mapM_eq_error hresults (by rw [he]; rfl)).symm
  | none =>
    rw [GroupRun.over, hended] at hover
    have hnil : g.rest = [] := by simpa using hover
    rw [hitems, hnil, List.append_nil]
    exact hresults.symm

theorem response_eq (hok : BatchOk draw answers events c) {results : List BatchResult}
    (h : c.response events = some results) : results = ingestBatch draw answers events := by
  rw [BatchRun.response] at h
  split at h
  · rename_i hover
    rw [List.all_eq_true] at hover
    rw [← Option.some.inj h, ingestBatch]
    congr 1
    refine List.map_congr_left fun g hg => ?_
    have hitems := hg
    rw [groups_eq] at hitems
    obtain ⟨u, -, rfl⟩ := List.mem_map.mp hitems
    exact (hok u).result_eq (hover _ hg)
  · cases h

/-- As long as there is no response, some group can go on. -/
theorem exists_turn (hok : BatchOk draw answers events c) (h : c.response events = none) :
    ∃ u d, batchStep draw answers c u = some d := by
  have hopen : ∃ g ∈ groups events, (c.runs g.1).over = false := by
    rw [BatchRun.response] at h
    split at h
    · cases h
    · rename_i hover
      simpa using hover
  obtain ⟨⟨u, items⟩, -, hover⟩ := hopen
  rw [GroupRun.over, Bool.or_eq_false_iff] at hover
  have hended : (c.runs u).ended = none := by simpa using hover.1
  obtain ⟨p, rest, hrest⟩ := List.exists_cons_of_ne_nil (l := (c.runs u).rest) (by simpa using hover.2)
  obtain ⟨m, hm⟩ := exists_advance_of_not_settled (callOf draw p) (answers p.1)
    ((hok u).current hended p rest hrest).1
  have hturn : (batchStep draw answers c u).isSome = true := by
    simp only [batchStep, hended, hrest, hm, Option.map_some, Option.isSome_some]
  exact ⟨u, Option.isSome_iff_exists.mp hturn⟩

/-- The awaits that a group still has before it, at most. -/
def GroupRun.left (g : GroupRun) : ℕ :=
  match g.ended, g.rest with
  | none, p :: rest => 4 * (p :: rest).length - g.stage.rank
  | _, _ => 0

theorem left_le (g : GroupRun) : g.left ≤ 4 * g.rest.length := by
  unfold GroupRun.left
  split
  · rename_i hrest
    rw [hrest]
    exact Nat.sub_le _ _
  · exact Nat.zero_le _

theorem left_step (h : batchStep draw answers c u = some d) (v : String) :
    (d.runs v).left + [u].count v ≤ (c.runs v).left := by
  obtain ⟨p, rest, hended, hrest, hturn⟩ := batchStep_inv h
  by_cases hv : v = u
  · subst hv
    have hrank := rank_lt_four (c.runs v).stage
    have hleft : (c.runs v).left = 4 * (p :: rest).length - (c.runs v).stage.rank := by
      simp only [GroupRun.left, hended, hrest]
    rw [List.count_singleton_self, hleft, List.length_cons]
    cases hturn with
    | @awaits m hm hs =>
      have hnext : ({ c.runs v with stage := m } : GroupRun).left =
          4 * (p :: rest).length - m.rank := by
        simp only [GroupRun.left, hended, hrest]
      have hm := rank_advance hm hs
      rw [BatchRun.put_runs_self, hnext, List.length_cons]
      omega
    | @answered res hres =>
      have hle := left_le ⟨(c.runs v).results ++ [(p.1, res)], rest, .start, none⟩
      rw [BatchRun.put_runs_self]
      simp only at hle
      omega
    | ends he =>
      rw [BatchRun.put_runs_self]
      simp only [GroupRun.left]
      omega
  · have hcount : [u].count v = 0 := List.count_eq_zero.mpr (by simpa using hv)
    rw [hcount]
    cases hturn with
    | awaits hm hs => rw [BatchRun.put_runs_ne c hv, Nat.add_zero]
    | answered hres => rw [BatchRun.put_runs_ne c hv, Nat.add_zero]
    | ends he => rw [BatchRun.put_runs_ne c hv, Nat.add_zero]

theorem count_le_of_exec {acts : List String}
    (hrun : Trace.exec (batchStep draw answers) c acts = some d) (u : String) :
    (d.runs u).left + acts.count u ≤ (c.runs u).left := by
  induction acts generalizing c with
  | nil =>
    obtain rfl : c = d := Option.some.inj hrun
    exact le_rfl
  | cons v acts ih =>
    obtain ⟨t, ht, hrest⟩ := Trace.exec_cons.mp hrun
    have hstep := left_step ht u
    have hrun := ih hrest
    have hcount : (v :: acts).count u = [v].count u + acts.count u := by
      rw [← List.count_append, List.singleton_append]
    omega

/-- Every interleaving of the groups starts the publishes of a user in the order of the events, each
after the event before has finished; it comes to an end; and its response has one result for each
event, about that event, which no other event that fails with an `Exception` changes. -/
theorem batch_accounted_in_order {acts : List String}
    (hrun : Trace.exec (batchStep draw answers) (batchStart events) acts = some c) :
    OrderedLog events c.log ∧
    (∀ u, acts.count u ≤ 4 * (itemsOf events u).length) ∧
    (c.response events = none → ∃ u d, batchStep draw answers c u = some d) ∧
    ∀ results, c.response events = some results →
      results.length = events.length ∧
      (∀ idx ev, events[idx]? = some ev →
        results[idx]? = some (resultOf draw answers events (idx, ev)) ∧
        ∀ id, ev.event_id = some id →
          (resultOf draw answers events (idx, ev)).eventId = uuidStr id) ∧
      ∀ (answers' : ℕ → Answers) (k : ℕ), (∀ i, i ≠ k → answers' i = answers i) →
        (∀ ev, events[k]? = some ev →
          ¬ Cancelled draw answers (k, ev) ∧ ¬ Cancelled draw answers' (k, ev)) →
        ∀ acts' c' results',
          Trace.exec (batchStep draw answers') (batchStart events) acts' = some c' →
          c'.response events = some results' → ∀ idx, idx ≠ k → results'[idx]? = results[idx]? := by
  have hok := batchOk_exec hrun
  refine ⟨orderedLog_exec hrun, fun u => ?_, exists_turn hok, fun results hresults => ?_⟩
  · have hcount := count_le_of_exec hrun u
    have hle := left_le ((batchStart events).runs u)
    have hitems : ((batchStart events).runs u).rest = itemsOf events u := rfl
    rw [hitems] at hle
    omega
  · obtain rfl := response_eq hok hresults
    rw [ingestBatch_eq]
    refine ⟨by simp [enumerate], fun idx ev hev => ⟨?_, fun id hid => eventId_resultOf hid⟩, ?_⟩
    · rw [getElem?_map_enumerate, hev]
      rfl
    · intro answers' k hrest hk acts' c' results' hrun' hresults' idx hidx
      rw [response_eq (batchOk_exec hrun') hresults', ingestBatch_eq, getElem?_map_enumerate,
        getElem?_map_enumerate]
      cases events[idx]? with
      | none => rfl
      | some ev => rw [Option.map_some, Option.map_some, resultOf_congr hrest hk hidx]

/-! ## Two clicks of one user -/

def clickOn (item_id : String) : EventRequest :=
  ⟨none, 1, "2024-01-01T00:00:00Z", "u1", "s1", .click none item_id 1 none⟩

def twoClicks : List EventRequest := [clickOn "i1", clickOn "i2"]

def draws : Draws := fun idx => (BitVec.ofNat 128 idx, "2024-01-01T00:00:00Z")

def allAccepted : ℕ → Answers := fun _ => ⟨.ok true, .ok (), .ok ()⟩

/-- The future that the second publish waits on is cancelled. -/
def secondCancelled : ℕ → Answers :=
  Function.update allAccepted 1 ⟨.ok true, .error (.other ⟨"CancelledError", "", ""⟩), .ok ()⟩

def sixTurns : List String := List.replicate 6 "u1"

theorem response_allAccepted :
    (Trace.exec (batchStep draws allAccepted) (batchStart twoClicks) sixTurns).bind
      (fun c => c.response twoClicks) =
    some [.ingested ⟨"00000000-0000-0000-0000-000000000000", .accepted⟩,
      .ingested ⟨"00000000-0000-0000-0000-000000000001", .accepted⟩] := by decide +kernel

theorem response_secondCancelled :
    (Trace.exec (batchStep draws secondCancelled) (batchStart twoClicks) sixTurns).bind
      (fun c => c.response twoClicks) =
    some [.error "" "internal error: CancelledError",
      .error "" "internal error: CancelledError"] := by decide +kernel

theorem batch_accounted_in_order_twoClicks :
    ∃ c results, Trace.exec (batchStep draws allAccepted) (batchStart twoClicks) sixTurns = some c ∧
      OrderedLog twoClicks c.log ∧ c.response twoClicks = some results ∧ results.length = 2 := by
  obtain ⟨c, hrun, hresponse⟩ := Option.bind_eq_some_iff.mp response_allAccepted
  obtain ⟨horder, -, -, hresults⟩ := batch_accounted_in_order hrun
  exact ⟨c, _, hrun, horder, hresponse, (hresults _ hresponse).1⟩

/-- A cancelled publish takes the accepted event before it along. -/
theorem cancelled_event_changes_accepted_result :
    ¬ ∀ (answers answers' : ℕ → Answers) (k : ℕ), (∀ i, i ≠ k → answers' i = answers i) →
      ∀ (acts acts' : List String) (c c' : BatchRun) (results results' : List BatchResult),
        Trace.exec (batchStep draws answers) (batchStart twoClicks) acts = some c →
        c.response twoClicks = some results →
        Trace.exec (batchStep draws answers') (batchStart twoClicks) acts' = some c' →
        c'.response twoClicks = some results' →
        ∀ idx, idx ≠ k → results'[idx]? = results[idx]? := by
  intro h
  obtain ⟨c, hrun, hresponse⟩ := Option.bind_eq_some_iff.mp response_allAccepted
  obtain ⟨c', hrun', hresponse'⟩ := Option.bind_eq_some_iff.mp response_secondCancelled
  have hrest : ∀ i, i ≠ 1 → secondCancelled i = allAccepted i := fun i hi =>
    Function.update_of_ne hi ..
  have hsame := h allAccepted secondCancelled 1 hrest sixTurns sixTurns c c' _ _ hrun hresponse
    hrun' hresponse' 0 (by decide)
  exact absurd hsame (by decide)

end ClickRec.Api.Ingest
