import ClickRec.Api.Batch

/-! # `ingest_batch`: the events of one request

The events are grouped by user, the groups ingested concurrently, and their results flattened and
sorted. What `dedupe_event_id`, `publish_event` and `release_event_id` end with is given for each
event; `asyncio.CancelledError` passes `except Exception` and ends the whole group. -/
namespace ClickRec.Api.Ingest
set_option autoImplicit false

/-! ## `_ingest_one` -/

/-- What the calls of one event end with. -/
structure Answers where
  claim : Except PyError Bool
  publish : Except PublishError Unit
  release : Except PyError Unit

def afterRelease (a : Answers) (e : PublishError) : Except IngestError IngestResponse :=
  match a.release with
  | .ok () => .error (raised e)
  | .error e' => .error (.propagated e')

def afterPublish (call : Call) (a : Answers) : Except IngestError IngestResponse :=
  match a.publish with
  | .ok () => .ok ⟨uuidStr call.eventId, .accepted⟩
  | .error e => if e.caught then afterRelease a e else .error (raised e)

/-- `_ingest_one`. -/
def ingestAnswered (call : Call) (a : Answers) : Except IngestError IngestResponse :=
  match a.claim with
  | .ok true => afterPublish call a
  | .ok false => .ok ⟨uuidStr call.eventId, .duplicate⟩
  | .error e => .error (.propagated e)

/-! ## `_ingest_group` -/

/-- `isinstance(e, Exception)`. An interrupt of the process ends the event loop with it. -/
def isException (e : PyError) : Bool := e.cls != "CancelledError"

def internalError (ev : EventRequest) (e : PyError) : BatchResult :=
  batchError ev ("internal error: " ++ e.cls)

/-- The two `except` clauses around `_ingest_one`; what passes them ends the group. -/
def settle (ev : EventRequest) : Except IngestError IngestResponse → Except PyError BatchResult
  | .ok response => .ok (.ingested response)
  | .error (.httpException _ detail _) => .ok (batchError ev detail)
  | .error (.propagated e) => if isException e then .ok (internalError ev e) else .error e

/-- The topics of `_TOPIC_BY_TYPE`. -/
def topicOf : EventBody → String
  | .click .. => "user.clicks"
  | .impression .. => "user.impressions"
  | .search .. => "user.searches"

/-- The UUIDv7 and the server time drawn for the event with this index. -/
abbrev Draws := ℕ → Uuid × String

def callOf (draw : Draws) (p : ℕ × EventRequest) : Call :=
  ⟨p.2, topicOf p.2.body, (draw p.1).1, (draw p.1).2⟩

section
variable (draw : Draws) (answers : ℕ → Answers)

def ingestItem (p : ℕ × EventRequest) : Except PyError BatchResult :=
  settle p.2 (ingestAnswered (callOf draw p) (answers p.1))

def ingestGroup (items : List (ℕ × EventRequest)) : Except PyError (List (ℕ × BatchResult)) :=
  items.mapM fun p => (ingestItem draw answers p).map fun res => (p.1, res)

end

/-! ## `ingest_batch` -/

def enumerate {α : Type} (l : List α) : List (ℕ × α) := l.zipIdx.map Prod.swap

def groups (events : List EventRequest) : List (String × List (ℕ × EventRequest)) :=
  PyList.groupInto (fun p => p.2.user_id) (enumerate events)

/-- What one group adds to `flat`. -/
def flatGroup (items : List (ℕ × EventRequest)) :
    Except PyError (List (ℕ × BatchResult)) → List (ℕ × BatchResult)
  | .ok results => results
  | .error e => items.map fun p => (p.1, internalError p.2 e)

/-- The response, once every group has ended. -/
def gathered (groupResults : List (Except PyError (List (ℕ × BatchResult))))
    (groups : List (String × List (ℕ × EventRequest))) : List BatchResult :=
  let flat := (groupResults.zip groups).flatMap fun g => flatGroup g.2.2 g.1
  (PyList.sortBy Prod.fst flat).map Prod.snd

def ingestBatch (draw : Draws) (answers : ℕ → Answers) (events : List EventRequest) :
    List BatchResult :=
  gathered ((groups events).map fun g => ingestGroup draw answers g.2) (groups events)

/-! ## The result of one event -/

section
variable {draw : Draws} {answers : ℕ → Answers} {events : List EventRequest}

/-- The events of one user, with their index. -/
def itemsOf (events : List EventRequest) (user_id : String) : List (ℕ × EventRequest) :=
  PyList.group (fun p => p.2.user_id) (enumerate events) user_id

/-- What the event's own calls make of it. -/
def ownResult (draw : Draws) (answers : ℕ → Answers) (p : ℕ × EventRequest) : BatchResult :=
  match ingestItem draw answers p with
  | .ok res => res
  | .error e => internalError p.2 e

/-- Its own result, unless the group of its user has been ended. -/
def resultOf (draw : Draws) (answers : ℕ → Answers) (events : List EventRequest)
    (p : ℕ × EventRequest) : BatchResult :=
  match ingestGroup draw answers (itemsOf events p.2.user_id) with
  | .ok _ => ownResult draw answers p
  | .error e => internalError p.2 e

theorem mem_enumerate {p : ℕ × EventRequest} : p ∈ enumerate events ↔ events[p.1]? = some p.2 := by
  rw [enumerate, List.mem_map]
  constructor
  · rintro ⟨q, hq, rfl⟩
    exact List.mem_zipIdx_iff_getElem?.mp hq
  · intro h
    exact ⟨p.swap, List.mem_zipIdx_iff_getElem?.mpr h, Prod.swap_swap p⟩

theorem pairwise_enumerate (events : List EventRequest) :
    (enumerate events).Pairwise fun p q => p.1 < q.1 := by
  have hfst : (enumerate events).map Prod.fst = List.range events.length := by
    rw [enumerate, List.map_map, List.range_eq_range']
    exact List.zipIdx_map_snd 0 events
  have hrange : (List.range events.length).Pairwise (· < ·) := List.pairwise_lt_range
  rw [← hfst] at hrange
  exact List.pairwise_map.mp hrange

theorem getElem?_map_enumerate {β : Type} (f : ℕ × EventRequest → β) (idx : ℕ) :
    ((enumerate events).map f)[idx]? = events[idx]?.map fun ev => f (idx, ev) := by
  rw [enumerate, List.map_map, List.getElem?_map, List.getElem?_zipIdx]
  cases events[idx]? with
  | none => rfl
  | some ev => simp

theorem groups_eq (events : List EventRequest) : groups events =
    (PyList.keepFirst id ((enumerate events).map fun p => p.2.user_id)).map fun u =>
      (u, itemsOf events u) :=
  PyList.groupInto_eq _

theorem ownResult_of_group {items : List (ℕ × EventRequest)} {results : List (ℕ × BatchResult)}
    (h : ingestGroup draw answers items = .ok results) :
    results = items.map fun p => (p.1, ownResult draw answers p) := by
  have hmap : ingestGroup draw answers items =
      .ok (items.map fun p => (p.1, ownResult draw answers p)) := by
    refine PyList.mapM_eq_ok fun p hp => ?_
    obtain ⟨res, hres⟩ := PyList.exists_of_mapM_eq_ok h p hp
    cases hitem : ingestItem draw answers p with
    | ok res' =>
      rw [ownResult, hitem]
      rfl
    | error e =>
      rw [hitem] at hres
      cases hres
  rw [h] at hmap
  exact Except.ok.inj hmap

/-- The results of a group are those of its events. -/
theorem flatGroup_eq (draw : Draws) (answers : ℕ → Answers) (events : List EventRequest)
    (u : String) :
    flatGroup (itemsOf events u) (ingestGroup draw answers (itemsOf events u)) =
      (itemsOf events u).map fun p => (p.1, resultOf draw answers events p) := by
  have huser : ∀ p ∈ itemsOf events u, p.2.user_id = u := fun p hp => by
    simpa using (List.mem_filter.mp hp).2
  cases hg : ingestGroup draw answers (itemsOf events u) with
  | ok results =>
    rw [flatGroup, ownResult_of_group hg]
    refine List.map_congr_left fun p hp => ?_
    rw [resultOf, huser p hp, hg]
  | error e =>
    rw [flatGroup]
    refine List.map_congr_left fun p hp => ?_
    rw [resultOf, huser p hp, hg]

/-- **Accounting.** The response has the result of each event, in the order of the events. -/
theorem ingestBatch_eq (draw : Draws) (answers : ℕ → Answers) (events : List EventRequest) :
    ingestBatch draw answers events =
      (enumerate events).map (resultOf draw answers events) := by
  have hzip : ((groups events).map fun g => ingestGroup draw answers g.2).zip (groups events) =
      (groups events).map fun g => (ingestGroup draw answers g.2, g) := by
    rw [List.zip_map_left, List.zip_eq_zipWith, List.zipWith_self, List.map_map]
    rfl
  have hflat : ((groups events).flatMap fun g =>
      flatGroup g.2 (ingestGroup draw answers g.2)) =
      ((groups events).flatMap Prod.snd).map fun p => (p.1, resultOf draw answers events p) := by
    rw [List.map_flatMap]
    refine List.flatMap_congr fun g hg => ?_
    rw [groups_eq] at hg
    obtain ⟨u, -, rfl⟩ := List.mem_map.mp hg
    exact flatGroup_eq draw answers events u
  have hperm : (((groups events).flatMap Prod.snd).map fun p =>
      (p.1, resultOf draw answers events p)).Perm
      ((enumerate events).map fun p => (p.1, resultOf draw answers events p)) :=
    (PyList.flatMap_groupInto_perm (enumerate events)).map _
  have hsorted : ((enumerate events).map fun p => (p.1, resultOf draw answers events p)).Pairwise
      fun p q => p.1 < q.1 := List.pairwise_map.mpr (pairwise_enumerate events)
  simp only [ingestBatch, gathered, hzip, List.flatMap_map, hflat]
  rw [PyList.sortBy_eq hperm hsorted, List.map_map]
  rfl

/-! ## Whose result it is -/

def BatchResult.eventId : BatchResult → String
  | .ingested response => response.event_id
  | .error event_id _ => event_id

theorem eventId_ingestAnswered {call : Call} {a : Answers} {response : IngestResponse}
    (h : ingestAnswered call a = .ok response) : response.event_id = uuidStr call.eventId := by
  unfold ingestAnswered afterPublish afterRelease at h
  split at h
  · split at h
    · rw [← Except.ok.inj h]
    · split at h
      · split at h
        · cases h
        · cases h
      · cases h
  · rw [← Except.ok.inj h]
  · cases h

theorem eventId_internalError {ev : EventRequest} {id : Uuid} (h : ev.event_id = some id)
    (e : PyError) : (internalError ev e).eventId = uuidStr id := by
  rw [internalError, batchError, h]
  rfl

theorem eventId_ownResult {p : ℕ × EventRequest} {id : Uuid} (h : p.2.event_id = some id) :
    (ownResult draw answers p).eventId = uuidStr id := by
  have hcall : (callOf draw p).eventId = id := by
    rw [Call.eventId, callOf, h]
    rfl
  rw [ownResult, ingestItem]
  cases hone : ingestAnswered (callOf draw p) (answers p.1) with
  | ok response =>
    have hid := eventId_ingestAnswered hone
    rw [hcall] at hid
    exact hid
  | error err =>
    cases err with
    | httpException status detail headers =>
      rw [settle, batchError, h]
      rfl
    | propagated e =>
      rw [settle]
      split
      · rename_i res hres
        split at hres
        · rw [← Except.ok.inj hres]
          exact eventId_internalError h e
        · cases hres
      · exact eventId_internalError h _

/-- Every result carries the id the client supplied. -/
theorem eventId_resultOf {p : ℕ × EventRequest} {id : Uuid} (h : p.2.event_id = some id) :
    (resultOf draw answers events p).eventId = uuidStr id := by
  rw [resultOf]
  split
  · exact eventId_ownResult h
  · exact eventId_internalError h _

/-! ## An event that fails -/

/-- What the event raises is no `Exception`. -/
def Cancelled (draw : Draws) (answers : ℕ → Answers) (p : ℕ × EventRequest) : Prop :=
  ∃ e, ingestItem draw answers p = .error e

theorem ingestItem_of_not_cancelled {p : ℕ × EventRequest} (h : ¬ Cancelled draw answers p) :
    ∃ res, ingestItem draw answers p = .ok res := by
  cases hp : ingestItem draw answers p with
  | ok res => exact ⟨res, rfl⟩
  | error e => exact absurd ⟨e, hp⟩ h

variable {answers' : ℕ → Answers} {k : ℕ}

theorem ingestItem_congr (hrest : ∀ i, i ≠ k → answers' i = answers i) {p : ℕ × EventRequest}
    (hp : p.1 ≠ k) : ingestItem draw answers' p = ingestItem draw answers p := by
  rw [ingestItem, ingestItem, hrest p.1 hp]

/-- A group is ended by what ends it without the event. -/
theorem ingestGroup_error_congr (hrest : ∀ i, i ≠ k → answers' i = answers i)
    {items : List (ℕ × EventRequest)} (hk : ∀ p ∈ items, p.1 = k →
      ¬ Cancelled draw answers p ∧ ¬ Cancelled draw answers' p) {e : PyError}
    (h : ingestGroup draw answers items = .error e) :
    ingestGroup draw answers' items = .error e := by
  refine PyList.mapM_error_congr (fun p hp => ?_) h
  by_cases hpk : p.1 = k
  · obtain ⟨hleft, hright⟩ := hk p hp hpk
    obtain ⟨res, hres⟩ := ingestItem_of_not_cancelled hleft
    obtain ⟨res', hres'⟩ := ingestItem_of_not_cancelled hright
    exact .inr ⟨⟨_, by rw [hres]; rfl⟩, ⟨_, by rw [hres']; rfl⟩⟩
  · exact .inl (by rw [ingestItem_congr hrest hpk])

/-- Whatever an event ends with short of a cancellation, the others have the same results. -/
theorem resultOf_congr (hrest : ∀ i, i ≠ k → answers' i = answers i)
    (hk : ∀ ev, events[k]? = some ev →
      ¬ Cancelled draw answers (k, ev) ∧ ¬ Cancelled draw answers' (k, ev))
    {p : ℕ × EventRequest} (hp : p.1 ≠ k) :
    resultOf draw answers' events p = resultOf draw answers events p := by
  have hitems : ∀ q ∈ itemsOf events p.2.user_id, q.1 = k →
      ¬ Cancelled draw answers q ∧ ¬ Cancelled draw answers' q := by
    rintro ⟨i, ev⟩ hq rfl
    exact hk ev (mem_enumerate.mp (List.mem_of_mem_filter hq))
  have hown : ownResult draw answers' p = ownResult draw answers p := by
    rw [ownResult, ownResult, ingestItem_congr hrest hp]
  rw [resultOf, resultOf, hown]
  cases hg : ingestGroup draw answers (itemsOf events p.2.user_id) with
  | error e => rw [ingestGroup_error_congr hrest hitems hg]
  | ok results =>
    cases hg' : ingestGroup draw answers' (itemsOf events p.2.user_id) with
    | ok results' => rfl
    | error e =>
      have hback : ingestGroup draw answers (itemsOf events p.2.user_id) = .error e :=
        ingestGroup_error_congr (fun i hi => (hrest i hi).symm)
          (fun q hq hqk => (hitems q hq hqk).symm) hg'
      rw [hg] at hback
      cases hback

end

end ClickRec.Api.Ingest
