import ClickRec.Api.Batch
import ClickRec.Api.ClaimSafety

/-! # At most one accepted publish for each event id

With a healthy Redis a request that publishes holds the claim of its id, so a second publish of the
id starts only after the first is known to have failed. -/
namespace ClickRec.Api.Ingest
set_option autoImplicit false

/-! ## Requests -/

section Requests
variable {ι : Type} {calls : ι → Call} {c d : Requests ι} {i : ι}

def Edge.ackedOf (s : Edge ι) (id : Uuid) : ℕ := s.acked.countP fun p => p.event_id = id

theorem acked_iff_ackedOf {s : Edge ι} {id : Uuid} : s.Acked id ↔ 0 < s.ackedOf id := by
  simp [Edge.Acked, Edge.ackedOf, List.countP_pos_iff]

/-- The request was answered `accepted`. -/
def Accepted (c : Requests ι) (i : ι) : Prop := ∃ event_id, c.locals i = .done ⟨event_id, .accepted⟩

structure OneAck (calls : ι → Call) (c : Requests ι) : Prop where
  claims : ClaimHeld calls c
  once : ∀ id, c.shared.ackedOf id ≤ 1
  backed : ∀ i, Accepted c i → c.shared.Acked (calls i).eventId
  unique : ∀ i j, (calls i).eventId = (calls j).eventId → Accepted c i → Accepted c j → i = j

theorem oneAck_start : OneAck calls (start : Requests ι) where
  claims := claimHeld_start
  once := fun _ => Nat.zero_le 1
  backed := fun _ ⟨_, h⟩ => by cases h
  unique := fun _ _ _ ⟨_, h⟩ => by cases h

/-- A step that neither acknowledges a publish nor answers `accepted`. -/
theorem OneAck.afterOther (h : OneAck calls c) (hclaims : ClaimHeld calls d)
    (hacked : d.shared.acked = c.shared.acked) (hi : ¬ Accepted d i)
    (hframe : ∀ j, j ≠ i → d.locals j = c.locals j) : OneAck calls d := by
  have hback : ∀ j, Accepted d j → Accepted c j := by
    intro j hj
    have hne : j ≠ i := fun hji => hi (hji ▸ hj)
    rwa [Accepted, ← hframe j hne]
  refine ⟨hclaims, fun id => ?_, fun j hj => ?_, fun j k hid hj hk => ?_⟩
  · rw [Edge.ackedOf, hacked]
    exact h.once id
  · rw [Edge.Acked, hacked]
    exact h.backed j (hback j hj)
  · exact h.unique j k hid (hback j hj) (hback k hk)

/-- An acknowledged publish was the only one of its id in flight, and none came before it. -/
theorem OneAck.afterAck (h : OneAck calls c) (hclaims : ClaimHeld calls d)
    (hprogress : (c.locals i).inProgress)
    (hs : d.shared = { c.shared with acked := (calls i).publish :: c.shared.acked })
    (hframe : ∀ j, j ≠ i → d.locals j = c.locals j) : OneAck calls d := by
  obtain ⟨-, hunacked⟩ := h.claims.held i hprogress
  have hfirst : ∀ j, (calls j).eventId = (calls i).eventId → Accepted d j → j = i := by
    intro j hid hj
    by_contra hne
    rw [Accepted, hframe j hne] at hj
    exact hunacked (hid ▸ h.backed j hj)
  refine ⟨hclaims, fun id => ?_, fun j hj => ?_, fun j k hid hj hk => ?_⟩
  · have hcount : d.shared.ackedOf id =
        c.shared.ackedOf id + if (calls i).eventId = id then 1 else 0 := by
      simp [hs, Edge.ackedOf, List.countP_cons, Call.publish]
    rw [hcount]
    split
    · rename_i hid
      rw [acked_iff_ackedOf, hid] at hunacked
      omega
    · exact h.once id
  · rw [acked_afterAck hs]
    by_cases hid : (calls j).eventId = (calls i).eventId
    · exact .inl hid
    · have hne : j ≠ i := fun hji => hid (by rw [hji])
      rw [Accepted, hframe j hne] at hj
      exact .inr (h.backed j hj)
  · by_cases hji : (calls j).eventId = (calls i).eventId
    · rw [hfirst j hji hj, hfirst k (hid ▸ hji) hk]
    · have hj' : j ≠ i := fun h => hji (by rw [h])
      have hk' : k ≠ i := fun h => hji (by rw [hid, h])
      rw [Accepted, hframe j hj'] at hj
      rw [Accepted, hframe k hk'] at hk
      exact h.unique j k hid hj hk

variable [DecidableEq ι]

theorem oneAck_step {a : RequestAct ι} (h : OneAck calls c) (hh : Healthy a)
    (hstep : step calls c a = some d) : OneAck calls d := by
  have hclaims := claimHeld_step h.claims hh hstep
  cases a with
  | env id => exact hh.elim
  | proc i a =>
    obtain ⟨s, l, hr, hs, hi, hframe⟩ := Trace.turn_proc hstep
    have hrejected : ∀ {m}, d.locals i = m → (∀ event_id, m ≠ .done ⟨event_id, .accepted⟩) →
        ¬ Accepted d i := by
      rintro m hm hne ⟨event_id, h⟩
      exact hne event_id (hm.symm.trans h)
    obtain ⟨-, -, rfl, rfl⟩ | ⟨-, hclaim, rfl, rfl⟩ | ⟨-, hm, -, hacked⟩ | ⟨hl, rfl, rfl⟩ |
      ⟨-, -, rfl, e, rfl⟩ := requestStep_cases hh hr
    · exact h.afterOther hclaims (by rw [hs]) (hrejected hi (by simp)) hframe
    · exact h.afterOther hclaims (by rw [hs]; rfl) (hrejected hi (by simp)) hframe
    · refine h.afterOther hclaims (by rw [hs, hacked]) (hrejected hi ?_) hframe
      rintro event_id rfl
      exact hm
    · exact h.afterAck hclaims (by rw [hl]; trivial) hs hframe
    · exact h.afterOther hclaims (by rw [hs]; rfl) (hrejected hi (by simp)) hframe

/-- In a run of requests with a healthy Redis. -/
theorem oneAck_exec {as : List (RequestAct ι)} (hhealthy : ∀ a ∈ as, Healthy a)
    (hrun : Trace.exec (step calls) start as = some c) : OneAck calls c :=
  Trace.exec_invariant (C := fun _ a => Healthy a) (fun _ _ _ hI hC hstep => oneAck_step hI hC hstep)
    (Trace.along_of_mem hhealthy) hrun oneAck_start

end Requests

/-! ## Any endpoint -/

section Tasks
variable {γ : Type} {items : Items γ}

/-- No Redis error, no expiry, and a publish is acknowledged or raises what the code catches. -/
def HealthyTask : TaskAct γ → Prop
  | .proc _ (.item (.claim r)) => r = .ok
  | .proc _ (.item .publish) => True
  | .proc _ (.item (.published (.ok ()))) => True
  | .proc _ (.item (.published (.error e))) => e.caught = true
  | .proc _ (.item (.release r)) => r = .ok
  | .proc _ .next => True
  | .env _ => False

theorem HealthyTask.request {a : TaskAct γ} {b : RequestAct (Item items)} (h : HealthyTask a)
    (hof : OfItem a b) : Healthy b := by
  cases a with
  | env id => exact h.elim
  | proc g e =>
    cases e with
    | next => exact hof.elim
    | item e =>
      cases b with
      | env id => exact hof.elim
      | proc p e' =>
        obtain ⟨-, rfl⟩ := hof
        cases e with
        | claim r => exact h
        | publish => trivial
        | published r =>
          cases r with
          | ok u => trivial
          | error e => exact h
        | release r => exact h

/-- The event was answered `accepted`. -/
def AcceptedItem (c : Tasks items) (p : Item items) : Prop :=
  ∃ idx event_id,
    (c.locals p.1.1).results[p.1.2]? = some (idx, .ingested ⟨event_id, .accepted⟩)

theorem accepted_of_simulates {c : Tasks items} {r : Requests (Item items)} {p : Item items}
    (h : Simulates c r) (hp : AcceptedItem c p) : Accepted r p := by
  obtain ⟨idx, event_id, hres⟩ := hp
  obtain ⟨hlt, -⟩ := List.getElem?_eq_some_iff.mp hres
  obtain ⟨idx', res, hres', hitem⟩ := h.finished p hlt
  rw [hres] at hres'
  obtain ⟨-, rfl⟩ := Prod.mk.inj (Option.some.inj hres')
  refine ⟨event_id, ?_⟩
  unfold itemResult at hitem
  split at hitem
  · rename_i response hl
    rw [hl]
    cases hitem
    rfl
  · cases hitem
  · cases hitem
  · cases hitem

/-- **At most one accepted publish.** In every run of single-event requests and batch groups with a
healthy Redis and no expiry, whatever publishes fail: at most one publish of an event id is
acknowledged, and at most one event with the id is answered `accepted`. -/
theorem at_most_one_accepted [DecidableEq γ] (items : Items γ) (as : List (TaskAct γ))
    (hhealthy : ∀ a ∈ as, HealthyTask a) (c : Tasks items)
    (hrun : Trace.exec (taskStep items) (tasksStart items) as = some c) (id : Uuid) :
    c.shared.ackedOf id ≤ 1 ∧ ∀ p q : Item items, p.call.eventId = id → q.call.eventId = id →
      AcceptedItem c p → AcceptedItem c q → p = q := by
  obtain ⟨bs, r, hbs, hsim, hfrom⟩ := tasks_simulate hrun
  have hone : OneAck Item.call r := oneAck_exec (fun b hb => by
    obtain ⟨a, ha, hof⟩ := hfrom b hb
    exact (hhealthy a ha).request hof) hbs
  refine ⟨hsim.shared ▸ hone.once id, fun p q hp hq hacc_p hacc_q => ?_⟩
  exact hone.unique p q (hp.trans hq.symm) (accepted_of_simulates hsim hacc_p)
    (accepted_of_simulates hsim hacc_q)

end Tasks

/-! ## A batch that repeats an event beside a single-event request -/

/-- The first task is a group with the same event twice, the second a request for it. -/
def repeated : Items Trace.Two
  | .first => [(0, wideCall), (1, wideCall)]
  | .second => [(0, wideCall)]

/-- The first publish fails, the request for the event is a duplicate, the repetition is accepted. -/
def repeatedEvents : List (TaskAct Trace.Two) :=
  [.proc .first (.item (.claim .ok)), .proc .first (.item .publish), .proc .second (.item (.claim .ok)),
    .proc .first (.item (.published (.error .KafkaTimeoutError))), .proc .first (.item (.release .ok)),
    .proc .first .next, .proc .first (.item (.claim .ok)), .proc .second .next,
    .proc .first (.item .publish), .proc .first (.item (.published (.ok ()))), .proc .first .next]

theorem at_most_one_accepted_repeated : ∃ c,
    Trace.exec (taskStep repeated) (tasksStart repeated) repeatedEvents = some c ∧
      c.shared.ackedOf wideCall.eventId = 1 := by
  obtain ⟨c, hc, hacked⟩ : ∃ c,
      Trace.exec (taskStep repeated) (tasksStart repeated) repeatedEvents = some c ∧
        c.shared.Acked wideCall.eventId :=
    ⟨_, rfl, _, List.mem_cons_self, rfl⟩
  refine ⟨c, hc, ?_⟩
  have honce := (at_most_one_accepted repeated repeatedEvents
    (by simp [repeatedEvents, HealthyTask, PublishError.caught]) c hc wideCall.eventId).1
  have hpos := acked_iff_ackedOf.mp hacked
  omega

end ClickRec.Api.Ingest
