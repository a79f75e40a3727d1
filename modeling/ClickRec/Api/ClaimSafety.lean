import ClickRec.Api.Ingest

/-! # What a dedupe claim stands for

After a failed ingest the claim is gone exactly when the exception is one of the two the code
catches. Under concurrency a `duplicate` answer rests on the claim of another request; it is backed
by an acknowledged publish unless that claim is released afterwards. -/
namespace ClickRec.Api.Ingest
set_option autoImplicit false

/-! ## Requests one after the other -/

section Sequential
variable {ι : Type}

/-- The state after whole requests, each with the end of its `publish_event`. -/
def ingestAll (s : Edge ι) : List (ι × Call × Except PublishError Unit) → Edge ι
  | [] => s
  | r :: rest => ingestAll (ingestOne r.1 s r.2.1 r.2.2).2 rest

theorem ingestOne_claims_ne (i : ι) (s : Edge ι) (call : Call) (result : Except PublishError Unit)
    {id : Uuid} (h : id ≠ call.eventId) : (ingestOne i s call result).2.claims id = s.claims id := by
  have hset : (s.publishing i call).claims id = s.claims id := Edge.setNx_ne s i h
  cases hclaim : s.claims call.eventId with
  | some k => rw [ingestOne_duplicate result hclaim]
  | none =>
    cases result with
    | ok _ => rw [ingestOne_accepted hclaim]; exact hset
    | error e =>
      cases he : e.caught with
      | true => rw [ingestOne_released hclaim he, Edge.del_ne _ h, hset]
      | false => rw [ingestOne_kept hclaim he, hset]

theorem ingestAll_claims (s : Edge ι) {id : Uuid} :
    ∀ {rs : List (ι × Call × Except PublishError Unit)}, (∀ r ∈ rs, r.2.1.eventId ≠ id) →
      (ingestAll s rs).claims id = s.claims id := by
  intro rs
  induction rs generalizing s with
  | nil => intro _; rfl
  | cons r rs ih =>
    intro h
    rw [ingestAll, ih _ fun r' hr' => h r' (List.mem_cons_of_mem _ hr')]
    exact ingestOne_claims_ne r.1 s r.2.1 r.2.2 (h r List.mem_cons_self).symm

/-- A request that finds no claim calls `publish_event`. -/
theorem ingestOne_published (i : ι) (s : Edge ι) (call : Call) (result : Except PublishError Unit)
    (hclaim : s.claims call.eventId = none) :
    (ingestOne i s call result).2.published = call.publish :: s.published := by
  match result with
  | .ok () => rw [ingestOne_accepted hclaim]; rfl
  | .error e =>
    cases he : e.caught with
    | true => rw [ingestOne_released hclaim he]; rfl
    | false => rw [ingestOne_kept hclaim he]; rfl

/-- The claim is not set, and whatever requests about other ids come in between, the next one with
this id calls `publish_event`. -/
def Republishable (s : Edge ι) (id : Uuid) : Prop :=
  s.claims id = none ∧
    ∀ others : List (ι × Call × Except PublishError Unit), (∀ r ∈ others, r.2.1.eventId ≠ id) →
      ∀ i (call : Call) result, call.eventId = id →
        (ingestOne i (ingestAll s others) call result).2.published =
          call.publish :: (ingestAll s others).published

theorem republishable_iff (s : Edge ι) (id : Uuid) : Republishable s id ↔ s.claims id = none := by
  refine ⟨fun h => h.1, fun h => ⟨h, fun others hothers i call result hid => ?_⟩⟩
  have hnone : (ingestAll s others).claims call.eventId = none := by
    rw [hid, ingestAll_claims s hothers, h]
  exact ingestOne_published i _ call result hnone

/-- **A failed ingest.** When a request ends by raising, the id can be published again, exactly in
these cases: the request was a duplicate (and did not raise), or `publish_event` raised one of the
two exceptions that are caught. -/
theorem failed_ingest_republishable_iff (i : ι) (s : Edge ι) (call : Call) (e : PublishError) :
    (∀ err, (ingestOne i s call (.error e)).1 = .error err →
      Republishable (ingestOne i s call (.error e)).2 call.eventId) ↔
    (s.claims call.eventId ≠ none ∨ e = .KafkaConnectionError ∨ e = .KafkaTimeoutError) := by
  simp only [republishable_iff]
  cases hclaim : s.claims call.eventId with
  | some k => simp [ingestOne_duplicate _ hclaim]
  | none =>
    cases he : e.caught with
    | true =>
      have hcaught : e = .KafkaConnectionError ∨ e = .KafkaTimeoutError := by
        cases e <;> simp_all [PublishError.caught]
      simp [ingestOne_released hclaim he, hcaught]
    | false =>
      have huncaught : ¬ (e = .KafkaConnectionError ∨ e = .KafkaTimeoutError) := by
        rintro (rfl | rfl) <;> cases he
      simp [ingestOne_kept hclaim he, huncaught, Edge.publishing]

/-- A click whose `dwell_ms` pydantic accepts and `orjson.dumps` does not. -/
def wideCall : Call where
  req := ⟨some 1#128, 1, "2026-01-01T00:00:00Z", "u1", "s1", .click none "i1" 0 (some (2 ^ 64))⟩
  topic := "user.clicks"
  uuid7 := 2#128
  server_ts := "2026-01-01T00:00:00Z"

def integerTooWide : PublishError :=
  .other ⟨"TypeError", "Integer exceeds 64-bit range", ""⟩

theorem failed_ingest_keeps_claim :
    ¬ ∀ (s : Edge ℕ) (call : Call) (e : PublishError) (err : IngestError),
      (ingestOne 0 s call (.error e)).1 = .error err →
        Republishable (ingestOne 0 s call (.error e)).2 call.eventId := by
  intro h
  have hclaim := (h ⟨fun _ => none, [], []⟩ wideCall integerTooWide _ rfl).1
  exact absurd hclaim (by decide)

end Sequential

/-! ## A request on its own runs as `ingestOne` -/

def endStage : Except IngestError IngestResponse → Stage
  | .ok response => .done response
  | .error e => .failed e

/-- The steps of a request whose `publish_event` ends this way. -/
def soloEvents {ι : Type} (s : Edge ι) (call : Call) (result : Except PublishError Unit) : List Event :=
  match s.claims call.eventId, result with
  | some _, _ => [.claim .ok]
  | none, .ok () => [.claim .ok, .publish, .published (.ok ())]
  | none, .error e =>
    [.claim .ok, .publish, .published (.error e)] ++ if e.caught then [.release .ok] else []

theorem solo_ingestOne {ι : Type} (calls : ι → Call) (i : ι) (s : Edge ι)
    (result : Except PublishError Unit) :
    Trace.exec (Trace.solo (requestStep calls) i) (s, .start) (soloEvents s (calls i) result) =
      some ((ingestOne i s (calls i) result).2, endStage (ingestOne i s (calls i) result).1) := by
  cases hclaim : s.claims (calls i).eventId with
  | some k =>
    rw [ingestOne_duplicate result hclaim]
    simp [soloEvents, Trace.exec, Trace.solo, requestStep, hclaim, endStage]
  | none =>
    cases result with
    | ok _ =>
      rw [ingestOne_accepted hclaim]
      simp only [soloEvents, hclaim, Trace.exec, Trace.solo, requestStep, Option.bind_some]
      rfl
    | error e =>
      cases he : e.caught with
      | true =>
        rw [ingestOne_released hclaim he]
        simp only [soloEvents, hclaim, he, if_true, List.cons_append, List.nil_append, Trace.exec,
          Trace.solo, requestStep, Option.bind_some]
        rfl
      | false =>
        rw [ingestOne_kept hclaim he]
        simp only [soloEvents, hclaim, he, Bool.false_eq_true, if_false, List.append_nil,
          Trace.exec, Trace.solo, requestStep, Option.bind_some]
        rfl

/-- In any configuration a request that is not interrupted does what `ingestOne` does. -/
theorem exec_ingestOne {ι : Type} [DecidableEq ι] (calls : ι → Call) (i : ι) (c : Requests ι)
    (hstart : c.locals i = .start) (result : Except PublishError Unit) :
    Trace.exec (step calls) c ((soloEvents c.shared (calls i) result).map (.proc i)) =
      some ⟨(ingestOne i c.shared (calls i) result).2,
        Function.update c.locals i (endStage (ingestOne i c.shared (calls i) result).1)⟩ := by
  apply Trace.exec_solo
  rw [hstart]
  exact solo_ingestOne calls i c.shared result

/-! ## Concurrent requests with a healthy Redis -/

section Concurrent
variable {ι : Type} {calls : ι → Call}

/-- No Redis error, no expiry, and a publish is acknowledged or raises what the code catches. -/
def Healthy : RequestAct ι → Prop
  | .proc _ (.claim r) => r = .ok
  | .proc _ .publish => True
  | .proc _ (.published (.ok ())) => True
  | .proc _ (.published (.error e)) => e.caught = true
  | .proc _ (.release r) => r = .ok
  | .env _ => False

/-- The request has its claim and no answer yet. -/
def Stage.inProgress : Stage → Prop
  | claimed => True
  | inFlight => True
  | releasing _ => True
  | _ => False

def Stage.finished : Stage → Prop
  | done _ => True
  | failed _ => True
  | _ => False

/-- Request `i` was answered with this status. -/
def Answered (calls : ι → Call) (c : Requests ι) (i : ι) (status : IngestStatus) : Prop :=
  c.locals i = .done ⟨uuidStr (calls i).eventId, status⟩

/-- The broker acknowledged a publish of this id. -/
def Edge.Acked (s : Edge ι) (id : Uuid) : Prop := ∃ p ∈ s.acked, p.event_id = id

/-- A claim is not released while a `duplicate` answer that rests on it is out. -/
def Uncontested (calls : ι → Call) (c : Requests ι) : RequestAct ι → Prop
  | .proc i (.release _) =>
    ∀ j, (calls j).eventId = (calls i).eventId → ¬ Answered calls c j .duplicate
  | _ => True

/-- Every request that was started has been answered. -/
def Settled (c : Requests ι) : Prop := ∀ i, c.locals i = .start ∨ (c.locals i).finished

/-- What a healthy step of request `i` can do. -/
theorem requestStep_cases {i : ι} {s t : Edge ι} {l m : Stage} {a : Event}
    (hh : Healthy (.proc i a)) (h : requestStep calls i s l a = some (t, m)) :
    (l = .start ∧ s.claims (calls i).eventId ≠ none ∧ t = s ∧
      m = .done ⟨uuidStr (calls i).eventId, .duplicate⟩) ∨
    (l = .start ∧ s.claims (calls i).eventId = none ∧ t = s.setNx i (calls i).eventId ∧
      m = .claimed) ∨
    (l.inProgress ∧ m.inProgress ∧ t.claims = s.claims ∧ t.acked = s.acked) ∨
    (l = .inFlight ∧ t = { s with acked := (calls i).publish :: s.acked } ∧
      m = .done ⟨uuidStr (calls i).eventId, .accepted⟩) ∨
    (l.inProgress ∧ (∃ r, a = .release r) ∧ t = s.del (calls i).eventId ∧ ∃ e, m = .failed e) := by
  cases requestStep_inv h with
  | duplicate hclaim => exact .inl ⟨rfl, by simp [hclaim], rfl, rfl⟩
  | claim hclaim => exact .inr (.inl ⟨rfl, hclaim, rfl, rfl⟩)
  | claimFailed => cases hh
  | publish => exact .inr (.inr (.inl ⟨trivial, trivial, rfl, rfl⟩))
  | ack => exact .inr (.inr (.inr (.inl ⟨rfl, rfl, rfl⟩)))
  | publishFailed he => exact .inr (.inr (.inl ⟨trivial, trivial, rfl, rfl⟩))
  | @publishRaised e he =>
    have hcaught : e.caught = true := hh
    rw [he] at hcaught
    cases hcaught
  | release => exact .inr (.inr (.inr (.inr ⟨trivial, ⟨_, rfl⟩, rfl, _, rfl⟩)))
  | releaseFailed => cases hh

/-- Only a request whose publish failed releases its claim. -/
theorem requestStep_release {i : ι} {s t : Edge ι} {l m : Stage}
    (h : requestStep calls i s l (.release .ok) = some (t, m)) :
    l.inProgress ∧ t = s.del (calls i).eventId := by
  cases l with
  | releasing e =>
    simp only [requestStep, Option.some.injEq, Prod.mk.injEq] at h
    exact ⟨trivial, h.1.symm⟩
  | _ => cases h

/-! ### A request in progress has its claim -/

/-- A request in progress has its claim, and nobody's publish of the id was acknowledged. -/
structure ClaimHeld (calls : ι → Call) (c : Requests ι) : Prop where
  held : ∀ i, (c.locals i).inProgress →
    c.shared.claims (calls i).eventId = some i ∧ ¬ c.shared.Acked (calls i).eventId
  acked : ∀ id, c.shared.Acked id → c.shared.claims id ≠ none

theorem claimHeld_start : ClaimHeld calls (start : Requests ι) where
  held := fun _ h => h.elim
  acked := by simp [start, Edge.Acked]

section Held
variable {c d : Requests ι} {i : ι}

theorem ClaimHeld.afterDuplicate (h : ClaimHeld calls c) (hs : d.shared = c.shared)
    (hi : ¬ (d.locals i).inProgress) (hframe : ∀ j, j ≠ i → d.locals j = c.locals j) :
    ClaimHeld calls d where
  held := by
    intro k hk
    have hne : k ≠ i := fun hki => hi (hki ▸ hk)
    rw [hframe k hne] at hk
    rw [hs]
    exact h.held k hk
  acked := by
    rw [hs]
    exact h.acked

theorem ClaimHeld.afterClaim (h : ClaimHeld calls c)
    (hclaim : c.shared.claims (calls i).eventId = none)
    (hs : d.shared = c.shared.setNx i (calls i).eventId)
    (hframe : ∀ j, j ≠ i → d.locals j = c.locals j) : ClaimHeld calls d where
  held := by
    intro k hk
    rw [hs]
    by_cases hne : k = i
    · subst hne
      refine ⟨by rw [Edge.setNx_self, hclaim]; rfl, fun hacked => h.acked _ hacked hclaim⟩
    · rw [hframe k hne] at hk
      obtain ⟨hsome, hunacked⟩ := h.held k hk
      have hid : (calls k).eventId ≠ (calls i).eventId := by
        intro hid
        rw [hid, hclaim] at hsome
        cases hsome
      exact ⟨by rw [Edge.setNx_ne _ _ hid, hsome], hunacked⟩
  acked := by
    intro id hacked
    rw [hs] at hacked ⊢
    by_cases hid : id = (calls i).eventId
    · subst hid
      simp
    · rw [Edge.setNx_ne _ _ hid]
      exact h.acked id hacked

theorem ClaimHeld.afterProgress (h : ClaimHeld calls c) (hbefore : (c.locals i).inProgress)
    (hclaims : d.shared.claims = c.shared.claims) (hacked : d.shared.acked = c.shared.acked)
    (hframe : ∀ j, j ≠ i → d.locals j = c.locals j) : ClaimHeld calls d := by
  have hsame : ∀ id, d.shared.Acked id ↔ c.shared.Acked id := fun id => by
    rw [Edge.Acked, hacked, Edge.Acked]
  refine ⟨fun k hk => ?_, fun k hk => ?_⟩
  · rw [hclaims, hsame]
    by_cases hne : k = i
    · exact h.held k (hne ▸ hbefore)
    · exact h.held k (hframe k hne ▸ hk)
  · rw [hclaims]
    exact h.acked k ((hsame k).mp hk)

theorem acked_afterAck (hs : d.shared = { c.shared with acked := (calls i).publish :: c.shared.acked })
    (id : Uuid) : d.shared.Acked id ↔ id = (calls i).eventId ∨ c.shared.Acked id := by
  simp [hs, Edge.Acked, Call.publish, eq_comm]

theorem ClaimHeld.afterAck (h : ClaimHeld calls c) (hbefore : (c.locals i).inProgress)
    (hs : d.shared = { c.shared with acked := (calls i).publish :: c.shared.acked })
    (hi : ¬ (d.locals i).inProgress) (hframe : ∀ j, j ≠ i → d.locals j = c.locals j) :
    ClaimHeld calls d := by
  obtain ⟨hheld, -⟩ := h.held i hbefore
  refine ⟨fun k hk => ?_, fun id hid => ?_⟩
  · have hne : k ≠ i := fun hki => hi (hki ▸ hk)
    rw [hframe k hne] at hk
    obtain ⟨hsome, hunacked⟩ := h.held k hk
    refine ⟨by rw [hs]; exact hsome, ?_⟩
    rw [acked_afterAck hs]
    rintro (hid | hk_acked)
    · rw [hid, hheld] at hsome
      exact hne (Option.some.inj hsome).symm
    · exact hunacked hk_acked
  · rw [hs]
    obtain rfl | hid := (acked_afterAck hs id).mp hid
    · simp [hheld]
    · exact h.acked id hid

theorem ClaimHeld.afterRelease (h : ClaimHeld calls c) (hbefore : (c.locals i).inProgress)
    (hs : d.shared = c.shared.del (calls i).eventId) (hi : ¬ (d.locals i).inProgress)
    (hframe : ∀ j, j ≠ i → d.locals j = c.locals j) : ClaimHeld calls d := by
  obtain ⟨hheld, hunacked⟩ := h.held i hbefore
  refine ⟨fun k hk => ?_, fun id hacked => ?_⟩
  · have hne : k ≠ i := fun hki => hi (hki ▸ hk)
    rw [hframe k hne] at hk
    obtain ⟨hsome, hk_unacked⟩ := h.held k hk
    have hid : (calls k).eventId ≠ (calls i).eventId := by
      intro hid
      rw [hid, hheld] at hsome
      exact hne (Option.some.inj hsome).symm
    rw [hs, Edge.del_ne _ hid]
    exact ⟨hsome, hk_unacked⟩
  · rw [hs] at hacked ⊢
    have hid : id ≠ (calls i).eventId := fun hid => hunacked (hid ▸ hacked)
    rw [Edge.del_ne _ hid]
    exact h.acked id hacked

end Held

/-! ### What the answers rest on -/

/-- Whose claim is set, and what the answers rest on. -/
structure ClaimsBacked (calls : ι → Call) (c : Requests ι) : Prop where
  holder : ∀ id i, c.shared.claims id = some i → (calls i).eventId = id ∧
    ((c.locals i).inProgress ∨ c.shared.Acked id)
  held : ∀ i, (c.locals i).inProgress →
    c.shared.claims (calls i).eventId = some i ∧ ¬ c.shared.Acked (calls i).eventId
  acked : ∀ id, c.shared.Acked id → c.shared.claims id ≠ none
  duplicate : ∀ i, Answered calls c i .duplicate →
    c.shared.claims (calls i).eventId ≠ none

theorem claimsBacked_start : ClaimsBacked calls (start : Requests ι) where
  holder := by simp [start]
  held := fun _ h => h.elim
  acked := by simp [start, Edge.Acked]
  duplicate := fun _ h => by cases h

/-! ### Each kind of step keeps `ClaimsBacked` -/

variable {c d : Requests ι} {i : ι}

theorem ClaimsBacked.toHeld (h : ClaimsBacked calls c) : ClaimHeld calls c := ⟨h.held, h.acked⟩

theorem ClaimsBacked.afterDuplicate (h : ClaimsBacked calls c)
    (hstart : c.locals i = .start) (hclaim : c.shared.claims (calls i).eventId ≠ none)
    (hs : d.shared = c.shared)
    (hi : d.locals i = .done ⟨uuidStr (calls i).eventId, .duplicate⟩)
    (hframe : ∀ j, j ≠ i → d.locals j = c.locals j) : ClaimsBacked calls d where
  holder := by
    intro id k hk
    rw [hs] at hk ⊢
    obtain ⟨hid, hprogress | hacked⟩ := h.holder id k hk
    · have hne : k ≠ i := by
        rintro rfl
        rw [hstart] at hprogress
        exact hprogress
      exact ⟨hid, .inl (by rwa [hframe k hne])⟩
    · exact ⟨hid, .inr hacked⟩
  held := (h.toHeld.afterDuplicate hs (by rw [hi]; exact id) hframe).held
  acked := (h.toHeld.afterDuplicate hs (by rw [hi]; exact id) hframe).acked
  duplicate := by
    intro k hk
    rw [hs]
    by_cases hne : k = i
    · rw [hne]
      exact hclaim
    · exact h.duplicate k (by rwa [Answered, ← hframe k hne])

theorem ClaimsBacked.afterClaim (h : ClaimsBacked calls c)
    (hclaim : c.shared.claims (calls i).eventId = none)
    (hs : d.shared = c.shared.setNx i (calls i).eventId) (hi : d.locals i = .claimed)
    (hframe : ∀ j, j ≠ i → d.locals j = c.locals j) : ClaimsBacked calls d where
  holder := by
    intro id k hk
    rw [hs] at hk ⊢
    by_cases hid : id = (calls i).eventId
    · subst hid
      rw [Edge.setNx_self, hclaim] at hk
      obtain rfl : i = k := by simpa using hk
      exact ⟨rfl, .inl (by rw [hi]; trivial)⟩
    · rw [Edge.setNx_ne _ _ hid] at hk
      obtain ⟨hk_id, hrest⟩ := h.holder id k hk
      have hne : k ≠ i := fun hki => hid (by rw [← hk_id, hki])
      rw [hframe k hne]
      exact ⟨hk_id, hrest⟩
  held := (h.toHeld.afterClaim hclaim hs hframe).held
  acked := (h.toHeld.afterClaim hclaim hs hframe).acked
  duplicate := by
    intro k hk
    rw [hs]
    by_cases hid : (calls k).eventId = (calls i).eventId
    · rw [hid]
      simp
    · rw [Edge.setNx_ne _ _ hid]
      have hne : k ≠ i := fun hki => hid (by rw [hki])
      exact h.duplicate k (by rwa [Answered, ← hframe k hne])

theorem ClaimsBacked.afterProgress (h : ClaimsBacked calls c)
    (hbefore : (c.locals i).inProgress) (hafter : (d.locals i).inProgress)
    (hclaims : d.shared.claims = c.shared.claims) (hacked : d.shared.acked = c.shared.acked)
    (hframe : ∀ j, j ≠ i → d.locals j = c.locals j) : ClaimsBacked calls d := by
  have hsame : ∀ id, d.shared.Acked id ↔ c.shared.Acked id := fun id => by
    rw [Edge.Acked, hacked, Edge.Acked]
  have hprogress : ∀ k, (d.locals k).inProgress ↔ (c.locals k).inProgress := by
    intro k
    by_cases hne : k = i
    · rw [hne]
      exact ⟨fun _ => hbefore, fun _ => hafter⟩
    · rw [hframe k hne]
  obtain ⟨hheld, hbacked⟩ := h.toHeld.afterProgress hbefore hclaims hacked hframe
  refine ⟨?_, hheld, hbacked, ?_⟩
  · intro id k hk
    rw [hclaims] at hk
    rw [hprogress, hsame]
    exact h.holder id k hk
  · intro k hk
    have hne : k ≠ i := by
      rintro rfl
      rw [hk] at hafter
      exact hafter
    rw [hclaims]
    exact h.duplicate k (by rwa [Answered, ← hframe k hne])

theorem ClaimsBacked.afterAck (h : ClaimsBacked calls c) (hflight : c.locals i = .inFlight)
    (hs : d.shared = { c.shared with acked := (calls i).publish :: c.shared.acked })
    (hi : d.locals i = .done ⟨uuidStr (calls i).eventId, .accepted⟩)
    (hframe : ∀ j, j ≠ i → d.locals j = c.locals j) : ClaimsBacked calls d := by
  have hbefore : (c.locals i).inProgress := by
    rw [hflight]
    trivial
  obtain ⟨hheld, hbacked⟩ := h.toHeld.afterAck hbefore hs (by rw [hi]; exact id) hframe
  refine ⟨?_, hheld, hbacked, ?_⟩
  · intro id k hk
    rw [hs] at hk
    obtain ⟨hid, hrest⟩ := h.holder id k hk
    rw [acked_afterAck hs]
    by_cases hne : k = i
    · exact ⟨hid, .inr (.inl (by rw [← hid, hne]))⟩
    · rw [hframe k hne]
      exact ⟨hid, hrest.imp_right .inr⟩
  · intro k hk
    have hne : k ≠ i := by
      rintro rfl
      rw [Answered, hi] at hk
      simp at hk
    rw [hs]
    exact h.duplicate k (by rwa [Answered, ← hframe k hne])

theorem ClaimsBacked.afterRelease (h : ClaimsBacked calls c) (hprogress : (c.locals i).inProgress)
    (hun : ∀ j, (calls j).eventId = (calls i).eventId → ¬ Answered calls c j .duplicate)
    (hs : d.shared = c.shared.del (calls i).eventId) {e : IngestError}
    (hi : d.locals i = .failed e) (hframe : ∀ j, j ≠ i → d.locals j = c.locals j) :
    ClaimsBacked calls d := by
  obtain ⟨hheld, hbacked⟩ := h.toHeld.afterRelease hprogress hs (by rw [hi]; exact id) hframe
  refine ⟨?_, hheld, hbacked, ?_⟩
  · intro id k hk
    have hid : id ≠ (calls i).eventId := by
      rintro rfl
      rw [hs, Edge.del_self] at hk
      cases hk
    rw [hs, Edge.del_ne _ hid] at hk
    obtain ⟨hk_id, hrest⟩ := h.holder id k hk
    have hne : k ≠ i := fun hki => hid (by rw [← hk_id, hki])
    rw [hframe k hne, hs]
    exact ⟨hk_id, hrest⟩
  · intro k hk
    have hne : k ≠ i := by
      rintro rfl
      rw [Answered, hi] at hk
      cases hk
    rw [Answered, hframe k hne] at hk
    have hid : (calls k).eventId ≠ (calls i).eventId := fun hid => hun k hid hk
    rw [hs, Edge.del_ne _ hid]
    exact h.duplicate k hk

variable [DecidableEq ι]

theorem claimHeld_step {a : RequestAct ι} (h : ClaimHeld calls c) (hh : Healthy a)
    (hstep : step calls c a = some d) : ClaimHeld calls d := by
  cases a with
  | env id => exact hh.elim
  | proc i a =>
    obtain ⟨s, l, hr, hs, hi, hframe⟩ := Trace.turn_proc hstep
    obtain ⟨-, -, rfl, rfl⟩ | ⟨-, hclaim, rfl, rfl⟩ | ⟨hl, -, hclaims, hacked⟩ | ⟨hl, rfl, rfl⟩ |
      ⟨hl, -, rfl, e, rfl⟩ := requestStep_cases hh hr
    · exact h.afterDuplicate hs (by rw [hi]; exact id) hframe
    · exact h.afterClaim hclaim hs hframe
    · exact h.afterProgress hl (hs ▸ hclaims) (hs ▸ hacked) hframe
    · exact h.afterAck (by rw [hl]; trivial) hs (by rw [hi]; exact id) hframe
    · exact h.afterRelease hl hs (by rw [hi]; exact id) hframe

theorem claimsBacked_step {a : RequestAct ι} (h : ClaimsBacked calls c) (hh : Healthy a)
    (hun : Uncontested calls c a) (hstep : step calls c a = some d) : ClaimsBacked calls d := by
  cases a with
  | env id => exact hh.elim
  | proc i a =>
    obtain ⟨s, l, hr, hs, hi, hframe⟩ := Trace.turn_proc hstep
    obtain ⟨hl, hclaim, rfl, rfl⟩ | ⟨hl, hclaim, rfl, rfl⟩ | ⟨hl, hm, hclaims, hacked⟩ |
      ⟨hl, rfl, rfl⟩ | ⟨hl, ⟨r, rfl⟩, rfl, e, rfl⟩ := requestStep_cases hh hr
    · exact h.afterDuplicate hl hclaim hs hi hframe
    · exact h.afterClaim hclaim hs hi hframe
    · exact h.afterProgress hl (hi ▸ hm) (hs ▸ hclaims) (hs ▸ hacked) hframe
    · exact h.afterAck hl hs hi hframe
    · exact h.afterRelease hl hun hs hi hframe

/-- **No false `duplicate`.** In every run with a healthy Redis in which no claim is released while
a `duplicate` answer rests on it, once all requests are answered a `duplicate` answer means an
acknowledged publish of the event. -/
theorem duplicate_backed_by_ack (as : List (RequestAct ι)) (c : Requests ι)
    (hhealthy : ∀ a ∈ as, Healthy a) (hun : Trace.Along (step calls) (Uncontested calls) start as)
    (hrun : Trace.exec (step calls) start as = some c) (hsettled : Settled c) (i : ι)
    (hdup : Answered calls c i .duplicate) : c.shared.Acked (calls i).eventId := by
  have hbacked : ClaimsBacked calls c :=
    Trace.exec_invariant (fun _ _ _ hI hC hstep => claimsBacked_step hI hC.1 hC.2 hstep)
      (Trace.along_and_mem hhealthy hun) hrun claimsBacked_start
  obtain ⟨k, hk⟩ := Option.ne_none_iff_exists'.mp (hbacked.duplicate i hdup)
  obtain ⟨-, hprogress | hacked⟩ := hbacked.holder _ k hk
  · obtain hstart | hfinished := hsettled k
    · rw [hstart] at hprogress
      exact hprogress.elim
    · cases hl : c.locals k <;> rw [hl] at hprogress hfinished <;> trivial
  · exact hacked

/-- The first contested release of a run leaves the `duplicate` answer without an acknowledged
publish and without a claim. -/
theorem contested_release_unbacked {i j : ι} {r : Redis} (h : ClaimsBacked calls c)
    (hh : Healthy (.proc i (.release r) : RequestAct ι))
    (hstep : step calls c (.proc i (.release r)) = some d)
    (hid : (calls j).eventId = (calls i).eventId) (hdup : Answered calls c j .duplicate) :
    Answered calls d j .duplicate ∧ ¬ d.shared.Acked (calls j).eventId ∧
      d.shared.claims (calls j).eventId = none := by
  obtain ⟨s, l, hr, hs, -, hframe⟩ := Trace.turn_proc hstep
  obtain rfl : r = .ok := hh
  obtain ⟨hprogress, hdel⟩ := requestStep_release hr
  have hne : j ≠ i := by
    rintro rfl
    rw [Answered] at hdup
    rw [hdup] at hprogress
    exact hprogress
  refine ⟨by rwa [Answered, hframe j hne], ?_, ?_⟩
  · rw [hs, hdel, hid]
    exact (h.held i hprogress).2
  · rw [hs, hdel, hid, Edge.del_self]

/-- Two requests with the event id of `wideCall`. -/
def retries (_ : Trace.Two) : Call := wideCall

def ackedRetry : List (RequestAct (Trace.Two)) :=
  [.proc .first (.claim .ok), .proc .second (.claim .ok), .proc .first .publish, .proc .first (.published (.ok ()))]

theorem duplicate_backed_by_ack_retry :
    ∃ c, Trace.exec (step retries) start ackedRetry = some c ∧
      Answered retries c .second .duplicate ∧ c.shared.Acked (retries .second).eventId := by
  have hrun : ∃ c, Trace.exec (step retries) start ackedRetry = some c ∧
      Answered retries c .second .duplicate ∧ Settled c :=
    ⟨_, rfl, rfl, fun k => by cases k <;> exact .inr trivial⟩
  obtain ⟨c, hc, hdup, hsettled⟩ := hrun
  refine ⟨c, hc, hdup, duplicate_backed_by_ack ackedRetry c ?_ ?_ hc hsettled .second hdup⟩
  · simp [ackedRetry, Healthy]
  · exact ⟨trivial, trivial, trivial, trivial, trivial⟩

/-- The second request is answered while the first is in flight; then the first times out. -/
theorem duplicate_without_ack :
    ¬ ∀ (as : List (RequestAct (Trace.Two))) (c : Requests (Trace.Two)), (∀ a ∈ as, Healthy a) →
      Trace.exec (step retries) start as = some c → Settled c →
        ∀ i, Answered retries c i .duplicate → c.shared.Acked (retries i).eventId := by
  intro h
  have hacked := h [.proc .first (.claim .ok), .proc .first .publish, .proc .second (.claim .ok),
    .proc .first (.published (.error .KafkaTimeoutError)), .proc .first (.release .ok)] _
    (by simp [Healthy, PublishError.caught]) rfl
    (fun k => by cases k <;> exact .inr trivial) .second rfl
  obtain ⟨p, hp, -⟩ := hacked
  cases hp

end Concurrent

end ClickRec.Api.Ingest
