import ClickRec.Kafka.DlqRoundTrip
import ClickRec.Kafka.PoisonPill

/-! # Which records `replay_dlq` gets past

Kafka acknowledges and the quarantine file can be written. What is left are the exceptions of the
code itself: `.get` of an envelope that is no `dict`, and the two serializers, `orjson.dumps` of a
payload to publish and `json.dumps` of a row to quarantine. -/
namespace ClickRec.Kafka.ReplayDlq
set_option autoImplicit false
open ProcessOne (rawValue)

variable {σ : Type} (json_dumps : Json → Except PyError String)

/-! ## One record -/

/-- The row of a record that is not replayed. -/
def quarantineRow (orjson : Orjson) (record : ConsumerRecord) (ts_ms : ℤ) : Json :=
  match orjson.loads (rawValue record) with
  | .error _ => envelopeParseFailed record ts_ms
  | .ok dlq_msg => dlq_msg

/-- `_quarantine` raises what `json.dumps` raises, and the broker acknowledges. -/
structure Healthy (orjson : Orjson) (record : ConsumerRecord) (replies : Replies) : Prop where
  file : replies.file =
    match json_dumps (quarantineRow orjson record replies.ts_ms) with
    | .ok _ => none
    | .error e => some e
  acked : replies.send = .ack

def CanQuarantine (row : Json) : Prop := ∃ line, json_dumps row = .ok line

/-- The value is the JSON of an envelope, and its payload has a user. -/
def Replayable (orjson : Orjson) (record : ConsumerRecord) (v : Json) (user_id : String) : Prop :=
  ∃ dlq_msg payload, orjson.loads (rawValue record) = .ok (.obj dlq_msg) ∧
    dlq_msg.lookup "original_payload" = some v ∧ HasUser v payload user_id

/-- A value that is JSON is an object; what is published or quarantined can be written. -/
structure Manageable (orjson : Orjson) (record : ConsumerRecord) (ts_ms : ℤ) : Prop where
  object : ∀ v, orjson.loads (rawValue record) = .ok v → ∃ dlq_msg, v = .obj dlq_msg
  published : ∀ v user_id, Replayable orjson record v user_id → ∃ value, orjson.dumps v = .ok value
  quarantined : (∀ v user_id, ¬ Replayable orjson record v user_id) →
    CanQuarantine json_dumps (quarantineRow orjson record ts_ms)

/-- The payload is published once and `replayed` returned, or one row is written and `skipped`
returned. -/
def Survives (orjson : Orjson) (record : ConsumerRecord) (replies : Replies) (s : Sinks) : Prop :=
  (∃ v user_id value, Replayable orjson record v user_id ∧ orjson.dumps v = .ok value ∧
    handleDlqRecord orjson record replies s =
      (.ok .replayed, s.publish value user_id replies.partition)) ∨
  handleDlqRecord orjson record replies s =
    (.ok .skipped, s.quarantine (quarantineRow orjson record replies.ts_ms))

section Handle
variable {json_dumps} {orjson : Orjson} {record : ConsumerRecord} {replies : Replies}

theorem Survives.returns {s : Sinks} (h : Survives orjson record replies s) :
    ∃ handled sinks, handleDlqRecord orjson record replies s = (.ok handled, sinks) := by
  obtain ⟨_, _, _, _, _, h⟩ | h := h
  · exact ⟨_, _, h⟩
  · exact ⟨_, _, h⟩

theorem handleDlqRecord_replayable {v : Json} {user_id : String}
    (h : Replayable orjson record v user_id) (replies : Replies) (s : Sinks) :
    handleDlqRecord orjson record replies s = sendClick orjson v user_id replies s := by
  obtain ⟨dlq_msg, payload, hloads, hv, huser⟩ := h
  rw [handleDlqRecord_hasUser hloads hv huser, huser.object]

theorem handleDlqRecord_not_replayable (hnone : ∀ v user_id, ¬ Replayable orjson record v user_id)
    (hobject : ∀ v, orjson.loads (rawValue record) = .ok v → ∃ dlq_msg, v = .obj dlq_msg)
    (replies : Replies) (s : Sinks) : handleDlqRecord orjson record replies s =
      quarantine (quarantineRow orjson record replies.ts_ms) replies s := by
  cases hloads : orjson.loads (rawValue record) with
  | error e => rw [handleDlqRecord_notJson hloads, quarantineRow, hloads]
  | ok v =>
    obtain ⟨dlq_msg, rfl⟩ := hobject v hloads
    rw [handleDlqRecord_noUser hloads, quarantineRow, hloads]
    exact fun v hv payload user_id huser => hnone v user_id ⟨dlq_msg, payload, hloads, hv, huser⟩

/-- A manageable record is replayed or quarantined. -/
theorem survives_of_manageable (hhealthy : Healthy json_dumps orjson record replies)
    (h : Manageable json_dumps orjson record replies.ts_ms) (s : Sinks) :
    Survives orjson record replies s := by
  by_cases hreplay : ∃ v user_id, Replayable orjson record v user_id
  · obtain ⟨v, user_id, hv⟩ := hreplay
    obtain ⟨value, hvalue⟩ := h.published v user_id hv
    refine .inl ⟨v, user_id, value, hv, hvalue, ?_⟩
    rw [handleDlqRecord_replayable hv, sendClick_dumped hvalue, hhealthy.acked]
  · push Not at hreplay
    obtain ⟨line, hline⟩ := h.quarantined hreplay
    refine .inr ?_
    rw [handleDlqRecord_not_replayable hreplay h.object, quarantine, hhealthy.file, hline]
    rfl

/-- Any other record raises, and nothing is published or written. -/
theorem raises_of_not_manageable (hhealthy : Healthy json_dumps orjson record replies)
    (h : ¬ Manageable json_dumps orjson record replies.ts_ms) (s : Sinks) :
    ∃ e, handleDlqRecord orjson record replies s = (.error e, s) := by
  by_cases hobject : ∀ v, orjson.loads (rawValue record) = .ok v → ∃ dlq_msg, v = .obj dlq_msg
  · by_cases hreplay : ∃ v user_id, Replayable orjson record v user_id
    · obtain ⟨v, user_id, hv⟩ := hreplay
      rw [handleDlqRecord_replayable hv, sendClick]
      cases hvalue : orjson.dumps v with
      | error e => exact ⟨e, rfl⟩
      | ok value =>
        refine absurd ⟨hobject, fun w _ hw => ?_, fun hnone => absurd hv (hnone v user_id)⟩ h
        obtain ⟨_, _, hloads, hlookup, -⟩ := hv
        obtain ⟨_, _, hloads', hlookup', -⟩ := hw
        cases hloads.symm.trans hloads'
        obtain rfl : v = w := Option.some.inj (hlookup.symm.trans hlookup')
        exact ⟨value, hvalue⟩
    · push Not at hreplay
      rw [handleDlqRecord_not_replayable hreplay hobject, quarantine, hhealthy.file]
      cases hline : json_dumps (quarantineRow orjson record replies.ts_ms) with
      | error e => exact ⟨e, rfl⟩
      | ok line =>
        exact absurd ⟨hobject, fun v user_id hv => absurd hv (hreplay v user_id),
          fun _ => ⟨line, hline⟩⟩ h
  · push Not at hobject
    obtain ⟨v, hloads, hv⟩ := hobject
    exact ⟨_, handleDlqRecord_notObject hloads hv replies s⟩

theorem survives_iff (hhealthy : Healthy json_dumps orjson record replies) (s : Sinks) :
    Survives orjson record replies s ↔ Manageable json_dumps orjson record replies.ts_ms := by
  constructor
  · intro hsurvives
    by_contra hnot
    obtain ⟨e, hraises⟩ := raises_of_not_manageable hhealthy hnot s
    obtain ⟨handled, sinks, hreturns⟩ := hsurvives.returns
    rw [hraises] at hreturns
    cases hreturns
  · exact fun h => survives_of_manageable hhealthy h s

end Handle

/-! ## A whole invocation -/

/-- Kafka and the quarantine file are healthy, and no exception comes from elsewhere. -/
def HealthyStep (env : ProcessOne.Env σ) (c : System σ) : Act → Prop
  | .handle replies => ∀ record rest last, c.replayer.loop = .handling (record :: rest) last →
    Healthy json_dumps env.orjson record replies
  | .commit reply => reply = .ack
  | .raises _ => False
  | _ => True

/-- A record that is handled is manageable. -/
def ManageableStep (env : ProcessOne.Env σ) (c : System σ) : Act → Prop
  | .handle replies => ∀ record rest last, c.replayer.loop = .handling (record :: rest) last →
    Manageable json_dumps env.orjson record replies.ts_ms
  | _ => True

/-- No exception has left the loop, and between two batches all that was polled is committed. -/
structure GotPast (c : System σ) : Prop where
  running : ∀ e, c.replayer.loop ≠ .raised e
  committed : c.replayer.loop = .polling → c.committed.getD 0 = c.replayer.position

/-- The commit of the current batch takes the group to the position of the replayer. -/
def CommitsPosition (c : System σ) : Prop :=
  match c.replayer.loop with
  | .polling => c.committed.getD 0 = c.replayer.position
  | .handling [] last => last.map (· + 1) = some c.replayer.position
  | .handling (record :: rest) _ => (rest.getLastD record).offset + 1 = c.replayer.position
  | .raised _ => False

theorem CommitsPosition.gotPast {c : System σ} (h : CommitsPosition c) : GotPast c where
  running e hloop := by
    rw [CommitsPosition, hloop] at h
    exact h
  committed hloop := by
    rw [CommitsPosition, hloop] at h
    exact h

/-- Handling the first record of the batch leaves the last one to be committed. -/
theorem CommitsPosition.handled {c : System σ} (h : CommitsPosition c) {record : ConsumerRecord}
    {rest : List ConsumerRecord} {last : Option ℕ}
    (hloop : c.replayer.loop = .handling (record :: rest) last) (handled : Handled) (sinks : Sinks) :
    CommitsPosition { c with
      replayer := { c.replayer.count handled with loop := .handling rest (some record.offset) }
      sinks := sinks } := by
  have hposition : (rest.getLastD record).offset + 1 = c.replayer.position := by
    rwa [CommitsPosition, hloop] at h
  have hcount : (c.replayer.count handled).position = c.replayer.position := by
    cases handled with
    | replayed => rfl
    | skipped => rfl
  cases rest with
  | nil =>
    show some (record.offset + 1) = some (c.replayer.count handled).position
    rw [hcount, ← hposition]
    rfl
  | cons next rest =>
    show (rest.getLastD next).offset + 1 = (c.replayer.count handled).position
    rw [hcount, ← hposition, List.getLastD_cons]

section Run
variable {json_dumps} {env : ProcessOne.Env σ}

theorem commitsPosition_step {c c' : System σ} {a : Act} (h : CommitsPosition c)
    (hcond : HealthyStep json_dumps env c a ∧ ManageableStep json_dumps env c a)
    (hstep : step env c a = some c') : CommitsPosition c' := by
  obtain ⟨hhealthy, hmanageable⟩ := hcond
  cases a with
  | getmany n =>
    simp only [step, getmanyStep] at hstep
    split at hstep
    · rename_i hloop
      split at hstep
      · split at hstep
        · cases hstep
          simpa only [CommitsPosition, hloop] using h
        · cases hstep
          rfl
      · cases hstep
    · cases hstep
  | handle replies =>
    simp only [step, handleStep] at hstep
    split at hstep
    · rename_i record rest last hloop
      obtain ⟨handled, sinks, hreturns⟩ := (survives_of_manageable
        (hhealthy record rest last hloop) (hmanageable record rest last hloop) c.sinks).returns
      rw [hreturns] at hstep
      cases hstep
      exact h.handled hloop handled sinks
    · cases hstep
  | commit reply =>
    obtain rfl : reply = .ack := hhealthy
    simp only [step, commitStep] at hstep
    split at hstep
    · rename_i hloop
      rw [CommitsPosition, hloop] at h
      cases h
    · rename_i last hloop
      cases hstep
      rw [CommitsPosition, hloop] at h
      exact Option.some.inj h
    · cases hstep
  | raises e => exact hhealthy.elim
  | processOne i stored =>
    simp only [step] at hstep
    split at hstep
    · cases hstep
    · cases hstep
      exact h
  | click record =>
    cases hstep
    exact h

/-- A step that handles a record it cannot manage ends the loop. -/
theorem raised_of_not_manageable {c c' : System σ} {a : Act}
    (hhealthy : HealthyStep json_dumps env c a) (hnot : ¬ ManageableStep json_dumps env c a)
    (hstep : step env c a = some c') : ∃ e, c'.replayer.loop = .raised e := by
  cases a with
  | handle replies =>
    simp only [ManageableStep, not_forall] at hnot
    obtain ⟨record, rest, last, hloop, hnot⟩ := hnot
    obtain ⟨e, hraises⟩ :=
      raises_of_not_manageable (hhealthy record rest last hloop) hnot c.sinks
    simp only [step, handleStep, hloop, hraises] at hstep
    cases hstep
    exact ⟨e, rfl⟩
  | _ => exact absurd trivial hnot

/-- The replayer does nothing more after an exception. -/
theorem raised_step {c c' : System σ} {a : Act} (h : ∃ e, c.replayer.loop = .raised e)
    (hstep : step env c a = some c') : ∃ e, c'.replayer.loop = .raised e := by
  obtain ⟨e, hloop⟩ := h
  cases moves hstep with
  | idle _ _ hsame _ _ => exact ⟨e, hsame.trans hloop⟩
  | raised _ _ hloop' _ _ => exact ⟨_, hloop'⟩
  | put _ _ hsame => exact ⟨e, by rw [hsame, hloop]⟩
  | fetched hpolling _ _ _ _ _ => cases hloop.symm.trans hpolling
  | handled hhandling _ _ _ _ _ => cases hloop.symm.trans hhandling
  | unhandled hhandling _ _ _ _ _ => cases hloop.symm.trans hhandling
  | committed hhandling _ _ _ _ => cases hloop.symm.trans hhandling

/-- **Survival.** With Kafka and the quarantine file healthy, a record is replayed or quarantined
exactly when it is manageable, and an invocation gets past its records exactly when all of those it
comes to are. -/
theorem replay_survives_iff (json_dumps : Json → Except PyError String) (env : ProcessOne.Env σ) :
    (∀ record replies s, Healthy json_dumps env.orjson record replies →
      (Survives env.orjson record replies s ↔
        Manageable json_dumps env.orjson record replies.ts_ms)) ∧
    (∀ deps clicks g as c, Trace.exec (step env) (start deps clicks g) as = some c →
      Trace.Along (step env) (HealthyStep json_dumps env) (start deps clicks g) as →
      (GotPast c ↔
        Trace.Along (step env) (ManageableStep json_dumps env) (start deps clicks g) as)) := by
  refine ⟨fun record replies s hhealthy => survives_iff hhealthy s, ?_⟩
  intro deps clicks g as c hrun hhealthy
  have hstart : CommitsPosition (start deps clicks g) := rfl
  constructor
  · intro hpast
    by_contra hnot
    obtain ⟨pre, a, post, v, w, rfl, hv, ha, hw, hpost⟩ := Trace.exists_step_of_not_along hrun hnot
    have hstep : HealthyStep json_dumps env v a :=
      ((Trace.along_append hv).mp hhealthy).2.head
    obtain ⟨e, hraised⟩ := Trace.exec_preserves (fun _ _ _ h ht => raised_step h ht) hpost
      (raised_of_not_manageable hstep ha hw)
    exact hpast.running e hraised
  · intro hmanageable
    have hcommits := Trace.exec_invariant (fun _ _ _ h hcond ht => commitsPosition_step h hcond ht)
      (Trace.along_and hhealthy hmanageable) hrun hstart
    exact hcommits.gotPast

end Run

/-! ## A record that is replayed, and one that is JSON but no envelope -/

theorem plainJson_dumps (v : Json) : plainJson.dumps v = .ok (utf8 (plainText v)) := rfl

/-- No row is too deep to write. -/
def anyLine (_ : Json) : Except PyError String := .ok ""

theorem healthy_acked (orjson : Orjson) (record : ConsumerRecord) :
    Healthy anyLine orjson record acked := ⟨rfl, rfl⟩

theorem loads_onDlq : plainJson.loads (rawValue onDlq) = .ok (envelope 0) := by
  have hraw : rawValue onDlq = utf8 (plainText (envelope 0)) := by
    simp only [rawValue, onDlq, Option.getD_some]
  rw [hraw]
  exact loads_plainText (by simp)

theorem manageable_onDlq : Manageable anyLine plainJson onDlq acked.ts_ms where
  object v hv := by
    cases loads_onDlq.symm.trans hv
    exact ⟨_, rfl⟩
  published v _ _ := ⟨_, plainJson_dumps v⟩
  quarantined _ := ⟨"", rfl⟩

theorem replay_survives_iff_onDlq : Survives plainJson onDlq acked ⟨[], []⟩ :=
  ((replay_survives_iff anyLine rejecting).1 onDlq acked ⟨[], []⟩
    (healthy_acked _ onDlq)).mpr manageable_onDlq

/-- The two bytes of an empty list. -/
def emptyList : ConsumerRecord := ⟨"user.clicks.dlq", 0, 0, none, some (brackets 1)⟩

theorem empty_list_stops_replay :
    ¬ ∀ (json_dumps : Json → Except PyError String) (orjson : Orjson) (record : ConsumerRecord)
      (replies : Replies) (s : Sinks), orjson.Limits → Healthy json_dumps orjson record replies →
        Survives orjson record replies s := by
  intro h
  have hsurvives := h anyLine ProcessOne.bracketJson emptyList acked ⟨[], []⟩
    ProcessOne.bracketJson_limits (healthy_acked _ _)
  obtain ⟨handled, sinks, hreturns⟩ := hsurvives.returns
  have hloads : ProcessOne.bracketJson.loads (rawValue emptyList) = .ok (.nest 0) :=
    ProcessOne.loads_brackets 0 (by decide)
  rw [handleDlqRecord_notObject hloads fun dlq_msg => Json.noConfusion] at hreturns
  cases hreturns

end ClickRec.Kafka.ReplayDlq
