import ClickRec.Kafka.DlqConserved

/-! # What goes round between `user.clicks` and its DLQ

Only the pool writes to the DLQ, and only the replayer and those who produce clicks write to
`user.clicks`. Then nothing on either topic or in the quarantine file was made up on the way, and the
replayer meets no record that it could not deal with. -/
namespace ClickRec.Kafka
set_option autoImplicit false
open WorkerLoop (PartitionLog)

namespace ReplayDlq
open ProcessOne (rawValue originalPayload dlqMessage)

variable {σ : Type} {env : ProcessOne.Env σ}

/-! ## What the pool adds to the DLQ -/

/-- A record that can be parsed only goes there when its retries are exhausted. -/
def ReasonFor (env : ProcessOne.Env σ) (record : ConsumerRecord) (reason : String) : Prop :=
  ∀ event, ProcessOne.parse env record = .ok event → reason = "retries_exhausted"

/-- At most one envelope of the record was put at the end. -/
def AddsEnvelope (env : ProcessOne.Env σ) (record : ConsumerRecord) (log log' : PartitionLog) : Prop :=
  log' = log ∨ ∃ exc reason failed_at_ms message, ReasonFor env record reason ∧
    env.orjson.dumps (dlqMessage env record exc reason failed_at_ms) = .ok message ∧
      log' = log.put "user.clicks.dlq" message

theorem attempts_log (stored : Bool) (event : ClickEventDTO) (left : ℕ) (s : σ × PartitionLog)
    (last_exc : Option PyError) :
    (ProcessOne.attempts (withDlq env stored) event left s last_exc).state.2 = s.2 := by
  induction left generalizing s last_exc with
  | zero => rfl
  | succ left ih =>
    rw [ProcessOne.attempts]
    have henrich : ((withDlq env stored).enrich s event).2.2 = s.2 := rfl
    cases hreply : (withDlq env stored).enrich s event with
    | mk reply s' =>
      rw [hreply] at henrich
      cases reply with
      | ok => exact henrich
      | error exc =>
        simp only
        split
        · cases ProcessOne.backoff (withDlq env stored)
            ((withDlq env stored).consumer_max_retries - left) with
          | error e => exact henrich
          | ok delay =>
            rw [ih]
            exact henrich
        · rw [ih]
          exact henrich

theorem sendToDlq_log (stored : Bool) (s : σ × PartitionLog) (record : ConsumerRecord)
    (exc : Option PyError) {reason : String} (hreason : ReasonFor env record reason) :
    AddsEnvelope env record s.2
      (ProcessOne.sendToDlq (withDlq env stored) s record exc reason).2.2 := by
  rw [ProcessOne.sendToDlq, ProcessOne.sendAndWait]
  cases hdumps : (withDlq env stored).orjson.dumps
      (dlqMessage (withDlq env stored) record exc reason ((withDlq env stored).now_ms s)) with
  | error e => exact .inl rfl
  | ok message =>
    have hadds : AddsEnvelope env record s.2 (s.2.put "user.clicks.dlq" message) :=
      .inr ⟨exc, reason, _, message, hreason, hdumps, rfl⟩
    cases hbroker : env.broker s.1 message with
    | mk reply deps =>
      cases reply with
      | ok =>
        simp only [withDlq, hbroker]
        exact hadds
      | error e =>
        simp only [withDlq, hbroker]
        cases stored with
        | true => exact hadds
        | false => exact .inl rfl

theorem processOne_log (stored : Bool) (record : ConsumerRecord) (s : σ × PartitionLog) :
    AddsEnvelope env record s.2 (ProcessOne.processOne (withDlq env stored) record s).2.2 := by
  rw [ProcessOne.processOne]
  cases hparse : ProcessOne.parse (withDlq env stored) record with
  | error exc =>
    simp only [ProcessOne.outcomeOfSent_snd]
    exact sendToDlq_log stored s record (some exc) fun event hok => by cases hparse.symm.trans hok
  | ok event =>
    have hread : (ProcessOne.isConsumerEventProcessed (withDlq env stored) s event.event_id).2.2 =
        s.2 := by
      rw [ProcessOne.isConsumerEventProcessed]
      split
      · rename_i hexists
        exact (congrArg (fun x => x.2.2) hexists).symm
      · rename_i hexists
        exact (congrArg (fun x => x.2.2) hexists).symm
    cases hseen : ProcessOne.isConsumerEventProcessed (withDlq env stored) s event.event_id with
    | mk seen s' =>
      rw [hseen] at hread
      simp only [hseen]
      cases seen with
      | true => exact .inl hread
      | false =>
        have hloop : (ProcessOne.attempts (withDlq env stored) event
            (withDlq env stored).consumer_max_retries s' none).state.2 = s.2 :=
          (attempts_log stored event _ s' none).trans hread
        simp only
        cases hend : ProcessOne.attempts (withDlq env stored) event
            (withDlq env stored).consumer_max_retries s' none with
        | returned s'' =>
          rw [hend] at hloop
          exact .inl hloop
        | raised e s'' =>
          rw [hend] at hloop
          exact .inl hloop
        | exhausted last_exc s'' =>
          rw [hend] at hloop
          rw [ProcessOne.outcomeOfSent_snd, ← show s''.2 = s.2 from hloop]
          exact sendToDlq_log stored s'' record last_exc fun _ _ => rfl

/-! ## What the replayer makes of an envelope -/

/-- The envelopes of one record of `user.clicks`. -/
inductive EnvelopeOf (env : ProcessOne.Env σ) (click : ConsumerRecord) : Json → Prop where
  | written (exc : Option PyError) (reason : String) (failed_at_ms : ℤ) :
    EnvelopeOf env click (dlqMessage env click exc reason failed_at_ms)

/-- Everything that the pool writes to the DLQ is read back. -/
def ReadsBackAll (env : ProcessOne.Env σ) : Prop :=
  ∀ click exc reason failed_at_ms,
    env.orjson.ReadsBack (dlqMessage env click exc reason failed_at_ms)

/-- An object with a user. -/
def Usable (orjson : Orjson) (click : ConsumerRecord) (v : Json) (user_id : String) : Prop :=
  orjson.loads (rawValue click) = .ok v ∧ ∃ payload, HasUser v payload user_id

/-- Nothing, a click with the JSON of the one in the envelope, or the envelope as it is, if the click
in it is of no use. -/
inductive Adds (env : ProcessOne.Env σ) (click : ConsumerRecord) (s : Sinks) : Sinks → Prop where
  | nothing : Adds env click s s
  | click {v : Json} {user_id : String} {value : Bytes} (partition : ℕ) :
    Usable env.orjson click v user_id → env.orjson.loads value = .ok v →
    Adds env click s (s.publish value user_id partition)
  | row {row : Json} : EnvelopeOf env click row →
    (∀ v user_id, ¬ Usable env.orjson click v user_id) → Adds env click s (s.quarantine row)

section Handle
variable {click record : ConsumerRecord} {replies : Replies} {s : Sinks} {envelope : Json}

/-- An envelope goes to `user.clicks` if the click in it has a user, and else to the quarantine file. -/
theorem ways_of_carries (hback : ReadsBackAll env) (henvelope : EnvelopeOf env click envelope)
    (hcarries : Carries record env envelope) (replies : Replies) (s : Sinks) :
    (∃ v user_id value, Usable env.orjson click v user_id ∧ env.orjson.dumps v = .ok value ∧
      env.orjson.loads value = .ok v ∧
      handleDlqRecord env.orjson record replies s = sendClick env.orjson v user_id replies s) ∨
    ((∀ v user_id, ¬ Usable env.orjson click v user_id) ∧
      handleDlqRecord env.orjson record replies s = quarantine envelope replies s) := by
  obtain ⟨exc, reason, failed_at_ms⟩ := henvelope
  have hread := hback click exc reason failed_at_ms
  have hloads := hcarries.loads hread
  by_cases husable : ∃ v user_id, Usable env.orjson click v user_id
  · obtain ⟨v, user_id, hv, payload, huser⟩ := husable
    have horiginal : originalPayload env click = v := by rw [originalPayload, hv]
    obtain ⟨message, hmessage, -⟩ := hcarries
    obtain ⟨value, hvalue⟩ := hread.entry hmessage (k := "original_payload") (v := v)
      (by simp [horiginal])
    refine .inl ⟨v, user_id, value, ⟨hv, payload, huser⟩, hvalue, hread.decoded hv hvalue, ?_⟩
    rw [handleDlqRecord_hasUser hloads (congrArg some horiginal) huser, huser.object]
  · push Not at husable
    refine .inr ⟨husable, handleDlqRecord_noUser hloads ?_ replies s⟩
    rintro v hv payload user_id huser
    obtain rfl : originalPayload env click = v := Option.some.inj hv
    obtain ⟨v, hv, huser⟩ := hasUser_originalPayload.mp huser
    exact husable v user_id ⟨hv, payload, huser⟩

theorem handle_adds (hback : ReadsBackAll env) (henvelope : EnvelopeOf env click envelope)
    (hcarries : Carries record env envelope) (replies : Replies) (s : Sinks) :
    Adds env click s (handleDlqRecord env.orjson record replies s).2 := by
  obtain ⟨v, user_id, value, husable, hdumps, hloads, heq⟩ | ⟨hnone, heq⟩ :=
    ways_of_carries hback henvelope hcarries replies s
  · have hadds := Adds.click (s := s) replies.partition husable hloads
    rw [heq, sendClick_dumped hdumps]
    cases replies.send with
    | ack => exact hadds
    | failed e stored =>
      cases stored with
      | true => exact hadds
      | false => exact .nothing
  · rw [heq, quarantine]
    cases replies.file with
    | none => exact .row henvelope hnone
    | some e => exact .nothing

/-- Nothing but the broker and the quarantine file can raise. -/
theorem handle_returns (hback : ReadsBackAll env) (henvelope : EnvelopeOf env click envelope)
    (hcarries : Carries record env envelope) (hfile : replies.file = none)
    (hsend : replies.send = .ack) (s : Sinks) :
    ∃ handled, (handleDlqRecord env.orjson record replies s).1 = .ok handled := by
  obtain ⟨v, user_id, value, -, hdumps, -, heq⟩ | ⟨-, heq⟩ :=
    ways_of_carries hback henvelope hcarries replies s
  · rw [heq, sendClick_dumped hdumps, hsend]
    exact ⟨.replayed, rfl⟩
  · rw [heq, quarantine, hfile]
    exact ⟨.skipped, rfl⟩

end Handle

/-! ## The invariant -/

/-- The clicks that were produced in a step. -/
def Run.produced : Run → Option ConsumerRecord
  | .act (.click record) => some record
  | _ => none

/-- One of the clicks that were produced, or one with the same JSON, an object with a user, and this
user as its key. -/
inductive Copies (orjson : Orjson) (produced : List ConsumerRecord) (click : ConsumerRecord) : Prop
    where
  | itself : click ∈ produced → Copies orjson produced click
  | replayed {original : ConsumerRecord} {v : Json} {user_id : String} : original ∈ produced →
    Usable orjson original v user_id → orjson.loads (rawValue click) = .ok v →
    click.key = some user_id.toUTF8.data.toList → Copies orjson produced click

structure Genuine (env : ProcessOne.Env σ) (produced : List ConsumerRecord) (c : System σ) : Prop where
  clicks : ∀ click ∈ c.sinks.clicks, Copies env.orjson produced click
  dlq : ∀ r ∈ c.dlq.records, ∃ click ∈ c.sinks.clicks, ∃ exc reason failed_at_ms,
    ReasonFor env click reason ∧ Carries r env (dlqMessage env click exc reason failed_at_ms)
  rows : ∀ row ∈ c.sinks.quarantined, ∃ click ∈ c.sinks.clicks,
    EnvelopeOf env click row ∧ ∀ v user_id, ¬ Usable env.orjson click v user_id
  hand : ∀ records last, c.replayer.loop = .handling records last →
    ∀ r ∈ records, r ∈ c.dlq.records

section Invariant
variable {produced : List ConsumerRecord} {c c' : System σ}

theorem Copies.mono {orjson : Orjson} {click : ConsumerRecord} (h : Copies orjson produced click)
    (more : List ConsumerRecord) : Copies orjson (produced ++ more) click := by
  cases h with
  | itself hmem => exact .itself (List.mem_append_left _ hmem)
  | replayed hmem husable hloads hkey =>
    exact .replayed (List.mem_append_left _ hmem) husable hloads hkey

/-- What was read from a copy was read from a click that was produced. -/
theorem Copies.usable {orjson : Orjson} {click : ConsumerRecord} {v : Json} {user_id : String}
    (h : Copies orjson produced click) (husable : Usable orjson click v user_id) :
    ∃ original ∈ produced, Usable orjson original v user_id := by
  cases h with
  | itself hmem => exact ⟨click, hmem, husable⟩
  | @replayed original w user hmem hw hloads hkey =>
    obtain ⟨hv, payload, huser⟩ := husable
    obtain rfl : w = v := Except.ok.inj (hloads.symm.trans hv)
    exact ⟨original, hmem, hw.1, payload, huser⟩

/-- The clicks, the DLQ and the rows are as they were. -/
theorem Genuine.keep (h : Genuine env produced c) (hsinks : c'.sinks = c.sinks)
    (hdlq : c'.dlq = c.dlq) (hhand : ∀ records last, c'.replayer.loop = .handling records last →
      ∀ r ∈ records, r ∈ c.dlq.records) : Genuine env produced c' where
  clicks := by
    rw [hsinks]
    exact h.clicks
  dlq := by
    rw [hsinks, hdlq]
    exact h.dlq
  rows := by
    rw [hsinks]
    exact h.rows
  hand := by
    rw [hdlq]
    exact hhand

theorem Genuine.handled (h : Genuine env produced c) {click : ConsumerRecord}
    (hclick : click ∈ c.sinks.clicks) (hadds : Adds env click c.sinks c'.sinks)
    (hdlq : c'.dlq = c.dlq) (hhand : ∀ records last, c'.replayer.loop = .handling records last →
      ∀ r ∈ records, r ∈ c.dlq.records) : Genuine env produced c' := by
  generalize hsinks : c'.sinks = sinks at hadds
  cases hadds with
  | nothing => exact h.keep hsinks hdlq hhand
  | @click v user_id value partition husable hloads =>
    obtain ⟨original, hmem, horiginal⟩ := (h.clicks click hclick).usable husable
    constructor
    · rw [hsinks]
      intro x hx
      obtain hx | hx := List.mem_append.mp hx
      · exact h.clicks x hx
      · rw [List.mem_singleton.mp hx]
        exact .replayed hmem horiginal hloads rfl
    · rw [hdlq, hsinks]
      intro r hr
      obtain ⟨x, hx, henvelope⟩ := h.dlq r hr
      exact ⟨x, List.mem_append_left _ hx, henvelope⟩
    · rw [hsinks]
      intro row hrow
      obtain ⟨x, hx, henvelope⟩ := h.rows row hrow
      exact ⟨x, List.mem_append_left _ hx, henvelope⟩
    · rw [hdlq]
      exact hhand
  | @row row henvelope hnone =>
    constructor
    · rw [hsinks]
      exact h.clicks
    · rw [hdlq, hsinks]
      exact h.dlq
    · rw [hsinks]
      intro x hx
      obtain hx | hx := List.mem_append.mp hx
      · exact h.rows x hx
      · rw [List.mem_singleton.mp hx]
        exact ⟨click, hclick, henvelope, hnone⟩
    · rw [hdlq]
      exact hhand

theorem genuine_start (deps : σ) (clicks : List ConsumerRecord) {g : GroupLog}
    (hempty : g.log.records = []) : Genuine env clicks (start deps clicks g) where
  clicks _ hclick := .itself hclick
  dlq r hr := by
    rw [show (start deps clicks g).dlq.records = [] from hempty] at hr
    cases hr
  rows _ hrow := absurd hrow List.not_mem_nil
  hand _ _ hloop := by cases hloop

theorem genuine_getmany {n : ℕ} (h : Genuine env produced c) (hstep : getmanyStep c n = some c') :
    Genuine env produced c' := by
  rw [getmanyStep] at hstep
  split at hstep
  · rename_i hpolling
    split at hstep
    · split at hstep
      · cases hstep
        exact h.keep rfl rfl h.hand
      · rename_i r rs hfetch
        cases hstep
        refine h.keep rfl rfl fun records last hloop x hx => ?_
        cases hloop
        rw [← hfetch, PartitionLog.fetch_eq] at hx
        exact (List.mem_filter.mp (List.mem_of_mem_take hx)).1
    · cases hstep
  · cases hstep

theorem genuine_handle (hback : ReadsBackAll env) {replies : Replies} (h : Genuine env produced c)
    (hstep : handleStep env.orjson c replies = some c') : Genuine env produced c' := by
  rw [handleStep] at hstep
  split at hstep
  · rename_i r rs last hloop
    obtain ⟨click, hclick, exc, reason, failed_at_ms, -, hcarries⟩ :=
      h.dlq r (h.hand (r :: rs) last hloop r List.mem_cons_self)
    have hadds := handle_adds hback (.written exc reason failed_at_ms) hcarries replies c.sinks
    split at hstep
    · rename_i handled sinks hok
      rw [hok] at hadds
      cases hstep
      refine h.handled hclick hadds rfl fun records last' hloop' x hx => ?_
      cases hloop'
      exact h.hand (r :: rs) last hloop x (List.mem_cons_of_mem r hx)
    · rename_i e sinks herror
      rw [herror] at hadds
      cases hstep
      refine h.handled hclick hadds rfl fun records last' hloop' => ?_
      cases hloop'
  · cases hstep

theorem genuine_commit {reply : Reply} (h : Genuine env produced c)
    (hstep : commitStep c reply = some c') : Genuine env produced c' := by
  rw [commitStep] at hstep
  split at hstep
  · cases hstep
    exact h.keep rfl rfl fun records last hloop => by cases hloop
  · cases reply with
    | ack =>
      cases hstep
      exact h.keep rfl rfl fun records last hloop => by cases hloop
    | failed e stored =>
      cases hstep
      exact h.keep rfl rfl fun records last hloop => by cases hloop
  · cases hstep

theorem genuine_processOne {record : ConsumerRecord} {stored : Bool} (h : Genuine env produced c)
    (hrecord : record ∈ c.sinks.clicks) (hsinks : c'.sinks = c.sinks)
    (hdlq : c'.dlq = (ProcessOne.processOne (withDlq env stored) record (c.deps, c.dlq)).2.2)
    (hreplayer : c'.replayer = c.replayer) : Genuine env produced c' := by
  have hadds : AddsEnvelope env record c.dlq c'.dlq := by
    rw [hdlq]
    exact processOne_log stored record (c.deps, c.dlq)
  obtain hsame | ⟨exc, reason, failed_at_ms, message, hreason, hdumps, hput⟩ := hadds
  · exact h.keep hsinks hsame (hreplayer ▸ h.hand)
  · have hmem : ∀ r, r ∈ c'.dlq.records ↔
        r ∈ c.dlq.records ∨ r = ⟨"user.clicks.dlq", 0, c.dlq.endOffset, none, some message⟩ := by
      intro r
      rw [hput, PartitionLog.put, PartitionLog.append, List.mem_append, List.mem_singleton]
    refine ⟨hsinks ▸ h.clicks, ?_, hsinks ▸ h.rows, ?_⟩
    · intro r hr
      rw [hsinks]
      obtain hr | rfl := (hmem r).mp hr
      · exact h.dlq r hr
      · exact ⟨record, hrecord, exc, reason, failed_at_ms, hreason, ⟨message, hdumps, rfl⟩⟩
    · rw [hreplayer]
      intro records last hloop r hr
      exact (hmem r).mpr (.inl (h.hand records last hloop r hr))

theorem genuine_click {record : ConsumerRecord} (h : Genuine env produced c)
    (hsinks : c'.sinks = { c.sinks with clicks := c.sinks.clicks ++ [record] })
    (hdlq : c'.dlq = c.dlq) (hreplayer : c'.replayer = c.replayer) :
    Genuine env (produced ++ [record]) c' := by
  have hmem : ∀ {click}, click ∈ c.sinks.clicks → click ∈ c'.sinks.clicks := by
    intro click hclick
    rw [hsinks]
    exact List.mem_append_left _ hclick
  constructor
  · rw [hsinks]
    intro click hclick
    obtain hclick | hclick := List.mem_append.mp hclick
    · exact (h.clicks click hclick).mono [record]
    · exact .itself (List.mem_append_right _ hclick)
  · rw [hdlq]
    intro r hr
    obtain ⟨click, hclick, henvelope⟩ := h.dlq r hr
    exact ⟨click, hmem hclick, henvelope⟩
  · have hrows : c'.sinks.quarantined = c.sinks.quarantined := by rw [hsinks]
    rw [hrows]
    intro row hrow
    obtain ⟨click, hclick, henvelope⟩ := h.rows row hrow
    exact ⟨click, hmem hclick, henvelope⟩
  · rw [hreplayer, hdlq]
    exact h.hand

theorem genuine_step (hback : ReadsBackAll env) {a : Run} (h : Genuine env produced c)
    (hstep : runStep env c a = some c') : Genuine env (produced ++ a.produced.toList) c' := by
  cases a with
  | invoke =>
    rw [show Run.invoke.produced.toList = [] from rfl, List.append_nil]
    cases hstep
    exact h.keep rfl rfl fun records last hloop => by cases hloop
  | act a =>
    cases a with
    | click record =>
      cases hstep
      exact genuine_click h rfl rfl rfl
    | getmany n => exact (List.append_nil produced).symm ▸ genuine_getmany h hstep
    | handle replies => exact (List.append_nil produced).symm ▸ genuine_handle hback h hstep
    | commit reply => exact (List.append_nil produced).symm ▸ genuine_commit h hstep
    | raises e =>
      refine (List.append_nil produced).symm ▸ ?_
      simp only [runStep, step] at hstep
      split at hstep
      · cases hstep
      · cases hstep
        exact h.keep rfl rfl fun records last hloop => by cases hloop
    | processOne i stored =>
      refine (List.append_nil produced).symm ▸ ?_
      simp only [runStep, step] at hstep
      split at hstep
      · cases hstep
      · rename_i record hrecord
        cases hstep
        exact genuine_processOne h (List.mem_of_getElem? hrecord) rfl rfl rfl

theorem genuine_run (hback : ReadsBackAll env) {deps : σ} {clicks : List ConsumerRecord} {g : GroupLog}
    (hempty : g.log.records = []) {as : List Run} {c : System σ}
    (hrun : Trace.exec (runStep env) (start deps clicks g) as = some c) :
    Genuine env (clicks ++ as.filterMap Run.produced) c := by
  refine Trace.exec_concat_induction
    (I := fun as c => Genuine env (clicks ++ as.filterMap Run.produced) c) ?_ ?_ hrun
  · rw [List.filterMap_nil, List.append_nil]
    exact genuine_start deps clicks hempty
  · intro as t a u _ h hstep
    have hlast : [a].filterMap Run.produced = a.produced.toList := by
      rw [List.filterMap_cons]
      cases a.produced with
      | none => rfl
      | some record => rfl
    rw [List.filterMap_append, hlast, ← List.append_assoc]
    exact genuine_step hback h hstep

end Invariant

/-- As long as only the pool writes to the DLQ, every click on the topic is one that was produced
or has its JSON, every record of the DLQ is an envelope of a click, only those of clicks without a
user are quarantined, and no record keeps the replayer from going on. -/
theorem nothing_made_up (env : ProcessOne.Env σ) (hback : ReadsBackAll env) (deps : σ)
    (clicks : List ConsumerRecord) (g : GroupLog) (hempty : g.log.records = []) (as : List Run)
    (c : System σ) (hrun : Trace.exec (runStep env) (start deps clicks g) as = some c) :
    (∀ click ∈ c.sinks.clicks, Copies env.orjson (clicks ++ as.filterMap Run.produced) click) ∧
    (∀ r ∈ c.dlq.records, ∃ click ∈ c.sinks.clicks, ∃ envelope,
      EnvelopeOf env click envelope ∧ Carries r env envelope) ∧
    (∀ row ∈ c.sinks.quarantined, ∃ click ∈ c.sinks.clicks,
      EnvelopeOf env click row ∧ ∀ v user_id, ¬ Usable env.orjson click v user_id) ∧
    ∀ r ∈ c.dlq.records, ∀ replies : Replies, replies.file = none → replies.send = .ack →
      ∃ handled, (handleDlqRecord env.orjson r replies c.sinks).1 = .ok handled := by
  have h := genuine_run hback hempty hrun
  have hdlq : ∀ r ∈ c.dlq.records, ∃ click ∈ c.sinks.clicks, ∃ envelope,
      EnvelopeOf env click envelope ∧ Carries r env envelope := by
    intro r hr
    obtain ⟨click, hclick, exc, reason, failed_at_ms, -, hcarries⟩ := h.dlq r hr
    exact ⟨click, hclick, _, .written exc reason failed_at_ms, hcarries⟩
  refine ⟨h.clicks, hdlq, h.rows, fun r hr replies hfile hsend => ?_⟩
  obtain ⟨click, -, envelope, henvelope, hcarries⟩ := hdlq r hr
  exact handle_returns hback henvelope hcarries hfile hsend c.sinks

/-! ## A message that goes round once -/

/-- A message, its envelope, and what is in them. -/
def writable : List Json :=
  [notAClick, envelope 0, .str "user.clicks", .int 0, .str "u1", .str "parse_or_validation_error",
    .str "ValidationError", .str "Field required", .str "Traceback"]

def writableJson : Orjson where
  loads := plainJson.loads
  dumps v := if v ∈ writable then .ok (utf8 (plainText v)) else .error ⟨"TypeError", "", ""⟩

def writing : ProcessOne.Env Unit := { rejecting with orjson := writableJson }

theorem writableJson_dumps {v : Json} {bytes : Bytes} (h : writableJson.dumps v = .ok bytes) :
    v ∈ writable ∧ bytes = utf8 (plainText v) := by
  simp only [writableJson] at h
  split at h
  · rename_i hv
    exact ⟨hv, (Except.ok.inj h).symm⟩
  · cases h

theorem writing_readsBackAll : ReadsBackAll writing := by
  intro click exc reason failed_at_ms
  constructor
  · intro raw v bytes hloads hdumps
    obtain ⟨-, rfl⟩ := writableJson_dumps hdumps
    exact plainJson_readsBack.decoded hloads rfl
  · intro bytes hdumps
    obtain ⟨hmem, rfl⟩ := writableJson_dumps hdumps
    have henvelope : dlqMessage writing click exc reason failed_at_ms = envelope 0 := by
      simp only [writable, List.mem_cons, List.not_mem_nil, or_false] at hmem
      obtain h | h | h | h | h | h | h | h | h := hmem
      · simp [dlqMessage, notAClick] at h
      · exact h
      all_goals simp [dlqMessage] at h
    have hloads : writing.orjson.loads = plainJson.loads := rfl
    rw [henvelope, hloads]
    exact loads_plainText (by simp)
  · intro kvs bytes hdumps k v hmem
    obtain ⟨hobject, -⟩ := writableJson_dumps hdumps
    have hv : v ∈ writable := by
      simp only [writable, notAClick, envelope, List.mem_cons, List.not_mem_nil, or_false,
        Json.obj.injEq, reduceCtorEq] at hobject
      obtain rfl | rfl := hobject
      · simp only [List.mem_singleton, Prod.mk.injEq] at hmem
        obtain ⟨-, rfl⟩ := hmem
        simp [writable]
      · simp only [List.mem_cons, List.not_mem_nil, or_false, Prod.mk.injEq] at hmem
        obtain ⟨-, rfl⟩ | ⟨-, rfl⟩ | ⟨-, rfl⟩ | ⟨-, rfl⟩ | ⟨-, rfl⟩ | ⟨-, rfl⟩ | ⟨-, rfl⟩ | ⟨-, rfl⟩ |
          ⟨-, rfl⟩ | ⟨-, rfl⟩ := hmem
        all_goals simp [writable, notAClick]
    exact ⟨_, if_pos hv⟩

def emptyDlq : GroupLog where
  log := ⟨[], List.Pairwise.nil⟩
  committed := none
  in_log := le_rfl

/-- It is rejected and replayed, and another one like it is produced. -/
def goesRound : List Run :=
  [.act (.processOne 0 false), .act (.getmany 10), .act (.handle acked), .act (.commit .ack),
    .act (.click rejected), .invoke, .act (.getmany 10)]

theorem nothing_made_up_goesRound : ∃ c,
    Trace.exec (runStep writing) (start () [rejected] emptyDlq) goesRound = some c ∧
      c.sinks.clicks.length = 3 ∧
      ∀ click ∈ c.sinks.clicks, Copies writableJson [rejected, rejected] click := by
  have hmap : (Trace.exec (runStep writing) (start () [rejected] emptyDlq) goesRound).map
      (fun c => c.sinks.clicks.length) = some 3 := by decide +kernel
  obtain ⟨c, hrun, hthree⟩ := Option.map_eq_some_iff.mp hmap
  obtain ⟨hclicks, -⟩ := nothing_made_up writing writing_readsBackAll () [rejected] emptyDlq rfl
    goesRound c hrun
  exact ⟨c, hrun, hthree, hclicks⟩

end ReplayDlq

end ClickRec.Kafka
