import ClickRec.Kafka.CommitSafety
import ClickRec.Kafka.DlqOrigins
import ClickRec.Kafka.Markers

/-! # From `user.clicks` to the stores or the DLQ

The workers poll and commit, and each record in hand goes through `_process_one` in steps, between
which the others take theirs. What a committed offset lies above has been enriched or is on the DLQ. -/
namespace ClickRec.Kafka.EndToEnd
set_option autoImplicit false
open ProcessOne (parse dlqMessage)
open ReplayDlq (EnvelopeOf)
open WorkerLoop (GroupAct GroupOk Worker)

/-! ## The workers and their deliveries -/

/-- The group and the deliveries, with the one that each worker waits for and the record of each. -/
structure System (ι W : Type) where
  group : WorkerLoop.Group W
  pool : Returned ι
  current : W → Option ι
  record : ι → Option ConsumerRecord

/-- `_worker_loop` takes a step or a record is produced; a worker calls `_process_one`, the call takes
a step, sends its message to the DLQ, or has returned or raised; a record that cannot be parsed is sent
at once; something happens around the workers. -/
inductive Act (ι W : Type) where
  | loop (a : GroupAct W)
  | begin (w : W) (i : ι)
  | delivery (i : ι) (e : Event)
  | send (i : ι) (last_exc : Option PyError) (failed_at_ms : ℤ) (acked : Bool)
  | finish (w : W)
  | poison (w : W) (failed_at_ms : ℤ) (acked : Bool)
  | outside (e : Outside)

section Step
variable {σ ι W : Type} [DecidableEq ι] [DecidableEq W] (env : ProcessOne.Env σ) (settings : Settings)
  (deliveries : Deliveries ι)

/-- The first of the records a worker still has to handle. -/
def inHand (k : Worker) : Option ConsumerRecord :=
  match k.phase with
  | .handling ((_, r :: _) :: _) _ _ => some r
  | _ => none

/-- While `_process_one` runs, only a rebalance can happen to the worker; outcomes come from there. -/
def loopAllowed (s : System ι W) : GroupAct W → Bool
  | .env _ => true
  | .proc _ (.processed _) => false
  | .proc _ (.assign _) => true
  | .proc _ (.revoke _) => true
  | .proc w _ => (s.current w).isNone

/-- `_send_to_dlq`: the value is serialized, and the broker acknowledges it or does not. -/
def dlqReply (record : ConsumerRecord) (exc : Option PyError) (reason : String) (failed_at_ms : ℤ)
    (acked : Bool) : DlqReply :=
  match env.orjson.dumps (dlqMessage env record exc reason failed_at_ms) with
  | .error e => .unserializable e
  | .ok message => if acked then .acked message else .kafkaError

/-- What `_process_one` has come to: an outcome, or an exception that ends the task. -/
def endOf : Stage → Option WorkerLoop.Event
  | .done outcome => some (.processed outcome)
  | .raised _ => some .restart
  | .crashed => some .restart
  | _ => none

def Returned.put (x : Returned ι) (message : Bytes) : Returned ι :=
  ({ x.1 with shared := { x.1.shared with world :=
    { x.1.shared.world with dlq := message :: x.1.shared.world.dlq } } }, x.2)

def loopStep (s : System ι W) (a : GroupAct W) : Option (System ι W) :=
  if loopAllowed s a then (WorkerLoop.step s.group a).map fun group => { s with group := group }
  else none

def beginStep (s : System ι W) (w : W) (i : ι) : Option (System ι W) :=
  match s.current w, s.record i, inHand (s.group.locals w) with
  | none, none, some r =>
    match parse env r with
    | .error _ => none
    | .ok event =>
      if event = deliveries.event i then
        some { s with
          current := Function.update s.current w (some i)
          record := Function.update s.record i (some r) }
      else none
  | _, _, _ => none

def poolAct (s : System ι W) (a : WorkerAct ι) : Option (System ι W) :=
  (returnStep settings deliveries s.pool a).map fun pool => { s with pool := pool }

def deliveryStep (s : System ι W) (i : ι) (e : Event) : Option (System ι W) :=
  match s.record i, e with
  | none, _ => none
  | some _, .dlq _ => none
  | some _, e => poolAct settings deliveries s (.proc i e)

def sendStep (s : System ι W) (i : ι) (last_exc : Option PyError) (failed_at_ms : ℤ) (acked : Bool) :
    Option (System ι W) :=
  match s.record i with
  | none => none
  | some r => poolAct settings deliveries s
      (.proc i (.dlq (dlqReply env r last_exc "retries_exhausted" failed_at_ms acked)))

def finishStep (s : System ι W) (w : W) : Option (System ι W) :=
  match s.current w with
  | none => none
  | some i =>
    match endOf (s.pool.1.locals i) with
    | none => none
    | some e => (WorkerLoop.step s.group (.proc w e)).map fun group =>
        { s with group := group, current := Function.update s.current w none }

def poisonStep (s : System ι W) (w : W) (failed_at_ms : ℤ) (acked : Bool) : Option (System ι W) :=
  match s.current w, inHand (s.group.locals w) with
  | none, some r =>
    match parse env r with
    | .ok _ => none
    | .error exc =>
      match dlqReply env r (some exc) "parse_or_validation_error" failed_at_ms acked with
      | .unserializable _ => (WorkerLoop.step s.group (.proc w .restart)).map fun group =>
          { s with group := group }
      | .kafkaError => (WorkerLoop.step s.group (.proc w (.processed .DLQ_FAILED))).map fun group =>
          { s with group := group }
      | .acked message => (WorkerLoop.step s.group (.proc w (.processed .DLQ_OK))).map fun group =>
          { s with group := group, pool := Returned.put s.pool message }
  | _, _ => none

def step (s : System ι W) : Act ι W → Option (System ι W)
  | .loop a => loopStep s a
  | .begin w i => beginStep env deliveries s w i
  | .delivery i e => deliveryStep settings deliveries s i e
  | .send i last_exc failed_at_ms acked =>
    sendStep env settings deliveries s i last_exc failed_at_ms acked
  | .finish w => finishStep s w
  | .poison w failed_at_ms acked => poisonStep env s w failed_at_ms acked
  | .outside e => poolAct settings deliveries s (.env e)

def start (log : TopicPartition → WorkerLoop.PartitionLog) (p : Pool ι) : System ι W where
  group := WorkerLoop.start log
  pool := (⟨p, fun _ => .waiting⟩, [])
  current _ := none
  record _ := none

/-- No worker polls past a record that it held back. -/
def PollsAllHandled (s : System ι W) : Act ι W → Prop
  | .loop a => WorkerLoop.PollsAllHandled s.group a
  | _ => True

instance (s : System ι W) (a : Act ι W) : Decidable (PollsAllHandled s a) := by
  unfold PollsAllHandled
  split <;> infer_instance

end Step

/-! ## What the loop does to the records in hand -/

section Loop
variable {W : Type} [DecidableEq W] {g g' : WorkerLoop.Group W}

/-- Apart from outcomes, the loop delivers nothing, and no worker writes to a log. -/
theorem workerStep_quiet {b b' : WorkerLoop.Broker} {k k' : Worker} {e : WorkerLoop.Event}
    (h : WorkerLoop.workerStep b k e = some (b', k')) (he : ∀ outcome, e ≠ .processed outcome) :
    b'.log = b.log ∧ b'.deliveries = b.deliveries := by
  cases e with
  | getmany counts =>
    simp only [WorkerLoop.workerStep] at h
    split at h
    · split at h
      · obtain ⟨batch, -, h⟩ := Option.map_eq_some_iff.mp h
        split at h
        · cases h
          exact ⟨rfl, rfl⟩
        · cases h
          exact ⟨rfl, rfl⟩
      · cases h
    · cases h
  | processed outcome => exact absurd rfl (he outcome)
  | partitionDone =>
    simp only [WorkerLoop.workerStep] at h
    split at h
    · cases h
      exact ⟨rfl, rfl⟩
    · cases h
  | commit stored =>
    simp only [WorkerLoop.workerStep] at h
    split at h
    · cases h
      exact ⟨rfl, rfl⟩
    · cases h
  | assign tp =>
    cases h
    exact ⟨rfl, rfl⟩
  | revoke tp =>
    cases h
    exact ⟨rfl, rfl⟩
  | restart =>
    cases h
    exact ⟨rfl, rfl⟩

/-- The same of the group; the records produced are new ones. -/
theorem loop_quiet {a : GroupAct W} (h : WorkerLoop.step g a = some g')
    (ha : ∀ w outcome, a ≠ .proc w (.processed outcome)) :
    g'.shared.deliveries = g.shared.deliveries ∧
      ∀ tp, (g.shared.log tp).records ⊆ (g'.shared.log tp).records := by
  cases a with
  | proc w e =>
    obtain ⟨b', k', hstep, rfl, -, -⟩ := Trace.turn_proc h
    obtain ⟨hlog, hdeliveries⟩ := workerStep_quiet hstep fun outcome he => ha w outcome (by rw [he])
    exact ⟨hdeliveries, fun tp => by rw [hlog]; exact List.Subset.refl _⟩
  | env e =>
    obtain ⟨hproduce, -⟩ := Trace.turn_env h
    obtain ⟨⟨hlog, -, -⟩, -⟩ := WorkerLoop.grows_produce hproduce
    refine ⟨?_, fun tp => ?_⟩
    · rw [WorkerLoop.produce] at hproduce
      split at hproduce
      · rw [← Option.some.inj hproduce]
      · cases hproduce
    · obtain ⟨more, hmore, -⟩ := hlog tp
      rw [hmore]
      exact List.subset_append_left _ _

/-- An outcome is that of the record in hand. -/
theorem loop_processed {w : W} {outcome : ProcessOutcome} {r : ConsumerRecord} (hok : GroupOk g)
    (hr : inHand (g.locals w) = some r)
    (h : WorkerLoop.step g (.proc w (.processed outcome)) = some g') :
    g'.shared.log = g.shared.log ∧ ∃ tp, r ∈ (g.shared.log tp).records ∧
      g'.shared.deliveries = (tp, r.offset, outcome) :: g.shared.deliveries := by
  obtain ⟨b', k', hstep, rfl, -, -⟩ := Trace.turn_proc h
  have hphase := (hok.workers w).phase
  rw [inHand] at hr
  split at hr
  · rename_i tp r' recs batch last commits hhandling
    obtain rfl : r' = r := Option.some.inj hr
    rw [hhandling] at hphase
    obtain ⟨hready, -, -⟩ := hphase
    obtain ⟨done, later, hlog, -⟩ := hready (tp, r' :: recs) List.mem_cons_self
    have hmem : r' ∈ (g.shared.log tp).records := by
      rw [hlog]
      simp
    simp only [WorkerLoop.workerStep, hhandling] at hstep
    split at hstep
    · rw [← (Prod.mk.inj (Option.some.inj hstep)).1]
      exact ⟨rfl, tp, hmem, rfl⟩
    · rw [← (Prod.mk.inj (Option.some.inj hstep)).1]
      exact ⟨rfl, tp, hmem, rfl⟩
  · cases hr

/-- Another worker's record stays in hand, and one's own through a rebalance. -/
theorem loop_inHand {a : GroupAct W} (h : WorkerLoop.step g a = some g') {w : W}
    (ha : ∀ e, a = .proc w e → (∃ tp, e = .assign tp) ∨ ∃ tp, e = .revoke tp) :
    inHand (g'.locals w) = inHand (g.locals w) := by
  cases a with
  | proc w' e =>
    obtain ⟨b', k', hstep, -, hk, hframe⟩ := Trace.turn_proc h
    by_cases hw : w = w'
    · subst hw
      rw [hk]
      obtain ⟨tp, rfl⟩ | ⟨tp, rfl⟩ := ha e rfl
      · cases hstep
        rfl
      · cases hstep
        rfl
    · rw [hframe w hw]
  | env e =>
    obtain ⟨-, hlocals⟩ := Trace.turn_env h
    rw [hlocals]

end Loop

/-! ## What a step of a delivery adds -/

section Pool
variable {ι : Type} [DecidableEq ι] {settings : Settings} {deliveries : Deliveries ι}
  {x y : Returned ι}

/-- Nothing is taken off the DLQ, and what has returned has returned. -/
structure Grew (x y : Returned ι) : Prop where
  returned : x.2 ⊆ y.2
  dlq : x.1.shared.world.dlq ⊆ y.1.shared.world.dlq

theorem Op.run_dlq {op : Op} {w w' : World} (h : op.run w = .ok w') : w'.dlq = w.dlq := by
  cases op with
  | upsertCommit pairs =>
    obtain ⟨-, rfl⟩ := Op.run_upsertCommit h
    rfl
  | _ =>
    cases h
    rfl

theorem grew_of_returnStep {a : WorkerAct ι} (h : returnStep settings deliveries x a = some y) :
    Grew x y := by
  obtain ⟨hpool, hy⟩ := Trace.withHistory_eq_some.mp h
  refine ⟨hy ▸ subset_returnedBy x.1 a y.1 x.2, ?_⟩
  cases a with
  | env e =>
    obtain ⟨hout, -⟩ := Trace.turn_env hpool
    cases e <;> rw [← Option.some.inj hout] <;> exact List.Subset.refl _
  | proc i e =>
    obtain ⟨q, m, hrecord, hq, -, -⟩ := Trace.turn_proc hpool
    rw [hq]
    cases recordStep_effect hrecord with
    | same => exact List.Subset.refl _
    | resolved hres => exact List.Subset.refl _
    | applied happly =>
      rw [Op.run_dlq (apply_ok happly).1]
      exact List.Subset.refl _
    | marked => exact List.Subset.refl _
    | dlq message => exact List.subset_cons_self _ _

omit [DecidableEq ι] in
/-- `DLQ_OK` is the answer to an acknowledged message. -/
theorem acked_of_done {i : ι} {p q : Pool ι} {l : Stage} {e : Event}
    (h : recordStep settings deliveries i p l e = some (q, .done .DLQ_OK)) :
    ∃ message, e = .dlq (.acked message) ∧ message ∈ q.world.dlq := by
  have hsettled : ∀ {m : Stage}, m = .done .DLQ_OK → (∀ k, m ≠ nextAttempt settings k) ∧
      (∀ k, m ≠ failed settings k) ∧ ∀ k ops, m ≠ nextOp k ops := by
    rintro m rfl
    refine ⟨fun k hk => ?_, fun k hk => ?_, fun k ops hk => ?_⟩
    · obtain hn | hn := nextAttempt_cases settings k
      · rw [hn] at hk
        cases hk
      · rw [hn] at hk
        cases hk
    · obtain hf | ⟨e, hf⟩ | hf := failed_cases settings k
      · rw [hf] at hk
        cases hk
      · rw [hf] at hk
        cases hk
      · rw [hf] at hk
        cases hk
    · cases ops with
      | nil => cases hk
      | cons op ops => cases hk
  generalize hm : Stage.done .DLQ_OK = m at h
  obtain ⟨hnext, hfailed, hop⟩ := hsettled hm.symm
  cases recordStep_inv h with
  | dlqAcked => exact ⟨_, rfl, List.mem_cons_self⟩
  | enter => exact absurd rfl (hnext 0)
  | checkFailed => exact absurd rfl (hnext 0)
  | resolveFailed => exact absurd rfl (hfailed _)
  | read => exact absurd rfl (hop _ _)
  | conversionFailed => exact absurd rfl (hfailed _)
  | readFailed => exact absurd rfl (hfailed _)
  | op => exact absurd rfl (hop _ _)
  | opRejected => exact absurd rfl (hfailed _)
  | opTook => exact absurd rfl (hfailed _)
  | opFailed => exact absurd rfl (hfailed _)
  | _ => cases hm

end Pool

/-! ## The invariant -/

section Invariant
variable {σ ι W : Type} [DecidableEq ι] {env : ProcessOne.Env σ} {settings : Settings}
  {deliveries : Deliveries ι}

def OnDlq (env : ProcessOne.Env σ) (x : Returned ι) (r : ConsumerRecord) : Prop :=
  ∃ envelope message, EnvelopeOf env r envelope ∧ env.orjson.dumps envelope = .ok message ∧
    message ∈ x.1.shared.world.dlq

/-- A call of `apply_enrichment` for its event has returned, or the record is on the DLQ. -/
def Through (env : ProcessOne.Env σ) (deliveries : Deliveries ι) (x : Returned ι)
    (r : ConsumerRecord) : Prop :=
  (∃ e ∈ x.2, parse env r = .ok (deliveries.event e.1)) ∨ OnDlq env x r

/-- Each delivery is of the record that its worker has in hand; one that ended `DLQ_OK` has put it on
the DLQ, and what the workers were told to commit is through. -/
structure Accounted (env : ProcessOne.Env σ) (settings : Settings) (deliveries : Deliveries ι)
    (s : System ι W) : Prop where
  group : GroupOk s.group
  backed : MarkersBacked settings deliveries s.pool
  fresh : ∀ i, s.record i = none → s.pool.1.locals i = .waiting
  begun : ∀ i r, s.record i = some r → parse env r = .ok (deliveries.event i)
  sent : ∀ i r, s.record i = some r → s.pool.1.locals i = .done .DLQ_OK → OnDlq env s.pool r
  current : ∀ w i, s.current w = some i →
    ∃ r, s.record i = some r ∧ inHand (s.group.locals w) = some r
  delivered : ∀ d ∈ s.group.shared.deliveries, d.2.2.committable = true →
    ∃ r ∈ (s.group.shared.log d.1).records, r.offset = d.2.1 ∧ Through env deliveries s.pool r

variable {s t : System ι W} {x y : Returned ι}

omit [DecidableEq ι] in
theorem Grew.onDlq (h : Grew x y) {r : ConsumerRecord} (hr : OnDlq env x r) : OnDlq env y r := by
  obtain ⟨envelope, message, henvelope, hdumps, hmem⟩ := hr
  exact ⟨envelope, message, henvelope, hdumps, h.dlq hmem⟩

omit [DecidableEq ι] in
theorem Grew.through (h : Grew x y) {r : ConsumerRecord} (hr : Through env deliveries x r) :
    Through env deliveries y r := by
  obtain ⟨e, he, hparse⟩ | hr := hr
  · exact .inl ⟨e, h.returned he, hparse⟩
  · exact .inr (h.onDlq hr)

theorem accounted_start (log : TopicPartition → WorkerLoop.PartitionLog) {p : Pool ι}
    (hunmarked : ∀ id, p.world.redis.processed id = false) :
    Accounted env settings deliveries (start log p : System ι W) where
  group := WorkerLoop.groupOk_start log
  backed := ⟨fun id hid => absurd hid (by simp [start, hunmarked id]), fun _ => trivial,
    fun _ hi => absurd hi List.not_mem_nil⟩
  fresh _ _ := rfl
  begun _ _ h := by cases h
  sent _ _ h := by cases h
  current _ _ h := by cases h
  delivered _ hd := absurd hd List.not_mem_nil

/-- A delivery that ended with an outcome to be committed is through. -/
theorem Accounted.through (h : Accounted env settings deliveries s) {i : ι} {r : ConsumerRecord}
    (hr : s.record i = some r) {outcome : ProcessOutcome}
    (hdone : s.pool.1.locals i = .done outcome) (hc : outcome.committable = true) :
    Through env deliveries s.pool r := by
  cases outcome with
  | OK =>
    have hbacked := h.backed.backed i
    rw [hdone] at hbacked
    obtain ⟨e, he, hid⟩ := hbacked
    exact .inl ⟨e, he, (h.begun i r hr).trans (congrArg _ (deliveries.same e.1 i hid).symm)⟩
  | DLQ_OK => exact .inr (h.sent i r hr hdone)
  | DLQ_FAILED => cases hc

/-! ### A delivery moves -/

/-- A step of the deliveries, where the one that ends `DLQ_OK` has its message on the DLQ. -/
theorem Accounted.stepped (h : Accounted env settings deliveries s) {a : WorkerAct ι}
    (hstep : poolAct settings deliveries s a = some t)
    (hbegun : ∀ i e, a = .proc i e → s.record i ≠ none)
    (hsent : ∀ i message r, a = .proc i (.dlq (.acked message)) → s.record i = some r →
      ∃ envelope, EnvelopeOf env r envelope ∧ env.orjson.dumps envelope = .ok message) :
    Accounted env settings deliveries t := by
  obtain ⟨y, hy, rfl⟩ := Option.map_eq_some_iff.mp hstep
  have hgrew := grew_of_returnStep hy
  obtain ⟨hpool, -⟩ := Trace.withHistory_eq_some.mp hy
  refine ⟨h.group, markersBacked_step h.backed hy, fun i hi => ?_, h.begun,
    fun i r hr hdone => ?_, h.current, fun d hd hc => ?_⟩
  · cases a with
    | env e =>
      obtain ⟨-, hlocals⟩ := Trace.turn_env hpool
      rw [hlocals]
      exact h.fresh i hi
    | proc j e =>
      obtain ⟨q, m, -, -, -, hframe⟩ := Trace.turn_proc hpool
      have hij : i ≠ j := by
        rintro rfl
        exact hbegun i e rfl hi
      rw [hframe i hij]
      exact h.fresh i hi
  · cases a with
    | env e =>
      obtain ⟨-, hlocals⟩ := Trace.turn_env hpool
      rw [hlocals] at hdone
      exact hgrew.onDlq (h.sent i r hr hdone)
    | proc j e =>
      obtain ⟨q, m, hrecord, hq, hm, hframe⟩ := Trace.turn_proc hpool
      by_cases hij : i = j
      · subst hij
        obtain rfl : m = .done .DLQ_OK := hm.symm.trans hdone
        obtain ⟨message, rfl, hmem⟩ := acked_of_done hrecord
        obtain ⟨envelope, henvelope, hdumps⟩ := hsent i message r rfl hr
        exact ⟨envelope, message, henvelope, hdumps, hq ▸ hmem⟩
      · rw [hframe i hij] at hdone
        exact hgrew.onDlq (h.sent i r hr hdone)
  · obtain ⟨r, hr, hoffset, hthrough⟩ := h.delivered d hd hc
    exact ⟨r, hr, hoffset, hgrew.through hthrough⟩

theorem accounted_delivery (h : Accounted env settings deliveries s) {i : ι} {e : Event}
    (hstep : deliveryStep settings deliveries s i e = some t) : Accounted env settings deliveries t := by
  unfold deliveryStep at hstep
  split at hstep
  · cases hstep
  · cases hstep
  · rename_i e r hrecord hnot
    refine h.stepped hstep (fun j e' heq => ?_) fun j message r' heq => ?_
    · obtain ⟨rfl, -⟩ := Trace.Act.proc.inj heq
      rw [hrecord]
      exact Option.some_ne_none r
    · obtain ⟨-, rfl⟩ := Trace.Act.proc.inj heq
      exact absurd rfl (hnot _)

/-- An acknowledged message is the envelope of its record. -/
theorem dlqReply_acked {r : ConsumerRecord} {exc : Option PyError} {reason : String}
    {failed_at_ms : ℤ} {acked : Bool} {message : Bytes}
    (h : dlqReply env r exc reason failed_at_ms acked = .acked message) :
    ∃ envelope, EnvelopeOf env r envelope ∧ env.orjson.dumps envelope = .ok message := by
  rw [dlqReply] at h
  split at h
  · cases h
  · rename_i bytes hdumps
    split at h
    · cases h
      exact ⟨_, .written exc reason failed_at_ms, hdumps⟩
    · cases h

theorem accounted_send (h : Accounted env settings deliveries s) {i : ι} {last_exc : Option PyError}
    {failed_at_ms : ℤ} {acked : Bool}
    (hstep : sendStep env settings deliveries s i last_exc failed_at_ms acked = some t) :
    Accounted env settings deliveries t := by
  rw [sendStep] at hstep
  split at hstep
  · cases hstep
  · rename_i r hrecord
    refine h.stepped hstep (fun j e heq => ?_) fun j message r' heq hr' => ?_
    · obtain ⟨rfl, -⟩ := Trace.Act.proc.inj heq
      rw [hrecord]
      exact Option.some_ne_none r
    · obtain ⟨rfl, hreply⟩ := Trace.Act.proc.inj heq
      obtain rfl : r = r' := Option.some.inj (hrecord.symm.trans hr')
      exact dlqReply_acked (Event.dlq.inj hreply)

/-! ### The group moves -/

/-- The loop has moved on, and what is current is as it was or has ended. -/
theorem Accounted.moved (h : Accounted env settings deliveries s) (hgroup : GroupOk t.group)
    (hpool : t.pool = s.pool) (hrecord : t.record = s.record)
    (hcurrent : ∀ w i, t.current w = some i → s.current w = some i ∧
      inHand (t.group.locals w) = inHand (s.group.locals w))
    (hdelivered : ∀ d ∈ t.group.shared.deliveries, d.2.2.committable = true →
      ∃ r ∈ (t.group.shared.log d.1).records, r.offset = d.2.1 ∧ Through env deliveries s.pool r) :
    Accounted env settings deliveries t where
  group := hgroup
  backed := by
    rw [hpool]
    exact h.backed
  fresh := by
    rw [hpool, hrecord]
    exact h.fresh
  begun := by
    rw [hrecord]
    exact h.begun
  sent := by
    rw [hpool, hrecord]
    exact h.sent
  current w i hi := by
    obtain ⟨hi, hhand⟩ := hcurrent w i hi
    rw [hrecord, hhand]
    exact h.current w i hi
  delivered := by
    rw [hpool]
    exact hdelivered

variable [DecidableEq W]

theorem Accounted.quiet (h : Accounted env settings deliveries s) {g : WorkerLoop.Group W}
    {a : GroupAct W} (hstep : WorkerLoop.step s.group a = some g)
    (ha : ∀ w outcome, a ≠ .proc w (.processed outcome)) :
    ∀ d ∈ g.shared.deliveries, d.2.2.committable = true →
      ∃ r ∈ (g.shared.log d.1).records, r.offset = d.2.1 ∧ Through env deliveries s.pool r := by
  obtain ⟨hdeliveries, hlog⟩ := loop_quiet hstep ha
  rw [hdeliveries]
  intro d hd hc
  obtain ⟨r, hr, hoffset, hthrough⟩ := h.delivered d hd hc
  exact ⟨r, hlog d.1 hr, hoffset, hthrough⟩

theorem accounted_loop (h : Accounted env settings deliveries s) {a : GroupAct W}
    (hpoll : WorkerLoop.PollsAllHandled s.group a) (hstep : loopStep s a = some t) :
    Accounted env settings deliveries t := by
  rw [loopStep] at hstep
  split at hstep
  · rename_i hallowed
    obtain ⟨g, hg, rfl⟩ := Option.map_eq_some_iff.mp hstep
    refine h.moved (WorkerLoop.groupOk_step s.group a g h.group hpoll hg) rfl rfl
      (fun w i hi => ⟨hi, loop_inHand hg ?_⟩) (h.quiet hg ?_)
    · rintro e rfl
      -- the worker waits for a delivery, so it can only be rebalanced
      cases e with
      | assign tp => exact .inl ⟨tp, rfl⟩
      | revoke tp => exact .inr ⟨tp, rfl⟩
      | processed outcome => cases hallowed
      | _ =>
        have hidle : (s.current w).isNone = true := hallowed
        rw [show s.current w = some i from hi] at hidle
        cases hidle
    · rintro w outcome rfl
      cases hallowed
  · cases hstep

theorem accounted_begin (h : Accounted env settings deliveries s) {w : W} {i : ι}
    (hstep : beginStep env deliveries s w i = some t) : Accounted env settings deliveries t := by
  rw [beginStep] at hstep
  split at hstep
  · rename_i r hcurrent hrecord hhand
    split at hstep
    · cases hstep
    · rename_i event hparse
      split at hstep
      · rename_i hevent
        cases hstep
        have hold : ∀ j r', Function.update s.record i (some r) j = some r' →
            j = i ∧ r' = r ∨ j ≠ i ∧ s.record j = some r' := by
          intro j r' hj
          by_cases hji : j = i
          · subst hji
            rw [Function.update_self] at hj
            exact .inl ⟨rfl, (Option.some.inj hj).symm⟩
          · rw [Function.update_of_ne hji] at hj
            exact .inr ⟨hji, hj⟩
        refine ⟨h.group, h.backed, fun j hj => ?_, fun j r' hj => ?_, fun j r' hj hdone => ?_,
          fun w' j hj => ?_, h.delivered⟩
        · by_cases hji : j = i
          · subst hji
            exact h.fresh j hrecord
          · simp only [Function.update_of_ne hji] at hj
            exact h.fresh j hj
        · obtain ⟨rfl, rfl⟩ | ⟨-, hj⟩ := hold j r' hj
          · rw [hparse, hevent]
          · exact h.begun j r' hj
        · obtain ⟨rfl, rfl⟩ | ⟨-, hj⟩ := hold j r' hj
          · have hwaiting := h.fresh j hrecord
            rw [show s.pool.1.locals j = .done .DLQ_OK from hdone] at hwaiting
            cases hwaiting
          · exact h.sent j r' hj hdone
        · by_cases hw : w' = w
          · subst hw
            simp only [Function.update_self, Option.some.injEq] at hj
            subst hj
            exact ⟨r, Function.update_self _ _ _, hhand⟩
          · simp only [Function.update_of_ne hw] at hj
            obtain ⟨r', hr', hhand'⟩ := h.current w' j hj
            have hji : j ≠ i := by
              rintro rfl
              rw [hrecord] at hr'
              cases hr'
            exact ⟨r', (Function.update_of_ne hji _ _).trans hr', hhand'⟩
      · cases hstep
  · cases hstep

/-! ### A worker gets its answer -/

/-- The group goes on with the outcome of the record in hand. -/
theorem Accounted.answered (h : Accounted env settings deliveries s) {w : W} {r : ConsumerRecord}
    (hhand : inHand (s.group.locals w) = some r) {outcome : ProcessOutcome}
    (hthrough : outcome.committable = true → Through env deliveries s.pool r)
    {g : WorkerLoop.Group W} (hstep : WorkerLoop.step s.group (.proc w (.processed outcome)) = some g) :
    ∀ d ∈ g.shared.deliveries, d.2.2.committable = true →
      ∃ r ∈ (g.shared.log d.1).records, r.offset = d.2.1 ∧ Through env deliveries s.pool r := by
  obtain ⟨hlog, tp, hr, hdeliveries⟩ := loop_processed h.group hhand hstep
  rw [hlog, hdeliveries]
  intro d hd hc
  obtain rfl | hd := List.mem_cons.mp hd
  · exact ⟨r, hr, rfl, hthrough hc⟩
  · exact h.delivered d hd hc

theorem accounted_finish (h : Accounted env settings deliveries s) {w : W}
    (hstep : finishStep s w = some t) : Accounted env settings deliveries t := by
  rw [finishStep] at hstep
  split at hstep
  · cases hstep
  · rename_i i hi
    split at hstep
    · cases hstep
    · rename_i e hend
      obtain ⟨g, hg, rfl⟩ := Option.map_eq_some_iff.mp hstep
      have hpoll : WorkerLoop.PollsAllHandled s.group (.proc w e) := by
        cases e with
        | getmany counts => exact absurd hend (by cases s.pool.1.locals i <;> simp [endOf])
        | _ => trivial
      refine h.moved (WorkerLoop.groupOk_step s.group _ g h.group hpoll hg) rfl rfl
        (fun w' j hj => ?_) ?_
      · have hw : w' ≠ w := by
          rintro rfl
          simp at hj
        simp only [Function.update_of_ne hw] at hj
        refine ⟨hj, loop_inHand hg fun e' heq => ?_⟩
        exact absurd (Trace.Act.proc.inj heq).1.symm hw
      · obtain ⟨r, hr, hhand⟩ := h.current w i hi
        cases hstage : s.pool.1.locals i with
        | done outcome =>
          rw [hstage] at hend
          cases hend
          exact h.answered hhand (h.through hr hstage) hg
        | raised e =>
          rw [hstage] at hend
          cases hend
          exact h.quiet hg (by simp)
        | crashed =>
          rw [hstage] at hend
          cases hend
          exact h.quiet hg (by simp)
        | _ =>
          rw [hstage] at hend
          cases hend

theorem accounted_poison (h : Accounted env settings deliveries s) {w : W} {failed_at_ms : ℤ}
    {acked : Bool} (hstep : poisonStep env s w failed_at_ms acked = some t) :
    Accounted env settings deliveries t := by
  rw [poisonStep] at hstep
  split at hstep
  · rename_i r hcurrent hhand
    -- no delivery of the worker is under way
    have hothers : ∀ {g : WorkerLoop.Group W} {e : WorkerLoop.Event},
        WorkerLoop.step s.group (.proc w e) = some g → ∀ w' i, s.current w' = some i →
          s.current w' = some i ∧ inHand (g.locals w') = inHand (s.group.locals w') := by
      intro g e hg w' i hi
      refine ⟨hi, loop_inHand hg fun e' heq => ?_⟩
      obtain ⟨rfl, -⟩ := Trace.Act.proc.inj heq
      rw [hcurrent] at hi
      cases hi
    split at hstep
    · cases hstep
    · rename_i exc hparse
      split at hstep
      · obtain ⟨g, hg, rfl⟩ := Option.map_eq_some_iff.mp hstep
        exact h.moved (WorkerLoop.groupOk_step s.group (.proc w .restart) g h.group trivial hg) rfl rfl
          (hothers hg) (h.quiet hg (by simp))
      · obtain ⟨g, hg, rfl⟩ := Option.map_eq_some_iff.mp hstep
        exact h.moved (WorkerLoop.groupOk_step s.group (.proc w (.processed .DLQ_FAILED)) g h.group
          trivial hg) rfl rfl (hothers hg) (h.answered hhand (fun hc => by cases hc) hg)
      · rename_i message hreply
        obtain ⟨g, hg, rfl⟩ := Option.map_eq_some_iff.mp hstep
        obtain ⟨envelope, henvelope, hdumps⟩ := dlqReply_acked hreply
        -- first the message is on the DLQ, then the group goes on
        have hgrew : Grew s.pool (Returned.put s.pool message) :=
          ⟨List.Subset.refl _, List.subset_cons_self _ _⟩
        have hput : Accounted env settings deliveries { s with pool := Returned.put s.pool message } := by
          refine ⟨h.group, ⟨h.backed.marked, h.backed.backed, h.backed.enriched⟩, h.fresh, h.begun,
            fun i r hr hdone => hgrew.onDlq (h.sent i r hr hdone), h.current, fun d hd hc => ?_⟩
          obtain ⟨r, hr, hoffset, hthrough⟩ := h.delivered d hd hc
          exact ⟨r, hr, hoffset, hgrew.through hthrough⟩
        refine hput.moved (WorkerLoop.groupOk_step s.group (.proc w (.processed .DLQ_OK)) g h.group
          trivial hg) rfl rfl (hothers hg) (hput.answered hhand (fun _ => .inr ?_) hg)
        exact ⟨envelope, message, henvelope, hdumps, List.mem_cons_self⟩
  · cases hstep

/-! ### Every step, and every run -/

theorem accounted_step (s : System ι W) (a : Act ι W) (t : System ι W)
    (h : Accounted env settings deliveries s) (hpoll : PollsAllHandled s a)
    (hstep : step env settings deliveries s a = some t) : Accounted env settings deliveries t := by
  cases a with
  | loop a => exact accounted_loop h hpoll hstep
  | begin w i => exact accounted_begin h hstep
  | delivery i e => exact accounted_delivery h hstep
  | send i last_exc failed_at_ms acked => exact accounted_send h hstep
  | finish w => exact accounted_finish h hstep
  | poison w failed_at_ms acked => exact accounted_poison h hstep
  | outside e =>
    exact h.stepped hstep (fun i e heq => by cases heq) fun i message r heq => by cases heq

/-- The record has been enriched, its item is unknown, or it is on the DLQ. -/
def DealtWith (env : ProcessOne.Env σ) (settings : Settings) (deliveries : Deliveries ι)
    (x : Returned ι) (r : ConsumerRecord) : Prop :=
  (∃ i, parse env r = .ok (deliveries.event i) ∧
    (Applied settings deliveries x.1.shared i ∨ (i, .unknownItem) ∈ x.2)) ∨ OnDlq env x r

/-- As long as no worker polls past a record that it held back, every click below a committed offset
has had all its side-effects applied by one call of `apply_enrichment`, or was found to be of no item
of the catalogue, or is on the DLQ. -/
theorem committed_dealt_with (env : ProcessOne.Env σ) (settings : Settings) (deliveries : Deliveries ι)
    (log : TopicPartition → WorkerLoop.PartitionLog) (p : Pool ι)
    (hunmarked : ∀ id, p.world.redis.processed id = false) (as : List (Act ι W)) (s : System ι W)
    (hrun : Trace.exec (step env settings deliveries) (start log p) as = some s)
    (hpoll : Trace.Along (step env settings deliveries) PollsAllHandled (start log p) as) :
    ∀ tp o, s.group.shared.committed tp = some o → ∀ r ∈ (s.group.shared.log tp).records,
      r.offset < o → DealtWith env settings deliveries s.pool r := by
  have h : Accounted env settings deliveries s :=
    Trace.exec_invariant accounted_step hpoll hrun (accounted_start log hunmarked)
  intro tp o ho r hr hlt
  obtain ⟨outcome, hc, hmem⟩ := (h.group.committed tp o ho).2 r hr hlt
  obtain ⟨r', hr', hoffset, hthrough⟩ := h.delivered _ hmem hc
  obtain rfl : r' = r := ReplayDlq.eq_of_offset hr' hr hoffset
  obtain ⟨⟨i, how⟩, he, hparse⟩ | hdlq := hthrough
  · cases how with
    | enriched => exact .inl ⟨i, hparse, .inl (h.backed.enriched i he)⟩
    | unknownItem => exact .inl ⟨i, hparse, .inr he⟩
  · exact .inr hdlq

end Invariant

/-! ## A record that is no JSON, and a click -/

def oneByte : Orjson where
  loads raw := if raw = [0x31] then .ok (.int 1) else .error ⟨"JSONDecodeError", "", ""⟩
  dumps _ := .ok []

def bothRecords (tp : TopicPartition) : WorkerLoop.PartitionLog where
  records := [⟨tp.topic, tp.partition, 0, none, none⟩, ⟨tp.topic, tp.partition, 1, none, some [0x31]⟩]
  increasing := by simp

/-- The first goes to the DLQ, the second is enriched, and both are committed. -/
def bothHandled : List (Act Trace.Two Unit) :=
  [.loop (.proc () (.assign WorkerLoop.clicks0)),
    .loop (.proc () (.getmany [(WorkerLoop.clicks0, 2)])), .poison () 0 true, .begin () .first] ++
  cleanDelivery.map (.delivery .first) ++
  [.finish (), .loop (.proc () .partitionDone), .loop (.proc () (.commit [WorkerLoop.clicks0]))]

def clickEnv : ProcessOne.Env World :=
  healthy defaultSettings oneByte (fun _ => .ok (redelivered.event .first)) fun _ => 0

theorem committed_dealt_with_both : ∃ s,
    Trace.exec (step clickEnv defaultSettings redelivered)
      (start bothRecords ⟨World.start oneShoe, []⟩) bothHandled = some s ∧
    s.group.shared.committed WorkerLoop.clicks0 = some 2 ∧
    ∀ r ∈ (s.group.shared.log WorkerLoop.clicks0).records,
      DealtWith clickEnv defaultSettings redelivered s.pool r := by
  refine ⟨_, rfl, rfl, fun r hr => committed_dealt_with clickEnv defaultSettings redelivered bothRecords
    ⟨World.start oneShoe, []⟩ (fun _ => rfl) bothHandled _ rfl (by decide) WorkerLoop.clicks0 2 rfl r
    hr ?_⟩
  have hoffsets : ∀ r ∈ (bothRecords WorkerLoop.clicks0).records, r.offset < 2 := by decide
  exact hoffsets r hr

end ClickRec.Kafka.EndToEnd
