import ClickRec.Lib.Trace
import ClickRec.Kafka.Enrichment
import ClickRec.Kafka.ProcessOne

/-! # The consumer pool: deliveries handled concurrently

Each delivery of an event runs `_process_one` in steps, one for each point where the code awaits. A
dependency answers, or raises with or without having taken effect; a worker may crash at any point. -/
namespace ClickRec.Kafka
set_option autoImplicit false

/-! ## Deliveries -/

/-- What the workers are handed; deliveries with one event id are of one event. -/
structure Deliveries (ι : Type) where
  event : ι → ClickEventDTO
  same : ∀ i j, (event i).event_id = (event j).event_id → event i = event j

def Deliveries.id {ι : Type} (deliveries : Deliveries ι) (i : ι) : Uuid :=
  (deliveries.event i).event_id

/-- The stores, and the side-effects applied to them so far, oldest first. -/
structure Pool (ι : Type) where
  world : World
  applied : List (ι × Op)

/-! ## `_process_one`, step by step -/

inductive Stage where
  | waiting
  | resolving (attempt : ℕ)
  | reading (attempt : ℕ) (category : String)
  | running (attempt : ℕ) (op : Op) (ops : List Op)
  | marking (attempt : ℕ)
  | sleeping (attempt : ℕ)
  | sendingDlq
  | done (outcome : ProcessOutcome)
  | raised (e : PyError)
  | crashed

/-- How a Redis, Postgres or Kafka call of the pipeline ends. -/
inductive Reply where
  | ok
  | error (took : Bool)
  deriving DecidableEq

inductive DlqReply where
  | acked (message : Bytes)
  | kafkaError
  | unserializable (e : PyError)

inductive Event where
  | check (r : Reply)
  | resolve (r : Reply)
  | read (r : Reply)
  | op (r : Reply)
  | mark (r : Reply)
  | wake
  | dlq (r : DlqReply)
  | crash

def World.mark (w : World) (id : Uuid) : World :=
  { w with redis := { w.redis with processed := Function.update w.redis.processed id true } }

/-- The head of the retry loop after `attempts` failed ones. -/
def nextAttempt (settings : Settings) (attempts : ℕ) : Stage :=
  if attempts < settings.consumer_max_retries then .resolving (attempts + 1) else .sendingDlq

/-- The `except Exception` clause; see `ProcessOne.backoff` for its own exception. -/
def failed (settings : Settings) (attempt : ℕ) : Stage :=
  if attempt < settings.consumer_max_retries then
    if attempt - 1 < 1024 then .sleeping attempt
    else .raised ⟨"OverflowError", "int too large to convert to float", ""⟩
  else .sendingDlq

def nextOp (attempt : ℕ) : List Op → Stage
  | [] => .marking attempt
  | op :: ops => .running attempt op ops

def Stage.final : Stage → Bool
  | done _ => true
  | raised _ => true
  | crashed => true
  | _ => false

section Step
variable {ι : Type}

/-- The side-effect on the stores, entered into the history. -/
def Pool.apply (p : Pool ι) (i : ι) (op : Op) : Except PyError (Pool ι) :=
  (op.run p.world).map fun w => ⟨w, p.applied ++ [(i, op)]⟩

def recordStep (settings : Settings) (deliveries : Deliveries ι) (i : ι) (p : Pool ι) :
    Stage → Event → Option (Pool ι × Stage)
  | .waiting, .check .ok =>
    some (p, if p.world.redis.processed (deliveries.id i) then .done .OK else nextAttempt settings 0)
  -- fail-open: the check returns False
  | .waiting, .check (.error _) => some (p, nextAttempt settings 0)
  | .resolving k, .resolve .ok =>
    match resolveItemMeta settings p.world.db p.world.caches (deliveries.event i).item_id with
    | (none, caches) => some ({ p with world := { p.world with caches := caches } }, .marking k)
    | (some row, caches) =>
      some ({ p with world := { p.world with caches := caches } }, .reading k row.category)
  | .resolving k, .resolve (.error _) => some (p, failed settings k)
  -- the timestamp is converted on the way to the read
  | .reading k category, .read .ok =>
    match (deliveries.event i).timestamp_ms with
    | .error _ => some (p, failed settings k)
    | .ok _ => some (p, nextOp k (effects settings (deliveries.event i) category
        (sessionItems settings p.world.redis (deliveries.event i))))
  | .reading k _, .read (.error _) => some (p, failed settings k)
  | .running k op ops, .op .ok =>
    match p.apply i op with
    | .ok p' => some (p', nextOp k ops)
    | .error _ => some (p, failed settings k)
  | .running k op _, .op (.error took) =>
    match took, p.apply i op with
    | true, .ok p' => some (p', failed settings k)
    | _, _ => some (p, failed settings k)
  | .marking _, .mark .ok => some ({ p with world := p.world.mark (deliveries.id i) }, .done .OK)
  -- fail-open: the error is swallowed
  | .marking _, .mark (.error took) =>
    some (if took then { p with world := p.world.mark (deliveries.id i) } else p, .done .OK)
  | .sleeping k, .wake => some (p, .resolving (k + 1))
  | .sendingDlq, .dlq (.acked message) =>
    some ({ p with world := { p.world with dlq := message :: p.world.dlq } }, .done .DLQ_OK)
  | .sendingDlq, .dlq .kafkaError => some (p, .done .DLQ_FAILED)
  | .sendingDlq, .dlq (.unserializable e) => some (p, .raised e)
  | stage, .crash => if stage.final then none else some (p, .crashed)
  | _, _ => none

/-! ## Concurrent deliveries -/

/-- What happens around the workers: an item is deleted from the catalogue, a key expires, the
process restarts with empty caches. -/
inductive Outside where
  | deleteItem (id : String)
  | expireMarker (id : Uuid)
  | expireZset (key : String)
  | restart

def outside (p : Pool ι) : Outside → Option (Pool ι)
  | .deleteItem id => some { p with world := { p.world with db := p.world.db.delete id } }
  | .expireMarker id =>
    some { p with world := { p.world with redis :=
      { p.world.redis with processed := Function.update p.world.redis.processed id false } } }
  | .expireZset key =>
    some { p with world := { p.world with redis := p.world.redis.onZset key fun _ => .empty } }
  | .restart => some { p with world := { p.world with caches := ⟨[], []⟩ } }

variable [DecidableEq ι]

abbrev Workers (ι : Type) := Trace.Config ι (Pool ι) Stage
abbrev WorkerAct (ι : Type) := Trace.Act ι Event Outside

def poolStep (settings : Settings) (deliveries : Deliveries ι) :
    Workers ι → WorkerAct ι → Option (Workers ι) :=
  Trace.turn (recordStep settings deliveries) outside

def poolStart (item : String → Option ItemMeta) : Workers ι :=
  ⟨⟨World.start item, []⟩, fun _ => .waiting⟩

end Step

/-- The steps of a delivery whose item is known, nothing failing. -/
def cleanDelivery : List Event :=
  [.check .ok, .resolve .ok, .read .ok] ++ List.replicate 9 (.op .ok) ++ [.mark .ok]

/-! ## What a step of a delivery can do to the stores -/

section Effect
variable {ι : Type} {settings : Settings} {deliveries : Deliveries ι} {i : ι} {p q : Pool ι}

theorem apply_ok {op : Op} (h : p.apply i op = .ok q) :
    op.run p.world = .ok q.world ∧ q.applied = p.applied ++ [(i, op)] := by
  unfold Pool.apply at h
  cases hop : op.run p.world with
  | error e => simp [hop, Except.map] at h
  | ok w =>
    simp only [hop, Except.map, Except.ok.injEq] at h
    rw [← h]
    exact ⟨rfl, rfl⟩

inductive RecordStep (settings : Settings) (deliveries : Deliveries ι) (i : ι) (p : Pool ι) :
    Stage → Event → Pool ι → Stage → Prop where
  | skip : p.world.redis.processed (deliveries.id i) = true →
    RecordStep settings deliveries i p .waiting (.check .ok) p (.done .OK)
  | enter : p.world.redis.processed (deliveries.id i) = false →
    RecordStep settings deliveries i p .waiting (.check .ok) p (nextAttempt settings 0)
  | checkFailed {took : Bool} :
    RecordStep settings deliveries i p .waiting (.check (.error took)) p (nextAttempt settings 0)
  | unknown {k : ℕ} {caches : ItemCaches} :
    resolveItemMeta settings p.world.db p.world.caches (deliveries.event i).item_id =
      (none, caches) →
    RecordStep settings deliveries i p (.resolving k) (.resolve .ok)
      { p with world := { p.world with caches := caches } } (.marking k)
  | resolve {k : ℕ} {row : ItemMeta} {caches : ItemCaches} :
    resolveItemMeta settings p.world.db p.world.caches (deliveries.event i).item_id =
      (some row, caches) →
    RecordStep settings deliveries i p (.resolving k) (.resolve .ok)
      { p with world := { p.world with caches := caches } } (.reading k row.category)
  | resolveFailed {k : ℕ} {took : Bool} :
    RecordStep settings deliveries i p (.resolving k) (.resolve (.error took)) p (failed settings k)
  | read {k : ℕ} {category : String} : (deliveries.event i).converts = true →
    RecordStep settings deliveries i p (.reading k category) (.read .ok) p
      (nextOp k (effects settings (deliveries.event i) category
        (sessionItems settings p.world.redis (deliveries.event i))))
  | conversionFailed {k : ℕ} {category : String} : (deliveries.event i).converts = false →
    RecordStep settings deliveries i p (.reading k category) (.read .ok) p (failed settings k)
  | readFailed {k : ℕ} {category : String} {took : Bool} :
    RecordStep settings deliveries i p (.reading k category) (.read (.error took)) p
      (failed settings k)
  | op {k : ℕ} {op : Op} {ops : List Op} {q : Pool ι} : p.apply i op = .ok q →
    RecordStep settings deliveries i p (.running k op ops) (.op .ok) q (nextOp k ops)
  | opRejected {k : ℕ} {op : Op} {ops : List Op} {e : PyError} : p.apply i op = .error e →
    RecordStep settings deliveries i p (.running k op ops) (.op .ok) p (failed settings k)
  | opTook {k : ℕ} {op : Op} {ops : List Op} {q : Pool ι} : p.apply i op = .ok q →
    RecordStep settings deliveries i p (.running k op ops) (.op (.error true)) q (failed settings k)
  | opFailed {k : ℕ} {op : Op} {ops : List Op} {took : Bool} :
    RecordStep settings deliveries i p (.running k op ops) (.op (.error took)) p (failed settings k)
  | mark {k : ℕ} : RecordStep settings deliveries i p (.marking k) (.mark .ok)
      { p with world := p.world.mark (deliveries.id i) } (.done .OK)
  | markTook {k : ℕ} : RecordStep settings deliveries i p (.marking k) (.mark (.error true))
      { p with world := p.world.mark (deliveries.id i) } (.done .OK)
  | markFailed {k : ℕ} :
    RecordStep settings deliveries i p (.marking k) (.mark (.error false)) p (.done .OK)
  | wake {k : ℕ} :
    RecordStep settings deliveries i p (.sleeping k) .wake p (.resolving (k + 1))
  | dlqAcked {message : Bytes} : RecordStep settings deliveries i p .sendingDlq (.dlq (.acked message))
      { p with world := { p.world with dlq := message :: p.world.dlq } } (.done .DLQ_OK)
  | dlqFailed : RecordStep settings deliveries i p .sendingDlq (.dlq .kafkaError) p (.done .DLQ_FAILED)
  | dlqRaised {e : PyError} :
    RecordStep settings deliveries i p .sendingDlq (.dlq (.unserializable e)) p (.raised e)
  | crash {l : Stage} : l.final = false → RecordStep settings deliveries i p l .crash p .crashed

theorem recordStep_inv {l m : Stage} {a : Event}
    (h : recordStep settings deliveries i p l a = some (q, m)) :
    RecordStep settings deliveries i p l a q m := by
  unfold recordStep at h
  split at h
  · obtain ⟨rfl, rfl⟩ := Prod.mk.inj (Option.some.inj h)
    split
    · rename_i hseen
      exact .skip hseen
    · rename_i hunseen
      exact .enter (Bool.eq_false_iff.mpr hunseen)
  · cases h
    exact .checkFailed
  · split at h
    · rename_i hres
      cases h
      exact .unknown hres
    · rename_i hres
      cases h
      exact .resolve hres
  · cases h
    exact .resolveFailed
  · split at h
    · rename_i hts
      cases h
      exact .conversionFailed (by rw [ClickEventDTO.converts, hts]; rfl)
    · rename_i hts
      cases h
      exact .read (by rw [ClickEventDTO.converts, hts]; rfl)
  · cases h
    exact .readFailed
  · split at h
    · rename_i hop
      cases h
      exact .op hop
    · rename_i hop
      cases h
      exact .opRejected hop
  · split at h
    · rename_i hop
      cases h
      exact .opTook hop
    · cases h
      exact .opFailed
  · cases h
    exact .mark
  · rename_i took
    cases took with
    | true =>
      cases h
      exact .markTook
    | false =>
      cases h
      exact .markFailed
  · cases h
    exact .wake
  · cases h
    exact .dlqAcked
  · cases h
    exact .dlqFailed
  · cases h
    exact .dlqRaised
  · split at h
    · cases h
    · rename_i hfinal
      cases h
      exact .crash (Bool.eq_false_iff.mpr hfinal)
  · cases h

inductive PoolEffect (settings : Settings) (deliveries : Deliveries ι) (i : ι) (p : Pool ι) :
    Pool ι → Prop where
  | same : PoolEffect settings deliveries i p p
  | resolved {row : Option ItemMeta} {caches : ItemCaches} :
    resolveItemMeta settings p.world.db p.world.caches (deliveries.event i).item_id = (row, caches) →
      PoolEffect settings deliveries i p { p with world := { p.world with caches := caches } }
  | applied {op : Op} {q : Pool ι} : p.apply i op = .ok q → PoolEffect settings deliveries i p q
  | marked :
    PoolEffect settings deliveries i p { p with world := p.world.mark (deliveries.id i) }
  | dlq (message : Bytes) : PoolEffect settings deliveries i p
      { p with world := { p.world with dlq := message :: p.world.dlq } }

theorem recordStep_effect {l m : Stage} {a : Event}
    (h : recordStep settings deliveries i p l a = some (q, m)) :
    PoolEffect settings deliveries i p q := by
  cases recordStep_inv h with
  | unknown hres => exact .resolved hres
  | resolve hres => exact .resolved hres
  | op hop => exact .applied hop
  | opTook hop => exact .applied hop
  | mark => exact .marked
  | markTook => exact .marked
  | dlqAcked => exact .dlq _
  | _ => exact .same

/-- Only a delivery that waits looks the marker up; unless it finds it, it goes to work. -/
theorem recordStep_check {l m : Stage} {r : Reply}
    (h : recordStep settings deliveries i p l (.check r) = some (q, m)) :
    l = .waiting ∧ (p.world.redis.processed (deliveries.id i) = false → m = nextAttempt settings 0) := by
  cases l with
  | waiting =>
    refine ⟨rfl, fun hunseen => ?_⟩
    cases r with
    | ok =>
      simp only [recordStep, hunseen, Bool.false_eq_true, if_false, Option.some.injEq,
        Prod.mk.injEq] at h
      exact h.2.symm
    | error took =>
      simp only [recordStep, Option.some.injEq, Prod.mk.injEq] at h
      exact h.2.symm
  | _ => cases h

/-- A delivery that waits looks the marker up or crashes. -/
theorem recordStep_waiting {m : Stage} {a : Event}
    (h : recordStep settings deliveries i p .waiting a = some (q, m)) :
    (∃ r, a = .check r) ∨ a = .crash := by
  cases a with
  | check r => exact .inl ⟨r, rfl⟩
  | crash => exact .inr rfl
  | _ => cases h

end Effect

/-! ## A delivery on its own runs as `processOne` -/

/-- Healthy dependencies over the stores. -/
def healthy (settings : Settings) (orjson : Orjson) (validate : Json → Except PyError ClickEventDTO)
    (now_ms : World → ℤ) : ProcessOne.Env World where
  orjson := orjson
  validate := validate
  consumer_max_retries := settings.consumer_max_retries
  consumer_backoff_base_s := settings.consumer_backoff_base_s
  now_ms := now_ms
  exists_ := fun w id => (.ok (w.redis.processed id), w)
  enrich := fun w event => applyEnrichment settings event w
  set := fun w id => (.ok (), w.mark id)
  broker := fun w message => (.ok (), { w with dlq := message :: w.dlq })
  sleep := fun w _ => w

section Solo
variable {ι : Type} (settings : Settings) (deliveries : Deliveries ι) (i : ι)

abbrev soloStep : Pool ι × Stage → Event → Option (Pool ι × Stage) :=
  Trace.solo (recordStep settings deliveries) i

/-- The stage after an attempt. -/
def afterAttempt (k : ℕ) : Except PyError Unit → Stage
  | .ok () => .marking k
  | .error _ => failed settings k

theorem solo_ops (k : ℕ) (ops : List Op) : ∀ (op : Op) (p : Pool ι), ∃ q,
    Trace.Reaches (soloStep settings deliveries i) (p, .running k op ops)
      (q, afterAttempt settings k (runOps p.world (op :: ops)).1) ∧
    q.world = (runOps p.world (op :: ops)).2 := by
  induction ops with
  | nil =>
    intro op p
    cases hop : op.run p.world with
    | error e =>
      have hops : runOps p.world [op] = (.error e, p.world) := by simp only [runOps, hop]
      rw [hops]
      refine ⟨p, .single (.op .ok) ?_, rfl⟩
      simp [Trace.solo, recordStep, Pool.apply, hop, Except.map, afterAttempt]
    | ok w =>
      have hops : runOps p.world [op] = (.ok (), w) := by simp only [runOps, hop]
      rw [hops]
      refine ⟨⟨w, p.applied ++ [(i, op)]⟩, .single (.op .ok) ?_, rfl⟩
      simp [Trace.solo, recordStep, Pool.apply, hop, Except.map, afterAttempt, nextOp]
  | cons next ops ih =>
    intro op p
    cases hop : op.run p.world with
    | error e =>
      have hops : runOps p.world (op :: next :: ops) = (.error e, p.world) := by
        rw [runOps, hop]
      rw [hops]
      refine ⟨p, .single (.op .ok) ?_, rfl⟩
      simp [Trace.solo, recordStep, Pool.apply, hop, Except.map, afterAttempt]
    | ok w =>
      have hops : runOps p.world (op :: next :: ops) = runOps w (next :: ops) := by
        rw [runOps, hop]
      obtain ⟨q, hreach, hq⟩ := ih next ⟨w, p.applied ++ [(i, op)]⟩
      rw [hops]
      refine ⟨q, .head (.op .ok) ?_ hreach, hq⟩
      simp [Trace.solo, recordStep, Pool.apply, hop, Except.map, nextOp]

theorem solo_attempt (k : ℕ) (p : Pool ι) : ∃ q,
    Trace.Reaches (soloStep settings deliveries i) (p, .resolving k)
      (q, afterAttempt settings k (applyEnrichment settings (deliveries.event i) p.world).1) ∧
    q.world = (applyEnrichment settings (deliveries.event i) p.world).2 := by
  obtain ⟨⟨row, caches⟩, hres⟩ : ∃ r,
    resolveItemMeta settings p.world.db p.world.caches (deliveries.event i).item_id = r := ⟨_, rfl⟩
  let w : World := { p.world with caches := caches }
  cases row with
  | none =>
    rw [applyEnrichment, hres]
    refine ⟨{ p with world := w }, .single (.resolve .ok) ?_, rfl⟩
    simp [Trace.solo, recordStep, hres, afterAttempt, w]
  | some row =>
    have hresolve : soloStep settings deliveries i (p, .resolving k) (.resolve .ok) =
        some ({ p with world := w }, .reading k row.category) := by
      simp [Trace.solo, recordStep, hres, w]
    cases hts : (deliveries.event i).converts with
    | false =>
      obtain ⟨e, he⟩ := ClickEventDTO.exists_error_of_not_converts hts
      obtain ⟨e', hfail⟩ := applyEnrichment_of_not_converts settings hts hres
      rw [hfail]
      refine ⟨{ p with world := w }, .head (.resolve .ok) hresolve (.single (.read .ok) ?_), rfl⟩
      simp [Trace.solo, recordStep, he, afterAttempt]
    | true =>
      have hok := ClickEventDTO.timestamp_ms_of_converts hts
      obtain ⟨op, ops, hops⟩ : ∃ op ops, effects settings (deliveries.event i) row.category
          (sessionItems settings p.world.redis (deliveries.event i)) = op :: ops := ⟨_, _, rfl⟩
      obtain ⟨q, hreach, hq⟩ := solo_ops settings deliveries i k ops op { p with world := w }
      rw [applyEnrichment_of_converts hts hres, hops]
      refine ⟨q, .head (.resolve .ok) hresolve (.head (.read .ok) ?_ hreach), hq⟩
      have hread : sessionItems settings w.redis (deliveries.event i) =
        sessionItems settings p.world.redis (deliveries.event i) := rfl
      simp [Trace.solo, recordStep, hok, hread, hops, nextOp]

variable (orjson : Orjson) (validate : Json → Except PyError ClickEventDTO) (now_ms : World → ℤ)

/-- The stage and the stores at the end of the retry loop. -/
def LoopEnds (q : Pool ι) (stage : Stage) : ProcessOne.LoopEnd World → Prop
  | .returned w => stage = .done .OK ∧ q.world = w
  | .exhausted _ w => stage = .sendingDlq ∧ q.world = w
  | .raised e w => stage = .raised e ∧ q.world = w

theorem solo_attempts (left : ℕ) : ∀ (p : Pool ι) (last : Option PyError),
    left ≤ settings.consumer_max_retries → ∃ q stage,
      Trace.Reaches (soloStep settings deliveries i)
        (p, nextAttempt settings (settings.consumer_max_retries - left)) (q, stage) ∧
      LoopEnds q stage (ProcessOne.attempts (healthy settings orjson validate now_ms)
        (deliveries.event i) left p.world last) := by
  induction left with
  | zero =>
    intro p last _
    refine ⟨p, .sendingDlq, ?_, rfl, rfl⟩
    rw [nextAttempt, if_neg (by omega)]
    exact .refl _
  | succ left ih =>
    intro p last hleft
    obtain ⟨q, hreach, hq⟩ :=
      solo_attempt settings deliveries i (settings.consumer_max_retries - left) p
    have hfirst : nextAttempt settings (settings.consumer_max_retries - (left + 1)) =
        .resolving (settings.consumer_max_retries - left) := by
      rw [nextAttempt, if_pos (by omega)]
      congr 1
      omega
    obtain ⟨⟨result, w⟩, hresult⟩ : ∃ r, applyEnrichment settings (deliveries.event i) p.world = r :=
      ⟨_, rfl⟩
    have henrich : (healthy settings orjson validate now_ms).enrich p.world (deliveries.event i) =
        (result, w) := hresult
    rw [hresult] at hreach hq
    rw [hfirst, ProcessOne.attempts, henrich]
    cases result with
    | ok u =>
      refine ⟨{ q with world := q.world.mark (deliveries.id i) }, .done .OK,
        hreach.trans (.single (.mark .ok) rfl), rfl, ?_⟩
      rw [hq]
      rfl
    | error exc =>
      have hretries : (healthy settings orjson validate now_ms).consumer_max_retries =
        settings.consumer_max_retries := rfl
      simp only [hretries]
      by_cases hlast : settings.consumer_max_retries - left < settings.consumer_max_retries
      · rw [if_pos hlast]
        by_cases hsmall : settings.consumer_max_retries - left - 1 < 1024
        · obtain ⟨q', stage, hrest, hends⟩ := ih q (some exc) (by omega)
          have hnext : nextAttempt settings (settings.consumer_max_retries - left) =
              .resolving (settings.consumer_max_retries - left + 1) := by
            rw [nextAttempt, if_pos hlast]
          have hsleep : afterAttempt settings (settings.consumer_max_retries - left) (.error exc) =
              .sleeping (settings.consumer_max_retries - left) := by
            rw [afterAttempt, failed, if_pos hlast, if_pos hsmall]
          rw [hsleep] at hreach
          rw [hnext] at hrest
          refine ⟨q', stage, hreach.trans (.head .wake rfl hrest), ?_⟩
          rw [ProcessOne.backoff, if_pos hsmall]
          rw [hq] at hends
          exact hends
        · have hraised : afterAttempt settings (settings.consumer_max_retries - left) (.error exc) =
              .raised ⟨"OverflowError", "int too large to convert to float", ""⟩ := by
            rw [afterAttempt, failed, if_pos hlast, if_neg hsmall]
          rw [hraised] at hreach
          rw [ProcessOne.backoff, if_neg hsmall]
          exact ⟨q, _, hreach, rfl, hq⟩
      · have hzero : left = 0 := by omega
        subst hzero
        have hdlq : afterAttempt settings (settings.consumer_max_retries - 0) (.error exc) =
            .sendingDlq := by
          rw [afterAttempt, failed, if_neg hlast]
        rw [hdlq] at hreach
        rw [if_neg hlast]
        exact ⟨q, _, hreach, rfl, hq⟩

/-- The stage that stands for the end of `_process_one`. -/
def endStage : Except PyError ProcessOutcome → Stage
  | .ok outcome => .done outcome
  | .error e => .raised e

theorem solo_dlq (record : ConsumerRecord) (p : Pool ι) (exc : Option PyError) (reason : String) :
    ∃ q, Trace.Reaches (soloStep settings deliveries i) (p, .sendingDlq)
        (q, endStage (ProcessOne.outcomeOfSent (ProcessOne.sendToDlq
          (healthy settings orjson validate now_ms) p.world record exc reason)).1) ∧
      q.world = (ProcessOne.outcomeOfSent (ProcessOne.sendToDlq
          (healthy settings orjson validate now_ms) p.world record exc reason)).2 := by
  obtain ⟨r, hdumps⟩ : ∃ r, orjson.dumps (ProcessOne.dlqMessage
    (healthy settings orjson validate now_ms) record exc reason (now_ms p.world)) = r := ⟨_, rfl⟩
  cases r with
  | error e =>
    have hsend : ProcessOne.sendToDlq (healthy settings orjson validate now_ms) p.world record exc
        reason = (.error e, p.world) := by
      unfold ProcessOne.sendToDlq ProcessOne.sendAndWait
      simp only [healthy] at hdumps ⊢
      rw [hdumps]
    rw [hsend]
    exact ⟨p, .single (.dlq (.unserializable e)) rfl, rfl⟩
  | ok message =>
    have hsend : ProcessOne.sendToDlq (healthy settings orjson validate now_ms) p.world record exc
        reason = (.ok true, { p.world with dlq := message :: p.world.dlq }) := by
      unfold ProcessOne.sendToDlq ProcessOne.sendAndWait
      simp only [healthy] at hdumps ⊢
      rw [hdumps]
    rw [hsend]
    exact ⟨_, .single (.dlq (.acked message)) rfl, rfl⟩

theorem solo_processOne (record : ConsumerRecord) (p : Pool ι)
    (hparse : ProcessOne.parse (healthy settings orjson validate now_ms) record =
      .ok (deliveries.event i)) :
    ∃ q, Trace.Reaches (soloStep settings deliveries i) (p, .waiting)
        (q, endStage (ProcessOne.processOne (healthy settings orjson validate now_ms) record
          p.world).1) ∧
      q.world = (ProcessOne.processOne (healthy settings orjson validate now_ms) record p.world).2 := by
  unfold ProcessOne.processOne
  simp only [hparse]
  have hchecked : ProcessOne.isConsumerEventProcessed (healthy settings orjson validate now_ms)
    p.world (deliveries.event i).event_id = (p.world.redis.processed (deliveries.id i), p.world) := rfl
  rw [hchecked]
  cases hseen : p.world.redis.processed (deliveries.id i) with
  | true =>
    refine ⟨p, .single (.check .ok) ?_, rfl⟩
    simp [Trace.solo, recordStep, hseen, endStage]
  | false =>
    have hcheck : soloStep settings deliveries i (p, .waiting) (.check .ok) =
        some (p, nextAttempt settings 0) := by
      simp [Trace.solo, recordStep, hseen]
    obtain ⟨q, stage, hreach, hends⟩ := solo_attempts settings deliveries i orjson validate now_ms
      settings.consumer_max_retries p none le_rfl
    rw [Nat.sub_self] at hreach
    have hretries : (healthy settings orjson validate now_ms).consumer_max_retries =
      settings.consumer_max_retries := rfl
    simp only [hretries]
    cases hloop : ProcessOne.attempts (healthy settings orjson validate now_ms) (deliveries.event i)
      settings.consumer_max_retries p.world none with
    | returned w =>
      rw [hloop] at hends
      obtain ⟨rfl, rfl⟩ := hends
      exact ⟨q, .head (.check .ok) hcheck hreach, rfl⟩
    | raised e w =>
      rw [hloop] at hends
      obtain ⟨rfl, rfl⟩ := hends
      exact ⟨q, .head (.check .ok) hcheck hreach, rfl⟩
    | exhausted last w =>
      rw [hloop] at hends
      obtain ⟨rfl, rfl⟩ := hends
      obtain ⟨q', hsend, hq'⟩ :=
        solo_dlq settings deliveries i orjson validate now_ms record q last "retries_exhausted"
      exact ⟨q', .head (.check .ok) hcheck (hreach.trans hsend), hq'⟩

/-- **A delivery on its own.** From any configuration, a delivery that is not interrupted and whose
dependencies are healthy ends as `_process_one` does and leaves the stores as it does. -/
theorem exec_processOne [DecidableEq ι] (record : ConsumerRecord) (c : Workers ι)
    (hparse : ProcessOne.parse (healthy settings orjson validate now_ms) record =
      .ok (deliveries.event i)) (hwaiting : c.locals i = .waiting) :
    ∃ (as : List Event) (q : Pool ι), Trace.exec (poolStep settings deliveries) c (as.map (.proc i)) =
        some ⟨q, Function.update c.locals i (endStage (ProcessOne.processOne
          (healthy settings orjson validate now_ms) record c.shared.world).1)⟩ ∧
      q.world =
        (ProcessOne.processOne (healthy settings orjson validate now_ms) record c.shared.world).2 := by
  obtain ⟨q, ⟨as, hexec⟩, hq⟩ :=
    solo_processOne settings deliveries i orjson validate now_ms record c.shared hparse
  rw [← hwaiting] at hexec
  exact ⟨as, q, Trace.exec_solo hexec, hq⟩

end Solo

end ClickRec.Kafka
