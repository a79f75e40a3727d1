import ClickRec.Kafka.Records
import ClickRec.Lib.Trace

/-! # `_worker_loop`: polling, dispatching, committing

Any number of workers of one consumer group over the partitions of a topic. A worker keeps, for each
assigned partition, the fetch position of its consumer; the group's committed offsets live on the
broker. `getmany` moves the position past what it returns, a (re)assignment moves it back to the
committed offset, and nothing else moves it. -/
namespace ClickRec.Kafka.WorkerLoop
set_option autoImplicit false

/-! ## The broker

A partition log holds records of increasing offsets, not necessarily consecutive. Next to the logs
and the group's committed offsets the broker keeps the history of deliveries with their outcomes. -/

structure PartitionLog where
  records : List ConsumerRecord
  increasing : records.Pairwise fun a b => a.offset < b.offset

namespace PartitionLog

def endOffset (log : PartitionLog) : ℕ :=
  match log.records.getLast? with
  | none => 0
  | some r => r.offset + 1

/-- What `getmany` may return from a fetch position: the next records in order, at most `n`. -/
def fetch (log : PartitionLog) (position n : ℕ) : List ConsumerRecord :=
  (log.records.dropWhile fun r => r.offset < position).take n

theorem lt_endOffset {log : PartitionLog} {r : ConsumerRecord} (hr : r ∈ log.records) :
    r.offset < log.endOffset := by
  obtain ⟨records, increasing⟩ := log
  rcases records.eq_nil_or_concat with rfl | ⟨init, last, rfl⟩
  · simp at hr
  · simp only [endOffset, List.concat_eq_append, List.getLast?_concat]
    simp only [List.concat_eq_append, List.mem_append, List.mem_singleton] at hr increasing
    rcases hr with hr | rfl
    · have h := (List.pairwise_append.mp increasing).2.2 r hr last (by simp)
      omega
    · omega

def append (log : PartitionLog) (r : ConsumerRecord) (h : log.endOffset ≤ r.offset) :
    PartitionLog where
  records := log.records ++ [r]
  increasing := by
    refine List.pairwise_append.mpr ⟨log.increasing, by simp, ?_⟩
    intro a ha b hb
    have hlt := lt_endOffset ha
    simp only [List.mem_singleton] at hb
    subst hb
    omega

theorem endOffset_append (log : PartitionLog) (r : ConsumerRecord) (h : log.endOffset ≤ r.offset) :
    (log.append r h).endOffset = r.offset + 1 := by
  simp [endOffset, append]

end PartitionLog

structure Broker where
  log : TopicPartition → PartitionLog
  committed : TopicPartition → Option ℕ
  deliveries : List (TopicPartition × ℕ × ProcessOutcome)

def Broker.Handled (b : Broker) (tp : TopicPartition) (offset : ℕ) : Prop :=
  ∃ outcome, outcome.committable = true ∧ (tp, offset, outcome) ∈ b.deliveries

/-! ## One worker

A worker is about to call `getmany`, or inside `for tp, records in batch.items()` with the current
partition and its remaining records at the head of `batch`. Its consumer has a fetch position for
each assigned partition. `heldBack` is history: a record that ended `DLQ_FAILED` lies below the
fetch position of the partition. -/

inductive Phase where
  | polling
  | handling (batch : List (TopicPartition × List ConsumerRecord))
      (lastCommittableOffset : Option ℕ) (commits : List (TopicPartition × ℕ))
  deriving DecidableEq

structure Worker where
  phase : Phase
  position : TopicPartition → Option ℕ
  heldBack : TopicPartition → Bool

def Worker.fresh : Worker := ⟨.polling, fun _ => none, fun _ => false⟩

/-- What happens to a worker: `getmany` returns at most so many records of each named partition,
`_process_one` returns, the inner loop of a partition ends, `consumer.commit` returns or raises
`KafkaError` having stored the offsets of some partitions, a rebalance assigns or revokes a
partition, the task ends anywhere and starts anew. -/
inductive Event where
  | getmany (counts : List (TopicPartition × ℕ))
  | processed (outcome : ProcessOutcome)
  | partitionDone
  | commit (stored : List TopicPartition)
  | assign (tp : TopicPartition)
  | revoke (tp : TopicPartition)
  | restart
  deriving DecidableEq

def fetchBatch (b : Broker) (k : Worker) :
    List (TopicPartition × ℕ) → Option (List (TopicPartition × List ConsumerRecord))
  | [] => some []
  | (tp, n) :: counts =>
    match k.position tp with
    | none => none
    | some p =>
      match (b.log tp).fetch p n with
      | [] => none
      | r :: rs => (fetchBatch b k counts).map fun batch => (tp, r :: rs) :: batch

def advance (batch : List (TopicPartition × List ConsumerRecord))
    (position : TopicPartition → Option ℕ) (tp : TopicPartition) : Option ℕ :=
  match batch.find? fun x => x.1 = tp with
  | none => position tp
  | some x =>
    match x.2.getLast? with
    | none => position tp
    | some r => some (r.offset + 1)

def store (commits : List (TopicPartition × ℕ)) (stored : List TopicPartition)
    (committed : TopicPartition → Option ℕ) (tp : TopicPartition) : Option ℕ :=
  if tp ∈ stored then
    match commits.find? fun x => x.1 = tp with
    | none => committed tp
    | some x => some x.2
  else committed tp

def workerStep (b : Broker) (k : Worker) : Event → Option (Broker × Worker)
  | .getmany counts =>
    match k.phase with
    | .polling =>
      if (counts.map Prod.fst).Nodup then
        (fetchBatch b k counts).map fun batch =>
          -- `if not batch: continue`
          if batch.isEmpty then (b, k)
          else (b, { k with phase := .handling batch none [], position := advance batch k.position })
      else none
    | .handling .. => none
  | .processed outcome =>
    match k.phase with
    | .handling ((tp, r :: records) :: batch) last commits =>
      let b' := { b with deliveries := (tp, r.offset, outcome) :: b.deliveries }
      if outcome.committable then
        some (b', { k with phase := .handling ((tp, records) :: batch) (some r.offset) commits })
      else
        -- `break`: the rest of the partition is left; the fetch position stays where it is
        some (b', { k with
          phase := .handling ((tp, []) :: batch) last commits
          heldBack := fun tp' =>
            k.heldBack tp' || (tp' = tp && (k.position tp).any fun p => r.offset < p) })
    | _ => none
  | .partitionDone =>
    match k.phase with
    | .handling ((tp, []) :: batch) last commits =>
      let commits' := match last with
        | none => commits
        | some o => commits ++ [(tp, o + 1)]
      some (b, { k with phase := .handling batch none commits' })
    | _ => none
  | .commit stored =>
    match k.phase with
    | .handling [] _ commits =>
      some ({ b with committed := store commits stored b.committed }, { k with phase := .polling })
    | _ => none
  | .assign tp =>
    -- no committed offset: `auto_offset_reset="earliest"`
    some (b, { k with
      position := Function.update k.position tp (some ((b.committed tp).getD 0))
      heldBack := Function.update k.heldBack tp false })
  | .revoke tp =>
    some (b, { k with
      position := Function.update k.position tp none
      heldBack := Function.update k.heldBack tp false })
  | .restart => some (b, .fresh)

/-! ## The group -/

def produce (b : Broker) (e : TopicPartition × ConsumerRecord) : Option Broker :=
  if h : (b.log e.1).endOffset ≤ e.2.offset then
    some { b with log := Function.update b.log e.1 ((b.log e.1).append e.2 h) }
  else none

variable {W : Type} [DecidableEq W]

abbrev Group (W : Type) := Trace.Config W Broker Worker
abbrev GroupAct (W : Type) := Trace.Act W Event (TopicPartition × ConsumerRecord)

def step : Group W → GroupAct W → Option (Group W) :=
  Trace.turn (fun _ => workerStep) produce

def start (log : TopicPartition → PartitionLog) : Group W :=
  ⟨⟨log, fun _ => none, []⟩, fun _ => .fresh⟩

def NoLoss (s : Group W) : Prop :=
  ∀ tp o, s.shared.committed tp = some o →
    ∀ r ∈ (s.shared.log tp).records, r.offset < o → s.shared.Handled tp r.offset

/-- A poll returns nothing of a partition whose position has passed a held-back record. -/
def PollsAllHandled (s : Group W) : GroupAct W → Prop
  | .proc w (.getmany counts) => ∀ x ∈ counts, (s.locals w).heldBack x.1 = false
  | _ => True

instance (s : Group W) (a : GroupAct W) : Decidable (PollsAllHandled s a) := by
  unfold PollsAllHandled
  split <;> infer_instance

end ClickRec.Kafka.WorkerLoop
