import ClickRec.Kafka.WorkerLoop

/-! # The log of a partition, read by a group from the offset it committed

What is left to read, what a batch takes of it, and what records put at the end add to it. -/
namespace ClickRec.Kafka
set_option autoImplicit false
open WorkerLoop (PartitionLog)

/-! ## The part of a log that is left to read -/

namespace WorkerLoop.PartitionLog

def fromOffset (log : PartitionLog) (p : ℕ) : List ConsumerRecord :=
  log.records.filter fun r => p ≤ r.offset

/-- A value put at the end. -/
def put (log : PartitionLog) (topic : String) (value : Bytes) : PartitionLog :=
  log.append ⟨topic, 0, log.endOffset, none, some value⟩ le_rfl

end WorkerLoop.PartitionLog

/-- A log and the offset a group committed in it: it has read up to there. -/
structure GroupLog where
  log : PartitionLog
  committed : Option ℕ
  in_log : committed.getD 0 ≤ log.endOffset

/-- From the committed offset, or the first one if there is none (`auto_offset_reset="earliest"`), to
the end of the log. -/
def GroupLog.snapshot (g : GroupLog) : List ConsumerRecord := g.log.fromOffset (g.committed.getD 0)

/-! ## Reading on from an offset -/

namespace WorkerLoop.PartitionLog
variable {log : PartitionLog}

theorem dropWhile_eq_filter {records : List ConsumerRecord}
    (h : records.Pairwise fun a b => a.offset < b.offset) (p : ℕ) :
    records.dropWhile (fun r => r.offset < p) = records.filter fun r => p ≤ r.offset := by
  induction records with
  | nil => rfl
  | cons r records ih =>
    obtain ⟨hr, hrest⟩ := List.pairwise_cons.mp h
    by_cases hp : r.offset < p
    · rw [List.dropWhile_cons_of_pos (by simpa using hp), List.filter_cons_of_neg (by simpa using hp)]
      exact ih hrest
    · have hall : ∀ a ∈ r :: records, p ≤ a.offset := by
        intro a ha
        obtain rfl | ha := List.mem_cons.mp ha
        · omega
        · have := hr a ha
          omega
      rw [List.dropWhile_cons_of_neg (by simpa using hp),
        List.filter_eq_self.mpr fun a ha => by simpa using hall a ha]

theorem fetch_eq (log : PartitionLog) (p n : ℕ) : log.fetch p n = (log.fromOffset p).take n := by
  rw [fetch, dropWhile_eq_filter log.increasing, fromOffset]

theorem fromOffset_of_le (log : PartitionLog) {p q : ℕ} (h : p ≤ q) :
    log.fromOffset q = (log.fromOffset p).filter fun r => q ≤ r.offset := by
  rw [fromOffset, fromOffset, List.filter_filter]
  refine List.filter_congr fun r _ => ?_
  by_cases hq : q ≤ r.offset
  · simp [hq, h.trans hq]
  · simp [hq]

/-- What is left once a record has been passed. -/
theorem fromOffset_succ {p : ℕ} {init rest : List ConsumerRecord} {l : ConsumerRecord}
    (h : log.fromOffset p = init ++ l :: rest) :
    p ≤ l.offset ∧ l.offset < log.endOffset ∧ log.fromOffset (l.offset + 1) = rest := by
  have hmem : l ∈ log.fromOffset p := h ▸ List.mem_append_right init List.mem_cons_self
  obtain ⟨hlog, hp⟩ := List.mem_filter.mp hmem
  have hp : p ≤ l.offset := by simpa using hp
  have hsorted : (init ++ l :: rest).Pairwise fun a b => a.offset < b.offset :=
    h ▸ log.increasing.filter _
  obtain ⟨-, hrest, hinit⟩ := List.pairwise_append.mp hsorted
  have hdrop : init.filter (fun r => l.offset + 1 ≤ r.offset) = [] := by
    refine List.filter_eq_nil_iff.mpr fun r hr => ?_
    have := hinit r hr l List.mem_cons_self
    simpa using this.le
  have hkeep : rest.filter (fun r => l.offset + 1 ≤ r.offset) = rest :=
    List.filter_eq_self.mpr fun r hr => by simpa using (List.pairwise_cons.mp hrest).1 r hr
  refine ⟨hp, lt_endOffset hlog, ?_⟩
  rw [fromOffset_of_le log (Nat.le_succ_of_le hp), h, List.filter_append, hdrop,
    List.filter_cons_of_neg (by simp), hkeep, List.nil_append]

/-- A batch, and what is left after the fetch position has moved past it. -/
theorem fetch_cons {p n : ℕ} {r : ConsumerRecord} {rs : List ConsumerRecord}
    (h : log.fetch p n = r :: rs) : p ≤ (rs.getLastD r).offset ∧
      (rs.getLastD r).offset < log.endOffset ∧
      log.fromOffset p = r :: rs ++ log.fromOffset ((rs.getLastD r).offset + 1) := by
  obtain ⟨init, hinit⟩ : ∃ init, r :: rs = init ++ [rs.getLastD r] := by
    refine ⟨(r :: rs).dropLast, ?_⟩
    rw [← List.getLast_eq_getLastD (List.cons_ne_nil r rs), List.dropLast_append_getLast]
  have hsplit : log.fromOffset p = r :: rs ++ (log.fromOffset p).drop n := by
    rw [fetch_eq] at h
    rw [← h, List.take_append_drop]
  have hlast : log.fromOffset p = init ++ rs.getLastD r :: (log.fromOffset p).drop n := by
    rw [hinit, List.append_assoc] at hsplit
    exact hsplit
  obtain ⟨hp, hend, hrest⟩ := fromOffset_succ hlast
  refine ⟨hp, hend, ?_⟩
  rw [hrest]
  exact hsplit

/-! ## Growing logs -/

/-- More records were put at the end. -/
def Extends (log log' : PartitionLog) : Prop :=
  ∃ more, log'.records = log.records ++ more ∧ ∀ r ∈ more, log.endOffset ≤ r.offset

theorem Extends.refl (log : PartitionLog) : log.Extends log :=
  ⟨[], (List.append_nil _).symm, fun _ h => absurd h List.not_mem_nil⟩

theorem Extends.endOffset_le {log' : PartitionLog} (h : log.Extends log') :
    log.endOffset ≤ log'.endOffset := by
  obtain ⟨more, hmore, hnew⟩ := h
  rcases List.eq_nil_or_concat more with rfl | ⟨init, l, rfl⟩
  · rw [endOffset, endOffset, hmore, List.append_nil]
  · have hl : l ∈ log'.records := by
      rw [hmore]
      simp
    have := lt_endOffset hl
    have := hnew l (by simp)
    omega

theorem Extends.trans {log' log'' : PartitionLog} (h : log.Extends log')
    (h' : log'.Extends log'') : log.Extends log'' := by
  have hle := h.endOffset_le
  obtain ⟨more, hmore, hnew⟩ := h
  obtain ⟨more', hmore', hnew'⟩ := h'
  refine ⟨more ++ more', by rw [hmore', hmore, List.append_assoc], fun r hr => ?_⟩
  obtain hr | hr := List.mem_append.mp hr
  · exact hnew r hr
  · exact hle.trans (hnew' r hr)

theorem fromOffset_put {p : ℕ} (hp : p ≤ log.endOffset) (topic : String) (value : Bytes) :
    (log.put topic value).fromOffset p =
      log.fromOffset p ++ [⟨topic, 0, log.endOffset, none, some value⟩] := by
  rw [fromOffset, fromOffset, put, append, List.filter_append,
    List.filter_cons_of_pos (by simpa using hp), List.filter_nil]

theorem extends_put (log : PartitionLog) (topic : String) (value : Bytes) :
    log.Extends (log.put topic value) :=
  ⟨_, rfl, fun r hr => by rw [List.mem_singleton.mp hr]⟩

/-- The records from an offset that was reached before. -/
theorem Extends.fromOffset {log' : PartitionLog} (h : log.Extends log') :
    ∃ more, (∀ r ∈ more, log.endOffset ≤ r.offset) ∧
      ∀ p ≤ log.endOffset, log'.fromOffset p = log.fromOffset p ++ more := by
  obtain ⟨more, hmore, hnew⟩ := h
  refine ⟨more, hnew, fun p hp => ?_⟩
  have hall : more.filter (fun r => p ≤ r.offset) = more :=
    List.filter_eq_self.mpr fun r hr => by simpa using hp.trans (hnew r hr)
  rw [PartitionLog.fromOffset, PartitionLog.fromOffset, hmore, List.filter_append, hall]

end WorkerLoop.PartitionLog

end ClickRec.Kafka
