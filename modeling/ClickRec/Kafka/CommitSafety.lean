import Mathlib.Data.List.TakeWhile
import ClickRec.Kafka.WorkerLoop

/-! # What the committed offsets guarantee

The invariant behind the commit rule of `_worker_loop`: everything below a committed offset has been
handled, and so has everything below the fetch position of a partition, unless records of the
current batch are still in hand or a held-back record lies below the position. -/
namespace ClickRec.Kafka.WorkerLoop
set_option autoImplicit false

/-! ## Covered offsets and batches in hand -/

/-- Everything of the partition below `o` has been handled, and will stay so under appends. -/
def Covered (b : Broker) (tp : TopicPartition) (o : ℕ) : Prop :=
  o ≤ (b.log tp).endOffset ∧
    ∀ r ∈ (b.log tp).records, r.offset < o → b.Handled tp r.offset

/-- `recs` are the next records of the partition after a handled part of its log. -/
def Ready (b : Broker) (tp : TopicPartition) (recs : List ConsumerRecord) : Prop :=
  ∃ done later, (b.log tp).records = done ++ recs ++ later ∧
    ∀ r ∈ done, b.Handled tp r.offset

theorem covered_zero (b : Broker) (tp : TopicPartition) : Covered b tp 0 :=
  ⟨Nat.zero_le _, fun _ _ h => absurd h (Nat.not_lt_zero _)⟩

theorem ready_nil (b : Broker) (tp : TopicPartition) : Ready b tp [] :=
  ⟨[], (b.log tp).records, by simp, by simp⟩

/-- After the first record in hand is handled, the offset after it is covered. -/
theorem Ready.covered_head {b : Broker} {tp : TopicPartition} {r : ConsumerRecord}
    {recs : List ConsumerRecord} (h : Ready b tp (r :: recs)) (hr : b.Handled tp r.offset) :
    Covered b tp (r.offset + 1) := by
  obtain ⟨done, later, hlog, hdone⟩ := h
  have hmem : r ∈ (b.log tp).records := by rw [hlog]; simp
  have hinc := (b.log tp).increasing
  rw [hlog, List.append_assoc, List.cons_append] at hinc
  have hafter := (List.pairwise_cons.mp (List.pairwise_append.mp hinc).2.1).1
  refine ⟨PartitionLog.lt_endOffset hmem, fun a ha hlt => ?_⟩
  rw [hlog, List.append_assoc, List.cons_append] at ha
  obtain ha | ha := List.mem_append.mp ha
  · exact hdone a ha
  · obtain rfl | ha := List.mem_cons.mp ha
    · exact hr
    · have := hafter a ha
      omega

theorem Ready.tail {b : Broker} {tp : TopicPartition} {r : ConsumerRecord}
    {recs : List ConsumerRecord} (h : Ready b tp (r :: recs)) (hr : b.Handled tp r.offset) :
    Ready b tp recs := by
  obtain ⟨done, later, hlog, hdone⟩ := h
  refine ⟨done ++ [r], later, by rw [hlog]; simp, fun a ha => ?_⟩
  obtain ha | ha := List.mem_append.mp ha
  · exact hdone a ha
  · rw [List.mem_singleton.mp ha]
    exact hr

/-- What `getmany` returns from a covered position is ready to be handled. -/
theorem Covered.ready_fetch {b : Broker} {tp : TopicPartition} {p : ℕ} (h : Covered b tp p)
    (n : ℕ) : Ready b tp ((b.log tp).fetch p n) := by
  refine ⟨(b.log tp).records.takeWhile fun r => r.offset < p,
    ((b.log tp).records.dropWhile fun r => r.offset < p).drop n, ?_, fun r hr => ?_⟩
  · rw [PartitionLog.fetch, List.append_assoc, List.take_append_drop, List.takeWhile_append_dropWhile]
  · have hlt := List.mem_takeWhile_imp hr
    exact h.2 r ((List.takeWhile_prefix _).subset hr) (by simpa using hlt)

/-! ## Growth of the broker's state -/

/-- Logs and history only grow. -/
def Grows (b b' : Broker) : Prop :=
  (∀ tp, ∃ more, (b'.log tp).records = (b.log tp).records ++ more ∧
    ∀ r ∈ more, (b.log tp).endOffset ≤ r.offset) ∧
  (∀ tp, (b.log tp).endOffset ≤ (b'.log tp).endOffset) ∧
  ∀ d ∈ b.deliveries, d ∈ b'.deliveries

theorem Grows.of_log_eq {b b' : Broker} (hlog : b'.log = b.log)
    (hdel : ∀ d ∈ b.deliveries, d ∈ b'.deliveries) : Grows b b' := by
  refine ⟨fun tp => ⟨[], by rw [hlog]; simp, by simp⟩, fun tp => by rw [hlog], hdel⟩

theorem Grows.handled {b b' : Broker} (h : Grows b b') {tp : TopicPartition} {o : ℕ}
    (ho : b.Handled tp o) : b'.Handled tp o := by
  obtain ⟨outcome, hc, hmem⟩ := ho
  exact ⟨outcome, hc, h.2.2 _ hmem⟩

theorem Grows.covered {b b' : Broker} (h : Grows b b') {tp : TopicPartition} {o : ℕ}
    (ho : Covered b tp o) : Covered b' tp o := by
  obtain ⟨more, hlog, hmore⟩ := h.1 tp
  refine ⟨ho.1.trans (h.2.1 tp), fun r hr hlt => ?_⟩
  rw [hlog] at hr
  obtain hr | hr := List.mem_append.mp hr
  · exact h.handled (ho.2 r hr hlt)
  · have := hmore r hr
    have := ho.1
    omega

theorem Grows.ready {b b' : Broker} (h : Grows b b') {tp : TopicPartition}
    {recs : List ConsumerRecord} (hr : Ready b tp recs) : Ready b' tp recs := by
  obtain ⟨more, hlog, _⟩ := h.1 tp
  obtain ⟨done, later, hb, hdone⟩ := hr
  refine ⟨done, later ++ more, ?_, fun r hmem => h.handled (hdone r hmem)⟩
  rw [hlog, hb]
  simp only [List.append_assoc]

theorem grows_produce {b b' : Broker} {e : TopicPartition × ConsumerRecord}
    (h : produce b e = some b') :
    Grows b b' ∧ b'.committed = b.committed := by
  unfold produce at h
  split at h
  next hend =>
    obtain rfl := Option.some.inj h
    refine ⟨⟨fun tp => ?_, fun tp => ?_, fun d hd => hd⟩, rfl⟩
    · by_cases htp : tp = e.1
      · subst htp
        refine ⟨[e.2], by simp [PartitionLog.append], fun r hr => ?_⟩
        rw [List.mem_singleton.mp hr]
        exact hend
      · exact ⟨[], by simp [htp], by simp⟩
    · by_cases htp : tp = e.1
      · subst htp
        simp only [Function.update_self, PartitionLog.endOffset_append]
        omega
      · simp [htp]
  next => cases h

/-! ## The invariant -/

/-- The position is the end of the records of the partition still in hand. -/
def InHand (phase : Phase) (tp : TopicPartition) (p : ℕ) : Prop :=
  match phase with
  | .polling => False
  | .handling batch _ _ =>
    ∃ recs r, (tp, recs) ∈ batch ∧ recs.getLast? = some r ∧ p = r.offset + 1

def PhaseOk (b : Broker) : Phase → Prop
  | .polling => True
  | .handling batch last commits =>
    (∀ x ∈ batch, Ready b x.1 x.2) ∧
    (∀ o, last = some o → ∃ x, batch.head? = some x ∧ Covered b x.1 (o + 1)) ∧
    ∀ x ∈ commits, Covered b x.1 x.2

structure WorkerOk (b : Broker) (k : Worker) : Prop where
  position : ∀ tp p, k.position tp = some p →
    k.heldBack tp = true ∨ Covered b tp p ∨ InHand k.phase tp p
  phase : PhaseOk b k.phase

def CommittedOk (b : Broker) : Prop := ∀ tp o, b.committed tp = some o → Covered b tp o

structure GroupOk {W : Type} (s : Group W) : Prop where
  committed : CommittedOk s.shared
  workers : ∀ w, WorkerOk s.shared (s.locals w)

/-- Between batches nothing is in hand. -/
theorem WorkerOk.polling {b : Broker} {k : Worker} {tp : TopicPartition} {p : ℕ}
    (hk : WorkerOk b k) (hphase : k.phase = .polling) (hp : k.position tp = some p) :
    k.heldBack tp = true ∨ Covered b tp p := by
  obtain hback | hcovered | hin := hk.position tp p hp
  · exact .inl hback
  · exact .inr hcovered
  · rw [hphase] at hin
    exact hin.elim

/-- Where the positions stay, only those in hand have to be accounted for anew. -/
theorem WorkerOk.rephase {b : Broker} {k k' : Worker} (hk : WorkerOk b k)
    (hposition : k'.position = k.position)
    (hheld : ∀ tp, k.heldBack tp = true → k'.heldBack tp = true)
    (hhand : ∀ tp p, k.position tp = some p → InHand k.phase tp p →
      k'.heldBack tp = true ∨ Covered b tp p ∨ InHand k'.phase tp p)
    (hphase : PhaseOk b k'.phase) : WorkerOk b k' := by
  refine ⟨fun tp p hp => ?_, hphase⟩
  rw [hposition] at hp
  obtain hback | hcovered | hin := hk.position tp p hp
  · exact .inl (hheld tp hback)
  · exact .inr (.inl hcovered)
  · exact hhand tp p hp hin

theorem WorkerOk.grows {b b' : Broker} {k : Worker} (h : WorkerOk b k) (hg : Grows b b') :
    WorkerOk b' k := by
  refine ⟨fun tp p hp => ?_, ?_⟩
  · obtain h1 | h1 | h1 := h.position tp p hp
    · exact .inl h1
    · exact .inr (.inl (hg.covered h1))
    · exact .inr (.inr h1)
  · have hphase := h.phase
    cases hk : k.phase with
    | polling => trivial
    | handling batch last commits =>
      rw [hk] at hphase
      obtain ⟨hready, hlast, hcommits⟩ := hphase
      refine ⟨fun x hx => hg.ready (hready x hx), fun o ho => ?_,
        fun x hx => hg.covered (hcommits x hx)⟩
      obtain ⟨x, hx, hc⟩ := hlast o ho
      exact ⟨x, hx, hg.covered hc⟩

theorem CommittedOk.grows {b b' : Broker} (h : CommittedOk b) (hg : Grows b b')
    (hc : b'.committed = b.committed) : CommittedOk b' := by
  intro tp o ho
  rw [hc] at ho
  exact hg.covered (h tp o ho)

theorem workerOk_fresh (b : Broker) : WorkerOk b .fresh :=
  ⟨fun _ _ h => (nomatch h), trivial⟩

/-! ## One step of a worker, event by event -/

theorem fetchBatch_ready {b : Broker} {k : Worker} (hphase : k.phase = .polling)
    (hk : WorkerOk b k) :
    ∀ {counts : List (TopicPartition × ℕ)} {batch : List (TopicPartition × List ConsumerRecord)},
      (∀ x ∈ counts, k.heldBack x.1 = false) → fetchBatch b k counts = some batch →
      ∀ x ∈ batch, Ready b x.1 x.2
  | [], batch, _, h => by
      obtain rfl := Option.some.inj h
      simp
  | (tp, n) :: counts, batch, hheld, h => by
      simp only [fetchBatch] at h
      cases hp : k.position tp with
      | none => simp [hp] at h
      | some p =>
        cases hf : (b.log tp).fetch p n with
        | nil => simp [hp, hf] at h
        | cons r rs =>
          simp only [hp, hf, Option.map_eq_some_iff] at h
          obtain ⟨rest, hrest, rfl⟩ := h
          have hcov : Covered b tp p := by
            refine (hk.polling hphase hp).resolve_left ?_
            rw [hheld (tp, n) (by simp)]
            exact Bool.false_ne_true
          intro x hx
          obtain rfl | hx := List.mem_cons.mp hx
          · have := hcov.ready_fetch n
            rwa [hf] at this
          · exact fetchBatch_ready hphase hk (fun y hy => hheld y (List.mem_cons_of_mem _ hy))
              hrest x hx

theorem workerOk_getmany {b b' : Broker} {k k' : Worker} {counts : List (TopicPartition × ℕ)}
    (hk : WorkerOk b k) (hheld : ∀ x ∈ counts, k.heldBack x.1 = false)
    (h : workerStep b k (.getmany counts) = some (b', k')) : b' = b ∧ WorkerOk b k' := by
  cases hphase : k.phase with
  | handling => simp [workerStep, hphase] at h
  | polling =>
    simp only [workerStep, hphase] at h
    split at h
    next =>
      obtain ⟨batch, hbatch, h⟩ := Option.map_eq_some_iff.mp h
      split at h
      next => obtain ⟨rfl, rfl⟩ := Prod.mk.inj h; exact ⟨rfl, hk⟩
      next =>
        obtain ⟨rfl, rfl⟩ := Prod.mk.inj h
        refine ⟨rfl, fun tp p hp => ?_, fetchBatch_ready hphase hk hheld hbatch, by simp, by simp⟩
        simp only [advance] at hp
        cases hfind : batch.find? fun x => x.1 = tp with
        | none =>
          rw [hfind] at hp
          exact (hk.polling hphase hp).imp_right .inl
        | some x =>
          have hx : x.1 = tp := by simpa using List.find?_some hfind
          have hmem := List.mem_of_find?_eq_some hfind
          rw [hfind] at hp
          cases hlast : x.2.getLast? with
          | none =>
            simp only [hlast] at hp
            exact (hk.polling hphase hp).imp_right .inl
          | some r =>
            simp only [hlast, Option.some.injEq] at hp
            exact .inr (.inr ⟨x.2, r, by rw [← hx]; exact hmem, hlast, hp.symm⟩)
    next => cases h

/-- The last record in hand is at or after the first. -/
theorem Ready.head_le_last {b : Broker} {tp : TopicPartition} {r l : ConsumerRecord}
    {recs : List ConsumerRecord} (h : Ready b tp (r :: recs))
    (hl : (r :: recs).getLast? = some l) : r.offset ≤ l.offset := by
  obtain ⟨done, later, hlog, _⟩ := h
  have hinc := (b.log tp).increasing
  rw [hlog, List.append_assoc, List.cons_append] at hinc
  have hafter := (List.pairwise_cons.mp (List.pairwise_append.mp hinc).2.1).1
  obtain rfl | hmem := List.mem_cons.mp (List.mem_of_getLast? hl)
  · exact Nat.le_refl _
  · exact (hafter l (List.mem_append_left _ hmem)).le

/-- The record just delivered is handled when its outcome is committable. -/
theorem handled_of_delivered (b : Broker) (tp : TopicPartition) (o : ℕ) {outcome : ProcessOutcome}
    (hc : outcome.committable = true) :
    ({ b with deliveries := (tp, o, outcome) :: b.deliveries } : Broker).Handled tp o :=
  ⟨outcome, hc, List.mem_cons_self⟩

theorem grows_delivery (b : Broker) (d : TopicPartition × ℕ × ProcessOutcome) :
    Grows b { b with deliveries := d :: b.deliveries } :=
  .of_log_eq rfl fun _ h => List.mem_cons_of_mem _ h

theorem workerOk_processed {b b' : Broker} {k k' : Worker} {outcome : ProcessOutcome}
    (hk : WorkerOk b k) (h : workerStep b k (.processed outcome) = some (b', k')) :
    Grows b b' ∧ b'.committed = b.committed ∧ WorkerOk b' k' := by
  match hphase : k.phase with
  | .polling => simp [workerStep, hphase] at h
  | .handling [] _ _ => simp [workerStep, hphase] at h
  | .handling ((tp, []) :: _) _ _ => simp [workerStep, hphase] at h
  | .handling ((tp, r :: recs) :: batch) last commits =>
    have hgrow := grows_delivery b (tp, r.offset, outcome)
    have hk' := hk.grows hgrow
    have hphase' := hk'.phase
    rw [hphase] at hphase'
    obtain ⟨hready, hlast, hcommits⟩ := hphase'
    have hhead := hready (tp, r :: recs) (by simp)
    simp only [workerStep, hphase] at h
    split at h
    next hc =>
      obtain ⟨rfl, rfl⟩ := Prod.mk.inj (Option.some.inj h)
      have hr := handled_of_delivered b tp r.offset hc
      refine ⟨hgrow, rfl, hk'.rephase rfl (fun _ => id) (fun tp' p _ hin => ?_) ⟨?_, ?_, hcommits⟩⟩
      · rw [hphase] at hin
        obtain ⟨recs', l, hmem, hl, rfl⟩ := hin
        obtain heq | hmem := List.mem_cons.mp hmem
        · obtain ⟨rfl, rfl⟩ := Prod.mk.inj heq
          -- the last record of the partition has just been handled, or some are left
          cases recs with
          | nil =>
            obtain rfl : r = l := by simpa using hl
            exact .inr (.inl (hhead.covered_head hr))
          | cons r2 recs =>
            exact .inr (.inr ⟨r2 :: recs, l, by simp, by simpa using hl, rfl⟩)
        · exact .inr (.inr ⟨recs', l, List.mem_cons_of_mem _ hmem, hl, rfl⟩)
      · intro x hx
        obtain rfl | hx := List.mem_cons.mp hx
        · exact hhead.tail hr
        · exact hready x (List.mem_cons_of_mem _ hx)
      · intro o ho
        obtain rfl := Option.some.inj ho
        exact ⟨(tp, recs), rfl, hhead.covered_head hr⟩
    next hc =>
      obtain ⟨rfl, rfl⟩ := Prod.mk.inj (Option.some.inj h)
      refine ⟨hgrow, rfl, hk'.rephase rfl (fun tp' hback => by simp [hback])
        (fun tp' p hp hin => ?_) ⟨?_, ?_, hcommits⟩⟩
      · rw [hphase] at hin
        obtain ⟨recs', l, hmem, hl, rfl⟩ := hin
        obtain heq | hmem := List.mem_cons.mp hmem
        · obtain ⟨rfl, rfl⟩ := Prod.mk.inj heq
          -- the position lies past the record held back
          have hle := hhead.head_le_last hl
          exact .inl (by simp [hp]; omega)
        · exact .inr (.inr ⟨recs', l, List.mem_cons_of_mem _ hmem, hl, rfl⟩)
      · intro x hx
        obtain rfl | hx := List.mem_cons.mp hx
        · exact ready_nil _ _
        · exact hready x (List.mem_cons_of_mem _ hx)
      · intro o ho
        obtain ⟨x, hx, hcov⟩ := hlast o ho
        obtain rfl := Option.some.inj hx
        exact ⟨(tp, []), rfl, hcov⟩

theorem workerOk_partitionDone {b b' : Broker} {k k' : Worker} (hk : WorkerOk b k)
    (h : workerStep b k .partitionDone = some (b', k')) : b' = b ∧ WorkerOk b k' := by
  match hphase : k.phase with
  | .polling => simp [workerStep, hphase] at h
  | .handling [] _ _ => simp [workerStep, hphase] at h
  | .handling ((tp, _ :: _) :: _) _ _ => simp [workerStep, hphase] at h
  | .handling ((tp, []) :: batch) last commits =>
    have hphase' := hk.phase
    rw [hphase] at hphase'
    obtain ⟨hready, hlast, hcommits⟩ := hphase'
    simp only [workerStep, hphase, Option.some.injEq, Prod.mk.injEq] at h
    obtain ⟨rfl, rfl⟩ := h
    refine ⟨rfl, hk.rephase rfl (fun _ => id) (fun tp' p _ hin => ?_)
      ⟨fun x hx => hready x (List.mem_cons_of_mem _ hx), by simp, ?_⟩⟩
    · rw [hphase] at hin
      obtain ⟨recs', l, hmem, hl, rfl⟩ := hin
      obtain heq | hmem := List.mem_cons.mp hmem
      · obtain ⟨rfl, rfl⟩ := Prod.mk.inj heq
        simp at hl
      · exact .inr (.inr ⟨recs', l, hmem, hl, rfl⟩)
    · cases last with
      | none => exact hcommits
      | some o =>
        obtain ⟨x, hx, hcov⟩ := hlast o rfl
        obtain rfl := Option.some.inj hx
        intro y hy
        obtain hy | hy := List.mem_append.mp hy
        · exact hcommits y hy
        · rw [List.mem_singleton.mp hy]
          exact hcov

theorem workerOk_commit {b b' : Broker} {k k' : Worker} {stored : List TopicPartition}
    (hb : CommittedOk b) (hk : WorkerOk b k)
    (h : workerStep b k (.commit stored) = some (b', k')) :
    Grows b b' ∧ CommittedOk b' ∧ WorkerOk b' k' := by
  match hphase : k.phase with
  | .polling => simp [workerStep, hphase] at h
  | .handling (_ :: _) _ _ => simp [workerStep, hphase] at h
  | .handling [] last commits =>
    have hphase' := hk.phase
    rw [hphase] at hphase'
    simp only [workerStep, hphase, Option.some.injEq, Prod.mk.injEq] at h
    obtain ⟨rfl, rfl⟩ := h
    have hgrow : Grows b { b with committed := store commits stored b.committed } :=
      .of_log_eq rfl fun _ hd => hd
    refine ⟨hgrow, fun tp o ho => hgrow.covered ?_,
      (hk.grows hgrow).rephase rfl (fun _ => id) (fun tp p _ hin => ?_) trivial⟩
    · simp only [store] at ho
      split at ho
      next =>
        cases hfind : commits.find? fun x => x.1 = tp with
        | none => rw [hfind] at ho; exact hb tp o ho
        | some x =>
          have hx : x.1 = tp := by simpa using List.find?_some hfind
          rw [hfind] at ho
          obtain rfl := Option.some.inj ho
          rw [← hx]
          exact hphase'.2.2 x (List.mem_of_find?_eq_some hfind)
      next => exact hb tp o ho
    · rw [hphase] at hin
      obtain ⟨_, _, hmem, _⟩ := hin
      cases hmem

/-- A (re)assignment puts the position of one partition on the committed offset, a revocation
drops it. -/
theorem workerOk_reposition {b : Broker} {k : Worker} (tp : TopicPartition) (position : Option ℕ)
    (hk : WorkerOk b k) (hp : ∀ p, position = some p → Covered b tp p) :
    WorkerOk b { k with
      position := Function.update k.position tp position
      heldBack := Function.update k.heldBack tp false } := by
  refine ⟨fun tp' p hp' => ?_, hk.phase⟩
  by_cases htp : tp' = tp
  · subst htp
    exact .inr (.inl (hp p (by simpa using hp')))
  · have h := hk.position tp' p (by simpa [htp] using hp')
    simpa only [Function.update_of_ne htp] using h

theorem CommittedOk.covered_getD {b : Broker} (hb : CommittedOk b) (tp : TopicPartition) :
    Covered b tp ((b.committed tp).getD 0) := by
  cases hc : b.committed tp with
  | none => exact covered_zero b tp
  | some o => exact hb tp o hc

theorem workerStep_ok {b b' : Broker} {k k' : Worker} {e : Event} (hb : CommittedOk b)
    (hk : WorkerOk b k) (hpoll : ∀ counts, e = .getmany counts → ∀ x ∈ counts, k.heldBack x.1 = false)
    (h : workerStep b k e = some (b', k')) : Grows b b' ∧ CommittedOk b' ∧ WorkerOk b' k' := by
  have hrefl : Grows b b := .of_log_eq rfl fun _ hd => hd
  cases e with
  | getmany counts =>
    obtain ⟨rfl, hk'⟩ := workerOk_getmany hk (hpoll counts rfl) h
    exact ⟨hrefl, hb, hk'⟩
  | processed outcome =>
    obtain ⟨hgrow, hc, hk'⟩ := workerOk_processed hk h
    exact ⟨hgrow, hb.grows hgrow hc, hk'⟩
  | partitionDone =>
    obtain ⟨rfl, hk'⟩ := workerOk_partitionDone hk h
    exact ⟨hrefl, hb, hk'⟩
  | commit stored => exact workerOk_commit hb hk h
  | assign tp =>
    obtain ⟨rfl, rfl⟩ := Prod.mk.inj (Option.some.inj h)
    refine ⟨hrefl, hb, workerOk_reposition tp _ hk fun p hp => ?_⟩
    obtain rfl := Option.some.inj hp
    exact hb.covered_getD tp
  | revoke tp =>
    obtain ⟨rfl, rfl⟩ := Prod.mk.inj (Option.some.inj h)
    exact ⟨hrefl, hb, workerOk_reposition tp none hk fun _ hp => (nomatch hp)⟩
  | restart =>
    obtain ⟨rfl, rfl⟩ := Prod.mk.inj (Option.some.inj h)
    exact ⟨hrefl, hb, workerOk_fresh _⟩

/-! ## Runs of the group -/

theorem groupOk_start {W : Type} (log : TopicPartition → PartitionLog) :
    GroupOk (start log : Group W) :=
  ⟨fun _ _ h => (nomatch h), fun _ => workerOk_fresh _⟩

variable {W : Type} [DecidableEq W]

theorem groupOk_step (s : Group W) (a : GroupAct W) (t : Group W) (hs : GroupOk s)
    (hpoll : PollsAllHandled s a) (h : step s a = some t) : GroupOk t := by
  cases a with
  | proc w e =>
    obtain ⟨b', k', hstep, hb, hw, hframe⟩ := Trace.turn_proc h
    have hcond : ∀ counts, e = .getmany counts → ∀ x ∈ counts, (s.locals w).heldBack x.1 = false := by
      rintro counts rfl
      exact hpoll
    obtain ⟨hgrow, hc, hk⟩ := workerStep_ok hs.committed (hs.workers w) hcond hstep
    subst hb
    refine ⟨hc, fun w' => ?_⟩
    by_cases hw' : w' = w
    · subst hw'
      rw [hw]
      exact hk
    · rw [hframe w' hw']
      exact (hs.workers w').grows hgrow
  | env e =>
    obtain ⟨hprod, hlocals⟩ := Trace.turn_env h
    obtain ⟨hgrow, hc⟩ := grows_produce hprod
    refine ⟨hs.committed.grows hgrow hc, fun w => ?_⟩
    rw [hlocals]
    exact (hs.workers w).grows hgrow

/-- **No message loss.** As long as no worker polls a partition past a record it held back, every
record below a committed offset has been handled, and a record whose deliveries all ended
`DLQ_FAILED` is never below one. -/
theorem committed_below_handled (log : TopicPartition → PartitionLog) (trace : List (GroupAct W))
    (s : Group W) (hrun : Trace.exec step (start log) trace = some s)
    (hpoll : Trace.Along step PollsAllHandled (start log) trace) :
    NoLoss s ∧ ∀ tp o, s.shared.committed tp = some o → ∀ r ∈ (s.shared.log tp).records,
      (∀ outcome, (tp, r.offset, outcome) ∈ s.shared.deliveries → outcome = .DLQ_FAILED) →
        o ≤ r.offset := by
  have hok : GroupOk s := Trace.exec_invariant groupOk_step hpoll hrun (groupOk_start log)
  have hno : NoLoss s := fun tp o ho => (hok.committed tp o ho).2
  refine ⟨hno, fun tp o ho r hr hfailed => ?_⟩
  by_contra hlt
  obtain ⟨outcome, hc, hmem⟩ := hno tp o ho r hr (by omega)
  rw [hfailed outcome hmem] at hc
  cases hc

/-! ## A record held back and lost

Partition 0 of `user.clicks` with two records. The first ends `DLQ_FAILED`, so nothing is committed;
the next `getmany` starts after it, and the second record commits offset 2. -/

def clicks0 : TopicPartition := ⟨"user.clicks", 0⟩

def twoRecords (tp : TopicPartition) : PartitionLog where
  records := [⟨tp.topic, tp.partition, 0, none, none⟩, ⟨tp.topic, tp.partition, 1, none, none⟩]
  increasing := by simp

def heldBackTrace : List (GroupAct ℕ) :=
  [.assign clicks0, .getmany [(clicks0, 1)], .processed .DLQ_FAILED, .partitionDone, .commit [],
    .getmany [(clicks0, 1)], .processed .OK, .partitionDone, .commit [clicks0]].map (.proc 0)

theorem held_back_record_lost :
    ¬ ∀ (log : TopicPartition → PartitionLog) (trace : List (GroupAct ℕ)) (s : Group ℕ),
      Trace.exec step (start log) trace = some s → NoLoss s := by
  intro h
  obtain ⟨s, hs, hcommitted, hrecords, hdeliveries⟩ :
      ∃ s, Trace.exec step (start twoRecords) heldBackTrace = some s ∧
        s.shared.committed clicks0 = some 2 ∧ s.shared.log = twoRecords ∧
        s.shared.deliveries = [(clicks0, 1, .OK), (clicks0, 0, .DLQ_FAILED)] :=
    ⟨_, rfl, rfl, rfl, rfl⟩
  obtain ⟨outcome, hc, hmem⟩ := h twoRecords heldBackTrace s hs clicks0 2 hcommitted
    ⟨"user.clicks", 0, 0, none, none⟩ (by rw [hrecords]; decide) (by decide)
  rw [hdeliveries] at hmem
  obtain rfl : outcome = .DLQ_FAILED := by simpa using hmem
  cases hc

/-- With a reassignment after the failure, the record is delivered again before offset 2 is
committed. -/
def redeliveredTrace : List (GroupAct ℕ) :=
  [.assign clicks0, .getmany [(clicks0, 1)], .processed .DLQ_FAILED, .partitionDone, .commit [],
    .assign clicks0, .getmany [(clicks0, 2)], .processed .DLQ_OK, .processed .OK, .partitionDone,
    .commit [clicks0]].map (.proc 0)

theorem committed_below_handled_redelivered :
    ∃ s, Trace.exec step (start twoRecords) redeliveredTrace = some s ∧
      s.shared.committed clicks0 = some 2 ∧ NoLoss s :=
  ⟨_, rfl, rfl, (committed_below_handled twoRecords redeliveredTrace _ rfl (by decide)).1⟩

end ClickRec.Kafka.WorkerLoop
