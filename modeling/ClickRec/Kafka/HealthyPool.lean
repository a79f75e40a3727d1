import ClickRec.Kafka.ConsumerPool
import ClickRec.Kafka.ItemCaches

/-! # The consumer pool with nothing failing

What a step of a delivery can be when every dependency answers, no worker crashes, no marker expires
and no item is deleted. -/
namespace ClickRec.Kafka
set_option autoImplicit false

/-! ## Runs in which nothing fails -/

section Runs
variable {ι : Type}

/-- The stores do not reject the side-effect that comes next. -/
def opSucceeds (w : World) : Stage → Bool
  | .running _ op _ => (op.run w).toBool
  | _ => true

def DlqReply.isAcked : DlqReply → Bool
  | acked _ => true
  | _ => false

/-- No dependency and no attempt fails, no worker crashes, no marker expires and no item is deleted. -/
def NothingFails (deliveries : Deliveries ι) (c : Workers ι) : WorkerAct ι → Prop
  | .proc _ (.check r) => r = .ok
  | .proc _ (.resolve r) => r = .ok
  | .proc i (.read r) => r = .ok ∧ (deliveries.event i).converts = true
  | .proc i (.op r) => r = .ok ∧ opSucceeds c.shared.world (c.locals i) = true
  | .proc _ (.mark r) => r = .ok
  | .proc _ .wake => True
  | .proc _ (.dlq r) => r.isAcked = true
  | .proc _ .crash => False
  | .env (.deleteItem _) => False
  | .env (.expireMarker _) => False
  | .env (.expireZset _) => True
  | .env .restart => True

instance (deliveries : Deliveries ι) (c : Workers ι) : ∀ a, Decidable (NothingFails deliveries c a)
  | .proc _ (.check r) => inferInstanceAs (Decidable (r = .ok))
  | .proc _ (.resolve r) => inferInstanceAs (Decidable (r = .ok))
  | .proc i (.read r) =>
    inferInstanceAs (Decidable (r = .ok ∧ (deliveries.event i).converts = true))
  | .proc i (.op r) => inferInstanceAs (Decidable (r = .ok ∧ opSucceeds c.shared.world (c.locals i)))
  | .proc _ (.mark r) => inferInstanceAs (Decidable (r = .ok))
  | .proc _ .wake => isTrue trivial
  | .proc _ (.dlq r) => inferInstanceAs (Decidable (r.isAcked = true))
  | .proc _ .crash => isFalse not_false
  | .env (.deleteItem _) => isFalse not_false
  | .env (.expireMarker _) => isFalse not_false
  | .env (.expireZset _) => isTrue trivial
  | .env .restart => isTrue trivial

/-- A delivery that has looked the marker up and not finished. -/
def Stage.busy : Stage → Bool
  | waiting => false
  | done _ => false
  | raised _ => false
  | crashed => false
  | _ => true

end Runs

/-! ## The steps of a delivery when nothing fails -/

section Steps
variable {ι : Type} {settings : Settings} {deliveries : Deliveries ι} {i : ι}

inductive HealthyStep (settings : Settings) (deliveries : Deliveries ι) (i : ι) (p : Pool ι) :
    Stage → Pool ι → Stage → Prop where
  | skip : p.world.redis.processed (deliveries.id i) = true →
    HealthyStep settings deliveries i p .waiting p (.done .OK)
  | enter : p.world.redis.processed (deliveries.id i) = false →
    HealthyStep settings deliveries i p .waiting p (nextAttempt settings 0)
  | unknown {k : ℕ} {caches : ItemCaches} :
    resolveItemMeta settings p.world.db p.world.caches (deliveries.event i).item_id =
      (none, caches) →
    HealthyStep settings deliveries i p (.resolving k)
      { p with world := { p.world with caches := caches } } (.marking k)
  | resolve {k : ℕ} {row : ItemMeta} {caches : ItemCaches} :
    resolveItemMeta settings p.world.db p.world.caches (deliveries.event i).item_id =
      (some row, caches) →
    HealthyStep settings deliveries i p (.resolving k)
      { p with world := { p.world with caches := caches } } (.reading k row.category)
  | read {k : ℕ} {category : String} : HealthyStep settings deliveries i p (.reading k category) p
      (nextOp k (effects settings (deliveries.event i) category
        (sessionItems settings p.world.redis (deliveries.event i))))
  | op {k : ℕ} {op : Op} {ops : List Op} {q : Pool ι} : p.apply i op = .ok q →
    HealthyStep settings deliveries i p (.running k op ops) q (nextOp k ops)
  | mark {k : ℕ} : HealthyStep settings deliveries i p (.marking k)
      { p with world := p.world.mark (deliveries.id i) } (.done .OK)
  | wake {k : ℕ} : HealthyStep settings deliveries i p (.sleeping k) p (.resolving (k + 1))
  | dlq (message : Bytes) : HealthyStep settings deliveries i p .sendingDlq
      { p with world := { p.world with dlq := message :: p.world.dlq } } (.done .DLQ_OK)

theorem healthyStep {c : Workers ι} {a : Event} {q : Pool ι} {m : Stage}
    (hh : NothingFails deliveries c (.proc i a))
    (h : recordStep settings deliveries i c.shared (c.locals i) a = some (q, m)) :
    HealthyStep settings deliveries i c.shared (c.locals i) q m := by
  generalize hl : c.locals i = l at h ⊢
  cases recordStep_inv h with
  | skip hseen => exact .skip hseen
  | enter hunseen => exact .enter hunseen
  | checkFailed => cases hh
  | unknown hres => exact .unknown hres
  | resolve hres => exact .resolve hres
  | resolveFailed => cases hh
  | read hts => exact .read
  | conversionFailed hts => exact absurd hts (by rw [hh.2]; simp)
  | readFailed => cases hh.1
  | op happly => exact .op happly
  | @opRejected k op ops e happly =>
    obtain ⟨-, hrun⟩ := hh
    rw [hl, opSucceeds] at hrun
    cases hop : op.run c.shared.world with
    | ok w => simp [Pool.apply, hop, Except.map] at happly
    | error e => simp [hop, Except.toBool] at hrun
  | opTook happly => cases hh.1
  | opFailed => cases hh.1
  | mark => exact .mark
  | markTook => cases hh
  | markFailed => cases hh
  | wake => exact .wake
  | dlqAcked => exact .dlq _
  | dlqFailed => cases hh
  | dlqRaised => cases hh
  | crash hfinal => exact hh.elim

variable {p q : Pool ι} {l m : Stage}

theorem Op.run_processed {op : Op} {w w' : World} (h : op.run w = .ok w') :
    w'.redis.processed = w.redis.processed := by
  cases op with
  | upsertCommit pairs =>
    obtain ⟨-, rfl⟩ := run_upsertCommit h
    rfl
  | zadd key member score => cases h; rfl
  | zremrangebyrank key start stop => cases h; rfl
  | expire key seconds => cases h; rfl
  | incr key => cases h; rfl
  | zincrby key amount member => cases h; rfl
  | send update => cases h; rfl

/-- The marker is only written at the end, and nothing takes it away. -/
theorem HealthyStep.processed (h : HealthyStep settings deliveries i p l q m) (id : Uuid) :
    q.world.redis.processed id = true ↔
      p.world.redis.processed id = true ∨ (∃ k, l = .marking k) ∧ id = deliveries.id i := by
  cases h with
  | mark =>
    by_cases hid : id = deliveries.id i
    · simp [World.mark, hid]
    · simp [World.mark, hid]
  | op happly => simp [Op.run_processed (apply_ok happly).1]
  | skip hseen => simp
  | enter hunseen => simp
  | unknown hres => simp
  | resolve hres => simp
  | read => simp
  | wake => simp
  | dlq message => simp

theorem HealthyStep.agree (h : HealthyStep settings deliveries i p l q m)
    (hcaches : CachesAgree p.world) :
    q.world.db.item = p.world.db.item ∧ CachesAgree q.world := by
  cases h with
  | op happly =>
    obtain ⟨hitem, heq⟩ := Op.run_item (apply_ok happly).1
    exact ⟨hitem, hcaches.of_eq hitem heq⟩
  | unknown hres => exact ⟨rfl, (hcaches.resolve hres).2⟩
  | resolve hres => exact ⟨rfl, (hcaches.resolve hres).2⟩
  | skip hseen => exact ⟨rfl, hcaches⟩
  | enter hunseen => exact ⟨rfl, hcaches⟩
  | read => exact ⟨rfl, hcaches⟩
  | mark => exact ⟨rfl, hcaches.of_eq rfl rfl⟩
  | wake => exact ⟨rfl, hcaches⟩
  | dlq message => exact ⟨rfl, hcaches.of_eq rfl rfl⟩

/-- Only the marker, found or written, ends a delivery with OK. -/
theorem HealthyStep.done_ok (h : HealthyStep settings deliveries i p l q (.done .OK)) :
    l = .waiting ∧ p.world.redis.processed (deliveries.id i) = true ∨ ∃ k, l = .marking k := by
  generalize hm : Stage.done .OK = m at h
  cases h with
  | skip hseen => exact .inl ⟨rfl, hseen⟩
  | mark => exact .inr ⟨_, rfl⟩
  | enter hunseen =>
    unfold nextAttempt at hm
    split at hm <;> cases hm
  | unknown hres => cases hm
  | resolve hres => cases hm
  | read => cases hm
  | op happly =>
    unfold nextOp at hm
    split at hm <;> cases hm
  | wake => cases hm
  | dlq message => cases hm

theorem HealthyStep.busy_or_waiting (h : HealthyStep settings deliveries i p l q m) :
    l.busy = true ∨
    (l = .waiting ∧ p.world.redis.processed (deliveries.id i) = true ∧ q = p ∧ m = .done .OK) ∨
    (l = .waiting ∧ p.world.redis.processed (deliveries.id i) = false) := by
  cases h with
  | skip hseen => exact .inr (.inl ⟨rfl, hseen, rfl, rfl⟩)
  | enter hunseen => exact .inr (.inr ⟨rfl, hunseen⟩)
  | unknown hres => exact .inl rfl
  | resolve hres => exact .inl rfl
  | read => exact .inl rfl
  | op happly => exact .inl rfl
  | mark => exact .inl rfl
  | wake => exact .inl rfl
  | dlq message => exact .inl rfl

theorem HealthyStep.not_final (h : HealthyStep settings deliveries i p l q m) : l.final = false := by
  cases h <;> rfl

end Steps

end ClickRec.Kafka
