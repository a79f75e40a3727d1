import ClickRec.Kafka.ExactlyOnce

/-! # A processed marker is never ahead of the work

The marker of an event is written only by a delivery whose `apply_enrichment` has returned, and OK
rests on the marker or on such a return. This holds through every failure, crash and expiry. -/
namespace ClickRec.Kafka
set_option autoImplicit false

/-! ## Where a step of a delivery comes from -/

section Steps
variable {ι : Type} {settings : Settings} {deliveries : Deliveries ι} {i : ι} {p q : Pool ι}
  {l m : Stage} {a : Event}

theorem nextAttempt_cases (settings : Settings) (k : ℕ) :
    nextAttempt settings k = .resolving (k + 1) ∨ nextAttempt settings k = .sendingDlq := by
  unfold nextAttempt
  split
  · exact .inl rfl
  · exact .inr rfl

theorem failed_cases (settings : Settings) (k : ℕ) : failed settings k = .sleeping k ∨
    (∃ e, failed settings k = .raised e) ∨ failed settings k = .sendingDlq := by
  unfold failed
  split
  · split
    · exact .inl rfl
    · exact .inr (.inl ⟨_, rfl⟩)
  · exact .inr (.inr rfl)

/-- The stages a delivery enters with a side-effect, a return or an answer. -/
def Stage.settled : Stage → Bool
  | running _ _ _ => true
  | marking _ => true
  | done .OK => true
  | _ => false

theorem settled_nextAttempt (settings : Settings) (k : ℕ) :
    (nextAttempt settings k).settled = false := by
  obtain h | h := nextAttempt_cases settings k <;> rw [h] <;> rfl

theorem settled_failed (settings : Settings) (k : ℕ) : (failed settings k).settled = false := by
  obtain h | ⟨e, h⟩ | h := failed_cases settings k <;> rw [h] <;> rfl

/-- What leads to a settled stage. -/
inductive Settles (settings : Settings) (deliveries : Deliveries ι) (i : ι) (p : Pool ι) :
    Stage → Pool ι → Stage → Prop where
  | skip : p.world.redis.processed (deliveries.id i) = true →
    Settles settings deliveries i p .waiting p (.done .OK)
  | unknown {k : ℕ} {q : Pool ι} : Settles settings deliveries i p (.resolving k) q (.marking k)
  | read {k : ℕ} {category : String} : Settles settings deliveries i p (.reading k category) p
      (nextOp k (effects settings (deliveries.event i) category
        (sessionItems settings p.world.redis (deliveries.event i))))
  | op {k : ℕ} {op : Op} {ops : List Op} {q : Pool ι} : p.apply i op = .ok q →
    Settles settings deliveries i p (.running k op ops) q (nextOp k ops)
  | mark {k : ℕ} {q : Pool ι} : Settles settings deliveries i p (.marking k) q (.done .OK)

theorem RecordStep.settles (h : RecordStep settings deliveries i p l a q m)
    (hm : m.settled = true) : Settles settings deliveries i p l q m := by
  cases h with
  | skip hseen => exact .skip hseen
  | unknown hres => exact .unknown
  | read hts => exact .read
  | op happly => exact .op happly
  | mark => exact .mark
  | markTook => exact .mark
  | markFailed => exact .mark
  | enter hunseen =>
    rw [settled_nextAttempt] at hm
    cases hm
  | checkFailed =>
    rw [settled_nextAttempt] at hm
    cases hm
  | resolveFailed =>
    rw [settled_failed] at hm
    cases hm
  | conversionFailed hts =>
    rw [settled_failed] at hm
    cases hm
  | readFailed =>
    rw [settled_failed] at hm
    cases hm
  | opRejected happly =>
    rw [settled_failed] at hm
    cases hm
  | opTook happly =>
    rw [settled_failed] at hm
    cases hm
  | opFailed =>
    rw [settled_failed] at hm
    cases hm
  | resolve hres => cases hm
  | wake => cases hm
  | dlqAcked => cases hm
  | dlqFailed => cases hm
  | dlqRaised => cases hm
  | crash hfinal => cases hm

/-- Only a delivery whose `apply_enrichment` has returned writes a marker. -/
theorem RecordStep.processed (h : RecordStep settings deliveries i p l a q m) {id : Uuid}
    (hid : q.world.redis.processed id = true) :
    p.world.redis.processed id = true ∨ (∃ k, l = .marking k) ∧ id = deliveries.id i := by
  have hmarked : (p.world.mark (deliveries.id i)).redis.processed id = true →
      p.world.redis.processed id = true ∨ id = deliveries.id i := by
    intro hmark
    by_cases hid : id = deliveries.id i
    · exact .inr hid
    · exact .inl (by simpa [World.mark, hid] using hmark)
  cases h with
  | mark => exact (hmarked hid).imp_right fun hid => ⟨⟨_, rfl⟩, hid⟩
  | markTook => exact (hmarked hid).imp_right fun hid => ⟨⟨_, rfl⟩, hid⟩
  | op happly => exact .inl (by rwa [← Op.run_processed (apply_ok happly).1])
  | opTook happly => exact .inl (by rwa [← Op.run_processed (apply_ok happly).1])
  | _ => exact .inl hid

end Steps

/-! ## The calls of `apply_enrichment` that have returned -/

/-- How a call returned. -/
inductive Return where
  | enriched
  -- the item is not in the catalogue
  | unknownItem
  deriving DecidableEq

section Returns
variable {ι : Type} {settings : Settings} {deliveries : Deliveries ι}

/-- A delivery goes on to the marker when its call returns. -/
def returnOf : Stage → Stage → Option Return
  | .resolving _, .marking _ => some .unknownItem
  | .running _ _ _, .marking _ => some .enriched
  | _, _ => none

def returnedBy (c : Workers ι) (a : WorkerAct ι) (d : Workers ι) (returned : List (ι × Return)) :
    List (ι × Return) :=
  match a with
  | .env _ => returned
  | .proc i _ => ((returnOf (c.locals i) (d.locals i)).map (i, ·)).toList ++ returned

/-- The workers, with the calls of `apply_enrichment` that have returned, the latest first. -/
abbrev Returned (ι : Type) := Workers ι × List (ι × Return)

theorem mem_returnedBy {c d : Workers ι} {i j : ι} {e : Event} {returned : List (ι × Return)}
    {r : Return} : (j, r) ∈ returnedBy c (.proc i e) d returned ↔
      (j = i ∧ returnOf (c.locals i) (d.locals i) = some r) ∨ (j, r) ∈ returned := by
  simp only [returnedBy, List.mem_append, Option.mem_toList, Option.map_eq_some_iff, Prod.mk.injEq]
  constructor
  · rintro (⟨r', hr, rfl, rfl⟩ | hmem)
    · exact .inl ⟨rfl, hr⟩
    · exact .inr hmem
  · rintro (⟨rfl, hr⟩ | hmem)
    · exact .inl ⟨r, hr, rfl, rfl⟩
    · exact .inr hmem

theorem subset_returnedBy (c : Workers ι) (a : WorkerAct ι) (d : Workers ι)
    (returned : List (ι × Return)) : returned ⊆ returnedBy c a d returned := by
  cases a with
  | env e => exact List.Subset.refl _
  | proc i e => exact List.subset_append_right _ _

/-- What the stage of a delivery stands for: side-effects applied one after the other, and calls that
have returned. -/
def Backed (settings : Settings) (deliveries : Deliveries ι) (i : ι) (ops : List Op)
    (returned : List (ι × Return)) : Stage → Prop
  | .running _ op todo => ∃ category session_items pre,
      effects settings (deliveries.event i) category session_items = pre ++ op :: todo ∧ pre <:+ ops
  | .marking _ => ∃ r, (i, r) ∈ returned
  | .done .OK => ∃ e ∈ returned, deliveries.id e.1 = deliveries.id i
  | _ => True

theorem backed_of_unsettled {i : ι} {ops : List Op} {returned : List (ι × Return)} {m : Stage}
    (h : m.settled = false) : Backed settings deliveries i ops returned m := by
  cases m with
  | running k op todo => cases h
  | marking k => cases h
  | done outcome =>
    cases outcome with
    | OK => cases h
    | DLQ_OK => trivial
    | DLQ_FAILED => trivial
  | _ => trivial

theorem Backed.mono {i : ι} {ops : List Op} {returned returned' : List (ι × Return)} {m : Stage}
    (h : Backed settings deliveries i ops returned m) (hsub : returned ⊆ returned') :
    Backed settings deliveries i ops returned' m := by
  cases m with
  | running k op todo => exact h
  | marking k =>
    obtain ⟨r, hr⟩ := h
    exact ⟨r, hsub hr⟩
  | done outcome =>
    cases outcome with
    | OK =>
      obtain ⟨e, he, hid⟩ := h
      exact ⟨e, hsub he, hid⟩
    | DLQ_OK => trivial
    | DLQ_FAILED => trivial
  | _ => trivial

variable [DecidableEq ι]

def returnStep (settings : Settings) (deliveries : Deliveries ι) :
    Returned ι → WorkerAct ι → Option (Returned ι) :=
  Trace.withHistory (poolStep settings deliveries) returnedBy

/-- A delivery that has applied all its side-effects, one after the other. -/
def Applied (settings : Settings) (deliveries : Deliveries ι) (p : Pool ι) (i : ι) : Prop :=
  ∃ category session_items,
    effects settings (deliveries.event i) category session_items <:+: p.opsOf i

/-- The markers and the answers rest on calls that have returned. -/
structure MarkersBacked (settings : Settings) (deliveries : Deliveries ι) (x : Returned ι) : Prop where
  marked : ∀ id, x.1.shared.world.redis.processed id = true → ∃ e ∈ x.2, deliveries.id e.1 = id
  backed : ∀ i, Backed settings deliveries i (x.1.shared.opsOf i) x.2 (x.1.locals i)
  enriched : ∀ i, (i, .enriched) ∈ x.2 → Applied settings deliveries x.1.shared i

/-! ### Each step keeps them so -/

variable {x y : Returned ι} {i : ι} {p q : Pool ι} {l m : Stage}

theorem opsOf_mono (h : PoolEffect settings deliveries i p q) (j : ι) : p.opsOf j <+: q.opsOf j := by
  cases h with
  | applied happly =>
    rw [opsOf_apply happly]
    exact List.prefix_append _ _
  | same => exact List.prefix_refl _
  | resolved hres => exact List.prefix_refl _
  | marked => exact List.prefix_refl _
  | dlq message => exact List.prefix_refl _

theorem opsOf_other {j : ι} (h : PoolEffect settings deliveries i p q) (hj : j ≠ i) :
    q.opsOf j = p.opsOf j := by
  cases h with
  | applied happly => rw [opsOf_apply happly, if_neg (Ne.symm hj), List.append_nil]
  | same => rfl
  | resolved hres => rfl
  | marked => rfl
  | dlq message => rfl

/-- After one more side-effect the attempt has applied one more. -/
theorem Backed.op {k : ℕ} {op : Op} {todo : List Op} {returned : List (ι × Return)}
    (h : Backed settings deliveries i (p.opsOf i) returned (.running k op todo))
    (happly : p.apply i op = .ok q) : ∃ category session_items pre,
      effects settings (deliveries.event i) category session_items = pre ++ todo ∧
        pre <:+ q.opsOf i := by
  obtain ⟨category, session_items, pre, heffects, before, hbefore⟩ := h
  refine ⟨category, session_items, pre ++ [op], by simpa using heffects, ?_⟩
  rw [opsOf_apply happly, if_pos rfl, ← hbefore, List.append_assoc]
  exact List.suffix_append before _

/-- The delivery that moves stands for what its new stage says. -/
theorem Settles.backed {returned : List (ι × Return)}
    (hs : Settles settings deliveries i p l q m)
    (hl : Backed settings deliveries i (p.opsOf i) returned l)
    (hmarked : p.world.redis.processed (deliveries.id i) = true →
      ∃ e ∈ returned, deliveries.id e.1 = deliveries.id i) :
    Backed settings deliveries i (q.opsOf i)
      (((returnOf l m).map (i, ·)).toList ++ returned) m := by
  cases hs with
  | skip hseen => exact hmarked hseen
  | unknown => exact ⟨.unknownItem, List.mem_cons_self⟩
  | read => exact ⟨_, _, [], rfl, List.nil_suffix⟩
  | @op k op todo q happly =>
    cases todo with
    | nil => exact ⟨.enriched, List.mem_cons_self⟩
    | cons next todo => exact hl.op happly
  | mark =>
    obtain ⟨r, hr⟩ := hl
    exact ⟨(i, r), hr, rfl⟩

theorem Settles.applied {returned : List (ι × Return)}
    (hs : Settles settings deliveries i p l q m)
    (hl : Backed settings deliveries i (p.opsOf i) returned l)
    (hreturn : returnOf l m = some .enriched) : Applied settings deliveries q i := by
  cases hs with
  | @op k op todo q happly =>
    cases todo with
    | nil =>
      obtain ⟨category, session_items, pre, heffects, hpre⟩ := hl.op happly
      rw [List.append_nil] at heffects
      exact ⟨category, session_items, heffects ▸ hpre.isInfix⟩
    | cons next todo => cases hreturn
  | skip hseen => cases hreturn
  | unknown => cases hreturn
  | read => cases hreturn
  | mark => cases hreturn

theorem returnOf_unsettled (l : Stage) (h : m.settled = false) : returnOf l m = none := by
  cases m with
  | marking k => cases h
  | _ => cases l <;> rfl

theorem MarkersBacked.proc {e : Event} (h : MarkersBacked settings deliveries x)
    (hstep : poolStep settings deliveries x.1 (.proc i e) = some y.1)
    (hy : y.2 = returnedBy x.1 (.proc i e) y.1 x.2) : MarkersBacked settings deliveries y := by
  obtain ⟨q, m, hrecord, hq, hm, hframe⟩ := Trace.turn_proc hstep
  have hs := recordStep_inv hrecord
  have heffect := recordStep_effect hrecord
  rw [← hq] at hs heffect
  have hsub : x.2 ⊆ y.2 := hy ▸ subset_returnedBy x.1 _ y.1 x.2
  have hi := h.backed i
  refine ⟨fun id hid => ?_, fun j => ?_, fun j hj => ?_⟩
  · obtain hid | ⟨⟨k, hk⟩, rfl⟩ := hs.processed hid
    · obtain ⟨e, he, hid⟩ := h.marked id hid
      exact ⟨e, hsub he, hid⟩
    · rw [hk] at hi
      obtain ⟨r, hr⟩ := hi
      exact ⟨(i, r), hsub hr, rfl⟩
  · by_cases hji : j = i
    · subst hji
      rw [hm]
      cases hsettled : m.settled with
      | false => exact backed_of_unsettled hsettled
      | true =>
        rw [hy, returnedBy, hm]
        exact (hs.settles hsettled).backed hi (h.marked _)
    · rw [hframe j hji, opsOf_other heffect hji]
      exact (h.backed j).mono hsub
  · rw [hy, mem_returnedBy] at hj
    obtain ⟨rfl, hreturn⟩ | hj := hj
    · rw [hm] at hreturn
      cases hsettled : m.settled with
      | false =>
        rw [returnOf_unsettled _ hsettled] at hreturn
        cases hreturn
      | true => exact (hs.settles hsettled).applied hi hreturn
    · obtain ⟨category, session_items, hinfix⟩ := h.enriched j hj
      exact ⟨category, session_items, hinfix.trans (opsOf_mono heffect j).isInfix⟩

theorem MarkersBacked.env {e : Outside} (h : MarkersBacked settings deliveries x)
    (hstep : poolStep settings deliveries x.1 (.env e) = some y.1) (hy : y.2 = x.2) :
    MarkersBacked settings deliveries y := by
  obtain ⟨hout, hlocals⟩ := Trace.turn_env hstep
  have hmarked : ∀ id, y.1.shared.world.redis.processed id = true →
      x.1.shared.world.redis.processed id = true := by
    intro id hid
    cases e with
    | expireMarker id' =>
      rw [← Option.some.inj hout] at hid
      by_cases hne : id = id'
      · simp [hne] at hid
      · simpa [hne] using hid
    | deleteItem id' =>
      rw [← Option.some.inj hout] at hid
      exact hid
    | expireZset key =>
      rw [← Option.some.inj hout] at hid
      exact hid
    | restart =>
      rw [← Option.some.inj hout] at hid
      exact hid
  have hops : ∀ j, y.1.shared.opsOf j = x.1.shared.opsOf j := by
    intro j
    cases e <;> rw [← Option.some.inj hout] <;> rfl
  refine ⟨fun id hid => ?_, fun j => ?_, fun j hj => ?_⟩
  · rw [hy]
    exact h.marked id (hmarked id hid)
  · rw [hy, hlocals, hops]
    exact h.backed j
  · rw [hy] at hj
    obtain ⟨category, session_items, hinfix⟩ := h.enriched j hj
    exact ⟨category, session_items, hops j ▸ hinfix⟩

theorem markersBacked_step {a : WorkerAct ι} (h : MarkersBacked settings deliveries x)
    (hstep : returnStep settings deliveries x a = some y) : MarkersBacked settings deliveries y := by
  obtain ⟨hpool, hy⟩ := Trace.withHistory_eq_some.mp hstep
  cases a with
  | env e => exact h.env hpool hy
  | proc i e => exact h.proc hpool hy

/-! ## Runs -/

/-- Undisturbed, the delivery makes a call of `apply_enrichment`. -/
def CallsEnrichment (settings : Settings) (deliveries : Deliveries ι) (c : Workers ι) (j : ι) : Prop :=
  ∃ (bs : List Event) (q : Pool ι), Trace.exec (poolStep settings deliveries) c (bs.map (.proc j)) =
      some ⟨q, Function.update c.locals j
        (afterAttempt settings 1 (applyEnrichment settings (deliveries.event j) c.shared.world).1)⟩ ∧
    q.world = (applyEnrichment settings (deliveries.event j) c.shared.world).2

theorem callsEnrichment_of_unmarked {c : Workers ι} {j : ι} (hwaiting : c.locals j = .waiting)
    (hmax : 0 < settings.consumer_max_retries)
    (hunseen : c.shared.world.redis.processed (deliveries.id j) = false) :
    CallsEnrichment settings deliveries c j := by
  obtain ⟨q, hreach, hq⟩ := solo_attempt settings deliveries j 1 c.shared
  have hcheck : soloStep settings deliveries j (c.shared, .waiting) (.check .ok) =
      some (c.shared, .resolving 1) := by
    simp [Trace.solo, recordStep, hunseen, nextAttempt, hmax]
  obtain ⟨bs, hbs⟩ := Trace.Reaches.head _ hcheck hreach
  rw [← hwaiting] at hbs
  exact ⟨bs, q, Trace.exec_solo hbs, hq⟩

/-- **A marker is never ahead of the work.** In every run of any number of workers, whatever fails,
crashes, expires or is redelivered: a marked event, and one with a delivery that ended OK, has a
call of `apply_enrichment` that returned; a call that returned for a known item has applied all its
side-effects; and an event without such a call has no marker, so that its next delivery makes one. -/
theorem marker_never_ahead (settings : Settings) (deliveries : Deliveries ι) (p : Pool ι)
    (hunmarked : ∀ id, p.world.redis.processed id = false) (as : List (WorkerAct ι)) (x : Returned ι)
    (hrun : Trace.exec (returnStep settings deliveries) (⟨p, fun _ => .waiting⟩, []) as = some x) :
    (∀ id, x.1.shared.world.redis.processed id = true → ∃ e ∈ x.2, deliveries.id e.1 = id) ∧
    (∀ i, x.1.locals i = .done .OK → ∃ e ∈ x.2, deliveries.id e.1 = deliveries.id i) ∧
    (∀ i, (i, .enriched) ∈ x.2 → Applied settings deliveries x.1.shared i) ∧
    ∀ id, (∀ e ∈ x.2, deliveries.id e.1 ≠ id) → x.1.shared.world.redis.processed id = false ∧
      ∀ j, deliveries.id j = id →
        (∀ r d, poolStep settings deliveries x.1 (.proc j (.check r)) = some d →
          d.locals j = if 0 < settings.consumer_max_retries then .resolving 1 else .sendingDlq) ∧
        (x.1.locals j = .waiting → 0 < settings.consumer_max_retries →
          CallsEnrichment settings deliveries x.1 j) := by
  have hbacked : MarkersBacked settings deliveries x := by
    refine Trace.exec_preserves (fun _ _ _ hI hstep => markersBacked_step hI hstep) hrun
      ⟨fun id hid => ?_, fun _ => trivial, fun i hi => by cases hi⟩
    rw [hunmarked id] at hid
    cases hid
  refine ⟨hbacked.marked, fun i hi => ?_, hbacked.enriched, fun id hnone => ?_⟩
  · have hi_backed := hbacked.backed i
    rw [hi] at hi_backed
    exact hi_backed
  · have hunseen : x.1.shared.world.redis.processed id = false := by
      by_contra hseen
      obtain ⟨e, he, hid⟩ := hbacked.marked id (by simpa using hseen)
      exact hnone e he hid
    refine ⟨hunseen, fun j hj => ⟨fun r d hstep => ?_, fun hwaiting hmax => ?_⟩⟩
    · obtain ⟨q, m, hrecord, -, hm, -⟩ := Trace.turn_proc hstep
      rw [hm, (recordStep_check hrecord).2 (hj ▸ hunseen)]
      rfl
    · exact callsEnrichment_of_unmarked hwaiting hmax (hj ▸ hunseen)

end Returns

/-! ## A worker that crashes before it writes the marker -/

/-- The first delivery has applied everything when its worker crashes. -/
def crashBeforeMark : List (WorkerAct Trace.Two) :=
  cleanDelivery.dropLast.map (.proc .first) ++ [.proc .first .crash]

theorem marker_never_ahead_crash : ∃ x,
    Trace.exec (returnStep defaultSettings redelivered) (poolStart oneShoe, []) crashBeforeMark =
      some x ∧ x.1.locals .first = .crashed ∧
      Applied defaultSettings redelivered x.1.shared .first := by
  obtain ⟨x, hx, hcrashed, hreturned⟩ : ∃ x,
      Trace.exec (returnStep defaultSettings redelivered) (poolStart oneShoe, []) crashBeforeMark =
        some x ∧ x.1.locals .first = .crashed ∧ x.2 = [(.first, .enriched)] :=
    ⟨_, rfl, rfl, rfl⟩
  have hbacked := marker_never_ahead defaultSettings redelivered ⟨World.start oneShoe, []⟩
    (fun _ => rfl) crashBeforeMark x hx
  refine ⟨x, hx, hcrashed, hbacked.2.2.1 .first ?_⟩
  rw [hreturned]
  exact List.mem_cons_self

end ClickRec.Kafka
