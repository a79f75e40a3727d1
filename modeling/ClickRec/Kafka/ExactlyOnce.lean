import ClickRec.Kafka.HealthyPool

/-! # How often the side-effects of an event are applied

The marker is looked up before the work and written after it. With nothing failing the side-effects
of an event are applied once exactly when no delivery looks the marker up in vain while another
delivery of the event is between the two. -/
namespace ClickRec.Kafka
set_option autoImplicit false

/-! ## Deliveries that check alone -/

section Runs
variable {ι : Type}

/-- A delivery of the event that finds no marker is alone in handling it. -/
def CheckedAlone (deliveries : Deliveries ι) (id : Uuid) (c : Workers ι) : WorkerAct ι → Prop
  | .proc i (.check _) => deliveries.id i = id → c.shared.world.redis.processed id = false →
      ∀ j, deliveries.id j = id → (c.locals j).busy = false
  | _ => True

instance [Fintype ι] (deliveries : Deliveries ι) (id : Uuid) (c : Workers ι) :
    ∀ a, Decidable (CheckedAlone deliveries id c a)
  | .proc i (.check _) => inferInstanceAs (Decidable (deliveries.id i = id →
      c.shared.world.redis.processed id = false →
        ∀ j, deliveries.id j = id → (c.locals j).busy = false))
  | .proc _ (.resolve _) => isTrue trivial
  | .proc _ (.read _) => isTrue trivial
  | .proc _ (.op _) => isTrue trivial
  | .proc _ (.mark _) => isTrue trivial
  | .proc _ .wake => isTrue trivial
  | .proc _ (.dlq _) => isTrue trivial
  | .proc _ .crash => isTrue trivial
  | .env _ => isTrue trivial

/-- What `apply_enrichment` does for a delivery that reads this window. -/
def sideEffects (settings : Settings) (item : String → Option ItemMeta) (event : ClickEventDTO)
    (session_items : List String) : List Op :=
  match item event.item_id with
  | none => []
  | some row => effects settings event row.category session_items

/-- The side-effects of the event, as far as applied, are those of one delivery, each once. -/
def SideEffectsOnce (settings : Settings) (deliveries : Deliveries ι)
    (item : String → Option ItemMeta) (c : Workers ι) (id : Uuid) : Prop :=
  ∃ i, deliveries.id i = id ∧ ∃ session_items,
    (c.shared.applied.filter fun e => deliveries.id e.1 = id) =
      (sideEffects settings item (deliveries.event i) session_items).map (i, ·)

theorem not_checkedAlone {deliveries : Deliveries ι} {c : Workers ι} {a : WorkerAct ι} {id : Uuid}
    (h : ¬ CheckedAlone deliveries id c a) :
    ∃ i r j, a = .proc i (.check r) ∧ deliveries.id i = id ∧
      c.shared.world.redis.processed id = false ∧ deliveries.id j = id ∧
      (c.locals j).busy = true := by
  cases a with
  | env e => exact absurd trivial h
  | proc i a =>
    cases a with
    | check r =>
      simp only [CheckedAlone, not_forall, Bool.not_eq_false] at h
      obtain ⟨hi, hunseen, j, hj, hbusy⟩ := h
      exact ⟨i, r, j, rfl, hi, hunseen, hj, hbusy⟩
    | _ => exact absurd trivial h

end Runs

/-! ## How far each delivery has come -/

section Progress
variable {ι : Type} {settings : Settings} {deliveries : Deliveries ι}
  {item : String → Option ItemMeta} {i : ι}

/-- The stage of a delivery and the side-effects it has applied. -/
def Progress (settings : Settings) (item : String → Option ItemMeta) (event : ClickEventDTO) :
    Stage → List Op → Prop
  | .waiting, ops => ops = []
  | .resolving _, ops => ops = [] ∧ 0 < settings.consumer_max_retries
  | .reading _ category, ops => ops = [] ∧ 0 < settings.consumer_max_retries ∧
      ∃ row, item event.item_id = some row ∧ row.category = category
  | .running _ op todo, ops => 0 < settings.consumer_max_retries ∧
      ∃ row session_items, item event.item_id = some row ∧
        ops ++ op :: todo = effects settings event row.category session_items
  | .marking _, ops => 0 < settings.consumer_max_retries ∧
      ∃ session_items, ops = sideEffects settings item event session_items
  | .sendingDlq, ops => ops = [] ∧ settings.consumer_max_retries = 0
  | .done .OK, ops => ops = [] ∨ 0 < settings.consumer_max_retries ∧
      ∃ session_items, ops = sideEffects settings item event session_items
  | .done .DLQ_OK, ops => ops = [] ∧ settings.consumer_max_retries = 0
  | _, _ => False

/-- The side-effects applied by one delivery. -/
def Pool.opsOf [DecidableEq ι] (p : Pool ι) (i : ι) : List Op :=
  (p.applied.filter fun e => e.1 = i).map Prod.snd

theorem opsOf_apply [DecidableEq ι] {p q : Pool ι} {op : Op} (h : p.apply i op = .ok q) (j : ι) :
    q.opsOf j = p.opsOf j ++ if i = j then [op] else [] := by
  obtain ⟨-, happlied⟩ := apply_ok h
  by_cases hij : i = j <;> simp [Pool.opsOf, happlied, hij]

theorem nextOp_progress {k : ℕ} {event : ClickEventDTO} {ops todo : List Op} {row : ItemMeta}
    {session_items : List String} (hmax : 0 < settings.consumer_max_retries)
    (hrow : item event.item_id = some row)
    (h : ops ++ todo = effects settings event row.category session_items) :
    Progress settings item event (nextOp k todo) ops := by
  cases todo with
  | nil =>
    refine ⟨hmax, session_items, ?_⟩
    rw [List.append_nil] at h
    simp only [sideEffects, hrow, h]
  | cons op todo => exact ⟨hmax, row, session_items, hrow, h⟩

theorem progress_step [DecidableEq ι] {p q : Pool ι} {l m : Stage}
    (hstep : HealthyStep settings deliveries i p l q m) (hitem : p.world.db.item = item)
    (hcaches : CachesAgree p.world)
    (h : Progress settings item (deliveries.event i) l (p.opsOf i)) :
    Progress settings item (deliveries.event i) m (q.opsOf i) := by
  cases hstep with
  | skip hseen => exact .inl h
  | enter hunseen =>
    obtain hzero | hpos := Nat.eq_zero_or_pos settings.consumer_max_retries
    · rw [nextAttempt, if_neg (by omega)]
      exact ⟨h, hzero⟩
    · rw [nextAttempt, if_pos hpos]
      exact ⟨h, hpos⟩
  | unknown hres =>
    obtain ⟨hnone, -⟩ := hcaches.resolve hres
    rw [hitem] at hnone
    refine ⟨h.2, [], ?_⟩
    simp only [sideEffects, ← hnone]
    exact h.1
  | resolve hres =>
    obtain ⟨hsome, -⟩ := hcaches.resolve hres
    rw [hitem] at hsome
    exact ⟨h.1, h.2, _, hsome.symm, rfl⟩
  | read =>
    obtain ⟨hnil, hpos, row, hrow, rfl⟩ := h
    exact nextOp_progress hpos hrow (by rw [hnil]; rfl)
  | op happly =>
    obtain ⟨hpos, row, session_items, hrow, hops⟩ := h
    rw [opsOf_apply happly, if_pos rfl]
    exact nextOp_progress hpos hrow (by rw [List.append_assoc]; exact hops)
  | mark => exact .inr h
  | wake => exact h.elim
  | dlq message => exact h

/-- The counterpart for a delivery that does not move. -/
theorem opsOf_frame [DecidableEq ι] {p q : Pool ι} {l m : Stage} {j : ι}
    (hstep : HealthyStep settings deliveries i p l q m) (hj : j ≠ i) : q.opsOf j = p.opsOf j := by
  cases hstep with
  | op happly => rw [opsOf_apply happly, if_neg (Ne.symm hj), List.append_nil]
  | skip hseen => rfl
  | enter hunseen => rfl
  | unknown hres => rfl
  | resolve hres => rfl
  | read => rfl
  | mark => rfl
  | wake => rfl
  | dlq message => rfl

end Progress

/-! ## The invariant of a run in which nothing fails -/

section Invariant
variable {ι : Type} [DecidableEq ι] {settings : Settings} {deliveries : Deliveries ι}
  {item : String → Option ItemMeta} {c d : Workers ι}

structure CleanRun (settings : Settings) (deliveries : Deliveries ι)
    (item : String → Option ItemMeta) (c : Workers ι) : Prop where
  item_eq : c.shared.world.db.item = item
  caches : CachesAgree c.shared.world
  progress : ∀ i, Progress settings item (deliveries.event i) (c.locals i) (c.shared.opsOf i)
  marked : ∀ i, c.locals i = .done .OK → c.shared.world.redis.processed (deliveries.id i) = true
  marker : ∀ id, c.shared.world.redis.processed id = true → ∃ i, deliveries.id i = id ∧
    c.locals i = .done .OK ∧ ∃ session_items,
      c.shared.opsOf i = sideEffects settings item (deliveries.event i) session_items

theorem cleanRun_start : CleanRun settings deliveries item (poolStart item) where
  item_eq := rfl
  caches := by constructor <;> intro x hx <;> cases hx
  progress := fun _ => rfl
  marked := fun _ h => by cases h
  marker := fun _ h => by cases h

variable {i : ι} {p q : Pool ι} {l m : Stage}

theorem cleanRun_step {a : WorkerAct ι} (h : CleanRun settings deliveries item c)
    (hh : NothingFails deliveries c a) (hstep : poolStep settings deliveries c a = some d) :
    CleanRun settings deliveries item d := by
  cases a with
  | proc i a =>
    obtain ⟨q, m, hrecord, hq, hm, hframe⟩ := Trace.turn_proc hstep
    have hs := healthyStep hh hrecord
    obtain ⟨hitem, hcaches⟩ := hs.agree h.caches
    refine ⟨?_, ?_, ?_, ?_, ?_⟩
    · rw [hq, hitem, h.item_eq]
    · rw [hq]
      exact hcaches
    · intro j
      rw [hq]
      by_cases hj : j = i
      · rw [hj, hm]
        exact progress_step hs h.item_eq h.caches (h.progress i)
      · rw [hframe j hj, opsOf_frame hs hj]
        exact h.progress j
    · intro j hdone
      rw [hq, hs.processed]
      by_cases hj : j = i
      · subst hj
        rw [hm] at hdone
        subst hdone
        obtain ⟨-, hseen⟩ | hmarking := hs.done_ok
        · exact .inl hseen
        · exact .inr ⟨hmarking, rfl⟩
      · rw [hframe j hj] at hdone
        exact .inl (h.marked j hdone)
    · intro id hid
      rw [hq] at hid ⊢
      obtain hid | ⟨⟨k, hk⟩, rfl⟩ := (hs.processed id).mp hid
      · obtain ⟨j, hj_id, hdone, hops⟩ := h.marker id hid
        have hj : j ≠ i := by
          rintro rfl
          have hfinal := hs.not_final
          rw [hdone] at hfinal
          cases hfinal
        rw [← hframe j hj, ← opsOf_frame hs hj] at *
        exact ⟨j, hj_id, hdone, hops⟩
      · have hprogress := h.progress i
        rw [hk] at hs hprogress
        obtain ⟨-, session_items, hops⟩ := hprogress
        cases hs with
        | mark => exact ⟨i, rfl, hm, session_items, hops⟩
  | env e =>
    obtain ⟨hout, hlocals⟩ := Trace.turn_env hstep
    cases e with
    | deleteItem id => exact hh.elim
    | expireMarker id => exact hh.elim
    | expireZset key =>
      have hq := Option.some.inj hout
      refine ⟨?_, ?_, ?_, ?_, ?_⟩ <;> rw [← hq] <;> try rw [hlocals]
      · exact h.item_eq
      · exact h.caches.of_eq rfl rfl
      · exact h.progress
      · exact h.marked
      · exact h.marker
    | restart =>
      have hq := Option.some.inj hout
      refine ⟨?_, ?_, ?_, ?_, ?_⟩ <;> rw [← hq] <;> try rw [hlocals]
      · exact h.item_eq
      · constructor <;> intro x hx <;> cases hx
      · exact h.progress
      · exact h.marked
      · exact h.marker

/-! ## Deliveries that handle the event -/

/-- The delivery is handling its event or has applied side-effects of it. -/
def Engaged (c : Workers ι) (i : ι) : Prop :=
  (c.locals i).busy = true ∨ c.shared.opsOf i ≠ []

def Alone (deliveries : Deliveries ι) (id : Uuid) (c : Workers ι) : Prop :=
  ∀ i j, deliveries.id i = id → deliveries.id j = id → Engaged c i → Engaged c j → i = j

theorem busy_nextOp (k : ℕ) (ops : List Op) : (nextOp k ops).busy = true := by
  cases ops <;> rfl

theorem busy_nextAttempt (k : ℕ) : (nextAttempt settings k).busy = true := by
  unfold nextAttempt
  split <;> rfl

/-- A delivery that is not busy and has applied side-effects has ended with OK. -/
theorem CleanRun.done_of_ops (h : CleanRun settings deliveries item c) {j : ι}
    (hbusy : (c.locals j).busy = false) (hops : c.shared.opsOf j ≠ []) :
    c.locals j = .done .OK := by
  have hprogress := h.progress j
  cases hl : c.locals j with
  | done outcome =>
    rw [hl] at hprogress
    cases outcome with
    | OK => rfl
    | DLQ_OK => exact absurd hprogress.1 hops
    | DLQ_FAILED => exact hprogress.elim
  | waiting =>
    rw [hl] at hprogress
    exact absurd hprogress hops
  | raised e =>
    rw [hl] at hprogress
    exact hprogress.elim
  | crashed =>
    rw [hl] at hprogress
    exact hprogress.elim
  | resolving k =>
    rw [hl] at hbusy
    cases hbusy
  | reading k category =>
    rw [hl] at hbusy
    cases hbusy
  | running k op ops =>
    rw [hl] at hbusy
    cases hbusy
  | marking k =>
    rw [hl] at hbusy
    cases hbusy
  | sleeping k =>
    rw [hl] at hbusy
    cases hbusy
  | sendingDlq =>
    rw [hl] at hbusy
    cases hbusy

theorem engaged_step {a : WorkerAct ι} {j : ι} (h : CleanRun settings deliveries item c)
    (hmax : 0 < settings.consumer_max_retries)
    (hknown : (item (deliveries.event j).item_id).isSome) (hh : NothingFails deliveries c a)
    (hstep : poolStep settings deliveries c a = some d) (hj : Engaged c j) : Engaged d j := by
  cases a with
  | proc i a =>
    obtain ⟨q, m, hrecord, hq, hm, hframe⟩ := Trace.turn_proc hstep
    have hs := healthyStep hh hrecord
    have hprogress := h.progress i
    rw [Engaged, hq]
    by_cases hij : j = i
    · subst hij
      rw [hm]
      rw [Engaged] at hj
      generalize c.locals j = l at hs hprogress hj
      cases hs with
      | skip hseen => exact absurd hprogress (hj.resolve_left (by simp [Stage.busy]))
      | enter hunseen => exact .inl (busy_nextAttempt 0)
      | unknown hres => exact .inl rfl
      | resolve hres => exact .inl rfl
      | read => exact .inl (busy_nextOp _ _)
      | op happly => exact .inl (busy_nextOp _ _)
      | mark =>
        obtain ⟨-, session_items, hops⟩ := hprogress
        obtain ⟨row, hrow⟩ := Option.isSome_iff_exists.mp hknown
        have hne : c.shared.opsOf j ≠ [] := by
          rw [hops]
          simp only [sideEffects, hrow]
          exact List.cons_ne_nil _ _
        exact .inr hne
      | wake => exact .inl rfl
      | dlq message => exact absurd hprogress.2 hmax.ne'
    · rw [hframe j hij, opsOf_frame hs hij]
      exact hj
  | env e =>
    obtain ⟨hout, hlocals⟩ := Trace.turn_env hstep
    have happlied : d.shared.applied = c.shared.applied := by
      cases e <;> rw [← Option.some.inj hout]
    rw [Engaged, hlocals, Pool.opsOf, happlied]
    exact hj

theorem alone_step {a : WorkerAct ι} {id : Uuid} (h : CleanRun settings deliveries item c)
    (hh : NothingFails deliveries c a) (hcheck : CheckedAlone deliveries id c a)
    (hstep : poolStep settings deliveries c a = some d) (halone : Alone deliveries id c) :
    Alone deliveries id d := by
  cases a with
  | proc i a =>
    obtain ⟨q, m, hrecord, hq, hm, hframe⟩ := Trace.turn_proc hstep
    have hs := healthyStep hh hrecord
    have hprogress := h.progress i
    have hother : ∀ k, k ≠ i → Engaged d k → Engaged c k := by
      intro k hk hd
      rwa [Engaged, hq, hframe k hk, opsOf_frame hs hk] at hd
    have hcarry : (Engaged d i → Engaged c i) → Alone deliveries id d := by
      intro hi k j hk hj hdk hdj
      have hback : ∀ k, Engaged d k → Engaged c k := fun k hdk => by
        by_cases hki : k = i
        · exact hki ▸ hi (hki ▸ hdk)
        · exact hother k hki hdk
      exact halone k j hk hj (hback k hdk) (hback j hdj)
    obtain hbusy | ⟨hwaiting, hseen, rfl, rfl⟩ | ⟨hwaiting, hunseen⟩ := hs.busy_or_waiting
    · exact hcarry fun _ => .inl hbusy
    · refine hcarry fun hd => ?_
      rw [Engaged, hq, hm] at hd
      exact .inr (hd.resolve_left (by simp [Stage.busy]))
    · obtain ⟨r, rfl⟩ : ∃ r, a = .check r := by
        rw [hwaiting] at hrecord
        refine (recordStep_waiting hrecord).resolve_right ?_
        rintro rfl
        exact hh
      by_cases hid : deliveries.id i = id
      · -- whoever else was engaged is not busy any more, so it would have left the marker
        have hnone : ∀ k, deliveries.id k = id → k ≠ i → ¬ Engaged d k := by
          intro k hk hki hdk
          have hidle : (c.locals k).busy = false := hcheck hid (hid ▸ hunseen) k hk
          have hops := (hother k hki hdk).resolve_left (by simp [hidle])
          have hmarked := h.marked k (h.done_of_ops hidle hops)
          rw [hk, ← hid, hunseen] at hmarked
          cases hmarked
        intro k j hk hj hdk hdj
        have hki : k = i := not_not.mp fun hki => hnone k hk hki hdk
        have hji : j = i := not_not.mp fun hji => hnone j hj hji hdj
        rw [hki, hji]
      · intro k j hk hj hdk hdj
        have hki : k ≠ i := fun hki => hid (hki ▸ hk)
        have hji : j ≠ i := fun hji => hid (hji ▸ hj)
        exact halone k j hk hj (hother k hki hdk) (hother j hji hdj)
  | env e =>
    obtain ⟨hout, hlocals⟩ := Trace.turn_env hstep
    have happlied : d.shared.applied = c.shared.applied := by
      cases e <;> rw [← Option.some.inj hout]
    have hsame : ∀ k, Engaged d k ↔ Engaged c k := fun k => by
      rw [Engaged, hlocals, Pool.opsOf, happlied, Engaged, Pool.opsOf]
    intro i j hi hj hdi hdj
    exact halone i j hi hj ((hsame i).mp hdi) ((hsame j).mp hdj)

/-! ## The history of an event -/

theorem filter_eq_opsOf (p : Pool ι) (i : ι) :
    (p.applied.filter fun e => e.1 = i) = (p.opsOf i).map (i, ·) := by
  have hfst : ∀ e ∈ p.applied.filter (fun e => e.1 = i), (i, e.2) = e := by
    intro e he
    obtain rfl : e.1 = i := by simpa using List.of_mem_filter he
    rfl
  rw [Pool.opsOf, List.map_map]
  exact ((List.map_congr_left hfst).trans (List.map_id _)).symm

theorem opsOf_ne_nil {p : Pool ι} {e : ι × Op} (h : e ∈ p.applied) : p.opsOf e.1 ≠ [] := by
  have hmem : e.2 ∈ p.opsOf e.1 :=
    List.mem_map.mpr ⟨e, List.mem_filter.mpr ⟨h, by simp⟩, rfl⟩
  exact List.ne_nil_of_mem hmem

theorem history_nil {id : Uuid} (h : ∀ i, deliveries.id i = id → c.shared.opsOf i = []) :
    (c.shared.applied.filter fun e => deliveries.id e.1 = id) = [] := by
  rw [List.filter_eq_nil_iff]
  intro e he hid
  exact opsOf_ne_nil he (h e.1 (by simpa using hid))

/-- Without attempts, or for an item that is not in the catalogue, nothing is applied. -/
theorem progress_ops_nil {event : ClickEventDTO} {ops : List Op}
    (h : Progress settings item event l ops)
    (hnone : settings.consumer_max_retries = 0 ∨ item event.item_id = none) : ops = [] := by
  have hside : (0 < settings.consumer_max_retries ∧
      ∃ session_items, ops = sideEffects settings item event session_items) → ops = [] := by
    rintro ⟨hpos, session_items, hops⟩
    have hitem := hnone.resolve_left hpos.ne'
    simpa only [sideEffects, hitem] using hops
  cases l with
  | waiting => exact h
  | resolving k => exact h.1
  | reading k category => exact h.1
  | running k op todo =>
    obtain ⟨hpos, row, session_items, hrow, -⟩ := h
    rw [hnone.resolve_left hpos.ne'] at hrow
    cases hrow
  | marking k => exact hside h
  | sleeping k => exact h.elim
  | sendingDlq => exact h.1
  | done outcome =>
    cases outcome with
    | OK => exact h.elim id hside
    | DLQ_OK => exact h.1
    | DLQ_FAILED => exact h.elim
  | raised e => exact h.elim
  | crashed => exact h.elim

theorem sideEffects_ne_nil {event : ClickEventDTO} (hknown : (item event.item_id).isSome)
    (session_items : List String) : sideEffects settings item event session_items ≠ [] := by
  obtain ⟨row, hrow⟩ := Option.isSome_iff_exists.mp hknown
  simp only [sideEffects, hrow]
  exact List.cons_ne_nil _ _

theorem once_of_alone (h : CleanRun settings deliveries item c)
    (hmax : 0 < settings.consumer_max_retries) (hknown : (item (deliveries.event i).item_id).isSome)
    (halone : Alone deliveries (deliveries.id i) c) {outcome : ProcessOutcome}
    (hdone : c.locals i = .done outcome) :
    SideEffectsOnce settings deliveries item c (deliveries.id i) := by
  have hprogress := h.progress i
  rw [hdone] at hprogress
  have hok : c.locals i = .done .OK := by
    cases outcome with
    | OK => exact hdone
    | DLQ_OK => exact absurd hprogress.2 hmax.ne'
    | DLQ_FAILED => exact hprogress.elim
  obtain ⟨j, hj, -, session_items, hops⟩ := h.marker _ (h.marked i hok)
  have hsame : deliveries.event j = deliveries.event i := deliveries.same j i hj
  have hengaged : Engaged c j := by
    refine .inr ?_
    rw [hops]
    exact sideEffects_ne_nil (by rwa [hsame]) _
  refine ⟨j, hj, session_items, ?_⟩
  rw [← hops, ← filter_eq_opsOf]
  refine List.filter_congr fun e he => ?_
  have hiff : deliveries.id e.1 = deliveries.id i ↔ e.1 = j :=
    ⟨fun hid => halone e.1 j hid hj (.inr (opsOf_ne_nil he)) hengaged, fun hej => hej ▸ hj⟩
  simp only [hiff]

/-- Two deliveries that are engaged in the event both apply its side-effects. -/
theorem not_once_of_two {j : ι} (hij : i ≠ j)
    (hid : deliveries.id j = deliveries.id i)
    (hdone : ∀ k, deliveries.id k = deliveries.id i → ∃ outcome, c.locals k = .done outcome)
    (hi : Engaged c i) (hj : Engaged c j) :
    ¬ SideEffectsOnce settings deliveries item c (deliveries.id i) := by
  rintro ⟨n, hn, session_items, hhistory⟩
  have honly : ∀ k, deliveries.id k = deliveries.id i → Engaged c k → k = n := by
    intro k hk hengaged
    obtain ⟨outcome, hdone⟩ := hdone k hk
    have hops : c.shared.opsOf k ≠ [] := hengaged.resolve_left (by simp [hdone, Stage.busy])
    obtain ⟨op, hop⟩ := List.exists_mem_of_ne_nil _ hops
    obtain ⟨e, hfiltered, -⟩ := List.mem_map.mp hop
    obtain ⟨he, hek⟩ := List.mem_filter.mp hfiltered
    have hek : e.1 = k := by simpa using hek
    have hmem : e ∈ c.shared.applied.filter fun e => deliveries.id e.1 = deliveries.id i :=
      List.mem_filter.mpr ⟨he, by simpa [hek] using hk⟩
    rw [hhistory] at hmem
    obtain ⟨_, -, rfl⟩ := List.mem_map.mp hmem
    exact hek.symm
  exact hij ((honly i rfl hi).trans (honly j hid hj).symm)

/-- A delivery that does not check alone joins another one. -/
theorem two_engaged {a : WorkerAct ι} {id : Uuid}
    (hcheck : ¬ CheckedAlone deliveries id c a)
    (hstep : poolStep settings deliveries c a = some d) :
    ∃ i j, deliveries.id i = id ∧ deliveries.id j = id ∧ i ≠ j ∧ Engaged d i ∧ Engaged d j := by
  obtain ⟨i, r, j, rfl, hi, hunseen, hj, hbusy⟩ := not_checkedAlone hcheck
  obtain ⟨q, m, hrecord, hq, hm, hframe⟩ := Trace.turn_proc hstep
  obtain ⟨hwaiting, hwork⟩ := recordStep_check hrecord
  have hne : i ≠ j := by
    rintro rfl
    rw [hwaiting] at hbusy
    cases hbusy
  refine ⟨i, j, hi, hj, hne, .inl ?_, .inl ?_⟩
  · rw [hm, hwork (hi ▸ hunseen)]
    exact busy_nextAttempt 0
  · rw [hframe j hne.symm]
    exact hbusy

/-! ## Runs -/

theorem cleanRun_exec {as : List (WorkerAct ι)}
    (hrun : Trace.exec (poolStep settings deliveries) c as = some d)
    (hhealthy : Trace.Along (poolStep settings deliveries) (NothingFails deliveries) c as)
    (h : CleanRun settings deliveries item c) : CleanRun settings deliveries item d :=
  Trace.exec_invariant (fun _ _ _ hI hC hstep => cleanRun_step hI hC hstep) hhealthy hrun h

/-- A delivery that is engaged stays so to the end of the run. -/
theorem engaged_exec {as : List (WorkerAct ι)} {j : ι}
    (hrun : Trace.exec (poolStep settings deliveries) c as = some d)
    (hhealthy : Trace.Along (poolStep settings deliveries) (NothingFails deliveries) c as)
    (h : CleanRun settings deliveries item c) (hmax : 0 < settings.consumer_max_retries)
    (hknown : (item (deliveries.event j).item_id).isSome) (hj : Engaged c j) : Engaged d j := by
  have hboth := Trace.exec_invariant
    (I := fun c : Workers ι => CleanRun settings deliveries item c ∧ Engaged c j)
    (fun _ _ _ hI hC hstep =>
      ⟨cleanRun_step hI.1 hC hstep, engaged_step hI.1 hmax hknown hC hstep hI.2⟩)
    hhealthy hrun ⟨h, hj⟩
  exact hboth.2

theorem alone_start (id : Uuid) : Alone deliveries id (poolStart item) := by
  intro i j _ _ hi _
  obtain hbusy | hops := hi
  · cases hbusy
  · exact absurd rfl hops

theorem alone_exec {as : List (WorkerAct ι)} {id : Uuid}
    (hrun : Trace.exec (poolStep settings deliveries) c as = some d)
    (hhealthy : Trace.Along (poolStep settings deliveries) (NothingFails deliveries) c as)
    (hcheck : Trace.Along (poolStep settings deliveries) (CheckedAlone deliveries id) c as)
    (h : CleanRun settings deliveries item c) (halone : Alone deliveries id c) :
    Alone deliveries id d := by
  have hboth := Trace.exec_invariant
    (I := fun c : Workers ι => CleanRun settings deliveries item c ∧ Alone deliveries id c)
    (fun _ _ _ hI hC hstep =>
      ⟨cleanRun_step hI.1 hC.1 hstep, alone_step hI.1 hC.1 hC.2 hstep hI.2⟩)
    (Trace.along_and hhealthy hcheck) hrun ⟨h, halone⟩
  exact hboth.2

/-- After a delivery that does not check alone, two are engaged to the end of the run. -/
theorem two_engaged_exec {as : List (WorkerAct ι)} {id : Uuid}
    (hrun : Trace.exec (poolStep settings deliveries) c as = some d)
    (hhealthy : Trace.Along (poolStep settings deliveries) (NothingFails deliveries) c as)
    (h : CleanRun settings deliveries item c) (hmax : 0 < settings.consumer_max_retries)
    (hknown : ∀ k, deliveries.id k = id → (item (deliveries.event k).item_id).isSome)
    (hcheck : ¬ Trace.Along (poolStep settings deliveries) (CheckedAlone deliveries id) c as) :
    ∃ i j, deliveries.id i = id ∧ deliveries.id j = id ∧ i ≠ j ∧ Engaged d i ∧ Engaged d j := by
  obtain ⟨pre, a, post, v, w, rfl, hpre, ha, hw, hpost⟩ := Trace.exists_step_of_not_along hrun hcheck
  obtain ⟨hhealthy_pre, hhealthy_rest⟩ := (Trace.along_append hpre).mp hhealthy
  have hclean := cleanRun_step (cleanRun_exec hpre hhealthy_pre h) hhealthy_rest.head hw
  have hkeep : ∀ k, deliveries.id k = id → Engaged w k → Engaged d k := fun k hk hengaged =>
    engaged_exec hpost (hhealthy_rest.tail hw) hclean hmax (hknown k hk) hengaged
  obtain ⟨i, j, hi, hj, hij, hengaged_i, hengaged_j⟩ := two_engaged ha hw
  exact ⟨i, j, hi, hj, hij, hkeep i hi hengaged_i, hkeep j hj hengaged_j⟩

end Invariant

/-! ## What the history says about the stores -/

section Counts
variable {ι : Type} {settings : Settings} {deliveries : Deliveries ι}

/-- The upserts that count this pair. -/
def Op.upserts (pair : String × String) : Op → Bool
  | .upsertCommit pairs => pairs.contains pair
  | _ => false

theorem Op.run_counters {op : Op} {w w' : World} (h : op.run w = .ok w') (key : String) :
    w'.redis.counters key = w.redis.counters key + if op = .incr key then 1 else 0 := by
  cases op with
  | incr k =>
    obtain rfl := Except.ok.inj h
    by_cases hk : key = k
    · simp [hk]
    · simp [hk, Ne.symm hk]
  | upsertCommit pairs =>
    obtain ⟨-, rfl⟩ := run_upsertCommit h
    rfl
  | zadd k member score => cases h; rfl
  | zremrangebyrank k start stop => cases h; rfl
  | expire k seconds => cases h; rfl
  | zincrby k amount member => cases h; rfl
  | send update => cases h; rfl

theorem Op.run_co_click {op : Op} {w w' : World} (h : op.run w = .ok w')
    (pair : String × String) :
    (w'.db.co_click pair).getD 0 = (w.db.co_click pair).getD 0 + if op.upserts pair then 1 else 0 := by
  cases op with
  | upsertCommit pairs =>
    obtain ⟨-, rfl⟩ := run_upsertCommit h
    by_cases hmem : pair ∈ pairs <;> simp [upserts, hmem]
  | zadd k member score => cases h; rfl
  | zremrangebyrank k start stop => cases h; rfl
  | expire k seconds => cases h; rfl
  | incr k => cases h; rfl
  | zincrby k amount member => cases h; rfl
  | send update => cases h; rfl

/-- A quantity of the stores that moves with the side-effects it counts, and with nothing else a
delivery does, stays equal to their number. -/
theorem applied_count (f : World → ℕ) (counts : Op → Bool) {i : ι} {p q : Pool ι}
    (hop : ∀ op w w', Op.run w op = .ok w' → f w' = f w + if counts op then 1 else 0)
    (hsame : ∀ w w' : World, w'.db = w.db → w'.redis.counters = w.redis.counters → f w' = f w)
    (heffect : PoolEffect settings deliveries i p q)
    (h : f p.world = p.applied.countP fun e => counts e.2) :
    f q.world = q.applied.countP fun e => counts e.2 := by
  cases heffect with
  | same => exact h
  | resolved hres => exact Eq.trans (hsame p.world _ rfl rfl) h
  | applied happly =>
    obtain ⟨hrun, happlied⟩ := apply_ok happly
    rw [hop _ _ _ hrun, happlied, List.countP_append, h]
    simp [List.countP_cons]
  | marked => exact Eq.trans (hsame p.world _ rfl rfl) h
  | dlq message => exact Eq.trans (hsame p.world _ rfl rfl) h

/-- A popularity counter is the number of its increments, in every run. -/
theorem counters_of_applied [DecidableEq ι] {item : String → Option ItemMeta}
    {as : List (WorkerAct ι)} {c : Workers ι}
    (hrun : Trace.exec (poolStep settings deliveries) (poolStart item) as = some c) (key : String) :
    c.shared.world.redis.counters key =
      c.shared.applied.countP fun e => decide (e.2 = .incr key) := by
  refine Trace.exec_preserves (I := fun c : Workers ι => c.shared.world.redis.counters key =
    c.shared.applied.countP fun e => decide (e.2 = .incr key)) ?_ hrun rfl
  intro c a d hI hstep
  cases a with
  | proc i a =>
    obtain ⟨q, m, hrecord, rfl, -, -⟩ := Trace.turn_proc hstep
    refine applied_count (fun w => w.redis.counters key) (fun op => decide (op = .incr key))
      (fun op w w' hop => ?_) (fun w w' _ hcounters => ?_) (recordStep_effect hrecord) hI
    · simpa using Op.run_counters hop key
    · rw [hcounters]
  | env e =>
    obtain ⟨hout, -⟩ := Trace.turn_env hstep
    cases e <;> rw [← Option.some.inj hout] <;> exact hI

/-- A pair's count is the number of upserts that name it, while no item is deleted. -/
theorem co_click_of_applied [DecidableEq ι] {item : String → Option ItemMeta}
    {as : List (WorkerAct ι)} {c : Workers ι}
    (hrun : Trace.exec (poolStep settings deliveries) (poolStart item) as = some c)
    (hhealthy : Trace.Along (poolStep settings deliveries) (NothingFails deliveries)
      (poolStart item) as) (pair : String × String) :
    (c.shared.world.db.co_click pair).getD 0 =
      c.shared.applied.countP fun e => e.2.upserts pair := by
  refine Trace.exec_invariant (I := fun c : Workers ι => (c.shared.world.db.co_click pair).getD 0 =
    c.shared.applied.countP fun e => e.2.upserts pair) ?_ hhealthy hrun rfl
  intro c a d hI hh hstep
  cases a with
  | proc i a =>
    obtain ⟨q, m, hrecord, rfl, -, -⟩ := Trace.turn_proc hstep
    exact applied_count (fun w => (w.db.co_click pair).getD 0) (Op.upserts pair)
      (fun op w w' hop => Op.run_co_click hop pair) (fun w w' hdb _ => by rw [hdb])
      (recordStep_effect hrecord) hI
  | env e =>
    obtain ⟨hout, -⟩ := Trace.turn_env hstep
    cases e with
    | deleteItem id => exact hh.elim
    | expireMarker id => exact hh.elim
    | expireZset key =>
      rw [← Option.some.inj hout]
      exact hI
    | restart =>
      rw [← Option.some.inj hout]
      exact hI

end Counts

/-! ## Two deliveries of one event -/

/-- A catalogue of one item. -/
def oneShoe (id : String) : Option ItemMeta := if id = "i1" then some ⟨"shoes", 10⟩ else none

def redelivered : Deliveries (Trace.Two) where
  event _ := ⟨0x01, .ok 1, "u1", "i1"⟩
  same _ _ _ := rfl

/-- The second delivery comes when the first is done. -/
def oneAfterTheOther : List (WorkerAct (Trace.Two)) :=
  cleanDelivery.map (.proc .first) ++ [.proc .second (.check .ok)]

/-- The second delivery looks the marker up before the first has written it. -/
def bothAtOnce : List (WorkerAct (Trace.Two)) :=
  [.proc .second (.check .ok)] ++ cleanDelivery.map (.proc .first) ++ cleanDelivery.tail.map (.proc .second)

end ClickRec.Kafka
