import ClickRec.Kafka.CoClicks
import ClickRec.Kafka.ConsumerPool
import ClickRec.Kafka.ItemCaches

/-! # Clicks after items were deleted

The history in Redis may name items that are no longer in the catalogue, and the foreign keys of
`co_click` reject every pair with one of them. So a click on an item that exists succeeds exactly
when its timestamp can be converted and the session window names existing items only. -/
namespace ClickRec.Kafka
set_option autoImplicit false

/-! ## The items of the pairs -/

/-- The items of all pairs exist when those of the list do, and conversely from two items on. -/
theorem pairs_exist_iff {db : Database} {l : List String} :
    (∀ q ∈ coClickPairs l, (db.item q.1).isSome ∧ (db.item q.2).isSome) ↔
      (fromkeys l).length < 2 ∨ ∀ x ∈ l, (db.item x).isSome := by
  by_cases hl : (fromkeys l).length < 2
  · simp [coClickPairs, hl]
  · simp only [hl, false_or]
    have hpairs := fun q => mem_coClickPairs (l := l) (q := q) (by omega)
    constructor
    · intro h x hx
      obtain ⟨p, hp, hxp⟩ := exists_mem_combinations2 (mem_fromkeys.mpr hx) (by omega)
      obtain ⟨hmin, hmax⟩ := h _ ((hpairs _).mpr ⟨p, hp, rfl⟩)
      obtain hle | hle := le_total p.1 p.2
      · rw [min_eq_left hle] at hmin
        rw [max_eq_right hle] at hmax
        obtain rfl | rfl := hxp
        · exact hmin
        · exact hmax
      · rw [min_eq_right hle] at hmin
        rw [max_eq_left hle] at hmax
        obtain rfl | rfl := hxp
        · exact hmax
        · exact hmin
    · intro h q hq
      obtain ⟨p, hp, rfl⟩ := (hpairs q).mp hq
      obtain ⟨h1, h2⟩ := mem_of_mem_combinations2 hp
      have hfirst := h p.1 (mem_fromkeys.mp h1)
      have hsecond := h p.2 (mem_fromkeys.mp h2)
      obtain hle | hle := le_total p.1 p.2
      · exact ⟨by rwa [min_eq_left hle], by rwa [max_eq_right hle]⟩
      · exact ⟨by rwa [min_eq_right hle], by rwa [max_eq_left hle]⟩

/-! ## The session window starts with the clicked item -/

/-- A window of one item is the clicked item. -/
theorem window_exists_iff {db : Database} {settings : Settings} {redis : Redis}
    {event : ClickEventDTO} (hexists : (db.item event.item_id).isSome) :
    (∀ q ∈ coClickPairs (sessionItems settings redis event),
      (db.item q.1).isSome ∧ (db.item q.2).isSome) ↔
      ∀ x ∈ sessionItems settings redis event, (db.item x).isSome := by
  rw [pairs_exist_iff]
  refine ⟨fun h => h.elim (fun hone x hx => ?_) id, .inr⟩
  obtain ⟨rest, hrest⟩ := PyList.sliceTo_prefix
    (event.item_id :: getLastSessionItems redis event.user_id settings.session_window)
    settings.session_window
  have hhead : event.item_id ∈ sessionItems settings redis event := by
    cases hwindow : sessionItems settings redis event with
    | nil =>
      rw [hwindow] at hx
      cases hx
    | cons y ys =>
      rw [sessionItems] at hwindow
      rw [hwindow] at hrest
      obtain ⟨rfl, -⟩ := List.cons.inj hrest
      exact List.mem_cons_self
  have hlen : (fromkeys (sessionItems settings redis event)).length = 1 := by
    have hpos := List.length_pos_of_mem (mem_fromkeys.mpr hx)
    omega
  obtain ⟨y, hy⟩ := List.length_eq_one_iff.mp hlen
  have hxy : x = y := by simpa [hy] using mem_fromkeys.mpr hx
  have hhy : event.item_id = y := by simpa [hy] using mem_fromkeys.mpr hhead
  rw [hxy, ← hhy]
  exact hexists

/-! ## One enrichment -/

theorem Op.run_ok {op : Op} (w : World) (h : ∀ pairs, op ≠ .upsertCommit pairs) :
    ∃ w', op.run w = .ok w' := by
  cases op with
  | upsertCommit pairs => exact absurd rfl (h pairs)
  | zadd key member score => exact ⟨_, rfl⟩
  | zremrangebyrank key start stop => exact ⟨_, rfl⟩
  | expire key seconds => exact ⟨_, rfl⟩
  | incr key => exact ⟨_, rfl⟩
  | zincrby key amount member => exact ⟨_, rfl⟩
  | send update => exact ⟨_, rfl⟩

theorem runOps_ok {ops : List Op} (h : ∀ pairs, Op.upsertCommit pairs ∉ ops) (w : World) :
    (runOps w ops).1 = .ok () := by
  induction ops generalizing w with
  | nil => rfl
  | cons op ops ih =>
    obtain ⟨w', hop⟩ := Op.run_ok w fun pairs heq => h pairs (heq ▸ List.mem_cons_self)
    rw [runOps, hop]
    exact ih (fun pairs hmem => h pairs (List.mem_cons_of_mem op hmem)) w'

/-- Only the transaction can fail, and then it leaves the stores as they were. -/
theorem runOps_effects (settings : Settings) (event : ClickEventDTO) (category : String)
    (items : List String) (w : World) :
    ((∀ q ∈ coClickPairs items, (w.db.item q.1).isSome ∧ (w.db.item q.2).isSome) ∧
      (runOps w (effects settings event category items)).1 = .ok ()) ∨
    (¬ (∀ q ∈ coClickPairs items, (w.db.item q.1).isSome ∧ (w.db.item q.2).isSome) ∧
      runOps w (effects settings event category items) = (.error foreignKeyViolation, w)) := by
  obtain ⟨rest, hrest, hno⟩ : ∃ rest,
      effects settings event category items = .upsertCommit (coClickPairs items) :: rest ∧
        ∀ pairs, Op.upsertCommit pairs ∉ rest := by
    refine ⟨_, rfl, fun pairs => ?_⟩
    simp [updateRecentClicks, incrementPopularity, publishProfileUpdate]
  rw [hrest]
  by_cases hall : ∀ q ∈ coClickPairs items, (w.db.item q.1).isSome ∧ (w.db.item q.2).isSome
  · refine .inl ⟨hall, ?_⟩
    simp only [runOps, Op.run, Database.upsert, if_pos hall, Except.map]
    exact runOps_ok hno _
  · refine .inr ⟨hall, ?_⟩
    simp only [runOps, Op.run, Database.upsert, if_neg hall, Except.map]

/-- An item that exists and is not in the negative cache is resolved, and again after that. -/
theorem resolveItemMeta_some (settings : Settings) {db : Database} {caches : ItemCaches} {x : String}
    (hexists : (db.item x).isSome) (hneg : x ∉ caches.item_negative_cache) :
    ∃ row caches', resolveItemMeta settings db caches x = (some row, caches') ∧
      x ∉ caches'.item_negative_cache := by
  unfold resolveItemMeta
  rw [if_neg hneg]
  cases caches.item_cache.lookup x with
  | some row => exact ⟨row, caches, rfl, hneg⟩
  | none =>
    obtain ⟨row, hrow⟩ := Option.isSome_iff_exists.mp hexists
    rw [hrow]
    exact ⟨row, _, rfl, hneg⟩

/-- Nothing in the event or the user's window makes an attempt fail. -/
def Enrichable (settings : Settings) (w : World) (event : ClickEventDTO) : Prop :=
  event.converts = true ∧ ∀ x ∈ sessionItems settings w.redis event, (w.db.item x).isSome

theorem applyEnrichment_cases (settings : Settings) (event : ClickEventDTO) (w : World)
    (hexists : (w.db.item event.item_id).isSome)
    (hneg : event.item_id ∉ w.caches.item_negative_cache) :
    (Enrichable settings w event ∧ (applyEnrichment settings event w).1 = .ok ()) ∨
    (¬ Enrichable settings w event ∧ ∃ e caches,
      applyEnrichment settings event w = (.error e, { w with caches := caches }) ∧
        event.item_id ∉ caches.item_negative_cache) := by
  obtain ⟨row, caches, hres, hneg'⟩ := resolveItemMeta_some settings hexists hneg
  cases hts : event.converts with
  | false =>
    obtain ⟨e, he⟩ := applyEnrichment_of_not_converts settings hts hres
    exact .inr ⟨fun h => absurd h.1 (by rw [hts]; simp), e, caches, he, hneg'⟩
  | true =>
    have hwindow : Enrichable settings w event ↔ _ :=
      (and_iff_right hts).trans (window_exists_iff hexists).symm
    rw [hwindow, applyEnrichment_of_converts hts hres]
    obtain ⟨hall, hok⟩ | ⟨hall, hfail⟩ := runOps_effects settings event row.category
      (sessionItems settings w.redis event) { w with caches := caches }
    · exact .inl ⟨hall, hok⟩
    · exact .inr ⟨hall, _, caches, hfail, hneg'⟩

/-! ## The whole pipeline -/

section Pipeline
variable (settings : Settings) (orjson : Orjson) (validate : Json → Except PyError ClickEventDTO)
  (now_ms : World → ℤ)

/-- Every attempt finds the stores as the first one did. -/
theorem attempts_not_returned {event : ClickEventDTO} (left : ℕ) : ∀ (w : World)
    (last : Option PyError), (w.db.item event.item_id).isSome →
      event.item_id ∉ w.caches.item_negative_cache →
      ¬ Enrichable settings w event →
      ∀ u, ProcessOne.attempts (healthy settings orjson validate now_ms) event left w last ≠
        .returned u := by
  induction left with
  | zero =>
    intro w last _ _ _ u h
    cases h
  | succ left ih =>
    intro w last hexists hneg hwindow u h
    obtain ⟨hall, -⟩ | ⟨-, e, caches, hfail, hneg'⟩ :=
      applyEnrichment_cases settings event w hexists hneg
    · exact hwindow hall
    · have henrich : (healthy settings orjson validate now_ms).enrich w event =
        (.error e, { w with caches := caches }) := hfail
      rw [ProcessOne.attempts, henrich] at h
      simp only at h
      split at h
      · split at h
        · cases h
        · exact ih { w with caches := caches } _ hexists hneg' hwindow u h
      · exact ih { w with caches := caches } _ hexists hneg' hwindow u h

theorem outcomeOfSent_ne_ok {σ : Type} (r : Except PyError Bool × σ) :
    (ProcessOne.outcomeOfSent r).1 ≠ .ok .OK := by
  obtain ⟨e | sent, s⟩ := r
  · simp [ProcessOne.outcomeOfSent]
  · cases sent <;> simp [ProcessOne.outcomeOfSent]

/-- A click on an item that exists and is not in the negative cache. -/
theorem processOne_ok_iff {record : ConsumerRecord} {event : ClickEventDTO} {w : World}
    (hparse : ProcessOne.parse (healthy settings orjson validate now_ms) record = .ok event)
    (hexists : (w.db.item event.item_id).isSome)
    (hneg : event.item_id ∉ w.caches.item_negative_cache) :
    (ProcessOne.processOne (healthy settings orjson validate now_ms) record w).1 = .ok .OK ↔
      w.redis.processed event.event_id = true ∨
        (0 < settings.consumer_max_retries ∧ Enrichable settings w event) := by
  unfold ProcessOne.processOne
  simp only [hparse]
  have hchecked : ProcessOne.isConsumerEventProcessed (healthy settings orjson validate now_ms) w
    event.event_id = (w.redis.processed event.event_id, w) := rfl
  have hretries : (healthy settings orjson validate now_ms).consumer_max_retries =
    settings.consumer_max_retries := rfl
  rw [hchecked]
  cases hseen : w.redis.processed event.event_id with
  | true => simp
  | false =>
    simp only [hretries, Bool.false_eq_true, false_or]
    constructor
    · intro h
      by_contra hnot
      cases hloop : ProcessOne.attempts (healthy settings orjson validate now_ms) event
        settings.consumer_max_retries w none with
      | returned u =>
        obtain hzero | hpos := Nat.eq_zero_or_pos settings.consumer_max_retries
        · rw [hzero] at hloop
          cases hloop
        · exact attempts_not_returned settings orjson validate now_ms _ w none hexists hneg
            (fun hall => hnot ⟨hpos, hall⟩) u hloop
      | exhausted last u =>
        rw [hloop] at h
        exact outcomeOfSent_ne_ok _ h
      | raised e u =>
        rw [hloop] at h
        cases h
    · rintro ⟨hpos, hall⟩
      obtain ⟨left, hleft⟩ := Nat.exists_eq_succ_of_ne_zero hpos.ne'
      obtain ⟨-, hok⟩ | ⟨hnot, -⟩ := applyEnrichment_cases settings event w hexists hneg
      · obtain ⟨⟨result, u⟩, hresult⟩ : ∃ r, applyEnrichment settings event w = r := ⟨_, rfl⟩
        have henrich : (healthy settings orjson validate now_ms).enrich w event = (result, u) :=
          hresult
        rw [hresult] at hok
        obtain rfl : result = .ok () := hok
        rw [hleft, ProcessOne.attempts, henrich]
      · exact absurd hall hnot

end Pipeline

/-! ## Every reachable state -/

section Pool
variable {ι : Type} {settings : Settings} {deliveries : Deliveries ι} {i : ι} {p q : Pool ι}

theorem recordStep_negative {l m : Stage} {a : Event} (hneg : NegativeMissing p.world)
    (h : recordStep settings deliveries i p l a = some (q, m)) : NegativeMissing q.world := by
  cases recordStep_effect h with
  | same => exact hneg
  | resolved hres => exact resolveItemMeta_negative hneg hres
  | applied hop =>
    obtain ⟨hitem, hcaches⟩ := Op.run_item (apply_ok hop).1
    exact hneg.of_eq hitem hcaches
  | marked => exact hneg
  | dlq message => exact hneg

variable [DecidableEq ι]

theorem poolStep_negative {c d : Workers ι} {a : WorkerAct ι} (hneg : NegativeMissing c.shared.world)
    (h : poolStep settings deliveries c a = some d) : NegativeMissing d.shared.world := by
  cases a with
  | proc i a =>
    obtain ⟨q, m, hstep, rfl, -, -⟩ := Trace.turn_proc h
    exact recordStep_negative hneg hstep
  | env e =>
    obtain ⟨hout, -⟩ := Trace.turn_env h
    cases e with
    | deleteItem id =>
      rw [← Option.some.inj hout]
      intro x hx
      by_cases hxid : x = id
      · simp [Database.delete, hxid]
      · simpa [Database.delete, hxid] using hneg x hx
    | expireMarker id =>
      rw [← Option.some.inj hout]
      exact hneg
    | expireZset key =>
      rw [← Option.some.inj hout]
      exact hneg
    | restart =>
      rw [← Option.some.inj hout]
      intro x hx
      cases hx

end Pool

/-! ## A user with a deleted item in the window -/

def twoItems (id : String) : Option ItemMeta :=
  if id = "i1" ∨ id = "i2" then some ⟨"shoes", 10⟩ else none

/-- One user clicks first on `i1` and then on `i2`. -/
def twoClicks : Deliveries (Trace.Two) where
  event
    | .first => ⟨0x01, .ok 1, "u1", "i1"⟩
    | .second => ⟨0x02, .ok 2, "u1", "i2"⟩
  same := by decide

def firstClick : List (WorkerAct (Trace.Two)) := cleanDelivery.map (.proc .first)

def clickBytes : Bytes :=
  "\x7b\"event_id\":\"00000000-0000-0000-0000-000000000002\",\"item_id\":\"i2\"\x7d".toUTF8.toList

/-- `orjson` and pydantic on the record of the second click. -/
def clickJson : Orjson where
  loads raw := if raw = clickBytes then .ok (.obj [("event_id",
      .str "00000000-0000-0000-0000-000000000002"), ("item_id", .str "i2")])
    else .error ⟨"JSONDecodeError", "unexpected character", ""⟩
  dumps _ := .ok []

def validateClick (_ : Json) : Except PyError ClickEventDTO := .ok (twoClicks.event .second)

def secondRecord : ConsumerRecord := ⟨"user.clicks", 0, 1, none, some clickBytes⟩

theorem parse_secondRecord : ProcessOne.parse
    (healthy defaultSettings clickJson validateClick fun _ => 0) secondRecord =
      .ok (twoClicks.event .second) := by
  have hloads : clickJson.loads (ProcessOne.rawValue secondRecord) = .ok _ := if_pos rfl
  simp only [ProcessOne.parse, healthy, hloads]
  rfl

end ClickRec.Kafka
