import ClickRec.Cache.CachedRead

/-! # How old a cached answer may be

The row may change while it is cached. What a caller reads from the key was the row when some SELECT
read it, and the key that SELECT filled has not expired yet. -/
namespace ClickRec.Cache
set_option autoImplicit false
open Kafka (Bytes)

/-! ## Callers with a clock -/

/-- The two lifetimes of `_populate_cache`. -/
structure CacheTtls where
  cache_item_ttl_seconds : ℤ
  cache_negative_ttl_seconds : ℤ

/-- The values of `config.py`. -/
def defaultCacheTtls : CacheTtls where
  cache_item_ttl_seconds := 600
  cache_negative_ttl_seconds := 60

def CacheTtls.ttl (settings : CacheTtls) : Option ItemDTO → ℤ
  | none => settings.cache_negative_ttl_seconds
  | some _ => settings.cache_item_ttl_seconds

/-- Milliseconds. -/
def CacheTtls.lifetime (settings : CacheTtls) (dto : Option ItemDTO) : ℕ :=
  1000 * (settings.ttl dto).toNat

/-- The callers, the time in milliseconds, when the item key expires, and when each caller's SELECT was
executed. -/
structure Clocked (ι : Type) where
  callers : Callers ι
  now : ℕ
  expires : ℕ
  readAt : ι → ℕ

inductive ClockAct (ι : Type) where
  | act (a : CallerAct ι)
  | tick (ms : ℕ)

section Clock
variable {ι : Type} [DecidableEq ι]

def Clocked.row (c : Clocked ι) : Option ItemDTO := c.callers.shared.row

/-- The clock beside a step of the callers. Redis refuses an expiry that is not positive. -/
def Clocked.after (settings : CacheTtls) (c : Clocked ι) (callers : Callers ι) :
    CallerAct ι → Option (Clocked ι)
  | .proc i (.populate r) =>
    match c.callers.locals i with
    | .populating dto =>
      if r.took then
        if 0 < settings.ttl dto then
          some { c with callers := callers, expires := c.now + settings.lifetime dto }
        else none
      else some { c with callers := callers }
    | _ => none
  | .proc i (.select _) =>
    some { c with callers := callers, readAt := Function.update c.readAt i c.now }
  | _ => some { c with callers := callers }

def clockedStep (settings : CacheTtls) (codec : Codec) (caller_id : ι → Bytes) (c : Clocked ι) :
    ClockAct ι → Option (Clocked ι)
  | .act a => (callersStep codec caller_id c.callers a).bind fun callers =>
    c.after settings callers a
  | .tick ms =>
    let now := c.now + ms
    let shared := c.callers.shared
    some { c with
      now := now
      callers := if c.expires ≤ now then ⟨{ shared with item := none }, c.callers.locals⟩
        else c.callers }

def coldClock (row : Option ItemDTO) : Clocked ι := ⟨cold row, 0, 0, fun _ => 0⟩

/-- A caller that fills the key does so within this time of its SELECT. -/
def FillsWithin (bound : ℕ) (c : Clocked ι) : ClockAct ι → Prop
  | .act (.proc i (.populate _)) => c.now ≤ c.readAt i + bound
  | _ => True

instance (bound : ℕ) (c : Clocked ι) : ∀ a, Decidable (FillsWithin bound c a)
  | .act (.proc i (.populate _)) => inferInstanceAs (Decidable (c.now ≤ c.readAt i + bound))
  | .act (.proc _ (.get _)) => isTrue trivial
  | .act (.proc _ (.setLock _)) => isTrue trivial
  | .act (.proc _ (.poll _)) => isTrue trivial
  | .act (.proc _ .timeout) => isTrue trivial
  | .act (.proc _ (.select _)) => isTrue trivial
  | .act (.proc _ (.release _)) => isTrue trivial
  | .act (.env _) => isTrue trivial
  | .tick _ => isTrue trivial

/-- At this time of the run this was the row. -/
def WasRow (settings : CacheTtls) (codec : Codec) (caller_id : ι → Bytes) (start : Clocked ι)
    (as : List (ClockAct ι)) (dto : Option ItemDTO) (time : ℕ) : Prop :=
  ∃ pre c, pre <+: as ∧ Trace.exec (clockedStep settings codec caller_id) start pre = some c ∧
    c.row = dto ∧ c.now = time

end Clock

/-! ## The steps of a caller -/

section Steps
variable {ι : Type} {codec : Codec} {caller_id : ι → Bytes} {i : ι} {s t : Store ι} {l m : Stage}
  {a : Event}

/-- What the caller took from its own SELECT meets `read`. -/
def Stage.Dated (read : Option ItemDTO → Prop) : Stage → Prop
  | populating dto => read dto
  | releasing (.ok dto) => read dto
  | done dto .db => read dto
  | _ => True

theorem Stage.Dated.mono {read read' : Option ItemDTO → Prop} (h : l.Dated read)
    (himp : ∀ dto, read dto → read' dto) : l.Dated read' := by
  cases l with
  | populating dto => exact himp dto h
  | releasing result =>
    cases result with
    | ok dto => exact himp dto h
    | error e => trivial
  | done dto source =>
    cases source with
    | db => exact himp dto h
    | cache => trivial
  | _ => trivial

theorem dated_present (read : Option ItemDTO → Prop) (raw : Bytes) : (present codec raw).Dated read := by
  unfold present
  split <;> trivial

theorem dated_returned {read : Option ItemDTO → Prop} {result : Except PyError (Option ItemDTO)}
    (h : (Stage.releasing result).Dated read) : (returned result).Dated read := by
  cases result with
  | ok dto => exact h
  | error e => trivial

theorem CallerStep.dated {read : Option ItemDTO → Prop} (h : CallerStep codec caller_id i s l a t m)
    (hl : (∀ r, a ≠ .select r) → l.Dated read) (hselect : ∀ r, a = .select r → read s.row) :
    m.Dated read := by
  cases h with
  | hit hitem => exact dated_present read _
  | pollHit hitem => exact dated_present read _
  | fallback => exact hselect _ rfl
  | fill => exact hselect _ rfl
  | populate => exact hl nofun
  | populateFailed => exact hl nofun
  | release => exact dated_returned (hl nofun)
  | releaseFailed => exact dated_returned (hl nofun)
  | _ => trivial

theorem CallerStep.row_eq (h : CallerStep codec caller_id i s l a t m) : t.row = s.row := by
  cases h with
  | @setLockFailed took => cases took <;> rfl
  | @populateFailed dto took => cases took <;> rfl
  | @releaseFailed result took => cases took <;> rfl
  | _ => rfl

/-- Only the SET of a filler changes the key. -/
theorem CallerStep.item_eq (h : CallerStep codec caller_id i s l a t m) :
    t.item = s.item ∧ (∀ r, a = .populate r → r.took = false) ∨
      ∃ dto r, l = .populating dto ∧ a = .populate r ∧ r.took = true ∧
        t.item = some (codec.payload dto) := by
  cases h with
  | populate => exact .inr ⟨_, _, rfl, rfl, rfl, rfl⟩
  | @populateFailed dto took =>
    cases took with
    | true => exact .inr ⟨dto, _, rfl, rfl, rfl, rfl⟩
    | false =>
      refine .inl ⟨rfl, fun r hr => ?_⟩
      cases hr
      rfl
  | @setLockFailed took => cases took <;> exact .inl ⟨rfl, fun r hr => by cases hr⟩
  | @releaseFailed result took => cases took <;> exact .inl ⟨rfl, fun r hr => by cases hr⟩
  | _ => exact .inl ⟨rfl, fun r hr => by cases hr⟩

/-- An answer from the cache is the item that is stored. -/
theorem CallerStep.of_cache {dto : Option ItemDTO} (h : CallerStep codec caller_id i s l a t m)
    (hm : m = .done dto .cache) :
    ∃ raw, s.item = some raw ∧ present codec raw = .done dto .cache := by
  cases h with
  | hit hitem => exact ⟨_, hitem, hm⟩
  | pollHit hitem => exact ⟨_, hitem, hm⟩
  | @release result => cases result <;> cases hm
  | @releaseFailed result => cases result <;> cases hm
  | _ => cases hm

end Steps

/-! ## Runs with a clock -/

section Runs
variable {ι : Type} [DecidableEq ι] {settings : CacheTtls} {codec : Codec} {caller_id : ι → Bytes}
  {start c d : Clocked ι} {as : List (ClockAct ι)} {dto : Option ItemDTO} {time bound : ℕ}

theorem WasRow.append (h : WasRow settings codec caller_id start as dto time)
    (bs : List (ClockAct ι)) : WasRow settings codec caller_id start (as ++ bs) dto time := by
  obtain ⟨pre, c, hpre, hc⟩ := h
  exact ⟨pre, c, hpre.trans (List.prefix_append as bs), hc⟩

theorem wasRow_now (hrun : Trace.exec (clockedStep settings codec caller_id) start as = some c) :
    WasRow settings codec caller_id start as c.row c.now :=
  ⟨as, c, List.prefix_rfl, hrun, rfl, rfl⟩

/-- What the clock notes beside a step of a caller. -/
structure Noted (settings : CacheTtls) (i : ι) (a : Event) (c d : Clocked ι) : Prop where
  now : d.now = c.now
  others : ∀ j, j ≠ i → d.readAt j = c.readAt j
  read : ∀ r, a = .select r → d.readAt i = c.now
  unread : (∀ r, a ≠ .select r) → d.readAt i = c.readAt i
  filled : ∀ dto r, c.callers.locals i = .populating dto → a = .populate r → r.took = true →
    0 < settings.lifetime dto ∧ d.expires = c.now + settings.lifetime dto
  unfilled : (∀ r, a = .populate r → r.took = false) → d.expires = c.expires

theorem after_noted {callers : Callers ι} {i : ι} {a : Event}
    (h : c.after settings callers (.proc i a) = some d) : d.callers = callers ∧ Noted settings i a c d := by
  cases a with
  | populate r =>
    simp only [Clocked.after] at h
    split at h
    · rename_i dto hdto
      cases hr : r.took with
      | true =>
        simp only [hr, if_true] at h
        split at h
        · rename_i hpos
          obtain rfl := Option.some.inj h
          refine ⟨rfl, rfl, fun _ _ => rfl, nofun, fun _ => rfl, fun dto' r' hdto' _ _ => ?_,
            fun hnot => ?_⟩
          · rw [hdto] at hdto'
            obtain rfl := Stage.populating.inj hdto'
            refine ⟨?_, rfl⟩
            unfold CacheTtls.lifetime
            omega
          · rw [hnot r rfl] at hr
            cases hr
        · cases h
      | false =>
        simp only [hr] at h
        obtain rfl := Option.some.inj h
        refine ⟨rfl, rfl, fun _ _ => rfl, nofun, fun _ => rfl, fun dto' r' _ hr' htook => ?_,
          fun _ => rfl⟩
        obtain rfl := Event.populate.inj hr'
        rw [hr] at htook
        cases htook
    · cases h
  | select r =>
    obtain rfl := Option.some.inj h
    exact ⟨rfl, rfl, fun j hj => Function.update_of_ne hj _ _, fun _ _ => Function.update_self i _ _,
      fun hnot => absurd rfl (hnot r), nofun, fun _ => rfl⟩
  | _ =>
    obtain rfl := Option.some.inj h
    exact ⟨rfl, rfl, fun _ _ => rfl, nofun, fun _ => rfl, nofun, fun _ => rfl⟩

theorem clockedStep_proc {i : ι} {a : Event}
    (h : clockedStep settings codec caller_id c (.act (.proc i a)) = some d) :
    ∃ m, CallerStep codec caller_id i c.callers.shared (c.callers.locals i) a d.callers.shared m ∧
      d.callers.locals i = m ∧ (∀ j, j ≠ i → d.callers.locals j = c.callers.locals j) ∧
      Noted settings i a c d := by
  obtain ⟨callers, hcall, hafter⟩ := Option.bind_eq_some_iff.mp h
  obtain ⟨rfl, hnoted⟩ := after_noted hafter
  obtain ⟨q, m, hcaller, rfl, hm, hframe⟩ := Trace.turn_proc hcall
  exact ⟨m, callerStep_cases hcaller, hm, hframe, hnoted⟩

/-- The item that is stored and what the callers have read were the row, the item not long ago. -/
structure DatedRun (settings : CacheTtls) (codec : Codec) (caller_id : ι → Bytes)
    (start : Clocked ι) (bound : ℕ) (as : List (ClockAct ι)) (c : Clocked ι) : Prop where
  live : c.callers.shared.item ≠ none → c.now < c.expires
  filled : ∀ raw, c.callers.shared.item = some raw → ∃ dto time, raw = codec.payload dto ∧
    codec.RoundTrips dto ∧ WasRow settings codec caller_id start as dto time ∧
    c.expires ≤ time + bound + settings.lifetime dto
  reads : ∀ i, (c.callers.locals i).Dated fun dto =>
    WasRow settings codec caller_id start as dto (c.readAt i) ∧ codec.RoundTrips dto
  row : codec.RoundTrips c.row

theorem datedRun_start {row : Option ItemDTO} (h : codec.RoundTrips row) :
    DatedRun settings codec caller_id (coldClock row : Clocked ι) bound [] (coldClock row) where
  live := fun hitem => absurd rfl hitem
  filled := nofun
  reads := fun _ => trivial
  row := h

/-- Time passes. -/
theorem DatedRun.tick {ms : ℕ} (h : DatedRun settings codec caller_id start bound as c)
    (hstep : clockedStep settings codec caller_id c (.tick ms) = some d) :
    DatedRun settings codec caller_id start bound (as ++ [.tick ms]) d := by
  obtain rfl := Option.some.inj hstep
  by_cases hexpired : c.expires ≤ c.now + ms
  · simp only [hexpired, if_true]
    exact ⟨fun hitem => absurd rfl hitem, nofun,
      fun i => (h.reads i).mono fun dto hdto => ⟨hdto.1.append _, hdto.2⟩, h.row⟩
  · simp only [hexpired, if_false]
    refine ⟨fun _ => not_le.mp hexpired, fun raw hraw => ?_,
      fun i => (h.reads i).mono fun dto hdto => ⟨hdto.1.append _, hdto.2⟩, h.row⟩
    obtain ⟨dto, time, hpayload, hcodec, hwas, hexpires⟩ := h.filled raw hraw
    exact ⟨dto, time, hpayload, hcodec, hwas.append _, hexpires⟩

/-- A key expires or is evicted, or the row is written. -/
theorem DatedRun.env {e : Outside} (h : DatedRun settings codec caller_id start bound as c)
    (hrow : ∀ row, e = .setRow row → codec.RoundTrips row)
    (hstep : clockedStep settings codec caller_id c (.act (.env e)) = some d) :
    DatedRun settings codec caller_id start bound (as ++ [.act (.env e)]) d := by
  have hreads : ∀ i, (c.callers.locals i).Dated fun dto =>
      WasRow settings codec caller_id start (as ++ [.act (.env e)]) dto (c.readAt i) ∧
        codec.RoundTrips dto :=
    fun i => (h.reads i).mono fun dto hdto => ⟨hdto.1.append _, hdto.2⟩
  have hfilled : ∀ raw, c.callers.shared.item = some raw → ∃ dto time, raw = codec.payload dto ∧
      codec.RoundTrips dto ∧
      WasRow settings codec caller_id start (as ++ [.act (.env e)]) dto time ∧
      c.expires ≤ time + bound + settings.lifetime dto := by
    intro raw hraw
    obtain ⟨dto, time, hpayload, hcodec, hwas, hexpires⟩ := h.filled raw hraw
    exact ⟨dto, time, hpayload, hcodec, hwas.append _, hexpires⟩
  cases e with
  | expireItem =>
    obtain rfl := Option.some.inj hstep
    exact ⟨fun hitem => absurd rfl hitem, nofun, hreads, h.row⟩
  | expireLock =>
    obtain rfl := Option.some.inj hstep
    exact ⟨h.live, hfilled, hreads, h.row⟩
  | setRow row =>
    obtain rfl := Option.some.inj hstep
    exact ⟨h.live, hfilled, hreads, hrow row rfl⟩

/-- A caller moves. -/
theorem DatedRun.proc {i : ι} {a : Event} (h : DatedRun settings codec caller_id start bound as c)
    (hrun : Trace.exec (clockedStep settings codec caller_id) start as = some c)
    (hfill : FillsWithin bound c (.act (.proc i a)))
    (hstep : clockedStep settings codec caller_id c (.act (.proc i a)) = some d) :
    DatedRun settings codec caller_id start bound (as ++ [.act (.proc i a)]) d := by
  obtain ⟨m, hcaller, hm, hframe, hnoted⟩ := clockedStep_proc hstep
  have hnow := wasRow_now hrun
  refine ⟨?_, ?_, ?_, ?_⟩
  · obtain ⟨hitem, hnot⟩ | ⟨dto, r, hl, ha, htook, -⟩ := hcaller.item_eq
    · rw [hitem, hnoted.now, hnoted.unfilled hnot]
      exact h.live
    · obtain ⟨hpos, hexpires⟩ := hnoted.filled dto r hl ha htook
      intro _
      rw [hnoted.now, hexpires]
      omega
  · intro raw hraw
    obtain ⟨hitem, hnot⟩ | ⟨dto, r, hl, ha, htook, hitem⟩ := hcaller.item_eq
    · rw [hitem] at hraw
      obtain ⟨dto, time, hpayload, hcodec, hwas, hexpires⟩ := h.filled raw hraw
      exact ⟨dto, time, hpayload, hcodec, hwas.append _, by rw [hnoted.unfilled hnot]; exact hexpires⟩
    · rw [hitem] at hraw
      obtain rfl := Option.some.inj hraw
      have hread := h.reads i
      rw [hl] at hread
      obtain ⟨hwas, hcodec⟩ := hread
      subst ha
      have hbound : c.now ≤ c.readAt i + bound := hfill
      refine ⟨dto, c.readAt i, rfl, hcodec, hwas.append _, ?_⟩
      rw [(hnoted.filled dto r hl rfl htook).2]
      omega
  · intro j
    by_cases hj : j = i
    · subst hj
      rw [hm]
      refine hcaller.dated (fun hselect => ?_) fun r hr => ?_
      · rw [hnoted.unread hselect]
        exact (h.reads j).mono fun dto hdto => ⟨hdto.1.append _, hdto.2⟩
      · rw [hnoted.read r hr]
        exact ⟨hnow.append _, h.row⟩
    · rw [hframe j hj, hnoted.others j hj]
      exact (h.reads j).mono fun dto hdto => ⟨hdto.1.append _, hdto.2⟩
  · have hrow := h.row
    rw [Clocked.row, ← hcaller.row_eq] at hrow
    exact hrow

theorem datedRun_exec {row : Option ItemDTO} (hcodec : codec.RoundTrips row)
    (hrows : ∀ row, .act (.env (.setRow row)) ∈ as → codec.RoundTrips row)
    (hfill : Trace.Along (clockedStep settings codec caller_id) (FillsWithin bound) (coldClock row) as)
    (hrun : Trace.exec (clockedStep settings codec caller_id) (coldClock row) as = some c) :
    DatedRun settings codec caller_id (coldClock row) bound as c := by
  refine Trace.exec_concat_induction (I := fun as c =>
    (∀ row, .act (.env (.setRow row)) ∈ as → codec.RoundTrips row) →
    Trace.Along (clockedStep settings codec caller_id) (FillsWithin bound) (coldClock row) as →
      DatedRun settings codec caller_id (coldClock row) bound as c)
    (fun _ _ => datedRun_start hcodec) ?_ hrun hrows hfill
  intro as t a u hpre ih hstep hrows hfill
  obtain ⟨halong, hlast⟩ := (Trace.along_append hpre).mp hfill
  have hdated := ih (fun row hrow => hrows row (List.mem_append_left _ hrow)) halong
  cases a with
  | tick ms => exact hdated.tick hstep
  | act a =>
    cases a with
    | env e => exact hdated.env (fun row hrow => hrows row (by simp [hrow])) hstep
    | proc i a => exact hdated.proc hpre hlast.head hstep

/-- **Bounded staleness.** In every run in which the row may change at any time, any key be lost early
and any Redis command fail, and in which a caller that fills the key does so within `bound` of its
SELECT: an answer from the cache was the row less than `bound` and the lifetime of that answer before
the read, and an answer from the database was the row when the caller's own SELECT was executed. -/
theorem staleness_bounded (settings : CacheTtls) (codec : Codec) (caller_id : ι → Bytes)
    (row : Option ItemDTO) (bound : ℕ) (as : List (ClockAct ι)) (c d : Clocked ι) (i : ι) (a : Event)
    (dto : Option ItemDTO) (source : Source) (hcodec : codec.RoundTrips row)
    (hrows : ∀ row, .act (.env (.setRow row)) ∈ as → codec.RoundTrips row)
    (hrun : Trace.exec (clockedStep settings codec caller_id) (coldClock row) as = some c)
    (hfill : Trace.Along (clockedStep settings codec caller_id) (FillsWithin bound) (coldClock row) as)
    (hstep : clockedStep settings codec caller_id c (.act (.proc i a)) = some d)
    (hdone : d.callers.locals i = .done dto source) :
    match source with
    | .cache => ∃ time, WasRow settings codec caller_id (coldClock row) as dto time ∧
        c.now < time + bound + settings.lifetime dto
    | .db => WasRow settings codec caller_id (coldClock row) as dto (d.readAt i) := by
  have hdated := datedRun_exec hcodec hrows hfill hrun
  obtain ⟨m, hcaller, hm, -, hnoted⟩ := clockedStep_proc hstep
  rw [hm] at hdone
  cases source with
  | cache =>
    obtain ⟨raw, hraw, hpresent⟩ := hcaller.of_cache hdone
    obtain ⟨dto', time, rfl, hcodec', hwas, hexpires⟩ := hdated.filled raw hraw
    rw [present_payload hcodec'] at hpresent
    obtain ⟨rfl, -⟩ := Stage.done.inj hpresent
    have hlive := hdated.live (by rw [hraw]; exact Option.some_ne_none _)
    exact ⟨time, hwas, by omega⟩
  | db =>
    have hread : m.Dated fun dto =>
        WasRow settings codec caller_id (coldClock row) as dto (d.readAt i) := by
      refine hcaller.dated (fun hselect => ?_) fun r hr => ?_
      · rw [hnoted.unread hselect]
        exact (hdated.reads i).mono fun dto hdto => hdto.1
      · rw [hnoted.read r hr]
        exact wasRow_now hrun
    rw [hdone] at hread
    exact hread

end Runs

/-! ## An item that is deleted -/

/-- The first caller fills the key at time 5, the item is deleted at time 10, and the second caller reads
the key at time 599999. -/
def deletedWhileCached : List (ClockAct Trace.Two) :=
  [.act (.proc .first (.get .ok)), .act (.proc .first (.setLock .ok)),
    .act (.proc .first (.select (.ok ()))), .tick 5, .act (.proc .first (.populate .ok)),
    .act (.proc .first (.release .ok)), .tick 5, .act (.env (.setRow none)), .tick 599989]

theorem staleness_bounded_deleted : ∃ c d : Clocked Trace.Two,
    Trace.exec (clockedStep defaultCacheTtls shoeCodec callerId) (coldClock (some shoe))
      deletedWhileCached = some c ∧
    clockedStep defaultCacheTtls shoeCodec callerId c (.act (.proc .second (.get .ok))) = some d ∧
    c.row = none ∧ d.callers.locals .second = .done (some shoe) .cache ∧
    ∃ time, WasRow defaultCacheTtls shoeCodec callerId (coldClock (some shoe)) deletedWhileCached
      (some shoe) time ∧ c.now < time + 5 + 600000 := by
  obtain ⟨c, d, hc, hd, hrow, hdone⟩ : ∃ c d : Clocked Trace.Two,
      Trace.exec (clockedStep defaultCacheTtls shoeCodec callerId) (coldClock (some shoe))
        deletedWhileCached = some c ∧
      clockedStep defaultCacheTtls shoeCodec callerId c (.act (.proc .second (.get .ok))) = some d ∧
      c.row = none ∧ d.callers.locals .second = present shoeCodec shoeJson :=
    ⟨_, _, rfl, rfl, rfl, rfl⟩
  rw [present_shoe] at hdone
  have hcodec : shoeCodec.RoundTrips (some shoe) := ⟨by simp [shoeCodec], shoeJson_ne_null⟩
  refine ⟨c, d, hc, hd, hrow, hdone, ?_⟩
  refine staleness_bounded defaultCacheTtls shoeCodec callerId (some shoe) 5 deletedWhileCached c d
    .second (.get .ok) (some shoe) .cache hcodec (fun row hrow => ?_) hc ?_ hd hdone
  · obtain rfl : row = none := by simpa [deletedWhileCached] using hrow
    trivial
  · decide

end ClickRec.Cache
