import ClickRec.Cache.Stampede

/-! # A cached read is a database read

As long as the row does not change, the item key holds the encoding of the row or nothing, whatever
fails or expires. So every caller returns the row; only its own SELECT can make it raise. -/
namespace ClickRec.Cache
set_option autoImplicit false
open Kafka (Bytes)

/-! ## What the key and a caller hold -/

section Holds
variable {ι : Type} {codec : Codec} {caller_id : ι → Bytes} {i : ι} {s t : Store ι} {l m : Stage}
  {row : Option ItemDTO}

/-- The key is absent or holds this row. -/
structure Store.Holds (codec : Codec) (row : Option ItemDTO) (s : Store ι) : Prop where
  row_eq : s.row = row
  item : s.item = none ∨ s.item = some (codec.payload row)

/-- The encoding of this row is read back as the row. -/
def Codec.RoundTrips (codec : Codec) : Option ItemDTO → Prop
  | none => True
  | some dto => codec.validateJson (codec.serializeItem dto) = .ok dto ∧
      codec.serializeItem dto ≠ nullSentinel

/-- What the caller has read is the row, and it raises what its SELECT raised. -/
def Stage.Faithful (row : Option ItemDTO) (selectRaised : PyError → Prop) : Stage → Prop
  | populating dto => dto = row
  | releasing (.ok dto) => dto = row
  | releasing (.error e) => selectRaised e
  | done dto _ => dto = row
  | raised e => selectRaised e
  | _ => True

theorem present_payload (hcodec : codec.RoundTrips row) :
    present codec (codec.payload row) = .done row .cache := by
  cases row with
  | none => rfl
  | some dto =>
    obtain ⟨hvalidate, hnull⟩ := hcodec
    simp only [present, Codec.deserializeItem, Codec.payload, if_neg hnull, hvalidate, Except.map]

theorem Store.Holds.present (h : s.Holds codec row) (hcodec : codec.RoundTrips row) {raw : Bytes}
    (hraw : s.item = some raw) : present codec raw = .done row .cache := by
  obtain hnone | hpayload := h.item
  · rw [hnone] at hraw
    cases hraw
  · rw [hpayload] at hraw
    rw [← Option.some.inj hraw]
    exact present_payload hcodec

theorem faithful_returned {selectRaised : PyError → Prop} {result : Except PyError (Option ItemDTO)}
    (h : (Stage.releasing result).Faithful row selectRaised) :
    (returned result).Faithful row selectRaised := by
  cases result with
  | ok dto => exact h
  | error e => exact h

theorem Store.Holds.releaseLock (h : s.Holds codec row) : (s.releaseLock (caller_id i)).Holds codec row :=
  ⟨h.row_eq, h.item⟩

/-- A step of a caller keeps the key to the row and the caller to what it has read. -/
theorem CallerStep.faithful {a : Event} {selectRaised : PyError → Prop}
    (h : CallerStep codec caller_id i s l a t m) (hcodec : codec.RoundTrips row)
    (hs : s.Holds codec row) (hl : l.Faithful row selectRaised)
    (hselect : ∀ e, a = .select (.error e) → selectRaised e) :
    t.Holds codec row ∧ m.Faithful row selectRaised := by
  cases h with
  | hit hitem =>
    rw [hs.present hcodec hitem]
    exact ⟨hs, rfl⟩
  | miss hitem => exact ⟨hs, trivial⟩
  | getFailed => exact ⟨hs, trivial⟩
  | acquire hlock => exact ⟨⟨hs.row_eq, hs.item⟩, trivial⟩
  | wait hlock => exact ⟨hs, trivial⟩
  | @setLockFailed took =>
    cases took with
    | true => exact ⟨⟨hs.row_eq, hs.item⟩, trivial⟩
    | false => exact ⟨hs, trivial⟩
  | pollHit hitem =>
    rw [hs.present hcodec hitem]
    exact ⟨hs, rfl⟩
  | pollMiss hitem => exact ⟨hs, trivial⟩
  | pollFailed => exact ⟨hs, trivial⟩
  | timeout => exact ⟨hs, trivial⟩
  | fallback => exact ⟨⟨hs.row_eq, hs.item⟩, hs.row_eq⟩
  | fallbackFailed => exact ⟨hs, hselect _ rfl⟩
  | fill => exact ⟨⟨hs.row_eq, hs.item⟩, hs.row_eq⟩
  | fillFailed => exact ⟨hs, hselect _ rfl⟩
  | populate =>
    obtain rfl : _ = row := hl
    exact ⟨⟨hs.row_eq, .inr rfl⟩, rfl⟩
  | @populateFailed dto took =>
    obtain rfl : dto = row := hl
    cases took with
    | true => exact ⟨⟨hs.row_eq, .inr rfl⟩, rfl⟩
    | false => exact ⟨hs, rfl⟩
  | release => exact ⟨hs.releaseLock, faithful_returned hl⟩
  | @releaseFailed result took =>
    cases took with
    | true => exact ⟨hs.releaseLock, faithful_returned hl⟩
    | false => exact ⟨hs, faithful_returned hl⟩

end Holds

/-! ## How long a caller takes -/

section Progress
variable {ι : Type} {codec : Codec} {caller_id : ι → Bytes} {i : ι} {s t : Store ι} {l m : Stage}

/-- How many commands a caller still sends at most, besides its polls. -/
def Stage.remaining : Stage → ℕ
  | start => 5
  | missed => 4
  | waiting => 2
  | fallback => 1
  | filling => 3
  | populating _ => 2
  | releasing _ => 1
  | done _ _ => 0
  | raised _ => 0

/-- Only the polls of `_wait_for_filler` are repeated; its deadline ends them. -/
def Event.polls : Event → Bool
  | poll _ => true
  | _ => false

/-- The command a caller sends next, if Redis answers it like this and Postgres is healthy. -/
def Stage.next (r : Reply) : Stage → Option Event
  | start => some (.get r)
  | missed => some (.setLock r)
  | waiting => some (.poll r)
  | fallback => some (.select (.ok ()))
  | filling => some (.select (.ok ()))
  | populating _ => some (.populate r)
  | releasing _ => some (.release r)
  | done _ _ => none
  | raised _ => none

theorem remaining_present (raw : Bytes) : (present codec raw).remaining = 0 := by
  unfold present
  split <;> rfl

theorem remaining_returned (result : Except PyError (Option ItemDTO)) :
    (returned result).remaining = 0 := by
  cases result <;> rfl

theorem CallerStep.remaining {a : Event} (h : CallerStep codec caller_id i s l a t m) :
    m.remaining + (if a.polls then 0 else 1) ≤ l.remaining := by
  cases h with
  | hit hitem =>
    rw [remaining_present]
    simp [Stage.remaining, Event.polls]
  | pollHit hitem =>
    rw [remaining_present]
    simp [Stage.remaining, Event.polls]
  | release =>
    rw [remaining_returned]
    simp [Stage.remaining, Event.polls]
  | releaseFailed =>
    rw [remaining_returned]
    simp [Stage.remaining, Event.polls]
  | _ => simp [Stage.remaining, Event.polls]

/-- Whatever Redis answers, a caller that has not returned goes on. -/
theorem callerStep_next (codec : Codec) (caller_id : ι → Bytes) (i : ι) (s : Store ι) (r : Reply)
    {a : Event} (h : l.next r = some a) :
    (callerStep codec caller_id i s l a).isSome := by
  cases l with
  | start =>
    obtain rfl := Option.some.inj h
    cases r with
    | ok =>
      simp only [callerStep]
      split <;> rfl
    | error took => rfl
  | missed =>
    obtain rfl := Option.some.inj h
    cases r with
    | ok =>
      simp only [callerStep]
      split <;> rfl
    | error took => rfl
  | waiting =>
    obtain rfl := Option.some.inj h
    cases r with
    | ok =>
      simp only [callerStep]
      split <;> rfl
    | error took => rfl
  | fallback =>
    obtain rfl := Option.some.inj h
    rfl
  | filling =>
    obtain rfl := Option.some.inj h
    rfl
  | populating dto =>
    obtain rfl := Option.some.inj h
    cases r <;> rfl
  | releasing result =>
    obtain rfl := Option.some.inj h
    cases r <;> rfl
  | done dto source => cases h
  | raised e => cases h

theorem next_eq_none {r : Reply} (h : l.next r = none) :
    (∃ dto source, l = .done dto source) ∨ ∃ e, l = .raised e := by
  cases l with
  | done dto source => exact .inl ⟨dto, source, rfl⟩
  | raised e => exact .inr ⟨e, rfl⟩
  | _ => cases h

end Progress

/-! ## Runs of concurrent callers -/

section Runs
variable {ι : Type} [DecidableEq ι] {codec : Codec} {caller_id : ι → Bytes} {c d : Callers ι}
  {row : Option ItemDTO}

/-- The commands of one caller besides its polls. -/
def commandOf (i : ι) : CallerAct ι → Bool
  | .proc j a => j = i ∧ a.polls = false
  | .env _ => false

structure FaithfulReads (codec : Codec) (row : Option ItemDTO) (selectRaised : ι → PyError → Prop)
    (c : Callers ι) : Prop where
  holds : c.shared.Holds codec row
  faithful : ∀ i, (c.locals i).Faithful row (selectRaised i)

theorem faithfulReads_step {a : CallerAct ι} {selectRaised : ι → PyError → Prop}
    (h : FaithfulReads codec row selectRaised c) (hcodec : codec.RoundTrips row)
    (hrow : ∀ r, a = .env (.setRow r) → r = row)
    (hselect : ∀ i e, a = .proc i (.select (.error e)) → selectRaised i e)
    (hstep : callersStep codec caller_id c a = some d) : FaithfulReads codec row selectRaised d := by
  cases a with
  | env e =>
    obtain ⟨hout, hlocals⟩ := Trace.turn_env hstep
    refine ⟨?_, hlocals ▸ h.faithful⟩
    cases e with
    | expireItem =>
      rw [← Option.some.inj hout]
      exact ⟨h.holds.row_eq, .inl rfl⟩
    | expireLock =>
      rw [← Option.some.inj hout]
      exact ⟨h.holds.row_eq, h.holds.item⟩
    | setRow r =>
      rw [← Option.some.inj hout]
      exact ⟨hrow r rfl, h.holds.item⟩
  | proc i a =>
    obtain ⟨q, m, hcaller, hq, hm, hframe⟩ := Trace.turn_proc hstep
    obtain ⟨hholds, hfaithful⟩ := (callerStep_cases hcaller).faithful hcodec h.holds (h.faithful i)
      fun e he => hselect i e (by rw [he])
    exact ⟨hq ▸ hholds, Trace.forall_locals (P := fun j l => l.Faithful row (selectRaised j)) hm hframe
      hfaithful h.faithful⟩

theorem remaining_exec {as : List (CallerAct ι)}
    (hrun : Trace.exec (callersStep codec caller_id) c as = some d) (i : ι) :
    (d.locals i).remaining + as.countP (commandOf i) ≤ (c.locals i).remaining := by
  induction as generalizing c with
  | nil =>
    obtain rfl : c = d := by simpa using hrun
    simp
  | cons a as ih =>
    obtain ⟨e, hstep, hrest⟩ := Trace.exec_cons.mp hrun
    have hrest := ih hrest
    rw [List.countP_cons]
    cases a with
    | env a =>
      obtain ⟨-, hlocals⟩ := Trace.turn_env hstep
      rw [hlocals] at hrest
      simpa [commandOf] using hrest
    | proc j a =>
      obtain ⟨q, m, hcaller, -, hm, hframe⟩ := Trace.turn_proc hstep
      by_cases hj : j = i
      · subst hj
        have hone := (callerStep_cases hcaller).remaining
        rw [hm] at hrest
        cases hpolls : a.polls <;> simp [commandOf, hpolls] at hone ⊢ <;> omega
      · rw [hframe i (Ne.symm hj)] at hrest
        simpa [commandOf, hj] using hrest

/-- **A cached read is a database read.** In every run on an unchanged row, from a key that is
absent or holds the row: the key stays so, every caller that returns returns the row, and one that
raises raises what its own SELECT raised. Nothing keeps a caller from returning: it sends at most
five commands besides its polls, and one that has not ended can go on whatever Redis answers. -/
theorem cached_read_faithful (codec : Codec) (caller_id : ι → Bytes) (s : Store ι)
    (hcodec : codec.RoundTrips s.row) (hitem : s.item = none ∨ s.item = some (codec.payload s.row))
    (as : List (CallerAct ι)) (hrow : ∀ row, .env (.setRow row) ∈ as → row = s.row) (c : Callers ι)
    (hrun : Trace.exec (callersStep codec caller_id) ⟨s, fun _ => .start⟩ as = some c) :
    (c.shared.item = none ∨ c.shared.item = some (codec.payload s.row)) ∧
    (∀ i dto source, c.locals i = .done dto source → dto = s.row) ∧
    (∀ i e, c.locals i = .raised e → .proc i (.select (.error e)) ∈ as) ∧
    (∀ i, as.countP (commandOf i) ≤ 5) ∧
    ∀ i r, (∃ source, c.locals i = .done s.row source) ∨ (∃ e, c.locals i = .raised e) ∨
      ∃ a d, (c.locals i).next r = some a ∧ callersStep codec caller_id c (.proc i a) = some d := by
  have hreads : FaithfulReads codec s.row (fun i e => .proc i (.select (.error e)) ∈ as) c := by
    refine Trace.exec_invariant (C := fun _ a => a ∈ as) (fun _ a _ hI ha hstep => ?_)
      (Trace.along_of_mem fun a ha => ha) hrun ⟨⟨rfl, hitem⟩, fun _ => trivial⟩
    exact faithfulReads_step hI hcodec (fun r hr => hrow r (hr ▸ ha)) (fun i e he => he ▸ ha) hstep
  have hdone : ∀ i dto source, c.locals i = .done dto source → dto = s.row := by
    intro i dto source hi
    have hfaithful := hreads.faithful i
    rw [hi] at hfaithful
    exact hfaithful
  refine ⟨hreads.holds.item, hdone, ?_, ?_, ?_⟩
  · intro i e hi
    have hfaithful := hreads.faithful i
    rw [hi] at hfaithful
    exact hfaithful
  · intro i
    have hremaining := remaining_exec hrun i
    have hstart : (Stage.start).remaining = 5 := rfl
    simp only [hstart] at hremaining
    omega
  · intro i r
    cases hnext : (c.locals i).next r with
    | none =>
      obtain ⟨dto, source, hi⟩ | hraised := next_eq_none hnext
      · exact .inl ⟨source, by rw [hi, hdone i dto source hi]⟩
      · exact .inr (.inl hraised)
    | some a =>
      obtain ⟨⟨q, m⟩, hq⟩ := Option.isSome_iff_exists.mp
        (callerStep_next codec caller_id i c.shared r hnext)
      exact .inr (.inr ⟨a, ⟨q, Function.update c.locals i m⟩, rfl, by
        rw [callersStep, Trace.turn, hq]
        rfl⟩)

end Runs

/-! ## A caller that waits while Redis fails -/

/-- The second caller polls until its poll fails and reads the row itself; the write of the first
fails after having taken effect, and the key expires. -/
def failingRedis : List (CallerAct Trace.Two) :=
  [.proc .first (.get .ok), .proc .second (.get .ok), .proc .first (.setLock .ok),
    .proc .second (.setLock .ok), .proc .second (.poll .ok), .proc .first (.select (.ok ())),
    .proc .first (.populate (.error true)), .proc .second (.poll (.error false)),
    .proc .first (.release (.error false)), .env .expireItem, .proc .second (.select (.ok ()))]

theorem cached_read_faithful_shoe : ∃ c,
    Trace.exec (callersStep shoeCodec callerId) (cold (some shoe)) failingRedis = some c ∧
      ∀ i, ∃ source, c.locals i = .done (some shoe) source := by
  obtain ⟨c, hc, h0, h1⟩ : ∃ c,
      Trace.exec (callersStep shoeCodec callerId) (cold (some shoe)) failingRedis = some c ∧
        (∃ dto, c.locals .first = .done dto .db) ∧ ∃ dto, c.locals .second = .done dto .db :=
    ⟨_, rfl, ⟨_, rfl⟩, ⟨_, rfl⟩⟩
  have hcodec : shoeCodec.RoundTrips (some shoe) := by
    refine ⟨?_, shoeJson_ne_null⟩
    simp [shoeCodec]
  have hdone := (cached_read_faithful shoeCodec callerId ⟨none, none, some shoe, []⟩ hcodec (.inl rfl)
    failingRedis (by simp [failingRedis]) c hc).2.1
  refine ⟨c, hc, fun i => ?_⟩
  cases i with
  | first =>
    obtain ⟨dto, h0⟩ := h0
    exact ⟨.db, by rw [h0, hdone _ _ _ h0]⟩
  | second =>
    obtain ⟨dto, h1⟩ := h1
    exact ⟨.db, by rw [h1, hdone _ _ _ h1]⟩

end ClickRec.Cache
