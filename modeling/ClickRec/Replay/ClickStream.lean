import ClickRec.Lib.SendLoop
import ClickRec.Replay.Segments

/-! # The stream a run sends

The checks of the loops cut the stream of all draws off at `num_events`, and nothing else: a run sends
the first events of it, and its log has the lines of the clicks among them. -/
namespace ClickRec.Replay
set_option autoImplicit false
open SendLoop (sendAll sendAll_append sendAll_of_limit sendAll_cases)

/-! ## The events of the draws -/

section Stream
variable (cat : Catalogue) (pinned_brand : String → Option String)

/-- The impression of a query. -/
def shown (draw : QueryDraw) : List Candidate :=
  weightedTopK (cat.query draw).2 draw.choice IMPRESSION_TOP_K

/-- All events of a query, with no limit. -/
def queryEvents (user : String × String) (session_id : String) (draw : QueryDraw) : List Event :=
  if (cat.query draw).2 = [] then []
  else
    let visit := visitOf cat user session_id draw
    .search draw.search_id visit ::
      .impression draw.impression_id visit ((shown cat draw).map (·.id)) ::
        (clicksOf pinned_brand user (shown cat draw) draw).map fun x =>
          clickEvent visit (shown cat draw) x.1 x.2

def sessionEvents (draw : SessionDraw) : List Event :=
  draw.queries.flatMap (queryEvents cat pinned_brand (cat.user draw) draw.session_id)

/-- The events of `fuel` sessions from number `n` on. -/
def streamFrom (draws : ℕ → SessionDraw) : ℕ → ℕ → List Event
  | 0, _ => []
  | fuel + 1, n => sessionEvents cat pinned_brand (draws n) ++ streamFrom draws fuel (n + 1)

end Stream

/-! ## The log -/

def isClick : Event → Bool
  | .click .. => true
  | _ => false

def clickLines (dumps : Json → String) (sent : List Event) : List String :=
  (sent.filter isClick).map fun e => dumps (.obj e.dict) ++ "\n"

/-- The lines of the clicks are appended, and all that was sent is counted. -/
structure Written (dumps : Json → String) (eval_log : Option (List String)) (p : Progress) : Prop where
  emitted : p.emitted = p.sent.length
  log : p.log = eval_log.map (· ++ clickLines dumps p.sent)

/-- What a loop does after one send. -/
def record (dumps : Json → String) (e : Event) (p : Progress) : Progress :=
  count (if isClick e then write dumps e p else p)

theorem Written.record {dumps : Json → String} {eval_log : Option (List String)} {p : Progress}
    (h : Written dumps eval_log p) (e : Event) :
    Written dumps eval_log (record dumps e { p with sent := p.sent ++ [e] }) := by
  have hlines : clickLines dumps (p.sent ++ [e]) =
      clickLines dumps p.sent ++ if isClick e then [dumps (.obj e.dict) ++ "\n"] else [] := by
    rw [clickLines, List.filter_append, List.filter_singleton, List.map_append, ← clickLines]
    cases isClick e with
    | false => rfl
    | true => rfl
  unfold Replay.record
  cases hclick : isClick e with
  | false =>
    refine ⟨?_, ?_⟩
    · simp [count, h.emitted]
    · simp [count, hlines, hclick, h.log]
  | true =>
    refine ⟨?_, ?_⟩
    · simp [count, write, h.emitted]
    · simp [count, write, hlines, hclick, h.log, Function.comp_def]

/-! ## Loops that follow the plain one -/

/-- The outcome has the same error and the same events sent, and a progress that meets `B`. -/
def Follows (B : Progress → Prop) : Outcome → Except (PyError × List Event) (List Event) → Prop
  | .ok p, .ok sent => B p ∧ p.sent = sent
  | .error (e, p), .error (e', sent) => e = e' ∧ B p ∧ p.sent = sent
  | _, _ => False

theorem Follows.bind {B : Progress → Prop} {r : Outcome}
    {a : Except (PyError × List Event) (List Event)} (h : Follows B r a) {f : Progress → Outcome}
    {g : List Event → Except (PyError × List Event) (List Event)}
    (hf : ∀ p, B p → Follows B (f p) (g p.sent)) : Follows B (r >>= f) (a.bind g) := by
  cases r with
  | ok p =>
    cases a with
    | ok sent =>
      obtain ⟨hB, rfl⟩ := h
      exact hf p hB
    | error x => exact h.elim
  | error x =>
    cases a with
    | ok sent => exact h.elim
    | error y => exact h

section Follow
variable {dumps : Json → String} {broker : ℕ → Option PyError} {cat : Catalogue}
  {pinned_brand : String → Option String} {num_events : ℤ} {eval_log : Option (List String)} {l : ℕ}
  {user : String × String} {session_id : String} {p : Progress}

/-- Inside a session nothing is flushed. -/
structure InSession (dumps : Json → String) (eval_log : Option (List String)) (l : ℕ) (p : Progress) :
    Prop extends Written dumps eval_log p where
  last_log : p.last_log = l

theorem InSession.record (h : InSession dumps eval_log l p) (e : Event) :
    InSession dumps eval_log l (record dumps e { p with sent := p.sent ++ [e] }) := by
  refine ⟨h.toWritten.record e, ?_⟩
  unfold Replay.record
  cases isClick e with
  | false => exact h.last_log
  | true => exact h.last_log

theorem reached_iff (h : Written dumps eval_log p) :
    num_events ≤ p.emitted ↔ num_events.toNat ≤ p.sent.length := by
  rw [h.emitted, Int.toNat_le]

/-- A check at the head of what is left to send. -/
theorem follows_check {r : Outcome} {es : List Event} (hp : InSession dumps eval_log l p)
    (hr : ¬ num_events ≤ p.emitted →
      Follows (InSession dumps eval_log l) r (sendAll broker num_events.toNat es p.sent)) :
    Follows (InSession dumps eval_log l) (if num_events ≤ p.emitted then .ok p else r)
      (sendAll broker num_events.toNat es p.sent) := by
  by_cases h : num_events ≤ p.emitted
  · rw [if_pos h, sendAll_of_limit ((reached_iff hp.toWritten).mp h)]
    exact ⟨hp, rfl⟩
  · rw [if_neg h]
    exact hr h

/-- One send, and the loop over what is left after it. -/
theorem follows_send {e : Event} {es : List Event} {f : Progress → Outcome}
    (hp : InSession dumps eval_log l p) (hroom : ¬ num_events ≤ p.emitted)
    (hf : ∀ q, InSession dumps eval_log l (record dumps e q) →
      Follows (InSession dumps eval_log l) (f q)
        (sendAll broker num_events.toNat es (record dumps e q).sent)) :
    Follows (InSession dumps eval_log l) (send broker e p >>= f)
      (sendAll broker num_events.toNat (e :: es) p.sent) := by
  have hlimit : ¬ num_events.toNat ≤ p.sent.length := fun h => hroom ((reached_iff hp.toWritten).mpr h)
  rw [sendAll, if_neg hlimit, send]
  cases broker p.sent.length with
  | some err => exact ⟨rfl, hp, rfl⟩
  | none =>
    have hsent : (record dumps e { p with sent := p.sent ++ [e] }).sent = p.sent ++ [e] := by
      unfold record
      cases isClick e with
      | false => rfl
      | true => rfl
    have hrest := hf _ (hp.record e)
    rwa [hsent] at hrest

theorem emitClicks_follows (visit : Visit) (top_k : List Candidate)
    (clicks : List (Candidate × ClickDraw)) (hp : InSession dumps eval_log l p) :
    Follows (InSession dumps eval_log l) (emitClicks dumps broker num_events visit top_k clicks p)
      (sendAll broker num_events.toNat
        (clicks.map fun x => clickEvent visit top_k x.1 x.2) p.sent) := by
  induction clicks generalizing p with
  | nil => exact ⟨hp, rfl⟩
  | cons x clicks ih =>
    rw [List.map_cons, emitClicks]
    refine follows_check hp fun hroom => ?_
    exact follows_send hp hroom fun q hq => ih hq

theorem runQuery_follows (draw : QueryDraw) (hp : InSession dumps eval_log l p)
    (hroom : ¬ num_events ≤ p.emitted) :
    Follows (InSession dumps eval_log l)
      (runQuery dumps broker cat pinned_brand num_events user session_id draw p)
      (sendAll broker num_events.toNat (queryEvents cat pinned_brand user session_id draw) p.sent) := by
  unfold runQuery queryEvents
  by_cases hcands : (cat.query draw).2 = []
  · simp only [if_pos hcands]
    exact ⟨hp, rfl⟩
  · simp only [if_neg hcands]
    refine follows_send hp hroom fun q hq => follows_check hq fun hroom => ?_
    exact follows_send hq hroom fun q hq => emitClicks_follows _ _ _ hq

theorem runQueries_follows (draws : List QueryDraw) (hp : InSession dumps eval_log l p) :
    Follows (InSession dumps eval_log l)
      (runQueries dumps broker cat pinned_brand num_events user session_id draws p)
      (sendAll broker num_events.toNat
        (draws.flatMap (queryEvents cat pinned_brand user session_id)) p.sent) := by
  induction draws generalizing p with
  | nil => exact ⟨hp, rfl⟩
  | cons draw draws ih =>
    rw [List.flatMap_cons, runQueries]
    refine follows_check hp fun hroom => ?_
    rw [sendAll_append]
    exact (runQuery_follows draw hp hroom).bind fun q hq => ih hq

end Follow

/-! ## Sessions -/

theorem length_pickClicksForSegment (segment : String) (impression : List Candidate)
    (pinned_brand : Option String) (num_clicks : ℕ) (shuffle : ∀ size, Indices size size) :
    (pickClicksForSegment segment impression pinned_brand num_clicks shuffle).length ≤ num_clicks := by
  unfold pickClicksForSegment
  split
  · exact Nat.zero_le _
  · rw [List.length_take]
    omega

theorem length_clicksOf (pinned_brand : String → Option String) (user : String × String)
    (top_k : List Candidate) (draw : QueryDraw) :
    (clicksOf pinned_brand user top_k draw).length ≤ 3 := by
  rw [clicksOf, List.length_map, List.length_zipIdx]
  exact (length_pickClicksForSegment _ _ _ _ _).trans (Nat.le_of_lt_succ draw.num_clicks.isLt)

section Sessions
variable {dumps : Json → String} {broker : ℕ → Option PyError} {cat : Catalogue}
  {pinned_brand : String → Option String} {num_events : ℤ} {eval_log : Option (List String)}
  {draws : ℕ → SessionDraw} {p : Progress}

theorem length_queryEvents (user : String × String) (session_id : String) (draw : QueryDraw) :
    (queryEvents cat pinned_brand user session_id draw).length ≤ 5 := by
  unfold queryEvents
  split
  · exact Nat.zero_le _
  · have hclicks := length_clicksOf pinned_brand user (shown cat draw) draw
    rw [List.length_cons, List.length_cons, List.length_map]
    omega

theorem length_sessionEvents (draw : SessionDraw) :
    (sessionEvents cat pinned_brand draw).length ≤ 15 := by
  have hsum : ∀ qs : List QueryDraw,
      (qs.flatMap (queryEvents cat pinned_brand (cat.user draw) draw.session_id)).length ≤
        qs.length * 5 := by
    intro qs
    induction qs with
    | nil => exact Nat.zero_le _
    | cons q qs ih =>
      have hq : (queryEvents cat pinned_brand (cat.user draw) draw.session_id q).length ≤ 5 :=
        length_queryEvents (cat.user draw) draw.session_id q
      rw [List.flatMap_cons, List.length_append, List.length_cons]
      omega
  have := hsum draw.queries
  have := draw.queries_length
  unfold sessionEvents
  omega

/-- What the producer may hold that was not flushed: less than `SEND_FLUSH_EVERY` events before a
session, and those of the session. -/
structure Kept (dumps : Json → String) (eval_log : Option (List String)) (p : Progress) : Prop
    extends Written dumps eval_log p where
  unflushed : p.emitted < p.last_log + SEND_FLUSH_EVERY + 15

/-- Between two sessions. -/
structure Flushed (dumps : Json → String) (eval_log : Option (List String)) (p : Progress) : Prop
    extends Written dumps eval_log p where
  unflushed : p.emitted < p.last_log + SEND_FLUSH_EVERY

theorem Flushed.kept (h : Flushed dumps eval_log p) : Kept dumps eval_log p :=
  ⟨h.toWritten, by have := h.unflushed; omega⟩

theorem InSession.kept {q : Progress} (h : InSession dumps eval_log p.last_log q)
    (hp : Flushed dumps eval_log p) (hlength : q.sent.length ≤ p.sent.length + 15) :
    Kept dumps eval_log q := by
  refine ⟨h.toWritten, ?_⟩
  have := hp.unflushed
  rw [hp.emitted] at this
  rw [h.emitted, h.last_log]
  omega

theorem InSession.flush {l : ℕ} (h : InSession dumps eval_log l p) : Flushed dumps eval_log (flush p) := by
  unfold Replay.flush
  split
  · exact ⟨⟨h.emitted, h.log⟩, Nat.lt_add_of_pos_right (by decide)⟩
  · exact ⟨h.toWritten, by omega⟩

theorem sent_flush (p : Progress) : (flush p).sent = p.sent := by
  unfold flush
  split
  · rfl
  · rfl

variable (broker cat pinned_brand num_events) in
/-- A session as the plain loop over its events. -/
theorem runSession_cases (draw : SessionDraw) (hp : Flushed dumps eval_log p) :
    (∃ q, runSession dumps broker cat pinned_brand num_events draw p = .ok q ∧
      Flushed dumps eval_log q ∧
      sendAll broker num_events.toNat (sessionEvents cat pinned_brand draw) p.sent = .ok q.sent) ∨
    ∃ e q, runSession dumps broker cat pinned_brand num_events draw p = .error (e, q) ∧
      Kept dumps eval_log q ∧
      sendAll broker num_events.toNat (sessionEvents cat pinned_brand draw) p.sent =
        .error (e, q.sent) := by
  have hfollows : Follows (InSession dumps eval_log p.last_log)
      (runQueries dumps broker cat pinned_brand num_events (cat.user draw) draw.session_id draw.queries p)
      (sendAll broker num_events.toNat (sessionEvents cat pinned_brand draw) p.sent) :=
    runQueries_follows draw.queries ⟨hp.toWritten, rfl⟩
  rw [runSession]
  cases hrun : runQueries dumps broker cat pinned_brand num_events (cat.user draw) draw.session_id
      draw.queries p with
  | ok q =>
    left
    rw [hrun] at hfollows
    cases hsend : sendAll broker num_events.toNat (sessionEvents cat pinned_brand draw) p.sent with
    | ok sent =>
      rw [hsend] at hfollows
      obtain ⟨hq, rfl⟩ := hfollows
      exact ⟨flush q, rfl, hq.flush, by rw [sent_flush]⟩
    | error x =>
      rw [hsend] at hfollows
      exact hfollows.elim
  | error x =>
    right
    rw [hrun] at hfollows
    cases hsend : sendAll broker num_events.toNat (sessionEvents cat pinned_brand draw) p.sent with
    | ok sent =>
      rw [hsend] at hfollows
      exact hfollows.elim
    | error y =>
      rw [hsend] at hfollows
      obtain ⟨e, q⟩ := x
      obtain ⟨e', sent⟩ := y
      obtain ⟨rfl, hq, rfl⟩ := hfollows
      refine ⟨e, q, rfl, hq.kept hp ?_, rfl⟩
      obtain ⟨-, hok⟩ | ⟨k, e', hk, -, -, -, herror⟩ := sendAll_cases broker
        num_events.toNat (sessionEvents cat pinned_brand draw) p.sent
      · rw [hok] at hsend
        cases hsend
      · rw [herror] at hsend
        have hsent : p.sent ++ (sessionEvents cat pinned_brand draw).take k = q.sent :=
          congrArg Prod.snd (Except.error.inj hsend)
        have hlength : (sessionEvents cat pinned_brand draw).length ≤ 15 := length_sessionEvents draw
        rw [← hsent, List.length_append, List.length_take]
        omega

/-- The sessions as the plain loop over the stream. -/
theorem runSessions_cases {fuel n : ℕ} {outcome : Outcome} (hp : Flushed dumps eval_log p)
    (h : runSessions dumps broker cat pinned_brand num_events draws fuel n p = some outcome) :
    (∃ q, outcome = .ok q ∧ Kept dumps eval_log q ∧ num_events ≤ q.emitted ∧
      sendAll broker num_events.toNat (streamFrom cat pinned_brand draws fuel n) p.sent =
        .ok q.sent) ∨
    ∃ e q, outcome = .error (e, q) ∧ Kept dumps eval_log q ∧
      sendAll broker num_events.toNat (streamFrom cat pinned_brand draws fuel n) p.sent =
        .error (e, q.sent) := by
  induction fuel generalizing n p with
  | zero =>
    rw [runSessions] at h
    split at h
    · rename_i hreached
      obtain rfl := Option.some.inj h
      exact .inl ⟨p, rfl, hp.kept, hreached, rfl⟩
    · cases h
  | succ fuel ih =>
    rw [runSessions] at h
    by_cases hreached : num_events ≤ p.emitted
    · rw [if_pos hreached] at h
      obtain rfl := Option.some.inj h
      exact .inl ⟨p, rfl, hp.kept, hreached, sendAll_of_limit ((reached_iff hp.toWritten).mp hreached) _⟩
    · rw [if_neg hreached] at h
      rw [streamFrom, sendAll_append]
      obtain ⟨q, hq, hflushed, hsend⟩ | ⟨e, q, hq, hkept, hsend⟩ := runSession_cases broker
        cat pinned_brand num_events (draws n) hp
      · rw [hq] at h
        rw [hsend]
        exact ih hflushed h
      · rw [hq] at h
        obtain rfl := Option.some.inj h
        rw [hsend]
        exact .inr ⟨e, q, rfl, hkept, rfl⟩

end Sessions

/-! ## What a run sends -/

/-- The outcome of a run over the stream: all of the first `num_events` events, or those before the
first send that raises. -/
def Sends (broker : ℕ → Option PyError) (num_events : ℤ) (stream : List Event) : Outcome → Prop
  | .ok p => p.sent = stream.take num_events.toNat ∧ p.sent.length = num_events.toNat ∧
      ∀ j < num_events.toNat, broker j = none
  | .error (e, p) => p.sent = stream.take p.sent.length ∧ p.sent.length < num_events.toNat ∧
      broker p.sent.length = some e ∧ ∀ j < p.sent.length, broker j = none

def progress : Outcome → Progress
  | .ok p => p
  | .error (_, p) => p

theorem flushed_start (dumps : Json → String) (eval_log : Option (List String)) :
    Flushed dumps eval_log ⟨0, [], eval_log, 0⟩ := by
  refine ⟨⟨rfl, ?_⟩, Nat.lt_add_of_pos_right (by decide)⟩
  cases eval_log with
  | none => rfl
  | some lines => simp [clickLines]

/-- **A run sends the first events of the stream**, counts and logs what it sends, and leaves little of it
unflushed. -/
theorem run_sends (dumps : Json → String) (broker : ℕ → Option PyError) (cat : Catalogue)
    (pinned_brand : String → Option String) (num_events : ℤ) (draws : ℕ → SessionDraw)
    (eval_log : Option (List String)) (fuel : ℕ) (outcome : Outcome)
    (h : run dumps broker cat pinned_brand num_events draws eval_log fuel = some outcome) :
    Sends broker num_events (streamFrom cat pinned_brand draws fuel 0) outcome ∧
      Kept dumps eval_log (progress outcome) := by
  have hloop := sendAll_cases broker num_events.toNat (streamFrom cat pinned_brand draws fuel 0) []
  simp only [List.nil_append, List.length_nil, Nat.zero_add, Nat.sub_zero] at hloop
  obtain ⟨q, rfl, hkept, hreached, hsend⟩ | ⟨e, q, rfl, hkept, hsend⟩ := runSessions_cases (flushed_start dumps eval_log) h
  · refine ⟨?_, hkept⟩
    obtain ⟨hnone, hok⟩ | ⟨k, e, -, -, -, -, herror⟩ := hloop
    · have hsent : (streamFrom cat pinned_brand draws fuel 0).take num_events.toNat = q.sent := by
        rw [hok] at hsend
        exact Except.ok.inj hsend
      have hlength : num_events.toNat ≤ q.sent.length := (reached_iff hkept.toWritten).mp hreached
      rw [← hsent, List.length_take] at hlength
      refine ⟨hsent.symm, ?_, fun j hj => hnone j (by omega) hj⟩
      rw [← hsent, List.length_take]
      omega
    · rw [herror] at hsend
      cases hsend
  · refine ⟨?_, hkept⟩
    obtain ⟨-, hok⟩ | ⟨k, e', hk, hlimit, he, hbefore, herror⟩ := hloop
    · rw [hok] at hsend
      cases hsend
    · rw [herror] at hsend
      obtain ⟨rfl, hsent⟩ := Prod.mk.inj (Except.error.inj hsend)
      have hlength : q.sent.length = k := by
        rw [← hsent, List.length_take]
        omega
      rw [Sends, hlength]
      exact ⟨hsent.symm, hlimit, he, hbefore⟩

/-- One user, one query, and a session of one query that clicks on two items. -/
def sampleCatalogue : Catalogue where
  users := [("u1", "bargain_hunter")]
  candidates := [("earbuds", sampleItems)]
  users_ne := by decide
  candidates_ne := by simp
  ids_nodup := by
    intro entry hentry
    rw [List.mem_singleton.mp hentry]
    decide

def sampleDraw : SessionDraw where
  user _ hsize := ⟨0, hsize⟩
  session_id := "s_1"
  queries := [{
    zipf := 3
    now := "2026-01-01T00:00:00+00:00"
    search_id := "e1"
    impression_id := "e2"
    choice := inOrder
    num_clicks := 2
    shuffle := fun n => inOrder n n le_rfl
    clicks := fun k => ⟨if k = 0 then "e3" else "e4", 0, 900⟩ }]
  queries_ne := by simp
  queries_length := by simp

/-- The sixth send fails: one session is sent, and the search of the second. -/
def sampleBroker (n : ℕ) : Option PyError :=
  if n = 5 then some ⟨"KafkaTimeoutError", "", ""⟩ else none

theorem run_sends_sample : ∃ outcome,
    run (fun _ => "row") sampleBroker sampleCatalogue (fun _ => none) 9 (fun _ => sampleDraw) (some []) 9 =
      some outcome ∧
    Sends sampleBroker 9 (streamFrom sampleCatalogue (fun _ => none) (fun _ => sampleDraw) 9 0) outcome ∧
      Kept (fun _ => "row") (some []) (progress outcome) :=
  ⟨_, rfl, run_sends (fun _ => "row") sampleBroker sampleCatalogue (fun _ => none) 9
    (fun _ => sampleDraw) (some []) 9 _ rfl⟩

/-! ## Runs that end -/

section Ends
variable {dumps : Json → String} {broker : ℕ → Option PyError} {cat : Catalogue}
  {pinned_brand : String → Option String} {num_events : ℤ} {eval_log : Option (List String)}
  {draws : ℕ → SessionDraw} {p : Progress}

theorem sessionEvents_ne_nil (hcands : ∀ entry ∈ cat.candidates, entry.2 ≠ []) (draw : SessionDraw) :
    sessionEvents cat pinned_brand draw ≠ [] := by
  obtain ⟨q, qs, hqs⟩ := List.exists_cons_of_ne_nil draw.queries_ne
  have hq : (cat.query q).2 ≠ [] := hcands _ (List.get_mem _ _)
  rw [sessionEvents, hqs, List.flatMap_cons, queryEvents, if_neg hq]
  exact List.cons_ne_nil _ _

/-- A session sends something while the limit is not reached. -/
theorem runSessions_ne_none (hcands : ∀ entry ∈ cat.candidates, entry.2 ≠ []) (fuel n : ℕ)
    (hp : Flushed dumps eval_log p) (hfuel : num_events.toNat ≤ p.sent.length + fuel) :
    runSessions dumps broker cat pinned_brand num_events draws fuel n p ≠ none := by
  induction fuel generalizing n p with
  | zero =>
    rw [runSessions, if_pos ((reached_iff hp.toWritten).mpr hfuel)]
    exact Option.some_ne_none _
  | succ fuel ih =>
    rw [runSessions]
    by_cases hreached : num_events ≤ p.emitted
    · rw [if_pos hreached]
      exact Option.some_ne_none _
    · rw [if_neg hreached]
      obtain ⟨q, hq, hflushed, hsend⟩ | ⟨e, q, hq, -, -⟩ := runSession_cases broker cat pinned_brand
        num_events (draws n) hp
      · rw [hq]
        refine ih (n + 1) hflushed ?_
        have hroom : ¬ num_events.toNat ≤ p.sent.length := fun h => hreached ((reached_iff hp.toWritten).mpr h)
        have hpos : 0 < (sessionEvents cat pinned_brand (draws n)).length :=
          List.length_pos_iff.mpr (sessionEvents_ne_nil hcands (draws n))
        obtain ⟨-, hok⟩ | ⟨k, e, -, -, -, -, herror⟩ := sendAll_cases broker num_events.toNat
          (sessionEvents cat pinned_brand (draws n)) p.sent
        · rw [hok] at hsend
          rw [← Except.ok.inj hsend, List.length_append, List.length_take]
          omega
        · rw [herror] at hsend
          cases hsend
      · rw [hq]
        exact Option.some_ne_none _

/-- Without candidates a session sends nothing. -/
theorem runSessions_eq_none (hcands : ∀ entry ∈ cat.candidates, entry.2 = []) (fuel n : ℕ)
    (hp : Flushed dumps eval_log p) (hroom : ¬ num_events ≤ p.emitted) :
    runSessions dumps broker cat pinned_brand num_events draws fuel n p = none := by
  have hsession : ∀ draw : SessionDraw, sessionEvents cat pinned_brand draw = [] := by
    intro draw
    refine List.flatMap_eq_nil_iff.mpr fun q _ => ?_
    exact if_pos (hcands _ (List.get_mem _ _))
  induction fuel generalizing n p with
  | zero => rw [runSessions, if_neg hroom]
  | succ fuel ih =>
    rw [runSessions, if_neg hroom]
    obtain ⟨q, hq, hflushed, hsend⟩ | ⟨e, q, -, -, hsend⟩ := runSession_cases broker cat pinned_brand
      num_events (draws n) hp
    · rw [hq]
      refine ih (n + 1) hflushed ?_
      rw [hsession, sendAll] at hsend
      rwa [hflushed.emitted, ← Except.ok.inj hsend, ← hp.emitted]
    · rw [hsession, sendAll] at hsend
      cases hsend

/-- Any query has candidates when there is an item. -/
theorem Store.rows_eq_nil (store : Store) (q : String) : store.rows q = [] ↔ store.items = [] := by
  unfold Store.rows
  constructor
  · intro h
    split at h
    · have hlength := store.random_length q
      rw [h, List.length_nil] at hlength
      exact List.length_eq_zero_iff.mp ((Nat.min_eq_zero_iff.mp hlength.symm).resolve_left (by decide))
    · rename_i hne
      exact absurd h hne
  · intro h
    have hsearch : store.search q = [] :=
      List.subperm_nil.mp (h ▸ store.search_subperm q)
    rw [if_pos hsearch]
    exact List.subperm_nil.mp (h ▸ store.random_subperm q)

/-- **When a run comes to an end.** It needs an item; one is enough for any draws. -/
theorem run_ends_iff (lower : String → String) (digest : String → ℕ) (categories : List Category)
    (hcategories : categories ≠ []) (store : Store) (cat : Catalogue)
    (hload : loadCatalogue lower digest categories hcategories store = .ok cat) (dumps : Json → String)
    (broker : ℕ → Option PyError) (pinned_brand : String → Option String) (num_events : ℤ) (draws : ℕ → SessionDraw) (eval_log : Option (List String)) :
    (∃ fuel outcome,
        run dumps broker cat pinned_brand num_events draws eval_log fuel = some outcome) ↔
      num_events ≤ 0 ∨ store.items ≠ [] := by
  have hcandidates : cat.candidates =
      (buildQueryCorpus lower digest categories).map fun q => (q, store.rows q) := by
    unfold loadCatalogue at hload
    split at hload
    · cases hload
    · rw [← Except.ok.inj hload]
  have hrows : ∀ entry ∈ cat.candidates, entry.2 = [] ↔ store.items = [] := by
    intro entry hentry
    rw [hcandidates] at hentry
    obtain ⟨q, -, rfl⟩ := List.mem_map.mp hentry
    exact store.rows_eq_nil q
  constructor
  · rintro ⟨fuel, outcome, hrun⟩
    by_contra hnot
    obtain ⟨hpos, hitems⟩ := not_or.mp hnot
    have hnone : run dumps broker cat pinned_brand num_events draws eval_log fuel = none :=
      runSessions_eq_none (fun entry hentry => (hrows entry hentry).mpr (not_not.mp hitems)) fuel 0
        (flushed_start dumps eval_log) (by simpa using hpos)
    rw [hnone] at hrun
    cases hrun
  · intro h
    refine ⟨num_events.toNat, Option.ne_none_iff_exists'.mp ?_⟩
    obtain hnonpos | hitems := h
    · rw [run, Int.toNat_of_nonpos hnonpos, runSessions, if_pos (by simpa using hnonpos)]
      exact Option.some_ne_none _
    · exact runSessions_ne_none (fun entry hentry h => hitems ((hrows entry hentry).mp h)) _ 0
        (flushed_start dumps eval_log) (by simp)

end Ends

def sampleStore : Store where
  users := [("u1", "bargain_hunter")]
  items := sampleItems
  ids_nodup := by decide
  search _ := []
  search_subperm _ := List.nil_subperm
  search_length _ := Nat.zero_le _
  random _ := sampleItems
  random_subperm _ := List.Subperm.refl _
  random_length _ := rfl

def sampleCategories : List Category :=
  [⟨"electronics/earbuds", "Earbuds", ["Apple", "Samsung"], by simp⟩]

theorem run_ends_iff_sample : ∃ cat,
    loadCatalogue String.toLower String.length sampleCategories (by simp [sampleCategories]) sampleStore =
      .ok cat ∧
    ((∃ fuel outcome, run (fun _ => "row") sampleBroker cat (fun _ => none) 9 (fun _ => sampleDraw) none
        fuel = some outcome) ↔ (9 : ℤ) ≤ 0 ∨ sampleStore.items ≠ []) :=
  ⟨_, rfl, run_ends_iff String.toLower String.length sampleCategories (by simp [sampleCategories])
    sampleStore _ rfl (fun _ => "row") sampleBroker (fun _ => none) 9 (fun _ => sampleDraw) none⟩

end ClickRec.Replay
