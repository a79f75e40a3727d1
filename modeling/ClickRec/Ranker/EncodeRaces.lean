import ClickRec.Lib.Once
import ClickRec.Lib.Trace
import ClickRec.Ranker.Embedder

/-! # `encode_query` of many requests

The requests of a process share the lazily loaded model, and all processes share the cached vectors. A
request may fail or be cancelled wherever it waits. The model is loaded once, and every vector that is
returned is that of its query. -/
namespace ClickRec.Ranker
set_option autoImplicit false
open Cache (embeddingKey)
open Kafka (Bytes)

namespace Encode

/-! ## One request, step by step -/

/-- What is cached, and `_model` with its lock. -/
structure Shared (ι M : Type) where
  strings : String → Option Bytes
  model : Once.Cell ι M

def Shared.put {ι M : Type} (s : Shared ι M) (key : String) (value : Option Bytes) : Shared ι M :=
  { s with strings := Function.update s.strings key value }

@[simp] theorem Shared.put_model {ι M : Type} (s : Shared ι M) (key : String)
    (value : Option Bytes) : (s.put key value).model = s.model := rfl

theorem Shared.put_strings_self {ι M : Type} (s : Shared ι M) (key : String)
    (value : Option Bytes) : (s.put key value).strings key = value := Function.update_self _ _ _

theorem Shared.put_strings_of_ne {ι M : Type} (s : Shared ι M) {key other : String}
    (value : Option Bytes) (h : other ≠ key) : (s.put key value).strings other = s.strings other :=
  Function.update_of_ne h _ _

/-- `client` says whether the vector will be written back. -/
inductive Stage (M K : Type) where
  | start
  | missed (client : Bool)
  | constructing (client : Bool)
  | loaded (client : Bool) (model : M)
  | encoded (vec : List K)
  | returned (vec : List K)
  | raised (e : PyError)

/-- How the `GET` ends: `get_redis` raises, the command raises, or Redis replies. -/
inductive Reply where
  | unstarted
  | failed
  | replied

inductive Event (M : Type) where
  | get (r : Reply)
  | enter
  | construct (r : Except PyError M)
  | encode
  | set (outcome : Outcome)
  | cancel

def cancelled : PyError := ⟨"CancelledError", "", ""⟩

variable {ι M K : Type} (embedder : Embedder K) (query : ι → String)

def keyOf (query : String) : String := embeddingKey embedder.sha1 embedder.embedding_model query

def encodeStep (i : ι) (s : Shared ι M) : Stage M K → Event M → Option (Shared ι M × Stage M K)
  | .start, .get .unstarted => some (s, .missed false)
  -- after a Redis error the SET is skipped as well
  | .start, .get .failed => some (s, .missed false)
  | .start, .get .replied =>
    match s.strings (keyOf embedder (query i)) with
    | none => some (s, .missed true)
    | some raw =>
      match embedder.decode_payload raw with
      | .error e => some (s, .raised e)
      | .ok vec => some (s, .returned vec)
  | .missed client, .enter => (s.model.enter i).map fun (model, found) =>
    ({ s with model }, match found with
      | none => .constructing client
      | some m => .loaded client m)
  | .constructing client, .construct (.ok m) =>
    some ({ s with model := s.model.publish m }, .loaded client m)
  | .constructing _, .construct (.error e) => some ({ s with model := s.model.abort }, .raised e)
  | .loaded client _, .encode =>
    match embedder.encode (query i) with
    | .error e => some (s, .raised e)
    | .ok vec => some (s, if client then .encoded vec else .returned vec)
  | .encoded vec, .set (.error false) => some (s, .returned vec)
  | .encoded vec, .set _ =>
    some (s.put (keyOf embedder (query i)) (embedder.encode_payload vec), .returned vec)
  | .constructing _, .cancel => some ({ s with model := s.model.abort }, .raised cancelled)
  | .returned _, .cancel => none
  | .raised _, .cancel => none
  | _, .cancel => some (s, .raised cancelled)
  | _, _ => none

/-- Beside the requests of this process: a key lapses, or another process caches the vector of a query. -/
inductive Outside (Q : Set String) where
  | lapse (key : String)
  | cached (query : Q)

def outsideStep {Q : Set String} (s : Shared ι M) : Outside Q → Option (Shared ι M)
  | .lapse key => some (s.put key none)
  | .cached query =>
    match embedder.encode query with
    | .error _ => none
    | .ok vec => some (s.put (keyOf embedder query) (embedder.encode_payload vec))

abbrev Requests (ι M K : Type) := Trace.Config ι (Shared ι M) (Stage M K)

abbrev RequestAct (ι M : Type) (Q : Set String) := Trace.Act ι (Event M) (Outside Q)

def requestsStep [DecidableEq ι] {Q : Set String} (c : Requests ι M K) (a : RequestAct ι M Q) :
    Option (Requests ι M K) :=
  Trace.turn (encodeStep embedder query) (outsideStep embedder) c a

/-- A process that has just started. -/
def begin (strings : String → Option Bytes) : Requests ι M K := ⟨⟨strings, .empty⟩, fun _ => .start⟩

/-! ## Alone -/

section Alone

def ended : Except PyError (List K) → Stage M K
  | .error e => .raised e
  | .ok vec => .returned vec

/-- With the lock free a request gets a model, the one that is there or a new one. -/
theorem exists_loaded (i : ι) {s : Shared ι M} (hfree : s.model.holder = none) (m : M)
    (client : Bool) : ∃ events s' v, s'.strings = s.strings ∧
      Trace.exec (Trace.solo (encodeStep embedder query) i) (s, .missed client) events =
        some (s', .loaded client v) := by
  cases hv : s.model.value with
  | some v =>
    refine ⟨[.enter], s, v, rfl, ?_⟩
    simp [Trace.exec, Trace.solo, encodeStep, Once.Cell.enter, hfree, hv]
  | none =>
    refine ⟨[.enter, .construct (.ok m)], ⟨s.strings,
      Once.Cell.publish { s.model with holder := some i, begun := s.model.begun + 1 } m⟩, m, rfl, ?_⟩
    simp [Trace.exec, Trace.solo, encodeStep, Once.Cell.enter, hfree, hv]

/-- From a miss to the vector. -/
theorem exists_encoded (i : ι) {s : Shared ι M} (hfree : s.model.holder = none) (m : M)
    (client : Bool) : ∃ events s', s'.strings = s.strings ∧
      Trace.exec (Trace.solo (encodeStep embedder query) i) (s, .missed client) events =
        some (s', match embedder.encode (query i) with
          | .error e => .raised e
          | .ok vec => if client then .encoded vec else .returned vec) := by
  obtain ⟨events, s', v, hstrings, hrun⟩ := exists_loaded embedder query i hfree m client
  refine ⟨events ++ [.encode], s', hstrings, Trace.exec_concat.mpr ⟨_, hrun, ?_⟩⟩
  simp only [Trace.solo, encodeStep]
  cases embedder.encode (query i) with
  | error e => rfl
  | ok vec => rfl

variable [LinearOrder K]

theorem exists_set (i : ι) {s : Shared ι M} {client : RedisClient K}
    (hsame : client.strings = s.strings) (vec : List K) :
    ∃ s', Trace.solo (encodeStep embedder query) i (s, (.encoded vec : Stage M K))
        (.set (client.outcome (.set (keyOf embedder (query i))))) = some (s', .returned vec) ∧
      (client.set (keyOf embedder (query i)) (embedder.encode_payload vec)).strings = s'.strings := by
  have hput : (Function.update client.strings (keyOf embedder (query i))
      (some (embedder.encode_payload vec))) =
        (s.put (keyOf embedder (query i)) (embedder.encode_payload vec)).strings := by
    rw [hsame]
    rfl
  unfold RedisClient.set
  rcases client.outcome (.set (keyOf embedder (query i))) with _ | took
  · exact ⟨_, rfl, hput⟩
  · cases took with
    | false => exact ⟨_, rfl, hsame⟩
    | true => exact ⟨_, rfl, hput⟩

/-- The steps of one request with nothing between them are `encode_query`. -/
theorem alone (i : ι) {s : Shared ι M} (hfree : s.model.holder = none) (m : M)
    (redis_client : Option (RedisClient K))
    (hstrings : ∀ client, redis_client = some client → client.strings = s.strings) :
    ∃ events s', Trace.exec (Trace.solo (encodeStep embedder query) i) (s, .start) events =
        some (s', ended (encodeQuery embedder redis_client (query i)).1) ∧
      ∀ client, (encodeQuery embedder redis_client (query i)).2 = some client →
        client.strings = s'.strings := by
  have hmiss : ∀ r : Reply, encodeStep embedder query i s .start (.get r : Event M) =
        some (s, .missed false) →
      ∃ events s', s'.strings = s.strings ∧
        Trace.exec (Trace.solo (encodeStep embedder query) i) (s, .start) events =
          some (s', ended (embedder.encode (query i))) := by
    intro r hr
    obtain ⟨events, s', hsame, hrun⟩ := exists_encoded embedder query i hfree m false
    refine ⟨.get r :: events, s', hsame, Trace.exec_cons.mpr ⟨_, hr, ?_⟩⟩
    rw [hrun]
    cases embedder.encode (query i) with
    | error e => rfl
    | ok vec => rfl
  cases redis_client with
  | none =>
    obtain ⟨events, s', -, hrun⟩ := hmiss .unstarted rfl
    exact ⟨events, s', hrun, nofun⟩
  | some client =>
    have hsame := hstrings client rfl
    unfold encodeQuery
    simp only
    cases hget : client.get (embeddingKey embedder.sha1 embedder.embedding_model (query i)) with
    | none =>
      obtain ⟨events, s', hs', hrun⟩ := hmiss .failed rfl
      refine ⟨events, s', hrun, fun client' h => ?_⟩
      obtain rfl := Option.some.inj h
      rw [hsame, hs']
    | some cached =>
      have hcached : s.strings (keyOf embedder (query i)) = cached := by
        rw [← hsame]
        unfold RedisClient.get RedisClient.reply at hget
        split at hget
        · exact Option.some.inj hget
        · cases hget
      cases cached with
      | some raw =>
        refine ⟨[.get .replied], s, ?_, fun client' h => ?_⟩
        · simp only [Trace.exec, Trace.solo, encodeStep, hcached]
          cases embedder.decode_payload raw with
          | error e => rfl
          | ok vec => rfl
        · obtain rfl := Option.some.inj h
          exact hsame
      | none =>
        obtain ⟨events, s', hs', hrun⟩ := exists_encoded embedder query i hfree m true
        have hget' : encodeStep embedder query i s .start (.get .replied : Event M) =
            some (s, .missed true) := by
          simp only [encodeStep, hcached]
        have hstart : Trace.exec (Trace.solo (encodeStep embedder query) i) (s, .start)
            (.get .replied :: events) = _ := Trace.exec_cons.mpr ⟨_, hget', hrun⟩
        cases hvec : embedder.encode (query i) with
        | error e =>
          rw [hvec] at hstart
          refine ⟨_, s', hstart, fun client' h => ?_⟩
          obtain rfl := Option.some.inj h
          rw [hsame, hs']
        | ok vec =>
          rw [hvec] at hstart
          obtain ⟨s'', hset, hs''⟩ := exists_set embedder query i (hsame.trans hs'.symm) vec
          refine ⟨_, s'', Trace.exec_concat.mpr ⟨_, hstart, hset⟩, fun client' h => ?_⟩
          obtain rfl := Option.some.inj h
          exact hs''

end Alone

/-! ## What a step does -/

def Stage.Builds : Stage M K → Prop
  | constructing _ => True
  | _ => False

def Stage.sees : Stage M K → Option M
  | loaded _ model => some model
  | _ => none

/-- The vector a request has in hand. -/
def Stage.Holds (vec : List K) : Stage M K → Prop
  | encoded v => v = vec
  | returned v => v = vec
  | _ => False

def Stage.Finished : Stage M K → Prop
  | returned _ => True
  | raised _ => True
  | _ => False

/-- How many steps a request may still take. -/
def Stage.left : Stage M K → ℕ
  | start => 5
  | missed _ => 4
  | constructing _ => 3
  | loaded _ _ => 2
  | encoded _ => 1
  | returned _ => 0
  | raised _ => 0

/-- The vector is in hand before, or comes from the cache or from the model. -/
def Obtains (i : ι) (s : Shared ι M) (l : Stage M K) (vec : List K) : Prop :=
  l.Holds vec ∨ (∃ raw, s.strings (keyOf embedder (query i)) = some raw ∧
    embedder.decode_payload raw = .ok vec) ∨ embedder.encode (query i) = .ok vec

/-- A step that leaves the shared state alone. -/
structure Quiet (i : ι) (s : Shared ι M) (l m : Stage M K) : Prop where
  before : ¬ l.Builds
  after : ¬ m.Builds
  sees : m.sees = none
  left : m.left < l.left
  vectors : ∀ vec, m.Holds vec → Obtains embedder query i s l vec

inductive Did (i : ι) (s : Shared ι M) (l : Stage M K) : Shared ι M → Stage M K → Prop where
  | quiet {m : Stage M K} : Quiet embedder query i s l m → Did i s l s m
  | entered {client model found} : l = .missed client → s.model.enter i = some (model, found) →
    Did i s l { s with model } (match found with
      | none => .constructing client
      | some v => .loaded client v)
  | published {client v} : l = .constructing client →
    Did i s l { s with model := s.model.publish v } (.loaded client v)
  | aborted {client e} : l = .constructing client →
    Did i s l { s with model := s.model.abort } (.raised e)
  | stored {vec} : l = .encoded vec →
    Did i s l (s.put (keyOf embedder (query i)) (embedder.encode_payload vec)) (.returned vec)

variable {i : ι} {s t : Shared ι M} {l m : Stage M K} {e : Event M}

theorem quiet_raised (hl : ¬ l.Builds) (hleft : 0 < l.left) {e : PyError} :
    Quiet embedder query i s l (.raised e) :=
  ⟨hl, id, rfl, hleft, fun _ hvec => hvec.elim⟩

theorem did_of_encodeStep (h : encodeStep embedder query i s l e = some (t, m)) :
    Did embedder query i s l t m := by
  unfold encodeStep at h
  split at h
  · cases h
    exact .quiet ⟨id, id, rfl, by simp [Stage.left], fun _ hvec => hvec.elim⟩
  · cases h
    exact .quiet ⟨id, id, rfl, by simp [Stage.left], fun _ hvec => hvec.elim⟩
  · split at h
    · cases h
      exact .quiet ⟨id, id, rfl, by simp [Stage.left], fun _ hvec => hvec.elim⟩
    · rename_i raw hraw
      split at h
      · cases h
        exact .quiet (quiet_raised embedder query id (by simp [Stage.left]))
      · rename_i vec hvec
        cases h
        refine .quiet ⟨id, id, rfl, by simp [Stage.left], ?_⟩
        rintro _ rfl
        exact .inr (.inl ⟨raw, hraw, hvec⟩)
  · obtain ⟨⟨model, found⟩, henter, heq⟩ := Option.map_eq_some_iff.mp h
    cases heq
    exact .entered rfl henter
  · cases h
    exact .published rfl
  · cases h
    exact .aborted rfl
  · split at h
    · cases h
      exact .quiet (quiet_raised embedder query id (by simp [Stage.left]))
    · rename_i vec hvec
      rename_i client _ _
      cases h
      cases client with
      | false =>
        refine .quiet ⟨id, id, rfl, by simp [Stage.left], ?_⟩
        rintro _ rfl
        exact .inr (.inr hvec)
      | true =>
        refine .quiet ⟨id, id, rfl, by simp [Stage.left], ?_⟩
        rintro _ rfl
        exact .inr (.inr hvec)
  · cases h
    exact .quiet ⟨id, id, rfl, by simp [Stage.left], fun _ hvec => .inl hvec⟩
  · cases h
    exact .stored rfl
  · cases h
    exact .aborted rfl
  · cases h
  · cases h
  · rename_i hconstructing hreturned hraised
    cases h
    cases l with
    | constructing client => exact (hconstructing client rfl).elim
    | returned vec => exact (hreturned vec rfl).elim
    | raised e => exact (hraised e rfl).elim
    | _ => exact .quiet (quiet_raised embedder query id (by simp [Stage.left]))
  · cases h

variable {embedder query}

/-- A step takes a request on. -/
theorem Did.left_lt (h : Did embedder query i s l t m) : m.left < l.left := by
  cases h with
  | quiet h => exact h.left
  | @entered _ _ found hl _ =>
    rw [hl]
    cases found with
    | none => simp [Stage.left]
    | some v => simp [Stage.left]
  | published hl =>
    rw [hl]
    simp [Stage.left]
  | aborted hl =>
    rw [hl]
    simp [Stage.left]
  | stored hl =>
    rw [hl]
    simp [Stage.left]

/-! ## All requests -/

section Sound
variable {Q : Set String} {c d : Requests ι M K}

variable (embedder Q) in
/-- A text that is cached for a query is that of its vector. -/
def Sound (strings : String → Option Bytes) : Prop :=
  ∀ q ∈ Q, ∀ raw, strings (keyOf embedder q) = some raw →
    ∃ vec, embedder.encode q = .ok vec ∧ raw = embedder.encode_payload vec

theorem Sound.put (hkeys : Set.InjOn (keyOf embedder) Q) {s : Shared ι M}
    (h : Sound embedder Q s.strings) {q : String} (hq : q ∈ Q) {vec : List K}
    (hvec : embedder.encode q = .ok vec) :
    Sound embedder Q (s.put (keyOf embedder q) (embedder.encode_payload vec)).strings := by
  intro q' hq' raw hraw
  by_cases hkey : keyOf embedder q' = keyOf embedder q
  · obtain rfl := hkeys hq' hq hkey
    rw [Shared.put_strings_self] at hraw
    exact ⟨vec, hvec, (Option.some.inj hraw).symm⟩
  · rw [s.put_strings_of_ne _ hkey] at hraw
    exact h q' hq' raw hraw

theorem Sound.lapse {s : Shared ι M} (h : Sound embedder Q s.strings) (key : String) :
    Sound embedder Q (s.put key none).strings := by
  intro q hq raw hraw
  by_cases hkey : keyOf embedder q = key
  · rw [hkey, Shared.put_strings_self] at hraw
    cases hraw
  · rw [s.put_strings_of_ne _ hkey] at hraw
    exact h q hq raw hraw

variable (embedder query Q) in
/-- The model is built once, and all vectors, cached or in hand, are those of their queries. -/
structure Right (c : Requests ι M K) : Prop where
  once : Once.Inv Stage.Builds Stage.sees c.shared.model c.locals
  sound : Sound embedder Q c.shared.strings
  vectors : ∀ i vec, (c.locals i).Holds vec → embedder.encode (query i) = .ok vec

theorem right_begin {strings : String → Option Bytes} (h : Sound embedder Q strings) :
    Right embedder query Q (begin (ι := ι) (M := M) strings) where
  once := .start id rfl
  sound := h
  vectors := fun _ _ hvec => hvec.elim

end Sound

section Runs
variable [DecidableEq ι] {Q : Set String} {as : List (RequestAct ι M Q)} {c d : Requests ι M K}

theorem Right.proc (hlossless : embedder.Lossless) (hkeys : Set.InjOn (keyOf embedder) Q)
    (hquery : ∀ i, query i ∈ Q) (h : Right embedder query Q c) {i : ι} {e : Event M}
    (hstep : requestsStep embedder query c (.proc i e : RequestAct ι M Q) = some d) :
    Right embedder query Q d := by
  obtain ⟨t, m, hown, hshared, hlocal, hframe⟩ := Trace.turn_proc hstep
  have hin : ∀ vec, Obtains embedder query i c.shared (c.locals i) vec →
      embedder.encode (query i) = .ok vec := by
    rintro vec (hvec | ⟨raw, hraw, hvec⟩ | hvec)
    · exact h.vectors i vec hvec
    · obtain ⟨vec', hvec', rfl⟩ := h.sound (query i) (hquery i) raw hraw
      obtain rfl : vec' = vec := Except.ok.inj ((hlossless _ _ hvec').symm.trans hvec)
      exact hvec'
    · exact hvec
  have hvectors : (∀ vec, m.Holds vec → embedder.encode (query i) = .ok vec) →
      ∀ j vec, (d.locals j).Holds vec → embedder.encode (query j) = .ok vec := fun hm =>
    Trace.forall_locals (P := fun j l => ∀ vec, l.Holds vec → embedder.encode (query j) = .ok vec)
      hlocal hframe hm h.vectors
  cases did_of_encodeStep embedder query hown with
  | quiet hquiet =>
    have honce := h.once.stay hlocal hframe (iff_of_false hquiet.after hquiet.before) fun v hv => by
      rw [hquiet.sees] at hv
      cases hv
    rw [← hshared] at honce
    exact ⟨honce, hshared ▸ h.sound, hvectors fun vec hvec => hin vec (hquiet.vectors vec hvec)⟩
  | @entered client model found _ henter =>
    have honce := h.once.enter henter hlocal hframe (by cases found <;> simp [Stage.Builds])
      (by cases found <;> rfl)
    refine ⟨by rw [hshared]; exact honce, by rw [hshared]; exact h.sound, hvectors fun vec hvec => ?_⟩
    cases found with
    | none => exact hvec.elim
    | some v => exact hvec.elim
  | @published client v hl =>
    have hbuilds : (c.locals i).Builds := hl ▸ trivial
    refine ⟨?_, by rw [hshared]; exact h.sound, hvectors fun vec hvec => hvec.elim⟩
    rw [hshared]
    exact h.once.publish hbuilds hlocal hframe id rfl
  | @aborted client e hl =>
    have hbuilds : (c.locals i).Builds := hl ▸ trivial
    refine ⟨?_, by rw [hshared]; exact h.sound, hvectors fun vec hvec => hvec.elim⟩
    rw [hshared]
    exact h.once.abort hbuilds hlocal hframe id rfl
  | @stored vec hl =>
    have hvec : embedder.encode (query i) = .ok vec := h.vectors i vec (hl ▸ rfl)
    refine ⟨?_, ?_, hvectors fun _ heq => heq ▸ hvec⟩
    · rw [hshared]
      exact h.once.stay hlocal hframe (hl ▸ Iff.rfl) nofun
    · rw [hshared]
      exact h.sound.put hkeys (hquery i) hvec

theorem Right.env (hkeys : Set.InjOn (keyOf embedder) Q) (h : Right embedder query Q c)
    {o : Outside Q} (hstep : requestsStep embedder query c (.env o) = some d) :
    Right embedder query Q d := by
  obtain ⟨houtside, hlocals⟩ := Trace.turn_env hstep
  have hframe : d.shared.model = c.shared.model ∧ Sound embedder Q d.shared.strings := by
    cases o with
    | lapse key =>
      obtain heq := Option.some.inj houtside
      rw [← heq]
      exact ⟨rfl, h.sound.lapse key⟩
    | cached q =>
      unfold outsideStep at houtside
      simp only at houtside
      split at houtside
      · cases houtside
      · rename_i vec hvec
        rw [← Option.some.inj houtside]
        exact ⟨rfl, h.sound.put hkeys q.2 hvec⟩
  refine ⟨?_, hframe.2, ?_⟩
  · rw [hframe.1, hlocals]
    exact h.once
  · rw [hlocals]
    exact h.vectors

theorem Right.step (hlossless : embedder.Lossless) (hkeys : Set.InjOn (keyOf embedder) Q)
    (hquery : ∀ i, query i ∈ Q) (h : Right embedder query Q c) {a : RequestAct ι M Q}
    (hstep : requestsStep embedder query c a = some d) : Right embedder query Q d := by
  cases a with
  | proc i e => exact h.proc hlossless hkeys hquery hstep
  | env o => exact h.env hkeys hstep

/-- A model stays, and no other one is built. -/
theorem Right.keeps (h : Right embedder query Q c) {a : RequestAct ι M Q}
    (hstep : requestsStep embedder query c a = some d) {v : M}
    (hv : c.shared.model.value = some v) : d.shared.model = c.shared.model := by
  cases a with
  | env o =>
    obtain ⟨houtside, -⟩ := Trace.turn_env hstep
    cases o with
    | lapse key => rw [← Option.some.inj houtside, Shared.put_model]
    | cached q =>
      unfold outsideStep at houtside
      simp only at houtside
      split at houtside
      · cases houtside
      · rw [← Option.some.inj houtside, Shared.put_model]
  | proc i e =>
    obtain ⟨t, m, hown, hshared, -, -⟩ := Trace.turn_proc hstep
    rw [hshared]
    have hbuilder : ¬ (c.locals i).Builds := fun hi => by
      rw [(h.once.holds hi).2] at hv
      cases hv
    cases did_of_encodeStep embedder query hown with
    | quiet _ => rfl
    | entered _ henter =>
      obtain ⟨-, ⟨w, -, -, rfl⟩ | ⟨hnone, -, -⟩⟩ := Once.Cell.enter_cases henter
      · rfl
      · rw [hnone] at hv
        cases hv
    | published hl => exact (hbuilder (hl ▸ trivial)).elim
    | aborted hl => exact (hbuilder (hl ▸ trivial)).elim
    | stored _ => rfl

/-- As long as a request is not finished, some request can go on. -/
theorem Right.progress (h : Right embedder query Q c) {i : ι} (hi : ¬ (c.locals i).Finished) :
    ∃ j e, e ≠ .cancel ∧
      (requestsStep embedder query c (.proc j e : RequestAct ι M Q)).isSome := by
  have hgo : ∀ {j : ι} {e : Event M}, e ≠ .cancel →
      (encodeStep embedder query j c.shared (c.locals j) e).isSome → ∃ j e, e ≠ .cancel ∧
        (requestsStep embedder query c (.proc j e : RequestAct ι M Q)).isSome := by
    intro j e he hstep
    refine ⟨j, e, he, ?_⟩
    rw [requestsStep, Trace.turn, Option.isSome_map]
    exact hstep
  have hbuilder : ∀ {j : ι}, (c.locals j).Builds → ∃ j e, e ≠ .cancel ∧
      (requestsStep embedder query c (.proc j e : RequestAct ι M Q)).isSome := by
    intro j hj
    refine hgo (j := j) (e := .construct (.error cancelled)) (by simp) ?_
    cases hl : c.locals j with
    | constructing client => rfl
    | _ =>
      rw [hl] at hj
      exact hj.elim
  cases hl : c.locals i with
  | start =>
    refine hgo (j := i) (e := .get .failed) (by simp) ?_
    rw [hl]
    rfl
  | missed client =>
    obtain hfree | ⟨j, hj⟩ := h.once.free_or_held (i := i)
    · refine hgo (j := i) (e := .enter) (by simp) ?_
      rw [hl, encodeStep, Option.isSome_map]
      exact hfree
    · exact hbuilder hj
  | constructing client => exact hbuilder (j := i) (hl ▸ trivial)
  | loaded client m =>
    refine hgo (j := i) (e := .encode) (by simp) ?_
    rw [hl, encodeStep]
    cases embedder.encode (query i) with
    | error e => rfl
    | ok vec => rfl
  | encoded vec =>
    refine hgo (j := i) (e := .set (.error false)) (by simp) ?_
    rw [hl]
    rfl
  | returned vec => exact (hi (hl ▸ trivial)).elim
  | raised e => exact (hi (hl ▸ trivial)).elim

/-- The steps one request took in a run. -/
def turns (i : ι) (as : List (RequestAct ι M Q)) : ℕ :=
  as.countP fun
    | .proc j _ => j = i
    | .env _ => false

theorem turns_le {strings : String → Option Bytes}
    (h : Trace.exec (requestsStep embedder query) (begin strings) as = some c) (i : ι) :
    turns i as + (c.locals i).left ≤ 5 := by
  refine Trace.exec_concat_induction (I := fun as c => turns i as + (c.locals i).left ≤ 5) le_rfl
    (fun as t a u _ hI hu => ?_) h
  unfold turns at hI ⊢
  rw [List.countP_append, List.countP_singleton]
  cases a with
  | env o =>
    rw [(Trace.turn_env hu).2]
    simpa using hI
  | proc j e =>
    obtain ⟨t', m, hown, -, hlocal, hframe⟩ := Trace.turn_proc hu
    by_cases hj : j = i
    · subst hj
      have hlt := (did_of_encodeStep embedder query hown).left_lt
      rw [← hlocal] at hlt
      simp only [decide_true, if_true]
      omega
    · rw [hframe i (Ne.symm hj)]
      simpa [hj] using hI

end Runs

/-- What holds after every run. -/
structure Served {ι M K : Type} [DecidableEq ι] (embedder : Embedder K) (query : ι → String)
    {Q : Set String} (as : List (RequestAct ι M Q)) (c : Requests ι M K) : Prop where
  vectors : ∀ i vec, c.locals i = .returned vec → embedder.encode (query i) = .ok vec
  exclusive : ∀ i j, (c.locals i).Builds → (c.locals j).Builds → i = j
  shared : ∀ i client m, c.locals i = .loaded client m → c.shared.model.value = some m
  builds : c.shared.model.begun = c.shared.model.aborted +
    if c.shared.model.holder.isSome ∨ c.shared.model.value.isSome then 1 else 0
  steps : ∀ i, turns i as + (c.locals i).left ≤ 5
  progress : ∀ i, ¬ (c.locals i).Finished → ∃ j e, e ≠ .cancel ∧
    (requestsStep embedder query c (.proc j e : RequestAct ι M Q)).isSome

/-- **The embedder under any interleaving.** Of the requests of a process, whichever of them fail or are
cancelled, at most one at a time builds the model, and only after the builds before were given up; all
use the same one, which stays; each vector returned, cached or not, is that of its query; and each
request ends after at most five steps, with no deadlock. -/
theorem encode_served {ι M K : Type} [DecidableEq ι] (embedder : Embedder K)
    (hlossless : embedder.Lossless) (Q : Set String) (hkeys : Set.InjOn (keyOf embedder) Q)
    (query : ι → String) (hquery : ∀ i, query i ∈ Q) (strings : String → Option Bytes)
    (hcached : Sound embedder Q strings) (as : List (RequestAct ι M Q)) (c : Requests ι M K)
    (h : Trace.exec (requestsStep embedder query) (begin strings) as = some c) :
    Served embedder query as c ∧
      ∀ (bs : List (RequestAct ι M Q)) d m, c.shared.model.value = some m →
        Trace.exec (requestsStep embedder query) c bs = some d → d.shared.model = c.shared.model := by
  have hright : Right embedder query Q c :=
    Trace.exec_preserves (fun _ _ _ hI ht => hI.step hlossless hkeys hquery ht) h
      (right_begin hcached)
  refine ⟨⟨fun i vec hi => hright.vectors i vec (hi ▸ rfl), fun i j => hright.once.exclusive,
    fun i client m hi => hright.once.seen i m (hi ▸ rfl), hright.once.count, turns_le h,
    fun i hi => hright.progress hi⟩, fun bs d m hm hbs => ?_⟩
  have hkept : Right embedder query Q d ∧ d.shared.model = c.shared.model :=
    Trace.exec_preserves (I := fun d => Right embedder query Q d ∧ d.shared.model = c.shared.model)
      (fun s a t hI ht => ⟨hI.1.step hlossless hkeys hquery ht,
        (hI.1.keeps ht (hI.2 ▸ hm)).trans hI.2⟩) hbs ⟨hright, rfl⟩
  exact hkept.2

/-! ## A build that is cancelled -/

/-- A model with one vector. -/
def oneVector : Embedder ℕ where
  embedding_model := "m"
  sha1 _ := []
  encode _ := .ok [7]
  encode_payload vec := vec.map (UInt8.ofNat ·)
  decode_payload bytes := .ok (bytes.map (·.toNat))

theorem oneVector_lossless : oneVector.Lossless := by
  intro query vec h
  cases h
  rfl

/-- The request that builds the model is cancelled while the other one waits for the lock. -/
def cancelledBuild : List (RequestAct Trace.Two ℕ {"shoes"}) :=
  [.proc .first (.get .replied), .proc .second (.get .replied), .proc .first .enter,
    .proc .first .cancel, .proc .second .enter, .proc .second (.construct (.ok 1)),
    .proc .second .encode, .proc .second (.set .ok)]

theorem encode_served_cancelled : ∃ c,
    Trace.exec (requestsStep oneVector fun _ : Trace.Two => "shoes") (begin fun _ => none)
      cancelledBuild = some c ∧ c.locals .second = .returned [7] ∧ c.shared.model.begun = 2 ∧
    Served oneVector (fun _ : Trace.Two => "shoes") cancelledBuild c :=
  ⟨_, rfl, rfl, rfl, (encode_served oneVector oneVector_lossless {"shoes"} (Set.injOn_singleton _ _)
    (fun _ : Trace.Two => "shoes") (fun _ => rfl) (fun _ => none) nofun cancelledBuild _ rfl).1⟩

end Encode

end ClickRec.Ranker
