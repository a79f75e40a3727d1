import ClickRec.Kafka.ReplayDlq

/-! # What one invocation of `replay_dlq` handles

It handles the records from the committed offset on, in order, each once. So it handles no more than
there were when it started exactly as long as it takes up no record that was put on the DLQ later, and
nothing in the loop looks at that. -/
namespace ClickRec.Kafka
set_option autoImplicit false
open WorkerLoop (PartitionLog)

namespace ReplayDlq
variable {σ : Type} {env : ProcessOne.Env σ}

/-- The pool puts records on the DLQ and does nothing else to it. -/
theorem withDlq_keeps (env : ProcessOne.Env σ) (stored : Bool) (log : PartitionLog) :
    (withDlq env stored).Keeps fun s => log.Extends s.2 where
  exists_ hs _ := hs
  enrich hs _ := hs
  set hs _ := hs
  broker {s} hs message := by
    have hput := hs.trans (s.2.extends_put "user.clicks.dlq" message)
    simp only [withDlq]
    split
    · exact hput
    · cases stored with
      | true => exact hput
      | false => exact hs
  sleep hs _ := hs

/-! ## The steps -/

theorem handled_count (r : Replayer) (h : Handled) : (r.count h).handled = r.handled + 1 := by
  cases h with
  | replayed =>
    show r.replayed + 1 + r.skipped = r.replayed + r.skipped + 1
    omega
  | skipped => rfl

/-- What a step does to the replayer and the log it reads. -/
inductive Moves (env : ProcessOne.Env σ) (c c' : System σ) : Act → Prop where
  | idle {a : Act} : (∀ replies, a ≠ .handle replies) → c'.dlq = c.dlq →
    c'.replayer.loop = c.replayer.loop → c'.replayer.position = c.replayer.position →
    c'.replayer.handled = c.replayer.handled → Moves env c c' a
  | fetched {n : ℕ} {r : ConsumerRecord} {rs : List ConsumerRecord} :
    c.replayer.loop = .polling → c.dlq.fetch c.replayer.position n = r :: rs → c'.dlq = c.dlq →
    c'.replayer.loop = .handling (r :: rs) none →
    c'.replayer.position = (rs.getLastD r).offset + 1 →
    c'.replayer.handled = c.replayer.handled → Moves env c c' (.getmany n)
  | handled {replies : Replies} {r : ConsumerRecord} {rs : List ConsumerRecord} {last : Option ℕ}
      {h : Handled} {sinks : Sinks} : c.replayer.loop = .handling (r :: rs) last →
    handleDlqRecord env.orjson r replies c.sinks = (.ok h, sinks) → c'.dlq = c.dlq →
    c'.replayer.loop = .handling rs (some r.offset) →
    c'.replayer.position = c.replayer.position →
    c'.replayer.handled = c.replayer.handled + 1 → Moves env c c' (.handle replies)
  | unhandled {replies : Replies} {r : ConsumerRecord} {rs : List ConsumerRecord} {last : Option ℕ}
      {e : PyError} {sinks : Sinks} : c.replayer.loop = .handling (r :: rs) last →
    handleDlqRecord env.orjson r replies c.sinks = (.error e, sinks) → c'.dlq = c.dlq →
    c'.replayer.loop = .raised e → c'.replayer.position = c.replayer.position →
    c'.replayer.handled = c.replayer.handled → Moves env c c' (.handle replies)
  | committed {reply : Reply} {last : Option ℕ} : c.replayer.loop = .handling [] last →
    c'.dlq = c.dlq → c'.replayer.loop = .polling → c'.replayer.position = c.replayer.position →
    c'.replayer.handled = c.replayer.handled → Moves env c c' (.commit reply)
  | raised {a : Act} {e : PyError} : (∀ replies, a ≠ .handle replies) → c'.dlq = c.dlq →
    c'.replayer.loop = .raised e → c'.replayer.position = c.replayer.position →
    c'.replayer.handled = c.replayer.handled → Moves env c c' a
  | put {a : Act} : (∀ replies, a ≠ .handle replies) → c.dlq.Extends c'.dlq →
    c'.replayer = c.replayer → Moves env c c' a

theorem moves {c c' : System σ} {a : Act} (h : step env c a = some c') : Moves env c c' a := by
  cases a with
  | getmany n =>
    simp only [step, getmanyStep] at h
    split at h
    · rename_i hloop
      split at h
      · split at h
        · cases h
          exact .idle (fun _ => Act.noConfusion) rfl rfl rfl rfl
        · rename_i r rs hfetch
          cases h
          exact .fetched hloop hfetch rfl rfl rfl rfl
      · cases h
    · cases h
  | handle replies =>
    simp only [step, handleStep] at h
    split at h
    · rename_i r rs last hloop
      split at h
      · rename_i handled sinks hhandled
        cases h
        refine .handled hloop hhandled rfl rfl ?_ (handled_count c.replayer handled)
        cases handled with
        | replayed => rfl
        | skipped => rfl
      · rename_i e sinks hraised
        cases h
        exact .unhandled hloop hraised rfl rfl rfl rfl
    · cases h
  | commit reply =>
    simp only [step, commitStep] at h
    split at h
    · rename_i hloop
      cases h
      exact .committed hloop rfl rfl rfl rfl
    · rename_i last hloop
      cases reply with
      | ack =>
        cases h
        exact .committed hloop rfl rfl rfl rfl
      | failed e stored =>
        cases h
        exact .raised (fun _ => Act.noConfusion) rfl rfl rfl rfl
    · cases h
  | raises e =>
    simp only [step] at h
    split at h
    · cases h
    · cases h
      exact .raised (fun _ => Act.noConfusion) rfl rfl rfl rfl
  | processOne i stored =>
    simp only [step] at h
    split at h
    · cases h
    · rename_i record _
      cases h
      exact .put (fun _ => Act.noConfusion)
        ((withDlq_keeps env stored c.dlq).processOne record (.refl c.dlq)) rfl
  | click record =>
    cases h
    exact .idle (fun _ => Act.noConfusion) rfl rfl rfl rfl

/-! ## The invariant -/

/-- The records of the current batch that are left; an exception leaves any number of them. -/
def Loop.Left (rest : List ConsumerRecord) : Loop → Prop
  | polling => rest = []
  | handling records _ => rest = records
  | raised _ => True

/-- From the committed offset on lie the records handled so far, those of the batch that are left,
and those to be polled. -/
structure Inv (g : GroupLog) (c : System σ) : Prop where
  grown : g.log.Extends c.dlq
  past : g.committed.getD 0 ≤ c.replayer.position
  within : c.replayer.position ≤ c.dlq.endOffset
  order : ∃ done rest, done.length = c.replayer.handled ∧ c.replayer.loop.Left rest ∧
    c.dlq.fromOffset (g.committed.getD 0) =
      done ++ rest ++ c.dlq.fromOffset c.replayer.position

theorem inv_start (deps : σ) (clicks : List ConsumerRecord) (g : GroupLog) :
    Inv g (start deps clicks g) where
  grown := .refl g.log
  past := le_rfl
  within := g.in_log
  order := ⟨[], [], rfl, rfl, rfl⟩

/-- A step that reads nothing, handles nothing and puts nothing on the DLQ. -/
theorem Inv.rephase {g : GroupLog} {c c' : System σ} (h : Inv g c) (hdlq : c'.dlq = c.dlq)
    (hpos : c'.replayer.position = c.replayer.position)
    (hhandled : c'.replayer.handled = c.replayer.handled)
    (hleft : ∀ rest, c.replayer.loop.Left rest → c'.replayer.loop.Left rest) : Inv g c' := by
  obtain ⟨hgrown, hpast, hwithin, done, rest, hdone, hrest, horder⟩ := h
  refine ⟨?_, ?_, ?_, done, rest, ?_, hleft rest hrest, ?_⟩
  · rw [hdlq]
    exact hgrown
  · rw [hpos]
    exact hpast
  · rw [hpos, hdlq]
    exact hwithin
  · rw [hhandled]
    exact hdone
  · rw [hdlq, hpos]
    exact horder

theorem inv_step {g : GroupLog} {c c' : System σ} {a : Act} (h : Inv g c)
    (hstep : step env c a = some c') : Inv g c' := by
  cases moves hstep with
  | idle _ hdlq hloop hpos hhandled =>
    exact h.rephase hdlq hpos hhandled fun rest hleft => by rwa [hloop]
  | unhandled hloop _ hdlq hloop' hpos hhandled =>
    exact h.rephase hdlq hpos hhandled fun rest _ => by rw [hloop']; trivial
  | committed hloop hdlq hloop' hpos hhandled =>
    refine h.rephase hdlq hpos hhandled fun rest hleft => ?_
    rw [hloop] at hleft
    rw [hloop']
    exact hleft
  | raised _ hdlq hloop' hpos hhandled =>
    exact h.rephase hdlq hpos hhandled fun rest _ => by rw [hloop']; trivial
  | @fetched n r rs hloop hfetch hdlq hloop' hpos hhandled =>
    obtain ⟨hgrown, hpast, -, done, rest, hdone, hleft, horder⟩ := h
    obtain ⟨hle, hlt, hsplit⟩ := PartitionLog.fetch_cons hfetch
    rw [hloop] at hleft
    obtain rfl : rest = [] := hleft
    refine ⟨hdlq ▸ hgrown, ?_, ?_, done, r :: rs, hhandled ▸ hdone, ?_, ?_⟩
    · rw [hpos]
      omega
    · rw [hpos, hdlq]
      exact hlt
    · rw [hloop']
      rfl
    · rw [hdlq, hpos, horder, hsplit, List.append_nil, List.append_assoc]
  | @handled replies r rs last handled sinks hloop hok hdlq hloop' hpos hhandled =>
    obtain ⟨hgrown, hpast, hwithin, done, rest, hdone, hleft, horder⟩ := h
    rw [hloop] at hleft
    obtain rfl : rest = r :: rs := hleft
    refine ⟨hdlq ▸ hgrown, hpos ▸ hpast, hdlq ▸ hpos ▸ hwithin, done ++ [r], rs, ?_, ?_, ?_⟩
    · rw [List.length_append, hdone, hhandled]
      rfl
    · rw [hloop']
      rfl
    · rw [hdlq, hpos, horder, List.append_assoc, List.append_assoc, List.append_assoc]
      rfl
  | put _ hextends hreplayer =>
    obtain ⟨hgrown, hpast, hwithin, done, rest, hdone, hleft, horder⟩ := h
    obtain ⟨more, -, hfrom⟩ := hextends.fromOffset
    refine ⟨hgrown.trans hextends, hreplayer ▸ hpast,
      hreplayer ▸ hwithin.trans hextends.endOffset_le, done, rest, hreplayer ▸ hdone,
      hreplayer ▸ hleft, ?_⟩
    rw [hreplayer, hfrom _ (hpast.trans hwithin), hfrom _ hwithin, horder, List.append_assoc]

/-- The next record was on the DLQ at the start exactly when not as many have been handled. -/
theorem Inv.next_iff {g : GroupLog} {c : System σ} (h : Inv g c) {r : ConsumerRecord}
    {rs : List ConsumerRecord} {last : Option ℕ} (hloop : c.replayer.loop = .handling (r :: rs) last) :
    r.offset < g.log.endOffset ↔ c.replayer.handled < g.snapshot.length := by
  obtain ⟨hgrown, -, -, done, rest, hdone, hleft, horder⟩ := h
  rw [hloop] at hleft
  obtain rfl : rest = r :: rs := hleft
  obtain ⟨more, hnew, hfrom⟩ := hgrown.fromOffset
  have hsplit : g.snapshot ++ more = done ++ r :: (rs ++ c.dlq.fromOffset c.replayer.position) := by
    rw [GroupLog.snapshot, ← hfrom _ g.in_log, horder, List.append_assoc]
    rfl
  have hget : (g.snapshot ++ more)[done.length]? = some r := by
    rw [hsplit, List.getElem?_append_right le_rfl, Nat.sub_self]
    rfl
  rw [← hdone]
  constructor
  · intro hlt
    by_contra hge
    rw [List.getElem?_append_right (not_lt.mp hge)] at hget
    have := hnew r (List.mem_of_getElem? hget)
    omega
  · intro hlt
    rw [List.getElem?_append_left hlt] at hget
    exact PartitionLog.lt_endOffset (List.mem_filter.mp (List.mem_of_getElem? hget)).1

/-! ## How many records are handled -/

/-- A record that is replayed or quarantined lies before this offset. -/
def HandlesBefore (env : ProcessOne.Env σ) (offset : ℕ) (c : System σ) : Act → Prop
  | .handle replies =>
    match c.replayer.loop with
    | .handling (r :: _) _ =>
      (handleDlqRecord env.orjson r replies c.sinks).1.toBool = true → r.offset < offset
    | _ => True
  | _ => True

instance (env : ProcessOne.Env σ) (offset : ℕ) (c : System σ) (a : Act) :
    Decidable (HandlesBefore env offset c a) := by
  unfold HandlesBefore
  split
  · split <;> infer_instance
  · infer_instance

/-- Only a record that is replayed or quarantined counts. -/
theorem handled_step {c c' : System σ} {a : Act} (hstep : step env c a = some c') :
    c'.replayer.handled = c.replayer.handled ∧ (∀ offset, HandlesBefore env offset c a) ∨
    c'.replayer.handled = c.replayer.handled + 1 ∧ ∃ r rs last,
      c.replayer.loop = .handling (r :: rs) last ∧
        ∀ offset, HandlesBefore env offset c a ↔ r.offset < offset := by
  have hother : (∀ replies, a ≠ .handle replies) → ∀ offset, HandlesBefore env offset c a := by
    intro ha offset
    cases a with
    | handle replies => exact absurd rfl (ha replies)
    | _ => trivial
  cases moves hstep with
  | idle ha _ _ _ hhandled => exact .inl ⟨hhandled, hother ha⟩
  | fetched _ _ _ _ _ hhandled => exact .inl ⟨hhandled, fun _ => trivial⟩
  | @handled replies r rs last handled sinks hloop hok _ _ _ hhandled =>
    refine .inr ⟨hhandled, r, rs, last, hloop, fun offset => ?_⟩
    simp [HandlesBefore, hloop, hok, Except.toBool]
  | @unhandled replies r rs last e sinks hloop herror _ _ _ hhandled =>
    refine .inl ⟨hhandled, fun offset => ?_⟩
    simp [HandlesBefore, hloop, herror, Except.toBool]
  | committed _ _ _ _ hhandled => exact .inl ⟨hhandled, fun _ => trivial⟩
  | raised ha _ _ _ hhandled => exact .inl ⟨hhandled, hother ha⟩
  | put ha _ hreplayer => exact .inl ⟨by rw [hreplayer], hother ha⟩

/-- An invocation handles at most what there was at its start exactly when it replays or
quarantines no record that came later. -/
theorem handled_le_snapshot_iff (env : ProcessOne.Env σ) (deps : σ) (clicks : List ConsumerRecord)
    (g : GroupLog) (as : List Act) (c : System σ)
    (hrun : Trace.exec (step env) (start deps clicks g) as = some c) :
    c.replayer.handled ≤ g.snapshot.length ↔
      Trace.Along (step env) (HandlesBefore env g.log.endOffset) (start deps clicks g) as := by
  refine Trace.exec_le_iff_along (I := Inv g) (f := fun c => c.replayer.handled)
    (fun c a c' h hstep => inv_step h hstep)
    (fun c a c' _ hstep => ?_) ?_ ?_ hrun (inv_start deps clicks g) (Nat.zero_le _)
  · obtain ⟨hsame, -⟩ | ⟨hmore, -⟩ := handled_step hstep
    · exact hsame.ge
    · exact hmore ▸ Nat.le_succ _
  · intro c a c' h hbefore hstep hle
    obtain ⟨hsame, -⟩ | ⟨hmore, r, rs, last, hloop, hiff⟩ := handled_step hstep
    · rwa [hsame]
    · have := (h.next_iff hloop).mp ((hiff _).mp hbefore)
      omega
  · intro c a c' h hnot hstep
    obtain ⟨-, hbefore⟩ | ⟨hmore, r, rs, last, hloop, hiff⟩ := handled_step hstep
    · exact absurd (hbefore _) hnot
    · have := (h.next_iff hloop).not.mp fun hlt => hnot ((hiff _).mpr hlt)
      omega

/-- Nothing put on the DLQ in the meantime, no record too many. -/
theorem handled_le_of_quiet (env : ProcessOne.Env σ) (deps : σ) (clicks : List ConsumerRecord)
    (g : GroupLog) (as : List Act) (c : System σ)
    (hrun : Trace.exec (step env) (start deps clicks g) as = some c)
    (hquiet : c.dlq.endOffset = g.log.endOffset) : c.replayer.handled ≤ g.snapshot.length := by
  obtain ⟨hgrown, -, -, done, rest, hdone, -, horder⟩ : Inv g c :=
    Trace.exec_preserves (fun _ _ _ h hstep => inv_step h hstep) hrun (inv_start deps clicks g)
  obtain ⟨more, hmore, hnew⟩ := hgrown
  have hnone : more = [] := by
    refine List.eq_nil_iff_forall_not_mem.mpr fun r hr => ?_
    have hmem : r ∈ c.dlq.records := by
      rw [hmore]
      exact List.mem_append_right _ hr
    have := PartitionLog.lt_endOffset hmem
    have := hnew r hr
    omega
  have hsame : c.dlq.fromOffset (g.committed.getD 0) = g.snapshot := by
    rw [GroupLog.snapshot, PartitionLog.fromOffset, hmore, hnone, List.append_nil]
    rfl
  have hlength := congrArg List.length (hsame.symm.trans horder)
  rw [List.length_append, List.length_append] at hlength
  omega

/-! ## A message that comes back -/

/-- The pool rejects this message each time, the envelope it then writes reads back, and the broker
acknowledges everything. -/
structure KeepsFailing (env : ProcessOne.Env σ) (payload : List (String × Json)) (user_id : String)
    (value : Bytes) : Prop where
  user : payload.lookup "user_id" = some (.str user_id)
  nonempty : user_id ≠ ""
  loads : env.orjson.loads value = .ok (.obj payload)
  dumps : env.orjson.dumps (.obj payload) = .ok value
  rejected : ∃ exc, env.validate (.obj payload) = .error exc
  envelope : ∀ record exc reason ms, record.value = some value → ∃ message,
    env.orjson.dumps (ProcessOne.dlqMessage env record exc reason ms) = .ok message ∧
      env.orjson.loads message = .ok (ProcessOne.dlqMessage env record exc reason ms)
  broker_acks : ∀ deps message, (env.broker deps message).1 = .ok ()

/-- The envelope of that message is all there is left to poll. -/
structure Waits (env : ProcessOne.Env σ) (payload : List (String × Json)) (c : System σ) : Prop where
  polling : c.replayer.loop = .polling
  goes_on : c.replayer.consecutive_empty < EMPTY_BATCH_LIMIT
  record : ∃ r dlq_msg, c.dlq.fromOffset c.replayer.position = [r] ∧
    env.orjson.loads (ProcessOne.rawValue r) = .ok (.obj dlq_msg) ∧
      dlq_msg.lookup "original_payload" = some (.obj payload)

def acked : Replies := ⟨0, none, 0, .ack⟩

/-- A worker puts the message on the DLQ and does nothing else to the topics. -/
theorem KeepsFailing.processOne {payload : List (String × Json)} {user_id : String} {value : Bytes}
    (h : KeepsFailing env payload user_id value) {record : ConsumerRecord}
    (hvalue : record.value = some value) (deps : σ) (log : PartitionLog) :
    ∃ deps' message dlq_msg,
      (ProcessOne.processOne (withDlq env false) record (deps, log)).2 =
        (deps', log.put "user.clicks.dlq" message) ∧
      env.orjson.loads message = .ok (.obj dlq_msg) ∧
      dlq_msg.lookup "original_payload" = some (.obj payload) := by
  obtain ⟨exc, hrejected⟩ := h.rejected
  obtain ⟨message, hdumps, hloads⟩ := h.envelope record (some exc) "parse_or_validation_error"
    (env.now_ms deps) hvalue
  have hraw : ProcessOne.rawValue record = value := by rw [ProcessOne.rawValue, hvalue]; rfl
  have hparse : ProcessOne.parse (withDlq env false) record = .error exc := by
    have hclick : (withDlq env false).orjson.loads (ProcessOne.rawValue record) =
        .ok (.obj payload) := hraw ▸ h.loads
    rw [ProcessOne.parse, hclick]
    exact hrejected
  have hpayload : ProcessOne.originalPayload env record = .obj payload := by
    rw [ProcessOne.originalPayload, hraw, h.loads]
  obtain ⟨deps', hbroker⟩ : ∃ deps', env.broker deps message = (.ok (), deps') :=
    ⟨_, Prod.ext (h.broker_acks deps message) rfl⟩
  have hsent : ProcessOne.sendToDlq (withDlq env false) (deps, log) record (some exc)
      "parse_or_validation_error" = (.ok true, deps', log.put "user.clicks.dlq" message) := by
    have hmessage : (withDlq env false).orjson.dumps (ProcessOne.dlqMessage (withDlq env false) record
        (some exc) "parse_or_validation_error" ((withDlq env false).now_ms (deps, log))) =
          .ok message := hdumps
    have hput : (withDlq env false).broker (deps, log) message =
        (.ok (), deps', log.put "user.clicks.dlq" message) := by
      simp only [withDlq, hbroker]
    simp only [ProcessOne.sendToDlq, ProcessOne.sendAndWait, hmessage, hput]
  refine ⟨deps', message, _, ?_, hloads, ?_⟩
  · rw [ProcessOne.processOne, hparse]
    simp only [hsent, ProcessOne.outcomeOfSent]
  · rw [← hpayload]
    rfl

/-- Once round: it is polled, replayed and committed, rejected again, and waits again. -/
theorem KeepsFailing.round {payload : List (String × Json)} {user_id : String} {value : Bytes}
    (h : KeepsFailing env payload user_id value) {c : System σ} (hwaits : Waits env payload c) :
    ∃ as c', Trace.exec (step env) c as = some c' ∧ Waits env payload c' ∧
      c'.replayer.handled = c.replayer.handled + 1 := by
  obtain ⟨hpolling, hgoes, r, dlq_msg, hfrom, hloads, hlookup⟩ := hwaits
  have hcons : c.dlq.fromOffset c.replayer.position = [] ++ r :: [] := hfrom
  obtain ⟨-, hlt, hnone⟩ := PartitionLog.fromOffset_succ hcons
  have hfetch : c.dlq.fetch c.replayer.position 1 = [r] := by
    rw [PartitionLog.fetch_eq, hfrom]
    rfl
  let click : ConsumerRecord := {
    topic := "user.clicks"
    partition := 0
    offset := c.sinks.clicks.countP fun r => r.partition = 0
    key := some user_id.toUTF8.data.toList
    value := some value }
  have hreplay : handleDlqRecord env.orjson r acked c.sinks =
      (.ok .replayed, { c.sinks with clicks := c.sinks.clicks ++ [click] }) := by
    simp only [handleDlqRecord, hloads, hlookup, h.user, if_neg h.nonempty, sendClick, h.dumps]
    rfl
  obtain ⟨deps', message, dlq_msg', hprocess, hloads', hlookup'⟩ :=
    h.processOne (show click.value = some value from rfl) c.deps c.dlq
  let c₁ : System σ := { c with replayer :=
    { c.replayer with
      loop := .handling [r] none
      position := r.offset + 1
      consecutive_empty := 0 } }
  let c₂ : System σ := { c₁ with
    sinks := { c.sinks with clicks := c.sinks.clicks ++ [click] }
    replayer := { c₁.replayer.count .replayed with loop := .handling [] (some r.offset) } }
  let c₃ : System σ := { c₂ with
    committed := some (r.offset + 1)
    replayer := { c₂.replayer with loop := .polling } }
  let c₄ : System σ := { c₃ with deps := deps', dlq := c.dlq.put "user.clicks.dlq" message }
  have h₁ : step env c (.getmany 1) = some c₁ := by
    simp only [step, getmanyStep, hpolling, if_pos hgoes, hfetch]
    rfl
  have h₂ : step env c₁ (.handle acked) = some c₂ := by
    simp only [step, handleStep, c₁, hreplay]
    rfl
  have h₃ : step env c₂ (.commit .ack) = some c₃ := rfl
  have h₄ : step env c₃ (.processOne c.sinks.clicks.length false) = some c₄ := by
    have hclick : c₃.sinks.clicks[c.sinks.clicks.length]? = some click := by
      show (c.sinks.clicks ++ [click])[c.sinks.clicks.length]? = some click
      rw [List.getElem?_append_right le_rfl, Nat.sub_self]
      rfl
    simp only [step, hclick]
    rw [show (c₃.deps, c₃.dlq) = (c.deps, c.dlq) from rfl, hprocess]
  refine ⟨[.getmany 1, .handle acked, .commit .ack, .processOne c.sinks.clicks.length false], c₄,
    Trace.exec_cons.mpr ⟨c₁, h₁, Trace.exec_cons.mpr ⟨c₂, h₂, Trace.exec_cons.mpr ⟨c₃, h₃,
      Trace.exec_cons.mpr ⟨c₄, h₄, rfl⟩⟩⟩⟩, ⟨rfl, Nat.succ_pos 2, ?_⟩,
    handled_count c₁.replayer .replayed⟩
  refine ⟨⟨"user.clicks.dlq", 0, c.dlq.endOffset, none, some message⟩, dlq_msg', ?_, hloads', hlookup'⟩
  show (c.dlq.put "user.clicks.dlq" message).fromOffset (r.offset + 1) = _
  rw [PartitionLog.fromOffset_put hlt, hnone, List.nil_append]

/-- One such record is enough to be handled any number of times. -/
theorem KeepsFailing.handled_any_number {payload : List (String × Json)} {user_id : String}
    {value : Bytes} (h : KeepsFailing env payload user_id value) {c : System σ}
    (hwaits : Waits env payload c) (n : ℕ) :
    ∃ as c', Trace.exec (step env) c as = some c' ∧ Waits env payload c' ∧
      c'.replayer.handled = c.replayer.handled + n := by
  induction n with
  | zero => exact ⟨[], c, rfl, hwaits, rfl⟩
  | succ n ih =>
    obtain ⟨as, c', hrun, hwaits', hcount⟩ := ih
    obtain ⟨bs, c'', hround, hwaits'', hone⟩ := h.round hwaits'
    exact ⟨as ++ bs, c'', Trace.exec_append.mpr ⟨c', hrun, hround⟩, hwaits'', by omega⟩

/-- JSON text for strings without anything to escape. -/
def plainText : Json → String
  | .str s => "\"" ++ s ++ "\""
  | .int i => toString i
  | .obj entries => "\x7b" ++ entriesText entries ++ "\x7d"
  | _ => "null"
where
  entriesText : List (String × Json) → String
    | [] => ""
    | [(k, v)] => "\"" ++ k ++ "\":" ++ plainText v
    | (k, v) :: more => "\"" ++ k ++ "\":" ++ plainText v ++ "," ++ entriesText more

def utf8 (s : String) : Bytes := s.toUTF8.data.toList

/-- A JSON object that is not a click. -/
def notAClick : Json := .obj [("user_id", .str "u1")]

def missingFields : PyError := ⟨"ValidationError", "Field required", "Traceback"⟩

/-- What the pool sends to the DLQ for such a message. -/
def envelope (original_offset : ℤ) : Json :=
  .obj [
    ("original_topic", .str "user.clicks"),
    ("original_partition", .int 0),
    ("original_offset", .int original_offset),
    ("original_key", .str "u1"),
    ("original_payload", notAClick),
    ("reason", .str "parse_or_validation_error"),
    ("error_class", .str "ValidationError"),
    ("error_message", .str "Field required"),
    ("stack_trace", .str "Traceback"),
    ("failed_at_ms", .int 0)]

def plainJson : Orjson where
  loads raw :=
    match [notAClick, envelope 0, envelope 1].find? fun v => utf8 (plainText v) = raw with
    | some v => .ok v
    | none => .error ⟨"JSONDecodeError", "unexpected character", ""⟩
  dumps v := .ok (utf8 (plainText v))

def rejecting : ProcessOne.Env Unit where
  orjson := plainJson
  validate _ := .error missingFields
  consumer_max_retries := 3
  consumer_backoff_base_s := 1 / 2
  now_ms _ := 0
  exists_ s _ := (.ok false, s)
  enrich s _ := (.ok (), s)
  set s _ := (.ok (), s)
  broker s _ := (.ok (), s)
  sleep s _ := s

/-- A message that was rejected, and its record on the DLQ. -/
def rejected : ConsumerRecord :=
  ⟨"user.clicks", 0, 0, some (utf8 "u1"), some (utf8 (plainText notAClick))⟩

def oneRecord : GroupLog where
  log := ⟨[⟨"user.clicks.dlq", 0, 0, none, some (utf8 (plainText (envelope 0)))⟩],
    List.pairwise_singleton _ _⟩
  committed := none
  in_log := Nat.zero_le _

/-- One record is replayed; three empty polls follow. -/
def oneBatch : List Act :=
  [.getmany 10, .handle acked, .commit .ack, .getmany 10, .getmany 10, .getmany 10]

/-- The replayed message is rejected again before the next poll. -/
def comesBack : List Act :=
  [.getmany 10, .handle acked, .processOne 1 false, .commit .ack, .getmany 10, .handle acked]

theorem handled_le_snapshot_iff_one : ∃ c,
    Trace.exec (step rejecting) (start () [rejected] oneRecord) oneBatch = some c ∧
      c.replayer.handled ≤ oneRecord.snapshot.length := by
  obtain ⟨c, hrun⟩ : ∃ c,
      Trace.exec (step rejecting) (start () [rejected] oneRecord) oneBatch = some c := by
    refine Option.isSome_iff_exists.mp ?_
    decide +kernel
  refine ⟨c, hrun, (handled_le_snapshot_iff rejecting () [rejected] oneRecord oneBatch c hrun).mpr ?_⟩
  decide +kernel

theorem replay_handles_what_comes_back :
    ¬ ∀ (env : ProcessOne.Env Unit) (clicks : List ConsumerRecord) (g : GroupLog) (as : List Act)
      (c : System Unit), Trace.exec (step env) (start () clicks g) as = some c →
        c.replayer.handled ≤ g.snapshot.length := by
  intro h
  have hmap : (Trace.exec (step rejecting) (start () [rejected] oneRecord) comesBack).map
      (fun c => c.replayer.handled) = some 2 := by decide +kernel
  obtain ⟨c, hrun, htwo⟩ := Option.map_eq_some_iff.mp hmap
  have hle := h rejecting [rejected] oneRecord comesBack c hrun
  rw [htwo] at hle
  revert hle
  decide +kernel

end ReplayDlq

end ClickRec.Kafka
