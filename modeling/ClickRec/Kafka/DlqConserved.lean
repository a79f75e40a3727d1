import ClickRec.Kafka.DlqRoundTrip

/-! # Invocations of `replay_dlq`, one after the other

An invocation may end anywhere, and the next one reads on from what the group has committed. What
is committed has been dealt with: each record below the committed offset has a click or a row of the
quarantine file of its own, however often a batch was begun again. -/
namespace ClickRec.Kafka
set_option autoImplicit false
open WorkerLoop (PartitionLog)

namespace ReplayDlq
open ProcessOne (rawValue)

/-! ## Many invocations -/

/-- A step of the current invocation or of the others, or the next invocation starts. -/
inductive Run where
  | act (a : Act)
  | invoke

section Run
variable {σ : Type}

/-- What was running is gone, with its position and its counts. -/
def invoke (c : System σ) : System σ :=
  { c with replayer := ⟨.polling, c.committed.getD 0, 0, 0, 0⟩ }

def runStep (env : ProcessOne.Env σ) (c : System σ) : Run → Option (System σ)
  | .act a => step env c a
  | .invoke => some (invoke c)

end Run

/-! ## Dealing with a record -/

/-- The click has the payload of the record, and the user as its key. -/
inductive Replays (orjson : Orjson) (record click : ConsumerRecord) : Prop where
  | published {dlq_msg payload : List (String × Json)} {v : Json} {user_id : String} {value : Bytes} :
    orjson.loads (rawValue record) = .ok (.obj dlq_msg) →
    dlq_msg.lookup "original_payload" = some v → HasUser v payload user_id →
    orjson.dumps v = .ok value → click.value = some value →
    click.key = some user_id.toUTF8.data.toList → Replays orjson record click

/-- The row shows the record: its bytes if they are not JSON, and else the object that they are, which
has no payload with a user. -/
inductive Quarantines (orjson : Orjson) (record : ConsumerRecord) : Json → Prop where
  | unreadable {e : PyError} (ts_ms : ℤ) : orjson.loads (rawValue record) = .error e →
    Quarantines orjson record (envelopeParseFailed record ts_ms)
  | noUser {dlq_msg : List (String × Json)} : orjson.loads (rawValue record) = .ok (.obj dlq_msg) →
    (∀ v, dlq_msg.lookup "original_payload" = some v →
      ∀ payload user_id, ¬ HasUser v payload user_id) →
    Quarantines orjson record (.obj dlq_msg)

/-- One of the clicks, or one of the rows. -/
inductive Place where
  | click (i : ℕ)
  | row (i : ℕ)
  deriving DecidableEq

def Place.In (s : Sinks) : Place → Prop
  | click i => i < s.clicks.length
  | row i => i < s.quarantined.length

def Settles (orjson : Orjson) (record : ConsumerRecord) (s : Sinks) : Place → Prop
  | .click i => ∃ click, s.clicks[i]? = some click ∧ Replays orjson record click
  | .row i => ∃ row, s.quarantined[i]? = some row ∧ Quarantines orjson record row

/-- Clicks and rows were added at the ends. -/
structure Sinks.Extends (s s' : Sinks) : Prop where
  clicks : s.clicks <+: s'.clicks
  quarantined : s.quarantined <+: s'.quarantined

theorem Sinks.Extends.refl (s : Sinks) : s.Extends s := ⟨List.prefix_rfl, List.prefix_rfl⟩

theorem Sinks.Extends.publish (s : Sinks) (value : Bytes) (user_id : String) (partition : ℕ) :
    s.Extends (s.publish value user_id partition) := ⟨List.prefix_append _ _, List.prefix_rfl⟩

theorem Sinks.Extends.quarantine (s : Sinks) (row : Json) : s.Extends (s.quarantine row) :=
  ⟨List.prefix_rfl, List.prefix_append _ _⟩

section Settles
variable {orjson : Orjson} {record : ConsumerRecord} {s s' : Sinks} {place : Place}

theorem Settles.inside (h : Settles orjson record s place) : place.In s := by
  cases place with
  | click i =>
    obtain ⟨click, hget, -⟩ := h
    exact (List.getElem?_eq_some_iff.mp hget).1
  | row i =>
    obtain ⟨row, hget, -⟩ := h
    exact (List.getElem?_eq_some_iff.mp hget).1

theorem Settles.extends (h : Settles orjson record s place) (hs : s.Extends s') :
    Settles orjson record s' place := by
  cases place with
  | click i =>
    obtain ⟨click, hget, hreplays⟩ := h
    obtain ⟨hi, rfl⟩ := List.getElem?_eq_some_iff.mp hget
    exact ⟨_, List.prefix_iff_getElem?.mp hs.clicks i hi, hreplays⟩
  | row i =>
    obtain ⟨row, hget, hrow⟩ := h
    obtain ⟨hi, rfl⟩ := List.getElem?_eq_some_iff.mp hget
    exact ⟨_, List.prefix_iff_getElem?.mp hs.quarantined i hi, hrow⟩

/-- Only text that is no JSON, or an object, is ever dealt with. -/
theorem Settles.readable {v : Json} (h : Settles orjson record s place)
    (hloads : orjson.loads (rawValue record) = .ok v) : ∃ dlq_msg, v = .obj dlq_msg := by
  cases place with
  | click i =>
    obtain ⟨click, -, hobject, -⟩ := h
    exact ⟨_, Except.ok.inj (hloads.symm.trans hobject)⟩
  | row i =>
    obtain ⟨row, -, hrow⟩ := h
    cases hrow with
    | unreadable _ herror => cases hloads.symm.trans herror
    | noUser hobject _ => exact ⟨_, Except.ok.inj (hloads.symm.trans hobject)⟩

end Settles

/-! ## What `_handle_dlq_record` does to the clicks and the rows -/

section Handle
variable {orjson : Orjson} {record : ConsumerRecord}

theorem quarantine_extends (row : Json) (replies : Replies) (s : Sinks) :
    s.Extends (quarantine row replies s).2 := by
  rw [quarantine]
  cases replies.file with
  | none => exact .quarantine s row
  | some e => exact .refl s

theorem quarantine_ok {row : Json} {replies : Replies} {s s' : Sinks} {h : Handled}
    (hok : quarantine row replies s = (.ok h, s')) : s' = s.quarantine row := by
  rw [quarantine] at hok
  cases hfile : replies.file with
  | none =>
    rw [hfile] at hok
    exact (Prod.mk.inj hok).2.symm
  | some e =>
    rw [hfile] at hok
    cases (Prod.mk.inj hok).1

/-- The ways through: to the quarantine file, to `user.clicks`, or no further than `.get`. -/
inductive Ways (orjson : Orjson) (record : ConsumerRecord) (replies : Replies) (s : Sinks) :
    Except PyError Handled × Sinks → Prop where
  | quarantined {row : Json} : Quarantines orjson record row →
    Ways orjson record replies s (quarantine row replies s)
  | replayed {dlq_msg payload : List (String × Json)} {v : Json} {user_id : String} :
    orjson.loads (rawValue record) = .ok (.obj dlq_msg) →
    dlq_msg.lookup "original_payload" = some v → HasUser v payload user_id →
    Ways orjson record replies s (sendClick orjson v user_id replies s)
  | noAttribute {v : Json} : orjson.loads (rawValue record) = .ok v →
    (∀ dlq_msg, v ≠ .obj dlq_msg) → Ways orjson record replies s (.error (noAttributeGet v), s)

theorem ways (orjson : Orjson) (record : ConsumerRecord) (replies : Replies) (s : Sinks) :
    Ways orjson record replies s (handleDlqRecord orjson record replies s) := by
  cases hloads : orjson.loads (rawValue record) with
  | error e =>
    rw [handleDlqRecord_notJson hloads]
    exact .quarantined (.unreadable replies.ts_ms hloads)
  | ok v =>
    by_cases hobject : ∃ dlq_msg, v = .obj dlq_msg
    · obtain ⟨dlq_msg, rfl⟩ := hobject
      by_cases huser : ∃ v, dlq_msg.lookup "original_payload" = some v ∧
          ∃ payload user_id, HasUser v payload user_id
      · obtain ⟨v, hv, payload, user_id, huser⟩ := huser
        rw [handleDlqRecord_hasUser hloads hv huser, ← huser.object]
        exact .replayed hloads hv huser
      · have hnone : ∀ v, dlq_msg.lookup "original_payload" = some v →
            ∀ payload user_id, ¬ HasUser v payload user_id :=
          fun v hv payload user_id h => huser ⟨v, hv, payload, user_id, h⟩
        rw [handleDlqRecord_noUser hloads hnone]
        exact .quarantined (.noUser hloads hnone)
    · have hv : ∀ dlq_msg, v ≠ .obj dlq_msg := fun dlq_msg h => hobject ⟨dlq_msg, h⟩
      rw [handleDlqRecord_notObject hloads hv]
      exact .noAttribute hloads hv

theorem handleDlqRecord_extends (orjson : Orjson) (record : ConsumerRecord) (replies : Replies)
    (s : Sinks) : s.Extends (handleDlqRecord orjson record replies s).2 := by
  have hways := ways orjson record replies s
  generalize handleDlqRecord orjson record replies s = result at hways ⊢
  cases hways with
  | quarantined => exact quarantine_extends _ replies s
  | @replayed dlq_msg payload v user_id =>
    cases hdumps : orjson.dumps v with
    | error e =>
      rw [sendClick, hdumps]
      exact .refl s
    | ok value =>
      rw [sendClick_dumped hdumps]
      cases replies.send with
      | ack => exact .publish s value user_id replies.partition
      | failed e stored =>
        cases stored with
        | true => exact .publish s value user_id replies.partition
        | false => exact .refl s
  | noAttribute => exact .refl s

/-- It returns with a click or a row more, which deals with the record. -/
theorem handleDlqRecord_settles {replies : Replies} {s s' : Sinks} {h : Handled}
    (hok : handleDlqRecord orjson record replies s = (.ok h, s')) :
    ∃ place, Settles orjson record s' place ∧ ¬ place.In s := by
  have hways := ways orjson record replies s
  rw [hok] at hways
  generalize hresult : ((.ok h, s') : Except PyError Handled × Sinks) = result at hways
  cases hways with
  | @quarantined row hrow =>
    obtain rfl := quarantine_ok hresult.symm
    exact ⟨.row s.quarantined.length, ⟨row, List.getElem?_concat_length, hrow⟩, lt_irrefl _⟩
  | @replayed dlq_msg payload v user_id hloads hv huser =>
    cases hdumps : orjson.dumps v with
    | error e =>
      rw [sendClick, hdumps] at hresult
      cases (Prod.mk.inj hresult).1
    | ok value =>
      rw [sendClick_dumped hdumps] at hresult
      cases hsend : replies.send with
      | ack =>
        rw [hsend] at hresult
        obtain ⟨-, rfl⟩ := Prod.mk.inj hresult
        exact ⟨.click s.clicks.length, ⟨clickRecord value user_id replies.partition s,
          List.getElem?_concat_length, .published hloads hv huser hdumps rfl rfl⟩, lt_irrefl _⟩
      | failed e stored =>
        rw [hsend] at hresult
        cases (Prod.mk.inj hresult).1
  | noAttribute => cases (Prod.mk.inj hresult).1

end Handle

/-! ## The steps -/

/-- Up to where the records have been dealt with, when the group has committed up to `p`. -/
def Loop.Reached (p q : ℕ) : Loop → Prop
  | polling => q = p
  | handling _ none => q = p
  | handling _ (some last) => q = last + 1
  | raised _ => True

section Invariant
variable {σ : Type} {env : ProcessOne.Env σ}

/-- What a step does to the offsets, and what of the rest it keeps. -/
inductive Turn (env : ProcessOne.Env σ) (c c' : System σ) : Prop where
  | kept : c.dlq.Extends c'.dlq → c.sinks.Extends c'.sinks → c'.committed = c.committed →
    c'.replayer.position = c.replayer.position →
    (∀ rest, c.replayer.loop.Left rest → c'.replayer.loop.Left rest) →
    (∀ p q, c.replayer.loop.Reached p q → c'.replayer.loop.Reached p q) → Turn env c c'
  | fetched {n : ℕ} {r : ConsumerRecord} {rs : List ConsumerRecord} :
    c.replayer.loop = .polling → c.dlq.fetch c.replayer.position n = r :: rs → c'.dlq = c.dlq →
    c'.sinks = c.sinks → c'.committed = c.committed →
    c'.replayer.position = (rs.getLastD r).offset + 1 →
    c'.replayer.loop = .handling (r :: rs) none → Turn env c c'
  | handled {replies : Replies} {r : ConsumerRecord} {rs : List ConsumerRecord} {last : Option ℕ}
      {h : Handled} : c.replayer.loop = .handling (r :: rs) last →
    handleDlqRecord env.orjson r replies c.sinks = (.ok h, c'.sinks) → c'.dlq = c.dlq →
    c'.committed = c.committed → c'.replayer.position = c.replayer.position →
    c'.replayer.loop = .handling rs (some r.offset) → Turn env c c'
  | committed {last : ℕ} : c.replayer.loop = .handling [] (some last) → c'.dlq = c.dlq →
    c'.sinks = c.sinks → c'.committed = some (last + 1) →
    c'.replayer.position = c.replayer.position →
    (c'.replayer.loop = .polling ∨ ∃ e, c'.replayer.loop = .raised e) → Turn env c c'
  | invoked : c'.dlq = c.dlq → c'.sinks = c.sinks → c'.committed = c.committed →
    c'.replayer.position = c.committed.getD 0 → c'.replayer.loop = .polling → Turn env c c'

/-- An exception leaves the loop. -/
theorem Turn.raise {c c' : System σ} {e : PyError} (hdlq : c'.dlq = c.dlq)
    (hsinks : c.sinks.Extends c'.sinks) (hcommitted : c'.committed = c.committed)
    (hpos : c'.replayer.position = c.replayer.position) (hloop : c'.replayer.loop = .raised e) :
    Turn env c c' := by
  refine .kept ?_ hsinks hcommitted hpos (fun rest _ => ?_) (fun p q _ => ?_)
  · rw [hdlq]
    exact .refl c.dlq
  · rw [hloop]
    trivial
  · rw [hloop]
    trivial

/-- The replayer and what it committed are left as they are. -/
theorem Turn.others {c c' : System σ} (hdlq : c.dlq.Extends c'.dlq)
    (hsinks : c.sinks.Extends c'.sinks) (hcommitted : c'.committed = c.committed)
    (hreplayer : c'.replayer = c.replayer) : Turn env c c' := by
  refine .kept hdlq hsinks hcommitted ?_ (fun rest h => ?_) (fun p q h => ?_)
  · rw [hreplayer]
  · rwa [hreplayer]
  · rwa [hreplayer]

theorem turn_getmany {c c' : System σ} {n : ℕ} (h : getmanyStep c n = some c') : Turn env c c' := by
  rw [getmanyStep] at h
  split at h
  · rename_i hloop
    split at h
    · split at h
      · cases h
        exact .kept (.refl c.dlq) (.refl c.sinks) rfl rfl (fun _ hleft => hleft)
          fun _ _ hreached => hreached
      · rename_i r rs hfetch
        cases h
        exact .fetched hloop hfetch rfl rfl rfl rfl rfl
    · cases h
  · cases h

theorem turn_handle {c c' : System σ} {replies : Replies}
    (h : handleStep env.orjson c replies = some c') : Turn env c c' := by
  rw [handleStep] at h
  split at h
  · rename_i r rs last hloop
    split at h
    · rename_i handled sinks hhandled
      cases h
      refine .handled hloop hhandled rfl rfl ?_ rfl
      cases handled with
      | replayed => rfl
      | skipped => rfl
    · rename_i e sinks hraised
      cases h
      have hextends := handleDlqRecord_extends env.orjson r replies c.sinks
      rw [hraised] at hextends
      exact .raise rfl hextends rfl rfl rfl
  · cases h

theorem turn_commit {c c' : System σ} {reply : Reply} (h : commitStep c reply = some c') :
    Turn env c c' := by
  rw [commitStep] at h
  split at h
  · rename_i hloop
    cases h
    refine .kept (.refl c.dlq) (.refl c.sinks) rfl rfl (fun rest hleft => ?_) fun p q hreached => ?_
    · rw [hloop] at hleft
      exact hleft
    · rw [hloop] at hreached
      exact hreached
  · rename_i last hloop
    cases reply with
    | ack =>
      cases h
      exact .committed hloop rfl rfl rfl rfl (.inl rfl)
    | failed e stored =>
      cases h
      cases stored with
      | true => exact .committed hloop rfl rfl rfl rfl (.inr ⟨e, rfl⟩)
      | false => exact .raise rfl (.refl c.sinks) rfl rfl rfl
  · cases h

theorem turn {c c' : System σ} {a : Run} (h : runStep env c a = some c') : Turn env c c' := by
  cases a with
  | invoke =>
    cases h
    exact .invoked rfl rfl rfl rfl rfl
  | act a =>
    cases a with
    | getmany n => exact turn_getmany h
    | handle replies => exact turn_handle h
    | commit reply => exact turn_commit h
    | raises e =>
      simp only [runStep, step] at h
      split at h
      · cases h
      · cases h
        exact .raise rfl (.refl c.sinks) rfl rfl rfl
    | processOne i stored =>
      simp only [runStep, step] at h
      split at h
      · cases h
      · rename_i record _
        cases h
        exact .others ((withDlq_keeps env stored c.dlq).processOne record (.refl c.dlq))
          (.refl c.sinks) rfl rfl
    | click record =>
      cases h
      exact .others (.refl c.dlq) ⟨List.prefix_append _ _, List.prefix_rfl⟩ rfl rfl

/-! ## The invariant -/

/-- The records from the offset at which the group began up to `q` have places of their own. -/
structure Dealt (env : ProcessOne.Env σ) (first q : ℕ) (c : System σ) (own : ℕ → Place) : Prop where
  settles : ∀ r ∈ c.dlq.records, first ≤ r.offset → r.offset < q →
    Settles env.orjson r c.sinks (own r.offset)
  apart : ∀ r ∈ c.dlq.records, ∀ r' ∈ c.dlq.records, first ≤ r.offset → first ≤ r'.offset →
    r.offset < q → r'.offset < q → own r.offset = own r'.offset → r.offset = r'.offset

/-- The records before `q` have been dealt with, and from there on lie those of the batch that are
left, and those to be polled. -/
structure Conserved (env : ProcessOne.Env σ) (first : ℕ) (c : System σ) (q : ℕ) : Prop where
  committed : c.committed.getD 0 ≤ q
  within : q ≤ c.dlq.endOffset
  fetched : c.replayer.position ≤ c.dlq.endOffset
  reached : c.replayer.loop.Reached (c.committed.getD 0) q
  order : ∃ rest, c.replayer.loop.Left rest ∧
    c.dlq.fromOffset q = rest ++ c.dlq.fromOffset c.replayer.position
  dealt : ∃ own, Dealt env first q c own

theorem conserved_start (env : ProcessOne.Env σ) (deps : σ) (clicks : List ConsumerRecord)
    (g : GroupLog) :
    Conserved env (g.committed.getD 0) (start deps clicks g) (g.committed.getD 0) where
  committed := le_rfl
  within := g.in_log
  fetched := g.in_log
  reached := rfl
  order := ⟨[], rfl, rfl⟩
  dealt := ⟨fun _ => .click 0, fun _ _ _ _ => by omega, fun _ _ _ _ _ _ _ => by omega⟩

theorem eq_of_offset {log : PartitionLog} {r r' : ConsumerRecord} (hr : r ∈ log.records)
    (hr' : r' ∈ log.records) (h : r.offset = r'.offset) : r = r' := by
  have hdistinct : (log.records.map ConsumerRecord.offset).Nodup :=
    List.pairwise_map.mpr (log.increasing.imp fun hlt => hlt.ne)
  exact List.inj_on_of_nodup_map hdistinct hr hr' h

/-- A record of the longer log before the end of the shorter one. -/
theorem mem_of_extends {log log' : PartitionLog} (h : log.Extends log') {r : ConsumerRecord}
    (hr : r ∈ log'.records) (hlt : r.offset < log.endOffset) : r ∈ log.records := by
  obtain ⟨more, hmore, hnew⟩ := h
  rw [hmore] at hr
  obtain hr | hr := List.mem_append.mp hr
  · exact hr
  · have := hnew r hr
    omega

theorem Dealt.grow {first q q' : ℕ} {c c' : System σ} {own : ℕ → Place}
    (h : Dealt env first q c own) (hq : q' ≤ q) (hwithin : q ≤ c.dlq.endOffset)
    (hdlq : c.dlq.Extends c'.dlq) (hsinks : c.sinks.Extends c'.sinks) : Dealt env first q' c' own := by
  have hold : ∀ r ∈ c'.dlq.records, r.offset < q' → r ∈ c.dlq.records := by
    intro r hr hlt
    exact mem_of_extends hdlq hr (by omega)
  constructor
  · intro r hr hfirst hlt
    exact (h.settles r (hold r hr hlt) hfirst (by omega)).extends hsinks
  · intro r hr r' hr' hfirst hfirst' hlt hlt' heq
    exact h.apart r (hold r hr hlt) r' (hold r' hr' hlt') hfirst hfirst' (by omega) (by omega) heq

/-- The next record gets a place that nothing had before. -/
theorem Dealt.next {first q : ℕ} {c c' : System σ} {own : ℕ → Place} (h : Dealt env first q c own)
    {r : ConsumerRecord} {rest : List ConsumerRecord} (horder : c.dlq.fromOffset q = r :: rest)
    (hdlq : c'.dlq = c.dlq) (hsinks : c.sinks.Extends c'.sinks) {place : Place}
    (hplace : Settles env.orjson r c'.sinks place) (hnew : ¬ place.In c.sinks) :
    Dealt env first (r.offset + 1) c' (Function.update own r.offset place) := by
  -- a record before `r.offset + 1` is `r`, or was dealt with before
  have hsplit : ∀ x ∈ c.dlq.records, x.offset < r.offset + 1 → x = r ∨ x.offset < q := by
    intro x hx hlt
    by_cases hq : x.offset < q
    · exact .inr hq
    · have hmem : x ∈ c.dlq.fromOffset q := List.mem_filter.mpr ⟨hx, by simpa using hq⟩
      have hsorted : (r :: rest).Pairwise fun a b => a.offset < b.offset :=
        horder ▸ c.dlq.increasing.filter _
      rw [horder] at hmem
      obtain rfl | hmem := List.mem_cons.mp hmem
      · exact .inl rfl
      · have := (List.pairwise_cons.mp hsorted).1 x hmem
        omega
  have hnext : c.dlq.fromOffset q = [] ++ r :: rest := horder
  have hq : q ≤ r.offset := (PartitionLog.fromOffset_succ hnext).1
  have hother : ∀ x : ConsumerRecord, x.offset < q →
      Function.update own r.offset place x.offset = own x.offset :=
    fun x hx => Function.update_of_ne (by omega) _ _
  have hold : ∀ x ∈ c.dlq.records, first ≤ x.offset → x.offset < q → own x.offset ≠ place := by
    rintro x hx hfirst hlt rfl
    exact hnew (h.settles x hx hfirst hlt).inside
  constructor
  · intro x hx hfirst hlt
    rw [hdlq] at hx
    obtain rfl | hlt := hsplit x hx hlt
    · rw [Function.update_self]
      exact hplace
    · rw [hother x hlt]
      exact (h.settles x hx hfirst hlt).extends hsinks
  · intro x hx y hy hfirst hfirst' hlt hlt' heq
    rw [hdlq] at hx hy
    obtain rfl | hxq := hsplit x hx hlt
    · obtain rfl | hyq := hsplit y hy hlt'
      · rfl
      · rw [Function.update_self, hother y hyq] at heq
        exact absurd heq.symm (hold y hy hfirst' hyq)
    · obtain rfl | hyq := hsplit y hy hlt'
      · rw [Function.update_self, hother x hxq] at heq
        exact absurd heq (hold x hx hfirst hxq)
      · rw [hother x hxq, hother y hyq] at heq
        exact h.apart x hx y hy hfirst hfirst' hxq hyq heq

theorem conserved_step {first q : ℕ} {c c' : System σ} {a : Run} (h : Conserved env first c q)
    (hstep : runStep env c a = some c') : ∃ q', Conserved env first c' q' := by
  obtain ⟨hcommitted, hwithin, hfetched, hreached, ⟨rest, hleft, horder⟩, own, hdealt⟩ := h
  cases turn hstep with
  | kept hdlq hsinks hcommitted' hpos hleft' hreached' =>
    obtain ⟨more, -, hfrom⟩ := hdlq.fromOffset
    refine ⟨q, ?_, hwithin.trans hdlq.endOffset_le, ?_, ?_, ⟨rest, hleft' rest hleft, ?_⟩, own,
      hdealt.grow le_rfl hwithin hdlq hsinks⟩
    · rw [hcommitted']
      exact hcommitted
    · rw [hpos]
      exact hfetched.trans hdlq.endOffset_le
    · rw [hcommitted']
      exact hreached' _ q hreached
    · rw [hpos, hfrom q hwithin, hfrom _ hfetched, horder, List.append_assoc]
  | @fetched n r rs hloop hfetch hdlq hsinks hcommitted' hpos hloop' =>
    obtain ⟨-, hlt, hsplit⟩ := PartitionLog.fetch_cons hfetch
    rw [hloop] at hleft hreached
    obtain rfl : rest = [] := hleft
    refine ⟨q, ?_, ?_, ?_, ?_, ⟨r :: rs, ?_, ?_⟩, own, hdealt.grow le_rfl hwithin ?_ ?_⟩
    · rw [hcommitted']
      exact hcommitted
    · rw [hdlq]
      exact hwithin
    · rw [hpos, hdlq]
      exact hlt
    · rw [hloop', hcommitted']
      exact hreached
    · rw [hloop']
      rfl
    · rw [hdlq, hpos, horder, hsplit]
      rfl
    · rw [hdlq]
      exact .refl c.dlq
    · rw [hsinks]
      exact .refl c.sinks
  | @handled replies r rs last handled hloop hok hdlq hcommitted' hpos hloop' =>
    rw [hloop] at hleft
    obtain rfl : rest = r :: rs := hleft
    have hnext : c.dlq.fromOffset q = [] ++ r :: (rs ++ c.dlq.fromOffset c.replayer.position) :=
      horder
    obtain ⟨hle, hlt, hrest⟩ := PartitionLog.fromOffset_succ hnext
    have hextends := handleDlqRecord_extends env.orjson r replies c.sinks
    rw [hok] at hextends
    obtain ⟨place, hplace, hnew⟩ := handleDlqRecord_settles hok
    refine ⟨r.offset + 1, ?_, ?_, ?_, ?_, ⟨rs, ?_, ?_⟩, _,
      hdealt.next hnext hdlq hextends hplace hnew⟩
    · rw [hcommitted']
      omega
    · rw [hdlq]
      exact hlt
    · rw [hpos, hdlq]
      exact hfetched
    · rw [hloop']
      rfl
    · rw [hloop']
      rfl
    · rw [hdlq, hpos, hrest]
  | @committed last hloop hdlq hsinks hcommitted' hpos hloop' =>
    rw [hloop] at hleft hreached
    obtain rfl : rest = [] := hleft
    obtain rfl : q = last + 1 := hreached
    refine ⟨last + 1, ?_, ?_, ?_, ?_, ⟨[], ?_, ?_⟩, own, hdealt.grow le_rfl hwithin ?_ ?_⟩
    · rw [hcommitted']
      exact le_rfl
    · rw [hdlq]
      exact hwithin
    · rw [hpos, hdlq]
      exact hfetched
    · rw [hcommitted']
      obtain hloop' | ⟨e, hloop'⟩ := hloop'
      · rw [hloop']
        rfl
      · rw [hloop']
        trivial
    · obtain hloop' | ⟨e, hloop'⟩ := hloop'
      · rw [hloop']
        rfl
      · rw [hloop']
        trivial
    · rw [hdlq, hpos]
      exact horder
    · rw [hdlq]
      exact .refl c.dlq
    · rw [hsinks]
      exact .refl c.sinks
  | invoked hdlq hsinks hcommitted' hpos hloop' =>
    refine ⟨c.committed.getD 0, ?_, ?_, ?_, ?_, ⟨[], ?_, ?_⟩, own, hdealt.grow hcommitted hwithin ?_ ?_⟩
    · rw [hcommitted']
    · rw [hdlq]
      exact hcommitted.trans hwithin
    · rw [hpos, hdlq]
      exact hcommitted.trans hwithin
    · rw [hloop', hcommitted']
      rfl
    · rw [hloop']
      rfl
    · rw [hdlq, hpos]
      rfl
    · rw [hdlq]
      exact .refl c.dlq
    · rw [hsinks]
      exact .refl c.sinks

theorem conserved_exec {deps : σ} {clicks : List ConsumerRecord} {g : GroupLog} {as : List Run}
    {c : System σ} (hrun : Trace.exec (runStep env) (start deps clicks g) as = some c) :
    ∃ q, Conserved env (g.committed.getD 0) c q :=
  Trace.exec_preserves (I := fun c => ∃ q, Conserved env (g.committed.getD 0) c q)
    (fun _ _ _ ⟨_, h⟩ hstep => conserved_step h hstep) hrun
    ⟨_, conserved_start env deps clicks g⟩

/-! ## What is committed -/

/-- The records that the group has passed since it began at `first`. -/
def passed (first : ℕ) (c : System σ) : List ConsumerRecord :=
  c.dlq.records.filter fun r => first ≤ r.offset ∧ r.offset < c.committed.getD 0

/-- However often invocations end anywhere and others begin, each record that the group has passed
is on `user.clicks` or in the quarantine file, at a place of its own. -/
theorem passed_settled (env : ProcessOne.Env σ) (deps : σ) (clicks : List ConsumerRecord)
    (g : GroupLog) (as : List Run) (c : System σ)
    (hrun : Trace.exec (runStep env) (start deps clicks g) as = some c) :
    ∃ own : ConsumerRecord → Place,
      (∀ r ∈ passed (g.committed.getD 0) c, Settles env.orjson r c.sinks (own r)) ∧
      ∀ r ∈ passed (g.committed.getD 0) c, ∀ r' ∈ passed (g.committed.getD 0) c,
        own r = own r' → r = r' := by
  obtain ⟨q, h⟩ := conserved_exec hrun
  obtain ⟨own, hdealt⟩ := h.dealt
  have hmem : ∀ r ∈ passed (g.committed.getD 0) c,
      r ∈ c.dlq.records ∧ g.committed.getD 0 ≤ r.offset ∧ r.offset < q := by
    intro r hr
    obtain ⟨hr, hbounds⟩ := List.mem_filter.mp hr
    obtain ⟨hfirst, hlt⟩ := of_decide_eq_true hbounds
    exact ⟨hr, hfirst, hlt.trans_le h.committed⟩
  refine ⟨fun r => own r.offset, fun r hr => ?_, fun r hr r' hr' heq => ?_⟩
  · obtain ⟨hr, hfirst, hlt⟩ := hmem r hr
    exact hdealt.settles r hr hfirst hlt
  · obtain ⟨hr, hfirst, hlt⟩ := hmem r hr
    obtain ⟨hr', hfirst', hlt'⟩ := hmem r' hr'
    have hoffset := hdealt.apart r hr r' hr' hfirst hfirst' hlt hlt' heq
    exact eq_of_offset hr hr' hoffset

/-- A record that is JSON but no object is never passed. -/
theorem not_passed {deps : σ} {clicks : List ConsumerRecord} {g : GroupLog} {as : List Run}
    {c : System σ} (hrun : Trace.exec (runStep env) (start deps clicks g) as = some c)
    {r : ConsumerRecord} {v : Json} (hloads : env.orjson.loads (rawValue r) = .ok v)
    (hv : ∀ dlq_msg, v ≠ .obj dlq_msg) : r ∉ passed (g.committed.getD 0) c := by
  intro hr
  obtain ⟨own, hsettles, -⟩ := passed_settled env deps clicks g as c hrun
  obtain ⟨dlq_msg, rfl⟩ := (hsettles r hr).readable hloads
  exact hv dlq_msg rfl

end Invariant

/-! ## An invocation that ends before it commits -/

/-- The record is replayed, the commit does not arrive, and the next invocation replays it again. -/
def begunAgain : List Run :=
  [.act (.getmany 10), .act (.handle acked), .act (.commit (.failed ⟨"KafkaError", "", ""⟩ false)),
    .invoke, .act (.getmany 10), .act (.handle acked), .act (.commit .ack)]

theorem passed_settled_begunAgain : ∃ c,
    Trace.exec (runStep rejecting) (start () [rejected] oneRecord) begunAgain = some c ∧
      c.sinks.clicks.length = 3 ∧ ∃ own : ConsumerRecord → Place,
        (∀ r ∈ passed 0 c, Settles plainJson r c.sinks (own r)) ∧
          ∀ r ∈ passed 0 c, ∀ r' ∈ passed 0 c, own r = own r' → r = r' := by
  have hmap : (Trace.exec (runStep rejecting) (start () [rejected] oneRecord) begunAgain).map
      (fun c => c.sinks.clicks.length) = some 3 := by decide +kernel
  obtain ⟨c, hrun, hthree⟩ := Option.map_eq_some_iff.mp hmap
  exact ⟨c, hrun, hthree, passed_settled rejecting () [rejected] oneRecord begunAgain c hrun⟩

end ReplayDlq

end ClickRec.Kafka
