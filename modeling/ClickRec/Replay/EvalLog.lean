import ClickRec.Eval.ReplayLog
import ClickRec.Replay.ClickPlaces

/-! # The eval log

`load_replay_triples` reads back what the runs of the generator wrote. -/
namespace ClickRec.Replay
set_option autoImplicit false
open Eval (LogRow acceptedRow acceptedRows asRow complete fields hashKey lastRows loadReplayTriples
  loadRows_ok map_lastRows readRow Raises)
open Llm.Client (JsonLib isSpace strip)

/-! ## Lines -/

/-- `orjson.dumps` writes a dict between braces, and `json.loads` reads it back. -/
structure ReadsBack (json : JsonLib) (dumps : Json → String) (entries : List (String × Json)) :
    Prop where
  braces : ∃ body : String, dumps (.obj entries) = "\x7b" ++ body ++ "\x7d"
  loads : json.loads (dumps (.obj entries)) = .ok (.obj entries)

theorem strip_line (body : String) :
    strip ("\x7b" ++ body ++ "\x7d" ++ "\n") = "\x7b" ++ body ++ "\x7d" := by
  have hopen : isSpace '\x7b' = false := by decide
  have hclose : isSpace '\x7d' = false := by decide
  have hend : isSpace '\n' = true := by decide
  apply String.toList_injective
  simp [strip, hopen, hclose, hend]

/-! ## The rows of the clicks -/

/-- The user, the query and the item of a click. -/
def clickRow : Event → Option (String × String × String)
  | .click _ visit item_id _ _ => some (visit.user_id, visit.query, item_id)
  | _ => none

def clickRows (sent : List Event) : List (String × String × String) := sent.filterMap clickRow

/-- No field of a click is the empty text. -/
def Named (e : Event) : Prop :=
  ∀ row ∈ clickRow e, row.1 ≠ "" ∧ row.2.1 ≠ "" ∧ row.2.2 ≠ ""

section Rows
variable {json : JsonLib} {dumps : Json → String}

theorem readRow_click {e : Event} (h : ReadsBack json dumps e.dict) {row : String × String × String}
    (hrow : clickRow e = some row) (hnamed : Named e) :
    readRow json (dumps (.obj e.dict) ++ "\n") = .ok (some (asRow row)) := by
  obtain ⟨body, hbody⟩ := h.braces
  have hstrip : strip (dumps (.obj e.dict) ++ "\n") = dumps (.obj e.dict) := by
    rw [hbody, strip_line]
  have hblank : dumps (.obj e.dict) ≠ "" := by
    rw [hbody]
    intro heq
    have := congrArg String.length heq
    simp at this
  have hfields : fields e.dict = asRow row := by
    cases e with
    | search => cases hrow
    | impression => cases hrow
    | click event_id visit item_id rank_position dwell_ms =>
      rw [← Option.some.inj hrow]
      rfl
  obtain ⟨huser, hquery, hitem⟩ := hnamed row hrow
  have hcomplete : complete (asRow row) = true := by
    simp [complete, asRow, Eval.truthy, huser, hquery, hitem]
  unfold readRow
  simp only [hstrip, if_neg hblank, h.loads, hfields, hcomplete, if_true]

theorem acceptedRows_clickLines {sent : List Event}
    (h : ∀ e ∈ sent, isClick e = true → ReadsBack json dumps e.dict) (hnamed : ∀ e ∈ sent, Named e) :
    acceptedRows json (clickLines dumps sent) = (clickRows sent).map asRow := by
  induction sent with
  | nil => rfl
  | cons e sent ih =>
    obtain ⟨he, hsent⟩ := List.forall_mem_cons.mp hnamed
    obtain ⟨hread, hreads⟩ := List.forall_mem_cons.mp h
    have ih := ih hreads hsent
    cases e with
    | search => exact ih
    | impression => exact ih
    | click event_id visit item_id rank_position dwell_ms =>
      have hread := readRow_click (hread rfl) rfl he
      have haccept : acceptedRow json
          (dumps (.obj (Event.click event_id visit item_id rank_position dwell_ms).dict) ++ "\n") =
            some (asRow (visit.user_id, visit.query, item_id)) := by
        rw [acceptedRow, hread]
      rw [acceptedRows] at ih ⊢
      rw [clickLines, List.filter_cons_of_pos rfl, List.map_cons, List.filterMap_cons, haccept,
        ← clickLines, ih]
      rfl

theorem not_raises {sent : List Event}
    (h : ∀ e ∈ sent, isClick e = true → ReadsBack json dumps e.dict) (hnamed : ∀ e ∈ sent, Named e) :
    ∀ line ∈ clickLines dumps sent, ¬ Raises json line := by
  intro line hline
  obtain ⟨e, he, rfl⟩ := List.mem_map.mp hline
  obtain ⟨hsent, hclick⟩ := List.mem_filter.mp he
  obtain ⟨row, hrow⟩ : ∃ row, clickRow e = some row := by
    cases e with
    | search => cases hclick
    | impression => cases hclick
    | click event_id visit item_id rank_position dwell_ms => exact ⟨_, rfl⟩
  have hread := readRow_click (h e hsent hclick) hrow (hnamed e hsent)
  obtain ⟨-, ⟨e', herror⟩ | ⟨row', hrow', hkey⟩⟩ | ⟨hnot, -⟩ :=
    Eval.readRow_cases json (dumps (.obj e.dict) ++ "\n")
  · rw [hread] at herror
    cases herror
  · rw [hread] at hrow'
    rw [← Option.some.inj (Except.ok.inj hrow')] at hkey
    cases hkey
  · exact hnot

end Rows

/-! ## Runs with a log -/

/-- No id and no query is the empty text. -/
structure NamedCatalogue (cat : Catalogue) : Prop where
  users : ∀ user ∈ cat.users, user.1 ≠ ""
  queries : ∀ entry ∈ cat.candidates, entry.1 ≠ ""
  items : ∀ entry ∈ cat.candidates, ∀ c ∈ entry.2, c.id ≠ ""

section Runs
variable {cat : Catalogue} {pinned_brand : String → Option String}

theorem shown_subset (draw : QueryDraw) : ∀ c ∈ shown cat draw, c ∈ (cat.query draw).2 := by
  intro c hc
  unfold shown weightedTopK at hc
  split at hc
  · cases hc
  · obtain ⟨i, -, rfl⟩ := List.mem_map.mp hc
    exact List.get_mem _ i

theorem named_queryEvents (hcat : NamedCatalogue cat) (session : SessionDraw) (draw : QueryDraw) :
    ∀ e ∈ queryEvents cat pinned_brand (cat.user session) session.session_id draw, Named e := by
  intro e he row hrow
  unfold queryEvents at he
  split at he
  · cases he
  · obtain rfl | he := List.mem_cons.mp he
    · cases hrow
    · obtain rfl | he := List.mem_cons.mp he
      · cases hrow
      · obtain ⟨x, hx, rfl⟩ := List.mem_map.mp he
        obtain rfl := Option.some.inj hrow
        have hshown : x.1 ∈ shown cat draw := (clicksOf_items (cat.user session) draw).1 x hx
        exact ⟨hcat.users _ (List.get_mem _ _), hcat.queries _ (List.get_mem _ _),
          hcat.items _ (List.get_mem _ _) x.1 (shown_subset draw x.1 hshown)⟩

theorem named_streamFrom (hcat : NamedCatalogue cat) (draws : ℕ → SessionDraw) (fuel n : ℕ) :
    ∀ e ∈ streamFrom cat pinned_brand draws fuel n, Named e := by
  intro e he
  rw [streamFrom_eq] at he
  obtain ⟨i, -, he⟩ := List.mem_flatMap.mp he
  obtain ⟨draw, -, he⟩ := List.mem_flatMap.mp he
  exact named_queryEvents hcat (draws i) draw e he

end Runs

/-- **The log of a run is read back**, also when the run ended at a send that raised and was appended to
the log of earlier runs: for the users who clicked first, the query and the item of the last click of
each. -/
theorem replay_triples (json : JsonLib) (dumps : Json → String) (cat : Catalogue)
    (hcat : NamedCatalogue cat) (broker : ℕ → Option PyError) (pinned_brand : String → Option String)
    (num_events : ℤ) (draws : ℕ → SessionDraw) (older : List Event) (holder : ∀ e ∈ older, Named e)
    (fuel : ℕ) (hjson : ∀ e ∈ older ++ streamFrom cat pinned_brand draws fuel 0, isClick e = true →
      ReadsBack json dumps e.dict) (outcome : Outcome)
    (h : run dumps broker cat pinned_brand num_events draws (some (clickLines dumps older)) fuel =
      some outcome) (num_users : ℤ) (hn : 0 ≤ num_users) :
    loadReplayTriples json (progress outcome).log num_users =
      .ok (((lastRows (clickRows (older ++ (progress outcome).sent))).take num_users.toNat).map asRow) := by
  obtain ⟨hsends, hkept⟩ := run_sends dumps broker cat pinned_brand num_events draws _ fuel outcome h
  have hsent : ∀ e ∈ (progress outcome).sent, e ∈ streamFrom cat pinned_brand draws fuel 0 := by
    intro e he
    cases outcome with
    | ok p => exact List.mem_of_mem_take (hsends.1 ▸ he)
    | error x => exact List.mem_of_mem_take (hsends.1 ▸ he)
  have hstream : ∀ e ∈ older ++ (progress outcome).sent,
      e ∈ older ++ streamFrom cat pinned_brand draws fuel 0 := by
    intro e he
    obtain he | he := List.mem_append.mp he
    · exact List.mem_append_left _ he
    · exact List.mem_append_right _ (hsent e he)
  have hnamed : ∀ e ∈ older ++ (progress outcome).sent, Named e := by
    intro e he
    obtain he | he := List.mem_append.mp he
    · exact holder e he
    · exact named_streamFrom hcat draws fuel 0 e (hsent e he)
  have hlog : (progress outcome).log = some (clickLines dumps (older ++ (progress outcome).sent)) := by
    rw [hkept.log, Option.map_some, clickLines, clickLines, clickLines, List.filter_append, List.map_append]
  have hreads : ∀ e ∈ older ++ (progress outcome).sent, isClick e = true → ReadsBack json dumps e.dict :=
    fun e he => hjson e (hstream e he)
  rw [hlog, loadReplayTriples, loadRows_ok json (not_raises hreads hnamed),
    acceptedRows_clickLines hreads hnamed, List.map_take, map_lastRows]
  exact congrArg Except.ok (PyList.sliceTo_of_nonneg _ hn)

/-! ## The log of the sample session -/

def sampleText : Json → String
  | .str s => "\"" ++ s ++ "\""
  | .int i => toString i
  | .obj entries =>
    "\x7b" ++ ",".intercalate (entries.map fun e => "\"" ++ e.1 ++ "\":" ++ match e.2 with
      | .str s => "\"" ++ s ++ "\""
      | .int i => toString i
      | _ => "") ++ "\x7d"
  | _ => ""

def sampleClicks : List Event :=
  (sessionEvents sampleCatalogue (fun _ => none) sampleDraw).filter isClick

/-- Reads the texts of the two clicks. -/
def sampleLoads : JsonLib where
  loads text :=
    match sampleClicks.find? (fun e => sampleText (.obj e.dict) = text) with
    | some e => .ok (.obj e.dict)
    | none => .error ⟨"JSONDecodeError", "Expecting value: line 1 column 1 (char 0)", ""⟩
  loads_bytes _ := .error ⟨"JSONDecodeError", "Expecting value: line 1 column 1 (char 0)", ""⟩
  dumps := sampleText

theorem sampleLoads_reads : ∀ e ∈ [] ++ streamFrom sampleCatalogue (fun _ => none)
    (fun _ => sampleDraw) 9 0, isClick e = true → ReadsBack sampleLoads sampleText e.dict := by
  intro e he hclick
  rw [List.nil_append, streamFrom_eq] at he
  obtain ⟨-, -, he⟩ := List.mem_flatMap.mp he
  have hmem : e ∈ sampleClicks := List.mem_filter.mpr ⟨he, hclick⟩
  have hfind : ∀ e ∈ sampleClicks,
      sampleClicks.find? (fun e' => sampleText (.obj e'.dict) = sampleText (.obj e.dict)) = some e := by
    decide +kernel
  refine ⟨⟨_, rfl⟩, ?_⟩
  simp only [sampleLoads, hfind e hmem]

theorem replay_triples_sample : ∃ outcome,
    run sampleText sampleBroker sampleCatalogue (fun _ => none) 9 (fun _ => sampleDraw) (some []) 9 =
      some outcome ∧
    loadReplayTriples sampleLoads (progress outcome).log 5 =
      .ok (((lastRows (clickRows ([] ++ (progress outcome).sent))).take (5 : ℤ).toNat).map asRow) :=
  ⟨_, rfl, replay_triples sampleLoads sampleText sampleCatalogue
    ⟨by simp [sampleCatalogue], by simp [sampleCatalogue], by simp [sampleCatalogue, sampleItems]⟩
    sampleBroker (fun _ => none) 9 (fun _ => sampleDraw) [] (by simp) 9 sampleLoads_reads _ rfl 5
    (by decide)⟩

end ClickRec.Replay
