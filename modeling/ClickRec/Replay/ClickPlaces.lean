import ClickRec.Replay.ClickStream

/-! # The clicks of a run

Wherever a run stops, a click it sent comes after the search and the impression of its own query, and
names the place at which the impression shows the item. -/
namespace ClickRec.Replay
set_option autoImplicit false
open scoped List

/-! ## Elements of one block -/

/-- An element of the blocks lies in one of them, after the blocks before it. -/
theorem exists_block {α β : Type} {f : α → List β} {l : List α} {before after : List β} {x : β}
    (h : l.flatMap f = before ++ x :: after) :
    ∃ a ∈ l, ∃ older front back, f a = front ++ x :: back ∧ before = older ++ front := by
  induction l generalizing before with
  | nil => simp at h
  | cons a l ih =>
    rw [List.flatMap_cons, List.append_eq_append_iff] at h
    obtain ⟨rest, hbefore, hrest⟩ | ⟨rest, hblock, hafter⟩ := h
    · obtain ⟨b, hb, older, front, back, hfb, rfl⟩ := ih hrest
      exact ⟨b, List.mem_cons_of_mem a hb, f a ++ older, front, back, hfb, by
        rw [hbefore, List.append_assoc]⟩
    · cases rest with
      | nil =>
        have hhead : l.flatMap f = [] ++ x :: after := hafter.symm
        obtain ⟨b, hb, older, front, back, hfb, hnil⟩ := ih hhead
        obtain ⟨rfl, rfl⟩ := List.append_eq_nil_iff.mp hnil.symm
        exact ⟨b, List.mem_cons_of_mem a hb, before, [], back, hfb, (List.append_nil before).symm⟩
      | cons y rest =>
        obtain ⟨rfl, -⟩ := List.cons.inj hafter
        exact ⟨a, List.mem_cons_self, [], before, rest, hblock, rfl⟩

theorem streamFrom_eq (cat : Catalogue) (pinned_brand : String → Option String)
    (draws : ℕ → SessionDraw) (fuel n : ℕ) :
    streamFrom cat pinned_brand draws fuel n =
      (List.range' n fuel).flatMap fun i => sessionEvents cat pinned_brand (draws i) := by
  induction fuel generalizing n with
  | zero => rfl
  | succ fuel ih => rw [streamFrom, ih, List.range'_succ, List.flatMap_cons]

/-! ## One query -/

section Query
variable {cat : Catalogue} {pinned_brand : String → Option String}

theorem nodup_shown (draw : QueryDraw) : ((shown cat draw).map (·.id)).Nodup := by
  have hids : ((cat.query draw).2.map (·.id)).Nodup := cat.ids_nodup _ (List.get_mem _ _)
  unfold shown weightedTopK
  split
  · exact List.nodup_nil
  · rw [List.map_map]
    refine (draw.choice _ _ _).nodup.map fun i j hij => ?_
    have hsame := List.inj_on_of_nodup_map hids (List.get_mem _ i) (List.get_mem _ j) hij
    exact List.nodup_iff_injective_get.mp hids.of_map hsame

theorem length_shown (draw : QueryDraw) : (shown cat draw).length ≤ IMPRESSION_TOP_K := by
  unfold shown weightedTopK
  split
  · exact Nat.zero_le _
  · rw [List.length_map, (draw.choice _ _ _).length]
    exact min_le_left _ _

/-- The place of an item that is shown. -/
theorem rankPosition_of_mem {top_k : List Candidate} {c : Candidate} (hc : c ∈ top_k) (powered : ℚ) :
    ∃ i : ℕ, rankPosition top_k c powered = i ∧ (top_k.map (·.id))[i]? = some c.id := by
  unfold rankPosition
  cases hfind : top_k.findIdx? (·.id = c.id) with
  | none =>
    have hnot := List.findIdx?_eq_none_iff.mp hfind c hc
    simp at hnot
  | some i =>
    obtain ⟨hi, hid, -⟩ := List.findIdx?_eq_some_iff_getElem.mp hfind
    refine ⟨i, rfl, ?_⟩
    rw [List.getElem?_map, List.getElem?_eq_getElem hi, Option.map_some]
    exact congrArg some (of_decide_eq_true hid)

/-- The items clicked on are shown, and no two of them are one. -/
theorem clicksOf_items (user : String × String) (draw : QueryDraw) :
    (∀ x ∈ clicksOf pinned_brand user (shown cat draw) draw, x.1 ∈ shown cat draw) ∧
      ((clicksOf pinned_brand user (shown cat draw) draw).map fun x => x.1.id).Nodup := by
  have hshown : (shown cat draw).Nodup := (nodup_shown draw).of_map
  have hpicked := picked_is hshown user.2 (pinned_brand user.1) draw.num_clicks draw.shuffle
  have hitems : (clicksOf pinned_brand user (shown cat draw) draw).map (·.1) =
      pickClicksForSegment user.2 (shown cat draw) (pinned_brand user.1) draw.num_clicks draw.shuffle := by
    rw [clicksOf, List.map_map]
    exact List.zipIdx_map_fst 0 _
  constructor
  · intro x hx
    refine hpicked.subset x.1 ?_
    rw [← hitems]
    exact List.mem_map_of_mem hx
  · have hids : ((clicksOf pinned_brand user (shown cat draw) draw).map fun x => x.1.id) =
        (pickClicksForSegment user.2 (shown cat draw) (pinned_brand user.1) draw.num_clicks
          draw.shuffle).map (·.id) := by
      rw [← hitems, List.map_map]
      rfl
    rw [hids]
    exact hpicked.nodup.map_on fun a ha b hb hab =>
      List.inj_on_of_nodup_map (nodup_shown draw) (hpicked.subset a ha) (hpicked.subset b hb) hab

end Query

/-! ## Any click that was sent -/

/-- A click of the same query on another item. -/
def OtherClick (visit : Visit) (item_id : String) : Event → Prop
  | .click _ visit' item_id' _ _ => visit' = visit ∧ item_id' ≠ item_id
  | _ => False

/-- What was sent before a click: the search and the impression of its query, which shows the item at
the place the click names, and at most two more clicks, on other items. -/
def Placed (visit : Visit) (item_id : String) (rank_position : ℤ) (before : List Event) : Prop :=
  ∃ older search_id impression_id result_ids clicks,
    before = older ++ .search search_id visit :: .impression impression_id visit result_ids :: clicks ∧
    result_ids.Nodup ∧ result_ids.length ≤ IMPRESSION_TOP_K ∧
    (∃ i : ℕ, rank_position = i ∧ result_ids[i]? = some item_id) ∧
    clicks.length ≤ 2 ∧ ∀ e ∈ clicks, OtherClick visit item_id e

section Clicks
variable {cat : Catalogue} {pinned_brand : String → Option String} {user : String × String}
  {session_id : String} {draw : QueryDraw} {front back : List Event} {event_id item_id : String}
  {visit : Visit} {rank_position dwell_ms : ℤ}

theorem placed_of_queryEvents (h : queryEvents cat pinned_brand user session_id draw =
      front ++ .click event_id visit item_id rank_position dwell_ms :: back) :
    Placed visit item_id rank_position front ∧ 250 ≤ dwell_ms := by
  unfold queryEvents at h
  split at h
  · simp at h
  · cases front with
    | nil => simp at h
    | cons e front =>
      cases front with
      | nil => simp at h
      | cons e' clicks =>
        simp only [List.cons_append, List.cons.injEq] at h
        obtain ⟨rfl, rfl, hclicks⟩ := h
        obtain ⟨xs, ys, hsplit, rfl, hy⟩ := List.map_eq_append_iff.mp hclicks
        obtain ⟨y, ys, rfl, hclick, -⟩ := List.map_eq_cons_iff.mp hy
        have hlength := length_clicksOf pinned_brand user (shown cat draw) draw
        obtain ⟨hmem, hnodup⟩ : (∀ x ∈ clicksOf pinned_brand user (shown cat draw) draw,
            x.1 ∈ shown cat draw) ∧
            ((clicksOf pinned_brand user (shown cat draw) draw).map fun x => x.1.id).Nodup :=
          clicksOf_items user draw
        rw [hsplit] at hmem hnodup hlength
        have hy : y.1 ∈ shown cat draw := hmem y (by simp)
        obtain ⟨i, hi, hitem⟩ := rankPosition_of_mem hy y.2.rank
        simp only [clickEvent, Event.click.injEq] at hclick
        obtain ⟨-, rfl, rfl, rfl, rfl⟩ := hclick
        refine ⟨⟨[], _, _, _, _, rfl, nodup_shown draw, ?_, ⟨i, hi, hitem⟩, ?_, ?_⟩, le_max_left _ _⟩
        · rw [List.length_map]
          exact length_shown draw
        · rw [List.length_append, List.length_cons] at hlength
          rw [List.length_map]
          omega
        · intro e he
          obtain ⟨x, hx, rfl⟩ := List.mem_map.mp he
          refine ⟨rfl, fun heq => ?_⟩
          rw [List.map_append, List.nodup_append] at hnodup
          exact hnodup.2.2 _ (List.mem_map_of_mem hx) _ (by simp) heq

end Clicks

/-- **Every click has its impression**, in any run that ends, normally or at a send that raises. -/
theorem clicks_placed (dumps : Json → String) (broker : ℕ → Option PyError) (cat : Catalogue)
    (pinned_brand : String → Option String) (num_events : ℤ) (draws : ℕ → SessionDraw)
    (eval_log : Option (List String)) (fuel : ℕ) (outcome : Outcome)
    (h : run dumps broker cat pinned_brand num_events draws eval_log fuel = some outcome)
    (before after : List Event) (event_id item_id : String) (visit : Visit) (rank_position dwell_ms : ℤ)
    (hsent : (progress outcome).sent =
      before ++ .click event_id visit item_id rank_position dwell_ms :: after) :
    Placed visit item_id rank_position before ∧ 250 ≤ dwell_ms := by
  have hprefix : (progress outcome).sent <+: streamFrom cat pinned_brand draws fuel 0 := by
    have hsends := (run_sends dumps broker cat pinned_brand num_events draws eval_log fuel outcome h).1
    cases outcome with
    | ok p => exact hsends.1 ▸ List.take_prefix _ _
    | error x => exact hsends.1 ▸ List.take_prefix _ _
  obtain ⟨rest, hrest⟩ := hprefix
  rw [hsent, streamFrom_eq, List.append_assoc, List.cons_append] at hrest
  obtain ⟨n, -, sessions, front, back, hsession, rfl⟩ := exists_block hrest.symm
  obtain ⟨draw, -, queries, front, back, hquery, rfl⟩ := exists_block hsession
  obtain ⟨⟨older, search_id, impression_id, result_ids, clicks, rfl, hplaced⟩, hdwell⟩ :=
    placed_of_queryEvents hquery
  refine ⟨⟨sessions ++ (queries ++ older), search_id, impression_id, result_ids, clicks, ?_, hplaced⟩,
    hdwell⟩
  simp only [List.append_assoc]

/-- The second click of the sample session. -/
theorem clicks_placed_sample : ∃ outcome before after, ∃ visit : Visit,
    run (fun _ => "row") sampleBroker sampleCatalogue (fun _ => none) 9 (fun _ => sampleDraw) (some []) 9 =
      some outcome ∧
    (progress outcome).sent = before ++ .click "e4" visit "i1" 0 900 :: after ∧
    Placed visit "i1" 0 before ∧ (250 : ℤ) ≤ 900 := by
  refine ⟨_, (streamFrom sampleCatalogue (fun _ => none) (fun _ => sampleDraw) 1 0).take 3, _,
    visitOf sampleCatalogue ("u1", "bargain_hunter") "s_1" (sampleDraw.queries.head (by simp [sampleDraw])),
    rfl, rfl, ?_⟩
  exact clicks_placed (fun _ => "row") sampleBroker sampleCatalogue (fun _ => none) 9
    (fun _ => sampleDraw) (some []) 9 _ rfl _ _ "e4" "i1" _ 0 900 rfl

end ClickRec.Replay
