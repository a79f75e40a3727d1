import ClickRec.Cache.RefreshTick
import ClickRec.Ranker.FeaturesOfClicks

/-! # The top sets over runs of clicks and refreshes

A click that is enriched raises its item in the set of the category and in the global one; a refresh
trims one of the sets and decays it. An item that gets more clicks than another one between any two
refreshes stays ahead of it in both sets. -/
namespace ClickRec.Ranker
set_option autoImplicit false
open Cache (RefreshSettings clickOnKey increments decayAll decayFactor refreshOneCategory trim)
open Kafka (CachesAgree ItemMeta Settings World enrich recentKey topKey)

/-! ## Runs -/

inductive PoolAct where
  | click (event : ClickEventDTO)
  -- `_refresh_one_category` on `items:top:{category}`
  | refresh (category : String)

variable (exp : ℚ → ℚ) (refreshes : RefreshSettings) (settings : Settings)

def PoolAct.step (w : World) : PoolAct → Option World
  | .click event => enrich settings w event
  | .refresh category =>
    (refreshOneCategory exp refreshes (w.redis.zsets (topKey category))).toOption.map fun s =>
      { w with redis := w.redis.onZset (topKey category) fun _ => s }

/-- From an empty Redis, over these items. -/
abbrev runPool (item : String → Option ItemMeta) (acts : List PoolAct) : Option World :=
  Trace.exec (PoolAct.step exp refreshes settings) (World.start item) acts

variable {exp refreshes settings} {item : String → Option ItemMeta} {w w' : World}

theorem runOps_effects_topKey {event : ClickEventDTO} {category : String} {items : List String}
    (h : Kafka.runOps w (Kafka.effects settings event category items) = (.ok (), w')) (d : String) :
    w'.redis.zsets (topKey d) =
      clickOnKey (topKey d) category event.item_id (w.redis.zsets (topKey d)) := by
  rw [Kafka.runOps_zsets h, Kafka.foldl_onKey_topKey (fun op hop => hop),
    Kafka.countP_bumps_effects, clickOnKey, increments]
  simp only [Kafka.topKey_inj]
  rfl

/-! ## The catalogue during a run -/

/-- Nobody changes the items, and the caches of the consumer agree with them. -/
structure Unchanged (item : String → Option ItemMeta) (w : World) : Prop where
  catalogue : w.db.item = item
  caches : CachesAgree w

theorem unchanged_start : Unchanged item (World.start item) where
  catalogue := rfl
  caches := ⟨fun _ hx => absurd hx List.not_mem_nil, fun _ he => absurd he List.not_mem_nil⟩

/-- What a step does to the set of `d`. -/
theorem PoolAct.step_cases {a : PoolAct} (h : Unchanged item w)
    (hstep : a.step exp refreshes settings w = some w') : Unchanged item w' ∧
      ((∃ event row, a = .click event ∧ item event.item_id = some row ∧
        enrich settings w event = some w' ∧ ∀ d, w'.redis.zsets (topKey d) =
          clickOnKey (topKey d) row.category event.item_id (w.redis.zsets (topKey d))) ∨
      ∃ category decay, a = .refresh category ∧ decayFactor exp refreshes = .ok decay ∧
        (∀ key, key ≠ topKey category → w'.redis.zsets key = w.redis.zsets key) ∧
        w'.redis.zsets (topKey category) =
          decayAll decay (trim refreshes (w.redis.zsets (topKey category)))) := by
  cases a with
  | click event =>
    obtain ⟨row, caches, hres, hrun⟩ := Kafka.enrich_eq_some hstep
    obtain ⟨hrow, hcaches⟩ := h.caches.resolve hres
    have hitem : w'.db.item = w.db.item := (Kafka.runOps_item hrun :)
    refine ⟨⟨hitem.trans h.catalogue, hcaches.of_eq hitem (Kafka.runOps_caches hrun)⟩, .inl ?_⟩
    rw [h.catalogue] at hrow
    exact ⟨event, row, rfl, hrow.symm, hstep, fun d => (runOps_effects_topKey hrun d :)⟩
  | refresh category =>
    obtain ⟨s, hs, rfl⟩ := Option.map_eq_some_iff.mp hstep
    refine ⟨⟨h.catalogue, h.caches.of_eq rfl rfl⟩, .inr ?_⟩
    cases hd : decayFactor exp refreshes with
    | error e =>
      rw [refreshOneCategory, hd] at hs
      cases hs
    | ok decay =>
      rw [Cache.refreshOneCategory_eq hd] at hs
      obtain rfl := Option.some.inj hs
      have hset : ∀ key, (w.redis.onZset (topKey category) fun _ =>
          decayAll decay (trim refreshes (w.redis.zsets (topKey category)))).zsets key =
            if topKey category = key then
              decayAll decay (trim refreshes (w.redis.zsets (topKey category)))
            else w.redis.zsets key := fun key => Kafka.onZset_zsets _ _ key _
      refine ⟨category, decay, rfl, rfl, fun key hkey => ?_, ?_⟩
      · exact (hset key).trans (if_neg (Ne.symm hkey))
      · exact (hset (topKey category)).trans (if_pos rfl)

/-! ## What is in the sets -/

/-- A member of a top set was clicked. -/
def OnlyClicked (acts : List PoolAct) (w : World) : Prop :=
  ∀ d id x, (w.redis.zsets (topKey d)).zscore id = some x →
    ∃ event, .click event ∈ acts ∧ event.item_id = id

theorem zscore_of_decayAll {decay : ℚ} (hdecay : 0 < decay) {s : SortedSet ℚ String} {m : String}
    {y : ℚ} (h : (decayAll decay (trim refreshes s)).zscore m = some y) :
    ∃ x, (trim refreshes s).zscore m = some x ∧ Cache.newScore decay x = some y ∧
      s.zscore m = some x := by
  rw [Cache.zscore_decayAll hdecay] at h
  obtain ⟨x, hx, hy⟩ := Option.bind_eq_some_iff.mp h
  have hsub := SortedSet.entries_zremrangebyrank_sublist s 0 (-(refreshes.cache_top_max_members + 1))
  exact ⟨x, hx, hy, SortedSet.zscore_eq_some.mpr (hsub.subset (SortedSet.zscore_eq_some.mp hx))⟩

theorem decayFactor_pos (hexp : ∀ x, 0 < exp x) {decay : ℚ}
    (h : decayFactor exp refreshes = .ok decay) : 0 < decay := by
  unfold decayFactor at h
  split at h
  · cases h
  · rw [← Except.ok.inj h]
    exact hexp _

theorem onlyClicked_run (hexp : ∀ x, 0 < exp x) {acts : List PoolAct}
    (h : runPool exp refreshes settings item acts = some w) :
    Unchanged item w ∧ OnlyClicked acts w := by
  refine Trace.exec_concat_induction (I := fun acts w => Unchanged item w ∧ OnlyClicked acts w)
    ⟨unchanged_start, fun d id x hx => ?_⟩ (fun acts u a u' _ hI hstep => ?_) h
  · cases hx
  · obtain ⟨hkept, hcases⟩ := a.step_cases hI.1 hstep
    refine ⟨hkept, fun d id x hx => ?_⟩
    have hearlier : ∀ x, (u.redis.zsets (topKey d)).zscore id = some x →
        ∃ event, PoolAct.click event ∈ acts ++ [a] ∧ event.item_id = id := fun x hx =>
      (hI.2 d id x hx).imp fun event hevent => ⟨List.mem_append_left _ hevent.1, hevent.2⟩
    obtain ⟨event, row, rfl, -, -, hclick⟩ | ⟨category, decay, rfl, hd, hother, hdecayed⟩ := hcases
    · rw [hclick, clickOnKey, SortedSet.zscore_zincrby_iterate] at hx
      split at hx
      · rename_i hid
        exact ⟨event, by simp, hid.1.symm⟩
      · exact hearlier x hx
    · by_cases hkey : topKey d = topKey category
      · rw [hkey, hdecayed, ← hkey] at hx
        obtain ⟨y, -, -, hy⟩ := zscore_of_decayAll (decayFactor_pos hexp hd) hx
        exact hearlier y hy
      · rw [hother _ hkey] at hx
        exact hearlier x hx

/-! ## Staying ahead -/

/-- Between two refreshes, before the first one and after the last one, `a` gets more clicks than `b` or
`b` gets none; `n` and `m` are the clicks on them since the last refresh. -/
def MoreClicked (a b : String) : (n m : ℕ) → List PoolAct → Prop
  | n, m, [] => m = 0 ∨ m < n
  | n, m, .click event :: acts => MoreClicked a b (n + if event.item_id = a then 1 else 0)
      (m + if event.item_id = b then 1 else 0) acts
  | n, m, .refresh _ :: acts => (m = 0 ∨ m < n) ∧ MoreClicked a b 0 0 acts

def scoreIn (s : SortedSet ℚ String) (m : String) : ℚ := (s.zscore m).getD 0

/-- Without the last `n` and `m` clicks on them, `a` was ahead of `b` or `b` was absent. -/
structure Ahead (s : SortedSet ℚ String) (a b : String) (n m : ℕ) : Prop where
  positive : s.Positive
  fst_le : n ≤ scoreIn s a
  snd_le : m ≤ scoreIn s b
  ahead : scoreIn s b = m ∨ scoreIn s b + n < scoreIn s a + m

variable {s : SortedSet ℚ String} {a b : String} {n m : ℕ}

theorem Ahead.of_gap (h : Ahead s a b n m) (hmore : m = 0 ∨ m < n) : Ahead s a b 0 0 where
  positive := h.positive
  fst_le := by
    have hn : (0 : ℚ) ≤ n := Nat.cast_nonneg n
    exact_mod_cast hn.trans h.fst_le
  snd_le := by
    have hm : (0 : ℚ) ≤ m := Nat.cast_nonneg m
    exact_mod_cast hm.trans h.snd_le
  ahead := by
    have hfst := h.fst_le
    have hgap : (m : ℚ) = 0 ∨ (m : ℚ) < n := by exact_mod_cast hmore
    have hn : (0 : ℚ) ≤ n := Nat.cast_nonneg n
    simp only [Nat.cast_zero, add_zero]
    rcases h.ahead with hb | hb
    · rcases hgap with hm | hm
      · exact .inl (hb.trans hm)
      · exact .inr (by linarith)
    · rcases hgap with hm | hm
      · exact .inr (by linarith)
      · exact .inr (by linarith)

theorem Ahead.lt (h : Ahead s a b 0 0) {y : ℚ} (hb : s.zscore b = some y) :
    ∃ x, s.zscore a = some x ∧ y < x := by
  have hy : 0 < y := h.positive b y hb
  have hahead := h.ahead
  simp only [scoreIn, hb, Option.getD_some, Nat.cast_zero, add_zero, hy.ne', false_or] at hahead
  cases ha : s.zscore a with
  | none =>
    rw [ha, Option.getD_none] at hahead
    exact absurd hy hahead.not_gt
  | some x =>
    rw [ha] at hahead
    exact ⟨x, rfl, hahead⟩

theorem Ahead.le (h : Ahead s a b 0 0) : scoreIn s b ≤ scoreIn s a := by
  have hfst := h.fst_le
  have hahead := h.ahead
  simp only [Nat.cast_zero, add_zero] at hfst hahead
  rcases hahead with hb | hlt
  · rw [hb]
    exact hfst
  · exact hlt.le

theorem ahead_of_lt (hpos : s.Positive)
    (h : ∀ y, s.zscore b = some y → ∃ x, s.zscore a = some x ∧ y < x) : Ahead s a b 0 0 := by
  have hscore : ∀ id, 0 ≤ scoreIn s id := by
    intro id
    unfold scoreIn
    cases hid : s.zscore id with
    | none => exact le_rfl
    | some x => exact (hpos id x hid).le
  refine ⟨hpos, by exact_mod_cast hscore a, by exact_mod_cast hscore b, ?_⟩
  cases hb : s.zscore b with
  | none => exact .inl (by simp [scoreIn, hb])
  | some y =>
    obtain ⟨x, ha, hlt⟩ := h y hb
    exact .inr (by simpa [scoreIn, ha, hb] using hlt)

/-- A refresh keeps the order of what it leaves, and drops from the lower end. -/
theorem Ahead.refresh (h : Ahead s a b 0 0) {decay : ℚ} (hdecay : 0 < decay)
    (hmax : 0 ≤ refreshes.cache_top_max_members) :
    Ahead (decayAll decay (trim refreshes s)) a b 0 0 := by
  refine ahead_of_lt (Cache.positive_decayAll hdecay _) fun y hy => ?_
  obtain ⟨y₀, hkept, hnew, hb⟩ := zscore_of_decayAll hdecay hy
  obtain ⟨x₀, ha, hlt⟩ := h.lt hb
  have htrim : (trim refreshes s).zscore a = some x₀ := by
    rw [Cache.trim_eq hmax] at hkept ⊢
    cases hcut : (SortedSet.keepTop refreshes.cache_top_max_members.toNat s).zscore a with
    | none => exact absurd (SortedSet.le_of_keepTop ha hcut hkept) hlt.not_ge
    | some x =>
      rw [← ha]
      exact (SortedSet.zscore_of_zscore_keepTop hcut).symm ▸ rfl
  obtain ⟨hfloor, rfl⟩ := Cache.newScore_eq_some.mp hnew
  have hscaled : y₀ * decay < x₀ * decay := mul_lt_mul_of_pos_right hlt hdecay
  refine ⟨x₀ * decay, ?_, hscaled⟩
  rw [Cache.zscore_decayAll hdecay, htrim]
  exact Cache.newScore_eq_some.mpr ⟨hfloor.trans hscaled, rfl⟩

theorem scoreIn_clickOnKey (key category item_id : String) (s : SortedSet ℚ String) (id : String) :
    scoreIn (clickOnKey key category item_id s) id =
      scoreIn s id + if item_id = id then (increments key category : ℚ) else 0 := by
  rw [scoreIn, clickOnKey, SortedSet.zscore_zincrby_iterate]
  by_cases hid : item_id = id
  · subst hid
    by_cases hnone : increments key category = 0
    · simp [hnone, scoreIn]
    · simp [hnone, scoreIn]
  · simp [hid, Ne.symm hid, scoreIn]

/-- A click counts for both, on a key that it raises once if it is on one of them. -/
theorem Ahead.click (h : Ahead s a b n m) {key category item_id : String}
    (honce : item_id = a ∨ item_id = b → increments key category = 1) :
    Ahead (clickOnKey key category item_id s) a b (n + if item_id = a then 1 else 0)
      (m + if item_id = b then 1 else 0) := by
  have hscore : ∀ id, id = a ∨ id = b → scoreIn (clickOnKey key category item_id s) id =
      scoreIn s id + (if item_id = id then 1 else 0 : ℕ) := by
    intro id hid
    rw [scoreIn_clickOnKey]
    split
    · rename_i heq
      rw [honce (heq ▸ hid)]
    · rw [Nat.cast_zero]
  have hfst := h.fst_le
  have hsnd := h.snd_le
  refine ⟨Cache.positive_clickOnKey h.positive key category item_id, ?_, ?_, ?_⟩
  · rw [hscore a (.inl rfl), Nat.cast_add]
    linarith
  · rw [hscore b (.inr rfl), Nat.cast_add]
    linarith
  · rw [hscore a (.inl rfl), hscore b (.inr rfl), Nat.cast_add, Nat.cast_add]
    rcases h.ahead with hb | hb
    · exact .inl (by linarith)
    · exact .inr (by linarith)

/-- **Staying ahead.** In the set of their category and in the global one. -/
theorem ahead_run (hexp : ∀ x, 0 < exp x) (hmax : 0 ≤ refreshes.cache_top_max_members)
    {category d : String} (hcategory : category ≠ "_global") (hd : d = category ∨ d = "_global")
    (ha : (item a).map (·.category) = some category)
    (hb : (item b).map (·.category) = some category) {acts : List PoolAct}
    (hkept : Unchanged item w) (h : Ahead (w.redis.zsets (topKey d)) a b n m)
    (hmore : MoreClicked a b n m acts)
    (hrun : Trace.exec (PoolAct.step exp refreshes settings) w acts = some w') :
    Ahead (w'.redis.zsets (topKey d)) a b 0 0 := by
  induction acts generalizing w n m with
  | nil =>
    obtain rfl : w = w' := by simpa using hrun
    exact h.of_gap hmore
  | cons act acts ih =>
    obtain ⟨v, hstep, hrest⟩ := Trace.exec_cons.mp hrun
    obtain ⟨hkept', hcases⟩ := act.step_cases hkept hstep
    obtain ⟨event, row, rfl, hrow, -, hclick⟩ | ⟨c, decay, rfl, hfactor, hother, hdecayed⟩ := hcases
    · refine ih hkept' ?_ hmore hrest
      rw [hclick]
      refine h.click fun hid => ?_
      have hc : row.category = category := by
        have hmeta : (item event.item_id).map (·.category) = some category := by
          rcases hid with hid | hid
          · rw [hid, ha]
          · rw [hid, hb]
        rw [hrow] at hmeta
        exact Option.some.inj hmeta
      rcases hd with rfl | rfl
      · simp [increments, Kafka.topKey_inj, hc, Ne.symm hcategory]
      · simp [increments, Kafka.topKey_inj, hc, hcategory]
    · have hgap := h.of_gap hmore.1
      refine ih hkept' ?_ hmore.2 hrest
      by_cases hkey : topKey d = topKey c
      · rw [hkey, hdecayed, ← hkey]
        exact hgap.refresh (decayFactor_pos hexp hfactor) hmax
      · rw [hother _ hkey]
        exact hgap

end ClickRec.Ranker
