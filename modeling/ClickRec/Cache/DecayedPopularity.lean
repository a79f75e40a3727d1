import ClickRec.Cache.PopularityRefresher

/-! # Decayed popularity over whole runs of one `items:top:*` key -/
namespace ClickRec.Cache
set_option autoImplicit false

variable {K : Type*} [Field K] [LinearOrder K]

/-! ## Runs -/

/-- What happens to one key, each as a whole. -/
inductive KeyAct where
  | click (category item_id : String)
  | refresh
  deriving DecidableEq

def KeyAct.step (exp : K → K) (settings : RefreshSettings) (key : String) (s : SortedSet K String) :
    KeyAct → Option (SortedSet K String)
  | .click category item_id => some (clickOnKey key category item_id s)
  | .refresh => (refreshOneCategory exp settings s).toOption

/-- From an absent key. -/
abbrev runKey (exp : K → K) (settings : RefreshSettings) (key : String) (acts : List KeyAct) :
    Option (SortedSet K String) :=
  Trace.exec (KeyAct.step exp settings key) .empty acts

/-! ## What the scores are -/

/-- The sum, over the clicks on the member, of the decay of the refreshes after each. -/
def decayedClicks (d : K) (m : String) : List KeyAct → K
  | [] => 0
  | .click _ item_id :: acts =>
    (if item_id = m then d ^ acts.count .refresh else 0) + decayedClicks d m acts
  | .refresh :: acts => decayedClicks d m acts

/-- The member was last absent before `post`. -/
structure LastAbsent (exp : K → K) (settings : RefreshSettings) (key m : String)
    (pre post : List KeyAct) : Prop where
  absent : ∃ s, runKey exp settings key pre = some s ∧ s.zscore m = none
  present : ∀ acts, acts ≠ [] → acts <+: post →
    ∃ s x, runKey exp settings key (pre ++ acts) = some s ∧ s.zscore m = some x

/-- The first `cache_top_max_members` of the key. -/
abbrev topMembers (settings : RefreshSettings) (s : SortedSet K String) : SortedSet K String :=
  .keepTop settings.cache_top_max_members.toNat s

/-- What is promised of a refresh that finds `s` and leaves `s'`: the top members decay once, and those
that stay above the floor are left. -/
structure Refreshed (settings : RefreshSettings) (d : K) (s s' : SortedSet K String) : Prop where
  score : ∀ m, s'.zscore m = ((topMembers settings s).zscore m).bind (newScore d)
  card_top : ((topMembers settings s).card : ℤ) = min settings.cache_top_max_members s.card
  card_le : (s'.card : ℤ) ≤ settings.cache_top_max_members
  above_floor : ∀ m x, s'.zscore m = some x → 1 / 1000000 < x
  trimmed_le : ∀ m n x y, s.zscore m = some x → (topMembers settings s).zscore m = none →
    s.zscore n = some y → (topMembers settings s).zscore n ≠ none → x ≤ y
  order : s'.members.Sublist s.members

/-- A click brings its item in; only a refresh takes a member out, one beyond the top members or at the
floor. -/
structure StaysFromClick (exp : K → K) (settings : RefreshSettings) (d : K) (key : String)
    (acts : List KeyAct) : Prop where
  clicked : ∀ pre category m post, acts = pre ++ .click category m :: post →
    ∃ s x, runKey exp settings key (pre ++ [.click category m]) = some s ∧ s.zscore m = some x
  left : ∀ pre a post s s' m, acts = pre ++ a :: post → runKey exp settings key pre = some s →
    runKey exp settings key (pre ++ [a]) = some s' → s.zscore m ≠ none → s'.zscore m = none →
      a = .refresh ∧ ∀ x, (topMembers settings s).zscore m = some x → x * d ≤ 1 / 1000000

/-! ## One step -/

section
variable {exp : K → K} {settings : RefreshSettings} {d : K}

theorem refreshOneCategory_eq (hd : decayFactor exp settings = .ok d) (s : SortedSet K String) :
    refreshOneCategory exp settings s = .ok (decayAll d (trim settings s)) := by
  rw [refreshOneCategory, hd]
  rfl

theorem step_refresh (hd : decayFactor exp settings = .ok d) (key : String) (s : SortedSet K String) :
    KeyAct.step exp settings key s .refresh = some (decayAll d (trim settings s)) := by
  simp only [KeyAct.step, refreshOneCategory_eq hd]
  rfl

variable [IsStrictOrderedRing K]

omit [Field K] [IsStrictOrderedRing K] in
theorem trim_eq (h : 0 ≤ settings.cache_top_max_members) (s : SortedSet K String) :
    trim settings s = SortedSet.keepTop settings.cache_top_max_members.toNat s :=
  SortedSet.zremrangebyrank_cap_of_nonneg s h

theorem zscore_decayAll (h : 0 < d) (s : SortedSet K String) (m : String) :
    (decayAll d s).zscore m = (s.zscore m).bind (newScore d) := by
  rw [decayAll_eq h, SortedSet.zscore_mapScores]

theorem refreshed (h : 0 < d) (hN : 0 ≤ settings.cache_top_max_members) (s : SortedSet K String) :
    Refreshed settings d s (decayAll d (trim settings s)) := by
  rw [trim_eq hN, decayAll_eq h]
  have htop : (topMembers settings s).card = min settings.cache_top_max_members.toNat s.card :=
    SortedSet.card_keepTop _ s
  refine ⟨fun m => SortedSet.zscore_mapScores _ m, by omega, ?_, ?_, ?_, ?_⟩
  · have hmap : (SortedSet.mapScores (newScore d) (newScore_keepsOrder h)
        (.keepTop settings.cache_top_max_members.toNat s)).card ≤ (topMembers settings s).card :=
      SortedSet.card_mapScores_le _
    omega
  · intro m x hx
    rw [SortedSet.zscore_mapScores] at hx
    obtain ⟨y, -, hy⟩ := Option.bind_eq_some_iff.mp hx
    exact (newScore_eq_some.mp hy).1
  · intro m n x y hm hcut hn hkept
    obtain ⟨y', hy'⟩ := Option.ne_none_iff_exists'.mp hkept
    have hy := SortedSet.zscore_of_zscore_keepTop hy'
    rw [hn] at hy
    obtain rfl : y = y' := Option.some.inj hy
    exact SortedSet.le_of_keepTop hm hcut hy'
  · exact (SortedSet.members_mapScores _).trans (SortedSet.members_keepTop _ s)

omit [IsStrictOrderedRing K] in
/-- A click that increments the key once adds one to its item. -/
theorem zscore_clickOnKey {key category item_id : String} (h : increments key category = 1)
    (s : SortedSet K String) (m : String) : (clickOnKey key category item_id s).zscore m =
      if m = item_id then some ((s.zscore item_id).getD 0 + 1) else s.zscore m := by
  rw [clickOnKey, h, Function.iterate_one, SortedSet.zincrby, SortedSet.zscore_zadd]

end

/-! ## The sums of decayed clicks -/

omit [LinearOrder K] in
/-- Earlier clicks decay with every later refresh. -/
theorem decayedClicks_append (d : K) (m : String) (acts later : List KeyAct) :
    decayedClicks d m (acts ++ later) =
      decayedClicks d m acts * d ^ later.count .refresh + decayedClicks d m later := by
  induction acts with
  | nil => simp [decayedClicks]
  | cons a acts ih =>
    cases a with
    | click c i =>
      rw [List.cons_append, decayedClicks, decayedClicks, ih, List.count_append, pow_add, add_mul,
        add_assoc]
      congr 1
      split
      · rfl
      · exact (zero_mul _).symm
    | refresh => exact ih

omit [LinearOrder K] in
theorem decayedClicks_concat_click (d : K) (m : String) (acts : List KeyAct)
    (category item_id : String) : decayedClicks d m (acts ++ [.click category item_id]) =
      decayedClicks d m acts + if item_id = m then 1 else 0 := by
  have hcount : [KeyAct.click category item_id].count .refresh = 0 := rfl
  rw [decayedClicks_append, hcount, pow_zero, mul_one]
  simp [decayedClicks]

omit [LinearOrder K] in
theorem decayedClicks_concat_refresh (d : K) (m : String) (acts : List KeyAct) :
    decayedClicks d m (acts ++ [.refresh]) = decayedClicks d m acts * d := by
  have hcount : [KeyAct.refresh].count .refresh = 1 := rfl
  rw [decayedClicks_append, hcount, pow_one]
  exact add_zero _

/-! ## Whole runs -/

section
variable {exp : K → K} {settings : RefreshSettings} {d : K} {key : String}

/-- Every run has a state. -/
theorem exists_exec (hd : decayFactor exp settings = .ok d) (key : String) (s : SortedSet K String)
    (acts : List KeyAct) : ∃ s', Trace.exec (KeyAct.step exp settings key) s acts = some s' := by
  induction acts generalizing s with
  | nil => exact ⟨s, rfl⟩
  | cons a acts ih =>
    cases a with
    | click category item_id => exact ih (clickOnKey key category item_id s)
    | refresh =>
      obtain ⟨s', hs'⟩ := ih (decayAll d (trim settings s))
      exact ⟨s', Trace.exec_cons.mpr ⟨_, step_refresh hd key s, hs'⟩⟩

/-- A member that is still there after one more step was last absent when it was before. -/
theorem LastAbsent.concat {m : String} {pre post : List KeyAct}
    (h : LastAbsent exp settings key m pre post) {a : KeyAct} {s : SortedSet K String} {x : K}
    (hs : runKey exp settings key (pre ++ post ++ [a]) = some s) (hx : s.zscore m = some x) :
    LastAbsent exp settings key m pre (post ++ [a]) where
  absent := h.absent
  present := by
    intro acts hne hprefix
    obtain rfl | hprefix := List.prefix_concat_iff.mp hprefix
    · exact ⟨s, x, by rw [← List.append_assoc]; exact hs, hx⟩
    · exact h.present acts hne hprefix

/-- A member that was absent before the last step was last absent then. -/
theorem lastAbsent_single {m : String} {pre : List KeyAct} {a : KeyAct} {s t : SortedSet K String}
    {x : K} (ht : runKey exp settings key pre = some t) (habsent : t.zscore m = none)
    (hs : runKey exp settings key (pre ++ [a]) = some s) (hx : s.zscore m = some x) :
    LastAbsent exp settings key m pre [a] where
  absent := ⟨t, ht, habsent⟩
  present := by
    intro acts hne hprefix
    have hprefix : acts <+: [] ++ [a] := hprefix
    obtain rfl | hprefix := List.prefix_concat_iff.mp hprefix
    · exact ⟨s, x, hs, hx⟩
    · exact absurd (List.prefix_nil.mp hprefix) hne

variable [IsStrictOrderedRing K]

/-- Every score is the sum of the decayed clicks since the member was last absent. -/
theorem exists_lastAbsent (hd : decayFactor exp settings = .ok d) (h0 : 0 < d)
    (hN : 0 ≤ settings.cache_top_max_members) {acts : List KeyAct}
    (honce : ∀ category item_id, .click category item_id ∈ acts → increments key category = 1)
    {s : SortedSet K String} (hs : runKey exp settings key acts = some s) {m : String} {x : K}
    (hx : s.zscore m = some x) :
    ∃ pre post, acts = pre ++ post ∧ LastAbsent exp settings key m pre post ∧
      x = decayedClicks d m post := by
  induction acts using List.reverseRecOn generalizing s x with
  | nil =>
    obtain rfl : SortedSet.empty = s := Option.some.inj hs
    cases hx
  | append_singleton acts a ih =>
    obtain ⟨t, ht, hlast⟩ := Trace.exec_append.mp hs
    obtain ⟨s', hstep, hs'⟩ := Trace.exec_cons.mp hlast
    obtain rfl : s' = s := Option.some.inj hs'
    have honce' := fun c i hci => honce c i (List.mem_append_left _ hci)
    cases a with
    | click category item_id =>
      have hone := honce category item_id (List.mem_append_right acts (by simp))
      obtain rfl : clickOnKey key category item_id t = s' := Option.some.inj hstep
      have hscore := hx
      rw [zscore_clickOnKey hone] at hscore
      by_cases hm : m = item_id
      · rw [if_pos hm, ← hm] at hscore
        cases hy : t.zscore m with
        | none =>
          refine ⟨acts, [.click category item_id], rfl, lastAbsent_single ht hy hs hx, ?_⟩
          rw [hy] at hscore
          simpa [decayedClicks, hm] using hscore.symm
        | some y =>
          obtain ⟨pre, post, rfl, hlast, rfl⟩ := ih honce' ht hy
          refine ⟨pre, post ++ [_], List.append_assoc _ _ _, hlast.concat hs hx, ?_⟩
          rw [hy] at hscore
          rw [decayedClicks_concat_click, if_pos hm.symm]
          exact (Option.some.inj hscore).symm
      · rw [if_neg hm] at hscore
        obtain ⟨pre, post, rfl, hlast, rfl⟩ := ih honce' ht hscore
        refine ⟨pre, post ++ [_], List.append_assoc _ _ _, hlast.concat hs hx, ?_⟩
        rw [decayedClicks_concat_click, if_neg (Ne.symm hm), add_zero]
    | refresh =>
      rw [step_refresh hd] at hstep
      obtain rfl : decayAll d (trim settings t) = s' := Option.some.inj hstep
      have hscore := hx
      rw [zscore_decayAll h0, trim_eq hN] at hscore
      obtain ⟨y, hy, hxy⟩ := Option.bind_eq_some_iff.mp hscore
      obtain ⟨pre, post, rfl, hlast, rfl⟩ := ih honce' ht (SortedSet.zscore_of_zscore_keepTop hy)
      refine ⟨pre, post ++ [_], List.append_assoc _ _ _, hlast.concat hs hx, ?_⟩
      rw [decayedClicks_concat_refresh]
      exact (newScore_eq_some.mp hxy).2

/-- Clicks bring members in and refreshes take them out. -/
theorem staysFromClick (hd : decayFactor exp settings = .ok d) (h0 : 0 < d)
    (hN : 0 ≤ settings.cache_top_max_members) {acts : List KeyAct}
    (honce : ∀ category item_id, .click category item_id ∈ acts → increments key category = 1) :
    StaysFromClick exp settings d key acts where
  clicked := by
    rintro pre category m post rfl
    obtain ⟨s, hs⟩ := exists_exec hd key .empty pre
    have hone := honce category m (List.mem_append_right pre List.mem_cons_self)
    refine ⟨clickOnKey key category m s, (s.zscore m).getD 0 + 1, ?_, ?_⟩
    · exact Trace.exec_append.mpr ⟨s, hs, Trace.exec_cons.mpr ⟨_, rfl, rfl⟩⟩
    · rw [zscore_clickOnKey hone, if_pos rfl]
  left := by
    rintro pre a post s s' m rfl hs hs' hin hout
    obtain ⟨t, ht, hlast⟩ := Trace.exec_append.mp hs'
    obtain rfl : s = t := Option.some.inj (hs.symm.trans ht)
    obtain ⟨t, hstep, hnil⟩ := Trace.exec_cons.mp hlast
    obtain rfl : t = s' := Option.some.inj hnil
    cases a with
    | click category item_id =>
      have hone := honce category item_id (List.mem_append_right pre List.mem_cons_self)
      obtain rfl : clickOnKey key category item_id s = t := Option.some.inj hstep
      rw [zscore_clickOnKey hone] at hout
      split at hout
      · cases hout
      · exact absurd hout hin
    | refresh =>
      refine ⟨rfl, fun x hx => ?_⟩
      rw [step_refresh hd] at hstep
      obtain rfl : decayAll d (trim settings s) = t := Option.some.inj hstep
      rw [(refreshed h0 hN s).score, hx, Option.bind_some] at hout
      by_contra hlt
      rw [newScore, if_pos (not_le.mp hlt)] at hout
      cases hout

/-! ## Refreshes without clicks -/

/-- Two decays and floors in a row are one, as the floor is passed by all that passes it later. -/
theorem newScore_bind (h0 : 0 < d) (h1 : d < 1) (c x : K) :
    (newScore c x).bind (newScore d) = newScore (c * d) x := by
  unfold newScore
  by_cases hlast : 1 / 1000000 < x * (c * d)
  · have hassoc : x * c * d = x * (c * d) := mul_assoc x c d
    have hbefore : x * (c * d) < x * c := by
      have hpos : 0 < x * c * d := by
        rw [hassoc]
        exact lt_trans (by norm_num) hlast
      have hxc : 0 < x * c := pos_of_mul_pos_left hpos h0.le
      rw [← hassoc]
      exact mul_lt_of_lt_one_right hxc h1
    rw [if_pos (hlast.trans hbefore), if_pos hlast, Option.bind_some, hassoc, if_pos hlast]
  · rw [if_neg hlast]
    split
    · rw [Option.bind_some, mul_assoc, if_neg hlast]
    · rfl

theorem exec_refreshes (hd : decayFactor exp settings = .ok d) (h0 : 0 < d) (h1 : d < 1)
    (hN : 0 ≤ settings.cache_top_max_members) (key : String) (s : SortedSet K String) (T : ℕ) :
    ∃ s', Trace.exec (KeyAct.step exp settings key) s (List.replicate (T + 1) .refresh) = some s' ∧
      (s'.card : ℤ) ≤ settings.cache_top_max_members ∧
      ∀ m, s'.zscore m = ((topMembers settings s).zscore m).bind (newScore (d ^ (T + 1))) := by
  induction T with
  | zero =>
    refine ⟨decayAll d (trim settings s), ?_, (refreshed h0 hN s).card_le, fun m => ?_⟩
    · exact Trace.exec_cons.mpr ⟨_, step_refresh hd key s, rfl⟩
    · rw [(refreshed h0 hN s).score, zero_add, pow_one]
  | succ T ih =>
    obtain ⟨t, ht, hcard, hscore⟩ := ih
    refine ⟨decayAll d (trim settings t), ?_, (refreshed h0 hN t).card_le, fun m => ?_⟩
    · rw [List.replicate_succ']
      exact Trace.exec_append.mpr ⟨t, ht, Trace.exec_cons.mpr ⟨_, step_refresh hd key t, rfl⟩⟩
    · -- the trim finds nothing to remove
      have htrim : trim settings t = t := by
        rw [trim_eq hN]
        exact SortedSet.keepTop_of_card_le (by omega)
      rw [zscore_decayAll h0, htrim, hscore, Option.bind_assoc, pow_succ d (T + 1)]
      congr 1
      funext x
      exact newScore_bind h0 h1 _ x

/-- In every run of a key that each click increments once, a click brings its item in, only refreshes
take members out, and a score is the sum of the decayed clicks since the member was last absent; a
refresh then keeps its promises, and refreshes without clicks are one trim, one decay and one floor. -/
theorem decayed_popularity (hd : decayFactor exp settings = .ok d) (h0 : 0 < d) (h1 : d < 1)
    (hN : 1 ≤ settings.cache_top_max_members) {acts : List KeyAct}
    (honce : ∀ category item_id, .click category item_id ∈ acts → increments key category = 1) :
    StaysFromClick exp settings d key acts ∧
    ∃ s, runKey exp settings key acts = some s ∧
      (∀ m x, s.zscore m = some x → ∃ pre post, acts = pre ++ post ∧
        LastAbsent exp settings key m pre post ∧ x = decayedClicks d m post) ∧
      (∃ s', refreshOneCategory exp settings s = .ok s' ∧ Refreshed settings d s s') ∧
      ∀ T, 0 < T → ∃ s', runKey exp settings key (acts ++ List.replicate T .refresh) = some s' ∧
        ∀ m, s'.zscore m = ((topMembers settings s).zscore m).bind (newScore (d ^ T)) := by
  have hN' : 0 ≤ settings.cache_top_max_members := by omega
  obtain ⟨s, hs⟩ := exists_exec hd key .empty acts
  refine ⟨staysFromClick hd h0 hN' honce, s, hs, fun m x hx => exists_lastAbsent hd h0 hN' honce hs hx,
    ⟨_, refreshOneCategory_eq hd s, refreshed h0 hN' s⟩, fun T hT => ?_⟩
  obtain ⟨T, rfl⟩ := Nat.exists_eq_succ_of_ne_zero hT.ne'
  obtain ⟨s', hs', -, hscore⟩ := exec_refreshes hd h0 h1 hN' key s T
  exact ⟨s', Trace.exec_append.mpr ⟨s, hs, hs'⟩, hscore⟩

end

/-! ## A run of two clicks and two refreshes -/

/-- Every refresh halves the scores. -/
def halving : ℚ → ℚ := fun _ => 1 / 2

theorem decayFactor_halving : decayFactor halving defaultRefreshSettings = .ok (1 / 2) := rfl

def visits : List KeyAct := [.click "shoes" "i1", .refresh, .click "shoes" "i1", .refresh]

theorem decayed_popularity_visits :
    StaysFromClick halving defaultRefreshSettings (1 / 2) "items:top:shoes" visits ∧
    ∃ s, runKey halving defaultRefreshSettings "items:top:shoes" visits = some s ∧
      ∀ m x, s.zscore m = some x → ∃ pre post, visits = pre ++ post ∧
        LastAbsent halving defaultRefreshSettings "items:top:shoes" m pre post ∧
        x = decayedClicks (1 / 2) m post := by
  have honce : ∀ category item_id, .click category item_id ∈ visits →
      increments "items:top:shoes" category = 1 := by
    intro category item_id h
    obtain ⟨rfl, -⟩ : category = "shoes" ∧ item_id = "i1" := by simpa [visits] using h
    decide
  obtain ⟨hstays, s, hs, hscores, -, -⟩ :=
    decayed_popularity decayFactor_halving (by norm_num) (by norm_num) (by decide) honce
  exact ⟨hstays, s, hs, hscores⟩

example : (runKey halving defaultRefreshSettings "items:top:shoes" visits).map
    (fun s => s.zscore "i1") = some (some (3 / 4)) := by decide +kernel

end ClickRec.Cache
