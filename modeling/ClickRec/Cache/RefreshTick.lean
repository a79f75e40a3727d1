import ClickRec.Cache.DecayedPopularity

/-! # One tick of the popularity refresher

`_refresh_tick` refreshes whatever key the scan returns, so a key that is returned again decays
again. `SCAN` returns every key that is there from start to end at least once, in any order, and
may return a key several times. -/
namespace ClickRec.Cache
set_option autoImplicit false

variable {K : Type*} [Field K] [LinearOrder K]

/-! ## The tick, with clicks between its refreshes -/

inductive TickAct where
  -- the scan returns the key, which is then refreshed
  | returned (key : String)
  | click (category item_id : String)
  deriving DecidableEq

/-- The sorted sets, an absent key's empty. -/
abbrev TopKeys (K : Type*) [LinearOrder K] : Type _ := String → SortedSet K String

def TickAct.step (exp : K → K) (settings : RefreshSettings) (keys : TopKeys K) :
    TickAct → Option (TopKeys K)
  | .returned key =>
    (refreshOneCategory exp settings (keys key)).toOption.map fun s => Function.update keys key s
  | .click category item_id => some fun key => clickOnKey key category item_id (keys key)

abbrev runTick (exp : K → K) (settings : RefreshSettings) (start : TopKeys K)
    (acts : List TickAct) : Option (TopKeys K) :=
  Trace.exec (TickAct.step exp settings) start acts

def topKeyPrefix : String := "items:top:"

def Matches (key : String) : Prop := topKeyPrefix.toList <+: key.toList

def Present (keys : TopKeys K) (key : String) : Prop := (keys key).entries ≠ []

def PresentThroughout (exp : K → K) (settings : RefreshSettings) (start : TopKeys K)
    (acts : List TickAct) (key : String) : Prop :=
  ∀ pre, pre <+: acts → ∃ keys, runTick exp settings start pre = some keys ∧ Present keys key

/-- What Redis promises of the scan. -/
structure ScanAllowed (exp : K → K) (settings : RefreshSettings) (start : TopKeys K)
    (acts : List TickAct) : Prop where
  complete : ∀ key, Matches key → PresentThroughout exp settings start acts key →
    .returned key ∈ acts
  matching : ∀ key, .returned key ∈ acts → Matches key
  existing : ∀ pre key post, acts = pre ++ .returned key :: post →
    ∃ seen keys, seen <+: pre ∧ runTick exp settings start seen = some keys ∧ Present keys key

/-! ## Decaying once -/

/-- The clicks among these on the key, without any refresh. -/
def clicksOn (key : String) (s : SortedSet K String) : List TickAct → SortedSet K String
  | [] => s
  | .returned _ :: acts => clicksOn key s acts
  | .click category item_id :: acts => clicksOn key (clickOnKey key category item_id s) acts

/-- The key ends with its clicks up to its first refresh, one refresh, and the clicks after it. -/
def DecaysOnce (exp : K → K) (settings : RefreshSettings) (start : TopKeys K)
    (acts : List TickAct) (key : String) : Prop :=
  ∃ pre post s keys, acts = pre ++ .returned key :: post ∧ .returned key ∉ pre ∧
    refreshOneCategory exp settings (clicksOn key (start key) pre) = .ok s ∧
    runTick exp settings start acts = some keys ∧ keys key = clicksOn key s post

section
variable {exp : K → K} {settings : RefreshSettings} {d : K} {key : String}

theorem step_returned (hd : decayFactor exp settings = .ok d) (keys : TopKeys K) (k : String) :
    TickAct.step exp settings keys (.returned k) =
      some (Function.update keys k (decayAll d (trim settings (keys k)))) := by
  simp only [TickAct.step, refreshOneCategory_eq hd]
  rfl

theorem exists_runTick (hd : decayFactor exp settings = .ok d) (keys : TopKeys K)
    (acts : List TickAct) : ∃ keys', runTick exp settings keys acts = some keys' := by
  induction acts generalizing keys with
  | nil => exact ⟨keys, rfl⟩
  | cons a acts ih =>
    cases a with
    | returned k =>
      obtain ⟨keys', hkeys'⟩ := ih (Function.update keys k (decayAll d (trim settings (keys k))))
      exact ⟨keys', Trace.exec_cons.mpr ⟨_, step_returned hd keys k, hkeys'⟩⟩
    | click category item_id => exact ih fun k => clickOnKey k category item_id (keys k)

/-- A key that is not returned only takes its clicks. -/
theorem runTick_not_returned (hd : decayFactor exp settings = .ok d) {keys keys' : TopKeys K}
    {acts : List TickAct} (h : .returned key ∉ acts)
    (hrun : runTick exp settings keys acts = some keys') :
    keys' key = clicksOn key (keys key) acts := by
  induction acts generalizing keys with
  | nil =>
    obtain rfl : keys = keys' := Option.some.inj hrun
    rfl
  | cons a acts ih =>
    rw [List.mem_cons, not_or] at h
    obtain ⟨t, ht, hrest⟩ := Trace.exec_cons.mp hrun
    cases a with
    | returned k =>
      have hk : key ≠ k := fun hk => h.1 (by rw [hk])
      rw [step_returned hd] at ht
      obtain rfl := Option.some.inj ht
      rw [ih h.2 hrest, Function.update_of_ne hk, clicksOn]
    | click category item_id =>
      obtain rfl := Option.some.inj ht
      rw [ih h.2 hrest, clicksOn]

/-! ## The sum of a key's scores -/

/-- How often these clicks increment the key. -/
def bumps (key : String) : List TickAct → ℕ
  | [] => 0
  | .returned _ :: acts => bumps key acts
  | .click category _ :: acts => increments key category + bumps key acts

theorem bumps_append (key : String) (acts acts' : List TickAct) :
    bumps key (acts ++ acts') = bumps key acts + bumps key acts' := by
  induction acts with
  | nil => simp [bumps]
  | cons a acts ih =>
    cases a with
    | returned k => exact ih
    | click category item_id => simp only [List.cons_append, bumps, ih, Nat.add_assoc]

variable [IsStrictOrderedRing K]

theorem total_clickOnKey (key category item_id : String) (s : SortedSet K String) :
    (clickOnKey key category item_id s).total = s.total + increments key category := by
  unfold clickOnKey
  induction increments key category with
  | zero => simp
  | succ n ih =>
    rw [Function.iterate_succ_apply', SortedSet.total_zincrby, ih, Nat.cast_succ, add_assoc]

theorem positive_clickOnKey {s : SortedSet K String} (h : s.Positive)
    (key category item_id : String) : (clickOnKey key category item_id s).Positive := by
  intro m x hx
  rw [clickOnKey, SortedSet.zscore_zincrby_iterate] at hx
  split at hx
  · rename_i hm
    have hbase : 0 ≤ (s.zscore item_id).getD 0 := by
      cases hs : s.zscore item_id with
      | none => exact le_rfl
      | some y => exact (h item_id y hs).le
    have hcast : (0 : K) < increments key category := by exact_mod_cast Nat.pos_of_ne_zero hm.2
    rw [← Option.some.inj hx]
    exact add_pos_of_nonneg_of_pos hbase hcast
  · exact h m x hx

theorem total_clicksOn (key : String) (s : SortedSet K String) (acts : List TickAct) :
    (clicksOn key s acts).total = s.total + bumps key acts := by
  induction acts generalizing s with
  | nil => simp [clicksOn, bumps]
  | cons a acts ih =>
    cases a with
    | returned k => exact ih s
    | click category item_id =>
      rw [clicksOn, ih, total_clickOnKey, bumps, Nat.cast_add, add_assoc]

/-- After a refresh every score is positive, whatever it was before. -/
theorem positive_decayAll (h0 : 0 < d) (s : SortedSet K String) : (decayAll d s).Positive := by
  intro m x hx
  rw [zscore_decayAll h0] at hx
  obtain ⟨y, -, hy⟩ := Option.bind_eq_some_iff.mp hx
  exact lt_trans (by norm_num) (newScore_eq_some.mp hy).1

/-- A refresh leaves at most the decayed sum. -/
theorem total_refresh_le (h0 : 0 < d) (settings : RefreshSettings) {s : SortedSet K String}
    (hs : s.Positive) : (decayAll d (trim settings s)).total ≤ s.total * d := by
  have hsub := SortedSet.entries_zremrangebyrank_sublist s 0 (-(settings.cache_top_max_members + 1))
  have hmap : ∀ x y, newScore d x = some y → y ≤ x * d := fun x y hy => (newScore_eq_some.mp hy).2.le
  rw [decayAll_eq h0]
  calc _ ≤ (trim settings s).total * d :=
        SortedSet.total_mapScores_le h0.le hmap (hs.of_sublist hsub)
    _ ≤ s.total * d := mul_le_mul_of_nonneg_right (hs.total_le_of_sublist hsub) h0.le

/-- Refreshes add nothing to the sum. -/
theorem total_runTick_le (hd : decayFactor exp settings = .ok d) (h0 : 0 < d) (h1 : d < 1)
    {keys keys' : TopKeys K} {acts : List TickAct} (hpos : (keys key).Positive)
    (hrun : runTick exp settings keys acts = some keys') :
    (keys' key).Positive ∧ (keys' key).total ≤ (keys key).total + bumps key acts := by
  induction acts generalizing keys with
  | nil =>
    obtain rfl : keys = keys' := Option.some.inj hrun
    exact ⟨hpos, by simp [bumps]⟩
  | cons a acts ih =>
    obtain ⟨t, ht, hrest⟩ := Trace.exec_cons.mp hrun
    cases a with
    | returned k =>
      rw [step_returned hd] at ht
      obtain rfl := Option.some.inj ht
      by_cases hk : key = k
      · subst hk
        have hupdate := Function.update_self key (decayAll d (trim settings (keys key))) keys
        obtain ⟨hfinal, hle⟩ := ih (by rw [hupdate]; exact positive_decayAll h0 _) hrest
        refine ⟨hfinal, hle.trans ?_⟩
        rw [hupdate, bumps]
        have hdecayed := total_refresh_le h0 settings hpos
        have hless : (keys key).total * d ≤ (keys key).total :=
          mul_le_of_le_one_right hpos.total_nonneg h1.le
        exact add_le_add_left (hdecayed.trans hless) _
      · have hupdate := Function.update_of_ne hk (decayAll d (trim settings (keys k))) keys
        obtain ⟨hfinal, hle⟩ := ih (by rw [hupdate]; exact hpos) hrest
        rw [hupdate] at hle
        exact ⟨hfinal, hle⟩
    | click category item_id =>
      obtain rfl := Option.some.inj ht
      obtain ⟨hfinal, hle⟩ := ih (positive_clickOnKey hpos key category item_id) hrest
      rw [total_clickOnKey] at hle
      refine ⟨hfinal, hle.trans_eq ?_⟩
      rw [bumps, Nat.cast_add, add_assoc]

/-- A key that is returned again after a refresh loses more than one decay. -/
theorem total_returned_again (hd : decayFactor exp settings = .ok d) (h0 : 0 < d) (h1 : d < 1)
    {keys keys' keys'' : TopKeys K} {pre post : List TickAct} (hpos : (keys key).Positive)
    (hpre : runTick exp settings keys pre = some keys') (hpresent : Present keys' key)
    (hrun : runTick exp settings keys (pre ++ .returned key :: post) = some keys'') :
    (keys'' key).total < (clicksOn key (keys key) (pre ++ .returned key :: post)).total := by
  obtain ⟨hpos', hle⟩ := total_runTick_le hd h0 h1 hpos hpre
  obtain ⟨t, ht, hrest⟩ := Trace.exec_append.mp hrun
  obtain rfl : keys' = t := Option.some.inj (hpre.symm.trans ht)
  obtain ⟨u, hu, hpost⟩ := Trace.exec_cons.mp hrest
  rw [step_returned hd] at hu
  obtain rfl := Option.some.inj hu
  have hupdate := Function.update_self key (decayAll d (trim settings (keys' key))) keys'
  obtain ⟨-, hlast⟩ := total_runTick_le hd h0 h1 (by rw [hupdate]; exact positive_decayAll h0 _) hpost
  rw [hupdate] at hlast
  have hdecayed := total_refresh_le h0 settings hpos'
  have hless : (keys' key).total * d < (keys' key).total :=
    mul_lt_of_lt_one_right (hpos'.total_pos hpresent) h1
  rw [total_clicksOn, bumps_append, bumps, Nat.cast_add]
  linarith

/-- A key that decays once is returned once. -/
theorem DecaysOnce.count_eq_one (hd : decayFactor exp settings = .ok d) (h0 : 0 < d) (h1 : d < 1)
    {start : TopKeys K} {acts : List TickAct}
    (hpresent : PresentThroughout exp settings start acts key)
    (h : DecaysOnce exp settings start acts key) : acts.count (.returned key) = 1 := by
  obtain ⟨pre, post, s, keys, rfl, hpre, hs, hrun, hfinal⟩ := h
  rw [List.count_append, List.count_eq_zero_of_not_mem hpre, List.count_cons_self, Nat.zero_add,
    Nat.add_eq_right, List.count_eq_zero]
  intro hagain
  -- the second time the key is returned leaves less than the clicks alone would
  obtain ⟨mid, rest, rfl⟩ := List.append_of_mem hagain
  obtain ⟨t, ht, hrest⟩ := Trace.exec_append.mp hrun
  obtain ⟨u, hu, hpost⟩ := Trace.exec_cons.mp hrest
  rw [step_returned hd] at hu
  obtain rfl := Option.some.inj hu
  have hupdate := Function.update_self key (decayAll d (trim settings (t key))) t
  rw [← runTick_not_returned hd hpre ht, refreshOneCategory_eq hd] at hs
  obtain rfl := Except.ok.inj hs
  obtain ⟨keys', hmid⟩ := exists_runTick hd
    (Function.update t key (decayAll d (trim settings (t key)))) mid
  have hpresent' : Present keys' key := by
    have hprefix : pre ++ .returned key :: mid <+: pre ++ .returned key :: (mid ++ .returned key :: rest) :=
      ⟨.returned key :: rest, by simp⟩
    obtain ⟨v, hv, hpresent⟩ := hpresent _ hprefix
    have hv' : runTick exp settings start (pre ++ .returned key :: mid) = some keys' :=
      Trace.exec_append.mpr ⟨t, ht, Trace.exec_cons.mpr ⟨_, step_returned hd t key, hmid⟩⟩
    rw [hv] at hv'
    obtain rfl := Option.some.inj hv'
    exact hpresent
  have hlt := total_returned_again hd h0 h1 (by rw [hupdate]; exact positive_decayAll h0 _) hmid
    hpresent' hpost
  rw [hfinal, hupdate] at hlt
  exact hlt.false

omit [IsStrictOrderedRing K] in
/-- A key that is returned once decays once. -/
theorem decaysOnce_of_count_eq_one (hd : decayFactor exp settings = .ok d) (start : TopKeys K)
    {acts : List TickAct} (h : acts.count (.returned key) = 1) :
    DecaysOnce exp settings start acts key := by
  have hmem : TickAct.returned key ∈ acts := List.count_pos_iff.mp (by omega)
  obtain ⟨pre, post, rfl⟩ := List.append_of_mem hmem
  rw [List.count_append, List.count_cons_self] at h
  have hpre : TickAct.returned key ∉ pre := List.count_eq_zero.mp (by omega)
  have hpost : TickAct.returned key ∉ post := List.count_eq_zero.mp (by omega)
  obtain ⟨keys, hrun⟩ := exists_runTick hd start (pre ++ .returned key :: post)
  obtain ⟨t, ht, hrest⟩ := Trace.exec_append.mp hrun
  obtain ⟨u, hu, hlast⟩ := Trace.exec_cons.mp hrest
  rw [step_returned hd] at hu
  obtain rfl := Option.some.inj hu
  refine ⟨pre, post, decayAll d (trim settings (t key)), keys, rfl, hpre, ?_, hrun, ?_⟩
  · rw [← runTick_not_returned hd hpre ht]
    exact refreshOneCategory_eq hd _
  · rw [runTick_not_returned hd hpost hlast, Function.update_self]

/-- The one refresh multiplies the score of every member that is left by the decay, and leaves the top
members whose decayed score is above the floor. -/
theorem DecaysOnce.refreshed (hd : decayFactor exp settings = .ok d) (h0 : 0 < d)
    (hN : 0 ≤ settings.cache_top_max_members) {start : TopKeys K} {acts : List TickAct}
    (h : DecaysOnce exp settings start acts key) :
    ∃ pre post s keys, acts = pre ++ .returned key :: post ∧ .returned key ∉ pre ∧
      Refreshed settings d (clicksOn key (start key) pre) s ∧
      (∀ m x, s.zscore m = some x →
        ∃ y, (clicksOn key (start key) pre).zscore m = some y ∧ x = y * d) ∧
      runTick exp settings start acts = some keys ∧ keys key = clicksOn key s post := by
  obtain ⟨pre, post, s, keys, hacts, hpre, hs, hrun, hfinal⟩ := h
  rw [refreshOneCategory_eq hd] at hs
  obtain rfl := Except.ok.inj hs
  have hrefreshed := Cache.refreshed h0 hN (clicksOn key (start key) pre)
  refine ⟨pre, post, _, keys, hacts, hpre, hrefreshed, fun m x hx => ?_, hrun, hfinal⟩
  rw [hrefreshed.score] at hx
  obtain ⟨y, hy, hxy⟩ := Option.bind_eq_some_iff.mp hx
  exact ⟨y, SortedSet.zscore_of_zscore_keepTop hy, (newScore_eq_some.mp hxy).2⟩

/-- In a tick, every key that is there throughout decays exactly once if and only if the scan
returns none of them more than once. -/
theorem decays_once_iff (hd : decayFactor exp settings = .ok d) (h0 : 0 < d) (h1 : d < 1)
    {start : TopKeys K} {acts : List TickAct} (hscan : ScanAllowed exp settings start acts) :
    (∀ key, Matches key → PresentThroughout exp settings start acts key →
      DecaysOnce exp settings start acts key) ↔
    ∀ key, Matches key → PresentThroughout exp settings start acts key →
      acts.count (.returned key) ≤ 1 := by
  constructor
  · intro h key hkey hpresent
    exact ((h key hkey hpresent).count_eq_one hd h0 h1 hpresent).le
  · intro h key hkey hpresent
    have hmem := List.count_pos_iff.mpr (hscan.complete key hkey hpresent)
    exact decaysOnce_of_count_eq_one hd start (le_antisymm (h key hkey hpresent) hmem)

end

/-! ## Ticks over one key -/

def shoesKey : String := "items:top:shoes"

/-- Only the shoes are there, with one item. -/
def shoesOnly : TopKeys ℚ := Function.update (fun _ => .empty) shoesKey (SortedSet.empty.zadd "i1" 100)

theorem eq_shoesKey {key : String} (h : Present shoesOnly key) : key = shoesKey := by
  by_contra hne
  rw [Present, shoesOnly, Function.update_of_ne hne] at h
  exact h rfl

theorem matches_shoesKey : Matches shoesKey := ⟨"shoes".toList, by decide⟩

/-- Redis may return the one key any number of times. -/
theorem scanAllowed_shoes (n : ℕ) : ScanAllowed halving defaultRefreshSettings shoesOnly
    (List.replicate (n + 1) (.returned shoesKey)) where
  complete := by
    intro key _ h
    obtain ⟨keys, hkeys, hpresent⟩ := h [] List.nil_prefix
    obtain rfl := Option.some.inj hkeys
    rw [eq_shoesKey hpresent]
    exact List.mem_replicate.mpr ⟨Nat.succ_ne_zero n, rfl⟩
  matching := by
    intro key h
    obtain rfl := TickAct.returned.inj (List.eq_of_mem_replicate h)
    exact matches_shoesKey
  existing := by
    intro pre key post h
    have hmem : TickAct.returned key ∈ List.replicate (n + 1) (.returned shoesKey) := by
      rw [h]
      simp
    obtain rfl := TickAct.returned.inj (List.eq_of_mem_replicate hmem)
    exact ⟨[], shoesOnly, List.nil_prefix, rfl, by rw [Present]; decide +kernel⟩

theorem decays_once_shoes :
    (∀ key, Matches key →
      PresentThroughout halving defaultRefreshSettings shoesOnly [.returned shoesKey] key →
      DecaysOnce halving defaultRefreshSettings shoesOnly [.returned shoesKey] key) ↔
    ∀ key, Matches key →
      PresentThroughout halving defaultRefreshSettings shoesOnly [.returned shoesKey] key →
      [TickAct.returned shoesKey].count (.returned key) ≤ 1 :=
  decays_once_iff decayFactor_halving (by norm_num) (by norm_num) (scanAllowed_shoes 0)

theorem runTick_shoes (n : ℕ) (hn : n ≤ 2) :
    (runTick halving defaultRefreshSettings shoesOnly (List.replicate n (.returned shoesKey))).map
      (fun keys => (keys shoesKey).zscore "i1") = some (some (100 / 2 ^ n)) := by
  interval_cases n
  · decide +kernel
  · decide +kernel
  · decide +kernel

/-- A scan that returns a key twice decays it twice. -/
theorem key_returned_twice_decays_twice :
    ¬ ∀ (start : TopKeys ℚ) (acts : List TickAct),
      ScanAllowed halving defaultRefreshSettings start acts →
      ∀ key, Matches key → PresentThroughout halving defaultRefreshSettings start acts key →
        DecaysOnce halving defaultRefreshSettings start acts key := by
  intro h
  have hpresent : PresentThroughout halving defaultRefreshSettings shoesOnly
      (List.replicate 2 (.returned shoesKey)) shoesKey := by
    intro pre hpre
    obtain ⟨hlen, hpre⟩ := List.prefix_replicate_iff.mp hpre
    obtain ⟨keys, hkeys, hscore⟩ := Option.map_eq_some_iff.mp (runTick_shoes pre.length hlen)
    rw [← hpre] at hkeys
    refine ⟨keys, hkeys, fun hempty => ?_⟩
    rw [SortedSet.zscore, hempty] at hscore
    cases hscore
  obtain ⟨pre, post, s, keys, hacts, hpre, hs, hrun, hfinal⟩ :=
    h shoesOnly (List.replicate 2 (.returned shoesKey)) (scanAllowed_shoes 1) shoesKey
      matches_shoesKey hpresent
  obtain rfl : pre = [] := by
    cases pre with
    | nil => rfl
    | cons a pre =>
      obtain rfl : .returned shoesKey = a := (List.cons.inj hacts).1
      exact absurd List.mem_cons_self hpre
  obtain rfl : [.returned shoesKey] = post := (List.cons.inj hacts).2
  have honce : (refreshOneCategory halving defaultRefreshSettings (shoesOnly shoesKey)).toOption.map
      (fun s => s.zscore "i1") = some (some 50) := by decide +kernel
  have htwice := runTick_shoes 2 le_rfl
  have hs : refreshOneCategory halving defaultRefreshSettings (shoesOnly shoesKey) = .ok s := hs
  have hfinal : keys shoesKey = s := hfinal
  rw [hs] at honce
  rw [hrun, Option.map_some, hfinal] at htwice
  have honce : s.zscore "i1" = some 50 := Option.some.inj honce
  rw [honce] at htwice
  exact absurd htwice (by norm_num)

end ClickRec.Cache
