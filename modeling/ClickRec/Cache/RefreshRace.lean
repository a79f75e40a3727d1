import ClickRec.Cache.CacheAside
import ClickRec.Cache.DecayedPopularity

/-! # Clicks while a key is being refreshed

`_refresh_one_category` sends its commands one by one, and clicks of the consumers fall between them.
What is written was computed from the scores that were read, so a click on a member in between is
overwritten. The key does not expire in the meantime. -/
namespace ClickRec.Cache
set_option autoImplicit false

variable {K : Type*} [Field K] [LinearOrder K]

/-! ## The commands of a refresh -/

/-- `ZADD key decayed`. -/
def writeDecayed (decay : K) (members : List (String × K)) (s : SortedSet K String) :
    SortedSet K String :=
  (decayedScores decay members).foldl (fun s e => s.zadd e.1 e.2) s

def toRemove (decay : K) (members : List (String × K)) : List String :=
  (members.map Prod.fst).filter fun m => !((decayedScores decay members).map Prod.fst).contains m

/-- `ZREM key *to_remove`. -/
def removeFloor (decay : K) (members : List (String × K)) (s : SortedSet K String) :
    SortedSet K String :=
  (toRemove decay members).foldl SortedSet.zrem s

theorem decayAll_commands (decay : K) (s : SortedSet K String) :
    decayAll decay s = removeFloor decay s.withScores (writeDecayed decay s.withScores s) := rfl

/-- Where a refresh of the key stands; the members that were read with their scores are kept until they
are written. -/
inductive RefreshStage (K : Type*) where
  | idle
  | trimmed
  | read (members : List (String × K))
  | written (members : List (String × K))
  | expiring

/-- `if decayed`, `if to_remove`: a command without members is not sent. -/
def afterWrite (decay : K) (members : List (String × K)) : RefreshStage K :=
  if toRemove decay members = [] then .expiring else .written members

def afterRead (decay : K) (members : List (String × K)) : RefreshStage K :=
  if members = [] then .expiring
  else if decayedScores decay members = [] then .written members
  else .read members

structure RaceState (K : Type*) [LinearOrder K] where
  key : SortedSet K String
  stage : RefreshStage K

inductive RaceAct where
  | zincrby (item_id : String)
  | trim (r : Reply)
  | zrange (r : Reply)
  | zadd (r : Reply)
  | zrem (r : Reply)
  | expire (r : Reply)
  -- the refresher is cancelled or its process ends
  | stop
  deriving DecidableEq

/-- A command that raises ends the refresh of the key. -/
def replied (r : Reply) (stage : RefreshStage K) : RefreshStage K :=
  match r with
  | .ok => stage
  | .error _ => .idle

/-- `decay` is what `decayFactor` returned. -/
def raceStep (settings : RefreshSettings) (decay : K) (c : RaceState K) : RaceAct → Option (RaceState K)
  | .zincrby item_id => some { c with key := c.key.zincrby item_id 1 }
  | .stop => some { c with stage := .idle }
  | .trim r =>
    match c.stage with
    | .idle => some ⟨if r.took then trim settings c.key else c.key, replied r .trimmed⟩
    | _ => none
  | .zrange r =>
    match c.stage with
    | .trimmed => some ⟨c.key, replied r (afterRead decay c.key.withScores)⟩
    | _ => none
  | .zadd r =>
    match c.stage with
    | .read members => some ⟨if r.took then writeDecayed decay members c.key else c.key,
        replied r (afterWrite decay members)⟩
    | _ => none
  | .zrem r =>
    match c.stage with
    | .written members =>
      some ⟨if r.took then removeFloor decay members c.key else c.key, replied r .expiring⟩
    | _ => none
  | .expire _ =>
    match c.stage with
    | .expiring => some ⟨c.key, .idle⟩
    | _ => none

/-! ## Whole refreshes -/

/-- What happens to the key when nothing falls between the commands. -/
inductive WholeAct where
  | zincrby (item_id : String)
  | trim
  | decay
  -- the members below the floor are not removed
  | write
  deriving DecidableEq

def wholeStep (settings : RefreshSettings) (decay : K) (s : SortedSet K String) :
    WholeAct → Option (SortedSet K String)
  | .zincrby item_id => some (s.zincrby item_id 1)
  | .trim => some (trim settings s)
  | .decay => some (decayAll decay s)
  | .write => some (writeDecayed decay s.withScores s)

def WholeAct.decays : WholeAct → Bool
  | decay => true
  | write => true
  | _ => false

/-- The member has been read and not yet been written for the last time. -/
def RefreshStage.Holds (m : String) : RefreshStage K → Prop
  | read members => m ∈ members.map Prod.fst
  | written members => m ∈ members.map Prod.fst
  | _ => False

instance (m : String) : ∀ stage : RefreshStage K, Decidable (stage.Holds m)
  | .read members => inferInstanceAs (Decidable (m ∈ members.map Prod.fst))
  | .written members => inferInstanceAs (Decidable (m ∈ members.map Prod.fst))
  | .idle => isFalse id
  | .trimmed => isFalse id
  | .expiring => isFalse id

/-- A click on a member that is being refreshed. -/
def Races (m : String) (c : RaceState K) (a : RaceAct) : Prop := a = .zincrby m ∧ c.stage.Holds m

instance (m : String) (c : RaceState K) (a : RaceAct) : Decidable (Races m c a) :=
  inferInstanceAs (Decidable (_ ∧ _))

/-! ## What the late writes overwrite -/

section Late
variable {settings : RefreshSettings} {decay : K} {s0 : SortedSet K String} {since : List String}

/-- The members that are written back. -/
def decayedMembers (decay : K) (members : List (String × K)) : List String :=
  (decayedScores decay members).map Prod.fst

def without (l since : List String) : List String := since.filter fun m => !l.contains m

theorem count_without (l since : List String) (m : String) :
    (without l since).count m = if m ∈ l then 0 else since.count m := by
  unfold without
  split
  · rename_i hm
    rw [List.count_eq_zero, List.mem_filter]
    simp [hm]
  · rename_i hm
    exact List.count_filter (by simpa using hm)

theorem nodup_decayedMembers (decay : K) (s : SortedSet K String) :
    (decayedMembers decay s.withScores).Nodup := by
  refine List.Nodup.sublist (map_fst_decayedScores_sublist decay s.withScores) ?_
  rw [SortedSet.map_fst_withScores]
  exact s.distinct

/-- The increments of the members that are written back are lost. -/
theorem writeDecayed_late : writeDecayed decay s0.withScores (SortedSet.bumpAll since s0) =
    SortedSet.bumpAll (without (decayedMembers decay s0.withScores) since)
      (writeDecayed decay s0.withScores s0) := by
  refine SortedSet.ext_zscore fun m => ?_
  by_cases hm : m ∈ decayedMembers decay s0.withScores
  · obtain ⟨⟨n, x⟩, hx, rfl⟩ := List.mem_map.mp hm
    have hnodup := nodup_decayedMembers decay s0
    rw [SortedSet.zscore_bumpAll, count_without, if_pos hm, if_pos rfl, writeDecayed, writeDecayed,
      SortedSet.zscore_foldl_zadd hnodup _ hx, SortedSet.zscore_foldl_zadd hnodup _ hx]
  · rw [writeDecayed, SortedSet.zscore_foldl_zadd_of_not_mem hm]
    refine SortedSet.zscore_bumpAll_congr ?_ ?_
    · rw [writeDecayed, SortedSet.zscore_foldl_zadd_of_not_mem hm]
    · rw [count_without, if_neg hm]

/-- So are those of the members that are removed. -/
theorem removeFloor_late : removeFloor decay s0.withScores
      (SortedSet.bumpAll since (writeDecayed decay s0.withScores s0)) =
    SortedSet.bumpAll (without (toRemove decay s0.withScores) since) (decayAll decay s0) := by
  refine SortedSet.ext_zscore fun m => ?_
  rw [decayAll_commands, removeFloor, SortedSet.zscore_foldl_zrem]
  by_cases hm : m ∈ toRemove decay s0.withScores
  · rw [if_pos hm, SortedSet.zscore_bumpAll, count_without, if_pos hm, if_pos rfl, removeFloor,
      SortedSet.zscore_foldl_zrem, if_pos hm]
  · rw [if_neg hm]
    refine SortedSet.zscore_bumpAll_congr ?_ ?_
    · rw [removeFloor, SortedSet.zscore_foldl_zrem, if_neg hm]
    · rw [count_without, if_neg hm]

theorem mem_of_mem_decayedMembers {members : List (String × K)} {m : String}
    (h : m ∈ decayedMembers decay members) : m ∈ members.map Prod.fst :=
  (map_fst_decayedScores_sublist decay members).mem h

theorem mem_of_mem_toRemove {members : List (String × K)} {m : String}
    (h : m ∈ toRemove decay members) : m ∈ members.map Prod.fst :=
  (List.mem_filter.mp h).1

theorem writeDecayed_of_none {members : List (String × K)} (h : decayedScores decay members = [])
    (s : SortedSet K String) : writeDecayed decay members s = s := by
  rw [writeDecayed, h]
  rfl

/-- The increments as actions. -/
theorem exec_bumps (settings : RefreshSettings) (decay : K) (since : List String)
    (s : SortedSet K String) : Trace.exec (wholeStep settings decay) s (since.map .zincrby) =
      some (SortedSet.bumpAll since s) := by
  induction since generalizing s with
  | nil => rfl
  | cons m since ih =>
    rw [List.map_cons, Trace.exec, wholeStep, Option.bind_some, ih]
    rfl

theorem count_bumps (since : List String) (m : String) :
    (since.map WholeAct.zincrby).count (.zincrby m) = since.count m :=
  List.count_map_of_injective since WholeAct.zincrby (fun _ _ h => WholeAct.zincrby.inj h) m

theorem countP_decays_bumps (since : List String) :
    (since.map WholeAct.zincrby).countP WholeAct.decays = 0 := by
  rw [List.countP_map, List.countP_eq_zero]
  simp [WholeAct.decays]

end Late

/-! ## The whole acts of a run -/

section Runs
variable {settings : RefreshSettings} {decay : K} {start : RaceState K} {as : List RaceAct}
  {base : List WholeAct} {since : List String} {holds : String → Prop} {pending : ℕ}

/-- How many clicks on the member race with a refresh. -/
def races (settings : RefreshSettings) (decay : K) (start : RaceState K) (m : String)
    (as : List RaceAct) : ℕ :=
  Trace.countAlong (raceStep settings decay) (Races m) start as

/-- The clicks of the run against those that are kept: the whole acts up to the last read and the
increments since. What is read and not yet written may still be lost. -/
structure Accounted (settings : RefreshSettings) (decay : K) (start : RaceState K)
    (as : List RaceAct) (base : List WholeAct) (since : List String) (holds : String → Prop)
    (pending : ℕ) : Prop where
  kept_le : ∀ m, base.count (.zincrby m) + since.count m ≤ as.count (.zincrby m)
  lost_le : ∀ m, as.count (.zincrby m) ≤
    base.count (.zincrby m) + since.count m + races settings decay start m as
  at_risk : ∀ m, holds m →
    as.count (.zincrby m) ≤ base.count (.zincrby m) + races settings decay start m as
  decays_le : base.countP WholeAct.decays + pending ≤ as.count (.zrange .ok)

theorem Accounted.click {c : RaceState K} (n : String)
    (h : Accounted settings decay start as base since holds pending)
    (hrun : Trace.exec (raceStep settings decay) start as = some c)
    (hholds : ∀ m, holds m → c.stage.Holds m) :
    Accounted settings decay start (as ++ [.zincrby n]) base (since ++ [n]) holds pending := by
  have hraces : ∀ m, races settings decay start m (as ++ [.zincrby n]) =
      races settings decay start m as + if Races m c (.zincrby n) then 1 else 0 :=
    fun m => Trace.countAlong_concat hrun
  have hclick : ∀ m, (as ++ [RaceAct.zincrby n]).count (.zincrby m) =
      as.count (.zincrby m) + [n].count m := by
    intro m
    rw [List.count_append]
    congr 1
    exact List.count_map_of_injective [n] RaceAct.zincrby (fun _ _ h => RaceAct.zincrby.inj h) m
  refine ⟨fun m => ?_, fun m => ?_, fun m hm => ?_, ?_⟩
  · have := h.kept_le m
    rw [hclick, List.count_append]
    omega
  · have := h.lost_le m
    rw [hclick, hraces, List.count_append]
    omega
  · have hrisk := h.at_risk m hm
    rw [hclick, hraces]
    by_cases hn : n = m
    · subst hn
      rw [if_pos ⟨rfl, hholds n hm⟩, List.count_singleton_self]
      omega
    · have hcount : [n].count m = 0 := by simpa [List.count_eq_zero] using Ne.symm hn
      omega
  · rw [List.count_append]
    exact h.decays_le.trans (Nat.le_add_right _ _)

/-- A command of the refresher is no click. -/
theorem Accounted.command {c : RaceState K} {a : RaceAct} (ha : ∀ n, a ≠ .zincrby n)
    (h : Accounted settings decay start as base since holds pending)
    (hrun : Trace.exec (raceStep settings decay) start as = some c) :
    Accounted settings decay start (as ++ [a]) base since holds
      (pending + [a].count (.zrange .ok)) := by
  have hraces : ∀ m, races settings decay start m (as ++ [a]) = races settings decay start m as := by
    intro m
    have hconcat : races settings decay start m (as ++ [a]) =
        races settings decay start m as + if Races m c a then 1 else 0 := Trace.countAlong_concat hrun
    rw [hconcat, if_neg fun hr => ha m hr.1, Nat.add_zero]
  have hclick : ∀ m, (as ++ [a]).count (.zincrby m) = as.count (.zincrby m) := by
    intro m
    have hnone : [a].count (.zincrby m) = 0 := by simpa [List.count_eq_zero] using Ne.symm (ha m)
    rw [List.count_append, hnone, Nat.add_zero]
  refine ⟨fun m => ?_, fun m => ?_, fun m hm => ?_, ?_⟩
  · rw [hclick]
    exact h.kept_le m
  · rw [hclick, hraces]
    exact h.lost_le m
  · rw [hclick, hraces]
    exact h.at_risk m hm
  · rw [List.count_append, ← Nat.add_assoc]
    exact Nat.add_le_add_right h.decays_le _

/-- A late write loses the increments of its members. -/
theorem Accounted.without {l : List String} {acts : List WholeAct}
    (pending' : ℕ) (h : Accounted settings decay start as base since holds pending)
    (hl : ∀ m ∈ l, holds m) (hcount : ∀ m, acts.count (.zincrby m) = base.count (.zincrby m))
    (hdecays : acts.countP WholeAct.decays + pending' ≤ base.countP WholeAct.decays + pending) :
    Accounted settings decay start as acts (Cache.without l since) holds pending' := by
  refine ⟨fun m => ?_, fun m => ?_, fun m hm => ?_, ?_⟩
  · have := h.kept_le m
    rw [hcount, count_without]
    split
    · omega
    · exact this
  · rw [hcount, count_without]
    split
    · rename_i hm
      have := h.at_risk m (hl m hm)
      omega
    · exact h.lost_le m
  · rw [hcount]
    exact h.at_risk m hm
  · exact hdecays.trans h.decays_le

/-- The refresh is over. -/
theorem Accounted.fold (h : Accounted settings decay start as base since holds pending)
    (holds' : String → Prop) (hholds : ∀ m, ¬ holds' m) :
    Accounted settings decay start as (base ++ since.map .zincrby) [] holds' 0 := by
  refine ⟨fun m => ?_, fun m => ?_, fun m hm => absurd hm (hholds m), ?_⟩
  · rw [List.count_append, count_bumps]
    exact h.kept_le m
  · rw [List.count_append, count_bumps]
    exact h.lost_le m
  · rw [List.countP_append, countP_decays_bumps]
    have := h.decays_le
    omega

/-- Nothing has come in since the read. -/
theorem Accounted.watch (h : Accounted settings decay start as base [] holds pending)
    (holds' : String → Prop) : Accounted settings decay start as base [] holds' pending :=
  ⟨h.kept_le, h.lost_le, fun m _ => h.lost_le m, h.decays_le⟩

theorem Accounted.weaken {pending' : ℕ}
    (h : Accounted settings decay start as base since holds pending) (hle : pending' ≤ pending) :
    Accounted settings decay start as base since holds pending' :=
  ⟨h.kept_le, h.lost_le, h.at_risk, (Nat.add_le_add_left hle _).trans h.decays_le⟩

def RefreshStage.calm : RefreshStage K → Bool
  | read _ => false
  | written _ => false
  | _ => true

/-- The key is what whole acts and the increments since the last read make of it. -/
inductive Aligned (settings : RefreshSettings) (decay : K) (start : RaceState K)
    (as : List RaceAct) : RaceState K → Prop where
  | whole {acts : List WholeAct} {s : SortedSet K String} {stage : RefreshStage K} :
    stage.calm = true → Trace.exec (wholeStep settings decay) start.key acts = some s →
    Accounted settings decay start as acts [] (fun _ => False) 0 →
    Aligned settings decay start as ⟨s, stage⟩
  | read {base : List WholeAct} {s0 : SortedSet K String} {since : List String} :
    Trace.exec (wholeStep settings decay) start.key base = some s0 →
    Accounted settings decay start as base since (fun m => m ∈ s0.withScores.map Prod.fst) 1 →
    Aligned settings decay start as ⟨SortedSet.bumpAll since s0, .read s0.withScores⟩
  | written {base : List WholeAct} {s0 : SortedSet K String} {since : List String} :
    Trace.exec (wholeStep settings decay) start.key base = some s0 →
    Accounted settings decay start as base since (fun m => m ∈ s0.withScores.map Prod.fst) 1 →
    Aligned settings decay start as
      ⟨SortedSet.bumpAll since (writeDecayed decay s0.withScores s0), .written s0.withScores⟩

theorem Aligned.fold {acts : List WholeAct} {s : SortedSet K String} {stage : RefreshStage K}
    (since : List String) (hcalm : stage.calm = true) (hacts : Trace.exec (wholeStep settings decay) start.key acts = some s)
    (h : Accounted settings decay start as acts since holds pending) :
    Aligned settings decay start as ⟨SortedSet.bumpAll since s, stage⟩ :=
  .whole hcalm (Trace.exec_append.mpr ⟨s, hacts, exec_bumps settings decay since s⟩)
    (h.fold _ fun _ => id)

/-- The last read ends in a whole act. -/
theorem Aligned.ends {s0 s : SortedSet K String} {stage : RefreshStage K} (act : WholeAct)
    (l : List String) (hcalm : stage.calm = true)
    (hbase : Trace.exec (wholeStep settings decay) start.key base = some s0)
    (h : Accounted settings decay start as base since holds 1) (hl : ∀ m ∈ l, holds m)
    (hact : wholeStep settings decay s0 act = some s) (hclick : ∀ n, act ≠ .zincrby n) :
    Aligned settings decay start as ⟨SortedSet.bumpAll (without l since) s, stage⟩ := by
  refine .fold _ hcalm (Trace.exec_concat.mpr ⟨s0, hbase, hact⟩)
    (h.without 0 hl (fun m => ?_) ?_)
  · have hnone : [act].count (.zincrby m) = 0 := by
      simpa [List.count_eq_zero] using Ne.symm (hclick m)
    rw [List.count_append, hnone, Nat.add_zero]
  · have hone : [act].countP WholeAct.decays ≤ 1 := List.countP_le_length
    rw [List.countP_append]
    omega

theorem aligned_start {key : SortedSet K String} :
    Aligned settings decay ⟨key, .idle⟩ [] ⟨key, .idle⟩ :=
  .whole rfl (Trace.exec_nil _ _) ⟨fun _ => Nat.zero_le _, fun _ => Nat.zero_le _, fun _ => False.elim,
    le_rfl⟩

theorem without_nil (since : List String) : without [] since = since := by simp [without]

theorem Aligned.click {c d : RaceState K} (n : String) (h : Aligned settings decay start as c)
    (hrun : Trace.exec (raceStep settings decay) start as = some c)
    (hstep : raceStep settings decay c (.zincrby n) = some d) :
    Aligned settings decay start (as ++ [.zincrby n]) d := by
  obtain rfl := Option.some.inj hstep
  cases h with
  | whole hcalm hacts h =>
    exact .fold [n] hcalm hacts (h.click n hrun fun _ => False.elim)
  | @read base s0 since hbase h =>
    have hkey : (SortedSet.bumpAll since s0).zincrby n 1 = SortedSet.bumpAll (since ++ [n]) s0 := by
      simp [SortedSet.bumpAll]
    rw [hkey]
    exact .read hbase (h.click n hrun fun m hm => hm)
  | @written base s0 since hbase h =>
    have hkey : (SortedSet.bumpAll since (writeDecayed decay s0.withScores s0)).zincrby n 1 =
        SortedSet.bumpAll (since ++ [n]) (writeDecayed decay s0.withScores s0) := by
      simp [SortedSet.bumpAll]
    rw [hkey]
    exact .written hbase (h.click n hrun fun m hm => hm)

/-- Whole acts make the key of it, also if the refresh is given up. -/
theorem Aligned.exists_whole {c : RaceState K} (h : Aligned settings decay start as c) :
    ∃ acts, Trace.exec (wholeStep settings decay) start.key acts = some c.key ∧
      Accounted settings decay start as acts [] (fun _ => False) 0 := by
  have hfold : ∀ {base : List WholeAct} {since : List String} {holds : String → Prop}
      {s : SortedSet K String} {pending : ℕ},
      Trace.exec (wholeStep settings decay) start.key base = some s →
      Accounted settings decay start as base since holds pending →
      ∃ acts, Trace.exec (wholeStep settings decay) start.key acts = some (SortedSet.bumpAll since s) ∧
        Accounted settings decay start as acts [] (fun _ => False) 0 :=
    fun hbase h => ⟨_, Trace.exec_append.mpr ⟨_, hbase, exec_bumps settings decay _ _⟩,
      h.fold _ fun _ => id⟩
  cases h with
  | whole hcalm hacts h => exact ⟨_, hacts, h⟩
  | read hbase h => exact hfold hbase h
  | @written base s0 since hbase h =>
    have hwrite : Accounted settings decay start as (base ++ [.write]) (without [] since)
        (fun m => m ∈ s0.withScores.map Prod.fst) 0 :=
      h.without 0 nofun (fun m => by simp [List.count_append])
        (by simp [List.countP_append, WholeAct.decays])
    rw [without_nil] at hwrite
    exact hfold (Trace.exec_concat.mpr ⟨s0, hbase, rfl⟩) hwrite

theorem Aligned.stop {c : RaceState K} (h : Aligned settings decay start as c) :
    Aligned settings decay start as ⟨c.key, .idle⟩ := by
  obtain ⟨acts, hacts, haccounted⟩ := h.exists_whole
  exact .whole rfl hacts haccounted

/-- A command that raises without effect. -/
theorem Aligned.after {c : RaceState K} {a : RaceAct} (ha : ∀ n, a ≠ .zincrby n)
    (h : Aligned settings decay start as c)
    (hrun : Trace.exec (raceStep settings decay) start as = some c) :
    Aligned settings decay start (as ++ [a]) c := by
  cases h with
  | whole hcalm hacts h =>
    exact .whole hcalm hacts ((h.command ha hrun).weaken (Nat.zero_le _))
  | read hbase h => exact .read hbase ((h.command ha hrun).weaken (Nat.le_add_right _ _))
  | written hbase h => exact .written hbase ((h.command ha hrun).weaken (Nat.le_add_right _ _))

theorem Aligned.trim {c d : RaceState K} (r : Reply) (h : Aligned settings decay start as c)
    (hstep : raceStep settings decay c (.trim r) = some d) : Aligned settings decay start as d := by
  cases h with
  | @whole acts s stage hcalm hacts h =>
    cases stage with
    | idle =>
      obtain rfl := Option.some.inj hstep
      have hstage : (replied r .trimmed : RefreshStage K).calm = true := by cases r <;> rfl
      cases hr : r.took with
      | true =>
        have htrim : Accounted settings decay start as (acts ++ [.trim]) (without [] [])
            (fun _ => False) 0 :=
          h.without 0 nofun (fun m => by simp [List.count_append])
            (by simp [List.countP_append, WholeAct.decays])
        exact .whole hstage (Trace.exec_concat.mpr ⟨s, hacts, rfl⟩) htrim
      | false => exact .whole hstage hacts h
    | _ => cases hstep
  | read hbase h => cases hstep
  | written hbase h => cases hstep

theorem Aligned.zrange {c d : RaceState K} (r : Reply) (h : Aligned settings decay start as c)
    (hrun : Trace.exec (raceStep settings decay) start as = some c)
    (hstep : raceStep settings decay c (.zrange r) = some d) :
    Aligned settings decay start (as ++ [.zrange r]) d := by
  cases h with
  | @whole acts s stage hcalm hacts h =>
    cases stage with
    | trimmed =>
      obtain rfl := Option.some.inj hstep
      have hclick : ∀ n, RaceAct.zrange r ≠ .zincrby n := nofun
      have hcommand := h.command hclick hrun
      cases r with
      | error took => exact .fold [] rfl hacts hcommand
      | ok =>
        have hread : Accounted settings decay start (as ++ [.zrange .ok]) acts []
            (fun m => m ∈ s.withScores.map Prod.fst) 1 := hcommand.watch _
        simp only [replied, afterRead]
        split
        · exact .fold [] rfl hacts hread
        · split
          · rename_i hnone
            have hwritten := Aligned.written hacts hread
            rw [writeDecayed_of_none hnone] at hwritten
            exact hwritten
          · exact .read hacts hread
    | _ => cases hstep
  | read hbase h => cases hstep
  | written hbase h => cases hstep

theorem Aligned.zadd {c d : RaceState K} (r : Reply) (h : Aligned settings decay start as c)
    (hstep : raceStep settings decay c (.zadd r) = some d) : Aligned settings decay start as d := by
  cases h with
  | @whole acts s stage hcalm hacts h =>
    cases stage with
    | read members => cases hcalm
    | _ => cases hstep
  | written hbase h => cases hstep
  | @read base s0 since hbase h =>
    obtain rfl := Option.some.inj hstep
    have hends : ∀ {stage : RefreshStage K}, stage.calm = true → Aligned settings decay start as
        ⟨writeDecayed decay s0.withScores (SortedSet.bumpAll since s0), stage⟩ := by
      intro stage hcalm
      rw [writeDecayed_late]
      exact .ends .write _ hcalm hbase h (fun m hm => mem_of_mem_decayedMembers hm) rfl nofun
    cases r with
    | error took =>
      cases took with
      | true => exact hends rfl
      | false => exact .fold _ rfl hbase h
    | ok =>
      simp only [Reply.took, if_true, replied, afterWrite]
      split
      · exact hends rfl
      · rw [writeDecayed_late]
        exact .written hbase (h.without 1 (fun m hm => mem_of_mem_decayedMembers hm) (fun _ => rfl) le_rfl)

theorem Aligned.zrem {c d : RaceState K} (r : Reply) (h : Aligned settings decay start as c)
    (hstep : raceStep settings decay c (.zrem r) = some d) : Aligned settings decay start as d := by
  cases h with
  | @whole acts s stage hcalm hacts h =>
    cases stage with
    | written members => cases hcalm
    | _ => cases hstep
  | read hbase h => cases hstep
  | @written base s0 since hbase h =>
    obtain rfl := Option.some.inj hstep
    have hstage : (replied r .expiring : RefreshStage K).calm = true := by cases r <;> rfl
    cases hr : r.took with
    | true =>
      simp only [if_true]
      rw [removeFloor_late]
      exact .ends .decay _ hstage hbase h (fun m hm => mem_of_mem_toRemove hm) rfl nofun
    | false =>
      have hends := Aligned.ends .write [] hstage hbase h nofun rfl nofun
      rw [without_nil] at hends
      exact hends

theorem aligned_exec {key : SortedSet K String} {c : RaceState K}
    (hrun : Trace.exec (raceStep settings decay) ⟨key, .idle⟩ as = some c) :
    Aligned settings decay ⟨key, .idle⟩ as c := by
  refine Trace.exec_concat_induction aligned_start (fun as t a u hpre ih hstep => ?_) hrun
  cases a with
  | zincrby n => exact ih.click n hpre hstep
  | zrange r => exact ih.zrange r hpre hstep
  | trim r =>
    have hafter : Aligned settings decay ⟨key, .idle⟩ (as ++ [.trim r]) t := ih.after nofun hpre
    exact hafter.trim r hstep
  | zadd r =>
    have hafter : Aligned settings decay ⟨key, .idle⟩ (as ++ [.zadd r]) t := ih.after nofun hpre
    exact hafter.zadd r hstep
  | zrem r =>
    have hafter : Aligned settings decay ⟨key, .idle⟩ (as ++ [.zrem r]) t := ih.after nofun hpre
    exact hafter.zrem r hstep
  | expire r =>
    have hafter : Aligned settings decay ⟨key, .idle⟩ (as ++ [.expire r]) t := ih.after nofun hpre
    obtain ⟨s, stage⟩ := t
    cases stage with
    | expiring =>
      obtain rfl := Option.some.inj hstep
      exact hafter.stop
    | _ => cases hstep
  | stop =>
    obtain rfl := Option.some.inj hstep
    have hafter : Aligned settings decay ⟨key, .idle⟩ (as ++ [.stop]) t := ih.after nofun hpre
    exact hafter.stop

/-- **What a racing refresh loses.** Whatever clicks fall between the commands of refreshes one after
another, and whichever commands fail or are never sent, the key is what some sequence of whole trims,
whole decays, decays without removal and increments makes of it. It decays at most once for each read;
no increment is made up, and on each member at most those are missing that came between a read of the
member and its last write. -/
theorem refresh_race (settings : RefreshSettings) (decay : K) (key : SortedSet K String)
    (as : List RaceAct) (c : RaceState K)
    (hrun : Trace.exec (raceStep settings decay) ⟨key, .idle⟩ as = some c) :
    ∃ acts, Trace.exec (wholeStep settings decay) key acts = some c.key ∧
      acts.countP WholeAct.decays ≤ as.count (.zrange .ok) ∧
      ∀ m, acts.count (.zincrby m) ≤ as.count (.zincrby m) ∧
        as.count (.zincrby m) ≤
          acts.count (.zincrby m) + races settings decay ⟨key, .idle⟩ m as := by
  obtain ⟨acts, hacts, h⟩ := (aligned_exec hrun).exists_whole
  refine ⟨acts, hacts, h.decays_le, fun m => ⟨?_, ?_⟩⟩
  · simpa using h.kept_le m
  · simpa using h.lost_le m

end Runs

/-! ## A click that is overwritten -/

/-- The second click falls between the read and the write. -/
def racingClick : List RaceAct :=
  [.zincrby "i1", .trim .ok, .zrange .ok, .zincrby "i1", .zadd .ok, .expire .ok]

theorem refresh_race_lostClick : ∃ c : RaceState ℚ, c.key.zscore "i1" = some (1 / 2) ∧
    ∃ acts, Trace.exec (wholeStep defaultRefreshSettings (1 / 2)) .empty acts = some c.key ∧
      acts.countP WholeAct.decays ≤ racingClick.count (.zrange .ok) ∧
      ∀ m, acts.count (.zincrby m) ≤ racingClick.count (.zincrby m) ∧
        racingClick.count (.zincrby m) ≤ acts.count (.zincrby m) +
          races defaultRefreshSettings (1 / 2 : ℚ) ⟨.empty, .idle⟩ m racingClick := by
  have hrun : (Trace.exec (raceStep defaultRefreshSettings (1 / 2 : ℚ)) ⟨.empty, .idle⟩
      racingClick).bind (fun c => c.key.zscore "i1") = some (1 / 2) := by decide +kernel
  obtain ⟨c, hc, hscore⟩ := Option.bind_eq_some_iff.mp hrun
  exact ⟨c, hscore, refresh_race defaultRefreshSettings (1 / 2) .empty racingClick c hc⟩

end ClickRec.Cache
