import ClickRec.Cache.Stampede

/-! # Who holds the fill lock

The lock key holds the id of the caller whose SET found it free. A fill may outlive the key, so the
release compares before it deletes: it never takes the lock of another caller. -/
namespace ClickRec.Cache
set_option autoImplicit false
open Kafka (Bytes)

/-! ## What a step does to the lock -/

section Effect
variable {ι : Type} {codec : Codec} {caller_id : ι → Bytes} {i : ι} {s t : Store ι} {l m : Stage}

inductive LockEffect (caller_id : ι → Bytes) (i : ι) (s : Store ι) (a : Event) (t : Store ι) : Prop where
  | same : t.lock = s.lock → LockEffect caller_id i s a t
  | set : (∃ r, a = .setLock r) → s.lock = none → t.lock = some (caller_id i) →
    LockEffect caller_id i s a t
  | released : (∃ r, a = .release r) → s.lock = some (caller_id i) → t.lock = none →
    LockEffect caller_id i s a t

theorem lockEffect_setNx (i : ι) (s : Store ι) (r : Reply) :
    LockEffect caller_id i s (.setLock r) (s.setNx (caller_id i)) := by
  cases hlock : s.lock with
  | none => exact .set ⟨r, rfl⟩ hlock (by simp [Store.setNx, hlock])
  | some holder => exact .same (by simp [Store.setNx, hlock])

theorem lockEffect_releaseLock (i : ι) (s : Store ι) (r : Reply) :
    LockEffect caller_id i s (.release r) (s.releaseLock (caller_id i)) := by
  by_cases hlock : s.lock = some (caller_id i)
  · exact .released ⟨r, rfl⟩ hlock (if_pos hlock)
  · exact .same (if_neg hlock)

theorem CallerStep.lockEffect {a : Event} (h : CallerStep codec caller_id i s l a t m) :
    LockEffect caller_id i s a t := by
  cases h with
  | acquire hlock => exact lockEffect_setNx i s .ok
  | @setLockFailed took =>
    cases took with
    | true => exact lockEffect_setNx i s _
    | false => exact .same rfl
  | @populateFailed dto took =>
    cases took with
    | true => exact .same rfl
    | false => exact .same rfl
  | release => exact lockEffect_releaseLock i s .ok
  | @releaseFailed result took =>
    cases took with
    | true => exact lockEffect_releaseLock i s _
    | false => exact .same rfl
  | _ => exact .same rfl

end Effect

section Owner
variable {ι : Type} [DecidableEq ι] {codec : Codec} {caller_id : ι → Bytes} {i : ι}

/-! ## The caller whose value is stored -/

def actor : CallerAct ι → Option ι
  | .proc i _ => some i
  | .env _ => none

/-- Whoever changes the stored value has set it. -/
def setBy (c : Callers ι) (a : CallerAct ι) (d : Callers ι) (owner : Option ι) : Option ι :=
  if d.shared.lock = c.shared.lock then owner else d.shared.lock.bind fun _ => actor a

/-- The callers, with the one whose SET stored the value in the lock. -/
abbrev Owned (ι : Type) := Callers ι × Option ι

def ownedStep (codec : Codec) (caller_id : ι → Bytes) : Owned ι → CallerAct ι → Option (Owned ι) :=
  Trace.withHistory (callersStep codec caller_id) setBy

/-- Between winning the lock and its release. -/
def Stage.fillSection : Stage → Bool
  | filling => true
  | populating _ => true
  | releasing _ => true
  | _ => false

/-- The caller is in the fill section and its value is still stored. -/
def Fills (caller_id : ι → Bytes) (c : Callers ι) (i : ι) : Prop :=
  (c.locals i).fillSection = true ∧ c.shared.lock = some (caller_id i)

/-! ## The stored value tells who set it -/

/-- The owner is the caller whose id is stored. -/
def OwnerStored (caller_id : ι → Bytes) (x : Owned ι) : Prop :=
  ∀ i, x.2 = some i ↔ x.1.shared.lock = some (caller_id i)

theorem ownerStored_step {x y : Owned ι} {a : CallerAct ι} (hid : Function.Injective caller_id)
    (h : OwnerStored caller_id x) (hstep : ownedStep codec caller_id x a = some y) :
    OwnerStored caller_id y := by
  obtain ⟨hcallers, howner⟩ := Trace.withHistory_eq_some.mp hstep
  by_cases hlock : y.1.shared.lock = x.1.shared.lock
  · intro i
    rw [howner, setBy, if_pos hlock, hlock]
    exact h i
  · rw [setBy, if_neg hlock] at howner
    have hfreed : y.1.shared.lock = none → OwnerStored caller_id y := by
      intro hnone i
      rw [howner, hnone]
      simp
    cases a with
    | env e =>
      obtain ⟨hout, -⟩ := Trace.turn_env hcallers
      cases e with
      | expireItem => exact absurd (by rw [← Option.some.inj hout]) hlock
      | setRow row => exact absurd (by rw [← Option.some.inj hout]) hlock
      | expireLock => exact hfreed (by rw [← Option.some.inj hout])
    | proc i a =>
      obtain ⟨q, m, hcaller, hq, -, -⟩ := Trace.turn_proc hcallers
      rw [← hq] at hcaller
      cases (callerStep_cases hcaller).lockEffect with
      | same hsame => exact absurd hsame hlock
      | released _ _ hnone => exact hfreed hnone
      | set _ _ hset =>
        intro j
        rw [howner, hset, Option.bind_some, actor, Option.some.injEq, Option.some.injEq]
        exact ⟨fun hij => by rw [hij], fun hbytes => hid hbytes⟩

/-- Another caller takes away neither the stored value nor the fill section. -/
theorem fills_other {c d : Callers ι} {j : ι} {a : Event} (hid : Function.Injective caller_id)
    (hstep : callersStep codec caller_id c (.proc j a) = some d) (hij : i ≠ j)
    (h : Fills caller_id c i) : Fills caller_id d i := by
  obtain ⟨hsection, hlock⟩ := h
  obtain ⟨q, m, hcaller, hq, -, hframe⟩ := Trace.turn_proc hstep
  refine ⟨by rw [hframe i hij]; exact hsection, ?_⟩
  rw [← hq] at hcaller
  cases (callerStep_cases hcaller).lockEffect with
  | same hsame => rw [hsame, hlock]
  | set _ hnone _ =>
    rw [hlock] at hnone
    cases hnone
  | released _ howned _ =>
    rw [hlock] at howned
    exact absurd (hid (Option.some.inj howned)) hij

/-- **Fill-lock ownership.** In every run of callers with distinct ids, whatever fails or expires: a
release that deletes the lock deletes the value of the caller itself; at most one caller is in the
fill section with its value stored, the stored value being its own, and no step of another caller
ends that. -/
theorem fill_lock_owned (codec : Codec) (caller_id : ι → Bytes) (hid : Function.Injective caller_id)
    (s : Store ι) (hforeign : ∀ i, s.lock ≠ some (caller_id i)) (as : List (CallerAct ι)) (x : Owned ι)
    (hrun : Trace.exec (ownedStep codec caller_id) (⟨s, fun _ => .start⟩, none) as = some x) :
    (∀ i r y, ownedStep codec caller_id x (.proc i (.release r)) = some y →
      y.1.shared.lock ≠ x.1.shared.lock → x.2 = some i) ∧
    (∀ i j, Fills caller_id x.1 i → Fills caller_id x.1 j → i = j) ∧
    ∀ i, Fills caller_id x.1 i → x.2 = some i ∧ ∀ j a y, j ≠ i →
      ownedStep codec caller_id x (.proc j a) = some y → Fills caller_id y.1 i := by
  have howner : OwnerStored caller_id x := by
    refine Trace.exec_preserves (fun _ _ _ hI hstep => ownerStored_step hid hI hstep) hrun fun i => ?_
    exact ⟨fun h => (Option.some_ne_none i h.symm).elim, fun h => absurd h (hforeign i)⟩
  refine ⟨?_, ?_, ?_⟩
  · intro i r y hstep hchanged
    obtain ⟨q, m, hcaller, hq, -, -⟩ := Trace.turn_proc (Trace.withHistory_eq_some.mp hstep).1
    rw [← hq] at hcaller
    cases (callerStep_cases hcaller).lockEffect with
    | same hsame => exact absurd hsame hchanged
    | released _ howned _ => exact (howner i).mpr howned
    | set hset _ _ =>
      obtain ⟨_, hset⟩ := hset
      cases hset
  · intro i j hi hj
    exact hid (Option.some.inj (hi.2.symm.trans hj.2))
  · intro i hi
    refine ⟨(howner i).mpr hi.2, fun j a y hji hstep => ?_⟩
    exact fills_other hid (Trace.withHistory_eq_some.mp hstep).1 (Ne.symm hji) hi

end Owner

/-! ## A fill that outlives its lock -/

theorem callerId_injective : Function.Injective callerId := by
  intro i j h
  cases i <;> cases j <;> first | rfl | exact absurd h (by decide)

/-- The lock of the first caller expires, the second takes it, and the first releases. -/
def outlivedLock : List (CallerAct Trace.Two) :=
  [.proc .first (.get .ok), .proc .second (.get .ok), .proc .first (.setLock .ok), .env .expireLock,
    .proc .second (.setLock .ok), .proc .first (.select (.ok ())), .proc .first (.populate .ok)]

theorem fill_lock_owned_outlived : ∃ x y,
    Trace.exec (ownedStep shoeCodec callerId) (cold (some shoe), none) outlivedLock = some x ∧
      ownedStep shoeCodec callerId x (.proc .first (.release .ok)) = some y ∧
      Fills callerId x.1 .second ∧ Fills callerId y.1 .second := by
  obtain ⟨x, hx, y, hy, hfills⟩ : ∃ x,
      Trace.exec (ownedStep shoeCodec callerId) (cold (some shoe), none) outlivedLock = some x ∧
        ∃ y, ownedStep shoeCodec callerId x (.proc .first (.release .ok)) = some y ∧
          Fills callerId x.1 .second :=
    ⟨_, rfl, _, rfl, rfl, rfl⟩
  have howned := fill_lock_owned shoeCodec callerId callerId_injective ⟨none, none, some shoe, []⟩
    (fun i => by simp) outlivedLock x hx
  exact ⟨x, y, hx, hy, hfills, (howned.2.2 .second hfills).2 .first _ y (by decide) hy⟩

end ClickRec.Cache
