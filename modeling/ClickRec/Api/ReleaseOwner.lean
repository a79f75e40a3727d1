import ClickRec.Api.ClaimSafety

/-! # Whose claim a failed publish releases

`release_event_id` deletes the key whoever set it. A request whose SET failed open, or whose claim
has expired, holds nothing, and its release takes the claim of whichever request came after it. -/
namespace ClickRec.Api.Ingest
set_option autoImplicit false

/-! ## What a step does to the claim keys -/

section Effect
variable {ι : Type} {calls : ι → Call} {i : ι} {s t : Edge ι} {l m : Stage}

/-- The command reached Redis. -/
def Redis.took : Redis → Bool
  | ok => true
  | error took => took

/-- The answer is that of a request that counts on a claim of its own, or will be. -/
def Stage.counts : Stage → Bool
  | claimed => true
  | inFlight => true
  | releasing _ => true
  | done response => response.status = .accepted
  | _ => false

inductive ClaimEffect (calls : ι → Call) (i : ι) (s : Edge ι) (l : Stage) (a : Event) (t : Edge ι)
    (m : Stage) : Prop where
  | same : t.claims = s.claims → (m.counts = true → l = .start ∨ l.counts = true) →
    ClaimEffect calls i s l a t m
  | took : (∃ r, a = .claim r) → s.claims (calls i).eventId = none →
    t.claims = Function.update s.claims (calls i).eventId (some i) → ClaimEffect calls i s l a t m
  | freed (r : Redis) : a = .release r → r.took = true →
    t.claims = Function.update s.claims (calls i).eventId none → m.counts = false →
    ClaimEffect calls i s l a t m

theorem claimEffect_setNx (r : Redis) (i : ι) (s : Edge ι) :
    ClaimEffect calls i s .start (.claim r) (s.setNx i (calls i).eventId) .claimed := by
  cases hclaim : s.claims (calls i).eventId with
  | none => exact .took ⟨r, rfl⟩ hclaim (by simp [Edge.setNx, hclaim])
  | some k => exact .same (by simp [Edge.setNx, hclaim]) fun _ => .inl rfl

theorem RequestStep.claimEffect {a : Event} (h : RequestStep calls i s l a t m) :
    ClaimEffect calls i s l a t m := by
  cases h with
  | duplicate hclaim => exact .same rfl fun h => by cases h
  | claim hclaim => exact claimEffect_setNx .ok i s
  | @claimFailed took =>
    cases took with
    | true => exact claimEffect_setNx (.error true) i s
    | false => exact .same rfl fun _ => .inl rfl
  | publish => exact .same rfl fun _ => .inr rfl
  | ack => exact .same rfl fun _ => .inr rfl
  | publishFailed he => exact .same rfl fun _ => .inr rfl
  | publishRaised he => exact .same rfl fun h => by cases h
  | release => exact .freed .ok rfl rfl rfl rfl
  | @releaseFailed e took =>
    cases took with
    | true => exact .freed (.error true) rfl rfl rfl rfl
    | false => exact .same rfl fun h => by cases h

theorem RequestStep.counts_of_release {r : Redis} (h : RequestStep calls i s l (.release r) t m) :
    l.counts = true := by
  cases h <;> rfl

theorem RequestStep.claim_held {k : ι} (h : RequestStep calls i s l (.claim .ok) t m)
    (hclaim : s.claims (calls i).eventId = some k) :
    m = .done ⟨uuidStr (calls i).eventId, .duplicate⟩ := by
  cases h with
  | duplicate _ => rfl
  | claim hnone =>
    rw [hclaim] at hnone
    cases hnone

theorem RequestStep.release_frees {r : Redis} (h : RequestStep calls i s l (.release r) t m)
    (hr : r.took = true) : t.claims (calls i).eventId = none := by
  cases h with
  | release => exact Edge.del_self s _
  | @releaseFailed e took =>
    obtain rfl : took = true := hr
    exact Edge.del_self s _

theorem RequestStep.release_lost {r : Redis} (h : RequestStep calls i s l (.release r) t m)
    (hr : r.took = false) : t = s := by
  cases h with
  | release => cases hr
  | @releaseFailed e took =>
    obtain rfl : took = false := hr
    rfl

theorem RequestStep.ne_start {a : Event} (h : RequestStep calls i s l a t m) : m ≠ .start := by
  cases h <;> simp

end Effect

/-! ## Which requests still have the claim they took -/

section Runs
variable {ι : Type} {calls : ι → Call}

/-- The requests, with those that still have the claim they took. -/
abbrev Claimants (ι : Type) := Requests ι × (ι → Bool)

def claimStart : Claimants ι := (start, fun _ => false)

/-- The setter of a stored key still has its claim. -/
structure SetterKept (calls : ι → Call) (x : Claimants ι) : Prop where
  setter : ∀ id i, x.1.shared.claims id = some i → (calls i).eventId = id ∧ x.2 i = true
  fresh : ∀ i, x.1.locals i = .start → x.2 i = false

/-- The claim of a request that counts on it is stored. -/
def KeptStored (calls : ι → Call) (x : Claimants ι) : Prop :=
  ∀ i, x.2 i = true → (x.1.locals i).counts = true → x.1.shared.claims (calls i).eventId = some i

theorem setterKept_start : SetterKept calls (claimStart : Claimants ι) where
  setter := fun _ _ h => by cases h
  fresh := fun _ _ => rfl

theorem keptStored_start : KeptStored calls (claimStart : Claimants ι) :=
  fun _ h => by cases h

/-- A release finds the claim its request took, or no claim. -/
def ReleasesKept (calls : ι → Call) (x : Claimants ι) : RequestAct ι → Prop
  | .proc i (.release r) =>
    r.took = true → x.2 i = true ∨ x.1.shared.claims (calls i).eventId = none
  | _ => True

variable [DecidableEq ι]

/-- A request has a claim from the SET that stores the key until the key expires. -/
def keptClaim (calls : ι → Call) (c : Requests ι) (a : RequestAct ι) (d : Requests ι)
    (kept : ι → Bool) : ι → Bool :=
  match a with
  | .proc i (.claim _) =>
    if (c.shared.claims (calls i).eventId).isNone ∧ (d.shared.claims (calls i).eventId).isSome then
      Function.update kept i true
    else kept
  | .env id => fun i => if (calls i).eventId = id then false else kept i
  | _ => kept

def claimStep (calls : ι → Call) : Claimants ι → RequestAct ι → Option (Claimants ι) :=
  Trace.withHistory (step calls) (keptClaim calls)

/-- A release leaves the claims of other requests alone. -/
def ReleasesOwn (calls : ι → Call) (c : Requests ι) : RequestAct ι → Prop
  | .proc i (.release r) => ∀ j d, j ≠ i → c.shared.claims (calls i).eventId = some j →
    step calls c (.proc i (.release r)) = some d → d.shared.claims (calls i).eventId = some j
  | _ => True

/-- Once a request that took the claim was accepted and until the claim expires, every request
whose SET succeeds is a duplicate. -/
def AcceptedGuards (calls : ι → Call) (as : List (RequestAct ι)) : Prop :=
  ∀ pre mid post i k x y d, as = pre ++ mid ++ .proc k (.claim .ok) :: post →
    Trace.exec (claimStep calls) claimStart pre = some x → Answered calls x.1 i .accepted →
    x.2 i = true → (calls k).eventId = (calls i).eventId → .env (calls i).eventId ∉ mid →
    Trace.exec (step calls) x.1 mid = some y → step calls y (.proc k (.claim .ok)) = some d →
    Answered calls d k .duplicate

variable {x y : Claimants ι} {a : RequestAct ι}

/-- What a turn of a request does to the claims, with their history. -/
theorem claimStep_proc {i : ι} {e : Event} (h : claimStep calls x (.proc i e) = some y) :
    ∃ m, RequestStep calls i x.1.shared (x.1.locals i) e y.1.shared m ∧ y.1.locals i = m ∧
      (∀ j, j ≠ i → y.1.locals j = x.1.locals j) ∧
      ((∃ r, e = .claim r) → x.1.shared.claims (calls i).eventId = none →
        y.1.shared.claims (calls i).eventId = some i → y.2 = Function.update x.2 i true) ∧
      (y.1.shared.claims = x.1.shared.claims → y.2 = x.2) ∧
      ((∃ r, e = .release r) → y.2 = x.2) := by
  obtain ⟨hturn, hkept⟩ := Trace.withHistory_eq_some.mp h
  obtain ⟨s, m, hr, hs, hm, hframe⟩ := Trace.turn_proc hturn
  rw [← hs] at hr
  refine ⟨m, requestStep_inv hr, hm, hframe, ?_, ?_, ?_⟩
  · rintro ⟨r, rfl⟩ hnone hsome
    simp [hkept, keptClaim, hnone, hsome]
  · intro hsame
    rw [hkept]
    cases e with
    | claim r =>
      simp only [keptClaim, hsame]
      cases x.1.shared.claims (calls i).eventId <;> simp
    | _ => rfl
  · rintro ⟨r, rfl⟩
    exact hkept

theorem claimStep_env {id : Uuid} (h : claimStep calls x (.env id) = some y) :
    y.1.shared.claims = Function.update x.1.shared.claims id none ∧ y.1.locals = x.1.locals ∧
      ∀ i, y.2 i = if (calls i).eventId = id then false else x.2 i := by
  obtain ⟨hturn, hkept⟩ := Trace.withHistory_eq_some.mp h
  obtain ⟨hexpire, hlocals⟩ := Trace.turn_env hturn
  refine ⟨?_, hlocals, fun i => by rw [hkept]; rfl⟩
  rw [← Option.some.inj hexpire]
  rfl

theorem setterKept_step (h : SetterKept calls x) (hstep : claimStep calls x a = some y) :
    SetterKept calls y := by
  cases a with
  | env id =>
    obtain ⟨hclaims, hlocals, hkept⟩ := claimStep_env hstep
    refine ⟨fun id' i hi => ?_, fun i hi => ?_⟩
    · rw [hclaims] at hi
      by_cases hid : id' = id
      · rw [hid, Function.update_self] at hi
        cases hi
      · rw [Function.update_of_ne hid] at hi
        obtain ⟨hevent, hkept_i⟩ := h.setter id' i hi
        refine ⟨hevent, ?_⟩
        rw [hkept i, if_neg (by rw [hevent]; exact hid), hkept_i]
    · rw [hlocals] at hi
      rw [hkept i, h.fresh i hi, ite_self]
  | proc i e =>
    obtain ⟨m, hr, hm, hframe, htaken, hsame, hreleased⟩ := claimStep_proc hstep
    have hfresh : ∀ j, y.1.locals j = .start → j ≠ i ∧ x.2 j = false := by
      intro j hj
      have hne : j ≠ i := by
        rintro rfl
        exact hr.ne_start (hm.symm.trans hj)
      exact ⟨hne, h.fresh j (hframe j hne ▸ hj)⟩
    cases hr.claimEffect with
    | same hclaims _ =>
      refine ⟨fun id j hj => ?_, fun j hj => ?_⟩
      · rw [hclaims] at hj
        rw [hsame hclaims]
        exact h.setter id j hj
      · rw [hsame hclaims]
        exact (hfresh j hj).2
    | took hclaim hnone hclaims =>
      have hkept := htaken hclaim hnone (by rw [hclaims, Function.update_self])
      refine ⟨fun id j hj => ?_, fun j hj => ?_⟩
      · rw [hclaims] at hj
        by_cases hid : id = (calls i).eventId
        · rw [hid, Function.update_self] at hj
          obtain rfl : i = j := Option.some.inj hj
          exact ⟨hid.symm, by rw [hkept, Function.update_self]⟩
        · rw [Function.update_of_ne hid] at hj
          obtain ⟨hevent, hkept_j⟩ := h.setter id j hj
          refine ⟨hevent, ?_⟩
          rw [hkept, Function.update_of_ne (fun hji => hid (by rw [← hevent, hji])), hkept_j]
      · rw [hkept, Function.update_of_ne (hfresh j hj).1]
        exact (hfresh j hj).2
    | freed r hr hreached hclaims _ =>
      refine ⟨fun id j hj => ?_, fun j hj => ?_⟩
      · rw [hclaims] at hj
        rw [hreleased ⟨r, hr⟩]
        by_cases hid : id = (calls i).eventId
        · rw [hid, Function.update_self] at hj
          cases hj
        · rw [Function.update_of_ne hid] at hj
          exact h.setter id j hj
      · rw [hreleased ⟨r, hr⟩]
        exact (hfresh j hj).2

theorem keptStored_step (h : SetterKept calls x) (hstored : KeptStored calls x)
    (hcond : ReleasesKept calls x a) (hstep : claimStep calls x a = some y) : KeptStored calls y := by
  intro j hj hcounts
  cases a with
  | env id =>
    obtain ⟨hclaims, hlocals, hkept⟩ := claimStep_env hstep
    rw [hkept j] at hj
    split at hj
    · cases hj
    · rename_i hid
      rw [hlocals] at hcounts
      rw [hclaims, Function.update_of_ne hid]
      exact hstored j hj hcounts
  | proc i e =>
    obtain ⟨m, hr, hm, hframe, htaken, hsame, hreleased⟩ := claimStep_proc hstep
    cases hr.claimEffect with
    | same hclaims hback =>
      rw [hsame hclaims] at hj
      rw [hclaims]
      refine hstored j hj ?_
      by_cases hji : j = i
      · subst hji
        rw [hm] at hcounts
        refine (hback hcounts).resolve_left fun hstart => ?_
        rw [h.fresh j hstart] at hj
        cases hj
      · rwa [← hframe j hji]
    | took hclaim hnone hclaims =>
      rw [hclaims]
      by_cases hji : j = i
      · rw [hji, Function.update_self]
      · rw [htaken hclaim hnone (by rw [hclaims, Function.update_self]), Function.update_of_ne hji] at hj
        rw [hframe j hji] at hcounts
        have hstored_j := hstored j hj hcounts
        have hid : (calls j).eventId ≠ (calls i).eventId := by
          intro hid
          rw [hid, hnone] at hstored_j
          cases hstored_j
        rw [Function.update_of_ne hid, hstored_j]
    | freed r he hreached hclaims hnot =>
      subst he
      have hji : j ≠ i := by
        rintro rfl
        rw [hm, hnot] at hcounts
        cases hcounts
      rw [hreleased ⟨r, rfl⟩] at hj
      rw [hframe j hji] at hcounts
      have hstored_j := hstored j hj hcounts
      have hid : (calls j).eventId ≠ (calls i).eventId := by
        intro hid
        rw [hid] at hstored_j
        obtain hkept_i | hnone := hcond hreached
        · -- the releasing request counts on its claim too, and the key has one setter
          have hstored_i := hstored i hkept_i hr.counts_of_release
          exact hji (Option.some.inj (hstored_j.symm.trans hstored_i))
        · rw [hnone] at hstored_j
          cases hstored_j
      rw [hclaims, Function.update_of_ne hid, hstored_j]

/-! ## Runs -/

theorem setterKept_exec {as : List (RequestAct ι)} (h : SetterKept calls x)
    (hrun : Trace.exec (claimStep calls) x as = some y) : SetterKept calls y :=
  Trace.exec_preserves (fun _ _ _ hI hstep => setterKept_step hI hstep) hrun h

theorem keptStored_exec {as : List (RequestAct ι)} (h : SetterKept calls x)
    (hstored : KeptStored calls x) (hcond : Trace.Along (claimStep calls) (ReleasesKept calls) x as)
    (hrun : Trace.exec (claimStep calls) x as = some y) : KeptStored calls y := by
  have hboth := Trace.exec_invariant
    (I := fun x : Claimants ι => SetterKept calls x ∧ KeptStored calls x)
    (fun _ _ _ hI hC hstep => ⟨setterKept_step hI.1 hstep, keptStored_step hI.1 hI.2 hC hstep⟩)
    hcond hrun ⟨h, hstored⟩
  exact hboth.2

/-- An accepted request stays so, and keeps the claim it took until that expires. -/
theorem accepted_exec {as : List (RequestAct ι)} {i : ι} (hexpire : .env (calls i).eventId ∉ as)
    (hrun : Trace.exec (claimStep calls) x as = some y) (hdone : Answered calls x.1 i .accepted)
    (hkept : x.2 i = true) : Answered calls y.1 i .accepted ∧ y.2 i = true := by
  have hne : ∀ a ∈ as, a ≠ .env (calls i).eventId := fun a ha he => hexpire (he ▸ ha)
  refine Trace.exec_invariant (C := fun _ a => a ≠ .env (calls i).eventId)
    (I := fun x : Claimants ι => Answered calls x.1 i .accepted ∧ x.2 i = true) ?_
    (Trace.along_of_mem hne) hrun ⟨hdone, hkept⟩
  rintro x a y ⟨hdone, hkept⟩ hne hstep
  cases a with
  | env id =>
    obtain ⟨-, hlocals, hafter⟩ := claimStep_env hstep
    refine ⟨by rw [Answered, hlocals]; exact hdone, ?_⟩
    rw [hafter i, if_neg (fun hid => hne (by rw [hid])), hkept]
  | proc j e =>
    obtain ⟨m, hr, hm, hframe, -, -, -⟩ := claimStep_proc hstep
    have hji : i ≠ j := by
      rintro rfl
      rw [Answered] at hdone
      rw [hdone] at hr
      cases hr
    refine ⟨by rw [Answered, hframe i hji]; exact hdone, ?_⟩
    obtain ⟨-, hhistory⟩ := Trace.withHistory_eq_some.mp hstep
    rw [hhistory]
    cases e with
    | claim r =>
      simp only [keptClaim]
      split
      · rw [Function.update_of_ne hji, hkept]
      · exact hkept
    | _ => exact hkept

theorem releasesOwn_of_kept (hstored : KeptStored calls x) (hcond : ReleasesKept calls x a) : ReleasesOwn calls x.1 a := by
  cases a with
  | env id => trivial
  | proc i e =>
    cases e with
    | release r =>
      intro j d hji hclaim hstep
      obtain ⟨s, m, hr, hs, -, -⟩ := Trace.turn_proc hstep
      have hr := requestStep_inv hr
      rw [hs]
      cases htook : r.took with
      | false => rw [hr.release_lost htook, hclaim]
      | true =>
        obtain hkept_i | hnone := hcond htook
        · have hstored_i := hstored i hkept_i hr.counts_of_release
          rw [hclaim] at hstored_i
          exact absurd (Option.some.inj hstored_i) hji
        · rw [hclaim] at hnone
          cases hnone
    | _ => trivial

/-- A release against the condition deletes the claim of another request. -/
theorem not_releasesOwn (hkept : SetterKept calls x) (hcond : ¬ ReleasesKept calls x a)
    (hstep : claimStep calls x a = some y) : ¬ ReleasesOwn calls x.1 a := by
  cases a with
  | env id => exact absurd trivial hcond
  | proc i e =>
    cases e with
    | release r =>
      simp only [ReleasesKept, not_forall, not_or, Bool.not_eq_true] at hcond
      obtain ⟨htook, hlost, hsome⟩ := hcond
      obtain ⟨j, hj⟩ := Option.ne_none_iff_exists'.mp hsome
      have hji : j ≠ i := by
        rintro rfl
        rw [(hkept.setter _ j hj).2] at hlost
        cases hlost
      intro hown
      have hturn := (Trace.withHistory_eq_some.mp hstep).1
      have hafter := hown j y.1 hji hj hturn
      obtain ⟨s, m, hr, hs, -, -⟩ := Trace.turn_proc hturn
      rw [hs, (requestStep_inv hr).release_frees htook] at hafter
      cases hafter
    | _ => exact absurd trivial hcond

theorem acceptedGuards_of_kept {as : List (RequestAct ι)}
    (hcond : Trace.Along (claimStep calls) (ReleasesKept calls) claimStart as) :
    AcceptedGuards calls as := by
  intro pre mid post i k x y d has hpre hdone hkept hid hexpire hmid hstep
  obtain ⟨kept, hmid⟩ := Trace.exec_withHistory.mpr hmid
  have hrun : Trace.exec (claimStep calls) claimStart (pre ++ mid) = some (y, kept) :=
    Trace.exec_append.mpr ⟨x, hpre, hmid⟩
  rw [has] at hcond
  have hstored := keptStored_exec setterKept_start keptStored_start
    ((Trace.along_append hrun).mp hcond).1 hrun
  obtain ⟨hdone_y, hkept_y⟩ := accepted_exec hexpire hmid hdone hkept
  have hclaim : y.shared.claims (calls k).eventId = some i := by
    rw [hid]
    refine hstored i hkept_y ?_
    rw [hdone_y]
    rfl
  obtain ⟨s, m, hr, -, hm, -⟩ := Trace.turn_proc hstep
  rw [Answered, hm, (requestStep_inv hr).claim_held hclaim]

/-- **Whose claim a release deletes.** In every run, whatever Redis and the broker do: no release
deletes the claim of another request, and an accepted request with a claim makes the later ones
duplicates until the claim expires, exactly when every release that reaches Redis finds the claim
its own request took, not expired since, or no claim at all. -/
theorem releases_own_iff (calls : ι → Call) (as : List (RequestAct ι)) (c : Requests ι)
    (hrun : Trace.exec (step calls) start as = some c) :
    (Trace.Along (step calls) (ReleasesOwn calls) start as ∧ AcceptedGuards calls as) ↔
      Trace.Along (claimStep calls) (ReleasesKept calls) claimStart as := by
  constructor
  · rintro ⟨hown, -⟩
    by_contra hcond
    obtain ⟨kept, hhistory⟩ := Trace.exec_withHistory.mpr hrun
    obtain ⟨pre, a, post, x, y, rfl, hpre, ha, hstep, -⟩ :=
      Trace.exists_step_of_not_along hhistory hcond
    have hpre' : Trace.exec (step calls) start pre = some x.1 :=
      Trace.exec_withHistory.mp ⟨x.2, hpre⟩
    exact not_releasesOwn (setterKept_exec setterKept_start hpre) ha hstep
      ((Trace.along_append hpre').mp hown).2.head
  · intro hcond
    refine ⟨?_, acceptedGuards_of_kept hcond⟩
    exact Trace.along_of_withHistory
      (I := fun x : Claimants ι => SetterKept calls x ∧ KeptStored calls x)
      (fun _ _ _ hI hC hstep => ⟨setterKept_step hI.1 hstep, keptStored_step hI.1 hI.2 hC hstep⟩)
      (fun _ _ hI hC => releasesOwn_of_kept hI.2 hC) ⟨setterKept_start, keptStored_start⟩ hcond

end Runs

/-! ## A request without a claim -/

/-- Requests with the event id of `wideCall`. -/
def sameId (_ : ℕ) : Call := wideCall

/-- The publish of the one request fails after the SET of the other found its claim. -/
def releasesItsClaim : List (RequestAct ℕ) :=
  [.proc 0 (.claim .ok), .proc 0 .publish, .proc 1 (.claim .ok),
    .proc 0 (.published (.error .KafkaTimeoutError)), .proc 0 (.release .ok)]

theorem releases_own_iff_its_claim : ∃ c,
    Trace.exec (step sameId) start releasesItsClaim = some c ∧
      Trace.Along (step sameId) (ReleasesOwn sameId) start releasesItsClaim := by
  obtain ⟨c, hc⟩ : ∃ c, Trace.exec (step sameId) start releasesItsClaim = some c := ⟨_, rfl⟩
  refine ⟨c, hc, ((releases_own_iff sameId releasesItsClaim c hc).mpr ?_).1⟩
  exact ⟨trivial, trivial, trivial, trivial, fun _ => .inl rfl, trivial⟩

/-- The SET of the first request fails and its publish times out after the second was accepted. -/
def failedOpen : List (RequestAct ℕ) :=
  [.proc 0 (.claim (.error false)), .proc 0 .publish, .proc 1 (.claim .ok), .proc 1 .publish,
    .proc 1 (.published (.ok ()))] ++
  [.proc 0 (.published (.error .KafkaTimeoutError)), .proc 0 (.release .ok)]

theorem failed_open_release_deletes : ∃ c,
    Trace.exec (step sameId) start (failedOpen ++ [.proc 2 (.claim .ok)]) = some c ∧
      ¬ Trace.Along (step sameId) (ReleasesOwn sameId) start (failedOpen ++ [.proc 2 (.claim .ok)]) ∧
      ¬ AcceptedGuards sameId (failedOpen ++ [.proc 2 (.claim .ok)]) := by
  refine ⟨_, rfl, ?_, ?_⟩
  · rintro ⟨-, -, -, -, -, -, hown, -⟩
    cases hown 1 _ (by decide) rfl rfl
  · intro hguards
    have hdup := hguards (failedOpen.take 5) (failedOpen.drop 5) [] 1 2 _ _ _ rfl rfl rfl rfl rfl
      (by simp [failedOpen]) rfl rfl
    cases hdup

end ClickRec.Api.Ingest
