import Mathlib.Data.List.Nodup
import Mathlib.Data.List.Sort
import Mathlib.Logic.Function.Basic
import Mathlib.Tactic

/-! Python's idioms on lists: the slice `l[:n]`, the comprehension, the sort by a key, the dict a loop
over a list fills, the loop that keeps the first element of each key, and the dict of lists. -/
namespace PyList
set_option autoImplicit false

variable {α β γ : Type*}

/-! ## Slices -/

/-- `l[:n]`; a negative `n` counts from the end. -/
def sliceTo (l : List β) (n : ℤ) : List β :=
  if n < 0 then l.take (l.length + n).toNat else l.take n.toNat

theorem sliceTo_prefix (l : List β) (n : ℤ) : sliceTo l n <+: l := by
  unfold sliceTo
  split
  · exact List.take_prefix _ l
  · exact List.take_prefix _ l

@[simp] theorem sliceTo_nil (n : ℤ) : sliceTo ([] : List β) n = [] := by
  simp [sliceTo]

theorem sliceTo_of_nonneg (l : List β) {n : ℤ} (hn : 0 ≤ n) : sliceTo l n = l.take n.toNat := by
  rw [sliceTo, if_neg (not_lt.mpr hn)]

theorem length_sliceTo_of_nonneg (l : List β) {n : ℤ} (hn : 0 ≤ n) :
    (sliceTo l n).length = min n.toNat l.length := by
  rw [sliceTo_of_nonneg l hn, List.length_take]

theorem sliceTo_map (f : β → γ) (l : List β) (n : ℤ) :
    sliceTo (l.map f) n = (sliceTo l n).map f := by
  unfold sliceTo
  rw [List.length_map]
  split
  · rw [List.map_take]
  · rw [List.map_take]

/-! ## Comprehensions whose expression may raise -/

section Comprehension
variable {ε : Type} {f : α → Except ε β} {l : List α}

theorem mapM_eq_ok {g : α → β} (h : ∀ x ∈ l, f x = .ok (g x)) : l.mapM f = .ok (l.map g) := by
  induction l with
  | nil => rfl
  | cons x l ih =>
    rw [List.mapM_cons, h x List.mem_cons_self, ih fun y hy => h y (List.mem_cons_of_mem x hy)]
    rfl

theorem mapM_cons_eq_ok {x : α} {r : List β} : (x :: l).mapM f = .ok r ↔
    ∃ y ys, f x = .ok y ∧ l.mapM f = .ok ys ∧ r = y :: ys := by
  rw [List.mapM_cons]
  constructor
  · intro h
    cases hx : f x with
    | error e =>
      rw [hx] at h
      cases h
    | ok y =>
      cases hl : l.mapM f with
      | error e =>
        rw [hx, hl] at h
        cases h
      | ok ys =>
        rw [hx, hl] at h
        exact ⟨y, ys, rfl, rfl, (Except.ok.inj h).symm⟩
  · rintro ⟨y, ys, hx, hl, rfl⟩
    rw [hx, hl]
    rfl

theorem exists_of_mapM_eq_ok {r : List β} (h : l.mapM f = .ok r) :
    ∀ x ∈ l, ∃ y, f x = .ok y := by
  induction l generalizing r with
  | nil => simp
  | cons x l ih =>
    obtain ⟨y, ys, hx, hl, -⟩ := mapM_cons_eq_ok.mp h
    exact List.forall_mem_cons.mpr ⟨⟨y, hx⟩, ih hl⟩

/-- There is one value for each element, and all satisfy `P`. -/
theorem exists_mapM_iff {P : β → Prop} :
    (∃ r, l.mapM f = .ok r ∧ r.length = l.length ∧ ∀ y ∈ r, P y) ↔ ∀ x ∈ l, ∃ y, f x = .ok y ∧ P y := by
  induction l with
  | nil => exact iff_of_true ⟨[], rfl, rfl, by simp⟩ (by simp)
  | cons x l ih =>
    rw [List.forall_mem_cons, ← ih]
    constructor
    · rintro ⟨r, hr, hlength, hP⟩
      obtain ⟨y, ys, hx, hl, rfl⟩ := mapM_cons_eq_ok.mp hr
      rw [List.forall_mem_cons] at hP
      exact ⟨⟨y, hx, hP.1⟩, ys, hl, Nat.succ.inj hlength, hP.2⟩
    · rintro ⟨⟨y, hx, hy⟩, ys, hl, hlength, hys⟩
      exact ⟨y :: ys, mapM_cons_eq_ok.mpr ⟨y, ys, hx, hl, rfl⟩, congrArg (· + 1) hlength,
        List.forall_mem_cons.mpr ⟨hy, hys⟩⟩

/-- The first element that raises ends it. -/
theorem mapM_eq_error {x : α} {r : List β} {l' : List α} {e : ε} (hl : l.mapM f = .ok r)
    (hx : f x = .error e) : (l ++ x :: l').mapM f = .error e := by
  rw [List.mapM_append, hl, List.mapM_cons, hx]
  rfl

/-- Elements for which neither raises do not matter to what is raised. -/
theorem mapM_error_congr {g : α → Except ε β}
    (h : ∀ x ∈ l, f x = g x ∨ (∃ y, f x = .ok y) ∧ ∃ y, g x = .ok y) {e : ε}
    (hf : l.mapM f = .error e) : l.mapM g = .error e := by
  induction l with
  | nil => cases hf
  | cons x l ih =>
    rw [List.forall_mem_cons] at h
    rw [List.mapM_cons] at hf ⊢
    cases hx : f x with
    | error e' =>
      obtain heq | ⟨⟨y, hy⟩, -⟩ := h.1
      · rw [hx] at hf
        rw [← heq, hx]
        exact hf
      · rw [hx] at hy
        cases hy
    | ok y =>
      obtain ⟨z, hz⟩ : ∃ z, g x = .ok z := by
        obtain heq | ⟨-, hok⟩ := h.1
        · exact ⟨y, by rw [← heq, hx]⟩
        · exact hok
      cases hl : l.mapM f with
      | error e' =>
        rw [hx, hl] at hf
        obtain rfl := Except.error.inj hf
        rw [hz, ih h.2 hl]
        rfl
      | ok ys =>
        rw [hx, hl] at hf
        cases hf

end Comprehension

/-! ## Sorting by a key -/

section SortBy
variable {κ : Type*} [LinearOrder κ] {key : β → κ}

/-- `l.sort(key=key)`. -/
def sortBy (key : β → κ) (l : List β) : List β := l.insertionSort fun x y => key x ≤ key y

/-- With distinct keys there is one sorted list of these elements. -/
theorem sortBy_eq {l t : List β} (hperm : l.Perm t) (ht : t.Pairwise fun x y => key x < key y) :
    sortBy key l = t := by
  have htrans : IsTrans β fun x y => key x ≤ key y := ⟨fun _ _ _ hxy hyz => hxy.trans hyz⟩
  have htotal : Std.Total fun x y : β => key x ≤ key y := ⟨fun x y => le_total (key x) (key y)⟩
  have hsorted := List.pairwise_insertionSort (fun x y : β => key x ≤ key y) l
  have hsort : (sortBy key l).Perm t := (List.perm_insertionSort _ l).trans hperm
  have hnodup : (t.map key).Nodup := (List.pairwise_map.mpr ht).imp ne_of_lt
  refine hsort.eq_of_pairwise (fun x y hx hy hxy hyx => ?_) hsorted (ht.imp le_of_lt)
  exact List.inj_on_of_nodup_map hnodup (hsort.mem_iff.mp hx) hy (le_antisymm hxy hyx)

end SortBy

variable [DecidableEq α]

/-! ## Dicts -/

section Dict
variable (key : β → α) (value : β → γ)

/-- The dict after `d[key(x)] = value(x)` for every `x` of the list. -/
def fillDict (l : List β) (d : α → Option γ) : α → Option γ :=
  l.foldl (fun d x => Function.update d (key x) (some (value x))) d

/-- The dict filled from the empty one. -/
def dictOf (l : List β) : α → Option γ := fillDict key value l fun _ => none

variable {key value}

theorem fillDict_of_not_mem {l : List β} {d : α → Option γ} {k : α} (h : ∀ x ∈ l, key x ≠ k) :
    fillDict key value l d k = d k := by
  induction l generalizing d with
  | nil => rfl
  | cons x l ih =>
    rw [fillDict, List.foldl_cons, ← fillDict, ih fun y hy => h y (List.mem_cons_of_mem x hy)]
    exact Function.update_of_ne (h x List.mem_cons_self).symm _ _

theorem dictOf_of_not_mem {l : List β} {k : α} (h : ∀ x ∈ l, key x ≠ k) :
    dictOf key value l k = none :=
  fillDict_of_not_mem h

/-- With distinct keys the dict holds the value of each element. -/
theorem dictOf_of_mem {l : List β} {x : β} (hnodup : (l.map key).Nodup) (hx : x ∈ l) :
    dictOf key value l (key x) = some (value x) := by
  induction l using List.reverseRecOn with
  | nil => cases hx
  | append_singleton l last ih =>
    rw [List.map_append, List.nodup_append] at hnodup
    rw [dictOf, fillDict, List.foldl_append, List.foldl_cons, List.foldl_nil, ← fillDict, ← dictOf]
    obtain hx | hx := List.mem_append.mp hx
    · have hne : key x ≠ key last :=
        hnodup.2.2 _ (List.mem_map_of_mem hx) _ (by simp)
      rw [Function.update_of_ne hne]
      exact ih hnodup.1 hx
    · rw [List.mem_singleton] at hx
      rw [hx, Function.update_self]

theorem dictOf_eq_some {l : List β} {k : α} {v : γ} (hnodup : (l.map key).Nodup) :
    dictOf key value l k = some v ↔ ∃ x ∈ l, key x = k ∧ value x = v := by
  constructor
  · intro h
    by_cases hk : ∃ x ∈ l, key x = k
    · obtain ⟨x, hx, rfl⟩ := hk
      rw [dictOf_of_mem hnodup hx] at h
      exact ⟨x, hx, rfl, Option.some.inj h⟩
    · rw [dictOf_of_not_mem fun x hx hxk => hk ⟨x, hx, hxk⟩] at h
      cases h
  · rintro ⟨x, hx, rfl, rfl⟩
    exact dictOf_of_mem hnodup hx

theorem dictOf_const {l : List β} {k : α} {v : γ} (h : k ∈ l.map key) :
    dictOf key (fun _ => v) l k = some v := by
  induction l using List.reverseRecOn with
  | nil => cases h
  | append_singleton l last ih =>
    rw [dictOf, fillDict, List.foldl_append, List.foldl_cons, List.foldl_nil, ← fillDict, ← dictOf]
    by_cases hk : k = key last
    · rw [hk, Function.update_self]
    · rw [Function.update_of_ne hk]
      rw [List.map_append, List.mem_append] at h
      exact ih (h.resolve_right (by simpa using hk))

end Dict

/-- A map that keeps every element of a list. -/
theorem forall₂_filterMap {R : γ → β → Prop} {f : γ → Option β} {l : List γ}
    (h : ∀ x ∈ l, ∃ y, f x = some y ∧ R x y) : List.Forall₂ R l (l.filterMap f) := by
  induction l with
  | nil => exact .nil
  | cons x l ih =>
    obtain ⟨y, hy, hxy⟩ := h x List.mem_cons_self
    rw [List.filterMap_cons, hy]
    exact .cons hxy (ih fun z hz => h z (List.mem_cons_of_mem x hz))

/-! ## The first element of each key -/

section KeepFirst
variable (key : β → α)

def pushNew (out : List β) (x : β) : List β :=
  if key x ∈ out.map key then out else out ++ [x]

def keepFirst (l : List β) : List β := l.foldl (pushNew key) []

theorem keepFirst_concat (l : List β) (x : β) :
    keepFirst key (l ++ [x]) = pushNew key (keepFirst key l) x := by
  rw [keepFirst, List.foldl_append]
  rfl

variable {key}

theorem mem_of_mem_keepFirst {l : List β} {x : β} (h : x ∈ keepFirst key l) : x ∈ l := by
  induction l using List.reverseRecOn with
  | nil => cases h
  | append_singleton l y ih =>
    rw [keepFirst_concat, pushNew] at h
    split at h
    · exact List.mem_append_left _ (ih h)
    · obtain h | h := List.mem_append.mp h
      · exact List.mem_append_left _ (ih h)
      · exact List.mem_append_right _ h

/-- Every key keeps an element. -/
theorem mem_keys_keepFirst {l : List β} {k : α} :
    k ∈ (keepFirst key l).map key ↔ k ∈ l.map key := by
  induction l using List.reverseRecOn with
  | nil => rfl
  | append_singleton l y ih =>
    rw [keepFirst_concat, pushNew, List.map_append, List.mem_append, List.map_singleton,
      List.mem_singleton, ← ih]
    split
    · rename_i hy
      constructor
      · exact Or.inl
      · rintro (hk | rfl)
        · exact hk
        · exact hy
    · rw [List.map_append, List.mem_append, List.map_singleton, List.mem_singleton]

theorem nodup_keys_keepFirst {l : List β} : ((keepFirst key l).map key).Nodup := by
  induction l using List.reverseRecOn with
  | nil => exact List.nodup_nil
  | append_singleton l y ih =>
    rw [keepFirst_concat, pushNew]
    split
    · exact ih
    · rename_i hy
      rw [List.map_append, List.map_singleton]
      exact ih.append (List.nodup_singleton _) (by simpa using hy)

theorem keepFirst_of_nodup {l : List β} (h : (l.map key).Nodup) : keepFirst key l = l := by
  induction l using List.reverseRecOn with
  | nil => rfl
  | append_singleton l x ih =>
    rw [List.map_append, List.nodup_append] at h
    obtain ⟨hl, -, hdisjoint⟩ := h
    rw [keepFirst_concat, ih hl, pushNew, if_neg]
    exact fun hx => hdisjoint _ hx _ (by simp) rfl

/-- Of a second list those elements are kept whose keys the first one does not have. -/
theorem keepFirst_append (l r : List β) : keepFirst key (l ++ r) =
    keepFirst key l ++ (keepFirst key r).filter fun x => key x ∉ l.map key := by
  induction r using List.reverseRecOn with
  | nil => simp [keepFirst]
  | append_singleton r x ih =>
    have hkeys : key x ∈ (keepFirst key (l ++ r)).map key ↔
        key x ∈ l.map key ∨ key x ∈ r.map key := by
      rw [mem_keys_keepFirst, List.map_append, List.mem_append]
    rw [← List.append_assoc, keepFirst_concat, keepFirst_concat, pushNew, pushNew,
      if_congr hkeys rfl rfl, if_congr mem_keys_keepFirst rfl rfl, ih]
    by_cases hr : key x ∈ r.map key
    · rw [if_pos (.inr hr), if_pos hr]
    · rw [if_neg hr, List.filter_append, List.filter_singleton]
      by_cases hl : key x ∈ l.map key
      · rw [if_pos (.inl hl)]
        simp [hl]
      · rw [if_neg (not_or.mpr ⟨hl, hr⟩)]
        simp [hl, List.append_assoc]

/-- Keys that the elements have before a map already. -/
theorem keepFirst_filterMap {f : γ → Option β} {k : γ → α}
    (h : ∀ x y, f x = some y → key y = k x) (l : List γ) :
    keepFirst key (l.filterMap f) = (keepFirst k (l.filter fun x => (f x).isSome)).filterMap f := by
  have hkeys : ∀ l : List γ,
      (l.filterMap f).map key = (l.filter fun x => (f x).isSome).map k := by
    intro l
    induction l with
    | nil => rfl
    | cons x l ih =>
      rw [List.filterMap_cons, List.filter_cons]
      cases hx : f x with
      | none => simpa using ih
      | some y => simpa [h x y hx] using ih
  induction l using List.reverseRecOn with
  | nil => rfl
  | append_singleton l x ih =>
    rw [List.filterMap_append, List.filter_append, List.filter_singleton]
    cases hx : f x with
    | none => simpa [hx] using ih
    | some y =>
      have hseen : key y ∈ (keepFirst key (l.filterMap f)).map key ↔
          k x ∈ (keepFirst k (l.filter fun x => (f x).isSome)).map k := by
        rw [mem_keys_keepFirst, mem_keys_keepFirst, hkeys, h x y hx]
      simp only [Option.isSome_some, cond_true, List.filterMap_cons, hx, List.filterMap_nil]
      rw [keepFirst_concat, keepFirst_concat, pushNew, pushNew, if_congr hseen rfl rfl, ih]
      split
      · rfl
      · rw [List.filterMap_append, List.filterMap_cons, hx]
        rfl

theorem keepFirst_sublist (l : List β) : (keepFirst key l).Sublist l := by
  induction l using List.reverseRecOn with
  | nil => exact .slnil
  | append_singleton l x ih =>
    rw [keepFirst_concat, pushNew]
    split
    · exact ih.trans (List.sublist_append_left l [x])
    · exact ih.append (List.Sublist.refl [x])

/-- In a list that is ordered strictly the kept elements are the least of their keys. -/
theorem mem_keepFirst_of_pairwise {R : β → β → Prop} (hR : ∀ x y, R x y → ¬ R y x) {l : List β}
    (hl : l.Pairwise R) {x : β} :
    x ∈ keepFirst key l ↔ x ∈ l ∧ ∀ y ∈ l, key y = key x → y = x ∨ R x y := by
  induction l using List.reverseRecOn with
  | nil => exact iff_of_false List.not_mem_nil fun h => List.not_mem_nil h.1
  | append_singleton l z ih =>
    rw [List.pairwise_append] at hl
    obtain ⟨hl, -, hlast⟩ := hl
    have hbelow : ∀ y ∈ l, R y z := fun y hy => hlast y hy z (List.mem_singleton_self z)
    have hmem : x ∈ keepFirst key (l ++ [z]) ↔
        x ∈ keepFirst key l ∨ key z ∉ l.map key ∧ x = z := by
      rw [keepFirst_concat, pushNew, if_congr mem_keys_keepFirst rfl rfl]
      split
      · rename_i hz
        simp [hz]
      · rename_i hz
        rw [List.mem_append, List.mem_singleton, and_iff_right hz]
    rw [hmem, ih hl]
    constructor
    · rintro (⟨hx, hmin⟩ | ⟨hz, rfl⟩)
      · refine ⟨List.mem_append_left _ hx, fun y hy hkey => ?_⟩
        obtain hy | hy := List.mem_append.mp hy
        · exact hmin y hy hkey
        · rw [List.mem_singleton.mp hy]
          exact .inr (hbelow x hx)
      · refine ⟨by simp, fun y hy hkey => ?_⟩
        obtain hy | hy := List.mem_append.mp hy
        · exact absurd (List.mem_map.mpr ⟨y, hy, hkey⟩) hz
        · exact .inl (List.mem_singleton.mp hy)
    · rintro ⟨hx, hmin⟩
      obtain hx | hx := List.mem_append.mp hx
      · exact .inl ⟨hx, fun y hy => hmin y (List.mem_append_left _ hy)⟩
      · obtain rfl := List.mem_singleton.mp hx
        refine .inr ⟨fun hkeys => ?_, rfl⟩
        obtain ⟨y, hy, hkey⟩ := List.mem_map.mp hkeys
        obtain rfl | hxy := hmin y (List.mem_append_left _ hy) hkey
        · exact hR y y (hbelow y hy) (hbelow y hy)
        · exact hR x y hxy (hbelow y hy)

/-- `list(dict.fromkeys(l))` has the elements of `l`, each once. -/
theorem mem_keepFirst_id {l : List α} {x : α} : x ∈ keepFirst id l ↔ x ∈ l := by
  have h : x ∈ (keepFirst id l).map id ↔ x ∈ l.map id := mem_keys_keepFirst
  rwa [List.map_id, List.map_id] at h

theorem nodup_keepFirst_id {l : List α} : (keepFirst id l).Nodup := by
  have h : ((keepFirst id l).map id).Nodup := nodup_keys_keepFirst
  rwa [List.map_id] at h

end KeepFirst

/-! ## A dict of lists -/

section GroupInto
variable (key : β → α)

/-- `d.setdefault(key(x), []).append(x)` on a dict in insertion order. -/
def appendTo (x : β) : List (α × List β) → List (α × List β)
  | [] => [(key x, [x])]
  | e :: d => if e.1 = key x then (e.1, e.2 ++ [x]) :: d else e :: appendTo x d

def groupInto (l : List β) : List (α × List β) := l.foldl (fun d x => appendTo key x d) []

/-- The elements with this key. -/
def group (l : List β) (k : α) : List β := l.filter fun x => key x = k

variable {key}

theorem appendTo_of_not_mem {ks : List α} {f : α → List β} {x : β} (h : key x ∉ ks) :
    appendTo key x (ks.map fun k => (k, f k)) = ks.map (fun k => (k, f k)) ++ [(key x, [x])] := by
  induction ks with
  | nil => rfl
  | cons k ks ih =>
    rw [List.mem_cons, not_or] at h
    rw [List.map_cons, appendTo, if_neg (Ne.symm h.1), ih h.2, List.cons_append]

theorem appendTo_of_mem {ks : List α} {f : α → List β} {x : β} (hnodup : ks.Nodup)
    (h : key x ∈ ks) : appendTo key x (ks.map fun k => (k, f k)) =
      ks.map fun k => (k, if key x = k then f k ++ [x] else f k) := by
  induction ks with
  | nil => cases h
  | cons k ks ih =>
    rw [List.nodup_cons] at hnodup
    rw [List.map_cons, List.map_cons, appendTo]
    by_cases hk : k = key x
    · rw [if_pos hk, if_pos hk.symm]
      congr 1
      refine List.map_congr_left fun k' hk' => ?_
      have hne : key x ≠ k' := by
        rintro rfl
        exact hnodup.1 (hk ▸ hk')
      rw [if_neg hne]
    · rw [if_neg hk, if_neg (Ne.symm hk), ih hnodup.2 ((List.mem_cons.mp h).resolve_left (Ne.symm hk))]

/-- Every key, in the order of its first element, with the elements that have it. -/
theorem groupInto_eq (l : List β) :
    groupInto key l = (keepFirst id (l.map key)).map fun k => (k, group key l k) := by
  induction l using List.reverseRecOn with
  | nil => rfl
  | append_singleton l x ih =>
    have hgroup : ∀ k, group key (l ++ [x]) k =
        if key x = k then group key l k ++ [x] else group key l k := by
      intro k
      rw [group, group, List.filter_append]
      by_cases hk : key x = k
      · simp [hk]
      · simp [hk]
    rw [groupInto, List.foldl_append, List.foldl_cons, List.foldl_nil, ← groupInto, ih,
      List.map_append, List.map_singleton, keepFirst_concat, pushNew, List.map_id]
    by_cases hx : key x ∈ keepFirst id (l.map key)
    · rw [appendTo_of_mem nodup_keepFirst_id hx, id, if_pos hx]
      exact List.map_congr_left fun k _ => by rw [hgroup]
    · rw [appendTo_of_not_mem hx, id, if_neg hx, List.map_append, List.map_singleton]
      congr 1
      · refine List.map_congr_left fun k hk => ?_
        have hne : key x ≠ k := by
          rintro rfl
          exact hx hk
        rw [hgroup, if_neg hne]
      · have hnone : group key l (key x) = [] := by
          refine List.filter_eq_nil_iff.mpr fun y hy hyx => hx (mem_keepFirst_id.mpr ?_)
          rw [← of_decide_eq_true hyx]
          exact List.mem_map_of_mem hy
        rw [hgroup, if_pos rfl, hnone, List.nil_append]

/-- No element is lost or comes twice in the groups. -/
theorem flatMap_group_perm {ks : List α} (hnodup : ks.Nodup) {l : List β}
    (h : ∀ x ∈ l, key x ∈ ks) : (ks.flatMap (group key l)).Perm l := by
  induction l with
  | nil => simp [group]
  | cons x l ih =>
    obtain ⟨A, B, rfl⟩ := List.append_of_mem (h x List.mem_cons_self)
    obtain ⟨-, hB, hdisjoint⟩ := List.nodup_append.mp hnodup
    have hskip : ∀ ks' : List α, key x ∉ ks' →
        ks'.flatMap (group key (x :: l)) = ks'.flatMap (group key l) := by
      intro ks' hx
      refine List.flatMap_congr fun k hk => ?_
      have hne : key x ≠ k := by
        rintro rfl
        exact hx hk
      simp [group, hne]
    have hself : group key (x :: l) (key x) = x :: group key l (key x) := by simp [group]
    have ih := ih fun y hy => h y (List.mem_cons_of_mem x hy)
    rw [List.flatMap_append, List.flatMap_cons] at ih ⊢
    rw [hskip A fun hA => hdisjoint _ hA _ List.mem_cons_self rfl, hskip B (List.nodup_cons.mp hB).1,
      hself, List.cons_append]
    exact List.perm_middle.trans (ih.cons x)

theorem flatMap_groupInto_perm (l : List β) :
    ((groupInto key l).flatMap Prod.snd).Perm l := by
  rw [groupInto_eq, List.flatMap_map]
  exact flatMap_group_perm nodup_keepFirst_id fun x hx =>
    mem_keepFirst_id.mpr (List.mem_map_of_mem hx)

end GroupInto

end PyList
