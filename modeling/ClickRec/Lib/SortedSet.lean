import Mathlib.Data.List.Sort
import Mathlib.Data.Prod.Lex
import Mathlib.Order.WithBot
import Mathlib.Tactic

/-! Sorted sets: distinct members, each with a score, in the order of scores and, between equal
scores, of members. The commands on them follow Redis, whose ranks count from the end when
negative; a sorted set is determined by the scores of its members. -/
set_option autoImplicit false

variable {K α : Type*} [LinearOrder K] [LinearOrder α]

structure SortedSet (K α : Type*) [LinearOrder K] [LinearOrder α] where
  entries : List (K ×ₗ α)
  sorted : entries.Pairwise (· < ·)
  distinct : (entries.map fun e => (ofLex e).2).Nodup

namespace SortedSet

/-! ## Scores -/

def empty : SortedSet K α := ⟨[], List.Pairwise.nil, List.nodup_nil⟩

/-- `ZSCORE`. -/
def zscore (s : SortedSet K α) (m : α) : Option K :=
  (s.entries.find? fun e => (ofLex e).2 = m).map fun e => (ofLex e).1

def card (s : SortedSet K α) : ℕ := s.entries.length

@[simp] theorem entries_empty : (empty : SortedSet K α).entries = [] := rfl

@[simp] theorem zscore_empty (m : α) : (empty : SortedSet K α).zscore m = none := rfl

theorem eq_of_member_eq {s : SortedSet K α} {e f : K ×ₗ α} (he : e ∈ s.entries)
    (hf : f ∈ s.entries) (h : (ofLex e).2 = (ofLex f).2) : e = f :=
  List.inj_on_of_nodup_map s.distinct he hf h

theorem zscore_eq_some {s : SortedSet K α} {m : α} {x : K} :
    s.zscore m = some x ↔ toLex (x, m) ∈ s.entries := by
  constructor
  · intro h
    obtain ⟨e, he, rfl⟩ := Option.map_eq_some_iff.mp h
    have hm : (ofLex e).2 = m := by simpa using List.find?_some he
    have hmem := List.mem_of_find?_eq_some he
    rw [← hm]
    exact hmem
  · intro h
    cases hf : s.entries.find? fun e => (ofLex e).2 = m with
    | none =>
      have := List.find?_eq_none.mp hf _ h
      simp at this
    | some e =>
      have hm : (ofLex e).2 = m := by simpa using List.find?_some hf
      have heq : e = toLex (x, m) := eq_of_member_eq (List.mem_of_find?_eq_some hf) h hm
      rw [zscore, hf, heq]
      rfl

theorem zscore_eq_none {s : SortedSet K α} {m : α} :
    s.zscore m = none ↔ ∀ e ∈ s.entries, (ofLex e).2 ≠ m := by
  simp [zscore]

/-- Sorted sets with the same scores are the same. -/
theorem ext_zscore {s t : SortedSet K α} (h : ∀ m, s.zscore m = t.zscore m) : s = t := by
  have hmem : ∀ e, e ∈ s.entries ↔ e ∈ t.entries := by
    intro e
    have he := h (ofLex e).2
    constructor
    · intro hs
      exact zscore_eq_some.mp (he ▸ zscore_eq_some.mpr hs)
    · intro ht
      exact zscore_eq_some.mp (he.symm ▸ zscore_eq_some.mpr ht)
  have hentries : s.entries = t.entries := s.sorted.eq_of_mem_iff t.sorted hmem
  cases s
  cases t
  simp_all

/-! ## Commands -/

/-- `ZREM`. -/
def zrem (s : SortedSet K α) (m : α) : SortedSet K α where
  entries := s.entries.filter fun e => (ofLex e).2 ≠ m
  sorted := s.sorted.sublist List.filter_sublist
  distinct := s.distinct.sublist (List.filter_sublist.map _)

theorem entries_zrem (s : SortedSet K α) (m : α) :
    (s.zrem m).entries = s.entries.filter fun e => (ofLex e).2 ≠ m := rfl

theorem mem_zrem {s : SortedSet K α} {m : α} {e : K ×ₗ α} :
    e ∈ (s.zrem m).entries ↔ e ∈ s.entries ∧ (ofLex e).2 ≠ m := by
  simp [zrem]

theorem not_mem_zrem {s : SortedSet K α} {m : α} {x : K} : toLex (x, m) ∉ (s.zrem m).entries := by
  simp [zrem]

/-- `ZADD`: a member that is there already moves to its new score. -/
def zadd (s : SortedSet K α) (m : α) (x : K) : SortedSet K α where
  entries := (s.zrem m).entries.orderedInsert (· ≤ ·) (toLex (x, m))
  sorted := by
    have hle : (s.zrem m).entries.Pairwise (· ≤ ·) := (s.zrem m).sorted.imp le_of_lt
    have hnodup : ((s.zrem m).entries.orderedInsert (· ≤ ·) (toLex (x, m))).Nodup :=
      (List.perm_orderedInsert _ _ _).nodup_iff.mpr
        (List.nodup_cons.mpr ⟨not_mem_zrem, (s.zrem m).sorted.imp ne_of_lt⟩)
    exact (hle.orderedInsert (toLex (x, m)) _).imp₂ (fun _ _ h hne => lt_of_le_of_ne h hne) hnodup
  distinct := by
    refine ((List.perm_orderedInsert _ _ _).map _).nodup_iff.mpr ?_
    refine List.nodup_cons.mpr ⟨?_, (s.zrem m).distinct⟩
    intro h
    obtain ⟨e, he, hm⟩ := List.mem_map.mp h
    exact (mem_zrem.mp he).2 hm

theorem entries_zadd (s : SortedSet K α) (m : α) (x : K) : (s.zadd m x).entries =
    (s.zrem m).entries.orderedInsert (· ≤ ·) (toLex (x, m)) := rfl

theorem mem_zadd {s : SortedSet K α} {m : α} {x : K} {e : K ×ₗ α} :
    e ∈ (s.zadd m x).entries ↔ e = toLex (x, m) ∨ e ∈ s.entries ∧ (ofLex e).2 ≠ m := by
  rw [zadd, List.mem_orderedInsert, mem_zrem]

theorem zscore_zadd (s : SortedSet K α) (m n : α) (x : K) :
    (s.zadd m x).zscore n = if n = m then some x else s.zscore n := by
  by_cases hn : n = m
  · rw [if_pos hn, zscore_eq_some, mem_zadd, hn]
    exact .inl rfl
  · rw [if_neg hn]
    ext y
    rw [zscore_eq_some, zscore_eq_some, mem_zadd]
    simp [hn]

@[simp] theorem zscore_zadd_self (s : SortedSet K α) (m : α) (x : K) :
    (s.zadd m x).zscore m = some x := by
  rw [zscore_zadd, if_pos rfl]

@[simp] theorem zadd_zadd_self (s : SortedSet K α) (m : α) (x y : K) :
    (s.zadd m x).zadd m y = s.zadd m y := by
  refine ext_zscore fun n => ?_
  rw [zscore_zadd, zscore_zadd, zscore_zadd]
  split
  · rfl
  · rfl

/-- `ZINCRBY`. -/
def zincrby [Zero K] [Add K] (s : SortedSet K α) (m : α) (d : K) : SortedSet K α :=
  s.zadd m ((s.zscore m).getD 0 + d)

/-- The scores after a member went up by one `n` times. -/
theorem zscore_zincrby_iterate {K : Type*} [LinearOrder K] [AddMonoidWithOne K]
    (s : SortedSet K α) (m m' : α) (n : ℕ) :
    ((fun s => s.zincrby m 1)^[n] s).zscore m' =
      if m' = m ∧ n ≠ 0 then some ((s.zscore m).getD 0 + n) else s.zscore m' := by
  induction n generalizing m' with
  | zero => simp
  | succ n ih =>
    rw [Function.iterate_succ_apply', zincrby, zscore_zadd, ih, ih]
    by_cases hm : m' = m
    · by_cases hn : n = 0
      · simp [hm, hn]
      · simp [hm, hn, add_assoc]
    · simp [hm]

/-! ## Ranks

A rank range `start stop` with both ends included, read as the half-open range `lo hi`. -/

/-- The position a rank names in a list of this length; negative ranks count from its end. -/
def position (len : ℕ) (rank : ℤ) : ℤ := if rank < 0 then rank + len else rank

def lo (len : ℕ) (start : ℤ) : ℕ := (position len start).toNat

def hi (len : ℕ) (stop : ℤ) : ℕ := (position len stop + 1).toNat

/-- `ZREVRANGE`: the members from the highest score down, by rank from the top. -/
def zrevrange (s : SortedSet K α) (start stop : ℤ) : List α :=
  ((s.entries.reverse.take (hi s.card stop)).drop (lo s.card start)).map fun e => (ofLex e).2

/-- The members from the highest score down. -/
def descending (s : SortedSet K α) : List α := s.entries.reverse.map fun e => (ofLex e).2

theorem nodup_descending (s : SortedSet K α) : s.descending.Nodup := by
  rw [descending, List.map_reverse, List.nodup_reverse]
  exact s.distinct

/-- Up to the rank `n - 1` these are the first `n`. -/
theorem zrevrange_of_pos (s : SortedSet K α) {n : ℤ} (h : 1 ≤ n) :
    s.zrevrange 0 (n - 1) = s.descending.take n.toNat := by
  have hlo : lo s.card 0 = 0 := rfl
  have hhi : hi s.card (n - 1) = n.toNat := by
    rw [hi, position, if_neg (by omega)]
    omega
  rw [zrevrange, hlo, hhi, List.drop_zero, descending, List.map_take]

/-- Up to the rank `-1`, which is the last, these are all. -/
theorem zrevrange_all (s : SortedSet K α) : s.zrevrange 0 (-1) = s.descending := by
  have hlo : lo s.card 0 = 0 := rfl
  have hhi : hi s.card (-1) = s.card := by
    rw [hi, position, if_pos (by decide)]
    omega
  rw [zrevrange, hlo, hhi, List.drop_zero, List.take_of_length_le, descending]
  rw [List.length_reverse, card]

/-- The sorted set of a sublist of the entries. -/
def restrict (s : SortedSet K α) (l : List (K ×ₗ α)) (h : l.Sublist s.entries) : SortedSet K α where
  entries := l
  sorted := s.sorted.sublist h
  distinct := s.distinct.sublist (h.map _)

theorem take_append_drop_sublist {β : Type*} (l : List β) {i j : ℕ} (h : i ≤ j) :
    (l.take i ++ l.drop j).Sublist l := by
  have hdrop : (l.drop j).Sublist (l.drop i) := (List.drop_sublist_drop_left l h)
  calc (l.take i ++ l.drop j).Sublist (l.take i ++ l.drop i) := hdrop.append_left _
    _ = l := List.take_append_drop i l

/-- `ZREMRANGEBYRANK`. -/
def zremrangebyrank (s : SortedSet K α) (start stop : ℤ) : SortedSet K α :=
  let i := lo s.card start
  let j := max i (hi s.card stop)
  s.restrict (s.entries.take i ++ s.entries.drop j)
    (take_append_drop_sublist s.entries (le_max_left _ _))

/-- The `k` members with the highest scores. -/
def keepTop (k : ℕ) (s : SortedSet K α) : SortedSet K α :=
  s.restrict (s.entries.drop (s.card - k)) (List.drop_sublist _ _)

theorem card_keepTop (k : ℕ) (s : SortedSet K α) : (keepTop k s).card = min k s.card := by
  simp only [card, keepTop, restrict, List.length_drop]
  omega

theorem card_keepTop_le (k : ℕ) (s : SortedSet K α) : (keepTop k s).card ≤ k := by
  rw [card_keepTop]
  exact min_le_left _ _

theorem card_zadd_le (s : SortedSet K α) (m : α) (x : K) : (s.zadd m x).card ≤ s.card + 1 := by
  have hfilter : (s.zrem m).entries.length ≤ s.entries.length := List.length_filter_le _ _
  simp only [card, zadd, List.orderedInsert_length]
  omega

/-- Removing all ranks up to the `cap + 1`-st from the top keeps the top `cap`. A negative `cap`
empties a set that has one member. -/
theorem zremrangebyrank_cap {s : SortedSet K α} {cap : ℤ} (h : s.card ≤ cap.toNat + 1) :
    s.zremrangebyrank 0 (-(cap + 1)) = keepTop cap.toNat s := by
  have hlo : lo s.card 0 = 0 := rfl
  have hdrop : s.entries.drop (hi s.card (-(cap + 1))) = s.entries.drop (s.card - cap.toNat) := by
    unfold hi position
    split
    · congr 1
      omega
    · rw [List.drop_eq_nil_of_le, List.drop_eq_nil_of_le]
      · simp only [card] at h ⊢
        omega
      · simp only [card] at h ⊢
        omega
  simp only [zremrangebyrank, keepTop, hlo, List.take_zero, List.nil_append, Nat.zero_max, hdrop]

/-- With a cap of at least 0 that holds of every set. -/
theorem zremrangebyrank_cap_of_nonneg (s : SortedSet K α) {cap : ℤ} (h : 0 ≤ cap) :
    s.zremrangebyrank 0 (-(cap + 1)) = keepTop cap.toNat s := by
  have hlo : lo s.card 0 = 0 := rfl
  have hhi : hi s.card (-(cap + 1)) = s.card - cap.toNat := by
    unfold hi position
    rw [if_pos (by omega)]
    omega
  simp only [zremrangebyrank, keepTop, hlo, hhi, List.take_zero, List.nil_append, Nat.zero_max]

/-! ## Adding to the top of a sorted set -/

section Top
variable {β : Type*}

/-- The last `k` entries. -/
def lastEntries (k : ℕ) (l : List β) : List β := l.drop (l.length - k)

theorem lastEntries_of_length_le {k : ℕ} {l : List β} (h : l.length ≤ k) : lastEntries k l = l := by
  rw [lastEntries, Nat.sub_eq_zero_of_le h, List.drop_zero]

theorem lastEntries_append {k : ℕ} {l r : List β} (h : k ≤ r.length) :
    lastEntries k (l ++ r) = lastEntries k r := by
  have hlen : (l ++ r).length - k = l.length + (r.length - k) := by
    rw [List.length_append]
    omega
  rw [lastEntries, hlen, ← List.drop_drop, List.drop_left]
  rfl

theorem lastEntries_split (k : ℕ) (l : List β) :
    l = l.take (l.length - k) ++ lastEntries k l := (List.take_append_drop _ l).symm

theorem length_lastEntries {k : ℕ} {l : List β} (h : k ≤ l.length) :
    (lastEntries k l).length = k := by
  rw [lastEntries, List.length_drop]
  omega

variable [LinearOrder β]

theorem orderedInsert_append_of_lt {e : β} :
    ∀ {l r : List β}, (∀ b ∈ r, e < b) →
      (l ++ r).orderedInsert (· ≤ ·) e = l.orderedInsert (· ≤ ·) e ++ r
  | [], [], _ => rfl
  | [], b :: r, h => by
      rw [List.nil_append, List.orderedInsert_cons, if_pos (h b List.mem_cons_self).le]
      rfl
  | a :: l, r, h => by
      have ih := orderedInsert_append_of_lt (l := l) h
      rw [List.cons_append, List.orderedInsert_cons, List.orderedInsert_cons]
      split
      · rfl
      · rw [ih, List.cons_append]

theorem orderedInsert_append_of_gt {e : β} :
    ∀ {l r : List β}, (∀ a ∈ l, a < e) →
      (l ++ r).orderedInsert (· ≤ ·) e = l ++ r.orderedInsert (· ≤ ·) e
  | [], _, _ => rfl
  | a :: l, r, h => by
      have ih := orderedInsert_append_of_gt (l := l) (r := r) fun b hb => h b (List.mem_cons_of_mem a hb)
      rw [List.cons_append, List.orderedInsert_cons, if_neg (h a List.mem_cons_self).not_ge, ih,
        List.cons_append]

/-- Inserting into the last `k` entries and into the whole list give the same last `k`. -/
theorem lastEntries_orderedInsert {k : ℕ} {e : β} {l : List β} (hl : l.Pairwise (· < ·)) :
    lastEntries k ((lastEntries k l).orderedInsert (· ≤ ·) e) =
      lastEntries k (l.orderedInsert (· ≤ ·) e) := by
  by_cases hk : l.length ≤ k
  · rw [lastEntries_of_length_le hk]
  · have hlen : (lastEntries k l).length = k := length_lastEntries (by omega)
    have hsplit := lastEntries_split k l
    generalize hA : l.take (l.length - k) = A at hsplit
    generalize hB : lastEntries k l = B at hsplit hlen ⊢
    rw [hsplit] at hl ⊢
    obtain ⟨-, -, hlt⟩ := List.pairwise_append.mp hl
    have hB_insert : (B.orderedInsert (· ≤ ·) e).length = k + 1 := by
      rw [List.orderedInsert_length, hlen]
    by_cases hcut : ∀ b ∈ B, e < b
    · -- `e` falls below the cut on both sides
      have hnil : B.orderedInsert (· ≤ ·) e = [e] ++ B := by
        simpa using orderedInsert_append_of_lt (l := []) hcut
      rw [orderedInsert_append_of_lt hcut, hnil, lastEntries_append hlen.ge,
        lastEntries_append hlen.ge]
    · push Not at hcut
      obtain ⟨b, hb, hbe⟩ := hcut
      have hgt : ∀ a ∈ A, a < e := fun a ha => (hlt a ha b hb).trans_le hbe
      rw [orderedInsert_append_of_gt hgt, lastEntries_append (by omega)]

end Top

theorem entries_keepTop (k : ℕ) (s : SortedSet K α) :
    (keepTop k s).entries = lastEntries k s.entries := rfl

theorem ext_entries {s t : SortedSet K α} (h : s.entries = t.entries) : s = t := by
  cases s
  cases t
  simp_all

theorem keepTop_of_card_le {k : ℕ} {s : SortedSet K α} (h : s.card ≤ k) : keepTop k s = s :=
  ext_entries (lastEntries_of_length_le h)

theorem mem_of_mem_keepTop {k : ℕ} {s : SortedSet K α} {e : K ×ₗ α}
    (h : e ∈ (keepTop k s).entries) : e ∈ s.entries :=
  List.mem_of_mem_drop h

/-- The score of a member that is kept is its score. -/
theorem zscore_of_zscore_keepTop {k : ℕ} {s : SortedSet K α} {m : α} {x : K}
    (h : (keepTop k s).zscore m = some x) : s.zscore m = some x :=
  zscore_eq_some.mpr (mem_of_mem_keepTop (zscore_eq_some.mp h))

theorem card_le_card_zrem (s : SortedSet K α) (m : α) : s.card ≤ (s.zrem m).card + 1 := by
  have hcount : (s.entries.map fun e => (ofLex e).2).count m ≤ 1 :=
    List.nodup_iff_count_le_one.mp s.distinct m
  have hsplit := List.length_eq_countP_add_countP (l := s.entries) fun e => (ofLex e).2 ≠ m
  have hnot : (s.entries.countP fun e => ¬ (decide ((ofLex e).2 ≠ m)) = true) =
      (s.entries.map fun e => (ofLex e).2).count m := by
    rw [List.count, List.countP_map]
    congr 1
    funext e
    by_cases he : (ofLex e).2 = m <;> simp [he]
  rw [card, card, entries_zrem, ← List.countP_eq_length_filter]
  omega

theorem zrem_of_zscore_eq_none {s : SortedSet K α} {m : α} (h : s.zscore m = none) :
    s.zrem m = s :=
  ext_entries (List.filter_eq_self.mpr fun e he => by simpa using zscore_eq_none.mp h e he)

/-- **Adding to the kept part.** Unless the member is among those kept and its score goes down,
adding to the top `k` and keeping the top `k` is adding to the whole and keeping the top `k`. -/
theorem keepTop_zadd_keepTop {k : ℕ} {s : SortedSet K α} {m : α} {x : K}
    (h : ∀ y, (keepTop k s).zscore m = some y → y ≤ x) :
    keepTop k ((keepTop k s).zadd m x) = keepTop k (s.zadd m x) := by
  by_cases hk : s.card ≤ k
  · rw [keepTop_of_card_le hk]
  · have hcard : (keepTop k s).card = k := length_lastEntries (by rw [← card]; omega)
    have hsplit : s.entries = s.entries.take (s.card - k) ++ (keepTop k s).entries :=
      lastEntries_split k s.entries
    have hsorted := s.sorted
    generalize s.entries.take (s.card - k) = A at hsplit
    rw [hsplit] at hsorted
    obtain ⟨-, -, hlt⟩ := List.pairwise_append.mp hsorted
    have hzrem : (s.zrem m).entries =
        A.filter (fun e => (ofLex e).2 ≠ m) ++ ((keepTop k s).zrem m).entries := by
      rw [entries_zrem, entries_zrem, hsplit, List.filter_append]
    apply ext_entries
    rw [entries_keepTop, entries_keepTop, entries_zadd, entries_zadd, hzrem]
    cases hscore : (keepTop k s).zscore m with
    | none =>
      -- nothing is removed from the kept part, so it is the last `k` of what is left
      rw [zrem_of_zscore_eq_none hscore]
      have hlast : lastEntries k (A.filter (fun e => (ofLex e).2 ≠ m) ++ (keepTop k s).entries) =
          (keepTop k s).entries := by
        rw [lastEntries_append hcard.ge, lastEntries_of_length_le hcard.le]
      have hpair : (A.filter (fun e => (ofLex e).2 ≠ m) ++ (keepTop k s).entries).Pairwise (· < ·) :=
        hsorted.sublist (List.filter_sublist.append_right _)
      rw [← lastEntries_orderedInsert hpair, hlast]
    | some y =>
      -- the new entry is above all that was cut off
      have hmem : toLex (y, m) ∈ (keepTop k s).entries := zscore_eq_some.mp hscore
      have hle : toLex (y, m) ≤ toLex (x, m) := by
        rw [Prod.Lex.toLex_le_toLex]
        obtain hyx | hyx := (h y hscore).lt_or_eq
        · exact .inl hyx
        · exact .inr ⟨hyx, le_rfl⟩
      have hgt : ∀ a ∈ A.filter (fun e => (ofLex e).2 ≠ m), a < toLex (x, m) := fun a ha =>
        (hlt a (List.mem_of_mem_filter ha) _ hmem).trans_le hle
      have hlen : k ≤ (((keepTop k s).zrem m).entries.orderedInsert (· ≤ ·) (toLex (x, m))).length := by
        rw [List.orderedInsert_length]
        exact hcard.ge.trans (card_le_card_zrem (keepTop k s) m)
      rw [orderedInsert_append_of_gt hgt, lastEntries_append hlen]

/-- Adding to the kept part what has just been added changes nothing. -/
theorem keepTop_zadd_again (k : ℕ) (s : SortedSet K α) (m : α) (x : K) :
    keepTop k ((keepTop k (s.zadd m x)).zadd m x) = keepTop k (s.zadd m x) := by
  rw [keepTop_zadd_keepTop, zadd_zadd_self]
  intro y hy
  have hscore := zscore_of_zscore_keepTop hy
  rw [zscore_zadd_self] at hscore
  exact (Option.some.inj hscore).ge

/-- A member that was cut off and comes back with a lower score is cut off again. -/
theorem keepTop_zadd_below {k : ℕ} {s : SortedSet K α} {m : α} {x y : K}
    (hcut : (keepTop k s).zscore m = none) (hy : s.zscore m = some y) (hxy : x ≤ y) :
    keepTop k ((keepTop k s).zadd m x) = keepTop k s := by
  have hk : ¬ s.card ≤ k := by
    intro hk
    rw [keepTop_of_card_le hk, hy] at hcut
    cases hcut
  have hcard : (keepTop k s).card = k := length_lastEntries (by rw [← card]; omega)
  have hsplit : s.entries = s.entries.take (s.card - k) ++ (keepTop k s).entries :=
    lastEntries_split k s.entries
  have hsorted := s.sorted
  have hmem : toLex (y, m) ∈ s.entries := zscore_eq_some.mp hy
  rw [hsplit] at hsorted hmem
  obtain ⟨-, -, hlt⟩ := List.pairwise_append.mp hsorted
  obtain hmem | hmem := List.mem_append.mp hmem
  · have hle : toLex (x, m) ≤ toLex (y, m) := by
      rw [Prod.Lex.toLex_le_toLex]
      obtain hxy | hxy := hxy.lt_or_eq
      · exact .inl hxy
      · exact .inr ⟨hxy, le_rfl⟩
    have hbelow : ∀ b ∈ (keepTop k s).entries, toLex (x, m) < b := fun b hb =>
      hle.trans_lt (hlt _ hmem b hb)
    have hcons := orderedInsert_append_of_lt (l := []) hbelow
    apply ext_entries
    rw [entries_keepTop, entries_zadd, zrem_of_zscore_eq_none hcut]
    rw [List.nil_append] at hcons
    rw [hcons, lastEntries_append hcard.ge, lastEntries_of_length_le hcard.le]
  · rw [zscore_eq_some.mpr hmem] at hcut
    cases hcut

/-! ## The greatest score of each member -/

/-- `ZADD GT`: a member that is there already never loses score. -/
def zaddGt (s : SortedSet K α) (m : α) (x : K) : SortedSet K α :=
  if ∀ y ∈ s.zscore m, y ≤ x then s.zadd m x else s

theorem zscore_zaddGt (s : SortedSet K α) (m n : α) (x : K) :
    (s.zaddGt m x).zscore n = if n = m then some ((s.zscore m).elim x (max x)) else s.zscore n := by
  unfold zaddGt
  split
  · rename_i hle
    rw [zscore_zadd]
    cases hm : s.zscore m with
    | none => rfl
    | some y => rw [Option.elim_some, max_eq_left (hle y hm)]
  · rename_i hlt
    push Not at hlt
    obtain ⟨y, hm, hxy⟩ := hlt
    split
    · rename_i hn
      rw [hn, hm, Option.elim_some, max_eq_right hxy.le]
    · rfl

/-- **Keeping the top of the greatest scores.** What is kept is a function of what was kept, unless
the new score is lower than the one a kept member has. -/
theorem keepTop_zaddGt {k : ℕ} {s : SortedSet K α} {m : α} {x : K}
    (h : ∀ y, (keepTop k s).zscore m = some y → y ≤ x) :
    keepTop k ((keepTop k s).zadd m x) = keepTop k (s.zaddGt m x) := by
  unfold zaddGt
  split
  · exact keepTop_zadd_keepTop h
  · rename_i hlt
    push Not at hlt
    obtain ⟨y, hy, hxy⟩ := hlt
    have hcut : (keepTop k s).zscore m = none := by
      cases hm : (keepTop k s).zscore m with
      | none => rfl
      | some z =>
        have hz := zscore_of_zscore_keepTop hm
        rw [hy] at hz
        obtain rfl : y = z := Option.some.inj hz
        exact absurd (h y hm) hxy.not_ge
    exact keepTop_zadd_below hcut hy hxy.le

/-- A kept member whose score goes down no longer has its greatest score. -/
theorem keepTop_zadd_ne_zaddGt {k : ℕ} {s : SortedSet K α} {m : α} {x y : K}
    (hm : (keepTop k s).zscore m = some y) (hxy : x < y) :
    keepTop k ((keepTop k s).zadd m x) ≠ keepTop k (s.zaddGt m x) := by
  have hs : s.zscore m = some y := zscore_of_zscore_keepTop hm
  have hgt : s.zaddGt m x = s := by
    rw [zaddGt, if_neg]
    intro h
    exact (h y hs).not_gt hxy
  intro heq
  rw [hgt] at heq
  have hscore : ((keepTop k s).zadd m x).zscore m = some y :=
    zscore_of_zscore_keepTop (k := k) (by rw [heq, hm])
  rw [zscore_zadd_self] at hscore
  exact hxy.ne (Option.some.inj hscore)

/-- The members of a list of scored members, each with its greatest score. -/
def greatest (l : List (α × K)) : SortedSet K α := l.foldl (fun s e => s.zaddGt e.1 e.2) empty

@[simp] theorem greatest_nil : greatest ([] : List (α × K)) = empty := rfl

theorem greatest_append (l : List (α × K)) (e : α × K) :
    greatest (l ++ [e]) = (greatest l).zaddGt e.1 e.2 := by
  simp [greatest]

theorem zscore_greatest_eq_none {l : List (α × K)} {m : α} :
    (greatest l).zscore m = none ↔ ∀ y, (m, y) ∉ l := by
  induction l using List.reverseRecOn with
  | nil => simp
  | append_singleton l e ih =>
    rw [greatest_append, zscore_zaddGt]
    by_cases hm : m = e.1
    · rw [if_pos hm]
      simp only [reduceCtorEq, false_iff]
      intro h
      exact h e.2 (List.mem_append_right l (by simp [hm]))
    · have hne : ∀ y, (m, y) ≠ e := fun y h => hm (by rw [← h])
      rw [if_neg hm, ih]
      simp [hne]

theorem zscore_greatest {l : List (α × K)} {m : α} {x : K} :
    (greatest l).zscore m = some x ↔ (m, x) ∈ l ∧ ∀ y, (m, y) ∈ l → y ≤ x := by
  induction l using List.reverseRecOn generalizing x with
  | nil => simp
  | append_singleton l e ih =>
    rw [greatest_append, zscore_zaddGt]
    by_cases hm : m = e.1
    · rw [if_pos hm]
      obtain ⟨n, z⟩ := e
      obtain rfl : m = n := hm
      cases hl : (greatest l).zscore m with
      | none =>
        have habsent : ∀ y, (m, y) ∉ l := zscore_greatest_eq_none.mp hl
        simp only [Option.elim_none, Option.some.injEq, List.mem_append, habsent, false_or,
          List.mem_singleton, Prod.mk.injEq, true_and]
        constructor
        · rintro rfl
          exact ⟨rfl, fun y hy => hy.le⟩
        · exact fun h => h.1.symm
      | some y =>
        obtain ⟨hmem, hmax⟩ := ih.mp hl
        simp only [Option.elim_some, Option.some.injEq, List.mem_append, List.mem_singleton,
          Prod.mk.injEq, true_and]
        constructor
        · rintro rfl
          refine ⟨?_, fun w hw => ?_⟩
          · obtain h | h := max_choice z y
            · exact .inr h
            · exact .inl (by rw [h]; exact hmem)
          · obtain hw | rfl := hw
            · exact (hmax w hw).trans (le_max_right z y)
            · exact le_max_left w y
        · rintro ⟨hx, hall⟩
          refine le_antisymm (max_le (hall z (.inr rfl)) (hall y (.inl hmem))) ?_
          obtain hx | rfl := hx
          · exact (hmax x hx).trans (le_max_right z y)
          · exact le_max_left x y
    · have hne : ∀ y, (m, y) ≠ e := fun y h => hm (by rw [← h])
      rw [if_neg hm, ih]
      simp [hne]

/-- The order of the list does not matter, nor whether an element comes again. -/
theorem greatest_eq_of_mem_iff {l r : List (α × K)} (h : ∀ e, e ∈ l ↔ e ∈ r) :
    greatest l = greatest r := by
  refine ext_zscore fun m => Option.ext fun x => ?_
  rw [zscore_greatest, zscore_greatest, h]
  simp only [h]

end SortedSet
