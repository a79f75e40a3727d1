import ClickRec.Kafka.CoClicks
import ClickRec.Lib.LockOrder
import Mathlib.Data.Finset.Powerset

/-! # The rows an upsert of co-clicks locks

The statement locks the rows of its pairs one after the other until the commit. -/
namespace ClickRec.Kafka
set_option autoImplicit false

/-! ## The order of the pairs -/

theorem nodup_coClickPairs (item_ids : List String) : (coClickPairs item_ids).Nodup := by
  rw [coClickPairs]
  split
  · exact List.nodup_nil
  · exact (List.perm_insertionSort _ _).nodup_iff.mpr (List.nodup_dedup _)

/-- The pairs are in the lexicographic order. -/
theorem pairwise_coClickPairs (item_ids : List String) :
    (coClickPairs item_ids).Pairwise fun p q => toLex p < toLex q := by
  have htrans : IsTrans (String × String) fun p q => toLex p ≤ toLex q :=
    ⟨fun _ _ _ hpq hqr => hpq.trans hqr⟩
  have htotal : Std.Total fun p q : String × String => toLex p ≤ toLex q :=
    ⟨fun p q => le_total (toLex p) (toLex q)⟩
  have hle : (coClickPairs item_ids).Pairwise fun p q => toLex p ≤ toLex q := by
    rw [coClickPairs]
    split
    · exact List.Pairwise.nil
    · exact List.pairwise_insertionSort _ _
  exact hle.imp₂ (fun p q hpq hne => lt_of_le_of_ne hpq fun heq => hne (toLex.injective heq))
    (nodup_coClickPairs item_ids)

/-! ## The unordered pairs -/

/-- The two items of a pair. -/
def rowItems (p : String × String) : Finset String := {p.1, p.2}

/-- The lesser item of a pair comes first. -/
theorem rowItems_inj {p q : String × String} (hp : p.1 < p.2) (hq : q.1 < q.2)
    (h : rowItems p = rowItems q) : p = q := by
  have hmem : ∀ x, (x = p.1 ∨ x = p.2) ↔ x = q.1 ∨ x = q.2 := by
    intro x
    have hx : x ∈ rowItems p ↔ x ∈ rowItems q := by rw [h]
    simpa [rowItems] using hx
  obtain hfst | hfst := (hmem p.1).mp (.inl rfl)
  · obtain hsnd | hsnd := (hmem p.2).mp (.inr rfl)
    · exact absurd (hfst.trans hsnd.symm) hp.ne
    · exact Prod.ext hfst hsnd
  · obtain hsnd | hsnd := (hmem p.2).mp (.inr rfl)
    · rw [hfst, hsnd] at hp
      exact absurd hp hq.not_gt
    · exact absurd (hfst.trans hsnd.symm) hp.ne

theorem lt_of_mem_coClickPairs {item_ids : List String} {p : String × String}
    (h : p ∈ coClickPairs item_ids) : p.1 < p.2 :=
  (mem_coClickPairs_iff.mp h).1

theorem nodup_rowItems (item_ids : List String) : ((coClickPairs item_ids).map rowItems).Nodup :=
  List.Nodup.map_on (fun _ hp _ hq => rowItems_inj (lt_of_mem_coClickPairs hp)
    (lt_of_mem_coClickPairs hq)) (nodup_coClickPairs item_ids)

theorem mem_map_rowItems {item_ids : List String} {s : Finset String} :
    s ∈ (coClickPairs item_ids).map rowItems ↔ s ∈ item_ids.toFinset.powersetCard 2 := by
  rw [List.mem_map, Finset.mem_powersetCard, Finset.card_eq_two]
  constructor
  · rintro ⟨⟨a, b⟩, hpair, rfl⟩
    obtain ⟨hlt, ha, hb⟩ := mem_coClickPairs_iff.mp hpair
    refine ⟨fun x hx => ?_, a, b, hlt.ne, rfl⟩
    obtain rfl | rfl : x = a ∨ x = b := by simpa [rowItems] using hx
    · exact List.mem_toFinset.mpr ha
    · exact List.mem_toFinset.mpr hb
  · rintro ⟨hsub, a, b, hne, rfl⟩
    have ha : a ∈ item_ids := List.mem_toFinset.mp (hsub (Finset.mem_insert_self a {b}))
    have hb : b ∈ item_ids :=
      List.mem_toFinset.mp (hsub (Finset.mem_insert_of_mem (Finset.mem_singleton_self b)))
    obtain hlt | hlt := hne.lt_or_gt
    · exact ⟨(a, b), mem_coClickPairs_iff.mpr ⟨hlt, ha, hb⟩, rfl⟩
    · exact ⟨(b, a), mem_coClickPairs_iff.mpr ⟨hlt, hb, ha⟩, Finset.pair_comm b a⟩

/-! ## Two statements -/

/-- In two lists ordered alike the common elements come in one order. -/
theorem filter_mem_comm {α : Type} [BEq α] [LawfulBEq α] {R : α → α → Prop}
    (hR : ∀ x y, R x y → ¬ R y x) {l l' : List α} (hl : l.Pairwise R) (hl' : l'.Pairwise R) :
    l.filter (· ∈ l') = l'.filter (· ∈ l) := by
  have hne : ∀ x y, R x y → x ≠ y := by
    rintro x y hxy rfl
    exact hR x x hxy hxy
  have hnodup : ∀ {l : List α}, l.Pairwise R → l.Nodup := fun h => h.imp fun {x y} => hne x y
  refine List.Perm.eq_of_pairwise (fun x y _ _ hxy hyx => absurd hyx (hR x y hxy))
    (hl.filter _) (hl'.filter _) ?_
  refine (List.perm_ext_iff_of_nodup ((hnodup hl).filter _) ((hnodup hl').filter _)).mpr fun x => ?_
  simp only [List.mem_filter, decide_eq_true_eq, and_comm]

/-- **The rows of a statement.** They are those of the pairs of different items, each once, and all
statements lock them in the lexicographic order. -/
theorem coClickPairs_canonical (item_ids item_ids' : List String) :
    (coClickPairs item_ids).Pairwise (fun p q => toLex p < toLex q) ∧
    (∀ p ∈ coClickPairs item_ids, p.1 < p.2) ∧
    ((coClickPairs item_ids).map rowItems).Nodup ∧
    ((coClickPairs item_ids).map rowItems).toFinset = item_ids.toFinset.powersetCard 2 ∧
    (coClickPairs item_ids).filter (· ∈ coClickPairs item_ids') =
      (coClickPairs item_ids').filter (· ∈ coClickPairs item_ids) := by
  refine ⟨pairwise_coClickPairs item_ids, fun p hp => lt_of_mem_coClickPairs hp,
    nodup_rowItems item_ids, ?_, ?_⟩
  · ext s
    rw [List.mem_toFinset, mem_map_rowItems]
  · exact filter_mem_comm (fun _ _ => lt_asymm) (pairwise_coClickPairs item_ids)
      (pairwise_coClickPairs item_ids')

/-- Statements that run at the same time never wait for each other in a circle. -/
theorem upserts_never_deadlock {ι : Type} [DecidableEq ι] [Finite ι] (item_ids : ι → List String)
    {s : ι → LockOrder.Client (String ×ₗ String)}
    (hrun : LockOrder.Reaches
      (fun i => .start ((coClickPairs (item_ids i)).map toLex)) s) :
    (∀ i, s i = .released) ∨ ∃ s', LockOrder.Step s s' :=
  LockOrder.no_deadlock (fun i => List.pairwise_map.mpr (pairwise_coClickPairs (item_ids i))) hrun

end ClickRec.Kafka
