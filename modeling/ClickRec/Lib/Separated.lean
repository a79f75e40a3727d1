import Mathlib.Data.List.Basic
import Mathlib.Data.List.Infix
import Mathlib.Tactic

/-! Texts joined and split at a separator: the first occurrence, the pieces between all of them, and
which pieces are read back as they were joined. -/
namespace Separated
set_option autoImplicit false

variable {α : Type*}

/-! ## Occurrences and foreign elements -/

theorem prefix_append_cons {w a b : List α} {x : α} (h : x ∉ w) :
    w <+: a ++ x :: b ↔ w <+: a := by
  constructor
  · intro hw
    have hax : a ++ [x] <+: a ++ x :: b := ⟨b, by simp⟩
    obtain hle | hle := List.prefix_or_prefix_of_prefix hw hax
    · obtain heq | hle := List.prefix_concat_iff.mp hle
      · exact absurd (by simp [heq]) h
      · exact hle
    · exact absurd (hle.mem (by simp)) h
  · exact fun hw => hw.trans (List.prefix_append a _)

/-- An element that the word does not have keeps its occurrences apart. -/
theorem infix_append_cons {w a b : List α} {x : α} (h : x ∉ w) :
    w <:+: a ++ x :: b ↔ w <:+: a ∨ w <:+: b := by
  induction a with
  | nil =>
    have hfirst : w <+: x :: b ↔ w <+: [] := prefix_append_cons (a := []) h
    rw [List.nil_append, List.infix_cons_iff, hfirst, List.prefix_nil, List.infix_nil]
  | cons y a ih =>
    rw [List.cons_append, List.infix_cons_iff, List.infix_cons_iff, ih, ← List.cons_append,
      prefix_append_cons h, or_assoc]

theorem infix_append_foreign {w a b sep : List α} (hne : sep ≠ []) (h : ∀ x ∈ sep, x ∉ w)
    (hw : w ≠ []) : w <:+: a ++ (sep ++ b) ↔ w <:+: a ∨ w <:+: b := by
  induction sep generalizing a with
  | nil => exact absurd rfl hne
  | cons x sep ih =>
    rw [List.cons_append, infix_append_cons (h x List.mem_cons_self)]
    obtain rfl | hsep := eq_or_ne sep []
    · rfl
    · have hrest := ih (a := []) hsep fun y hy => h y (List.mem_cons_of_mem x hy)
      rw [List.nil_append, List.infix_nil] at hrest
      rw [hrest, or_iff_right hw]

theorem infix_intercalate_iff {w sep : List α} (hne : sep ≠ []) (h : ∀ x ∈ sep, x ∉ w) (hw : w ≠ [])
    (pieces : List (List α)) : w <:+: sep.intercalate pieces ↔ ∃ x ∈ pieces, w <:+: x := by
  induction pieces with
  | nil => simpa using hw
  | cons x pieces ih =>
    obtain rfl | hpieces := eq_or_ne pieces []
    · simp
    · rw [List.intercalate_cons_of_ne_nil hpieces, List.append_assoc, infix_append_foreign hne h hw,
        ih]
      simp only [List.mem_cons, exists_eq_or_imp]

theorem flatMap_intercalate {β : Type*} (f : α → List β) (sep : List α) (pieces : List (List α)) :
    (sep.intercalate pieces).flatMap f =
      (sep.flatMap f).intercalate (pieces.map fun x => x.flatMap f) := by
  induction pieces with
  | nil => rfl
  | cons x pieces ih =>
    obtain rfl | hpieces := eq_or_ne pieces []
    · simp
    · rw [List.intercalate_cons_of_ne_nil hpieces, List.flatMap_append, List.flatMap_append, ih,
        List.map_cons, List.intercalate_cons_of_ne_nil (by simpa using hpieces)]

/-! ## The first occurrence -/

/-- No occurrence of the separator starts within these elements when they stand before it. -/
def Closed (sep s : List α) : Prop := ¬ sep <:+: s ++ sep.dropLast

variable {sep : List α}

theorem closed_nil (hsep : sep ≠ []) : Closed sep [] := by
  intro h
  have hlength := h.length_le
  have hpos := List.length_pos_iff.mpr hsep
  rw [List.nil_append, List.length_dropLast] at hlength
  omega

theorem prefix_dropLast_iff (x : α) (s rest : List α) :
    sep <+: x :: s ++ sep.dropLast ↔ sep <+: x :: (s ++ sep ++ rest) := by
  have hlonger : x :: s ++ sep.dropLast <+: x :: (s ++ sep ++ rest) := by
    rw [List.cons_append, List.cons_prefix_cons, List.append_assoc, List.prefix_append_right_inj]
    exact ⟨rfl, (List.dropLast_prefix sep).trans (List.prefix_append sep rest)⟩
  constructor
  · exact fun h => h.trans hlonger
  · intro h
    refine List.prefix_of_prefix_length_le h hlonger ?_
    rw [List.length_append, List.length_cons, List.length_dropLast]
    omega

theorem closed_cons_iff (x : α) (s rest : List α) :
    Closed sep (x :: s) ↔ ¬ sep <+: x :: (s ++ sep ++ rest) ∧ Closed sep s := by
  rw [Closed, ← prefix_dropLast_iff x s rest, List.cons_append, List.infix_cons_iff, not_or, Closed]

/-- For a run of one element it is enough that the text does not end with that element. -/
theorem closed_replicate_iff (n : ℕ) (t : α) (s : List α) :
    Closed (List.replicate (n + 2) t) s ↔
      ¬ List.replicate (n + 2) t <:+: s ∧ s.getLast? ≠ some t := by
  have hlast : (List.replicate (n + 2) t).dropLast = List.replicate (n + 1) t :=
    List.dropLast_replicate
  obtain rfl | ⟨s, x, rfl⟩ := List.eq_nil_or_concat s
  · refine iff_of_true (closed_nil (by simp)) ⟨?_, by simp⟩
    rw [List.infix_nil]
    simp
  · rw [List.concat_eq_append, Closed, hlast, List.append_assoc, List.singleton_append,
      List.getLast?_concat]
    obtain rfl | hx := eq_or_ne x t
    · refine iff_of_false (fun h => h ⟨s, [], ?_⟩) fun h => h.2 rfl
      rw [List.append_nil, List.replicate_succ]
    · have hshort : ¬ List.replicate (n + 2) t <:+: List.replicate (n + 1) t := by
        intro h
        have hlength := h.length_le
        rw [List.length_replicate, List.length_replicate] at hlength
        omega
      have hforeign : x ∉ List.replicate (n + 2) t := fun h => hx (List.eq_of_mem_replicate h)
      have hnil : ¬ List.replicate (n + 2) t <:+: [] := by
        rw [List.infix_nil]
        simp
      rw [infix_append_cons hforeign, infix_append_cons hforeign, or_iff_left hshort,
        or_iff_left hnil, and_iff_left]
      exact fun h => hx (Option.some.inj h)

variable [DecidableEq α]

/-- What stands before the first occurrence of the separator, and behind it. -/
def cut (sep : List α) : List α → Option (List α × List α)
  | [] => none
  | x :: s =>
    if sep <+: x :: s then some ([], (x :: s).drop sep.length)
    else (cut sep s).map fun p => (x :: p.1, p.2)

theorem cut_eq_some (hsep : sep ≠ []) {s x rest : List α} :
    cut sep s = some (x, rest) ↔ s = x ++ sep ++ rest ∧ Closed sep x := by
  induction s generalizing x with
  | nil => simp [cut, hsep]
  | cons a s ih =>
    rw [cut]
    split
    · rename_i hfirst
      obtain ⟨t, ht⟩ := hfirst
      have hdrop : (a :: s).drop sep.length = t := by rw [← ht, List.drop_left]
      rw [hdrop]
      constructor
      · intro h
        obtain ⟨rfl, rfl⟩ := Prod.mk.inj (Option.some.inj h)
        exact ⟨ht.symm, closed_nil hsep⟩
      · rintro ⟨heq, hclosed⟩
        cases x with
        | nil =>
          rw [List.nil_append, ← ht] at heq
          rw [List.append_cancel_left heq]
        | cons b x =>
          obtain ⟨rfl, hs⟩ := List.cons.inj heq
          exact absurd ⟨t, ht.trans heq⟩ ((closed_cons_iff _ x rest).mp hclosed).1
    · rename_i hfirst
      rw [Option.map_eq_some_iff]
      constructor
      · rintro ⟨⟨y, rest'⟩, hy, heq⟩
        obtain ⟨rfl, rfl⟩ := Prod.mk.inj heq
        obtain ⟨hs, hclosed⟩ := ih.mp hy
        exact ⟨by rw [hs]; rfl, (closed_cons_iff a y rest').mpr ⟨hs ▸ hfirst, hclosed⟩⟩
      · rintro ⟨heq, hclosed⟩
        cases x with
        | nil => exact absurd ⟨rest, heq.symm⟩ hfirst
        | cons b y =>
          obtain ⟨rfl, hs⟩ := List.cons.inj heq
          exact ⟨(y, rest), ih.mpr ⟨hs, ((closed_cons_iff _ y rest).mp hclosed).2⟩, rfl⟩

theorem cut_eq_none (hsep : sep ≠ []) {s : List α} : cut sep s = none ↔ ¬ sep <:+: s := by
  induction s with
  | nil => simp [cut, hsep]
  | cons a s ih =>
    rw [cut, List.infix_cons_iff, not_or, ← ih]
    split
    · rename_i hfirst
      simp [hfirst]
    · rename_i hfirst
      simp [hfirst]

/-! ## The pieces between the occurrences -/

/-- At most `n` cuts. -/
def splitN (sep : List α) : ℕ → List α → List (List α)
  | 0, s => [s]
  | n + 1, s =>
    match cut sep s with
    | none => [s]
    | some (x, rest) => x :: splitN sep n rest

/-- `s.split(sep)`, from left to right. -/
def split (sep s : List α) : List (List α) := splitN sep s.length s

/-- Joined with the separator these pieces are the ones between its occurrences. -/
def Clean (sep : List α) : List (List α) → Prop
  | [] => False
  | [x] => ¬ sep <:+: x
  | x :: y :: pieces => Closed sep x ∧ Clean sep (y :: pieces)

omit [DecidableEq α] in
theorem uncut_iff {s : List α} (h : ¬ sep <:+: s) (pieces : List (List α)) :
    [s] = pieces ↔ s = sep.intercalate pieces ∧ Clean sep pieces := by
  constructor
  · rintro rfl
    exact ⟨by rw [List.intercalate_singleton], h⟩
  · rintro ⟨heq, hclean⟩
    match pieces, hclean with
    | [x], _ => rw [heq, List.intercalate_singleton]
    | x :: y :: pieces, _ =>
      rw [List.intercalate_cons_cons] at heq
      exact absurd ⟨x, _, heq.symm⟩ h

theorem splitN_eq_iff (hsep : sep ≠ []) (n : ℕ) {s : List α} (hs : s.length ≤ n)
    (pieces : List (List α)) :
    splitN sep n s = pieces ↔ s = sep.intercalate pieces ∧ Clean sep pieces := by
  have hpos := List.length_pos_iff.mpr hsep
  induction n generalizing s pieces with
  | zero =>
    obtain rfl := List.length_eq_zero_iff.mp (Nat.le_zero.mp hs)
    exact uncut_iff (fun h => hsep (List.infix_nil.mp h)) pieces
  | succ n ih =>
    rw [splitN]
    cases hcut : cut sep s with
    | none => exact uncut_iff ((cut_eq_none hsep).mp hcut) pieces
    | some p =>
      obtain ⟨x, rest⟩ := p
      obtain ⟨heq, hclosed⟩ := (cut_eq_some hsep).mp hcut
      have hrest : rest.length ≤ n := by
        rw [heq, List.length_append, List.length_append] at hs
        omega
      match pieces with
      | [] => exact iff_of_false (by simp) fun h => h.2
      | [y] =>
        refine iff_of_false (fun h => ?_) fun h => h.2 ?_
        · exact ((ih hrest []).mp (List.cons.inj h).2).2
        · have hy : s = y := h.1.trans List.intercalate_singleton
          exact ⟨x, rest, by rw [← hy, heq]⟩
      | y :: z :: pieces =>
        have hpieces : s = sep.intercalate (y :: z :: pieces) ∧ Closed sep y ↔
            x = y ∧ rest = sep.intercalate (z :: pieces) := by
          rw [List.intercalate_cons_cons, ← cut_eq_some hsep, hcut, Option.some_inj, Prod.mk.injEq]
        have hlater : splitN sep n rest = z :: pieces ↔
            rest = sep.intercalate (z :: pieces) ∧ Clean sep (z :: pieces) := ih hrest (z :: pieces)
        rw [List.cons_eq_cons, hlater, Clean, ← and_assoc, ← and_assoc, hpieces]

theorem split_eq_iff (hsep : sep ≠ []) (s : List α) (pieces : List (List α)) :
    split sep s = pieces ↔ s = sep.intercalate pieces ∧ Clean sep pieces :=
  splitN_eq_iff hsep s.length le_rfl pieces

omit [DecidableEq α] in
theorem clean_singleton_iff (c : α) (pieces : List (List α)) :
    Clean [c] pieces ↔ pieces ≠ [] ∧ ∀ x ∈ pieces, c ∉ x := by
  induction pieces with
  | nil => simp [Clean]
  | cons x pieces ih =>
    cases pieces with
    | nil => simp [Clean, List.singleton_infix_iff]
    | cons y pieces =>
      rw [Clean, ih, Closed]
      simp [List.singleton_infix_iff]

end Separated
