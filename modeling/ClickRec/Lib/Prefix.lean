import Mathlib.Data.List.Infix
import Mathlib.Tactic

/-! Concatenations that can be taken apart again: behind tags of which none is a prefix of another,
and at a separator. -/
namespace Prefix
set_option autoImplicit false

variable {α τ : Type*}

/-- No tag is a prefix of another. -/
def PrefixFree (tag : τ → List α) : Prop := ∀ p q, tag p <+: tag q → p = q

theorem PrefixFree.append_eq {tag : τ → List α} (h : PrefixFree tag) {p q : τ} {l r : List α} :
    tag p ++ l = tag q ++ r ↔ p = q ∧ l = r := by
  constructor
  · intro heq
    have hp : tag p <+: tag q ++ r := heq ▸ List.prefix_append _ _
    have hpq : p = q := by
      obtain hle | hle := List.prefix_or_prefix_of_prefix hp (List.prefix_append (tag q) r)
      · exact h p q hle
      · exact (h q p hle).symm
    subst hpq
    exact ⟨rfl, List.append_cancel_left heq⟩
  · rintro ⟨rfl, rfl⟩
    rfl

/-- Two texts are the same with the separator in both where one is cut at one occurrence and the
other at another, or in the same place. -/
theorem append_sep_eq {sep : α} {u v l r : List α} : u ++ sep :: l = v ++ sep :: r ↔
    (u = v ∧ l = r) ∨ (∃ s, v = u ++ sep :: s ∧ l = s ++ sep :: r) ∨
      ∃ s, u = v ++ sep :: s ∧ r = s ++ sep :: l := by
  constructor
  · intro h
    obtain ⟨s, hv, hl⟩ | ⟨s, hu, hr⟩ := List.append_eq_append_iff.mp h
    · cases s with
      | nil => exact .inl ⟨by simpa using hv.symm, by simpa using hl⟩
      | cons x s =>
        obtain ⟨rfl, htail⟩ := List.cons.inj hl
        exact .inr (.inl ⟨s, hv, htail⟩)
    · cases s with
      | nil => exact .inl ⟨by simpa using hu, by simpa using hr.symm⟩
      | cons x s =>
        obtain ⟨rfl, htail⟩ := List.cons.inj hr
        exact .inr (.inr ⟨s, hu, htail⟩)
  · rintro (⟨rfl, rfl⟩ | ⟨s, rfl, rfl⟩ | ⟨s, rfl, rfl⟩)
    · rfl
    · simp
    · simp

end Prefix
