import Mathlib.Algebra.Order.Field.Basic
import Mathlib.Tactic

/-! Python's floats: the finite ones, exact in an ordered field, the two infinities and nan. A result
too large for a double is an infinity, a division by zero raises. -/

inductive PyFloat (K : Type*) where
  | nan
  | inf
  | negInf
  | fin (x : K)

namespace PyFloat
set_option autoImplicit false

variable {K ε : Type*} [Field K] [LinearOrder K]

/-! ## Arithmetic -/

/-- The least number that is rounded to infinity. -/
def limit : K := 2 ^ 1024 - 2 ^ 970

def ofExact (x : K) : PyFloat K :=
  if limit ≤ x then inf else if x ≤ -limit then negInf else fin x

def neg : PyFloat K → PyFloat K
  | nan => nan
  | inf => negInf
  | negInf => inf
  | fin x => fin (-x)

def abs : PyFloat K → PyFloat K
  | nan => nan
  | inf => inf
  | negInf => inf
  | fin x => fin |x|

def sub : PyFloat K → PyFloat K → PyFloat K
  | nan, _ => nan
  | _, nan => nan
  | fin x, fin y => ofExact (x - y)
  | fin _, inf => negInf
  | fin _, negInf => inf
  | inf, inf => nan
  | inf, _ => inf
  | negInf, negInf => nan
  | negInf, _ => negInf

/-- A quotient with a finite divisor other than 0. -/
def divFin (y : K) : PyFloat K → PyFloat K
  | nan => nan
  | inf => if 0 < y then inf else negInf
  | negInf => if 0 < y then negInf else inf
  | fin x => ofExact (x / y)

/-- A quotient with an infinite divisor. -/
def divInf : PyFloat K → PyFloat K
  | fin _ => fin 0
  | _ => nan

/-- `x / y`, which raises `zero` for a divisor of 0 whatever the dividend. -/
def div (zero : ε) (d : PyFloat K) : PyFloat K → Except ε (PyFloat K)
  | nan => .ok nan
  | inf => .ok (divInf d)
  | negInf => .ok (divInf d)
  | fin y => if y = 0 then .error zero else .ok (divFin y d)

/-- `math.exp`, given what it does with finite floats. -/
def exp (finExp : K → Except ε K) : PyFloat K → Except ε (PyFloat K)
  | nan => .ok nan
  | inf => .ok inf
  | negInf => .ok (fin 0)
  | fin x => (finExp x).map fin

/-! ## Results in the unit interval -/

def InUnit : PyFloat K → Prop
  | fin x => 0 ≤ x ∧ x ≤ 1
  | _ => False

/-- The exponential is in the unit interval up to `tiny`, which is 0 in exact arithmetic; above it is
greater or raises. -/
structure ExpSpec (finExp : K → Except ε K) (tiny : K) : Prop where
  nonneg : 0 ≤ tiny
  lt_limit : tiny < limit
  unit_iff : ∀ x, (∃ y, finExp x = .ok y ∧ 0 ≤ y ∧ y ≤ 1) ↔ x ≤ tiny

/-- `exp(-d / s)`. -/
def decayed (zero : ε) (finExp : K → Except ε K) (d s : PyFloat K) : Except ε (PyFloat K) :=
  (div zero d.neg s).bind (exp finExp)

/-- The scale is positive, or infinite for a finite distance, or the distance is next to nothing. -/
def Decays (tiny : K) : PyFloat K → PyFloat K → Prop
  | fin x, fin y => 0 < y ∨ y < 0 ∧ x ≤ tiny * -y
  | inf, fin y => 0 < y
  | fin _, inf => True
  | fin _, negInf => True
  | _, _ => False

/-- What a distance can be. -/
def IsDistance : PyFloat K → Prop
  | negInf => False
  | fin x => 0 ≤ x
  | _ => True

variable [IsStrictOrderedRing K]

theorem limit_pos : (0 : K) < limit :=
  sub_pos.mpr (pow_lt_pow_right₀ one_lt_two (by decide))

variable {zero : ε} {finExp : K → Except ε K} {tiny : K}

theorem isDistance_abs (x : PyFloat K) : IsDistance x.abs := by
  cases x with
  | nan => trivial
  | inf => trivial
  | negInf => trivial
  | fin x => exact abs_nonneg x

omit [IsStrictOrderedRing K] in
theorem exp_fin_iff (h : ExpSpec finExp tiny) (x : K) :
    (∃ r, exp finExp (fin x) = .ok r ∧ InUnit r) ↔ x ≤ tiny := by
  rw [← h.unit_iff, exp]
  cases finExp x with
  | error e => simp [Except.map]
  | ok y => simp [Except.map, InUnit]

theorem exp_ofExact_iff (h : ExpSpec finExp tiny) (x : K) :
    (∃ r, exp finExp (ofExact x) = .ok r ∧ InUnit r) ↔ x ≤ tiny := by
  unfold ofExact
  split
  · rename_i hlarge
    refine iff_of_false ?_ (h.lt_limit.trans_le hlarge).not_ge
    rintro ⟨r, hr, hunit⟩
    obtain rfl := Except.ok.inj hr
    exact hunit
  · split
    · rename_i hsmall
      refine iff_of_true ⟨fin 0, rfl, le_rfl, zero_le_one⟩ (hsmall.trans ?_)
      exact (neg_nonpos.mpr limit_pos.le).trans h.nonneg
    · exact exp_fin_iff h x

omit [IsStrictOrderedRing K] in
theorem not_exp_nan (finExp : K → Except ε K) : ¬ ∃ r, exp finExp nan = .ok r ∧ InUnit r := by
  rintro ⟨r, hr, hunit⟩
  obtain rfl := Except.ok.inj hr
  exact hunit

omit [IsStrictOrderedRing K] in
theorem decayed_infinite_iff (h : ExpSpec finExp tiny) {d : PyFloat K} (hd : IsDistance d) :
    (∃ r, exp finExp (divInf d.neg) = .ok r ∧ InUnit r) ↔ ∃ x, d = fin x := by
  cases d with
  | negInf => exact absurd hd id
  | nan => exact iff_of_false (not_exp_nan finExp) (by simp)
  | inf => exact iff_of_false (not_exp_nan finExp) (by simp)
  | fin x => exact iff_of_true ((exp_fin_iff h 0).mpr h.nonneg) ⟨x, rfl⟩

theorem decayed_finite_iff (h : ExpSpec finExp tiny) {d : PyFloat K} (hd : IsDistance d) {y : K}
    (hy : y ≠ 0) :
    (∃ r, exp finExp (divFin y d.neg) = .ok r ∧ InUnit r) ↔ Decays tiny d (fin y) := by
  cases d with
  | negInf => exact absurd hd id
  | nan => exact iff_of_false (not_exp_nan finExp) id
  | inf =>
    simp only [neg, divFin, Decays]
    by_cases hpos : 0 < y
    · simp [hpos, exp, InUnit]
    · simp [hpos, exp, InUnit]
  | fin x =>
    simp only [neg, divFin, Decays]
    rw [exp_ofExact_iff h]
    have hx : 0 ≤ x := hd
    obtain hneg | hpos := hy.lt_or_gt
    · rw [neg_div, ← div_neg, div_le_iff₀ (neg_pos.mpr hneg)]
      simp [hneg, hneg.not_gt]
    · refine iff_of_true (le_trans ?_ h.nonneg) (.inl hpos)
      exact div_nonpos_of_nonpos_of_nonneg (neg_nonpos.mpr hx) hpos.le

/-- **When a decay is in the unit interval.** -/
theorem decayed_iff (h : ExpSpec finExp tiny) {d : PyFloat K} (hd : IsDistance d) (s : PyFloat K) :
    (∃ r, decayed zero finExp d s = .ok r ∧ InUnit r) ↔ Decays tiny d s := by
  cases s with
  | nan =>
    refine iff_of_false (not_exp_nan finExp) ?_
    cases d <;> exact id
  | inf =>
    refine (decayed_infinite_iff h hd).trans ?_
    cases d <;> simp [Decays]
  | negInf =>
    refine (decayed_infinite_iff h hd).trans ?_
    cases d <;> simp [Decays]
  | fin y =>
    obtain rfl | hy := eq_or_ne y 0
    · have hraises : decayed zero finExp d (fin 0) = .error zero := by
        rw [decayed, div, if_pos rfl]
        rfl
      rw [hraises]
      refine iff_of_false (by simp) ?_
      cases d <;> simp [Decays]
    · have hvalue : decayed zero finExp d (fin y) = exp finExp (divFin y d.neg) := by
        rw [decayed, div, if_neg hy]
        rfl
      rw [hvalue]
      exact decayed_finite_iff h hd hy

end PyFloat
