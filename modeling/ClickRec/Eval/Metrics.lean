import ClickRec.Lib.PyList
import Mathlib.Algebra.Field.Defs

/-! # The metrics of the evaluation -/
namespace ClickRec.Eval
set_option autoImplicit false

section Metrics
variable {K : Type} [Field K] [LinearOrder K] (log2 : ℕ → K)

/-- `sum(rel / math.log2(i + 2) for i, rel in enumerate(rels))`. -/
def dcg (rels : List K) : K := (rels.zipIdx.map fun p => p.1 / log2 (p.2 + 2)).sum

def ndcgAtK (rels : List K) (k : ℤ) : K :=
  if k ≤ 0 ∨ rels.isEmpty then 0
  else
    let actual := dcg log2 (PyList.sliceTo rels k)
    let ideal := dcg log2 (PyList.sliceTo (rels.insertionSort fun x y => y ≤ x) k)
    if ideal = 0 then 0 else actual / ideal

/-- The reciprocal rank of the first relevant entry. -/
def mrrAtK (rels : List K) (k : ℤ) : K :=
  match (PyList.sliceTo rels k).findIdx? (0 < ·) with
  | none => 0
  | some i => 1 / ((i + 1 : ℕ) : K)

end Metrics

end ClickRec.Eval
