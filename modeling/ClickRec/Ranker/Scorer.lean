import ClickRec.Json
import ClickRec.Ranker.Context

/-! # `score`: min-max of each feature, weighted sum, breakdown -/
namespace ClickRec.Ranker
set_option autoImplicit false

variable {K : Type}

def FEATURE_NAMES : List String :=
  ["bm25", "vector", "popularity", "recency", "personal", "co_click", "price_fit"]

/-- `getattr(cfg, _WEIGHT_ATTR[name])`. -/
def RankerConfig.weight [Zero K] (cfg : RankerConfig K) : String → K
  | "bm25" => cfg.w_bm25
  | "vector" => cfg.w_vector
  | "popularity" => cfg.w_popularity
  | "recency" => cfg.w_recency
  | "personal" => cfg.w_personal
  | "co_click" => cfg.w_co_click
  | "price_fit" => cfg.w_price_fit
  | _ => 0

variable [Field K] [LinearOrder K]

/-- `_min_max`. -/
def minMax (xs : List (Option K)) : List K :=
  match xs.reduceOption with
  | [] => xs.map fun _ => 0
  | [_] => xs.map fun x => if x.isSome then 1 else 0
  | x :: real =>
    let lo := real.foldl min x
    let hi := real.foldl max x
    if hi ≤ lo then xs.map fun _ => 0
    else xs.map fun x => x.elim 0 fun x => (x - lo) / (hi - lo)

/-! ## The two loops -/

abbrev Features (K : Type) := String → Option (List (Option K))

/-- The check of one column against the length so far; a length of 0 stands for no column yet. -/
def checkColumn (features : Features K) (n : ℕ) (name : String) : Except PyError ℕ :=
  match features name with
  | none => throw ⟨"KeyError", "missing feature column: " ++ name, ""⟩
  | some raw_col =>
    if n = 0 then pure raw_col.length
    else if raw_col.length = n then pure n
    else throw ⟨"ValueError", "feature column length mismatch: " ++ name ++ " has " ++
      toString raw_col.length ++ " expected " ++ toString n, ""⟩

/-- The score of a candidate so far, with its breakdown. -/
abbrev Scored (K : Type) := K × List (String × K)

def contribute (name : String) (weight : K) (row : Scored K) (x : K) : Scored K :=
  (row.1 + weight * x, row.2 ++ [(name, weight * x)])

/-- The loop over the candidates for one feature; a short column ends it. -/
def addFeature (features : Features K) (cfg : RankerConfig K) (rows : List (Scored K))
    (name : String) : Except PyError (List (Scored K)) :=
  let normed_col := minMax ((features name).getD [])
  if normed_col.length < rows.length then throw ⟨"IndexError", "list index out of range", ""⟩
  else pure (List.zipWith (contribute name (cfg.weight name)) rows normed_col)

/-- The scores with their breakdowns. -/
def score (features : Features K) (cfg : RankerConfig K) : Except PyError (List (Scored K)) := do
  let n ← FEATURE_NAMES.foldlM (checkColumn features) 0
  if n = 0 then return []
  else FEATURE_NAMES.foldlM (addFeature features cfg) (List.replicate n (0, []))

end ClickRec.Ranker
