import ClickRec.Json
import ClickRec.Lib.PyFloat
import ClickRec.Ranker.Context

/-! # `load_ranker_config`

Any exception on the way falls back to the defaults. What the conversions make of a text is given. -/
namespace ClickRec.Ranker
set_option autoImplicit false

/-! ## YAML values -/

/-- What `yaml.safe_load` returns; the last stands for the values of the other tags. -/
inductive Yaml where
  | null
  | bool (b : Bool)
  | int (n : ℤ)
  | float (x : PyFloat ℚ)
  | str (s : String)
  | seq (items : List Yaml)
  | map (entries : List (Yaml × Yaml))
  | other

namespace Yaml

def isStr (s : String) : Yaml → Bool
  | .str t => s == t
  | _ => false

/-- Python's truth value. -/
def truthy : Yaml → Bool
  | .null => false
  | .bool b => b
  | .int n => n ≠ 0
  | .float (.fin x) => x ≠ 0
  | .float _ => true
  | .str s => s ≠ ""
  | .seq items => !items.isEmpty
  | .map entries => !entries.isEmpty
  | .other => true

/-- `raw.get(key)` of a dict. -/
def get (entries : List (Yaml × Yaml)) (key : String) : Option Yaml :=
  (entries.find? fun e => e.1.isStr key).map Prod.snd

def typeError : PyError := ⟨"TypeError", "", ""⟩

/-- `value[key]` if `key in value`; only a dict has it then. -/
def lookup (value : Yaml) (key : String) : Except PyError (Option Yaml) :=
  match value with
  | .map entries => .ok (get entries key)
  | .seq items => if items.any (isStr key) then .error typeError else .ok none
  | .str s => if key.toList <:+: s.toList then .error typeError else .ok none
  | _ => .error typeError

end Yaml

/-! ## Conversions -/

/-- `int(text)` and `float(text)`. -/
structure Numerals where
  int_str : String → Except PyError ℤ
  float_str : String → Except PyError (PyFloat ℚ)

variable (numerals : Numerals)

/-- Towards 0. -/
def truncated (x : ℚ) : ℤ := if 0 ≤ x then ⌊x⌋ else ⌈x⌉

def toInt : Yaml → Except PyError ℤ
  | .int n => .ok n
  | .bool b => .ok (if b then 1 else 0)
  | .float (.fin x) => .ok (truncated x)
  | .float .nan => .error ⟨"ValueError", "cannot convert float NaN to integer", ""⟩
  | .float _ => .error ⟨"OverflowError", "cannot convert float infinity to integer", ""⟩
  | .str s => numerals.int_str s
  | _ => .error Yaml.typeError

def toFloat : Yaml → Except PyError (PyFloat ℚ)
  | .float x => .ok x
  | .int n =>
    if |(n : ℚ)| < PyFloat.limit then .ok (.fin n)
    else .error ⟨"OverflowError", "int too large to convert to float", ""⟩
  | .bool b => .ok (.fin (if b then 1 else 0))
  | .str s => numerals.float_str s
  | _ => .error Yaml.typeError

/-! ## The loader -/

abbrev LoadedConfig := RankerConfig (PyFloat ℚ)

def RankerConfig.map {K L : Type} (f : K → L) (cfg : RankerConfig K) : RankerConfig L where
  bm25_k := cfg.bm25_k
  vector_k := cfg.vector_k
  candidate_cap := cfg.candidate_cap
  recency_half_life_days := f cfg.recency_half_life_days
  personal_recent_clicks_n := cfg.personal_recent_clicks_n
  price_fit_scale := f cfg.price_fit_scale
  w_bm25 := f cfg.w_bm25
  w_vector := f cfg.w_vector
  w_popularity := f cfg.w_popularity
  w_recency := f cfg.w_recency
  w_personal := f cfg.w_personal
  w_co_click := f cfg.w_co_click
  w_price_fit := f cfg.w_price_fit

/-- `RankerConfig()`. -/
def defaultLoadedConfig : LoadedConfig := defaultRankerConfig.map .fin

/-- `raw.get(name) or {}`. -/
def configSection (raw : List (Yaml × Yaml)) (name : String) : Yaml :=
  match Yaml.get raw name with
  | some value => if value.truthy then value else .map []
  | none => .map []

/-- A key of a section, converted; its default where it is missing. -/
def readKey {α : Type} (convert : Yaml → Except PyError α) (values : Yaml) (key : String)
    (default : α) : Except PyError α := do
  match ← values.lookup key with
  | none => return default
  | some value => convert value

/-- The configuration with the values of `_flatten_yaml`. -/
def flattenYaml (raw : List (Yaml × Yaml)) : Except PyError LoadedConfig := do
  let candidates := configSection raw "candidates"
  let features := configSection raw "features"
  let weights := configSection raw "weights"
  let default := defaultLoadedConfig
  let bm25_k ← readKey (toInt numerals) candidates "bm25_k" default.bm25_k
  let vector_k ← readKey (toInt numerals) candidates "vector_k" default.vector_k
  let candidate_cap ← readKey (toInt numerals) candidates "candidate_cap" default.candidate_cap
  let half_life ← readKey (toFloat numerals) features "recency_half_life_days"
    default.recency_half_life_days
  let recent_n ← readKey (toInt numerals) features "personal_recent_clicks_n"
    default.personal_recent_clicks_n
  let price_fit_scale ← readKey (toFloat numerals) features "price_fit_scale" default.price_fit_scale
  let w_bm25 ← readKey (toFloat numerals) weights "bm25" default.w_bm25
  let w_vector ← readKey (toFloat numerals) weights "vector" default.w_vector
  let w_popularity ← readKey (toFloat numerals) weights "popularity" default.w_popularity
  let w_recency ← readKey (toFloat numerals) weights "recency" default.w_recency
  let w_personal ← readKey (toFloat numerals) weights "personal" default.w_personal
  let w_co_click ← readKey (toFloat numerals) weights "co_click" default.w_co_click
  let w_price_fit ← readKey (toFloat numerals) weights "price_fit" default.w_price_fit
  return ⟨bm25_k, vector_k, candidate_cap, half_life, recent_n, price_fit_scale, w_bm25, w_vector,
    w_popularity, w_recency, w_personal, w_co_click, w_price_fit⟩

/-- `none` without a file; reading it may raise. -/
def loadRankerConfig (file : Option (Except PyError Yaml)) : LoadedConfig :=
  match file with
  | some (.ok value) =>
    match if value.truthy then value else .map [] with
    | .map raw => (flattenYaml numerals raw).toOption.getD defaultLoadedConfig
    | _ => defaultLoadedConfig
  | _ => defaultLoadedConfig

/-! ## What the loader returns -/

/-- A file that sets every value. -/
def documentOf (cfg : LoadedConfig) : Yaml :=
  .map [(.str "candidates", .map [(.str "bm25_k", .int cfg.bm25_k),
      (.str "vector_k", .int cfg.vector_k), (.str "candidate_cap", .int cfg.candidate_cap)]),
    (.str "features", .map [(.str "recency_half_life_days", .float cfg.recency_half_life_days),
      (.str "personal_recent_clicks_n", .int cfg.personal_recent_clicks_n),
      (.str "price_fit_scale", .float cfg.price_fit_scale)]),
    (.str "weights", .map [(.str "bm25", .float cfg.w_bm25), (.str "vector", .float cfg.w_vector),
      (.str "popularity", .float cfg.w_popularity), (.str "recency", .float cfg.w_recency),
      (.str "personal", .float cfg.w_personal), (.str "co_click", .float cfg.w_co_click),
      (.str "price_fit", .float cfg.w_price_fit)])]

/-- Every configuration can be loaded: no value is rejected. -/
theorem loadRankerConfig_documentOf (cfg : LoadedConfig) :
    loadRankerConfig numerals (some (.ok (documentOf cfg))) = cfg := rfl

end ClickRec.Ranker
