import ClickRec.Kafka.Records

/-! # JSON values and `orjson`

`orjson` is a parameter of the model: `loads` and `dumps` with the exception each may raise. -/
namespace ClickRec
set_option autoImplicit false
open Kafka (Bytes)

/-- An exception as the code reads it: class name, `str(exc)` and formatted traceback. -/
structure PyError where
  cls : String
  message : String
  stack : String
  deriving DecidableEq, Repr

inductive Json where
  | null
  | bool (b : Bool)
  | int (i : ℤ)
  | float (x : ℚ)
  | str (s : String)
  | arr (items : List Json)
  | obj (entries : List (String × Json))

/-! ## Nesting depth -/

mutual
def Json.depth : Json → ℕ
  | .arr items => depthItems items + 1
  | .obj entries => depthEntries entries + 1
  | _ => 0

def depthItems : List Json → ℕ
  | [] => 0
  | v :: vs => max v.depth (depthItems vs)

def depthEntries : List (String × Json) → ℕ
  | [] => 0
  | (_, v) :: kvs => max v.depth (depthEntries kvs)
end

theorem depth_le_depthEntries {k : String} {v : Json} :
    ∀ {kvs : List (String × Json)}, (k, v) ∈ kvs → v.depth ≤ depthEntries kvs
  | (k', v') :: kvs, h => by
      rw [depthEntries]
      rcases List.mem_cons.mp h with heq | h
      · obtain ⟨rfl, rfl⟩ := Prod.mk.inj heq
        exact le_max_left _ _
      · exact (depth_le_depthEntries h).trans (le_max_right _ _)

/-- `n + 1` arrays inside each other. -/
def Json.nest : ℕ → Json
  | 0 => .arr []
  | n + 1 => .arr [nest n]

theorem Json.depth_nest (n : ℕ) : (Json.nest n).depth = n + 1 := by
  induction n with
  | zero => rfl
  | succ n ih =>
    rw [Json.nest, Json.depth, depthItems, depthItems, ih]
    omega

/-- The text of `n` arrays inside each other. -/
def brackets (n : ℕ) : Bytes := List.replicate n 0x5B ++ List.replicate n 0x5D

theorem length_brackets (n : ℕ) : (brackets n).length = 2 * n := by
  rw [brackets, List.length_append, List.length_replicate, List.length_replicate]
  omega

/-! ## Equality -/

mutual
/-- The same constructors and the same contents, the entries of an object in the same order. -/
def Json.same : Json → Json → Bool
  | .null, .null => true
  | .bool a, .bool b => a = b
  | .int a, .int b => a = b
  | .float a, .float b => a = b
  | .str a, .str b => a = b
  | .arr items, .arr items' => sameItems items items'
  | .obj entries, .obj entries' => sameEntries entries entries'
  | _, _ => false

def sameItems : List Json → List Json → Bool
  | [], [] => true
  | v :: vs, w :: ws => v.same w && sameItems vs ws
  | _, _ => false

def sameEntries : List (String × Json) → List (String × Json) → Bool
  | [], [] => true
  | (k, v) :: kvs, (k', w) :: kws => k = k' && v.same w && sameEntries kvs kws
  | _, _ => false
end

mutual
theorem Json.eq_of_same : ∀ {v w : Json}, v.same w = true → v = w
  | .arr items, w, h => by
      cases w with
      | arr items' => rw [eq_of_sameItems h]
      | _ => cases h
  | .obj entries, w, h => by
      cases w with
      | obj entries' => rw [eq_of_sameEntries h]
      | _ => cases h
  | .null, w, h => by cases w <;> simp_all [Json.same]
  | .bool a, w, h => by cases w <;> simp_all [Json.same]
  | .int a, w, h => by cases w <;> simp_all [Json.same]
  | .float a, w, h => by cases w <;> simp_all [Json.same]
  | .str a, w, h => by cases w <;> simp_all [Json.same]

theorem eq_of_sameItems : ∀ {vs ws : List Json}, sameItems vs ws = true → vs = ws
  | [], [], _ => rfl
  | v :: vs, w :: ws, h => by
      obtain ⟨hhead, htail⟩ := Bool.and_eq_true_iff.mp h
      rw [Json.eq_of_same hhead, eq_of_sameItems htail]

theorem eq_of_sameEntries : ∀ {vs ws : List (String × Json)}, sameEntries vs ws = true → vs = ws
  | [], [], _ => rfl
  | (k, v) :: vs, (k', w) :: ws, h => by
      obtain ⟨hhead, htail⟩ := Bool.and_eq_true_iff.mp h
      obtain ⟨hkey, hvalue⟩ := Bool.and_eq_true_iff.mp hhead
      rw [of_decide_eq_true hkey, Json.eq_of_same hvalue, eq_of_sameEntries htail]
end

mutual
theorem Json.same_self : ∀ v : Json, v.same v = true
  | .arr items => sameItems_self items
  | .obj entries => sameEntries_self entries
  | .null => rfl
  | .bool _ | .int _ | .float _ | .str _ => decide_eq_true rfl

theorem sameItems_self : ∀ vs : List Json, sameItems vs vs = true
  | [] => rfl
  | v :: vs => Bool.and_eq_true_iff.mpr ⟨v.same_self, sameItems_self vs⟩

theorem sameEntries_self : ∀ kvs : List (String × Json), sameEntries kvs kvs = true
  | [] => rfl
  | (_, v) :: kvs => Bool.and_eq_true_iff.mpr
      ⟨Bool.and_eq_true_iff.mpr ⟨decide_eq_true rfl, v.same_self⟩, sameEntries_self kvs⟩
end

instance : DecidableEq Json := fun v w =>
  decidable_of_iff (v.same w = true) ⟨Json.eq_of_same, fun h => h ▸ Json.same_self v⟩

/-! ## The library -/

structure Orjson where
  loads : Bytes → Except PyError Json
  dumps : Json → Except PyError Bytes

/-- The documented limits: `loads` reads 1024 levels, `dumps` refuses the 255th container that is not
empty, so that it writes at most 254 of them and an empty one inside. -/
structure Orjson.Limits (o : Orjson) : Prop where
  loads_nested : ∀ n < 1024, o.loads (brackets (n + 1)) = .ok (.nest n)
  dumps_deep : ∀ v : Json, 255 < v.depth → ∃ e, o.dumps v = .error e

end ClickRec
