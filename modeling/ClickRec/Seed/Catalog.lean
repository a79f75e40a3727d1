import ClickRec.Lib.Transactions
import ClickRec.Models

/-! # The rows of the seeder

The ids come from the two tables below and a counter; the texts, prices, times and embeddings are drawn
at random and may differ from one run to the next. -/
namespace ClickRec.Seed
set_option autoImplicit false

def TARGET_ITEMS : ℕ := 10000
def ITEMS_PER_CATEGORY : ℕ := 200
def USERS_PER_SEGMENT : ℕ := 200
def BULK_CHUNK : ℕ := 500

/-- The paths of the categories. -/
def CATEGORIES : List String :=
  ["electronics/headphones", "electronics/earbuds", "electronics/speakers",
    "electronics/laptops", "electronics/keyboards", "electronics/mice", "electronics/monitors",
    "electronics/smartphones", "electronics/tablets", "electronics/smartwatches",
    "home/coffee-makers", "home/blenders", "home/toasters", "home/air-fryers",
    "home/stand-mixers", "home/kettles", "home/cookware", "home/cutlery", "home/dinnerware",
    "home/food-storage", "home/lamps", "home/rugs", "home/throw-pillows", "home/wall-art",
    "home/curtains", "furniture/office-chairs", "furniture/desks", "furniture/bookshelves",
    "furniture/nightstands", "furniture/sofas", "apparel/mens-running-shoes",
    "apparel/mens-sneakers", "apparel/mens-t-shirts", "apparel/mens-jackets",
    "apparel/mens-jeans", "apparel/womens-dresses", "apparel/womens-handbags",
    "apparel/womens-boots", "apparel/womens-sweaters", "apparel/womens-activewear",
    "beauty/skincare", "beauty/haircare", "beauty/makeup", "beauty/fragrance", "beauty/shaving",
    "sports/yoga-mats", "sports/dumbbells", "sports/resistance-bands", "sports/treadmills",
    "sports/bicycles"]

def USER_SEGMENTS : List String :=
  ["bargain_hunter", "brand_loyalist", "category_explorer", "new_arrivals", "premium"]

/-! ## Ids -/

/-- The format `04d`. -/
def digits4 (i : ℕ) : String := String.ofList ((Nat.toDigits 10 i).leftpad 4 '0')

/-- `path.replace('/', '_')`. -/
def slug (path : String) : String :=
  String.ofList (path.toList.map fun c => if c = '/' then '_' else c)

def itemId (path : String) (i : ℕ) : String := "i_" ++ slug path ++ "_" ++ digits4 i

def userId (segment : String) (i : ℕ) : String := "u_" ++ segment ++ "_" ++ digits4 i

/-- The ids of a table in the order of its rows. -/
def numbered (id : String → ℕ → String) (names : List String) (per_name : ℕ) : List String :=
  names.flatMap fun name => (List.range per_name).map (id name)

def itemIds : List String := numbered itemId CATEGORIES ITEMS_PER_CATEGORY

def userIds : List String := numbered userId USER_SEGMENTS USERS_PER_SEGMENT

/-! ## They are distinct -/

/-- The number of a text of digits. -/
def ofDigits (digits : List Char) : ℕ :=
  digits.foldl (fun n c => 10 * n + (c.toNat - '0'.toNat)) 0

theorem length_digits4 {i : ℕ} (h : i < 200) : (digits4 i).toList.length = 4 := by
  have hshort : ∀ i < 200, (Nat.toDigits 10 i).length ≤ 4 := by decide +kernel
  rw [digits4, String.toList_ofList, List.length_leftpad]
  exact max_eq_left (hshort i h)

theorem ofDigits_digits4 {i : ℕ} (h : i < 200) : ofDigits (digits4 i).toList = i := by
  have hvalue : ∀ i < 200, ofDigits ((Nat.toDigits 10 i).leftpad 4 '0') = i := by decide +kernel
  rw [digits4, String.toList_ofList]
  exact hvalue i h

example : digits4 7 = "0007" := by decide

/-- An id is a name between a first and a last part, and its number. -/
theorem id_inj {before name name' between : String} {i j : ℕ} (hi : i < 200) (hj : j < 200)
    (h : before ++ name ++ between ++ digits4 i = before ++ name' ++ between ++ digits4 j) :
    name = name' ∧ i = j := by
  have hlist : (before ++ name ++ between).toList ++ (digits4 i).toList =
      (before ++ name' ++ between).toList ++ (digits4 j).toList := by
    rw [← String.toList_append, ← String.toList_append, h]
  obtain ⟨hname, hdigits⟩ := List.append_inj' hlist ((length_digits4 hi).trans (length_digits4 hj).symm)
  refine ⟨?_, ?_⟩
  · simp only [String.toList_append, List.append_cancel_right_eq, List.append_cancel_left_eq] at hname
    exact String.toList_injective hname
  · rw [← ofDigits_digits4 hi, hdigits, ofDigits_digits4 hj]

/-- Without an underscore in the path nothing is lost. -/
theorem slug_inj {path path' : String} (hpath : '_' ∉ path.toList) (hpath' : '_' ∉ path'.toList)
    (h : slug path = slug path') : path = path' := by
  have hback : ∀ p : String, '_' ∉ p.toList →
      (slug p).toList.map (fun c => if c = '_' then '/' else c) = p.toList := by
    intro p hp
    rw [slug, String.toList_ofList, List.map_map]
    refine (List.map_congr_left fun c hc => ?_).trans (List.map_id p.toList)
    have hne : c ≠ '_' := fun heq => hp (heq ▸ hc)
    by_cases hslash : c = '/'
    · simp [hslash]
    · simp [hslash, hne]
  rw [← String.toList_inj, ← hback path hpath, ← hback path' hpath', h]

theorem nodup_numbered {id : String → ℕ → String} {names : List String} {per_name : ℕ}
    (hnames : names.Nodup)
    (hid : ∀ name ∈ names, ∀ name' ∈ names, ∀ i < per_name, ∀ j < per_name,
      id name i = id name' j → name = name' ∧ i = j) :
    (numbered id names per_name).Nodup := by
  rw [numbered, List.nodup_flatMap]
  refine ⟨fun name hname => ?_, ?_⟩
  · refine List.Nodup.map_on (fun i hi j hj h => ?_) List.nodup_range
    exact (hid name hname name hname i (List.mem_range.mp hi) j (List.mem_range.mp hj) h).2
  · refine hnames.imp_of_mem fun {name name'} hname hname' hne => ?_
    rw [Function.onFun, List.disjoint_left]
    intro x hx hx'
    obtain ⟨i, hi, rfl⟩ := List.mem_map.mp hx
    obtain ⟨j, hj, heq⟩ := List.mem_map.mp hx'
    exact hne (hid name hname name' hname' i (List.mem_range.mp hi) j (List.mem_range.mp hj) heq.symm).1

theorem length_numbered (id : String → ℕ → String) (names : List String) (per_name : ℕ) :
    (numbered id names per_name).length = names.length * per_name := by
  rw [numbered, List.length_flatMap]
  simp

theorem nodup_itemIds : itemIds.Nodup := by
  have hpaths : CATEGORIES.Nodup := by simp [CATEGORIES]
  have hplain : ∀ path ∈ CATEGORIES, '_' ∉ path.toList := by decide +kernel
  refine nodup_numbered hpaths fun path hpath path' hpath' i hi j hj h => ?_
  obtain ⟨hslug, hij⟩ := id_inj hi hj h
  exact ⟨slug_inj (hplain path hpath) (hplain path' hpath') hslug, hij⟩

theorem nodup_userIds : userIds.Nodup := by
  have hsegments : USER_SEGMENTS.Nodup := by decide
  exact nodup_numbered hsegments fun segment _ segment' _ i hi j hj h => id_inj hi hj h

/-- The catalogue has as many items as the guard of the seeder asks for. -/
theorem length_itemIds : itemIds.length = TARGET_ITEMS := length_numbered itemId CATEGORIES ITEMS_PER_CATEGORY

end ClickRec.Seed
