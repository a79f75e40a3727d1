import ClickRec.Ranker.ScoreTable

/-! # Which tables `score` takes

The running length starts at 0, which is also what an empty column leaves it at. So an empty column
before longer ones is not noticed, and the loop over the rows runs into it. -/
namespace ClickRec.Ranker
set_option autoImplicit false

variable {K : Type} {features : Features K}

/-! ## What the columns are, in the order in which they are read -/

/-- All these columns are there and of this length. -/
def Uniform (features : Features K) (n : ℕ) (names : List String) : Prop :=
  ∀ name ∈ names, ∃ col, features name = some col ∧ col.length = n

/-- A missing column is met before two columns of different lengths have been read. -/
def MissingFirst (features : Features K) : Prop :=
  ∃ pre name post n, FEATURE_NAMES = pre ++ name :: post ∧ Uniform features n pre ∧
    features name = none

/-- Two columns of different lengths are met before any missing one. -/
def MismatchFirst (features : Features K) : Prop :=
  ∃ pre name post n col, FEATURE_NAMES = pre ++ name :: post ∧ pre ≠ [] ∧ Uniform features n pre ∧
    features name = some col ∧ col.length ≠ n

/-- The columns before the first missing one, if any is, are empty ones followed by ones of another
length. -/
def EmptyThenEqual (features : Features K) : Prop :=
  ∃ empty full rest n, FEATURE_NAMES = empty ++ full ++ rest ∧ empty ≠ [] ∧ full ≠ [] ∧ 0 < n ∧
    Uniform features 0 empty ∧ Uniform features n full ∧
    ∀ name ∈ rest.head?, features name = none

theorem Uniform.append {n : ℕ} {names names' : List String} (h : Uniform features n names)
    (h' : Uniform features n names') : Uniform features n (names ++ names') := by
  intro name hname
  obtain hname | hname := List.mem_append.mp hname
  · exact h name hname
  · exact h' name hname

theorem Uniform.singleton {name : String} {col : List (Option K)} (h : features name = some col) :
    Uniform features col.length [name] := by
  intro other hother
  rw [List.mem_singleton.mp hother]
  exact ⟨col, h, rfl⟩

/-- Columns of one length, up to the first that is missing or of another length. -/
theorem exists_uniform_prefix (features : Features K) (n : ℕ) (names : List String) :
    ∃ pre rest, names = pre ++ rest ∧ Uniform features n pre ∧
      (rest = [] ∨ ∃ name post, rest = name :: post ∧
        ∀ col, features name = some col → col.length ≠ n) := by
  induction names with
  | nil => exact ⟨[], [], rfl, by simp [Uniform], .inl rfl⟩
  | cons name names ih =>
    by_cases h : ∃ col, features name = some col ∧ col.length = n
    · obtain ⟨pre, rest, rfl, hpre, hrest⟩ := ih
      refine ⟨name :: pre, rest, rfl, fun other hother => ?_, hrest⟩
      obtain rfl | hother := List.mem_cons.mp hother
      · exact h
      · exact hpre other hother
    · refine ⟨[], name :: names, rfl, by simp [Uniform], .inr ⟨name, names, rfl, ?_⟩⟩
      exact fun col hcol hn => h ⟨col, hcol, hn⟩

/-- A table without the two faults has seven columns of one length. -/
theorem uniform_of_faultless (hmissing : ¬ MissingFirst features) (hmismatch : ¬ MismatchFirst features) :
    ∃ n, Uniform features n FEATURE_NAMES := by
  cases hfirst : features "bm25" with
  | none => exact absurd ⟨[], "bm25", _, 0, rfl, by simp [Uniform], hfirst⟩ hmissing
  | some col =>
    obtain ⟨pre, rest, hnames, hpre, hrest⟩ :=
      exists_uniform_prefix features col.length FEATURE_NAMES
    obtain rfl | ⟨name, post, rfl, hname⟩ := hrest
    · rw [List.append_nil] at hnames
      exact ⟨col.length, hnames ▸ hpre⟩
    · exfalso
      cases hcol : features name with
      | none => exact hmissing ⟨pre, name, post, col.length, hnames, hpre, hcol⟩
      | some col' =>
        refine hmismatch ⟨pre, name, post, col.length, col', hnames, ?_, hpre, hcol, hname col' hcol⟩
        -- the first column is of its own length
        rintro rfl
        obtain ⟨rfl, -⟩ : "bm25" = name ∧ _ := List.cons.inj hnames
        exact hname col hfirst rfl

theorem EmptyThenEqual.mismatchFirst (h : EmptyThenEqual features) : MismatchFirst features := by
  obtain ⟨empty, full, rest, n, hnames, hempty, hfull, hn, huniform, huniform', -⟩ := h
  obtain ⟨name, full, rfl⟩ := List.exists_cons_of_ne_nil hfull
  obtain ⟨col, hcol, hlength⟩ := huniform' name List.mem_cons_self
  refine ⟨empty, name, full ++ rest, 0, col, by simpa using hnames, hempty, huniform, hcol, ?_⟩
  omega

/-! ## The check -/

theorem foldlM_uniform {n : ℕ} {pre : List String} (h : Uniform features n pre) (hne : pre ≠ []) :
    pre.foldlM (checkColumn features) 0 = .ok n := by
  obtain ⟨name, names, rfl⟩ := List.exists_cons_of_ne_nil hne
  obtain ⟨col, hcol, rfl⟩ := h name List.mem_cons_self
  rw [List.foldlM_cons, (checkColumn_eq hcol).1]
  exact foldlM_checkColumn fun other hother => h other (List.mem_cons_of_mem _ hother)

theorem checkColumn_missing {name : String} (h : features name = none) (n : ℕ) :
    checkColumn features n name =
      .error ⟨"KeyError", "missing feature column: " ++ name, ""⟩ := by
  rw [checkColumn, h]
  rfl

theorem checkColumn_mismatch {name : String} {col : List (Option K)} (h : features name = some col)
    {n : ℕ} (hn : 0 < n) (hne : col.length ≠ n) : ∃ e, checkColumn features n name = .error e ∧
      e.cls = "ValueError" := by
  rw [checkColumn, h]
  simp only [hn.ne', hne, if_false]
  exact ⟨_, rfl, rfl⟩

variable [Field K] [LinearOrder K] (cfg : RankerConfig K)

theorem score_raises {pre post : List String} {name : String} {n : ℕ} {e : PyError}
    (hnames : FEATURE_NAMES = pre ++ name :: post)
    (hpre : pre.foldlM (checkColumn features) 0 = .ok n)
    (hname : checkColumn features n name = .error e) : score features cfg = .error e := by
  unfold score
  rw [hnames, List.foldlM_append, hpre]
  change (List.foldlM (checkColumn features) n (name :: post) >>= _) = _
  rw [List.foldlM_cons, hname]
  rfl

/-! ## What comes of each fault -/

def Raises (features : Features K) (cfg : RankerConfig K) (cls : String) : Prop :=
  ∃ e, score features cfg = .error e ∧ e.cls = cls

theorem Raises.unique {cfg : RankerConfig K} {cls cls' : String} (h : Raises features cfg cls)
    (h' : Raises features cfg cls') : cls = cls' := by
  obtain ⟨e, he, rfl⟩ := h
  obtain ⟨e', he', rfl⟩ := h'
  rw [Except.error.inj (he.symm.trans he')]

theorem MissingFirst.raises (h : MissingFirst features) : Raises features cfg "KeyError" := by
  obtain ⟨pre, name, post, n, hnames, hpre, hname⟩ := h
  cases pre with
  | nil => exact ⟨_, score_raises cfg hnames rfl (checkColumn_missing hname 0), rfl⟩
  | cons other pre =>
    have hread := foldlM_uniform hpre (List.cons_ne_nil _ _)
    exact ⟨_, score_raises cfg hnames hread (checkColumn_missing hname n), rfl⟩

theorem MismatchFirst.raises (h : MismatchFirst features) (hnot : ¬ EmptyThenEqual features) :
    Raises features cfg "ValueError" := by
  obtain ⟨pre, name, post, n, col, hnames, hne, hpre, hcol, hlength⟩ := h
  have hread := foldlM_uniform hpre hne
  obtain rfl | hn := Nat.eq_zero_or_pos n
  · -- the length is now that of this column, which the check of a later one has to notice
    have hpos : 0 < col.length := Nat.pos_of_ne_zero hlength
    obtain ⟨full, rest, rfl, hfull, hrest⟩ := exists_uniform_prefix features col.length post
    have huniform : Uniform features col.length (name :: full) := (Uniform.singleton hcol).append hfull
    have hsplit : FEATURE_NAMES = pre ++ (name :: full) ++ rest := by simpa using hnames
    have hreadOn : (pre ++ name :: full).foldlM (checkColumn features) 0 = .ok col.length := by
      rw [List.foldlM_append, hread]
      exact foldlM_uniform huniform (List.cons_ne_nil _ _)
    obtain rfl | ⟨other, post, rfl, hother⟩ := hrest
    · exact absurd ⟨pre, name :: full, [], col.length, hsplit, hne, List.cons_ne_nil _ _, hpos, hpre,
        huniform, by simp⟩ hnot
    · cases hfeature : features other with
      | none =>
        refine absurd ⟨pre, name :: full, other :: post, col.length, hsplit, hne, List.cons_ne_nil _ _,
          hpos, hpre, huniform, ?_⟩ hnot
        intro first hfirst
        obtain rfl : other = first := by simpa using hfirst
        exact hfeature
      | some col' =>
        obtain ⟨e, he, hcls⟩ := checkColumn_mismatch hfeature hpos (hother col' hfeature)
        exact ⟨e, score_raises cfg hsplit hreadOn he, hcls⟩
  · obtain ⟨e, he, hcls⟩ := checkColumn_mismatch hcol hn hlength
    exact ⟨e, score_raises cfg hnames hread he, hcls⟩

/-- The empty column is found missing by the loop over the rows, unless another one is missing before. -/
theorem EmptyThenEqual.raises (h : EmptyThenEqual features) :
    Raises features cfg "KeyError" ∨ Raises features cfg "IndexError" := by
  obtain ⟨empty, full, rest, n, hnames, hempty, hfull, hn, huniform, huniform', hrest⟩ := h
  have hread : (empty ++ full).foldlM (checkColumn features) 0 = .ok n := by
    rw [List.foldlM_append, foldlM_uniform huniform hempty]
    exact foldlM_uniform huniform' hfull
  cases rest with
  | cons name post =>
    have hname := hrest name rfl
    exact .inl ⟨_, score_raises cfg hnames hread (checkColumn_missing hname n), rfl⟩
  | nil =>
    rw [List.append_nil] at hnames
    obtain ⟨first, empty, rfl⟩ := List.exists_cons_of_ne_nil hempty
    obtain ⟨rfl, -⟩ : "bm25" = first ∧ _ := List.cons.inj hnames
    obtain ⟨col, hcol, hlength⟩ := huniform "bm25" List.mem_cons_self
    have hshort : addFeature features cfg (List.replicate n (0, [])) "bm25" =
        .error ⟨"IndexError", "list index out of range", ""⟩ := by
      rw [addFeature, hcol, Option.getD_some, minMax_eq_map]
      simp only [List.length_map, List.length_replicate, hlength, hn, if_true]
      rfl
    refine .inr ⟨⟨"IndexError", "list index out of range", ""⟩, ?_, rfl⟩
    unfold score
    rw [hnames, hread]
    show (if n = 0 then pure [] else _) = _
    rw [if_neg hn.ne', List.cons_append, List.foldlM_cons, hshort]
    rfl

/-! ## Complete validation -/

/-- What is promised of `score` on a table. -/
structure Validates (features : Features K) (cfg : RankerConfig K) : Prop where
  key_error : Raises features cfg "KeyError" ↔ MissingFirst features
  value_error : Raises features cfg "ValueError" ↔ MismatchFirst features
  scored : ¬ MissingFirst features → ¬ MismatchFirst features →
    ∃ n scored, Uniform features n FEATURE_NAMES ∧ score features cfg = .ok scored ∧
      scored.length = n ∧ ∀ row ∈ scored, row.2.map Prod.fst = FEATURE_NAMES
  no_other : ∀ cls, Raises features cfg cls → cls = "KeyError" ∨ cls = "ValueError"

theorem score_uniform {n : ℕ} (h : Uniform features n FEATURE_NAMES) :
    ∃ scored, score features cfg = .ok scored ∧ scored.length = n ∧
      ∀ row ∈ scored, row.2.map Prod.fst = FEATURE_NAMES := by
  let value : String → ℕ → Option K := fun name i => ((features name).getD [])[i]?.join
  have htable : ∀ name ∈ FEATURE_NAMES, features name = some ((List.range n).map (value name)) := by
    intro name hname
    obtain ⟨col, hcol, hn⟩ := h name hname
    rw [hcol, column_eq_map hn]
    simp [value, hcol]
  refine ⟨_, score_eq htable, by simp, fun row hrow => ?_⟩
  obtain ⟨i, -, rfl⟩ := List.mem_map.mp hrow
  rw [scoredRow, List.map_map]
  exact List.map_id FEATURE_NAMES

/-- **The validation is complete** exactly for the tables that are not empty columns followed by ones of
another length. -/
theorem score_validates_iff (features : Features K) (cfg : RankerConfig K) :
    Validates features cfg ↔ ¬ EmptyThenEqual features := by
  constructor
  · intro h hempty
    have hvalue := h.value_error.mpr hempty.mismatchFirst
    obtain hkey | hindex := hempty.raises cfg
    · exact absurd (hkey.unique hvalue) (by decide)
    · exact absurd (hindex.unique hvalue) (by decide)
  · intro hnot
    by_cases hmissing : MissingFirst features
    · have hkey := hmissing.raises cfg
      have hvalue : ¬ Raises features cfg "ValueError" := fun h => absurd (hkey.unique h) (by decide)
      have hmismatch : ¬ MismatchFirst features := fun h => hvalue (h.raises cfg hnot)
      exact ⟨iff_of_true hkey hmissing, iff_of_false hvalue hmismatch,
        fun h => absurd hmissing h, fun cls h => .inl (h.unique hkey)⟩
    · by_cases hmismatch : MismatchFirst features
      · have hvalue := hmismatch.raises cfg hnot
        have hkey : ¬ Raises features cfg "KeyError" := fun h => absurd (h.unique hvalue) (by decide)
        exact ⟨iff_of_false hkey hmissing, iff_of_true hvalue hmismatch,
          fun _ h => absurd hmismatch h, fun cls h => .inr (h.unique hvalue)⟩
      · obtain ⟨n, hn⟩ := uniform_of_faultless hmissing hmismatch
        obtain ⟨scored, hscored, hrows⟩ := score_uniform cfg hn
        have hno : ∀ cls, ¬ Raises features cfg cls := by
          rintro cls ⟨e, he, -⟩
          rw [hscored] at he
          cases he
        exact ⟨iff_of_false (hno _) hmissing, iff_of_false (hno _) hmismatch,
          fun _ _ => ⟨n, scored, hn, hscored, hrows⟩, fun cls h => absurd h (hno cls)⟩

/-- The first column is empty, the others have one value. -/
def emptyBm25 : Features ℚ := fun name => if name = "bm25" then some [] else some [some 1]

/-- Columns of different lengths raise something else than a `ValueError`. -/
theorem emptyBm25_not_noticed : ¬ Validates emptyBm25 defaultRankerConfig := by
  intro h
  have hmismatch : MismatchFirst emptyBm25 :=
    ⟨["bm25"], "vector", _, 0, [some 1], rfl, by simp, by simp [Uniform, emptyBm25], rfl, by simp⟩
  have hindex : Raises emptyBm25 defaultRankerConfig "IndexError" := ⟨_, rfl, rfl⟩
  exact absurd (hindex.unique (h.value_error.mpr hmismatch)) (by decide)

end ClickRec.Ranker
