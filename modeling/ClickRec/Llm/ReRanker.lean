import ClickRec.Lib.PyList
import ClickRec.Llm.Prompts
import ClickRec.Models
import Mathlib.Data.List.Sort

/-! # The LLM re-ranker

The model's answer is any value of the schema: it may name items twice, name unknown ones and give
ranks with ties and gaps. The reordered list keeps the first element of each id, of the mentions by
rank followed by the candidates. -/
namespace ClickRec.Llm
set_option autoImplicit false

/-! ## Data -/

structure RankedItemDTO where
  item : ItemDTO
  score : ℚ
  score_breakdown : List (String × ℚ)
  llm_rationale : Option String
  deriving DecidableEq

def RankedItemDTO.id (c : RankedItemDTO) : String := c.item.id

structure RerankItem where
  item_id : String
  rank : ℤ
  rationale : String
  rank_ge : 1 ≤ rank
  rationale_le : rationale.length ≤ 200

structure RerankResult where
  items : List RerankItem
  min_length : 1 ≤ items.length
  max_length : items.length ≤ 50

structure LLMConfig where
  re_rank_timeout : ℚ
  re_rank_top_k : ℤ
  re_rank_input_k : ℤ

def defaultLLMConfig : LLMConfig where
  re_rank_timeout := 2
  re_rank_top_k := 10
  re_rank_input_k := 20

/-- The exceptions of the LLM layer; the last is the base class. -/
inductive LLMFailure where
  | timeout
  | unavailable
  | parse
  | error

structure GeminiClient where
  generate_json : (prompt : String) → (timeout : ℚ) → Except LLMFailure RerankResult

/-! ## The prompt -/

/-- The first three features by value; the sort is stable in reverse as well. -/
def topFeatures (breakdown : List (String × ℚ)) : List (String × ℚ) :=
  (breakdown.insertionSort fun kv kv' => kv'.2 ≤ kv.2).take 3

def candidateLine (c : RankedItemDTO) : String :=
  let feats := ", ".intercalate ((topFeatures c.score_breakdown).map fun kv =>
    kv.1 ++ "=" ++ fixed2 kv.2)
  c.item.id ++ " | " ++ c.item.title ++ " | " ++ c.item.category ++ " | " ++ c.item.brand ++
    " | $" ++ fixed2 c.item.price ++ " | " ++ if feats = "" then "—" else feats

def formatCandidateBlock (candidates : List RankedItemDTO) : String :=
  "\n".intercalate (candidates.map candidateLine)

/-- Python's `summary or default`. -/
def orDefault (summary : Option String) (default : String) : String :=
  match summary with
  | none => default
  | some s => if s = "" then default else s

def rerankArgs (query : String) (top_k : ℤ) (user_profile_summary : Option String)
    (candidate_block : String) : String → String
  | "query" => query
  | "top_k" => toString top_k
  | "user_profile" => orDefault user_profile_summary "(no recent activity)"
  | "candidate_block" => candidate_block
  | _ => ""

/-! ## `_reorder` -/

/-- The two variables of the loops. -/
structure Reordering where
  out : List RankedItemDTO
  seen : Finset String
  seen_eq : seen = (out.map (·.id)).toFinset
  distinct : (out.map (·.id)).Nodup

namespace Reordering

def start : Reordering := ⟨[], ∅, rfl, List.nodup_nil⟩

def add (s : Reordering) (cand : RankedItemDTO) (h : cand.id ∉ s.seen) : Reordering where
  out := s.out ++ [cand]
  seen := insert cand.id s.seen
  seen_eq := by
    rw [s.seen_eq, List.map_append, List.toFinset_append, Finset.union_comm]
    rfl
  distinct := by
    rw [s.seen_eq, List.mem_toFinset] at h
    rw [List.map_append]
    exact List.Nodup.append s.distinct (List.nodup_singleton _) (by simpa using h)

def takePick (by_id : String → Option RankedItemDTO) (s : Reordering) (pick : RerankItem) :
    Reordering :=
  match by_id pick.item_id with
  | none => s
  | some cand =>
    if h : cand.id ∈ s.seen then s
    else s.add { cand with llm_rationale := some pick.rationale } h

def takeLeftover (s : Reordering) (cand : RankedItemDTO) : Reordering :=
  if h : cand.id ∈ s.seen then s else s.add cand h

end Reordering

def sortedPicks (rerank : RerankResult) : List RerankItem :=
  rerank.items.insertionSort fun it it' => it.rank ≤ it'.rank

def reorder (candidates : List RankedItemDTO) (rerank : RerankResult) : List RankedItemDTO :=
  let by_id := PyList.dictOf RankedItemDTO.id id candidates
  let picked := (sortedPicks rerank).foldl (Reordering.takePick by_id) Reordering.start
  (candidates.foldl Reordering.takeLeftover picked).out

/-! ## `rerank_top_k` -/

/-- What a call returns, and the reasons it counts in `llm_fallback_total`. -/
structure Reranked where
  result : Option (List RankedItemDTO)
  fallback : List String

/-- Without an API key there is no client. -/
def rerankTopK (get_client : Option GeminiClient) (query : String)
    (candidates : List RankedItemDTO) (user_profile_summary : Option String) (cfg : LLMConfig) :
    Reranked :=
  if candidates.isEmpty then ⟨none, []⟩
  else
    let head := PyList.sliceTo candidates cfg.re_rank_input_k
    let prompt := format RERANK_PROMPT <|
      rerankArgs query cfg.re_rank_top_k user_profile_summary (formatCandidateBlock head)
    match get_client with
    | none => ⟨none, ["unavailable"]⟩
    | some client =>
      match client.generate_json prompt cfg.re_rank_timeout with
      | .error .timeout => ⟨none, ["timeout"]⟩
      | .error .parse => ⟨none, ["parse_error"]⟩
      | .error _ => ⟨none, ["error"]⟩
      | .ok rerank => ⟨some (reorder head rerank), []⟩

theorem rerankTopK_answered {client : GeminiClient} {candidates : List RankedItemDTO}
    {rerank : RerankResult} (query : String) (user_profile_summary : Option String)
    (cfg : LLMConfig) (hne : ¬ candidates.isEmpty)
    (hjson : ∀ prompt timeout, client.generate_json prompt timeout = .ok rerank) :
    (rerankTopK (some client) query candidates user_profile_summary cfg).result =
      some (reorder (PyList.sliceTo candidates cfg.re_rank_input_k) rerank) := by
  rw [rerankTopK, if_neg hne]
  simp only [hjson]

/-! ## The reordered list -/

/-- The candidate a pick names, with the rationale of the pick. -/
def mention (candidates : List RankedItemDTO) (pick : RerankItem) : Option RankedItemDTO :=
  (PyList.dictOf RankedItemDTO.id id candidates pick.item_id).map fun cand =>
    { cand with llm_rationale := some pick.rationale }

def mentions (candidates : List RankedItemDTO) (rerank : RerankResult) : List RankedItemDTO :=
  (sortedPicks rerank).filterMap (mention candidates)

namespace Reordering

theorem add_out (s : Reordering) (cand entry : RankedItemDTO) (hid : entry.id = cand.id) :
    (if h : cand.id ∈ s.seen then s else s.add entry (hid ▸ h)).out =
      PyList.pushNew RankedItemDTO.id s.out entry := by
  have hseen : cand.id ∈ s.seen ↔ entry.id ∈ s.out.map RankedItemDTO.id := by
    rw [s.seen_eq, List.mem_toFinset, hid]
  rw [PyList.pushNew]
  by_cases h : cand.id ∈ s.seen
  · rw [dif_pos h, if_pos (hseen.mp h)]
  · rw [dif_neg h, if_neg (hseen.not.mp h)]
    rfl

theorem takePick_out (candidates : List RankedItemDTO) (s : Reordering) (pick : RerankItem) :
    (takePick (PyList.dictOf RankedItemDTO.id id candidates) s pick).out =
      (mention candidates pick).elim s.out (PyList.pushNew RankedItemDTO.id s.out) := by
  unfold takePick mention
  cases PyList.dictOf RankedItemDTO.id id candidates pick.item_id with
  | none => rfl
  | some cand => exact add_out s cand { cand with llm_rationale := some pick.rationale } rfl

theorem takePick_fold (candidates : List RankedItemDTO) (picks : List RerankItem)
    (s : Reordering) :
    (picks.foldl (takePick (PyList.dictOf RankedItemDTO.id id candidates)) s).out =
      (picks.filterMap (mention candidates)).foldl (PyList.pushNew RankedItemDTO.id) s.out := by
  induction picks generalizing s with
  | nil => rfl
  | cons pick picks ih =>
    rw [List.foldl_cons, ih, takePick_out, List.filterMap_cons]
    cases mention candidates pick with
    | none => rfl
    | some entry => rfl

theorem takeLeftover_fold (candidates : List RankedItemDTO) (s : Reordering) :
    (candidates.foldl takeLeftover s).out =
      candidates.foldl (PyList.pushNew RankedItemDTO.id) s.out := by
  induction candidates generalizing s with
  | nil => rfl
  | cons cand candidates ih =>
    rw [List.foldl_cons, ih, takeLeftover, add_out s cand cand rfl]
    rfl

end Reordering

/-- The loops keep the first element of each id, mentions before candidates. -/
theorem reorder_eq (candidates : List RankedItemDTO) (rerank : RerankResult) :
    reorder candidates rerank =
      PyList.keepFirst RankedItemDTO.id (mentions candidates rerank ++ candidates) := by
  unfold reorder PyList.keepFirst mentions
  rw [List.foldl_append, Reordering.takeLeftover_fold, Reordering.takePick_fold]
  rfl

/-- A mention is a candidate with another rationale. -/
theorem mention_eq_some {candidates : List RankedItemDTO} {pick : RerankItem}
    {entry : RankedItemDTO} (hdistinct : (candidates.map (·.id)).Nodup)
    (h : mention candidates pick = some entry) :
    ∃ c ∈ candidates, c.id = pick.item_id ∧
      entry = { c with llm_rationale := some pick.rationale } := by
  obtain ⟨cand, hcand, rfl⟩ := Option.map_eq_some_iff.mp h
  obtain ⟨c, hc, hid, rfl⟩ := (PyList.dictOf_eq_some hdistinct).mp hcand
  exact ⟨c, hc, hid, rfl⟩

/-- Every element of the reordered list is a candidate but for its rationale. -/
theorem mem_reorder {candidates : List RankedItemDTO} {rerank : RerankResult}
    {entry : RankedItemDTO} (hdistinct : (candidates.map (·.id)).Nodup)
    (h : entry ∈ reorder candidates rerank) :
    ∃ c ∈ candidates, entry = { c with llm_rationale := entry.llm_rationale } := by
  rw [reorder_eq] at h
  obtain hmention | hcand := List.mem_append.mp (PyList.mem_of_mem_keepFirst h)
  · obtain ⟨pick, -, hpick⟩ := List.mem_filterMap.mp hmention
    obtain ⟨c, hc, -, rfl⟩ := mention_eq_some hdistinct hpick
    exact ⟨c, hc, rfl⟩
  · exact ⟨entry, hcand, rfl⟩

theorem nodup_reorder (candidates : List RankedItemDTO) (rerank : RerankResult) :
    ((reorder candidates rerank).map (·.id)).Nodup :=
  Reordering.distinct _

/-- No candidate is lost: the ids of the reordered list are those of the candidates. -/
theorem reorder_perm {candidates : List RankedItemDTO} (hdistinct : (candidates.map (·.id)).Nodup)
    (rerank : RerankResult) :
    ((reorder candidates rerank).map (·.id)).Perm (candidates.map (·.id)) := by
  refine (List.perm_ext_iff_of_nodup (nodup_reorder candidates rerank) hdistinct).mpr fun k => ?_
  constructor
  · intro hk
    obtain ⟨entry, hentry, rfl⟩ := List.mem_map.mp hk
    obtain ⟨c, hc, heq⟩ := mem_reorder hdistinct hentry
    rw [heq]
    exact List.mem_map.mpr ⟨c, hc, rfl⟩
  · intro hk
    rw [reorder_eq]
    refine PyList.mem_keys_keepFirst.mpr ?_
    rw [List.map_append]
    exact List.mem_append_right _ hk

theorem length_reorder {candidates : List RankedItemDTO}
    (hdistinct : (candidates.map (·.id)).Nodup) (rerank : RerankResult) :
    (reorder candidates rerank).length = candidates.length := by
  simpa using (reorder_perm hdistinct rerank).length_eq

theorem isEmpty_reorder {candidates : List RankedItemDTO}
    (hdistinct : (candidates.map (·.id)).Nodup) (rerank : RerankResult) :
    (reorder candidates rerank).isEmpty = candidates.isEmpty := by
  rw [Bool.eq_iff_iff, List.isEmpty_iff_length_eq_zero, List.isEmpty_iff_length_eq_zero,
    length_reorder hdistinct]

end ClickRec.Llm
