import ClickRec.Llm.Client

/-! # Failing open

Whatever the provider does, the callers of `GeminiClient` return None or a value of the schema, except
where `json.loads` raises something else than a `JSONDecodeError` on the text they have to read: a
`RecursionError` or a plain `ValueError` passes every handler of the layer. -/
namespace ClickRec.Llm.Client
set_option autoImplicit false

/-! ## One call -/

section Call
variable {α : Type} {json : JsonLib} {schema : Schema α}

/-- If the text of the response has to be read, `json.loads` returns a value or raises a
`JSONDecodeError` on it. -/
def Readable (json : JsonLib) (schema : Schema α) (outcome : SdkOutcome α) : Prop :=
  ∀ r, outcome = .response r → fromParsed schema r = none → extractText r ≠ "" →
    ∀ e, json.loads (extractText r) = .error e → e.cls = "JSONDecodeError"

theorem parseText_ok_iff {text : String} : (∃ v, parseText json schema text = .ok v) ↔
    (text ≠ "" → ∀ e, json.loads text = .error e → e.cls = "JSONDecodeError") := by
  unfold parseText
  by_cases htext : text = ""
  · simp [htext]
  · rw [if_neg htext]
    cases hloads : json.loads text with
    | ok payload => simp
    | error e =>
      by_cases he : e.cls = "JSONDecodeError"
      · simp [he]
      · simp [he, htext]

theorem parseStructured_ok_iff {r : GenerateResponse α} :
    (∃ v, parseStructured json schema r = .ok v) ↔ Readable json schema (.response r) := by
  rw [parseStructured]
  cases hparsed : fromParsed schema r with
  | some value =>
    refine iff_of_true ⟨_, rfl⟩ fun r' hr' hnone => ?_
    obtain rfl := SdkOutcome.response.inj hr'
    rw [hparsed] at hnone
    cases hnone
  | none =>
    simp only [parseText_ok_iff]
    constructor
    · intro h r' hr' _ htext
      obtain rfl := SdkOutcome.response.inj hr'
      exact h htext
    · exact fun h htext => h r rfl hparsed htext

/-- A caller's `except` clauses take everything that a call ends with, unless it escapes. -/
theorem failOpen_ok_iff (reason : LLMFailure → String) (outcome : SdkOutcome α) :
    (∃ a, failOpen reason (generateJson json schema outcome) = .ok a) ↔
      Readable json schema outcome := by
  cases outcome with
  | timeout => exact iff_of_true ⟨_, rfl⟩ fun r hr => by cases hr
  | raised e => exact iff_of_true ⟨_, rfl⟩ fun r hr => by cases hr
  | response r =>
    rw [← parseStructured_ok_iff, generateJson]
    cases hparse : parseStructured json schema r with
    | error e => simp [failOpen]
    | ok v =>
      cases v with
      | none => exact iff_of_true ⟨_, rfl⟩ ⟨_, rfl⟩
      | some value => exact iff_of_true ⟨_, rfl⟩ ⟨_, rfl⟩

theorem exists_map_ok {ε β γ : Type} {f : β → γ} {x : Except ε β} :
    (∃ c, x.map f = .ok c) ↔ ∃ b, x = .ok b := by
  cases x with
  | error e => simp [Except.map]
  | ok b => simp [Except.map]

end Call

/-! ## The callers -/

variable {env : LlmEnv}

theorem rerankTopK_ok_iff (query : String) (candidates : List RankedItemDTO)
    (user_profile_summary : Option String) (cfg : Config) :
    (∃ r, rerankTopK env query candidates user_profile_summary cfg = .ok r) ↔
      (candidates ≠ [] → ∀ client, env.get_client = some client →
        Readable env.json env.rerank_schema (client.rerank env.runtime_model
          (rerankPrompt query candidates user_profile_summary cfg) cfg.re_rank_timeout)) := by
  unfold rerankTopK
  cases candidates with
  | nil => simp
  | cons c cs =>
    cases hclient : env.get_client with
    | none => simp
    | some client => simp [exists_map_ok, failOpen_ok_iff]

theorem understandQuery_ok_iff (query : String) (redis_client : Option IntentCache) (cfg : Config) :
    (∃ r, understandQuery env query redis_client cfg = .ok r) ↔
      ((fromCache env (cachedRaw redis_client (cacheKey env query))).1 = none →
        ∀ client, env.get_client = some client →
          Readable env.json env.intent_schema (client.intent env.runtime_model
            (intentPrompt query) cfg.query_understanding_timeout)) := by
  simp only [understandQuery]
  rcases fromCache env (cachedRaw redis_client (cacheKey env query)) with ⟨_ | intent, hit⟩
  · cases hclient : env.get_client with
    | none => simp
    | some client => simp [exists_map_ok, failOpen_ok_iff]
  · simp

theorem judgeRanking_ok_iff (query : String) (ranked_top_10 : List (List (String × String)))
    (cfg : Config) :
    (∃ r, judgeRanking env query ranked_top_10 cfg = .ok r) ↔
      (ranked_top_10 ≠ [] → ∀ client, env.get_client = some client →
        Readable env.json env.verdict_schema (client.verdict env.judge_model
          (judgePrompt query ranked_top_10) cfg.judge_timeout)) := by
  unfold judgeRanking
  cases ranked_top_10 with
  | nil => simp
  | cons it items =>
    cases hclient : env.get_client with
    | none => simp
    | some client => simp [exists_map_ok, failOpen_ok_iff]

/-- A call that does not raise is a call of the re-ranker over a client that raises only `LLMError`s. -/
theorem rerankTopK_eq {query : String} {candidates : List RankedItemDTO}
    {user_profile_summary : Option String} {cfg : Config} {client : Provider}
    (hclient : env.get_client = some client) {r : Reranked}
    (h : rerankTopK env query candidates user_profile_summary cfg = .ok r) :
    ∃ gemini : GeminiClient,
      r = Llm.rerankTopK (some gemini) query candidates user_profile_summary cfg.toLLMConfig := by
  unfold rerankTopK at h
  by_cases hempty : candidates.isEmpty = true
  · rw [if_pos hempty] at h
    refine ⟨⟨fun _ _ => .error .error⟩, ?_⟩
    rw [Llm.rerankTopK, if_pos hempty]
    exact (Except.ok.inj h).symm
  · rw [if_neg hempty, hclient] at h
    simp only [failOpen] at h
    cases hcall : (generateJson env.json env.rerank_schema (client.rerank env.runtime_model
        (rerankPrompt query candidates user_profile_summary cfg) cfg.re_rank_timeout)).result with
    | ok result =>
      rw [hcall] at h
      refine ⟨⟨fun _ _ => .ok result.parsed⟩, ?_⟩
      rw [Llm.rerankTopK, if_neg hempty]
      exact (Except.ok.inj h).symm
    | error err =>
      cases err with
      | escaped e =>
        rw [hcall] at h
        cases h
      | llm e =>
        rw [hcall] at h
        refine ⟨⟨fun _ _ => .error e⟩, ?_⟩
        rw [Llm.rerankTopK, if_neg hempty]
        cases e with
        | timeout => exact (Except.ok.inj h).symm
        | unavailable => exact (Except.ok.inj h).symm
        | parse => exact (Except.ok.inj h).symm
        | error => exact (Except.ok.inj h).symm

/-- The layer fails open on what the provider does if and only if, where the text of a response has to
be read, `json.loads` raises nothing but a `JSONDecodeError` on it. -/
theorem llm_fails_open_iff (env : LlmEnv) (cfg : Config) :
    (∀ query candidates user_profile_summary,
      (∃ r, rerankTopK env query candidates user_profile_summary cfg = .ok r) ↔
        (candidates ≠ [] → ∀ client, env.get_client = some client →
          Readable env.json env.rerank_schema (client.rerank env.runtime_model
            (rerankPrompt query candidates user_profile_summary cfg) cfg.re_rank_timeout))) ∧
    (∀ query redis_client,
      (∃ r, understandQuery env query redis_client cfg = .ok r) ↔
        ((fromCache env (cachedRaw redis_client (cacheKey env query))).1 = none →
          ∀ client, env.get_client = some client →
            Readable env.json env.intent_schema (client.intent env.runtime_model
              (intentPrompt query) cfg.query_understanding_timeout))) ∧
    ∀ query ranked_top_10,
      (∃ r, judgeRanking env query ranked_top_10 cfg = .ok r) ↔
        (ranked_top_10 ≠ [] → ∀ client, env.get_client = some client →
          Readable env.json env.verdict_schema (client.verdict env.judge_model
            (judgePrompt query ranked_top_10) cfg.judge_timeout)) :=
  ⟨fun query candidates summary => rerankTopK_ok_iff query candidates summary cfg,
    fun query redis_client => understandQuery_ok_iff query redis_client cfg,
    fun query ranked_top_10 => judgeRanking_ok_iff query ranked_top_10 cfg⟩

/-! ## A number of too many digits -/

/-- `loads` raises a `JSONDecodeError`, a `RecursionError` on deep nesting, or a plain `ValueError` on
an integer literal of too many digits. -/
def JsonLib.Documented (json : JsonLib) : Prop :=
  ∀ text e, json.loads text = .error e →
    e.cls = "JSONDecodeError" ∨ e.cls = "RecursionError" ∨ e.cls = "ValueError"

/-- A JSON document that is one integer literal. -/
def ones (n : ℕ) : String := String.ofList (List.replicate n '1')

def digitLimitError : PyError :=
  ⟨"ValueError", "Exceeds the limit (4300 digits) for integer string conversion: value has 4301 " ++
    "digits; use sys.set_int_max_str_digits() to increase the limit", ""⟩

/-- `json.loads` of one integer literal longer than the digit limit; of nothing else here. -/
def digitLimited : JsonLib where
  loads text := if text = ones 4301 then .error digitLimitError
    else .error ⟨"JSONDecodeError", "Expecting value: line 1 column 1 (char 0)", ""⟩
  loads_bytes _ := .error ⟨"JSONDecodeError", "Expecting value: line 1 column 1 (char 0)", ""⟩
  dumps _ := ""

/-- Its text is the number. -/
def digitsProvider : Provider where
  rerank _ _ _ := .response ⟨.other, some (ones 4301), [], none⟩
  intent _ _ _ := .timeout
  verdict _ _ _ := .timeout

def digitsEnv : LlmEnv where
  json := digitLimited
  rerank_schema := ⟨fun _ => none⟩
  intent_schema := ⟨fun _ => none⟩
  verdict_schema := ⟨fun _ => none⟩
  sha256 _ := []
  lower := id
  runtime_model := "gemini-2.5-flash"
  judge_model := "gemini-2.5-pro"
  get_client := some digitsProvider

def runner : RankedItemDTO where
  item := ⟨"i1", "Runner", "", "shoes", "acme", 80, "2024-01-01T00:00:00Z", 0⟩
  score := 1
  score_breakdown := []
  llm_rationale := none

theorem digitLimited_documented : digitLimited.Documented := by
  intro text e h
  simp only [digitLimited] at h
  split at h
  · rw [← Except.error.inj h]
    exact .inr (.inr rfl)
  · rw [← Except.error.inj h]
    exact .inl rfl

theorem strip_ones (n : ℕ) : strip (ones n) = ones n := by
  have hdrop : (List.replicate n '1').dropWhile isSpace = List.replicate n '1' := by
    cases n with
    | zero => rfl
    | succ n => rfl
  rw [strip, ones, String.toList_ofList, hdrop, List.reverse_replicate, hdrop, List.reverse_replicate]

theorem ones_ne_empty {n : ℕ} (h : 0 < n) : ones n ≠ "" := by
  intro hempty
  have hlength := congrArg (fun s => s.toList.length) hempty
  simp only [ones, String.toList_ofList, List.length_replicate] at hlength
  exact h.ne' hlength

theorem extractText_ones {α : Type} (parsed : Parsed α) {n : ℕ} (h : 0 < n) :
    extractText ⟨parsed, some (ones n), [], none⟩ = ones n := by
  simp only [extractText]
  rw [if_neg (ones_ne_empty h), strip_ones]

/-- The plain `ValueError` of `json.loads` comes out of the re-ranker. -/
theorem digit_limit_escapes :
    ¬ ∀ (env : LlmEnv) (query : String) (candidates : List RankedItemDTO)
      (user_profile_summary : Option String) (cfg : Config), env.json.Documented →
      ∃ r, rerankTopK env query candidates user_profile_summary cfg = .ok r := by
  intro h
  have hreadable := (rerankTopK_ok_iff "shoes" [runner] none defaultConfig).mp
    (h digitsEnv "shoes" [runner] none defaultConfig digitLimited_documented) (by simp)
    digitsProvider rfl
  have hmany : 0 < 4301 := by omega
  have htext := extractText_ones (α := RerankResult) .other hmany
  have hloads : digitLimited.loads (ones 4301) = .error digitLimitError := by
    simp only [digitLimited, if_true]
  have hcls := hreadable _ rfl rfl (by rw [htext]; exact ones_ne_empty hmany) digitLimitError
    (by rw [htext]; exact hloads)
  exact absurd hcls (by decide)

end ClickRec.Llm.Client
