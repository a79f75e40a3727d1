import ClickRec.Json
import ClickRec.Lib.PyList
import ClickRec.Lib.TopK

/-! # `scripts/replay_clicks.py`

The synthetic stream of searches, impressions and clicks. What the two generators draw is an input, of
the range their documentation gives; so is the exception of every send. -/
namespace ClickRec.Replay
set_option autoImplicit false

def CANDIDATES_PER_QUERY : ℕ := 60
def IMPRESSION_TOP_K : ℕ := 10
def SEND_FLUSH_EVERY : ℕ := 1000

/-! ## The catalogue -/

/-- A row of the candidate query; `created_at` is the time in seconds. -/
structure Candidate where
  id : String
  category : String
  brand : String
  price : ℚ
  created_at : ℚ
  deriving DecidableEq

structure Category where
  path : String
  noun : String
  brands : List String
  brands_ne : brands ≠ []

def ADJECTIVES : List String :=
  ["Premium", "Compact", "Wireless", "Portable", "Professional", "Classic", "Modern", "Sleek", "Rugged",
    "Ergonomic", "Lightweight", "Durable", "Elite", "Advanced", "Smart", "Deluxe", "Eco", "Vintage",
    "Essential", "Ultimate"]

/-- `digest` is the number of the first four bytes of the md5 digest. -/
def stableAdjective (lower : String → String) (digest : String → ℕ) (path : String) : String :=
  lower (ADJECTIVES.get ⟨digest path % ADJECTIVES.length, Nat.mod_lt _ (by decide)⟩)

/-- `_build_query_corpus`: the first four of five phrases a category. -/
def buildQueryCorpus (lower : String → String) (digest : String → ℕ) (categories : List Category) :
    List String :=
  PyList.keepFirst id <| categories.flatMap fun c =>
    let noun_lower := lower c.noun
    [noun_lower, stableAdjective lower digest c.path ++ " " ++ noun_lower,
      lower (c.brands.head c.brands_ne) ++ " " ++ noun_lower, "cheap " ++ noun_lower,
      "best " ++ noun_lower].take 4

theorem buildQueryCorpus_ne (lower : String → String) (digest : String → ℕ)
    {categories : List Category} (h : categories ≠ []) :
    buildQueryCorpus lower digest categories ≠ [] := by
  obtain ⟨c, cs, rfl⟩ := List.exists_cons_of_ne_nil h
  refine List.ne_nil_of_mem (a := lower c.noun) (PyList.mem_keepFirst_id.mpr ?_)
  rw [List.flatMap_cons]
  exact List.mem_append_left _ List.mem_cons_self

/-- The tables, and what the two queries select of the items. -/
structure Store where
  users : List (String × String)
  items : List Candidate
  ids_nodup : (items.map (·.id)).Nodup
  search : String → List Candidate
  search_subperm : ∀ q, (search q).Subperm items
  search_length : ∀ q, (search q).length ≤ CANDIDATES_PER_QUERY
  random : String → List Candidate
  random_subperm : ∀ q, (random q).Subperm items
  random_length : ∀ q, (random q).length = min CANDIDATES_PER_QUERY items.length

/-- The users with their segments, and the dict of candidates. -/
structure Catalogue where
  users : List (String × String)
  candidates : List (String × List Candidate)
  users_ne : users ≠ []
  candidates_ne : candidates ≠ []
  ids_nodup : ∀ entry ∈ candidates, (entry.2.map (·.id)).Nodup

/-- The rows of a query, or any items. -/
def Store.rows (store : Store) (q : String) : List Candidate :=
  if store.search q = [] then store.random q else store.search q

theorem Store.nodup_rows (store : Store) (q : String) : ((store.rows q).map (·.id)).Nodup := by
  have hsub : (store.rows q).Subperm store.items := by
    unfold Store.rows
    split
    · exact store.random_subperm q
    · exact store.search_subperm q
  obtain ⟨l, hperm, hsublist⟩ := hsub
  exact (hperm.map _).nodup_iff.mp ((hsublist.map _).nodup store.ids_nodup)

def noUsers : PyError := ⟨"RuntimeError", "no users found — run \x60make seed\x60 first", ""⟩

def loadCatalogue (lower : String → String) (digest : String → ℕ) (categories : List Category)
    (hcategories : categories ≠ []) (store : Store) : Except PyError Catalogue :=
  if h : store.users = [] then .error noUsers
  else
    .ok {
      users := store.users
      candidates := (buildQueryCorpus lower digest categories).map fun q => (q, store.rows q)
      users_ne := h
      candidates_ne := by simpa using buildQueryCorpus_ne lower digest hcategories
      ids_nodup := by
        intro entry hentry
        obtain ⟨q, -, rfl⟩ := List.mem_map.mp hentry
        exact store.nodup_rows q }

/-! ## What is drawn -/

/-- `n` different indices below `size`. -/
structure Indices (size n : ℕ) where
  list : List (Fin size)
  nodup : list.Nodup
  length : list.length = n

/-- `rank` is `rng.random() ** (1.0 / RANK_GEOMETRIC_P)`, `dwell` is `np.exp(rng.gauss(8.0, 0.5))`. -/
structure ClickDraw where
  event_id : String
  rank : ℚ
  dwell : ℚ

structure QueryDraw where
  zipf : ℕ
  now : String
  search_id : String
  impression_id : String
  choice : ∀ size n, n ≤ size → Indices size n
  num_clicks : Fin 4
  shuffle : ∀ size, Indices size size
  clicks : ℕ → ClickDraw

/-- One draw for each of the `rng.randint(1, 3)` queries. -/
structure SessionDraw where
  user : ∀ size, 0 < size → Fin size
  session_id : String
  queries : List QueryDraw
  queries_ne : queries ≠ []
  queries_length : queries.length ≤ 3

def sampleQueryIndex (raw corpus_size : ℕ) : ℕ := min (raw - 1) (corpus_size - 1)

def sampleRank (powered : ℚ) (top_k : ℕ) : ℤ := max 0 (min ⌊powered * top_k⌋ ((top_k : ℤ) - 1))

def sampleDwellMs (exp : ℚ) : ℤ := max 250 ⌊exp⌋

/-- `random.shuffle(l)`. -/
def shuffled {α : Type} (l : List α) (draw : ∀ size, Indices size size) : List α :=
  (draw l.length).list.map l.get

def weightedTopK (cands : List Candidate) (choice : ∀ size n, n ≤ size → Indices size n) (k : ℕ) :
    List Candidate :=
  if min k cands.length = 0 then []
  else (choice cands.length (min k cands.length) (min_le_right k _)).list.map cands.get

/-- `pinned_brand and c["brand"] == pinned_brand`. -/
def isPinned (pinned_brand : Option String) (c : Candidate) : Bool :=
  match pinned_brand with
  | none => false
  | some brand => brand ≠ "" && c.brand = brand

/-- The impression in the order in which a user of the segment clicks. -/
def rankForSegment (segment : String) (pool : List Candidate) (pinned_brand : Option String)
    (shuffle : ∀ size, Indices size size) : List Candidate :=
  if segment = "bargain_hunter" then PyList.sortBy (·.price) pool
  else if segment = "premium" then TopK.sortDesc (·.price) pool
  else if segment = "new_arrivals" then TopK.sortDesc (·.created_at) pool
  else if segment = "brand_loyalist" then
    let preferred := pool.filter (isPinned pinned_brand)
    if preferred ≠ [] then preferred ++ pool.filter (· ∉ preferred) else pool
  else (shuffled ((PyList.groupInto (·.category) pool).map (·.2)) shuffle).flatten

def pickClicksForSegment (segment : String) (impression : List Candidate)
    (pinned_brand : Option String) (num_clicks : ℕ) (shuffle : ∀ size, Indices size size) :
    List Candidate :=
  if impression = [] ∨ num_clicks = 0 then []
  else
    let ranked := rankForSegment segment impression pinned_brand shuffle
    ranked.take (min num_clicks ranked.length)

/-- The brand of every loyalist, drawn in the order of the users. -/
def pinBrands (drawn : ℕ → String) (users : List (String × String)) : String → Option String :=
  PyList.dictOf (·.1.1) (fun x => drawn x.2) (users.filter (·.2 = "brand_loyalist")).zipIdx

/-! ## Events -/

/-- What all events of one query share. -/
structure Visit where
  timestamp : String
  user_id : String
  session_id : String
  query : String
  deriving DecidableEq

inductive Event where
  | search (event_id : String) (visit : Visit)
  | impression (event_id : String) (visit : Visit) (result_ids : List String)
  | click (event_id : String) (visit : Visit) (item_id : String) (rank_position dwell_ms : ℤ)
  deriving DecidableEq

def header (event_id event_type : String) (visit : Visit) : List (String × Json) :=
  [("event_id", .str event_id), ("event_type", .str event_type), ("event_version", .int 1),
    ("timestamp", .str visit.timestamp), ("user_id", .str visit.user_id),
    ("session_id", .str visit.session_id), ("query", .str visit.query)]

/-- The dict that is sent. -/
def Event.dict : Event → List (String × Json)
  | .search event_id visit => header event_id "search" visit ++ [("filters", .obj [])]
  | .impression event_id visit result_ids =>
    header event_id "impression" visit ++
      [("result_ids", .arr (result_ids.map .str)), ("page", .int 1)]
  | .click event_id visit item_id rank_position dwell_ms =>
    header event_id "click" visit ++
      [("item_id", .str item_id), ("rank_position", .int rank_position), ("dwell_ms", .int dwell_ms)]

/-- The place where the item was shown. -/
def rankPosition (top_k : List Candidate) (clicked : Candidate) (powered : ℚ) : ℤ :=
  match top_k.findIdx? (·.id = clicked.id) with
  | some i => i
  | none => sampleRank powered top_k.length

def clickEvent (visit : Visit) (top_k : List Candidate) (clicked : Candidate) (draw : ClickDraw) :
    Event :=
  .click draw.event_id visit clicked.id (rankPosition top_k clicked draw.rank) (sampleDwellMs draw.dwell)

/-! ## The run -/

/-- `log` has the lines of the eval log, when it is captured. -/
structure Progress where
  emitted : ℕ
  sent : List Event
  log : Option (List String)
  last_log : ℕ

/-- An exception of a send leaves the progress as it is. -/
abbrev Outcome := Except (PyError × Progress) Progress

section Run
variable (dumps : Json → String) (broker : ℕ → Option PyError) (cat : Catalogue)
  (pinned_brand : String → Option String) (num_events : ℤ)

/-- `await producer.send(…)`. -/
def send (e : Event) (p : Progress) : Outcome :=
  match broker p.sent.length with
  | some err => .error (err, p)
  | none => .ok { p with sent := p.sent ++ [e] }

/-- `eval_writer.write(…)`, when there is one. -/
def write (e : Event) (p : Progress) : Progress :=
  { p with log := p.log.map (· ++ [dumps (.obj e.dict) ++ "\n"]) }

def count (p : Progress) : Progress := { p with emitted := p.emitted + 1 }

def emitClicks (visit : Visit) (top_k : List Candidate) :
    List (Candidate × ClickDraw) → Progress → Outcome
  | [], p => .ok p
  | (clicked, draw) :: rest, p =>
    if num_events ≤ p.emitted then .ok p
    else do
      let click_event := clickEvent visit top_k clicked draw
      let p ← send broker click_event p
      emitClicks visit top_k rest (count (write dumps click_event p))

theorem sampleQueryIndex_lt (raw : ℕ) :
    sampleQueryIndex raw cat.candidates.length < cat.candidates.length := by
  have hpos : 0 < cat.candidates.length := List.length_pos_iff.mpr cat.candidates_ne
  unfold sampleQueryIndex
  omega

/-- The query of a draw with its candidates. -/
def Catalogue.query (draw : QueryDraw) : String × List Candidate :=
  cat.candidates.get ⟨sampleQueryIndex draw.zipf cat.candidates.length, sampleQueryIndex_lt cat _⟩

def Catalogue.user (draw : SessionDraw) : String × String :=
  cat.users.get (draw.user cat.users.length (List.length_pos_iff.mpr cat.users_ne))

/-- The items a user of the query clicks on, with what is drawn for each click. -/
def clicksOf (user : String × String) (top_k : List Candidate) (draw : QueryDraw) :
    List (Candidate × ClickDraw) :=
  (pickClicksForSegment user.2 top_k (pinned_brand user.1) draw.num_clicks draw.shuffle).zipIdx.map
    fun x => (x.1, draw.clicks x.2)

def visitOf (user : String × String) (session_id : String) (draw : QueryDraw) : Visit :=
  ⟨draw.now, user.1, session_id, (cat.query draw).1⟩

/-- One pass of the loop over the queries of a session. -/
def runQuery (user : String × String) (session_id : String) (draw : QueryDraw) (p : Progress) :
    Outcome :=
  let cands := (cat.query draw).2
  if cands = [] then .ok p
  else do
    let visit := visitOf cat user session_id draw
    let p := count (← send broker (.search draw.search_id visit) p)
    -- the `break`: the check at the head of the loop ends it as well
    if num_events ≤ p.emitted then .ok p
    else do
      let top_k := weightedTopK cands draw.choice IMPRESSION_TOP_K
      let p := count (← send broker (.impression draw.impression_id visit (top_k.map (·.id))) p)
      emitClicks dumps broker num_events visit top_k (clicksOf pinned_brand user top_k draw) p

def runQueries (user : String × String) (session_id : String) : List QueryDraw → Progress → Outcome
  | [], p => .ok p
  | draw :: draws, p =>
    if num_events ≤ p.emitted then .ok p
    else do
      runQueries user session_id draws
        (← runQuery dumps broker cat pinned_brand num_events user session_id draw p)

/-- The flush of the producer and of the log. -/
def flush (p : Progress) : Progress :=
  if SEND_FLUSH_EVERY ≤ p.emitted - p.last_log then { p with last_log := p.emitted } else p

def runSession (draw : SessionDraw) (p : Progress) : Outcome := do
  return flush (← runQueries dumps broker cat pinned_brand num_events (cat.user draw)
    draw.session_id draw.queries p)

variable (draws : ℕ → SessionDraw)

/-- The sessions from number `n` on; `none` when the fuel is used up. -/
def runSessions : ℕ → ℕ → Progress → Option Outcome
  | 0, _, p => if num_events ≤ p.emitted then some (.ok p) else none
  | fuel + 1, n, p =>
    if num_events ≤ p.emitted then some (.ok p)
    else
      match runSession dumps broker cat pinned_brand num_events (draws n) p with
      | .error x => some (.error x)
      | .ok p => runSessions fuel (n + 1) p

/-- The eval log is opened for appending to the lines it has. -/
def run (eval_log : Option (List String)) (fuel : ℕ) : Option Outcome :=
  runSessions dumps broker cat pinned_brand num_events draws fuel 0 ⟨0, [], eval_log, 0⟩

end Run

end ClickRec.Replay
