import ClickRec.Seed.Catalog

/-! # `run` of the seeder

Items, users and the index are written in a transaction each; the number of items alone decides whether
any of it is done. The file of user ids that `run` writes last is left out. -/
namespace ClickRec.Seed
set_option autoImplicit false
open Transactions

variable {ι υ : Type}

/-! ## Tables -/

structure Row (α : Type) where
  id : String
  columns : α

structure Table (α : Type) where
  rows : List (Row α)
  primaryKey : (rows.map (·.id)).Nodup

namespace Table
variable {α : Type}

theorem nodup_no_rows (α : Type) : (([] : List (Row α)).map (·.id)).Nodup := List.nodup_nil

def empty : Table α := ⟨[], nodup_no_rows α⟩

def ids (table : Table α) : List String := table.rows.map (·.id)

theorem nodup_concat (table : Table α) (row : Row α) (h : row.id ∉ table.ids) :
    ((table.rows ++ [row]).map (·.id)).Nodup := by
  rw [List.map_append, List.map_singleton]
  exact table.primaryKey.append (List.nodup_singleton _) (by simpa [ids] using h)

/-- A row whose id is in the table is passed over. -/
def insertOnConflictDoNothing (table : Table α) (row : Row α) : Table α :=
  if h : row.id ∈ table.ids then table else ⟨table.rows ++ [row], table.nodup_concat row h⟩

def insertAll (table : Table α) (chunk : List (Row α)) : Table α :=
  chunk.foldl insertOnConflictDoNothing table

theorem ids_insertOnConflictDoNothing (table : Table α) (row : Row α) :
    (table.insertOnConflictDoNothing row).ids =
      if row.id ∈ table.ids then table.ids else table.ids ++ [row.id] := by
  unfold insertOnConflictDoNothing
  split
  · rfl
  · rw [ids, List.map_append, List.map_singleton]
    rfl

/-- Rows with new ids are all inserted. -/
theorem ids_insertAll {table : Table α} {chunk : List (Row α)}
    (h : (table.ids ++ chunk.map (·.id)).Nodup) :
    (table.insertAll chunk).ids = table.ids ++ chunk.map (·.id) := by
  induction chunk generalizing table with
  | nil => exact (List.append_nil _).symm
  | cons row chunk ih =>
    rw [List.map_cons, ← List.singleton_append, ← List.append_assoc] at h
    have hnew : row.id ∉ table.ids := by
      have hfirst := (List.nodup_append.mp h).1
      exact fun hmem => (List.nodup_append.mp hfirst).2.2 _ hmem _ (List.mem_singleton_self _) rfl
    have hone : (table.insertOnConflictDoNothing row).ids = table.ids ++ [row.id] := by
      rw [ids_insertOnConflictDoNothing, if_neg hnew]
    have hrest : ((table.insertOnConflictDoNothing row).insertAll chunk).ids =
        (table.insertOnConflictDoNothing row).ids ++ chunk.map (·.id) := ih (by rwa [hone])
    rw [hone, List.append_assoc] at hrest
    exact hrest

end Table

/-- The tables, and the ivfflat index with the number of items its centroids were learned from. -/
structure Db (ι υ : Type) where
  item : Table ι
  user_account : Table υ
  item_embedding_ivfflat : Option ℕ

namespace Db

def dropIndexIfExists (db : Db ι υ) : Db ι υ := { db with item_embedding_ivfflat := none }

def createIndex (db : Db ι υ) : Db ι υ :=
  { db with item_embedding_ivfflat := some db.item.rows.length }

@[simp] theorem item_createIndex (db : Db ι υ) : db.createIndex.item = db.item := rfl

@[simp] theorem user_account_createIndex (db : Db ι υ) :
    db.createIndex.user_account = db.user_account := rfl

@[simp] theorem index_createIndex (db : Db ι υ) :
    db.createIndex.item_embedding_ivfflat = some db.item.rows.length := rfl

def createIndexIfNotExists (db : Db ι υ) : Db ι υ :=
  if db.item_embedding_ivfflat.isSome then db else db.createIndex

/-- After the migrations, the last of which creates the index. -/
def migrated : Db ι υ := createIndexIfNotExists ⟨.empty, .empty, none⟩

end Db

/-! ## The rows of a run -/

/-- What is drawn at random for the rows. -/
structure Draws (ι υ : Type) where
  item : String → ℕ → ι
  user : String → ℕ → υ

def numberedRows {α : Type} (id : String → ℕ → String) (columns : String → ℕ → α)
    (names : List String) (per_name : ℕ) : List (Row α) :=
  names.flatMap fun name => (List.range per_name).map fun i => ⟨id name i, columns name i⟩

def generateItemRows (draws : Draws ι υ) : List (Row ι) :=
  numberedRows itemId draws.item CATEGORIES ITEMS_PER_CATEGORY

def generateUserRows (draws : Draws ι υ) : List (Row υ) :=
  numberedRows userId draws.user USER_SEGMENTS USERS_PER_SEGMENT

theorem ids_numberedRows {α : Type} (id : String → ℕ → String) (columns : String → ℕ → α)
    (names : List String) (per_name : ℕ) :
    (numberedRows id columns names per_name).map (·.id) = numbered id names per_name := by
  rw [numberedRows, numbered, List.map_flatMap]
  simp only [List.map_map, Function.comp_def]

theorem ids_generateItemRows (draws : Draws ι υ) : (generateItemRows draws).map (·.id) = itemIds := by
  unfold generateItemRows
  exact ids_numberedRows itemId draws.item CATEGORIES ITEMS_PER_CATEGORY

theorem ids_generateUserRows (draws : Draws ι υ) : (generateUserRows draws).map (·.id) = userIds := by
  unfold generateUserRows
  exact ids_numberedRows userId draws.user USER_SEGMENTS USERS_PER_SEGMENT

/-! ## The three transactions -/

/-- `rows[start : start + BULK_CHUNK]` for every `start` of the range. -/
def chunks {α : Type} (rows : List α) : List (List α) :=
  (List.range ((rows.length + BULK_CHUNK - 1) / BULK_CHUNK)).map fun j =>
    (rows.drop (BULK_CHUNK * j)).take BULK_CHUNK

theorem flatten_chunks {α : Type} (rows : List α) : (chunks rows).flatten = rows := by
  have hfirst : ∀ m, ((List.range m).map fun j =>
      (rows.drop (BULK_CHUNK * j)).take BULK_CHUNK).flatten = rows.take (BULK_CHUNK * m) := by
    intro m
    induction m with
    | zero => rfl
    | succ m ih =>
      rw [List.range_succ, List.map_append, List.flatten_append, ih, List.map_singleton,
        List.flatten_singleton, Nat.mul_succ, List.take_add]
  rw [chunks, hfirst, List.take_of_length_le]
  unfold BULK_CHUNK
  omega

/-- One INSERT for each chunk, into the table that `into` changes. -/
def bulkInsert {α : Type} (into : (Table α → Table α) → Db ι υ → Db ι υ) (rows : List (Row α)) :
    List (Db ι υ → Db ι υ) :=
  (chunks rows).map fun chunk => into fun table => table.insertAll chunk

def bulkInsertItems (rows : List (Row ι)) : List (Db ι υ → Db ι υ) :=
  bulkInsert (fun f db => { db with item := f db.item }) rows

def bulkInsertUsers (rows : List (Row υ)) : List (Db ι υ → Db ι υ) :=
  bulkInsert (fun f db => { db with user_account := f db.user_account }) rows

def rebuildIvfflatIndex : List (Db ι υ → Db ι υ) := [Db.dropIndexIfExists, Db.createIndex]

/-- The transactions of a run that starts in this state. -/
def runTransactions (draws : Draws ι υ) (db : Db ι υ) : List (List (Db ι υ → Db ι υ)) :=
  if TARGET_ITEMS ≤ db.item.rows.length then
    if db.item_embedding_ivfflat.isSome then [] else [rebuildIvfflatIndex]
  else
    [bulkInsertItems (generateItemRows draws), bulkInsertUsers (generateUserRows draws),
      rebuildIvfflatIndex]

def runActions (draws : Draws ι υ) (db : Db ι υ) : List (Action (Db ι υ)) :=
  (runTransactions draws db).flatMap transaction

def run (draws : Draws ι υ) (db : Db ι υ) : Db ι υ := completed (runActions draws db) db

/-! ## What a transaction does -/

/-- The chunks of a transaction are inserted one after the other. -/
theorem apply_bulkInsert {α : Type} {into : (Table α → Table α) → Db ι υ → Db ι υ}
    (hid : ∀ db, into id db = db) (hcomp : ∀ f g db, into g (into f db) = into (g ∘ f) db)
    (rows : List (Row α)) (db : Db ι υ) :
    apply (bulkInsert into rows) db = into (fun table => table.insertAll rows) db := by
  have hchunks : ∀ (l : List (List (Row α))) (db : Db ι υ),
      apply (l.map fun chunk => into fun table => table.insertAll chunk) db =
        into (fun table => table.insertAll l.flatten) db := by
    intro l
    induction l with
    | nil => exact fun db => (hid db).symm
    | cons chunk l ih =>
      intro db
      have hrest := ih (into (fun table => table.insertAll chunk) db)
      rw [hcomp] at hrest
      simp only [List.flatten_cons, Table.insertAll, List.foldl_append]
      exact hrest
  rw [bulkInsert, hchunks, flatten_chunks]

def insertItems (rows : List (Row ι)) (db : Db ι υ) : Db ι υ :=
  { db with item := db.item.insertAll rows }

def insertUsers (rows : List (Row υ)) (db : Db ι υ) : Db ι υ :=
  { db with user_account := db.user_account.insertAll rows }

section Writes
variable (item_rows : List (Row ι)) (user_rows : List (Row υ)) (db : Db ι υ)

@[simp] theorem user_account_insertItems :
    (insertItems item_rows db).user_account = db.user_account := rfl

@[simp] theorem index_insertItems :
    (insertItems item_rows db).item_embedding_ivfflat = db.item_embedding_ivfflat := rfl

@[simp] theorem item_insertUsers : (insertUsers user_rows db).item = db.item := rfl

@[simp] theorem index_insertUsers :
    (insertUsers user_rows db).item_embedding_ivfflat = db.item_embedding_ivfflat := rfl

theorem apply_items : apply (bulkInsertItems item_rows) db = insertItems item_rows db :=
  apply_bulkInsert (fun _ => rfl) (fun _ _ _ => rfl) item_rows db

theorem apply_users : apply (bulkInsertUsers user_rows) db = insertUsers user_rows db :=
  apply_bulkInsert (fun _ => rfl) (fun _ _ _ => rfl) user_rows db

theorem apply_rebuild : apply rebuildIvfflatIndex db = db.createIndex := rfl

/-- A table without rows gets the rows of the generator. -/
theorem ids_insertAll_of_empty {α : Type} {table : Table α} (hempty : table.ids = [])
    {rows : List (Row α)} {ids : List String} (hids : rows.map (·.id) = ids) (hnodup : ids.Nodup) :
    (table.insertAll rows).ids = ids := by
  rw [Table.ids_insertAll (by rwa [hempty, hids, List.nil_append]), hempty, hids, List.nil_append]

variable {item_rows user_rows db}

theorem ids_insertItems (hempty : db.item.ids = []) (hids : item_rows.map (·.id) = itemIds) :
    (insertItems item_rows db).item.ids = itemIds :=
  ids_insertAll_of_empty hempty hids nodup_itemIds

theorem ids_insertUsers (hempty : db.user_account.ids = [])
    (hids : user_rows.map (·.id) = userIds) :
    (insertUsers user_rows db).user_account.ids = userIds :=
  ids_insertAll_of_empty hempty hids nodup_userIds

end Writes

/-! ## A run -/

/-- The whole catalogue, all users and an index. -/
def Complete (db : Db ι υ) : Prop :=
  (∀ id ∈ itemIds, id ∈ db.item.ids) ∧ (∀ id ∈ userIds, id ∈ db.user_account.ids) ∧
    db.item_embedding_ivfflat.isSome

/-- The centroids of the index were learned from the items there are. -/
def Trained (db : Db ι υ) : Prop := db.item_embedding_ivfflat = some db.item.rows.length

theorem length_rows {α : Type} (table : Table α) : table.rows.length = table.ids.length :=
  (List.length_map _).symm

section Run
variable {db : Db ι υ}

theorem complete_of_ids (hitems : db.item.ids = itemIds) (husers : db.user_account.ids = userIds)
    (hindex : db.item_embedding_ivfflat.isSome) : Complete db := by
  refine ⟨fun id hid => ?_, fun id hid => ?_, hindex⟩
  · rwa [hitems]
  · rwa [husers]

theorem exists_userId : ∃ id, id ∈ userIds := by
  have hlength : userIds.length = 1000 := length_numbered userId USER_SEGMENTS USERS_PER_SEGMENT
  exact List.exists_mem_of_length_pos (by omega)

theorem not_complete (husers : db.user_account.ids = []) : ¬ Complete db := by
  intro h
  obtain ⟨id, hid⟩ := exists_userId
  have hnone := h.2.1 id hid
  rw [husers] at hnone
  exact List.not_mem_nil hnone

/-- An index from before the items were inserted. -/
theorem not_trained (hitems : db.item.ids = itemIds) (hindex : db.item_embedding_ivfflat = some 0) :
    ¬ Trained db := by
  intro h
  rw [Trained, hindex, length_rows, hitems, length_itemIds] at h
  exact absurd (Option.some.inj h) (by decide)

variable (draws : Draws ι υ)

/-- Nothing is done where the items are complete and there is an index. -/
theorem run_of_items (hitems : db.item.ids = itemIds) (hindex : db.item_embedding_ivfflat.isSome) :
    run draws db = db := by
  have hguard : TARGET_ITEMS ≤ db.item.rows.length := by rw [length_rows, hitems, length_itemIds]
  rw [run, runActions, runTransactions, if_pos hguard, if_pos hindex]
  rfl

theorem runTransactions_of_empty (hempty : db.item.ids = []) :
    runTransactions draws db =
      [bulkInsertItems (generateItemRows draws), bulkInsertUsers (generateUserRows draws),
        rebuildIvfflatIndex] := by
  rw [runTransactions, if_neg]
  rw [length_rows, hempty]
  decide

theorem run_of_empty (hitems : db.item.ids = []) :
    run draws db = (insertUsers (generateUserRows draws)
      (insertItems (generateItemRows draws) db)).createIndex := by
  rw [run, runActions, completed_eq, runTransactions_of_empty draws hitems]
  rw [List.foldl_cons, List.foldl_cons, List.foldl_cons, List.foldl_nil, apply_items, apply_users,
    apply_rebuild]

/-- A run on empty tables that is not killed. -/
theorem complete_run_of_empty (hitems : db.item.ids = []) (husers : db.user_account.ids = []) :
    (run draws db).item.ids = itemIds ∧ Complete (run draws db) ∧ Trained (run draws db) := by
  have hitemIds : (run draws db).item.ids = itemIds := by
    rw [run_of_empty draws hitems, Db.item_createIndex, item_insertUsers]
    exact ids_insertItems hitems (ids_generateItemRows draws)
  have huserIds : (run draws db).user_account.ids = userIds := by
    rw [run_of_empty draws hitems, Db.user_account_createIndex]
    exact ids_insertUsers (by rwa [user_account_insertItems]) (ids_generateUserRows draws)
  have htrained : Trained (run draws db) := by
    rw [Trained, run_of_empty draws hitems, Db.index_createIndex, Db.item_createIndex]
  refine ⟨hitemIds, complete_of_ids hitemIds huserIds ?_, htrained⟩
  rw [htrained]
  rfl

end Run

/-! ## Runs that are killed -/

section Kill
variable (draws draws' : Draws ι υ)

variable (ι υ) in
theorem ids_migrated : (Db.migrated : Db ι υ).item.ids = [] ∧
    (Db.migrated : Db ι υ).user_account.ids = [] ∧
    (Db.migrated : Db ι υ).item_embedding_ivfflat = some 0 := ⟨rfl, rfl, rfl⟩

/-- What a first run leaves when it is killed, by the number of its commits. -/
inductive Left (draws : Draws ι υ) : ℕ → Db ι υ → Prop
  | nothing : Left draws 0 .migrated
  | items : Left draws 1 (insertItems (generateItemRows draws) .migrated)
  | users : Left draws 2
    (insertUsers (generateUserRows draws) (insertItems (generateItemRows draws) .migrated))
  | all : Left draws 3 (run draws .migrated)

theorem left_killed (n : ℕ) : Left draws (commits (runActions draws .migrated) n)
    (killed (runActions draws .migrated) n .migrated) := by
  have hempty := (ids_migrated ι υ).1
  have htxns := runTransactions_of_empty draws hempty
  have hle := commits_le (runTransactions draws .migrated) n
  rw [runActions, killed_eq]
  generalize commits ((runTransactions draws .migrated).flatMap transaction) n = committed at hle ⊢
  rw [htxns] at hle ⊢
  match committed, hle with
  | 0, _ => exact .nothing
  | 1, _ =>
    rw [List.take_succ_cons, List.take_zero, List.foldl_cons, List.foldl_nil, apply_items]
    exact .items
  | 2, _ =>
    rw [List.take_succ_cons, List.take_succ_cons, List.take_zero, List.foldl_cons, List.foldl_cons,
      List.foldl_nil, apply_items, apply_users]
    exact .users
  | 3, _ =>
    rw [List.take_succ_cons, List.take_succ_cons, List.take_succ_cons, List.take_zero, List.foldl_cons,
      List.foldl_cons, List.foldl_cons, List.foldl_nil, apply_items, apply_users, apply_rebuild,
      ← run_of_empty draws hempty]
    exact .all

variable {draws} in
/-- What the next run makes of it. -/
theorem run_of_left {committed : ℕ} {db : Db ι υ} (h : Left draws committed db) :
    (Complete (run draws' db) ↔ committed ≠ 1) ∧
      (Trained (run draws' db) ↔ committed = 0 ∨ committed = 3) := by
  obtain ⟨hitems, husers, hindex⟩ := ids_migrated ι υ
  have hitemIds := ids_insertItems hitems (ids_generateItemRows draws)
  cases h with
  | nothing =>
    obtain ⟨-, hcomplete, htrained⟩ := complete_run_of_empty draws' hitems husers
    exact ⟨iff_of_true hcomplete (by decide), iff_of_true htrained (by decide)⟩
  | items =>
    rw [← index_insertItems (generateItemRows draws)] at hindex
    rw [← user_account_insertItems (generateItemRows draws)] at husers
    rw [run_of_items draws' hitemIds (by rw [hindex]; rfl)]
    exact ⟨iff_of_false (not_complete husers) (by decide),
      iff_of_false (not_trained hitemIds hindex) (by decide)⟩
  | users =>
    rw [← index_insertItems (generateItemRows draws), ← index_insertUsers (generateUserRows draws)]
      at hindex
    rw [← user_account_insertItems (generateItemRows draws)] at husers
    have huserIds := ids_insertUsers husers (ids_generateUserRows draws)
    rw [← item_insertUsers (generateUserRows draws)] at hitemIds
    have hsome : (insertUsers (generateUserRows draws)
        (insertItems (generateItemRows draws) .migrated)).item_embedding_ivfflat.isSome := by
      rw [hindex]
      rfl
    rw [run_of_items draws' hitemIds hsome]
    exact ⟨iff_of_true (complete_of_ids hitemIds huserIds hsome) (by decide),
      iff_of_false (not_trained hitemIds hindex) (by decide)⟩
  | all =>
    obtain ⟨hids, hcomplete, htrained⟩ := complete_run_of_empty draws hitems husers
    rw [run_of_items draws' hids hcomplete.2.2]
    exact ⟨iff_of_true hcomplete (by decide), iff_of_true htrained (by decide)⟩

/-- **When the next run repairs one that was killed.** It was not killed between the commit of the items
and that of the users. -/
theorem complete_run_after_kill_iff (n : ℕ) :
    Complete (run draws' (killed (runActions draws .migrated) n .migrated)) ↔
      commits (runActions draws .migrated) n ≠ 1 :=
  (run_of_left draws' (left_killed draws n)).1

/-- The index of the migration stays when the items are there before it is replaced. -/
theorem trained_run_after_kill_iff (n : ℕ) :
    Trained (run draws' (killed (runActions draws .migrated) n .migrated)) ↔
      commits (runActions draws .migrated) n = 0 ∨ commits (runActions draws .migrated) n = 3 :=
  (run_of_left draws' (left_killed draws n)).2

end Kill

theorem length_bulkInsertItems (draws : Draws ι υ) :
    (bulkInsertItems (generateItemRows draws) : List (Db ι υ → Db ι υ)).length = 20 := by
  have hrows : (generateItemRows draws).length = TARGET_ITEMS := by
    rw [← length_itemIds, ← ids_generateItemRows draws, List.length_map]
  rw [bulkInsertItems, bulkInsert, List.length_map, chunks, List.length_map, List.length_range, hrows]
  decide

/-- Killed after twenty INSERTs and their commit, the first run leaves no users, and the next one neither. -/
theorem kill_before_users_incomplete :
    ¬ ∀ (draws draws' : Draws Unit Unit) (n : ℕ),
      Complete (run draws' (killed (runActions draws .migrated) n .migrated)) := by
  intro h
  let draws : Draws Unit Unit := ⟨fun _ _ => (), fun _ _ => ()⟩
  obtain ⟨hitems, husers, -⟩ := ids_migrated Unit Unit
  have hkilled : killed (runActions draws .migrated) 21 .migrated =
      insertItems (generateItemRows draws) .migrated := by
    have hfirst := killed_after_first (bulkInsertItems (generateItemRows draws))
      ([bulkInsertUsers (generateUserRows draws), rebuildIvfflatIndex].flatMap transaction) .migrated
    rwa [length_bulkInsertItems draws, apply_items, ← List.flatMap_cons,
      ← runTransactions_of_empty draws hitems, ← runActions] at hfirst
  have hcomplete := h draws draws 21
  rw [hkilled, run_of_items draws (ids_insertItems hitems (ids_generateItemRows draws)) rfl]
    at hcomplete
  rw [← user_account_insertItems (generateItemRows draws)] at husers
  exact not_complete husers hcomplete

end ClickRec.Seed
