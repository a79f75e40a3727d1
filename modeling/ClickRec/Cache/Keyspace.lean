import ClickRec.Kafka.Enrichment
import ClickRec.Lib.Prefix

/-! # The Redis keyspace

One key for each purpose and its arguments. The prefixes keep the purposes apart; within a purpose
the arguments can be read back, except where the separator may occur in both of two ids. -/
namespace ClickRec.Cache
set_option autoImplicit false
open Kafka (recentKey counterKey topKey)

/-! ## The keys -/

def itemKey (item_id : String) : String := "item:" ++ item_id

def lockKey (item_id : String) : String := "lock:item:" ++ item_id

def explainKey (user_id item_id : String) : String := "llm:explain:" ++ user_id ++ ":" ++ item_id

def hexdigest (digest : List UInt8) : String :=
  String.ofList (digest.flatMap fun byte => hexDigits byte.toNat 2)

/-- `sha1` gives the bytes of the digest. -/
def embeddingKey (sha1 : ByteArray → List UInt8) (model_name query : String) : String :=
  "query:embedding:" ++ model_name ++ ":" ++ hexdigest (sha1 query.toUTF8)

def globalTopKey : String := "items:top:_global"

def dedupeEventKey (event_id : Uuid) : String := "dedupe:event:" ++ uuidStr event_id

def dedupeConsumerKey (event_id : Uuid) : String := "dedupe:consumer:" ++ uuidStr event_id

/-- A purpose with its arguments. -/
inductive Key where
  | item (item_id : String)
  | lock (item_id : String)
  | explain (user_id item_id : String)
  | embedding (model_name query : String)
  | recentClicks (user_id : String)
  | popularity (category : String)
  | top (category : String)
  | globalTop
  | dedupeEvent (event_id : Uuid)
  | dedupeConsumer (event_id : Uuid)

def Key.text (sha1 : ByteArray → List UInt8) : Key → String
  | item item_id => itemKey item_id
  | lock item_id => lockKey item_id
  | explain user_id item_id => explainKey user_id item_id
  | embedding model_name query => embeddingKey sha1 model_name query
  | recentClicks user_id => recentKey user_id
  | popularity category => counterKey category
  | top category => topKey category
  | globalTop => globalTopKey
  | dedupeEvent event_id => dedupeEventKey event_id
  | dedupeConsumer event_id => dedupeConsumerKey event_id

/-- The first user id goes on after the second with a colon and a text that the second item id
starts with. -/
def CutLater (user_id item_id user_id' item_id' : String) : Prop :=
  ∃ s, user_id = user_id' ++ ":" ++ s ∧ item_id' = s ++ ":" ++ item_id

/-- The pairs of a purpose with its arguments that share a key. -/
def Aliased : Key → Key → Prop
  | .explain user_id item_id, .explain user_id' item_id' =>
    CutLater user_id item_id user_id' item_id' ∨ CutLater user_id' item_id' user_id item_id
  | .top category, .globalTop => category = "_global"
  | .globalTop, .top category => category = "_global"
  | _, _ => False

/-! ## The prefixes -/

inductive Purpose where
  | item
  | lock
  | explain
  | embedding
  | user
  | popularity
  | top
  | dedupeEvent
  | dedupeConsumer
  deriving DecidableEq

instance : Fintype Purpose where
  elems := {.item, .lock, .explain, .embedding, .user, .popularity, .top, .dedupeEvent, .dedupeConsumer}
  complete p := by cases p <;> decide

def Purpose.tag : Purpose → String
  | item => "item:"
  | lock => "lock:item:"
  | explain => "llm:explain:"
  | embedding => "query:embedding:"
  | user => "user:"
  | popularity => "popularity:"
  | top => "items:top:"
  | dedupeEvent => "dedupe:event:"
  | dedupeConsumer => "dedupe:consumer:"

theorem prefixFree_tag : Prefix.PrefixFree fun p : Purpose => p.tag.toList := by
  unfold Prefix.PrefixFree
  decide

def Key.purpose : Key → Purpose
  | item _ => .item
  | lock _ => .lock
  | explain _ _ => .explain
  | embedding _ _ => .embedding
  | recentClicks _ => .user
  | popularity _ => .popularity
  | top _ => .top
  | globalTop => .top
  | dedupeEvent _ => .dedupeEvent
  | dedupeConsumer _ => .dedupeConsumer

/-- What follows the prefix. -/
def Key.rest (sha1 : ByteArray → List UInt8) : Key → String
  | item item_id => item_id
  | lock item_id => item_id
  | explain user_id item_id => user_id ++ ":" ++ item_id
  | embedding model_name query => model_name ++ ":" ++ hexdigest (sha1 query.toUTF8)
  | recentClicks user_id => user_id ++ ":recent_clicks"
  | popularity category => category
  | top category => category
  | globalTop => "_global"
  | dedupeEvent event_id => uuidStr event_id
  | dedupeConsumer event_id => uuidStr event_id

theorem globalTopKey_eq : globalTopKey = topKey "_global" := by decide

theorem append_three (s t u v : String) : s ++ t ++ u ++ v = s ++ (t ++ u ++ v) := by
  rw [String.append_assoc, String.append_assoc, String.append_assoc]

theorem Key.text_eq_append (sha1 : ByteArray → List UInt8) (k : Key) :
    k.text sha1 = k.purpose.tag ++ k.rest sha1 := by
  cases k with
  | explain user_id item_id => exact append_three _ _ _ _
  | embedding model_name query => exact append_three _ _ _ _
  | recentClicks user_id => exact String.append_assoc
  | globalTop => exact globalTopKey_eq
  | _ => rfl

theorem Key.text_eq_iff_rest {sha1 : ByteArray → List UInt8} {k k' : Key} :
    k.text sha1 = k'.text sha1 ↔ k.purpose = k'.purpose ∧ k.rest sha1 = k'.rest sha1 := by
  rw [text_eq_append, text_eq_append, ← String.toList_inj, String.toList_append,
    String.toList_append, prefixFree_tag.append_eq, String.toList_inj]

/-! ## Reading the arguments back -/

theorem hexDigits_length (n k : ℕ) : (hexDigits n k).length = k := by
  induction k generalizing n with
  | zero => rfl
  | succ k ih => rw [hexDigits, List.length_append, ih, List.length_singleton]

theorem digitChar_inj {a b : ℕ} (ha : a < 16) (hb : b < 16) (h : Nat.digitChar a = Nat.digitChar b) :
    a = b := by
  interval_cases a <;> interval_cases b <;> first | rfl | exact absurd h (by decide)

theorem mod_eq_of_hexDigits {n m k : ℕ} (h : hexDigits n k = hexDigits m k) :
    n % 16 ^ k = m % 16 ^ k := by
  induction k generalizing n m with
  | zero => simp [Nat.mod_one]
  | succ k ih =>
    obtain ⟨hhigh, hlow⟩ := List.append_inj' h rfl
    have hdigit := digitChar_inj (Nat.mod_lt n (by decide)) (Nat.mod_lt m (by decide))
      (List.singleton_inj.mp hlow)
    have hrest := ih hhigh
    rw [Nat.pow_succ, Nat.mul_comm, Nat.mod_mul, Nat.mod_mul, hdigit, hrest]

theorem colon_notMem_hexDigits (n k : ℕ) : ':' ∉ hexDigits n k := by
  induction k generalizing n with
  | zero => exact List.not_mem_nil
  | succ k ih =>
    rw [hexDigits, List.mem_append, List.mem_singleton]
    rintro (hhigh | hlow)
    · exact ih _ hhigh
    · have hdigit : ∀ d < 16, ':' ≠ Nat.digitChar d := by decide
      exact hdigit _ (Nat.mod_lt n (by decide)) hlow

theorem colon_notMem_hexdigest (digest : List UInt8) : ':' ∉ (hexdigest digest).toList := by
  rw [hexdigest, String.toList_ofList, List.mem_flatMap]
  rintro ⟨byte, -, hcolon⟩
  exact colon_notMem_hexDigits _ _ hcolon

theorem hexdigest_injective : Function.Injective hexdigest := by
  intro digest digest' h
  have hlist := congrArg String.toList h
  rw [hexdigest, hexdigest, String.toList_ofList, String.toList_ofList] at hlist
  clear h
  induction digest generalizing digest' with
  | nil =>
    cases digest' with
    | nil => rfl
    | cons byte' digest' => simp [hexDigits] at hlist
  | cons byte digest ih =>
    cases digest' with
    | nil => simp [hexDigits] at hlist
    | cons byte' digest' =>
      obtain ⟨hbyte, hrest⟩ := List.append_inj hlist (by rw [hexDigits_length, hexDigits_length])
      have hmod := mod_eq_of_hexDigits hbyte
      have hsame : byte.toNat = byte'.toNat := by
        have hlt := byte.toNat_lt
        have hlt' := byte'.toNat_lt
        omega
      rw [UInt8.toNat_inj.mp hsame, ih hrest]

theorem uuidStr_injective : Function.Injective uuidStr := by
  intro u v h
  have hlist := congrArg String.toList h
  simp only [uuidStr, String.toList_ofList, List.map_cons, List.map_nil, List.intersperse_cons_cons,
    List.intersperse_singleton, List.flatten_cons, List.flatten_nil, List.append_nil] at hlist
  obtain ⟨h1, hlist⟩ := List.append_inj hlist (by simp [hexDigits_length])
  obtain ⟨-, hlist⟩ := List.append_inj hlist rfl
  obtain ⟨h2, hlist⟩ := List.append_inj hlist (by simp [hexDigits_length])
  obtain ⟨-, hlist⟩ := List.append_inj hlist rfl
  obtain ⟨h3, hlist⟩ := List.append_inj hlist (by simp [hexDigits_length])
  obtain ⟨-, hlist⟩ := List.append_inj hlist rfl
  obtain ⟨h4, hlist⟩ := List.append_inj hlist (by simp [hexDigits_length])
  obtain ⟨-, h5⟩ := List.append_inj hlist rfl
  have h1 := mod_eq_of_hexDigits h1
  have h2 := mod_eq_of_hexDigits h2
  have h3 := mod_eq_of_hexDigits h3
  have h4 := mod_eq_of_hexDigits h4
  have h5 := mod_eq_of_hexDigits h5
  have hu := u.isLt
  have hv := v.isLt
  apply BitVec.eq_of_toNat_eq
  norm_num at h1 h2 h3 h4 h5 hu hv
  omega

/-! ## Which keys are the same -/

theorem toList_colon : ":".toList = [':'] := by decide

/-- Both texts with the colon are the same where they are cut in the same place, or where the one is
cut later than the other. -/
theorem append_colon_eq {u i u' i' : String} : u ++ ":" ++ i = u' ++ ":" ++ i' ↔
    (u = u' ∧ i = i') ∨ CutLater u i u' i' ∨ CutLater u' i' u i := by
  have hcut : ∀ u i u' i' : String, CutLater u i u' i' ↔
      ∃ s : List Char, u.toList = u'.toList ++ ':' :: s ∧ i'.toList = s ++ ':' :: i.toList := by
    intro u i u' i'
    constructor
    · rintro ⟨s, rfl, rfl⟩
      exact ⟨s.toList, by simp [toList_colon], by simp [toList_colon]⟩
    · rintro ⟨s, hu, hi⟩
      refine ⟨String.ofList s, ?_, ?_⟩
      · apply String.toList_injective
        simp [hu, toList_colon]
      · apply String.toList_injective
        simp [hi, toList_colon]
  rw [← String.toList_inj, String.toList_append, String.toList_append, String.toList_append,
    String.toList_append, toList_colon, List.append_assoc, List.append_assoc,
    List.singleton_append, List.singleton_append, Prefix.append_sep_eq, hcut, hcut,
    String.toList_inj, String.toList_inj]
  exact or_congr_right or_comm

theorem not_cutLater_hexdigest {u u' i : String} {digest : List UInt8} :
    ¬ CutLater u i u' (hexdigest digest) := by
  rintro ⟨s, -, hdigest⟩
  have hcolon : ':' ∈ (hexdigest digest).toList := by
    rw [hdigest]
    simp [toList_colon]
  exact colon_notMem_hexdigest digest hcolon

theorem rest_embedding {sha1 : ByteArray → List UInt8} (hsha1 : Function.Injective sha1)
    {model_name query model_name' query' : String} :
    model_name ++ ":" ++ hexdigest (sha1 query.toUTF8) =
        model_name' ++ ":" ++ hexdigest (sha1 query'.toUTF8) ↔
      model_name = model_name' ∧ query = query' := by
  rw [append_colon_eq]
  constructor
  · rintro (⟨hmodel, hdigest⟩ | hcut | hcut)
    · exact ⟨hmodel, String.toByteArray_inj.mp (hsha1 (hexdigest_injective hdigest))⟩
    · exact absurd hcut not_cutLater_hexdigest
    · exact absurd hcut not_cutLater_hexdigest
  · rintro ⟨rfl, rfl⟩
    exact .inl ⟨rfl, rfl⟩

theorem Key.text_eq_iff {sha1 : ByteArray → List UInt8} (hsha1 : Function.Injective sha1)
    (k k' : Key) :
    k.text sha1 = k'.text sha1 ↔ k = k' ∨ Aliased k k' := by
  rw [text_eq_iff_rest]
  cases k with
  | item item_id =>
    cases k' with
    | item item_id' => simp [purpose, rest, Aliased]
    | _ => simp [purpose, Aliased]
  | lock item_id =>
    cases k' with
    | lock item_id' => simp [purpose, rest, Aliased]
    | _ => simp [purpose, Aliased]
  | explain user_id item_id =>
    cases k' with
    | explain user_id' item_id' => simp only [purpose, rest, Aliased, true_and, append_colon_eq, explain.injEq]
    | _ => simp [purpose, Aliased]
  | embedding model_name query =>
    cases k' with
    | embedding model_name' query' =>
      simp only [purpose, rest, Aliased, true_and, rest_embedding hsha1, embedding.injEq, or_false]
    | _ => simp [purpose, Aliased]
  | recentClicks user_id =>
    cases k' with
    | recentClicks user_id' =>
      simp [purpose, rest, Aliased]
    | _ => simp [purpose, Aliased]
  | popularity category =>
    cases k' with
    | popularity category' => simp [purpose, rest, Aliased]
    | _ => simp [purpose, Aliased]
  | top category =>
    cases k' with
    | top category' => simp [purpose, rest, Aliased]
    | globalTop => simp only [purpose, rest, Aliased, true_and, reduceCtorEq, false_or]
    | _ => simp [purpose, Aliased]
  | globalTop =>
    cases k' with
    | top category' =>
      simp only [purpose, rest, Aliased, true_and, reduceCtorEq, false_or]
      exact eq_comm
    | globalTop => simp
    | _ => simp [purpose, Aliased]
  | dedupeEvent event_id =>
    cases k' with
    | dedupeEvent event_id' =>
      simp [purpose, rest, Aliased, uuidStr_injective.eq_iff]
    | _ => simp [purpose, Aliased]
  | dedupeConsumer event_id =>
    cases k' with
    | dedupeConsumer event_id' =>
      simp [purpose, rest, Aliased, uuidStr_injective.eq_iff]
    | _ => simp [purpose, Aliased]

/-- **The keyspace does not alias.** With a collision-free digest the keys of two different purposes
with their arguments differ, except these: the explanations for two pairs where one user id goes on
after the other with a colon and the start of the other item id, and the top set of the category
`_global`, which is the global one. -/
theorem keys_differ_iff (sha1 : ByteArray → List UInt8) (hsha1 : Function.Injective sha1)
    (k k' : Key) (hne : k ≠ k') :
    k.text sha1 ≠ k'.text sha1 ↔ ¬ Aliased k k' := by
  rw [Ne, Key.text_eq_iff hsha1]
  exact not_congr (or_iff_right hne)

theorem keys_differ_iff_shoes :
    Key.top "shoes" ≠ .globalTop ∧
      ((Key.top "shoes").text (fun bytes => bytes.data.toList) ≠
          Key.globalTop.text (fun bytes => bytes.data.toList) ↔
        ¬ Aliased (.top "shoes") .globalTop) :=
  ⟨nofun, keys_differ_iff (fun bytes => bytes.data.toList)
    (fun _ _ h => ByteArray.ext (Array.toList_inj.mp h)) _ _ nofun⟩

/-- Two pairs of a user and an item with one explanation, and a category whose top set is the
global one. -/
theorem explain_and_top_keys_alias :
    explainKey "ann:a" "b" = explainKey "ann" "a:b" ∧ topKey "_global" = globalTopKey ∧
      ¬ ∀ (sha1 : ByteArray → List UInt8), Function.Injective sha1 → ∀ k k' : Key, k ≠ k' →
        k.text sha1 ≠ k'.text sha1 := by
  refine ⟨by decide, by decide, fun h => ?_⟩
  exact h (fun bytes => bytes.data.toList) (fun _ _ h => ByteArray.ext (Array.toList_inj.mp h))
    (.top "_global") .globalTop nofun (by decide)

end ClickRec.Cache
