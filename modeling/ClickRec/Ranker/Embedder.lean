import ClickRec.Cache.Keyspace
import ClickRec.Ranker.Context

/-! # `encode_query`: the query vector, cached in Redis -/
namespace ClickRec.Ranker
set_option autoImplicit false
open Cache (embeddingKey)
open Kafka (Bytes)

variable {K : Type}

/-- The SentenceTransformer, its name, and numpy's float32 arrays as bytes. -/
structure Embedder (K : Type) where
  embedding_model : String
  sha1 : ByteArray → List UInt8
  encode : (query : String) → Except PyError (List K)
  encode_payload : List K → Bytes
  decode_payload : Bytes → Except PyError (List K)

/-- The vectors of the model are read back as they were written. -/
def Embedder.Lossless (embedder : Embedder K) : Prop :=
  ∀ query vec, embedder.encode query = .ok vec →
    embedder.decode_payload (embedder.encode_payload vec) = .ok vec

variable [LinearOrder K]

/-- The vector, and the client after a possible `SET`. -/
def encodeQuery (embedder : Embedder K) (redis_client : Option (RedisClient K)) (query : String) :
    Except PyError (List K) × Option (RedisClient K) :=
  match redis_client with
  | none => (embedder.encode query, none)
  | some client =>
    let key := embeddingKey embedder.sha1 embedder.embedding_model query
    match client.get key with
    -- after a Redis error the SET is skipped as well
    | none => (embedder.encode query, some client)
    | some (some raw) => (embedder.decode_payload raw, some client)
    | some none =>
      match embedder.encode query with
      | .error e => (.error e, some client)
      | .ok vec => (.ok vec, some (client.set key (embedder.encode_payload vec)))

/-! ## What a request leaves behind -/

/-- The second client differs from the first in the cached texts only. -/
structure SameClient (client client' : RedisClient K) : Prop where
  zsets : client'.zsets = client.zsets
  outcome : client'.outcome = client.outcome

namespace SameClient
variable {client client' : RedisClient K}

theorem reply (h : SameClient client client') {α : Type} (command : RedisCommand) (a : α) :
    client'.reply command a = client.reply command a := by
  unfold RedisClient.reply
  rw [h.outcome]

theorem zrevrange (h : SameClient client client') (key : String) (start stop : ℤ) :
    client'.zrevrange key start stop = client.zrevrange key start stop := by
  unfold RedisClient.zrevrange
  rw [h.zsets, h.reply]

theorem zscores (h : SameClient client client') (reads : List (String × String)) :
    client'.zscores reads = client.zscores reads := by
  unfold RedisClient.zscores
  rw [h.zsets, h.reply]

end SameClient

inductive SameSets : Option (RedisClient K) → Option (RedisClient K) → Prop
  | missing : SameSets none none
  | started {client client' : RedisClient K} :
    SameClient client client' → SameSets (some client) (some client')

namespace SameSets
variable {redis_client redis_client' redis_client'' : Option (RedisClient K)}

theorem refl (redis_client : Option (RedisClient K)) : SameSets redis_client redis_client := by
  cases redis_client with
  | none => exact .missing
  | some client => exact .started ⟨rfl, rfl⟩

theorem symm (h : SameSets redis_client redis_client') : SameSets redis_client' redis_client := by
  cases h with
  | missing => exact .missing
  | started h => exact .started ⟨h.zsets.symm, h.outcome.symm⟩

theorem trans (h : SameSets redis_client redis_client')
    (h' : SameSets redis_client' redis_client'') : SameSets redis_client redis_client'' := by
  cases h with
  | missing => exact h'
  | started h =>
    cases h' with
    | started h' => exact .started ⟨h'.zsets.trans h.zsets, h'.outcome.trans h.outcome⟩

end SameSets

/-- A request leaves Redis alone, or has encoded the query and stores the vector. -/
theorem encodeQuery_cases (embedder : Embedder K) (client : RedisClient K) (query : String) :
    (encodeQuery embedder (some client) query).2 = some client ∨
    ∃ vec, client.get (embeddingKey embedder.sha1 embedder.embedding_model query) = some none ∧
      embedder.encode query = .ok vec ∧
      encodeQuery embedder (some client) query = (.ok vec, some (client.set
        (embeddingKey embedder.sha1 embedder.embedding_model query)
        (embedder.encode_payload vec))) := by
  unfold encodeQuery
  cases hget : client.get (embeddingKey embedder.sha1 embedder.embedding_model query) with
  | none => exact .inl (by simp only [hget])
  | some cached =>
    cases cached with
    | some raw => exact .inl (by simp only [hget])
    | none =>
      cases hvec : embedder.encode query with
      | error e => exact .inl (by simp only [hget])
      | ok vec => exact .inr ⟨vec, rfl, rfl, by simp only [hget]⟩

theorem encodeQuery_sameSets (embedder : Embedder K) (redis_client : Option (RedisClient K))
    (query : String) : SameSets redis_client (encodeQuery embedder redis_client query).2 := by
  cases redis_client with
  | none => exact .missing
  | some client =>
    obtain hsame | ⟨vec, -, -, hstored⟩ := encodeQuery_cases embedder client query
    · rw [hsame]
      exact .refl _
    · rw [hstored]
      exact .started ⟨RedisClient.set_zsets .., RedisClient.set_outcome ..⟩

/-- The bytes a `SET` leaves under its key: the new ones, or those of before where it was lost. -/
theorem RedisClient.set_strings_self (client : RedisClient K) (key : String) (value : Bytes) :
    (client.set key value).strings key = some value ∨ client.set key value = client := by
  unfold RedisClient.set
  split
  · exact .inr rfl
  · exact .inl (Function.update_self _ _ _)

/-- A second request for the same query gets the same vector, from the cache or not. -/
theorem encodeQuery_again {embedder : Embedder K} (hlossless : embedder.Lossless)
    (redis_client : Option (RedisClient K)) (query : String) :
    (encodeQuery embedder (encodeQuery embedder redis_client query).2 query).1 =
      (encodeQuery embedder redis_client query).1 := by
  cases redis_client with
  | none => rfl
  | some client =>
    obtain hsame | ⟨vec, hget, hvec, hfirst⟩ := encodeQuery_cases embedder client query
    · rw [hsame]
    · rw [hfirst]
      obtain hstored | hlost := client.set_strings_self
        (embeddingKey embedder.sha1 embedder.embedding_model query) (embedder.encode_payload vec)
      · -- the GET did not raise before, so it finds the vector now
        have hagain : (client.set (embeddingKey embedder.sha1 embedder.embedding_model query)
            (embedder.encode_payload vec)).get
              (embeddingKey embedder.sha1 embedder.embedding_model query) =
            some (some (embedder.encode_payload vec)) := by
          unfold RedisClient.get RedisClient.reply at hget ⊢
          rw [RedisClient.set_outcome]
          split at hget
          · rw [hstored]
          · cases hget
        simp only [encodeQuery, hagain]
        exact hlossless query vec hvec
      · rw [hlost, hfirst]

end ClickRec.Ranker
