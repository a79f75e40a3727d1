import Mathlib.Data.List.Basic
import Mathlib.Tactic

/-! What a consumer receives from Kafka: records with their topic, partition and offset, and the
outcome `consumer.py` keeps of each of them. -/
namespace ClickRec.Kafka
set_option autoImplicit false

abbrev Bytes := List UInt8

/-! ## Decoding with `errors="replace"` -/

def contByte (lo hi : ℕ) (b : UInt8) : Bool := lo ≤ b.toNat && b.toNat ≤ hi

/-- `raw.decode("utf-8", errors="replace")`: every maximal ill-formed prefix becomes one U+FFFD. -/
def decodeReplace : Bytes → List Char
  | [] => []
  | b :: rest =>
    let n := b.toNat
    if n < 0x80 then Char.ofNat n :: decodeReplace rest
    else if 0xC2 ≤ n ∧ n ≤ 0xDF then
      match rest with
      | c :: more =>
        if contByte 0x80 0xBF c then
          Char.ofNat ((n - 0xC0) * 64 + (c.toNat - 0x80)) :: decodeReplace more
        else '\uFFFD' :: decodeReplace (c :: more)
      | [] => ['\uFFFD']
    else if 0xE0 ≤ n ∧ n ≤ 0xEF then
      -- no overlong form after E0, no surrogate after ED
      let lo := if n = 0xE0 then 0xA0 else 0x80
      let hi := if n = 0xED then 0x9F else 0xBF
      match rest with
      | c :: d :: more =>
        if contByte lo hi c then
          if contByte 0x80 0xBF d then
            Char.ofNat ((n - 0xE0) * 4096 + (c.toNat - 0x80) * 64 + (d.toNat - 0x80)) ::
              decodeReplace more
          else '\uFFFD' :: decodeReplace (d :: more)
        else '\uFFFD' :: decodeReplace (c :: d :: more)
      | [c] => if contByte lo hi c then ['\uFFFD'] else '\uFFFD' :: decodeReplace [c]
      | [] => ['\uFFFD']
    else if 0xF0 ≤ n ∧ n ≤ 0xF4 then
      let lo := if n = 0xF0 then 0x90 else 0x80
      let hi := if n = 0xF4 then 0x8F else 0xBF
      match rest with
      | c :: d :: e :: more =>
        if contByte lo hi c then
          if contByte 0x80 0xBF d then
            if contByte 0x80 0xBF e then
              Char.ofNat ((n - 0xF0) * 262144 + (c.toNat - 0x80) * 4096 + (d.toNat - 0x80) * 64 +
                (e.toNat - 0x80)) :: decodeReplace more
            else '\uFFFD' :: decodeReplace (e :: more)
          else '\uFFFD' :: decodeReplace (d :: e :: more)
        else '\uFFFD' :: decodeReplace (c :: d :: e :: more)
      | [c, d] =>
        if contByte lo hi c then
          if contByte 0x80 0xBF d then ['\uFFFD'] else '\uFFFD' :: decodeReplace [d]
        else '\uFFFD' :: decodeReplace [c, d]
      | [c] => if contByte lo hi c then ['\uFFFD'] else '\uFFFD' :: decodeReplace [c]
      | [] => ['\uFFFD']
    else '\uFFFD' :: decodeReplace rest

def decodeUtf8Replace (raw : Bytes) : String := String.ofList (decodeReplace raw)

example : decodeUtf8Replace [0x68, 0xC3, 0xA9, 0xFF, 0xE2, 0x82] = "hé\uFFFD\uFFFD" := by decide

/-! ## Records -/

structure TopicPartition where
  topic : String
  partition : ℕ
  deriving DecidableEq, Repr

structure ConsumerRecord where
  topic : String
  partition : ℕ
  offset : ℕ
  key : Option Bytes
  value : Option Bytes
  deriving DecidableEq, Repr

inductive ProcessOutcome where
  | OK
  | DLQ_OK
  | DLQ_FAILED
  deriving DecidableEq, Repr

/-- `outcome in (ProcessOutcome.OK, ProcessOutcome.DLQ_OK)`. -/
def ProcessOutcome.committable : ProcessOutcome → Bool
  | OK => true
  | DLQ_OK => true
  | DLQ_FAILED => false

end ClickRec.Kafka
