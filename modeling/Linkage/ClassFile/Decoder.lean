import Linkage.Bytes
import Linkage.ClassFile.Error

namespace Linkage

abbrev Decoder (α : Type) := StateT Bytes (Except FormatError) α

namespace Decoder

def take (n : Nat) : Decoder Bytes := fun input =>
  let (front, rest) := input.splitAt n
  if front.length = n then .ok (front, rest) else .error .unexpectedEnd

def byte : Decoder UInt8
  | [] => .error .unexpectedEnd
  | b :: rest => .ok (b, rest)

def word : Decoder UInt16
  | a :: b :: rest => .ok (Bytes.joinUInt16 a b, rest)
  | _ => .error .unexpectedEnd

def doubleWord : Decoder UInt32
  | a :: b :: c :: d :: rest =>
      .ok (Bytes.joinUInt32 (Bytes.joinUInt16 a b) (Bytes.joinUInt16 c d), rest)
  | _ => .error .unexpectedEnd

def quadWord : Decoder UInt64 := fun input => do
  let (high, rest) ← doubleWord input
  let (low, rest) ← doubleWord rest
  return (Bytes.joinUInt64 high low, rest)

def finished : Decoder Unit := fun input =>
  if input.isEmpty then .ok ((), []) else .error (.trailingBytes input.length)

def fold {α : Type} (step : α → Decoder α) : (n : Nat) → α → Decoder α
  | 0, acc, input => .ok (acc, input)
  | n + 1, acc, input =>
      match step acc input with
      | .ok (acc, rest) => fold step n acc rest
      | .error e => .error e

def replicate {α : Type} (n : Nat) (item : Decoder α) : Decoder (List α) := do
  let items ← fold (fun acc => do return (← item) :: acc) n []
  return items.reverse

def table {α : Type} (item : Decoder α) : Decoder (List α) := do
  let count ← word
  replicate count.toNat item

def within {α : Type} (item : Decoder α) (input : Bytes) : Except FormatError α :=
  (item input).map Prod.fst

end Decoder

end Linkage
