import Linkage.Text.Utf16

namespace Linkage.Text

namespace ModifiedUtf8

def encodeUnit (u : UInt16) : List UInt8 :=
  let n := u.toNat
  if 0 < n ∧ n < 0x80 then
    [n.toUInt8]
  else if n < 0x800 then
    [(0xC0 + n / 0x40).toUInt8, (0x80 + n % 0x40).toUInt8]
  else
    [(0xE0 + n / 0x1000).toUInt8, (0x80 + n / 0x40 % 0x40).toUInt8, (0x80 + n % 0x40).toUInt8]

def encode (s : String) : List UInt8 :=
  (Utf16.encode s.toList).flatMap encodeUnit

def isContinuation (b : UInt8) : Bool := 0x80 ≤ b && b < 0xC0

-- Reads groups by their first byte. A group is not required to be the shortest for its unit.
def decodeUnits : List UInt8 → Option (List UInt16)
  | [] => some []
  | a :: rest =>
      if a = 0 then
        none
      else if a < 0x80 then
        (decodeUnits rest).map (a.toUInt16 :: ·)
      else if a < 0xC0 then
        none
      else if a < 0xE0 then
        match rest with
        | b :: rest =>
            if isContinuation b then
              (decodeUnits rest).map
                (((a.toNat - 0xC0) * 0x40 + (b.toNat - 0x80)).toUInt16 :: ·)
            else
              none
        | [] => none
      else if a < 0xF0 then
        match rest with
        | b :: c :: rest =>
            if isContinuation b && isContinuation c then
              (decodeUnits rest).map
                (((a.toNat - 0xE0) * 0x1000 + (b.toNat - 0x80) * 0x40
                  + (c.toNat - 0x80)).toUInt16 :: ·)
            else
              none
        | _ => none
      else
        none

def decode (bytes : List UInt8) : Option String := do
  let units ← decodeUnits bytes
  let chars ← Utf16.decode units
  return String.ofList chars

end ModifiedUtf8

end Linkage.Text
