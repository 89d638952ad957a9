namespace Linkage.Text

namespace Utf16

def isHighSurrogate (u : UInt16) : Bool := 0xD800 ≤ u && u < 0xDC00

def isLowSurrogate (u : UInt16) : Bool := 0xDC00 ≤ u && u < 0xE000

def ofChar (c : Char) : List UInt16 :=
  let n := c.toNat
  if n < 0x10000 then
    [n.toUInt16]
  else
    [(0xD800 + (n - 0x10000) / 0x400).toUInt16, (0xDC00 + (n - 0x10000) % 0x400).toUInt16]

def encode (cs : List Char) : List UInt16 :=
  cs.flatMap ofChar

def pair (high low : UInt16) : Char :=
  Char.ofNat (0x10000 + (high.toNat - 0xD800) * 0x400 + (low.toNat - 0xDC00))

def decode : List UInt16 → Option (List Char)
  | [] => some []
  | [u] =>
      if isHighSurrogate u || isLowSurrogate u then none else some [Char.ofNat u.toNat]
  | u :: v :: rest =>
      if isLowSurrogate u then
        none
      else if isHighSurrogate u then
        if isLowSurrogate v then (decode rest).map (pair u v :: ·) else none
      else
        (decode (v :: rest)).map (Char.ofNat u.toNat :: ·)

end Utf16

end Linkage.Text
