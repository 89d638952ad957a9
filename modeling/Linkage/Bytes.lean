namespace Linkage

abbrev Bytes := List UInt8

namespace Bytes

def ofUInt16 (w : UInt16) : Bytes :=
  [(w >>> 8).toUInt8, w.toUInt8]

def ofUInt32 (w : UInt32) : Bytes :=
  ofUInt16 (w >>> 16).toUInt16 ++ ofUInt16 w.toUInt16

def ofUInt64 (w : UInt64) : Bytes :=
  ofUInt32 (w >>> 32).toUInt32 ++ ofUInt32 w.toUInt32

def joinUInt16 (high low : UInt8) : UInt16 :=
  high.toUInt16 <<< 8 ||| low.toUInt16

def joinUInt32 (high low : UInt16) : UInt32 :=
  high.toUInt32 <<< 16 ||| low.toUInt32

def joinUInt64 (high low : UInt32) : UInt64 :=
  high.toUInt64 <<< 32 ||| low.toUInt64

end Bytes

end Linkage
