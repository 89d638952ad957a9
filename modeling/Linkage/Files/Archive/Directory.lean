import Linkage.Files.Archive
import Linkage.Text.CodePage437
import Linkage.Text.Utf8

namespace Linkage.Archive

def numberAt (data : ByteArray) (position : Nat) : (width : Nat) → Option Nat
  | 0 => some 0
  | width + 1 => do
      let low ← data[position]?
      return low.toNat + 256 * (← numberAt data (position + 1) width)

def slice? (data : ByteArray) (position length : Nat) : Option Bytes :=
  if position + length ≤ data.size then
    some (data.extract position (position + length)).data.toList
  else
    none

def findLast (data : ByteArray) (mark : Nat) : (candidates : Nat) → Option Nat
  | 0 => none
  | position + 1 =>
      if numberAt data position 4 = some mark then
        some position
      else
        findLast data mark position

def findFirst (data : ByteArray) (mark position : Nat) : (candidates : Nat) → Option Nat
  | 0 => none
  | candidates + 1 =>
      if numberAt data position 4 = some mark then
        some position
      else
        findFirst data mark (position + 1) candidates

structure EndRecord where
  position : Nat
  disk : Nat
  directoryDisk : Nat
  diskCount : Nat
  count : Nat
  directorySize : Nat
  directoryOffset : Nat
  commentLength : Nat
  deriving DecidableEq, Repr

namespace EndRecord

def fixedLength : Nat := 22

def maxCommentLength : Nat := 0xFFFF

def find? (data : ByteArray) : Option EndRecord := do
  let position ← findLast data endMark (data.size + 1 - fixedLength)
  guard (data.size ≤ position + fixedLength + maxCommentLength)
  let commentLength ← numberAt data (position + 20) 2
  guard (position + fixedLength + commentLength ≤ data.size)
  return {
    position, commentLength
    disk := ← numberAt data (position + 4) 2
    directoryDisk := ← numberAt data (position + 6) 2
    diskCount := ← numberAt data (position + 8) 2
    count := ← numberAt data (position + 10) 2
    directorySize := ← numberAt data (position + 12) 4
    directoryOffset := ← numberAt data (position + 16) 4 }

def isOverfull (r : EndRecord) : Bool :=
  [r.disk, r.directoryDisk, r.diskCount, r.count].contains 0xFFFF
    || [r.directorySize, r.directoryOffset].contains 0xFFFFFFFF

end EndRecord

structure Layout where
  shift : Nat
  start : Nat
  count : Nat
  deriving DecidableEq, Repr

namespace Layout

def narrow? (r : EndRecord) : Option Layout :=
  if r.directorySize + r.directoryOffset ≤ r.position then
    some {
      shift := r.position - (r.directorySize + r.directoryOffset)
      start := r.position - r.directorySize
      count := r.diskCount }
  else
    none

def locatorMark : Nat := 0x07064B50
def wideEndMark : Nat := 0x06064B50

def locatorLength : Nat := 20

def locator? (data : ByteArray) (r : EndRecord) : Option Nat :=
  let distance := locatorLength + EndRecord.fixedLength + r.commentLength
  if distance ≤ data.size && numberAt data (data.size - distance) 4 = some locatorMark then
    some (data.size - distance)
  else
    none

def wideDistance : Nat := 60

def positionBound : Nat := 1 <<< 63

def wide? (data : ByteArray) (r : EndRecord) (locator : Nat) : Option Layout := do
  let locatedDisk ← numberAt data (locator + 4) 4
  guard (r.isOverfull || r.disk = locatedDisk)
  guard (wideDistance ≤ r.position)
  let nominal ← numberAt data (locator + 8) 8
  let position ← findFirst data wideEndMark nominal (r.position - wideDistance + 1 - nominal)
  let disk ← numberAt data (position + 16) 4
  let directoryDisk ← numberAt data (position + 20) 4
  guard (disk = directoryDisk)
  let count ← numberAt data (position + 32) 8
  let offset ← numberAt data (position + 48) 8
  let shift := position - nominal
  guard (offset + shift < positionBound)
  return { shift, start := offset + shift, count }

def find? (data : ByteArray) : Option Layout := do
  let r ← EndRecord.find? data
  guard (r.isOverfull || r.disk = r.directoryDisk)
  match locator? data r with
  | some locator => wide? data r locator
  | none => narrow? r

end Layout

structure Entry where
  name : String
  isEncrypted : Bool
  isSealed : Bool
  method : Nat
  checksum : Nat
  packedSize : Nat
  size : Nat
  offset : Nat
  deriving DecidableEq, Repr

namespace Entry

def joinNumber (bytes : Bytes) : Nat :=
  bytes.foldr (fun b n => b.toNat + 256 * n) 0

def widen (n : Nat) (bytes : Bytes) : Option (Nat × Bytes) :=
  if n ≠ 0xFFFFFFFF then
    some (n, bytes)
  else if bytes.length < 8 then
    none
  else
    some (joinNumber (bytes.take 8), bytes.drop 8)

def widenAll (e : Entry) (bytes : Bytes) : Entry × Option Bytes :=
  match widen e.size bytes with
  | none => (e, none)
  | some (size, bytes) =>
      let e := { e with size }
      match widen e.packedSize bytes with
      | none => (e, none)
      | some (packedSize, bytes) =>
          let e := { e with packedSize }
          match widen e.offset bytes with
          | none => (e, none)
          | some (offset, bytes) => ({ e with offset }, some bytes)

def sealLength : Nat := 7

def sealMethod : Nat := 99

def isSeal (bytes : Bytes) : Bool :=
  [1, 2].contains (joinNumber (bytes.take 2)) && (bytes.drop 2).take 2 = [0x41, 0x45]
    && ((bytes.drop 4).take 1).all fun strength => 1 ≤ strength && strength ≤ 3

def withFields (e : Entry) : Bytes → Option Entry
  | k :: k' :: l :: l' :: rest =>
      let kind := joinNumber [k, k']
      let length := joinNumber [l, l']
      if kind = 0x0001 then
        match e.widenAll rest with
        | (e, some behind) =>
            e.withFields (rest.drop (max length (rest.length - behind.length)))
        | (e, none) => some e
      else if kind = 0x9901 then
        if length ≠ sealLength then
          none
        else if rest.length < sealLength then
          some e
        else if isSeal rest then
          { e with isSealed := true }.withFields (rest.drop (2 * sealLength))
        else
          none
      else
        e.withFields (rest.drop length)
  | _ => some e
termination_by bytes => bytes.length
decreasing_by all_goals simp only [List.length_drop, List.length_cons]; omega

def utf8Bit : Nat := 11

def read? (data : ByteArray) (shift position : Nat) : Option (Entry × Nat) := do
  guard ((← numberAt data position 4) = directoryMark)
  let flags ← numberAt data (position + 8) 2
  let nameLength ← numberAt data (position + 28) 2
  let fieldsLength ← numberAt data (position + 30) 2
  let commentLength ← numberAt data (position + 32) 2
  let name ← slice? data (position + 46) nameLength
  let fields ← slice? data (position + 46 + nameLength) fieldsLength
  let next := position + 46 + nameLength + fieldsLength + commentLength
  guard (next ≤ data.size)
  let plain : Entry := {
    name :=
      if flags.testBit utf8Bit then String.ofList (Text.Utf8.decodeLossy name)
      else Text.CodePage437.decode name
    isEncrypted := flags.testBit 0
    isSealed := false
    method := ← numberAt data (position + 10) 2
    checksum := ← numberAt data (position + 16) 4
    packedSize := ← numberAt data (position + 20) 4
    size := ← numberAt data (position + 24) 4
    offset := ← numberAt data (position + 42) 4 }
  let e ← plain.withFields fields
  guard (e.method ≠ sealMethod || e.isSealed)
  return ({ e with offset := e.offset + shift }, next)

end Entry

def entries? (data : ByteArray) (shift : Nat) : (count position : Nat) → Option (List Entry)
  | 0, _ => some []
  | count + 1, position => do
      let (entry, next) ← Entry.read? data shift position
      return entry :: (← entries? data shift count next)

def directory? (data : ByteArray) : Option (List Entry) := do
  let layout ← Layout.find? data
  entries? data layout.shift layout.count layout.start

end Linkage.Archive
