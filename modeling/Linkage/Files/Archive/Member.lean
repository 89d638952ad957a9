import Linkage.Files.Archive.Directory
import Linkage.Files.Checksum
import Linkage.Files.Inflate

namespace Linkage.Archive

def storedMethod : Nat := 0
def deflatedMethod : Nat := 8

def packed? (data : ByteArray) (entry : Entry) : Option ByteArray := do
  guard (!entry.isEncrypted && !entry.isSealed)
  guard ([storedMethod, deflatedMethod].contains entry.method)
  guard ((← numberAt data entry.offset 4) = memberMark)
  let nameLength ← numberAt data (entry.offset + 26) 2
  let fieldsLength ← numberAt data (entry.offset + 28) 2
  let start := entry.offset + 30 + nameLength + fieldsLength
  return data.extract start (min data.size (start + entry.packedSize))

def unpack? (entry : Entry) (packed : ByteArray) : Option Bytes := do
  let plain ← if entry.method = deflatedMethod then Inflate.inflate packed else some packed
  let bytes := plain.data.toList
  guard ((Checksum.crc32 bytes).toNat = entry.checksum)
  return bytes

end Linkage.Archive
