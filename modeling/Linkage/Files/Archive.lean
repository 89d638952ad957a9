import Linkage.Files.Checksum

namespace Linkage

structure ArchiveMember where
  name : String
  content : Bytes
  deriving DecidableEq, Repr

namespace Archive

def number : (width n : Nat) → Bytes
  | 0, _ => []
  | width + 1, n => (n % 256).toUInt8 :: number width (n / 256)

def memberMark : Nat := 0x04034B50
def directoryMark : Nat := 0x02014B50
def endMark : Nat := 0x06054B50

def utf8Flag : Nat := 0x0800

def earliestDate : Nat := 0x0021

def nameBytes (m : ArchiveMember) : Bytes :=
  m.name.toUTF8.data.toList

def description (m : ArchiveMember) : Bytes :=
  number 2 20 ++ number 2 utf8Flag ++ number 2 0 ++ number 2 0 ++ number 2 earliestDate
    ++ number 4 (Checksum.crc32 m.content).toNat
    ++ number 4 m.content.length ++ number 4 m.content.length
    ++ number 2 (nameBytes m).length ++ number 2 0

def encodeMember (m : ArchiveMember) : Bytes :=
  number 4 memberMark ++ description m ++ nameBytes m ++ m.content

def encodeEntry (m : ArchiveMember) (offset : Nat) : Bytes :=
  number 4 directoryMark ++ number 2 20 ++ description m
    ++ number 2 0 ++ number 2 0 ++ number 2 0 ++ number 4 0 ++ number 4 offset ++ nameBytes m

def encodeDirectory : List ArchiveMember → (offset : Nat) → Bytes
  | [], _ => []
  | m :: rest, offset =>
      encodeEntry m offset ++ encodeDirectory rest (offset + (encodeMember m).length)

def encode (members : List ArchiveMember) : Bytes :=
  let data := members.flatMap encodeMember
  let directory := encodeDirectory members 0
  data ++ directory ++ number 4 endMark ++ number 2 0 ++ number 2 0
    ++ number 2 members.length ++ number 2 members.length
    ++ number 4 directory.length ++ number 4 data.length ++ number 2 0

end Archive

end Linkage
