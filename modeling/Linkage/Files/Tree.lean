import Linkage.Files.Listing

namespace Linkage

structure FileTree where
  files : List (Place × Bytes)
  directories : List Place
  deriving DecidableEq, Repr

namespace FileTree

def empty : FileTree := ⟨[], []⟩

def isDirectory (t : FileTree) (place : Place) : Bool :=
  place.isEmpty || t.directories.contains place

def file? (t : FileTree) (place : Place) : Option Bytes :=
  t.files.lookup place

def below (t : FileTree) (place : Place) : List (Place × Bytes) :=
  t.files.filterMap fun (p, content) =>
    if place.isPrefixOf p then some (p.drop place.length, content) else none

def follow (t : FileTree) : Place → List String → Found
  | place, [] => .directory (t.below place)
  | place, segment :: rest =>
      if segment = "" || segment = "." then
        t.follow place rest
      else if segment = ".." then
        if place.isEmpty then .missing else t.follow place.dropLast rest
      else
        let next := place ++ [segment]
        if t.isDirectory next then
          t.follow next rest
        else
          match t.file? next, rest with
          | some content, [] => .file content
          | _, _ => .missing

def find (t : FileTree) (path : String) : Found :=
  if path = "" || Path.isAbsolute path || Path.isTooLong path then
    .missing
  else
    t.follow [] (Path.segments path)

def disk (t : FileTree) : Disk :=
  .ofFound t.find

def isName (name : String) : Bool :=
  name ≠ "" && name ≠ "." && name ≠ ".." && name.utf8ByteSize ≤ 255 && !name.toList.contains '\x00'

def addDirectory (t : FileTree) (place : Place) : Option FileTree :=
  if t.isDirectory place then
    some t
  else if (t.file? place).isSome then
    none
  else
    some { t with directories := place :: t.directories }

def makeDirectories : FileTree → Place → List String → Option (FileTree × Place)
  | t, place, [] => some (t, place)
  | t, place, segment :: rest =>
      if segment = "" || segment = "." then
        makeDirectories t place rest
      else if segment = ".." then
        makeDirectories t place.dropLast rest
      else do
        guard (isName segment)
        let t ← t.addDirectory (place ++ [segment])
        makeDirectories t (place ++ [segment]) rest

def makeDirectory (t : FileTree) (path : String) : Option FileTree := do
  guard (!Path.isTooLong path)
  let (t, _) ← makeDirectories t [] (Path.segments path)
  return t

def write (t : FileTree) (path : String) (content : Bytes) : Option FileTree := do
  guard (!Path.isTooLong path)
  let segments := Path.segments path
  let name ← segments.getLast?
  guard (isName name)
  let (t, place) ← makeDirectories t [] segments.dropLast
  let place := place ++ [name]
  if t.isDirectory place then
    none
  else
    some { t with files := (place, content) :: t.files.filter (·.1 ≠ place) }

end FileTree

end Linkage
