import Linkage.Classpath.Disk
import Linkage.Files.Archive.Member
import Linkage.Files.Path

namespace Linkage

namespace Found

def walkedFile (location : String) (content : Bytes) : Except LoadError WalkedFile :=
  if (Path.parent? location).any Path.isTooLong then
    .error (.unreadable location)
  else if Path.isTooLong location then
    .ok ⟨location, true, .error (.unreadable location)⟩
  else
    .ok ⟨location, true, .ok content⟩

-- Each directory by file name, and what is below it at its place.
def sortFiles (files : List (Place × Bytes)) : List (Place × Bytes) :=
  files.mergeSort fun a b => !(b.1 < a.1)

def walk (path : String) : Found → List (Except LoadError WalkedFile)
  | missing => [.error (.unreadable path)]
  | file content => [walkedFile path content]
  | directory files =>
      (sortFiles files).map fun (place, content) => walkedFile (place.foldl Path.join path) content

def archivedFile (path : String) (data : ByteArray) (entry : Archive.Entry) :
    Except LoadError ArchivedFile :=
  let location := path ++ "!/" ++ entry.name
  match Archive.packed? data entry with
  | none => .error (.unopenable location)
  | some packed =>
      let isFile := !entry.name.endsWith "/"
      .ok ⟨entry.name, isFile,
        (Archive.unpack? entry packed).elim (.error (.unreadable location)) .ok⟩

def archive (path : String) : Found → Except LoadError (List (Except LoadError ArchivedFile))
  | missing => .error (.unreadable path)
  | directory _ => .error (.notAnArchive path)
  | file content =>
      let data := ByteArray.mk content.toArray
      match Archive.directory? data with
      | some entries => .ok (entries.map (archivedFile path data))
      | none => .error (.notAnArchive path)

end Found

-- The readers the program is run with. What is proved about loading holds of any others.
def Disk.ofFound (find : String → Found) : Disk where
  find
  walk path := (find path).walk path
  archive path := (find path).archive path

end Linkage
