import Linkage.ClassFile.Parser
import Linkage.Classpath.Disk
import Linkage.Files.Path
import Linkage.Graph.Record

namespace Linkage

inductive ClasspathEntry where
  | classDir (path : String)
  | jar (path : String)
  deriving DecidableEq, Repr

structure ClassSource where
  location : String
  content : Bytes

abbrev EntryReader := ClasspathEntry → List (Except LoadError ClassSource)

namespace ClasspathEntry

def ofPath (path : String) : ClasspathEntry :=
  match (Path.extension? path).map String.toLower with
  | some "jar" => jar path
  | some "zip" => jar path
  | _ => classDir path

def path : ClasspathEntry → String
  | classDir path => path
  | jar path => path

def walkedSource? : Except LoadError WalkedFile → Option (Except LoadError ClassSource)
  | .error e => some (.error e)
  | .ok file =>
      if file.isFile && Path.extension? file.path = some "class" then
        some (file.content.map (⟨file.path, ·⟩))
      else
        none

-- Variants of classes for other versions are passed over.
def isClassMember (name : String) : Bool :=
  name.endsWith ".class" && !name.startsWith "META-INF/"

def memberSource? (path : String) :
    Except LoadError ArchivedFile → Option (Except LoadError ClassSource)
  | .error e => some (.error e)
  | .ok file =>
      if file.isFile && isClassMember file.name then
        some (file.content.map (⟨path ++ "!/" ++ file.name, ·⟩))
      else
        none

def sources (disk : Disk) : EntryReader
  | classDir path => (disk.walk path).filterMap walkedSource?
  | jar path =>
      match disk.archive path with
      | .error e => [.error e]
      | .ok members => members.filterMap (memberSource? path)

instance : Coe Disk EntryReader := ⟨sources⟩

def isDescription (name : String) : Bool :=
  name = "module-info" || name = "package-info" || name.endsWith "/package-info"

def readSource (origin : Origin) (found : Except LoadError ClassSource) :
    Except LoadError (Option ClassRecord) := do
  let source ← found
  match ClassFile.parse source.content with
  | .ok file => return if isDescription file.name then none else some (.ofFile file origin)
  | .error e => throw (.classFile source.location e)

def read (reader : EntryReader) (origin : Origin) (entry : ClasspathEntry) :
    Except LoadError (List ClassRecord) := do
  let records ← (reader entry).mapM (readSource origin)
  return records.filterMap id

end ClasspathEntry

end Linkage
