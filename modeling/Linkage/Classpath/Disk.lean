import Linkage.Bytes
import Linkage.ClassFile.Error

namespace Linkage

inductive LoadError where
  | unreadable (path : String)
  | notAnArchive (path : String)
  | unopenable (location : String)
  | classFile (location : String) (error : FormatError)
  deriving DecidableEq, Repr

namespace LoadError

def message : LoadError → String
  | unreadable path => "io error: cannot read " ++ path
  | notAnArchive path => "zip error: " ++ path ++ " is not an archive"
  | unopenable location => "zip error: cannot open " ++ location
  | classFile location error => location ++ ": classfile error: " ++ error.message

def report : LoadError → String
  | classFile location error => (classFile location error).message ++ ": " ++ error.message
  | e => e.message

end LoadError

abbrev Place := List String

inductive Found where
  | missing
  | file (content : Bytes)
  | directory (files : List (Place × Bytes))
  deriving DecidableEq, Repr

structure WalkedFile where
  path : String
  isFile : Bool
  content : Except LoadError Bytes

structure ArchivedFile where
  name : String
  isFile : Bool
  content : Except LoadError Bytes

-- What is read is asked of the system and of the readers of directories and archives. Nothing is
-- assumed of their answers.
structure Disk where
  find : String → Found
  walk : String → List (Except LoadError WalkedFile)
  archive : String → Except LoadError (List (Except LoadError ArchivedFile))

instance : CoeFun Disk fun _ => String → Found := ⟨Disk.find⟩

end Linkage
