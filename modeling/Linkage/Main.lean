import Linkage.CommandLine
import Linkage.Files.Listing

namespace Linkage.Program

def diskOf (found : List (String × Found)) : Disk :=
  .ofFound fun path => (found.lookup path).getD .missing

partial def filesBelow (place : Place) (entry : IO.FS.DirEntry) : IO (List (Place × Bytes)) := do
  let place := place ++ [entry.fileName]
  match (← entry.path.symlinkMetadata).type with
  | .dir => return (← (← entry.path.readDir).toList.mapM (filesBelow place)).flatten
  | .file => return [(place, (← IO.FS.readBinFile entry.path).data.toList)]
  | _ => return []

def find (path : String) : IO Found := do
  let entry : IO.FS.DirEntry := ⟨".", path⟩
  match (← entry.path.metadata).type with
  | .dir => return .directory (← (← entry.path.readDir).toList.mapM (filesBelow [])).flatten
  | .file => return .file (← IO.FS.readBinFile entry.path).data.toList
  | _ => return .missing

def snapshot (paths : List String) : IO Disk := do
  let found ← paths.mapM fun path => do
    if path = "" then
      return (path, .missing)
    else
      try
        return (path, ← find path)
      catch _ =>
        return (path, .missing)
  return diskOf found

end Linkage.Program

open Linkage in
-- The configuration file is read first, since it may name more paths.
def main (arguments : List String) : IO UInt32 := do
  let disk ← Program.snapshot (CommandLine.paths (Program.diskOf []) arguments)
  let disk ← Program.snapshot (CommandLine.paths disk arguments)
  let outcome := CommandLine.run disk arguments
  IO.print outcome.stdout
  IO.eprint outcome.stderr
  return outcome.exit.toUInt32
