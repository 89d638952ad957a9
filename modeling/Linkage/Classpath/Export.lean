import Linkage.Files.Archive
import Linkage.Files.Tree

namespace Linkage.Export

def fileName (name : String) : String :=
  name ++ ".class"

def classDir (root : String) (classes : List (String × Bytes)) (t : FileTree) : Option FileTree :=
  classes.foldlM
    (fun t (name, content) => t.write (Path.join root (fileName name)) content) t

def manifest : ArchiveMember where
  name := "META-INF/MANIFEST.MF"
  content := "Manifest-Version: 1.0\n".toUTF8.data.toList

def jar (classes : List (String × Bytes)) : Bytes :=
  Archive.encode (manifest :: classes.map fun (name, content) => ⟨fileName name, content⟩)

end Linkage.Export
