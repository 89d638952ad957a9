import Linkage.Classpath.Entry
import Linkage.Graph.Basic

namespace Linkage.ClassGraph

def addAll (g : ClassGraph) (records : List ClassRecord) (origin : Origin) : ClassGraph :=
  records.foldl (fun g record => (g.add record origin).2) g

def load (reader : EntryReader) (origin : Origin) :
    List ClasspathEntry → ClassGraph → Except LoadError Nat × ClassGraph
  | [], g => (.ok 0, g)
  | entry :: rest, g =>
      match entry.read reader origin with
      | .error e => (.error e, g)
      | .ok records =>
          let (count, g) := load reader origin rest (g.addAll records origin)
          (count.map (records.length + ·), g)

end Linkage.ClassGraph
