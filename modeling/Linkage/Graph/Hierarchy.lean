import Linkage.Graph.Basic

namespace Linkage.ClassGraph

def directSupertypes (g : ClassGraph) (id : ClassId) : List ClassId :=
  match g.info? id with
  | some info => info.directSupertypes
  | none => []

def visit (g : ClassGraph) : (depth : Nat) → (seen : List ClassId) → ClassId → List ClassId
  | 0, seen, _ => seen
  | depth + 1, seen, id =>
      if id ∈ seen then seen else (g.directSupertypes id).foldl (g.visit depth) (seen ++ [id])

def supertypes (g : ClassGraph) (id : ClassId) : List ClassId :=
  (g.directSupertypes id).foldl (g.visit g.size) []

def superinterfaces (g : ClassGraph) (id : ClassId) : List ClassId :=
  (g.supertypes id).filter g.isInterface

def isSubtype (g : ClassGraph) (sub sup : ClassId) : Bool :=
  sub = sup || (g.supertypes sub).contains sup

def chain (g : ClassGraph) : (length : Nat) → ClassId → List ClassId
  | 0, _ => []
  | length + 1, id =>
      match g.superClass? id with
      | some sup => sup :: g.chain length sup
      | none => []

def superclasses (g : ClassGraph) (id : ClassId) : List ClassId :=
  g.chain g.size id

def lineage (g : ClassGraph) (id : ClassId) : List ClassId :=
  id :: g.superclasses id

def isSuperclass (g : ClassGraph) (sup sub : ClassId) : Bool :=
  (g.superclasses sub).contains sup

end Linkage.ClassGraph
