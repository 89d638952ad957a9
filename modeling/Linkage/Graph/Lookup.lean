import Linkage.Graph.Override

namespace Linkage.ClassGraph

def fieldLookupWithin (g : ClassGraph) (name descriptor : String) :
    (depth : Nat) → ClassId → Option FieldRef
  | 0, _ => none
  | depth + 1, id =>
      match g.info? id with
      | some info =>
          (info.findField? name descriptor).or
            ((info.interfaces ++ info.superClass.toList).findSome?
              (g.fieldLookupWithin name descriptor depth))
      | none => none

def fieldLookup (g : ClassGraph) (id : ClassId) (name descriptor : String) : Option FieldRef :=
  g.fieldLookupWithin name descriptor (g.size + 1) id

def interfaceCandidates (g : ClassGraph) (id : ClassId) (name descriptor : String) :
    List MethodRef :=
  ((g.superinterfaces id).filterMap fun i => g.declaredMethod? i name descriptor).filter
    (g.methodHas · (·.isInheritable))

def maximallySpecific (g : ClassGraph) (id : ClassId) (name descriptor : String) :
    List MethodRef :=
  let candidates := g.interfaceCandidates id name descriptor
  candidates.filter fun m =>
    !candidates.any fun other => other.owner ≠ m.owner && g.isSubtype other.owner m.owner

def withoutAbstract (g : ClassGraph) (methods : List MethodRef) : List MethodRef :=
  methods.filter (g.methodHas · (!·.isAbstract))

def concreteDefaults (g : ClassGraph) (id : ClassId) (name descriptor : String) :
    List MethodRef :=
  g.withoutAbstract (g.maximallySpecific id name descriptor)

def superinterfaceMethod (g : ClassGraph) (id : ClassId) (name descriptor : String) :
    Option MethodRef :=
  match g.concreteDefaults id name descriptor with
  | [only] => some only
  | _ => (g.interfaceCandidates id name descriptor).head?

def rootMethod (g : ClassGraph) (info : ClassInfo) (name descriptor : String) :
    Option MethodRef := do
  let root ← info.superClass
  let m ← g.declaredMethod? root name descriptor
  if g.methodHas m fun m => m.isPublic && !m.isStatic then some m else none

def methodLookup (g : ClassGraph) (id : ClassId) (name descriptor : String) :
    Option MethodRef := do
  let info ← g.info? id
  if info.isInterface then
    (info.findMethod? name descriptor).or (g.rootMethod info name descriptor)
  else
    ((g.lineage id).findSome? fun c => g.declaredMethod? c name descriptor).or
      (g.superinterfaceMethod id name descriptor)

end Linkage.ClassGraph
