import Linkage.Graph.CallSite

namespace Linkage

inductive FieldAccessKind where
  | getStatic
  | putStatic
  | getField
  | putField
  deriving DecidableEq, Repr

namespace FieldAccessKind

def isStatic : FieldAccessKind → Bool
  | getStatic => true
  | putStatic => true
  | _ => false

def isWrite : FieldAccessKind → Bool
  | putStatic => true
  | putField => true
  | _ => false

end FieldAccessKind

structure FieldSite where
  kind : FieldAccessKind
  owner : String
  name : String
  descriptor : String
  deriving DecidableEq, Repr

def FieldSite.signature (site : FieldSite) : String :=
  site.owner ++ "." ++ site.name ++ ":" ++ site.descriptor

structure FieldTarget where
  field : FieldRef
  isStatic : Bool
  slot : Nat
  deriving DecidableEq, Repr

namespace ClassGraph

def mayWriteFinal (g : ClassGraph) (current : ClassId) (method : MethodRef) (kind : FieldAccessKind)
    (field : FieldRef) : Bool :=
  let inInitializer := g.methodHas method fun m =>
    if kind.isStatic then m.isClassInitializer else m.isConstructor
  field.owner = current && method.owner = current && inInitializer

def selectField (g : ClassGraph) (current : ClassId) (method : MethodRef) (owner : ClassId)
    (site : FieldSite) : Except LinkError FieldTarget := do
  let isStatic := site.kind.isStatic
  match g.fieldLookup owner site.name site.descriptor with
  | none => throw (g.violation current (.noSuchField site.signature))
  | some ref =>
      match g.field? ref, g.info? ref.owner with
      | some f, some declaring =>
          let text := g.fieldSignature ref
          if !g.canAccessMember current ref.owner f.access then
            throw (g.violation current (.illegalAccess (.ofField text)))
          if f.access.isStatic ≠ isStatic then
            throw (g.violation current
              (if isStatic then .notStaticField text else .notInstanceField text))
          if site.kind.isWrite && f.access.isFinal
              && !g.mayWriteFinal current method site.kind ref then
            throw (g.violation current
              (.illegalAccess (.ofFinalField text (g.methodSignature method))))
          match if isStatic then declaring.staticSlot? ref else declaring.instanceSlot? ref with
          | some slot => return ⟨ref, isStatic, slot⟩
          | none => throw (g.violation current (.noSuchField text))
      | _, _ => throw (g.violation current (.noSuchField site.signature))

def resolveFieldAccess (options : LinkOptions) (current : ClassId) (method : MethodRef)
    (site : FieldSite) : Linking FieldTarget := do
  link options current
  let owner ← resolveClass options current site.owner
  (← get).selectField current method owner site

end ClassGraph

end Linkage
