import Linkage.Graph.CallSite

namespace Linkage

structure Unlinked where
  className : String
  deriving DecidableEq, Repr

def Unlinked.message (e : Unlinked) : String :=
  "class " ++ e.className ++ " has not been linked"

namespace ClassGraph.Query

def info (g : ClassGraph) (id : ClassId) : Except Unlinked ClassInfo :=
  match g.info? id with
  | some info => .ok info
  | none => .error ⟨g.name id⟩

def supertypes (g : ClassGraph) (id : ClassId) : Except Unlinked (List ClassId) := do
  let _ ← info g id
  return g.supertypes id

def superinterfaces (g : ClassGraph) (id : ClassId) : Except Unlinked (List ClassId) := do
  let _ ← info g id
  return g.superinterfaces id

def isSubtype (g : ClassGraph) (sub sup : ClassId) : Except Unlinked Bool := do
  if sub = sup then
    return true
  let _ ← info g sub
  return g.isSubtype sub sup

def isSuperclass (g : ClassGraph) (sup sub : ClassId) : Except Unlinked Bool := do
  let _ ← info g sub
  return g.isSuperclass sup sub

def declaredField (g : ClassGraph) (id : ClassId) (name descriptor : String) :
    Except Unlinked (Option FieldRef) := do
  return (← info g id).findField? name descriptor

def declaredMethod (g : ClassGraph) (id : ClassId) (name descriptor : String) :
    Except Unlinked (Option MethodRef) := do
  return (← info g id).findMethod? name descriptor

def fieldLookup (g : ClassGraph) (id : ClassId) (name descriptor : String) :
    Except Unlinked (Option FieldRef) := do
  let _ ← info g id
  return g.fieldLookup id name descriptor

def methodLookup (g : ClassGraph) (id : ClassId) (name descriptor : String) :
    Except Unlinked (Option MethodRef) := do
  let _ ← info g id
  return g.methodLookup id name descriptor

def maximallySpecific (g : ClassGraph) (id : ClassId) (name descriptor : String) :
    Except Unlinked (List MethodRef) := do
  let _ ← info g id
  return g.maximallySpecific id name descriptor

def canAccessMember (g : ClassGraph) (requester declaring : ClassId) (access : Access) :
    Except Unlinked Bool := do
  if !access.isPublic && !access.isPrivate && access.isProtected && requester ≠ declaring then
    let _ ← info g requester
  return g.canAccessMember requester declaring access

def canAccessField (g : ClassGraph) (requester : ClassId) (field : FieldRef) :
    Except Unlinked Bool := do
  match (← info g field.owner).fields[field.index]? with
  | some f => canAccessMember g requester field.owner f.access
  | none => return false

def canAccessMethod (g : ClassGraph) (requester : ClassId) (method : MethodRef) :
    Except Unlinked Bool := do
  match (← info g method.owner).methods[method.index]? with
  | some m => canAccessMember g requester method.owner m.access
  | none => return false

def specialTarget (g : ClassGraph) (current owner : ClassId) (resolved : MethodInfo) :
    Except Unlinked (Except LinkError MethodRef) := do
  let _ ← info g owner
  let _ ← info g current
  return g.specialTarget current owner resolved

end ClassGraph.Query

end Linkage
