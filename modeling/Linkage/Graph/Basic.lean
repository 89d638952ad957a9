import Linkage.Graph.Error
import Linkage.Graph.Info

namespace Linkage

inductive Status where
  | unlinked
  | linking
  | drafted (info : ClassInfo)
  | linked (info : ClassInfo)
  deriving DecidableEq, Repr

namespace Status

def info? : Status → Option ClassInfo
  | unlinked => none
  | linking => none
  | drafted info => some info
  | linked info => some info

def isLinked : Status → Bool
  | linked _ => true
  | _ => false

end Status

structure Slot where
  record : ClassRecord
  origin : Origin
  status : Status
  deriving DecidableEq, Repr

structure ClassGraph where
  slots : Array Slot
  deriving Repr

namespace ClassGraph

def empty : ClassGraph := ⟨#[]⟩

def size (g : ClassGraph) : Nat := g.slots.size

def ids (g : ClassGraph) : List ClassId :=
  (List.range g.size).map ClassId.mk

def slot? (g : ClassGraph) (id : ClassId) : Option Slot :=
  g.slots[id.index]?

def record? (g : ClassGraph) (id : ClassId) : Option ClassRecord :=
  (g.slot? id).map (·.record)

def origin? (g : ClassGraph) (id : ClassId) : Option Origin :=
  (g.slot? id).map (·.origin)

def name (g : ClassGraph) (id : ClassId) : String :=
  match g.slot? id with
  | some slot => slot.record.name
  | none => ""

def status (g : ClassGraph) (id : ClassId) : Status :=
  match g.slot? id with
  | some slot => slot.status
  | none => .unlinked

def isLinked (g : ClassGraph) (id : ClassId) : Bool :=
  (g.status id).isLinked

def info? (g : ClassGraph) (id : ClassId) : Option ClassInfo :=
  (g.status id).info?

def find? (g : ClassGraph) (origin : Origin) (name : String) : Option ClassId :=
  (g.slots.findIdx? fun slot => slot.origin = origin && slot.record.name = name).map ClassId.mk

def lookup (g : ClassGraph) (name : String) : Option ClassId :=
  (g.find? .application name).or (g.find? .runtime name)

def add (g : ClassGraph) (record : ClassRecord) (origin : Origin) : ClassId × ClassGraph :=
  match g.find? origin record.name with
  | some id => (id, g)
  | none => (⟨g.size⟩, ⟨g.slots.push ⟨record, origin, .unlinked⟩⟩)

def minimal : ClassGraph :=
  (empty.add .minimalRoot .runtime).2

def classes (g : ClassGraph) (origin : Origin) : List ClassId :=
  (g.ids.filter fun id => g.origin? id = some origin).mergeSort fun a b => !(g.name b < g.name a)

def setStatus (g : ClassGraph) (id : ClassId) (status : Status) : ClassGraph :=
  ⟨g.slots.modify id.index fun slot => { slot with status }⟩

def linkedCount (g : ClassGraph) : Nat :=
  g.slots.countP (·.status.isLinked)

def violation (g : ClassGraph) (id : ClassId) (fault : LinkFault) : LinkError :=
  ⟨g.name id, fault⟩

def require (g : ClassGraph) (id : ClassId) : Except LinkError ClassInfo :=
  match g.info? id with
  | some info => .ok info
  | none => .error (g.violation id .notLinked)

def field? (g : ClassGraph) (ref : FieldRef) : Option FieldInfo :=
  (g.info? ref.owner).bind fun info => info.fields[ref.index]?

def method? (g : ClassGraph) (ref : MethodRef) : Option MethodInfo :=
  (g.info? ref.owner).bind fun info => info.methods[ref.index]?

def declaredField? (g : ClassGraph) (id : ClassId) (name descriptor : String) : Option FieldRef :=
  (g.info? id).bind fun info => info.findField? name descriptor

def declaredMethod? (g : ClassGraph) (id : ClassId) (name descriptor : String) :
    Option MethodRef :=
  (g.info? id).bind fun info => info.findMethod? name descriptor

def isInterface (g : ClassGraph) (id : ClassId) : Bool :=
  (g.info? id).any (·.isInterface)

def superClass? (g : ClassGraph) (id : ClassId) : Option ClassId :=
  (g.info? id).bind (·.superClass)

def fieldSignature (g : ClassGraph) (ref : FieldRef) : String :=
  match g.field? ref with
  | some f => g.name ref.owner ++ "." ++ f.name ++ ":" ++ f.descriptor
  | none => g.name ref.owner

def methodSignature (g : ClassGraph) (ref : MethodRef) : String :=
  match g.method? ref with
  | some m => g.name ref.owner ++ "." ++ m.name ++ m.descriptor
  | none => g.name ref.owner

def methodHas (g : ClassGraph) (ref : MethodRef) (p : MethodInfo → Bool) : Bool :=
  (g.method? ref).any p

end ClassGraph

end Linkage
