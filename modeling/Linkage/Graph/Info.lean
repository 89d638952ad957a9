import Linkage.ClassFile.Descriptor
import Linkage.Graph.Record
import Linkage.Mangle

namespace Linkage

structure ClassId where
  index : Nat
  deriving DecidableEq, Repr

structure FieldRef where
  owner : ClassId
  index : Nat
  deriving DecidableEq, Repr

structure MethodRef where
  owner : ClassId
  index : Nat
  deriving DecidableEq, Repr

inductive FieldCategory where
  | wide
  | word
  | half
  | byte
  | reference
  deriving DecidableEq, Repr

namespace FieldCategory

def ofType : FieldType → FieldCategory
  | .base .double => wide
  | .base .long => wide
  | .base .int => word
  | .base .float => word
  | .base .short => half
  | .base .char => half
  | .base .boolean => byte
  | .base .byte => byte
  | .object _ => reference
  | .array _ => reference

def rank : FieldCategory → Nat
  | wide => 0
  | word => 1
  | half => 2
  | byte => 3
  | reference => 4

def width : FieldCategory → Nat
  | wide => 8
  | word => 4
  | half => 2
  | byte => 1
  | reference => 8

def isReference : FieldCategory → Bool
  | reference => true
  | _ => false

theorem isReference_ofType (t : FieldType) : (ofType t).isReference = t.isReference := by
  cases t with
  | base b => cases b <;> rfl
  | object _ => rfl
  | array _ => rfl

end FieldCategory

structure FieldInfo where
  decl : FieldDecl
  type : FieldType
  deriving DecidableEq, Repr

namespace FieldInfo

def ofDecl (decl : FieldDecl) : Except FormatError FieldInfo := do
  let type ← FieldType.ofDescriptor decl.descriptor
  return ⟨decl, type⟩

def access (f : FieldInfo) : Access := f.decl.access
def name (f : FieldInfo) : String := f.decl.name
def descriptor (f : FieldInfo) : String := f.decl.descriptor
def category (f : FieldInfo) : FieldCategory := .ofType f.type
def mangledName (f : FieldInfo) : String := Mangle.fieldName f.name

def isNamed (f : FieldInfo) (name descriptor : String) : Bool :=
  f.name = name && f.descriptor = descriptor

end FieldInfo

structure MethodInfo where
  decl : MethodDecl
  type : MethodType
  isClassInitializer : Bool
  deriving DecidableEq, Repr

namespace MethodInfo

-- Up to the version that introduced the stricter rule a class initializer is known by its name
-- alone; from then on it is static, has no parameters and gives no result.
def ofDecl (version : ClassVersion) (decl : MethodDecl) : Except FormatError MethodInfo := do
  let type ← MethodType.ofDescriptor decl.descriptor
  let strict := decl.access.isStatic && type.params.isEmpty && type.result = .void
  return {
    decl, type,
    isClassInitializer :=
      decl.name = "<clinit>" && (version.before .strictInitializers || strict) }

def access (m : MethodInfo) : Access := m.decl.access
def name (m : MethodInfo) : String := m.decl.name
def descriptor (m : MethodInfo) : String := m.decl.descriptor
def mangledName (m : MethodInfo) : String := Mangle.methodName m.name

def isNamed (m : MethodInfo) (name descriptor : String) : Bool :=
  m.name = name && m.descriptor = descriptor

def isPublic (m : MethodInfo) : Bool := m.access.isPublic
def isPrivate (m : MethodInfo) : Bool := m.access.isPrivate
def isProtected (m : MethodInfo) : Bool := m.access.isProtected
def isStatic (m : MethodInfo) : Bool := m.access.isStatic
def isAbstract (m : MethodInfo) : Bool := m.access.isAbstract

def isConstructor (m : MethodInfo) : Bool := m.name = "<init>"

def isConcrete (m : MethodInfo) : Bool := !m.isAbstract && !m.access.isNative

def isFinalizer (m : MethodInfo) : Bool := m.isNamed "finalize" "()V"

def isVirtual (m : MethodInfo) : Bool :=
  !m.isPrivate && !m.isStatic && !m.isConstructor && !m.isClassInitializer

def isInheritable (m : MethodInfo) : Bool :=
  !m.isPrivate && !m.isStatic

def argumentSlots (m : MethodInfo) : Nat :=
  m.type.params.length + if m.isStatic then 0 else 1

end MethodInfo

structure PlacedField where
  field : FieldRef
  category : FieldCategory
  deriving DecidableEq, Repr

structure InterfaceSlot where
  methodIndex : Nat
  vtableIndex : Nat
  deriving DecidableEq, Repr

structure InterfaceEntry where
  interface : ClassId
  slots : List InterfaceSlot
  deriving DecidableEq, Repr

namespace InterfaceEntry

-- Halves the slots, which are in the order of their methods, until one is left.
def search (methodIndex : Nat) (slots : List InterfaceSlot) : Option InterfaceSlot :=
  if h : 1 < slots.length then
    have hhalf : slots.length / 2 < slots.length := by omega
    if methodIndex < slots[slots.length / 2].methodIndex then
      search methodIndex (slots.take (slots.length - slots.length / 2))
    else
      search methodIndex (slots.drop (slots.length / 2))
  else
    slots.head?.filter (·.methodIndex = methodIndex)
termination_by slots.length
decreasing_by
  · rw [List.length_take]; omega
  · rw [List.length_drop]; omega

def vtableIndex? (entry : InterfaceEntry) (methodIndex : Nat) : Option Nat :=
  (search methodIndex entry.slots).map (·.vtableIndex)

end InterfaceEntry

structure ClassInfo where
  id : ClassId
  name : String
  version : ClassVersion
  signature : Option String
  origin : Origin
  access : Access
  modifiers : Access
  superClass : Option ClassId
  interfaces : List ClassId
  fields : List FieldInfo
  methods : List MethodInfo
  staticFields : List PlacedField
  instanceFields : List PlacedField
  vtable : List MethodRef
  interfaceTable : List InterfaceEntry
  deriving DecidableEq, Repr

namespace ClassInfo

def isInterface (info : ClassInfo) : Bool := info.access.isInterface
def isAbstract (info : ClassInfo) : Bool := info.access.isAbstract
def package (info : ClassInfo) : String := ClassName.package info.name
def mangledName (info : ClassInfo) : String := Mangle.className info.name

def directSupertypes (info : ClassInfo) : List ClassId :=
  info.superClass.toList ++ info.interfaces

def methodRefs (info : ClassInfo) : List (MethodRef × MethodInfo) :=
  info.methods.zipIdx.map fun (m, index) => (⟨info.id, index⟩, m)

def virtualMethods (info : ClassInfo) : List MethodRef :=
  (info.methodRefs.filter fun (_, m) => m.isVirtual).map (·.1)

def findField? (info : ClassInfo) (name descriptor : String) : Option FieldRef :=
  (info.fields.findIdx? (·.isNamed name descriptor)).map (⟨info.id, ·⟩)

def findMethod? (info : ClassInfo) (name descriptor : String) : Option MethodRef :=
  (info.methods.findIdx? (·.isNamed name descriptor)).map (⟨info.id, ·⟩)

def staticSlot? (info : ClassInfo) (field : FieldRef) : Option Nat :=
  info.staticFields.findIdx? (·.field = field)

def instanceSlot? (info : ClassInfo) (field : FieldRef) : Option Nat :=
  info.instanceFields.findIdx? (·.field = field)

def entryFor? (info : ClassInfo) (interface : ClassId) : Option InterfaceEntry :=
  info.interfaceTable.find? (·.interface = interface)

def referenceSlots (info : ClassInfo) : List Nat :=
  (info.instanceFields.zipIdx.filter (·.1.category.isReference)).map (·.2)

end ClassInfo

end Linkage
