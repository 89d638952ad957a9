import Linkage.ClassFile.Error

namespace Linkage

inductive MemberKind where
  | field
  | method
  deriving DecidableEq, Repr

def MemberKind.label : MemberKind → String
  | field => "field"
  | method => "method"

inductive AccessTarget where
  | ofClass (name : String)
  | ofInterface (name : String)
  | ofMethod (signature : String)
  | ofField (signature : String)
  | ofFinalField (signature method : String)
  deriving DecidableEq, Repr

def AccessTarget.label : AccessTarget → String
  | ofClass name => "class " ++ name
  | ofInterface name => "interface " ++ name
  | ofMethod signature => "method " ++ signature
  | ofField signature => "field " ++ signature
  | ofFinalField signature method => "final field " ++ signature ++ " from " ++ method

inductive LinkFault where
  | unresolvedDependency (name : String)
  | rootWithSuper (superName : String)
  | missingSuper
  | interfaceWithSuper (root found : String)
  | superIsInterface (name : String)
  | interfaceIsClass (name : String)
  | circularInheritance
  | illegalAccess (target : AccessTarget)
  | duplicateMember (kind : MemberKind) (member : String)
  | classFormat (error : FormatError)
  | ambiguousOverride (method : String) (slots : List (Nat × String))
  | conflictingDefaults (name descriptor : String) (candidates : List String)
  | arrayCallNotVirtual (owner name descriptor : String)
  | arrayCallNotClone (owner : String)
  | ownerKindMismatch (owner : String)
  | notStaticMethod (method : String)
  | notInstanceMethod (method : String)
  | missingFromVtable (method owner : String)
  | missingFromRootVtable (method : String)
  | notInterfaceCallable (method : String)
  | notInterfaceMethod (method : String)
  | notStaticField (field : String)
  | notInstanceField (field : String)
  | ambiguousSpecial (owner name descriptor : String) (candidates : List String)
  | abstractInVtable (method : String)
  | abstractSpecial (method : String)
  | missingSpecial (owner name descriptor : String)
  | notLinked
  | duplicateSlots (first : Nat) (firstMethod : String) (second : Nat) (secondMethod : String)
  | incompatibleSlot (slot : Nat) (method inherited : String)
  | noSuchField (field : String)
  | noSuchMethod (method : String)
  deriving DecidableEq, Repr

inductive LinkErrorKind where
  | unresolvedDependency
  | malformedHierarchy
  | incompatibleHierarchy
  | circularInheritance
  | illegalAccess
  | duplicateMember
  | classFormat
  | ambiguousOverride
  | incompatibleClassChange
  | abstractMethod
  | notLinked
  | inconsistentVtable
  | noSuchField
  | noSuchMethod
  deriving DecidableEq, Repr

namespace LinkFault

def kind : LinkFault → LinkErrorKind
  | unresolvedDependency _ => .unresolvedDependency
  | rootWithSuper _ => .malformedHierarchy
  | missingSuper => .malformedHierarchy
  | interfaceWithSuper _ _ => .malformedHierarchy
  | superIsInterface _ => .incompatibleHierarchy
  | interfaceIsClass _ => .incompatibleHierarchy
  | circularInheritance => .circularInheritance
  | illegalAccess _ => .illegalAccess
  | duplicateMember _ _ => .duplicateMember
  | classFormat _ => .classFormat
  | ambiguousOverride _ _ => .ambiguousOverride
  | conflictingDefaults _ _ _ => .incompatibleClassChange
  | arrayCallNotVirtual _ _ _ => .incompatibleClassChange
  | arrayCallNotClone _ => .incompatibleClassChange
  | ownerKindMismatch _ => .incompatibleClassChange
  | notStaticMethod _ => .incompatibleClassChange
  | notInstanceMethod _ => .incompatibleClassChange
  | missingFromVtable _ _ => .incompatibleClassChange
  | missingFromRootVtable _ => .incompatibleClassChange
  | notInterfaceCallable _ => .incompatibleClassChange
  | notInterfaceMethod _ => .incompatibleClassChange
  | notStaticField _ => .incompatibleClassChange
  | notInstanceField _ => .incompatibleClassChange
  | ambiguousSpecial _ _ _ _ => .incompatibleClassChange
  | abstractInVtable _ => .abstractMethod
  | abstractSpecial _ => .abstractMethod
  | missingSpecial _ _ _ => .abstractMethod
  | notLinked => .notLinked
  | duplicateSlots _ _ _ _ => .inconsistentVtable
  | incompatibleSlot _ _ _ => .inconsistentVtable
  | noSuchField _ => .noSuchField
  | noSuchMethod _ => .noSuchMethod

def slotText (slot : Nat) (method : String) : String :=
  "#" ++ toString slot ++ " " ++ method

def reason : LinkFault → String
  | unresolvedDependency name => name
  | rootWithSuper superName => "the root class cannot have superclass " ++ superName
  | missingSuper => "class must have a superclass"
  | interfaceWithSuper root found =>
      "interface must have " ++ root ++ " as superclass, found " ++ found
  | superIsInterface name => "superclass " ++ name ++ " is an interface"
  | interfaceIsClass name => "superinterface " ++ name ++ " is not an interface"
  | circularInheritance => ""
  | illegalAccess target => target.label
  | duplicateMember kind member => kind.label ++ " " ++ member
  | classFormat error => error.message
  | ambiguousOverride method slots =>
      "method " ++ method ++ " overrides multiple vtable slots: "
        ++ String.intercalate ", " (slots.map fun (slot, inherited) => slotText slot inherited)
  | conflictingDefaults name descriptor candidates =>
      "conflicting maximally-specific methods for " ++ name ++ descriptor ++ ": "
        ++ String.intercalate ", " candidates
  | arrayCallNotVirtual owner name descriptor =>
      "array method " ++ owner ++ "." ++ name ++ descriptor
        ++ " can only be called by invokevirtual"
  | arrayCallNotClone owner =>
      "only clone()Ljava/lang/Object; can be called on array class " ++ owner
  | ownerKindMismatch owner => "method reference to " ++ owner ++ " does not match its class kind"
  | notStaticMethod method => method ++ " is not a static method"
  | notInstanceMethod method => method ++ " is not an instance method"
  | missingFromVtable method owner => method ++ " is not present in the vtable of " ++ owner
  | missingFromRootVtable method => method ++ " is not present in the root vtable"
  | notInterfaceCallable method => method ++ " cannot be called by invokeinterface"
  | notInterfaceMethod method => method ++ " is not an interface method"
  | notStaticField field => field ++ " is not a static field"
  | notInstanceField field => field ++ " is not a instance field"
  | ambiguousSpecial owner name descriptor candidates =>
      "multiple maximally-specific methods for " ++ owner ++ "." ++ name ++ descriptor ++ ": "
        ++ String.intercalate ", " candidates
  | abstractInVtable method => "vtable of a concrete class contains abstract method " ++ method
  | abstractSpecial method => "invokespecial selects abstract " ++ method
  | missingSpecial owner name descriptor =>
      "no concrete invokespecial target for " ++ owner ++ "." ++ name ++ descriptor
  | notLinked => ""
  | duplicateSlots first firstMethod second secondMethod =>
      "slots " ++ slotText first firstMethod ++ " and " ++ slotText second secondMethod
        ++ " hold the same method"
  | incompatibleSlot slot method inherited =>
      "slot " ++ slotText slot method ++ " does not override " ++ inherited
        ++ " from the superclass"
  | noSuchField field => field
  | noSuchMethod method => method

end LinkFault

def LinkErrorKind.phrase : LinkErrorKind → String
  | unresolvedDependency => "unable to find dependency class "
  | malformedHierarchy => "malformed class hierarchy: "
  | incompatibleHierarchy => "incompatible class hierarchy: "
  | circularInheritance => "class is its own superclass or superinterface"
  | illegalAccess => "tried to access "
  | duplicateMember => "duplicate "
  | classFormat => "class format error: "
  | ambiguousOverride => ""
  | incompatibleClassChange => "incompatible class change: "
  | abstractMethod => "abstract method error: "
  | notLinked => "class has not been linked"
  | inconsistentVtable => "inconsistent vtable: "
  | noSuchField => "no such field "
  | noSuchMethod => "no such method "

structure LinkError where
  className : String
  fault : LinkFault
  deriving DecidableEq, Repr

namespace LinkError

def kind (e : LinkError) : LinkErrorKind :=
  e.fault.kind

def message (e : LinkError) : String :=
  e.className ++ ": " ++ e.kind.phrase ++ e.fault.reason

end LinkError

end Linkage
