import Linkage.Graph.Lookup

namespace Linkage.ClassGraph

def overriddenSlots (g : ClassGraph) (child : MethodRef) (vtable : List MethodRef) :
    List (Nat × MethodRef) :=
  (vtable.zipIdx.filter fun (m, _) => g.overrides child m).map fun (m, slot) => (slot, m)

def placeDeclared (g : ClassGraph) (id : ClassId) (vtable : List MethodRef) (child : MethodRef) :
    Except LinkError (List MethodRef) :=
  match vtable.findIdx? (g.overrides child) with
  | none => .ok (vtable ++ [child])
  | some slot =>
      let vtable := vtable.set slot child
      match (g.overriddenSlots child vtable).filter fun (other, _) => other ≠ slot with
      | [] => .ok vtable
      | others =>
          .error ⟨g.name id, .ambiguousOverride (g.methodSignature child)
            (others.map fun (other, m) => (other, g.methodSignature m))⟩

def chooseDefault (g : ClassGraph) (id : ClassId) (name descriptor : String) :
    Except LinkError (Option MethodRef) :=
  match g.concreteDefaults id name descriptor with
  | [] => .ok none
  | [only] => .ok (some only)
  | many => .error ⟨g.name id,
      .conflictingDefaults name descriptor (many.map g.methodSignature)⟩

-- Gives a method of a superinterface a slot. Methods of classes win over those of interfaces, and a
-- slot that an interface filled is filled again by the default method that is now the only one.
def placeInterfaceMethod (g : ClassGraph) (id : ClassId) (vtable : List MethodRef)
    (m : MethodRef × MethodInfo) : Except LinkError (List MethodRef) := do
  let name := m.2.name
  let descriptor := m.2.descriptor
  match vtable.findIdx? (g.methodHas · (·.isNamed name descriptor)) with
  | none =>
      match ← g.chooseDefault id name descriptor with
      | some chosen => return vtable ++ [chosen]
      | none =>
          return vtable ++ [((g.maximallySpecific id name descriptor).head?).getD m.1]
  | some slot =>
      if (vtable[slot]?).any fun occupant => g.isInterface occupant.owner then
        match ← g.chooseDefault id name descriptor with
        | some chosen => return vtable.set slot chosen
        | none => return vtable
      else
        return vtable

def slottedMethods (g : ClassGraph) (interface : ClassId) : List (MethodRef × MethodInfo) :=
  match g.info? interface with
  | some info => info.methodRefs.filter fun (_, m) => m.isInheritable && !m.isClassInitializer
  | none => []

def checkConcrete (g : ClassGraph) (info : ClassInfo) (vtable : List MethodRef) :
    Except LinkError Unit :=
  if info.isAbstract then
    .ok ()
  else
    match vtable.find? (g.methodHas · (·.isAbstract)) with
    | some m => .error ⟨info.name, .abstractInVtable (g.methodSignature m)⟩
    | none => .ok ()

def duplicateSlots? (g : ClassGraph) (vtable : List MethodRef) :
    Option ((MethodRef × Nat) × (MethodRef × Nat)) :=
  let slots := vtable.zipIdx
  slots.findSome? fun a =>
    (slots.drop (a.2 + 1)).findSome? fun b =>
      if g.overrides a.1 b.1 || g.overrides b.1 a.1 then some (a, b) else none

def checkDistinct (g : ClassGraph) (info : ClassInfo) (vtable : List MethodRef) :
    Except LinkError Unit :=
  match g.duplicateSlots? vtable with
  | some ((a, i), (b, j)) =>
      .error ⟨info.name, .duplicateSlots i (g.methodSignature a) j (g.methodSignature b)⟩
  | none => .ok ()

def incompatibleSlot? (g : ClassGraph) (vtable inherited : List MethodRef) :
    Option ((MethodRef × MethodRef) × Nat) :=
  (vtable.zip inherited).zipIdx.find? fun slot =>
    slot.1.1 ≠ slot.1.2 && !g.overrides slot.1.1 slot.1.2

def checkInherited (g : ClassGraph) (info : ClassInfo) (vtable inherited : List MethodRef) :
    Except LinkError Unit :=
  match g.incompatibleSlot? vtable inherited with
  | some ((child, parent), i) =>
      .error ⟨info.name,
        .incompatibleSlot i (g.methodSignature child) (g.methodSignature parent)⟩
  | none => .ok ()

def inheritedVtable (g : ClassGraph) (info : ClassInfo) : List MethodRef :=
  match info.superClass.bind g.info? with
  | some parent => parent.vtable
  | none => []

def interfaceMethods (g : ClassGraph) (id : ClassId) : List (MethodRef × MethodInfo) :=
  (g.superinterfaces id).flatMap g.slottedMethods

def buildVtable (g : ClassGraph) (info : ClassInfo) (verify : Bool) :
    Except LinkError (List MethodRef) := do
  let inherited := g.inheritedVtable info
  let vtable ← info.virtualMethods.foldlM (g.placeDeclared info.id) inherited
  let vtable ← (g.interfaceMethods info.id).foldlM (g.placeInterfaceMethod info.id) vtable
  g.checkConcrete info vtable
  if verify then
    g.checkDistinct info vtable
    g.checkInherited info vtable inherited
  return vtable

end Linkage.ClassGraph
