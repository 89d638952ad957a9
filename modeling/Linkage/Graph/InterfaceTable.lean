import Linkage.Graph.MethodTable

namespace Linkage.ClassGraph

def selectSlot (g : ClassGraph) (id : ClassId) (vtable : List MethodRef)
    (name descriptor : String) : Option Nat :=
  let named := fun m => g.methodHas m (·.isNamed name descriptor)
  ((g.lineage id).findSome? fun c => vtable.findIdx? fun m => m.owner = c && named m).or
    (vtable.findIdx? fun m => g.isInterface m.owner && named m)

def interfaceSlots (g : ClassGraph) (id : ClassId) (vtable : List MethodRef)
    (interface : ClassId) : List InterfaceSlot :=
  (g.slottedMethods interface).filterMap fun (ref, m) =>
    (g.selectSlot id vtable m.name m.descriptor).map fun slot => ⟨ref.index, slot⟩

def interfaceEntry? (g : ClassGraph) (info : ClassInfo) (vtable : List MethodRef)
    (interface : ClassId) : Option InterfaceEntry :=
  let slots := g.interfaceSlots info.id vtable interface
  let declaredHere := slots.any fun s => (vtable[s.vtableIndex]?).any (·.owner = info.id)
  let inherited := info.superClass.any fun parent => g.isSubtype parent interface
  if !slots.isEmpty && (declaredHere || !inherited) then some ⟨interface, slots⟩ else none

def buildInterfaceTable (g : ClassGraph) (info : ClassInfo) (vtable : List MethodRef) :
    List InterfaceEntry :=
  (g.superinterfaces info.id).filterMap (g.interfaceEntry? info vtable)

end Linkage.ClassGraph
