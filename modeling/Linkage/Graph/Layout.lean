import Linkage.Graph.Info

namespace Linkage.Layout

def place (owner : ClassId) (fields : List FieldInfo) (keep : FieldInfo → Bool) :
    List PlacedField :=
  let chosen := fields.zipIdx.filter fun (f, _) => keep f
  let placed := chosen.map fun (f, index) => ⟨⟨owner, index⟩, f.category⟩
  placed.mergeSort fun a b => a.category.rank ≤ b.category.rank

def statics (owner : ClassId) (fields : List FieldInfo) : List PlacedField :=
  place owner fields (·.access.isStatic)

def instances (inherited : List PlacedField) (owner : ClassId) (fields : List FieldInfo) :
    List PlacedField :=
  inherited ++ place owner fields (!·.access.isStatic)

end Linkage.Layout
