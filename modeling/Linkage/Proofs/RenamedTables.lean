import Linkage.Graph.InterfaceTable
import Linkage.Graph.Layout
import Linkage.Proofs.Outcome
import Linkage.Proofs.Renaming

namespace Linkage

variable {π : Equiv.Perm ClassId}

namespace Layout

variable {owner : ClassId} {fields : List FieldInfo}

def notAfter (a b : PlacedField) : Bool := a.category.rank ≤ b.category.rank

theorem notAfter_rename (a b : PlacedField) :
    notAfter (a.rename π) (b.rename π) = notAfter a b := rfl

theorem place_eq (keep : FieldInfo → Bool) :
    place owner fields keep = ((fields.zipIdx.filter fun f => keep f.1).map fun f =>
      ⟨⟨owner, f.2⟩, f.1.category⟩).mergeSort notAfter := rfl

theorem place_rename (keep : FieldInfo → Bool) :
    place (π owner) fields keep = (place owner fields keep).map (·.rename π) := by
  rw [place_eq, place_eq, List.map_mergeSort fun a _ b _ => (notAfter_rename a b).symm]
  simp [PlacedField.rename, FieldRef.rename, Function.comp_def]

end Layout

namespace ClassGraph.Renaming

open Outcome

variable {g g' : ClassGraph} {id : ClassId} {info : ClassInfo} {name descriptor : String}
  {vtable : List MethodRef}

theorem overriddenSlots (r : Renaming π g g') (child : MethodRef) (vtable : List MethodRef) :
    g'.overriddenSlots (child.rename π) (vtable.map (·.rename π)) =
      (g.overriddenSlots child vtable).map fun slot => (slot.1, slot.2.rename π) := by
  simp [ClassGraph.overriddenSlots, List.zipIdx_map, List.filter_map, Function.comp_def, r.overrides]

theorem placeDeclared (r : Renaming π g g') (vtable : List MethodRef) (child : MethodRef) :
    g'.placeDeclared (π id) (vtable.map (·.rename π)) (child.rename π) =
      (g.placeDeclared id vtable child).map (List.map (·.rename π)) := by
  have hslot : (vtable.map (·.rename π)).findIdx? (g'.overrides (child.rename π)) =
      vtable.findIdx? (g.overrides child) := by
    simp [List.findIdx?_map, Function.comp_def, r.overrides]
  simp only [ClassGraph.placeDeclared, hslot]
  cases vtable.findIdx? (g.overrides child) with
  | none => simp [Except.map]
  | some slot =>
      have hset : (vtable.map (·.rename π)).set slot (child.rename π) =
          (vtable.set slot child).map (·.rename π) := by simp
      simp only [hset, r.overriddenSlots, List.filter_map, Function.comp_def]
      cases (g.overriddenSlots child (vtable.set slot child)).filter fun other => other.1 ≠ slot with
      | nil => rfl
      | cons other rest => simp [Except.map, r.className, r.methodSignature]

theorem chooseDefault (r : Renaming π g g') :
    g'.chooseDefault (π id) name descriptor =
      (g.chooseDefault id name descriptor).map (Option.map (·.rename π)) := by
  simp only [ClassGraph.chooseDefault, r.concreteDefaults]
  cases g.concreteDefaults id name descriptor with
  | nil => rfl
  | cons a rest =>
      cases rest with
      | nil => rfl
      | cons b rest => simp [Except.map, r.className, r.methodSignature]

theorem findIdx_methodHas (r : Renaming π g g') (p : MethodInfo → Bool) :
    (vtable.map (·.rename π)).findIdx? (g'.methodHas · p) = vtable.findIdx? (g.methodHas · p) := by
  simp [List.findIdx?_map, Function.comp_def, r.methodHas]

theorem placeInterfaceMethod (r : Renaming π g g') (vtable : List MethodRef)
    (m : MethodRef × MethodInfo) :
    g'.placeInterfaceMethod (π id) (vtable.map (·.rename π)) (renameMethod π m) =
      (g.placeInterfaceMethod id vtable m).map (List.map (·.rename π)) := by
  have hheld : ∀ slot : Nat,
      ((vtable.map (·.rename π))[slot]?).any (fun m => g'.isInterface m.owner) =
        (vtable[slot]?).any fun m => g.isInterface m.owner := by
    simp [Option.any_map, r.isInterface]
  simp only [ClassGraph.placeInterfaceMethod, renameMethod, r.findIdx_methodHas, r.chooseDefault,
    hheld, r.maximallySpecific]
  cases vtable.findIdx? (g.methodHas · (·.isNamed m.2.name m.2.descriptor)) with
  | none =>
      cases g.chooseDefault id m.2.name m.2.descriptor with
      | error e => rfl
      | ok chosen =>
          cases chosen with
          | some chosen => simp [Except.map, bind, Except.bind, pure, Except.pure]
          | none =>
              cases g.maximallySpecific id m.2.name m.2.descriptor <;>
                simp [Except.map, bind, Except.bind, pure, Except.pure]
  | some slot =>
      cases hkind : (vtable[slot]?).any fun m => g.isInterface m.owner with
      | false =>
          simp only [hkind]
          rfl
      | true =>
          simp only [hkind, if_true]
          cases g.chooseDefault id m.2.name m.2.descriptor with
          | error e => rfl
          | ok chosen =>
              cases chosen <;> simp [Except.map, bind, Except.bind, pure, Except.pure]

theorem slottedMethods (r : Renaming π g g') :
    g'.slottedMethods (π id) = (g.slottedMethods id).map (renameMethod π) := by
  simp only [ClassGraph.slottedMethods, r.info]
  cases g.info? id with
  | none => rfl
  | some info =>
      simp [ClassInfo.methodRefs_rename, List.filter_map, Function.comp_def, renameMethod]

theorem interfaceMethods (r : Renaming π g g') :
    g'.interfaceMethods (π id) = (g.interfaceMethods id).map (renameMethod π) := by
  simp only [ClassGraph.interfaceMethods, r.superinterfaces, List.flatMap_map, List.map_flatMap,
    r.slottedMethods]

theorem checkConcrete (r : Renaming π g g') :
    g'.checkConcrete (info.rename π) (vtable.map (·.rename π)) = g.checkConcrete info vtable := by
  have hfind : (vtable.map (·.rename π)).find? (g'.methodHas · (·.isAbstract)) =
      (vtable.find? (g.methodHas · (·.isAbstract))).map (·.rename π) := by
    simp only [List.find?_map, Function.comp_def, r.methodHas]
  have habstract : (info.rename π).isAbstract = info.isAbstract := rfl
  simp only [ClassGraph.checkConcrete, hfind, habstract]
  cases vtable.find? (g.methodHas · (·.isAbstract)) with
  | none => rfl
  | some m => simp only [Option.map_some, r.methodSignature, ClassInfo.rename]

theorem duplicateSlots (r : Renaming π g g') :
    g'.duplicateSlots? (vtable.map (·.rename π)) =
      (g.duplicateSlots? vtable).map fun slots =>
        ((slots.1.1.rename π, slots.1.2), (slots.2.1.rename π, slots.2.2)) := by
  simp only [duplicateSlots?, List.zipIdx_map, ← List.map_drop, List.findSome?_map, Function.comp_def,
    Prod.map_fst, Prod.map_snd, r.overrides, List.map_findSome?, apply_ite, Option.map_some,
    Option.map_none]
  rfl

theorem checkDistinct (r : Renaming π g g') :
    g'.checkDistinct (info.rename π) (vtable.map (·.rename π)) = g.checkDistinct info vtable := by
  simp only [ClassGraph.checkDistinct, r.duplicateSlots]
  cases g.duplicateSlots? vtable with
  | none => rfl
  | some slots => simp only [Option.map_some, r.methodSignature, ClassInfo.rename]

theorem incompatibleSlot (r : Renaming π g g') (vtable inherited : List MethodRef) :
    g'.incompatibleSlot? (vtable.map (·.rename π)) (inherited.map (·.rename π)) =
      (g.incompatibleSlot? vtable inherited).map fun slot =>
        ((slot.1.1.rename π, slot.1.2.rename π), slot.2) := by
  simp only [incompatibleSlot?, List.zip_map, List.zipIdx_map, List.find?_map, Function.comp_def,
    Prod.map_fst, Prod.map_snd, r.overrides, ne_eq, MethodRef.rename_inj]
  rfl

theorem checkInherited (r : Renaming π g g') (vtable inherited : List MethodRef) :
    g'.checkInherited (info.rename π) (vtable.map (·.rename π)) (inherited.map (·.rename π)) =
      g.checkInherited info vtable inherited := by
  simp only [ClassGraph.checkInherited, r.incompatibleSlot]
  cases g.incompatibleSlot? vtable inherited with
  | none => rfl
  | some slot => simp only [Option.map_some, r.methodSignature, ClassInfo.rename]

theorem inheritedVtable (r : Renaming π g g') :
    g'.inheritedVtable (info.rename π) = (g.inheritedVtable info).map (·.rename π) := by
  simp only [ClassGraph.inheritedVtable, ClassInfo.rename, r.bind_info]
  cases info.superClass.bind g.info? <;> rfl

theorem buildVtable (r : Renaming π g g') (verify : Bool) :
    g'.buildVtable (info.rename π) verify =
      (g.buildVtable info verify).map (List.map (·.rename π)) := by
  have hid : (info.rename π).id = π info.id := rfl
  simp only [ClassGraph.buildVtable, hid, r.inheritedVtable, info.virtualMethods_rename,
    r.interfaceMethods, foldlM_hom r.placeDeclared]
  cases info.virtualMethods.foldlM (g.placeDeclared info.id) (g.inheritedVtable info) with
  | error e => rfl
  | ok declared =>
      simp only [Except.map, bind, Except.bind, foldlM_hom r.placeInterfaceMethod]
      cases (g.interfaceMethods info.id).foldlM (g.placeInterfaceMethod info.id) declared with
      | error e => rfl
      | ok vtable =>
          simp only [r.checkConcrete, r.checkDistinct, r.checkInherited]
          cases g.checkConcrete info vtable with
          | error e => rfl
          | ok _ =>
              cases verify with
              | false => rfl
              | true =>
                  cases g.checkDistinct info vtable with
                  | error e => rfl
                  | ok _ => cases g.checkInherited info vtable (g.inheritedVtable info) <;> rfl

theorem selectSlot (r : Renaming π g g') :
    g'.selectSlot (π id) (vtable.map (·.rename π)) name descriptor =
      g.selectSlot id vtable name descriptor := by
  simp only [ClassGraph.selectSlot, r.lineage, List.findSome?_map, List.findIdx?_map, Function.comp_def,
    r.methodHas, r.isInterface, MethodRef.owner_rename, π.injective.eq_iff]

theorem interfaceSlots (r : Renaming π g g') (interface : ClassId) :
    g'.interfaceSlots (π id) (vtable.map (·.rename π)) (π interface) =
      g.interfaceSlots id vtable interface := by
  simp only [ClassGraph.interfaceSlots, r.slottedMethods, List.filterMap_map, Function.comp_def,
    r.selectSlot, renameMethod, MethodRef.index_rename]

theorem interfaceEntry (r : Renaming π g g') (interface : ClassId) :
    g'.interfaceEntry? (info.rename π) (vtable.map (·.rename π)) (π interface) =
      (g.interfaceEntry? info vtable interface).map (·.rename π) := by
  have hid : (info.rename π).id = π info.id := rfl
  have hdeclared : ∀ slots : List InterfaceSlot,
      (slots.any fun s => ((vtable.map (·.rename π))[s.vtableIndex]?).any (·.owner = π info.id)) =
        slots.any fun s => (vtable[s.vtableIndex]?).any (·.owner = info.id) := by
    simp [Option.any_map]
  have hinherited : ((info.rename π).superClass.any fun parent => g'.isSubtype parent (π interface)) =
      info.superClass.any fun parent => g.isSubtype parent interface := by
    simp [ClassInfo.rename, Option.any_map, r.isSubtype]
  unfold interfaceEntry?
  simp only [hid, r.interfaceSlots, hdeclared, hinherited]
  split <;> rfl

theorem buildInterfaceTable (r : Renaming π g g') :
    g'.buildInterfaceTable (info.rename π) (vtable.map (·.rename π)) =
      (g.buildInterfaceTable info vtable).map (·.rename π) := by
  have hid : (info.rename π).id = π info.id := rfl
  simp only [ClassGraph.buildInterfaceTable, hid, r.superinterfaces, List.filterMap_map,
    List.map_filterMap, Function.comp_def, r.interfaceEntry]

end ClassGraph.Renaming

end Linkage
