import Linkage.Proofs.Outcome
import Linkage.Proofs.Outline

namespace Linkage

open Outcome

theorem FieldInfo.ofDecl_outline (f : FieldDecl) :
    ofDecl f.outline = (ofDecl f).map (·.outline) := by
  have hdescriptor : f.outline.descriptor = f.descriptor := rfl
  simp only [ofDecl, hdescriptor]
  cases FieldType.ofDescriptor f.descriptor <;> rfl

theorem MethodInfo.ofDecl_outline (version : ClassVersion) (m : MethodDecl) :
    ofDecl version m.outline = (ofDecl version m).map (·.outline) := by
  have hdescriptor : m.outline.descriptor = m.descriptor := rfl
  simp only [ofDecl, hdescriptor]
  cases MethodType.ofDescriptor m.descriptor <;> rfl

theorem Layout.place_outline (owner : ClassId) (fields : List FieldInfo) (keep : FieldInfo → Bool)
    (hkeep : ∀ f, keep f.outline = keep f) :
    place owner (fields.map (·.outline)) keep = place owner fields keep := by
  simp [place, List.zipIdx_map, List.filter_map, Function.comp_def, hkeep]

namespace ClassGraph

variable (g : ClassGraph) {id : ClassId} {info : ClassInfo} {name descriptor : String}
  {vtable : List MethodRef}

theorem resolveFields_outline (record : ClassRecord) :
    resolveFields record.outline = (resolveFields record).map (List.map FieldInfo.outline) := by
  refine foldlM_hom (f := List.map FieldInfo.outline) (h := FieldDecl.outline)
    (fun done decl => ?_) record.fields []
  have hnamed : (done.map FieldInfo.outline).any
        (·.isNamed decl.outline.name decl.outline.descriptor) =
      done.any (·.isNamed decl.name decl.descriptor) := by
    simp [List.any_map, Function.comp_def, FieldDecl.outline]
  simp only [hnamed, FieldInfo.ofDecl_outline]
  split
  · rfl
  · cases FieldInfo.ofDecl decl with
    | error e => rfl
    | ok f => simp [Except.map, pure, Except.pure]

theorem resolveMethods_outline (record : ClassRecord) :
    resolveMethods record.outline = (resolveMethods record).map (List.map MethodInfo.outline) := by
  refine foldlM_hom (f := List.map MethodInfo.outline) (h := MethodDecl.outline)
    (fun done decl => ?_) record.methods []
  have hversion : record.outline.version = record.version := rfl
  have hnamed : (done.map MethodInfo.outline).any
        (·.isNamed decl.outline.name decl.outline.descriptor) =
      done.any (·.isNamed decl.name decl.descriptor) := by
    simp [List.any_map, Function.comp_def, MethodDecl.outline]
  simp only [hversion, hnamed, MethodInfo.ofDecl_outline]
  split
  · rfl
  · cases MethodInfo.ofDecl record.version decl with
    | error e => rfl
    | ok m => simp [Except.map, pure, Except.pure]

@[simp] theorem overriddenSlots_outline (child : MethodRef) :
    g.outline.overriddenSlots child vtable = g.overriddenSlots child vtable := by
  simp [overriddenSlots]

@[simp] theorem placeDeclared_outline (child : MethodRef) :
    g.outline.placeDeclared id vtable child = g.placeDeclared id vtable child := by
  simp [placeDeclared]

@[simp] theorem chooseDefault_outline :
    g.outline.chooseDefault id name descriptor = g.chooseDefault id name descriptor := by
  simp [chooseDefault]

@[simp] theorem placeInterfaceMethod_outline (m : MethodRef × MethodInfo) :
    g.outline.placeInterfaceMethod id vtable (outlineMethod m) =
      g.placeInterfaceMethod id vtable m := by
  simp [placeInterfaceMethod, outlineMethod, methodHas_outline]

theorem slottedMethods_outline :
    g.outline.slottedMethods id = (g.slottedMethods id).map outlineMethod := by
  simp only [slottedMethods, info?_outline]
  cases g.info? id with
  | none => rfl
  | some info =>
      simp [ClassInfo.methodRefs_outline, List.filter_map, Function.comp_def, outlineMethod]

theorem interfaceMethods_outline :
    g.outline.interfaceMethods id = (g.interfaceMethods id).map outlineMethod := by
  have hslotted : g.outline.slottedMethods = fun i => (g.slottedMethods i).map outlineMethod :=
    funext fun _ => g.slottedMethods_outline
  simp [interfaceMethods, hslotted, List.map_flatMap]

@[simp] theorem checkConcrete_outline :
    g.outline.checkConcrete info.outline vtable = g.checkConcrete info vtable := by
  simp [checkConcrete, methodHas_outline]

@[simp] theorem duplicateSlots?_outline :
    g.outline.duplicateSlots? vtable = g.duplicateSlots? vtable := by
  simp [duplicateSlots?]

@[simp] theorem checkDistinct_outline :
    g.outline.checkDistinct info.outline vtable = g.checkDistinct info vtable := by
  simp [checkDistinct, ClassInfo.outline]

@[simp] theorem checkInherited_outline (inherited : List MethodRef) :
    g.outline.checkInherited info.outline vtable inherited =
      g.checkInherited info vtable inherited := by
  simp [checkInherited, incompatibleSlot?, ClassInfo.outline]

@[simp] theorem inheritedVtable_outline :
    g.outline.inheritedVtable info.outline = g.inheritedVtable info := by
  simp only [inheritedVtable, ClassInfo.superClass_outline]
  cases info.superClass with
  | none => rfl
  | some sup =>
      simp only [Option.bind_some, info?_outline]
      cases g.info? sup <;> rfl

theorem buildVtable_outline (verify : Bool) :
    g.outline.buildVtable info.outline verify = g.buildVtable info verify := by
  have hdeclared : g.outline.placeDeclared info.id = g.placeDeclared info.id :=
    funext fun _ => funext g.placeDeclared_outline
  have hplaced : ∀ start, ((g.interfaceMethods info.id).map outlineMethod).foldlM
      (g.outline.placeInterfaceMethod info.id) start =
        (g.interfaceMethods info.id).foldlM (g.placeInterfaceMethod info.id) start := by
    simp [List.foldlM_map]
  simp only [buildVtable, ClassInfo.id_outline, ClassInfo.virtualMethods_outline,
    inheritedVtable_outline, interfaceMethods_outline, hdeclared, hplaced, checkConcrete_outline,
    checkDistinct_outline, checkInherited_outline]

@[simp] theorem selectSlot_outline :
    g.outline.selectSlot id vtable name descriptor = g.selectSlot id vtable name descriptor := by
  simp [selectSlot, methodHas_outline]

@[simp] theorem interfaceSlots_outline (interface : ClassId) :
    g.outline.interfaceSlots id vtable interface = g.interfaceSlots id vtable interface := by
  simp [interfaceSlots, slottedMethods_outline, outlineMethod, List.filterMap_map,
    Function.comp_def]

@[simp] theorem interfaceEntry?_outline :
    g.outline.interfaceEntry? info.outline vtable = g.interfaceEntry? info vtable := by
  funext interface
  unfold interfaceEntry?
  simp only [ClassInfo.id_outline, ClassInfo.superClass_outline, interfaceSlots_outline,
    isSubtype_outline]
  exact if_congr Iff.rfl rfl rfl

theorem buildInterfaceTable_outline :
    g.outline.buildInterfaceTable info.outline vtable = g.buildInterfaceTable info vtable := by
  simp [buildInterfaceTable]

end ClassGraph

end Linkage
