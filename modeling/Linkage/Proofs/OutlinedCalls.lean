import Linkage.Proofs.OutlinedTables

namespace Linkage.ClassGraph

variable (g : ClassGraph) {current owner id start : ClassId} {m : MethodRef} {mi : MethodInfo}
  {site : CallSite} {name descriptor : String}

@[simp] theorem declaredInstance?_outline :
    g.outline.declaredInstance? id name descriptor = g.declaredInstance? id name descriptor := by
  simp [declaredInstance?, methodHas_outline]

@[simp] theorem specialStart_outline :
    g.outline.specialStart current owner mi.outline = g.specialStart current owner mi := by
  simp [specialStart]

@[simp] theorem specialDeclared?_outline :
    g.outline.specialDeclared? start name descriptor =
      g.specialDeclared? start name descriptor := by
  simp [specialDeclared?, methodHas_outline]

@[simp] theorem specialTarget_outline :
    g.outline.specialTarget current owner mi.outline = g.specialTarget current owner mi := by
  simp [specialTarget, methodHas_outline]

@[simp] theorem virtualTarget?_outline : g.outline.virtualTarget? id m = g.virtualTarget? id m := by
  simp only [virtualTarget?, info?_outline, overrides_outline]
  cases g.info? id <;> rfl

@[simp] theorem resolvedMethod?_outline :
    g.outline.resolvedMethod? owner site = g.resolvedMethod? owner site := by
  simp [resolvedMethod?]

@[simp] theorem targetOf_outline :
    g.outline.targetOf current owner site m mi.outline = g.targetOf current owner site m mi := by
  simp [targetOf]

theorem selectCall_outline :
    g.outline.selectCall current owner site = g.selectCall current owner site := by
  simp only [selectCall, isInterface_outline, violation_outline, resolvedMethod?_outline]
  cases g.resolvedMethod? owner site with
  | none => rfl
  | some m =>
      simp only [method?_outline]
      cases g.method? m <;> simp

@[simp] theorem mayWriteFinal_outline (method : MethodRef) (kind : FieldAccessKind)
    (field : FieldRef) :
    g.outline.mayWriteFinal current method kind field =
      g.mayWriteFinal current method kind field := by
  simp [mayWriteFinal, methodHas_outline]

theorem selectField_outline (method : MethodRef) (site : FieldSite) :
    g.outline.selectField current method owner site = g.selectField current method owner site := by
  simp only [selectField, fieldLookup_outline, violation_outline]
  cases g.fieldLookup owner site.name site.descriptor with
  | none => rfl
  | some ref =>
      simp only [field?_outline, info?_outline]
      cases g.field? ref with
      | none => rfl
      | some f =>
          cases g.info? ref.owner with
          | none => rfl
          | some declaring => simp

end Linkage.ClassGraph
