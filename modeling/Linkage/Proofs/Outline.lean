import Linkage.Graph.FieldSite
import Mathlib.Data.List.Basic

namespace Linkage

def FieldDecl.outline (f : FieldDecl) : FieldDecl :=
  { f with signature := none, initial := none }

def MethodDecl.outline (m : MethodDecl) : MethodDecl :=
  { m with signature := none, body := none }

def ClassRecord.outline (record : ClassRecord) : ClassRecord :=
  { record with
    signature := none
    fields := record.fields.map (·.outline)
    methods := record.methods.map (·.outline) }

def FieldInfo.outline (f : FieldInfo) : FieldInfo :=
  { f with decl := f.decl.outline }

def MethodInfo.outline (m : MethodInfo) : MethodInfo :=
  { m with decl := m.decl.outline }

def ClassInfo.outline (info : ClassInfo) : ClassInfo :=
  { info with
    signature := none
    fields := info.fields.map (·.outline)
    methods := info.methods.map (·.outline) }

def Status.outline : Status → Status
  | unlinked => unlinked
  | linking => linking
  | drafted info => drafted info.outline
  | linked info => linked info.outline

def Slot.outline (slot : Slot) : Slot :=
  { slot with record := slot.record.outline, status := slot.status.outline }

def ClassGraph.outline (g : ClassGraph) : ClassGraph :=
  ⟨g.slots.map (·.outline)⟩

namespace FieldInfo

variable (f : FieldInfo)

@[simp] theorem access_outline : f.outline.access = f.access := rfl

@[simp] theorem category_outline : f.outline.category = f.category := rfl

@[simp] theorem isNamed_outline (name descriptor : String) :
    f.outline.isNamed name descriptor = f.isNamed name descriptor := rfl

end FieldInfo

namespace MethodInfo

variable (m : MethodInfo)

@[simp] theorem access_outline : m.outline.access = m.access := rfl

@[simp] theorem name_outline : m.outline.name = m.name := rfl

@[simp] theorem descriptor_outline : m.outline.descriptor = m.descriptor := rfl

@[simp] theorem isClassInitializer_outline :
    m.outline.isClassInitializer = m.isClassInitializer := rfl

@[simp] theorem isNamed_outline (name descriptor : String) :
    m.outline.isNamed name descriptor = m.isNamed name descriptor := rfl

@[simp] theorem isPublic_outline : m.outline.isPublic = m.isPublic := rfl

@[simp] theorem isPrivate_outline : m.outline.isPrivate = m.isPrivate := rfl

@[simp] theorem isStatic_outline : m.outline.isStatic = m.isStatic := rfl

@[simp] theorem isAbstract_outline : m.outline.isAbstract = m.isAbstract := rfl

@[simp] theorem isConstructor_outline : m.outline.isConstructor = m.isConstructor := rfl

@[simp] theorem isVirtual_outline : m.outline.isVirtual = m.isVirtual := rfl

@[simp] theorem isInheritable_outline : m.outline.isInheritable = m.isInheritable := rfl

end MethodInfo

def outlineMethod (m : MethodRef × MethodInfo) : MethodRef × MethodInfo :=
  (m.1, m.2.outline)

namespace ClassInfo

variable (info : ClassInfo) {name descriptor : String}

@[simp] theorem id_outline : info.outline.id = info.id := rfl

@[simp] theorem name_outline : info.outline.name = info.name := rfl

@[simp] theorem isInterface_outline : info.outline.isInterface = info.isInterface := rfl

@[simp] theorem isAbstract_outline : info.outline.isAbstract = info.isAbstract := rfl

@[simp] theorem superClass_outline : info.outline.superClass = info.superClass := rfl

@[simp] theorem interfaces_outline : info.outline.interfaces = info.interfaces := rfl

@[simp] theorem staticSlot?_outline (field : FieldRef) :
    info.outline.staticSlot? field = info.staticSlot? field := rfl

@[simp] theorem instanceSlot?_outline (field : FieldRef) :
    info.outline.instanceSlot? field = info.instanceSlot? field := rfl

@[simp] theorem findField?_outline :
    info.outline.findField? name descriptor = info.findField? name descriptor := by
  simp [findField?, outline, Function.comp_def]

@[simp] theorem findMethod?_outline :
    info.outline.findMethod? name descriptor = info.findMethod? name descriptor := by
  simp [findMethod?, outline, Function.comp_def]

theorem methodRefs_outline : info.outline.methodRefs = info.methodRefs.map outlineMethod := by
  simp [methodRefs, outline, outlineMethod, List.zipIdx_map, Function.comp_def]

@[simp] theorem virtualMethods_outline : info.outline.virtualMethods = info.virtualMethods := by
  simp [virtualMethods, methodRefs_outline, outlineMethod, List.filter_map, Function.comp_def]

end ClassInfo

theorem Status.isLinked_outline (s : Status) : s.outline.isLinked = s.isLinked := by
  cases s <;> rfl

theorem Status.info?_outline (s : Status) : s.outline.info? = s.info?.map (·.outline) := by
  cases s <;> rfl

namespace ClassGraph

variable (g : ClassGraph) {id a b : ClassId} {m : MethodRef} {name descriptor : String}

@[simp] theorem size_outline : g.outline.size = g.size := by
  simp [size, outline]

@[simp] theorem ids_outline : g.outline.ids = g.ids := by
  simp [ids]

theorem slot?_outline : g.outline.slot? id = (g.slot? id).map (·.outline) := by
  simp [slot?, outline]

theorem record?_outline : g.outline.record? id = (g.record? id).map (·.outline) := by
  simp only [record?, slot?_outline, Option.map_map]
  rfl

@[simp] theorem origin?_outline : g.outline.origin? id = g.origin? id := by
  simp only [origin?, slot?_outline, Option.map_map]
  rfl

@[simp] theorem name_outline : g.outline.name id = g.name id := by
  simp only [ClassGraph.name, slot?_outline]
  cases g.slot? id <;> rfl

theorem status_outline : g.outline.status id = (g.status id).outline := by
  simp only [status, slot?_outline]
  cases g.slot? id <;> rfl

theorem info?_outline : g.outline.info? id = (g.info? id).map (·.outline) := by
  simp only [info?, status_outline, Status.info?_outline]

@[simp] theorem isLinked_outline : g.outline.isLinked id = g.isLinked id := by
  rw [isLinked, status_outline, Status.isLinked_outline, isLinked]

@[simp] theorem find?_outline (origin : Origin) :
    g.outline.find? origin name = g.find? origin name := by
  simp [find?, outline, Array.findIdx?_map, Function.comp_def, Slot.outline, ClassRecord.outline]

@[simp] theorem lookup_outline : g.outline.lookup name = g.lookup name := by
  simp [lookup]

@[simp] theorem classes_outline (origin : Origin) :
    g.outline.classes origin = g.classes origin := by
  simp [classes]

@[simp] theorem linkedCount_outline : g.outline.linkedCount = g.linkedCount := by
  have hlinked : ∀ slot : Slot, slot.outline.status.isLinked = slot.status.isLinked :=
    fun slot => slot.status.isLinked_outline
  simp only [linkedCount, outline, Array.countP_map, Function.comp_def, hlinked]

@[simp] theorem violation_outline (fault : LinkFault) :
    g.outline.violation id fault = g.violation id fault := by
  simp [violation]

theorem field?_outline (ref : FieldRef) :
    g.outline.field? ref = (g.field? ref).map (·.outline) := by
  simp only [field?, info?_outline]
  cases g.info? ref.owner with
  | none => rfl
  | some info => simp [ClassInfo.outline]

theorem method?_outline : g.outline.method? m = (g.method? m).map (·.outline) := by
  simp only [method?, info?_outline]
  cases g.info? m.owner with
  | none => rfl
  | some info => simp [ClassInfo.outline]

theorem methodHas_outline (p : MethodInfo → Bool) :
    g.outline.methodHas m p = g.methodHas m fun mi => p mi.outline := by
  simp [methodHas, method?_outline, Option.any_map]

@[simp] theorem declaredMethod?_outline :
    g.outline.declaredMethod? id name descriptor = g.declaredMethod? id name descriptor := by
  simp only [declaredMethod?, info?_outline]
  cases g.info? id <;> simp

@[simp] theorem isInterface_outline : g.outline.isInterface = g.isInterface := by
  funext id
  simp [isInterface, info?_outline, Option.any_map]

@[simp] theorem superClass?_outline : g.outline.superClass? id = g.superClass? id := by
  simp only [superClass?, info?_outline]
  cases g.info? id <;> rfl

@[simp] theorem fieldSignature_outline (ref : FieldRef) :
    g.outline.fieldSignature ref = g.fieldSignature ref := by
  simp only [fieldSignature, field?_outline, name_outline]
  cases g.field? ref <;> rfl

@[simp] theorem methodSignature_outline : g.outline.methodSignature = g.methodSignature := by
  funext m
  simp only [methodSignature, method?_outline, name_outline]
  cases g.method? m <;> rfl

@[simp] theorem directSupertypes_outline :
    g.outline.directSupertypes id = g.directSupertypes id := by
  simp only [directSupertypes, info?_outline]
  cases g.info? id <;> rfl

@[simp] theorem visit_outline (depth : Nat) : g.outline.visit depth = g.visit depth := by
  induction depth with
  | zero => rfl
  | succ depth ih =>
      funext seen id
      simp only [visit, directSupertypes_outline, ih]

@[simp] theorem supertypes_outline : g.outline.supertypes id = g.supertypes id := by
  simp [supertypes]

@[simp] theorem superinterfaces_outline : g.outline.superinterfaces id = g.superinterfaces id := by
  simp [superinterfaces]

@[simp] theorem isSubtype_outline : g.outline.isSubtype a b = g.isSubtype a b := by
  simp [isSubtype]

@[simp] theorem chain_outline (length : Nat) (id : ClassId) :
    g.outline.chain length id = g.chain length id := by
  induction length generalizing id with
  | zero => rfl
  | succ length ih => simp only [chain, superClass?_outline, ih]

@[simp] theorem superclasses_outline : g.outline.superclasses id = g.superclasses id := by
  simp [superclasses]

@[simp] theorem lineage_outline : g.outline.lineage id = g.lineage id := by
  simp [lineage]

@[simp] theorem isSuperclass_outline : g.outline.isSuperclass a b = g.isSuperclass a b := by
  simp [isSuperclass]

@[simp] theorem samePackage_outline : g.outline.samePackage a b = g.samePackage a b := by
  simp [samePackage]

@[simp] theorem canAccessClass_outline : g.outline.canAccessClass a b = g.canAccessClass a b := by
  simp only [canAccessClass, record?_outline, samePackage_outline, Option.any_map]
  rfl

@[simp] theorem canAccessMember_outline (access : Access) :
    g.outline.canAccessMember a b access = g.canAccessMember a b access := by
  simp [canAccessMember]

@[simp] theorem intermediates_outline :
    g.outline.intermediates a b name descriptor = g.intermediates a b name descriptor := by
  simp [intermediates, methodHas_outline]

@[simp] theorem overridesWithin_outline (depth : Nat) (child parent : MethodRef) :
    g.outline.overridesWithin depth child parent = g.overridesWithin depth child parent := by
  induction depth generalizing child parent with
  | zero => rfl
  | succ depth ih =>
      simp only [overridesWithin, method?_outline, isSubtype_outline, samePackage_outline,
        intermediates_outline, ih]
      cases g.method? child with
      | none => rfl
      | some c => cases g.method? parent <;> rfl

@[simp] theorem overrides_outline : g.outline.overrides = g.overrides := by
  funext child parent
  simp [overrides]

@[simp] theorem fieldLookupWithin_outline (depth : Nat) :
    g.outline.fieldLookupWithin name descriptor depth =
      g.fieldLookupWithin name descriptor depth := by
  induction depth with
  | zero => rfl
  | succ depth ih =>
      funext id
      simp only [fieldLookupWithin, info?_outline, ih]
      cases g.info? id <;> simp

@[simp] theorem fieldLookup_outline :
    g.outline.fieldLookup id name descriptor = g.fieldLookup id name descriptor := by
  simp [fieldLookup]

@[simp] theorem interfaceCandidates_outline :
    g.outline.interfaceCandidates id name descriptor =
      g.interfaceCandidates id name descriptor := by
  simp [interfaceCandidates, methodHas_outline]

@[simp] theorem maximallySpecific_outline :
    g.outline.maximallySpecific id name descriptor = g.maximallySpecific id name descriptor := by
  simp [maximallySpecific]

@[simp] theorem concreteDefaults_outline :
    g.outline.concreteDefaults id name descriptor = g.concreteDefaults id name descriptor := by
  simp [concreteDefaults, withoutAbstract, methodHas_outline]

@[simp] theorem superinterfaceMethod_outline :
    g.outline.superinterfaceMethod id name descriptor =
      g.superinterfaceMethod id name descriptor := by
  simp [superinterfaceMethod]

@[simp] theorem rootMethod_outline (info : ClassInfo) :
    g.outline.rootMethod info.outline name descriptor = g.rootMethod info name descriptor := by
  simp [rootMethod, methodHas_outline]

@[simp] theorem methodLookup_outline :
    g.outline.methodLookup id name descriptor = g.methodLookup id name descriptor := by
  simp only [methodLookup, info?_outline]
  cases g.info? id <;> simp

end ClassGraph

end Linkage
