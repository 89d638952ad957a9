import Linkage.Graph.Linker
import Mathlib.Data.List.Basic
import Mathlib.Logic.Equiv.Defs

namespace Linkage

variable {π : Equiv.Perm ClassId}

def FieldRef.rename (π : Equiv.Perm ClassId) (f : FieldRef) : FieldRef := ⟨π f.owner, f.index⟩

def MethodRef.rename (π : Equiv.Perm ClassId) (m : MethodRef) : MethodRef := ⟨π m.owner, m.index⟩

def PlacedField.rename (π : Equiv.Perm ClassId) (f : PlacedField) : PlacedField :=
  ⟨f.field.rename π, f.category⟩

def InterfaceEntry.rename (π : Equiv.Perm ClassId) (entry : InterfaceEntry) : InterfaceEntry :=
  ⟨π entry.interface, entry.slots⟩

def ClassInfo.rename (π : Equiv.Perm ClassId) (info : ClassInfo) : ClassInfo :=
  { info with
    id := π info.id
    superClass := info.superClass.map π
    interfaces := info.interfaces.map π
    staticFields := info.staticFields.map (·.rename π)
    instanceFields := info.instanceFields.map (·.rename π)
    vtable := info.vtable.map (·.rename π)
    interfaceTable := info.interfaceTable.map (·.rename π) }

def Status.rename (π : Equiv.Perm ClassId) : Status → Status
  | unlinked => unlinked
  | linking => linking
  | drafted info => drafted (info.rename π)
  | linked info => linked (info.rename π)

def Slot.rename (π : Equiv.Perm ClassId) (slot : Slot) : Slot :=
  { slot with status := slot.status.rename π }

def renameMethod (π : Equiv.Perm ClassId) (m : MethodRef × MethodInfo) : MethodRef × MethodInfo :=
  (m.1.rename π, m.2)

theorem MethodRef.rename_injective : Function.Injective (MethodRef.rename π) := by
  intro a b h
  cases a
  cases b
  simpa [MethodRef.rename] using h

@[simp] theorem MethodRef.owner_rename (m : MethodRef) : (m.rename π).owner = π m.owner := rfl

@[simp] theorem MethodRef.index_rename (m : MethodRef) : (m.rename π).index = m.index := rfl

@[simp] theorem MethodRef.rename_inj {a b : MethodRef} : a.rename π = b.rename π ↔ a = b :=
  MethodRef.rename_injective.eq_iff

theorem Status.info?_rename (s : Status) : (s.rename π).info? = s.info?.map (·.rename π) := by
  cases s <;> rfl

namespace ClassInfo

variable (info : ClassInfo) {name descriptor : String}

theorem directSupertypes_rename :
    (info.rename π).directSupertypes = info.directSupertypes.map π := by
  simp [directSupertypes, rename, Option.toList_map]

theorem methodRefs_rename :
    (info.rename π).methodRefs = info.methodRefs.map (renameMethod π) := by
  simp [methodRefs, rename, renameMethod, MethodRef.rename]

theorem virtualMethods_rename :
    (info.rename π).virtualMethods = info.virtualMethods.map (·.rename π) := by
  simp [virtualMethods, methodRefs_rename, renameMethod, List.filter_map, Function.comp_def]

theorem findMethod?_rename :
    (info.rename π).findMethod? name descriptor =
      (info.findMethod? name descriptor).map (·.rename π) := by
  simp [findMethod?, rename, MethodRef.rename, Function.comp_def]

theorem referenceSlots_rename : (info.rename π).referenceSlots = info.referenceSlots := by
  simp [referenceSlots, rename, PlacedField.rename, List.zipIdx_map, List.filter_map,
    Function.comp_def]

end ClassInfo

namespace ClassGraph

def Distinct (g : ClassGraph) : Prop :=
  ∀ ⦃a b s t⦄, g.slot? a = some s → g.slot? b = some t → s.origin = t.origin →
    s.record.name = t.record.name → a = b

-- The class at `id` in `g` is at `π id` in `g'`.
structure Renaming (π : Equiv.Perm ClassId) (g g' : ClassGraph) : Prop where
  size : g'.size = g.size
  slot : ∀ id, g'.slot? (π id) = (g.slot? id).map (·.rename π)
  distinct : g.Distinct

namespace Renaming

variable {g g' : ClassGraph} {id a b : ClassId} {m m' : MethodRef} {name descriptor : String}

theorem record (r : Renaming π g g') : g'.record? (π id) = g.record? id := by
  simp only [record?, r.slot, Option.map_map]
  rfl

theorem origin (r : Renaming π g g') : g'.origin? (π id) = g.origin? id := by
  simp only [origin?, r.slot, Option.map_map]
  rfl

theorem className (r : Renaming π g g') : g'.name (π id) = g.name id := by
  simp only [ClassGraph.name, r.slot]
  cases g.slot? id <;> rfl

theorem status (r : Renaming π g g') : g'.status (π id) = (g.status id).rename π := by
  simp only [ClassGraph.status, r.slot]
  cases g.slot? id <;> rfl

theorem info (r : Renaming π g g') : g'.info? (π id) = (g.info? id).map (·.rename π) := by
  simp only [info?, r.status, Status.info?_rename]

theorem bind_info (r : Renaming π g g') (parent : Option ClassId) :
    (parent.map π).bind g'.info? = (parent.bind g.info?).map (·.rename π) := by
  cases parent <;> simp [r.info]

theorem isInterface (r : Renaming π g g') : g'.isInterface (π id) = g.isInterface id := by
  simp only [ClassGraph.isInterface, r.info, Option.any_map]
  rfl

theorem superClass (r : Renaming π g g') : g'.superClass? (π id) = (g.superClass? id).map π := by
  simp only [superClass?, r.info]
  cases g.info? id <;> rfl

theorem declaredMethod (r : Renaming π g g') :
    g'.declaredMethod? (π id) name descriptor =
      (g.declaredMethod? id name descriptor).map (·.rename π) := by
  simp only [declaredMethod?, r.info]
  cases g.info? id with
  | none => rfl
  | some info => exact info.findMethod?_rename

theorem method (r : Renaming π g g') : g'.method? (m.rename π) = g.method? m := by
  simp only [method?, MethodRef.rename, r.info]
  cases g.info? m.owner <;> rfl

theorem methodHas (r : Renaming π g g') (p : MethodInfo → Bool) :
    g'.methodHas (m.rename π) p = g.methodHas m p := by
  simp only [ClassGraph.methodHas, r.method]

theorem methodSignature (r : Renaming π g g') :
    g'.methodSignature (m.rename π) = g.methodSignature m := by
  simp only [ClassGraph.methodSignature, r.method, MethodRef.owner_rename, r.className]

theorem samePackage (r : Renaming π g g') : g'.samePackage (π a) (π b) = g.samePackage a b := by
  simp only [ClassGraph.samePackage, r.className]

theorem canAccessClass (r : Renaming π g g') :
    g'.canAccessClass (π a) (π b) = g.canAccessClass a b := by
  simp only [ClassGraph.canAccessClass, r.record, r.samePackage]

theorem directSupertypes (r : Renaming π g g') :
    g'.directSupertypes (π id) = (g.directSupertypes id).map π := by
  simp only [ClassGraph.directSupertypes, r.info]
  cases g.info? id with
  | none => rfl
  | some info => exact info.directSupertypes_rename

theorem foldl_map {α β : Type} {step step' : List α → β → List α} {f : α → α} {h : β → β}
    (hstep : ∀ out x, step' (out.map f) (h x) = (step out x).map f) (l : List β) (out : List α) :
    (l.map h).foldl step' (out.map f) = (l.foldl step out).map f := by
  rw [List.foldl_map, List.foldl_hom (List.map f) hstep]

theorem visit (r : Renaming π g g') (depth : Nat) (seen : List ClassId) (id : ClassId) :
    g'.visit depth (seen.map π) (π id) = (g.visit depth seen id).map π := by
  induction depth generalizing seen id with
  | zero => rfl
  | succ depth ih =>
      have hstart : seen.map π ++ [π id] = (seen ++ [id]).map π := by simp
      simp only [ClassGraph.visit, List.mem_map_of_injective π.injective, r.directSupertypes, hstart,
        foldl_map ih]
      split <;> rfl

theorem supertypes (r : Renaming π g g') : g'.supertypes (π id) = (g.supertypes id).map π := by
  rw [ClassGraph.supertypes, ClassGraph.supertypes, r.directSupertypes, r.size]
  exact foldl_map (r.visit g.size) _ []

theorem superinterfaces (r : Renaming π g g') :
    g'.superinterfaces (π id) = (g.superinterfaces id).map π := by
  simp only [ClassGraph.superinterfaces, r.supertypes, List.filter_map, Function.comp_def,
    r.isInterface]

theorem isSubtype (r : Renaming π g g') : g'.isSubtype (π a) (π b) = g.isSubtype a b := by
  simp [ClassGraph.isSubtype, r.supertypes]

theorem chain (r : Renaming π g g') (length : Nat) (id : ClassId) :
    g'.chain length (π id) = (g.chain length id).map π := by
  induction length generalizing id with
  | zero => rfl
  | succ length ih =>
      simp only [ClassGraph.chain, r.superClass]
      cases g.superClass? id with
      | none => rfl
      | some sup => simp [ih]

theorem superclasses (r : Renaming π g g') :
    g'.superclasses (π id) = (g.superclasses id).map π := by
  rw [ClassGraph.superclasses, ClassGraph.superclasses, r.size, r.chain]

theorem lineage (r : Renaming π g g') : g'.lineage (π id) = (g.lineage id).map π := by
  simp [ClassGraph.lineage, r.superclasses]

theorem declaredMethods (r : Renaming π g g') (ids : List ClassId) :
    ((ids.map π).filterMap fun c => g'.declaredMethod? c name descriptor) =
      (ids.filterMap fun c => g.declaredMethod? c name descriptor).map (·.rename π) := by
  simp only [List.filterMap_map, List.map_filterMap, Function.comp_def, r.declaredMethod]

theorem filter_methodHas (r : Renaming π g g') (p : MethodInfo → Bool) (methods : List MethodRef) :
    (methods.map (·.rename π)).filter (g'.methodHas · p) =
      (methods.filter (g.methodHas · p)).map (·.rename π) := by
  simp only [List.filter_map, Function.comp_def, r.methodHas]

theorem intermediates (r : Renaming π g g') :
    g'.intermediates (π a) (π b) name descriptor =
      (g.intermediates a b name descriptor).map (·.rename π) := by
  have hbetween : (g'.superclasses (π a)).filter (fun c => c ≠ π b && g'.isSubtype c (π b)) =
      ((g.superclasses a).filter fun c => c ≠ b && g.isSubtype c b).map π := by
    simp [r.superclasses, List.filter_map, Function.comp_def, r.isSubtype]
  rw [ClassGraph.intermediates, ClassGraph.intermediates, hbetween, r.declaredMethods,
    r.filter_methodHas]

theorem overridesWithin (r : Renaming π g g') (depth : Nat) (child parent : MethodRef) :
    g'.overridesWithin depth (child.rename π) (parent.rename π) =
      g.overridesWithin depth child parent := by
  induction depth generalizing child parent with
  | zero => rfl
  | succ depth ih =>
      simp only [ClassGraph.overridesWithin, r.method, MethodRef.rename_inj, MethodRef.owner_rename,
        r.isSubtype, r.samePackage, r.intermediates, List.any_map, Function.comp_def, ih]

theorem overrides (r : Renaming π g g') :
    g'.overrides (m.rename π) (m'.rename π) = g.overrides m m' := by
  rw [ClassGraph.overrides, ClassGraph.overrides, r.size, r.overridesWithin]

theorem interfaceCandidates (r : Renaming π g g') :
    g'.interfaceCandidates (π id) name descriptor =
      (g.interfaceCandidates id name descriptor).map (·.rename π) := by
  rw [ClassGraph.interfaceCandidates, ClassGraph.interfaceCandidates, r.superinterfaces,
    r.declaredMethods, r.filter_methodHas]

theorem maximallySpecific (r : Renaming π g g') :
    g'.maximallySpecific (π id) name descriptor =
      (g.maximallySpecific id name descriptor).map (·.rename π) := by
  simp [ClassGraph.maximallySpecific, r.interfaceCandidates, List.filter_map, Function.comp_def,
    r.isSubtype]

theorem concreteDefaults (r : Renaming π g g') :
    g'.concreteDefaults (π id) name descriptor =
      (g.concreteDefaults id name descriptor).map (·.rename π) := by
  simp only [ClassGraph.concreteDefaults, withoutAbstract, r.maximallySpecific, r.filter_methodHas]

end Renaming

end ClassGraph

end Linkage
