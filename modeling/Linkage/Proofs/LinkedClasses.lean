import Linkage.Proofs.DispatchAgreement
import Linkage.Proofs.FieldLayout

namespace Linkage.ClassGraph

open ClassRecord Outcome

variable {g : ClassGraph} {id sup : ClassId} {info above : ClassInfo} {m : MethodRef}
  {allowed : LinkOptions → Prop} {options : LinkOptions}

def LinkedWith (g : ClassGraph) (id : ClassId) (P : ClassInfo → Prop) : Prop :=
  ∃ info, g.status id = .linked info ∧ P info

structure WellLinked (g : ClassGraph) (root : String) (id : ClassId) (info : ClassInfo) : Prop where
  root_iff : info.superClass = none ↔ info.name = root
  superClass : ∀ sup, info.superClass = some sup → g.LinkedWith sup fun above =>
    above.isInterface = false ∧ (info.isInterface = true → above.name = root)
  interfaces : ∀ i ∈ info.interfaces, g.LinkedWith i fun above => above.isInterface = true
  visible : ∀ sup ∈ info.directSupertypes, g.LinkedWith sup fun above =>
    above.access.isPublic = true ∨ above.package = info.package
  fields : info.fields.Pairwise fun a b => (a.name, a.descriptor) ≠ (b.name, b.descriptor)
  methods : info.methods.Pairwise fun a b => (a.name, a.descriptor) ≠ (b.name, b.descriptor)
  fieldTypes : ∀ f ∈ info.fields, ∃ t, FieldType.ofDescriptor f.descriptor = .ok t ∧
    f.category = .ofType t ∧ f.category.isReference = t.isReference
  methodTypes : ∀ m ∈ info.methods, ∃ t, MethodType.ofDescriptor m.descriptor = .ok t
  tables : info.isInterface = true → info.vtable = [] ∧ info.interfaceTable = []
  entries : ∀ m ∈ info.vtable, ∃ mi, g.method? m = some mi ∧ mi.isStatic = false ∧
    mi.isPrivate = false ∧ (info.isAbstract = false → mi.isAbstract = false) ∧
    (m.owner ∈ g.lineage id ∨ m.owner ∈ g.superinterfaces id)
  once : info.vtable.Nodup
  declared : info.isInterface = false → ∀ m ∈ info.virtualMethods, info.vtable.count m = 1

theorem Coherent.root_iff (hg : g.Coherent (· = options)) (hinfo : g.info? id = some info) :
    info.superClass = none ↔ info.name = options.rootClass := by
  obtain ⟨_, slot, rfl, -, hfinished⟩ := hg.finished hinfo
  have hname : info.name = slot.record.name := (draft_declares hfinished.drafted).1
  rw [hname, ← hfinished.resolved.root, ← hfinished.resolved.superName, Option.map_eq_none_iff]

theorem Coherent.linked_of_direct (hg : g.Coherent allowed) (h : g.Direct id sup) :
    ∃ above, g.status sup = .linked above := by
  obtain ⟨above, habove⟩ := hg.known h
  exact ⟨above, hg.status_of_info habove⟩

theorem Coherent.visible_of_accessible (hg : g.Coherent allowed) (hinfo : g.info? id = some info)
    (habove : g.info? sup = some above) (haccess : g.canAccessClass id sup = true) :
    above.access.isPublic = true ∨ above.package = info.package := by
  obtain ⟨_, slot, -, hslot, hfinished⟩ := hg.finished habove
  rw [canAccessClass, Bool.or_eq_true] at haccess
  rcases haccess with hpublic | hpackage
  · rw [record?, hslot] at hpublic
    exact .inl ((draft_declares hfinished.drafted).2.1 ▸ hpublic)
  · rw [ClassGraph.samePackage, hg.name_of_info hinfo, hg.name_of_info habove] at hpackage
    exact .inr (eq_of_beq hpackage).symm

theorem Coherent.accessible (hg : g.Coherent allowed) (hinfo : g.info? id = some info)
    (hsup : sup ∈ info.directSupertypes) : g.canAccessClass id sup = true := by
  obtain ⟨_, _, -, -, hdraft⟩ := hg.drafted hinfo
  obtain ⟨hsuper, hinterfaces⟩ := draft_supers hdraft
  rcases List.mem_append.mp hsup with hsup | hsup
  · exact (checkSuperClass_ok (hsuper sup (Option.mem_toList.mp hsup))).2.1
  · exact (checkInterface_ok (hinterfaces sup hsup)).1

theorem Coherent.entry (hg : g.Coherent allowed) (hinfo : g.info? id = some info)
    (hm : m ∈ info.vtable) : ∃ mi, g.method? m = some mi ∧ mi.isStatic = false ∧
      mi.isPrivate = false ∧ (info.isAbstract = false → mi.isAbstract = false) ∧
      (m.owner ∈ g.lineage id ∨ m.owner ∈ g.superinterfaces id) := by
  have hclass := hg.class_of_slot hinfo hm
  have hsound := hg.sound hinfo hclass
  obtain ⟨mi, hmi, hinherit⟩ := methodHas_iff.mp (hsound.inheritable hm)
  simp only [MethodInfo.isInheritable, Bool.and_eq_true, Bool.not_eq_true'] at hinherit
  refine ⟨mi, hmi, hinherit.2, hinherit.1, fun hconcrete => ?_, ?_⟩
  · have hbody := (hg.built hinfo hclass).concrete hconcrete m hm
    simpa [methodHas, hmi] using hbody
  · cases hkind : g.isInterface m.owner with
    | true => exact .inr (hsound.ofInterface hm hkind).1
    | false => exact .inl (hsound.ofClass hm hkind).1

theorem Coherent.nodup_vtable (hg : g.Coherent allowed) (hinfo : g.info? id = some info) :
    info.vtable.Nodup := by
  rw [List.nodup_iff_getElem?_ne_getElem?]
  intro i j hlt hj hsame
  have hi := List.getElem?_eq_getElem (hlt.trans hj)
  have hclass := hg.class_of_slot hinfo (List.mem_of_getElem? hi)
  have heq := (hg.sound hinfo hclass).once hi (hsame ▸ hi)
  omega

theorem Coherent.slot_of_declared (hg : g.Coherent allowed) (hinfo : g.info? id = some info)
    (hclass : info.isInterface = false) (hm : m ∈ info.virtualMethods) : m ∈ info.vtable := by
  obtain ⟨howner, hvirtual⟩ := (hg.mem_virtualMethods_iff hinfo).mp hm
  obtain ⟨mi, hmi, -⟩ := methodHas_iff.mp hvirtual
  have hdeclared : g.virtualMethod? id mi.name mi.descriptor = some m :=
    hg.virtualMethod_iff.mpr ⟨howner, key?_eq hmi, hvirtual⟩
  have hnear : g.nearestVirtual? id mi.name mi.descriptor = some m := by
    rw [nearestVirtual?, findSome?_lineage, hdeclared, Option.some_or]
  exact (hg.sound hinfo hclass).nearest hnear

theorem distinct_keys {α : Type} {name descriptor : α → String} {named : α → String → String → Bool}
    {l : List α} (hnamed : ∀ a n d, named a n d = true ↔ (name a, descriptor a) = (n, d))
    (h : l.Pairwise fun a b => named a (name b) (descriptor b) = false) :
    l.Pairwise fun a b => (name a, descriptor a) ≠ (name b, descriptor b) := by
  refine h.imp fun {a b} hab heq => ?_
  rw [(hnamed a (name b) (descriptor b)).mpr heq] at hab
  cases hab

theorem linked_classes_are_sound (h : Reachable (· = options) g)
    (hlinked : g.status id = .linked info) : g.WellLinked options.rootClass id info := by
  have hg := h.coherent
  have hinfo := known_of_linked hlinked
  obtain ⟨_, slot, hoptions, hslot, hfinished⟩ := hg.finished hinfo
  obtain rfl := hoptions
  obtain ⟨hsuper, hinterfaces⟩ := draft_supers hfinished.drafted
  obtain ⟨hfields, hmethods⟩ := draft_members hfinished.drafted
  have haccess : info.access = slot.record.access := (draft_declares hfinished.drafted).2.1
  exact {
    root_iff := hg.root_iff hinfo
    superClass := by
      intro sup hsup
      obtain ⟨habove, -, hkind⟩ := checkSuperClass_ok (hsuper sup hsup)
      obtain ⟨above, hlinked'⟩ :=
        hg.linked_of_direct (direct_of_superClass ((superClass?_eq hinfo).trans hsup))
      have hinfo' := known_of_linked hlinked'
      refine ⟨above, hlinked', (isInterface_eq hinfo').symm.trans hkind, fun hinterface => ?_⟩
      rw [← hg.name_of_info hinfo']
      exact habove (haccess ▸ hinterface)
    interfaces := by
      intro i hi
      obtain ⟨above, hlinked'⟩ := hg.linked_of_direct (direct_of_interface hinfo hi)
      have hkind := (checkInterface_ok (hinterfaces i hi)).2
      exact ⟨above, hlinked', (isInterface_eq (known_of_linked hlinked')).symm.trans hkind⟩
    visible := by
      intro sup hsup
      have hdirect : g.Direct id sup := by
        rw [Direct, directSupertypes_eq hinfo]
        exact hsup
      obtain ⟨above, hlinked'⟩ := hg.linked_of_direct hdirect
      exact ⟨above, hlinked', hg.visible_of_accessible hinfo (known_of_linked hlinked')
        (hg.accessible hinfo hsup)⟩
    fields := distinct_keys (fun _ _ _ => by simp [FieldInfo.isNamed]) (resolveFields_ok hfields)
    methods := distinct_keys (fun _ _ _ => MethodInfo.isNamed_iff) (resolveMethods_ok hmethods)
    fieldTypes := by
      intro f hf
      exact ⟨f.type, resolveFields_types hfields f hf, rfl, FieldCategory.isReference_ofType f.type⟩
    methodTypes := by
      intro m hm
      exact ⟨m.type, resolveMethods_types hmethods m hm⟩
    tables := hfinished.tables
    entries := fun m hm => hg.entry hinfo hm
    once := hg.nodup_vtable hinfo
    declared := by
      intro hclass m hm
      exact List.count_eq_one_of_mem (hg.nodup_vtable hinfo) (hg.slot_of_declared hinfo hclass hm) }

def runnerBase : ClassGraph :=
  program [
    { name := "Runner", access := .publicInterface,
      methods := [minimalRoot.method (Access.publicBit ||| Access.abstractBit) "run" "()V"] },
    { name := "Base", interfaces := ["Runner"], fields := [fieldDecl 0 "next" "LBase;"],
      methods := [minimalRoot.method Access.publicBit "run" "()V"] }] ⟨2⟩

theorem runnerBase_is_sound : ∃ info, Reachable (· = {}) runnerBase ∧
    runnerBase.status ⟨2⟩ = .linked info ∧ runnerBase.WellLinked rootName ⟨2⟩ info ∧
    info.vtable.count ⟨⟨2⟩, 0⟩ = 1 := by
  have hreach : Reachable (· = {}) runnerBase := reachable_program_of (by rfl) _ _
  obtain ⟨hlinked, hkind, hdeclared⟩ :
      runnerBase.isLinked ⟨2⟩ = true ∧ runnerBase.isInterface ⟨2⟩ = false ∧
      (runnerBase.info? ⟨2⟩).map (·.virtualMethods) = some [⟨⟨2⟩, 0⟩] := by
    decide +kernel
  obtain ⟨info, hinfo, hclass⟩ := linkedClass_of hlinked hkind
  rw [known_of_linked hinfo, Option.map_some, Option.some.injEq] at hdeclared
  have hsound := linked_classes_are_sound hreach hinfo
  exact ⟨info, hreach, hinfo, hsound, hsound.declared hclass _ (by simp [hdeclared])⟩

theorem runnerBase_interface : ∃ info, Reachable (· = {}) runnerBase ∧
    runnerBase.status ⟨1⟩ = .linked info ∧ ⟨⟨1⟩, 0⟩ ∈ info.virtualMethods ∧
    info.vtable.count ⟨⟨1⟩, 0⟩ = 0 := by
  obtain ⟨hlinked, hdeclared⟩ : runnerBase.isLinked ⟨1⟩ = true ∧
      (runnerBase.info? ⟨1⟩).map (fun info => (info.virtualMethods, info.vtable)) =
        some ([⟨⟨1⟩, 0⟩], []) := by
    decide +kernel
  obtain ⟨info, hinfo⟩ := linked_of_isLinked hlinked
  rw [known_of_linked hinfo, Option.map_some, Option.some.injEq, Prod.mk.injEq] at hdeclared
  refine ⟨info, reachable_program_of (by rfl) _ _, hinfo, ?_, ?_⟩
  · simp [hdeclared.1]
  · simp [hdeclared.2]

end Linkage.ClassGraph
