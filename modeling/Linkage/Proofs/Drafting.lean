import Linkage.Graph.Linker
import Linkage.Proofs.Extension
import Linkage.Proofs.Outcome

namespace Linkage

open Outcome

variable {record : ClassRecord} {fields : List FieldInfo} {methods : List MethodInfo}

theorem FieldInfo.decl_of_ofDecl {decl : FieldDecl} {f : FieldInfo}
    (h : FieldInfo.ofDecl decl = .ok f) : f.decl = decl := by
  obtain ⟨type, -, h⟩ := bind_ok_iff.mp h
  rw [← pure_ok_iff.mp h]

theorem FieldInfo.type_of_ofDecl {decl : FieldDecl} {f : FieldInfo}
    (h : FieldInfo.ofDecl decl = .ok f) : FieldType.ofDescriptor f.descriptor = .ok f.type := by
  obtain ⟨type, htype, h⟩ := bind_ok_iff.mp h
  rw [← pure_ok_iff.mp h]
  exact htype

theorem MethodInfo.decl_of_ofDecl {version : ClassVersion} {decl : MethodDecl} {m : MethodInfo}
    (h : MethodInfo.ofDecl version decl = .ok m) : m.decl = decl := by
  obtain ⟨type, -, h⟩ := bind_ok_iff.mp h
  rw [← pure_ok_iff.mp h]

theorem MethodInfo.type_of_ofDecl {version : ClassVersion} {decl : MethodDecl} {m : MethodInfo}
    (h : MethodInfo.ofDecl version decl = .ok m) :
    MethodType.ofDescriptor m.descriptor = .ok m.type := by
  obtain ⟨type, htype, h⟩ := bind_ok_iff.mp h
  rw [← pure_ok_iff.mp h]
  exact htype

theorem MethodInfo.name_of_ofDecl {version : ClassVersion} {decl : MethodDecl} {m : MethodInfo}
    (h : MethodInfo.ofDecl version decl = .ok m) (hm : m.isClassInitializer = true) :
    m.name = "<clinit>" := by
  obtain ⟨type, -, h⟩ := bind_ok_iff.mp h
  rw [← pure_ok_iff.mp h] at hm ⊢
  simp only [Bool.and_eq_true, decide_eq_true_eq] at hm
  exact hm.1

namespace ClassGraph

variable {g g' : ClassGraph} {options : LinkOptions} {id sup : ClassId} {slot : Slot}
  {supers : Supertypes} {info : ClassInfo}

theorem resolveFields_collects {P : List FieldInfo → Prop} (hnil : P [])
    (hadd : ∀ done f, P done → f.decl ∈ record.fields → FieldInfo.ofDecl f.decl = .ok f →
      (∀ a ∈ done, a.isNamed f.name f.descriptor = false) → P (done ++ [f]))
    (h : resolveFields record = .ok fields) : P fields := by
  refine foldlM_keeps P (fun done decl next hmem hdone hstep => ?_) hnil h
  by_cases hdup : done.any (·.isNamed decl.name decl.descriptor) = true
  · rw [if_pos hdup, throw_bind] at hstep
    simp at hstep
  · rw [if_neg hdup] at hstep
    split at hstep
    next f hf =>
      rw [← pure_ok_iff.mp hstep]
      obtain rfl := FieldInfo.decl_of_ofDecl hf
      refine hadd done f hdone hmem hf fun a ha => ?_
      exact Bool.eq_false_iff.mpr fun hnamed => hdup (List.any_eq_true.mpr ⟨a, ha, hnamed⟩)
    next => simp at hstep

theorem resolveMethods_collects {P : List MethodInfo → Prop} (hnil : P [])
    (hadd : ∀ done m, P done → m.decl ∈ record.methods →
      MethodInfo.ofDecl record.version m.decl = .ok m →
      (∀ a ∈ done, a.isNamed m.name m.descriptor = false) → P (done ++ [m]))
    (h : resolveMethods record = .ok methods) : P methods := by
  refine foldlM_keeps P (fun done decl next hmem hdone hstep => ?_) hnil h
  by_cases hdup : done.any (·.isNamed decl.name decl.descriptor) = true
  · rw [if_pos hdup, throw_bind] at hstep
    simp at hstep
  · rw [if_neg hdup] at hstep
    split at hstep
    next m hm =>
      rw [← pure_ok_iff.mp hstep]
      obtain rfl := MethodInfo.decl_of_ofDecl hm
      refine hadd done m hdone hmem hm fun a ha => ?_
      exact Bool.eq_false_iff.mpr fun hnamed => hdup (List.any_eq_true.mpr ⟨a, ha, hnamed⟩)
    next => simp at hstep

theorem pairwise_concat {α : Type} {r : α → α → Prop} {l : List α} {b : α} (h : l.Pairwise r)
    (hlast : ∀ a ∈ l, r a b) : (l ++ [b]).Pairwise r := by
  rw [List.pairwise_append]
  exact ⟨h, List.pairwise_singleton _ _, fun a ha => List.forall_mem_singleton.mpr (hlast a ha)⟩

theorem resolveFields_ok (h : resolveFields record = .ok fields) :
    fields.Pairwise fun a b => a.isNamed b.name b.descriptor = false :=
  resolveFields_collects .nil (fun _ _ hdone _ _ hnew => pairwise_concat hdone hnew) h

theorem resolveFields_types (h : resolveFields record = .ok fields) :
    ∀ f ∈ fields, FieldType.ofDescriptor f.descriptor = .ok f.type :=
  resolveFields_collects (P := fun done => ∀ f ∈ done, FieldType.ofDescriptor f.descriptor = .ok f.type)
    (by simp) (fun _ _ hdone _ hf _ => List.forall_mem_append.mpr
      ⟨hdone, List.forall_mem_singleton.mpr (FieldInfo.type_of_ofDecl hf)⟩) h

theorem resolveMethods_ok (h : resolveMethods record = .ok methods) :
    methods.Pairwise fun a b => a.isNamed b.name b.descriptor = false :=
  resolveMethods_collects .nil (fun _ _ hdone _ _ hnew => pairwise_concat hdone hnew) h

theorem resolveMethods_types (h : resolveMethods record = .ok methods) :
    ∀ m ∈ methods, MethodType.ofDescriptor m.descriptor = .ok m.type :=
  resolveMethods_collects
    (P := fun done => ∀ m ∈ done, MethodType.ofDescriptor m.descriptor = .ok m.type)
    (by simp) (fun _ _ hdone _ hm _ => List.forall_mem_append.mpr
      ⟨hdone, List.forall_mem_singleton.mpr (MethodInfo.type_of_ofDecl hm)⟩) h

theorem resolveMethods_initializer (h : resolveMethods record = .ok methods) :
    ∀ m ∈ methods, m.isClassInitializer = true → m.name = "<clinit>" :=
  resolveMethods_collects
    (P := fun done => ∀ m ∈ done, m.isClassInitializer = true → m.name = "<clinit>")
    (by simp) (fun _ _ hdone _ hm _ => List.forall_mem_append.mpr
      ⟨hdone, List.forall_mem_singleton.mpr (MethodInfo.name_of_ofDecl hm)⟩) h

theorem checkSuperClass_ok (h : g.checkSuperClass options id record sup = .ok ()) :
    (record.access.isInterface = true → g.name sup = options.rootClass) ∧
      g.canAccessClass id sup = true ∧ g.isInterface sup = false := by
  unfold checkSuperClass at h
  dsimp only at h
  split at h
  · simp [throw_bind] at h
  next hroot =>
    split at h
    · simp [throw_bind] at h
    next haccess =>
      split at h
      · simp at h
      next hkind => exact ⟨by simpa using hroot, by simpa using haccess, by simpa using hkind⟩

theorem checkInterface_ok (h : g.checkInterface id record sup = .ok ()) :
    g.canAccessClass id sup = true ∧ g.isInterface sup = true := by
  unfold checkInterface at h
  dsimp only at h
  split at h
  · simp [throw_bind] at h
  next haccess =>
    split at h
    · simp at h
    next hkind => exact ⟨by simpa using haccess, by simpa using hkind⟩

theorem draft_supers (h : g.draft options id slot supers = .ok info) :
    (∀ sup, supers.superClass = some sup →
      g.checkSuperClass options id slot.record sup = .ok ()) ∧
    ∀ i ∈ supers.interfaces, g.checkInterface id slot.record i = .ok () := by
  unfold draft at h
  obtain ⟨_, hsuper, h⟩ := bind_ok_iff.mp h
  obtain ⟨_, hinterfaces, -⟩ := bind_ok_iff.mp h
  refine ⟨fun sup hsup => ?_, forM_ok hinterfaces⟩
  rw [hsup] at hsuper
  exact hsuper

theorem draft_members (h : g.draft options id slot supers = .ok info) :
    resolveFields slot.record = .ok info.fields ∧ resolveMethods slot.record = .ok info.methods := by
  unfold draft at h
  obtain ⟨_, -, h⟩ := bind_ok_iff.mp h
  obtain ⟨_, -, h⟩ := bind_ok_iff.mp h
  obtain ⟨fields, hfields, h⟩ := bind_ok_iff.mp h
  obtain ⟨methods, hmethods, h⟩ := bind_ok_iff.mp h
  rw [← pure_ok_iff.mp h]
  exact ⟨hfields, hmethods⟩

structure Drafted (g : ClassGraph) (id : ClassId) (supers : Supertypes) (info : ClassInfo) :
    Prop where
  self : info.id = id
  superClass : info.superClass = supers.superClass
  interfaces : info.interfaces = supers.interfaces
  withoutTables : info.withoutTables = info
  distinct : info.DistinctMethods
  initializer : ∀ m ∈ info.methods, m.isClassInitializer = true → m.name = "<clinit>"
  superKind : ∀ {sup}, supers.superClass = some sup → g.isInterface sup = false
  interfaceKind : ∀ {i}, i ∈ supers.interfaces → g.isInterface i = true

theorem draft_ok (h : g.draft options id slot supers = .ok info) : g.Drafted id supers info := by
  obtain ⟨hsuper, hinterfaces⟩ := draft_supers h
  unfold draft at h
  obtain ⟨_, -, h⟩ := bind_ok_iff.mp h
  obtain ⟨_, -, h⟩ := bind_ok_iff.mp h
  obtain ⟨fields, -, h⟩ := bind_ok_iff.mp h
  obtain ⟨methods, hmethods, h⟩ := bind_ok_iff.mp h
  rw [← pure_ok_iff.mp h]
  exact ⟨rfl, rfl, rfl, rfl, resolveMethods_ok hmethods, resolveMethods_initializer hmethods,
    fun {sup} hsup => (checkSuperClass_ok (hsuper sup hsup)).2.2,
    fun {i} hi => (checkInterface_ok (hinterfaces i hi)).2⟩

theorem Extends.canAccessClass (e : g.Extends g') (hname : g'.name id = g.name id)
    (hsup : g.Known sup) : g'.canAccessClass id sup = g.canAccessClass id sup := by
  simp only [ClassGraph.canAccessClass, ClassGraph.samePackage, hname, e.record hsup,
    e.className hsup]

theorem Extends.draft (e : g.Extends g') (hname : g'.name id = g.name id)
    (hsuper : ∀ {sup}, supers.superClass = some sup → g.Known sup ∧ g'.info? sup = g.info? sup)
    (hinterfaces : ∀ {i}, i ∈ supers.interfaces → g.Known i) :
    g'.draft options id slot supers = g.draft options id slot supers := by
  have hcheckSuper : supers.superClass.forM (g'.checkSuperClass options id slot.record) =
      supers.superClass.forM (g.checkSuperClass options id slot.record) := by
    cases hsup : supers.superClass with
    | none => rfl
    | some sup =>
        have hknown := (hsuper hsup).1
        simp only [Option.forM_eq_forM, Option.forM_some, checkSuperClass, e.className hknown,
          e.canAccessClass hname hknown, e.isInterface hknown]
  have hcheckInterfaces : supers.interfaces.forM (g'.checkInterface id slot.record) =
      supers.interfaces.forM (g.checkInterface id slot.record) :=
    forM_congr fun i hi => by
      simp only [checkInterface, e.className (hinterfaces hi),
        e.canAccessClass hname (hinterfaces hi), e.isInterface (hinterfaces hi)]
  have hparent : supers.superClass.bind g'.info? = supers.superClass.bind g.info? := by
    cases hsup : supers.superClass with
    | none => rfl
    | some sup => exact (hsuper hsup).2
  rw [ClassGraph.draft, ClassGraph.draft, hcheckSuper, hcheckInterfaces, hparent]

end ClassGraph

end Linkage
