import Linkage.Graph.MethodTable
import Linkage.Proofs.Hierarchy

namespace Linkage

theorem MethodInfo.isNamed_iff {m : MethodInfo} {name descriptor : String} :
    m.isNamed name descriptor = true ↔ (m.name, m.descriptor) = (name, descriptor) := by
  simp [isNamed]

namespace ClassInfo

theorem mem_methodRefs_iff {info : ClassInfo} {ref : MethodRef} {m : MethodInfo} :
    (ref, m) ∈ info.methodRefs ↔ ref.owner = info.id ∧ info.methods[ref.index]? = some m := by
  obtain ⟨owner, index⟩ := ref
  simp only [methodRefs, List.mem_map, List.mem_zipIdx_iff_getElem?, Prod.mk.injEq,
    MethodRef.mk.injEq]
  constructor
  · rintro ⟨⟨m', n⟩, hget, ⟨howner, hindex⟩, rfl⟩
    exact ⟨howner.symm, hindex ▸ hget⟩
  · rintro ⟨howner, hget⟩
    exact ⟨(m, index), hget, ⟨howner.symm, rfl⟩, rfl⟩

def DistinctMethods (info : ClassInfo) : Prop :=
  info.methods.Pairwise fun a b => a.isNamed b.name b.descriptor = false

theorem DistinctMethods.index_eq {info : ClassInfo} (h : info.DistinctMethods) {i j : Nat}
    {a b : MethodInfo} (ha : info.methods[i]? = some a) (hb : info.methods[j]? = some b)
    (hkey : (a.name, a.descriptor) = (b.name, b.descriptor)) : i = j := by
  obtain ⟨hi, rfl⟩ := List.getElem?_eq_some_iff.mp ha
  obtain ⟨hj, rfl⟩ := List.getElem?_eq_some_iff.mp hb
  rcases Nat.lt_trichotomy i j with hlt | heq | hgt
  · have := List.pairwise_iff_getElem.mp h i j hi hj hlt
    rw [MethodInfo.isNamed_iff.mpr hkey] at this
    simp at this
  · exact heq
  · have := List.pairwise_iff_getElem.mp h j i hj hi hgt
    rw [MethodInfo.isNamed_iff.mpr hkey.symm] at this
    simp at this

theorem DistinctMethods.pairwise_methodRefs {info : ClassInfo} (h : info.DistinctMethods) :
    info.methodRefs.Pairwise fun a b => a.2.isNamed b.2.name b.2.descriptor = false := by
  rw [methodRefs, List.pairwise_map, List.pairwise_iff_getElem]
  intro i j hi hj hlt
  rw [List.getElem_zipIdx, List.getElem_zipIdx]
  exact List.pairwise_iff_getElem.mp h i j (by simpa using hi) (by simpa using hj) hlt

end ClassInfo

namespace ClassGraph

variable {g : ClassGraph} {id sub sup : ClassId} {info : ClassInfo} {a b m : MethodRef}
  {name descriptor : String}

def key? (g : ClassGraph) (m : MethodRef) : Option (String × String) :=
  (g.method? m).map fun info => (info.name, info.descriptor)

structure WellFormed (g : ClassGraph) : Prop extends Hierarchical g where
  distinct : ∀ {id info}, g.info? id = some info → info.DistinctMethods

theorem methodHas_iff {p : MethodInfo → Bool} :
    g.methodHas m p = true ↔ ∃ info, g.method? m = some info ∧ p info = true := by
  simp [methodHas, Option.any_eq_true]

theorem methodHas_isNamed_iff :
    g.methodHas m (·.isNamed name descriptor) = true ↔ g.key? m = some (name, descriptor) := by
  simp only [methodHas_iff, key?, Option.map_eq_some_iff, MethodInfo.isNamed_iff]

theorem key?_eq {mi : MethodInfo} (h : g.method? m = some mi) :
    g.key? m = some (mi.name, mi.descriptor) := by
  simp [key?, h]

theorem method?_eq (h : g.info? m.owner = some info) : g.method? m = info.methods[m.index]? := by
  simp [method?, h]

theorem known_of_method {mi : MethodInfo} (h : g.method? m = some mi) : g.Known m.owner := by
  obtain ⟨info, hinfo, -⟩ := Option.bind_eq_some_iff.mp h
  exact known_of_info hinfo

theorem known_of_methodHas {p : MethodInfo → Bool} (h : g.methodHas m p = true) :
    g.Known m.owner := by
  obtain ⟨mi, hmi, -⟩ := methodHas_iff.mp h
  exact known_of_method hmi

theorem method_of_key {key : String × String} (h : g.key? m = some key) :
    ∃ mi, g.method? m = some mi ∧ (mi.name, mi.descriptor) = key :=
  Option.map_eq_some_iff.mp h

theorem known_of_key {key : String × String} (h : g.key? m = some key) : g.Known m.owner := by
  obtain ⟨mi, hmi, -⟩ := method_of_key h
  exact known_of_method hmi

theorem isInterface_eq (h : g.info? id = some info) : g.isInterface id = info.isInterface := by
  simp [isInterface, h]

theorem superClass?_eq (h : g.info? id = some info) : g.superClass? id = info.superClass := by
  simp [superClass?, h]

theorem Hierarchical.mem_methodRefs_iff (h : g.Hierarchical) (hinfo : g.info? id = some info)
    {mi : MethodInfo} : (m, mi) ∈ info.methodRefs ↔ m.owner = id ∧ g.method? m = some mi := by
  rw [ClassInfo.mem_methodRefs_iff, h.self hinfo]
  constructor
  · rintro ⟨rfl, hget⟩
    exact ⟨rfl, (method?_eq hinfo).trans hget⟩
  · rintro ⟨rfl, hget⟩
    exact ⟨rfl, (method?_eq hinfo).symm.trans hget⟩

theorem WellFormed.method_ext (h : g.WellFormed) {key : String × String} (ha : g.key? a = some key)
    (hb : g.key? b = some key) (howner : a.owner = b.owner) : a = b := by
  obtain ⟨ma, hma, hka⟩ := method_of_key ha
  obtain ⟨mb, hmb, hkb⟩ := method_of_key hb
  obtain ⟨info, hinfo, -⟩ := Option.bind_eq_some_iff.mp hma
  rw [method?_eq hinfo] at hma
  rw [method?_eq (howner ▸ hinfo)] at hmb
  have hindex := (h.distinct hinfo).index_eq hma hmb (hka.trans hkb.symm)
  cases a; cases b
  simp_all

theorem Hierarchical.of_declaredMethod (h : g.Hierarchical)
    (hm : g.declaredMethod? id name descriptor = some m) :
    m.owner = id ∧ g.key? m = some (name, descriptor) := by
  obtain ⟨info, hinfo, hfind⟩ := Option.bind_eq_some_iff.mp hm
  obtain ⟨index, hindex, rfl⟩ := Option.map_eq_some_iff.mp hfind
  obtain ⟨hlt, hnamed, -⟩ := List.findIdx?_eq_some_iff_getElem.mp hindex
  refine ⟨h.self hinfo, ?_⟩
  rw [← methodHas_isNamed_iff, methodHas_iff]
  exact ⟨info.methods[index], by simp [method?, h.self hinfo, hinfo, hlt], hnamed⟩

theorem WellFormed.declaredMethod_iff (h : g.WellFormed) :
    g.declaredMethod? id name descriptor = some m ↔
      m.owner = id ∧ g.key? m = some (name, descriptor) := by
  refine ⟨h.toHierarchical.of_declaredMethod, ?_⟩
  rintro ⟨rfl, hkey⟩
  cases hfound : g.declaredMethod? m.owner name descriptor with
  | some m' =>
      obtain ⟨howner, hkey'⟩ := h.toHierarchical.of_declaredMethod hfound
      rw [h.method_ext hkey' hkey howner]
  | none =>
      obtain ⟨mi, hmi, hnamed⟩ := methodHas_iff.mp (methodHas_isNamed_iff.mpr hkey)
      obtain ⟨info, hinfo, hget⟩ := Option.bind_eq_some_iff.mp hmi
      simp only [declaredMethod?, hinfo, Option.bind_some, ClassInfo.findMethod?,
        Option.map_eq_none_iff, List.findIdx?_eq_none_iff] at hfound
      have hmem := List.mem_of_getElem? hget
      simp [hfound mi hmem] at hnamed

def virtualMethod? (g : ClassGraph) (id : ClassId) (name descriptor : String) : Option MethodRef :=
  (g.declaredMethod? id name descriptor).filter (g.methodHas · (·.isVirtual))

def nearestVirtual? (g : ClassGraph) (id : ClassId) (name descriptor : String) :
    Option MethodRef :=
  (g.lineage id).findSome? fun c => g.virtualMethod? c name descriptor

theorem WellFormed.virtualMethod_iff (h : g.WellFormed) :
    g.virtualMethod? id name descriptor = some m ↔
      m.owner = id ∧ g.key? m = some (name, descriptor) ∧
        g.methodHas m (·.isVirtual) = true := by
  rw [virtualMethod?, Option.filter_eq_some_iff, h.declaredMethod_iff, and_assoc]

theorem Hierarchical.nearestVirtual_eq (h : g.Hierarchical) (hsup : g.superClass? sub = some sup) :
    g.nearestVirtual? sub name descriptor =
      (g.virtualMethod? sub name descriptor).or (g.nearestVirtual? sup name descriptor) := by
  rw [nearestVirtual?, findSome?_lineage, h.superclasses_eq hsup, nearestVirtual?]

theorem mem_interfaceMethods_iff {p : MethodRef × MethodInfo} :
    p ∈ g.interfaceMethods id ↔ ∃ i ∈ g.superinterfaces id, p ∈ g.slottedMethods i := by
  simp [interfaceMethods]

theorem WellFormed.of_slotted (h : g.WellFormed) {p : MethodRef × MethodInfo}
    (hp : p ∈ g.slottedMethods id) :
    p.1.owner = id ∧ g.method? p.1 = some p.2 ∧ p.2.isInheritable = true ∧
      p.2.isClassInitializer = false := by
  unfold slottedMethods at hp
  split at hp
  next info hinfo =>
    obtain ⟨hmem, hp⟩ := List.mem_filter.mp hp
    obtain ⟨howner, hmethod⟩ := (h.mem_methodRefs_iff hinfo).mp hmem
    simp only [Bool.and_eq_true, Bool.not_eq_true'] at hp
    exact ⟨howner, hmethod, hp.1, hp.2⟩
  next => simp at hp

theorem WellFormed.of_interfaceMethod (h : g.WellFormed) {p : MethodRef × MethodInfo}
    (hp : p ∈ g.interfaceMethods id) :
    p.1.owner ∈ g.superinterfaces id ∧ g.key? p.1 = some (p.2.name, p.2.descriptor) ∧
      g.methodHas p.1 (·.isInheritable) = true := by
  obtain ⟨i, hi, hp⟩ := mem_interfaceMethods_iff.mp hp
  obtain ⟨rfl, hmethod, hinherit, -⟩ := h.of_slotted hp
  exact ⟨hi, key?_eq hmethod, methodHas_iff.mpr ⟨p.2, hmethod, hinherit⟩⟩

end ClassGraph

end Linkage
