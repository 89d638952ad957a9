import Linkage.Proofs.Overriding
import Mathlib.Data.Finset.Max

namespace Linkage.ClassGraph

variable {g g' : ClassGraph} {id : ClassId} {m : MethodRef} {name descriptor : String}

theorem WellFormed.mem_interfaceCandidates_iff (hg : g.WellFormed) :
    m ∈ g.interfaceCandidates id name descriptor ↔ m.owner ∈ g.superinterfaces id ∧
      g.key? m = some (name, descriptor) ∧ g.methodHas m (·.isInheritable) = true := by
  simp only [interfaceCandidates, List.mem_filter, List.mem_filterMap, hg.declaredMethod_iff]
  constructor
  · rintro ⟨⟨i, hi, rfl, hkey⟩, hinherit⟩
    exact ⟨hi, hkey, hinherit⟩
  · rintro ⟨hi, hkey, hinherit⟩
    exact ⟨⟨m.owner, hi, rfl, hkey⟩, hinherit⟩

theorem mem_candidates_of_maximallySpecific (hm : m ∈ g.maximallySpecific id name descriptor) :
    m ∈ g.interfaceCandidates id name descriptor :=
  List.mem_of_mem_filter hm

theorem mem_concreteDefaults_iff :
    m ∈ g.concreteDefaults id name descriptor ↔
      m ∈ g.maximallySpecific id name descriptor ∧ g.methodHas m (!·.isAbstract) = true := by
  simp [concreteDefaults, withoutAbstract]

theorem WellFormed.exists_specific_below (hg : g.WellFormed)
    (hm : m ∈ g.interfaceCandidates id name descriptor) :
    ∃ top ∈ g.maximallySpecific id name descriptor, g.isSubtype top.owner m.owner = true := by
  -- Of the candidates at or below this one, one of the highest rank has no candidate below it.
  obtain ⟨rank, hrank, -⟩ := hg.bounded
  let below := (g.interfaceCandidates id name descriptor).filter (g.isSubtype ·.owner m.owner)
  have hmem : m ∈ below := List.mem_filter.mpr ⟨hm, isSubtype_refl g m.owner⟩
  obtain ⟨top, htop, hmax⟩ := Finset.exists_max_image below.toFinset (fun m => rank m.owner)
    ⟨m, List.mem_toFinset.mpr hmem⟩
  obtain ⟨hcandidate, hbelow⟩ := List.mem_filter.mp (List.mem_toFinset.mp htop)
  refine ⟨top, List.mem_filter.mpr ⟨hcandidate, ?_⟩, hbelow⟩
  simp only [Bool.not_eq_true', List.any_eq_false, Bool.and_eq_true, decide_eq_true_eq, not_and]
  intro other hother hne hsub
  have hlt := hg.rank_lt_of_isSubtype hrank hsub hne
  have hle := hmax other (List.mem_toFinset.mpr
    (List.mem_filter.mpr ⟨hother, hg.isSubtype_trans hsub hbelow⟩))
  omega

theorem WellFormed.maximallySpecific_ne_nil (hg : g.WellFormed)
    (hm : m ∈ g.interfaceCandidates id name descriptor) :
    g.maximallySpecific id name descriptor ≠ [] := by
  obtain ⟨top, htop, -⟩ := hg.exists_specific_below hm
  exact List.ne_nil_of_mem htop

theorem Extends.interfaceCandidates (e : g.Extends g') (hg : g.Hierarchical) (hid : g.Known id) :
    g'.interfaceCandidates id name descriptor = g.interfaceCandidates id name descriptor := by
  have hknown : ∀ i ∈ g.superinterfaces id, g.Known i := fun i hi =>
    hg.known_of_mem_supertypes (mem_superinterfaces_iff.mp hi).1
  rw [ClassGraph.interfaceCandidates, ClassGraph.interfaceCandidates, e.superinterfaces hg hid,
    List.filterMap_congr fun i hi => e.declaredMethod (hknown i hi)]
  refine List.filter_congr fun m hm => ?_
  obtain ⟨i, hi, hdeclared⟩ := List.mem_filterMap.mp hm
  exact e.methodHas ((hg.of_declaredMethod hdeclared).1 ▸ hknown i hi) _

theorem known_of_mem_candidates (hm : m ∈ g.interfaceCandidates id name descriptor) :
    g.Known m.owner :=
  known_of_methodHas (List.mem_filter.mp hm).2

theorem Extends.maximallySpecific (e : g.Extends g') (hg : g.Hierarchical) (hid : g.Known id) :
    g'.maximallySpecific id name descriptor = g.maximallySpecific id name descriptor := by
  simp only [ClassGraph.maximallySpecific, e.interfaceCandidates hg hid]
  refine List.filter_congr fun m hm => ?_
  congr 1
  rw [Bool.eq_iff_iff, List.any_eq_true, List.any_eq_true]
  refine exists_congr fun other => and_congr_right fun hother => ?_
  rw [e.isSubtype hg (known_of_mem_candidates hother)]

theorem Extends.concreteDefaults (e : g.Extends g') (hg : g.Hierarchical) (hid : g.Known id) :
    g'.concreteDefaults id name descriptor = g.concreteDefaults id name descriptor := by
  rw [ClassGraph.concreteDefaults, ClassGraph.concreteDefaults, e.maximallySpecific hg hid]
  exact List.filter_congr fun m hm =>
    e.methodHas (known_of_mem_candidates (mem_candidates_of_maximallySpecific hm)) _

end Linkage.ClassGraph
