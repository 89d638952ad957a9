import Linkage.Proofs.Reachability
import Mathlib.Data.List.Perm.Basic

namespace Linkage

structure ClassInfo.Relists (info info' : ClassInfo) : Prop where
  kind : info'.isInterface = info.isInterface
  superClass : info'.superClass = info.superClass
  interfaces : info'.interfaces.Perm info.interfaces
  methods : info'.methods = info.methods

theorem ClassInfo.Relists.mem_directSupertypes {info info' : ClassInfo} (h : info.Relists info')
    {sup : ClassId} : sup ∈ info'.directSupertypes ↔ sup ∈ info.directSupertypes := by
  simp [directSupertypes, h.superClass, h.interfaces.mem_iff]

namespace ClassGraph

open Relation

variable {g g' : ClassGraph} {id c sub sup : ClassId} {info : ClassInfo} {a b m : MethodRef}
  {name descriptor : String} {allowed : LinkOptions → Prop}

structure Candidate (g : ClassGraph) (id : ClassId) (name descriptor : String) (m : MethodRef) :
    Prop where
  above : TransGen g.Direct id m.owner
  ofInterface : g.isInterface m.owner = true
  declared : ∃ mi, g.method? m = some mi ∧ mi.name = name ∧ mi.descriptor = descriptor ∧
    mi.isPrivate = false ∧ mi.isStatic = false

theorem WellFormed.mem_candidates_iff (hg : g.WellFormed) :
    m ∈ g.interfaceCandidates id name descriptor ↔ g.Candidate id name descriptor m := by
  rw [hg.mem_interfaceCandidates_iff, mem_superinterfaces_iff, hg.mem_supertypes_iff]
  constructor
  · rintro ⟨⟨habove, hkind⟩, hkey, hinherit⟩
    obtain ⟨mi, hmi, hinherit⟩ := methodHas_iff.mp hinherit
    obtain ⟨rfl, rfl⟩ := Prod.mk.inj (Option.some.inj ((key?_eq hmi).symm.trans hkey))
    simp only [MethodInfo.isInheritable, Bool.and_eq_true, Bool.not_eq_true'] at hinherit
    exact ⟨habove, hkind, mi, hmi, rfl, rfl, hinherit.1, hinherit.2⟩
  · rintro ⟨habove, hkind, mi, hmi, rfl, rfl, hprivate, hstatic⟩
    exact ⟨⟨habove, hkind⟩, key?_eq hmi,
      methodHas_iff.mpr ⟨mi, hmi, by simp [MethodInfo.isInheritable, hprivate, hstatic]⟩⟩

theorem Hierarchical.transGen_iff (hg : g.Hierarchical) :
    TransGen g.Direct sub sup ↔ sub ≠ sup ∧ g.isSubtype sub sup = true := by
  rw [hg.isSubtype_iff, reflTransGen_iff_eq_or_transGen]
  constructor
  · intro hpath
    refine ⟨?_, .inr hpath⟩
    rintro rfl
    exact hg.not_mem_supertypes_self sub (hg.mem_supertypes_iff.mpr hpath)
  · rintro ⟨hne, heq | hpath⟩
    · exact absurd heq.symm hne
    · exact hpath

theorem WellFormed.mem_maximallySpecific_iff (hg : g.WellFormed) :
    m ∈ g.maximallySpecific id name descriptor ↔ g.Candidate id name descriptor m ∧
      ∀ other, g.Candidate id name descriptor other → ¬TransGen g.Direct other.owner m.owner := by
  simp only [maximallySpecific, List.mem_filter, Bool.not_eq_true', List.any_eq_false,
    Bool.and_eq_true, decide_eq_true_eq, ← hg.transGen_iff, hg.mem_candidates_iff]

theorem Hierarchical.nodup_maximallySpecific (hg : g.Hierarchical) (id : ClassId)
    (name descriptor : String) : (g.maximallySpecific id name descriptor).Nodup := by
  refine List.Nodup.filter _ (List.Nodup.filter _ (List.Nodup.filterMap ?_
    (hg.nodup_superinterfaces id)))
  intro i j m hi hj
  rw [← (hg.of_declaredMethod hi).1, (hg.of_declaredMethod hj).1]

theorem Candidate.ext (hg : g.WellFormed) (ha : g.Candidate id name descriptor a)
    (hb : g.Candidate id name descriptor b) (howner : a.owner = b.owner) : a = b := by
  have hkey (m) (hm : g.Candidate id name descriptor m) : g.key? m = some (name, descriptor) :=
    (hg.mem_interfaceCandidates_iff.mp (hg.mem_candidates_iff.mpr hm)).2.1
  exact hg.method_ext (hkey a ha) (hkey b hb) howner

def RelistsAbove (g g' : ClassGraph) (id : ClassId) : Prop :=
  ∀ c info, g.isSubtype id c = true → g.info? c = some info →
    ∃ info', g'.info? c = some info' ∧ info.Relists info'

theorem RelistsAbove.direct (h : g.RelistsAbove g' id) (hknown : g.Known c)
    (hc : g.isSubtype id c = true) : g'.Direct c sup ↔ g.Direct c sup := by
  obtain ⟨info, hinfo⟩ := hknown
  obtain ⟨info', hinfo', hrelists⟩ := h c info hc hinfo
  rw [Direct, Direct, directSupertypes_eq hinfo, directSupertypes_eq hinfo',
    hrelists.mem_directSupertypes]

theorem RelistsAbove.transGen (h : g.RelistsAbove g' id) (hg : g.Hierarchical) (hknown : g.Known c)
    (hc : g.isSubtype id c = true) : TransGen g'.Direct c sup ↔ TransGen g.Direct c sup := by
  have hup {d} (hpath : TransGen g.Direct c d) : g.Known d ∧ g.isSubtype id d = true :=
    ⟨hg.known_of_mem_supertypes (hg.mem_supertypes_iff.mpr hpath),
      hg.isSubtype_trans hc (hg.transGen_iff.mp hpath).2⟩
  constructor
  · intro hpath
    induction hpath with
    | single hstep => exact .single ((h.direct hknown hc).mp hstep)
    | tail _ hstep ih => exact ih.tail ((h.direct (hup ih).1 (hup ih).2).mp hstep)
  · intro hpath
    induction hpath with
    | single hstep => exact .single ((h.direct hknown hc).mpr hstep)
    | tail hpath hstep ih => exact ih.tail ((h.direct (hup hpath).1 (hup hpath).2).mpr hstep)

theorem RelistsAbove.candidate (h : g.RelistsAbove g' id) (hg : g.Hierarchical)
    (hknown : g.Known id) :
    g'.Candidate id name descriptor m ↔ g.Candidate id name descriptor m := by
  have hpath : TransGen g'.Direct id m.owner ↔ TransGen g.Direct id m.owner :=
    h.transGen hg hknown (isSubtype_refl g id)
  have hsame (habove : TransGen g.Direct id m.owner) :
      g'.isInterface m.owner = g.isInterface m.owner ∧ g'.method? m = g.method? m := by
    obtain ⟨info, hinfo⟩ := hg.known_of_mem_supertypes (hg.mem_supertypes_iff.mpr habove)
    obtain ⟨info', hinfo', hrelists⟩ := h m.owner info (hg.transGen_iff.mp habove).2 hinfo
    rw [isInterface_eq hinfo, isInterface_eq hinfo', method?_eq hinfo, method?_eq hinfo',
      hrelists.methods]
    exact ⟨hrelists.kind, rfl⟩
  constructor
  · rintro ⟨habove, hkind, hdeclared⟩
    obtain ⟨hinterface, hmethod⟩ := hsame (hpath.mp habove)
    exact ⟨hpath.mp habove, hinterface ▸ hkind, hmethod ▸ hdeclared⟩
  · rintro ⟨habove, hkind, hdeclared⟩
    obtain ⟨hinterface, hmethod⟩ := hsame habove
    exact ⟨hpath.mpr habove, hinterface.trans hkind, hmethod.symm ▸ hdeclared⟩

theorem RelistsAbove.mem_maximallySpecific (h : g.RelistsAbove g' id) (hg : g.WellFormed)
    (hg' : g'.WellFormed) (hknown : g.Known id) :
    m ∈ g'.maximallySpecific id name descriptor ↔ m ∈ g.maximallySpecific id name descriptor := by
  rw [hg.mem_maximallySpecific_iff, hg'.mem_maximallySpecific_iff,
    h.candidate hg.toHierarchical hknown]
  refine and_congr_right fun _ => forall_congr' fun other => ?_
  rw [h.candidate hg.toHierarchical hknown]
  refine imp_congr_right fun hother => not_congr ?_
  have hknown' := hg.known_of_mem_supertypes (hg.mem_supertypes_iff.mpr hother.above)
  exact h.transGen hg.toHierarchical hknown' (hg.transGen_iff.mp hother.above).2

theorem most_specific_methods_are_minimal (h : Reachable allowed g)
    (hlinked : g.status id = .linked info) (name descriptor : String) :
    (g.maximallySpecific id name descriptor).Nodup ∧
      (∀ m, m ∈ g.maximallySpecific id name descriptor ↔ g.Candidate id name descriptor m ∧
        ∀ other, g.Candidate id name descriptor other → ¬TransGen g.Direct other.owner m.owner) ∧
      (∀ a ∈ g.maximallySpecific id name descriptor,
        ∀ b ∈ g.maximallySpecific id name descriptor,
          g.isSubtype a.owner b.owner = true → a = b) ∧
      (∀ m, g.Candidate id name descriptor m → ∃ top ∈ g.maximallySpecific id name descriptor,
        g.isSubtype top.owner m.owner = true) ∧
      (g.maximallySpecific id name descriptor = [] ↔ ∀ m, ¬g.Candidate id name descriptor m) ∧
      ∀ g' allowed', Reachable allowed' g' → g.RelistsAbove g' id → ∀ m,
        m ∈ g'.maximallySpecific id name descriptor ↔
          m ∈ g.maximallySpecific id name descriptor := by
  have hg := h.coherent.toWellFormed
  have hknown := known_of_info (known_of_linked hlinked)
  have hcover (m) (hm : g.Candidate id name descriptor m) :=
    hg.exists_specific_below (hg.mem_candidates_iff.mpr hm)
  refine ⟨hg.nodup_maximallySpecific id name descriptor, fun m => hg.mem_maximallySpecific_iff,
    fun a ha b hb hsub => ?_, hcover, ⟨fun hnil m hm => ?_, fun hnone => ?_⟩,
    fun g' allowed' h' hrelists m => ?_⟩
  · obtain ⟨ha, -⟩ := hg.mem_maximallySpecific_iff.mp ha
    obtain ⟨hb, hmin⟩ := hg.mem_maximallySpecific_iff.mp hb
    by_contra hne
    exact hmin a ha (hg.transGen_iff.mpr ⟨fun howner => hne (ha.ext hg hb howner), hsub⟩)
  · obtain ⟨top, htop, -⟩ := hcover m hm
    rw [hnil] at htop
    cases htop
  · exact List.eq_nil_iff_forall_not_mem.mpr fun m hm =>
      hnone m (hg.mem_maximallySpecific_iff.mp hm).1
  · exact hrelists.mem_maximallySpecific hg h'.coherent.toWellFormed hknown

def triathlete (interfaces : List String) : ClassGraph :=
  program [runner "Mover" [], runner "Runner" ["Mover"], runner "Swimmer" ["Mover"],
    { name := "Triathlete", access := .publicInterface, interfaces }] ⟨4⟩
where
  runner (name : String) (interfaces : List String) : ClassRecord :=
    { name, interfaces, access := .publicInterface,
      methods := [ClassRecord.minimalRoot.method Access.publicBit "run" "()V"] }

theorem triathlete_runs : ∃ g g', Reachable (fun _ => True) g ∧ Reachable (fun _ => True) g' ∧
    g = triathlete ["Runner", "Swimmer"] ∧ g' = triathlete ["Swimmer", "Runner"] ∧
    g.isLinked ⟨4⟩ = true ∧ g.RelistsAbove g' ⟨4⟩ ∧ g.Candidate ⟨4⟩ "run" "()V" ⟨⟨1⟩, 0⟩ ∧
    g.maximallySpecific ⟨4⟩ "run" "()V" = [⟨⟨2⟩, 0⟩, ⟨⟨3⟩, 0⟩] ∧
    ∀ m, m ∈ g'.maximallySpecific ⟨4⟩ "run" "()V" ↔ m ∈ g.maximallySpecific ⟨4⟩ "run" "()V" := by
  let g := triathlete ["Runner", "Swimmer"]
  let g' := triathlete ["Swimmer", "Runner"]
  have hreach : Reachable (fun _ => True) g := reachable_program _ _
  have hreach' : Reachable (fun _ => True) g' := reachable_program _ _
  obtain ⟨hlinked, hsupers, hcandidate, hspecific, hsame⟩ : g.isLinked ⟨4⟩ = true ∧
      g.supertypes ⟨4⟩ = [⟨0⟩, ⟨2⟩, ⟨1⟩, ⟨3⟩] ∧
      ⟨⟨1⟩, 0⟩ ∈ g.interfaceCandidates ⟨4⟩ "run" "()V" ∧
      g.maximallySpecific ⟨4⟩ "run" "()V" = [⟨⟨2⟩, 0⟩, ⟨⟨3⟩, 0⟩] ∧
      ∀ c ∈ [⟨4⟩, ⟨0⟩, ⟨2⟩, ⟨1⟩, ⟨3⟩], ∃ info' ∈ g'.info? c, ∀ info ∈ g.info? c,
        (info'.isInterface = info.isInterface ∧ info'.superClass = info.superClass ∧
          info'.interfaces.Perm info.interfaces ∧ info'.methods = info.methods) := by
    decide +kernel
  obtain ⟨info, hinfo⟩ := linked_of_isLinked hlinked
  have hrelists : g.RelistsAbove g' ⟨4⟩ := by
    intro c info hsub hc
    rw [isSubtype, Bool.or_eq_true, decide_eq_true_eq, List.contains_iff_mem, hsupers, eq_comm,
      ← List.mem_cons] at hsub
    obtain ⟨info', hc', hinfo'⟩ := hsame c hsub
    obtain ⟨hkind, hsuper, hinterfaces, hmethods⟩ := hinfo' info hc
    exact ⟨info', hc', hkind, hsuper, hinterfaces, hmethods⟩
  obtain ⟨-, -, -, -, -, horder⟩ :=
    most_specific_methods_are_minimal hreach hinfo "run" "()V"
  exact ⟨g, g', hreach, hreach', rfl, rfl, hlinked, hrelists,
    hreach.coherent.mem_candidates_iff.mp hcandidate, hspecific, horder g' _ hreach' hrelists⟩

end ClassGraph

end Linkage
