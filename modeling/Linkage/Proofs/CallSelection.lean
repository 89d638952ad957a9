import Linkage.Proofs.Dispatch

namespace Linkage.ClassGraph

variable {g h : ClassGraph} {id current owner start : ClassId} {info : ClassInfo} {m : MethodRef}
  {mi : MethodInfo} {site : CallSite} {name descriptor : String} {allowed : LinkOptions → Prop}

theorem Retains.rootMethod (hr : g.Retains h) (hg : g.Hierarchical) (hinfo : g.info? id = some info) :
    h.rootMethod info name descriptor = g.rootMethod info name descriptor := by
  unfold ClassGraph.rootMethod
  cases hsup : info.superClass with
  | none => rfl
  | some root =>
      have hknown : g.Known root := hg.known (direct_of_superClass ((superClass?_eq hinfo).trans hsup))
      simp only [Option.bind_eq_bind, Option.bind_some, hr.extends.declaredMethod hknown]
      cases hm : g.declaredMethod? root name descriptor with
      | none => rfl
      | some m =>
          have howner := (hg.of_declaredMethod hm).1
          simp only [Option.bind_some, hr.extends.methodHas (howner ▸ hknown)]

theorem Retains.superinterfaceMethod (hr : g.Retains h) (hg : g.Hierarchical) (hid : g.Known id) :
    h.superinterfaceMethod id name descriptor = g.superinterfaceMethod id name descriptor := by
  rw [ClassGraph.superinterfaceMethod, ClassGraph.superinterfaceMethod,
    hr.extends.concreteDefaults hg hid, hr.extends.interfaceCandidates hg hid]

theorem Retains.methodLookup (hr : g.Retains h) (hg : g.Hierarchical) (hid : g.Known id) :
    h.methodLookup id name descriptor = g.methodLookup id name descriptor := by
  obtain ⟨info, hinfo⟩ := hid
  have hid := known_of_info hinfo
  have hdeclared : ((g.lineage id).findSome? fun c => h.declaredMethod? c name descriptor) =
      (g.lineage id).findSome? fun c => g.declaredMethod? c name descriptor :=
    findSome?_congr fun c hc => hr.extends.declaredMethod (hg.known_of_mem_lineage hid hc)
  simp only [ClassGraph.methodLookup, hr.info_eq hid, hinfo, Option.bind_eq_bind, Option.bind_some,
    hr.rootMethod hg hinfo, hr.extends.lineage hg hid, hdeclared, hr.superinterfaceMethod hg hid]

theorem Retains.resolvedMethod (hr : g.Retains h) (hg : g.Hierarchical) (howner : g.Known owner) :
    h.resolvedMethod? owner site = g.resolvedMethod? owner site := by
  simp only [resolvedMethod?, hr.methodLookup hg howner, hr.extends.isInterface howner,
    hr.superinterfaceMethod hg howner]

theorem Retains.canAccessMember (hr : g.Retains h) (hg : g.Hierarchical) (hcurrent : g.Known current)
    (howner : g.Known owner) (access : Access) :
    h.canAccessMember current owner access = g.canAccessMember current owner access := by
  simp only [ClassGraph.canAccessMember, hr.extends.isSubtype hg hcurrent,
    hr.extends.samePackage hcurrent howner]

theorem Retains.violation (hr : g.Retains h) (hcurrent : g.Known current) (fault : LinkFault) :
    h.violation current fault = g.violation current fault := by
  rw [ClassGraph.violation, ClassGraph.violation, hr.extends.className hcurrent]

theorem Retains.virtualTarget (hr : g.Retains h) (hg : g.Coherent allowed) (hid : g.Known id)
    (hm : g.Known m.owner) : h.virtualTarget? id m = g.virtualTarget? id m := by
  obtain ⟨info, hinfo⟩ := hid
  have hslot : (info.vtable.findIdx? fun x => x = m || h.overrides x m) =
      info.vtable.findIdx? fun x => x = m || g.overrides x m :=
    findIdx?_congr fun x hx => by
      rw [hr.extends.overrides hg.toHierarchical (hg.vtable_known hinfo x hx) hm]
  simp only [virtualTarget?, hr.info hinfo, hinfo, Option.bind_eq_bind, Option.bind_some, hslot]

theorem Retains.declaredInstance (hr : g.Retains h) (hg : g.Hierarchical) (hid : g.Known id) :
    h.declaredInstance? id name descriptor = g.declaredInstance? id name descriptor := by
  rw [declaredInstance?, declaredInstance?, hr.extends.declaredMethod hid]
  cases hm : g.declaredMethod? id name descriptor with
  | none => rfl
  | some m =>
      have howner := (hg.of_declaredMethod hm).1
      simp only [Option.filter_some, hr.extends.methodHas (howner ▸ hid)]

theorem Retains.specialStart (hr : g.Retains h) (hg : g.Hierarchical) (hcurrent : g.Known current)
    (howner : g.Known owner) : h.specialStart current owner mi = g.specialStart current owner mi := by
  rw [ClassGraph.specialStart, ClassGraph.specialStart, hr.extends.superClass hcurrent]
  simp only [hr.extends.isInterface howner, isSuperclass, hr.extends.superclasses hg hcurrent]
  rfl

theorem Hierarchical.specialStart_known (hg : g.Hierarchical) (howner : g.Known owner) :
    g.Known (g.specialStart current owner mi) := by
  unfold ClassGraph.specialStart
  split
  next superClass hsup =>
    split
    · exact hg.known (direct_of_superClass hsup)
    · exact howner
  next => exact howner

theorem Hierarchical.of_declaredInstance (hg : g.Hierarchical)
    (hm : g.declaredInstance? id name descriptor = some m) : m.owner = id :=
  (hg.of_declaredMethod (Option.filter_eq_some_iff.mp hm).1).1

theorem Retains.rootInstance (hr : g.Retains h) (hg : g.Hierarchical) (hstart : g.Known start) :
    ((h.superClass? start).bind fun root => (h.declaredInstance? root name descriptor).bind fun m =>
      if h.methodHas m (·.isPublic) then some m else none) =
    (g.superClass? start).bind fun root => (g.declaredInstance? root name descriptor).bind fun m =>
      if g.methodHas m (·.isPublic) then some m else none := by
  rw [hr.extends.superClass hstart]
  cases hsup : g.superClass? start with
  | none => rfl
  | some root =>
      have hroot : g.Known root := hg.known (direct_of_superClass hsup)
      simp only [Option.bind_some, hr.declaredInstance hg hroot]
      cases hm : g.declaredInstance? root name descriptor with
      | none => rfl
      | some m =>
          simp only [Option.bind_some, hr.extends.methodHas (hg.of_declaredInstance hm ▸ hroot)]

theorem Retains.specialDeclared (hr : g.Retains h) (hg : g.Hierarchical) (hstart : g.Known start) :
    h.specialDeclared? start name descriptor = g.specialDeclared? start name descriptor := by
  have hup : ((g.superclasses start).findSome? fun c => h.declaredInstance? c name descriptor) =
      (g.superclasses start).findSome? fun c => g.declaredInstance? c name descriptor :=
    findSome?_congr fun c hc => hr.declaredInstance hg (hg.known_of_mem_superclasses hstart hc)
  simp only [specialDeclared?, Option.bind_eq_bind, hr.declaredInstance hg hstart,
    hr.extends.isInterface hstart, hr.rootInstance hg hstart, hr.extends.superclasses hg hstart, hup]

theorem Hierarchical.specialDeclared_known (hg : g.Hierarchical) (hstart : g.Known start)
    (hm : g.specialDeclared? start name descriptor = some m) : g.Known m.owner := by
  rcases Option.or_eq_some_iff.mp hm with hfound | ⟨-, hm⟩
  · exact hg.of_declaredInstance hfound ▸ hstart
  · split at hm
    · obtain ⟨root, hroot, hm⟩ := Option.bind_eq_some_iff.mp hm
      obtain ⟨found, hfound, hm⟩ := Option.bind_eq_some_iff.mp hm
      split at hm
      · obtain rfl := Option.some.inj hm
        exact hg.of_declaredInstance hfound ▸ hg.known (direct_of_superClass hroot)
      · cases hm
    · obtain ⟨c, hc, hfound⟩ := List.exists_of_findSome?_eq_some hm
      exact hg.of_declaredInstance hfound ▸ hg.known_of_mem_superclasses hstart hc

theorem Retains.specialTarget (hr : g.Retains h) (hg : g.Hierarchical) (hcurrent : g.Known current)
    (howner : g.Known owner) :
    h.specialTarget current owner mi = g.specialTarget current owner mi := by
  have hstart : g.Known (g.specialStart current owner mi) := hg.specialStart_known howner
  simp only [ClassGraph.specialTarget, hr.specialStart hg hcurrent howner,
    hr.specialDeclared hg hstart, hr.extends.concreteDefaults hg hstart,
    hr.extends.className hstart, hr.violation hcurrent]
  cases hm : g.specialDeclared? (g.specialStart current owner mi) mi.name mi.descriptor with
  | some m =>
      have hknown := hg.specialDeclared_known hstart hm
      simp only [hr.extends.methodHas hknown, hr.extends.methodSignature hknown]
  | none =>
      have hsignature : ∀ m ∈ g.concreteDefaults (g.specialStart current owner mi) mi.name mi.descriptor,
          h.methodSignature m = g.methodSignature m := fun m hm =>
        hr.extends.methodSignature (mem_concreteDefaults_known hm)
      cases hdefaults : g.concreteDefaults (g.specialStart current owner mi) mi.name mi.descriptor with
      | nil => rfl
      | cons a rest =>
          cases rest with
          | nil => rfl
          | cons b rest =>
              rw [hdefaults] at hsignature
              simp only [List.map_congr_left hsignature]

theorem Retains.targetOf (hr : g.Retains h) (hg : g.Coherent allowed) (hcurrent : g.Known current)
    (howner : g.Known owner) (hm : g.Known m.owner) :
    h.targetOf current owner site m mi = g.targetOf current owner site m mi := by
  unfold ClassGraph.targetOf
  simp only [hr.violation hcurrent, hr.extends.methodSignature hm,
    hr.specialTarget hg.toHierarchical hcurrent howner, hr.virtualTarget hg howner hm,
    hr.virtualTarget hg hm hm, hr.extends.isInterface hm, hr.extends.superClass hm]

theorem Retains.selectCall (hr : g.Retains h) (hg : g.Coherent allowed) (hcurrent : g.Known current)
    (howner : g.Known owner) : h.selectCall current owner site = g.selectCall current owner site := by
  simp only [ClassGraph.selectCall, hr.extends.isInterface howner, hr.violation hcurrent,
    hr.resolvedMethod hg.toHierarchical howner]
  cases hresolved : g.resolvedMethod? owner site with
  | none => rfl
  | some m =>
      have hm : g.Known m.owner := known_of_key (hg.key_of_resolvedMethod hresolved)
      simp only [hr.extends.method hm]
      cases hmethod : g.method? m with
      | none => rfl
      | some mi =>
          simp only [hr.canAccessMember hg.toHierarchical hcurrent hm,
            hr.extends.methodSignature hm, hr.targetOf hg hcurrent howner hm]

end Linkage.ClassGraph
