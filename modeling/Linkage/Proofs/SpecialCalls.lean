import Linkage.Proofs.CallSelection
import Linkage.Proofs.FieldAccess

namespace Linkage.ClassGraph

open ClassRecord Linking Outcome

variable {g g' : ClassGraph} {id start current owner : ClassId} {info : ClassInfo}
  {m r : MethodRef} {ri : MethodInfo} {site : CallSite} {target : CallTarget}
  {name descriptor : String} {allowed : LinkOptions → Prop} {options : LinkOptions}

def Finds (g : ClassGraph) (start : ClassId) (name descriptor : String) (m : MethodRef) : Prop :=
  g.specialDeclared? start name descriptor = some m ∨
    g.specialDeclared? start name descriptor = none ∧
      g.concreteDefaults start name descriptor = [m]

theorem specialTarget_ok (h : g.specialTarget current owner ri = .ok m) :
    g.Finds (g.specialStart current owner ri) ri.name ri.descriptor m ∧
      g.methodHas m (·.isAbstract) = false := by
  unfold specialTarget at h
  dsimp only at h
  split at h
  next found hfound =>
    split at h
    · cases h
    · next habstract =>
      obtain rfl := Except.ok.inj h
      exact ⟨.inl hfound, Bool.not_eq_true _ ▸ habstract⟩
  next hnone =>
    split at h
    next only honly =>
      obtain rfl := Except.ok.inj h
      refine ⟨.inr ⟨hnone, honly⟩, ?_⟩
      have hmem : only ∈ g.concreteDefaults _ ri.name ri.descriptor :=
        honly ▸ List.mem_singleton_self only
      obtain ⟨mi, hmi, habstract⟩ := methodHas_iff.mp (mem_concreteDefaults_iff.mp hmem).2
      simpa [methodHas, hmi] using habstract
    next => cases h
    next => cases h

theorem specialDeclared_of_class (hclass : g.isInterface start = false) :
    g.specialDeclared? start name descriptor =
      (g.lineage start).findSome? fun c => g.declaredInstance? c name descriptor := by
  rw [specialDeclared?, if_neg (by simp [hclass]), findSome?_lineage]

theorem Hierarchical.of_specialDeclared (hg : g.Hierarchical)
    (h : g.specialDeclared? start name descriptor = some m) :
    g.isSubtype start m.owner = true ∧ ∃ c, g.declaredInstance? c name descriptor = some m := by
  rcases Option.or_eq_some_iff.mp h with hself | ⟨-, h⟩
  · exact ⟨hg.of_declaredInstance hself ▸ isSubtype_refl g start, start, hself⟩
  · split at h
    · obtain ⟨root, hroot, h⟩ := Option.bind_eq_some_iff.mp h
      obtain ⟨found, hfound, h⟩ := Option.bind_eq_some_iff.mp h
      split at h
      · obtain rfl := Option.some.inj h
        refine ⟨hg.of_declaredInstance hfound ▸ ?_, root, hfound⟩
        exact hg.isSubtype_iff.mpr (.single (direct_of_superClass hroot))
      · cases h
    · obtain ⟨c, hc, hfound⟩ := List.exists_of_findSome?_eq_some h
      refine ⟨hg.isSubtype_of_mem_lineage (hg.of_declaredInstance hfound ▸ ?_), c, hfound⟩
      exact List.mem_cons_of_mem _ hc

theorem WellFormed.of_only_default (hg : g.WellFormed)
    (h : g.concreteDefaults start name descriptor = [m]) :
    m.owner ∈ g.superinterfaces start ∧ g.methodHas m (!·.isStatic) = true := by
  obtain ⟨howner, -, hinherit⟩ :=
    hg.mem_interfaceCandidates_iff.mp (mem_candidates_of_concreteDefaults h)
  obtain ⟨mi, hmi, hinherit⟩ := methodHas_iff.mp hinherit
  simp only [MethodInfo.isInheritable, Bool.and_eq_true] at hinherit
  exact ⟨howner, methodHas_iff.mpr ⟨mi, hmi, hinherit.2⟩⟩

theorem Finds.above (h : g.Finds start name descriptor m) (hg : g.WellFormed) :
    g.isSubtype start m.owner = true := by
  rcases h with hdeclared | ⟨-, hdefault⟩
  · exact (hg.of_specialDeclared hdeclared).1
  · have hsup := (mem_superinterfaces_iff.mp (hg.of_only_default hdefault).1).1
    rw [hg.isSubtype_iff]
    exact (hg.mem_supertypes_iff.mp hsup).to_reflTransGen

theorem Finds.instance (h : g.Finds start name descriptor m) (hg : g.WellFormed) :
    g.methodHas m (!·.isStatic) = true := by
  rcases h with hdeclared | ⟨-, hdefault⟩
  · obtain ⟨-, c, hfound⟩ := hg.of_specialDeclared hdeclared
    exact (Option.filter_eq_some_iff.mp hfound).2
  · exact (hg.of_only_default hdefault).2

theorem Finds.key (h : g.Finds start name descriptor m) (hg : g.WellFormed) :
    g.key? m = some (name, descriptor) := by
  rcases h with hdeclared | ⟨-, hdefault⟩
  · obtain ⟨-, c, hfound⟩ := hg.of_specialDeclared hdeclared
    exact (hg.of_declaredMethod (Option.filter_eq_some_iff.mp hfound).1).2
  · exact (hg.of_candidate (mem_candidates_of_concreteDefaults hdefault)).2

theorem methodLookup_of_interface (hinfo : g.info? id = some info)
    (hinterface : info.isInterface = true) : g.methodLookup id name descriptor =
      (g.declaredMethod? id name descriptor).or (g.rootMethod info name descriptor) := by
  simp [methodLookup, declaredMethod?, hinfo, hinterface]

theorem rootMethod_eq (hinfo : g.info? id = some info) :
    g.rootMethod info name descriptor = (g.superClass? id).bind fun root =>
      (g.declaredInstance? root name descriptor).bind fun m =>
        if g.methodHas m (·.isPublic) then some m else none := by
  rw [rootMethod, superClass?_eq hinfo]
  refine bind_congr fun root => ?_
  rw [declaredInstance?]
  cases g.declaredMethod? root name descriptor with
  | none => rfl
  | some m =>
      cases hm : g.method? m with
      | none => simp [methodHas, hm, Option.filter_some]
      | some mi => cases hstatic : mi.isStatic <;> simp [methodHas, hm, hstatic, Option.filter_some]

theorem specialDeclared_of_interface (hinfo : g.info? id = some info)
    (hinterface : info.isInterface = true) : g.specialDeclared? id name descriptor =
      (g.declaredInstance? id name descriptor).or (g.rootMethod info name descriptor) := by
  rw [specialDeclared?, if_pos ((isInterface_eq hinfo).trans hinterface), rootMethod_eq hinfo]
  rfl

theorem resolved_cases (hresolved : g.resolvedMethod? owner site = some r)
    (hinstance : g.methodHas r (!·.isStatic) = true) (hinfo : g.info? owner = some info) :
    g.specialDeclared? owner site.name site.descriptor = some r ∨
      g.specialDeclared? owner site.name site.descriptor = none ∧
        g.superinterfaceMethod owner site.name site.descriptor = some r := by
  unfold resolvedMethod? at hresolved
  dsimp only at hresolved
  cases hkind : info.isInterface with
  | true =>
      rw [if_pos ((isInterface_eq hinfo).trans hkind), methodLookup_of_interface hinfo hkind,
        Option.or_assoc] at hresolved
      rw [specialDeclared_of_interface hinfo hkind]
      rcases Option.or_eq_some_iff.mp hresolved with hown | ⟨hnone, hresolved⟩
      · rw [declaredInstance?, hown, Option.filter_some, if_pos hinstance]
        exact .inl rfl
      · rw [declaredInstance?, hnone, Option.filter_none, Option.none_or]
        exact Option.or_eq_some_iff.mp hresolved
  | false =>
      rw [if_neg (by simp [isInterface_eq hinfo, hkind]), methodLookup_of_class hinfo hkind]
        at hresolved
      rw [specialDeclared_of_class ((isInterface_eq hinfo).trans hkind)]
      rcases Option.or_eq_some_iff.mp hresolved with hfound | ⟨hnone, hresolved⟩
      · exact .inl (findSome?_filter hfound hinstance)
      · exact .inr ⟨findSome?_eq_none_of_imp
          (fun c _ x hx => (Option.filter_eq_some_iff.mp hx).1) hnone, hresolved⟩

theorem Finds.eq_resolved (h : g.Finds owner site.name site.descriptor m)
    (hresolved : g.resolvedMethod? owner site = some r)
    (hinstance : g.methodHas r (!·.isStatic) = true) (hinfo : g.info? owner = some info) :
    m = r := by
  rcases resolved_cases hresolved hinstance hinfo with hdeclared | ⟨hnone, hinterface⟩
  · rcases h with hm | ⟨hnone, -⟩
    · exact Option.some.inj (hm.symm.trans hdeclared)
    · rw [hdeclared] at hnone
      cases hnone
  · rcases h with hm | ⟨-, honly⟩
    · rw [hnone] at hm
      cases hm
    · rw [superinterfaceMethod, honly] at hinterface
      exact Option.some.inj hinterface

theorem Hierarchical.nearest_below_or_at (hg : g.Hierarchical) {f : ClassId → Option MethodRef}
    (hf : ∀ {c x}, f c = some x → x.owner = c) (howner : owner ∈ g.lineage start)
    (hfound : (g.lineage start).findSome? f = some m) :
    owner ∈ g.superclasses m.owner ∨ (g.lineage owner).findSome? f = some m := by
  induction start using hg.descend with
  | root start hroot =>
      rw [lineage_of_root hroot, List.mem_singleton] at howner
      exact .inr (howner ▸ hfound)
  | step start sup hsup ih =>
      rw [lineage] at howner
      rcases List.mem_cons.mp howner with rfl | habove
      · exact .inr hfound
      · rw [findSome?_lineage] at hfound
        rcases Option.or_eq_some_iff.mp hfound with hself | ⟨-, hfound⟩
        · exact .inl (hf hself ▸ habove)
        · rw [hg.superclasses_eq hsup] at habove hfound
          exact ih habove hfound

theorem Finds.of_above (h : g.Finds start name descriptor m) (hg : g.WellFormed)
    (hclass : g.isInterface start = false) (howner : owner ∈ g.lineage start) :
    g.Finds owner name descriptor m ∨
      m.owner ∈ g.lineage start ∧ owner ∈ g.superclasses m.owner ∨
      m.owner ∈ g.superinterfaces start := by
  rcases h with hdeclared | ⟨-, hdefault⟩
  · rw [specialDeclared_of_class hclass] at hdeclared
    obtain ⟨c, hc, hfound⟩ := List.exists_of_findSome?_eq_some hdeclared
    rcases hg.nearest_below_or_at hg.of_declaredInstance howner hdeclared with hbelow | hat
    · exact .inr (.inl ⟨hg.of_declaredInstance hfound ▸ hc, hbelow⟩)
    · refine .inl (.inl ?_)
      rw [specialDeclared_of_class (hg.isInterface_of_mem_lineage hclass howner), hat]
  · exact .inr (.inr (hg.of_only_default hdefault).1)

theorem specialStart_eq (h : ri.isConstructor = true ∨ g.isInterface owner = true ∨
    g.isSuperclass owner current = false ∨ g.superClass? current = some owner) :
    g.specialStart current owner ri = owner := by
  unfold specialStart
  cases hsup : g.superClass? current with
  | none => rfl
  | some sup =>
      rcases h with h | h | h | h
      · simp [h]
      · simp [h]
      · simp [h]
      · obtain rfl := Option.some.inj (hsup.symm.trans h)
        exact ite_self sup

theorem specialStart_cases (g : ClassGraph) (current owner : ClassId) (ri : MethodInfo) :
    g.specialStart current owner ri = owner ∨
      g.superClass? current = some (g.specialStart current owner ri) := by
  unfold specialStart
  cases g.superClass? current with
  | none => exact .inl rfl
  | some parent =>
      dsimp only
      split
      · exact .inr rfl
      · exact .inl rfl

theorem Hierarchical.specialStart_above (hg : g.Hierarchical)
    (hsuper : g.isSuperclass owner current = true) (ri : MethodInfo) :
    g.specialStart current owner ri ∈ g.superclasses current := by
  rcases specialStart_cases g current owner ri with hstart | hsup
  · rw [hstart]
    exact List.contains_iff_mem.mp hsuper
  · exact hg.superclasses_eq hsup ▸ mem_lineage_self g _

theorem special_of_targetOf (hkind : site.kind = .special)
    (h : g.targetOf current owner site r ri = .ok (.special m)) :
    ri.isStatic = false ∧ g.specialTarget current owner ri = .ok m := by
  unfold targetOf at h
  rw [hkind] at h
  dsimp only at h
  split at h
  · cases h
  · split at h
    · cases h
    next hstatic =>
      refine ⟨Bool.not_eq_true _ ▸ hstatic, ?_⟩
      cases htarget : g.specialTarget current owner ri with
      | error e =>
          rw [htarget] at h
          cases h
      | ok found =>
          rw [htarget] at h
          cases h
          rfl

structure Selects (g : ClassGraph) (current owner : ClassId) (site : CallSite) (r m : MethodRef) :
    Prop where
  resolved : g.resolvedMethod? owner site = some r
  key : g.key? m = some (site.name, site.descriptor)
  concrete : g.methodHas m (fun mi => !mi.isStatic && !mi.isAbstract) = true
  same : g.methodHas r (·.isConstructor) = true ∨ g.isInterface owner = true ∨
    g.isSuperclass owner current = false ∨ g.superClass? current = some owner → m = r
  between : g.isSuperclass owner current = true → g.superClass? current ≠ some owner → m ≠ r →
    g.isSuperclass m.owner current = true ∧ g.isSuperclass owner m.owner = true ∨
      ∃ parent, g.superClass? current = some parent ∧ m.owner ∈ g.superinterfaces parent
  notBelow : g.isSuperclass owner current = true → g.isSubtype m.owner current = false

theorem Coherent.selects (hg : g.Coherent allowed) (hkind : site.kind = .special)
    (hknown : g.Known owner) (h : g.selectCall current owner site = .ok (.special m)) :
    ∃ r, g.Selects current owner site r m := by
  obtain ⟨r, ri, hresolved, hri, htarget⟩ := selectCall_ok h
  obtain ⟨hstatic, htarget⟩ := special_of_targetOf hkind htarget
  obtain ⟨hfinds, habstract⟩ := specialTarget_ok htarget
  obtain ⟨info, hinfo⟩ := hknown
  have hinstance : g.methodHas r (!·.isStatic) = true :=
    methodHas_iff.mpr ⟨ri, hri, by simp [hstatic]⟩
  have hnames := (key?_eq hri).symm.trans (hg.key_of_resolvedMethod hresolved)
  rw [Option.some.injEq, Prod.mk.injEq] at hnames
  rw [hnames.1, hnames.2] at hfinds
  have hsame : g.specialStart current owner ri = owner → m = r := fun hstart =>
    Finds.eq_resolved (hstart ▸ hfinds) hresolved hinstance hinfo
  refine ⟨r, hresolved, hfinds.key hg.toWellFormed, ?_, fun hcases => ?_, fun hsuper hfar hne => ?_,
    fun hsuper => ?_⟩
  · obtain ⟨mi, hmi, hmstatic⟩ := methodHas_iff.mp (hfinds.instance hg.toWellFormed)
    simp only [methodHas, hmi, Option.any_some] at habstract
    exact methodHas_iff.mpr ⟨mi, hmi, by simp [hmstatic, habstract]⟩
  · refine hsame (specialStart_eq (hcases.imp_left fun hconstructor => ?_))
    simpa [methodHas, hri] using hconstructor
  · rcases specialStart_cases g current owner ri with hstart | hsup
    · exact absurd (hsame hstart) hne
    · have hlineage := hg.superclasses_eq hsup
      have howner : owner ∈ g.lineage (g.specialStart current owner ri) :=
        hlineage ▸ List.contains_iff_mem.mp hsuper
      rcases hfinds.of_above hg.toWellFormed (hg.superKind hsup) howner with
        hfound | ⟨hbelow, habove⟩ | hinterface
      · exact absurd (hfound.eq_resolved hresolved hinstance hinfo) hne
      · exact .inl ⟨List.contains_iff_mem.mpr (hlineage ▸ hbelow), List.contains_iff_mem.mpr habove⟩
      · exact .inr ⟨_, hsup, hinterface⟩
  · have hstart := hg.specialStart_above hsuper ri
    rw [Bool.eq_false_iff]
    intro hdown
    -- The search went up from a superclass, and below `current` it would be back where it started.
    have hback := hg.isSubtype_trans (hfinds.above hg.toWellFormed) hdown
    have heq := hg.isSubtype_antisymm (hg.isSubtype_of_mem_superclasses hstart) hback
    rw [← heq] at hstart
    exact hg.not_mem_superclasses_self current hstart

theorem selected_of_resolveCall (hkind : site.kind ≠ .virtual)
    (hok : (resolveCall options current site).result g = (.ok target, g')) :
    ∃ owner, ResolvesTo options g current site.owner owner g' ∧
      g'.selectCall current owner site = .ok target := by
  obtain ⟨_, mid, hlink, h⟩ := of_bind_ok hok
  split at h
  · rw [arrayTarget, if_pos hkind] at h
    cases congrArg Prod.fst h
  · obtain ⟨owner, last, howner, h⟩ := of_bind_ok h
    obtain ⟨_, _, hget, h⟩ := of_bind_ok h
    obtain ⟨hread, rfl⟩ := Prod.mk.inj hget
    obtain rfl := Except.ok.inj hread
    cases hselect : last.selectCall current owner site with
    | error e =>
        rw [hselect] at h
        cases congrArg Prod.fst h
    | ok found =>
        rw [hselect] at h
        obtain ⟨htarget, rfl⟩ := Prod.mk.inj h
        exact ⟨owner, ⟨mid, hlink, howner⟩, hselect.trans htarget⟩

theorem special_calls_select_above_the_caller (h : Reachable allowed g) (hallowed : allowed options)
    (hkind : site.kind = .special)
    (hok : (resolveCall options current site).result g = (.ok (.special m), g')) :
    ∃ owner r, g'.lookup site.owner = some owner ∧ g'.Selects current owner site r m := by
  obtain ⟨owner, hresolves, hselect⟩ := selected_of_resolveCall (by simp [hkind]) hok
  obtain ⟨hg', hknown⟩ := hresolves.coherent h.coherent hallowed
  obtain ⟨r, hselects⟩ := hg'.selects hkind hknown hselect
  exact ⟨owner, r, hresolves.lookup, hselects⟩

def superRun : ClassGraph :=
  program [
    { name := "Base", methods := [minimalRoot.method Access.publicBit "run" "()V"] },
    { name := "Middle", superName := some "Base",
      methods := [minimalRoot.method Access.publicBit "run" "()V"] },
    { name := "Derived", superName := some "Middle",
      methods := [minimalRoot.method Access.publicBit "run" "()V"] }] ⟨3⟩

def superRunCall : CallSite := ⟨.special, "Base", "run", "()V", false⟩

theorem superRun_selects : ∃ g, (resolveCall {} ⟨3⟩ superRunCall).result superRun =
      (.ok (.special ⟨⟨2⟩, 0⟩), g) ∧
    g.isSuperclass ⟨1⟩ ⟨3⟩ = true ∧ g.superClass? ⟨3⟩ = some ⟨2⟩ ∧
    g.Selects ⟨3⟩ ⟨1⟩ superRunCall ⟨⟨1⟩, 0⟩ ⟨⟨2⟩, 0⟩ := by
  let g := ((resolveCall {} ⟨3⟩ superRunCall).result superRun).2
  obtain ⟨hok, hnamed, hresolved, habove, hsup⟩ :
      ((resolveCall {} ⟨3⟩ superRunCall).result superRun).1.toOption = some (.special ⟨⟨2⟩, 0⟩) ∧
      g.lookup "Base" = some ⟨1⟩ ∧ g.resolvedMethod? ⟨1⟩ superRunCall = some ⟨⟨1⟩, 0⟩ ∧
      g.isSuperclass ⟨1⟩ ⟨3⟩ = true ∧ g.superClass? ⟨3⟩ = some ⟨2⟩ := by
    decide +kernel
  have hcall : (resolveCall {} ⟨3⟩ superRunCall).result superRun = (.ok (.special ⟨⟨2⟩, 0⟩), g) :=
    Prod.ext (toOption_eq_some hok) rfl
  obtain ⟨owner, r, howner, hselects⟩ :=
    special_calls_select_above_the_caller (reachable_program _ _) trivial rfl hcall
  obtain rfl := Option.some.inj (howner.symm.trans hnamed)
  obtain rfl := Option.some.inj (hselects.resolved.symm.trans hresolved)
  exact ⟨g, hcall, habove, hsup, hselects⟩

end Linkage.ClassGraph
