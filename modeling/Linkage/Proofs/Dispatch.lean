import Linkage.Proofs.InterfaceDispatch

namespace Linkage.ClassGraph

open ClassRecord

variable {g g' g'' : ClassGraph} {id owner current : ClassId} {info : ClassInfo} {m : MethodRef}
  {site : CallSite} {target : CallTarget} {name descriptor : String} {slot : Nat}
  {allowed : LinkOptions → Prop} {options : LinkOptions}

theorem WellFormed.key_of_superinterfaceMethod (hg : g.WellFormed)
    (h : g.superinterfaceMethod id name descriptor = some m) :
    g.key? m = some (name, descriptor) := by
  unfold superinterfaceMethod at h
  split at h
  next only honly =>
    obtain rfl := Option.some.inj h
    exact (hg.of_candidate (mem_candidates_of_concreteDefaults honly)).2
  next => exact (hg.of_candidate (List.mem_of_head? h)).2

theorem Hierarchical.key_of_rootMethod (hg : g.Hierarchical)
    (h : g.rootMethod info name descriptor = some m) : g.key? m = some (name, descriptor) := by
  obtain ⟨root, -, h⟩ := Option.bind_eq_some_iff.mp h
  obtain ⟨found, hfound, h⟩ := Option.bind_eq_some_iff.mp h
  split at h
  · obtain rfl := Option.some.inj h
    exact (hg.of_declaredMethod hfound).2
  · cases h

theorem WellFormed.key_of_methodLookup (hg : g.WellFormed)
    (h : g.methodLookup id name descriptor = some m) : g.key? m = some (name, descriptor) := by
  obtain ⟨info, hinfo, h⟩ := Option.bind_eq_some_iff.mp h
  split at h
  · rcases Option.or_eq_some_iff.mp h with hfound | ⟨-, hroot⟩
    · have hdeclared : g.declaredMethod? id name descriptor = some m := by
        rw [declaredMethod?, hinfo, Option.bind_some, hfound]
      exact (hg.of_declaredMethod hdeclared).2
    · exact hg.key_of_rootMethod hroot
  · rcases Option.or_eq_some_iff.mp h with hfound | ⟨-, hinterface⟩
    · obtain ⟨c, -, hdeclared⟩ := List.exists_of_findSome?_eq_some hfound
      exact (hg.of_declaredMethod hdeclared).2
    · exact hg.key_of_superinterfaceMethod hinterface

theorem WellFormed.key_of_resolvedMethod (hg : g.WellFormed)
    (h : g.resolvedMethod? owner site = some m) :
    g.key? m = some (site.name, site.descriptor) := by
  unfold resolvedMethod? at h
  dsimp only at h
  split at h
  · rcases Option.or_eq_some_iff.mp h with hfound | ⟨-, hinterface⟩
    · exact hg.key_of_methodLookup hfound
    · exact hg.key_of_superinterfaceMethod hinterface
  · exact hg.key_of_methodLookup h

theorem of_virtualTarget (h : g.virtualTarget? id m = some target) :
    ∃ info slot chosen, g.info? id = some info ∧ info.vtable[slot]? = some chosen ∧
      (chosen = m ∨ g.overrides chosen m = true) ∧ target = .virtual id slot chosen := by
  obtain ⟨info, hinfo, h⟩ := Option.bind_eq_some_iff.mp h
  obtain ⟨slot, hslot, h⟩ := Option.bind_eq_some_iff.mp h
  obtain ⟨chosen, hchosen, h⟩ := Option.bind_eq_some_iff.mp h
  refine ⟨info, slot, chosen, hinfo, hchosen, ?_, (Option.some.inj h).symm⟩
  obtain ⟨o, ho, hmatch⟩ := of_findIdx? hslot
  obtain rfl := Option.some.inj (hchosen.symm.trans ho)
  simpa only [Bool.or_eq_true, decide_eq_true_eq] using hmatch

def Indirect (g : ClassGraph) (site : CallSite) : CallTarget → Prop
  | .virtual owner slot m => ∃ info, g.info? owner = some info ∧ info.vtable[slot]? = some m ∧
      g.key? m = some (site.name, site.descriptor)
  | .interface i index m => m = ⟨i, index⟩ ∧ g.isInterface i = true ∧ ∃ mi, g.method? m = some mi ∧
      mi.isStatic = false ∧ mi.isPrivate = false ∧
      (mi.name, mi.descriptor) = (site.name, site.descriptor)
  | _ => True

theorem WellFormed.indirect_virtual (hg : g.WellFormed)
    (hkey : g.key? m = some (site.name, site.descriptor))
    (h : g.virtualTarget? id m = some target) : g.Indirect site target := by
  obtain ⟨info, slot, chosen, hinfo, hchosen, rfl | hover, rfl⟩ := of_virtualTarget h
  · exact ⟨info, hinfo, hchosen, hkey⟩
  · exact ⟨info, hinfo, hchosen, (hg.key_of_overrides hover).trans hkey⟩

theorem indirect_interface {mi : MethodInfo} (hm : g.method? m = some mi)
    (hkey : g.key? m = some (site.name, site.descriptor)) (hstatic : mi.isStatic = false)
    (hprivate : mi.isPrivate = false) (hkind : g.isInterface m.owner = true) :
    g.Indirect site (.interface m.owner m.index m) := by
  rw [key?_eq hm, Option.some.injEq] at hkey
  exact ⟨rfl, hkind, mi, hm, hstatic, hprivate, hkey⟩

theorem WellFormed.targetOf_indirect (hg : g.WellFormed) {mi : MethodInfo}
    (hm : g.method? m = some mi) (hkey : g.key? m = some (site.name, site.descriptor))
    (h : g.targetOf current owner site m mi = .ok target) : g.Indirect site target := by
  unfold targetOf at h
  dsimp only at h
  split at h
  · split at h
    · exact Except.ok.inj h ▸ trivial
    · cases h
  · split at h
    · cases h
    · split at h
      · cases h
      · obtain ⟨chosen, -, rfl⟩ := Outcome.map_ok_iff.mp h
        trivial
  · split at h
    · cases h
    · split at h
      · exact Except.ok.inj h ▸ trivial
      · split at h
        next found hfound => exact Except.ok.inj h ▸ hg.indirect_virtual hkey hfound
        next => cases h
  · split at h
    · cases h
    next hinstance =>
      simp only [Bool.or_eq_true, not_or, Bool.not_eq_true] at hinstance
      split at h
      next hkind =>
        exact Except.ok.inj h ▸ indirect_interface hm hkey hinstance.1 hinstance.2 hkind
      next =>
        split at h
        · split at h
          next found hfound => exact Except.ok.inj h ▸ hg.indirect_virtual hkey hfound
          next => cases h
        · cases h

theorem selectCall_ok (h : g.selectCall current owner site = .ok target) :
    ∃ m mi, g.resolvedMethod? owner site = some m ∧ g.method? m = some mi ∧
      g.targetOf current owner site m mi = .ok target := by
  by_cases hkind : g.isInterface owner = site.ownerIsInterface
  · cases hm : g.resolvedMethod? owner site with
    | none => simp [selectCall, hkind, hm, throw, throwThe, MonadExceptOf.throw] at h
    | some m =>
        cases hmi : g.method? m with
        | none => simp [selectCall, hkind, hm, hmi, throw, throwThe, MonadExceptOf.throw] at h
        | some mi =>
            cases haccess : g.canAccessMember current m.owner mi.access with
            | false =>
                simp [selectCall, hkind, hm, hmi, haccess, Outcome.throw_bind] at h
            | true =>
                exact ⟨m, mi, rfl, hmi, by simpa [selectCall, hkind, hm, hmi, haccess] using h⟩
  · simp [selectCall, hkind, Outcome.throw_bind] at h

theorem WellFormed.selectCall_indirect (hg : g.WellFormed)
    (h : g.selectCall current owner site = .ok target) : g.Indirect site target := by
  obtain ⟨m, mi, hresolved, hm, htarget⟩ := selectCall_ok h
  exact hg.targetOf_indirect hm (hg.key_of_resolvedMethod hresolved) htarget

theorem Indirect.retain (hi : g.Indirect site target) (hr : g.Retains g') :
    g'.Indirect site target := by
  have e := hr.extends
  cases target with
  | static _ => trivial
  | special _ => trivial
  | arrayClone => trivial
  | virtual owner slot m =>
      obtain ⟨info, hinfo, hm, hkey⟩ := hi
      exact ⟨info, hr.info hinfo, hm, (e.key (known_of_key hkey)).trans hkey⟩
  | interface i index m =>
      obtain ⟨rfl, hkind, mi, hm, hrest⟩ := hi
      have hknown := known_of_method hm
      exact ⟨rfl, (e.isInterface hknown).trans hkind, mi, (e.method hknown).trans hm, hrest⟩

structure Runs (g : ClassGraph) (info : ClassInfo) (site : CallSite) (mi : MethodInfo) : Prop where
  notStatic : mi.isStatic = false
  notPrivate : mi.isPrivate = false
  name : mi.name = site.name
  descriptor : mi.descriptor = site.descriptor
  notAbstract : info.isAbstract = false → mi.isAbstract = false

theorem Coherent.runs_of_slot (hg : g.Coherent allowed) (hinfo : g.info? id = some info)
    (hclass : info.isInterface = false) (hm : m ∈ info.vtable)
    (hkey : g.key? m = some (site.name, site.descriptor)) :
    ∃ mi, g.method? m = some mi ∧ g.Runs info site mi := by
  obtain ⟨mi, hmi, hinherit⟩ := methodHas_iff.mp ((hg.sound hinfo hclass).inheritable hm)
  rw [key?_eq hmi, Option.some.injEq, Prod.mk.injEq] at hkey
  simp only [MethodInfo.isInheritable, Bool.and_eq_true, Bool.not_eq_true'] at hinherit
  refine ⟨mi, hmi, hinherit.2, hinherit.1, hkey.1, hkey.2, fun hconcrete => ?_⟩
  have habstract := (hg.built hinfo hclass).concrete hconcrete m hm
  simpa [methodHas, hmi] using habstract

theorem Coherent.dispatch_virtual (hg : g.Coherent allowed) (hinfo : g.info? id = some info)
    (hclass : info.isInterface = false) (hmem : owner ∈ g.lineage id)
    (hi : g.Indirect site (.virtual owner slot m)) :
    ∃ x mi, info.vtable[slot]? = some x ∧ g.method? x = some mi ∧ g.Runs info site mi := by
  obtain ⟨above, habove, hm, hkey⟩ := hi
  obtain ⟨x, hx, hsame⟩ := hg.slot_below hinfo hclass habove hmem hm
  obtain ⟨mi, hmi, hruns⟩ :=
    hg.runs_of_slot hinfo hclass (List.mem_of_getElem? hx) (hsame.trans hkey)
  exact ⟨x, mi, hx, hmi, hruns⟩

theorem Coherent.dispatch_interface (hg : g.Coherent allowed) (hinfo : g.info? id = some info)
    (hclass : info.isInterface = false) {i : ClassId} {index : Nat}
    (hsub : g.isSubtype id i = true) (hname : site.name ≠ "<clinit>")
    (hi : g.Indirect site (.interface i index m)) :
    ∃ entry slot x mi, g.nearestEntryFor? id i = some entry ∧
      entry.vtableIndex? index = some slot ∧ info.vtable[slot]? = some x ∧
      g.method? x = some mi ∧ g.Runs info site mi := by
  obtain ⟨rfl, hkind, mi, hm, hstatic, hprivate, hkey⟩ := hi
  rw [Prod.mk.injEq] at hkey
  have hclass' := (isInterface_eq hinfo).trans hclass
  have hcall : g.Callable id ⟨i, index⟩ mi := {
    owner := (hg.mem_superinterfaces_iff_of_class hclass').mpr ⟨hsub, hkind⟩
    method := hm
    notStatic := hstatic
    notPrivate := hprivate
    notInitializer := by
      by_contra hinitializer
      rw [Bool.not_eq_false] at hinitializer
      exact hname (hkey.1.symm.trans (hg.name_of_initializer hm hinitializer)) }
  obtain ⟨entry, slot, x, hentry, hindex, -, hx, himpl⟩ := hg.dispatch hinfo hclass hcall
  have hkeyx := himpl.key hg.toWellFormed
  rw [hkey.1, hkey.2] at hkeyx
  obtain ⟨mx, hmx, hruns⟩ := hg.runs_of_slot hinfo hclass (List.mem_of_getElem? hx) hkeyx
  exact ⟨entry, slot, x, mx, hentry, hindex, hx, hmx, hruns⟩

theorem resolveCall_indirect (hg : g.Coherent allowed) (hallowed : allowed options)
    (hcall : (resolveCall options current site).result g = (.ok target, g')) :
    g'.Coherent allowed ∧ g'.Indirect site target := by
  have h := resolveCall_ensures hg hallowed current site
  have hcoherent := h.coherent
  have hpost := h.post target
  rw [hcall] at hcoherent hpost
  refine ⟨hcoherent, ?_⟩
  rcases hpost rfl with rfl | ⟨owner, -, hselect⟩
  · trivial
  · exact hcoherent.selectCall_indirect hselect

theorem resolved_calls_dispatch_safely (h : Reachable allowed g) (hallowed : allowed options)
    (hcall : (resolveCall options current site).result g = (.ok target, g'))
    (hlater : Reaches allowed g' g'') (hlinked : g''.status id = .linked info)
    (hclass : info.isInterface = false) :
    (∀ owner slot m, target = .virtual owner slot m → owner ∈ g''.lineage id →
      ∃ x mi, info.vtable[slot]? = some x ∧ g''.method? x = some mi ∧ g''.Runs info site mi) ∧
    ∀ i index m, target = .interface i index m → site.name ≠ "<clinit>" →
      g''.isSubtype id i = true →
      ∃ entry slot x mi, g''.nearestEntryFor? id i = some entry ∧
        entry.vtableIndex? index = some slot ∧ info.vtable[slot]? = some x ∧
        g''.method? x = some mi ∧ g''.Runs info site mi := by
  obtain ⟨hg', hindirect⟩ := resolveCall_indirect h.coherent hallowed hcall
  obtain ⟨hg'', hadvances⟩ := hlater.keeps hg'
  have hlate := hindirect.retain hadvances.toRetains
  have hinfo := known_of_linked hlinked
  refine ⟨fun owner slot m htarget hmem => ?_, fun i index m htarget hname hsub => ?_⟩
  · subst htarget
    exact hg''.dispatch_virtual hinfo hclass hmem hlate
  · subst htarget
    exact hg''.dispatch_interface hinfo hclass hsub hname hlate

def lateReceiver : ClassGraph :=
  program [
    { name := "Base", methods := [minimalRoot.method Access.publicBit "run" "()V"] },
    { name := "Derived", superName := some "Base",
      methods := [minimalRoot.method Access.publicBit "run" "()V"] }] ⟨1⟩

def runOnBase : CallSite := ⟨.virtual, "Base", "run", "()V", false⟩

theorem lateReceiver_dispatch :
    ∃ g g' info x mi, (resolveCall {} ⟨1⟩ runOnBase).result lateReceiver =
        (.ok (.virtual ⟨1⟩ 6 ⟨⟨1⟩, 0⟩), g) ∧
      Step (fun _ => True) g g' ∧ g.isLinked ⟨2⟩ = false ∧ g'.status ⟨2⟩ = .linked info ∧
      info.vtable[6]? = some x ∧ g'.method? x = some mi ∧ g'.Runs info runOnBase mi := by
  let g := ((resolveCall {} ⟨1⟩ runOnBase).result lateReceiver).2
  let later : Operation := .link {} ⟨2⟩
  have hreach : Reachable (fun _ => True) lateReceiver := reachable_program _ _
  have hstep : Step (fun _ => True) g (later.run g) := ⟨later, trivial, rfl⟩
  obtain ⟨hok, hbefore, hlinked, hkind, hmem⟩ :
      ((resolveCall {} ⟨1⟩ runOnBase).result lateReceiver).1.toOption =
        some (.virtual ⟨1⟩ 6 ⟨⟨1⟩, 0⟩) ∧
      g.isLinked ⟨2⟩ = false ∧ (later.run g).isLinked ⟨2⟩ = true ∧
      (later.run g).isInterface ⟨2⟩ = false ∧ ⟨1⟩ ∈ (later.run g).lineage ⟨2⟩ := by
    decide +kernel
  have hcall : (resolveCall {} ⟨1⟩ runOnBase).result lateReceiver =
      (.ok (.virtual ⟨1⟩ 6 ⟨⟨1⟩, 0⟩), g) :=
    Prod.ext (Outcome.toOption_eq_some hok) rfl
  obtain ⟨info, hinfo, hclass⟩ := linkedClass_of hlinked hkind
  obtain ⟨x, mi, hx, hmi, hruns⟩ :=
    (resolved_calls_dispatch_safely hreach trivial hcall (.single hstep) hinfo hclass).1 _ _ _ rfl
      hmem
  exact ⟨g, later.run g, info, x, mi, hcall, hstep, hbefore, hinfo, hx, hmi, hruns⟩

def rootedInterface : ClassGraph :=
  program [{ name := "Runner", access := .publicInterface }] ⟨1⟩

def hashOfRoot : CallSite := ⟨.virtual, rootName, "hashCode", "()I", false⟩

theorem rootedInterface_has_no_slot :
    ∃ g info, Reachable (fun _ => True) rootedInterface ∧
      (resolveCall {} ⟨1⟩ hashOfRoot).result rootedInterface =
        (.ok (.virtual ⟨0⟩ 1 ⟨⟨0⟩, 2⟩), g) ∧
      g.status ⟨1⟩ = .linked info ∧ ⟨0⟩ ∈ g.lineage ⟨1⟩ ∧ info.vtable[1]? = none := by
  let g := ((resolveCall {} ⟨1⟩ hashOfRoot).result rootedInterface).2
  obtain ⟨hok, hlinked, hmem, htable⟩ :
      ((resolveCall {} ⟨1⟩ hashOfRoot).result rootedInterface).1.toOption =
        some (.virtual ⟨0⟩ 1 ⟨⟨0⟩, 2⟩) ∧
      g.isLinked ⟨1⟩ = true ∧ ⟨0⟩ ∈ g.lineage ⟨1⟩ ∧
      (g.info? ⟨1⟩).bind (·.vtable[1]?) = none := by
    decide +kernel
  have hcall : (resolveCall {} ⟨1⟩ hashOfRoot).result rootedInterface =
      (.ok (.virtual ⟨0⟩ 1 ⟨⟨0⟩, 2⟩), g) :=
    Prod.ext (Outcome.toOption_eq_some hok) rfl
  obtain ⟨info, hinfo⟩ := linked_of_isLinked hlinked
  rw [known_of_linked hinfo] at htable
  exact ⟨g, info, reachable_program _ _, hcall, hinfo, hmem, htable⟩

end Linkage.ClassGraph
