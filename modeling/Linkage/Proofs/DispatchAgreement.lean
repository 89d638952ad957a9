import Linkage.Proofs.SeparateSlots
import Linkage.Proofs.VirtualCalls

namespace Linkage.ClassGraph

open ClassRecord Linking

variable {g g' : ClassGraph} {id sup i c current owner : ClassId} {info : ClassInfo}
  {m o x y : MethodRef} {xi mi : MethodInfo} {site : CallSite} {name descriptor root : String}
  {slot : Nat} {allowed : LinkOptions → Prop} {options : LinkOptions}

theorem Hierarchical.mem_lineage_of_nearest {α : Type} (hg : g.Hierarchical) {f : ClassId → Option α}
    {a b : α} (hfound : (g.lineage id).findSome? f = some a) (hc : c ∈ g.lineage id)
    (hb : f c = some b) : ∃ d ∈ g.lineage id, f d = some a ∧ c ∈ g.lineage d := by
  induction id using hg.descend with
  | root id hroot =>
      rw [lineage_of_root hroot, List.findSome?_singleton] at hfound
      exact ⟨id, mem_lineage_self g id, hfound, hc⟩
  | step id sup hsup ih =>
      rw [findSome?_lineage, hg.superclasses_eq hsup, Option.or_eq_some_iff] at hfound
      rcases hfound with hself | ⟨hnone, habove⟩
      · exact ⟨id, mem_lineage_self g id, hself, hc⟩
      · rw [hg.lineage_eq hsup] at hc ⊢
        rcases List.mem_cons.mp hc with rfl | hc
        · rw [hnone] at hb
          cases hb
        · obtain ⟨d, hd, hfd, hcd⟩ := ih habove hc
          exact ⟨d, List.mem_cons_of_mem _ hd, hfd, hcd⟩

theorem Coherent.declared_above_resolved (hg : g.Coherent allowed) (hinfo : g.info? id = some info)
    (hclass : info.isInterface = false) (hx : g.methodLookup id name descriptor = some x)
    (hy : y.owner ∈ g.lineage id) (hkey : g.key? y = some (name, descriptor)) :
    x.owner ∈ g.lineage id ∧ y.owner ∈ g.lineage x.owner := by
  have hdeclared : g.declaredMethod? y.owner name descriptor = some y :=
    hg.declaredMethod_iff.mpr ⟨rfl, hkey⟩
  rw [methodLookup_of_class hinfo hclass, Option.or_eq_some_iff] at hx
  rcases hx with hfound | ⟨hnone, -⟩
  · obtain ⟨d, hd, hdx, hyd⟩ := hg.mem_lineage_of_nearest hfound hy hdeclared
    obtain ⟨rfl, -⟩ := hg.declaredMethod_iff.mp hdx
    exact ⟨hd, hyd⟩
  · rw [List.findSome?_eq_none_iff.mp hnone _ hy] at hdeclared
    cases hdeclared

theorem nearest_of_declared (hc : c ∈ g.lineage id)
    (hy : g.virtualMethod? c name descriptor = some y) :
    ∃ x, g.nearestVirtual? id name descriptor = some x := by
  refine Option.ne_none_iff_exists'.mp fun hnone => ?_
  rw [List.findSome?_eq_none_iff.mp hnone _ hc] at hy
  cases hy

theorem Coherent.nearest_of_class_slot (hg : g.Coherent allowed) (hinfo : g.info? id = some info)
    (hclass : info.isInterface = false) (hx : g.methodLookup id name descriptor = some x)
    (hm : m ∈ info.vtable) (hkey : g.key? m = some (name, descriptor))
    (hover : m = x ∨ g.overrides m x = true) (hkind : g.isInterface m.owner = false) :
    g.nearestVirtual? id name descriptor = some m := by
  obtain ⟨howner, hvirtual⟩ := (hg.sound hinfo hclass).ofClass hm hkind
  obtain ⟨hx', hmx⟩ := hg.declared_above_resolved hinfo hclass hx howner hkey
  have hsame : m = x := by
    rcases hover with rfl | hover
    · rfl
    · have hup := hg.isSubtype_of_mem_lineage hmx
      have hdown := hg.isSubtype_of_overrides hover
      exact hg.eq_of_overrides_of_owner hover (hg.isSubtype_antisymm hdown hup)
  subst hsame
  rcases methodLookup_cases hinfo hclass hx hvirtual with hnear | ⟨-, hcandidate⟩
  · exact hnear
  · rw [(hg.of_candidate hcandidate).1] at hkind
    cases hkind

theorem Coherent.root_above_interface (hg : g.Coherent allowed)
    (hroot : ∀ o, allowed o → o.rootClass = root) (hi : g.isInterface i = true)
    (hsup : g.superClass? i = some sup) : g.superClass? sup = none := by
  obtain ⟨info, hinfo, hsuper⟩ := Option.bind_eq_some_iff.mp hsup
  obtain ⟨above, habove⟩ := hg.known (direct_of_superClass hsup)
  obtain ⟨options, s, hoptions, -, hfinished⟩ := hg.finished hinfo
  obtain ⟨options', s', hoptions', hslot', hfinished'⟩ := hg.finished habove
  have hinterface : s.record.access.isInterface = true := by
    rw [← (draft_declares hfinished.drafted).2.1]
    exact (isInterface_eq hinfo).symm.trans hi
  have hname := (checkSuperClass_ok ((draft_supers hfinished.drafted).1 sup hsuper)).1 hinterface
  rw [ClassGraph.name, hslot', hroot _ hoptions, ← hroot _ hoptions'] at hname
  have hsuperName := hfinished'.resolved.superName
  rw [hfinished'.resolved.root.mpr hname, Option.map_eq_none_iff] at hsuperName
  exact (superClass?_eq habove).trans hsuperName

theorem Hierarchical.superClass_of_direct (hg : g.Hierarchical) (h : g.Direct id sup)
    (hkind : g.isInterface sup = false) : g.superClass? id = some sup := by
  obtain ⟨info, hinfo⟩ := direct_known h
  rw [Direct, directSupertypes_eq hinfo] at h
  rw [superClass?_eq hinfo]
  rcases List.mem_append.mp h with h | h
  · exact Option.mem_toList.mp h
  · rw [hg.interfaceKind hinfo h] at hkind
    cases hkind

theorem Coherent.root_of_superclass (hg : g.Coherent allowed)
    (hroot : ∀ o, allowed o → o.rootClass = root) (hi : g.isInterface i = true)
    (hc : g.isInterface c = false) (hsub : g.isSubtype i c = true) : g.superClass? c = none := by
  rw [hg.isSubtype_iff] at hsub
  induction hsub with
  | refl =>
      rw [hi] at hc
      cases hc
  | @tail b c hpath hdirect ih =>
      have hsup := hg.superClass_of_direct hdirect hc
      cases hb : g.isInterface b with
      | true => exact hg.root_above_interface hroot hb hsup
      | false =>
          rw [ih hb] at hsup
          cases hsup

theorem Coherent.inherits_interface_slot (hg : g.Coherent allowed) (hinfo : g.info? id = some info)
    (hclass : info.isInterface = false) (hy : g.nearestVirtual? id name descriptor = some y)
    (hm : m ∈ info.vtable) (hkey : g.key? m = some (name, descriptor))
    (hkind : g.isInterface m.owner = true) :
    ∃ o ∈ g.inheritedVtable info, g.key? o = some (name, descriptor) ∧
      g.isInterface o.owner = true := by
  have hb := hg.built hinfo hclass
  have hkeyy : g.key? y = some (name, descriptor) := Implements.key hg.toWellFormed (.inl hy)
  obtain ⟨j, hj⟩ := List.mem_iff_getElem?.mp ((hg.sound hinfo hclass).nearest hy)
  have hplaced := hb.class_slot hg.toWellFormed hj (hg.isInterface_of_nearestVirtual hinfo hclass hy)
  obtain ⟨n, hn⟩ := List.mem_iff_getElem?.mp hm
  rcases hb.interface_slot hg.toWellFormed hinfo hclass hn hkind with
    ⟨o, ho, -, hkeyo, hkindo⟩ | ⟨-, hfresh⟩
  · exact ⟨o, List.mem_of_getElem? ho, hkeyo.symm.trans hkey, hkindo⟩
  · exact absurd (hkeyy.trans hkey.symm) (hfresh y (List.mem_of_getElem? hplaced))

theorem Coherent.class_slot_of_root (hg : g.Coherent allowed) (hinfo : g.info? id = some info)
    (hclass : info.isInterface = false) (hc : c ∈ g.lineage id) (hroot : g.superClass? c = none)
    (hy : g.virtualMethod? c name descriptor = some y) (hm : m ∈ info.vtable)
    (hkey : g.key? m = some (name, descriptor)) : g.isInterface m.owner = false := by
  by_contra hkind
  rw [Bool.not_eq_false] at hkind
  -- The key has a slot in every class of the lineage, so an interface fills one only by inheritance.
  induction id using hg.descend generalizing info m with
  | root id hnone =>
      obtain ⟨x, hx⟩ := nearest_of_declared hc hy
      obtain ⟨o, ho, -⟩ := hg.inherits_interface_slot hinfo hclass hx hm hkey hkind
      rw [inheritedVtable_of_root ((superClass?_eq hinfo).symm.trans hnone)] at ho
      cases ho
  | step id sup hsup ih =>
      obtain ⟨x, hx⟩ := nearest_of_declared hc hy
      obtain ⟨o, ho, hkeyo, hkindo⟩ := hg.inherits_interface_slot hinfo hclass hx hm hkey hkind
      obtain ⟨parent, hparent, hkindp, hinherited⟩ := hg.parent hinfo hsup
      rw [hinherited] at ho
      rw [hg.lineage_eq hsup] at hc
      rcases List.mem_cons.mp hc with rfl | hc
      · rw [hroot] at hsup
        cases hsup
      · exact ih hparent hkindp hc ho hkeyo hkindo

theorem Coherent.class_slot_of_one_root (hg : g.Coherent allowed)
    (hroot : ∀ o, allowed o → o.rootClass = root) (hinfo : g.info? id = some info)
    (hclass : info.isInterface = false) (hx : g.methodLookup id name descriptor = some x)
    (hm : m ∈ info.vtable) (hkey : g.key? m = some (name, descriptor))
    (hover : m = x ∨ g.overrides m x = true)
    (hy : g.nearestVirtual? id name descriptor = some y) : g.isInterface m.owner = false := by
  obtain ⟨c, hc, hdeclared⟩ := List.exists_of_findSome?_eq_some hy
  obtain ⟨rfl, hkeyy, -⟩ := hg.virtualMethod_iff.mp hdeclared
  obtain ⟨hx', hyx⟩ := hg.declared_above_resolved hinfo hclass hx hc hkeyy
  have hkindx : g.isInterface x.owner = false :=
    hg.isInterface_of_mem_lineage ((isInterface_eq hinfo).trans hclass) hx'
  rcases hover with rfl | hover
  · exact hkindx
  · -- An interface that overrides a method of a class is below that class, which is the root then.
    by_contra hkind
    rw [Bool.not_eq_false] at hkind
    have htop := hg.root_of_superclass hroot hkind hkindx (hg.isSubtype_of_overrides hover)
    rw [lineage_of_root htop, List.mem_singleton] at hyx
    rw [hg.class_slot_of_root hinfo hclass hc (hyx ▸ htop) hdeclared hm hkey] at hkind
    cases hkind

theorem Coherent.slot_implements (hg : g.Coherent allowed) (hinfo : g.info? id = some info)
    (hclass : info.isInterface = false) (hx : g.methodLookup id name descriptor = some x)
    (hm : m ∈ info.vtable) (hover : m = x ∨ g.overrides m x = true)
    (hcase : (∃ root, ∀ o, allowed o → o.rootClass = root) ∨ g.isInterface m.owner = false ∨
      g.nearestVirtual? id name descriptor = none) :
    g.Implements id name descriptor m := by
  have hkey : g.key? m = some (name, descriptor) := by
    rcases hover with rfl | hover
    · exact hg.key_of_methodLookup hx
    · exact (hg.key_of_overrides hover).trans (hg.key_of_methodLookup hx)
  cases hnear : g.nearestVirtual? id name descriptor with
  | none =>
      have hkind := (hg.sound hinfo hclass).isInterface_of_unclaimed hg.toWellFormed hnear hm hkey
      exact .inr ⟨hnear, hkind, hkey⟩
  | some y =>
      refine .inl (hg.nearest_of_class_slot hinfo hclass hx hm hkey hover ?_)
      rcases hcase with ⟨root, hroot⟩ | hkind | hnone
      · exact hg.class_slot_of_one_root hroot hinfo hclass hx hm hkey hover hnear
      · exact hkind
      · rw [hnear] at hnone
        cases hnone

theorem targetOf_virtual (hkind : site.kind = .virtual)
    (h : g.targetOf current owner site x xi = .ok (.virtual id slot m)) :
    g.virtualTarget? owner x = some (.virtual id slot m) := by
  simp only [targetOf, hkind] at h
  split at h
  · cases h
  · split at h
    · cases h
    · split at h
      next target htarget => exact Except.ok.inj h ▸ htarget
      next => cases h

theorem Coherent.selectCall_slot (hg : g.Coherent allowed) (hkind : site.kind = .virtual)
    (h : g.selectCall current owner site = .ok (.virtual id slot m)) :
    ∃ info x, g.info? id = some info ∧ info.isInterface = false ∧
      g.methodLookup id site.name site.descriptor = some x ∧ info.vtable[slot]? = some m ∧
      (m = x ∨ g.overrides m x = true) := by
  obtain ⟨x, xi, hresolved, -, htarget⟩ := selectCall_ok h
  obtain ⟨info, slot', chosen, hinfo, hslot, hover, heq⟩ :=
    of_virtualTarget (targetOf_virtual hkind htarget)
  obtain ⟨rfl, rfl, rfl⟩ := CallTarget.virtual.inj heq
  have hclass := hg.class_of_slot hinfo (List.mem_of_getElem? hslot)
  have hlookup : g.methodLookup id site.name site.descriptor = some x := by
    simpa [resolvedMethod?, (isInterface_eq hinfo).trans hclass] using hresolved
  exact ⟨info, x, hinfo, hclass, hlookup, hslot, hover⟩

theorem dispatch_tables_agree (h : Reachable allowed g) (hallowed : allowed options)
    (hkind : site.kind = .virtual)
    (hcall : (resolveCall options current site).result g = (.ok (.virtual id slot m), g'))
    (hmethod : g'.Callable id o mi) (hnamed : mi.isNamed site.name site.descriptor = true) :
    ∃ entry k, g'.nearestEntryFor? id o.owner = some entry ∧ entry.vtableIndex? o.index = some k ∧
      ((∃ root, ∀ options, allowed options → options.rootClass = root) ∨
          g'.isInterface m.owner = false ∨
          g'.nearestVirtual? id site.name site.descriptor = none →
        k = slot) := by
  have hensures := resolveCall_ensures h.coherent hallowed current site
  have hg := hensures.coherent
  have hpost := hensures.post (.virtual id slot m)
  rw [hcall] at hg hpost
  rcases hpost rfl with harray | ⟨owner, -, hselect⟩
  · cases harray
  · obtain ⟨info, x, hinfo, hclass, hx, hm, hover⟩ := hg.selectCall_slot hkind hselect
    obtain ⟨entry, k, y, hentry, hindex, -, hy, himpl⟩ := hg.dispatch hinfo hclass hmethod
    obtain ⟨hname, hdescriptor⟩ := Prod.mk.inj (MethodInfo.isNamed_iff.mp hnamed)
    rw [hname, hdescriptor] at himpl
    refine ⟨entry, k, hentry, hindex, fun hcase => ?_⟩
    have himpl' := hg.slot_implements hinfo hclass hx (List.mem_of_getElem? hm) hover hcase
    exact (hg.sound hinfo hclass).implements_unique hy hm himpl himpl'

def runOnDerived : CallSite := ⟨.virtual, "Derived", "run", "()V", false⟩

theorem inheritedEntry_agrees : ∃ g mi entry,
    (resolveCall {} ⟨3⟩ runOnDerived).result inheritedEntry =
      (.ok (.virtual ⟨3⟩ 6 ⟨⟨2⟩, 0⟩), g) ∧
    g.Callable ⟨3⟩ ⟨⟨1⟩, 0⟩ mi ∧ mi.isNamed "run" "()V" = true ∧
    g.nearestEntryFor? ⟨3⟩ ⟨1⟩ = some entry ∧ entry.vtableIndex? 0 = some 6 := by
  have hreach : Reachable (·.rootClass = rootName) inheritedEntry :=
    reachable_program_of (by rfl) _ _
  let g := ((resolveCall {} ⟨3⟩ runOnDerived).result inheritedEntry).2
  obtain ⟨hok, hmem, hmethod⟩ :
      ((resolveCall {} ⟨3⟩ runOnDerived).result inheritedEntry).1.toOption =
        some (.virtual ⟨3⟩ 6 ⟨⟨2⟩, 0⟩) ∧
      ⟨1⟩ ∈ g.superinterfaces ⟨3⟩ ∧ g.method? ⟨⟨1⟩, 0⟩ = some abstractRunInfo := by
    decide +kernel
  have hcall : (resolveCall {} ⟨3⟩ runOnDerived).result inheritedEntry =
      (.ok (.virtual ⟨3⟩ 6 ⟨⟨2⟩, 0⟩), g) :=
    Prod.ext (Outcome.toOption_eq_some hok) rfl
  have hcallable : g.Callable ⟨3⟩ ⟨⟨1⟩, 0⟩ abstractRunInfo :=
    ⟨hmem, hmethod, by decide, by decide, by decide⟩
  have hnamed : abstractRunInfo.isNamed "run" "()V" = true := by decide
  obtain ⟨entry, k, hentry, hindex, hagree⟩ :=
    dispatch_tables_agree hreach rfl rfl hcall hcallable hnamed
  obtain rfl := hagree (.inl ⟨rootName, fun _ h => h⟩)
  exact ⟨g, abstractRunInfo, entry, hcall, hcallable, hnamed, hentry, hindex⟩

-- `p/Sprinter` is linked under another root class, so it extends `q/Base` and its method overrides
-- the one of that class. In `p/Athlete` it fills the slot of `p/Runner`, whose method no other
-- package sees.
def secondRoot : ClassGraph :=
  minimal.after [
    .add { name := "p/Runner", access := .publicInterface,
           methods := [minimalRoot.method 0 "run" "()V"] } .application,
    .add { name := "p/Holder", interfaces := ["p/Runner"] } .application,
    .add { name := "q/Base", superName := some "p/Holder",
           methods := [minimalRoot.method Access.publicBit "run" "()V"] } .application,
    .add { name := "p/Sprinter", access := .publicInterface, superName := some "q/Base",
           interfaces := ["p/Runner"],
           methods := [minimalRoot.method Access.publicBit "run" "()V"] } .application,
    .add { name := "p/Athlete", superName := some "q/Base",
           interfaces := ["p/Sprinter"] } .application,
    .link {} ⟨3⟩, .link { rootClass := "q/Base" } ⟨4⟩, .link { verifyVtables := false } ⟨5⟩]

def runOnSecondRoot : CallSite := ⟨.virtual, "p/Athlete", "run", "()V", false⟩

theorem secondRoot_disagrees : ∃ g mi entry, Reachable (fun _ => True) secondRoot ∧
    secondRoot.isLinked ⟨5⟩ = true ∧ secondRoot.isInterface ⟨5⟩ = false ∧
    (resolveCall {} ⟨5⟩ runOnSecondRoot).result secondRoot =
      (.ok (.virtual ⟨5⟩ 6 ⟨⟨4⟩, 0⟩), g) ∧
    g.Callable ⟨5⟩ ⟨⟨4⟩, 0⟩ mi ∧ mi.isNamed "run" "()V" = true ∧
    g.nearestEntryFor? ⟨5⟩ ⟨4⟩ = some entry ∧ entry.vtableIndex? 0 = some 7 := by
  have hreach : Reachable (fun _ => True) secondRoot :=
    .inr (reaches_after fun op _ => by cases op <;> trivial)
  let g := ((resolveCall {} ⟨5⟩ runOnSecondRoot).result secondRoot).2
  let mi : MethodInfo := ⟨minimalRoot.method Access.publicBit "run" "()V", ⟨[], .void⟩, false⟩
  obtain ⟨hlinked, hkind, hok, hmem, hmethod, hentry⟩ :
      secondRoot.isLinked ⟨5⟩ = true ∧ secondRoot.isInterface ⟨5⟩ = false ∧
      ((resolveCall {} ⟨5⟩ runOnSecondRoot).result secondRoot).1.toOption =
        some (.virtual ⟨5⟩ 6 ⟨⟨4⟩, 0⟩) ∧
      ⟨4⟩ ∈ g.superinterfaces ⟨5⟩ ∧ g.method? ⟨⟨4⟩, 0⟩ = some mi ∧
      (g.nearestEntryFor? ⟨5⟩ ⟨4⟩).bind (·.vtableIndex? 0) = some 7 := by
    decide +kernel
  obtain ⟨entry, hnearest, hindex⟩ := Option.bind_eq_some_iff.mp hentry
  refine ⟨g, mi, entry, hreach, hlinked, hkind, Prod.ext (Outcome.toOption_eq_some hok) rfl,
    ⟨hmem, hmethod, by decide, by decide, by decide⟩, by decide, hnearest, hindex⟩

end Linkage.ClassGraph
