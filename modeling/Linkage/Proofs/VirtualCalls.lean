import Linkage.Proofs.DefaultSelection
import Linkage.Proofs.Dispatch

namespace Linkage.ClassGraph

open ClassRecord Linking

variable {g g' : ClassGraph} {id owner current : ClassId} {info : ClassInfo} {m o : MethodRef}
  {mi : MethodInfo} {site : CallSite} {name descriptor : String} {slot : Nat}
  {allowed : LinkOptions → Prop} {options : LinkOptions}

theorem methodLookup_of_class (hinfo : g.info? id = some info) (hclass : info.isInterface = false) :
    g.methodLookup id name descriptor =
      ((g.lineage id).findSome? fun c => g.declaredMethod? c name descriptor).or
        (g.superinterfaceMethod id name descriptor) := by
  simp [methodLookup, hinfo, hclass]

theorem candidate_of_superinterfaceMethod (h : g.superinterfaceMethod id name descriptor = some m) :
    m ∈ g.interfaceCandidates id name descriptor := by
  unfold superinterfaceMethod at h
  split at h
  next only honly =>
    obtain rfl := Option.some.inj h
    exact mem_candidates_of_concreteDefaults honly
  next => exact List.mem_of_head? h

theorem methodLookup_cases (hinfo : g.info? id = some info) (hclass : info.isInterface = false)
    (hm : g.methodLookup id name descriptor = some m)
    (hvirtual : g.methodHas m (·.isVirtual) = true) :
    g.nearestVirtual? id name descriptor = some m ∨
      g.nearestVirtual? id name descriptor = none ∧
        m ∈ g.interfaceCandidates id name descriptor := by
  rw [methodLookup_of_class hinfo hclass] at hm
  rcases Option.or_eq_some_iff.mp hm with hfound | ⟨hnone, hinterface⟩
  · exact .inl (findSome?_filter hfound hvirtual)
  · refine .inr ⟨?_, candidate_of_superinterfaceMethod hinterface⟩
    exact findSome?_eq_none_of_imp (fun c _ x hx => (Option.filter_eq_some_iff.mp hx).1) hnone

theorem Coherent.isInterface_of_nearestVirtual (hg : g.Coherent allowed)
    (hinfo : g.info? id = some info) (hclass : info.isInterface = false)
    (hm : g.nearestVirtual? id name descriptor = some m) : g.isInterface m.owner = false := by
  obtain ⟨c, hc, hdeclared⟩ := List.exists_of_findSome?_eq_some hm
  obtain ⟨rfl, -⟩ := hg.virtualMethod_iff.mp hdeclared
  exact hg.isInterface_of_mem_lineage ((isInterface_eq hinfo).trans hclass) hc

theorem virtualTarget_of_mem (hinfo : g.info? id = some info) (hm : m ∈ info.vtable) :
    ∃ slot o, g.virtualTarget? id m = some (.virtual id slot o) := by
  cases hslot : info.vtable.findIdx? fun x => x = m || g.overrides x m with
  | none => simpa using List.findIdx?_eq_none_iff.mp hslot m hm
  | some slot =>
      obtain ⟨o, ho, -⟩ := of_findIdx? hslot
      exact ⟨slot, o, by simp [virtualTarget?, hinfo, hslot, ho]⟩

theorem Coherent.slot_of_candidate (hg : g.Coherent allowed) (hinfo : g.info? id = some info)
    (hclass : info.isInterface = false) (hm : g.method? m = some mi) (hvirtual : mi.isVirtual = true)
    (hcandidate : m ∈ g.interfaceCandidates id name descriptor)
    (hnone : g.nearestVirtual? id name descriptor = none) :
    ∃ slot o, info.vtable[slot]? = some o ∧ g.key? o = some (name, descriptor) ∧
      ∀ (n : Nat) (x : MethodRef), info.vtable[n]? = some x →
        g.key? x = some (name, descriptor) → n = slot := by
  obtain ⟨howner, hkey, -⟩ := hg.mem_interfaceCandidates_iff.mp hcandidate
  rw [key?_eq hm, Option.some.injEq, Prod.mk.injEq] at hkey
  obtain ⟨rfl, rfl⟩ := hkey
  simp only [MethodInfo.isVirtual, Bool.and_eq_true, Bool.not_eq_true'] at hvirtual
  have hcall : g.Callable id m mi :=
    ⟨howner, hm, hvirtual.1.1.2, hvirtual.1.1.1, hvirtual.2⟩
  have hs := hg.sound hinfo hclass
  obtain ⟨slot, o, ho, himpl⟩ := hg.implemented hinfo hclass
    (mem_interfaceMethods_iff.mpr ⟨m.owner, howner, hcall.slotted hg.toWellFormed⟩)
  have hkeyo := himpl.key hg.toWellFormed
  refine ⟨slot, o, ho, hkeyo, fun n x hx hkeyx => ?_⟩
  have hkind : ∀ {y}, y ∈ info.vtable → g.key? y = some (mi.name, mi.descriptor) →
      g.isInterface y.owner = true :=
    fun hy hkey => hs.isInterface_of_unclaimed hg.toWellFormed hnone hy hkey
  exact hs.single hx ho (hkind (List.mem_of_getElem? hx) hkeyx)
    (hkind (List.mem_of_getElem? ho) hkeyo) (hkeyx.trans hkeyo.symm)

theorem Hierarchical.virtualTarget_of_single (hg : g.Hierarchical) (hinfo : g.info? id = some info)
    (hkeym : g.key? m = some (name, descriptor)) (ho : info.vtable[slot]? = some o)
    (honly : ∀ (n : Nat) (x : MethodRef), info.vtable[n]? = some x →
      g.key? x = some (name, descriptor) → n = slot) :
    g.virtualTarget? id m =
      if o = m ∨ g.overrides o m = true then some (.virtual id slot o) else none := by
  have hkey : ∀ {x}, (x = m || g.overrides x m) = true → g.key? x = some (name, descriptor) := by
    intro x hx
    rw [Bool.or_eq_true, decide_eq_true_eq] at hx
    rcases hx with rfl | hover
    · exact hkeym
    · exact (hg.key_of_overrides hover).trans hkeym
  split
  next hmatch =>
    have hslot : (info.vtable.findIdx? fun x => x = m || g.overrides x m) = some slot :=
      findIdx?_of_unique ho (by simpa using hmatch) fun hj hx => honly _ _ hj (hkey hx)
    simp [virtualTarget?, hinfo, hslot, ho]
  next hmatch =>
    have hslot : (info.vtable.findIdx? fun x => x = m || g.overrides x m) = none := by
      refine List.findIdx?_eq_none_iff.mpr fun x hx => ?_
      by_contra hfound
      rw [Bool.not_eq_false] at hfound
      obtain ⟨n, hn⟩ := List.mem_iff_getElem?.mp hx
      obtain rfl := honly n x hn (hkey hfound)
      obtain rfl := Option.some.inj (hn.symm.trans ho)
      exact hmatch (by simpa using hfound)
    simp [virtualTarget?, hinfo, hslot]

structure VirtualCall (g : ClassGraph) (current owner : ClassId) (site : CallSite)
    (m : MethodRef) (mi : MethodInfo) : Prop where
  kind : site.kind = .virtual
  notArray : site.owner.startsWith "[" = false
  ownerKind : site.ownerIsInterface = false
  named : g.lookup site.owner = some owner
  resolved : g.methodLookup owner site.name site.descriptor = some m
  method : g.method? m = some mi
  isVirtual : mi.isVirtual = true
  classAccess : g.canAccessClass current owner = true
  memberAccess : g.canAccessMember current m.owner mi.access = true

theorem VirtualCall.selectCall (h : g.VirtualCall current owner site m mi)
    (hkind : g.isInterface owner = false) : g.selectCall current owner site =
      match g.virtualTarget? owner m with
      | some target => .ok target
      | none => .error (g.violation current (.missingFromVtable (g.methodSignature m) site.owner)) := by
  have hvirtual := h.isVirtual
  simp only [MethodInfo.isVirtual, Bool.and_eq_true, Bool.not_eq_true'] at hvirtual
  have hresolved : g.resolvedMethod? owner site = some m := by
    simp [resolvedMethod?, hkind, h.resolved]
  cases htarget : g.virtualTarget? owner m <;>
    simp only [ClassGraph.selectCall, hkind, h.ownerKind, ne_eq, not_true_eq_false, ↓reduceIte,
      hresolved, h.method, h.memberAccess, Bool.not_true, Bool.false_eq_true, targetOf, h.kind,
      hvirtual.1.1.2, hvirtual.1.1.1, htarget]

theorem link_of_linked (hlinked : g.status id = .linked info) :
    (link options id).result g = (.ok (), g) := by
  obtain ⟨slot, hslot⟩ := slot_of_known (known_of_info (known_of_linked hlinked))
  have hstatus := (status_of_slot hslot).symm.trans hlinked
  change linkWithin options (g.size + 1) id g = _
  simp [linkWithin, hslot, hstatus]

theorem VirtualCall.resolveClass (h : g.VirtualCall current owner site m mi)
    (hlinked : g.status owner = .linked info) :
    (resolveClass options current site.owner).result g = (.ok owner, g) := by
  have hget : (get : Linking ClassGraph).result g = (.ok g, g) := rfl
  simp only [ClassGraph.resolveClass, result_bind, hget, h.named, link_of_linked hlinked,
    h.classAccess, if_true]
  rfl

theorem VirtualCall.resolveCall (h : g'.VirtualCall current owner site m mi)
    (hlink : (link options current).result g = (.ok (), g'))
    (hlinked : g'.status owner = .linked info) :
    (resolveCall options current site).result g = (g'.selectCall current owner site, g') := by
  have hget : (get : Linking ClassGraph).result g' = (.ok g', g') := rfl
  simp only [ClassGraph.resolveCall, result_bind, hlink, h.notArray, Bool.false_eq_true, if_false,
    h.resolveClass hlinked, hget]
  cases g'.selectCall current owner site <;> rfl

theorem VirtualCall.methodHas (h : g.VirtualCall current owner site m mi) :
    g.methodHas m (·.isVirtual) = true :=
  methodHas_iff.mpr ⟨mi, h.method, h.isVirtual⟩

theorem Coherent.virtualTarget_of_class (hg : g.Coherent allowed) (hinfo : g.info? owner = some info)
    (hclass : info.isInterface = false) (hcall : g.VirtualCall current owner site m mi)
    (hkind : g.isInterface m.owner = false) :
    ∃ slot o, g.virtualTarget? owner m = some (.virtual owner slot o) := by
  rcases methodLookup_cases hinfo hclass hcall.resolved hcall.methodHas with hnear | ⟨-, hcandidate⟩
  · exact virtualTarget_of_mem hinfo ((hg.sound hinfo hclass).nearest hnear)
  · obtain ⟨howner, -⟩ := hg.mem_interfaceCandidates_iff.mp hcandidate
    simp [(mem_superinterfaces_iff.mp howner).2] at hkind

theorem Coherent.virtualTarget_of_interface (hg : g.Coherent allowed)
    (hinfo : g.info? owner = some info) (hclass : info.isInterface = false)
    (hcall : g.VirtualCall current owner site m mi) (hkind : g.isInterface m.owner = true) :
    ∃ slot o, info.vtable[slot]? = some o ∧ g.key? o = some (site.name, site.descriptor) ∧
      (g.concreteDefaults owner site.name site.descriptor = [m] → o = m) ∧
      g.virtualTarget? owner m =
        if o = m ∨ g.overrides o m = true then some (.virtual owner slot o) else none := by
  rcases methodLookup_cases hinfo hclass hcall.resolved hcall.methodHas
    with hnear | ⟨hnone, hcandidate⟩
  · simp [hg.isInterface_of_nearestVirtual hinfo hclass hnear] at hkind
  · have hkey := hg.key_of_methodLookup hcall.resolved
    obtain ⟨slot, o, ho, hkeyo, honly⟩ :=
      hg.slot_of_candidate hinfo hclass hcall.method hcall.isVirtual hcandidate hnone
    refine ⟨slot, o, ho, hkeyo, fun hone => ?_, hg.virtualTarget_of_single hinfo hkey ho honly⟩
    rcases (hg.built hinfo hclass).default_slot hg.toWellFormed hinfo hclass
      (hg.sound_inherited hinfo) hnone ho hkeyo with hsame | ⟨hnil, -⟩
    · exact List.singleton_inj.mp (hsame.symm.trans hone)
    · simp [hone] at hnil

theorem virtual_calls_reach_their_slots (h : Reachable allowed g) (hallowed : allowed options)
    (hlink : (link options current).result g = (.ok (), g'))
    (hlinked : g'.status owner = .linked info) (hclass : info.isInterface = false)
    (hcall : g'.VirtualCall current owner site m mi) :
    (g'.isInterface m.owner = false → ∃ slot o,
      (resolveCall options current site).result g = (.ok (.virtual owner slot o), g')) ∧
    (g'.isInterface m.owner = true → ∃ slot o, info.vtable[slot]? = some o ∧
      g'.key? o = some (site.name, site.descriptor) ∧
      (g'.concreteDefaults owner site.name site.descriptor = [m] → o = m) ∧
      (resolveCall options current site).result g =
        (if o = m ∨ g'.overrides o m = true then .ok (.virtual owner slot o)
          else .error (g'.violation current
            (.missingFromVtable (g'.methodSignature m) site.owner)), g')) := by
  have hinfo := known_of_linked hlinked
  have hg' : g'.Coherent allowed := by
    simpa only [hlink] using (link_ensures h.coherent hallowed current).coherent
  have hresult := hcall.resolveCall hlink hlinked
  rw [hcall.selectCall ((isInterface_eq hinfo).trans hclass)] at hresult
  refine ⟨fun hkind => ?_, fun hkind => ?_⟩
  · obtain ⟨slot, o, htarget⟩ := hg'.virtualTarget_of_class hinfo hclass hcall hkind
    rw [htarget] at hresult
    exact ⟨slot, o, hresult⟩
  · obtain ⟨slot, o, ho, hkeyo, hdefault, htarget⟩ :=
      hg'.virtualTarget_of_interface hinfo hclass hcall hkind
    refine ⟨slot, o, ho, hkeyo, hdefault, hresult.trans ?_⟩
    by_cases hmatch : o = m ∨ g'.overrides o m = true
    · simp [htarget, hmatch]
    · simp [htarget, hmatch]

def abstractRun (name : String) (interfaces : List String) : ClassRecord where
  name := name
  access := .publicInterface
  interfaces := interfaces
  methods := [minimalRoot.method (Access.publicBit ||| Access.abstractBit) "run" "()V"]

def abstractClass (name : String) (interfaces : List String) : ClassRecord where
  name := name
  access := ⟨Access.publicBit ||| Access.superBit ||| Access.abstractBit⟩
  interfaces := interfaces

def runOnAthlete : CallSite := ⟨.virtual, "Athlete", "run", "()V", false⟩

def abstractRunInfo : MethodInfo :=
  ⟨minimalRoot.method (Access.publicBit ||| Access.abstractBit) "run" "()V", ⟨[], .void⟩, false⟩

def refinedRun : ClassGraph :=
  program [
    abstractRun "Runner" [], abstractRun "Sprinter" ["Runner"],
    abstractClass "Athlete" ["Runner", "Sprinter"], { name := "Main" }] ⟨3⟩

theorem refinedRun_call : ∃ g info, refinedRun.isLinked ⟨4⟩ = false ∧
    g.status ⟨3⟩ = .linked info ∧ info.vtable[6]? = some ⟨⟨2⟩, 0⟩ ∧
    g.VirtualCall ⟨4⟩ ⟨3⟩ runOnAthlete ⟨⟨1⟩, 0⟩ abstractRunInfo ∧
    (resolveCall {} ⟨4⟩ runOnAthlete).result refinedRun = (.ok (.virtual ⟨3⟩ 6 ⟨⟨2⟩, 0⟩), g) := by
  have hreach : Reachable (fun _ => True) refinedRun := reachable_program _ _
  let g := ((link {} ⟨4⟩).result refinedRun).2
  obtain ⟨hbefore, hok, hlinked, hkind, hnamed, hresolved, hmethod, hdeclaring, hslots, hover⟩ :
      refinedRun.isLinked ⟨4⟩ = false ∧
      ((link {} ⟨4⟩).result refinedRun).1.toOption = some () ∧
      g.isLinked ⟨3⟩ = true ∧ g.isInterface ⟨3⟩ = false ∧ g.lookup "Athlete" = some ⟨3⟩ ∧
      g.methodLookup ⟨3⟩ "run" "()V" = some ⟨⟨1⟩, 0⟩ ∧
      g.method? ⟨⟨1⟩, 0⟩ = some abstractRunInfo ∧ g.isInterface ⟨1⟩ = true ∧
      ((g.info? ⟨3⟩).map fun info =>
        info.vtable.zipIdx.filter (g.key? ·.1 = some ("run", "()V"))) = some [(⟨⟨2⟩, 0⟩, 6)] ∧
      g.overrides ⟨⟨2⟩, 0⟩ ⟨⟨1⟩, 0⟩ = true := by
    decide +kernel
  have hcall : g.VirtualCall ⟨4⟩ ⟨3⟩ runOnAthlete ⟨⟨1⟩, 0⟩ abstractRunInfo :=
    ⟨rfl, by decide +kernel, rfl, hnamed, hresolved, hmethod, rfl, by decide +kernel,
      by decide +kernel⟩
  obtain ⟨info, hinfo, hclass⟩ := linkedClass_of hlinked hkind
  have hlink : (link {} ⟨4⟩).result refinedRun = (.ok (), g) :=
    Prod.ext (Outcome.toOption_eq_some hok) rfl
  obtain ⟨slot, o, ho, hkey, -, hresult⟩ :=
    (virtual_calls_reach_their_slots hreach trivial hlink hinfo hclass hcall).2 hdeclaring
  rw [known_of_linked hinfo, Option.map_some, Option.some.injEq] at hslots
  have hmem : (o, slot) ∈ info.vtable.zipIdx.filter (g.key? ·.1 = some ("run", "()V")) :=
    List.mem_filter.mpr ⟨List.mem_zipIdx_iff_getElem?.mpr ho, decide_eq_true hkey⟩
  rw [hslots, List.mem_singleton, Prod.mk.injEq] at hmem
  obtain ⟨rfl, rfl⟩ := hmem
  rw [if_pos (.inr hover)] at hresult
  exact ⟨g, info, hbefore, hinfo, ho, hcall, hresult⟩

-- The slot of `Athlete` holds the declaration of `Jumper`, which does not override that of
-- `Runner`, though the interface table leads from both to the slot.
def splitRun : ClassGraph :=
  program [
    abstractRun "Runner" [], abstractRun "Jumper" [], abstractRun "Sprinter" ["Runner"],
    abstractClass "Athlete" ["Runner", "Jumper", "Sprinter"], { name := "Main" }] ⟨4⟩

theorem splitRun_misses_slot : ∃ g info, Reachable (fun _ => True) splitRun ∧
    (link {} ⟨5⟩).result splitRun = (.ok (), g) ∧ g.status ⟨4⟩ = .linked info ∧
    info.isInterface = false ∧ info.vtable[6]? = some ⟨⟨2⟩, 0⟩ ∧
    info.interfaceTable = [⟨⟨1⟩, [⟨0, 6⟩]⟩, ⟨⟨2⟩, [⟨0, 6⟩]⟩, ⟨⟨3⟩, [⟨0, 6⟩]⟩] ∧
    g.VirtualCall ⟨5⟩ ⟨4⟩ runOnAthlete ⟨⟨1⟩, 0⟩ abstractRunInfo ∧
    (resolveCall {} ⟨5⟩ runOnAthlete).result splitRun =
      (.error ⟨"Main", .missingFromVtable "Runner.run()V" "Athlete"⟩, g) := by
  let g := ((link {} ⟨5⟩).result splitRun).2
  obtain ⟨hok, hlinked, hkind, hnamed, hresolved, hmethod, htables, hnone, hname, hsignature⟩ :
      ((link {} ⟨5⟩).result splitRun).1.toOption = some () ∧
      g.isLinked ⟨4⟩ = true ∧ g.isInterface ⟨4⟩ = false ∧ g.lookup "Athlete" = some ⟨4⟩ ∧
      g.methodLookup ⟨4⟩ "run" "()V" = some ⟨⟨1⟩, 0⟩ ∧
      g.method? ⟨⟨1⟩, 0⟩ = some abstractRunInfo ∧
      ((g.info? ⟨4⟩).map fun info => (info.vtable[6]?, info.interfaceTable)) =
        some (some ⟨⟨2⟩, 0⟩, [⟨⟨1⟩, [⟨0, 6⟩]⟩, ⟨⟨2⟩, [⟨0, 6⟩]⟩, ⟨⟨3⟩, [⟨0, 6⟩]⟩]) ∧
      g.virtualTarget? ⟨4⟩ ⟨⟨1⟩, 0⟩ = none ∧ g.name ⟨5⟩ = "Main" ∧
      g.methodSignature ⟨⟨1⟩, 0⟩ = "Runner.run()V" := by
    decide +kernel
  have hcall : g.VirtualCall ⟨5⟩ ⟨4⟩ runOnAthlete ⟨⟨1⟩, 0⟩ abstractRunInfo :=
    ⟨rfl, by decide +kernel, rfl, hnamed, hresolved, hmethod, rfl, by decide +kernel,
      by decide +kernel⟩
  obtain ⟨info, hinfo, hclass⟩ := linkedClass_of hlinked hkind
  have hlink : (link {} ⟨5⟩).result splitRun = (.ok (), g) :=
    Prod.ext (Outcome.toOption_eq_some hok) rfl
  rw [known_of_linked hinfo, Option.map_some, Option.some.injEq, Prod.mk.injEq] at htables
  have hresult := hcall.resolveCall hlink hinfo
  rw [hcall.selectCall hkind, hnone, violation, hname, hsignature] at hresult
  exact ⟨g, info, reachable_program _ _, hlink, hinfo, hclass, htables.1, htables.2, hcall, hresult⟩

end Linkage.ClassGraph
