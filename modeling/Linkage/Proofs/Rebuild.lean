import Linkage.Graph.InterfaceTable
import Linkage.Proofs.DefaultSlots
import Linkage.Proofs.Search

namespace Linkage.ClassGraph

open Outcome

variable {g g' : ClassGraph} {id : ClassId} {info : ClassInfo} {t t' : List MethodRef}
  {x : MethodRef} {p : MethodRef × MethodInfo} {name descriptor : String}

def KnownMethods (g : ClassGraph) (t : List MethodRef) : Prop :=
  ∀ m ∈ t, g.Known m.owner

theorem KnownMethods.append (h : g.KnownMethods t) (hx : g.Known x.owner) :
    g.KnownMethods (t ++ [x]) := by
  intro m hm
  rcases List.mem_append.mp hm with hm | hm
  · exact h m hm
  · exact List.mem_singleton.mp hm ▸ hx

theorem KnownMethods.set (h : g.KnownMethods t) (hx : g.Known x.owner) (slot : Nat) :
    g.KnownMethods (t.set slot x) := by
  intro m hm
  rcases List.mem_or_eq_of_mem_set hm with hm | rfl
  · exact h m hm
  · exact hx

theorem placeDeclared_known (h : g.KnownMethods t) (hx : g.Known x.owner)
    (hplace : g.placeDeclared id t x = .ok t') : g.KnownMethods t' := by
  rcases placeDeclared_ok hplace with ⟨-, rfl⟩ | ⟨slot, m, -, -, rfl, -⟩
  · exact h.append hx
  · exact h.set hx slot

theorem of_mem_overriddenSlots {slot : Nat × MethodRef} (h : slot ∈ g.overriddenSlots x t) :
    slot.2 ∈ t := by
  obtain ⟨⟨m, n⟩, hm, rfl⟩ := List.mem_map.mp h
  exact List.mem_of_getElem? (List.mem_zipIdx_iff_getElem?.mp (List.mem_filter.mp hm).1)

theorem Extends.overriddenSlots (e : g.Extends g') (hg : g.Hierarchical) (ht : g.KnownMethods t)
    (hx : g.Known x.owner) : g'.overriddenSlots x t = g.overriddenSlots x t := by
  rw [ClassGraph.overriddenSlots, ClassGraph.overriddenSlots]
  congr 1
  refine List.filter_congr fun slot hslot => ?_
  exact e.overrides hg hx (ht slot.1 (List.mem_of_getElem? (List.mem_zipIdx_iff_getElem?.mp hslot)))

theorem Extends.placeDeclared (e : g.Extends g') (hg : g.Hierarchical) (hid : g.Known id)
    (ht : g.KnownMethods t) (hx : g.Known x.owner) :
    g'.placeDeclared id t x = g.placeDeclared id t x := by
  have hfind : t.findIdx? (g'.overrides x) = t.findIdx? (g.overrides x) :=
    findIdx?_congr fun m hm => e.overrides hg hx (ht m hm)
  simp only [ClassGraph.placeDeclared, hfind]
  split
  next => rfl
  next slot hslot =>
    have hset := ht.set hx slot
    rw [e.overriddenSlots hg hset hx, e.className hid, e.methodSignature hx]
    generalize hothers : (g.overriddenSlots x (t.set slot x)).filter _ = others
    have hknown : ∀ o ∈ others, g.Known o.2.owner := by
      intro o ho
      exact hset _ (of_mem_overriddenSlots (List.mem_of_mem_filter (hothers ▸ ho)))
    cases others with
    | nil => rfl
    | cons o rest =>
        have hmap : (o :: rest).map (fun slot => (slot.1, g'.methodSignature slot.2)) =
            (o :: rest).map fun slot => (slot.1, g.methodSignature slot.2) :=
          List.map_congr_left fun slot hslot => by rw [e.methodSignature (hknown slot hslot)]
        simp only [hmap]

theorem mem_concreteDefaults_known {m : MethodRef} (h : m ∈ g.concreteDefaults id name descriptor) :
    g.Known m.owner :=
  known_of_mem_candidates (mem_candidates_of_maximallySpecific (mem_concreteDefaults_iff.mp h).1)

theorem Extends.chooseDefault (e : g.Extends g') (hg : g.Hierarchical) (hid : g.Known id) :
    g'.chooseDefault id name descriptor = g.chooseDefault id name descriptor := by
  simp only [ClassGraph.chooseDefault, e.concreteDefaults hg hid, e.className hid]
  have hmap : (g.concreteDefaults id name descriptor).map g'.methodSignature =
      (g.concreteDefaults id name descriptor).map g.methodSignature :=
    List.map_congr_left fun m hm => e.methodSignature (mem_concreteDefaults_known hm)
  split
  · rfl
  · rfl
  · simp_all

theorem Extends.placeInterfaceMethod (e : g.Extends g') (hg : g.Hierarchical) (hid : g.Known id)
    (ht : g.KnownMethods t) : g'.placeInterfaceMethod id t p = g.placeInterfaceMethod id t p := by
  have hfind : t.findIdx? (g'.methodHas · (·.isNamed p.2.name p.2.descriptor)) =
      t.findIdx? (g.methodHas · (·.isNamed p.2.name p.2.descriptor)) :=
    findIdx?_congr fun m hm => e.methodHas (ht m hm) _
  have hkind : ∀ slot : Nat, ((t[slot]?).any fun m => g'.isInterface m.owner) =
      (t[slot]?).any fun m => g.isInterface m.owner := by
    intro slot
    cases hget : t[slot]? with
    | none => rfl
    | some m => exact e.isInterface (ht m (List.mem_of_getElem? hget))
  simp only [ClassGraph.placeInterfaceMethod, hfind, hkind, e.chooseDefault hg hid,
    e.maximallySpecific hg hid]

theorem WellFormed.placeInterfaceMethod_known (hg : g.WellFormed)
    (hp : p ∈ g.interfaceMethods id) (ht : g.KnownMethods t)
    (h : g.placeInterfaceMethod id t p = .ok t') : g.KnownMethods t' := by
  have hfills := hg.placeInterfaceMethod_fills hp h
  intro m hm
  obtain ⟨n, hn⟩ := List.mem_iff_getElem?.mp hm
  rcases hfills.back hg hn with hpicked | hold
  · exact known_of_methodHas (hg.of_picked hpicked).2.2.1
  · exact ht m (List.mem_of_getElem? hold)

theorem Extends.checkConcrete (e : g.Extends g') (ht : g.KnownMethods t) :
    g'.checkConcrete info t = g.checkConcrete info t := by
  have hfind : t.find? (g'.methodHas · (·.isAbstract)) = t.find? (g.methodHas · (·.isAbstract)) :=
    List.find?_congr fun m hm => e.methodHas (ht m hm) _
  rw [ClassGraph.checkConcrete, ClassGraph.checkConcrete, hfind]
  split
  · rfl
  · split
    next m hm => rw [e.methodSignature (ht m (List.mem_of_find?_eq_some hm))]
    next => rfl

theorem Extends.duplicateSlots (e : g.Extends g') (hg : g.Hierarchical) (ht : g.KnownMethods t) :
    g'.duplicateSlots? t = g.duplicateSlots? t := by
  have hslot : ∀ a ∈ t.zipIdx, g.Known a.1.owner := fun a h =>
    ht a.1 (List.mem_of_getElem? (List.mem_zipIdx_iff_getElem?.mp h))
  refine findSome?_congr fun a ha => findSome?_congr fun b hb => ?_
  have hb := hslot b (List.mem_of_mem_drop hb)
  rw [e.overrides hg (hslot a ha) hb, e.overrides hg hb (hslot a ha)]

theorem of_duplicateSlots {a b : MethodRef × Nat} (h : g.duplicateSlots? t = some (a, b)) :
    a ∈ t.zipIdx ∧ b ∈ t.zipIdx.drop (a.2 + 1) ∧
      (g.overrides a.1 b.1 = true ∨ g.overrides b.1 a.1 = true) := by
  obtain ⟨a', ha, hinner⟩ := List.exists_of_findSome?_eq_some h
  obtain ⟨b', hb, hpair⟩ := List.exists_of_findSome?_eq_some hinner
  simp only [Option.ite_none_right_eq_some, Option.some.injEq, Prod.mk.injEq, Bool.or_eq_true]
    at hpair
  obtain ⟨hover, rfl, rfl⟩ := hpair
  exact ⟨ha, hb, hover⟩

theorem Extends.checkDistinct (e : g.Extends g') (hg : g.Hierarchical) (ht : g.KnownMethods t) :
    g'.checkDistinct info t = g.checkDistinct info t := by
  rw [ClassGraph.checkDistinct, ClassGraph.checkDistinct, e.duplicateSlots hg ht]
  split
  next a i b j hfound =>
    obtain ⟨ha, hb, -⟩ := of_duplicateSlots hfound
    have hb := List.mem_of_mem_drop hb
    rw [e.methodSignature (ht a (List.mem_of_getElem? (List.mem_zipIdx_iff_getElem?.mp ha))),
      e.methodSignature (ht b (List.mem_of_getElem? (List.mem_zipIdx_iff_getElem?.mp hb)))]
  next => rfl

theorem Extends.checkInherited (e : g.Extends g') (hg : g.Hierarchical) (ht : g.KnownMethods t)
    (ht' : g.KnownMethods t') : g'.checkInherited info t t' = g.checkInherited info t t' := by
  have hpair : ∀ slot ∈ (t.zip t').zipIdx, g.Known slot.1.1.owner ∧ g.Known slot.1.2.owner := by
    intro slot h
    have hmem := List.of_mem_zip (List.mem_of_getElem? (List.mem_zipIdx_iff_getElem?.mp h))
    exact ⟨ht _ hmem.1, ht' _ hmem.2⟩
  have hclash : g'.incompatibleSlot? t t' = g.incompatibleSlot? t t' := by
    refine List.find?_congr fun slot h => ?_
    rw [e.overrides hg (hpair slot h).1 (hpair slot h).2]
  rw [ClassGraph.checkInherited, ClassGraph.checkInherited, hclash]
  split
  next a b n hfound =>
    obtain ⟨ha, hb⟩ := hpair _ (List.mem_of_find?_eq_some hfound)
    rw [e.methodSignature ha, e.methodSignature hb]
  next => rfl

theorem Hierarchical.known_of_mem_superinterfaces (hg : g.Hierarchical) {i : ClassId}
    (hi : i ∈ g.superinterfaces id) : g.Known i :=
  hg.known_of_mem_supertypes (mem_superinterfaces_iff.mp hi).1

theorem Extends.interfaceMethods (e : g.Extends g') (hg : g.Hierarchical) (hid : g.Known id) :
    g'.interfaceMethods id = g.interfaceMethods id := by
  rw [ClassGraph.interfaceMethods, ClassGraph.interfaceMethods, e.superinterfaces hg hid]
  exact List.flatMap_congr fun i hi => e.slottedMethods (hg.known_of_mem_superinterfaces hi)

theorem inheritedVtable_congr (hsuper : ∀ s, info.superClass = some s → g'.info? s = g.info? s) :
    g'.inheritedVtable info = g.inheritedVtable info := by
  cases hs : info.superClass with
  | none => simp [inheritedVtable, hs]
  | some s => simp [inheritedVtable, hs, hsuper s hs]

theorem placeDeclared_foldlM_known {own : List MethodRef} (hown : ∀ x ∈ own, g.Known x.owner)
    (ht : g.KnownMethods t) (h : own.foldlM (g.placeDeclared id) t = .ok t') :
    g.KnownMethods t' :=
  foldlM_keeps g.KnownMethods (fun _ x _ hx hacc hstep => placeDeclared_known hacc (hown x hx) hstep)
    ht h

theorem WellFormed.placeInterfaceMethod_foldlM_known (hg : g.WellFormed) (ht : g.KnownMethods t)
    (h : (g.interfaceMethods id).foldlM (g.placeInterfaceMethod id) t = .ok t') :
    g.KnownMethods t' := by
  exact foldlM_keeps g.KnownMethods
    (fun _ _ _ hp hacc hstep => hg.placeInterfaceMethod_known hp hacc hstep) ht h

theorem Extends.placeDeclared_foldlM (e : g.Extends g') (hg : g.Hierarchical) (hid : g.Known id)
    {own : List MethodRef} (hown : ∀ x ∈ own, g.Known x.owner) (ht : g.KnownMethods t) :
    own.foldlM (g'.placeDeclared id) t = own.foldlM (g.placeDeclared id) t :=
  foldlM_congr g.KnownMethods (fun _ x hx hacc => e.placeDeclared hg hid hacc (hown x hx))
    (fun _ x _ hx hacc hstep => placeDeclared_known hacc (hown x hx) hstep) ht

theorem Extends.placeInterfaceMethod_foldlM (e : g.Extends g') (hg : g.WellFormed)
    (hid : g.Known id) (ht : g.KnownMethods t) :
    (g'.interfaceMethods id).foldlM (g'.placeInterfaceMethod id) t =
      (g.interfaceMethods id).foldlM (g.placeInterfaceMethod id) t := by
  rw [e.interfaceMethods hg.toHierarchical hid]
  exact foldlM_congr g.KnownMethods
    (fun _ p _ hacc => e.placeInterfaceMethod hg.toHierarchical hid hacc)
    (fun _ _ _ hp hacc hstep => hg.placeInterfaceMethod_known hp hacc hstep) ht

theorem virtualMethods_owner (h : x ∈ info.virtualMethods) : x.owner = info.id := by
  obtain ⟨⟨m, mi⟩, hmem, rfl⟩ := List.mem_map.mp h
  exact (ClassInfo.mem_methodRefs_iff.mp (List.mem_filter.mp hmem).1).1

theorem buildVtable_ok {verify : Bool} (h : g.buildVtable info verify = .ok t) :
    ∃ mid, info.virtualMethods.foldlM (g.placeDeclared info.id) (g.inheritedVtable info) = .ok mid ∧
      (g.interfaceMethods info.id).foldlM (g.placeInterfaceMethod info.id) mid = .ok t ∧
      g.checkConcrete info t = .ok () ∧
      (verify = true → g.checkDistinct info t = .ok () ∧
        g.checkInherited info t (g.inheritedVtable info) = .ok ()) := by
  rw [ClassGraph.buildVtable] at h
  obtain ⟨mid, hmid, h⟩ := bind_ok_iff.mp h
  obtain ⟨out, hout, h⟩ := bind_ok_iff.mp h
  obtain ⟨_, hconcrete, h⟩ := bind_ok_iff.mp h
  cases verify with
  | false =>
      obtain rfl := pure_ok_iff.mp h
      exact ⟨mid, hmid, hout, hconcrete, by simp⟩
  | true =>
      obtain ⟨_, hdistinct, h⟩ := bind_ok_iff.mp h
      obtain ⟨_, hinherited, h⟩ := bind_ok_iff.mp h
      obtain rfl := pure_ok_iff.mp h
      exact ⟨mid, hmid, hout, hconcrete, fun _ => ⟨hdistinct, hinherited⟩⟩

theorem WellFormed.buildVtable_known (hg : g.WellFormed) (hid : g.Known info.id)
    (hinherited : g.KnownMethods (g.inheritedVtable info)) {verify : Bool}
    (h : g.buildVtable info verify = .ok t) : g.KnownMethods t := by
  obtain ⟨mid, hmid, hout, -⟩ := buildVtable_ok h
  have hmidKnown := placeDeclared_foldlM_known (fun x hx => virtualMethods_owner hx ▸ hid)
    hinherited hmid
  exact hg.placeInterfaceMethod_foldlM_known hmidKnown hout

theorem Extends.buildVtable (e : g.Extends g') (hg : g.WellFormed) (hid : g.Known info.id)
    (hsuper : ∀ s, info.superClass = some s → g'.info? s = g.info? s)
    (hinherited : g.KnownMethods (g.inheritedVtable info)) (verify : Bool) :
    g'.buildVtable info verify = g.buildVtable info verify := by
  have hown : ∀ x ∈ info.virtualMethods, g.Known x.owner := fun x hx =>
    virtualMethods_owner hx ▸ hid
  rw [ClassGraph.buildVtable, ClassGraph.buildVtable, inheritedVtable_congr hsuper,
    e.placeDeclared_foldlM hg.toHierarchical hid hown hinherited]
  cases hmid : info.virtualMethods.foldlM (g.placeDeclared info.id) (g.inheritedVtable info) with
  | error err => rfl
  | ok mid =>
      have hmidKnown := placeDeclared_foldlM_known hown hinherited hmid
      have hfold := e.placeInterfaceMethod_foldlM hg hid hmidKnown
      cases hout : (g.interfaceMethods info.id).foldlM (g.placeInterfaceMethod info.id) mid with
      | error err =>
          rw [hout] at hfold
          simp only [bind, Except.bind, hfold, hout]
      | ok out =>
          rw [hout] at hfold
          have hknown := hg.placeInterfaceMethod_foldlM_known hmidKnown hout
          simp only [bind, Except.bind, hfold, hout, e.checkConcrete hknown,
            e.checkDistinct hg.toHierarchical hknown,
            e.checkInherited hg.toHierarchical hknown hinherited]

theorem Extends.selectSlot (e : g.Extends g') (hg : g.Hierarchical) (hid : g.Known id)
    (ht : g.KnownMethods t) :
    g'.selectSlot id t name descriptor = g.selectSlot id t name descriptor := by
  have hclass : ∀ c, (t.findIdx? fun m => m.owner = c &&
        g'.methodHas m (·.isNamed name descriptor)) =
      t.findIdx? fun m => m.owner = c && g.methodHas m (·.isNamed name descriptor) := fun c =>
    findIdx?_congr fun m hm => by rw [e.methodHas (ht m hm)]
  have hinterface : (t.findIdx? fun m => g'.isInterface m.owner &&
        g'.methodHas m (·.isNamed name descriptor)) =
      t.findIdx? fun m => g.isInterface m.owner && g.methodHas m (·.isNamed name descriptor) :=
    findIdx?_congr fun m hm => by rw [e.methodHas (ht m hm), e.isInterface (ht m hm)]
  simp only [ClassGraph.selectSlot, e.lineage hg hid, hclass, hinterface]

theorem Extends.interfaceEntry (e : g.Extends g') (hg : g.Hierarchical) (hid : g.Known info.id)
    (hsuper : ∀ s, info.superClass = some s → g.Known s) (ht : g.KnownMethods t) {i : ClassId}
    (hi : g.Known i) : g'.interfaceEntry? info t i = g.interfaceEntry? info t i := by
  have hslots : g'.interfaceSlots info.id t i = g.interfaceSlots info.id t i := by
    simp only [ClassGraph.interfaceSlots, e.slottedMethods hi, e.selectSlot hg hid ht]
  have hinherited : (info.superClass.any fun s => g'.isSubtype s i) =
      info.superClass.any fun s => g.isSubtype s i := by
    cases hs : info.superClass with
    | none => rfl
    | some s => exact e.isSubtype hg (hsuper s hs)
  simp only [ClassGraph.interfaceEntry?, hslots, hinherited]

theorem Extends.buildInterfaceTable (e : g.Extends g') (hg : g.Hierarchical)
    (hid : g.Known info.id) (hsuper : ∀ s, info.superClass = some s → g.Known s)
    (ht : g.KnownMethods t) : g'.buildInterfaceTable info t = g.buildInterfaceTable info t := by
  rw [ClassGraph.buildInterfaceTable, ClassGraph.buildInterfaceTable, e.superinterfaces hg hid]
  exact List.filterMap_congr fun i hi =>
    e.interfaceEntry hg hid hsuper ht (hg.known_of_mem_superinterfaces hi)

end Linkage.ClassGraph
