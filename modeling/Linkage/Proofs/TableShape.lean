import Linkage.Proofs.Rebuild

namespace Linkage.ClassGraph

open Outcome

variable {g : ClassGraph} {id : ClassId} {info : ClassInfo} {inherited t : List MethodRef}
  {m x : MethodRef} {name descriptor : String}

theorem Hierarchical.mem_virtualMethods_iff (hg : g.Hierarchical) (hinfo : g.info? id = some info) :
    x ∈ info.virtualMethods ↔ x.owner = id ∧ g.methodHas x (·.isVirtual) = true := by
  simp only [ClassInfo.virtualMethods, List.mem_map, List.mem_filter, methodHas_iff]
  constructor
  · rintro ⟨⟨m, mi⟩, ⟨hmem, hvirtual⟩, rfl⟩
    obtain ⟨howner, hmethod⟩ := (hg.mem_methodRefs_iff hinfo).mp hmem
    exact ⟨howner, mi, hmethod, hvirtual⟩
  · rintro ⟨howner, mi, hmethod, hvirtual⟩
    exact ⟨(x, mi), ⟨(hg.mem_methodRefs_iff hinfo).mpr ⟨howner, hmethod⟩, hvirtual⟩, rfl⟩

theorem WellFormed.virtualMethod_iff_mem (hg : g.WellFormed) (hinfo : g.info? id = some info) :
    g.virtualMethod? id name descriptor = some x ↔
      x ∈ info.virtualMethods ∧ g.key? x = some (name, descriptor) := by
  rw [hg.virtualMethod_iff, hg.mem_virtualMethods_iff hinfo]
  constructor
  · rintro ⟨howner, hkey, hvirtual⟩
    exact ⟨⟨howner, hvirtual⟩, hkey⟩
  · rintro ⟨⟨howner, hvirtual⟩, hkey⟩
    exact ⟨howner, hkey, hvirtual⟩

theorem WellFormed.distinctKeys (hg : g.WellFormed) (hinfo : g.info? id = some info) :
    g.DistinctKeys info.virtualMethods := by
  have hpair := (hg.distinct hinfo).pairwise_methodRefs
  rw [DistinctKeys, ClassInfo.virtualMethods, List.pairwise_map]
  refine (hpair.sublist List.filter_sublist).imp_of_mem ?_
  rintro ⟨a, ai⟩ ⟨b, bi⟩ ha hb hne hkey
  have ha := ((hg.mem_methodRefs_iff hinfo).mp (List.mem_of_mem_filter ha)).2
  have hb := ((hg.mem_methodRefs_iff hinfo).mp (List.mem_of_mem_filter hb)).2
  rw [key?_eq ha, key?_eq hb, Option.some.injEq] at hkey
  rw [MethodInfo.isNamed_iff.mpr hkey] at hne
  cases hne

-- How the table of a class comes about from the one that it inherits.
structure Built (g : ClassGraph) (info : ClassInfo) (inherited t : List MethodRef) : Prop where
  once : ∀ x ∈ info.virtualMethods, g.OverridesOnce x inherited
  fills : g.Fills info.id (g.placed info.virtualMethods inherited) t
  cover : ∀ p ∈ g.interfaceMethods info.id, ∃ m ∈ t, g.key? m = g.key? p.1
  settle : ∀ p ∈ g.interfaceMethods info.id,
    (∀ m ∈ g.placed info.virtualMethods inherited, g.key? m = g.key? p.1 →
      g.isInterface m.owner = true) →
    g.concreteDefaults info.id p.2.name p.2.descriptor = [] ∨
      ∃ m ∈ t, g.concreteDefaults info.id p.2.name p.2.descriptor = [m]
  concrete : info.isAbstract = false → ∀ m ∈ t, g.methodHas m (·.isAbstract) = false

theorem checkConcrete_ok (h : g.checkConcrete info t = .ok ()) (hconcrete : info.isAbstract = false) :
    ∀ m ∈ t, g.methodHas m (·.isAbstract) = false := by
  unfold checkConcrete at h
  rw [hconcrete] at h
  simp only [Bool.false_eq_true, if_false] at h
  split at h
  next => cases h
  next hnone => exact fun m hm => by simpa using List.find?_eq_none.mp hnone m hm

theorem WellFormed.built (hg : g.WellFormed) (hinfo : g.info? id = some info) {verify : Bool}
    (h : g.buildVtable info verify = .ok t) : g.Built info (g.inheritedVtable info) t := by
  obtain ⟨mid, hmid, hout, hconcrete, -⟩ := buildVtable_ok h
  obtain ⟨rfl, honce⟩ := hg.placeDeclared_foldlM (hg.distinctKeys hinfo) hmid
  exact {
    once := honce
    fills := hg.placeInterfaceMethods_fill (fun _ h => h) hout
    cover := fun p hp => hg.placeInterfaceMethods_cover (fun _ h => h) hp hout
    settle := fun p hp hfree => hg.placeInterfaceMethods_settle (fun _ h => h) hp hfree hout
    concrete := checkConcrete_ok hconcrete }

theorem overrider_cases (own : List MethodRef) (m : MethodRef) :
    (g.overrider own m ∈ own ∧ g.overrides (g.overrider own m) m = true) ∨
      (∀ x ∈ own, g.overrides x m = false) ∧ g.overrider own m = m := by
  unfold overrider
  cases hfind : own.find? (g.overrides · m) with
  | some x =>
      have hover := List.find?_some hfind
      exact .inl ⟨List.mem_of_find?_eq_some hfind, hover⟩
  | none => exact .inr ⟨fun x hx => by simpa using List.find?_eq_none.mp hfind x hx, rfl⟩

theorem placed_inherited {own : List MethodRef} {i : Nat} (h : inherited[i]? = some m) :
    (g.placed own inherited)[i]? = some (g.overrider own m) := by
  have hlt := (List.getElem?_eq_some_iff.mp h).1
  rw [placed, List.getElem?_append_left (by simpa using hlt), List.getElem?_map, h, Option.map_some]

theorem placed_slot {own : List MethodRef} {i : Nat} (h : (g.placed own inherited)[i]? = some m) :
    (∃ o, inherited[i]? = some o ∧ m = g.overrider own o) ∨
      inherited.length ≤ i ∧
        (own.filter fun x => !inherited.any (g.overrides x))[i - inherited.length]? = some m := by
  cases ho : inherited[i]? with
  | some o =>
      rw [placed_inherited ho, Option.some.injEq] at h
      exact .inl ⟨o, rfl, h.symm⟩
  | none =>
      have hle := List.getElem?_eq_none_iff.mp ho
      rw [placed, List.getElem?_append_right (by simpa using hle), List.length_map] at h
      exact .inr ⟨hle, h⟩

theorem placed_declared {own : List MethodRef} {i : Nat} (hm : m ∉ inherited)
    (h : (g.placed own inherited)[i]? = some m) :
    (∃ o, inherited[i]? = some o ∧ g.overrides m o = true) ∨
      inherited.length ≤ i ∧ (∀ o ∈ inherited, g.overrides m o = false) ∧
        (own.filter fun x => !inherited.any (g.overrides x))[i - inherited.length]? = some m := by
  rcases placed_slot h with ⟨o, ho, rfl⟩ | ⟨hle, hm'⟩
  · rcases overrider_cases (g := g) own o with ⟨-, hover⟩ | ⟨-, hsame⟩
    · exact .inl ⟨o, ho, hover⟩
    · rw [hsame] at hm
      exact absurd (List.mem_of_getElem? ho) hm
  · obtain ⟨-, hfree⟩ := List.mem_filter.mp (List.mem_of_getElem? hm')
    exact .inr ⟨hle, by simpa using hfree, hm'⟩

theorem placed_once_of_declared {own : List MethodRef} {i j : Nat} (hown : own.Nodup)
    (hm : m ∉ inherited) (honce : g.OverridesOnce m inherited)
    (hi : (g.placed own inherited)[i]? = some m) (hj : (g.placed own inherited)[j]? = some m) :
    i = j := by
  rcases placed_declared hm hi with ⟨a, ha, hovera⟩ | ⟨hlei, hfree, hi⟩
  · rcases placed_declared hm hj with ⟨b, hb, hoverb⟩ | ⟨-, hfree, -⟩
    · exact honce i j a b ha hb hovera hoverb
    · simp [hfree a (List.mem_of_getElem? ha)] at hovera
  · rcases placed_declared hm hj with ⟨b, hb, hoverb⟩ | ⟨hlej, -, hj⟩
    · simp [hfree b (List.mem_of_getElem? hb)] at hoverb
    · have hnodup := hown.filter fun x => !inherited.any (g.overrides x)
      have hlt := (List.getElem?_eq_some_iff.mp hi).1
      have hsame := (List.getElem?_inj hlt hnodup).mp (hi.trans hj.symm)
      omega

theorem mem_placed_of_declared {own : List MethodRef} (hx : x ∈ own)
    (hunique : ∀ y ∈ own, g.key? y = g.key? x → y = x) (hg : g.Hierarchical) :
    x ∈ g.placed own inherited := by
  by_cases hover : ∃ o ∈ inherited, g.overrides x o = true
  · obtain ⟨o, ho, hover⟩ := hover
    refine List.mem_append_left _ (List.mem_map.mpr ⟨o, ho, ?_⟩)
    rcases overrider_cases (g := g) own o with ⟨hmem, hover'⟩ | ⟨hfree, -⟩
    · exact hunique _ hmem ((hg.key_of_overrides hover').trans (hg.key_of_overrides hover).symm)
    · simp [hfree x hx] at hover
  · refine List.mem_append_right _ (List.mem_filter.mpr ⟨hx, ?_⟩)
    simpa using hover

theorem placed_of_not_declared {own : List MethodRef} {i : Nat} (hm : m ∉ own)
    (h : (g.placed own inherited)[i]? = some m) : inherited[i]? = some m := by
  rcases placed_slot h with ⟨o, ho, rfl⟩ | ⟨-, h⟩
  · rcases overrider_cases (g := g) own o with ⟨hmem, -⟩ | ⟨-, hsame⟩
    · exact absurd hmem hm
    · exact hsame.symm ▸ ho
  · exact absurd (List.mem_of_mem_filter (List.mem_of_getElem? h)) hm

inductive Inherits (g : ClassGraph) (info : ClassInfo) (m : MethodRef) : MethodRef → Prop where
  | overridden {x : MethodRef} (declared : x ∈ info.virtualMethods) (takes : g.overrides x m = true) :
      Inherits g info m x
  | kept (free : ∀ x ∈ info.virtualMethods, g.overrides x m = false) : Inherits g info m m
  | filled {x : MethodRef} (free : ∀ x ∈ info.virtualMethods, g.overrides x m = false)
      (kind : g.isInterface m.owner = true) (only : g.OnlyDefault info.id m x) :
      Inherits g info m x

inductive Appends (g : ClassGraph) (info : ClassInfo) (inherited : List MethodRef) (m : MethodRef) :
    Prop where
  | declared (mem : m ∈ info.virtualMethods) (free : ∀ o ∈ inherited, g.overrides m o = false)
  | picked (picked : g.Picked info.id m)
      (fresh : ∀ o ∈ g.placed info.virtualMethods inherited, g.key? o ≠ g.key? m)

theorem WellFormed.isInterface_of_declared (hg : g.WellFormed) (hinfo : g.info? id = some info)
    (hclass : info.isInterface = false) (hx : x ∈ info.virtualMethods) :
    g.isInterface x.owner = false := by
  rw [((hg.mem_virtualMethods_iff hinfo).mp hx).1, isInterface_eq hinfo, hclass]

theorem Built.inherits (hb : g.Built info inherited t) (hg : g.WellFormed)
    (hinfo : g.info? id = some info) (hclass : info.isInterface = false) {i : Nat}
    (h : inherited[i]? = some m) :
    ∃ m', t[i]? = some m' ∧ g.key? m' = g.key? m ∧ g.Inherits info m m' := by
  have hplaced : (g.placed info.virtualMethods inherited)[i]? =
      some (g.overrider info.virtualMethods m) :=
    placed_inherited h
  rcases overrider_cases (g := g) info.virtualMethods m with ⟨hmem, hover⟩ | ⟨hfree, hsame⟩
  · have hkind := hg.isInterface_of_declared hinfo hclass hmem
    exact ⟨_, hb.fills.ofClass hplaced hkind, hg.key_of_overrides hover, .overridden hmem hover⟩
  · rw [hsame] at hplaced
    cases hkind : g.isInterface m.owner with
    | false => exact ⟨m, hb.fills.ofClass hplaced hkind, rfl, .kept hfree⟩
    | true =>
        obtain ⟨m', hm', rfl | honly⟩ := hb.fills.ofInterface hplaced hkind
        · exact ⟨m', hm', rfl, .kept hfree⟩
        · exact ⟨m', hm', honly.key hg, .filled hfree hkind honly⟩

theorem Built.appends (hb : g.Built info inherited t) {i : Nat} (hi : inherited.length ≤ i)
    (h : t[i]? = some m) (hg : g.WellFormed) (hinfo : g.info? id = some info)
    (hclass : info.isInterface = false) : g.Appends info inherited m := by
  cases hplaced : (g.placed info.virtualMethods inherited)[i]? with
  | some o =>
      have hmem := hplaced
      rw [placed, List.getElem?_append_right (by simpa using hi)] at hmem
      obtain ⟨hdeclared, hfree⟩ := List.mem_filter.mp (List.mem_of_getElem? hmem)
      have hsame := hb.fills.ofClass hplaced (hg.isInterface_of_declared hinfo hclass hdeclared)
      obtain rfl := Option.some.inj (h.symm.trans hsame)
      exact .declared hdeclared (by simpa using hfree)
  | none =>
      obtain ⟨hpicked, hfresh⟩ := hb.fills.appended (List.getElem?_eq_none_iff.mp hplaced) h
      exact .picked hpicked hfresh

theorem Built.keeps (hb : g.Built info inherited t) (hg : g.WellFormed)
    (hinfo : g.info? id = some info) (hclass : info.isInterface = false) {i : Nat}
    (h : inherited[i]? = some m) (hkind : g.isInterface m.owner = false)
    (hfree : ∀ x ∈ info.virtualMethods, g.key? x ≠ g.key? m) : t[i]? = some m := by
  obtain ⟨m', hm', -, hinherits⟩ := hb.inherits hg hinfo hclass h
  cases hinherits with
  | overridden hmem hover => exact absurd (hg.key_of_overrides hover) (hfree m' hmem)
  | kept _ => exact hm'
  | filled _ hinterface _ =>
      rw [hkind] at hinterface
      cases hinterface

end Linkage.ClassGraph
