import Linkage.Proofs.Dependencies
import Linkage.Proofs.TableSound

namespace Linkage

open Outcome

variable {record : ClassRecord} {methods : List MethodInfo}

namespace ClassGraph

variable {g g' : ClassGraph} {id : ClassId} {info : ClassInfo} {inherited t : List MethodRef}
  {m x o a b : MethodRef} {i j : Nat} {options : LinkOptions} {slot : Slot} {supers : Supertypes}
  {allowed : LinkOptions → Prop}

def PublicInterfaces (g : ClassGraph) : Prop :=
  ∀ d ∈ g.declared, d.1.access.isInterface = true → ∀ m ∈ d.1.methods,
    m.access.isPrivate = false → m.access.isStatic = false → m.access.isPublic = true

theorem PublicInterfaces.congr (h : g.PublicInterfaces) (hdeclared : g'.declared = g.declared) :
    g'.PublicInterfaces := by
  rwa [PublicInterfaces, hdeclared]

theorem resolveMethods_decls (h : resolveMethods record = .ok methods) :
    ∀ m ∈ methods, m.decl ∈ record.methods :=
  resolveMethods_collects (P := fun done => ∀ m ∈ done, m.decl ∈ record.methods) (by simp)
    (fun _ _ hdone hmem _ _ => List.forall_mem_append.mpr
      ⟨hdone, List.forall_mem_singleton.mpr hmem⟩) h

theorem draft_declares (h : g.draft options id slot supers = .ok info) :
    info.name = slot.record.name ∧ info.access = slot.record.access ∧
      ∀ m ∈ info.methods, m.decl ∈ slot.record.methods := by
  unfold draft at h
  obtain ⟨_, -, h⟩ := bind_ok_iff.mp h
  obtain ⟨_, -, h⟩ := bind_ok_iff.mp h
  obtain ⟨fields, -, h⟩ := bind_ok_iff.mp h
  obtain ⟨methods, hmethods, h⟩ := bind_ok_iff.mp h
  rw [← pure_ok_iff.mp h]
  exact ⟨rfl, rfl, resolveMethods_decls hmethods⟩

theorem declared_of_slot (h : g.slot? id = some slot) : (slot.record, slot.origin) ∈ g.declared := by
  have hget := declared_getElem? g id
  rw [h, Option.map_some] at hget
  exact List.mem_of_getElem? hget

theorem Coherent.name_of_info (hg : g.Coherent allowed) (hinfo : g.info? id = some info) :
    g.name id = info.name := by
  obtain ⟨options, slot, -, hslot, hfinished⟩ := hg.finished hinfo
  have hname := (draft_declares hfinished.drafted).1
  rw [ClassGraph.name, hslot]
  exact hname.symm

def Open (g : ClassGraph) (m : MethodRef) : Prop :=
  ∃ mi, g.method? m = some mi ∧ mi.isStatic = false ∧ mi.isPublic = true

theorem Coherent.open_of_interface (hg : g.Coherent allowed) (hpublic : g.PublicInterfaces)
    (hkind : g.isInterface m.owner = true) (hinherit : g.methodHas m (·.isInheritable) = true) :
    g.Open m := by
  obtain ⟨mi, hmi, hmi'⟩ := methodHas_iff.mp hinherit
  obtain ⟨info, hinfo⟩ := known_of_method hmi
  obtain ⟨options, slot, -, hslot, hfinished⟩ := hg.finished hinfo
  obtain ⟨-, haccess, hdecls⟩ := draft_declares hfinished.drafted
  rw [method?_eq hinfo] at hmi
  simp only [MethodInfo.isInheritable, Bool.and_eq_true, Bool.not_eq_true'] at hmi'
  rw [isInterface_eq hinfo] at hkind
  have hdecl : mi.decl ∈ slot.record.methods := hdecls mi (List.mem_of_getElem? hmi)
  have hinterface : slot.record.access.isInterface = true := by
    rw [← haccess]
    exact hkind
  refine ⟨mi, (method?_eq hinfo).trans hmi, hmi'.2, ?_⟩
  exact hpublic _ (declared_of_slot hslot) hinterface mi.decl hdecl hmi'.1 hmi'.2

theorem Hierarchical.overrides_of_public (hg : g.Hierarchical)
    (hx : g.methodHas x (·.isInheritable) = true) (hm : g.Open m) (hkey : g.key? x = g.key? m)
    (hsub : g.isSubtype x.owner m.owner = true) : g.overrides x m = true := by
  obtain ⟨xi, hxi, hinherit⟩ := methodHas_iff.mp hx
  obtain ⟨mi, hmi, hstatic, hpublic⟩ := hm
  simp only [MethodInfo.isInheritable, Bool.and_eq_true, Bool.not_eq_true'] at hinherit
  exact hg.overrides_iff.mpr ⟨xi, mi, hxi, hmi, hinherit.2, hstatic,
    .inr ⟨hkey, hinherit.1, hsub, .inl hpublic⟩⟩

structure Separate (g : ClassGraph) (t : List MethodRef) : Prop where
  apart : ∀ {i j : Nat} {a b : MethodRef}, t[i]? = some a → t[j]? = some b →
    g.overrides a b = true → i = j
  alone : ∀ {i j : Nat} {a b : MethodRef}, t[i]? = some a → t[j]? = some b →
    g.isInterface a.owner = true → g.key? a = g.key? b → i = j

theorem separate_nil (g : ClassGraph) : g.Separate [] where
  apart := fun h => by cases h
  alone := fun h => by cases h

theorem Built.class_slot (hb : g.Built info inherited t) (hg : g.WellFormed) (hm : t[i]? = some m)
    (hkind : g.isInterface m.owner = false) :
    (g.placed info.virtualMethods inherited)[i]? = some m := by
  rcases hb.fills.back hg hm with hpicked | hplaced
  · simp [(hg.of_picked hpicked).2.1] at hkind
  · exact hplaced

theorem WellFormed.not_mem_inherited (hg : g.WellFormed) (hinfo : g.info? id = some info)
    (hclass : info.isInterface = false) (hs : g.Sound id (g.superclasses id) inherited)
    (hx : x ∈ info.virtualMethods) : x ∉ inherited := by
  intro hmem
  have howner := (hs.ofClass hmem (hg.isInterface_of_declared hinfo hclass hx)).1
  rw [hg.owner_of_declared hinfo hx] at howner
  exact hg.not_mem_superclasses_self id howner

theorem WellFormed.overrides_interface_slot (hg : g.WellFormed) (hinfo : g.info? id = some info)
    (hclass : info.isInterface = false) (hs : g.Sound id (g.superclasses id) inherited)
    (hopen : ∀ o ∈ inherited, g.isInterface o.owner = true → g.Open o)
    (hx : x ∈ info.virtualMethods) (ho : o ∈ inherited) (hkind : g.isInterface o.owner = true)
    (hkey : g.key? x = g.key? o) : g.overrides x o = true := by
  obtain ⟨howner, hvirtual⟩ := (hg.mem_virtualMethods_iff hinfo).mp hx
  obtain ⟨xi, hxi, hxv⟩ := methodHas_iff.mp hvirtual
  have hsub : g.isSubtype id o.owner = true := by
    have hclass' := (isInterface_eq hinfo).trans hclass
    exact ((hg.mem_superinterfaces_iff_of_class hclass').mp (hs.ofInterface ho hkind).1).1
  exact hg.overrides_of_public (methodHas_iff.mpr ⟨xi, hxi, isInheritable_of_isVirtual hxv⟩)
    (hopen o ho hkind) hkey (howner ▸ hsub)

theorem Built.alone (hb : g.Built info inherited t) (hg : g.WellFormed)
    (hinfo : g.info? id = some info) (hclass : info.isInterface = false)
    (hs : g.Sound id (g.superclasses id) inherited)
    (hopen : ∀ o ∈ inherited, g.isInterface o.owner = true → g.Open o) (hsep : g.Separate inherited)
    (ha : t[i]? = some a) (hb' : t[j]? = some b) (hkind : g.isInterface a.owner = true)
    (hkey : g.key? a = g.key? b) : i = j := by
  cases hkind' : g.isInterface b.owner with
  | true => exact hb.sound_single hg hinfo hclass hs ha hb' hkind hkind' hkey
  | false =>
      have hplaced := hb.class_slot hg hb' hkind'
      rcases hb.interface_slot hg hinfo hclass ha hkind with ⟨o, ho, -, hkeyo, hkindo⟩ | ⟨-, hfresh⟩
      · rcases placed_slot hplaced with ⟨p, hp, rfl⟩ | ⟨-, hdeclared⟩
        · have hkeyp : g.key? (g.overrider info.virtualMethods p) = g.key? p := by
            rcases overrider_cases (g := g) info.virtualMethods p with ⟨-, hover⟩ | ⟨-, hsame⟩
            · exact hg.key_of_overrides hover
            · rw [hsame]
          exact hsep.alone ho hp hkindo (hkeyo.symm.trans (hkey.trans hkeyp))
        · obtain ⟨hmem, hfree⟩ := List.mem_filter.mp (List.mem_of_getElem? hdeclared)
          have hover := hg.overrides_interface_slot hinfo hclass hs hopen hmem
            (List.mem_of_getElem? ho) hkindo (hkey.symm.trans hkeyo)
          simp only [Bool.not_eq_true', List.any_eq_false] at hfree
          exact absurd hover (hfree o (List.mem_of_getElem? ho))
      · exact absurd hkey.symm (hfresh b (List.mem_of_getElem? hplaced))

theorem Built.class_apart (hb : g.Built info inherited t) (hg : g.WellFormed)
    (hinfo : g.info? id = some info) (hclass : info.isInterface = false)
    (hs : g.Sound id (g.superclasses id) inherited) (hsep : g.Separate inherited)
    (ha : t[i]? = some a) (hb' : t[j]? = some b) (hka : g.isInterface a.owner = false)
    (hkb : g.isInterface b.owner = false) (hover : g.overrides a b = true) : i = j := by
  have hsound := hb.sound hg hinfo hclass hs
  have hplaceda := hb.class_slot hg ha hka
  have hplacedb := hb.class_slot hg hb' hkb
  by_cases hbDeclared : b ∈ info.virtualMethods
  · -- A method of the lineage that overrides one of the class itself is that method.
    have hdown := hg.isSubtype_of_overrides hover
    have hup := hg.isSubtype_of_mem_lineage (hsound.ofClass (List.mem_of_getElem? ha) hka).1
    rw [hg.owner_of_declared hinfo hbDeclared] at hdown
    have howner := hg.isSubtype_antisymm hdown hup
    rw [← hg.owner_of_declared hinfo hbDeclared] at howner
    obtain rfl := hg.eq_of_overrides_of_owner hover howner
    exact hsound.once ha hb'
  · have hbInherited := placed_of_not_declared hbDeclared hplacedb
    by_cases haDeclared : a ∈ info.virtualMethods
    · have hnew := hg.not_mem_inherited hinfo hclass hs haDeclared
      rcases placed_declared hnew hplaceda with ⟨o, ho, hovero⟩ | ⟨-, hfree, -⟩
      · exact hb.once a haDeclared i j o b ho hbInherited hovero hover
      · rw [hfree b (List.mem_of_getElem? hbInherited)] at hover
        cases hover
    · exact hsep.apart (placed_of_not_declared haDeclared hplaceda) hbInherited hover

theorem Built.separate (hb : g.Built info inherited t) (hg : g.WellFormed)
    (hinfo : g.info? id = some info) (hclass : info.isInterface = false)
    (hs : g.Sound id (g.superclasses id) inherited)
    (hopen : ∀ o ∈ inherited, g.isInterface o.owner = true → g.Open o)
    (hsep : g.Separate inherited) : g.Separate t where
  apart := by
    intro i j a b ha hb' hover
    have hkey := hg.key_of_overrides hover
    cases hka : g.isInterface a.owner with
    | true => exact hb.alone hg hinfo hclass hs hopen hsep ha hb' hka hkey
    | false =>
        cases hkb : g.isInterface b.owner with
        | true => exact (hb.alone hg hinfo hclass hs hopen hsep hb' ha hkb hkey.symm).symm
        | false => exact hb.class_apart hg hinfo hclass hs hsep ha hb' hka hkb hover
  alone := hb.alone hg hinfo hclass hs hopen hsep

theorem Coherent.open_inherited (hg : g.Coherent allowed) (hpublic : g.PublicInterfaces)
    (hs : g.Sound id (g.superclasses id) inherited) :
    ∀ o ∈ inherited, g.isInterface o.owner = true → g.Open o :=
  fun _ ho hkind => hg.open_of_interface hpublic hkind (hs.ofInterface ho hkind).2.1

theorem Coherent.separate (hg : g.Coherent allowed) (hpublic : g.PublicInterfaces)
    (hinfo : g.info? id = some info) (hclass : info.isInterface = false) :
    g.Separate info.vtable := by
  induction id using hg.descend generalizing info with
  | root id hroot =>
      have hs := hg.sound_inherited hinfo
      refine (hg.built hinfo hclass).separate hg.toWellFormed hinfo hclass hs
        (hg.open_inherited hpublic hs) ?_
      rw [inheritedVtable_of_root ((superClass?_eq hinfo).symm.trans hroot)]
      exact separate_nil g
  | step id sup hsup ih =>
      obtain ⟨parent, hparent, hkind, hinherited⟩ := hg.parent hinfo hsup
      have hs := hg.sound_inherited hinfo
      refine (hg.built hinfo hclass).separate hg.toWellFormed hinfo hclass hs
        (hg.open_inherited hpublic hs) ?_
      rw [hinherited]
      exact ih hparent hkind

theorem Coherent.slots_apart (hg : g.Coherent allowed) (hpublic : g.PublicInterfaces)
    (hinfo : g.info? id = some info) (ha : info.vtable[i]? = some a) (hb : info.vtable[j]? = some b)
    (hne : i ≠ j) : g.overrides a b = false := by
  by_contra hover
  rw [Bool.not_eq_false] at hover
  have hclass := hg.class_of_slot hinfo (List.mem_of_getElem? ha)
  exact hne ((hg.separate hpublic hinfo hclass).apart ha hb hover)

end ClassGraph

end Linkage
