import Linkage.Proofs.Atomicity
import Linkage.Proofs.SlotHistory

namespace Linkage.ClassGraph

variable {g : ClassGraph} {id sup ancestor : ClassId} {info above : ClassInfo}
  {t inherited : List MethodRef} {m o x : MethodRef} {mi : MethodInfo} {i : Nat}
  {allowed : LinkOptions → Prop}

def Succeeds (g : ClassGraph) (o m : MethodRef) : Prop :=
  o = m ∨ g.overrides o m = true

theorem checkInherited_cases (g : ClassGraph) (info : ClassInfo) (t inherited : List MethodRef) :
    g.checkInherited info t inherited = .ok () ∨
      ∃ (i : Nat) (x m : MethodRef), t[i]? = some x ∧ inherited[i]? = some m ∧ ¬g.Succeeds x m ∧
        g.checkInherited info t inherited = .error ⟨info.name,
          .incompatibleSlot i (g.methodSignature x) (g.methodSignature m)⟩ := by
  unfold checkInherited
  cases hfound : g.incompatibleSlot? t inherited with
  | none => exact .inl rfl
  | some slot =>
      obtain ⟨⟨x, m⟩, i⟩ := slot
      have hmem := List.mem_zipIdx_iff_getElem?.mp (List.mem_of_find?_eq_some hfound)
      obtain ⟨hx, hm⟩ := List.getElem?_zip_eq_some.mp hmem
      have hbad := List.find?_some hfound
      exact .inr ⟨i, x, m, hx, hm, by simpa [Succeeds] using hbad, rfl⟩

theorem checkInherited_ok (h : g.checkInherited info t inherited = .ok ()) (hx : t[i]? = some x)
    (hm : inherited[i]? = some m) : g.Succeeds x m := by
  unfold checkInherited at h
  split at h
  next => cases h
  next hnone =>
    have hmem : ((x, m), i) ∈ (t.zip inherited).zipIdx :=
      List.mem_zipIdx_iff_getElem?.mpr (List.getElem?_zip_eq_some.mpr ⟨hx, hm⟩)
    have hgood := List.find?_eq_none.mp hnone _ hmem
    simp only [Bool.and_eq_true, decide_eq_true_eq, not_and, Bool.not_eq_true',
      Bool.not_eq_false] at hgood
    exact Classical.or_iff_not_imp_left.mpr hgood

theorem Coherent.verified_super (hg : g.Coherent (·.verifyVtables = true))
    (hinfo : g.info? id = some info) (hclass : info.isInterface = false)
    (hsup : g.superClass? id = some sup) (ho : g.slotOf? sup i = some o)
    (hx : info.vtable[i]? = some x) : g.Succeeds x o := by
  obtain ⟨options, slot, hverify, -, hfinished⟩ := hg.finished hinfo
  obtain ⟨parent, hparent, -, hinherited⟩ := hg.parent hinfo hsup
  obtain ⟨mid, -, -, -, hchecks⟩ := buildVtable_ok (hfinished.vtable hclass)
  rw [slotOf?_eq hparent, ← hinherited] at ho
  exact checkInherited_ok (hchecks hverify).2 hx ho

theorem Hierarchical.overrides_of_open (hg : g.Hierarchical) (h1 : g.overrides x o = true)
    (h2 : g.overrides o m = true) (hm : g.method? m = some mi)
    (hopen : mi.isPublic = true ∨ mi.isProtected = true) : g.overrides x m = true := by
  obtain ⟨xi, oi, hxi, hoi, hxs, -, hcase⟩ := hg.overrides_iff.mp h1
  rcases hcase with rfl | ⟨hkey, hxp, hsub, -⟩
  · exact h2
  · obtain ⟨_, mi', -, hmi', -, hms, -⟩ := hg.overrides_iff.mp h2
    obtain rfl := Option.some.inj (hm.symm.trans hmi')
    refine hg.overrides_iff.mpr ⟨xi, mi, hxi, hm, hxs, hms, .inr ⟨?_, hxp, ?_, ?_⟩⟩
    · exact hkey.trans (hg.key_of_overrides h2)
    · exact hg.isSubtype_trans hsub (hg.isSubtype_of_overrides h2)
    · rcases hopen with hpublic | hprotected
      · exact .inl hpublic
      · exact .inr (.inl hprotected)

theorem Hierarchical.succeeds_of_open (hg : g.Hierarchical) (h1 : g.Succeeds x o)
    (h2 : g.Succeeds o m) (hm : g.method? m = some mi)
    (hopen : mi.isPublic = true ∨ mi.isProtected = true) : g.Succeeds x m := by
  rcases h1 with rfl | h1
  · exact h2
  · rcases h2 with rfl | h2
    · exact .inr h1
    · exact .inr (hg.overrides_of_open h1 h2 hm hopen)

theorem Coherent.open_slot (hg : g.Coherent (·.verifyVtables = true))
    (hinfo : g.info? id = some info) (hclass : info.isInterface = false)
    (hmem : ancestor ∈ g.lineage id) (hslot : g.slotOf? ancestor i = some m)
    (hm : g.method? m = some mi) (hopen : mi.isPublic = true ∨ mi.isProtected = true)
    (ho : info.vtable[i]? = some o) : g.Succeeds o m := by
  induction id using hg.descend generalizing info o with
  | root id hroot =>
      rw [lineage_of_root hroot, List.mem_singleton] at hmem
      subst hmem
      rw [slotOf?_eq hinfo] at hslot
      exact .inl (Option.some.inj (ho.symm.trans hslot))
  | step id sup hsup ih =>
      rw [hg.lineage_eq hsup] at hmem
      rcases List.mem_cons.mp hmem with rfl | hmem
      · rw [slotOf?_eq hinfo] at hslot
        exact .inl (Option.some.inj (ho.symm.trans hslot))
      · obtain ⟨parent, hparent, hkind, -⟩ := hg.parent hinfo hsup
        obtain ⟨top, htop, habove⟩ := Option.bind_eq_some_iff.mp hslot
        obtain ⟨x, hx, -⟩ := hg.slot_below hparent hkind htop hmem habove
        have hstep := hg.verified_super hinfo hclass hsup ((slotOf?_eq hparent).trans hx) ho
        exact hg.succeeds_of_open hstep (ih hparent hkind hmem hx) hm hopen

theorem Coherent.class_slot (hg : g.Coherent allowed) (hinfo : g.info? id = some info)
    (hclass : info.isInterface = false) (hmem : ancestor ∈ g.lineage id)
    (hslot : g.slotOf? ancestor i = some m) (hkind : g.isInterface m.owner = false)
    (ho : info.vtable[i]? = some o) : g.Succeeds o m := by
  obtain ⟨o', ho', hdescends, -⟩ := hg.slot_history hinfo hclass hmem hslot hkind
  obtain rfl := Option.some.inj ((slotOf?_eq hinfo).symm.trans ho' |>.symm.trans ho)
  rcases hdescends with rfl | ⟨hover, -⟩
  · exact .inl rfl
  · exact .inr hover

theorem method_of_slot (h : g.key? o = g.key? m) (hm : g.method? m = some mi) :
    ∃ oi, g.method? o = some oi ∧ oi.name = mi.name ∧ oi.descriptor = mi.descriptor := by
  obtain ⟨oi, hoi, hkey⟩ := method_of_key (h.trans (key?_eq hm))
  obtain ⟨hname, hdescriptor⟩ := Prod.mk.inj hkey
  exact ⟨oi, hoi, hname, hdescriptor⟩

theorem verified_slots_are_stable (h : Reachable (·.verifyVtables = true) g)
    (hlinked : g.status id = .linked info) (hclass : info.isInterface = false)
    (hmem : ancestor ∈ g.superclasses id) :
    ∃ above, g.status ancestor = .linked above ∧ above.vtable.length ≤ info.vtable.length ∧
      ∀ (i : Nat) (m : MethodRef), above.vtable[i]? = some m →
        ∃ o mi oi, info.vtable[i]? = some o ∧ g.method? m = some mi ∧ g.method? o = some oi ∧
          oi.name = mi.name ∧ oi.descriptor = mi.descriptor ∧
          (g.superClass? id = some ancestor ∨ g.isInterface m.owner = false ∨
              mi.isPublic = true ∨ mi.isProtected = true →
            o = m ∨ g.overrides o m = true) := by
  have hg := h.coherent
  have hinfo := known_of_linked hlinked
  have hlineage : ancestor ∈ g.lineage id := List.mem_cons_of_mem _ hmem
  obtain ⟨above, habove⟩ := hg.known_of_mem_lineage (known_of_info hinfo) hlineage
  have hkind : above.isInterface = false := (isInterface_eq habove).symm.trans
    (hg.isInterface_of_mem_lineage ((isInterface_eq hinfo).trans hclass) hlineage)
  refine ⟨above, h.settled.info?_iff.mp habove, ?_, fun i m hm => ?_⟩
  · by_contra hlonger
    have hlast := List.getElem?_eq_getElem (Nat.lt_of_not_le hlonger)
    obtain ⟨o, ho, -⟩ := hg.slot_below hinfo hclass habove hlineage hlast
    simp at ho
  · obtain ⟨o, ho, hkey⟩ := hg.slot_below hinfo hclass habove hlineage hm
    obtain ⟨mi, hmi, -⟩ := methodHas_iff.mp
      ((hg.sound habove hkind).inheritable (List.mem_of_getElem? hm))
    obtain ⟨oi, hoi, hname, hdescriptor⟩ := method_of_slot hkey hmi
    have hslot : g.slotOf? ancestor i = some m := (slotOf?_eq habove).trans hm
    refine ⟨o, mi, oi, ho, hmi, hoi, hname, hdescriptor, ?_⟩
    rintro (hsup | hdeclared | hopen)
    · exact hg.verified_super hinfo hclass hsup hslot ho
    · exact hg.class_slot hinfo hclass hlineage hslot hdeclared ho
    · exact hg.open_slot hinfo hclass hlineage hslot hmi hopen ho

theorem widenedRun_slot : ∃ (info above : ClassInfo) (mi oi : MethodInfo),
    widenedRun.status ⟨3⟩ = .linked info ∧
    widenedRun.status ⟨1⟩ = .linked above ∧ above.vtable.length ≤ info.vtable.length ∧
    above.vtable[6]? = some ⟨⟨1⟩, 0⟩ ∧ info.vtable[6]? = some ⟨⟨3⟩, 0⟩ ∧
    widenedRun.method? ⟨⟨1⟩, 0⟩ = some mi ∧ widenedRun.method? ⟨⟨3⟩, 0⟩ = some oi ∧
    oi.name = mi.name ∧ oi.descriptor = mi.descriptor ∧
    widenedRun.overrides ⟨⟨3⟩, 0⟩ ⟨⟨1⟩, 0⟩ = true := by
  have hreach : Reachable (·.verifyVtables = true) widenedRun := reachable_program_of (by rfl) _ _
  obtain ⟨hlinked, hkind, hmem, hbase, habove, hbelow⟩ :
      widenedRun.isLinked ⟨3⟩ = true ∧ widenedRun.isInterface ⟨3⟩ = false ∧
      ⟨1⟩ ∈ widenedRun.superclasses ⟨3⟩ ∧ widenedRun.isInterface ⟨1⟩ = false ∧
      widenedRun.slotOf? ⟨1⟩ 6 = some ⟨⟨1⟩, 0⟩ ∧ widenedRun.slotOf? ⟨3⟩ 6 = some ⟨⟨3⟩, 0⟩ := by
    decide +kernel
  obtain ⟨info, hinfo, hclass⟩ := linkedClass_of hlinked hkind
  obtain ⟨above, hstatus, hlength, hslots⟩ :=
    verified_slots_are_stable hreach hinfo hclass hmem
  rw [slotOf?_eq (known_of_linked hstatus)] at habove
  rw [slotOf?_eq (known_of_linked hinfo)] at hbelow
  obtain ⟨o, mi, oi, ho, hmi, hoi, hname, hdescriptor, hsucceeds⟩ := hslots 6 _ habove
  obtain rfl := Option.some.inj (hbelow.symm.trans ho)
  refine ⟨info, above, mi, oi, hinfo, hstatus, hlength, habove, hbelow, hmi, hoi, hname,
    hdescriptor, ?_⟩
  rcases hsucceeds (.inr (.inl hbase)) with hsame | hover
  · cases hsame
  · exact hover

end Linkage.ClassGraph
