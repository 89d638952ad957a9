import Linkage.Proofs.InterfaceDispatch
import Linkage.Proofs.SlotHistory

namespace Linkage.ClassGraph

open ClassRecord

variable {g : ClassGraph} {id sup : ClassId} {info : ClassInfo} {inherited t : List MethodRef}
  {m p : MethodRef} {mi : MethodInfo} {i : Nat} {name descriptor : String}
  {allowed : LinkOptions → Prop}

def nearestDefaults? (g : ClassGraph) (id : ClassId) (name descriptor : String) :
    Option (List MethodRef) :=
  ((g.lineage id).map (g.concreteDefaults · name descriptor)).find? (· ≠ [])

theorem nearestDefaults_self (h : g.concreteDefaults id name descriptor = [m]) :
    g.nearestDefaults? id name descriptor = some [m] := by
  simp [nearestDefaults?, lineage, h]

theorem Hierarchical.nearestDefaults_eq (hg : g.Hierarchical) (hsup : g.superClass? id = some sup)
    (h : g.concreteDefaults id name descriptor = []) :
    g.nearestDefaults? id name descriptor = g.nearestDefaults? sup name descriptor := by
  rw [nearestDefaults?, hg.lineage_eq hsup, List.map_cons, List.find?_cons_of_neg (by simp [h]),
    nearestDefaults?]

theorem WellFormed.abstract_of_picked (hg : g.WellFormed) (h : g.Picked id m)
    (hkey : g.key? m = some (name, descriptor))
    (hnil : g.concreteDefaults id name descriptor = []) :
    g.methodHas m (·.isAbstract) = true := by
  obtain ⟨q, -, hcandidate, hone | ⟨-, habstract⟩⟩ := h
  · have hkeyq := hkey.symm.trans (hg.of_candidate hcandidate).2
    rw [Option.some.injEq, Prod.mk.injEq] at hkeyq
    rw [← hkeyq.1, ← hkeyq.2, hnil] at hone
    cases hone
  · exact habstract

theorem Sound.unclaimed_placed (hs : g.Sound id (g.superclasses id) inherited)
    (hg : g.WellFormed) (hinfo : g.info? id = some info)
    (hnone : g.nearestVirtual? id name descriptor = none) :
    ∀ o ∈ g.placed info.virtualMethods inherited, g.key? o = some (name, descriptor) →
      g.isInterface o.owner = true := by
  intro o ho hkey
  rw [nearestVirtual?, findSome?_lineage, Option.or_eq_none_iff] at hnone
  have hdeclared : o ∉ info.virtualMethods :=
    fun hmem => hg.declares_no_key hinfo hnone.1 o hmem hkey
  obtain ⟨j, hj⟩ := List.mem_iff_getElem?.mp ho
  have hold := List.mem_of_getElem? (placed_of_not_declared hdeclared hj)
  exact hs.isInterface_of_unclaimed hg hnone.2 hold hkey

theorem Built.default_slot (hb : g.Built info inherited t) (hg : g.WellFormed)
    (hinfo : g.info? id = some info) (hclass : info.isInterface = false)
    (hs : g.Sound id (g.superclasses id) inherited)
    (hnone : g.nearestVirtual? id name descriptor = none) (hm : t[i]? = some m)
    (hkey : g.key? m = some (name, descriptor)) :
    g.concreteDefaults id name descriptor = [m] ∨
      g.concreteDefaults id name descriptor = [] ∧
        (inherited[i]? = some m ∨ g.methodHas m (·.isAbstract) = true) := by
  obtain rfl : info.id = id := hg.self hinfo
  have hst := hb.sound hg hinfo hclass hs
  have hmem := List.mem_of_getElem? hm
  have hkind := hst.isInterface_of_unclaimed hg hnone hmem hkey
  obtain ⟨-, -, p, hp, hkeyp⟩ := hst.ofInterface hmem hkind
  rw [hkey, (hg.of_interfaceMethod hp).2.1, Option.some.injEq, Prod.mk.injEq] at hkeyp
  obtain ⟨rfl, rfl⟩ := hkeyp
  have hfree := hs.unclaimed_placed hg hinfo hnone
  rw [← (hg.of_interfaceMethod hp).2.1] at hfree
  -- The method `p` of the same key decides what the slot holds.
  rcases hb.settle p hp hfree with hnil | ⟨m', hm', hone⟩
  · refine .inr ⟨hnil, ?_⟩
    have hpicked : g.Picked info.id m → g.methodHas m (·.isAbstract) = true :=
      fun h => hg.abstract_of_picked h hkey hnil
    have hdeclared : m ∉ info.virtualMethods := fun h => by
      simp [hg.isInterface_of_declared hinfo hclass h] at hkind
    rcases hb.slot hg hinfo hclass hm with ⟨o, ho, -, hinherits⟩ | ⟨-, happends⟩
    · cases hinherits with
      | overridden h _ => exact absurd h hdeclared
      | kept _ => exact .inl ho
      | filled _ _ honly => exact .inr (hpicked honly.picked)
    · cases happends with
      | declared h _ => exact absurd h hdeclared
      | picked h _ => exact .inr (hpicked h)
  · obtain ⟨hkind', hkey'⟩ := hg.of_candidate (mem_candidates_of_concreteDefaults hone)
    obtain ⟨j, hj⟩ := List.mem_iff_getElem?.mp hm'
    obtain rfl := hst.single hm hj hkind hkind' (hkey.trans hkey'.symm)
    obtain rfl := Option.some.inj (hm.symm.trans hj)
    exact .inl hone

theorem Coherent.default_slot (hg : g.Coherent allowed) (hinfo : g.info? id = some info)
    (hclass : info.isInterface = false)
    (hnone : g.nearestVirtual? id name descriptor = none) (hm : info.vtable[i]? = some m)
    (hkey : g.key? m = some (name, descriptor)) :
    g.nearestDefaults? id name descriptor = some [m] ∨ g.methodHas m (·.isAbstract) = true := by
  induction id using hg.descend generalizing info with
  | root id hroot =>
      rcases (hg.built hinfo hclass).default_slot hg.toWellFormed hinfo hclass
        (sound_of_root hinfo hroot) hnone hm hkey with hone | ⟨-, hinherited | habstract⟩
      · exact .inl (nearestDefaults_self hone)
      · rw [inheritedVtable_of_root ((superClass?_eq hinfo).symm.trans hroot)] at hinherited
        cases hinherited
      · exact .inr habstract
  | step id sup hsup ih =>
      have hs := hg.sound_of_parent hinfo hsup fun h => hg.sound h
      rcases (hg.built hinfo hclass).default_slot hg.toWellFormed hinfo hclass hs hnone hm hkey
        with hone | ⟨hnil, hinherited | habstract⟩
      · exact .inl (nearestDefaults_self hone)
      · obtain ⟨parent, hparent, hkind, heq⟩ := hg.parent hinfo hsup
        rw [hg.nearestVirtual_eq hsup, Option.or_eq_none_iff] at hnone
        rw [hg.nearestDefaults_eq hsup hnil]
        exact ih hparent hkind hnone.2 (heq ▸ hinherited)
      · exact .inr habstract

theorem concreteDefaults_of_nearest (h : g.nearestDefaults? id name descriptor = some [m]) :
    g.concreteDefaults id name descriptor = [m] ∨ g.concreteDefaults id name descriptor = [] := by
  by_cases hnil : g.concreteDefaults id name descriptor = []
  · exact .inr hnil
  · rw [nearestDefaults?, lineage, List.map_cons, List.find?_cons_of_pos (by simpa using hnil),
      Option.some.injEq] at h
    exact .inl h

theorem concrete_classes_hold_their_defaults (h : Reachable allowed g)
    (hlinked : g.status id = .linked info) (hclass : info.isInterface = false)
    (hconcrete : info.isAbstract = false) (hp : g.Callable id p mi)
    (hnone : g.nearestVirtual? id mi.name mi.descriptor = none) :
    ∃ slot m, info.vtable[slot]? = some m ∧ g.key? m = g.key? p ∧
      (∀ (n : Nat) (o : MethodRef), info.vtable[n]? = some o → g.key? o = g.key? p → n = slot) ∧
      g.nearestDefaults? id mi.name mi.descriptor = some [m] ∧
      (g.concreteDefaults id mi.name mi.descriptor = [m] ∨
        g.concreteDefaults id mi.name mi.descriptor = []) := by
  have hg := h.coherent
  have hinfo := known_of_linked hlinked
  have hs := hg.sound hinfo hclass
  have hmem : (p, mi) ∈ g.interfaceMethods id :=
    mem_interfaceMethods_iff.mpr ⟨p.owner, hp.owner, hp.slotted hg.toWellFormed⟩
  have hkeyp : g.key? p = some (mi.name, mi.descriptor) := key?_eq hp.method
  have hkind : ∀ {o}, o ∈ info.vtable → g.key? o = g.key? p → g.isInterface o.owner = true :=
    fun ho hkey => hs.isInterface_of_unclaimed hg.toWellFormed hnone ho (hkey.trans hkeyp)
  obtain ⟨m, hm, hkey⟩ := (hg.built hinfo hclass).cover (p, mi) ((hg.self hinfo).symm ▸ hmem)
  obtain ⟨slot, hslot⟩ := List.mem_iff_getElem?.mp hm
  have hnearest : g.nearestDefaults? id mi.name mi.descriptor = some [m] := by
    rcases hg.default_slot hinfo hclass hnone hslot (hkey.trans hkeyp) with hnear | habstract
    · exact hnear
    · simp [(hg.built hinfo hclass).concrete hconcrete m hm] at habstract
  refine ⟨slot, m, hslot, hkey, fun n o hn hkey' => ?_, hnearest, concreteDefaults_of_nearest hnearest⟩
  exact hs.single hn hslot (hkind (List.mem_of_getElem? hn) hkey') (hkind hm hkey)
    (hkey'.trans hkey.symm)

def refilledRun : ClassGraph :=
  program [
    { name := "Runner", access := .publicInterface,
      methods := [minimalRoot.method Access.publicBit "run" "()V"] },
    { name := "Sprinter", access := .publicInterface, interfaces := ["Runner"],
      methods := [minimalRoot.method Access.publicBit "run" "()V"] },
    { name := "Base", interfaces := ["Runner"] },
    { name := "Derived", superName := some "Base", interfaces := ["Sprinter"] }] ⟨4⟩

theorem refilledRun_holds_default : ∃ info slot, refilledRun.status ⟨4⟩ = .linked info ∧
    refilledRun.slotOf? ⟨3⟩ slot = some ⟨⟨1⟩, 0⟩ ∧ info.vtable[slot]? = some ⟨⟨2⟩, 0⟩ := by
  have hreach : Reachable (fun _ => True) refilledRun := reachable_program _ _
  obtain ⟨hlinked, hkind, hconcrete, hmem, hmethod, hnone, hdefault, habove, hsix, hkey⟩ :
      refilledRun.isLinked ⟨4⟩ = true ∧ refilledRun.isInterface ⟨4⟩ = false ∧
      (refilledRun.info? ⟨4⟩).map (·.isAbstract) = some false ∧
      ⟨1⟩ ∈ refilledRun.superinterfaces ⟨4⟩ ∧
      refilledRun.method? ⟨⟨1⟩, 0⟩ =
        some ⟨minimalRoot.method Access.publicBit "run" "()V", ⟨[], .void⟩, false⟩ ∧
      refilledRun.nearestVirtual? ⟨4⟩ "run" "()V" = none ∧
      refilledRun.nearestDefaults? ⟨4⟩ "run" "()V" = some [⟨⟨2⟩, 0⟩] ∧
      refilledRun.slotOf? ⟨3⟩ 6 = some ⟨⟨1⟩, 0⟩ ∧ refilledRun.slotOf? ⟨4⟩ 6 = some ⟨⟨2⟩, 0⟩ ∧
      refilledRun.key? ⟨⟨2⟩, 0⟩ = refilledRun.key? ⟨⟨1⟩, 0⟩ := by
    decide +kernel
  obtain ⟨info, hinfo, hclass⟩ := linkedClass_of hlinked hkind
  rw [known_of_linked hinfo, Option.map_some, Option.some.injEq] at hconcrete
  rw [slotOf?_eq (known_of_linked hinfo)] at hsix
  have hcall : refilledRun.Callable ⟨4⟩ ⟨⟨1⟩, 0⟩
      ⟨minimalRoot.method Access.publicBit "run" "()V", ⟨[], .void⟩, false⟩ :=
    ⟨hmem, hmethod, by decide, by decide, by decide⟩
  obtain ⟨slot, m, hslot, -, honly, hnearest, -⟩ :=
    concrete_classes_hold_their_defaults hreach hinfo hclass hconcrete hcall hnone
  obtain rfl := List.singleton_inj.mp (Option.some.inj (hnearest.symm.trans hdefault))
  obtain rfl := honly 6 ⟨⟨2⟩, 0⟩ hsix hkey
  exact ⟨info, 6, hinfo, habove, hslot⟩

def reabstractedRun : ClassGraph :=
  program [
    { name := "Runner", access := .publicInterface,
      methods := [minimalRoot.method Access.publicBit "run" "()V"] },
    { name := "Sprinter", access := .publicInterface, interfaces := ["Runner"],
      methods := [minimalRoot.method (Access.publicBit ||| Access.abstractBit) "run" "()V"] },
    { name := "Base", interfaces := ["Runner"] },
    { name := "Derived", superName := some "Base", interfaces := ["Sprinter"] }] ⟨4⟩

theorem reabstractedRun_keeps_default :
    ∃ info, Reachable (fun _ => True) reabstractedRun ∧
      reabstractedRun.status ⟨4⟩ = .linked info ∧ info.isInterface = false ∧
      info.isAbstract = false ∧
      reabstractedRun.Callable ⟨4⟩ ⟨⟨1⟩, 0⟩
        ⟨minimalRoot.method Access.publicBit "run" "()V", ⟨[], .void⟩, false⟩ ∧
      reabstractedRun.nearestVirtual? ⟨4⟩ "run" "()V" = none ∧
      reabstractedRun.maximallySpecific ⟨4⟩ "run" "()V" = [⟨⟨2⟩, 0⟩] ∧
      reabstractedRun.concreteDefaults ⟨4⟩ "run" "()V" = [] ∧
      info.vtable[6]? = some ⟨⟨1⟩, 0⟩ := by
  obtain ⟨hlinked, hkind, hconcrete, hmem, hmethod, hnone, hspecific, hdefaults, hslot⟩ :
      reabstractedRun.isLinked ⟨4⟩ = true ∧ reabstractedRun.isInterface ⟨4⟩ = false ∧
      (reabstractedRun.info? ⟨4⟩).map (·.isAbstract) = some false ∧
      ⟨1⟩ ∈ reabstractedRun.superinterfaces ⟨4⟩ ∧
      reabstractedRun.method? ⟨⟨1⟩, 0⟩ =
        some ⟨minimalRoot.method Access.publicBit "run" "()V", ⟨[], .void⟩, false⟩ ∧
      reabstractedRun.nearestVirtual? ⟨4⟩ "run" "()V" = none ∧
      reabstractedRun.maximallySpecific ⟨4⟩ "run" "()V" = [⟨⟨2⟩, 0⟩] ∧
      reabstractedRun.concreteDefaults ⟨4⟩ "run" "()V" = [] ∧
      reabstractedRun.slotOf? ⟨4⟩ 6 = some ⟨⟨1⟩, 0⟩ := by
    decide +kernel
  obtain ⟨info, hinfo, hclass⟩ := linkedClass_of hlinked hkind
  rw [known_of_linked hinfo, Option.map_some, Option.some.injEq] at hconcrete
  rw [slotOf?_eq (known_of_linked hinfo)] at hslot
  exact ⟨info, reachable_program _ _, hinfo, hclass, hconcrete,
    ⟨hmem, hmethod, by decide, by decide, by decide⟩, hnone, hspecific, hdefaults, hslot⟩

end Linkage.ClassGraph
