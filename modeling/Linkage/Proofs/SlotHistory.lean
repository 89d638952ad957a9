import Linkage.Proofs.TableSound

namespace Linkage.ClassGraph

open ClassRecord

variable {g : ClassGraph} {id sup ancestor d : ClassId} {info above : ClassInfo}
  {m o x y : MethodRef} {i : Nat} {allowed : LinkOptions → Prop}

def below (g : ClassGraph) (id ancestor : ClassId) : List ClassId :=
  (g.lineage id).takeWhile (· ≠ ancestor)

def slotOf? (g : ClassGraph) (id : ClassId) (i : Nat) : Option MethodRef :=
  (g.info? id).bind (·.vtable[i]?)

def overriderOf? (g : ClassGraph) (id : ClassId) (m : MethodRef) : Option MethodRef :=
  (g.info? id).bind fun info => info.virtualMethods.find? (g.overrides · m)

def takerOf? (g : ClassGraph) (i : Nat) (id : ClassId) : Option MethodRef :=
  ((g.superClass? id).bind (g.slotOf? · i)).bind (g.overriderOf? id)

theorem below_self (g : ClassGraph) (id : ClassId) : g.below id id = [] := by
  simp [below, lineage]

theorem Hierarchical.below_of_super (hg : g.Hierarchical) (hsup : g.superClass? id = some sup)
    (hne : id ≠ ancestor) : g.below id ancestor = id :: g.below sup ancestor := by
  rw [below, hg.lineage_eq hsup, List.takeWhile_cons_of_pos (by simpa using hne), below]

theorem Hierarchical.super_of_mem_lineage (hg : g.Hierarchical) (hmem : ancestor ∈ g.lineage id)
    (hne : id ≠ ancestor) : ∃ sup, g.superClass? id = some sup ∧ ancestor ∈ g.lineage sup := by
  cases hsup : g.superClass? id with
  | none =>
      rw [lineage_of_root hsup, List.mem_singleton] at hmem
      exact absurd hmem.symm hne
  | some sup =>
      rw [hg.lineage_eq hsup] at hmem
      rcases List.mem_cons.mp hmem with heq | hmem
      · exact absurd heq.symm hne
      · exact ⟨sup, rfl, hmem⟩

theorem Hierarchical.super_of_mem_below (hg : g.Hierarchical) (hmem : ancestor ∈ g.lineage id)
    (hd : d ∈ g.below id ancestor) :
    d ∈ g.lineage id ∧ ∃ sup, g.superClass? d = some sup ∧ ancestor ∈ g.lineage sup := by
  induction id using hg.descend with
  | root id hroot =>
      rw [lineage_of_root hroot, List.mem_singleton] at hmem
      rw [hmem, below_self] at hd
      cases hd
  | step id sup hsup ih =>
      by_cases heq : id = ancestor
      · rw [heq, below_self] at hd
        cases hd
      · obtain ⟨sup', hsup', hmem'⟩ := hg.super_of_mem_lineage hmem heq
        obtain rfl := Option.some.inj (hsup.symm.trans hsup')
        rw [hg.below_of_super hsup heq] at hd
        rcases List.mem_cons.mp hd with rfl | hd
        · exact ⟨mem_lineage_self g d, sup, hsup, hmem'⟩
        · obtain ⟨hlineage, hrest⟩ := ih hmem' hd
          rw [hg.lineage_eq hsup]
          exact ⟨List.mem_cons_of_mem _ hlineage, hrest⟩

theorem slotOf?_eq (hinfo : g.info? id = some info) : g.slotOf? id i = info.vtable[i]? := by
  rw [slotOf?, hinfo, Option.bind_some]

theorem WellFormed.of_overriderOf (hg : g.WellFormed) (h : g.overriderOf? id m = some x) :
    x.owner = id ∧ g.methodHas x (·.isVirtual) = true ∧ g.overrides x m = true := by
  obtain ⟨info, hinfo, hfind⟩ := Option.bind_eq_some_iff.mp h
  obtain ⟨howner, hvirtual⟩ :=
    (hg.mem_virtualMethods_iff hinfo).mp (List.mem_of_find?_eq_some hfind)
  have hover := List.find?_some hfind
  exact ⟨howner, hvirtual, hover⟩

theorem WellFormed.overriderOf_eq (hg : g.WellFormed)
    (hvirtual : g.methodHas x (·.isVirtual) = true) (hover : g.overrides x m = true) :
    g.overriderOf? x.owner m = some x := by
  obtain ⟨info, hinfo⟩ := known_of_methodHas hvirtual
  have hx := (hg.mem_virtualMethods_iff hinfo).mpr ⟨rfl, hvirtual⟩
  rw [overriderOf?, hinfo, Option.bind_some]
  cases hfind : info.virtualMethods.find? (g.overrides · m) with
  | none =>
      have hno := List.find?_eq_none.mp hfind x hx
      exact absurd hover hno
  | some y =>
      have hover' := List.find?_some hfind
      have hkey := (hg.key_of_overrides hover').trans (hg.key_of_overrides hover).symm
      rw [hg.declared_ext hinfo hx (List.mem_of_find?_eq_some hfind) hkey]

theorem Coherent.slot_of_super (hg : g.Coherent allowed) (hinfo : g.info? id = some info)
    (hclass : info.isInterface = false) (hsup : g.superClass? id = some sup)
    (ho : g.slotOf? sup i = some o) (hkind : g.isInterface o.owner = false) :
    g.slotOf? id i = some ((g.overriderOf? id o).getD o) := by
  obtain ⟨parent, hparent, -, hinherited⟩ := hg.parent hinfo hsup
  rw [slotOf?_eq hparent, ← hinherited] at ho
  rw [slotOf?_eq hinfo]
  have hplaced : (g.placed info.virtualMethods (g.inheritedVtable info))[i]? =
      some (g.overrider info.virtualMethods o) :=
    placed_inherited ho
  have hheld : g.overrider info.virtualMethods o = (g.overriderOf? id o).getD o := by
    rw [overrider, overriderOf?, hinfo, Option.bind_some]
  rw [hheld] at hplaced
  refine (hg.built hinfo hclass).fills.ofClass hplaced ?_
  cases hover : g.overriderOf? id o with
  | none => exact hkind
  | some x =>
      rw [Option.getD_some, (hg.of_overriderOf hover).1, isInterface_eq hinfo, hclass]

def Descends (g : ClassGraph) (id ancestor : ClassId) (m o : MethodRef) : Prop :=
  o = m ∨ g.overrides o m = true ∧ g.methodHas o (·.isVirtual) = true ∧
    o.owner ∈ g.below id ancestor

theorem Hierarchical.below_subset (hg : g.Hierarchical) (hmem : ancestor ∈ g.lineage id) :
    g.below id ancestor ⊆ g.lineage id := fun _ hd => (hg.super_of_mem_below hmem hd).1

theorem Descends.isInterface (h : g.Descends id ancestor m o) (hg : g.Hierarchical)
    (hclass : g.isInterface id = false) (hmem : ancestor ∈ g.lineage id)
    (hkind : g.isInterface m.owner = false) : g.isInterface o.owner = false := by
  rcases h with rfl | ⟨-, -, howner⟩
  · exact hkind
  · exact hg.isInterface_of_mem_lineage hclass (hg.below_subset hmem howner)

theorem Descends.of_overrider (h : g.Descends sup ancestor m o) (hg : g.WellFormed)
    (hsup : g.superClass? id = some sup) (hmem : ancestor ∈ g.lineage sup)
    (hx : g.overriderOf? id o = some x) : g.overrides x m = true := by
  obtain ⟨rfl, -, hover⟩ := hg.of_overriderOf hx
  rcases h with rfl | ⟨hover', hvirtual, howner⟩
  · exact hover
  · refine hg.overrides_trans hover hover' hvirtual ?_
    rw [hg.superclasses_eq hsup]
    exact hg.below_subset hmem howner

theorem Descends.step (h : g.Descends sup ancestor m o) (hg : g.WellFormed)
    (hsup : g.superClass? id = some sup) (hmem : ancestor ∈ g.lineage sup) (hne : id ≠ ancestor) :
    g.Descends id ancestor m ((g.overriderOf? id o).getD o) := by
  rw [Descends, hg.below_of_super hsup hne]
  cases hx : g.overriderOf? id o with
  | none =>
      rcases h with heq | ⟨hover, hvirtual, howner⟩
      · exact .inl heq
      · exact .inr ⟨hover, hvirtual, List.mem_cons_of_mem _ howner⟩
  | some x =>
      obtain ⟨howner, hvirtual, -⟩ := hg.of_overriderOf hx
      exact .inr ⟨h.of_overrider hg hsup hmem hx, hvirtual, by simp [howner]⟩

theorem Coherent.slot_history (hg : g.Coherent allowed) (hinfo : g.info? id = some info)
    (hclass : info.isInterface = false) (hmem : ancestor ∈ g.lineage id)
    (hm : g.slotOf? ancestor i = some m) (hkind : g.isInterface m.owner = false) :
    ∃ o, g.slotOf? id i = some o ∧ g.Descends id ancestor m o ∧
      o = ((g.below id ancestor).findSome? (g.takerOf? i)).getD m := by
  have hself : ∀ {id}, id = ancestor → ∃ o, g.slotOf? id i = some o ∧
      g.Descends id ancestor m o ∧
      o = ((g.below id ancestor).findSome? (g.takerOf? i)).getD m := by
    rintro id rfl
    exact ⟨m, hm, .inl rfl, by rw [below_self, List.findSome?_nil, Option.getD_none]⟩
  -- `Descends` carries the induction: it says that the holder's owner is still a class.
  induction id using hg.descend generalizing info with
  | root id hroot =>
      rw [lineage_of_root hroot, List.mem_singleton] at hmem
      exact hself hmem.symm
  | step id sup hsup ih =>
      by_cases heq : id = ancestor
      · exact hself heq
      · obtain ⟨sup', hsup', hmem'⟩ := hg.super_of_mem_lineage hmem heq
        obtain rfl := Option.some.inj (hsup.symm.trans hsup')
        obtain ⟨parent, hparent, hkind', -⟩ := hg.parent hinfo hsup
        obtain ⟨o, ho, hdescends, hhistory⟩ := ih hparent hkind' hmem'
        have hoKind := hdescends.isInterface hg.toHierarchical (hg.superKind hsup) hmem' hkind
        refine ⟨_, hg.slot_of_super hinfo hclass hsup ho hoKind,
          hdescends.step hg.toWellFormed hsup hmem' heq, ?_⟩
        have htaker : g.takerOf? i id = g.overriderOf? id o := by
          rw [takerOf?, hsup, Option.bind_some, ho, Option.bind_some]
        rw [hg.below_of_super hsup heq, List.findSome?_cons, htaker]
        cases g.overriderOf? id o with
        | none => exact hhistory
        | some x => rfl

theorem Coherent.overriderOf_of_takerOf (hg : g.Coherent allowed) (hmem : ancestor ∈ g.lineage id)
    (hm : g.slotOf? ancestor i = some m) (hkind : g.isInterface m.owner = false)
    (hd : d ∈ g.below id ancestor) (hx : g.takerOf? i d = some x) :
    g.overriderOf? d m = some x := by
  obtain ⟨-, sup, hsup, hmem'⟩ := hg.super_of_mem_below hmem hd
  obtain ⟨parent, hparent⟩ := hg.known (direct_of_superClass hsup)
  have hclass : parent.isInterface = false :=
    (isInterface_eq hparent).symm.trans (hg.superKind hsup)
  obtain ⟨o, ho, hdescends, -⟩ := hg.slot_history hparent hclass hmem' hm hkind
  rw [takerOf?, hsup, Option.bind_some, ho, Option.bind_some] at hx
  have hover := hdescends.of_overrider hg.toWellFormed hsup hmem' hx
  obtain ⟨rfl, hvirtual, -⟩ := hg.of_overriderOf hx
  exact hg.overriderOf_eq hvirtual hover

theorem Hierarchical.not_mem_below (hg : g.Hierarchical) (hmem : ancestor ∈ g.lineage id)
    (hd : d ∈ g.lineage ancestor) : d ∉ g.below id ancestor := by
  intro hbelow
  obtain ⟨-, sup, hsup, habove⟩ := hg.super_of_mem_below hmem hbelow
  rw [← hg.superclasses_eq hsup] at habove
  have hup := hg.isSubtype_of_mem_lineage hd
  have hdown := hg.isSubtype_of_mem_lineage (List.mem_cons_of_mem d habove)
  obtain rfl := hg.isSubtype_antisymm hup hdown
  exact hg.not_mem_superclasses_self _ habove

theorem Coherent.nearest_takes_iff (hg : g.Coherent allowed) (hmem : ancestor ∈ g.lineage id)
    (hm : g.slotOf? ancestor i = some m) (hkind : g.isInterface m.owner = false)
    (hx : (g.below id ancestor).findSome? (g.overriderOf? · m) = some x) :
    (g.below id ancestor).findSome? (g.takerOf? i) = some x ↔ g.takerOf? i x.owner = some x := by
  have htakes : ∀ d ∈ g.below id ancestor, ∀ y, g.takerOf? i d = some y →
      g.overriderOf? d m = some y :=
    fun d hd y hy => hg.overriderOf_of_takerOf hmem hm hkind hd hy
  constructor
  · intro htaker
    obtain ⟨d, hd, hy⟩ := List.exists_of_findSome?_eq_some htaker
    obtain ⟨rfl, -, -⟩ := hg.of_overriderOf (htakes d hd x hy)
    exact hy
  · intro htaker
    -- A nearer class that took the slot would override the first holder.
    obtain ⟨nearer, d, farther, hsplit, hd, hnone⟩ := List.findSome?_eq_some_iff.mp hx
    obtain ⟨rfl, -, -⟩ := hg.of_overriderOf hd
    rw [hsplit] at htakes ⊢
    refine List.findSome?_eq_some_iff.mpr ⟨nearer, _, farther, rfl, htaker, fun c hc => ?_⟩
    cases hy : g.takerOf? i c with
    | none => rfl
    | some y =>
        have hover := htakes c (List.mem_append_left _ hc) y hy
        exact hover.symm.trans (hnone c hc)

theorem Coherent.first_holder_above (hg : g.Coherent allowed) (hm : g.slotOf? ancestor i = some m)
    (hclass : g.isInterface ancestor = false) (hkind : g.isInterface m.owner = false) :
    m.owner ∈ g.lineage ancestor := by
  obtain ⟨above, habove, hslot⟩ := Option.bind_eq_some_iff.mp hm
  rw [isInterface_eq habove] at hclass
  exact ((hg.sound habove hclass).ofClass (List.mem_of_getElem? hslot) hkind).1

theorem slots_follow_their_history (h : Reachable allowed g) (hlinked : g.status id = .linked info)
    (hclass : info.isInterface = false) (hmem : ancestor ∈ g.lineage id)
    (hm : g.slotOf? ancestor i = some m) (hkind : g.isInterface m.owner = false) :
    info.vtable[i]? = some (((g.below id ancestor).findSome? (g.takerOf? i)).getD m) ∧
      (∀ d ∈ g.below id ancestor, ∀ x, g.takerOf? i d = some x → g.overriderOf? d m = some x) ∧
      ((g.below id ancestor).findSome? (g.overriderOf? · m) = none → info.vtable[i]? = some m) ∧
      ∀ x, (g.below id ancestor).findSome? (g.overriderOf? · m) = some x →
        (info.vtable[i]? = some x ↔ g.takerOf? i x.owner = some x) := by
  have hg := h.coherent
  have hinfo := known_of_linked hlinked
  have htakes : ∀ d ∈ g.below id ancestor, ∀ x, g.takerOf? i d = some x →
      g.overriderOf? d m = some x :=
    fun d hd x hx => hg.overriderOf_of_takerOf hmem hm hkind hd hx
  obtain ⟨o, ho, -, rfl⟩ := hg.slot_history hinfo hclass hmem hm hkind
  rw [slotOf?_eq hinfo] at ho
  refine ⟨ho, htakes, fun hnone => ?_, fun x hx => ?_⟩
  · rw [ho, findSome?_eq_none_of_imp htakes hnone, Option.getD_none]
  · rw [ho, Option.some.injEq, ← hg.nearest_takes_iff hmem hm hkind hx]
    cases htaker : (g.below id ancestor).findSome? (g.takerOf? i) with
    | some y => rw [Option.getD_some, Option.some.injEq]
    | none =>
        have hne : m ≠ x := by
          rintro rfl
          obtain ⟨d, hd, hself⟩ := List.exists_of_findSome?_eq_some hx
          obtain ⟨rfl, -, -⟩ := hg.of_overriderOf hself
          have hancestor :=
            hg.isInterface_of_mem_lineage ((isInterface_eq hinfo).trans hclass) hmem
          exact hg.not_mem_below hmem (hg.first_holder_above hm hancestor hkind) hd
        simp [hne]

def widenedRun : ClassGraph :=
  program [
    { name := "p/Base", methods := [minimalRoot.method 0 "run" "()V"] },
    { name := "p/Middle", superName := some "p/Base",
      methods := [minimalRoot.method Access.publicBit "run" "()V"] },
    { name := "q/Derived", superName := some "p/Middle",
      methods := [minimalRoot.method Access.publicBit "run" "()V"] }] ⟨3⟩

theorem widenedRun_history : ∃ info, widenedRun.status ⟨3⟩ = .linked info ∧
    (widenedRun.below ⟨3⟩ ⟨1⟩).findSome? (widenedRun.overriderOf? · ⟨⟨1⟩, 0⟩) = some ⟨⟨3⟩, 0⟩ ∧
    info.vtable[6]? = some ⟨⟨3⟩, 0⟩ := by
  have hreach : Reachable (fun _ => True) widenedRun := reachable_program _ _
  obtain ⟨hlinked, hkind, hmem, hm, hbase, hnearest, htaker⟩ :
      widenedRun.isLinked ⟨3⟩ = true ∧ widenedRun.isInterface ⟨3⟩ = false ∧
      ⟨1⟩ ∈ widenedRun.lineage ⟨3⟩ ∧ widenedRun.slotOf? ⟨1⟩ 6 = some ⟨⟨1⟩, 0⟩ ∧
      widenedRun.isInterface ⟨1⟩ = false ∧
      (widenedRun.below ⟨3⟩ ⟨1⟩).findSome? (widenedRun.overriderOf? · ⟨⟨1⟩, 0⟩) = some ⟨⟨3⟩, 0⟩ ∧
      widenedRun.takerOf? 6 ⟨3⟩ = some ⟨⟨3⟩, 0⟩ := by
    decide +kernel
  obtain ⟨info, hinfo, hclass⟩ := linkedClass_of hlinked hkind
  obtain ⟨-, -, -, hslot⟩ := slots_follow_their_history hreach hinfo hclass hmem hm hbase
  exact ⟨info, hinfo, hnearest, (hslot _ hnearest).mpr htaker⟩

def narrowedRun : ClassGraph :=
  program [
    { name := "p/Base", methods := [minimalRoot.method Access.publicBit "run" "()V"] },
    { name := "q/Middle", superName := some "p/Base",
      methods := [minimalRoot.method 0 "run" "()V"] },
    { name := "p/Derived", superName := some "q/Middle",
      methods := [minimalRoot.method Access.publicBit "run" "()V"] }] ⟨3⟩

theorem narrowedRun_misses_slot :
    ∃ info, Reachable (fun _ => True) narrowedRun ∧ narrowedRun.status ⟨3⟩ = .linked info ∧
      info.isInterface = false ∧ ⟨1⟩ ∈ narrowedRun.lineage ⟨3⟩ ∧
      narrowedRun.slotOf? ⟨1⟩ 6 = some ⟨⟨1⟩, 0⟩ ∧
      (narrowedRun.below ⟨3⟩ ⟨1⟩).findSome? (narrowedRun.overriderOf? · ⟨⟨1⟩, 0⟩) =
        some ⟨⟨3⟩, 0⟩ ∧
      info.vtable[6]? = some ⟨⟨2⟩, 0⟩ := by
  obtain ⟨hlinked, hkind, hmem, hm, hnearest, hslot⟩ :
      narrowedRun.isLinked ⟨3⟩ = true ∧ narrowedRun.isInterface ⟨3⟩ = false ∧
      ⟨1⟩ ∈ narrowedRun.lineage ⟨3⟩ ∧ narrowedRun.slotOf? ⟨1⟩ 6 = some ⟨⟨1⟩, 0⟩ ∧
      (narrowedRun.below ⟨3⟩ ⟨1⟩).findSome? (narrowedRun.overriderOf? · ⟨⟨1⟩, 0⟩) =
        some ⟨⟨3⟩, 0⟩ ∧
      narrowedRun.slotOf? ⟨3⟩ 6 = some ⟨⟨2⟩, 0⟩ := by
    decide +kernel
  obtain ⟨info, hinfo, hclass⟩ := linkedClass_of hlinked hkind
  rw [slotOf?_eq (known_of_linked hinfo)] at hslot
  exact ⟨info, reachable_program _ _, hinfo, hclass, hmem, hm, hnearest, hslot⟩

end Linkage.ClassGraph
