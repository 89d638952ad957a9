import Linkage.Proofs.Reachability
import Linkage.Proofs.TableShape

namespace Linkage.ClassGraph

variable {g : ClassGraph} {id sup : ClassId} {info : ClassInfo} {inherited t : List MethodRef}
  {m x : MethodRef} {allowed : LinkOptions → Prop} {classes : List ClassId}

structure Sound (g : ClassGraph) (id : ClassId) (classes : List ClassId) (t : List MethodRef) :
    Prop where
  ofClass : ∀ {m}, m ∈ t → g.isInterface m.owner = false →
    m.owner ∈ classes ∧ g.methodHas m (·.isVirtual) = true
  ofInterface : ∀ {m}, m ∈ t → g.isInterface m.owner = true →
    m.owner ∈ g.superinterfaces id ∧ g.methodHas m (·.isInheritable) = true ∧
      ∃ p ∈ g.interfaceMethods id, g.key? m = g.key? p.1
  once : ∀ {i j : Nat} {m : MethodRef}, t[i]? = some m → t[j]? = some m → i = j
  single : ∀ {i j : Nat} {a b : MethodRef}, t[i]? = some a → t[j]? = some b →
    g.isInterface a.owner = true → g.isInterface b.owner = true → g.key? a = g.key? b → i = j
  nearest : ∀ {name descriptor : String} {m : MethodRef},
    (classes.findSome? fun c => g.virtualMethod? c name descriptor) = some m → m ∈ t

theorem sound_nil (g : ClassGraph) (id : ClassId) : g.Sound id [] [] where
  ofClass := fun h => by cases h
  ofInterface := fun h => by cases h
  once := fun h => by cases h
  single := fun h => by cases h
  nearest := fun h => by cases h

theorem Hierarchical.interfaceMethods_mono (hg : g.Hierarchical)
    (hsub : g.isSubtype id sup = true) : g.interfaceMethods sup ⊆ g.interfaceMethods id := by
  intro p hp
  obtain ⟨i, hi, hp⟩ := mem_interfaceMethods_iff.mp hp
  exact mem_interfaceMethods_iff.mpr ⟨i, hg.superinterfaces_mono hsub hi, hp⟩

theorem Sound.below (h : g.Sound sup classes t) (hg : g.Hierarchical)
    (hsub : g.isSubtype id sup = true) : g.Sound id classes t where
  ofClass := h.ofClass
  ofInterface := by
    intro m hm hkind
    obtain ⟨howner, hinherit, p, hp, hkey⟩ := h.ofInterface hm hkind
    exact ⟨hg.superinterfaces_mono hsub howner, hinherit, p, hg.interfaceMethods_mono hsub hp, hkey⟩
  once := h.once
  single := h.single
  nearest := h.nearest

theorem Sound.isInterface_of_unclaimed (hs : g.Sound id classes t) (hg : g.WellFormed)
    {name descriptor : String}
    (hnone : (classes.findSome? fun c => g.virtualMethod? c name descriptor) = none) (hm : m ∈ t)
    (hkey : g.key? m = some (name, descriptor)) : g.isInterface m.owner = true := by
  by_contra hkind
  rw [Bool.not_eq_true] at hkind
  obtain ⟨howner, hvirtual⟩ := hs.ofClass hm hkind
  have hdeclared := hg.virtualMethod_iff.mpr ⟨rfl, hkey, hvirtual⟩
  rw [List.findSome?_eq_none_iff] at hnone
  simp [hnone _ howner] at hdeclared

theorem Built.slot (hb : g.Built info inherited t) (hg : g.WellFormed)
    (hinfo : g.info? id = some info) (hclass : info.isInterface = false) {i : Nat}
    (h : t[i]? = some m) :
    (∃ o, inherited[i]? = some o ∧ g.key? m = g.key? o ∧ g.Inherits info o m) ∨
      inherited.length ≤ i ∧ g.Appends info inherited m := by
  cases ho : inherited[i]? with
  | some o =>
      obtain ⟨m', hm', hkey, hinherits⟩ := hb.inherits hg hinfo hclass ho
      obtain rfl := Option.some.inj (h.symm.trans hm')
      exact .inl ⟨o, rfl, hkey, hinherits⟩
  | none =>
      have hle := List.getElem?_eq_none_iff.mp ho
      exact .inr ⟨hle, hb.appends hle h hg hinfo hclass⟩

theorem WellFormed.owner_of_declared (hg : g.WellFormed) (hinfo : g.info? id = some info)
    (hx : x ∈ info.virtualMethods) : x.owner = id :=
  ((hg.mem_virtualMethods_iff hinfo).mp hx).1

theorem Built.sound_ofClass (hb : g.Built info inherited t) (hg : g.WellFormed)
    (hinfo : g.info? id = some info) (hclass : info.isInterface = false)
    (hs : g.Sound id (g.superclasses id) inherited) (hm : m ∈ t)
    (hkind : g.isInterface m.owner = false) :
    m.owner ∈ g.lineage id ∧ g.methodHas m (·.isVirtual) = true := by
  have hdeclared : ∀ {x}, x ∈ info.virtualMethods →
      x.owner ∈ g.lineage id ∧ g.methodHas x (·.isVirtual) = true := by
    intro x hx
    obtain ⟨howner, hvirtual⟩ := (hg.mem_virtualMethods_iff hinfo).mp hx
    exact ⟨howner ▸ mem_lineage_self g id, hvirtual⟩
  have hpicked : ¬g.Picked info.id m := fun h => by simp [(hg.of_picked h).2.1] at hkind
  obtain ⟨i, hi⟩ := List.mem_iff_getElem?.mp hm
  rcases hb.slot hg hinfo hclass hi with ⟨o, ho, -, hinherits⟩ | ⟨-, happends⟩
  · cases hinherits with
    | overridden hmem _ => exact hdeclared hmem
    | kept _ =>
        obtain ⟨howner, hvirtual⟩ := hs.ofClass (List.mem_of_getElem? ho) hkind
        exact ⟨List.mem_cons_of_mem _ howner, hvirtual⟩
    | filled _ _ honly => exact absurd honly.picked hpicked
  · cases happends with
    | declared hmem _ => exact hdeclared hmem
    | picked h _ => exact absurd h hpicked

theorem Built.sound_ofInterface (hb : g.Built info inherited t) (hg : g.WellFormed)
    (hinfo : g.info? id = some info) (hclass : info.isInterface = false)
    (hs : g.Sound id (g.superclasses id) inherited) (hm : m ∈ t)
    (hkind : g.isInterface m.owner = true) :
    m.owner ∈ g.superinterfaces id ∧ g.methodHas m (·.isInheritable) = true ∧
      ∃ p ∈ g.interfaceMethods id, g.key? m = g.key? p.1 := by
  have hid : info.id = id := hg.self hinfo
  have hnot : m ∉ info.virtualMethods := fun h => by
    simp [hg.isInterface_of_declared hinfo hclass h] at hkind
  have hpicked : g.Picked info.id m → _ := fun h => hid ▸ hg.of_picked h
  obtain ⟨i, hi⟩ := List.mem_iff_getElem?.mp hm
  rcases hb.slot hg hinfo hclass hi with ⟨o, ho, -, hinherits⟩ | ⟨-, happends⟩
  · cases hinherits with
    | overridden hmem _ => exact absurd hmem hnot
    | kept _ => exact hs.ofInterface (List.mem_of_getElem? ho) hkind
    | filled _ _ honly =>
        obtain ⟨howner, -, hrest⟩ := hpicked honly.picked
        exact ⟨howner, hrest⟩
  · cases happends with
    | declared hmem _ => exact absurd hmem hnot
    | picked h _ =>
        obtain ⟨howner, -, hrest⟩ := hpicked h
        exact ⟨howner, hrest⟩

theorem DistinctKeys.nodup {own : List MethodRef} (h : g.DistinctKeys own) : own.Nodup :=
  h.imp fun hne heq => hne (congrArg g.key? heq)

theorem Built.sound_once (hb : g.Built info inherited t) (hg : g.WellFormed)
    (hinfo : g.info? id = some info)
    (hs : g.Sound id (g.superclasses id) inherited) {i j : Nat} (hi : t[i]? = some m)
    (hj : t[j]? = some m) (hkind : g.isInterface m.owner = false) : i = j := by
  have hplaced : ∀ {n : Nat}, t[n]? = some m →
      (g.placed info.virtualMethods inherited)[n]? = some m := by
    intro n hn
    rcases hb.fills.back hg hn with hpicked | hold
    · simp [(hg.of_picked hpicked).2.1] at hkind
    · exact hold
  by_cases hm : m ∈ info.virtualMethods
  · have hnew : m ∉ inherited := by
      intro hmem
      have howner := (hs.ofClass hmem hkind).1
      rw [hg.owner_of_declared hinfo hm] at howner
      exact hg.not_mem_superclasses_self id howner
    exact placed_once_of_declared (hg.distinctKeys hinfo).nodup hnew (hb.once m hm) (hplaced hi)
      (hplaced hj)
  · exact hs.once (placed_of_not_declared hm (hplaced hi)) (placed_of_not_declared hm (hplaced hj))

theorem Built.interface_slot (hb : g.Built info inherited t) (hg : g.WellFormed)
    (hinfo : g.info? id = some info) (hclass : info.isInterface = false) {i : Nat}
    (hi : t[i]? = some m) (hkind : g.isInterface m.owner = true) :
    (∃ o, inherited[i]? = some o ∧ o ∈ g.placed info.virtualMethods inherited ∧
        g.key? m = g.key? o ∧ g.isInterface o.owner = true) ∨
      (g.placed info.virtualMethods inherited).length ≤ i ∧
        ∀ o ∈ g.placed info.virtualMethods inherited, g.key? o ≠ g.key? m := by
  rcases hb.fills.slot hg hi with ⟨o, ho, hkey, hkind', -⟩ | hle
  · rw [hkind] at hkind'
    have hnot : o ∉ info.virtualMethods := fun h => by
      simp [hg.isInterface_of_declared hinfo hclass h] at hkind'
    exact .inl ⟨o, placed_of_not_declared hnot ho, List.mem_of_getElem? ho, hkey, hkind'.symm⟩
  · exact .inr ⟨hle, (hb.fills.appended hle hi).2⟩

theorem Built.sound_single (hb : g.Built info inherited t) (hg : g.WellFormed)
    (hinfo : g.info? id = some info) (hclass : info.isInterface = false)
    (hs : g.Sound id (g.superclasses id) inherited) {i j : Nat} {a b : MethodRef}
    (ha : t[i]? = some a) (hb' : t[j]? = some b) (hka : g.isInterface a.owner = true)
    (hkb : g.isInterface b.owner = true) (hkey : g.key? a = g.key? b) : i = j := by
  rcases hb.interface_slot hg hinfo hclass ha hka with ⟨o, ho, hoMem, hoKey, hoKind⟩ | ⟨hlei, hfresha⟩
  · rcases hb.interface_slot hg hinfo hclass hb' hkb with ⟨u, hu, -, huKey, huKind⟩ | ⟨-, hfreshb⟩
    · exact hs.single ho hu hoKind huKind (hoKey.symm.trans (hkey.trans huKey))
    · exact absurd (hoKey.symm.trans hkey) (hfreshb o hoMem)
  · rcases hb.interface_slot hg hinfo hclass hb' hkb with ⟨u, -, huMem, huKey, -⟩ | ⟨hlej, -⟩
    · exact absurd (huKey.symm.trans hkey.symm) (hfresha u huMem)
    · exact hb.fills.single hlei hlej ha hb' hkey

theorem WellFormed.declares_no_key (hg : g.WellFormed) (hinfo : g.info? id = some info)
    {name descriptor : String} (hnone : g.virtualMethod? id name descriptor = none) :
    ∀ x ∈ info.virtualMethods, g.key? x ≠ some (name, descriptor) := by
  intro x hx hkey
  rw [(hg.virtualMethod_iff_mem hinfo).mpr ⟨hx, hkey⟩] at hnone
  cases hnone

theorem WellFormed.declared_ext (hg : g.WellFormed) (hinfo : g.info? id = some info)
    {y : MethodRef} (hx : x ∈ info.virtualMethods) (hy : y ∈ info.virtualMethods)
    (hkey : g.key? y = g.key? x) : y = x := by
  obtain ⟨hox, hvx⟩ := (hg.mem_virtualMethods_iff hinfo).mp hx
  obtain ⟨mi, hmi, -⟩ := methodHas_iff.mp hvx
  exact hg.method_ext (hkey.trans (key?_eq hmi)) (key?_eq hmi)
    ((hg.owner_of_declared hinfo hy).trans hox.symm)

theorem Built.sound_nearest (hb : g.Built info inherited t) (hg : g.WellFormed)
    (hinfo : g.info? id = some info) (hclass : info.isInterface = false)
    (hs : g.Sound id (g.superclasses id) inherited) {name descriptor : String}
    (hm : ((g.lineage id).findSome? fun c => g.virtualMethod? c name descriptor) = some m) :
    m ∈ t := by
  rw [findSome?_lineage, Option.or_eq_some_iff] at hm
  rcases hm with hm | ⟨hnone, hm⟩
  · obtain ⟨hmem, -⟩ := (hg.virtualMethod_iff_mem hinfo).mp hm
    have hplaced : m ∈ g.placed info.virtualMethods inherited :=
      mem_placed_of_declared hmem (fun y hy => hg.declared_ext hinfo hmem hy) hg.toHierarchical
    obtain ⟨i, hi⟩ := List.mem_iff_getElem?.mp hplaced
    have hkind := hg.isInterface_of_declared hinfo hclass hmem
    exact List.mem_of_getElem? (hb.fills.ofClass hi hkind)
  · obtain ⟨i, hi⟩ := List.mem_iff_getElem?.mp (hs.nearest hm)
    obtain ⟨c, hc, hvirtual⟩ := List.exists_of_findSome?_eq_some hm
    obtain ⟨rfl, hkey, -⟩ := hg.virtualMethod_iff.mp hvirtual
    have hkind : g.isInterface m.owner = false :=
      hg.isInterface_of_mem_lineage ((isInterface_eq hinfo).trans hclass)
        (List.mem_cons_of_mem _ hc)
    exact List.mem_of_getElem? (hb.keeps hg hinfo hclass hi hkind
      (hkey ▸ hg.declares_no_key hinfo hnone))

theorem Built.sound (hb : g.Built info inherited t) (hg : g.WellFormed)
    (hinfo : g.info? id = some info) (hclass : info.isInterface = false)
    (hs : g.Sound id (g.superclasses id) inherited) : g.Sound id (g.lineage id) t where
  ofClass := hb.sound_ofClass hg hinfo hclass hs
  ofInterface := hb.sound_ofInterface hg hinfo hclass hs
  once := by
    intro i j m hi hj
    cases hkind : g.isInterface m.owner with
    | false => exact hb.sound_once hg hinfo hs hi hj hkind
    | true => exact hb.sound_single hg hinfo hclass hs hi hj hkind hkind rfl
  single := hb.sound_single hg hinfo hclass hs
  nearest := hb.sound_nearest hg hinfo hclass hs

theorem Coherent.built (hg : g.Coherent allowed) (hinfo : g.info? id = some info)
    (hclass : info.isInterface = false) :
    g.Built info (g.inheritedVtable info) info.vtable := by
  obtain ⟨options, slot, -, -, hfinished⟩ := hg.finished hinfo
  exact hg.toWellFormed.built hinfo (hfinished.vtable hclass)

theorem Coherent.class_of_slot (hg : g.Coherent allowed) (hinfo : g.info? id = some info)
    (hm : m ∈ info.vtable) : info.isInterface = false := by
  by_contra hkind
  rw [Bool.not_eq_false] at hkind
  obtain ⟨options, slot, -, -, hfinished⟩ := hg.finished hinfo
  rw [(hfinished.tables hkind).1] at hm
  cases hm

theorem Coherent.parent (hg : g.Coherent allowed) (hinfo : g.info? id = some info)
    (hsup : g.superClass? id = some sup) :
    ∃ parent, g.info? sup = some parent ∧ parent.isInterface = false ∧
      g.inheritedVtable info = parent.vtable := by
  obtain ⟨parent, hparent⟩ := hg.known (direct_of_superClass hsup)
  have hkind := hg.superKind hsup
  rw [isInterface_eq hparent] at hkind
  exact ⟨parent, hparent, hkind,
    inheritedVtable_of_super ((superClass?_eq hinfo).symm.trans hsup) hparent⟩

theorem Coherent.sound_of_parent (hg : g.Coherent allowed) (hinfo : g.info? id = some info)
    (hsup : g.superClass? id = some sup)
    (hparent : ∀ {parent}, g.info? sup = some parent → parent.isInterface = false →
      g.Sound sup (g.lineage sup) parent.vtable) :
    g.Sound id (g.superclasses id) (g.inheritedVtable info) := by
  obtain ⟨parent, hinfo', hclass, heq⟩ := hg.parent hinfo hsup
  have hsub : g.isSubtype id sup = true :=
    hg.isSubtype_iff.mpr (.single (direct_of_superClass hsup))
  rw [heq, hg.superclasses_eq hsup]
  exact (hparent hinfo' hclass).below hg.toHierarchical hsub

theorem sound_of_root (hinfo : g.info? id = some info)
    (hroot : g.superClass? id = none) :
    g.Sound id (g.superclasses id) (g.inheritedVtable info) := by
  rw [superclasses_of_root hroot, inheritedVtable_of_root ((superClass?_eq hinfo).symm.trans hroot)]
  exact sound_nil g id

theorem Coherent.sound (hg : g.Coherent allowed) (hinfo : g.info? id = some info)
    (hclass : info.isInterface = false) : g.Sound id (g.lineage id) info.vtable := by
  induction id using hg.descend generalizing info with
  | root id hroot =>
      exact (hg.built hinfo hclass).sound hg.toWellFormed hinfo hclass
        (sound_of_root hinfo hroot)
  | step id sup hsup ih =>
      exact (hg.built hinfo hclass).sound hg.toWellFormed hinfo hclass
        (hg.sound_of_parent hinfo hsup ih)

theorem Coherent.sound_inherited (hg : g.Coherent allowed) (hinfo : g.info? id = some info) :
    g.Sound id (g.superclasses id) (g.inheritedVtable info) := by
  cases hsup : g.superClass? id with
  | none => exact sound_of_root hinfo hsup
  | some sup => exact hg.sound_of_parent hinfo hsup fun h => hg.sound h

theorem isInheritable_of_isVirtual {mi : MethodInfo} (h : mi.isVirtual = true) :
    mi.isInheritable = true := by
  simp only [MethodInfo.isVirtual, MethodInfo.isInheritable, Bool.and_eq_true] at *
  exact h.1.1

theorem Sound.inheritable (hs : g.Sound id classes t) (hm : m ∈ t) :
    g.methodHas m (·.isInheritable) = true := by
  cases hkind : g.isInterface m.owner with
  | true => exact (hs.ofInterface hm hkind).2.1
  | false =>
      obtain ⟨mi, hmi, hvirtual⟩ := methodHas_iff.mp (hs.ofClass hm hkind).2
      exact methodHas_iff.mpr ⟨mi, hmi, isInheritable_of_isVirtual hvirtual⟩

theorem Coherent.slot_below (hg : g.Coherent allowed) {ancestor : ClassId} {above : ClassInfo}
    (hinfo : g.info? id = some info) (hclass : info.isInterface = false)
    (habove : g.info? ancestor = some above) (hmem : ancestor ∈ g.lineage id) {i : Nat}
    (hm : above.vtable[i]? = some m) :
    ∃ m', info.vtable[i]? = some m' ∧ g.key? m' = g.key? m := by
  induction id using hg.descend generalizing info with
  | root id hroot =>
      rw [lineage_of_root hroot, List.mem_singleton] at hmem
      subst hmem
      obtain rfl := Option.some.inj (hinfo.symm.trans habove)
      exact ⟨m, hm, rfl⟩
  | step id sup hsup ih =>
      rw [hg.lineage_eq hsup] at hmem
      rcases List.mem_cons.mp hmem with rfl | hmem
      · obtain rfl := Option.some.inj (hinfo.symm.trans habove)
        exact ⟨m, hm, rfl⟩
      · obtain ⟨parent, hparent, hkind, heq⟩ := hg.parent hinfo hsup
        obtain ⟨o, ho, hkey⟩ := ih hparent hkind hmem
        obtain ⟨m', hm', hkey', -⟩ := (hg.built hinfo hclass).inherits hg.toWellFormed hinfo
          hclass (heq ▸ ho)
        exact ⟨m', hm', hkey'.trans hkey⟩

end Linkage.ClassGraph
