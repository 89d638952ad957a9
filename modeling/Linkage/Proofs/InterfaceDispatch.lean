import Linkage.Proofs.InterfaceSearch
import Linkage.Proofs.TableSound

namespace Linkage.ClassGraph

open ClassRecord

variable {g : ClassGraph} {id sup i : ClassId} {info : ClassInfo} {t : List MethodRef}
  {m : MethodRef} {p : MethodRef × MethodInfo} {name descriptor : String} {slot : Nat}
  {allowed : LinkOptions → Prop}

def Implements (g : ClassGraph) (id : ClassId) (name descriptor : String) (m : MethodRef) : Prop :=
  g.nearestVirtual? id name descriptor = some m ∨
    g.nearestVirtual? id name descriptor = none ∧ g.isInterface m.owner = true ∧
      g.key? m = some (name, descriptor)

theorem Implements.key (hg : g.WellFormed) (h : g.Implements id name descriptor m) :
    g.key? m = some (name, descriptor) := by
  rcases h with hnear | ⟨-, -, hkey⟩
  · obtain ⟨c, -, hc⟩ := List.exists_of_findSome?_eq_some hnear
    exact (hg.virtualMethod_iff.mp hc).2.1
  · exact hkey

theorem Sound.implements_unique (hs : g.Sound id (g.lineage id) t) {n k : Nat} {a b : MethodRef}
    (ha : t[n]? = some a) (hb : t[k]? = some b) (ha' : g.Implements id name descriptor a)
    (hb' : g.Implements id name descriptor b) : n = k := by
  rcases ha' with hnear | ⟨hnone, hkind, hkey⟩
  · rcases hb' with hnear' | ⟨hnone', -⟩
    · obtain rfl := Option.some.inj (hnear.symm.trans hnear')
      exact hs.once ha hb
    · rw [hnear] at hnone'
      cases hnone'
  · rcases hb' with hnear' | ⟨-, hkind', hkey'⟩
    · rw [hnear'] at hnone
      cases hnone
    · exact hs.single ha hb hkind hkind' (hkey.trans hkey'.symm)

theorem Sound.findIdx_owner (hs : g.Sound id (g.lineage id) t) (hg : g.WellFormed)
    (hclass : g.isInterface id = false) {c : ClassId} (hc : c ∈ g.lineage id) :
    (t.findIdx? fun m => m.owner = c && g.methodHas m (·.isNamed name descriptor)) =
      (g.virtualMethod? c name descriptor).bind fun m => t.findIdx? (· = m) := by
  have hkind : g.isInterface c = false := hg.isInterface_of_mem_lineage hclass hc
  have hmatch : ∀ o ∈ t, (o.owner = c && g.methodHas o (·.isNamed name descriptor)) = true ↔
      g.virtualMethod? c name descriptor = some o := by
    intro o ho
    rw [Bool.and_eq_true, decide_eq_true_eq, methodHas_isNamed_iff, hg.virtualMethod_iff]
    constructor
    · rintro ⟨rfl, hkey⟩
      exact ⟨rfl, hkey, (hs.ofClass ho hkind).2⟩
    · rintro ⟨howner, hkey, -⟩
      exact ⟨howner, hkey⟩
  cases hm : g.virtualMethod? c name descriptor with
  | none =>
      refine List.findIdx?_eq_none_iff.mpr fun o ho => ?_
      rw [hm] at hmatch
      simpa using hmatch o ho
  | some m =>
      refine findIdx?_congr fun o ho => ?_
      rw [Bool.eq_iff_iff, hmatch o ho, hm, Option.some.injEq, decide_eq_true_eq, eq_comm]

theorem Sound.findIdx_eq {classes : List ClassId} (hs : g.Sound id classes t)
    (hm : t[slot]? = some m) : t.findIdx? (· = m) = some slot := by
  refine findIdx?_of_unique hm (by simp) fun hj hb => ?_
  rw [decide_eq_true_eq] at hb
  exact hs.once (hb ▸ hj) hm

theorem Sound.slot_of_nearest (hs : g.Sound id (g.lineage id) t)
    (hm : g.nearestVirtual? id name descriptor = some m) :
    ∃ n, t[n]? = some m ∧ t.findIdx? (· = m) = some n := by
  obtain ⟨n, hn⟩ := List.mem_iff_getElem?.mp (hs.nearest hm)
  exact ⟨n, hn, hs.findIdx_eq hn⟩

theorem Sound.selectSlot_eq (hs : g.Sound id (g.lineage id) t) (hg : g.WellFormed)
    (hclass : g.isInterface id = false) :
    g.selectSlot id t name descriptor =
      ((g.nearestVirtual? id name descriptor).bind fun m => t.findIdx? (· = m)).or
        (t.findIdx? fun m => g.isInterface m.owner && g.methodHas m (·.isNamed name descriptor)) := by
  have hnearest : ∀ m, g.nearestVirtual? id name descriptor = some m →
      ∃ n, t.findIdx? (· = m) = some n := by
    intro m hm
    obtain ⟨n, -, hn⟩ := hs.slot_of_nearest hm
    exact ⟨n, hn⟩
  rw [selectSlot, nearestVirtual?, ← findSome?_bind hnearest]
  congr 1
  exact findSome?_congr fun c hc => hs.findIdx_owner hg hclass hc

theorem Sound.selectSlot_iff (hs : g.Sound id (g.lineage id) t) (hg : g.WellFormed)
    (hclass : g.isInterface id = false) :
    g.selectSlot id t name descriptor = some slot ↔
      ∃ m, t[slot]? = some m ∧ g.Implements id name descriptor m := by
  rw [hs.selectSlot_eq hg hclass]
  constructor
  · intro h
    cases hnear : g.nearestVirtual? id name descriptor with
    | some m =>
        obtain ⟨n, hn, hfind⟩ := hs.slot_of_nearest hnear
        rw [hnear, Option.bind_some, hfind, Option.some_or, Option.some.injEq] at h
        exact ⟨m, h ▸ hn, .inl hnear⟩
    | none =>
        rw [hnear, Option.bind_none, Option.none_or] at h
        obtain ⟨m, hm, hmatch⟩ := of_findIdx? h
        rw [Bool.and_eq_true, methodHas_isNamed_iff] at hmatch
        exact ⟨m, hm, .inr ⟨hnear, hmatch⟩⟩
  · rintro ⟨m, hm, hnear | ⟨hnone, hkind, hkey⟩⟩
    · rw [hnear, Option.bind_some, hs.findIdx_eq hm, Option.some_or]
    · rw [hnone, Option.bind_none, Option.none_or]
      refine findIdx?_of_unique hm ?_ fun hj hb => ?_
      · rw [Bool.and_eq_true, methodHas_isNamed_iff]
        exact ⟨hkind, hkey⟩
      · rw [Bool.and_eq_true, methodHas_isNamed_iff] at hb
        exact hs.single hj hm hb.1 hkind (hb.2.trans hkey.symm)

theorem Coherent.implemented (hg : g.Coherent allowed) (hinfo : g.info? id = some info)
    (hclass : info.isInterface = false) (hp : p ∈ g.interfaceMethods id) :
    ∃ (slot : Nat) (m : MethodRef), info.vtable[slot]? = some m ∧
      g.Implements id p.2.name p.2.descriptor m := by
  have hs := hg.sound hinfo hclass
  have hkeyp := (hg.of_interfaceMethod hp).2.1
  cases hnear : g.nearestVirtual? id p.2.name p.2.descriptor with
  | some m =>
      obtain ⟨n, hn, -⟩ := hs.slot_of_nearest hnear
      exact ⟨n, m, hn, .inl hnear⟩
  | none =>
      rw [← hg.self hinfo] at hp
      obtain ⟨m, hm, hkey⟩ := (hg.built hinfo hclass).cover p hp
      obtain ⟨n, hn⟩ := List.mem_iff_getElem?.mp hm
      have hkind := hs.isInterface_of_unclaimed hg.toWellFormed hnear hm (hkey.trans hkeyp)
      exact ⟨n, m, hn, .inr ⟨hnear, hkind, hkey.trans hkeyp⟩⟩

theorem interfaceEntry_interface {entry : InterfaceEntry}
    (h : g.interfaceEntry? info t i = some entry) : entry.interface = i := by
  unfold interfaceEntry? at h
  dsimp only at h
  split at h
  · exact (congrArg InterfaceEntry.interface (Option.some.inj h)).symm
  · cases h

theorem Coherent.entryFor_eq (hg : g.Coherent allowed) (hinfo : g.info? id = some info)
    (hclass : info.isInterface = false) (i : ClassId) :
    info.entryFor? i =
      if i ∈ g.superinterfaces id then g.interfaceEntry? info info.vtable i else none := by
  obtain ⟨options, slot, -, -, hfinished⟩ := hg.finished hinfo
  rw [ClassInfo.entryFor?, hfinished.interfaceTable hclass, buildInterfaceTable, hg.self hinfo]
  exact find?_filterMap interfaceEntry_interface i

theorem methodRefs_ordered (info : ClassInfo) :
    info.methodRefs.Pairwise fun a b => a.1.index < b.1.index := by
  rw [ClassInfo.methodRefs, List.pairwise_map, List.pairwise_iff_getElem]
  intro i j hi hj hlt
  simpa using hlt

theorem interfaceSlots_ordered : InterfaceEntry.Ordered (g.interfaceSlots id t i) := by
  have hordered : (g.slottedMethods i).Pairwise fun a b => a.1.index < b.1.index := by
    unfold slottedMethods
    split
    · exact (methodRefs_ordered _).sublist List.filter_sublist
    · exact List.Pairwise.nil
  rw [InterfaceEntry.Ordered, interfaceSlots, List.pairwise_filterMap]
  refine hordered.imp fun {a b} hlt sa ha sb hb => ?_
  obtain ⟨_, -, rfl⟩ := Option.map_eq_some_iff.mp ha
  obtain ⟨_, -, rfl⟩ := Option.map_eq_some_iff.mp hb
  exact hlt

theorem find?_of_mem_ordered {slots : List InterfaceSlot} (h : InterfaceEntry.Ordered slots)
    {s : InterfaceSlot} (hs : s ∈ slots) :
    slots.find? (·.methodIndex = s.methodIndex) = some s := by
  induction slots with
  | nil => cases hs
  | cons first rest ih =>
      obtain ⟨hfirst, hrest⟩ := List.pairwise_cons.mp h
      rcases List.mem_cons.mp hs with rfl | hs
      · simp
      · have hne : first.methodIndex ≠ s.methodIndex := Nat.ne_of_lt (hfirst s hs)
        simpa [hne] using ih hrest hs

theorem mem_interfaceSlots (hp : p ∈ g.slottedMethods i)
    (hslot : g.selectSlot id t p.2.name p.2.descriptor = some slot) :
    (⟨p.1.index, slot⟩ : InterfaceSlot) ∈ g.interfaceSlots id t i := by
  rw [interfaceSlots, List.mem_filterMap]
  refine ⟨p, hp, ?_⟩
  dsimp only
  rw [hslot, Option.map_some]

theorem vtableIndex_interfaceSlots (hp : p ∈ g.slottedMethods i)
    (hslot : g.selectSlot id t p.2.name p.2.descriptor = some slot) :
    (⟨i, g.interfaceSlots id t i⟩ : InterfaceEntry).vtableIndex? p.1.index = some slot := by
  rw [InterfaceEntry.vtableIndex?, InterfaceEntry.search_eq_find? interfaceSlots_ordered,
    find?_of_mem_ordered interfaceSlots_ordered (mem_interfaceSlots hp hslot), Option.map_some]

theorem interfaceEntry_cases {s : InterfaceSlot} (hs : s ∈ g.interfaceSlots info.id t i) :
    g.interfaceEntry? info t i = some ⟨i, g.interfaceSlots info.id t i⟩ ∨
      g.interfaceEntry? info t i = none ∧
        (∀ m, t[s.vtableIndex]? = some m → m.owner ≠ info.id) ∧
        ∃ sup, info.superClass = some sup ∧ g.isSubtype sup i = true := by
  have hne : (g.interfaceSlots info.id t i).isEmpty = false := by
    rw [List.isEmpty_eq_false_iff]
    exact List.ne_nil_of_mem hs
  unfold interfaceEntry?
  dsimp only
  split
  next => exact .inl rfl
  next hout =>
    simp only [hne, Bool.not_false, Bool.true_and, Bool.or_eq_true, not_or, Bool.not_eq_true,
      Bool.not_eq_false', List.any_eq_false, Option.any_eq_true] at hout
    refine .inr ⟨rfl, fun m hm howner => ?_, hout.2⟩
    exact hout.1 s hs (by simp [hm, howner])

def nearestEntryFor? (g : ClassGraph) (id interface : ClassId) : Option InterfaceEntry :=
  (g.lineage id).findSome? fun c => (g.info? c).bind (·.entryFor? interface)

theorem nearestEntryFor_eq (hinfo : g.info? id = some info) :
    g.nearestEntryFor? id i = (info.entryFor? i).or
      ((g.superclasses id).findSome? fun c => (g.info? c).bind (·.entryFor? i)) := by
  rw [nearestEntryFor?, findSome?_lineage, hinfo, Option.bind_some]

theorem Hierarchical.nearestEntryFor_of_super (hg : g.Hierarchical)
    (hinfo : g.info? id = some info) (hsup : g.superClass? id = some sup) :
    g.nearestEntryFor? id i = (info.entryFor? i).or (g.nearestEntryFor? sup i) := by
  rw [nearestEntryFor_eq hinfo, hg.superclasses_eq hsup, nearestEntryFor?]

theorem Coherent.selectSlot_inherited (hg : g.Coherent allowed) (hinfo : g.info? id = some info)
    (hclass : info.isInterface = false) (hsup : g.superClass? id = some sup) {parent : ClassInfo}
    (hparent : g.info? sup = some parent) (hkind : parent.isInterface = false)
    (hnone : g.virtualMethod? id name descriptor = none)
    (h : g.selectSlot sup parent.vtable name descriptor = some slot) :
    g.selectSlot id info.vtable name descriptor = some slot := by
  have hwf := hg.toWellFormed
  have hclass' := (isInterface_eq hinfo).trans hclass
  have hkind' := (isInterface_eq hparent).trans hkind
  obtain ⟨m, hm, himpl⟩ := ((hg.sound hparent hkind).selectSlot_iff hwf hkind').mp h
  have hnear : g.nearestVirtual? id name descriptor = g.nearestVirtual? sup name descriptor := by
    rw [hg.nearestVirtual_eq hsup, hnone, Option.none_or]
  have hfree := hg.declares_no_key hinfo hnone
  obtain ⟨parent', hparent', -, hinherited⟩ := hg.parent hinfo hsup
  obtain rfl := Option.some.inj (hparent.symm.trans hparent')
  obtain ⟨m', hm', hkey, hinherits⟩ :=
    (hg.built hinfo hclass).inherits hwf hinfo hclass (hinherited ▸ hm)
  refine ((hg.sound hinfo hclass).selectSlot_iff hwf hclass').mpr ⟨m', hm', ?_⟩
  rw [Implements, hnear]
  cases hinherits with
  | overridden hmem _ => exact absurd (hkey.trans (himpl.key hwf)) (hfree m' hmem)
  | kept _ => exact himpl
  | filled _ hinterface honly =>
      rcases himpl with hnearest | ⟨hnearest, -, hkeym⟩
      · obtain ⟨c, hc, hvirtual⟩ := List.exists_of_findSome?_eq_some hnearest
        obtain ⟨rfl, -⟩ := hg.virtualMethod_iff.mp hvirtual
        rw [hg.isInterface_of_mem_lineage hkind' hc] at hinterface
        cases hinterface
      · exact .inr ⟨hnearest, (hg.of_picked honly.picked).2.1, hkey.trans hkeym⟩

theorem Coherent.selectSlot_of_superinterface (hg : g.Coherent allowed)
    (hinfo : g.info? id = some info) (hclass : info.isInterface = false)
    (hi : i ∈ g.superinterfaces id) (hp : p ∈ g.slottedMethods i) :
    ∃ slot, g.selectSlot id info.vtable p.2.name p.2.descriptor = some slot := by
  obtain ⟨slot, m, hm, himpl⟩ :=
    hg.implemented hinfo hclass (mem_interfaceMethods_iff.mpr ⟨i, hi, hp⟩)
  exact ⟨slot, ((hg.sound hinfo hclass).selectSlot_iff hg.toWellFormed
    ((isInterface_eq hinfo).trans hclass)).mpr ⟨m, hm, himpl⟩⟩

theorem Coherent.entry_cases (hg : g.Coherent allowed) (hinfo : g.info? id = some info)
    (hclass : info.isInterface = false) (hi : i ∈ g.superinterfaces id)
    (hp : p ∈ g.slottedMethods i)
    (hslot : g.selectSlot id info.vtable p.2.name p.2.descriptor = some slot) :
    (∃ entry, info.entryFor? i = some entry ∧ entry.vtableIndex? p.1.index = some slot) ∨
      info.entryFor? i = none ∧ g.virtualMethod? id p.2.name p.2.descriptor = none ∧
        ∃ sup, g.superClass? id = some sup ∧ i ∈ g.superinterfaces sup := by
  have hid := hg.self hinfo
  have hentry := hg.entryFor_eq hinfo hclass i
  rw [if_pos hi] at hentry
  have hslot' : g.selectSlot info.id info.vtable p.2.name p.2.descriptor = some slot := hid ▸ hslot
  rcases interfaceEntry_cases (mem_interfaceSlots hp hslot') with hown | ⟨hnone, hnot, sup, hsup, hsub⟩
  · exact .inl ⟨_, hentry.trans hown, vtableIndex_interfaceSlots hp hslot'⟩
  · have hsup' : g.superClass? id = some sup := (superClass?_eq hinfo).trans hsup
    refine .inr ⟨hentry.trans hnone, ?_, sup, hsup', ?_⟩
    · by_contra hdeclared
      obtain ⟨x, hx⟩ := Option.ne_none_iff_exists'.mp hdeclared
      have hnear : g.nearestVirtual? id p.2.name p.2.descriptor = some x := by
        rw [hg.nearestVirtual_eq hsup', hx, Option.some_or]
      obtain ⟨m, hm, himpl⟩ := ((hg.sound hinfo hclass).selectSlot_iff hg.toWellFormed
        ((isInterface_eq hinfo).trans hclass)).mp hslot
      rcases himpl with hm' | ⟨hm', -⟩
      · obtain rfl := Option.some.inj (hm'.symm.trans hnear)
        exact hnot m hm ((hg.virtualMethod_iff.mp hx).1.trans hid.symm)
      · rw [hnear] at hm'
        cases hm'
    · rw [hg.mem_superinterfaces_iff_of_class (hg.superKind hsup')]
      exact ⟨hsub, (mem_superinterfaces_iff.mp hi).2⟩

theorem Coherent.nearestEntryFor_slot (hg : g.Coherent allowed) (hinfo : g.info? id = some info)
    (hclass : info.isInterface = false) (hi : i ∈ g.superinterfaces id)
    (hp : p ∈ g.slottedMethods i)
    (hslot : g.selectSlot id info.vtable p.2.name p.2.descriptor = some slot) :
    ∃ entry, g.nearestEntryFor? id i = some entry ∧
      entry.vtableIndex? p.1.index = some slot := by
  induction id using hg.descend generalizing info slot with
  | root id hroot =>
      rcases hg.entry_cases hinfo hclass hi hp hslot with ⟨entry, hentry, hindex⟩ | ⟨-, -, sup, hsup, -⟩
      · exact ⟨entry, by rw [nearestEntryFor_eq hinfo, hentry, Option.some_or], hindex⟩
      · rw [hroot] at hsup
        cases hsup
  | step id sup hsup ih =>
      rcases hg.entry_cases hinfo hclass hi hp hslot with
        ⟨entry, hentry, hindex⟩ | ⟨hnone, hfree, sup', hsup', hi'⟩
      · exact ⟨entry, by rw [nearestEntryFor_eq hinfo, hentry, Option.some_or], hindex⟩
      · -- The entry is left out, so the superclass implements the method by the same slot.
        obtain rfl := Option.some.inj (hsup.symm.trans hsup')
        obtain ⟨parent, hparent, hkind, -⟩ := hg.parent hinfo hsup
        obtain ⟨slot', hslot'⟩ := hg.selectSlot_of_superinterface hparent hkind hi' hp
        have hsame := hg.selectSlot_inherited hinfo hclass hsup hparent hkind hfree hslot'
        obtain rfl := Option.some.inj (hslot.symm.trans hsame)
        obtain ⟨entry, hentry, hindex⟩ := ih hparent hkind hi' hslot'
        refine ⟨entry, ?_, hindex⟩
        rw [hg.nearestEntryFor_of_super hinfo hsup, hnone, Option.none_or, hentry]

theorem Coherent.interfaceTable_eq (hg : g.Coherent allowed) (hinfo : g.info? id = some info) :
    info.interfaceTable = [] ∨
      info.interfaceTable = (g.superinterfaces id).filterMap (g.interfaceEntry? info info.vtable) := by
  obtain ⟨options, slot, -, -, hfinished⟩ := hg.finished hinfo
  cases hkind : info.isInterface with
  | true => exact .inl (hfinished.tables hkind).2
  | false =>
      rw [hfinished.interfaceTable hkind, buildInterfaceTable, hg.self hinfo]
      exact .inr rfl

theorem interfaceEntry_ordered {entry : InterfaceEntry}
    (h : g.interfaceEntry? info t i = some entry) : InterfaceEntry.Ordered entry.slots := by
  unfold interfaceEntry? at h
  dsimp only at h
  split at h
  · obtain rfl := Option.some.inj h
    exact interfaceSlots_ordered
  · cases h

theorem Coherent.mem_interfaceTable (hg : g.Coherent allowed) (hinfo : g.info? id = some info)
    {entry : InterfaceEntry} (h : entry ∈ info.interfaceTable) :
    entry.interface ∈ g.superinterfaces id ∧ InterfaceEntry.Ordered entry.slots := by
  rcases hg.interfaceTable_eq hinfo with hnil | htable
  · rw [hnil] at h
    cases h
  · rw [htable, List.mem_filterMap] at h
    obtain ⟨i, hi, hentry⟩ := h
    exact ⟨interfaceEntry_interface hentry ▸ hi, interfaceEntry_ordered hentry⟩

theorem Coherent.nodup_interfaceTable (hg : g.Coherent allowed) (hinfo : g.info? id = some info) :
    (info.interfaceTable.map (·.interface)).Nodup := by
  rcases hg.interfaceTable_eq hinfo with hnil | htable
  · rw [hnil]
    exact List.nodup_nil
  · rw [htable, List.Nodup, List.pairwise_map, List.pairwise_filterMap]
    refine (hg.nodup_superinterfaces id).imp fun {a b} hne ea ha eb hb heq => hne ?_
    rw [← interfaceEntry_interface ha, ← interfaceEntry_interface hb, heq]

structure Callable (g : ClassGraph) (id : ClassId) (m : MethodRef) (mi : MethodInfo) : Prop where
  owner : m.owner ∈ g.superinterfaces id
  method : g.method? m = some mi
  notStatic : mi.isStatic = false
  notPrivate : mi.isPrivate = false
  notInitializer : mi.isClassInitializer = false

theorem Callable.slotted {mi : MethodInfo} (h : g.Callable id m mi) (hg : g.WellFormed) :
    (m, mi) ∈ g.slottedMethods m.owner := by
  obtain ⟨info, hinfo⟩ := known_of_method h.method
  simp only [slottedMethods, hinfo, List.mem_filter, Bool.and_eq_true, Bool.not_eq_true',
    MethodInfo.isInheritable, h.notStatic, h.notPrivate, h.notInitializer]
  exact ⟨(hg.mem_methodRefs_iff hinfo).mpr ⟨rfl, h.method⟩, ⟨trivial, trivial⟩, trivial⟩

theorem Coherent.dispatch (hg : g.Coherent allowed) (hinfo : g.info? id = some info)
    (hclass : info.isInterface = false) {mi : MethodInfo} (h : g.Callable id m mi) :
    ∃ entry slot implementation, g.nearestEntryFor? id m.owner = some entry ∧
      entry.vtableIndex? m.index = some slot ∧
      g.selectSlot id info.vtable mi.name mi.descriptor = some slot ∧
      info.vtable[slot]? = some implementation ∧
      g.Implements id mi.name mi.descriptor implementation := by
  have hp := h.slotted hg.toWellFormed
  obtain ⟨slot, hslot⟩ := hg.selectSlot_of_superinterface hinfo hclass h.owner hp
  obtain ⟨entry, hentry, hindex⟩ := hg.nearestEntryFor_slot hinfo hclass h.owner hp hslot
  obtain ⟨x, hx, himpl⟩ := ((hg.sound hinfo hclass).selectSlot_iff hg.toWellFormed
    ((isInterface_eq hinfo).trans hclass)).mp hslot
  exact ⟨entry, slot, x, hentry, hindex, hslot, hx, himpl⟩

theorem interface_methods_reach_their_slots (h : Reachable allowed g)
    (hlinked : g.status id = .linked info) :
    (info.isInterface = false → ∀ m mi, g.Callable id m mi →
      ∃ entry slot implementation, g.nearestEntryFor? id m.owner = some entry ∧
        entry.vtableIndex? m.index = some slot ∧
        g.selectSlot id info.vtable mi.name mi.descriptor = some slot ∧
        info.vtable[slot]? = some implementation ∧
        g.Implements id mi.name mi.descriptor implementation ∧
        (∀ (n : Nat) (other : MethodRef), info.vtable[n]? = some other →
          g.Implements id mi.name mi.descriptor other → n = slot) ∧
        ∀ m' mi', g.Callable id m' mi' → g.key? m' = g.key? m →
          ∃ entry', g.nearestEntryFor? id m'.owner = some entry' ∧
            entry'.vtableIndex? m'.index = some slot) ∧
    (∀ entry ∈ info.interfaceTable, entry.interface ∈ g.superinterfaces id ∧
      (entry.slots.Pairwise fun a b => a.methodIndex < b.methodIndex) ∧
      ∀ k, entry.vtableIndex? k =
        (entry.slots.find? (·.methodIndex = k)).map (·.vtableIndex)) ∧
    (info.interfaceTable.map (·.interface)).Nodup := by
  have hg := h.coherent
  have hinfo := known_of_linked hlinked
  refine ⟨fun hclass m mi hm => ?_, fun entry hentry => ?_, hg.nodup_interfaceTable hinfo⟩
  · obtain ⟨entry, slot, x, hentry, hindex, hslot, hx, himpl⟩ := hg.dispatch hinfo hclass hm
    refine ⟨entry, slot, x, hentry, hindex, hslot, hx, himpl, fun n other hother himpl' => ?_,
      fun m' mi' hm' hkey => ?_⟩
    · exact (hg.sound hinfo hclass).implements_unique hother hx himpl' himpl
    · obtain ⟨entry', slot', -, hentry', hindex', hslot', -⟩ := hg.dispatch hinfo hclass hm'
      rw [key?_eq hm.method, key?_eq hm'.method, Option.some.injEq, Prod.mk.injEq] at hkey
      rw [hkey.1, hkey.2, hslot, Option.some.injEq] at hslot'
      exact ⟨entry', hentry', hslot' ▸ hindex'⟩
  · obtain ⟨hinterface, hordered⟩ := hg.mem_interfaceTable hinfo hentry
    refine ⟨hinterface, hordered, fun k => ?_⟩
    rw [InterfaceEntry.vtableIndex?, InterfaceEntry.search_eq_find? hordered]

def inheritedEntry : ClassGraph :=
  program [
    { name := "Runner", access := .publicInterface,
      methods := [minimalRoot.method (Access.publicBit ||| Access.abstractBit) "run" "()V"] },
    { name := "Base", interfaces := ["Runner"],
      methods := [minimalRoot.method Access.publicBit "run" "()V"] },
    { name := "Derived", superName := some "Base" }] ⟨3⟩

theorem inheritedEntry_dispatch : ∃ info, inheritedEntry.status ⟨3⟩ = .linked info ∧
    inheritedEntry.Callable ⟨3⟩ ⟨⟨1⟩, 0⟩
      ⟨minimalRoot.method (Access.publicBit ||| Access.abstractBit) "run" "()V", ⟨[], .void⟩, false⟩ ∧
    ∃ entry slot, inheritedEntry.nearestEntryFor? ⟨3⟩ ⟨1⟩ = some entry ∧
      entry.vtableIndex? 0 = some slot ∧ info.vtable[slot]? = some ⟨⟨2⟩, 0⟩ := by
  have hreach : Reachable (fun _ => True) inheritedEntry := reachable_program _ _
  obtain ⟨hlinked, hkind, hmem, hmethod, hnearest⟩ :
      inheritedEntry.isLinked ⟨3⟩ = true ∧ inheritedEntry.isInterface ⟨3⟩ = false ∧
      ⟨1⟩ ∈ inheritedEntry.superinterfaces ⟨3⟩ ∧
      inheritedEntry.method? ⟨⟨1⟩, 0⟩ =
        some ⟨minimalRoot.method (Access.publicBit ||| Access.abstractBit) "run" "()V",
          ⟨[], .void⟩, false⟩ ∧
      inheritedEntry.nearestVirtual? ⟨3⟩ "run" "()V" = some ⟨⟨2⟩, 0⟩ := by
    decide +kernel
  obtain ⟨info, hinfo, hclass⟩ := linkedClass_of hlinked hkind
  have hcall : inheritedEntry.Callable ⟨3⟩ ⟨⟨1⟩, 0⟩
      ⟨minimalRoot.method (Access.publicBit ||| Access.abstractBit) "run" "()V",
        ⟨[], .void⟩, false⟩ :=
    ⟨hmem, hmethod, by decide, by decide, by decide⟩
  obtain ⟨entry, slot, x, hentry, hindex, -, hx, himpl, -⟩ :=
    (interface_methods_reach_their_slots hreach hinfo).1 hclass _ _ hcall
  refine ⟨info, hinfo, hcall, entry, slot, hentry, hindex, ?_⟩
  rcases himpl with hnear | ⟨hnone, -⟩
  · exact hx.trans (hnear.symm.trans hnearest)
  · cases hnearest.symm.trans hnone

end Linkage.ClassGraph
