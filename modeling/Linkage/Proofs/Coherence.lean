import Linkage.Proofs.Drafting
import Linkage.Proofs.Rebuild

namespace Linkage.ClassGraph

open Outcome

variable {g g' g'' : ClassGraph} {id c sup : ClassId} {slot : Slot} {info info' : ClassInfo}
  {s status : Status} {options : LinkOptions} {supers : Supertypes} {name : String}
  {allowed : LinkOptions → Prop}

theorem slot?_setStatus : (g.setStatus id s).slot? c =
    if c = id then (g.slot? c).map fun slot => { slot with status := s } else g.slot? c := by
  have hindex : id.index = c.index ↔ c = id := by
    cases id; cases c
    simp [eq_comm]
  simp only [slot?, setStatus, Array.getElem?_modify, hindex]

theorem slot?_setStatus_of_ne (h : c ≠ id) : (g.setStatus id s).slot? c = g.slot? c := by
  rw [slot?_setStatus, if_neg h]

theorem slot?_setStatus_self (h : g.slot? id = some slot) :
    (g.setStatus id s).slot? id = some { slot with status := s } := by
  rw [slot?_setStatus, if_pos rfl, h, Option.map_some]

theorem status_of_slot (h : g.slot? id = some slot) : g.status id = slot.status := by
  simp [ClassGraph.status, h]

theorem status_setStatus_of_ne (h : c ≠ id) : (g.setStatus id s).status c = g.status c := by
  simp only [ClassGraph.status, slot?_setStatus_of_ne h]

theorem status_setStatus_self (h : g.slot? id = some slot) : (g.setStatus id s).status id = s := by
  rw [status_of_slot (slot?_setStatus_self h)]

theorem info?_setStatus_of_ne (h : c ≠ id) : (g.setStatus id s).info? c = g.info? c := by
  simp only [info?, status_setStatus_of_ne h]

theorem info?_setStatus_self (h : g.slot? id = some slot) :
    (g.setStatus id s).info? id = s.info? := by
  rw [info?, status_setStatus_self h]

theorem size_setStatus : (g.setStatus id s).size = g.size := by
  simp [size, setStatus]

theorem slot_of_known (h : g.Known id) : ∃ slot, g.slot? id = some slot := by
  cases hslot : g.slot? id with
  | some slot => exact ⟨slot, rfl⟩
  | none =>
      obtain ⟨info, hinfo⟩ := h
      simp [info?, ClassGraph.status, hslot, Status.info?] at hinfo

structure Retains (g g' : ClassGraph) : Prop where
  size_le : g.size ≤ g'.size
  slot : ∀ {id slot}, g.slot? id = some slot →
    ∃ status, g'.slot? id = some { slot with status }
  info : ∀ {id info}, g.info? id = some info → g'.info? id = some info

theorem Retains.refl (g : ClassGraph) : g.Retains g where
  size_le := Nat.le_refl _
  slot := fun {_ slot} h => ⟨slot.status, h⟩
  info := fun h => h

theorem Retains.trans (h : g.Retains g') (h' : g'.Retains g'') : g.Retains g'' where
  size_le := h.size_le.trans h'.size_le
  slot := by
    intro id slot hslot
    obtain ⟨status, hslot'⟩ := h.slot hslot
    obtain ⟨status', hslot''⟩ := h'.slot hslot'
    exact ⟨status', hslot''⟩
  info := fun hinfo => h'.info (h.info hinfo)

theorem Retains.extends (h : g.Retains g') : g.Extends g' where
  size_le := h.size_le
  record := by
    intro id hknown
    obtain ⟨slot, hslot⟩ := slot_of_known hknown
    obtain ⟨status, hslot'⟩ := h.slot hslot
    simp [record?, hslot, hslot']
  info := fun hinfo => ⟨_, h.info hinfo, rfl⟩

theorem Retains.info_eq (h : g.Retains g') (hid : g.Known id) : g'.info? id = g.info? id := by
  obtain ⟨info, hinfo⟩ := hid
  rw [h.info hinfo, hinfo]

theorem Retains.className (h : g.Retains g') (hslot : g.slot? id = some slot) :
    g'.name id = g.name id := by
  obtain ⟨status, hslot'⟩ := h.slot hslot
  simp [ClassGraph.name, hslot, hslot']

theorem retains_setStatus (h : ¬g.Known id ∨ g.info? id = s.info?) :
    g.Retains (g.setStatus id s) where
  size_le := size_setStatus.ge
  slot := by
    intro c slot hslot
    by_cases hc : c = id
    · subst hc
      exact ⟨s, slot?_setStatus_self hslot⟩
    · exact ⟨slot.status, (slot?_setStatus_of_ne hc).trans hslot⟩
  info := by
    intro c info hinfo
    by_cases hc : c = id
    · subst hc
      obtain ⟨slot, hslot⟩ := slot_of_known (known_of_info hinfo)
      rcases h with hnew | hsame
      · exact absurd (known_of_info hinfo) hnew
      · rw [info?_setStatus_self hslot, ← hsame, hinfo]
    · rw [info?_setStatus_of_ne hc, hinfo]

structure Resolved (g : ClassGraph) (options : LinkOptions) (record : ClassRecord)
    (supers : Supertypes) : Prop where
  superName : supers.superClass.map g.name = record.superName
  interfaceNames : supers.interfaces.map g.name = record.interfaces
  root : record.superName = none ↔ record.name = options.rootClass

theorem Resolved.retain {record : ClassRecord} (h : g.Resolved options record supers)
    (hr : g.Retains g')
    (hslots : ∀ sup ∈ supers.superClass.toList ++ supers.interfaces, ∃ slot, g.slot? sup = some slot) :
    g'.Resolved options record supers := by
  have hname : ∀ sup ∈ supers.superClass.toList ++ supers.interfaces, g'.name sup = g.name sup := by
    intro sup hsup
    obtain ⟨slot, hslot⟩ := hslots sup hsup
    exact hr.className hslot
  refine ⟨?_, ?_, h.root⟩
  · rw [← h.superName]
    exact Option.map_congr fun s hs => hname s (by simp [hs])
  · rw [← h.interfaceNames]
    exact List.map_congr_left fun i hi => hname i (by simp [hi])

structure Finished (g : ClassGraph) (options : LinkOptions) (slot : Slot) (info : ClassInfo) :
    Prop where
  resolved : g.Resolved options slot.record ⟨info.superClass, info.interfaces⟩
  drafted : g.draft options info.id slot ⟨info.superClass, info.interfaces⟩ =
    .ok info.withoutTables
  tables : info.isInterface = true → info.vtable = [] ∧ info.interfaceTable = []
  vtable : info.isInterface = false →
    g.buildVtable info options.verifyVtables = .ok info.vtable
  interfaceTable : info.isInterface = false →
    info.interfaceTable = g.buildInterfaceTable info info.vtable

structure Coherent (allowed : LinkOptions → Prop) (g : ClassGraph) : Prop
    extends WellFormed g where
  undrafted : ∀ {id info}, g.status id ≠ .drafted info
  finished : ∀ {id info}, g.info? id = some info →
    ∃ options slot, allowed options ∧ g.slot? id = some slot ∧ g.Finished options slot info

theorem Finished.draft (h : g.Finished options slot info) :
    g.Drafted info.id ⟨info.superClass, info.interfaces⟩ info.withoutTables :=
  draft_ok h.drafted

theorem Coherent.superClass_info (hg : g.Coherent allowed) (hinfo : g.info? id = some info)
    (hsup : info.superClass = some sup) : g.Known sup :=
  hg.known (direct_of_superClass ((superClass?_eq hinfo).trans hsup))

theorem inheritedVtable_of_super (hsup : info.superClass = some sup) (hinfo : g.info? sup = some info') :
    g.inheritedVtable info = info'.vtable := by
  simp [inheritedVtable, hsup, hinfo]

theorem inheritedVtable_of_root (hsup : info.superClass = none) : g.inheritedVtable info = [] := by
  simp [inheritedVtable, hsup]

theorem inherited_known (hsuper : ∀ {sup}, info.superClass = some sup →
    ∃ parent, g.info? sup = some parent ∧ g.KnownMethods parent.vtable) :
    g.KnownMethods (g.inheritedVtable info) := by
  cases hsup : info.superClass with
  | none =>
      rw [inheritedVtable_of_root hsup]
      simp [KnownMethods]
  | some sup =>
      obtain ⟨parent, hparent, hknown⟩ := hsuper hsup
      rw [inheritedVtable_of_super hsup hparent]
      exact hknown

theorem Coherent.vtable_known (hg : g.Coherent allowed) (hinfo : g.info? id = some info) :
    g.KnownMethods info.vtable := by
  have hbuilt : ∀ {id info}, g.info? id = some info →
      g.KnownMethods (g.inheritedVtable info) → g.KnownMethods info.vtable := by
    intro id info hinfo hinherited
    obtain ⟨options, slot, -, -, hfinished⟩ := hg.finished hinfo
    cases hkind : info.isInterface with
    | true => simp [KnownMethods, (hfinished.tables hkind).1]
    | false =>
        have hknown : g.Known info.id := hg.self hinfo ▸ known_of_info hinfo
        exact hg.buildVtable_known hknown hinherited (hfinished.vtable hkind)
  induction id using hg.descend generalizing info with
  | root id hroot =>
      rw [superClass?_eq hinfo] at hroot
      exact hbuilt hinfo (inherited_known fun hsup => by simp [hroot] at hsup)
  | step sub sup hsup ih =>
      obtain ⟨parent, hparent⟩ := hg.known (direct_of_superClass hsup)
      rw [superClass?_eq hinfo] at hsup
      refine hbuilt hinfo (inherited_known fun {sup'} hsup' => ?_)
      obtain rfl := Option.some.inj (hsup.symm.trans hsup')
      exact ⟨parent, hparent, ih hparent⟩

theorem Coherent.inherited_known (hg : g.Coherent allowed)
    (hknown : ∀ {sup}, info.superClass = some sup → g.Known sup) :
    g.KnownMethods (g.inheritedVtable info) := by
  refine ClassGraph.inherited_known fun {sup} hsup => ?_
  obtain ⟨parent, hparent⟩ := hknown hsup
  exact ⟨parent, hparent, hg.vtable_known hparent⟩

theorem Finished.retain (h : g.Finished options slot info) (hr : g.Retains g')
    (hg : g.Coherent allowed) (hinfo : g.info? id = some info) (status : Status) :
    g'.Finished options { slot with status } info := by
  have hid := hg.self hinfo
  have e := hr.extends
  have hknown : g.Known info.id := hid ▸ known_of_info hinfo
  have hsuper : ∀ {s}, info.superClass = some s → g.Known s ∧ g'.info? s = g.info? s := by
    intro s hs
    have hs := hg.superClass_info hinfo hs
    exact ⟨hs, hr.info_eq hs⟩
  have hinherited : g.KnownMethods (g.inheritedVtable info) :=
    hg.inherited_known fun hs => (hsuper hs).1
  have hsupers : ∀ sup ∈ info.superClass.toList ++ info.interfaces, g.Known sup := fun sup hsup =>
    hg.known (show sup ∈ g.directSupertypes id from directSupertypes_eq hinfo ▸ hsup)
  refine ⟨h.resolved.retain hr fun sup hsup => slot_of_known (hsupers sup hsup), ?_, h.tables,
    fun hkind => ?_, fun hkind => ?_⟩
  · rw [← h.drafted]
    exact e.draft (e.className hknown) hsuper fun {i} hi => hsupers i (by simp [hi])
  · rw [← h.vtable hkind]
    exact e.buildVtable hg.toWellFormed hknown (fun s hs => (hsuper hs).2) hinherited _
  · rw [h.interfaceTable hkind]
    exact (e.buildInterfaceTable hg.toHierarchical hknown (fun s hs => (hsuper hs).1)
      (hg.vtable_known hinfo)).symm

theorem Coherent.name_of_initializer (hg : g.Coherent allowed) {m : MethodRef} {mi : MethodInfo}
    (h : g.method? m = some mi) (hm : mi.isClassInitializer = true) : mi.name = "<clinit>" := by
  obtain ⟨info, hinfo⟩ := known_of_method h
  obtain ⟨options, slot, -, -, hfinished⟩ := hg.finished hinfo
  rw [method?_eq hinfo] at h
  exact hfinished.draft.initializer mi (List.mem_of_getElem? h) hm

theorem WellFormed.congr (hg : g.WellFormed) (hinfo : ∀ id, g'.info? id = g.info? id) :
    g'.WellFormed := by
  have hdirect : ∀ {id sup}, g'.Direct id sup ↔ g.Direct id sup := by
    intro id sup
    simp only [Direct, directSupertypes, hinfo]
  have hknown : ∀ {id}, g'.Known id ↔ g.Known id := by
    intro id
    simp only [Known, hinfo]
  have hkind : ∀ id, g'.isInterface id = g.isInterface id := by
    intro id
    simp only [isInterface, hinfo]
  refine { self := ?_, known := ?_, superKind := ?_, interfaceKind := ?_, acyclic := ?_, distinct := ?_ }
  · exact fun h => hg.self (hinfo _ ▸ h)
  · exact fun h => hknown.mpr (hg.known (hdirect.mp h))
  · intro id sup h
    rw [superClass?, hinfo] at h
    exact (hkind sup).trans (hg.superKind h)
  · exact fun h hi => (hkind _).trans (hg.interfaceKind (hinfo _ ▸ h) hi)
  · obtain ⟨rank, hrank⟩ := hg.acyclic
    exact ⟨rank, fun id sup h => hrank id sup (hdirect.mp h)⟩
  · exact fun h => hg.distinct (hinfo _ ▸ h)

theorem Coherent.congr (hg : g.Coherent allowed) (hr : g.Retains g')
    (hinfo : ∀ id, g'.info? id = g.info? id)
    (hundrafted : ∀ {id info}, g'.status id ≠ .drafted info) : g'.Coherent allowed where
  toWellFormed := hg.toWellFormed.congr hinfo
  undrafted := hundrafted
  finished := by
    intro id info h
    rw [hinfo] at h
    obtain ⟨options, slot, hallowed, hslot, hfinished⟩ := hg.finished h
    obtain ⟨status, hslot'⟩ := hr.slot hslot
    exact ⟨options, _, hallowed, hslot', hfinished.retain hr hg h status⟩

theorem info?_setStatus_cases (hslot : g.slot? id = some slot) (hs : s.info? = some info)
    (h : (g.setStatus id s).info? c = some info') :
    c = id ∧ info = info' ∨ c ≠ id ∧ g.info? c = some info' := by
  by_cases hc : c = id
  · subst hc
    rw [info?_setStatus_self hslot, hs, Option.some.injEq] at h
    exact .inl ⟨rfl, h⟩
  · rw [info?_setStatus_of_ne hc] at h
    exact .inr ⟨hc, h⟩

theorem Drafted.directSupertypes (hd : g.Drafted id supers info.withoutTables) :
    info.directSupertypes = supers.superClass.toList ++ supers.interfaces := by
  rw [ClassInfo.directSupertypes, ← hd.superClass, ← hd.interfaces]
  rfl

theorem Hierarchical.direct_setStatus (hg : g.Hierarchical) (hslot : g.slot? id = some slot)
    (hs : s.info? = some info) (hd : g.Drafted id supers info.withoutTables)
    (hknown : ∀ sup ∈ supers.superClass.toList ++ supers.interfaces, g.Known sup)
    (h : (g.setStatus id s).Direct c sup) : g.Known sup ∧ (c ≠ id → g.Direct c sup) := by
  obtain ⟨info', hinfo⟩ := direct_known h
  rw [Direct, directSupertypes_eq hinfo] at h
  rcases info?_setStatus_cases hslot hs hinfo with ⟨rfl, rfl⟩ | ⟨-, hold⟩
  · rw [hd.directSupertypes] at h
    exact ⟨hknown sup h, fun hne => absurd rfl hne⟩
  · rw [← directSupertypes_eq hold] at h
    exact ⟨hg.known h, fun _ => h⟩

theorem Hierarchical.acyclic_of_new (hg : g.Hierarchical) (hnew : ¬g.Known id)
    (hdirect : ∀ {c sup}, g'.Direct c sup → g.Known sup ∧ (c ≠ id → g.Direct c sup)) :
    ∃ rank : ClassId → Nat, ∀ c sup, g'.Direct c sup → rank sup < rank c := by
  -- Every class known so far has a rank below the size of the graph.
  obtain ⟨rank, hrank, hbound⟩ := hg.bounded
  refine ⟨fun c => if c = id then g.size else rank c, fun c sup h => ?_⟩
  obtain ⟨hsup, hold⟩ := hdirect h
  have hne : sup ≠ id := fun heq => hnew (heq ▸ hsup)
  dsimp only
  rw [if_neg hne]
  by_cases hc : c = id
  · rw [if_pos hc]
    exact hbound hsup
  · rw [if_neg hc]
    exact hrank (hold hc)

theorem WellFormed.setStatus (hg : g.WellFormed) (hslot : g.slot? id = some slot)
    (hnew : ¬g.Known id) (hs : s.info? = some info) (hd : g.Drafted id supers info.withoutTables)
    (hknown : ∀ sup ∈ supers.superClass.toList ++ supers.interfaces, g.Known sup) :
    (g.setStatus id s).WellFormed := by
  have hr : g.Retains (g.setStatus id s) := retains_setStatus (.inl hnew)
  have e := hr.extends
  have hdirect : ∀ {c sup}, (g.setStatus id s).Direct c sup →
      g.Known sup ∧ (c ≠ id → g.Direct c sup) :=
    fun h => hg.direct_setStatus hslot hs hd hknown h
  refine { self := ?_, known := ?_, superKind := ?_, interfaceKind := ?_, acyclic := ?_, distinct := ?_ }
  · intro c info' h
    rcases info?_setStatus_cases hslot hs h with ⟨rfl, rfl⟩ | ⟨-, hold⟩
    · exact hd.self
    · exact hg.self hold
  · exact fun h => e.known (hdirect h).1
  · intro c sup h
    rw [e.isInterface (hdirect (direct_of_superClass h)).1]
    obtain ⟨info', hinfo⟩ := direct_known (direct_of_superClass h)
    rw [superClass?_eq hinfo] at h
    rcases info?_setStatus_cases hslot hs hinfo with ⟨rfl, rfl⟩ | ⟨-, hold⟩
    · exact hd.superKind (hd.superClass ▸ h)
    · exact hg.superKind ((superClass?_eq hold).trans h)
  · intro c info' i h hi
    rw [e.isInterface (hdirect (direct_of_interface h hi)).1]
    rcases info?_setStatus_cases hslot hs h with ⟨rfl, rfl⟩ | ⟨-, hold⟩
    · exact hd.interfaceKind (hd.interfaces ▸ hi)
    · exact hg.interfaceKind hold hi
  · exact hg.acyclic_of_new hnew hdirect
  · intro c info' h
    rcases info?_setStatus_cases hslot hs h with ⟨rfl, rfl⟩ | ⟨-, hold⟩
    · exact hd.distinct
    · exact hg.distinct hold

theorem extends_setStatus {t : Status} (hslot : g.slot? id = some slot) (hs : s.info? = some info)
    (ht : t.info? = some info') (hsame : info'.withoutTables = info.withoutTables) :
    (g.setStatus id s).Extends (g.setStatus id t) where
  size_le := by rw [size_setStatus, size_setStatus]
  record := by
    intro c _
    by_cases hc : c = id
    · subst hc
      simp [record?, slot?_setStatus_self hslot]
    · simp [record?, slot?_setStatus_of_ne hc]
  info := by
    intro c found h
    rcases info?_setStatus_cases hslot hs h with ⟨rfl, rfl⟩ | ⟨hc, hold⟩
    · exact ⟨info', (info?_setStatus_self hslot).trans ht, hsame⟩
    · exact ⟨found, (info?_setStatus_of_ne hc).trans hold, rfl⟩

theorem finish_of_error {e : LinkError} (hdraft : g.draft options id slot supers = .error e) :
    g.finish options id slot supers = .error e := by
  rw [finish, hdraft]
  rfl

theorem finish_of_draft (hdraft : g.draft options id slot supers = .ok info) :
    g.finish options id slot supers = g.complete options info := by
  rw [finish, hdraft]
  rfl

theorem Retains.draft (hr : g.Retains g') (hslot : g.slot? id = some slot) {old : Slot}
    (hknown : ∀ sup ∈ supers.superClass.toList ++ supers.interfaces, g.Known sup) :
    g'.draft options id old supers = g.draft options id old supers := by
  refine hr.extends.draft (hr.className hslot) (fun {sup} hsup => ?_) fun {i} hi => ?_
  · have hsup := hknown sup (by simp [hsup])
    exact ⟨hsup, hr.info_eq hsup⟩
  · exact hknown i (by simp [hi])

def tabulate (g : ClassGraph) (options : LinkOptions) (info : ClassInfo) :
    Except LinkError ClassInfo := do
  let vtable ← g.buildVtable info options.verifyVtables
  return { info with vtable, interfaceTable := g.buildInterfaceTable info vtable }

theorem complete_of_interface (hkind : info.isInterface = true) : g.complete options info = .ok info := by
  rw [complete, if_pos hkind]
  rfl

theorem complete_of_class (hkind : info.isInterface = false) :
    g.complete options info = (g.setStatus info.id (.drafted info)).tabulate options info := by
  rw [complete, if_neg (by simp [hkind])]
  rfl

theorem finish_ok (h : g.finish options id slot supers = .ok info) :
    g.draft options id slot supers = .ok info.withoutTables ∧
      (info.isInterface = true → info.vtable = [] ∧ info.interfaceTable = []) := by
  obtain ⟨draft, hdraft, h⟩ := bind_ok_iff.mp h
  have hd := draft_ok hdraft
  cases hkind : draft.isInterface with
  | true =>
      rw [complete_of_interface hkind] at h
      obtain rfl := Except.ok.inj h
      refine ⟨hd.withoutTables.symm ▸ hdraft, fun _ => ?_⟩
      rw [← hd.withoutTables]
      exact ⟨rfl, rfl⟩
  | false =>
      rw [complete_of_class hkind] at h
      obtain ⟨vtable, -, h⟩ := bind_ok_iff.mp h
      obtain rfl := pure_ok_iff.mp h
      refine ⟨hdraft.trans (congrArg Except.ok hd.withoutTables.symm), fun hinterface => ?_⟩
      exact absurd (hkind.symm.trans hinterface) (by simp)

theorem Extends.tabulate (e : g.Extends g') (hg : g.WellFormed) (hid : g.Known info.id)
    (hsuper : ∀ {s}, info.superClass = some s → g.Known s ∧ g'.info? s = g.info? s)
    (hinherited : g.KnownMethods (g.inheritedVtable info)) :
    g'.tabulate options info = g.tabulate options info := by
  rw [ClassGraph.tabulate, ClassGraph.tabulate,
    e.buildVtable hg hid (fun s hs => (hsuper hs).2) hinherited]
  cases htable : g.buildVtable info options.verifyVtables with
  | error e => simp only [bind, Except.bind]
  | ok vtable =>
      have hknown := hg.buildVtable_known hid hinherited htable
      simp only [bind, Except.bind, e.buildInterfaceTable hg.toHierarchical hid
        (fun s hs => (hsuper hs).1) hknown]

theorem Coherent.complete_drafted (hg : g.Coherent allowed) (hslot : g.slot? id = some slot)
    (hnew : ¬g.Known id) (hd : g.Drafted id supers info)
    (hknown : ∀ sup ∈ supers.superClass.toList ++ supers.interfaces, g.Known sup)
    (hclass : info.isInterface = false) (e : (g.setStatus id (.drafted info)).Extends g')
    (hsame : ∀ {s}, info.superClass = some s → g'.info? s = g.info? s) :
    g.complete options info = g'.tabulate options info := by
  obtain rfl : info.id = id := hd.self
  have hsuper : ∀ {s}, info.superClass = some s → g.Known s ∧ s ≠ info.id := by
    intro s hs
    have hs' := hknown s (by simp [← hd.superClass, hs])
    exact ⟨hs', fun heq => hnew (heq ▸ hs')⟩
  have hretains : g.Retains (g.setStatus info.id (.drafted info)) := retains_setStatus (.inl hnew)
  have hwf : (g.setStatus info.id (.drafted info)).WellFormed :=
    hg.toWellFormed.setStatus hslot hnew rfl (hd.withoutTables.symm ▸ hd) hknown
  rw [complete_of_class hclass]
  refine (e.tabulate hwf (known_of_info (info?_setStatus_self hslot)) (fun {s} hs => ?_) ?_).symm
  · exact ⟨hretains.extends.known (hsuper hs).1,
      (hsame hs).trans (info?_setStatus_of_ne (hsuper hs).2).symm⟩
  · rw [inheritedVtable_congr fun s hs => info?_setStatus_of_ne (hsuper hs).2]
    exact fun m hm => hretains.extends.known (hg.inherited_known (fun hs => (hsuper hs).1) m hm)

theorem tabulate_ok (h : g.tabulate options info' = .ok info) :
    g.buildVtable info options.verifyVtables = .ok info.vtable ∧
      info.interfaceTable = g.buildInterfaceTable info info.vtable := by
  obtain ⟨vtable, hvtable, h⟩ := bind_ok_iff.mp h
  obtain rfl := pure_ok_iff.mp h
  exact ⟨hvtable, rfl⟩

theorem Coherent.finished_linked (hg : g.Coherent allowed) (hslot : g.slot? id = some slot)
    (hnew : ¬g.Known id) (hresolved : g.Resolved options slot.record supers)
    (hknown : ∀ sup ∈ supers.superClass.toList ++ supers.interfaces, g.Known sup)
    (h : g.finish options id slot supers = .ok info) :
    (g.setStatus id (.linked info)).Finished options { slot with status := .linked info } info := by
  obtain ⟨hdraft, hinterface⟩ := finish_ok h
  have hd := draft_ok hdraft
  have hsupers : (⟨info.superClass, info.interfaces⟩ : Supertypes) = supers := by
    rw [show info.superClass = supers.superClass from hd.superClass,
      show info.interfaces = supers.interfaces from hd.interfaces]
  have hr : g.Retains (g.setStatus id (.linked info)) := retains_setStatus (.inl hnew)
  have e : (g.setStatus id (.drafted info.withoutTables)).Extends
      (g.setStatus id (.linked info)) := extends_setStatus hslot rfl rfl rfl
  have hsame : ∀ {s}, info.superClass = some s →
      (g.setStatus id (.linked info)).info? s = g.info? s := by
    intro s hs
    have hs' := hknown s (by simp [← hsupers, hs])
    exact info?_setStatus_of_ne fun heq => hnew (heq ▸ hs')
  have htables : info.isInterface = false →
      (g.setStatus id (.linked info)).tabulate options info.withoutTables = .ok info := by
    intro hkind
    have hcomplete := (finish_of_draft hdraft).symm.trans h
    rwa [hg.complete_drafted hslot hnew hd hknown hkind e hsame] at hcomplete
  refine ⟨?_, ?_, hinterface, fun hkind => (tabulate_ok (htables hkind)).1,
    fun hkind => (tabulate_ok (htables hkind)).2⟩
  · rw [hsupers]
    exact hresolved.retain hr fun sup hsup => slot_of_known (hknown sup hsup)
  · rw [hsupers, show info.id = id from hd.self, ← hdraft]
    exact hr.draft hslot hknown

theorem Coherent.linked (hg : g.Coherent allowed) (hallowed : allowed options)
    (hslot : g.slot? id = some slot) (hnew : ¬g.Known id)
    (hresolved : g.Resolved options slot.record supers)
    (hknown : ∀ sup ∈ supers.superClass.toList ++ supers.interfaces, g.Known sup)
    (h : g.finish options id slot supers = .ok info) :
    (g.setStatus id (.linked info)).Coherent allowed := by
  have hd := draft_ok (finish_ok h).1
  have hr : g.Retains (g.setStatus id (.linked info)) := retains_setStatus (.inl hnew)
  refine { toWellFormed := hg.toWellFormed.setStatus hslot hnew rfl hd hknown,
           undrafted := fun {c found} hc => ?_, finished := fun {c found} hc => ?_ }
  · by_cases heq : c = id
    · subst heq
      rw [status_setStatus_self hslot] at hc
      cases hc
    · rw [status_setStatus_of_ne heq] at hc
      exact hg.undrafted hc
  · rcases info?_setStatus_cases hslot rfl hc with ⟨rfl, rfl⟩ | ⟨hne, hold⟩
    · exact ⟨options, _, hallowed, slot?_setStatus_self hslot,
        hg.finished_linked hslot hnew hresolved hknown h⟩
    · obtain ⟨options', slot', hallowed', hslot', hfinished⟩ := hg.finished hold
      exact ⟨options', slot', hallowed', (slot?_setStatus_of_ne hne).trans hslot',
        hfinished.retain hr hg hold slot'.status⟩

end Linkage.ClassGraph
