import Linkage.Proofs.Linking

namespace Linkage

def ClassRecord.supertypeNames (record : ClassRecord) : List String :=
  record.superName.toList ++ record.interfaces

namespace ClassGraph

open Outcome

variable {g g' g'' : ClassGraph} {id c : ClassId} {slot : Slot} {s : Status} {info : ClassInfo}
  {options : LinkOptions} {supers : Supertypes} {record : ClassRecord} {name : String}
  {ids rest : List ClassId}

def declared (g : ClassGraph) : List (ClassRecord × Origin) :=
  g.slots.toList.map fun slot => (slot.record, slot.origin)

theorem declared_getElem? (g : ClassGraph) (id : ClassId) :
    g.declared[id.index]? = (g.slot? id).map fun slot => (slot.record, slot.origin) := by
  simp [declared, slot?]

theorem declared_setStatus : (g.setStatus id s).declared = g.declared := by
  refine List.ext_getElem? fun n => ?_
  have hslot : (g.setStatus id s).slot? ⟨n⟩ = _ := slot?_setStatus
  rw [declared_getElem? _ ⟨n⟩, declared_getElem? _ ⟨n⟩, hslot]
  split
  · rw [Option.map_map]
    rfl
  · rfl

theorem slot?_congr (h : g'.declared = g.declared) (hslot : g.slot? id = some slot) :
    ∃ status, g'.slot? id = some { slot with status } := by
  have hsame := declared_getElem? g' id
  rw [h, declared_getElem?, hslot, Option.map_some, eq_comm, Option.map_eq_some_iff] at hsame
  obtain ⟨slot', hslot', heq⟩ := hsame
  obtain ⟨hrecord, horigin⟩ := Prod.mk.inj heq
  exact ⟨slot'.status, by rw [hslot', ← hrecord, ← horigin]⟩

theorem slot?_eq_none_congr (h : g'.declared = g.declared) (hslot : g.slot? id = none) :
    g'.slot? id = none := by
  have hsame := declared_getElem? g' id
  rw [h, declared_getElem?, hslot] at hsame
  simpa using hsame.symm

theorem record?_eq_declared (g : ClassGraph) (id : ClassId) :
    g.record? id = (g.declared[id.index]?).map (·.1) := by
  rw [declared_getElem?, Option.map_map]
  rfl

theorem origin?_eq_declared (g : ClassGraph) (id : ClassId) :
    g.origin? id = (g.declared[id.index]?).map (·.2) := by
  rw [declared_getElem?, Option.map_map]
  rfl

theorem size_eq_declared (g : ClassGraph) : g.size = g.declared.length := by
  simp [size, declared]

theorem record?_congr (h : g'.declared = g.declared) (id : ClassId) :
    g'.record? id = g.record? id := by
  rw [record?_eq_declared, record?_eq_declared, h]

theorem origin?_congr (h : g'.declared = g.declared) (id : ClassId) :
    g'.origin? id = g.origin? id := by
  rw [origin?_eq_declared, origin?_eq_declared, h]

theorem name_congr (h : g'.declared = g.declared) (id : ClassId) : g'.name id = g.name id := by
  rw [name_eq_record, name_eq_record, record?_congr h]

theorem size_congr (h : g'.declared = g.declared) : g'.size = g.size := by
  rw [size_eq_declared, size_eq_declared, h]

theorem find?_eq_declared (g : ClassGraph) (origin : Origin) (name : String) : g.find? origin name =
    (g.declared.findIdx? fun d => d.2 = origin && d.1.name = name).map ClassId.mk := by
  rw [find?, declared, List.findIdx?_map, ← List.findIdx?_toArray]
  rfl

theorem find?_congr (h : g'.declared = g.declared) (origin : Origin) (name : String) :
    g'.find? origin name = g.find? origin name := by
  rw [find?_eq_declared, find?_eq_declared, h]

theorem lookup_congr (h : g'.declared = g.declared) (name : String) :
    g'.lookup name = g.lookup name := by
  rw [lookup, lookup, find?_congr h, find?_congr h]

theorem resolveSupertypes_congr (h : g'.declared = g.declared) :
    g'.resolveSupertypes options record = g.resolveSupertypes options record := by
  have hname : g'.resolveName record = g.resolveName record := by
    funext name
    rw [resolveName, resolveName, lookup_congr h]
  rw [resolveSupertypes, resolveSupertypes, hname]

def Names (g : ClassGraph) (a b : ClassId) : Prop :=
  ∃ record, g.record? a = some record ∧ ∃ name ∈ record.supertypeNames, g.lookup name = some b

def Pending (g : ClassGraph) (a b : ClassId) : Prop :=
  g.isLinked a = false ∧ g.Names a b

def Closed (g : ClassGraph) (id : ClassId) : Prop :=
  ∃ record, g.record? id = some record ∧
    ∀ name ∈ record.supertypeNames, ∃ sup, g.lookup name = some sup ∧ g.isLinked sup = true

theorem names_congr (h : g'.declared = g.declared) : g'.Names = g.Names := by
  funext a b
  simp only [Names, record?_congr h, lookup_congr h]

theorem Closed.linked (h : g.Closed id) (hnames : g.Names id c) : g.isLinked c = true := by
  obtain ⟨record, hrecord, hclosed⟩ := h
  obtain ⟨record', hrecord', name, hname, hc⟩ := hnames
  obtain rfl := Option.some.inj (hrecord.symm.trans hrecord')
  obtain ⟨sup, hsup, hlinked⟩ := hclosed name hname
  obtain rfl := Option.some.inj (hsup.symm.trans hc)
  exact hlinked

theorem Closed.mono (h : g.Closed id) (hdeclared : g'.declared = g.declared)
    (hlinked : ∀ {c}, g.isLinked c = true → g'.isLinked c = true) : g'.Closed id := by
  obtain ⟨record, hrecord, hclosed⟩ := h
  refine ⟨record, (record?_congr hdeclared id).trans hrecord, fun name hname => ?_⟩
  obtain ⟨sup, hsup, hsupLinked⟩ := hclosed name hname
  exact ⟨sup, (lookup_congr hdeclared name).trans hsup, hlinked hsupLinked⟩

theorem resolveName_lookup (h : g.resolveName record name = .ok id) : g.lookup name = some id := by
  unfold resolveName at h
  split at h
  next found hfound => rw [hfound, Except.ok.inj h]
  next => simp at h

theorem resolveSupertypes_lookup (h : g.resolveSupertypes options record = .ok supers) :
    record.supertypeNames.map g.lookup = (supers.superClass.toList ++ supers.interfaces).map some := by
  unfold resolveSupertypes at h
  split at h
  next => simp [throw_bind] at h
  next => simp [throw_bind] at h
  next =>
    obtain ⟨superClass, hsuper, h⟩ := bind_ok_iff.mp h
    obtain ⟨interfaces, hinterfaces, h⟩ := bind_ok_iff.mp h
    obtain rfl := pure_ok_iff.mp h
    rw [ClassRecord.supertypeNames, List.map_append, List.map_append,
      map_of_mapM_ok resolveName_lookup hinterfaces]
    congr 1
    cases hname : record.superName with
    | none =>
        rw [hname] at hsuper
        obtain rfl := pure_ok_iff.mp hsuper
        rfl
    | some superName =>
        rw [hname, Option.mapM_some] at hsuper
        obtain ⟨id, hid, rfl⟩ := map_ok_iff.mp hsuper
        simp [resolveName_lookup hid]

theorem names_of_resolved (hrecord : g.record? id = some record)
    (h : g.resolveSupertypes options record = .ok supers) :
    ∀ sup ∈ supers.superClass.toList ++ supers.interfaces, g.Names id sup := by
  intro sup hsup
  have hmem := List.mem_map_of_mem (f := some) hsup
  rw [← resolveSupertypes_lookup h, List.mem_map] at hmem
  obtain ⟨name, hname, hlookup⟩ := hmem
  exact ⟨record, hrecord, name, hname, hlookup⟩

theorem closed_of_resolved (hrecord : g.record? id = some record)
    (h : g.resolveSupertypes options record = .ok supers) (hdeclared : g'.declared = g.declared)
    (hlinked : ∀ sup ∈ supers.superClass.toList ++ supers.interfaces, g'.isLinked sup = true) :
    g'.Closed id := by
  refine ⟨record, (record?_congr hdeclared id).trans hrecord, fun name hname => ?_⟩
  have hmem := List.mem_map_of_mem (f := g.lookup) hname
  rw [resolveSupertypes_lookup h, List.mem_map] at hmem
  obtain ⟨sup, hsup, hlookup⟩ := hmem
  exact ⟨sup, (lookup_congr hdeclared name).trans hlookup.symm, hlinked sup hsup⟩

def leave (options : LinkOptions) (id : ClassId) (slot : Slot) (supers : Supertypes) :
    Except LinkError Unit × ClassGraph → Except LinkError Unit × ClassGraph
  | (.error e, g) => (.error e, g.setStatus id .unlinked)
  | (.ok (), g) =>
      match g.finish options id slot supers with
      | .error e => (.error e, g.setStatus id .unlinked)
      | .ok info => (.ok (), g.setStatus id (.linked info))

theorem linkWithin_enter {depth : Nat} (hslot : g.slot? id = some slot)
    (hstatus : g.status id = .unlinked)
    (hsupers : g.resolveSupertypes options slot.record = .ok supers) :
    linkWithin options (depth + 1) id g = leave options id slot supers
      (linkEach (linkWithin options depth) (supers.superClass.toList ++ supers.interfaces)
        (g.setStatus id .linking)) := by
  have hunlinked := (status_of_slot hslot).symm.trans hstatus
  simp only [linkWithin, hslot, hunlinked, hsupers]
  rfl

theorem isLinked_of_status (h : g.status id = s) : g.isLinked id = s.isLinked := by
  rw [isLinked, h]

theorem linkWithin_cases (options : LinkOptions) (depth : Nat) (id : ClassId) (g : ClassGraph) :
    (∃ info, g.status id = .linked info ∧ linkWithin options (depth + 1) id g = (.ok (), g)) ∨
    (∃ e, g.isLinked id = false ∧ linkWithin options (depth + 1) id g = (.error e, g)) ∨
    ∃ slot supers, g.slot? id = some slot ∧ g.status id = .unlinked ∧
      g.resolveSupertypes options slot.record = .ok supers := by
  cases hslot : g.slot? id with
  | none => exact .inr (.inl ⟨⟨g.name id, .notLinked⟩,
      by simp [isLinked, status, hslot, Status.isLinked], by simp only [linkWithin, hslot]⟩)
  | some slot =>
      have hstatus := status_of_slot hslot
      cases hs : slot.status with
      | linked info => exact .inl ⟨info, hstatus.trans hs, by simp only [linkWithin, hslot, hs]⟩
      | linking => exact .inr (.inl ⟨⟨g.name id, .circularInheritance⟩,
          isLinked_of_status (hstatus.trans hs), by simp only [linkWithin, hslot, hs]⟩)
      | drafted info => exact .inr (.inl ⟨⟨g.name id, .circularInheritance⟩,
          isLinked_of_status (hstatus.trans hs), by simp only [linkWithin, hslot, hs]⟩)
      | unlinked =>
          cases hsupers : g.resolveSupertypes options slot.record with
          | error e => exact .inr (.inl ⟨e, isLinked_of_status (hstatus.trans hs),
              by simp only [linkWithin, hslot, hs, hsupers]⟩)
          | ok supers => exact .inr (.inr ⟨slot, supers, rfl, hstatus.trans hs, hsupers⟩)

theorem isLinked_setStatus (hslot : g.slot? id = some slot) :
    (g.setStatus id s).isLinked c = if c = id then s.isLinked else g.isLinked c := by
  split
  next hc => rw [isLinked, hc, status_setStatus_self hslot]
  next hc => rw [isLinked, status_setStatus_of_ne hc, isLinked]

structure Spreads (g : ClassGraph) (ids : List ClassId) (out : Except LinkError Unit × ClassGraph) :
    Prop where
  declared : out.2.declared = g.declared
  keeps : ∀ {c}, g.isLinked c = true → out.2.isLinked c = true
  linking : ∀ {c}, g.status c = .linking → out.2.status c = .linking
  reached : ∀ {c}, out.2.isLinked c = true →
    g.isLinked c = true ∨ ∃ id ∈ ids, Relation.ReflTransGen g.Pending id c
  closed : ∀ {c}, out.2.isLinked c = true → g.isLinked c = true ∨ out.2.Closed c
  done : out.1 = .ok () → ∀ id ∈ ids, out.2.isLinked id = true

theorem pending_mono (hdeclared : g'.declared = g.declared)
    (hlinked : ∀ {c}, g.isLinked c = true → g'.isLinked c = true) {a b : ClassId}
    (h : Relation.ReflTransGen g'.Pending a b) : Relation.ReflTransGen g.Pending a b := by
  refine Relation.ReflTransGen.mono (fun a b hstep => ⟨?_, ?_⟩) _ _ h
  · by_contra hold
    rw [Bool.not_eq_false] at hold
    simp [Pending, hlinked hold] at hstep
  · exact names_congr hdeclared ▸ hstep.2

theorem Spreads.fail (g : ClassGraph) (ids : List ClassId) (e : LinkError) :
    g.Spreads ids (.error e, g) where
  declared := rfl
  keeps := id
  linking := id
  reached := .inl
  closed := .inl
  done := fun hok => by cases hok

theorem Spreads.nil (g : ClassGraph) : g.Spreads [] (.ok (), g) where
  declared := rfl
  keeps := id
  linking := id
  reached := .inl
  closed := .inl
  done := by simp

theorem Spreads.cons {out : Except LinkError Unit × ClassGraph} (first : g.Spreads [id] (.ok (), g'))
    (second : g'.Spreads rest out) : g.Spreads (id :: rest) out where
  declared := second.declared.trans first.declared
  keeps := fun h => second.keeps (first.keeps h)
  linking := fun h => second.linking (first.linking h)
  reached := by
    intro c hc
    rcases second.reached hc with hmid | ⟨root, hroot, hpath⟩
    · rcases first.reached hmid with hold | ⟨root, hroot, hpath⟩
      · exact .inl hold
      · exact .inr ⟨root, by simp_all, hpath⟩
    · exact .inr ⟨root, by simp [hroot], pending_mono first.declared first.keeps hpath⟩
  closed := by
    intro c hc
    rcases second.closed hc with hmid | hclosed
    · rcases first.closed hmid with hold | hclosed
      · exact .inl hold
      · exact .inr (hclosed.mono second.declared second.keeps)
    · exact .inr hclosed
  done := fun hok => List.forall_mem_cons.mpr
    ⟨second.keeps (first.done rfl id (by simp)), second.done hok⟩

theorem Spreads.stop {e : LinkError} (first : g.Spreads [id] (.error e, g')) :
    g.Spreads (id :: rest) (.error e, g') where
  declared := first.declared
  keeps := first.keeps
  linking := first.linking
  reached := by
    intro c hc
    rcases first.reached hc with hold | ⟨root, hroot, hpath⟩
    · exact .inl hold
    · exact .inr ⟨root, by simp_all, hpath⟩
  closed := first.closed
  done := fun hok => by cases hok

theorem linkEach_spreads {step : ClassId → ClassGraph → Except LinkError Unit × ClassGraph}
    (hstep : ∀ id (g : ClassGraph), g.Spreads [id] (step id g)) : g.Spreads ids (linkEach step ids g) := by
  induction ids generalizing g with
  | nil => exact .nil g
  | cons id rest ih =>
      have hid := hstep id g
      unfold linkEach
      split
      next g' hrun => exact .cons (hrun ▸ hid) ih
      next e g' hrun => exact .stop (hrun ▸ hid)

theorem slot_of_linking (h : g.status id = .linking) : ∃ slot, g.slot? id = some slot := by
  cases hslot : g.slot? id with
  | some slot => exact ⟨slot, rfl⟩
  | none =>
      rw [ClassGraph.status, hslot] at h
      cases h

theorem Spreads.around {deps : Except LinkError Unit} {out : Except LinkError Unit}
    (hslot : g.slot? id = some slot) (hstatus : g.status id = .unlinked)
    (h : (g.setStatus id .linking).Spreads ids (deps, g')) (hnames : ∀ dep ∈ ids, g.Names id dep)
    (hs : s.isLinked = false ∧ out ≠ .ok () ∨ s.isLinked = true ∧ g'.Closed id) :
    g.Spreads [id] (out, g'.setStatus id s) := by
  have hbefore : g.isLinked id = false := isLinked_of_status hstatus
  have hstart : ∀ {c}, (g.setStatus id .linking).isLinked c = g.isLinked c := fun {c} => by
    rw [isLinked_setStatus hslot]
    split
    next hc => rw [hc, hbefore]; rfl
    next => rfl
  have hlinking := h.linking (status_setStatus_self hslot)
  have hmiddle : g'.isLinked id = false := isLinked_of_status hlinking
  obtain ⟨slot', hslot'⟩ := slot_of_linking hlinking
  have hend : ∀ {c}, (g'.setStatus id s).isLinked c = if c = id then s.isLinked else g'.isLinked c :=
    isLinked_setStatus hslot'
  have hgrow : ∀ {c}, g'.isLinked c = true → (g'.setStatus id s).isLinked c = true := by
    intro c hc
    have hne : c ≠ id := fun heq => by simp [heq, hmiddle] at hc
    rwa [hend, if_neg hne]
  refine { declared := ?_, keeps := fun hc => ?_, linking := ?_, reached := ?_, closed := ?_, done := ?_ }
  · rw [declared_setStatus, h.declared, declared_setStatus]
  · exact hgrow (h.keeps (hstart.trans hc))
  · intro c hc
    have hne : c ≠ id := fun heq => by simp [heq, hstatus] at hc
    rw [status_setStatus_of_ne hne]
    exact h.linking ((status_setStatus_of_ne hne).trans hc)
  · intro c hc
    rw [hend] at hc
    by_cases heq : c = id
    · exact .inr ⟨id, by simp, heq ▸ .refl⟩
    · rw [if_neg heq] at hc
      rcases h.reached hc with hold | ⟨dep, hdep, hpath⟩
      · exact .inl (hstart.symm.trans hold)
      · refine .inr ⟨id, by simp, .head ⟨hbefore, hnames dep hdep⟩ ?_⟩
        exact pending_mono declared_setStatus (fun hc => hstart.trans hc) hpath
  · intro c hc
    rw [hend] at hc
    by_cases heq : c = id
    · rw [if_pos heq] at hc
      rcases hs with ⟨hno, -⟩ | ⟨-, hclosed⟩
      · simp [hno] at hc
      · exact .inr (heq ▸ hclosed.mono declared_setStatus hgrow)
    · rw [if_neg heq] at hc
      rcases h.closed hc with hold | hclosed
      · exact .inl (hstart.symm.trans hold)
      · exact .inr (hclosed.mono declared_setStatus hgrow)
  · intro hok
    rcases hs with ⟨-, hno⟩ | ⟨hlinked, -⟩
    · exact absurd hok hno
    · simpa [hend] using hlinked

theorem leave_spreads (hslot : g.slot? id = some slot) (hstatus : g.status id = .unlinked)
    (hsupers : g.resolveSupertypes options slot.record = .ok supers)
    {deps : Except LinkError Unit × ClassGraph}
    (h : (g.setStatus id .linking).Spreads (supers.superClass.toList ++ supers.interfaces) deps) :
    g.Spreads [id] (leave options id slot supers deps) := by
  have hrecord : g.record? id = some slot.record := by simp [record?, hslot]
  have hnames := names_of_resolved hrecord hsupers
  obtain ⟨out, after⟩ := deps
  cases out with
  | error e => exact .around hslot hstatus h hnames (.inl ⟨rfl, by simp⟩)
  | ok _ =>
      have hclosed : after.Closed id :=
        closed_of_resolved hrecord hsupers (h.declared.trans declared_setStatus) (h.done rfl)
      simp only [leave]
      split
      next => exact .around hslot hstatus h hnames (.inl ⟨rfl, by simp⟩)
      next => exact .around hslot hstatus h hnames (.inr ⟨rfl, hclosed⟩)

theorem linkWithin_spreads (options : LinkOptions) (depth : Nat) (id : ClassId) (g : ClassGraph) :
    g.Spreads [id] (linkWithin options depth id g) := by
  induction depth generalizing id g with
  | zero => exact .fail g _ _
  | succ depth ih =>
      rcases linkWithin_cases options depth id g with
        ⟨info, hlinked, hrun⟩ | ⟨e, -, hrun⟩ | ⟨slot, supers, hslot, hstatus, hsupers⟩
      · rw [hrun]
        refine { Spreads.fail g [id] ⟨"", .notLinked⟩ with done := fun _ => ?_ }
        simp [isLinked, hlinked, Status.isLinked]
      · rw [hrun]
        exact .fail g _ _
      · rw [linkWithin_enter hslot hstatus hsupers]
        exact leave_spreads hslot hstatus hsupers (linkEach_spreads ih)

theorem dependencies_spread (options : LinkOptions) (depth : Nat) (ids : List ClassId)
    (g : ClassGraph) : g.Spreads ids (linkEach (linkWithin options depth) ids g) :=
  linkEach_spreads (linkWithin_spreads options depth)

theorem dependencies_links {allowed : LinkOptions → Prop} (hallowed : allowed options) (depth : Nat)
    (ids : List ClassId) (hg : g.Coherent allowed) :
    Links allowed g ids (linkEach (linkWithin options depth) ids g) :=
  linkEach_links (linkWithin_links hallowed depth) hg

theorem Coherent.run_links (hg : g.Coherent fun _ => True) (options : LinkOptions) (depth : Nat)
    (id : ClassId) : Links (fun _ => True) g [id] (linkWithin options depth id g) :=
  linkWithin_links trivial depth id g hg

theorem Coherent.runs_links (hg : g.Coherent fun _ => True) (options : LinkOptions) (depth : Nat)
    (ids : List ClassId) : Links (fun _ => True) g ids (linkEach (linkWithin options depth) ids g) :=
  dependencies_links trivial depth ids hg

theorem Spreads.linked_iff (h : g.Spreads ids (.ok (), g')) :
    g'.isLinked c = true ↔
      g.isLinked c = true ∨ ∃ id ∈ ids, Relation.ReflTransGen g.Pending id c := by
  refine ⟨h.reached, ?_⟩
  rintro (hold | ⟨id, hid, hpath⟩)
  · exact h.keeps hold
  · induction hpath with
    | refl => exact h.done rfl id hid
    | tail _ hstep ih =>
        rcases h.closed ih with hold | hclosed
        · simp [hstep.1] at hold
        · exact hclosed.linked (names_congr h.declared ▸ hstep.2)

end ClassGraph

end Linkage
