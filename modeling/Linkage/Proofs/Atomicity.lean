import Linkage.Proofs.Dependencies
import Linkage.Proofs.Reachability

namespace Linkage.ClassGraph

open ClassRecord Linking Outcome

variable {g g' h : ClassGraph} {id c : ClassId} {slot : Slot} {s : Status} {info : ClassInfo}
  {options : LinkOptions} {supers : Supertypes} {ids : List ClassId}
  {allowed : LinkOptions → Prop}

def abandon (view : ClassGraph → ClassGraph) (options : LinkOptions) (id : ClassId) (slot : Slot)
    (supers : Supertypes) :
    Except LinkError Unit × ClassGraph → Except LinkError Unit × ClassGraph
  | (.error e, g) => (.error e, g)
  | (.ok (), g) =>
      match (view g).draft options id slot supers with
      | .error e => (.error e, g)
      | .ok draft =>
          match (view g).complete options draft with
          | .error e => (.error e, g.setStatus id (.drafted draft))
          | .ok info => (.ok (), g.setStatus id (.linked info))

-- Links as `linkWithin` does, but finds out about classes in `view` of the graph, and leaves those
-- in progress as they are when there is an error.
def attempt (view : ClassGraph → ClassGraph) (options : LinkOptions) :
    (depth : Nat) → ClassId → ClassGraph → Except LinkError Unit × ClassGraph
  | 0, id, g => (.error ⟨g.name id, .circularInheritance⟩, g)
  | depth + 1, id, g =>
      match g.slot? id with
      | none => (.error ⟨g.name id, .notLinked⟩, g)
      | some slot =>
          match slot.status with
          | .linked _ => (.ok (), g)
          | .linking => (.error ⟨g.name id, .circularInheritance⟩, g)
          | .drafted _ => (.error ⟨g.name id, .circularInheritance⟩, g)
          | .unlinked =>
              match g.resolveSupertypes options slot.record with
              | .error e => (.error e, g)
              | .ok supers => abandon view options id slot supers
                  (linkEach (attempt view options depth)
                    (supers.superClass.toList ++ supers.interfaces) (g.setStatus id .linking))

def rollback (g : ClassGraph) : ClassGraph :=
  ⟨g.slots.map fun slot =>
    if slot.status.isLinked then slot else { slot with status := .unlinked }⟩

theorem slot?_rollback : g.rollback.slot? c = (g.slot? c).map fun slot =>
    if slot.status.isLinked then slot else { slot with status := .unlinked } := by
  simp [slot?, rollback]

theorem status_rollback : g.rollback.status c = if g.isLinked c then g.status c else .unlinked := by
  cases hslot : g.slot? c with
  | none => simp [isLinked, status, slot?_rollback, hslot]
  | some slot =>
      simp only [isLinked, status, slot?_rollback, hslot, Option.map_some]
      split <;> rfl

theorem ext_slot (h : ∀ c, g.slot? c = g'.slot? c) : g = g' := by
  obtain ⟨slots⟩ := g
  obtain ⟨slots'⟩ := g'
  congr 1
  exact Array.ext_getElem? fun n => h ⟨n⟩

theorem rollback_setStatus (hs : s.isLinked = false) (hid : g.isLinked id = false) :
    (g.setStatus id s).rollback = g.rollback := by
  refine ext_slot fun c => ?_
  rw [slot?_rollback, slot?_rollback, slot?_setStatus]
  split
  next hc =>
    subst hc
    cases hslot : g.slot? c with
    | none => rfl
    | some slot =>
        rw [isLinked_of_status (status_of_slot hslot)] at hid
        simp [hs, hid]
  next => rfl

theorem rollback_of_settled (h : ∀ c, g.status c = .unlinked ∨ ∃ info, g.status c = .linked info) :
    g.rollback = g := by
  refine ext_slot fun c => ?_
  rw [slot?_rollback]
  cases hslot : g.slot? c with
  | none => rfl
  | some slot =>
      rcases h c with hc | ⟨info, hc⟩
      · rw [status_of_slot hslot] at hc
        obtain ⟨record, origin, status⟩ := slot
        subst hc
        rfl
      · rw [status_of_slot hslot] at hc
        simp [hc, Status.isLinked]

structure Alike (a b : Except LinkError Unit × ClassGraph) : Prop where
  result : a.1 = b.1
  graph : a.1 = .ok () → a.2 = b.2
  rollback : a.2.rollback = b.2.rollback

theorem Alike.refl (a : Except LinkError Unit × ClassGraph) : Alike a a :=
  ⟨rfl, fun _ => rfl, rfl⟩

theorem Alike.fail {e : LinkError} (h : g.rollback = g'.rollback) :
    Alike (.error e, g) (.error e, g') :=
  ⟨rfl, by simp, h⟩

theorem linkEach_alike {step step' : ClassId → ClassGraph → Except LinkError Unit × ClassGraph}
    (hstep : ∀ id g, Alike (step id g) (step' id g)) :
    Alike (linkEach step ids g) (linkEach step' ids g) := by
  induction ids generalizing g with
  | nil => exact .refl _
  | cons id rest ih =>
      obtain ⟨hresult, hgraph, hrollback⟩ := hstep id g
      unfold linkEach
      cases hrun : step id g with
      | mk out after =>
          cases hrun' : step' id g with
          | mk out' after' =>
              rw [hrun, hrun'] at hresult hgraph hrollback
              subst hresult
              cases out with
              | error e => exact .fail hrollback
              | ok _ =>
                  obtain rfl := hgraph rfl
                  exact ih

theorem abandon_alike {deps deps' : Except LinkError Unit × ClassGraph} (h : Alike deps deps')
    (hid : deps'.2.isLinked id = false) :
    Alike (abandon (fun g => g) options id slot supers deps)
      (leave options id slot supers deps') := by
  obtain ⟨out, after⟩ := deps
  obtain ⟨out', after'⟩ := deps'
  obtain ⟨rfl, hgraph, hrollback⟩ := h
  have hundo : (after'.setStatus id .unlinked).rollback = after'.rollback := rollback_setStatus rfl hid
  cases out with
  | error e => exact .fail (hrollback.trans hundo.symm)
  | ok _ =>
      obtain rfl := hgraph rfl
      cases hdraft : after.draft options id slot supers with
      | error e =>
          simp only [abandon, leave, hdraft, finish_of_error hdraft]
          exact .fail hundo.symm
      | ok draft =>
          cases hcomplete : after.complete options draft with
          | error e =>
              simp only [abandon, leave, hdraft, finish_of_draft hdraft, hcomplete]
              exact .fail ((rollback_setStatus rfl hid).trans hundo.symm)
          | ok info =>
              simp only [abandon, leave, hdraft, finish_of_draft hdraft, hcomplete]
              exact .refl _

theorem attempt_alike (options : LinkOptions) (depth : Nat) (id : ClassId) (g : ClassGraph) :
    Alike (attempt (fun g => g) options depth id g) (linkWithin options depth id g) := by
  induction depth generalizing id g with
  | zero => exact .refl _
  | succ depth ih =>
      unfold attempt
      split
      next hslot =>
        simp only [linkWithin, hslot]
        exact .refl _
      next slot hslot =>
        split
        next hs =>
          simp only [linkWithin, hslot, hs]
          exact .refl _
        next hs =>
          simp only [linkWithin, hslot, hs]
          exact .refl _
        next hs =>
          simp only [linkWithin, hslot, hs]
          exact .refl _
        next hs =>
          split
          next hsupers =>
            simp only [linkWithin, hslot, hs, hsupers]
            exact .refl _
          next supers hsupers =>
            rw [linkWithin_enter hslot ((status_of_slot hslot).trans hs) hsupers]
            have hspreads := dependencies_spread options depth
              (supers.superClass.toList ++ supers.interfaces) (g.setStatus id .linking)
            have hlinking := hspreads.linking (status_setStatus_self hslot)
            exact abandon_alike (linkEach_alike ih) (isLinked_of_status hlinking)

def fill (junk : ClassId → ClassInfo) (g : ClassGraph) : ClassGraph :=
  ⟨g.slots.mapIdx fun n slot =>
    if slot.status.info?.isSome then slot else { slot with status := .drafted (junk ⟨n⟩) }⟩

theorem slot?_fill {junk : ClassId → ClassInfo} : (g.fill junk).slot? c = (g.slot? c).map fun slot =>
    if slot.status.info?.isSome then slot else { slot with status := .drafted (junk c) } := by
  simp [slot?, fill]

theorem retains_fill (junk : ClassId → ClassInfo) (g : ClassGraph) : g.Retains (g.fill junk) where
  size_le := by simp [size, fill]
  slot := by
    intro c slot hslot
    rw [slot?_fill, hslot, Option.map_some]
    split
    next => exact ⟨slot.status, rfl⟩
    next => exact ⟨_, rfl⟩
  info := by
    intro c info hinfo
    obtain ⟨slot, hslot⟩ := slot_of_known (known_of_info hinfo)
    rw [info?, status_of_slot hslot] at hinfo
    have hfill : (g.fill junk).slot? c = some slot := by simp [slot?_fill, hslot, hinfo]
    rw [info?, status_of_slot hfill, hinfo]

theorem Retains.setStatus (hr : g.Retains h) (id : ClassId) (s : Status) :
    (g.setStatus id s).Retains (h.setStatus id s) where
  size_le := by
    rw [size_setStatus, size_setStatus]
    exact hr.size_le
  slot := by
    intro c slot hslot
    by_cases hc : c = id
    · subst hc
      rw [slot?_setStatus, if_pos rfl, Option.map_eq_some_iff] at hslot
      obtain ⟨old, hold, rfl⟩ := hslot
      obtain ⟨status, hnew⟩ := hr.slot hold
      exact ⟨s, (slot?_setStatus_self hnew).trans rfl⟩
    · rw [slot?_setStatus_of_ne hc] at hslot ⊢
      exact hr.slot hslot
  info := by
    intro c info hinfo
    by_cases hc : c = id
    · subst hc
      obtain ⟨slot, hslot⟩ := slot_of_known (known_of_info hinfo)
      rw [slot?_setStatus, if_pos rfl, Option.map_eq_some_iff] at hslot
      obtain ⟨old, hold, -⟩ := hslot
      obtain ⟨status, hnew⟩ := hr.slot hold
      rw [info?_setStatus_self hold] at hinfo
      rw [info?_setStatus_self hnew, hinfo]
    · rw [info?_setStatus_of_ne hc] at hinfo ⊢
      exact hr.info hinfo

theorem Retains.complete (hr : g.Retains h) (hg : g.Coherent allowed)
    (hslot : g.slot? id = some slot) (hnew : ¬g.Known id)
    (hknown : ∀ sup ∈ supers.superClass.toList ++ supers.interfaces, g.Known sup)
    (hd : g.Drafted id supers info) : h.complete options info = g.complete options info := by
  cases hkind : info.isInterface with
  | true => rw [complete_of_interface hkind, complete_of_interface hkind]
  | false =>
      obtain rfl : info.id = id := hd.self
      rw [complete_of_class hkind]
      refine (hg.complete_drafted hslot hnew hd hknown hkind (hr.setStatus _ _).extends ?_).symm
      intro s hs
      have hs := hknown s (by simp [← hd.superClass, hs])
      have hne : s ≠ info.id := fun heq => hnew (heq ▸ hs)
      rw [info?_setStatus_of_ne hne, hr.info_eq hs]

theorem linkEach_congr {step step' : ClassId → ClassGraph → Except LinkError Unit × ClassGraph}
    (P : ClassGraph → Prop) (hsame : ∀ id g, P g → step' id g = step id g)
    (hkeep : ∀ id g g', P g → step id g = (.ok (), g') → P g') (hg : P g) :
    linkEach step' ids g = linkEach step ids g := by
  induction ids generalizing g with
  | nil => rfl
  | cons id rest ih =>
      simp only [linkEach, hsame id g hg]
      split
      next g' hrun => exact ih (hkeep id g g' hg hrun)
      next => rfl

theorem attempt_ok {depth : Nat} (hrun : attempt (fun g => g) options depth id g = (.ok (), g')) :
    linkWithin options depth id g = (.ok (), g') := by
  obtain ⟨hresult, hgraph, -⟩ := attempt_alike options depth id g
  rw [hrun] at hresult hgraph
  exact Prod.ext hresult.symm (hgraph rfl).symm

theorem linkEach_attempt_ok {depth : Nat}
    (hrun : linkEach (attempt (fun g => g) options depth) ids g = (.ok (), g')) :
    linkEach (linkWithin options depth) ids g = (.ok (), g') := by
  obtain ⟨hresult, hgraph, -⟩ : Alike (linkEach (attempt (fun g => g) options depth) ids g)
      (linkEach (linkWithin options depth) ids g) := linkEach_alike (attempt_alike options depth)
  rw [hrun] at hresult hgraph
  exact Prod.ext hresult.symm (hgraph rfl).symm

theorem abandon_view {view : ClassGraph → ClassGraph} (hview : ∀ g : ClassGraph, g.Retains (view g))
    (hg : g.Coherent allowed) (hslot : g.slot? id = some slot) (hnew : ¬g.Known id) {old : Slot}
    (hknown : ∀ sup ∈ supers.superClass.toList ++ supers.interfaces, g.Known sup) :
    abandon view options id old supers (.ok (), g) =
      abandon (fun g => g) options id old supers (.ok (), g) := by
  simp only [abandon, (hview g).draft hslot hknown]
  cases hdraft : g.draft options id old supers with
  | error e => rfl
  | ok draft => simp only [(hview g).complete hg hslot hnew hknown (draft_ok hdraft)]

theorem attempt_view (hallowed : allowed options) {view : ClassGraph → ClassGraph}
    (hview : ∀ g : ClassGraph, g.Retains (view g)) (depth : Nat) (id : ClassId) (g : ClassGraph)
    (hg : g.Coherent allowed) :
    attempt view options depth id g = attempt (fun g => g) options depth id g := by
  induction depth generalizing id g with
  | zero => rfl
  | succ depth ih =>
      unfold attempt
      split
      next => rfl
      next slot hslot =>
        split
        next => rfl
        next => rfl
        next => rfl
        next hunlinked =>
          have hnew : ¬g.Known id :=
            not_known_of_status (by rw [status_of_slot hslot, hunlinked]; rfl)
          have hstart := hg.setStatus hslot hnew (s := .linking) rfl
          split
          next => rfl
          next supers hsupers =>
            rw [linkEach_congr (Coherent allowed) ih (fun c h h' hh hrun => ?_) hstart]
            · cases hrun : linkEach (attempt (fun g => g) options depth)
                  (supers.superClass.toList ++ supers.interfaces) (g.setStatus id .linking) with
              | mk out after =>
                  cases out with
                  | error e => rfl
                  | ok _ =>
                      have hlinks := dependencies_links hallowed depth
                        (supers.superClass.toList ++ supers.interfaces) hstart
                      rw [linkEach_attempt_ok hrun] at hlinks
                      have hlinking := hlinks.advances.linking (status_setStatus_self hslot)
                      obtain ⟨slot', hslot'⟩ := slot_of_linking hlinking
                      exact abandon_view hview hlinks.coherent hslot'
                        (not_known_of_status (by rw [hlinking]; rfl)) (hlinks.known rfl)
            · have hlinks := linkWithin_links hallowed depth c h hh
              rw [attempt_ok hrun] at hlinks
              exact hlinks.coherent

def Settled (g : ClassGraph) : Prop :=
  ∀ c, g.status c = .unlinked ∨ ∃ info, g.status c = .linked info

theorem Advances.settled (hadvances : g.Advances g') (hg : g.Settled) : g'.Settled := by
  intro c
  rcases hadvances.status c with hsame | ⟨-, info, hlinked⟩
  · rw [hsame]
    exact hg c
  · exact .inr ⟨info, hlinked⟩

theorem Reachable.settled (hg : Reachable allowed g) : g.Settled := by
  have hempty : empty.Settled := fun _ => .inl rfl
  rcases hg with hg | hg
  · exact (hg.keeps coherent_empty).2.settled hempty
  · exact (hg.keeps coherent_empty.add).2.settled (advances_add.settled hempty)

theorem Settled.isLinked_eq_false (hg : g.Settled) : g.isLinked c = false ↔ g.status c = .unlinked := by
  rcases hg c with hc | ⟨info, hc⟩
  · simp [isLinked, hc, Status.isLinked]
  · simp [isLinked, hc, Status.isLinked]

theorem not_linked_of_error {depth : Nat} {e : LinkError}
    (hrun : linkWithin options (depth + 1) id g = (.error e, g')) : g'.isLinked id = false := by
  have hundone : ∀ g : ClassGraph, (g.setStatus id .unlinked).isLinked id = false := fun g => by
    simp only [isLinked, status, slot?_setStatus, if_true]
    cases g.slot? id <;> rfl
  rcases linkWithin_cases options depth id g with
    ⟨info, -, hrun'⟩ | ⟨e', hunlinked, hrun'⟩ | ⟨slot, supers, hslot, hstatus, hsupers⟩
  · rw [hrun'] at hrun
    cases hrun
  · rw [hrun'] at hrun
    cases hrun
    exact hunlinked
  · rw [linkWithin_enter hslot hstatus hsupers] at hrun
    revert hrun
    generalize linkEach (linkWithin options depth) _ _ = deps
    obtain ⟨out, after⟩ := deps
    cases out with
    | error e' =>
        intro hrun
        cases hrun
        exact hundone after
    | ok _ =>
        simp only [leave]
        cases after.finish options id slot supers with
        | error e' =>
            intro hrun
            cases hrun
            exact hundone after
        | ok info =>
            intro hrun
            cases hrun

structure Atomic (g : ClassGraph) (id : ClassId) (out : Except LinkError Unit) (g' : ClassGraph) :
    Prop where
  idle : ∀ c, g'.status c ≠ .linking
  informed : ∀ c info, g'.info? c = some info ↔ g'.status c = .linked info
  grounded : ∀ a b, g'.Direct a b → g'.isLinked b = true
  kept : ∀ c info, g.status c = .linked info → g'.status c = .linked info
  size : g'.size = g.size
  declared : ∀ c, g'.record? c = g.record? c ∧ g'.origin? c = g.origin? c
  named : ∀ origin name, g'.find? origin name = g.find? origin name
  reached : ∀ c, g'.status c ≠ g.status c → Relation.ReflTransGen g.Names id c
  success : out = .ok () → ∀ c,
    g'.isLinked c = true ↔ g.isLinked c = true ∨ Relation.ReflTransGen g.Pending id c
  failure : ∀ e, out = .error e → g'.status id = .unlinked ∧
    ∀ c, g.isLinked c = false → g'.isLinked c = true → g'.Closed c

theorem Settled.info?_iff (hg : g.Settled) : g.info? c = some info ↔ g.status c = .linked info := by
  rcases hg c with hc | ⟨found, hc⟩
  · simp [info?, hc, Status.info?]
  · simp [info?, hc, Status.info?]

theorem Coherent.atomic (hg : g.Coherent allowed) (hsettled : g.Settled) (hallowed : allowed options)
    {out : Except LinkError Unit} {depth : Nat}
    (hrun : linkWithin options (depth + 1) id g = (out, g')) : g.Atomic id out g' := by
  have hlinks := linkWithin_links hallowed (depth + 1) id g hg
  have hspreads := linkWithin_spreads options (depth + 1) id g
  rw [hrun] at hlinks hspreads
  have hsettled' : g'.Settled := hlinks.advances.settled hsettled
  refine {
    idle := fun c hc => ?_, informed := fun c info => hsettled'.info?_iff,
    grounded := fun a b hdirect => ?_, kept := fun c info hc => ?_,
    size := size_congr hspreads.declared,
    declared := fun c => ⟨record?_congr hspreads.declared c, origin?_congr hspreads.declared c⟩,
    named := find?_congr hspreads.declared, reached := fun c hc => ?_, success := fun hok c => ?_,
    failure := fun e he => ⟨?_, fun c hbefore hafter => ?_⟩ }
  · rcases hsettled' c with hunlinked | ⟨info, hlinked⟩
    · simp [hunlinked] at hc
    · simp [hlinked] at hc
  · obtain ⟨info, hinfo⟩ := hlinks.coherent.known hdirect
    rw [isLinked_of_status (hsettled'.info?_iff.mp hinfo)]
    rfl
  · rcases hlinks.advances.status c with hsame | ⟨hunlinked, -⟩
    · exact hsame.trans hc
    · simp [hunlinked] at hc
  · rcases hlinks.advances.status c with hsame | ⟨hunlinked, info, hlinked⟩
    · exact absurd hsame hc
    · rcases hspreads.reached (isLinked_of_status hlinked) with hold | ⟨root, hroot, hpath⟩
      · simp [isLinked_of_status hunlinked, Status.isLinked] at hold
      · rw [List.mem_singleton.mp hroot] at hpath
        exact Relation.ReflTransGen.mono (fun _ _ hstep => hstep.2) _ _ hpath
  · subst hok
    simpa using hspreads.linked_iff
  · subst he
    exact hsettled'.isLinked_eq_false.mp (not_linked_of_error hrun)
  · rcases hspreads.closed hafter with hold | hclosed
    · simp [hbefore] at hold
    · exact hclosed

def InProgress (g : ClassGraph) (id : ClassId) : Prop :=
  g.status id = .linking ∨ ∃ info, g.status id = .drafted info

theorem InProgress.unlinked (hc : g.InProgress c) : g.rollback.status c = .unlinked := by
  have hunlinked : g.isLinked c = false := by
    rcases hc with hc | ⟨info, hc⟩
    · exact isLinked_of_status hc
    · exact isLinked_of_status hc
  simp [status_rollback, hunlinked]

theorem links_are_atomic (hg : Reachable allowed g) (hallowed : allowed options)
    {out : Except LinkError Unit} (hlink : (link options id).result g = (out, g')) :
    g.Atomic id out g' ∧ ∀ junk, ∃ left,
      attempt (fill junk) options (g.size + 1) id g = (out, left) ∧ g' = left.rollback ∧
      ∀ c, left.InProgress c → g'.status c = .unlinked ∧ g'.info? c = none := by
  refine ⟨hg.coherent.atomic hg.settled hallowed hlink, fun junk => ?_⟩
  have hview := attempt_view hallowed (retains_fill junk) (g.size + 1) id g hg.coherent
  have hlinks := linkWithin_links hallowed (g.size + 1) id g hg.coherent
  obtain ⟨hresult, -, hrollback⟩ := attempt_alike options (g.size + 1) id g
  change linkWithin options (g.size + 1) id g = (out, g') at hlink
  rw [hlink] at hlinks hresult hrollback
  have hback : g' = (attempt (fill junk) options (g.size + 1) id g).2.rollback := by
    rw [hview, hrollback, rollback_of_settled (hlinks.advances.settled hg.settled)]
  refine ⟨_, Prod.ext (hview ▸ hresult) rfl, hback, fun c hc => ?_⟩
  have hunlinked : g'.status c = .unlinked := hback ▸ hc.unlinked
  exact ⟨hunlinked, by rw [info?, hunlinked, Status.info?]⟩

def brokenBase : ClassGraph :=
  program [
    { name := "Runner", access := .publicInterface },
    { name := "Base", superName := some "Runner" },
    { name := "Derived", superName := some "Base" }] ⟨0⟩

def strayInfo (id : ClassId) : ClassInfo where
  id := id
  name := "Stray"
  version := .standard
  signature := none
  origin := .application
  access := .publicInterface
  modifiers := .publicInterface
  superClass := none
  interfaces := [id]
  fields := []
  methods := []
  staticFields := []
  instanceFields := []
  vtable := []
  interfaceTable := []

theorem brokenBase_link : ∃ g left : ClassGraph,
    brokenBase.Atomic ⟨3⟩ (.error ⟨"Base", .superIsInterface "Runner"⟩) g ∧
    brokenBase.isLinked ⟨1⟩ = false ∧ g.isLinked ⟨1⟩ = true ∧ g = left.rollback ∧
    left.InProgress ⟨2⟩ ∧ left.InProgress ⟨3⟩ := by
  obtain ⟨herror, hbefore, hafter, hbase, hderived⟩ :
      error? ((link {} ⟨3⟩).result brokenBase).1 =
        some ⟨"Base", .superIsInterface "Runner"⟩ ∧
      brokenBase.isLinked ⟨1⟩ = false ∧
      ((link {} ⟨3⟩).result brokenBase).2.isLinked ⟨1⟩ = true ∧
      (attempt (fill strayInfo) {} (brokenBase.size + 1) ⟨3⟩ brokenBase).2.status ⟨2⟩ = .linking ∧
      (attempt (fill strayInfo) {} (brokenBase.size + 1) ⟨3⟩ brokenBase).2.status ⟨3⟩ = .linking := by
    decide +kernel
  have hreach : Reachable (fun _ => True) brokenBase := reachable_program _ _
  obtain ⟨hatomic, hattempt⟩ :=
    links_are_atomic hreach trivial (Prod.ext (error?_eq_some herror) rfl)
  obtain ⟨left, hleft, hback, -⟩ := hattempt strayInfo
  rw [hleft] at hbase hderived
  exact ⟨_, left, hatomic, hbefore, hafter, hback, .inl hbase, .inl hderived⟩

end Linkage.ClassGraph
