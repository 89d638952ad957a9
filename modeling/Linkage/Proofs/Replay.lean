import Linkage.Proofs.Atomicity
import Linkage.Proofs.Lockstep

namespace Linkage.ClassGraph

open Outcome

variable {g g' h h' : ClassGraph} {id c : ClassId} {slot old : Slot} {s : Status} {info : ClassInfo}
  {options : LinkOptions} {supers : Supertypes} {ids : List ClassId}
  {allowed : LinkOptions → Prop}

theorem linkEach_keeps {step : ClassId → ClassGraph → Except LinkError Unit × ClassGraph}
    (P : ClassGraph → Prop) (hstep : ∀ id g, P g → P (step id g).2) (ids : List ClassId) (hg : P g) :
    P (linkEach step ids g).2 := by
  induction ids generalizing g with
  | nil => exact hg
  | cons id rest ih =>
      have hid := hstep id g hg
      unfold linkEach
      split
      next g' hrun =>
        rw [hrun] at hid
        exact ih hid
      next e g' hrun =>
        rw [hrun] at hid
        exact hid

theorem linkWithin_keeps (P : ClassGraph → Prop)
    (hclear : ∀ {g : ClassGraph} {id : ClassId} {s : Status}, s.info? = none → P g →
      P (g.setStatus id s))
    (hlinked : ∀ {g : ClassGraph} {id : ClassId} {slot : Slot} {supers info}, P g →
      g.record? id = some slot.record → g.resolveSupertypes options slot.record = .ok supers →
      g.finish options id slot supers = .ok info → P (g.setStatus id (.linked info)))
    (depth : Nat) (id : ClassId) (g : ClassGraph) (hg : P g) :
    P (linkWithin options depth id g).2 := by
  induction depth generalizing id g with
  | zero => exact hg
  | succ depth ih =>
      rcases linkWithin_cases options depth id g with
        ⟨info, -, hrun⟩ | ⟨e, -, hrun⟩ | ⟨slot, supers, hslot, hstatus, hsupers⟩
      · rwa [hrun]
      · rwa [hrun]
      · rw [linkWithin_enter hslot hstatus hsupers]
        have hstart : P (g.setStatus id .linking) := hclear rfl hg
        have hdeps := linkEach_keeps P ih (supers.superClass.toList ++ supers.interfaces) hstart
        have hdeclared := (dependencies_spread options depth
          (supers.superClass.toList ++ supers.interfaces)
          (g.setStatus id .linking)).declared.trans declared_setStatus
        generalize linkEach (linkWithin options depth) _ _ = deps at hdeps hdeclared
        obtain ⟨out, after⟩ := deps
        cases out with
        | error e => exact hclear rfl hdeps
        | ok _ =>
            simp only [leave]
            cases hfinish : after.finish options id slot supers with
            | error e => exact hclear rfl hdeps
            | ok info =>
                refine hlinked hdeps ?_ ((resolveSupertypes_congr hdeclared).trans hsupers) hfinish
                rw [record?_congr hdeclared, record?, hslot, Option.map_some]

def Current (options : LinkOptions) (g : ClassGraph) : Prop :=
  ∀ ⦃id slot info⦄, g.slot? id = some slot → g.info? id = some info →
    g.resolveSupertypes options slot.record = .ok ⟨info.superClass, info.interfaces⟩

theorem Current.setStatus (hg : g.Current options)
    (hs : ∀ {slot info}, g.slot? id = some slot → s.info? = some info →
      g.resolveSupertypes options slot.record = .ok ⟨info.superClass, info.interfaces⟩) :
    (g.setStatus id s).Current options := by
  intro c slot info hslot hinfo
  rw [resolveSupertypes_congr declared_setStatus]
  by_cases hc : c = id
  · subst hc
    rw [slot?_setStatus, if_pos rfl, Option.map_eq_some_iff] at hslot
    obtain ⟨old, hold, rfl⟩ := hslot
    rw [info?_setStatus_self hold] at hinfo
    have hresolved := hs hold hinfo
    exact hresolved
  · rw [slot?_setStatus_of_ne hc] at hslot
    rw [info?_setStatus_of_ne hc] at hinfo
    exact hg hslot hinfo

theorem linkWithin_current (depth : Nat) (id : ClassId) (g : ClassGraph) (hg : g.Current options) :
    (linkWithin options depth id g).2.Current options := by
  refine linkWithin_keeps (Current options) (fun hs hg => ?_)
    (fun {_ id old supers info} hg hrecord hsupers hfinish => ?_) depth id g hg
  · exact hg.setStatus fun _ hinfo => by simp [hs] at hinfo
  · refine hg.setStatus fun {slot info} hslot hinfo => ?_
    cases hinfo
    have hd := draft_ok (finish_ok hfinish).1
    rw [record?, hslot, Option.map_some, Option.some.injEq] at hrecord
    have hsame : supers = ⟨info.superClass, info.interfaces⟩ := by
      rw [show info.superClass = supers.superClass from hd.superClass,
        show info.interfaces = supers.interfaces from hd.interfaces]
    rw [hrecord, hsupers, hsame]

def unlinkedIds (g : ClassGraph) : Finset Nat :=
  (Finset.range g.size).filter fun n => g.status ⟨n⟩ = .unlinked

theorem card_unlinkedIds_le (g : ClassGraph) : g.unlinkedIds.card ≤ g.size :=
  (Finset.card_filter_le _ _).trans (Finset.card_range _).le

theorem card_unlinkedIds_enter (hslot : g.slot? id = some slot) (hstatus : g.status id = .unlinked) :
    (g.setStatus id .linking).unlinkedIds.card < g.unlinkedIds.card := by
  refine Finset.card_lt_card (Finset.ssubset_iff_of_subset (fun n hn => ?_) |>.mpr ⟨id.index, ?_, ?_⟩)
  · simp only [unlinkedIds, size_setStatus, Finset.mem_filter] at hn ⊢
    refine ⟨hn.1, ?_⟩
    by_cases hid : (⟨n⟩ : ClassId) = id
    · rw [hid]
      exact hstatus
    · rw [← status_setStatus_of_ne hid]
      exact hn.2
  · have hlt : id.index < g.size := by
      by_contra hge
      have hnone : g.slot? id = none := Array.getElem?_eq_none (Nat.le_of_not_lt hge)
      simp [hnone] at hslot
    exact Finset.mem_filter.mpr ⟨Finset.mem_range.mpr hlt, hstatus⟩
  · intro hmem
    have hsame : (g.setStatus id .linking).status id = .unlinked := (Finset.mem_filter.mp hmem).2
    simp [status_setStatus_self hslot] at hsame

theorem Advances.card_unlinkedIds_le (ha : g.Advances g') (hsize : g'.size = g.size) :
    g'.unlinkedIds.card ≤ g.unlinkedIds.card := by
  refine Finset.card_le_card fun n hn => ?_
  simp only [unlinkedIds, hsize, Finset.mem_filter] at hn ⊢
  refine ⟨hn.1, ?_⟩
  rcases ha.status ⟨n⟩ with hsame | ⟨hunlinked, -⟩
  · rw [← hsame]
    exact hn.2
  · exact hunlinked

theorem Advances.linking_iff (ha : g.Advances g') : g'.status c = .linking ↔ g.status c = .linking := by
  refine ⟨fun hc => ?_, ha.linking⟩
  rcases ha.status c with hsame | ⟨-, info, hlinked⟩
  · rw [← hsame, hc]
  · simp [hlinked] at hc

-- `h` has the classes of `g`, and has linked all that `g` has linked, in the same way.
structure Lags (g h : ClassGraph) : Prop where
  declared : h.declared = g.declared
  linked : ∀ {c info}, g.status c = .linked info → h.status c = .linked info

theorem Coherent.status_of_info (hg : g.Coherent allowed) (hinfo : g.info? id = some info) :
    g.status id = .linked info := by
  unfold info? at hinfo
  cases hstatus : g.status id with
  | unlinked => simp [hstatus, Status.info?] at hinfo
  | linking => simp [hstatus, Status.info?] at hinfo
  | drafted draft => exact absurd hstatus hg.undrafted
  | linked found =>
      rw [hstatus] at hinfo
      rw [Option.some.inj hinfo]

theorem Lags.retains (hlag : g.Lags h) (hg : g.Coherent allowed) : g.Retains h where
  size_le := (size_congr hlag.declared).ge
  slot := slot?_congr hlag.declared
  info := fun hinfo => known_of_linked (hlag.linked (hg.status_of_info hinfo))

theorem Lags.setStatus (hlag : g.Lags h) (hslot : g.slot? id = some slot) :
    (g.setStatus id s).Lags (h.setStatus id s) where
  declared := by rw [declared_setStatus, hlag.declared, declared_setStatus]
  linked := by
    intro c info hc
    by_cases heq : c = id
    · subst heq
      obtain ⟨status, hslot'⟩ := slot?_congr hlag.declared hslot
      rw [status_setStatus_self hslot] at hc
      rw [status_setStatus_self hslot', hc]
    · rw [status_setStatus_of_ne heq] at hc ⊢
      exact hlag.linked hc

theorem Lags.enter (hlag : g.Lags h) (hslot : g.slot? id = some slot) :
    (g.setStatus id .linking).Lags h where
  declared := hlag.declared.trans declared_setStatus.symm
  linked := by
    intro c info hc
    by_cases heq : c = id
    · subst heq
      rw [status_setStatus_self hslot] at hc
      cases hc
    · exact hlag.linked ((status_setStatus_of_ne heq).symm.trans hc)

theorem Lags.leave (hlag : g.Lags h) (hslot : g.slot? id = some slot)
    (hlinked : h.status id = .linked info) : (g.setStatus id (.linked info)).Lags h where
  declared := hlag.declared.trans declared_setStatus.symm
  linked := by
    intro c info' hc
    by_cases heq : c = id
    · subst heq
      rw [status_setStatus_self hslot, Status.linked.injEq] at hc
      rw [hlinked, hc]
    · exact hlag.linked ((status_setStatus_of_ne heq).symm.trans hc)

theorem Lags.extends_drafted (hlag : g.Lags h) (hg : g.Coherent allowed)
    (hslot : g.slot? id = some slot) (hinfo : h.info? id = some info) :
    (g.setStatus id (.drafted info.withoutTables)).Extends h where
  size_le := (size_setStatus.trans (size_congr hlag.declared).symm).le
  record := fun {c} _ => record?_congr (hlag.declared.trans declared_setStatus.symm) c
  info := by
    intro c found hfound
    rcases info?_setStatus_cases hslot rfl hfound with ⟨rfl, rfl⟩ | ⟨-, hold⟩
    · exact ⟨info, hinfo, rfl⟩
    · exact ⟨found, (hlag.retains hg).info hold, rfl⟩

theorem Finished.tabulate (hfinished : g.Finished options slot info) (hclass : info.isInterface = false) :
    g.tabulate options info.withoutTables = .ok info := by
  have hvtable : g.buildVtable info.withoutTables options.verifyVtables = .ok info.vtable :=
    hfinished.vtable hclass
  have htable : g.buildInterfaceTable info.withoutTables info.vtable = info.interfaceTable :=
    (hfinished.interfaceTable hclass).symm
  rw [ClassGraph.tabulate, hvtable]
  simp only [bind, Except.bind, htable]
  rfl

theorem Finished.withoutTables (hfinished : g.Finished options slot info)
    (hkind : info.isInterface = true) : info.withoutTables = info := by
  obtain ⟨hvtable, htable⟩ := hfinished.tables hkind
  rw [ClassInfo.withoutTables, ← hvtable, ← htable]

theorem Lags.finish (hlag : g.Lags h) (hg : g.Coherent (· = options)) (hh : h.Coherent (· = options))
    (hslot : g.slot? id = some slot) (hnew : ¬g.Known id) (hinfo : h.info? id = some info)
    (hknown : ∀ sup ∈ info.directSupertypes, g.Known sup) (status : Status) :
    g.finish options id { slot with status } ⟨info.superClass, info.interfaces⟩ = .ok info := by
  obtain ⟨options', slot', hoptions, hslot', hfinished⟩ := hh.finished hinfo
  rw [hoptions] at hfinished
  obtain ⟨status', hsame⟩ := slot?_congr hlag.declared hslot
  obtain rfl := Option.some.inj (hslot'.symm.trans hsame)
  have hid : info.id = id := hh.self hinfo
  have hr := hlag.retains hg
  have hsameDraft : h.draft options id { slot with status } ⟨info.superClass, info.interfaces⟩ =
      g.draft options id { slot with status } ⟨info.superClass, info.interfaces⟩ :=
    hr.draft hslot hknown
  have hdraft : g.draft options id { slot with status } ⟨info.superClass, info.interfaces⟩ =
      .ok info.withoutTables := by
    rw [← hsameDraft]
    exact hid ▸ hfinished.drafted
  rw [finish_of_draft hdraft]
  cases hkind : info.isInterface with
  | true =>
      rw [hfinished.withoutTables hkind]
      exact complete_of_interface hkind
  | false =>
      have hsuper : ∀ {s}, info.superClass = some s → h.info? s = g.info? s := by
        intro s hs
        exact hr.info_eq (hknown s (by simp [ClassInfo.directSupertypes, hs]))
      rw [hg.complete_drafted hslot hnew (draft_ok hdraft) hknown hkind
        (hlag.extends_drafted hg hslot hinfo) hsuper]
      exact hfinished.tabulate hkind

-- A run links again, in the same way, what `h` has linked.
def Replays (options : LinkOptions) (h : ClassGraph) (depth : Nat) : Prop :=
  ∀ id g, g.Coherent (· = options) → g.Lags h → h.Known id →
    (∀ c, Relation.ReflTransGen h.Direct id c → g.status c ≠ .linking) →
    g.unlinkedIds.card < depth →
    ∃ g', linkWithin options depth id g = (.ok (), g') ∧ g'.Lags h

theorem Replays.dependencies {depth : Nat} (hreplays : Replays options h depth)
    (hg : g.Coherent (· = options)) (hlag : g.Lags h) (hknown : ∀ id ∈ ids, h.Known id)
    (hfree : ∀ id ∈ ids, ∀ c, Relation.ReflTransGen h.Direct id c → g.status c ≠ .linking)
    (hfuel : g.unlinkedIds.card < depth) :
    ∃ g', linkEach (linkWithin options depth) ids g = (.ok (), g') ∧ g'.Lags h := by
  induction ids generalizing g with
  | nil => exact ⟨g, rfl, hlag⟩
  | cons id rest ih =>
      obtain ⟨hid, hrest⟩ := List.forall_mem_cons.mp hknown
      obtain ⟨hfreeId, hfreeRest⟩ := List.forall_mem_cons.mp hfree
      obtain ⟨g', hrun, hlag'⟩ := hreplays id g hg hlag hid hfreeId hfuel
      have hlinks : Links (· = options) g [id] (linkWithin options depth id g) :=
        linkWithin_links (by rfl) depth id g hg
      have hsize := size_congr (linkWithin_spreads options depth id g).declared
      rw [hrun] at hlinks hsize
      obtain ⟨g'', hrun', hlag''⟩ := ih hlinks.coherent hlag' hrest
        (fun c hc d hd hlinking => hfreeRest c hc d hd (hlinks.advances.linking_iff.mp hlinking))
        ((hlinks.advances.card_unlinkedIds_le hsize).trans_lt hfuel)
      exact ⟨g'', by simp only [linkEach, hrun, hrun'], hlag''⟩

theorem Replays.enter {depth : Nat} (hreplays : Replays options h depth)
    (hcurrent : h.Current options) (hg : g.Coherent (· = options)) (hh : h.Coherent (· = options))
    (hlag : g.Lags h) (hslot : g.slot? id = some slot) (hstatus : g.status id = .unlinked)
    (hinfo : h.info? id = some info)
    (hfree : ∀ c, Relation.ReflTransGen h.Direct id c → g.status c ≠ .linking)
    (hfuel : g.unlinkedIds.card < depth + 1) :
    ∃ g', linkWithin options (depth + 1) id g = (.ok (), g') ∧ g'.Lags h := by
  have hnew : ¬g.Known id := not_known_of_status (by rw [hstatus]; rfl)
  have hstart := hg.setStatus hslot hnew (s := .linking) rfl
  obtain ⟨status, hslot'⟩ := slot?_congr hlag.declared hslot
  have hresolved := hcurrent hslot' hinfo
  have hsupers : g.resolveSupertypes options slot.record = .ok ⟨info.superClass, info.interfaces⟩ :=
    (resolveSupertypes_congr hlag.declared).symm.trans hresolved
  have hdirect : ∀ sup ∈ info.directSupertypes, h.Direct id sup := fun sup hsup => by
    rwa [Direct, directSupertypes_eq hinfo]
  -- No class of the hierarchy above `id` is being linked, `id` itself included.
  have hfreeDeps : ∀ sup ∈ info.directSupertypes, ∀ c, Relation.ReflTransGen h.Direct sup c →
      (g.setStatus id .linking).status c ≠ .linking := by
    intro sup hsup c hpath
    have hup := Relation.TransGen.head' (hdirect sup hsup) hpath
    have hne : c ≠ id := fun heq =>
      hh.not_mem_supertypes_self id (hh.mem_supertypes_iff.mpr (heq ▸ hup))
    rw [status_setStatus_of_ne hne]
    exact hfree c hup.to_reflTransGen
  have hless := card_unlinkedIds_enter hslot hstatus
  obtain ⟨after, hrun, hlagAfter⟩ := hreplays.dependencies hstart (hlag.enter hslot)
    (fun sup hsup => hh.known (hdirect sup hsup)) hfreeDeps (by omega)
  have hlinks : Links (· = options) (g.setStatus id .linking) info.directSupertypes
      (linkEach (linkWithin options depth) info.directSupertypes
        (g.setStatus id .linking)) :=
    dependencies_links (by rfl) depth info.directSupertypes hstart
  rw [hrun] at hlinks
  have hlinking := hlinks.advances.linking (status_setStatus_self hslot)
  obtain ⟨last, hlast⟩ := hlinks.advances.slot (slot?_setStatus_self hslot)
  have hfinish := hlagAfter.finish hlinks.coherent hh hlast
    (not_known_of_status (by rw [hlinking]; rfl)) hinfo (hlinks.known rfl) slot.status
  refine ⟨after.setStatus id (.linked info), ?_, hlagAfter.leave hlast (hh.status_of_info hinfo)⟩
  rw [linkWithin_enter hslot hstatus hsupers]
  change leave options id slot _ (linkEach _ info.directSupertypes _) = _
  rw [hrun]
  simp only [ClassGraph.leave]
  rw [show after.finish options id slot ⟨info.superClass, info.interfaces⟩ = .ok info from hfinish]

theorem Current.replays (hcurrent : h.Current options) (hh : h.Coherent (· = options)) (depth : Nat) :
    Replays options h depth := by
  induction depth with
  | zero => exact fun id g _ _ _ _ hfuel => absurd hfuel (Nat.not_lt_zero _)
  | succ depth ih =>
      intro id g hg hlag hknown hfree hfuel
      obtain ⟨info, hinfo⟩ := hknown
      obtain ⟨slot', hslot'⟩ := slot_of_known (known_of_info hinfo)
      obtain ⟨status, hslot⟩ := slot?_congr hlag.declared.symm hslot'
      have hstatus := status_of_slot hslot
      cases status with
      | linked found => exact ⟨g, by simp only [linkWithin, hslot], hlag⟩
      | linking => exact absurd hstatus (hfree id .refl)
      | drafted draft => exact absurd hstatus hg.undrafted
      | unlinked => exact ih.enter hcurrent hg hh hlag hslot hstatus hinfo hfree hfuel

structure Tandem (options : LinkOptions) (g h : ClassGraph) : Prop where
  lags : g.Lags h
  linking : ∀ {c}, h.status c = .linking ↔ g.status c = .linking
  left : g.Coherent (· = options)
  right : h.Coherent (· = options)
  current : h.Current options

theorem Tandem.next {a b : Except LinkError Unit × ClassGraph} (ht : Tandem options g h)
    (ha : Links (· = options) g ids a) (hb : Links (· = options) h ids b)
    (hcurrent : b.2.Current options) (hlags : a.2.Lags b.2) : Tandem options a.2 b.2 where
  lags := hlags
  linking := hb.advances.linking_iff.trans (ht.linking.trans ha.advances.linking_iff.symm)
  left := ha.coherent
  right := hb.coherent
  current := hcurrent

theorem Tandem.step (ht : Tandem options g h) {depth : Nat}
    (hlags : (linkWithin options depth id g).2.Lags (linkWithin options depth id h).2) :
    Tandem options (linkWithin options depth id g).2 (linkWithin options depth id h).2 :=
  ht.next (linkWithin_links (by rfl) depth id g ht.left)
    (linkWithin_links (by rfl) depth id h ht.right) (linkWithin_current depth id h ht.current) hlags

theorem Tandem.dependencies {depth : Nat} (ht : Tandem options g h) (ids : List ClassId)
    (hstep : ∀ id g h, Tandem options g h → g.unlinkedIds.card < depth →
      Agree Lags (linkWithin options depth id g) (linkWithin options depth id h))
    (hfuel : g.unlinkedIds.card < depth) :
    Agree (Tandem options) (linkEach (linkWithin options depth) ids g)
      (linkEach (linkWithin options depth) ids h) := by
  have hagree := linkEach_agree (R := fun g h => Tandem options g h ∧ g.unlinkedIds.card < depth)
    (f := fun id => id) (fun id g h hgh => (hstep id g h hgh.1 hgh.2).mono fun hlags => ?_)
    ids ⟨ht, hfuel⟩
  · rw [List.map_id'] at hagree
    exact hagree.mono And.left
  · have hlinks : Links (· = options) g [id] (linkWithin options depth id g) :=
      linkWithin_links (by rfl) depth id g hgh.1.left
    have hless := hlinks.advances.card_unlinkedIds_le
      (size_congr (linkWithin_spreads options depth id g).declared)
    exact ⟨hgh.1.step hlags, hless.trans_lt hgh.2⟩

theorem Tandem.enter (ht : Tandem options g h) (hslot : g.slot? id = some slot)
    (hstatus : g.status id = .unlinked) (hstatus' : h.status id = .unlinked) :
    Tandem options (g.setStatus id .linking) (h.setStatus id .linking) where
  lags := ht.lags.setStatus hslot
  linking := by
    intro c
    obtain ⟨status, hslot'⟩ := slot?_congr ht.lags.declared hslot
    by_cases hc : c = id
    · subst hc
      simp [status_setStatus_self hslot, status_setStatus_self hslot']
    · rw [status_setStatus_of_ne hc, status_setStatus_of_ne hc]
      exact ht.linking
  left := ht.left.setStatus hslot (not_known_of_status (by rw [hstatus]; rfl)) rfl
  right := by
    obtain ⟨status, hslot'⟩ := slot?_congr ht.lags.declared hslot
    exact ht.right.setStatus hslot' (not_known_of_status (by rw [hstatus']; rfl)) rfl
  current := ht.current.setStatus fun _ hinfo => by cases hinfo

theorem Tandem.finish (ht : Tandem options g h) (hslot : g.slot? id = some slot)
    (hlinking : g.status id = .linking)
    (hknown : ∀ sup ∈ supers.superClass.toList ++ supers.interfaces, g.Known sup) :
    h.finish options id old supers = g.finish options id old supers := by
  have hnew : ¬g.Known id := not_known_of_status (by rw [hlinking]; rfl)
  have hr := ht.lags.retains ht.left
  have hdrafts : h.draft options id old supers = g.draft options id old supers :=
    hr.draft hslot hknown
  cases hdraft : g.draft options id old supers with
  | error e => rw [finish_of_error (hdrafts.trans hdraft), finish_of_error hdraft]
  | ok draft =>
      rw [finish_of_draft (hdrafts.trans hdraft), finish_of_draft hdraft]
      exact hr.complete ht.left hslot hnew hknown (draft_ok hdraft)

theorem Tandem.both_leave {a b : Except LinkError Unit × ClassGraph} (ht : Tandem options a.2 b.2)
    (hresult : a.1 = b.1) (hslot : a.2.slot? id = some slot) (hlinking : a.2.status id = .linking)
    (hknown : a.1 = .ok () → ∀ sup ∈ supers.superClass.toList ++ supers.interfaces, a.2.Known sup) :
    Agree Lags (leave options id old supers a) (leave options id old supers b) := by
  obtain ⟨out, g⟩ := a
  obtain ⟨out', h⟩ := b
  obtain rfl : out = out' := hresult
  cases out with
  | error e => exact ⟨rfl, ht.lags.setStatus hslot⟩
  | ok _ =>
      have hsame : h.finish options id old supers = g.finish options id old supers :=
        ht.finish hslot hlinking (hknown rfl)
      simp only [leave, hsame]
      cases g.finish options id old supers with
      | error e => exact ⟨rfl, ht.lags.setStatus hslot⟩
      | ok info => exact ⟨rfl, ht.lags.setStatus hslot⟩

theorem Tandem.both_enter {depth : Nat} (ht : Tandem options g h)
    (hstep : ∀ id g h, Tandem options g h → g.unlinkedIds.card < depth →
      Agree Lags (linkWithin options depth id g) (linkWithin options depth id h))
    (hslot : g.slot? id = some slot) (hstatus : g.status id = .unlinked)
    (hstatus' : h.status id = .unlinked) (hfuel : g.unlinkedIds.card < depth + 1) :
    Agree Lags (linkWithin options (depth + 1) id g) (linkWithin options (depth + 1) id h) := by
  obtain ⟨status, hslot'⟩ := slot?_congr ht.lags.declared hslot
  have hresolve : h.resolveSupertypes options slot.record =
      g.resolveSupertypes options slot.record := resolveSupertypes_congr ht.lags.declared
  cases hsupers : g.resolveSupertypes options slot.record with
  | error e =>
      have hunlinked := (status_of_slot hslot).symm.trans hstatus
      obtain rfl := (status_of_slot hslot').symm.trans hstatus'
      simp only [linkWithin, hslot, hslot', hunlinked, hresolve, hsupers]
      exact ⟨rfl, ht.lags⟩
  | ok supers =>
      rw [linkWithin_enter hslot hstatus hsupers,
        linkWithin_enter hslot' hstatus' (hresolve.trans hsupers)]
      have hstart := ht.enter hslot hstatus hstatus'
      have hless := card_unlinkedIds_enter hslot hstatus
      have hagree := hstart.dependencies (supers.superClass.toList ++ supers.interfaces) hstep
        (by omega)
      have hnext := hagree.related
      have hlinks : Links (· = options) (g.setStatus id .linking)
          (supers.superClass.toList ++ supers.interfaces)
          (linkEach (linkWithin options depth) (supers.superClass.toList ++ supers.interfaces)
            (g.setStatus id .linking)) := dependencies_links (by rfl) depth _ hstart.left
      have hlinking := hlinks.advances.linking (status_setStatus_self hslot)
      obtain ⟨last, hlast⟩ := slot_of_linking hlinking
      rw [show leave options id { slot with status := status } supers = leave options id slot supers
        from rfl]
      exact hnext.both_leave hagree.result hlast hlinking hlinks.known

theorem Tandem.agree_unlinked {depth : Nat} (ht : Tandem options g h)
    (hstep : ∀ id g h, Tandem options g h → g.unlinkedIds.card < depth →
      Agree Lags (linkWithin options depth id g) (linkWithin options depth id h))
    (hslot : g.slot? id = some slot) (hstatus : g.status id = .unlinked)
    (hfuel : g.unlinkedIds.card < depth + 1) :
    Agree Lags (linkWithin options (depth + 1) id g) (linkWithin options (depth + 1) id h) := by
  obtain ⟨status, hslot'⟩ := slot?_congr ht.lags.declared hslot
  have hstatus' := status_of_slot hslot'
  cases status with
  | unlinked => exact ht.both_enter hstep hslot hstatus hstatus' hfuel
  | linking =>
      rw [ht.linking.mp hstatus'] at hstatus
      cases hstatus
  | drafted draft => exact absurd hstatus' ht.right.undrafted
  | linked info =>
      have hfree : ∀ c, Relation.ReflTransGen h.Direct id c → g.status c ≠ .linking := by
        intro c hpath hlinking
        have hknown : h.Known c := by
          rcases Relation.reflTransGen_iff_eq_or_transGen.mp hpath with rfl | hup
          · exact known_of_info (known_of_linked hstatus')
          · exact ht.right.known_of_mem_supertypes (ht.right.mem_supertypes_iff.mpr hup)
        exact not_known_of_status (by rw [ht.linking.mpr hlinking]; rfl) hknown
      obtain ⟨g', hrun, hlags⟩ := ht.current.replays ht.right (depth + 1) id g ht.left ht.lags
        (known_of_info (known_of_linked hstatus')) hfree hfuel
      have hrun' : linkWithin options (depth + 1) id h = (.ok (), h) := by
        simp only [linkWithin, hslot']
      rw [hrun, hrun']
      exact ⟨rfl, hlags⟩

theorem linkWithin_agree (depth : Nat) (id : ClassId) (g h : ClassGraph) (ht : Tandem options g h)
    (hfuel : g.unlinkedIds.card < depth) :
    Agree Lags (linkWithin options depth id g) (linkWithin options depth id h) := by
  induction depth generalizing id g h with
  | zero => exact absurd hfuel (Nat.not_lt_zero _)
  | succ depth ih =>
      have hname := name_congr ht.lags.declared id
      cases hslot : g.slot? id with
      | none =>
          simp only [linkWithin, hslot, slot?_eq_none_congr ht.lags.declared hslot, hname]
          exact ⟨rfl, ht.lags⟩
      | some slot =>
          obtain ⟨status', hslot'⟩ := slot?_congr ht.lags.declared hslot
          have hstatus' := status_of_slot hslot'
          cases hs : slot.status with
          | linked info =>
              have hlinked := ht.lags.linked ((status_of_slot hslot).trans hs)
              obtain rfl := hstatus'.symm.trans hlinked
              simp only [linkWithin, hslot, hslot', hs]
              exact ⟨rfl, ht.lags⟩
          | linking =>
              have hlinking := ht.linking.mpr ((status_of_slot hslot).trans hs)
              obtain rfl := hstatus'.symm.trans hlinking
              simp only [linkWithin, hslot, hslot', hs, hname]
              exact ⟨rfl, ht.lags⟩
          | drafted draft => exact absurd ((status_of_slot hslot).trans hs) ht.left.undrafted
          | unlinked => exact ht.agree_unlinked ih hslot ((status_of_slot hslot).trans hs) hfuel

end Linkage.ClassGraph
