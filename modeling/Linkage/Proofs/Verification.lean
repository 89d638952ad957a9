import Linkage.Proofs.Faults
import Linkage.Proofs.History
import Linkage.Proofs.SeparateSlots
import Linkage.Proofs.VerifiedSlots
import Linkage.Proofs.VirtualCalls

namespace Linkage

def LinkOptions.strict (options : LinkOptions) : LinkOptions :=
  { options with verifyVtables := true }

def LinkOptions.lax (options : LinkOptions) : LinkOptions :=
  { options with verifyVtables := false }

namespace ClassGraph

open ClassRecord Outcome

variable {g g' : ClassGraph} {id : ClassId} {info : ClassInfo} {x m : MethodRef} {i : Nat}
  {options : LinkOptions} {slot : Slot} {supers : Supertypes} {e : LinkError}

structure Misfit (g : ClassGraph) (id : ClassId) (i : Nat) (x m : MethodRef) : Prop where
  holds : g.slotOf? id i = some x
  inherits : ∃ sup, g.superClass? id = some sup ∧ g.slotOf? sup i = some m
  kind : g.isInterface x.owner = true
  inheritedKind : g.isInterface m.owner = true
  apart : g.isSubtype x.owner m.owner = false

def Rejects (g : ClassGraph) (e : LinkError) : Prop :=
  ∃ id i x m, g.Misfit id i x m ∧
    e = ⟨g.name id, .incompatibleSlot i (g.methodSignature x) (g.methodSignature m)⟩

theorem Retains.slotOf (hr : g.Retains g') (h : g.slotOf? id i = some x) : g'.slotOf? id i = some x := by
  obtain ⟨info, hinfo, hslot⟩ := Option.bind_eq_some_iff.mp h
  rw [slotOf?_eq (hr.info hinfo), hslot]

theorem known_of_slotOf (h : g.slotOf? id i = some x) : g.Known id := by
  obtain ⟨info, hinfo, -⟩ := Option.bind_eq_some_iff.mp h
  exact known_of_info hinfo

theorem known_of_isInterface (h : g.isInterface id = true) : g.Known id := by
  cases hinfo : g.info? id with
  | some info => exact known_of_info hinfo
  | none => simp [isInterface, hinfo] at h

theorem Misfit.retain (h : g.Misfit id i x m) (hg : g.Hierarchical) (hr : g.Retains g') :
    g'.Misfit id i x m where
  holds := hr.slotOf h.holds
  inherits := by
    obtain ⟨sup, hsup, hm⟩ := h.inherits
    exact ⟨sup, (hr.extends.superClass (known_of_slotOf h.holds)).trans hsup, hr.slotOf hm⟩
  kind := (hr.extends.isInterface (known_of_isInterface h.kind)).trans h.kind
  inheritedKind :=
    (hr.extends.isInterface (known_of_isInterface h.inheritedKind)).trans h.inheritedKind
  apart := (hr.extends.isSubtype hg (known_of_isInterface h.kind)).trans h.apart

theorem Rejects.retain (h : g.Rejects e) (hg : g.Hierarchical) (hr : g.Retains g') :
    g'.Rejects e := by
  obtain ⟨id, i, x, m, hmisfit, rfl⟩ := h
  refine ⟨id, i, x, m, hmisfit.retain hg hr, ?_⟩
  rw [hr.extends.className (known_of_slotOf hmisfit.holds),
    hr.extends.methodSignature (known_of_isInterface hmisfit.kind),
    hr.extends.methodSignature (known_of_isInterface hmisfit.inheritedKind)]

theorem Separate.checkDistinct {t : List MethodRef} (h : g.Separate t) (info : ClassInfo) :
    g.checkDistinct info t = .ok () := by
  unfold ClassGraph.checkDistinct
  split
  next a i b j hfound =>
    obtain ⟨ha, hb, hover⟩ := of_duplicateSlots hfound
    have ha := List.mem_zipIdx_iff_getElem?.mp ha
    obtain ⟨n, hn⟩ := List.mem_iff_getElem?.mp hb
    rw [List.getElem?_drop, List.getElem?_zipIdx, Option.map_eq_some_iff] at hn
    obtain ⟨b', hb', heq⟩ := hn
    obtain ⟨rfl, rfl⟩ := Prod.mk.inj heq
    rcases hover with hover | hover
    · have hsame := h.apart ha hb' hover
      dsimp only at hsame
      omega
    · have hsame := h.apart hb' ha hover
      dsimp only at hsame
      omega
  next => rfl

theorem Coherent.misfit_of_incompatible {allowed : LinkOptions → Prop} (hg : g.Coherent allowed)
    (hpublic : g.PublicInterfaces) (hinfo : g.info? id = some info)
    (hclass : info.isInterface = false) (hx : info.vtable[i]? = some x)
    (hm : (g.inheritedVtable info)[i]? = some m) (hbad : ¬g.Succeeds x m) : g.Misfit id i x m := by
  obtain ⟨x', hx', hkey, hinherits⟩ :=
    (hg.built hinfo hclass).inherits hg.toWellFormed hinfo hclass hm
  obtain rfl := Option.some.inj (hx.symm.trans hx')
  cases hinherits with
  | overridden _ hover => exact absurd (.inr hover) hbad
  | kept _ => exact absurd (.inl rfl) hbad
  | filled _ hkind honly =>
      obtain ⟨-, hkind', hinherit, -⟩ := hg.of_picked honly.picked
      have hmem := List.mem_of_getElem? hm
      have hopen := hg.open_inherited hpublic (hg.sound_inherited hinfo) m hmem hkind
      cases hsup : g.superClass? id with
      | none =>
          rw [inheritedVtable_of_root ((superClass?_eq hinfo).symm.trans hsup)] at hm
          cases hm
      | some sup =>
          obtain ⟨parent, hparent, -, hinherited⟩ := hg.parent hinfo hsup
          refine {
            holds := (slotOf?_eq hinfo).trans hx
            inherits := ⟨sup, hsup, (slotOf?_eq hparent).trans (hinherited ▸ hm)⟩
            kind := hkind'
            inheritedKind := hkind
            apart := ?_ }
          by_contra hsub
          rw [Bool.not_eq_false] at hsub
          exact hbad (.inr (hg.overrides_of_public hinherit hopen hkey hsub))

def checkTable (g : ClassGraph) (info : ClassInfo) : Except LinkError ClassInfo := do
  g.checkDistinct info info.vtable
  g.checkInherited info info.vtable (g.inheritedVtable info)
  return info

theorem tabulate_strict (g : ClassGraph) (options : LinkOptions) (info : ClassInfo) :
    g.tabulate options.strict info = g.tabulate options.lax info >>= g.checkTable := by
  simp only [tabulate, LinkOptions.strict, LinkOptions.lax, buildVtable_verified, bind_assoc,
    pure_bind]
  rfl

theorem Coherent.checkTable_cases {allowed : LinkOptions → Prop} (hg : g.Coherent allowed)
    (hpublic : g.PublicInterfaces) (hinfo : g.info? id = some info)
    (hclass : info.isInterface = false) :
    g.checkTable info = .ok info ∨ ∃ e, g.checkTable info = .error e ∧ g.Rejects e := by
  have hdistinct := (hg.separate hpublic hinfo hclass).checkDistinct info
  rcases checkInherited_cases g info info.vtable (g.inheritedVtable info) with
    hok | ⟨i, x, m, hx, hm, hbad, herror⟩
  · left
    rw [checkTable, hdistinct, hok]
    rfl
  · right
    rw [← hg.name_of_info hinfo] at herror
    refine ⟨_, ?_, id, i, x, m, hg.misfit_of_incompatible hpublic hinfo hclass hx hm hbad, rfl⟩
    rw [checkTable, hdistinct, herror]
    rfl

theorem finish_strict_of_error (h : g.finish options.lax id slot supers = .error e) :
    g.finish options.strict id slot supers = .error e := by
  have hdrafts : g.draft options.strict id slot supers = g.draft options.lax id slot supers := rfl
  cases hdraft : g.draft options.lax id slot supers with
  | error e' =>
      rw [finish_of_error hdraft] at h
      rw [finish_of_error (hdrafts.trans hdraft), h]
  | ok draft =>
      rw [finish_of_draft hdraft] at h
      rw [finish_of_draft (hdrafts.trans hdraft)]
      cases hkind : draft.isInterface with
      | true =>
          rw [complete_of_interface hkind] at h
          cases h
      | false =>
          rw [complete_of_class hkind] at h ⊢
          rw [tabulate_strict, h]
          rfl

structure Ready (g : ClassGraph) (options : LinkOptions) (id : ClassId) (slot : Slot)
    (supers : Supertypes) : Prop where
  coherent : g.Coherent fun _ => True
  publicInterfaces : g.PublicInterfaces
  holds : ∃ status, g.slot? id = some { slot with status }
  new : ¬g.Known id
  resolved : g.Resolved options slot.record supers

theorem Ready.finish_strict (h : g.Ready options.lax id slot supers)
    (hknown : ∀ sup ∈ supers.superClass.toList ++ supers.interfaces, g.Known sup)
    (hfinish : g.finish options.lax id slot supers = .ok info) :
    g.finish options.strict id slot supers = .ok info ∨
      ∃ e, g.finish options.strict id slot supers = .error e ∧
        (g.setStatus id (.linked info)).Rejects e := by
  obtain ⟨status, hslot⟩ := h.holds
  obtain ⟨hdraft, -⟩ := finish_ok hfinish
  have hstrict : g.finish options.strict id slot supers =
      g.complete options.strict info.withoutTables := finish_of_draft hdraft
  have hlax := (finish_of_draft hdraft).symm.trans hfinish
  cases hkind : info.isInterface with
  | true =>
      have hcomplete : ∀ options, g.complete options info.withoutTables = .ok info.withoutTables :=
        fun _ => complete_of_interface hkind
      rw [hcomplete] at hlax hstrict
      exact .inl (hstrict.trans hlax)
  | false =>
      -- Both tables can be built in the graph that holds the linked class.
      let g' := g.setStatus id (.linked info)
      have hg' : g'.Coherent fun _ => True :=
        h.coherent.linked trivial hslot h.new h.resolved hknown hfinish
      have hpublic' : g'.PublicInterfaces := h.publicInterfaces.congr declared_setStatus
      have hinfo : g'.info? id = some info := info?_setStatus_self hslot
      have e : (g.setStatus id (.drafted info.withoutTables)).Extends g' :=
        extends_setStatus hslot rfl rfl rfl
      have hd := draft_ok hdraft
      have hsame : ∀ {s}, info.superClass = some s → g'.info? s = g.info? s := by
        intro s hs
        have hs' := hknown s (by simp [← hd.superClass, ClassInfo.withoutTables, hs])
        exact info?_setStatus_of_ne fun heq => h.new (heq ▸ hs')
      rw [h.coherent.complete_drafted hslot h.new hd hknown hkind e hsame] at hlax hstrict
      rw [hstrict, tabulate_strict, hlax]
      exact hg'.checkTable_cases hpublic' hinfo hkind

def Compares (strict lax : Except LinkError Unit × ClassGraph) : Prop :=
  strict = lax ∨ ∃ e, strict.1 = .error e ∧ lax.2.Rejects e

theorem linkEach_compare {depth : Nat}
    (hstep : ∀ id (g : ClassGraph), g.Coherent (fun _ => True) → g.PublicInterfaces →
      Compares (linkWithin options.strict depth id g) (linkWithin options.lax depth id g))
    (ids : List ClassId) (hg : g.Coherent fun _ => True) (hpublic : g.PublicInterfaces) :
    Compares (linkEach (linkWithin options.strict depth) ids g)
      (linkEach (linkWithin options.lax depth) ids g) := by
  induction ids generalizing g with
  | nil => exact .inl rfl
  | cons id rest ih =>
      have hlinks := hg.run_links options.lax depth id
      have hspreads := linkWithin_spreads options.lax depth id g
      have hcompare := hstep id g hg hpublic
      simp only [linkEach]
      generalize linkWithin options.strict depth id g = strict at hcompare
      generalize linkWithin options.lax depth id g = lax at hcompare hlinks hspreads
      obtain ⟨out, after⟩ := lax
      rcases hcompare with rfl | ⟨e, herror, hrejects⟩
      · cases out with
        | error e => exact .inl rfl
        | ok _ => exact ih hlinks.coherent (hpublic.congr hspreads.declared)
      · obtain ⟨_, stopped⟩ := strict
        obtain rfl := herror
        refine .inr ⟨e, rfl, ?_⟩
        cases out with
        | error _ => exact hrejects
        | ok _ =>
            have hrest := hlinks.coherent.runs_links options.lax depth rest
            exact hrejects.retain hlinks.coherent.toHierarchical hrest.advances.toRetains

theorem retains_leave {deps : Except LinkError Unit × ClassGraph} (hnew : ¬deps.2.Known id) :
    deps.2.Retains (leave options id slot supers deps).2 := by
  obtain ⟨out, after⟩ := deps
  cases out with
  | error e => exact retains_setStatus (.inl hnew)
  | ok _ =>
      simp only [leave]
      split
      next => exact retains_setStatus (.inl hnew)
      next => exact retains_setStatus (.inl hnew)

theorem Compares.leave {strict lax : Except LinkError Unit × ClassGraph}
    (h : Compares strict lax) (hready : lax.2.Ready options.lax id slot supers)
    (hknown : lax.1 = .ok () →
      ∀ sup ∈ supers.superClass.toList ++ supers.interfaces, lax.2.Known sup) :
    Compares (leave options.strict id slot supers strict)
      (leave options.lax id slot supers lax) := by
  rcases h with rfl | ⟨e, herror, hrejects⟩
  · obtain ⟨out, g⟩ := strict
    cases out with
    | error e => exact .inl rfl
    | ok _ =>
        simp only [ClassGraph.leave]
        cases hfinish : g.finish options.lax id slot supers with
        | error e =>
            rw [finish_strict_of_error hfinish]
            exact .inl rfl
        | ok info =>
            have hcompare : g.finish options.strict id slot supers = .ok info ∨ _ :=
              hready.finish_strict (hknown rfl) hfinish
            rcases hcompare with hok | ⟨e, herror, hrejects⟩
            · rw [hok]
              exact .inl rfl
            · rw [herror]
              exact .inr ⟨e, rfl, hrejects⟩
  · obtain ⟨_, stopped⟩ := strict
    obtain rfl := herror
    exact .inr ⟨e, rfl, hrejects.retain hready.coherent.toHierarchical (retains_leave hready.new)⟩

theorem ready_of_dependencies {depth : Nat} (hg : g.Coherent fun _ => True)
    (hpublic : g.PublicInterfaces) (hslot : g.slot? id = some slot)
    (hstatus : g.status id = .unlinked)
    (hsupers : g.resolveSupertypes options slot.record = .ok supers) :
    (linkEach (linkWithin options depth) (supers.superClass.toList ++ supers.interfaces)
      (g.setStatus id .linking)).2.Ready options id slot supers := by
  have hnew : ¬g.Known id := not_known_of_status (by rw [hstatus]; rfl)
  have hstart := hg.setStatus hslot hnew (s := .linking) rfl
  have hlinks := hstart.runs_links options depth (supers.superClass.toList ++ supers.interfaces)
  have hspreads := dependencies_spread options depth
    (supers.superClass.toList ++ supers.interfaces) (g.setStatus id .linking)
  obtain ⟨hresolved, hslots⟩ := resolveSupertypes_ok hsupers
  have hlinking := hlinks.advances.linking (status_setStatus_self hslot)
  exact {
    coherent := hlinks.coherent
    publicInterfaces := hpublic.congr (hspreads.declared.trans declared_setStatus)
    holds := slot?_congr (hspreads.declared.trans declared_setStatus) hslot
    new := not_known_of_status (by rw [hlinking]; rfl)
    resolved := hresolved.retain
      ((retains_setStatus (.inl hnew)).trans hlinks.advances.toRetains) hslots }

theorem linkWithin_compare (options : LinkOptions) (depth : Nat) (id : ClassId) (g : ClassGraph)
    (hg : g.Coherent fun _ => True) (hpublic : g.PublicInterfaces) :
    Compares (linkWithin options.strict depth id g) (linkWithin options.lax depth id g) := by
  induction depth generalizing id g with
  | zero => exact .inl rfl
  | succ depth ih =>
      have hresolve : ∀ record, g.resolveSupertypes options.strict record =
          g.resolveSupertypes options.lax record := fun _ => rfl
      cases hslot : g.slot? id with
      | none =>
          simp only [linkWithin, hslot]
          exact .inl rfl
      | some slot =>
          cases hstatus : slot.status with
          | linked info =>
              simp only [linkWithin, hslot, hstatus]
              exact .inl rfl
          | linking =>
              simp only [linkWithin, hslot, hstatus]
              exact .inl rfl
          | drafted info =>
              simp only [linkWithin, hslot, hstatus]
              exact .inl rfl
          | unlinked =>
              have hunlinked := (status_of_slot hslot).trans hstatus
              cases hsupers : g.resolveSupertypes options.lax slot.record with
              | error e =>
                  simp only [linkWithin, hslot, hstatus, hresolve, hsupers]
                  exact .inl rfl
              | ok supers =>
                  have hnew : ¬g.Known id := not_known_of_status (by rw [hunlinked]; rfl)
                  have hstart := hg.setStatus hslot hnew (s := .linking) rfl
                  have hdeps := linkEach_compare ih
                    (supers.superClass.toList ++ supers.interfaces) hstart
                    (hpublic.congr declared_setStatus)
                  have hlinks := hstart.runs_links options.lax depth
                    (supers.superClass.toList ++ supers.interfaces)
                  rw [linkWithin_enter hslot hunlinked hsupers,
                    linkWithin_enter hslot hunlinked ((hresolve _).trans hsupers)]
                  exact hdeps.leave (ready_of_dependencies hg hpublic hslot hunlinked hsupers)
                    hlinks.known

theorem verification_stops_at_misfits {out out' : Except LinkError Unit} {h h' : ClassGraph}
    (hfresh : ∀ c, g.status c = .unlinked) (hpublic : g.PublicInterfaces)
    (hstrict : (link options.strict id).result g = (out, h))
    (hlax : (link options.lax id).result g = (out', h')) :
    (out = .ok () → out' = .ok () ∧ h' = h) ∧
      (∀ e, out' = .ok () → out = .error e → e.kind = .inconsistentVtable ∧
        ∃ c i x m, h'.Misfit c i x m ∧ e =
          ⟨h'.name c, .incompatibleSlot i (h'.methodSignature x) (h'.methodSignature m)⟩) ∧
      (∀ name i a j b, out ≠ .error ⟨name, .duplicateSlots i a j b⟩) ∧
      ∀ c info, h'.status c = .linked info → ∀ (i j : Nat) (a b : MethodRef),
        info.vtable[i]? = some a → info.vtable[j]? = some b → i ≠ j →
          h'.overrides a b = false := by
  have hg : g.Coherent fun _ => True := coherent_of_unlinked hfresh
  have hcompare : Compares (out, h) (out', h') :=
    hstrict ▸ hlax ▸ linkWithin_compare options (g.size + 1) id g hg hpublic
  have hraises : Raises (·.kind ≠ .inconsistentVtable) out' := by
    have hrun : Raises (·.kind ≠ .inconsistentVtable)
        (linkWithin options.lax (g.size + 1) id g).1 :=
      raises_linkWithin (fun _ => And.right)
        (show LinkFault.circularInheritance.kind ≠ .inconsistentVtable by decide)
        (fun _ _ _ _ => raises_unverified_finish rfl) (g.size + 1) id g
    have hout : (linkWithin options.lax (g.size + 1) id g).1 = out' := congrArg Prod.fst hlax
    rwa [hout] at hrun
  refine ⟨fun hok => ?_, fun e hok he => ?_, fun name i a j b he => ?_,
    fun c info hlinked i j a b ha hb hne => ?_⟩
  · rcases hcompare with hsame | ⟨e, he, -⟩
    · obtain ⟨rfl, rfl⟩ := Prod.mk.inj hsame
      exact ⟨hok, rfl⟩
    · cases hok.symm.trans he
  · rcases hcompare with hsame | ⟨e', he', c, i, x, m, hmisfit, rfl⟩
    · obtain ⟨rfl, rfl⟩ := Prod.mk.inj hsame
      cases hok.symm.trans he
    · obtain rfl := Except.error.inj (he.symm.trans he')
      exact ⟨rfl, c, i, x, m, hmisfit, rfl⟩
  · rcases hcompare with hsame | ⟨e', he', c, i', x, m, -, rfl⟩
    · obtain ⟨rfl, rfl⟩ := Prod.mk.inj hsame
      exact hraises _ he rfl
    · cases he.symm.trans he'
  · have hlinks := hg.run_links options.lax (g.size + 1) id
    have hspreads := linkWithin_spreads options.lax (g.size + 1) id g
    have hrun : linkWithin options.lax (g.size + 1) id g = (out', h') := hlax
    rw [hrun] at hlinks hspreads
    exact hlinks.coherent.slots_apart (hpublic.congr hspreads.declared) (known_of_linked hlinked)
      ha hb hne

def defaultRun (name : String) (interfaces : List String) : ClassRecord where
  name := name
  access := .publicInterface
  interfaces := interfaces
  methods := [minimalRoot.method Access.publicBit "run" "()V"]

def replacedRun : ClassGraph :=
  minimal.after [
    .add (abstractRun "Runner" []) .application,
    .add (defaultRun "Jumper" []) .application,
    .add (abstractClass "Athlete" ["Runner"]) .application,
    .add { name := "Hurdler", superName := some "Athlete", interfaces := ["Jumper"] } .application]

theorem replacedRun_is_rejected : ∃ e h h',
    (link (LinkOptions.strict {}) ⟨4⟩).result replacedRun = (.error e, h) ∧
    (link (LinkOptions.lax {}) ⟨4⟩).result replacedRun = (.ok (), h') ∧
    e.kind = .inconsistentVtable ∧ ∃ c i x m, h'.Misfit c i x m ∧
      e = ⟨h'.name c, .incompatibleSlot i (h'.methodSignature x) (h'.methodSignature m)⟩ := by
  have hfresh : ∀ c, replacedRun.status c = .unlinked := fun c => by
    simp only [replacedRun, after, List.foldl, Operation.run, status_add, minimal]
    rfl
  have hpublic : replacedRun.PublicInterfaces := by
    unfold PublicInterfaces
    decide +kernel
  obtain ⟨hstrict, hlax⟩ :
      error? ((link (LinkOptions.strict {}) ⟨4⟩).result replacedRun).1 = some ⟨"Hurdler",
        .incompatibleSlot 6 "Jumper.run()V" "Runner.run()V"⟩ ∧
      ((link (LinkOptions.lax {}) ⟨4⟩).result replacedRun).1.toOption = some () := by
    decide +kernel
  have hstrict : (link (LinkOptions.strict {}) ⟨4⟩).result replacedRun = (.error _, _) :=
    Prod.ext (error?_eq_some hstrict) rfl
  have hlax : (link (LinkOptions.lax {}) ⟨4⟩).result replacedRun = (.ok (), _) :=
    Prod.ext (toOption_eq_some hlax) rfl
  obtain ⟨-, hstops, -⟩ := verification_stops_at_misfits hfresh hpublic hstrict hlax
  exact ⟨_, _, _, hstrict, hlax, hstops _ rfl rfl⟩

end ClassGraph

end Linkage
