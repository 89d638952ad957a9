import Linkage.Proofs.DispatchAgreement
import Linkage.Proofs.FieldLayout

namespace Linkage

def FieldTarget.At (target : FieldTarget) (layout : List PlacedField) : Prop :=
  (layout[target.slot]?).map (·.field) = some target.field

theorem FieldTarget.at_iff {target : FieldTarget} {layout : List PlacedField} :
    target.At layout ↔ ∃ p, layout[target.slot]? = some p ∧ p.field = target.field :=
  Option.map_eq_some_iff

namespace ClassGraph

open Linking Outcome

variable {g g' mid : ClassGraph} {id c sup current owner : ClassId} {info above : ClassInfo}
  {ref : FieldRef} {f : FieldInfo} {site : FieldSite} {method : MethodRef} {target : FieldTarget}
  {name descriptor root : String} {allowed : LinkOptions → Prop} {options : LinkOptions}

theorem Hierarchical.of_fieldLookupWithin (hg : g.Hierarchical) {depth : Nat}
    (h : g.fieldLookupWithin name descriptor depth id = some ref) :
    Relation.ReflTransGen g.Direct id ref.owner ∧ ∃ f, g.field? ref = some f := by
  induction depth generalizing id with
  | zero => cases h
  | succ depth ih =>
      unfold fieldLookupWithin at h
      split at h
      next info hinfo =>
        rcases Option.or_eq_some_iff.mp h with hown | ⟨-, habove⟩
        · obtain ⟨n, hn, rfl⟩ := Option.map_eq_some_iff.mp hown
          obtain ⟨f, hf, -⟩ := of_findIdx? hn
          obtain rfl := hg.self hinfo
          exact ⟨.refl, f, (field?_eq hinfo).trans hf⟩
        · obtain ⟨sup, hsup, hfound⟩ := List.exists_of_findSome?_eq_some habove
          have hdirect : g.Direct id sup := by
            rw [Direct, directSupertypes_eq hinfo]
            exact List.mem_append.mpr (List.mem_append.mp hsup).symm
          obtain ⟨hpath, hfield⟩ := ih hfound
          exact ⟨hpath.head hdirect, hfield⟩
      next => cases h

theorem Hierarchical.of_fieldLookup (hg : g.Hierarchical)
    (h : g.fieldLookup owner name descriptor = some ref) :
    g.isSubtype owner ref.owner = true ∧ ∃ f declaring, g.field? ref = some f ∧
      g.info? ref.owner = some declaring ∧ declaring.fields[ref.index]? = some f := by
  obtain ⟨hpath, f, hf⟩ := hg.of_fieldLookupWithin h
  obtain ⟨declaring, hdeclaring, hget⟩ := Option.bind_eq_some_iff.mp hf
  exact ⟨hg.isSubtype_iff.mpr hpath, f, declaring, hf, hdeclaring, hget⟩

theorem Coherent.mem_lineage_or_above_interface (hg : g.Coherent allowed)
    (hroot : ∀ o, allowed o → o.rootClass = root) (hsub : g.isSubtype id c = true)
    (hclass : g.isInterface c = false) :
    c ∈ g.lineage id ∨ ∃ i, g.isInterface i = true ∧ g.superClass? i = some c := by
  rw [hg.isSubtype_iff] at hsub
  induction hsub using Relation.ReflTransGen.head_induction_on with
  | refl => exact .inl (mem_lineage_self g c)
  | @head a b hdirect _ ih =>
      rcases ih with hmem | habove
      · cases hkind : g.isInterface b with
        | false =>
            rw [hg.lineage_eq (hg.superClass_of_direct hdirect hkind)]
            exact .inl (List.mem_cons_of_mem _ hmem)
        | true =>
            have hne : c ≠ b := fun heq => by simp [← heq, hclass] at hkind
            cases hsup : g.superClass? b with
            | none =>
                rw [lineage_of_root hsup] at hmem
                exact absurd (List.mem_singleton.mp hmem) hne
            | some sup =>
                rw [hg.lineage_eq hsup, lineage_of_root (hg.root_above_interface hroot hkind hsup)]
                  at hmem
                obtain rfl : c = sup := by simpa [hne] using hmem
                exact .inr ⟨b, hkind, hsup⟩
      · exact .inr habove

theorem Coherent.mem_lineage_or_root (hg : g.Coherent allowed)
    (hroot : ∀ o, allowed o → o.rootClass = root) (hsub : g.isSubtype id c = true)
    (hclass : g.isInterface c = false) : c ∈ g.lineage id ∨ g.superClass? c = none :=
  (hg.mem_lineage_or_above_interface hroot hsub hclass).imp_right fun ⟨_, hi, hsup⟩ =>
    hg.root_above_interface hroot hi hsup

theorem selectField_ok (h : g.selectField current method owner site = .ok target) :
    ∃ declaring, g.fieldLookup owner site.name site.descriptor = some target.field ∧
      g.info? target.field.owner = some declaring ∧ target.isStatic = site.kind.isStatic ∧
      (if target.isStatic then declaring.staticSlot? target.field
        else declaring.instanceSlot? target.field) = some target.slot := by
  unfold selectField at h
  split at h
  next => cases h
  next ref hfound =>
    split at h
    next f declaring _ hdeclaring =>
      dsimp only at h
      split at h
      · cases h
      · split at h
        · cases h
        · split at h
          · cases h
          · split at h
            next slot hslot =>
              obtain rfl := pure_ok_iff.mp h
              exact ⟨declaring, hfound, hdeclaring, rfl, hslot⟩
            next => cases h
    next => cases h

theorem Coherent.slot_of_field (hg : g.Coherent allowed) (hinfo : g.info? ref.owner = some info)
    (hf : info.fields[ref.index]? = some f) :
    ∃ slot, (if f.access.isStatic then info.staticSlot? ref else info.instanceSlot? ref) =
      some slot := by
  cases hkind : f.access.isStatic with
  | true =>
      refine Option.ne_none_iff_exists'.mp fun hnone => ?_
      have hmem : ref ∈ info.staticFields.map (·.field) :=
        ((hg.arranged_statics hinfo).mem_iff ref).mpr ⟨rfl, f, hf, hkind⟩
      obtain ⟨p, hp, rfl⟩ := List.mem_map.mp hmem
      have hnot := List.findIdx?_eq_none_iff.mp hnone p hp
      simp at hnot
  | false => exact instanceSlot_of_mem (p := ⟨ref, f.category⟩) (hg.mem_own hinfo hf hkind)

theorem Coherent.selectField_of_found (hg : g.Coherent allowed)
    (hfound : g.fieldLookup owner site.name site.descriptor = some ref)
    (haccess : g.canAccessField current ref = true) (hf : g.field? ref = some f)
    (hkind : f.access.isStatic = site.kind.isStatic) :
    (∃ slot, g.selectField current method owner site = .ok ⟨ref, site.kind.isStatic, slot⟩) ∨
      ∃ e, g.selectField current method owner site = .error e ∧ e.kind = .illegalAccess := by
  obtain ⟨-, f', declaring, hf', hdeclaring, hget⟩ := hg.of_fieldLookup hfound
  obtain rfl := Option.some.inj (hf.symm.trans hf')
  obtain ⟨slot, hslot⟩ := hg.slot_of_field hdeclaring hget
  rw [hkind] at hslot
  simp only [canAccessField, hf, Option.any_some] at haccess
  cases hfinal : site.kind.isWrite && f.access.isFinal &&
      !g.mayWriteFinal current method site.kind ref with
  | true =>
      refine .inr ⟨g.violation current (.illegalAccess
        (.ofFinalField (g.fieldSignature ref) (g.methodSignature method))), ?_, rfl⟩
      simp only [selectField, hfound, hf, hdeclaring, haccess, hkind, hfinal, Bool.not_true,
        Bool.false_eq_true, ne_eq, not_true_eq_false, if_false, if_true]
      rfl
  | false =>
      refine .inl ⟨slot, ?_⟩
      simp only [selectField, hfound, hf, hdeclaring, haccess, hkind, hfinal, hslot, Bool.not_true,
        Bool.false_eq_true, ne_eq, not_true_eq_false, if_false]
      rfl

theorem link_declared (options : LinkOptions) (id : ClassId) (g : ClassGraph) :
    ((link options id).result g).2.declared = g.declared :=
  (linkWithin_spreads options (g.size + 1) id g).declared

theorem resolveClass_ok (h : (resolveClass options current name).result g = (.ok owner, g')) :
    g'.lookup name = some owner := by
  obtain ⟨_, _, hget, h⟩ := of_bind_ok h
  obtain ⟨-, rfl⟩ := Prod.mk.inj hget
  obtain ⟨_, _, hget, h⟩ := of_bind_ok h
  obtain ⟨hread, rfl⟩ := Prod.mk.inj hget
  obtain rfl := Except.ok.inj hread
  split at h
  next => cases congrArg Prod.fst h
  next id hname =>
    obtain ⟨_, mid, hlink, h⟩ := of_bind_ok h
    obtain ⟨_, _, hget, h⟩ := of_bind_ok h
    obtain ⟨-, rfl⟩ := Prod.mk.inj hget
    have hdeclared := link_declared options id g
    rw [hlink] at hdeclared
    split at h
    · obtain ⟨hid, rfl⟩ := Prod.mk.inj h
      obtain rfl := Except.ok.inj hid
      exact (lookup_congr hdeclared name).trans hname
    · cases congrArg Prod.fst h

def ResolvesTo (options : LinkOptions) (g : ClassGraph) (current : ClassId) (name : String)
    (owner : ClassId) (g' : ClassGraph) : Prop :=
  ∃ mid, (link options current).result g = (.ok (), mid) ∧
    (resolveClass options current name).result mid = (.ok owner, g')

theorem ResolvesTo.access (h : ResolvesTo options g current site.owner owner g') :
    (resolveFieldAccess options current method site).result g =
      (g'.selectField current method owner site, g') := by
  obtain ⟨mid, hlink, howner⟩ := h
  have hget : (get : Linking ClassGraph).result g' = (.ok g', g') := rfl
  simp only [resolveFieldAccess, result_bind, hlink, howner, hget]
  cases g'.selectField current method owner site <;> rfl

theorem resolvesTo_of_ok
    (h : (resolveFieldAccess options current method site).result g = (.ok target, g')) :
    ∃ owner, ResolvesTo options g current site.owner owner g' ∧
      g'.selectField current method owner site = .ok target := by
  obtain ⟨_, mid, hlink, h⟩ := of_bind_ok h
  obtain ⟨owner, last, howner, h⟩ := of_bind_ok h
  obtain ⟨_, _, hget, h⟩ := of_bind_ok h
  obtain ⟨hread, rfl⟩ := Prod.mk.inj hget
  obtain rfl := Except.ok.inj hread
  cases hselect : last.selectField current method owner site with
  | error e =>
      rw [hselect] at h
      cases congrArg Prod.fst h
  | ok found =>
      rw [hselect] at h
      obtain ⟨htarget, rfl⟩ := Prod.mk.inj h
      exact ⟨owner, ⟨mid, hlink, howner⟩, hselect.trans htarget⟩

theorem ResolvesTo.lookup (h : ResolvesTo options g current name owner g') :
    g'.lookup name = some owner := by
  obtain ⟨_, -, howner⟩ := h
  exact resolveClass_ok howner

theorem ResolvesTo.coherent (h : ResolvesTo options g current name owner g')
    (hg : g.Coherent allowed) (hallowed : allowed options) : g'.Coherent allowed ∧ g'.Known owner := by
  obtain ⟨mid, hlink, howner⟩ := h
  have hmid : mid.Coherent allowed := by
    simpa only [hlink] using (link_ensures hg hallowed current).coherent
  have hensures := resolveClass_ensures hmid hallowed current name
  have hpost := hensures.post owner
  have hcoherent := hensures.coherent
  rw [howner] at hpost hcoherent
  exact ⟨hcoherent, hpost rfl⟩

theorem Coherent.at_static_slot (hg' : g'.Coherent allowed) (hr : g.Retains g')
    (h : g.selectField current method owner site = .ok target) (hstatic : target.isStatic = true) :
    ∃ declaring, g'.status target.field.owner = .linked declaring ∧
      target.At declaring.staticFields := by
  obtain ⟨declaring, -, hdeclaring, -, hslot⟩ := selectField_ok h
  rw [if_pos hstatic] at hslot
  obtain ⟨p, hp, hfield⟩ := of_findIdx? hslot
  exact ⟨declaring, hg'.status_of_info (hr.info hdeclaring),
    FieldTarget.at_iff.mpr ⟨p, hp, of_decide_eq_true hfield⟩⟩

theorem Coherent.at_instance_slot_iff (hg' : g'.Coherent allowed) (hr : g.Retains g')
    (h : g.selectField current method owner site = .ok target) (hinstance : target.isStatic = false)
    (hinfo : g'.info? id = some info) :
    target.At info.instanceFields ↔ target.field.owner ∈ g'.lineage id := by
  obtain ⟨declaring, -, hdeclaring, -, hslot⟩ := selectField_ok h
  rw [hinstance, if_neg Bool.false_ne_true] at hslot
  rw [FieldTarget.at_iff]
  constructor
  · rintro ⟨p, hp, hfield⟩
    have hmem := (hg'.mem_instanceFields_iff hinfo).mp (List.mem_of_getElem? hp)
    exact hfield ▸ hmem.1
  · intro hmem
    obtain ⟨p, hp, hfield⟩ := of_findIdx? (hg'.instanceSlot_below hinfo (hr.info hdeclaring) hmem hslot)
    exact ⟨p, hp, of_decide_eq_true hfield⟩

theorem resolved_slots_hold_the_field (h : Reachable allowed g) (hallowed : allowed options) :
    (∀ target g', (resolveFieldAccess options current method site).result g = (.ok target, g') →
      ∃ owner, g'.lookup site.owner = some owner ∧ ∀ g'', Reaches allowed g' g'' →
        (target.isStatic = true → ∃ declaring, g''.status target.field.owner = .linked declaring ∧
          target.At declaring.staticFields) ∧
        (target.isStatic = false → ∀ id info, g''.status id = .linked info →
          info.isInterface = false → g''.isSubtype id owner = true →
          (target.At info.instanceFields ↔ target.field.owner ∈ g''.lineage id) ∧
          ((∃ root, ∀ o, allowed o → o.rootClass = root) → target.field.owner ∈ g''.lineage id ∨
            g''.isInterface target.field.owner = true ∨
            g''.superClass? target.field.owner = none))) ∧
    ∀ owner g' ref f, ResolvesTo options g current site.owner owner g' →
      g'.fieldLookup owner site.name site.descriptor = some ref → g'.field? ref = some f →
      g'.canAccessField current ref = true → f.access.isStatic = site.kind.isStatic →
      ∃ out, (resolveFieldAccess options current method site).result g = (out, g') ∧
        ((∃ slot, out = .ok ⟨ref, site.kind.isStatic, slot⟩) ∨
          ∃ e, out = .error e ∧ e.kind = .illegalAccess) := by
  refine ⟨fun target g' hok => ?_, fun owner g' ref f hresolves hfound hf haccess hkind => ?_⟩
  · obtain ⟨owner, hresolves, hselect⟩ := resolvesTo_of_ok hok
    obtain ⟨hg', hknown⟩ := hresolves.coherent h.coherent hallowed
    refine ⟨owner, hresolves.lookup, fun g'' hreaches => ⟨fun hstatic => ?_, ?_⟩⟩
    · obtain ⟨hg'', hadvances⟩ := hreaches.keeps hg'
      exact hg''.at_static_slot hadvances.toRetains hselect hstatic
    · intro hinstance id info hlinked hclass hsub
      obtain ⟨hg'', hadvances⟩ := hreaches.keeps hg'
      have hinfo := known_of_linked hlinked
      refine ⟨hg''.at_instance_slot_iff hadvances.toRetains hselect hinstance hinfo, ?_⟩
      rintro ⟨root, hroot⟩
      obtain ⟨declaring, hfound, -⟩ := selectField_ok hselect
      have habove : g''.isSubtype owner target.field.owner = true := by
        rw [hadvances.extends.isSubtype hg'.toHierarchical hknown]
        exact (hg'.of_fieldLookup hfound).1
      cases hkind : g''.isInterface target.field.owner with
      | true => exact .inr (.inl rfl)
      | false =>
          rcases hg''.mem_lineage_or_root hroot (hg''.isSubtype_trans hsub habove) hkind with
            hmem | hnone
          · exact .inl hmem
          · exact .inr (.inr hnone)
  · obtain ⟨hg', -⟩ := hresolves.coherent h.coherent hallowed
    exact ⟨_, hresolves.access, hg'.selectField_of_found hfound haccess hf hkind⟩

def namedBase : ClassGraph :=
  program [
    { name := "Named", access := .publicInterface,
      fields := [fieldDecl Access.publicBit "name" "[C"] },
    { name := "Base", interfaces := ["Named"], fields := [fieldDecl Access.publicBit "size" "J"] },
    { name := "Derived", superName := some "Base" }] ⟨3⟩

def readSize : FieldSite := ⟨.getField, "Derived", "size", "J"⟩

theorem namedBase_size : ∃ g info, namedBase.isLinked ⟨3⟩ = true ∧
    (resolveFieldAccess {} ⟨3⟩ ⟨⟨3⟩, 0⟩ readSize).result namedBase =
      (.ok ⟨⟨⟨2⟩, 0⟩, false, 0⟩, g) ∧
    g.status ⟨3⟩ = .linked info ∧ (info.instanceFields[0]?).map (·.field) = some ⟨⟨2⟩, 0⟩ := by
  have hreach : Reachable (·.rootClass = rootName) namedBase := reachable_program_of (by rfl) _ _
  let g := ((resolveFieldAccess {} ⟨3⟩ ⟨⟨3⟩, 0⟩ readSize).result namedBase).2
  obtain ⟨hlinked, hok, hlinked', hkind, hlookup, hmem⟩ :
      namedBase.isLinked ⟨3⟩ = true ∧
      ((resolveFieldAccess {} ⟨3⟩ ⟨⟨3⟩, 0⟩ readSize).result namedBase).1.toOption =
        some ⟨⟨⟨2⟩, 0⟩, false, 0⟩ ∧
      g.isLinked ⟨3⟩ = true ∧ g.isInterface ⟨3⟩ = false ∧ g.lookup "Derived" = some ⟨3⟩ ∧
      ⟨2⟩ ∈ g.lineage ⟨3⟩ := by
    decide +kernel
  have haccess : (resolveFieldAccess {} ⟨3⟩ ⟨⟨3⟩, 0⟩ readSize).result namedBase =
      (.ok ⟨⟨⟨2⟩, 0⟩, false, 0⟩, g) :=
    Prod.ext (Outcome.toOption_eq_some hok) rfl
  obtain ⟨owner, hname, hslots⟩ := (resolved_slots_hold_the_field hreach rfl).1 _ g haccess
  obtain rfl := Option.some.inj (hlookup.symm.trans hname)
  obtain ⟨info, hinfo, hclass⟩ := linkedClass_of hlinked' hkind
  obtain ⟨hat, -⟩ := (hslots g .refl).2 rfl ⟨3⟩ info hinfo hclass (isSubtype_refl g _)
  exact ⟨g, info, hlinked, haccess, hinfo, hat.mpr hmem⟩

def readName : FieldSite := ⟨.getField, "Derived", "name", "[C"⟩

def lateRoot : ClassGraph :=
  empty.after [
    .add { name := rootName, fields := [fieldDecl Access.publicBit "size" "J"] } .runtime,
    .add { name := "Sized", access := .publicInterface } .runtime,
    .link {} ⟨1⟩,
    .add { name := rootName } .application,
    .add { name := "List", interfaces := ["Sized"] } .application,
    .link {} ⟨3⟩]

def readListSize : FieldSite := ⟨.getField, "List", "size", "J"⟩

theorem other_slots_hold_other_fields :
    (∃ g info, Reachable (· = {}) namedBase ∧
      (resolveFieldAccess {} ⟨3⟩ ⟨⟨3⟩, 0⟩ readName).result namedBase =
        (.ok ⟨⟨⟨1⟩, 0⟩, false, 0⟩, g) ∧
      g.status ⟨3⟩ = .linked info ∧ info.isInterface = false ∧ g.lookup "Derived" = some ⟨3⟩ ∧
      (info.instanceFields[0]?).map (·.field) = some ⟨⟨2⟩, 0⟩) ∧
    ∃ g info, Reachable (· = {}) lateRoot ∧
      (resolveFieldAccess {} ⟨3⟩ ⟨⟨3⟩, 0⟩ readListSize).result lateRoot =
        (.ok ⟨⟨⟨0⟩, 0⟩, false, 0⟩, g) ∧
      g.status ⟨3⟩ = .linked info ∧ info.isInterface = false ∧ g.lookup "List" = some ⟨3⟩ ∧
      info.instanceFields = [] := by
  constructor
  · let g := ((resolveFieldAccess {} ⟨3⟩ ⟨⟨3⟩, 0⟩ readName).result namedBase).2
    obtain ⟨hok, hlinked, hkind, hlookup, hfields⟩ :
        ((resolveFieldAccess {} ⟨3⟩ ⟨⟨3⟩, 0⟩ readName).result namedBase).1.toOption =
          some ⟨⟨⟨1⟩, 0⟩, false, 0⟩ ∧
        g.isLinked ⟨3⟩ = true ∧ g.isInterface ⟨3⟩ = false ∧ g.lookup "Derived" = some ⟨3⟩ ∧
        (g.info? ⟨3⟩).map (fun info => (info.instanceFields[0]?).map (·.field)) =
          some (some ⟨⟨2⟩, 0⟩) := by
      decide +kernel
    obtain ⟨info, hinfo, hclass⟩ := linkedClass_of hlinked hkind
    rw [known_of_linked hinfo, Option.map_some, Option.some.injEq] at hfields
    exact ⟨g, info, reachable_program_of (by rfl) _ _, Prod.ext (Outcome.toOption_eq_some hok) rfl,
      hinfo, hclass, hlookup, hfields⟩
  · let g := ((resolveFieldAccess {} ⟨3⟩ ⟨⟨3⟩, 0⟩ readListSize).result lateRoot).2
    obtain ⟨hok, hlinked, hkind, hlookup, hfields⟩ :
        ((resolveFieldAccess {} ⟨3⟩ ⟨⟨3⟩, 0⟩ readListSize).result lateRoot).1.toOption =
          some ⟨⟨⟨0⟩, 0⟩, false, 0⟩ ∧
        g.isLinked ⟨3⟩ = true ∧ g.isInterface ⟨3⟩ = false ∧ g.lookup "List" = some ⟨3⟩ ∧
        (g.info? ⟨3⟩).map (·.instanceFields) = some [] := by
      decide +kernel
    obtain ⟨info, hinfo, hclass⟩ := linkedClass_of hlinked hkind
    rw [known_of_linked hinfo, Option.map_some, Option.some.injEq] at hfields
    exact ⟨g, info, .inl (reaches_after (by simp [Operation.Uses])),
      Prod.ext (Outcome.toOption_eq_some hok) rfl, hinfo, hclass, hlookup, hfields⟩

end ClassGraph
end Linkage
