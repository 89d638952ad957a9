import Linkage.Proofs.Dependencies
import Linkage.Proofs.Lockstep
import Linkage.Proofs.RenamedTables
import Linkage.Report.Summary

namespace Linkage

variable {π : Equiv.Perm ClassId} {options : LinkOptions}

def Supertypes.rename (π : Equiv.Perm ClassId) (supers : Supertypes) : Supertypes :=
  ⟨supers.superClass.map π, supers.interfaces.map π⟩

theorem Supertypes.dependencies_rename (supers : Supertypes) :
    (supers.rename π).superClass.toList ++ (supers.rename π).interfaces =
      (supers.superClass.toList ++ supers.interfaces).map π := by
  simp [rename, Option.toList_map]

namespace ClassGraph

open Outcome Linking

variable {g g' : ClassGraph} {id : ClassId} {slot : Slot} {origin : Origin} {name : String}
  {supers : Supertypes}

theorem Distinct.congr (hg : g.Distinct) (h : g'.declared = g.declared) : g'.Distinct := by
  intro a b s t ha hb horigin hname
  obtain ⟨_, ha⟩ := slot?_congr h.symm ha
  obtain ⟨_, hb⟩ := slot?_congr h.symm hb
  exact hg ha hb horigin hname

theorem Distinct.find_iff (hg : g.Distinct) :
    g.find? origin name = some id ↔
      ∃ slot, g.slot? id = some slot ∧ slot.origin = origin ∧ slot.record.name = name := by
  refine ⟨find_slot, ?_⟩
  rintro ⟨slot, hslot, rfl, rfl⟩
  cases hfound : g.find? slot.origin slot.record.name with
  | none =>
      have hall := Array.findIdx?_eq_none_iff.mp (Option.map_eq_none_iff.mp hfound)
      simpa using hall slot (Array.mem_of_getElem? hslot)
  | some found =>
      obtain ⟨slot', hslot', horigin, hname⟩ := find_slot hfound
      rw [hg hslot' hslot horigin hname]

namespace Renaming

theorem distinct_right (r : Renaming π g g') : g'.Distinct := by
  intro a b s t ha hb horigin hname
  rw [← π.apply_symm_apply a, r.slot, Option.map_eq_some_iff] at ha
  rw [← π.apply_symm_apply b, r.slot, Option.map_eq_some_iff] at hb
  obtain ⟨s, ha, rfl⟩ := ha
  obtain ⟨t, hb, rfl⟩ := hb
  exact π.symm.injective (r.distinct ha hb horigin hname)

theorem find (r : Renaming π g g') : g'.find? origin name = (g.find? origin name).map π := by
  ext id
  obtain ⟨id, rfl⟩ := π.surjective id
  rw [r.distinct_right.find_iff, r.slot, Option.map_eq_some_iff]
  constructor
  · rintro ⟨_, hrenamed, horigin, hname⟩
    obtain ⟨slot, hslot, rfl⟩ := Option.map_eq_some_iff.mp hrenamed
    exact ⟨id, r.distinct.find_iff.mpr ⟨slot, hslot, horigin, hname⟩, rfl⟩
  · rintro ⟨found, hfound, heq⟩
    obtain rfl := π.injective heq
    obtain ⟨slot, hslot, horigin, hname⟩ := r.distinct.find_iff.mp hfound
    exact ⟨slot.rename π, by rw [hslot, Option.map_some], horigin, hname⟩

theorem lookup (r : Renaming π g g') (name : String) : g'.lookup name = (g.lookup name).map π := by
  simp only [ClassGraph.lookup, r.find, Option.map_or]

theorem resolveName (r : Renaming π g g') (record : ClassRecord) (name : String) :
    g'.resolveName record name = (g.resolveName record name).map π := by
  simp only [ClassGraph.resolveName, r.lookup]
  cases g.lookup name <;> rfl

theorem resolveSupertypes (r : Renaming π g g') (record : ClassRecord) :
    g'.resolveSupertypes options record =
      (g.resolveSupertypes options record).map (Supertypes.rename π) := by
  simp only [ClassGraph.resolveSupertypes, mapM_hom (r.resolveName record)]
  cases hsuper : record.superName with
  | none =>
      cases decide (record.name = options.rootClass) with
      | false => rfl
      | true => cases record.interfaces.mapM (g.resolveName record) <;> rfl
  | some superName =>
      cases decide (record.name = options.rootClass) with
      | true => rfl
      | false =>
          rw [Option.mapM_some, Option.mapM_some, r.resolveName]
          cases g.resolveName record superName with
          | error e => rfl
          | ok superClass => cases record.interfaces.mapM (g.resolveName record) <;> rfl

theorem checkSuperClass (r : Renaming π g g') (record : ClassRecord) (superClass : ClassId) :
    g'.checkSuperClass options (π id) record (π superClass) =
      g.checkSuperClass options id record superClass := by
  simp only [ClassGraph.checkSuperClass, r.className, r.canAccessClass, r.isInterface]

theorem checkInterface (r : Renaming π g g') (record : ClassRecord) (interface : ClassId) :
    g'.checkInterface (π id) record (π interface) = g.checkInterface id record interface := by
  simp only [ClassGraph.checkInterface, r.className, r.canAccessClass, r.isInterface]

theorem draft (r : Renaming π g g') (slot : Slot) (supers : Supertypes) :
    g'.draft options (π id) (slot.rename π) (supers.rename π) =
      (g.draft options id slot supers).map (·.rename π) := by
  have hsuper : (supers.superClass.map π).forM (g'.checkSuperClass options (π id) slot.record) =
      supers.superClass.forM (g.checkSuperClass options id slot.record) := by
    cases supers.superClass with
    | none => rfl
    | some superClass => exact r.checkSuperClass slot.record superClass
  have hinterfaces : (supers.interfaces.map π).forM (g'.checkInterface (π id) slot.record) =
      supers.interfaces.forM (g.checkInterface id slot.record) := by
    simp only [List.forM_eq_forM, List.forM_map, r.checkInterface]
  simp only [ClassGraph.draft, Slot.rename, Supertypes.rename, hsuper, hinterfaces, r.bind_info]
  cases supers.superClass.forM (g.checkSuperClass options id slot.record) with
  | error e => rfl
  | ok _ =>
      cases supers.interfaces.forM (g.checkInterface id slot.record) with
      | error e => rfl
      | ok _ =>
          cases resolveFields slot.record with
          | error e => rfl
          | ok fields =>
              cases resolveMethods slot.record with
              | error e => rfl
              | ok methods =>
                  simp only [bind, Except.bind, pure, Except.pure, Except.map]
                  cases supers.superClass.bind g.info? <;>
                    simp [ClassInfo.rename, Layout.statics, Layout.instances, Layout.place_rename]

theorem setStatus (r : Renaming π g g') (id : ClassId) (s : Status) :
    Renaming π (g.setStatus id s) (g'.setStatus (π id) (s.rename π)) where
  size := by rw [size_setStatus, size_setStatus, r.size]
  slot := by
    intro c
    simp only [slot?_setStatus, r.slot, π.injective.eq_iff]
    split
    · cases g.slot? c <;> rfl
    · rfl
  distinct := r.distinct.congr declared_setStatus

theorem complete (r : Renaming π g g') (info : ClassInfo) :
    g'.complete options (info.rename π) = (g.complete options info).map (·.rename π) := by
  have hkind : (info.rename π).isInterface = info.isInterface := rfl
  have hid : (info.rename π).id = π info.id := rfl
  have hdrafted : Renaming π (g.setStatus info.id (.drafted info))
      (g'.setStatus (π info.id) (.drafted (info.rename π))) := r.setStatus info.id (.drafted info)
  simp only [ClassGraph.complete, hkind, hid, hdrafted.buildVtable]
  split
  · rfl
  · cases (g.setStatus info.id (.drafted info)).buildVtable info options.verifyVtables with
    | error e => rfl
    | ok vtable =>
        simp only [bind, Except.bind, Except.map, pure, Except.pure, hdrafted.buildInterfaceTable]
        rfl

theorem finish (r : Renaming π g g') (slot : Slot) (supers : Supertypes) :
    g'.finish options (π id) (slot.rename π) (supers.rename π) =
      (g.finish options id slot supers).map (·.rename π) := by
  simp only [ClassGraph.finish, r.draft]
  cases g.draft options id slot supers with
  | error e => rfl
  | ok draft => exact r.complete draft

theorem leave {a b : Except LinkError Unit × ClassGraph} (hab : Agree (Renaming π) a b) :
    Agree (Renaming π) (ClassGraph.leave options id slot supers a)
      (ClassGraph.leave options (π id) (slot.rename π) (supers.rename π) b) := by
  obtain ⟨out, g⟩ := a
  obtain ⟨out', g'⟩ := b
  obtain ⟨hresult, r⟩ := hab
  obtain rfl : out = out' := hresult
  cases out with
  | error e => exact ⟨rfl, r.setStatus id .unlinked⟩
  | ok _ =>
      simp only [ClassGraph.leave, Renaming.finish r]
      cases g.finish options id slot supers with
      | error e => exact ⟨rfl, r.setStatus id .unlinked⟩
      | ok info => exact ⟨rfl, r.setStatus id (.linked info)⟩

theorem linkWithin (depth : Nat) (id : ClassId) (g g' : ClassGraph) (r : Renaming π g g') :
    Agree (Renaming π) (ClassGraph.linkWithin options depth id g)
      (ClassGraph.linkWithin options depth (π id) g') := by
  induction depth generalizing id g g' with
  | zero => exact ⟨by simp only [ClassGraph.linkWithin, r.className], r⟩
  | succ depth ih =>
      have hslot' := r.slot id
      cases hslot : g.slot? id with
      | none =>
          rw [hslot, Option.map_none] at hslot'
          simp only [ClassGraph.linkWithin, hslot, hslot', r.className]
          exact ⟨rfl, r⟩
      | some slot =>
          rw [hslot, Option.map_some] at hslot'
          have hstatus := status_of_slot hslot
          cases hs : slot.status with
          | linked info =>
              simp only [ClassGraph.linkWithin, hslot, hslot', Slot.rename, hs, Status.rename]
              exact ⟨rfl, r⟩
          | linking =>
              simp only [ClassGraph.linkWithin, hslot, hslot', Slot.rename, hs, Status.rename,
                r.className]
              exact ⟨rfl, r⟩
          | drafted info =>
              simp only [ClassGraph.linkWithin, hslot, hslot', Slot.rename, hs, Status.rename,
                r.className]
              exact ⟨rfl, r⟩
          | unlinked =>
              have hresolve : g'.resolveSupertypes options slot.record =
                  (g.resolveSupertypes options slot.record).map (Supertypes.rename π) :=
                r.resolveSupertypes slot.record
              cases hsupers : g.resolveSupertypes options slot.record with
              | error e =>
                  rw [hsupers] at hresolve
                  simp only [ClassGraph.linkWithin, hslot, hslot', Slot.rename, hs, Status.rename,
                    hsupers, hresolve]
                  exact ⟨rfl, r⟩
              | ok supers =>
                  rw [hsupers] at hresolve
                  rw [linkWithin_enter hslot (hstatus.trans hs) hsupers,
                    linkWithin_enter hslot' (by rw [r.status, hstatus, hs]; rfl) hresolve,
                    supers.dependencies_rename]
                  exact leave (linkEach_agree ih _ (r.setStatus id .linking))

end Renaming

end ClassGraph

end Linkage
