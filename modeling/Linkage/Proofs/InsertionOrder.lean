import Linkage.Proofs.RenamedLinking
import Mathlib.Data.List.Perm.Basic
import Mathlib.Data.List.Sort
import Mathlib.Logic.Equiv.Basic

namespace Linkage.ClassGraph

open Linking

variable {π : Equiv.Perm ClassId} {options : LinkOptions} {g g' : ClassGraph} {id : ClassId}
  {origin : Origin} {name : String}

theorem mem_ids_iff : id ∈ g.ids ↔ ∃ slot, g.slot? id = some slot := by
  have hindex : id ∈ g.ids ↔ id.index < g.size := by
    cases id
    simp [ids]
  rw [hindex, ← Option.isSome_iff_exists, slot?, isSome_getElem?]
  rfl

theorem nodup_ids (g : ClassGraph) : g.ids.Nodup :=
  List.nodup_range.map fun _ _ h => (ClassId.mk.inj h)

theorem slots_eq (g : ClassGraph) : g.slots.toList.map some = g.ids.map g.slot? :=
  List.ext_getElem (by simp [ids, size]) fun n _ _ => by simp [ids, slot?]

theorem linkedCount_eq (g : ClassGraph) : g.linkedCount = g.ids.countP g.isLinked := by
  have hlinked : g.isLinked = fun id => (g.slot? id).any (·.status.isLinked) := by
    funext id
    simp only [isLinked, status]
    cases g.slot? id <;> rfl
  calc g.linkedCount = (g.slots.toList.map some).countP (·.any (·.status.isLinked)) := by
        rw [linkedCount, ← Array.countP_toList, List.countP_map]
        rfl
    _ = g.ids.countP g.isLinked := by
        rw [slots_eq, List.countP_map, hlinked]
        rfl

def before (g : ClassGraph) (a b : ClassId) : Bool := !(g.name b < g.name a)

theorem before_iff {a b : ClassId} : g.before a b = true ↔ g.name a ≤ g.name b := by
  rw [before, Bool.not_eq_true', decide_eq_false_iff_not, String.not_lt]

theorem pairwise_sortByName {α : Type} (key : α → String) (l : List α) :
    (l.mergeSort fun a b => !(key b < key a)).Pairwise fun a b => key a ≤ key b := by
  have hle : ∀ a b : α, (!decide (key b < key a)) = true ↔ key a ≤ key b := fun a b => by
    rw [Bool.not_eq_true', decide_eq_false_iff_not, String.not_lt]
  refine (List.pairwise_mergeSort (fun a b c hab hbc => ?_) (fun a b => ?_) l).imp fun {a b} hab =>
    (hle a b).mp hab
  · exact (hle a c).mpr (String.le_trans ((hle a b).mp hab) ((hle b c).mp hbc))
  · rw [Bool.or_eq_true, hle, hle]
    exact String.le_total (key a) (key b)

theorem pairwise_classes (g : ClassGraph) (origin : Origin) :
    (g.classes origin).Pairwise fun a b => g.before a b = true :=
  (pairwise_sortByName g.name _).imp before_iff.mpr

theorem mem_classes_iff : id ∈ g.classes origin ↔ g.origin? id = some origin := by
  rw [classes, (List.mergeSort_perm _ _).mem_iff, List.mem_filter, mem_ids_iff, decide_eq_true_eq]
  refine ⟨And.right, fun horigin => ⟨?_, horigin⟩⟩
  obtain ⟨slot, hslot, -⟩ := Option.map_eq_some_iff.mp horigin
  exact ⟨slot, hslot⟩

theorem nodup_classes (g : ClassGraph) (origin : Origin) : (g.classes origin).Nodup :=
  (List.mergeSort_perm _ _).nodup_iff.mpr (g.nodup_ids.filter _)

theorem Distinct.eq_of_name (hg : g.Distinct) {a b : ClassId} (ha : a ∈ g.classes origin)
    (hb : b ∈ g.classes origin) (hname : g.name a = g.name b) : a = b := by
  obtain ⟨s, hs, rfl⟩ := Option.map_eq_some_iff.mp (mem_classes_iff.mp ha)
  obtain ⟨t, ht, horigin⟩ := Option.map_eq_some_iff.mp (mem_classes_iff.mp hb)
  simp only [ClassGraph.name, hs, ht] at hname
  exact hg hs ht horigin.symm hname

theorem Distinct.eq_classes (hg : g.Distinct) {ids : List ClassId}
    (hperm : ids.Perm (g.classes origin))
    (hsorted : ids.Pairwise fun a b => g.before a b = true) : ids = g.classes origin := by
  refine hperm.eq_of_pairwise (fun a b ha hb hab hba => ?_) hsorted (g.pairwise_classes origin)
  exact hg.eq_of_name (hperm.mem_iff.mp ha) hb
    (String.le_antisymm (before_iff.mp hab) (before_iff.mp hba))

namespace Renaming

theorem ids (r : Renaming π g g') : g'.ids.Perm (g.ids.map π) := by
  refine (List.perm_ext_iff_of_nodup g'.nodup_ids (g.nodup_ids.map π.injective)).mpr fun id => ?_
  obtain ⟨id, rfl⟩ := π.surjective id
  rw [List.mem_map_of_injective π.injective, mem_ids_iff, mem_ids_iff, r.slot]
  simp

theorem isLinked (r : Renaming π g g') : g'.isLinked (π id) = g.isLinked id := by
  rw [ClassGraph.isLinked, r.status, ClassGraph.isLinked]
  cases g.status id <;> rfl

theorem linkedCount (r : Renaming π g g') : g'.linkedCount = g.linkedCount := by
  rw [linkedCount_eq, linkedCount_eq, r.ids.countP_eq, List.countP_map]
  simp only [Function.comp_def, r.isLinked]

theorem classes (r : Renaming π g g') (origin : Origin) :
    g'.classes origin = (g.classes origin).map π := by
  have hperm : (g'.classes origin).Perm ((g.classes origin).map π) := by
    refine (List.perm_ext_iff_of_nodup (g'.nodup_classes origin)
      ((g.nodup_classes origin).map π.injective)).mpr fun id => ?_
    obtain ⟨id, rfl⟩ := π.surjective id
    rw [List.mem_map_of_injective π.injective, mem_classes_iff, mem_classes_iff, r.origin]
  have hsorted : ((g.classes origin).map π).Pairwise fun a b => g'.before a b = true :=
    List.pairwise_map.mpr ((g.pairwise_classes origin).imp fun hab => by
      rwa [before_iff, r.className, r.className, ← before_iff])
  exact (r.distinct_right.eq_classes hperm.symm hsorted).symm

theorem link (r : Renaming π g g') (id : ClassId) :
    Agree (Renaming π) ((ClassGraph.link options id).result g)
      ((ClassGraph.link options (π id)).result g') := by
  have hlink : (ClassGraph.link options (π id)).result g' =
      ClassGraph.linkWithin options (g.size + 1) (π id) g' := by
    rw [← r.size]
    rfl
  rw [hlink]
  exact linkWithin (g.size + 1) id g g' r

theorem linkAll (r : Renaming π g g') (origin : Origin) :
    Agree (Renaming π) ((ClassGraph.linkAll options origin).result g)
      ((ClassGraph.linkAll options origin).result g') := by
  refine agree_read (agree_read ?_)
  rw [r.classes]
  refine agree_bind (agree_forM (fun id _ _ r => r.link id) _ r) fun _ _ r' => agree_read ?_
  rw [r'.linkedCount, r.linkedCount]
  exact agree_pure r' _

theorem summary (r : Renaming π g g') (info : ClassInfo) :
    ClassSummary.ofInfo g' (info.rename π) = ClassSummary.ofInfo g info := by
  have hkind : (info.rename π).isInterface = info.isInterface := rfl
  have hmangled : (info.rename π).mangledName = info.mangledName := rfl
  simp only [ClassSummary.ofInfo, hkind, hmangled, info.referenceSlots_rename]
  simp [ClassInfo.rename, InterfaceEntry.rename, r.className, Function.comp_def]

theorem linkApplication (r : Renaming π g g') :
    Agree (Renaming π) ((ClassGraph.linkApplication options).result g)
      ((ClassGraph.linkApplication options).result g') := by
  refine agree_bind (r.linkAll .application) fun _ _ r' => agree_read ?_
  have hinfos : ∀ ids : List ClassId,
      (ids.map π).filterMap ((ClassGraph.linkAll options .application).result g').2.info? =
        (ids.filterMap ((ClassGraph.linkAll options .application).result g).2.info?).map
          (·.rename π) := by
    simp only [List.filterMap_map, List.map_filterMap, Function.comp_def, r'.info, implies_true]
  rw [r'.classes, hinfos, List.map_map]
  simp only [Function.comp_def, r'.summary]
  exact agree_pure r' _

end Renaming

def added (classes : List (ClassRecord × Origin)) (g : ClassGraph) : ClassGraph :=
  g.after (classes.map fun c => .add c.1 c.2)

def originNames (classes : List (ClassRecord × Origin)) : List (Origin × String) :=
  classes.map fun c => (c.2, c.1.name)

variable {classes classes' : List (ClassRecord × Origin)}

theorem find?_eq_none_iff : g.find? origin name = none ↔
    ∀ slot ∈ g.slots, ¬(slot.origin = origin ∧ slot.record.name = name) := by
  simp [find?, Array.findIdx?_eq_none_iff]

theorem slots_added (hdistinct : (originNames classes).Nodup)
    (hnew : ∀ c ∈ classes, g.find? c.2 c.1.name = none) :
    (added classes g).slots.toList =
      g.slots.toList ++ classes.map fun c => ⟨c.1, c.2, .unlinked⟩ := by
  induction classes generalizing g with
  | nil => simp [added, after]
  | cons c rest ih =>
      obtain ⟨hfirst, hrest⟩ := List.nodup_cons.mp hdistinct
      have hpush : (g.add c.1 c.2).2 = ⟨g.slots.push ⟨c.1, c.2, .unlinked⟩⟩ := by
        simp [add, hnew c (by simp)]
      have hstep : added (c :: rest) g = added rest (g.add c.1 c.2).2 := rfl
      rw [hstep, hpush, ih hrest fun d hd => ?_]
      · simp
      · refine find?_eq_none_iff.mpr fun slot hslot => ?_
        rcases Array.mem_push.mp hslot with hold | rfl
        · exact find?_eq_none_iff.mp (hnew d (by simp [hd])) slot hold
        · rintro ⟨horigin, hname⟩
          exact hfirst (List.mem_map.mpr ⟨d, hd, Prod.ext horigin.symm hname.symm⟩)

theorem slots_added_empty (hdistinct : (originNames classes).Nodup) :
    (added classes empty).slots.toList = classes.map fun c => ⟨c.1, c.2, .unlinked⟩ :=
  slots_added hdistinct fun _ _ => by simp [find?, empty]

theorem slot?_added (hdistinct : (originNames classes).Nodup) (id : ClassId) :
    (added classes empty).slot? id = (classes[id.index]?).map fun c => ⟨c.1, c.2, .unlinked⟩ := by
  rw [slot?, ← Array.getElem?_toList, slots_added_empty hdistinct, List.getElem?_map]

theorem size_added (hdistinct : (originNames classes).Nodup) :
    (added classes empty).size = classes.length := by
  rw [size, ← Array.length_toList, slots_added_empty hdistinct, List.length_map]

theorem place_unique {c d : ClassRecord × Origin} {m n : Nat} (hdistinct : (originNames classes).Nodup)
    (hc : classes[m]? = some c) (hd : classes[n]? = some d) (horigin : c.2 = d.2)
    (hname : c.1.name = d.1.name) : m = n := by
  have hkey : (c.2, c.1.name) = (d.2, d.1.name) := Prod.ext horigin hname
  have hlt : m < (originNames classes).length := by
    rw [originNames, List.length_map]
    exact (List.getElem?_eq_some_iff.mp hc).1
  exact (List.getElem?_inj hlt hdistinct).mp (by simp only [originNames, List.getElem?_map, hc, hd,
    Option.map_some, hkey])

theorem distinct_added (hdistinct : (originNames classes).Nodup) : (added classes empty).Distinct := by
  intro a b s t ha hb horigin hname
  rw [slot?_added hdistinct, Option.map_eq_some_iff] at ha hb
  obtain ⟨c, hc, rfl⟩ := ha
  obtain ⟨d, hd, rfl⟩ := hb
  have hindex : a.index = b.index := place_unique hdistinct hc hd horigin hname
  cases a
  cases b
  exact congrArg ClassId.mk hindex

def shift (σ : Equiv.Perm Nat) : Nat → Nat
  | 0 => 0
  | n + 1 => σ n + 1

theorem exists_perm {α : Type} {l l' : List α} (h : l.Perm l') :
    ∃ σ : Equiv.Perm Nat, ∀ n, l'[σ n]? = l[n]? := by
  induction h with
  | nil => exact ⟨.refl Nat, fun _ => rfl⟩
  | @cons x l l' _ ih =>
      obtain ⟨σ, hσ⟩ := ih
      refine ⟨⟨shift σ, shift σ.symm, ?_, ?_⟩, ?_⟩
      · rintro (_ | n) <;> simp [shift]
      · rintro (_ | n) <;> simp [shift]
      · rintro (_ | n)
        · rfl
        · exact hσ n
  | swap x y l =>
      refine ⟨Equiv.swap 0 1, ?_⟩
      rintro (_ | _ | n)
      · simp
      · simp
      · rw [Equiv.swap_apply_of_ne_of_ne (by simp) (by simp)]
        rfl
  | trans _ _ ih ih' =>
      obtain ⟨σ, hσ⟩ := ih
      obtain ⟨τ, hτ⟩ := ih'
      exact ⟨σ.trans τ, fun n => (hτ (σ n)).trans (hσ n)⟩

theorem renaming_added (hdistinct : (originNames classes).Nodup) (hperm : classes.Perm classes') :
    ∃ π, Renaming π (added classes empty) (added classes' empty) := by
  have hdistinct' : (originNames classes').Nodup := (hperm.map _).nodup_iff.mp hdistinct
  obtain ⟨σ, hσ⟩ := exists_perm hperm
  refine ⟨⟨fun id => ⟨σ id.index⟩, fun id => ⟨σ.symm id.index⟩, fun _ => by simp, fun _ => by simp⟩,
    by rw [size_added hdistinct', size_added hdistinct, hperm.length_eq], fun id => ?_,
    distinct_added hdistinct⟩
  rw [slot?_added hdistinct', slot?_added hdistinct]
  simp [hσ, Slot.rename, Status.rename, Function.comp_def]

theorem summaries_ignore_order (hdistinct : (originNames classes).Nodup)
    (hperm : classes.Perm classes') :
    ((linkApplication options).result (added classes empty)).1 =
      ((linkApplication options).result (added classes' empty)).1 := by
  obtain ⟨π, r⟩ := renaming_added hdistinct hperm
  exact r.linkApplication.result

theorem classes_of_pairwise
    (h : (g.ids.filter fun id => g.origin? id = some origin).Pairwise fun a b => g.before a b = true) :
    g.classes origin = g.ids.filter fun id => g.origin? id = some origin :=
  List.mergeSort_of_pairwise h

theorem linkApplication_of_linked {ids : List ClassId} (hids : g.classes .application = ids)
    (hlink : (ids.forM (link options)).result g = (.ok (), g'))
    (hlisted : g'.classes .application = ids) :
    ((linkApplication options).result g).1 =
      .ok ((ids.filterMap g'.info?).map (ClassSummary.ofInfo g')) := by
  have hall : (linkAll options .application).result g =
      (.ok (g'.linkedCount - g.linkedCount), g') := by
    change (((g.classes .application).forM (link options)) >>= fun _ => _).result g = _
    rw [hids, result_bind, hlink]
    rfl
  rw [linkApplication, result_bind, hall]
  change Except.ok (((g'.classes .application).filterMap g'.info?).map (ClassSummary.ofInfo g')) = _
  rw [hlisted]

def baseFirst : List (ClassRecord × Origin) := [
  ({ name := "Base", fields := [⟨⟨0⟩, "size", "I", none, none⟩] }, .application),
  ({ name := "Derived", superName := some "Base", fields := [⟨⟨0⟩, "next", "LBase;", none, none⟩] },
    .application),
  (.minimalRoot, .runtime)]

def baseFirstLinked : ClassGraph :=
  (([⟨0⟩, ⟨1⟩] : List ClassId).forM (link {})).result (added baseFirst empty) |>.2

def baseFirstSummaries : List ClassSummary := [
  { name := "Base", mangledName := "0P4CBase", isInterface := false,
    superClass := some "java/lang/Object", staticFields := 0, instanceFields := 1,
    referenceSlots := 0, vtableLength := 6, interfaces := [] },
  { name := "Derived", mangledName := "0P7CDerived", isInterface := false, superClass := some "Base",
    staticFields := 0, instanceFields := 2, referenceSlots := 1, vtableLength := 6,
    interfaces := [] }]

theorem baseFirst_summaries :
    (added baseFirst empty).lookup "Base" = some ⟨0⟩ ∧
    (added baseFirst.reverse empty).lookup "Base" = some ⟨2⟩ ∧
    ((linkApplication {}).result (added baseFirst empty)).1 = .ok baseFirstSummaries ∧
    ((linkApplication {}).result (added baseFirst.reverse empty)).1 = .ok baseFirstSummaries := by
  have hlisted : ∀ g ∈ [added baseFirst empty, baseFirstLinked],
      g.classes .application = [⟨0⟩, ⟨1⟩] := by
    have hids : ∀ g ∈ [added baseFirst empty, baseFirstLinked],
        (g.ids.filter fun id => g.origin? id = some .application) = [⟨0⟩, ⟨1⟩] ∧
          g.before ⟨0⟩ ⟨1⟩ = true := by
      decide +kernel
    intro g hg
    obtain ⟨hfilter, hbefore⟩ := hids g hg
    rw [classes_of_pairwise (hfilter ▸ List.pairwise_pair.mpr hbefore), hfilter]
  have hlink : (([⟨0⟩, ⟨1⟩] : List ClassId).forM (link {})).result (added baseFirst empty) =
      (.ok (), baseFirstLinked) :=
    Prod.ext (Outcome.toOption_eq_some (by decide +kernel)) rfl
  have hsummaries : ((linkApplication {}).result (added baseFirst empty)).1 =
      .ok baseFirstSummaries := by
    rw [linkApplication_of_linked (hlisted _ (by simp)) hlink (hlisted _ (by simp))]
    exact congrArg Except.ok (by decide +kernel)
  refine ⟨by decide +kernel, by decide +kernel, hsummaries, ?_⟩
  rw [← hsummaries]
  exact (summaries_ignore_order (by decide +kernel) (List.reverse_perm _).symm).symm

end Linkage.ClassGraph
