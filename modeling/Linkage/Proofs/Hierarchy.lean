import Linkage.Graph.Hierarchy
import Mathlib.Data.Finset.Card
import Mathlib.Data.List.Nodup
import Mathlib.Logic.Relation

namespace Linkage.ClassGraph

variable {g g' : ClassGraph} {rank : ClassId → Nat} {id sub sup : ClassId} {info : ClassInfo}

def Known (g : ClassGraph) (id : ClassId) : Prop :=
  ∃ info, g.info? id = some info

def Direct (g : ClassGraph) (sub sup : ClassId) : Prop :=
  sup ∈ g.directSupertypes sub

structure Hierarchical (g : ClassGraph) : Prop where
  self : ∀ {id info}, g.info? id = some info → info.id = id
  known : ∀ {id sup}, g.Direct id sup → g.Known sup
  superKind : ∀ {id sup}, g.superClass? id = some sup → g.isInterface sup = false
  interfaceKind : ∀ {id info i}, g.info? id = some info → i ∈ info.interfaces →
    g.isInterface i = true
  acyclic : ∃ rank : ClassId → Nat, ∀ id sup, g.Direct id sup → rank sup < rank id

theorem known_of_info (h : g.info? id = some info) : g.Known id :=
  ⟨info, h⟩

theorem index_lt_size (h : g.Known id) : id.index < g.size := by
  obtain ⟨info, hinfo⟩ := h
  by_contra hge
  have hslot : g.slot? id = none := Array.getElem?_eq_none (Nat.le_of_not_lt hge)
  simp [info?, status, hslot, Status.info?] at hinfo

theorem directSupertypes_eq (h : g.info? id = some info) :
    g.directSupertypes id = info.directSupertypes := by
  simp [directSupertypes, h]

theorem direct_known (h : g.Direct sub sup) : g.Known sub := by
  unfold Direct directSupertypes at h
  split at h
  next info hinfo => exact known_of_info hinfo
  next => simp at h

theorem direct_of_superClass (h : g.superClass? sub = some sup) : g.Direct sub sup := by
  obtain ⟨info, hinfo, hsup⟩ := Option.bind_eq_some_iff.mp h
  simp [Direct, directSupertypes_eq hinfo, ClassInfo.directSupertypes, hsup]

theorem direct_of_interface {i : ClassId} (h : g.info? id = some info) (hi : i ∈ info.interfaces) :
    g.Direct id i := by
  simp [Direct, directSupertypes_eq h, ClassInfo.directSupertypes, hi]

theorem Hierarchical.bounded (h : g.Hierarchical) :
    ∃ rank : ClassId → Nat, (∀ {id sup}, g.Direct id sup → rank sup < rank id) ∧
      ∀ {id}, g.Known id → rank id < g.size := by
  obtain ⟨rank, hrank⟩ := h.acyclic
  let below (id : ClassId) : Finset Nat :=
    (Finset.range g.size).filter fun n => rank ⟨n⟩ < rank id
  refine ⟨fun id => (below id).card, ?_, ?_⟩
  · intro id sup hdirect
    have hlt := hrank id sup hdirect
    refine Finset.card_lt_card (Finset.ssubset_iff_of_subset ?_ |>.mpr ⟨sup.index, ?_, ?_⟩)
    · intro n hn
      obtain ⟨hn, hlow⟩ := Finset.mem_filter.mp hn
      exact Finset.mem_filter.mpr ⟨hn, hlow.trans hlt⟩
    · exact Finset.mem_filter.mpr ⟨Finset.mem_range.mpr (index_lt_size (h.known hdirect)), hlt⟩
    · intro hmem
      exact Nat.lt_irrefl _ (Finset.mem_filter.mp hmem).2
  · intro id hknown
    have hsub : below id ⊂ Finset.range g.size := by
      refine Finset.ssubset_iff_of_subset (Finset.filter_subset _ _) |>.mpr ⟨id.index, ?_, ?_⟩
      · exact Finset.mem_range.mpr (index_lt_size hknown)
      · intro hmem
        exact Nat.lt_irrefl _ (Finset.mem_filter.mp hmem).2
    simpa using Finset.card_lt_card hsub

theorem visit_congr (hknown : ∀ {id sup}, g.Direct id sup → g.Known sup)
    (hrank : ∀ {id sup}, g.Direct id sup → rank sup < rank id)
    (hsame : ∀ {id}, g.Known id → g'.directSupertypes id = g.directSupertypes id)
    {d d' : Nat} {seen : List ClassId} (hid : g.Known id) (hd : rank id < d) (hd' : rank id < d') :
    g'.visit d' seen id = g.visit d seen id := by
  induction d generalizing d' seen id with
  | zero => omega
  | succ d ih =>
      cases d' with
      | zero => omega
      | succ d' =>
          simp only [visit, hsame hid]
          split
          · rfl
          · refine List.foldl_ext _ _ _ fun out sup hsup => ?_
            have hlt := hrank hsup
            exact ih (hknown hsup) (by omega) (by omega)

theorem chain_congr (hrank : ∀ {id sup}, g.Direct id sup → rank sup < rank id)
    (hsame : ∀ {id}, g.Known id → g'.superClass? id = g.superClass? id)
    (hknown : ∀ {id sup}, g.Direct id sup → g.Known sup)
    {n n' : Nat} (hid : g.Known id) (hn : rank id ≤ n) (hn' : rank id ≤ n') :
    g'.chain n' id = g.chain n id := by
  induction n generalizing n' id with
  | zero =>
      have hroot : g.superClass? id = none := by
        cases hsup : g.superClass? id with
        | none => rfl
        | some sup =>
            have := hrank (direct_of_superClass hsup)
            omega
      cases n' <;> simp [chain, hsame hid, hroot]
  | succ n ih =>
      cases hsup : g.superClass? id with
      | none => cases n' <;> simp [chain, hsame hid, hsup]
      | some sup =>
          have hdirect := direct_of_superClass hsup
          have hlt := hrank hdirect
          cases n' with
          | zero => omega
          | succ n' =>
              simp only [chain, hsame hid, hsup]
              rw [ih (hknown hdirect) (by omega) (by omega)]

structure Sweep (g : ClassGraph) (seen roots out : List ClassId) : Prop where
  keeps : seen ⊆ out
  covers : roots ⊆ out
  sound : ∀ x ∈ out, x ∈ seen ∨ ∃ root ∈ roots, Relation.ReflTransGen g.Direct root x
  closed : ∀ x ∈ out, x ∉ seen → g.directSupertypes x ⊆ out
  nodup : seen.Nodup → out.Nodup

theorem Sweep.nil (seen : List ClassId) : g.Sweep seen [] seen where
  keeps := List.Subset.refl _
  covers := List.nil_subset _
  sound := fun _ hx => .inl hx
  closed := fun _ hx hnot => absurd hx hnot
  nodup := fun h => h

theorem Sweep.cons {seen mid out rest : List ClassId} {root : ClassId}
    (first : g.Sweep seen [root] mid) (second : g.Sweep mid rest out) :
    g.Sweep seen (root :: rest) out where
  keeps := List.Subset.trans first.keeps second.keeps
  covers := List.cons_subset.mpr ⟨second.keeps (first.covers (List.mem_singleton_self root)),
    second.covers⟩
  sound := by
    intro x hx
    rcases second.sound x hx with hmid | ⟨r, hr, hpath⟩
    · rcases first.sound x hmid with hseen | ⟨r, hr, hpath⟩
      · exact .inl hseen
      · exact .inr ⟨r, by simp_all, hpath⟩
    · exact .inr ⟨r, List.mem_cons_of_mem _ hr, hpath⟩
  closed := by
    intro x hx hnot
    by_cases hmid : x ∈ mid
    · exact List.Subset.trans (first.closed x hmid hnot) second.keeps
    · exact second.closed x hx hmid
  nodup := fun h => second.nodup (first.nodup h)

theorem Sweep.enter {seen out : List ClassId} (hfresh : id ∉ seen)
    (above : g.Sweep (seen ++ [id]) (g.directSupertypes id) out) : g.Sweep seen [id] out where
  keeps := List.Subset.trans (List.subset_append_left _ _) above.keeps
  covers := by
    intro x hx
    exact above.keeps (List.mem_append_right _ hx)
  sound := by
    intro x hx
    rcases above.sound x hx with hseen | ⟨r, hr, hpath⟩
    · rcases List.mem_append.mp hseen with hseen | hid
      · exact .inl hseen
      · exact .inr ⟨id, by simp, by simp_all [Relation.ReflTransGen.refl]⟩
    · exact .inr ⟨id, by simp, hpath.head hr⟩
  closed := by
    intro x hx hnot
    by_cases hid : x = id
    · exact hid ▸ above.covers
    · exact above.closed x hx (by simp [hnot, hid])
  nodup := fun h => above.nodup (h.append (List.nodup_singleton id) (by simpa using hfresh))

theorem sweep_foldl {step : List ClassId → ClassId → List ClassId} {roots seen : List ClassId}
    (hstep : ∀ root ∈ roots, ∀ seen, g.Sweep seen [root] (step seen root)) :
    g.Sweep seen roots (roots.foldl step seen) := by
  induction roots generalizing seen with
  | nil => exact .nil seen
  | cons root rest ih =>
      exact (hstep root (by simp) seen).cons (ih fun r hr => hstep r (by simp [hr]))

theorem sweep_visit (hknown : ∀ {id sup}, g.Direct id sup → g.Known sup)
    (hrank : ∀ {id sup}, g.Direct id sup → rank sup < rank id) {d : Nat} {seen : List ClassId}
    (hid : g.Known id) (hd : rank id < d) : g.Sweep seen [id] (g.visit d seen id) := by
  induction d generalizing seen id with
  | zero => omega
  | succ d ih =>
      rw [visit]
      split
      next hseen =>
        exact {
          keeps := List.Subset.refl _
          covers := by simpa using hseen
          sound := fun _ hx => .inl hx
          closed := fun _ hx hnot => absurd hx hnot
          nodup := fun h => h }
      next hfresh =>
        refine .enter hfresh (sweep_foldl fun sup hsup seen => ?_)
        have hlt := hrank hsup
        exact ih (hknown hsup) (by omega)

theorem Hierarchical.sweep_supertypes (h : g.Hierarchical) (id : ClassId) :
    g.Sweep [] (g.directSupertypes id) (g.supertypes id) := by
  obtain ⟨rank, hrank, hbound⟩ := h.bounded
  exact sweep_foldl fun sup hsup seen =>
    sweep_visit h.known hrank (h.known hsup) (hbound (h.known hsup))

theorem Hierarchical.mem_supertypes_iff (h : g.Hierarchical) :
    sup ∈ g.supertypes sub ↔ Relation.TransGen g.Direct sub sup := by
  have sweep := h.sweep_supertypes sub
  constructor
  · intro hsup
    rcases sweep.sound sup hsup with hnil | ⟨root, hroot, hpath⟩
    · simp at hnil
    · exact Relation.TransGen.head' hroot hpath
  · intro hpath
    induction hpath with
    | single hdirect => exact sweep.covers hdirect
    | tail _ hdirect ih => exact sweep.closed _ ih (by simp) hdirect

theorem Hierarchical.nodup_supertypes (h : g.Hierarchical) (id : ClassId) :
    (g.supertypes id).Nodup :=
  (h.sweep_supertypes id).nodup List.nodup_nil

theorem Hierarchical.nodup_superinterfaces (h : g.Hierarchical) (id : ClassId) :
    (g.superinterfaces id).Nodup :=
  (h.nodup_supertypes id).filter _

theorem Hierarchical.supertypes_congr (h : g.Hierarchical) (hsize : g.size ≤ g'.size)
    (hsame : ∀ {id}, g.Known id → g'.directSupertypes id = g.directSupertypes id)
    (hid : g.Known id) : g'.supertypes id = g.supertypes id := by
  obtain ⟨rank, hrank, hbound⟩ := h.bounded
  rw [supertypes, supertypes, hsame hid]
  refine List.foldl_ext _ _ _ fun out sup hsup => ?_
  have hlt := hbound (h.known hsup)
  exact visit_congr h.known hrank hsame (h.known hsup) hlt (by omega)

theorem Hierarchical.known_of_mem_supertypes (h : g.Hierarchical) (hsup : sup ∈ g.supertypes sub) :
    g.Known sup := by
  rw [h.mem_supertypes_iff] at hsup
  cases hsup with
  | single hdirect => exact h.known hdirect
  | tail _ hdirect => exact h.known hdirect

theorem Hierarchical.isSubtype_iff (h : g.Hierarchical) :
    g.isSubtype sub sup = true ↔ Relation.ReflTransGen g.Direct sub sup := by
  simp only [isSubtype, Bool.or_eq_true, decide_eq_true_eq, List.contains_iff_mem,
    h.mem_supertypes_iff]
  rw [Relation.reflTransGen_iff_eq_or_transGen, eq_comm]

theorem isSubtype_refl (g : ClassGraph) (id : ClassId) : g.isSubtype id id = true := by
  simp [isSubtype]

theorem Hierarchical.isSubtype_trans (h : g.Hierarchical) {mid : ClassId}
    (h1 : g.isSubtype sub mid = true) (h2 : g.isSubtype mid sup = true) :
    g.isSubtype sub sup = true := by
  rw [h.isSubtype_iff] at *
  exact h1.trans h2

theorem rank_lt_of_transGen (hrank : ∀ {id sup}, g.Direct id sup → rank sup < rank id)
    (hpath : Relation.TransGen g.Direct sub sup) : rank sup < rank sub := by
  induction hpath with
  | single hdirect => exact hrank hdirect
  | tail _ hdirect ih => exact (hrank hdirect).trans ih

theorem Hierarchical.rank_lt_of_isSubtype (h : g.Hierarchical)
    (hrank : ∀ {id sup}, g.Direct id sup → rank sup < rank id)
    (hsub : g.isSubtype sub sup = true) (hne : sub ≠ sup) : rank sup < rank sub := by
  rcases Relation.reflTransGen_iff_eq_or_transGen.mp (h.isSubtype_iff.mp hsub) with heq | hpath
  · exact absurd heq.symm hne
  · exact rank_lt_of_transGen hrank hpath

theorem Hierarchical.isSubtype_antisymm (h : g.Hierarchical) (h1 : g.isSubtype sub sup = true)
    (h2 : g.isSubtype sup sub = true) : sub = sup := by
  obtain ⟨rank, hrank, -⟩ := h.bounded
  by_contra hne
  have hlt := h.rank_lt_of_isSubtype hrank h1 hne
  have hgt := h.rank_lt_of_isSubtype hrank h2 (Ne.symm hne)
  omega

theorem Hierarchical.not_mem_supertypes_self (h : g.Hierarchical) (id : ClassId) :
    id ∉ g.supertypes id := by
  obtain ⟨rank, hrank, -⟩ := h.bounded
  intro hmem
  exact Nat.lt_irrefl _ (rank_lt_of_transGen hrank (h.mem_supertypes_iff.mp hmem))

theorem mem_superinterfaces_iff :
    sup ∈ g.superinterfaces sub ↔ sup ∈ g.supertypes sub ∧ g.isInterface sup = true := by
  simp [superinterfaces]

theorem Hierarchical.mem_superinterfaces_iff_of_class (h : g.Hierarchical)
    (hsub : g.isInterface sub = false) :
    sup ∈ g.superinterfaces sub ↔ g.isSubtype sub sup = true ∧ g.isInterface sup = true := by
  rw [mem_superinterfaces_iff, h.mem_supertypes_iff, h.isSubtype_iff,
    Relation.reflTransGen_iff_eq_or_transGen]
  constructor
  · exact fun ⟨hpath, hkind⟩ => ⟨.inr hpath, hkind⟩
  · rintro ⟨rfl | hpath, hkind⟩
    · simp [hsub] at hkind
    · exact ⟨hpath, hkind⟩

theorem Hierarchical.superinterfaces_mono (h : g.Hierarchical) (hsub : g.isSubtype sub sup = true) :
    g.superinterfaces sup ⊆ g.superinterfaces sub := by
  intro i hi
  rw [mem_superinterfaces_iff, h.mem_supertypes_iff] at *
  exact ⟨Relation.TransGen.trans_right (h.isSubtype_iff.mp hsub) hi.1, hi.2⟩

theorem superclasses_of_root (hroot : g.superClass? id = none) : g.superclasses id = [] := by
  rw [superclasses]
  cases g.size <;> simp [chain, hroot]

theorem Hierarchical.superclasses_congr (h : g.Hierarchical) (hsize : g.size ≤ g'.size)
    (hsame : ∀ {id}, g.Known id → g'.superClass? id = g.superClass? id) (hid : g.Known id) :
    g'.superclasses id = g.superclasses id := by
  obtain ⟨rank, hrank, hbound⟩ := h.bounded
  have hlt := hbound hid
  exact chain_congr hrank hsame h.known hid (by omega) (by omega)

theorem Hierarchical.superclasses_eq (h : g.Hierarchical) (hsup : g.superClass? sub = some sup) :
    g.superclasses sub = g.lineage sup := by
  obtain ⟨rank, hrank, hbound⟩ := h.bounded
  have hdirect := direct_of_superClass hsup
  have hlt := hrank hdirect
  have hbound := hbound (direct_known hdirect)
  have hone : g.superclasses sub = g.chain (g.size + 1) sub :=
    (chain_congr hrank (fun _ => rfl) h.known (direct_known hdirect) (by omega) (by omega)).symm
  rw [hone, chain, hsup]
  rfl

theorem Hierarchical.lineage_eq (h : g.Hierarchical) (hsup : g.superClass? sub = some sup) :
    g.lineage sub = sub :: g.lineage sup := by
  rw [lineage, h.superclasses_eq hsup]

theorem findSome?_lineage {α : Type} (g : ClassGraph) (id : ClassId) (f : ClassId → Option α) :
    (g.lineage id).findSome? f = (f id).or ((g.superclasses id).findSome? f) := by
  rw [lineage, List.findSome?_cons]
  cases f id <;> rfl

theorem lineage_of_root (hroot : g.superClass? id = none) : g.lineage id = [id] := by
  rw [lineage, superclasses_of_root hroot]

-- Induction down the superclass edges.
theorem Hierarchical.descend (h : g.Hierarchical) {motive : ClassId → Prop}
    (root : ∀ id, g.superClass? id = none → motive id)
    (step : ∀ sub sup, g.superClass? sub = some sup → motive sup → motive sub) (id : ClassId) :
    motive id := by
  obtain ⟨rank, hrank, -⟩ := h.bounded
  induction hn : rank id using Nat.strong_induction_on generalizing id with
  | _ n ih =>
      cases hsup : g.superClass? id with
      | none => exact root id hsup
      | some sup =>
          have hlt := hrank (direct_of_superClass hsup)
          exact step id sup hsup (ih _ (hn ▸ hlt) sup rfl)

theorem mem_lineage_self (g : ClassGraph) (id : ClassId) : id ∈ g.lineage id :=
  List.mem_cons_self

theorem Hierarchical.isSubtype_of_mem_lineage (h : g.Hierarchical) (hmem : sup ∈ g.lineage sub) :
    g.isSubtype sub sup = true := by
  induction sub using h.descend with
  | root sub hroot =>
      rw [lineage_of_root hroot, List.mem_singleton] at hmem
      exact hmem ▸ isSubtype_refl g sup
  | step sub parent hparent ih =>
      rw [h.lineage_eq hparent] at hmem
      rcases List.mem_cons.mp hmem with rfl | hmem
      · exact isSubtype_refl g sup
      · have hedge := h.isSubtype_iff.mpr (.single (direct_of_superClass hparent))
        exact h.isSubtype_trans hedge (ih hmem)

theorem Hierarchical.known_of_mem_lineage (h : g.Hierarchical) (hsub : g.Known sub)
    (hmem : sup ∈ g.lineage sub) : g.Known sup := by
  rcases Relation.reflTransGen_iff_eq_or_transGen.mp
      (h.isSubtype_iff.mp (h.isSubtype_of_mem_lineage hmem)) with rfl | hpath
  · exact hsub
  · exact h.known_of_mem_supertypes (h.mem_supertypes_iff.mpr hpath)

theorem Hierarchical.isInterface_of_mem_lineage (h : g.Hierarchical)
    (hsub : g.isInterface sub = false) (hmem : sup ∈ g.lineage sub) :
    g.isInterface sup = false := by
  induction sub using h.descend with
  | root sub hroot =>
      rw [lineage_of_root hroot, List.mem_singleton] at hmem
      exact hmem ▸ hsub
  | step sub parent hparent ih =>
      rw [h.lineage_eq hparent] at hmem
      rcases List.mem_cons.mp hmem with rfl | hmem
      · exact hsub
      · exact ih (h.superKind hparent) hmem

end Linkage.ClassGraph
