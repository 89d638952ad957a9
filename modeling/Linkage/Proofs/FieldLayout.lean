import Linkage.Proofs.DescriptorGrammar
import Linkage.Proofs.Replay

namespace Linkage

theorem pairwise_mergeSort_stable {α : Type} {r : α → α → Prop} {l : List α} (key : α → Nat)
    (h : l.Pairwise r) : (l.mergeSort fun a b => key a ≤ key b).Pairwise fun a b =>
      key a < key b ∨ key a = key b ∧ r a b := by
  have htrans : ∀ a b c : α, decide (key a ≤ key b) = true → decide (key b ≤ key c) = true →
      decide (key a ≤ key c) = true := by
    simp only [decide_eq_true_eq]
    omega
  have htotal : ∀ a b : α, (decide (key a ≤ key b) || decide (key b ≤ key a)) = true := by
    simp only [Bool.or_eq_true, decide_eq_true_eq]
    omega
  induction l with
  | nil => simp
  | cons a rest ih =>
      obtain ⟨ha, hrest⟩ := List.pairwise_cons.mp h
      -- The sort puts `a` behind the smaller ones and leaves the others as they were.
      obtain ⟨low, high, hall, hsplit, hlow⟩ := List.mergeSort_cons htrans htotal a rest
      have hsorted := List.pairwise_mergeSort htrans htotal (a :: rest)
      have hold := ih hrest
      rw [hall, List.pairwise_append] at hsorted
      rw [hsplit, List.pairwise_append] at hold
      rw [hall, List.pairwise_append]
      obtain ⟨hlows, hhighs, hacross⟩ := hold
      have hbelow : ∀ b ∈ low, key b < key a := by
        intro b hb
        simpa using hlow b hb
      have habove : ∀ b ∈ high, key a < key b ∨ key a = key b ∧ r a b := by
        intro b hb
        have hle : key a ≤ key b := by
          simpa using (List.pairwise_cons.mp hsorted.2.1).1 b hb
        have hmem : b ∈ rest := by
          rw [← List.mem_mergeSort, hsplit]
          exact List.mem_append_right _ hb
        rcases Nat.lt_or_eq_of_le hle with hlt | heq
        · exact .inl hlt
        · exact .inr ⟨heq, ha b hmem⟩
      refine ⟨hlows, List.pairwise_cons.mpr ⟨habove, hhighs⟩, fun b hb c hc => ?_⟩
      rcases List.mem_cons.mp hc with rfl | hc
      · exact .inl (hbelow b hb)
      · exact hacross b hb c hc

namespace FieldCategory

def order : List FieldCategory := [wide, word, half, byte, reference]

def starts : FieldCategory → List Char
  | wide => ['D', 'J']
  | word => ['I', 'F']
  | half => ['S', 'C']
  | byte => ['Z', 'B']
  | reference => ['L', '[']

def Precedes (a b : FieldCategory) : Prop :=
  [a, b].Sublist order

def Covers (category : FieldCategory) (descriptor : String) : Prop :=
  ∃ c ∈ category.starts, descriptor.toList.head? = some c

instance (a b : FieldCategory) : Decidable (Precedes a b) :=
  inferInstanceAs (Decidable ([a, b].Sublist order))

variable {a b category : FieldCategory} {descriptor : String} {t : FieldType}

theorem precedes_iff : Precedes a b ↔ a.rank < b.rank := by
  cases a <;> cases b <;> decide

theorem rank_inj : a.rank = b.rank ↔ a = b := by
  cases a <;> cases b <;> decide

theorem isReference_of_precedes (h : Precedes a b) : a.isReference = false := by
  cases a with
  | reference => cases b <;> exact absurd h (by decide)
  | _ => rfl

theorem starts_disjoint : ∀ c ∈ a.starts, c ∈ b.starts → a = b := by
  cases a <;> cases b <;> simp [starts]

theorem covers_inj (ha : a.Covers descriptor) (hb : b.Covers descriptor) : a = b := by
  obtain ⟨c, hc, hhead⟩ := ha
  obtain ⟨d, hd, hsame⟩ := hb
  obtain rfl := Option.some.inj (hhead.symm.trans hsame)
  exact starts_disjoint c hc hd

theorem covers_ofType (h : FieldType.ofDescriptor descriptor = .ok t) :
    (ofType t).Covers descriptor := by
  obtain ⟨rfl, -⟩ := FieldType.ofDescriptor_eq_ok_iff.mp h
  cases t with
  | base type => cases type <;> simp [ofType, Covers, starts, FieldType.descriptor,
      FieldType.descriptorChars, BaseType.tag]
  | object name => simp [ofType, Covers, starts, FieldType.descriptor, FieldType.descriptorChars]
  | array component =>
      simp [ofType, Covers, starts, FieldType.descriptor, FieldType.descriptorChars]

end FieldCategory

namespace PlacedField

variable {a b : PlacedField}

def Ahead (a b : PlacedField) : Prop :=
  a.category.Precedes b.category ∨ a.category = b.category ∧ a.field.index < b.field.index

instance (a b : PlacedField) : Decidable (Ahead a b) :=
  inferInstanceAs (Decidable (_ ∨ _))

theorem ahead_iff : a.Ahead b ↔ a.category.rank < b.category.rank ∨
    a.category.rank = b.category.rank ∧ a.field.index < b.field.index := by
  rw [Ahead, FieldCategory.precedes_iff, FieldCategory.rank_inj]

theorem Ahead.asymm (h : a.Ahead b) : ¬b.Ahead a := by
  rw [ahead_iff] at h ⊢
  omega

end PlacedField

namespace Layout

variable {owner : ClassId} {fields : List FieldInfo} {keep : FieldInfo → Bool}
  {placed others : List PlacedField} {p q : PlacedField}

structure Arranged (owner : ClassId) (fields : List FieldInfo) (keep : FieldInfo → Bool)
    (placed : List PlacedField) : Prop where
  mem_iff : ∀ ref, ref ∈ placed.map (·.field) ↔ ref.owner = owner ∧
    ∃ f, fields[ref.index]? = some f ∧ keep f = true
  covered : ∀ p ∈ placed, ∀ f, fields[p.field.index]? = some f → p.category.Covers f.descriptor
  ordered : placed.Pairwise PlacedField.Ahead

def chosen (owner : ClassId) (fields : List FieldInfo) (keep : FieldInfo → Bool) :
    List PlacedField :=
  (fields.zipIdx.filter fun f => keep f.1).map fun f => ⟨⟨owner, f.2⟩, f.1.category⟩

theorem mem_chosen_iff : p ∈ chosen owner fields keep ↔ p.field.owner = owner ∧
    ∃ f, fields[p.field.index]? = some f ∧ keep f = true ∧ p.category = f.category := by
  obtain ⟨⟨own, index⟩, category⟩ := p
  simp only [chosen, List.mem_map, List.mem_filter, List.mem_zipIdx_iff_getElem?,
    PlacedField.mk.injEq, FieldRef.mk.injEq]
  constructor
  · rintro ⟨⟨f, n⟩, ⟨hget, hkeep⟩, ⟨rfl, rfl⟩, rfl⟩
    exact ⟨rfl, f, hget, hkeep, rfl⟩
  · rintro ⟨rfl, f, hget, hkeep, rfl⟩
    exact ⟨(f, index), ⟨hget, hkeep⟩, ⟨rfl, rfl⟩, rfl⟩

theorem place_perm (owner : ClassId) (fields : List FieldInfo) (keep : FieldInfo → Bool) :
    (place owner fields keep).Perm (chosen owner fields keep) :=
  List.mergeSort_perm _ _

theorem mem_place_iff : p ∈ place owner fields keep ↔ p.field.owner = owner ∧
    ∃ f, fields[p.field.index]? = some f ∧ keep f = true ∧ p.category = f.category := by
  rw [(place_perm owner fields keep).mem_iff, mem_chosen_iff]

theorem chosen_declared (owner : ClassId) (fields : List FieldInfo) (keep : FieldInfo → Bool) :
    (chosen owner fields keep).Pairwise fun a b => a.field.index < b.field.index := by
  rw [chosen, List.pairwise_map]
  refine List.Pairwise.filter _ ?_
  rw [List.pairwise_iff_getElem]
  intro i j hi hj hlt
  simpa using hlt

theorem place_ordered (owner : ClassId) (fields : List FieldInfo) (keep : FieldInfo → Bool) :
    (place owner fields keep).Pairwise PlacedField.Ahead :=
  (pairwise_mergeSort_stable (fun p => p.category.rank)
    (chosen_declared owner fields keep)).imp PlacedField.ahead_iff.mpr

theorem arranged_of_perm (htyped : ∀ f ∈ fields, FieldType.ofDescriptor f.descriptor = .ok f.type)
    (hperm : placed.Perm (chosen owner fields keep))
    (hordered : placed.Pairwise PlacedField.Ahead) : Arranged owner fields keep placed where
  mem_iff ref := by
    rw [(hperm.map _).mem_iff, List.mem_map]
    constructor
    · rintro ⟨p, hp, rfl⟩
      obtain ⟨howner, f, hf, hkeep, -⟩ := mem_chosen_iff.mp hp
      exact ⟨howner, f, hf, hkeep⟩
    · rintro ⟨howner, f, hf, hkeep⟩
      exact ⟨⟨ref, f.category⟩, mem_chosen_iff.mpr ⟨howner, f, hf, hkeep, rfl⟩, rfl⟩
  covered p hp f hf := by
    obtain ⟨-, f', hf', -, hcategory⟩ := mem_chosen_iff.mp (hperm.mem_iff.mp hp)
    obtain rfl := Option.some.inj (hf.symm.trans hf')
    rw [hcategory]
    exact FieldCategory.covers_ofType (htyped f (List.mem_of_getElem? hf))
  ordered := hordered

theorem arranged_place (owner : ClassId) (keep : FieldInfo → Bool)
    (htyped : ∀ f ∈ fields, FieldType.ofDescriptor f.descriptor = .ok f.type) :
    Arranged owner fields keep (place owner fields keep) :=
  arranged_of_perm htyped (place_perm owner fields keep) (place_ordered owner fields keep)

theorem Arranged.eq_of_field (h : Arranged owner fields keep placed)
    (h' : Arranged owner fields keep others) (hp : p ∈ placed) (hq : q ∈ others)
    (hfield : p.field = q.field) : p = q := by
  obtain ⟨-, f, hf, -⟩ := (h.mem_iff p.field).mp (List.mem_map_of_mem hp)
  have hcategory := FieldCategory.covers_inj (h.covered p hp f hf) (h'.covered q hq f (hfield ▸ hf))
  cases p
  cases q
  exact congrArg₂ PlacedField.mk hfield hcategory

theorem Arranged.nodup (h : Arranged owner fields keep placed) :
    (placed.map (·.field)).Nodup := by
  rw [List.Nodup, List.pairwise_map]
  refine h.ordered.imp_of_mem fun {a b} ha hb hab hfield => ?_
  obtain rfl := h.eq_of_field h ha hb hfield
  exact hab.asymm hab

theorem Arranged.subset (h : Arranged owner fields keep placed)
    (h' : Arranged owner fields keep others) : placed ⊆ others := by
  intro p hp
  have hmem : p.field ∈ others.map (·.field) :=
    (h'.mem_iff p.field).mpr ((h.mem_iff p.field).mp (List.mem_map_of_mem hp))
  obtain ⟨q, hq, hfield⟩ := List.mem_map.mp hmem
  exact h'.eq_of_field h hq hp hfield ▸ hq

theorem Arranged.unique (h : Arranged owner fields keep placed)
    (h' : Arranged owner fields keep others) : placed = others := by
  have hperm : placed.Perm others := (List.perm_ext_iff_of_nodup h.nodup.of_map h'.nodup.of_map).mpr
    fun p => ⟨fun hp => h.subset h' hp, fun hp => h'.subset h hp⟩
  exact hperm.eq_of_pairwise (fun a b _ _ hab hba => absurd hba hab.asymm) h.ordered h'.ordered

theorem Arranged.references_last (h : Arranged owner fields keep placed) :
    ∃ tail ≤ placed.length, ∀ (i : Nat) p, placed[i]? = some p →
      (p.category.isReference = true ↔ tail ≤ i) := by
  refine ⟨placed.findIdx (·.category.isReference), List.findIdx_le_length, fun i p hp => ?_⟩
  obtain ⟨hi, rfl⟩ := List.getElem?_eq_some_iff.mp hp
  constructor
  · intro href
    by_contra hlt
    have hnot := List.not_of_lt_findIdx (Nat.lt_of_not_le hlt)
    rw [href] at hnot
    cases hnot
  · intro hle
    have hlt : placed.findIdx (·.category.isReference) < placed.length := by omega
    have hfirst : placed[placed.findIdx (·.category.isReference)].category.isReference = true :=
      List.findIdx_getElem (p := fun p : PlacedField => p.category.isReference)
    rcases Nat.lt_or_eq_of_le hle with hbefore | heq
    · rcases List.pairwise_iff_getElem.mp h.ordered _ i hlt hi hbefore with hprecedes | ⟨heq, -⟩
      · rw [FieldCategory.isReference_of_precedes hprecedes] at hfirst
        cases hfirst
      · exact heq ▸ hfirst
    · simpa only [heq] using hfirst

end Layout

namespace ClassInfo

variable {info : ClassInfo} {slot : Nat}

def ownFields (info : ClassInfo) : List PlacedField :=
  Layout.place info.id info.fields (!·.access.isStatic)

theorem mem_referenceSlots_iff : slot ∈ info.referenceSlots ↔
    ∃ p, info.instanceFields[slot]? = some p ∧ p.category.isReference = true := by
  simp only [referenceSlots, List.mem_map, List.mem_filter, List.mem_zipIdx_iff_getElem?]
  constructor
  · rintro ⟨⟨p, n⟩, ⟨hget, href⟩, rfl⟩
    exact ⟨p, hget, href⟩
  · rintro ⟨p, hget, href⟩
    exact ⟨(p, slot), ⟨hget, href⟩, rfl⟩

theorem referenceSlots_increasing : info.referenceSlots.Pairwise (· < ·) := by
  rw [referenceSlots, List.pairwise_map]
  refine List.Pairwise.filter _ ?_
  rw [List.pairwise_iff_getElem]
  intro i j hi hj hlt
  simpa using hlt

structure Segment (info : ClassInfo) (owner : ClassId) (first tail last : Nat) : Prop where
  first_le : first ≤ tail
  tail_le : tail ≤ last
  owned : ∀ slot p, info.instanceFields[slot]? = some p →
    (p.field.owner = owner ↔ first ≤ slot ∧ slot < last)
  references : ∀ slot, first ≤ slot → slot < last → (slot ∈ info.referenceSlots ↔ tail ≤ slot)

end ClassInfo

namespace ClassGraph

open Outcome

variable {g : ClassGraph} {id c sup : ClassId} {info above parent : ClassInfo} {slot : Slot}
  {options : LinkOptions} {supers : Supertypes} {p : PlacedField} {f : FieldInfo} {ref : FieldRef}
  {allowed : LinkOptions → Prop}

theorem field?_eq (h : g.info? ref.owner = some info) : g.field? ref = info.fields[ref.index]? := by
  simp [field?, h]

theorem draft_layouts (h : g.draft options id slot supers = .ok info) :
    info.staticFields = Layout.statics id info.fields ∧
      info.instanceFields = Layout.instances
        (((supers.superClass.bind g.info?).map (·.instanceFields)).getD []) id info.fields := by
  unfold draft at h
  obtain ⟨_, -, h⟩ := bind_ok_iff.mp h
  obtain ⟨_, -, h⟩ := bind_ok_iff.mp h
  obtain ⟨fields, -, h⟩ := bind_ok_iff.mp h
  obtain ⟨methods, -, h⟩ := bind_ok_iff.mp h
  rw [← pure_ok_iff.mp h]
  refine ⟨rfl, ?_⟩
  cases supers.superClass.bind g.info? <;> rfl

theorem Coherent.drafted (hg : g.Coherent allowed) (hinfo : g.info? id = some info) :
    ∃ options slot, allowed options ∧ g.slot? id = some slot ∧
      g.draft options id slot ⟨info.superClass, info.interfaces⟩ = .ok info.withoutTables := by
  obtain ⟨options, slot, hallowed, hslot, hfinished⟩ := hg.finished hinfo
  exact ⟨options, slot, hallowed, hslot, hg.self hinfo ▸ hfinished.drafted⟩

theorem Coherent.typed_fields (hg : g.Coherent allowed) (hinfo : g.info? id = some info) :
    ∀ f ∈ info.fields, FieldType.ofDescriptor f.descriptor = .ok f.type := by
  obtain ⟨_, _, -, -, hdraft⟩ := hg.drafted hinfo
  exact resolveFields_types (draft_members hdraft).1

theorem Coherent.arranged_statics (hg : g.Coherent allowed) (hinfo : g.info? id = some info) :
    Layout.Arranged id info.fields (·.access.isStatic) info.staticFields := by
  obtain ⟨_, _, -, -, hdraft⟩ := hg.drafted hinfo
  have hstatics : info.staticFields = Layout.statics id info.fields := (draft_layouts hdraft).1
  rw [hstatics]
  exact Layout.arranged_place id _ (hg.typed_fields hinfo)

theorem Coherent.arranged_own (hg : g.Coherent allowed) (hinfo : g.info? id = some info) :
    Layout.Arranged id info.fields (!·.access.isStatic) info.ownFields := by
  have htyped := hg.typed_fields hinfo
  obtain rfl := hg.self hinfo
  exact Layout.arranged_place info.id _ htyped

theorem Coherent.instanceFields_eq (hg : g.Coherent allowed) (hinfo : g.info? id = some info) :
    info.instanceFields =
      ((info.superClass.bind g.info?).map (·.instanceFields)).getD [] ++ info.ownFields := by
  obtain ⟨_, _, -, -, hdraft⟩ := hg.drafted hinfo
  obtain rfl := hg.self hinfo
  exact (draft_layouts hdraft).2

theorem Coherent.instanceFields_of_root (hg : g.Coherent allowed) (hinfo : g.info? id = some info)
    (hroot : g.superClass? id = none) : info.instanceFields = info.ownFields := by
  rw [superClass?_eq hinfo] at hroot
  simpa [hroot] using hg.instanceFields_eq hinfo

theorem Coherent.instanceFields_of_super (hg : g.Coherent allowed) (hinfo : g.info? id = some info)
    (hsup : g.superClass? id = some sup) : ∃ parent, g.info? sup = some parent ∧
      info.instanceFields = parent.instanceFields ++ info.ownFields := by
  obtain ⟨parent, hparent⟩ := hg.known (direct_of_superClass hsup)
  rw [superClass?_eq hinfo] at hsup
  exact ⟨parent, hparent, by simpa [hsup, hparent] using hg.instanceFields_eq hinfo⟩

theorem Coherent.mem_ownFields_iff (hg : g.Coherent allowed) (hinfo : g.info? id = some info) :
    p ∈ info.ownFields ↔ p.field.owner = id ∧
      ∃ f, g.field? p.field = some f ∧ f.access.isStatic = false ∧ p.category = f.category := by
  obtain rfl := hg.self hinfo
  rw [ClassInfo.ownFields, Layout.mem_place_iff]
  refine and_congr_right fun howner => ?_
  rw [field?_eq (howner ▸ hinfo)]
  simp

theorem Coherent.mem_instanceFields_iff (hg : g.Coherent allowed) (hinfo : g.info? id = some info) :
    p ∈ info.instanceFields ↔ p.field.owner ∈ g.lineage id ∧
      ∃ f, g.field? p.field = some f ∧ f.access.isStatic = false ∧ p.category = f.category := by
  induction id using hg.descend generalizing info with
  | root id hroot =>
      rw [hg.instanceFields_of_root hinfo hroot, hg.mem_ownFields_iff hinfo, lineage_of_root hroot,
        List.mem_singleton]
  | step id sup hsup ih =>
      obtain ⟨parent, hparent, happend⟩ := hg.instanceFields_of_super hinfo hsup
      rw [happend, List.mem_append, ih hparent, hg.mem_ownFields_iff hinfo, hg.lineage_eq hsup,
        List.mem_cons, ← or_and_right, or_comm]

theorem Coherent.nodup_instanceFields (hg : g.Coherent allowed) (hinfo : g.info? id = some info) :
    (info.instanceFields.map (·.field)).Nodup := by
  induction id using hg.descend generalizing info with
  | root id hroot =>
      rw [hg.instanceFields_of_root hinfo hroot]
      exact (hg.arranged_own hinfo).nodup
  | step id sup hsup ih =>
      obtain ⟨parent, hparent, happend⟩ := hg.instanceFields_of_super hinfo hsup
      rw [happend, List.map_append]
      refine (ih hparent).append (hg.arranged_own hinfo).nodup fun ref hold hown => ?_
      obtain ⟨p, hp, rfl⟩ := List.mem_map.mp hold
      obtain ⟨q, hq, hsame⟩ := List.mem_map.mp hown
      -- An inherited field belongs to a strict superclass, an own one to the class.
      have hmem := ((hg.mem_instanceFields_iff hparent).mp hp).1
      rw [← hsame, ((hg.mem_ownFields_iff hinfo).mp hq).1, ← hg.superclasses_eq hsup] at hmem
      exact hg.not_mem_superclasses_self id hmem

theorem Coherent.instanceFields_prefix (hg : g.Coherent allowed) (hinfo : g.info? id = some info)
    (habove : g.info? c = some above) (hmem : c ∈ g.lineage id) :
    above.instanceFields <+: info.instanceFields := by
  induction id using hg.descend generalizing info with
  | root id hroot =>
      rw [lineage_of_root hroot, List.mem_singleton] at hmem
      subst hmem
      obtain rfl := Option.some.inj (hinfo.symm.trans habove)
      exact List.prefix_rfl
  | step id sup hsup ih =>
      rw [hg.lineage_eq hsup] at hmem
      rcases List.mem_cons.mp hmem with rfl | hmem
      · obtain rfl := Option.some.inj (hinfo.symm.trans habove)
        exact List.prefix_rfl
      · obtain ⟨parent, hparent, happend⟩ := hg.instanceFields_of_super hinfo hsup
        rw [happend]
        exact (ih hparent hmem).trans (List.prefix_append _ _)

theorem Coherent.mem_own (hg : g.Coherent allowed) (hinfo : g.info? id = some info) {n : Nat}
    (hf : info.fields[n]? = some f) (hinstance : f.access.isStatic = false) :
    ⟨⟨id, n⟩, f.category⟩ ∈ info.instanceFields := by
  rw [hg.mem_instanceFields_iff hinfo]
  refine ⟨mem_lineage_self g id, f, ?_, hinstance, rfl⟩
  rw [field?_eq hinfo, hf]

theorem Coherent.instanceSlot_below (hg : g.Coherent allowed) (hinfo : g.info? id = some info)
    (habove : g.info? c = some above) (hmem : c ∈ g.lineage id) {slot : Nat}
    (hslot : above.instanceSlot? ref = some slot) : info.instanceSlot? ref = some slot :=
  (hg.instanceFields_prefix hinfo habove hmem).findIdx?_eq_some hslot

theorem instanceSlot_of_mem (h : p ∈ info.instanceFields) :
    ∃ slot, info.instanceSlot? p.field = some slot := by
  refine Option.ne_none_iff_exists'.mp fun hnone => ?_
  have hnot := List.findIdx?_eq_none_iff.mp hnone p h
  simp at hnot

theorem Coherent.not_owned_below (hg : g.Coherent allowed) (hinfo : g.info? id = some info)
    (habove : g.info? c = some above) {rest : List PlacedField}
    (hsplit : above.instanceFields ++ rest = info.instanceFields) :
    ∀ p ∈ rest, p.field.owner ≠ c := by
  rintro p hp rfl
  have hall : p ∈ info.instanceFields := hsplit ▸ List.mem_append_right _ hp
  obtain ⟨-, hfield⟩ := (hg.mem_instanceFields_iff hinfo).mp hall
  have hfront : p ∈ above.instanceFields :=
    (hg.mem_instanceFields_iff habove).mpr ⟨mem_lineage_self g _, hfield⟩
  have hnodup := hg.nodup_instanceFields hinfo
  rw [← hsplit, List.map_append, List.nodup_append'] at hnodup
  exact hnodup.2.2 (List.mem_map_of_mem hfront) (List.mem_map_of_mem hp)

theorem Coherent.split_own (hg : g.Coherent allowed) (hinfo : g.info? id = some info) :
    ∃ inherited, inherited ++ info.ownFields = info.instanceFields ∧
      ∀ p ∈ inherited, p.field.owner ≠ id := by
  cases hsup : g.superClass? id with
  | none => exact ⟨[], (hg.instanceFields_of_root hinfo hsup).symm, by simp⟩
  | some sup =>
      obtain ⟨parent, hparent, happend⟩ := hg.instanceFields_of_super hinfo hsup
      refine ⟨parent.instanceFields, happend.symm, ?_⟩
      rintro p hp rfl
      obtain ⟨hmem, -⟩ := (hg.mem_instanceFields_iff hparent).mp hp
      rw [← hg.superclasses_eq hsup] at hmem
      exact hg.not_mem_superclasses_self _ hmem

theorem getElem?_middle_iff {α : Type} {q : α → Prop} {before middle behind : List α} {i : Nat}
    {a : α} (hbefore : ∀ b ∈ before, ¬q b) (hmiddle : ∀ b ∈ middle, q b) (hbehind : ∀ b ∈ behind, ¬q b)
    (h : (before ++ middle ++ behind)[i]? = some a) :
    q a ↔ before.length ≤ i ∧ i < before.length + middle.length := by
  rcases Nat.lt_or_ge i before.length with hlow | hlow
  · rw [List.append_assoc, List.getElem?_append_left hlow] at h
    have hnot := hbefore a (List.mem_of_getElem? h)
    constructor
    · exact fun hq => absurd hq hnot
    · omega
  · rcases Nat.lt_or_ge i (before.length + middle.length) with hhigh | hhigh
    · rw [List.append_assoc, List.getElem?_append_right hlow, List.getElem?_append_left (by omega)] at h
      have hq := hmiddle a (List.mem_of_getElem? h)
      exact ⟨fun _ => ⟨hlow, hhigh⟩, fun _ => hq⟩
    · rw [List.getElem?_append_right (by simpa using hhigh)] at h
      have hnot := hbehind a (List.mem_of_getElem? h)
      constructor
      · exact fun hq => absurd hq hnot
      · omega

theorem Coherent.segment (hg : g.Coherent allowed) (hinfo : g.info? id = some info)
    (habove : g.info? c = some above) (hmem : c ∈ g.lineage id) :
    ∃ first tail last, info.Segment c first tail last := by
  obtain ⟨rest, hrest⟩ := hg.instanceFields_prefix hinfo habove hmem
  obtain ⟨inherited, hown, hinherited⟩ := hg.split_own habove
  obtain ⟨tail, hle, htail⟩ := (hg.arranged_own habove).references_last
  have hall : inherited ++ above.ownFields ++ rest = info.instanceFields := by rw [hown, hrest]
  refine ⟨inherited.length, inherited.length + tail, inherited.length + above.ownFields.length,
    by omega, by omega, fun slot p hp => ?_, fun slot hfirst hlast => ?_⟩
  · rw [← hall] at hp
    refine getElem?_middle_iff (q := fun p => p.field.owner = c) hinherited (fun q hq => ?_)
      (hg.not_owned_below hinfo habove hrest) hp
    exact ((hg.mem_ownFields_iff habove).mp hq).1
  · have hget : info.instanceFields[slot]? = above.ownFields[slot - inherited.length]? := by
      rw [← hall, List.append_assoc, List.getElem?_append_right hfirst,
        List.getElem?_append_left (by omega)]
    have hp := List.getElem?_eq_getElem (l := above.ownFields) (i := slot - inherited.length) (by omega)
    rw [ClassInfo.mem_referenceSlots_iff, hget, hp]
    simp only [Option.some.injEq, exists_eq_left']
    rw [htail _ _ hp]
    omega

theorem Coherent.mem_referenceSlots_iff (hg : g.Coherent allowed) (hinfo : g.info? id = some info)
    {slot : Nat} : slot ∈ info.referenceSlots ↔ ∃ p f t, info.instanceFields[slot]? = some p ∧
      g.field? p.field = some f ∧ FieldType.ofDescriptor f.descriptor = .ok t ∧
      t.isReference = true := by
  have htype : ∀ {ref f}, g.field? ref = some f →
      FieldType.ofDescriptor f.descriptor = .ok f.type := by
    intro ref f hf
    obtain ⟨found, hfound, hget⟩ := Option.bind_eq_some_iff.mp hf
    exact hg.typed_fields hfound f (List.mem_of_getElem? hget)
  rw [ClassInfo.mem_referenceSlots_iff]
  constructor
  · rintro ⟨p, hp, href⟩
    obtain ⟨-, f, hf, -, hcategory⟩ := (hg.mem_instanceFields_iff hinfo).mp (List.mem_of_getElem? hp)
    rw [hcategory, FieldInfo.category, FieldCategory.isReference_ofType] at href
    exact ⟨p, f, f.type, hp, hf, htype hf, href⟩
  · rintro ⟨p, f, t, hp, hf, ht, href⟩
    obtain ⟨-, f', hf', -, hcategory⟩ := (hg.mem_instanceFields_iff hinfo).mp (List.mem_of_getElem? hp)
    obtain rfl := Option.some.inj (hf.symm.trans hf')
    obtain rfl := Except.ok.inj (ht.symm.trans (htype hf))
    refine ⟨p, hp, ?_⟩
    rw [hcategory, FieldInfo.category, FieldCategory.isReference_ofType, href]

theorem layouts_grow_down_the_chain (h : Reachable allowed g) (hlinked : g.status id = .linked info) :
    (∃ own, Layout.Arranged id info.fields (!·.access.isStatic) own ∧
      (info.superClass = none → info.instanceFields = own) ∧
      ∀ sup, info.superClass = some sup → ∃ parent, g.status sup = .linked parent ∧
        info.instanceFields = parent.instanceFields ++ own) ∧
    Layout.Arranged id info.fields (·.access.isStatic) info.staticFields ∧
    (∀ c ∈ g.lineage id, ∃ above, g.status c = .linked above ∧
      (∀ n f, above.fields[n]? = some f → f.access.isStatic = false →
        (info.instanceFields.map (·.field)).count ⟨c, n⟩ = 1 ∧ ∃ slot,
          above.instanceSlot? ⟨c, n⟩ = some slot ∧ info.instanceSlot? ⟨c, n⟩ = some slot) ∧
      ∃ first tail last, info.Segment c first tail last) ∧
    info.referenceSlots.Pairwise (· < ·) ∧
    ∀ slot, slot ∈ info.referenceSlots ↔ ∃ p f t, info.instanceFields[slot]? = some p ∧
      g.field? p.field = some f ∧ FieldType.ofDescriptor f.descriptor = .ok t ∧
      t.isReference = true := by
  have hg := h.coherent
  have hinfo := known_of_linked hlinked
  refine ⟨⟨info.ownFields, hg.arranged_own hinfo, fun hroot => ?_, fun sup hsup => ?_⟩,
    hg.arranged_statics hinfo, fun c hmem => ?_, ClassInfo.referenceSlots_increasing,
    fun slot => hg.mem_referenceSlots_iff hinfo⟩
  · exact hg.instanceFields_of_root hinfo ((superClass?_eq hinfo).trans hroot)
  · obtain ⟨parent, hparent, happend⟩ :=
      hg.instanceFields_of_super hinfo ((superClass?_eq hinfo).trans hsup)
    exact ⟨parent, hg.status_of_info hparent, happend⟩
  · obtain ⟨above, habove⟩ := hg.known_of_mem_lineage (known_of_info hinfo) hmem
    refine ⟨above, hg.status_of_info habove, fun n f hf hinstance => ?_,
      hg.segment hinfo habove hmem⟩
    have hown := hg.mem_own habove hf hinstance
    obtain ⟨slot, hslot⟩ := instanceSlot_of_mem hown
    have hall := (hg.instanceFields_prefix hinfo habove hmem).subset hown
    exact ⟨List.count_eq_one_of_mem (hg.nodup_instanceFields hinfo) (List.mem_map_of_mem hall),
      slot, hslot, hg.instanceSlot_below hinfo habove hmem hslot⟩

def fieldDecl (bits : UInt16) (name descriptor : String) : FieldDecl :=
  ⟨⟨bits⟩, name, descriptor, none, none⟩

def nextField : FieldInfo := ⟨fieldDecl 0 "next" "LBase;", .object "Base"⟩

def derivedFields : List FieldInfo :=
  [⟨fieldDecl 0 "name" "[C", .array (.base .char)⟩, ⟨fieldDecl 0 "flag" "Z", .base .boolean⟩,
    ⟨fieldDecl 0 "weight" "D", .base .double⟩, ⟨fieldDecl 0 "kind" "C", .base .char⟩,
    ⟨fieldDecl 0 "count" "I", .base .int⟩, ⟨fieldDecl 0 "mark" "B", .base .byte⟩,
    ⟨fieldDecl Access.staticBit "rate" "F", .base .float⟩, ⟨fieldDecl 0 "serial" "J", .base .long⟩,
    ⟨fieldDecl Access.staticBit "limit" "J", .base .long⟩, ⟨fieldDecl 0 "step" "S", .base .short⟩]

def fieldChain : ClassGraph :=
  program [
    { name := "Base", fields := [nextField.decl, fieldDecl Access.staticBit "total" "J",
        fieldDecl 0 "size" "I"] },
    { name := "Middle", superName := some "Base" },
    { name := "Derived", superName := some "Middle", fields := derivedFields.map (·.decl) }] ⟨3⟩

def derivedLayout : List PlacedField :=
  [⟨⟨⟨3⟩, 2⟩, .wide⟩, ⟨⟨⟨3⟩, 7⟩, .wide⟩, ⟨⟨⟨3⟩, 4⟩, .word⟩, ⟨⟨⟨3⟩, 3⟩, .half⟩, ⟨⟨⟨3⟩, 9⟩, .half⟩,
    ⟨⟨⟨3⟩, 1⟩, .byte⟩, ⟨⟨⟨3⟩, 5⟩, .byte⟩, ⟨⟨⟨3⟩, 0⟩, .reference⟩]

theorem fieldChain_layout : ∃ info parent above slot, fieldChain.status ⟨3⟩ = .linked info ∧
    info.fields = derivedFields ∧ fieldChain.status ⟨2⟩ = .linked parent ∧
    info.instanceFields = parent.instanceFields ++ derivedLayout ∧
    info.staticFields = [⟨⟨⟨3⟩, 8⟩, .wide⟩, ⟨⟨⟨3⟩, 6⟩, .word⟩] ∧
    fieldChain.status ⟨1⟩ = .linked above ∧ above.instanceSlot? ⟨⟨1⟩, 0⟩ = some slot ∧
    info.instanceSlot? ⟨⟨1⟩, 0⟩ = some slot ∧
    (info.instanceFields.map (·.field)).count ⟨⟨1⟩, 0⟩ = 1 ∧ slot ∈ info.referenceSlots := by
  have hreach : Reachable (fun _ => True) fieldChain := reachable_program _ _
  obtain ⟨hlinked, hmem, hnext, hfields, hsuper⟩ :
      fieldChain.isLinked ⟨3⟩ = true ∧ ⟨1⟩ ∈ fieldChain.lineage ⟨3⟩ ∧
      (fieldChain.info? ⟨1⟩).map (·.fields[0]?) = some (some nextField) ∧
      (fieldChain.info? ⟨3⟩).map (·.fields) = some derivedFields ∧
      (fieldChain.info? ⟨3⟩).map (·.superClass) = some (some ⟨2⟩) := by
    decide +kernel
  obtain ⟨info, hinfo⟩ := linked_of_isLinked hlinked
  obtain ⟨⟨own, hown, -, happend⟩, hstatics, hchain, -, hreferences⟩ :=
    layouts_grow_down_the_chain hreach hinfo
  rw [known_of_linked hinfo, Option.map_some, Option.some.injEq] at hfields hsuper
  obtain ⟨parent, hparent, hsplit⟩ := happend ⟨2⟩ hsuper
  have htyped := hreach.coherent.typed_fields (known_of_linked hinfo)
  rw [hfields] at hown hstatics htyped
  have hlayout : own = derivedLayout :=
    hown.unique (Layout.arranged_of_perm htyped (by decide +kernel) (by decide +kernel))
  have hstatic : info.staticFields = [⟨⟨⟨3⟩, 8⟩, .wide⟩, ⟨⟨⟨3⟩, 6⟩, .word⟩] :=
    hstatics.unique (Layout.arranged_of_perm htyped (by decide +kernel) (by decide +kernel))
  obtain ⟨above, habove, hslots, -⟩ := hchain ⟨1⟩ hmem
  rw [known_of_linked habove, Option.map_some, Option.some.injEq] at hnext
  obtain ⟨hcount, slot, hslot, hbelow⟩ := hslots 0 nextField hnext (by decide)
  obtain ⟨p, hp, hfield⟩ := of_findIdx? hbelow
  have htype : (FieldType.ofDescriptor nextField.descriptor).toOption = some (.object "Base") := by
    decide +kernel
  have hheld : fieldChain.field? p.field = some nextField := by
    rw [of_decide_eq_true hfield, field?_eq (known_of_linked habove), hnext]
  exact ⟨info, parent, above, slot, hinfo, hfields, hparent, hlayout ▸ hsplit, hstatic, habove,
    hslot, hbelow, hcount,
    (hreferences slot).mpr ⟨p, nextField, .object "Base", hp, hheld, Outcome.toOption_eq_some htype, rfl⟩⟩

end ClassGraph

end Linkage
