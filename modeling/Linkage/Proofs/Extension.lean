import Linkage.Proofs.Members

namespace Linkage

def ClassInfo.withoutTables (info : ClassInfo) : ClassInfo :=
  { info with vtable := [], interfaceTable := [] }

theorem ClassInfo.eq_of_withoutTables {a b : ClassInfo} (h : a.withoutTables = b.withoutTables)
    {α : Type} (f : ClassInfo → α) (hf : ∀ info : ClassInfo, f info.withoutTables = f info) :
    f a = f b := by
  rw [← hf a, h, hf]

namespace ClassGraph

structure Extends (g g' : ClassGraph) : Prop where
  size_le : g.size ≤ g'.size
  record : ∀ {id}, g.Known id → g'.record? id = g.record? id
  info : ∀ {id info}, g.info? id = some info →
    ∃ info', g'.info? id = some info' ∧ info'.withoutTables = info.withoutTables

variable {g g' : ClassGraph} {id : ClassId} {m : MethodRef} {name descriptor : String}

theorem Extends.refl (g : ClassGraph) : g.Extends g where
  size_le := Nat.le_refl _
  record := fun _ => rfl
  info := fun h => ⟨_, h, rfl⟩

theorem Extends.known (e : g.Extends g') (h : g.Known id) : g'.Known id := by
  obtain ⟨info, hinfo⟩ := h
  obtain ⟨info', hinfo', -⟩ := e.info hinfo
  exact known_of_info hinfo'

theorem Extends.view (e : g.Extends g') (h : g.Known id) {α : Type} (f : ClassInfo → α)
    (hf : ∀ info : ClassInfo, f info.withoutTables = f info) :
    ∃ info info', g.info? id = some info ∧ g'.info? id = some info' ∧ f info' = f info := by
  obtain ⟨info, hinfo⟩ := h
  obtain ⟨info', hinfo', hsame⟩ := e.info hinfo
  exact ⟨info, info', hinfo, hinfo', ClassInfo.eq_of_withoutTables hsame f hf⟩

theorem Extends.directSupertypes (e : g.Extends g') (h : g.Known id) :
    g'.directSupertypes id = g.directSupertypes id := by
  obtain ⟨info, info', hinfo, hinfo', hsame⟩ := e.view h ClassInfo.directSupertypes fun _ => rfl
  rw [directSupertypes_eq hinfo, directSupertypes_eq hinfo']
  exact hsame

theorem Extends.superClass (e : g.Extends g') (h : g.Known id) :
    g'.superClass? id = g.superClass? id := by
  obtain ⟨info, info', hinfo, hinfo', hsame⟩ := e.view h ClassInfo.superClass fun _ => rfl
  rw [superClass?_eq hinfo, superClass?_eq hinfo']
  exact hsame

theorem Extends.isInterface (e : g.Extends g') (h : g.Known id) :
    g'.isInterface id = g.isInterface id := by
  obtain ⟨info, info', hinfo, hinfo', hsame⟩ := e.view h ClassInfo.isInterface fun _ => rfl
  rw [isInterface_eq hinfo, isInterface_eq hinfo']
  exact hsame

theorem Extends.method (e : g.Extends g') (h : g.Known m.owner) : g'.method? m = g.method? m := by
  obtain ⟨info, info', hinfo, hinfo', hsame⟩ := e.view h (·.methods[m.index]?) fun _ => rfl
  rw [method?_eq hinfo, method?_eq hinfo']
  exact hsame

theorem Extends.key (e : g.Extends g') (h : g.Known m.owner) : g'.key? m = g.key? m := by
  rw [key?, key?, e.method h]

theorem Extends.methodHas (e : g.Extends g') (h : g.Known m.owner) (p : MethodInfo → Bool) :
    g'.methodHas m p = g.methodHas m p := by
  rw [ClassGraph.methodHas, ClassGraph.methodHas, e.method h]

theorem Extends.declaredMethod (e : g.Extends g') (h : g.Known id) :
    g'.declaredMethod? id name descriptor = g.declaredMethod? id name descriptor := by
  obtain ⟨info, info', hinfo, hinfo', hsame⟩ := e.view h (·.findMethod? name descriptor) fun _ => rfl
  simp only [declaredMethod?, hinfo, hinfo', Option.bind_some]
  exact hsame

theorem Extends.slottedMethods (e : g.Extends g') (h : g.Known id) :
    g'.slottedMethods id = g.slottedMethods id := by
  obtain ⟨info, info', hinfo, hinfo', hsame⟩ := e.view h ClassInfo.methodRefs fun _ => rfl
  simp only [ClassGraph.slottedMethods, hinfo, hinfo', hsame]

theorem name_eq_record (g : ClassGraph) (id : ClassId) :
    g.name id = ((g.record? id).map (·.name)).getD "" := by
  unfold name record?
  cases g.slot? id <;> rfl

theorem Extends.className (e : g.Extends g') (h : g.Known id) : g'.name id = g.name id := by
  rw [name_eq_record, name_eq_record, e.record h]

theorem Extends.methodSignature (e : g.Extends g') (h : g.Known m.owner) :
    g'.methodSignature m = g.methodSignature m := by
  simp only [ClassGraph.methodSignature, e.method h, e.className h]

theorem Extends.samePackage (e : g.Extends g') {a b : ClassId} (ha : g.Known a) (hb : g.Known b) :
    g'.samePackage a b = g.samePackage a b := by
  rw [ClassGraph.samePackage, ClassGraph.samePackage, e.className ha, e.className hb]

theorem Extends.supertypes (e : g.Extends g') (hg : g.Hierarchical) (h : g.Known id) :
    g'.supertypes id = g.supertypes id :=
  hg.supertypes_congr e.size_le e.directSupertypes h

theorem Extends.superinterfaces (e : g.Extends g') (hg : g.Hierarchical) (h : g.Known id) :
    g'.superinterfaces id = g.superinterfaces id := by
  rw [ClassGraph.superinterfaces, ClassGraph.superinterfaces, e.supertypes hg h]
  exact List.filter_congr fun i hi => e.isInterface (hg.known_of_mem_supertypes hi)

theorem Extends.isSubtype (e : g.Extends g') (hg : g.Hierarchical) {sub sup : ClassId}
    (h : g.Known sub) : g'.isSubtype sub sup = g.isSubtype sub sup := by
  rw [ClassGraph.isSubtype, ClassGraph.isSubtype, e.supertypes hg h]

theorem Extends.superclasses (e : g.Extends g') (hg : g.Hierarchical) (h : g.Known id) :
    g'.superclasses id = g.superclasses id :=
  hg.superclasses_congr e.size_le e.superClass h

theorem Extends.lineage (e : g.Extends g') (hg : g.Hierarchical) (h : g.Known id) :
    g'.lineage id = g.lineage id := by
  rw [ClassGraph.lineage, ClassGraph.lineage, e.superclasses hg h]

theorem Hierarchical.known_of_mem_superclasses (hg : g.Hierarchical) {sub sup : ClassId}
    (hsub : g.Known sub) (hmem : sup ∈ g.superclasses sub) : g.Known sup :=
  hg.known_of_mem_lineage hsub (List.mem_cons_of_mem _ hmem)

theorem Hierarchical.isSubtype_of_mem_superclasses (hg : g.Hierarchical) {sub sup : ClassId}
    (hmem : sup ∈ g.superclasses sub) : g.isSubtype sub sup = true :=
  hg.isSubtype_of_mem_lineage (List.mem_cons_of_mem _ hmem)

theorem Hierarchical.not_mem_superclasses_self (hg : g.Hierarchical) (id : ClassId) :
    id ∉ g.superclasses id := by
  intro hmem
  cases hsup : g.superClass? id with
  | none => simp [superclasses_of_root hsup] at hmem
  | some sup =>
      rw [hg.superclasses_eq hsup] at hmem
      have hup := hg.isSubtype_of_mem_lineage hmem
      have hpath := Relation.TransGen.head' (direct_of_superClass hsup) (hg.isSubtype_iff.mp hup)
      exact hg.not_mem_supertypes_self id (hg.mem_supertypes_iff.mpr hpath)

theorem Hierarchical.mem_intermediates_iff (hg : g.Hierarchical) {child parent : ClassId} :
    m ∈ g.intermediates child parent name descriptor ↔
      m.owner ∈ g.superclasses child ∧ m.owner ≠ parent ∧ g.isSubtype m.owner parent = true ∧
        g.virtualMethod? m.owner name descriptor = some m := by
  simp only [intermediates, List.mem_filter, List.mem_filterMap, virtualMethod?,
    Option.filter_eq_some_iff, Bool.and_eq_true, decide_eq_true_eq]
  constructor
  · rintro ⟨⟨c, ⟨hc, hne, hsub⟩, hm⟩, hvirtual⟩
    obtain ⟨rfl, -⟩ := hg.of_declaredMethod hm
    exact ⟨hc, hne, hsub, hm, hvirtual⟩
  · rintro ⟨hc, hne, hsub, hm, hvirtual⟩
    exact ⟨⟨m.owner, ⟨hc, hne, hsub⟩, hm⟩, hvirtual⟩

theorem Extends.intermediates (e : g.Extends g') (hg : g.Hierarchical) {child parent : ClassId}
    (hchild : g.Known child) : g'.intermediates child parent name descriptor =
      g.intermediates child parent name descriptor := by
  simp only [ClassGraph.intermediates, e.superclasses hg hchild]
  have hfilter : ((g.superclasses child).filter fun c => c ≠ parent && g'.isSubtype c parent) =
      (g.superclasses child).filter fun c => c ≠ parent && g.isSubtype c parent :=
    List.filter_congr fun c hc => by
      rw [e.isSubtype hg (hg.known_of_mem_superclasses hchild hc)]
  rw [hfilter]
  have hknown : ∀ c ∈ (g.superclasses child).filter fun c => c ≠ parent && g.isSubtype c parent,
      g.Known c := fun c hc =>
    hg.known_of_mem_superclasses hchild (List.mem_filter.mp hc).1
  rw [List.filterMap_congr fun c hc => e.declaredMethod (hknown c hc)]
  refine List.filter_congr fun m hm => ?_
  obtain ⟨c, hc, hdeclared⟩ := List.mem_filterMap.mp hm
  exact e.methodHas ((hg.of_declaredMethod hdeclared).1 ▸ hknown c hc) _

theorem Extends.overridesWithin (e : g.Extends g') (hg : g.Hierarchical) {rank : ClassId → Nat}
    (hrank : ∀ {id sup}, g.Direct id sup → rank sup < rank id) {d d' : Nat}
    {child parent : MethodRef} (hchild : g.Known child.owner) (hparent : g.Known parent.owner)
    (hd : rank child.owner - rank parent.owner < d)
    (hd' : rank child.owner - rank parent.owner < d') :
    g'.overridesWithin d' child parent = g.overridesWithin d child parent := by
  induction d generalizing d' child parent with
  | zero => omega
  | succ d ih =>
      cases d' with
      | zero => omega
      | succ d' =>
          simp only [ClassGraph.overridesWithin, e.method hchild, e.method hparent,
            e.isSubtype hg hchild, e.samePackage hchild hparent]
          split
          next c p hc hp =>
            rw [e.intermediates hg hchild]
            have hany : ((g.intermediates child.owner parent.owner p.name p.descriptor).any
                fun m => g'.overridesWithin d' child m && g'.overridesWithin d' m parent) =
              (g.intermediates child.owner parent.owner p.name p.descriptor).any
                fun m => g.overridesWithin d child m && g.overridesWithin d m parent := by
              rw [Bool.eq_iff_iff, List.any_eq_true, List.any_eq_true]
              refine exists_congr fun m => and_congr_right fun hm => ?_
              obtain ⟨hmem, hne, hsub, -⟩ := hg.mem_intermediates_iff.mp hm
              have hknown := hg.known_of_mem_superclasses hchild hmem
              have hlow := hg.rank_lt_of_isSubtype hrank hsub hne
              have hhigh : rank m.owner < rank child.owner := by
                refine hg.rank_lt_of_isSubtype hrank (hg.isSubtype_of_mem_superclasses hmem) ?_
                intro heq
                exact hg.not_mem_superclasses_self _ (heq ▸ hmem)
              rw [ih hchild hknown (by omega) (by omega), ih hknown hparent (by omega) (by omega)]
            rw [hany]
          next => rfl

theorem Extends.overrides (e : g.Extends g') (hg : g.Hierarchical) {child parent : MethodRef}
    (hchild : g.Known child.owner) (hparent : g.Known parent.owner) :
    g'.overrides child parent = g.overrides child parent := by
  obtain ⟨rank, hrank, hbound⟩ := hg.bounded
  have hlt := hbound hchild
  have hsize := e.size_le
  exact e.overridesWithin hg hrank hchild hparent (by omega) (by omega)

end ClassGraph

end Linkage
