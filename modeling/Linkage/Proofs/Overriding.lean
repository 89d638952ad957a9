import Linkage.Proofs.Extension

namespace Linkage.ClassGraph

variable {g : ClassGraph} {child parent mid m : MethodRef}

def Sees (g : ClassGraph) (child parent : MethodRef) (p : MethodInfo) : Prop :=
  p.isPublic = true ∨ p.isProtected = true ∨ p.isPrivate = false ∧
    (g.samePackage child.owner parent.owner = true ∨
      ∃ m ∈ g.intermediates child.owner parent.owner p.name p.descriptor,
        g.overrides child m = true ∧ g.overrides m parent = true)

theorem Hierarchical.overridesWithin_intermediate (hg : g.Hierarchical) {name descriptor : String}
    (hchild : g.Known child.owner) (hparent : g.Known parent.owner)
    (hm : m ∈ g.intermediates child.owner parent.owner name descriptor) :
    g.overridesWithin g.size child m = g.overrides child m ∧
      g.overridesWithin g.size m parent = g.overrides m parent := by
  obtain ⟨rank, hrank, hbound⟩ := hg.bounded
  obtain ⟨hmem, hne, hsub, -⟩ := hg.mem_intermediates_iff.mp hm
  have hknown := hg.known_of_mem_superclasses hchild hmem
  have hlow := hg.rank_lt_of_isSubtype hrank hsub hne
  have hchildBound := hbound hchild
  have hmBound := hbound hknown
  constructor
  · exact (Extends.refl g).overridesWithin hg hrank hchild hknown (by omega) (by omega)
  · exact (Extends.refl g).overridesWithin hg hrank hknown hparent (by omega) (by omega)

theorem Hierarchical.overrides_iff (hg : g.Hierarchical) :
    g.overrides child parent = true ↔ ∃ c p, g.method? child = some c ∧
      g.method? parent = some p ∧ c.isStatic = false ∧ p.isStatic = false ∧
        (child = parent ∨ g.key? child = g.key? parent ∧ c.isPrivate = false ∧
          g.isSubtype child.owner parent.owner = true ∧ g.Sees child parent p) := by
  rw [overrides, overridesWithin]
  cases hc : g.method? child with
  | none => simp
  | some c =>
      cases hp : g.method? parent with
      | none => simp
      | some p =>
          have hany : ((g.intermediates child.owner parent.owner p.name p.descriptor).any fun m =>
                g.overridesWithin g.size child m && g.overridesWithin g.size m parent) = true ↔
              ∃ m ∈ g.intermediates child.owner parent.owner p.name p.descriptor,
                g.overrides child m = true ∧ g.overrides m parent = true := by
            rw [List.any_eq_true]
            refine exists_congr fun m => and_congr_right fun hm => ?_
            obtain ⟨h1, h2⟩ := hg.overridesWithin_intermediate (known_of_method hc)
              (known_of_method hp) hm
            rw [h1, h2, Bool.and_eq_true]
          have hkey : g.key? child = g.key? parent ↔ c.isNamed p.name p.descriptor = true := by
            rw [key?_eq hc, key?_eq hp, MethodInfo.isNamed_iff, Option.some.injEq]
          simp only [Option.some.injEq, exists_and_left, exists_eq_left', Sees, ← hany, hkey]
          grind

theorem Hierarchical.key_of_overrides (hg : g.Hierarchical) (h : g.overrides child parent = true) :
    g.key? child = g.key? parent := by
  obtain ⟨c, p, -, -, -, -, rfl | hrest⟩ := hg.overrides_iff.mp h
  · rfl
  · exact hrest.1

theorem Hierarchical.isSubtype_of_overrides (hg : g.Hierarchical)
    (h : g.overrides child parent = true) : g.isSubtype child.owner parent.owner = true := by
  obtain ⟨c, p, -, -, -, -, rfl | hrest⟩ := hg.overrides_iff.mp h
  · exact isSubtype_refl g _
  · exact hrest.2.2.1

theorem WellFormed.eq_of_overrides_of_owner (hg : g.WellFormed)
    (h : g.overrides child parent = true) (howner : child.owner = parent.owner) :
    child = parent := by
  obtain ⟨c, p, hc, hp, -⟩ := hg.overrides_iff.mp h
  have hkey := hg.key_of_overrides h
  exact hg.method_ext (key?_eq hc) (hkey.symm.trans (key?_eq hc)) howner

theorem WellFormed.overrides_trans (hg : g.WellFormed) (h1 : g.overrides child mid = true)
    (h2 : g.overrides mid parent = true) (hvirtual : g.methodHas mid (·.isVirtual) = true)
    (hmid : mid.owner ∈ g.superclasses child.owner) : g.overrides child parent = true := by
  by_cases heq : mid = parent
  · exact heq ▸ h1
  have howner : mid.owner ≠ parent.owner := fun h => heq (hg.eq_of_overrides_of_owner h2 h)
  have hkey1 := hg.key_of_overrides h1
  have hkey2 := hg.key_of_overrides h2
  have hsub := hg.isSubtype_trans (hg.isSubtype_of_overrides h1) (hg.isSubtype_of_overrides h2)
  have hsub2 := hg.isSubtype_of_overrides h2
  obtain ⟨c, mi, hc, -, hcs, -, hcase1⟩ := hg.overrides_iff.mp h1
  obtain ⟨_, p, -, hp, -, hps, hcase2⟩ := hg.overrides_iff.mp h2
  refine hg.overrides_iff.mpr ⟨c, p, hc, hp, hcs, hps, .inr ⟨hkey1.trans hkey2, ?_, hsub, ?_⟩⟩
  · rcases hcase1 with rfl | ⟨-, hpriv, -⟩
    · exact absurd hmid (hg.not_mem_superclasses_self _)
    · exact hpriv
  · rcases hcase2 with rfl | ⟨-, -, -, hsees⟩
    · exact absurd rfl heq
    · rcases hsees with hpub | hprot | ⟨hpriv, -⟩
      · exact .inl hpub
      · exact .inr (.inl hprot)
      · refine .inr (.inr ⟨hpriv, .inr ⟨mid, ?_, h1, h2⟩⟩)
        rw [hg.mem_intermediates_iff, hg.virtualMethod_iff]
        exact ⟨hmid, howner, hsub2, rfl, hkey2.trans (key?_eq hp), hvirtual⟩

end Linkage.ClassGraph
