import Linkage.Proofs.Overriding
import Linkage.Proofs.Replay
import Linkage.Proofs.Search

namespace Linkage.ClassGraph

open ClassRecord

variable {g : ClassGraph} {id sub sup mid : ClassId} {child parent m : MethodRef}
  {c p : MethodInfo} {name descriptor : String} {depth : Nat} {allowed : LinkOptions → Prop}

-- No answer if the search goes deeper, or asks about a class that has not been linked.
def seekWithin (g : ClassGraph) : (depth : Nat) → (child parent : MethodRef) → Option Bool
  | 0, _, _ => none
  | depth + 1, child, parent => do
      let c ← g.method? child
      let p ← g.method? parent
      if c.isStatic || p.isStatic then
        return false
      else if child = parent then
        return true
      else if !c.isNamed p.name p.descriptor || c.isPrivate
          || !g.isSubtype child.owner parent.owner then
        return false
      else if p.isPublic || p.isProtected then
        return true
      else if p.isPrivate then
        return false
      else if g.samePackage child.owner parent.owner then
        return true
      else
        (g.intermediates child.owner parent.owner p.name p.descriptor).anyM fun m => do
          if ← g.seekWithin depth child m then g.seekWithin depth m parent else return false

theorem Hierarchical.getElem?_lineage (hg : g.Hierarchical) (id : ClassId) (n : Nat) :
    (g.lineage id)[n]? = (·.bind g.superClass?)^[n] (some id) := by
  induction id using hg.descend generalizing n with
  | root id hroot =>
      rw [lineage_of_root hroot]
      cases n with
      | zero => rfl
      | succ n =>
          rw [Function.iterate_succ_apply, Option.bind_some, hroot, Function.iterate_fixed rfl]
          rfl
  | step sub sup hsup ih =>
      rw [hg.lineage_eq hsup]
      cases n with
      | zero => rfl
      | succ n => rw [List.getElem?_cons_succ, ih, Function.iterate_succ_apply, Option.bind_some, hsup]

def between (g : ClassGraph) (child parent : ClassId) : Finset ClassId :=
  (g.superclasses child).toFinset.filter fun c => c ≠ parent ∧ g.isSubtype c parent = true

theorem mem_between_iff : mid ∈ g.between sub sup ↔
    mid ∈ g.superclasses sub ∧ mid ≠ sup ∧ g.isSubtype mid sup = true := by
  rw [between, Finset.mem_filter, List.mem_toFinset]

theorem Hierarchical.superclasses_subset (hg : g.Hierarchical) (hmem : mid ∈ g.superclasses sub) :
    g.superclasses mid ⊆ g.superclasses sub := by
  induction sub using hg.descend with
  | root sub hroot => simp [superclasses_of_root hroot] at hmem
  | step sub sup hsup ih =>
      rw [hg.superclasses_eq hsup] at hmem ⊢
      rcases List.mem_cons.mp hmem with rfl | hmem
      · exact List.subset_cons_self _ _
      · exact List.subset_cons_of_subset _ (ih hmem)

-- A class in between is no longer in between once it takes the place of either end.
theorem Hierarchical.between_below (hg : g.Hierarchical) (hmid : mid ∈ g.between sub sup) :
    g.between sub mid ⊂ g.between sub sup := by
  obtain ⟨-, hne, hsub⟩ := mem_between_iff.mp hmid
  refine Finset.ssubset_iff_of_subset (fun c hc => ?_) |>.mpr ⟨mid, hmid, fun hself => ?_⟩
  · obtain ⟨hmem, -, hlow⟩ := mem_between_iff.mp hc
    refine mem_between_iff.mpr ⟨hmem, ?_, hg.isSubtype_trans hlow hsub⟩
    rintro rfl
    exact hne (hg.isSubtype_antisymm hsub hlow)
  · exact (mem_between_iff.mp hself).2.1 rfl

theorem Hierarchical.between_above (hg : g.Hierarchical) (hmid : mid ∈ g.between sub sup) :
    g.between mid sup ⊂ g.between sub sup := by
  obtain ⟨hmem, -, -⟩ := mem_between_iff.mp hmid
  refine Finset.ssubset_iff_of_subset (fun c hc => ?_) |>.mpr ⟨mid, hmid, fun hself => ?_⟩
  · obtain ⟨habove, hrest⟩ := mem_between_iff.mp hc
    exact mem_between_iff.mpr ⟨hg.superclasses_subset hmem habove, hrest⟩
  · exact hg.not_mem_superclasses_self mid (mem_between_iff.mp hself).1

theorem Hierarchical.of_intermediate (hg : g.Hierarchical)
    (hm : m ∈ g.intermediates sub sup name descriptor) :
    m.owner ∈ g.between sub sup ∧ ∃ mi, g.method? m = some mi := by
  obtain ⟨hmem, hne, hsub, hdeclared⟩ := hg.mem_intermediates_iff.mp hm
  obtain ⟨-, hvirtual⟩ := Option.filter_eq_some_iff.mp hdeclared
  obtain ⟨mi, hmi, -⟩ := methodHas_iff.mp hvirtual
  exact ⟨mem_between_iff.mpr ⟨hmem, hne, hsub⟩, mi, hmi⟩

theorem Hierarchical.seekWithin_eq (hg : g.Hierarchical) (hchild : g.method? child = some c)
    (hparent : g.method? parent = some p)
    (hdepth : (g.between child.owner parent.owner).card < depth) :
    g.seekWithin depth child parent = some (g.overrides child parent) := by
  induction depth generalizing child parent c p with
  | zero => omega
  | succ depth ih =>
      have hany : ((g.intermediates child.owner parent.owner p.name p.descriptor).anyM fun m => do
            if ← g.seekWithin depth child m then g.seekWithin depth m parent else return false) =
          some ((g.intermediates child.owner parent.owner p.name p.descriptor).any fun m =>
            g.overridesWithin g.size child m && g.overridesWithin g.size m parent) := by
        refine anyM_eq_some fun m hm => ?_
        obtain ⟨hmid, mi, hmi⟩ := hg.of_intermediate hm
        have hbelow := Finset.card_lt_card (hg.between_below hmid)
        have habove := Finset.card_lt_card (hg.between_above hmid)
        obtain ⟨hlow, hhigh⟩ := hg.overridesWithin_intermediate (known_of_method hchild)
          (known_of_method hparent) hm
        rw [ih hchild hmi (by omega), ih hmi hparent (by omega), hlow, hhigh]
        cases g.overrides child m <;> rfl
      rw [seekWithin, overrides, overridesWithin, hchild, hparent, Option.bind_eq_bind,
        Option.bind_some, Option.bind_some, hany]
      dsimp only
      split_ifs <;> simp [*]

theorem overriding_searches_end (h : Reachable allowed g) (hchild : g.method? child = some c)
    (hparent : g.method? parent = some p) :
    (∀ depth, (g.between child.owner parent.owner).card < depth →
      g.seekWithin depth child parent = some (g.overrides child parent)) ∧
    (∀ m ∈ g.intermediates child.owner parent.owner p.name p.descriptor,
      (g.between child.owner m.owner).card < (g.between child.owner parent.owner).card ∧
        (g.between m.owner parent.owner).card < (g.between child.owner parent.owner).card) ∧
    (∀ n, (g.lineage child.owner)[n]? = (·.bind g.superClass?)^[n] (some child.owner)) ∧
    ∀ c ∈ g.lineage child.owner, ∃ info, g.status c = .linked info := by
  have hg := h.coherent
  refine ⟨fun depth => hg.seekWithin_eq hchild hparent, fun m hm => ?_,
    hg.getElem?_lineage child.owner, fun c hc => ?_⟩
  · obtain ⟨hmid, -⟩ := hg.of_intermediate hm
    exact ⟨Finset.card_lt_card (hg.between_below hmid),
      Finset.card_lt_card (hg.between_above hmid)⟩
  · obtain ⟨info, hinfo⟩ := hg.known_of_mem_lineage (known_of_method hchild) hc
    exact ⟨info, hg.status_of_info hinfo⟩

def relayedRun : ClassGraph :=
  program [
    { name := "p/Base", methods := [minimalRoot.method 0 "run" "()V"] },
    { name := "p/Upper", superName := some "p/Base",
      methods := [minimalRoot.method Access.publicBit "run" "()V"] },
    { name := "q/Lower", superName := some "p/Upper",
      methods := [minimalRoot.method 0 "run" "()V"] },
    { name := "q/Derived", superName := some "q/Lower",
      methods := [minimalRoot.method 0 "run" "()V"] }] ⟨4⟩

theorem relayedRun_is_found : Reachable (fun _ => True) relayedRun ∧
    relayedRun.key? ⟨⟨4⟩, 0⟩ = some ("run", "()V") ∧
    relayedRun.key? ⟨⟨1⟩, 0⟩ = some ("run", "()V") ∧
    relayedRun.seekWithin 2 ⟨⟨4⟩, 0⟩ ⟨⟨1⟩, 0⟩ = none ∧
    relayedRun.seekWithin 3 ⟨⟨4⟩, 0⟩ ⟨⟨1⟩, 0⟩ = some true ∧
    relayedRun.intermediates ⟨4⟩ ⟨1⟩ "run" "()V" = [⟨⟨3⟩, 0⟩, ⟨⟨2⟩, 0⟩] ∧
    (relayedRun.between ⟨3⟩ ⟨1⟩).card < (relayedRun.between ⟨4⟩ ⟨1⟩).card ∧
    (·.bind relayedRun.superClass?)^[4] (some ⟨4⟩) = some ⟨0⟩ := by
  have hreach : Reachable (fun _ => True) relayedRun := reachable_program _ _
  obtain ⟨hchild, hparent, hoverrides, hshallow, hbetween, htried, habove⟩ :
      relayedRun.key? ⟨⟨4⟩, 0⟩ = some ("run", "()V") ∧
      relayedRun.key? ⟨⟨1⟩, 0⟩ = some ("run", "()V") ∧
      relayedRun.overrides ⟨⟨4⟩, 0⟩ ⟨⟨1⟩, 0⟩ = true ∧
      relayedRun.seekWithin 2 ⟨⟨4⟩, 0⟩ ⟨⟨1⟩, 0⟩ = none ∧
      (relayedRun.between ⟨4⟩ ⟨1⟩).card = 2 ∧
      relayedRun.intermediates ⟨4⟩ ⟨1⟩ "run" "()V" = [⟨⟨3⟩, 0⟩, ⟨⟨2⟩, 0⟩] ∧
      (relayedRun.lineage ⟨4⟩)[4]? = some ⟨0⟩ := by
    decide +kernel
  obtain ⟨c, hc, -⟩ := method_of_key hchild
  obtain ⟨p, hp, hnamed⟩ := method_of_key hparent
  obtain ⟨hname, hdescriptor⟩ := Prod.mk.inj hnamed
  obtain ⟨hsearch, hfewer, hclimb, -⟩ := overriding_searches_end hreach hc hp
  rw [hname, hdescriptor, htried] at hfewer
  refine ⟨hreach, hchild, hparent, hshallow, ?_, htried, (hfewer ⟨⟨3⟩, 0⟩ (by simp)).2, ?_⟩
  · rw [hsearch 3 (hbetween ▸ Nat.lt_succ_self 2), hoverrides]
  · rw [← hclimb, habove]

end Linkage.ClassGraph
