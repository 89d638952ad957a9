import Linkage.Proofs.FieldAccess
import Linkage.Proofs.History
import Mathlib.Order.Defs.Unbundled

namespace Linkage.ClassGraph

open ClassRecord

variable {g : ClassGraph} {i c : ClassId} {a b m : MethodRef} {options : LinkOptions}
  {allowed : LinkOptions → Prop} {ops : List Operation}

@[ext]
structure VirtualMethod (g : ClassGraph) where
  ref : MethodRef
  declared : ∃ info, g.status ref.owner = .linked info ∧ info.isInterface = false ∧
    ref ∈ info.virtualMethods

structure OverridesDirectly (g : ClassGraph) (child parent : MethodRef) : Prop where
  key : g.key? child = g.key? parent
  ne : child.owner ≠ parent.owner
  below : g.isSubtype child.owner parent.owner = true
  seen : ∃ p, g.method? parent = some p ∧ (p.isPublic = true ∨ p.isProtected = true ∨
    p.isPrivate = false ∧ g.samePackage child.owner parent.owner = true)

theorem VirtualMethod.isInterface (x : g.VirtualMethod) : g.isInterface x.ref.owner = false := by
  obtain ⟨info, hlinked, hclass, -⟩ := x.declared
  exact (isInterface_eq (known_of_linked hlinked)).trans hclass

theorem VirtualMethod.isVirtual (x : g.VirtualMethod) (hg : g.WellFormed) :
    g.methodHas x.ref (·.isVirtual) = true := by
  obtain ⟨info, hlinked, -, hmem⟩ := x.declared
  exact ((hg.mem_virtualMethods_iff (known_of_linked hlinked)).mp hmem).2

theorem Coherent.exists_virtualMethod (hg : g.Coherent allowed)
    (hclass : g.isInterface m.owner = false)
    (hvirtual : g.methodHas m (·.isVirtual) = true) : ∃ x : g.VirtualMethod, x.ref = m := by
  obtain ⟨info, hinfo⟩ := known_of_methodHas hvirtual
  exact ⟨⟨m, info, hg.status_of_info hinfo, (isInterface_eq hinfo).symm.trans hclass,
    (hg.mem_virtualMethods_iff hinfo).mpr ⟨rfl, hvirtual⟩⟩, rfl⟩

theorem of_isVirtual (h : g.methodHas m (·.isVirtual) = true) :
    ∃ mi, g.method? m = some mi ∧ mi.isStatic = false ∧ mi.isPrivate = false := by
  obtain ⟨mi, hmi, hvirtual⟩ := methodHas_iff.mp h
  simp only [MethodInfo.isVirtual, Bool.and_eq_true, Bool.not_eq_true'] at hvirtual
  exact ⟨mi, hmi, hvirtual.1.1.2, hvirtual.1.1.1⟩

theorem WellFormed.overrides_antisymm (hg : g.WellFormed) (h1 : g.overrides a b = true)
    (h2 : g.overrides b a = true) : a = b :=
  hg.eq_of_overrides_of_owner h1
    (hg.isSubtype_antisymm (hg.isSubtype_of_overrides h1) (hg.isSubtype_of_overrides h2))

theorem WellFormed.overrides_refl (hg : g.WellFormed) (h : g.methodHas m (·.isVirtual) = true) :
    g.overrides m m = true := by
  obtain ⟨mi, hmi, hstatic, -⟩ := of_isVirtual h
  exact hg.overrides_iff.mpr ⟨mi, mi, hmi, hmi, hstatic, hstatic, .inl rfl⟩

theorem Coherent.superClass_of_interface (hg : g.Coherent (· = options))
    (hcurrent : g.Current options)
    (hi : g.isInterface i = true) (hsup : g.superClass? i = some c) :
    g.lookup options.rootClass = some c := by
  obtain ⟨info, hinfo, hsuper⟩ := Option.bind_eq_some_iff.mp hsup
  obtain ⟨_, slot, rfl, hslot, hfinished⟩ := hg.finished hinfo
  have hinterface : slot.record.access.isInterface = true := by
    rw [← (draft_declares hfinished.drafted).2.1]
    exact (isInterface_eq hinfo).symm.trans hi
  have hname := (checkSuperClass_ok ((draft_supers hfinished.drafted).1 c hsuper)).1 hinterface
  have hrecord := hfinished.resolved.superName
  have hnames := resolveSupertypes_lookup (hcurrent hslot hinfo)
  dsimp only at hrecord hnames
  rw [hsuper, Option.map_some, hname] at hrecord
  rw [ClassRecord.supertypeNames, ← hrecord, hsuper] at hnames
  exact (List.cons.inj hnames).1

theorem Coherent.overrides_trans_of_current (hg : g.Coherent (· = options))
    (hcurrent : g.Current options) (x y z : g.VirtualMethod)
    (h1 : g.overrides x.ref y.ref = true) (h2 : g.overrides y.ref z.ref = true) :
    g.overrides x.ref z.ref = true := by
  have hroot : ∀ o, o = options → o.rootClass = options.rootClass := by rintro _ rfl; rfl
  rcases hg.mem_lineage_or_above_interface hroot (hg.isSubtype_of_overrides h1) y.isInterface with
    hmem | ⟨i, hi, hsup⟩
  · rcases List.mem_cons.mp hmem with howner | habove
    · rwa [hg.eq_of_overrides_of_owner h1 howner.symm]
    · exact hg.overrides_trans h1 h2 (y.isVirtual hg.toWellFormed) habove
  · have hy := hg.superClass_of_interface hcurrent hi hsup
    have hsame : y.ref.owner = z.ref.owner := by
      rcases hg.mem_lineage_or_above_interface hroot (hg.isSubtype_of_overrides h2) z.isInterface
        with hmem | ⟨j, hj, hsup'⟩
      · rw [lineage_of_root (hg.root_above_interface hroot hi hsup)] at hmem
        exact (List.mem_singleton.mp hmem).symm
      · exact Option.some.inj (hy.symm.trans (hg.superClass_of_interface hcurrent hj hsup'))
    rwa [← hg.eq_of_overrides_of_owner h2 hsame]

theorem WellFormed.overrides_of_direct (hg : g.WellFormed) (x y : g.VirtualMethod)
    (h : g.OverridesDirectly x.ref y.ref) : g.overrides x.ref y.ref = true := by
  obtain ⟨xi, hxi, hxstatic, hxprivate⟩ := of_isVirtual (x.isVirtual hg)
  obtain ⟨yi, hyi, hystatic, -⟩ := of_isVirtual (y.isVirtual hg)
  obtain ⟨p, hp, hseen⟩ := h.seen
  obtain rfl := Option.some.inj (hyi.symm.trans hp)
  refine hg.overrides_iff.mpr ⟨xi, yi, hxi, hyi, hxstatic, hystatic,
    .inr ⟨h.key, hxprivate, h.below, ?_⟩⟩
  exact hseen.imp_right (Or.imp_right (And.imp_right .inl))

theorem Coherent.steps_of_overrides (hg : g.Coherent allowed) (x y : g.VirtualMethod)
    (h : g.overrides x.ref y.ref = true) :
    Relation.ReflTransGen (fun x y : g.VirtualMethod => g.OverridesDirectly x.ref y.ref) x y := by
  obtain ⟨rank, hrank, -⟩ := hg.bounded
  -- A method in between stands at a rank between those of its neighbours.
  induction hn : rank x.ref.owner - rank y.ref.owner using Nat.strong_induction_on
    generalizing x y with
  | _ n ih =>
      by_cases heq : x = y
      · exact heq ▸ .refl
      have hne : x.ref.owner ≠ y.ref.owner := fun howner =>
        heq (VirtualMethod.ext (hg.eq_of_overrides_of_owner h howner))
      obtain ⟨xi, yi, hxi, hyi, -, -, hsame | ⟨hkey, -, hsub, hsees⟩⟩ := hg.overrides_iff.mp h
      · exact absurd (VirtualMethod.ext hsame) heq
      rcases hsees with hpublic | hprotected | ⟨hprivate, hpackage | ⟨m, hm, hlow, hhigh⟩⟩
      · exact .single ⟨hkey, hne, hsub, yi, hyi, .inl hpublic⟩
      · exact .single ⟨hkey, hne, hsub, yi, hyi, .inr (.inl hprotected)⟩
      · exact .single ⟨hkey, hne, hsub, yi, hyi, .inr (.inr ⟨hprivate, hpackage⟩)⟩
      · obtain ⟨hmem, hmne, hmsub, hmdeclared⟩ := hg.mem_intermediates_iff.mp hm
        have hclass := hg.isInterface_of_mem_lineage x.isInterface (List.mem_cons_of_mem _ hmem)
        obtain ⟨mid, rfl⟩ := hg.exists_virtualMethod hclass (hg.virtualMethod_iff.mp hmdeclared).2.2
        have hmx : x.ref.owner ≠ mid.ref.owner := fun howner =>
          hg.not_mem_superclasses_self _ (howner ▸ hmem)
        have hrankx := hg.rank_lt_of_isSubtype hrank (hg.isSubtype_of_mem_superclasses hmem) hmx
        have hranky := hg.rank_lt_of_isSubtype hrank hmsub hmne
        exact (ih _ (by omega) x mid hlow rfl).trans (ih _ (by omega) mid y hhigh rfl)

theorem overriding_is_the_closure_of_its_steps (hg : ∀ c, g.status c = .unlinked)
    (hops : ∀ op ∈ ops, op.Resolves options) :
    IsPartialOrder (g.after ops).VirtualMethod
        (fun x y => (g.after ops).overrides x.ref y.ref = true) ∧
      (∀ x y : (g.after ops).VirtualMethod, (g.after ops).overrides x.ref y.ref = true ↔
        Relation.ReflTransGen (fun x y : (g.after ops).VirtualMethod =>
          (g.after ops).OverridesDirectly x.ref y.ref) x y) ∧
      ∀ a b, (g.after ops).overrides a b = true → (g.after ops).overrides b a = true → a = b := by
  have ht := tandem_after hg hops
  have hlinked := ht.right
  have htrans := hlinked.overrides_trans_of_current ht.current
  refine ⟨?_, fun x y => ⟨hlinked.steps_of_overrides x y, fun hsteps => ?_⟩,
    fun a b => hlinked.overrides_antisymm⟩
  · exact {
      refl := fun x => hlinked.overrides_refl (x.isVirtual hlinked.toWellFormed)
      trans := htrans
      antisymm := fun x y h1 h2 => VirtualMethod.ext (hlinked.overrides_antisymm h1 h2) }
  · induction hsteps with
    | refl => exact hlinked.overrides_refl (x.isVirtual hlinked.toWellFormed)
    | tail _ hstep ih => exact htrans _ _ _ ih (hlinked.overrides_of_direct _ _ hstep)

def freshWidenedRun : ClassGraph :=
  minimal.after [
    .add { name := "a/Base", methods := [minimalRoot.method 0 "run" "()V"] } .application,
    .add { name := "a/Middle", superName := some "a/Base",
           methods := [minimalRoot.method Access.publicBit "run" "()V"] } .application,
    .add { name := "b/Derived", superName := some "a/Middle",
           methods := [minimalRoot.method Access.publicBit "run" "()V"] } .application]

def linkedWidenedRun : ClassGraph :=
  freshWidenedRun.after [.link {} ⟨3⟩]

theorem linkedWidenedRun_steps : ∃ x y : linkedWidenedRun.VirtualMethod,
    x.ref = ⟨⟨3⟩, 0⟩ ∧ y.ref = ⟨⟨1⟩, 0⟩ ∧ ¬linkedWidenedRun.OverridesDirectly x.ref y.ref ∧
    Relation.ReflTransGen (fun x y : linkedWidenedRun.VirtualMethod =>
      linkedWidenedRun.OverridesDirectly x.ref y.ref) x y := by
  have hfresh : ∀ c, freshWidenedRun.status c = .unlinked := fun c => by
    simp only [freshWidenedRun, after, List.foldl, Operation.run, status_add, minimal]
    rfl
  have hops : ∀ op ∈ [Operation.link {} ⟨3⟩], op.Resolves {} := by simp [Operation.Resolves]
  have hlinked : linkedWidenedRun.Coherent (· = {}) := (tandem_after hfresh hops).right
  have hclosure := overriding_is_the_closure_of_its_steps hfresh hops
  obtain ⟨hoverrides, hclass, hvirtual, hclass', hvirtual', hseen⟩ :
      linkedWidenedRun.overrides ⟨⟨3⟩, 0⟩ ⟨⟨1⟩, 0⟩ = true ∧
      linkedWidenedRun.isInterface ⟨3⟩ = false ∧
      linkedWidenedRun.methodHas ⟨⟨3⟩, 0⟩ (·.isVirtual) = true ∧
      linkedWidenedRun.isInterface ⟨1⟩ = false ∧
      linkedWidenedRun.methodHas ⟨⟨1⟩, 0⟩ (·.isVirtual) = true ∧
      ((linkedWidenedRun.method? ⟨⟨1⟩, 0⟩).any fun p =>
        p.isPublic || p.isProtected || linkedWidenedRun.samePackage ⟨3⟩ ⟨1⟩) = false := by
    decide +kernel
  obtain ⟨x, hx⟩ := hlinked.exists_virtualMethod hclass hvirtual
  obtain ⟨y, hy⟩ := hlinked.exists_virtualMethod hclass' hvirtual'
  have hxy : linkedWidenedRun.overrides x.ref y.ref = true := by rw [hx, hy, hoverrides]
  refine ⟨x, y, hx, hy, fun hdirect => ?_, (hclosure.2.1 x y).mp hxy⟩
  obtain ⟨p, hp, hcases⟩ := hdirect.seen
  rw [hx, hy] at hcases
  rw [hy] at hp
  simp only [hp, Option.any_some, Bool.or_eq_false_iff] at hseen
  simp [hseen.1.1, hseen.1.2, hseen.2] at hcases

end Linkage.ClassGraph
