import Linkage.Proofs.Reachability
import Mathlib.Data.PFun
import Mathlib.Order.Defs.Unbundled

namespace Linkage

section

variable {σ α : Type} {turn : σ → α ⊕ σ} {s t : σ} {a : α}

-- The result of the first turn that has one; undefined if there is no end to the turns.
def runLoop (turn : σ → α ⊕ σ) : σ → Part α :=
  PFun.fix fun s => Part.some (turn s)

theorem runLoop_done (h : turn s = .inl a) : runLoop turn s = .some a :=
  Part.eq_some_iff.mpr (PFun.fix_stop (Part.mem_some_iff.mpr h.symm))

theorem runLoop_next (h : turn s = .inr t) : runLoop turn s = runLoop turn t :=
  PFun.fix_fwd_eq (Part.mem_some_iff.mpr h.symm)

theorem runLoop_induction {P : σ → Prop} (h : runLoop turn s = .some a)
    (hdone : ∀ s, turn s = .inl a → P s) (hnext : ∀ s t, turn s = .inr t → P t → P s) : P s :=
  PFun.fixInduction' (Part.eq_some_iff.mp h)
    (fun s hs => hdone s (Part.mem_some_iff.mp hs).symm)
    (fun s t _ ht => hnext s t (Part.mem_some_iff.mp ht).symm)

end

namespace ClassGraph

open Relation

variable {g : ClassGraph} {rank : ClassId → Nat} {id sup : ClassId} {info : ClassInfo}
  {seen stack roots out : List ClassId} {d n : Nat} {allowed : LinkOptions → Prop}

abbrev Walk := List ClassId × List ClassId

def listTurn (g : ClassGraph) : Walk → Except LinkError (List ClassId) ⊕ Walk
  | (seen, []) => .inl (.ok seen)
  | (seen, next :: stack) =>
      if next ∈ seen then
        .inr (seen, stack)
      else
        match g.require next with
        | .ok info => .inr (seen ++ [next], info.directSupertypes ++ stack)
        | .error e => .inl (.error e)

def listAbove (g : ClassGraph) (seen stack : List ClassId) :
    Part (Except LinkError (List ClassId)) :=
  runLoop g.listTurn (seen, stack)

def listSupertypes (g : ClassGraph) (id : ClassId) : Part (Except LinkError (List ClassId)) :=
  match g.require id with
  | .ok info => g.listAbove [] info.directSupertypes
  | .error e => .some (.error e)

def seekTurn (g : ClassGraph) (sup : ClassId) : Walk → Except LinkError Bool ⊕ Walk
  | (_, []) => .inl (.ok false)
  | (seen, next :: stack) =>
      if next = sup then
        .inl (.ok true)
      else if next ∈ seen then
        .inr (seen, stack)
      else
        match g.require next with
        | .ok info => .inr (seen ++ [next], info.directSupertypes ++ stack)
        | .error e => .inl (.error e)

def seekAbove (g : ClassGraph) (sup : ClassId) (seen stack : List ClassId) :
    Part (Except LinkError Bool) :=
  runLoop (g.seekTurn sup) (seen, stack)

def seekSupertype (g : ClassGraph) (sub sup : ClassId) : Part (Except LinkError Bool) :=
  if sub = sup then
    .some (.ok true)
  else
    match g.require sub with
    | .ok info => g.seekAbove sup [] info.directSupertypes
    | .error e => .some (.error e)

theorem require_eq (h : g.info? id = some info) : g.require id = .ok info := by
  simp [require, h]

theorem listAbove_nil (g : ClassGraph) (seen : List ClassId) :
    g.listAbove seen [] = .some (.ok seen) :=
  runLoop_done rfl

theorem listAbove_pass {next : ClassId} (hseen : next ∈ seen) :
    g.listAbove seen (next :: stack) = g.listAbove seen stack :=
  runLoop_next (by rw [listTurn, if_pos hseen])

theorem listAbove_visit {next : ClassId} (hnew : next ∉ seen)
    (hrequire : g.require next = .ok info) :
    g.listAbove seen (next :: stack) =
      g.listAbove (seen ++ [next]) (info.directSupertypes ++ stack) :=
  runLoop_next (by rw [listTurn, if_neg hnew, hrequire])

theorem listAbove_roots (hstep : ∀ root ∈ roots, ∀ seen stack,
    g.listAbove seen (root :: stack) = g.listAbove (g.visit d seen root) stack) :
    g.listAbove seen (roots ++ stack) = g.listAbove (roots.foldl (g.visit d) seen) stack := by
  induction roots generalizing seen with
  | nil => rfl
  | cons root rest ih =>
      obtain ⟨hroot, hrest⟩ := List.forall_mem_cons.mp hstep
      rw [List.cons_append, hroot, List.foldl_cons]
      exact ih hrest

-- By induction on the bound: the supertypes of the type on top are what comes next.
theorem Hierarchical.listAbove_cons (hg : g.Hierarchical)
    (hrank : ∀ {id sup}, g.Direct id sup → rank sup < rank id) (hid : g.Known id)
    (hd : rank id < d) :
    g.listAbove seen (id :: stack) = g.listAbove (g.visit d seen id) stack := by
  induction d generalizing id seen stack with
  | zero => omega
  | succ d ih =>
      rw [visit]
      split
      next hseen => exact listAbove_pass hseen
      next hnew =>
        obtain ⟨info, hinfo⟩ := hid
        rw [listAbove_visit hnew (require_eq hinfo), directSupertypes_eq hinfo]
        refine listAbove_roots fun sup hsup seen stack => ?_
        have hdirect : g.Direct id sup := by rwa [Direct, directSupertypes_eq hinfo]
        have hlt := hrank hdirect
        exact ih (hg.known hdirect) (by omega)

theorem Hierarchical.listSupertypes_eq (hg : g.Hierarchical) (hid : g.Known id) :
    g.listSupertypes id = .some (.ok (g.supertypes id)) := by
  obtain ⟨rank, hrank, hbound⟩ := hg.bounded
  obtain ⟨info, hinfo⟩ := hid
  have hstep : ∀ sup ∈ info.directSupertypes, ∀ seen stack,
      g.listAbove seen (sup :: stack) = g.listAbove (g.visit g.size seen sup) stack := by
    intro sup hsup seen stack
    have hdirect : g.Direct id sup := by rwa [Direct, directSupertypes_eq hinfo]
    have hknown := hg.known hdirect
    exact hg.listAbove_cons hrank hknown (hbound hknown)
  rw [listSupertypes, require_eq hinfo, supertypes, directSupertypes_eq hinfo]
  dsimp only
  rw [← List.append_nil info.directSupertypes, listAbove_roots hstep, List.append_nil,
    listAbove_nil]

theorem seekAbove_found (g : ClassGraph) (sup : ClassId) (seen stack : List ClassId) :
    g.seekAbove sup seen (sup :: stack) = .some (.ok true) :=
  runLoop_done (by rw [seekTurn, if_pos rfl])

theorem seekAbove_pass {next : ClassId} (hne : next ≠ sup) (hseen : next ∈ seen) :
    g.seekAbove sup seen (next :: stack) = g.seekAbove sup seen stack :=
  runLoop_next (by rw [seekTurn, if_neg hne, if_pos hseen])

theorem seekAbove_visit {next : ClassId} (hne : next ≠ sup) (hnew : next ∉ seen)
    (hrequire : g.require next = .ok info) :
    g.seekAbove sup seen (next :: stack) =
      g.seekAbove sup (seen ++ [next]) (info.directSupertypes ++ stack) :=
  runLoop_next (by rw [seekTurn, if_neg hne, if_neg hnew, hrequire])

theorem seekAbove_of_listAbove (h : g.listAbove seen stack = .some (.ok out)) :
    seen ⊆ out ∧ (sup ∉ seen → g.seekAbove sup seen stack = .some (.ok (decide (sup ∈ out)))) := by
  refine runLoop_induction (s := (seen, stack)) (P := fun w => w.1 ⊆ out ∧ (sup ∉ w.1 →
    g.seekAbove sup w.1 w.2 = .some (.ok (decide (sup ∈ out))))) h ?_ ?_
  · rintro ⟨seen, stack⟩ hturn
    cases stack with
    | nil =>
        cases hturn
        refine ⟨List.Subset.refl _, fun hsup => ?_⟩
        rw [decide_eq_false hsup]
        exact runLoop_done rfl
    | cons next stack =>
        rw [listTurn] at hturn
        split at hturn
        next => cases hturn
        next => split at hturn <;> cases hturn
  · rintro ⟨seen, stack⟩ t hturn ⟨hsub, hseek⟩
    cases stack with
    | nil => cases hturn
    | cons next stack =>
        rw [listTurn] at hturn
        split at hturn
        next hseen =>
          cases hturn
          refine ⟨hsub, fun hsup => ?_⟩
          have hne : next ≠ sup := fun heq => hsup (heq ▸ hseen)
          exact (seekAbove_pass hne hseen).trans (hseek hsup)
        next hnew =>
          split at hturn
          next info hrequire =>
            cases hturn
            have hmem : next ∈ out := hsub (List.mem_append_right _ (List.mem_singleton_self next))
            refine ⟨List.Subset.trans (List.subset_append_left _ _) hsub, fun hsup => ?_⟩
            by_cases heq : next = sup
            · subst heq
              rw [decide_eq_true hmem]
              exact seekAbove_found g next seen stack
            · exact (seekAbove_visit heq hnew hrequire).trans (hseek (by simp [hsup, Ne.symm heq]))
          next => cases hturn

theorem Hierarchical.seekSupertype_eq (hg : g.Hierarchical) (hid : g.Known id) (sup : ClassId) :
    g.seekSupertype id sup = .some (.ok (g.isSubtype id sup)) := by
  have hlist := hg.listSupertypes_eq hid
  obtain ⟨info, hinfo⟩ := hid
  rw [listSupertypes, require_eq hinfo] at hlist
  rw [seekSupertype, isSubtype]
  split
  next heq => simp [heq]
  next hne =>
    rw [require_eq hinfo]
    dsimp only
    rw [(seekAbove_of_listAbove hlist).2 List.not_mem_nil]
    simp [hne]

def preorderWithin (g : ClassGraph) : (depth : Nat) → ClassId → List ClassId
  | 0, _ => []
  | depth + 1, id => (g.directSupertypes id).flatMap fun sup => sup :: g.preorderWithin depth sup

def preorder (g : ClassGraph) (id : ClassId) : List ClassId :=
  g.preorderWithin g.size id

theorem directSupertypes_of_rank (hrank : ∀ {id sup}, g.Direct id sup → rank sup < rank id)
    (hzero : rank id = 0) : g.directSupertypes id = [] := by
  refine List.eq_nil_iff_forall_not_mem.mpr fun sup hsup => ?_
  have hlt := hrank hsup
  omega

theorem preorderWithin_of_top (hnone : g.directSupertypes id = []) (d : Nat) :
    g.preorderWithin d id = [] := by
  cases d <;> simp [preorderWithin, hnone]

theorem preorderWithin_congr (hrank : ∀ {id sup}, g.Direct id sup → rank sup < rank id)
    (hd : rank id ≤ d) (hn : rank id ≤ n) : g.preorderWithin n id = g.preorderWithin d id := by
  induction d generalizing n id with
  | zero =>
      have hnone := directSupertypes_of_rank hrank (Nat.le_zero.mp hd)
      rw [preorderWithin_of_top hnone, preorderWithin_of_top hnone]
  | succ d ih =>
      cases n with
      | zero =>
          have hnone := directSupertypes_of_rank hrank (Nat.le_zero.mp hn)
          rw [preorderWithin_of_top hnone, preorderWithin_of_top hnone]
      | succ n =>
          refine List.flatMap_congr fun sup hsup => ?_
          have hlt := hrank hsup
          rw [ih (by omega) (by omega)]

theorem Hierarchical.preorder_eq (hg : g.Hierarchical) (id : ClassId) :
    g.preorder id = (g.directSupertypes id).flatMap fun sup => sup :: g.preorder sup := by
  obtain ⟨rank, hrank, hbound⟩ := hg.bounded
  by_cases hid : g.Known id
  · have hlt := hbound hid
    have hone : g.preorder id = g.preorderWithin (g.size + 1) id :=
      preorderWithin_congr hrank (by omega) (by omega)
    rw [hone]
    rfl
  · have hnone : g.directSupertypes id = [] :=
      List.eq_nil_iff_forall_not_mem.mpr fun sup hsup => hid (direct_known hsup)
    rw [preorder, preorderWithin_of_top hnone, hnone, List.flatMap_nil]

theorem Hierarchical.preorder_subset (hg : g.Hierarchical) (hsup : sup ∈ g.preorder id) :
    g.preorder sup ⊆ g.preorder id := by
  obtain ⟨rank, hrank, -⟩ := hg.bounded
  induction hn : rank id using Nat.strong_induction_on generalizing id with
  | _ n ih =>
      rw [hg.preorder_eq id] at hsup ⊢
      obtain ⟨first, hfirst, hsup⟩ := List.mem_flatMap.mp hsup
      have hlt := hrank hfirst
      have hrest : g.preorder sup ⊆ g.preorder first := by
        rcases List.mem_cons.mp hsup with rfl | hsup
        · exact List.Subset.refl _
        · exact ih _ (hn ▸ hlt) hsup rfl
      exact fun x hx => List.mem_flatMap.mpr ⟨first, hfirst, List.mem_cons_of_mem _ (hrest hx)⟩

def appendNew (seen types : List ClassId) : List ClassId :=
  types.foldl (fun seen id => if id ∈ seen then seen else seen ++ [id]) seen

theorem appendNew_append (seen a b : List ClassId) :
    appendNew seen (a ++ b) = appendNew (appendNew seen a) b :=
  List.foldl_append

theorem appendNew_eq (seen types : List ClassId) :
    appendNew seen types = seen ++ (types.filter (· ∉ seen)).eraseDups := by
  induction types generalizing seen with
  | nil => simp [appendNew]
  | cons id rest ih =>
      rw [appendNew, List.foldl_cons, ← appendNew]
      split
      next hseen => rw [ih, List.filter_cons_of_neg (by simpa using hseen)]
      next hnew =>
        rw [ih, List.filter_cons_of_pos (by simpa using hnew), List.eraseDups_cons,
          List.filter_filter, List.append_assoc, List.singleton_append]
        congr 3
        exact List.filter_congr fun x _ => Bool.eq_iff_iff.mpr (by simp [and_comm])

theorem appendNew_of_subset (h : out ⊆ seen) : appendNew seen out = seen := by
  rw [appendNew_eq, List.filter_eq_nil_iff.mpr fun x hx => by simpa using h hx]
  simp

theorem mem_appendNew {x : ClassId} : x ∈ appendNew seen out ↔ x ∈ seen ∨ x ∈ out := by
  rw [appendNew_eq, List.mem_append, List.mem_eraseDups, List.mem_filter]
  by_cases hx : x ∈ seen <;> simp [hx]

def ClosedBelow (g : ClassGraph) (rank : ClassId → Nat) (n : Nat) (seen : List ClassId) : Prop :=
  ∀ c ∈ seen, rank c < n → g.preorder c ⊆ seen

theorem Hierarchical.closedBelow_appendNew (hg : g.Hierarchical) (h : g.ClosedBelow rank n seen)
    (id : ClassId) : g.ClosedBelow rank n (appendNew seen (id :: g.preorder id)) := by
  intro c hc hlt x hx
  rw [mem_appendNew] at hc ⊢
  rcases hc with hseen | hc
  · exact .inl (h c hseen hlt hx)
  · rcases List.mem_cons.mp hc with rfl | hc
    · exact .inr (List.mem_cons_of_mem _ hx)
    · exact .inr (List.mem_cons_of_mem _ (hg.preorder_subset hc hx))

theorem Hierarchical.foldl_visit (hg : g.Hierarchical) (hseen : g.ClosedBelow rank n seen)
    (hstep : ∀ root ∈ roots, ∀ seen, g.ClosedBelow rank n seen →
      g.visit d seen root = appendNew seen (root :: g.preorder root)) :
    roots.foldl (g.visit d) seen =
      appendNew seen (roots.flatMap fun root => root :: g.preorder root) := by
  induction roots generalizing seen with
  | nil => rfl
  | cons root rest ih =>
      obtain ⟨hroot, hrest⟩ := List.forall_mem_cons.mp hstep
      rw [List.foldl_cons, hroot seen hseen, List.flatMap_cons, appendNew_append]
      exact ih (hg.closedBelow_appendNew hseen root) hrest

-- By induction on the bound: below the type that is visited, what has been seen is closed.
theorem Hierarchical.visit_eq (hg : g.Hierarchical)
    (hrank : ∀ {id sup}, g.Direct id sup → rank sup < rank id) (hid : g.Known id)
    (hd : rank id < d) (hn : rank id < n) (hseen : g.ClosedBelow rank n seen) :
    g.visit d seen id = appendNew seen (id :: g.preorder id) := by
  induction d generalizing id n seen with
  | zero => omega
  | succ d ih =>
      rw [visit]
      split
      next hmem =>
        exact (appendNew_of_subset (List.cons_subset.mpr ⟨hmem, hseen id hmem hn⟩)).symm
      next hnew =>
        have hbelow : g.ClosedBelow rank (rank id) (seen ++ [id]) := by
          intro c hc hlt
          rcases List.mem_append.mp hc with hc | hc
          · exact List.Subset.trans (hseen c hc (by omega)) (List.subset_append_left _ _)
          · rw [List.mem_singleton.mp hc] at hlt
            omega
        have hstart : appendNew seen (id :: g.preorder id) =
            appendNew (seen ++ [id]) (g.preorder id) := by
          rw [appendNew, List.foldl_cons, if_neg hnew, ← appendNew]
        rw [hstart, hg.preorder_eq id]
        refine hg.foldl_visit hbelow fun sup hsup seen hclosed => ?_
        have hlt := hrank hsup
        exact ih (hg.known hsup) (by omega) hlt hclosed

theorem Hierarchical.supertypes_eq_eraseDups (hg : g.Hierarchical) (id : ClassId) :
    g.supertypes id = (g.preorder id).eraseDups := by
  obtain ⟨rank, hrank, hbound⟩ := hg.bounded
  have hstep : ∀ sup ∈ g.directSupertypes id, ∀ seen, g.ClosedBelow rank g.size seen →
      g.visit g.size seen sup = appendNew seen (sup :: g.preorder sup) := fun sup hsup seen hseen =>
    hg.visit_eq hrank (hg.known hsup) (hbound (hg.known hsup)) (hbound (hg.known hsup)) hseen
  have hnil : g.ClosedBelow rank g.size [] := fun c hc => absurd hc List.not_mem_nil
  rw [supertypes, hg.foldl_visit hnil hstep, ← hg.preorder_eq id, appendNew_eq]
  simp

theorem Coherent.directSupertypes_names (hg : g.Coherent allowed)
    (hinfo : g.info? id = some info) : ∃ record, g.record? id = some record ∧
      (g.directSupertypes id).map g.name = record.superName.toList ++ record.interfaces := by
  obtain ⟨_, slot, -, hslot, hfinished⟩ := hg.finished hinfo
  refine ⟨slot.record, by rw [record?, hslot, Option.map_some], ?_⟩
  rw [← hfinished.resolved.superName, ← hfinished.resolved.interfaceNames]
  simp only [directSupertypes, hinfo, ClassInfo.directSupertypes, List.map_append]
  cases info.superClass <;> rfl

theorem supertypes_are_walked_in_preorder (h : Reachable allowed g)
    (hlinked : g.status id = .linked info) :
    g.listSupertypes id = .some (.ok (g.supertypes id)) ∧
      ((g.supertypes id).Nodup ∧ id ∉ g.supertypes id ∧
        ∀ sup, sup ∈ g.supertypes id ↔ TransGen g.Direct id sup) ∧
      ((∀ c, g.preorder c = (g.directSupertypes c).flatMap fun sup => sup :: g.preorder sup) ∧
        g.supertypes id = (g.preorder id).eraseDups) ∧
      (∀ sup, g.seekSupertype id sup = .some (.ok (g.isSubtype id sup)) ∧
        (g.isSubtype id sup = true ↔ sup = id ∨ sup ∈ g.supertypes id)) ∧
      IsPartialOrder {c // g.isLinked c = true} fun a b => g.isSubtype a b = true := by
  have hg := h.coherent.toHierarchical
  have hid := known_of_info (known_of_linked hlinked)
  refine ⟨hg.listSupertypes_eq hid,
    ⟨hg.nodup_supertypes id, hg.not_mem_supertypes_self id, fun sup => hg.mem_supertypes_iff⟩,
    ⟨hg.preorder_eq, hg.supertypes_eq_eraseDups id⟩,
    fun sup => ⟨hg.seekSupertype_eq hid sup, ?_⟩, ?_⟩
  · rw [isSubtype, Bool.or_eq_true, decide_eq_true_eq, List.contains_iff_mem, eq_comm]
  · exact {
      refl := fun a => isSubtype_refl g a
      trans := fun a b c => hg.isSubtype_trans
      antisymm := fun a b h1 h2 => Subtype.ext (hg.isSubtype_antisymm h1 h2) }

def athlete : ClassGraph :=
  program [
    { name := "Named", access := .publicInterface },
    { name := "Person", interfaces := ["Named"] },
    { name := "Runner", access := .publicInterface, interfaces := ["Named"] },
    { name := "Swimmer", access := .publicInterface },
    { name := "Athlete", superName := some "Person", interfaces := ["Swimmer", "Runner"] }] ⟨5⟩

theorem athlete_walk : Reachable (fun _ => True) athlete ∧ athlete.isLinked ⟨5⟩ = true ∧
    (athlete.directSupertypes ⟨5⟩).map athlete.name = ["Person", "Swimmer", "Runner"] ∧
    athlete.preorder ⟨5⟩ = [⟨2⟩, ⟨0⟩, ⟨1⟩, ⟨0⟩, ⟨4⟩, ⟨0⟩, ⟨3⟩, ⟨0⟩, ⟨1⟩, ⟨0⟩] ∧
    athlete.listSupertypes ⟨5⟩ = .some (.ok [⟨2⟩, ⟨0⟩, ⟨1⟩, ⟨4⟩, ⟨3⟩]) ∧
    athlete.seekSupertype ⟨5⟩ ⟨1⟩ = .some (.ok true) := by
  have hreach : Reachable (fun _ => True) athlete := reachable_program _ _
  obtain ⟨hlinked, hdeclared, hwalk, hsub⟩ : athlete.isLinked ⟨5⟩ = true ∧
      (athlete.record? ⟨5⟩).map (fun record => record.superName.toList ++ record.interfaces) =
        some ["Person", "Swimmer", "Runner"] ∧
      athlete.preorder ⟨5⟩ = [⟨2⟩, ⟨0⟩, ⟨1⟩, ⟨0⟩, ⟨4⟩, ⟨0⟩, ⟨3⟩, ⟨0⟩, ⟨1⟩, ⟨0⟩] ∧
      athlete.isSubtype ⟨5⟩ ⟨1⟩ = true := by
    decide +kernel
  obtain ⟨info, hinfo⟩ := linked_of_isLinked hlinked
  obtain ⟨hlist, -, ⟨-, hfirst⟩, hseek, -⟩ := supertypes_are_walked_in_preorder hreach hinfo
  obtain ⟨record, hrecord, hnames⟩ := hreach.coherent.directSupertypes_names (known_of_linked hinfo)
  rw [hrecord, Option.map_some, Option.some.injEq] at hdeclared
  refine ⟨hreach, hlinked, hnames.trans hdeclared, hwalk, ?_, (hseek ⟨1⟩).1.trans (by rw [hsub])⟩
  rw [hlist, hfirst, hwalk]
  rfl

end ClassGraph

end Linkage
