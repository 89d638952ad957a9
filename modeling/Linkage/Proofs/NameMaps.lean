import Linkage.Proofs.Registration

namespace Linkage

-- The graph as it is kept: next to the classes there is one map of names for each origin, and names
-- are looked up there and nowhere else.
structure NamedGraph where
  graph : ClassGraph
  runtime : Std.HashMap String ClassId
  application : Std.HashMap String ClassId

namespace ClassGraph

variable {g : ClassGraph} {id : ClassId} {origin : Origin} {name : String} {record : ClassRecord}

theorem find?_push (g : ClassGraph) (slot : Slot) (origin : Origin) (name : String) :
    (⟨g.slots.push slot⟩ : ClassGraph).find? origin name = (g.find? origin name).or
      (if slot.origin = origin ∧ slot.record.name = name then some ⟨g.size⟩ else none) := by
  rw [find?, find?, Array.findIdx?_push, Option.map_or]
  congr 1
  by_cases h : slot.origin = origin ∧ slot.record.name = name
  · simp [h, size]
  · simp only [h, if_false, ← Bool.decide_and, decide_eq_true_eq, Option.map_none]

theorem Distinct.find?_iff (hg : g.Distinct) :
    g.find? origin name = some id ↔ g.origin? id = some origin ∧ g.name id = name := by
  constructor
  · intro h
    obtain ⟨slot, hslot, horigin, hname⟩ := find_slot h
    simp [origin?, ClassGraph.name, hslot, horigin, hname]
  · rintro ⟨horigin, rfl⟩
    obtain ⟨slot, hslot, rfl⟩ := Option.map_eq_some_iff.mp horigin
    have hname : g.name id = slot.record.name := by simp [ClassGraph.name, hslot]
    rw [hname]
    cases hfound : g.find? slot.origin slot.record.name with
    | none =>
        have hmem : slot ∈ g.slots := Array.mem_of_getElem? hslot
        exact absurd ⟨rfl, rfl⟩ (find?_eq_none_iff.mp hfound slot hmem)
    | some found =>
        obtain ⟨other, hother, horigin', hname'⟩ := find_slot hfound
        rw [hg hother hslot horigin' hname']

end ClassGraph

namespace NamedGraph

variable {r : NamedGraph} {id : ClassId} {origin : Origin} {name : String} {record : ClassRecord}

def empty : NamedGraph := ⟨.empty, ∅, ∅⟩

def names (r : NamedGraph) : Origin → Std.HashMap String ClassId
  | .runtime => r.runtime
  | .application => r.application

def register (r : NamedGraph) (name : String) (id : ClassId) : Origin → NamedGraph
  | .runtime => { r with runtime := r.runtime.insert name id }
  | .application => { r with application := r.application.insert name id }

def add (r : NamedGraph) (record : ClassRecord) (origin : Origin) : ClassId × NamedGraph :=
  match (r.names origin)[record.name]? with
  | some id => (id, r)
  | none =>
      let id := ⟨r.graph.size⟩
      let graph := ⟨r.graph.slots.push ⟨record, origin, .unlinked⟩⟩
      (id, { r with graph }.register record.name id origin)

def lookup (r : NamedGraph) (name : String) : Option ClassId :=
  r.application[name]?.or r.runtime[name]?

def classes (r : NamedGraph) (origin : Origin) : List ClassId :=
  ((r.names origin).toList.mergeSort fun a b => !(b.1 < a.1)).map (·.2)

def run (r : NamedGraph) : Operation → NamedGraph
  | .add record origin => (r.add record origin).2
  | op => { r with graph := op.run r.graph }

def after (r : NamedGraph) (ops : List Operation) : NamedGraph :=
  ops.foldl run r

def Indexed (r : NamedGraph) : Prop :=
  ∀ origin name, (r.names origin)[name]? = r.graph.find? origin name

theorem names_of_graph (r : NamedGraph) (graph : ClassGraph) (o : Origin) :
    ({ r with graph } : NamedGraph).names o = r.names o := by
  cases o <;> rfl

theorem names_register (r : NamedGraph) (name : String) (id : ClassId) (origin o : Origin) :
    (r.register name id origin).names o =
      if o = origin then (r.names o).insert name id else r.names o := by
  cases origin <;> cases o <;> rfl

theorem graph_register (r : NamedGraph) (name : String) (id : ClassId) (origin : Origin) :
    (r.register name id origin).graph = r.graph := by
  cases origin <;> rfl

theorem Indexed.add_eq (h : r.Indexed) (record : ClassRecord) (origin : Origin) :
    (r.add record origin).1 = (r.graph.add record origin).1 ∧
      (r.add record origin).2.graph = (r.graph.add record origin).2 := by
  rw [add, ClassGraph.add, h]
  cases r.graph.find? origin record.name with
  | some id => exact ⟨rfl, rfl⟩
  | none => exact ⟨rfl, graph_register _ _ _ _⟩

theorem Indexed.add (h : r.Indexed) (record : ClassRecord) (origin : Origin) :
    (r.add record origin).2.Indexed := by
  intro o name
  cases hfound : r.graph.find? origin record.name with
  | some id =>
      have hsame : (r.add record origin).2 = r := by rw [NamedGraph.add, h, hfound]
      rw [hsame]
      exact h o name
  | none =>
      have hnew : (r.add record origin).2 =
          { r with graph := ⟨r.graph.slots.push ⟨record, origin, .unlinked⟩⟩ }.register record.name
            ⟨r.graph.size⟩ origin := by
        rw [NamedGraph.add, h, hfound]
      rw [hnew, names_register, graph_register, names_of_graph, ClassGraph.find?_push]
      by_cases ho : o = origin
      · subst ho
        rw [if_pos rfl, Std.HashMap.getElem?_insert, h]
        by_cases hname : record.name = name
        · subst hname
          simp [hfound]
        · simp [hname]
      · rw [if_neg ho, if_neg fun hsame => ho hsame.1.symm, Option.or_none, h]

theorem run_eq (op : Operation) (hop : op.definition? = none) :
    r.run op = { r with graph := op.run r.graph } ∧ (op.run r.graph).declared = r.graph.declared := by
  have hdeclared := ClassGraph.declared_run op r.graph
  rw [hop] at hdeclared
  refine ⟨?_, hdeclared.trans (List.append_nil _)⟩
  cases op with
  | add record origin => cases hop
  | _ => rfl

theorem Indexed.run (h : r.Indexed) (op : Operation) :
    (r.run op).graph = op.run r.graph ∧ (r.run op).Indexed := by
  cases hop : op.definition? with
  | none =>
      obtain ⟨hrun, hdeclared⟩ := run_eq (r := r) op hop
      rw [hrun]
      refine ⟨rfl, fun origin name => ?_⟩
      rw [ClassGraph.find?_congr hdeclared]
      exact h origin name
  | some c =>
      cases op with
      | add record origin => exact ⟨(h.add_eq record origin).2, h.add record origin⟩
      | _ => cases hop

theorem after_indexed (ops : List Operation) :
    (empty.after ops).graph = ClassGraph.empty.after ops ∧ (empty.after ops).Indexed := by
  induction ops using List.reverseRecOn with
  | nil =>
      refine ⟨rfl, fun origin name => ?_⟩
      cases origin <;> simp [after, empty, names, ClassGraph.find?, ClassGraph.empty]
  | append_singleton ops op ih =>
      obtain ⟨hgraph, hindexed⟩ := ih
      have hrun : empty.after (ops ++ [op]) = (empty.after ops).run op := List.foldl_concat _ _ _ _
      have hstep : ClassGraph.empty.after (ops ++ [op]) = op.run (ClassGraph.empty.after ops) :=
        List.foldl_concat _ _ _ _
      rw [hrun, hstep, ← hgraph]
      exact hindexed.run op

theorem Indexed.lookup_eq (h : r.Indexed) (name : String) : r.lookup name = r.graph.lookup name := by
  rw [lookup, ClassGraph.lookup, ← h, ← h]
  rfl

theorem Indexed.mem_toList_iff (h : r.Indexed) (hg : r.graph.Distinct) :
    (name, id) ∈ (r.names origin).toList ↔
      r.graph.origin? id = some origin ∧ r.graph.name id = name := by
  rw [Std.HashMap.mem_toList_iff_getElem?_eq_some, h, hg.find?_iff]

theorem classes_perm (r : NamedGraph) (origin : Origin) :
    (r.classes origin).Perm ((r.names origin).toList.map (·.2)) :=
  (List.mergeSort_perm _ _).map _

theorem Indexed.mem_classes_iff (h : r.Indexed) (hg : r.graph.Distinct) :
    id ∈ r.classes origin ↔ r.graph.origin? id = some origin := by
  rw [(r.classes_perm origin).mem_iff, List.mem_map]
  constructor
  · rintro ⟨p, hp, rfl⟩
    exact ((h.mem_toList_iff hg).mp hp).1
  · exact fun horigin => ⟨(r.graph.name id, id), (h.mem_toList_iff hg).mpr ⟨horigin, rfl⟩, rfl⟩

theorem Indexed.nodup_classes (h : r.Indexed) (hg : r.graph.Distinct) (origin : Origin) :
    (r.classes origin).Nodup := by
  rw [(r.classes_perm origin).nodup_iff, List.Nodup, List.pairwise_map]
  refine Std.HashMap.distinct_keys_toList.imp_of_mem fun {a b} ha hb hab hid => ?_
  rw [beq_eq_false_iff_ne, ← ((h.mem_toList_iff hg).mp ha).2, ← ((h.mem_toList_iff hg).mp hb).2,
    hid] at hab
  exact hab rfl

theorem Indexed.pairwise_classes (h : r.Indexed) (hg : r.graph.Distinct) (origin : Origin) :
    (r.classes origin).Pairwise fun a b => r.graph.before a b = true := by
  rw [classes, List.pairwise_map]
  refine (ClassGraph.pairwise_sortByName Prod.fst _).imp_of_mem fun {a b} ha hb hab => ?_
  rw [List.mem_mergeSort] at ha hb
  rwa [ClassGraph.before_iff, ((h.mem_toList_iff hg).mp ha).2, ((h.mem_toList_iff hg).mp hb).2]

theorem Indexed.classes_eq (h : r.Indexed) (hg : r.graph.Distinct) (origin : Origin) :
    r.classes origin = r.graph.classes origin := by
  refine hg.eq_classes ?_ (h.pairwise_classes hg origin)
  refine (List.perm_ext_iff_of_nodup (h.nodup_classes hg origin)
    (r.graph.nodup_classes origin)).mpr fun id => ?_
  rw [h.mem_classes_iff hg, ClassGraph.mem_classes_iff]

-- Linking keeps what is declared, so that the names it looks up on its way are in the maps it began
-- with.
theorem maps_refine_the_arena (ops : List Operation) :
    (empty.after ops).graph = ClassGraph.empty.after ops ∧
    (∀ g : ClassGraph, g.declared = (ClassGraph.empty.after ops).declared →
      ∀ name, (empty.after ops).lookup name = g.lookup name) ∧
    (∀ origin, (empty.after ops).classes origin = (ClassGraph.empty.after ops).classes origin) ∧
    ∀ record origin,
      ((empty.after ops).add record origin).1 =
          ((ClassGraph.empty.after ops).add record origin).1 ∧
        ((empty.after ops).add record origin).2.graph =
          ((ClassGraph.empty.after ops).add record origin).2 := by
  obtain ⟨hgraph, hindexed⟩ := after_indexed ops
  have hdistinct : (ClassGraph.empty.after ops).Distinct :=
    ClassGraph.distinct_of_nodup (ClassGraph.declared_after ops ▸ ClassGraph.nodup_firsts _)
  refine ⟨hgraph, fun g hg name => ?_, fun origin => ?_, fun record origin => ?_⟩
  · rw [hindexed.lookup_eq, hgraph, ClassGraph.lookup_congr hg]
  · rw [hindexed.classes_eq (hgraph ▸ hdistinct), hgraph]
  · exact hgraph ▸ hindexed.add_eq record origin

end NamedGraph

end Linkage
