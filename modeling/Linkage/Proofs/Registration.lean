import Linkage.Proofs.History
import Linkage.Proofs.InsertionOrder

namespace Linkage

open Linking

def Operation.definition? : Operation → Option (ClassRecord × Origin)
  | add record origin => some (record, origin)
  | _ => none

namespace ClassGraph

variable {g : ClassGraph} {cs : List (ClassRecord × Origin)} {c d : ClassRecord × Origin}
  {origin : Origin} {name : String} {record : ClassRecord} {options : LinkOptions}

def definitions (ops : List Operation) : List (ClassRecord × Origin) :=
  ops.filterMap Operation.definition?

def isNamed (origin : Origin) (name : String) (c : ClassRecord × Origin) : Bool :=
  c.2 = origin && c.1.name = name

def firsts : List (ClassRecord × Origin) → List (ClassRecord × Origin)
  | [] => []
  | c :: rest => c :: (firsts rest).filter fun d => !isNamed c.2 c.1.name d

def isNew (cs : List (ClassRecord × Origin)) (c : ClassRecord × Origin) : Bool :=
  (cs.find? (isNamed c.2 c.1.name)).isNone

theorem isNamed_iff : isNamed origin name c = true ↔ c.2 = origin ∧ c.1.name = name := by
  rw [isNamed, Bool.and_eq_true, decide_eq_true_eq, decide_eq_true_eq]

theorem isNamed_of_same (hc : isNamed origin name c = true) (hd : isNamed c.2 c.1.name d = true) :
    isNamed origin name d = true := by
  obtain ⟨rfl, rfl⟩ := isNamed_iff.mp hc
  exact hd

theorem isNamed_comm (c d : ClassRecord × Origin) :
    isNamed c.2 c.1.name d = isNamed d.2 d.1.name c := by
  rw [Bool.eq_iff_iff, isNamed_iff, isNamed_iff, eq_comm, @eq_comm _ d.1.name]

theorem find?_firsts (cs : List (ClassRecord × Origin)) (origin : Origin) (name : String) :
    (firsts cs).find? (isNamed origin name) = cs.find? (isNamed origin name) := by
  induction cs with
  | nil => rfl
  | cons c rest ih =>
      rw [firsts]
      by_cases hc : isNamed origin name c = true
      · rw [List.find?_cons_of_pos hc, List.find?_cons_of_pos hc]
      · -- No definition of the wanted name has that of `c`, so that none is filtered out.
        rw [List.find?_cons_of_neg hc, List.find?_cons_of_neg hc, List.find?_filter, ← ih]
        congr 1
        funext d
        by_cases hd : isNamed origin name d = true
        · have hother : isNamed c.2 c.1.name d = false := by
            by_contra hsame
            rw [Bool.not_eq_false, isNamed_comm] at hsame
            exact hc (isNamed_of_same hd hsame)
          simp [hd, hother]
        · simp [hd]

theorem isNew_firsts (cs : List (ClassRecord × Origin)) : isNew (firsts cs) = isNew cs := by
  funext c
  rw [isNew, isNew, find?_firsts]

theorem isNew_cons (b : ClassRecord × Origin) (rest : List (ClassRecord × Origin))
    (c : ClassRecord × Origin) :
    isNew (b :: rest) c = (!isNamed b.2 b.1.name c && isNew rest c) := by
  rw [isNew, List.find?_cons, isNamed_comm]
  cases isNamed b.2 b.1.name c <;> rfl

theorem firsts_concat (cs : List (ClassRecord × Origin)) (c : ClassRecord × Origin) :
    firsts (cs ++ [c]) = firsts cs ++ [c].filter (isNew cs) := by
  induction cs with
  | nil => rfl
  | cons b rest ih =>
      have hnew : isNew (b :: rest) = fun c => !isNamed b.2 b.1.name c && isNew rest c :=
        funext (isNew_cons b rest)
      rw [List.cons_append, firsts, ih, List.filter_append, List.filter_filter, firsts, hnew,
        List.cons_append]

theorem nodup_firsts (cs : List (ClassRecord × Origin)) : (originNames (firsts cs)).Nodup := by
  induction cs with
  | nil => exact .nil
  | cons c rest ih =>
      have hrest : (originNames ((firsts rest).filter fun d => !isNamed c.2 c.1.name d)).Nodup :=
        ih.sublist (List.filter_sublist.map _)
      refine List.nodup_cons.mpr ⟨fun hmem => ?_, hrest⟩
      obtain ⟨d, hd, hkey⟩ := List.mem_map.mp hmem
      obtain ⟨horigin, hname⟩ := Prod.mk.inj hkey
      have hsame : isNamed c.2 c.1.name d = true := isNamed_iff.mpr ⟨horigin, hname⟩
      simp [hsame] at hd

theorem find?_iff_declared (hg : (originNames g.declared).Nodup) {id : ClassId} :
    g.find? origin name = some id ↔
      ∃ c, g.declared.find? (isNamed origin name) = some c ∧ g.declared[id.index]? = some c := by
  rw [find?_eq_declared, Option.map_eq_some_iff]
  constructor
  · rintro ⟨n, hn, rfl⟩
    obtain ⟨c, hc, -⟩ := of_findIdx? hn
    exact ⟨c, (find?_of_findIdx? hn).trans hc, hc⟩
  · rintro ⟨c, hfound, hc⟩
    have hnamed := List.find?_some hfound
    refine ⟨id.index, findIdx?_of_unique hc hnamed fun {n d} hd hsame => ?_, rfl⟩
    obtain ⟨horigin, hname⟩ := isNamed_iff.mp hnamed
    obtain ⟨horigin', hname'⟩ := isNamed_iff.mp hsame
    exact place_unique hg hd hc (horigin'.trans horigin.symm) (hname'.trans hname.symm)

theorem find?_eq_none_iff_declared :
    g.find? origin name = none ↔ g.declared.find? (isNamed origin name) = none := by
  rw [find?_eq_declared, Option.map_eq_none_iff, List.findIdx?_eq_none_iff, List.find?_eq_none]
  simp [isNamed]

theorem declared_add (g : ClassGraph) (c : ClassRecord × Origin) :
    (g.add c.1 c.2).2.declared = g.declared ++ [c].filter (isNew g.declared) := by
  unfold add
  cases hfound : g.find? c.2 c.1.name with
  | none =>
      have hnew : isNew g.declared c = true := by
        rw [isNew, find?_eq_none_iff_declared.mp hfound]
        rfl
      rw [List.filter_cons_of_pos hnew]
      simp [declared]
  | some id =>
      have hold : ¬isNew g.declared c = true := by
        rw [isNew, Option.isNone_iff_eq_none, ← find?_eq_none_iff_declared, hfound]
        exact Option.some_ne_none id
      rw [List.filter_cons_of_neg hold]
      exact (List.append_nil _).symm

theorem link_declares (ds : List (ClassRecord × Origin)) (id : ClassId) :
    Keeps (fun g => g.declared = ds) (link options id) := by
  intro g hg
  have hspreads : g.Spreads [id] ((link options id).result g) :=
    linkWithin_spreads options (g.size + 1) id g
  exact hspreads.declared.trans hg

theorem declared_run (op : Operation) (g : ClassGraph) :
    (op.run g).declared = g.declared ++ op.definition?.toList.filter (isNew g.declared) := by
  have hlink : ∀ options, op.Resolves options → (op.run g).declared = g.declared :=
    fun options hop => hop.keeps (link_declares g.declared) rfl
  cases op with
  | add record origin => exact declared_add g (record, origin)
  | link options _ => exact (hlink options rfl).trans (List.append_nil _).symm
  | linkName options _ => exact (hlink options rfl).trans (List.append_nil _).symm
  | linkAll options _ => exact (hlink options rfl).trans (List.append_nil _).symm
  | resolveCall options _ _ => exact (hlink options rfl).trans (List.append_nil _).symm
  | resolveFieldAccess options _ _ _ => exact (hlink options rfl).trans (List.append_nil _).symm

theorem declared_prefix (g : ClassGraph) (ops : List Operation) :
    g.declared <+: (g.after ops).declared := by
  induction ops generalizing g with
  | nil => exact List.prefix_rfl
  | cons op rest ih =>
      have hstep : g.declared <+: (op.run g).declared := ⟨_, (declared_run op g).symm⟩
      exact hstep.trans (ih (op.run g))

theorem declared_after (ops : List Operation) :
    (empty.after ops).declared = firsts (definitions ops) := by
  induction ops using List.reverseRecOn with
  | nil => rfl
  | append_singleton ops op ih =>
      have hrun : empty.after (ops ++ [op]) = op.run (empty.after ops) := List.foldl_concat _ _ _ _
      rw [hrun, declared_run, ih, isNew_firsts, definitions, definitions, List.filterMap_append]
      cases hop : op.definition? with
      | none => simp [hop]
      | some c =>
          have hlast : [op].filterMap Operation.definition? = [c] := by simp [hop]
          rw [hlast, firsts_concat]
          rfl

structure Registers (g : ClassGraph) (cs : List (ClassRecord × Origin)) : Prop where
  size : g.size = (firsts cs).length
  record : ∀ id, g.record? id = ((firsts cs)[id.index]?).map (·.1)
  origin : ∀ id, g.origin? id = ((firsts cs)[id.index]?).map (·.2)
  lookup : ∀ name id, g.lookup name = some id ↔ ∃ c, (firsts cs)[id.index]? = some c ∧
    ((cs.find? (isNamed .application name)).or (cs.find? (isNamed .runtime name))) = some c
  taken : ∀ record origin c, cs.find? (isNamed origin record.name) = some c →
    ∃ id, (firsts cs)[id.index]? = some c ∧ g.add record origin = (id, g)
  new : ∀ record origin, cs.find? (isNamed origin record.name) = none →
    g.add record origin = (⟨g.size⟩, ⟨g.slots.push ⟨record, origin, .unlinked⟩⟩)
  apart : ∀ record origin id, (g.add record origin).2.status id = g.status id
  permanent : ∀ ops id, id.index < g.size → (g.after ops).record? id = g.record? id ∧
    (g.after ops).origin? id = g.origin? id ∧ (g.after ops).name id = g.name id
  listed : ∀ origin, (∀ id, id ∈ g.classes origin ↔ g.origin? id = some origin) ∧
    (g.classes origin).Nodup ∧ (g.classes origin).Pairwise fun a b => g.name a < g.name b

theorem lookup_iff_declared (hg : (originNames g.declared).Nodup) {id : ClassId} :
    g.lookup name = some id ↔ ∃ c, g.declared[id.index]? = some c ∧
      ((g.declared.find? (isNamed .application name)).or
        (g.declared.find? (isNamed .runtime name))) = some c := by
  rw [lookup, Option.or_eq_some_iff, find?_iff_declared hg, find?_iff_declared hg,
    find?_eq_none_iff_declared]
  constructor
  · rintro (⟨c, hfound, hc⟩ | ⟨hnone, c, hfound, hc⟩)
    · exact ⟨c, hc, by rw [hfound, Option.some_or]⟩
    · exact ⟨c, hc, by rw [hnone, Option.none_or, hfound]⟩
  · rintro ⟨c, hc, hfound⟩
    rcases Option.or_eq_some_iff.mp hfound with hfirst | ⟨hnone, hsecond⟩
    · exact .inl ⟨c, hfirst, hc⟩
    · exact .inr ⟨hnone, c, hsecond, hc⟩

theorem add_of_taken (h : g.declared.find? (isNamed origin record.name) = some c) :
    ∃ id, g.declared[id.index]? = some c ∧ g.add record origin = (id, g) := by
  cases hfound : g.find? origin record.name with
  | none =>
      rw [find?_eq_none_iff_declared.mp hfound] at h
      cases h
  | some id =>
      obtain ⟨n, hn, rfl⟩ := Option.map_eq_some_iff.mp (find?_eq_declared g origin _ ▸ hfound)
      exact ⟨⟨n⟩, (find?_of_findIdx? hn).symm.trans h, by rw [add, hfound]⟩

theorem add_of_new (h : g.declared.find? (isNamed origin record.name) = none) :
    g.add record origin = (⟨g.size⟩, ⟨g.slots.push ⟨record, origin, .unlinked⟩⟩) := by
  rw [add, find?_eq_none_iff_declared.mpr h]

theorem declared_of_after (g : ClassGraph) (ops : List Operation) {id : ClassId}
    (hid : id.index < g.size) : (g.after ops).declared[id.index]? = g.declared[id.index]? := by
  rw [size_eq_declared] at hid
  obtain ⟨more, hmore⟩ := declared_prefix g ops
  rw [← hmore, List.getElem?_append_left hid]

theorem distinct_of_nodup (hg : (originNames g.declared).Nodup) : g.Distinct := by
  intro a b s t ha hb horigin hname
  have hs : g.declared[a.index]? = some (s.record, s.origin) := by
    rw [declared_getElem?, ha, Option.map_some]
  have ht : g.declared[b.index]? = some (t.record, t.origin) := by
    rw [declared_getElem?, hb, Option.map_some]
  have hindex : a.index = b.index := place_unique hg hs ht horigin hname
  cases a
  cases b
  exact congrArg ClassId.mk hindex

theorem Distinct.sorted_classes (hg : g.Distinct) (origin : Origin) :
    (g.classes origin).Pairwise fun a b => g.name a < g.name b := by
  refine ((g.pairwise_classes origin).and (g.nodup_classes origin)).imp_of_mem ?_
  rintro a b ha hb ⟨hbefore, hne⟩
  rw [← String.not_le]
  intro hle
  exact hne (hg.eq_of_name ha hb (String.le_antisymm (before_iff.mp hbefore) hle))

theorem registers_of_declared (h : g.declared = firsts cs) : g.Registers cs := by
  have hdistinct : (originNames g.declared).Nodup := h ▸ nodup_firsts cs
  refine {
    size := by rw [size_eq_declared, h]
    record := fun id => by rw [record?_eq_declared, h]
    origin := fun id => by rw [origin?_eq_declared, h]
    lookup := fun name id => ?_, taken := fun record origin c hc => ?_
    new := fun record origin hnone => ?_, apart := fun record origin id => status_add id
    permanent := fun ops id hid => ?_
    listed := fun origin => ⟨fun id => mem_classes_iff, g.nodup_classes origin,
      (distinct_of_nodup hdistinct).sorted_classes origin⟩ }
  · rw [lookup_iff_declared hdistinct, h, find?_firsts, find?_firsts]
  · rw [← find?_firsts, ← h] at hc
    exact h ▸ add_of_taken hc
  · rw [← find?_firsts, ← h] at hnone
    exact add_of_new hnone
  · have hsame := declared_of_after g ops hid
    have hrecord : (g.after ops).record? id = g.record? id := by
      rw [record?_eq_declared, record?_eq_declared, hsame]
    refine ⟨hrecord, ?_, by rw [name_eq_record, name_eq_record, hrecord]⟩
    rw [origin?_eq_declared, origin?_eq_declared, hsame]

theorem graphs_register_first_definitions (ops : List Operation) :
    (empty.after ops).Registers (definitions ops) :=
  registers_of_declared (declared_after ops)

example : (empty.after [.add { name := "a/A" } .runtime, .linkName {} "a/A",
    .add { name := "a/A" } .application, .add { name := "a/A" } .runtime]).lookup "a/A" =
    some ⟨1⟩ := by
  decide +kernel

end ClassGraph

end Linkage
