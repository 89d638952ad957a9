import Linkage.Graph.FieldSite
import Linkage.Proofs.Linking

namespace Linkage

open Outcome

variable {α β : Type} {allowed : LinkOptions → Prop} {options : LinkOptions}

namespace Linking

def result (x : Linking α) (g : ClassGraph) : Except LinkError α × ClassGraph :=
  (ExceptT.run x).run g

theorem result_bind (x : Linking α) (k : α → Linking β) (g : ClassGraph) :
    (x >>= k).result g =
      match x.result g with
      | (.ok a, g') => (k a).result g'
      | (.error e, g') => (.error e, g') := by
  change (match x.result g with
    | (out, g') => ExceptT.bindCont k out g') = _
  cases x.result g with
  | mk out g' => cases out <;> rfl

theorem of_bind_ok {x : Linking α} {k : α → Linking β} {g g' : ClassGraph} {b : β}
    (h : (x >>= k).result g = (.ok b, g')) :
    ∃ a mid, x.result g = (.ok a, mid) ∧ (k a).result mid = (.ok b, g') := by
  rw [result_bind] at h
  split at h
  next a mid hx => exact ⟨a, mid, hx, h⟩
  next => cases congrArg Prod.fst h

structure Ensures (allowed : LinkOptions → Prop) (g : ClassGraph) (x : Linking α)
    (post : α → ClassGraph → Prop) : Prop where
  coherent : (x.result g).2.Coherent allowed
  advances : g.Advances (x.result g).2
  post : ∀ a, (x.result g).1 = .ok a → post a (x.result g).2

variable {g : ClassGraph} {x : Linking α} {k : α → Linking β} {post : α → ClassGraph → Prop}
  {post' : β → ClassGraph → Prop}

theorem Ensures.pure (hg : g.Coherent allowed) {a : α} (ha : post a g) :
    Ensures allowed g (pure a : Linking α) post :=
  ⟨hg, .refl g, fun _ h => Except.ok.inj h ▸ ha⟩

theorem Ensures.throw (hg : g.Coherent allowed) (e : LinkError) :
    Ensures allowed g (throw e : Linking α) post :=
  ⟨hg, .refl g, fun _ h => by cases h⟩

theorem Ensures.get (hg : g.Coherent allowed) :
    Ensures allowed g (get : Linking ClassGraph) fun a g' => a = g ∧ g' = g :=
  ⟨hg, .refl g, fun _ h => ⟨(Except.ok.inj h).symm, rfl⟩⟩

theorem Ensures.ofExcept (hg : g.Coherent allowed) {out : Except LinkError α}
    (hout : ∀ a, out = .ok a → post a g) : Ensures allowed g (liftM out : Linking α) post := by
  cases out with
  | ok a => exact .pure hg (hout a rfl)
  | error e => exact .throw hg e

theorem Ensures.bind (hx : Ensures allowed g x post)
    (hk : ∀ a g', g'.Coherent allowed → g.Advances g' → post a g' →
      Ensures allowed g' (k a) post') : Ensures allowed g (x >>= k) post' := by
  obtain ⟨hcoherent, hadvances, hpost⟩ := hx
  cases hrun : x.result g with
  | mk out g' =>
      rw [hrun] at hcoherent hadvances hpost
      cases out with
      | ok a =>
          have hnext := hk a g' hcoherent hadvances (hpost a rfl)
          have hresult : (x >>= k).result g = (k a).result g' := by
            rw [result_bind, hrun]
          refine ⟨?_, ?_, ?_⟩
          · rw [hresult]
            exact hnext.coherent
          · rw [hresult]
            exact hadvances.trans hnext.advances
          · rw [hresult]
            exact hnext.post
      | error e =>
          have hresult : (x >>= k).result g = (.error e, g') := by
            rw [result_bind, hrun]
          refine ⟨?_, ?_, ?_⟩
          · rw [hresult]
            exact hcoherent
          · rw [hresult]
            exact hadvances
          · rw [hresult]
            intro b hb
            cases hb

theorem Ensures.weaken {post' : α → ClassGraph → Prop} (hx : Ensures allowed g x post)
    (h : ∀ a g', g.Advances g' → post a g' → post' a g') : Ensures allowed g x post' :=
  ⟨hx.coherent, hx.advances, fun a ha => h a _ hx.advances (hx.post a ha)⟩

end Linking

namespace ClassGraph

open Linking

variable {g : ClassGraph}

theorem link_ensures (hg : g.Coherent allowed) (hallowed : allowed options) (id : ClassId) :
    Ensures allowed g (link options id) fun _ g' => g'.Known id := by
  have h := linkWithin_links hallowed (g.size + 1) id g hg
  exact ⟨h.coherent, h.advances, fun _ hok => h.known hok id (by simp)⟩

theorem forM_ensures {ids : List ClassId} {step : ClassId → Linking Unit}
    (hstep : ∀ id g, g.Coherent allowed → Ensures allowed g (step id) fun _ _ => True)
    (hg : g.Coherent allowed) : Ensures allowed g (ids.forM step) fun _ _ => True := by
  induction ids generalizing g with
  | nil => exact .pure hg trivial
  | cons id rest ih => exact (hstep id g hg).bind fun _ g' hg' _ _ => ih hg'

theorem linkName_ensures (hg : g.Coherent allowed) (hallowed : allowed options) (name : String) :
    Ensures allowed g (linkName options name) fun id g' => g'.Known id := by
  refine (Ensures.get hg).bind fun _ g' hg' _ _ => ?_
  split
  next id _ =>
    exact (link_ensures hg' hallowed id).bind fun _ g'' hg'' _ hknown => .pure hg'' hknown
  next => exact .throw hg' _

theorem linkAll_ensures (hg : g.Coherent allowed) (hallowed : allowed options) (origin : Origin) :
    Ensures allowed g (linkAll options origin) fun _ _ => True := by
  refine (Ensures.get hg).bind fun _ g1 hg1 _ _ => ?_
  refine (Ensures.get hg1).bind fun _ g2 hg2 _ _ => ?_
  refine Ensures.bind (forM_ensures (fun id h hh => ?_) hg2) fun _ g3 hg3 _ _ => ?_
  · exact (link_ensures hh hallowed id).weaken fun _ _ _ _ => trivial
  · exact (Ensures.get hg3).bind fun _ g4 hg4 _ _ => .pure hg4 trivial

theorem resolveClass_ensures (hg : g.Coherent allowed) (hallowed : allowed options)
    (current : ClassId) (name : String) :
    Ensures allowed g (resolveClass options current name) fun owner g' => g'.Known owner := by
  refine (Ensures.get hg).bind fun _ g1 hg1 _ _ => ?_
  refine (Ensures.get hg1).bind fun _ g2 hg2 _ _ => ?_
  split
  next => exact .throw hg2 _
  next id _ =>
    refine (link_ensures hg2 hallowed id).bind fun _ g3 hg3 _ hknown => ?_
    refine (Ensures.get hg3).bind fun _ g4 hg4 _ hsame => ?_
    obtain ⟨-, rfl⟩ := hsame
    split
    next => exact .pure hg4 hknown
    next => exact .throw hg4 _

theorem arrayTarget_ok {site : CallSite} {target : CallTarget} (h : arrayTarget site = .ok target) :
    target = .arrayClone := by
  unfold arrayTarget at h
  split at h
  · cases h
  · split at h
    · exact (Except.ok.inj h).symm
    · cases h

theorem resolveCall_ensures (hg : g.Coherent allowed) (hallowed : allowed options)
    (current : ClassId) (site : CallSite) :
    Ensures allowed g (resolveCall options current site) fun target g' =>
      target = .arrayClone ∨ ∃ owner, g'.Known owner ∧
        g'.selectCall current owner site = .ok target := by
  refine (link_ensures hg hallowed current).bind fun _ g1 hg1 _ _ => ?_
  split
  next =>
    split
    next target harray =>
      exact .pure hg1 (.inl (arrayTarget_ok harray))
    next => exact (Ensures.get hg1).bind fun _ g2 hg2 _ _ => .throw hg2 _
  next =>
    refine (resolveClass_ensures hg1 hallowed current site.owner).bind fun owner g2 hg2 _ hknown => ?_
    refine (Ensures.get hg2).bind fun _ g3 hg3 _ hsame => ?_
    obtain ⟨rfl, rfl⟩ := hsame
    exact .ofExcept hg3 fun target htarget => .inr ⟨owner, hknown, htarget⟩

theorem resolveFieldAccess_ensures (hg : g.Coherent allowed) (hallowed : allowed options)
    (current : ClassId) (method : MethodRef) (site : FieldSite) :
    Ensures allowed g (resolveFieldAccess options current method site) fun target g' =>
      ∃ owner, g'.Known owner ∧ g'.selectField current method owner site = .ok target := by
  refine (link_ensures hg hallowed current).bind fun _ g1 hg1 _ _ => ?_
  refine (resolveClass_ensures hg1 hallowed current site.owner).bind fun owner g2 hg2 _ hknown => ?_
  refine (Ensures.get hg2).bind fun _ g3 hg3 _ hsame => ?_
  obtain ⟨rfl, rfl⟩ := hsame
  exact .ofExcept hg3 fun target htarget => ⟨owner, hknown, htarget⟩

theorem coherent_empty : empty.Coherent allowed := by
  have hunknown : ∀ {id}, ¬empty.Known id := fun {id} => by
    rintro ⟨info, hinfo⟩
    cases hinfo
  exact {
    self := fun h => absurd (known_of_info h) hunknown
    known := fun h => absurd (direct_known h) hunknown
    superKind := fun h => absurd (direct_known (direct_of_superClass h)) hunknown
    interfaceKind := fun h => absurd (known_of_info h) hunknown
    acyclic := ⟨fun _ => 0, fun _ _ h => absurd (direct_known h) hunknown⟩
    distinct := fun h => absurd (known_of_info h) hunknown
    undrafted := fun h => by cases h
    finished := fun h => absurd (known_of_info h) hunknown }

variable {record : ClassRecord} {origin : Origin}

theorem slot?_add (g : ClassGraph) (record : ClassRecord) (origin : Origin) (id : ClassId) :
     (g.add record origin).2.slot? id = g.slot? id ∨
    g.slot? id = none ∧
      (g.add record origin).2.slot? id = some ⟨record, origin, .unlinked⟩ := by
  unfold add
  split
  next => exact .inl rfl
  next =>
    simp only [slot?, Array.getElem?_push]
    split
    next hlast => exact .inr ⟨Array.getElem?_eq_none hlast.ge, rfl⟩
    next => exact .inl rfl

theorem status_add (id : ClassId) : (g.add record origin).2.status id = g.status id := by
  unfold status
  rcases slot?_add g record origin id with hsame | ⟨hnone, hnew⟩
  · rw [hsame]
  · rw [hnone, hnew]

theorem advances_add : g.Advances (g.add record origin).2 where
  size_le := by
    unfold add
    split
    · exact Nat.le_refl _
    · simp [size]
  slot := by
    intro id slot hslot
    rcases slot?_add g record origin id with hsame | ⟨hnone, -⟩
    · exact ⟨slot.status, hsame.trans hslot⟩
    · rw [hnone] at hslot
      cases hslot
  info := fun h => by rw [info?, status_add, ← info?, h]
  status := fun id => .inl (status_add id)

theorem Coherent.add (hg : g.Coherent allowed) : (g.add record origin).2.Coherent allowed := by
  refine hg.congr advances_add.toRetains (fun id => ?_) fun {id info} => ?_
  · rw [info?, status_add, info?]
  · rw [status_add]
    exact hg.undrafted

end ClassGraph

inductive Operation where
  | add (record : ClassRecord) (origin : Origin)
  | link (options : LinkOptions) (id : ClassId)
  | linkName (options : LinkOptions) (name : String)
  | linkAll (options : LinkOptions) (origin : Origin)
  | resolveCall (options : LinkOptions) (current : ClassId) (site : CallSite)
  | resolveFieldAccess (options : LinkOptions) (current : ClassId) (method : MethodRef)
      (site : FieldSite)

namespace Operation

def run : Operation → ClassGraph → ClassGraph
  | add record origin, g => (g.add record origin).2
  | link options id, g => ((ClassGraph.link options id).result g).2
  | linkName options name, g => ((ClassGraph.linkName options name).result g).2
  | linkAll options origin, g => ((ClassGraph.linkAll options origin).result g).2
  | resolveCall options current site, g => ((ClassGraph.resolveCall options current site).result g).2
  | resolveFieldAccess options current method site, g =>
      ((ClassGraph.resolveFieldAccess options current method site).result g).2

def Uses (allowed : LinkOptions → Prop) : Operation → Prop
  | add _ _ => True
  | link options _ => allowed options
  | linkName options _ => allowed options
  | linkAll options _ => allowed options
  | resolveCall options _ _ => allowed options
  | resolveFieldAccess options _ _ _ => allowed options

theorem run_keeps {g : ClassGraph} {op : Operation} (hop : op.Uses allowed)
    (hg : g.Coherent allowed) : (op.run g).Coherent allowed ∧ g.Advances (op.run g) := by
  cases op with
  | add record origin => exact ⟨hg.add, ClassGraph.advances_add⟩
  | link options id =>
      have h := ClassGraph.link_ensures hg hop id
      exact ⟨h.coherent, h.advances⟩
  | linkName options name =>
      have h := ClassGraph.linkName_ensures hg hop name
      exact ⟨h.coherent, h.advances⟩
  | linkAll options origin =>
      have h := ClassGraph.linkAll_ensures hg hop origin
      exact ⟨h.coherent, h.advances⟩
  | resolveCall options current site =>
      have h := ClassGraph.resolveCall_ensures hg hop current site
      exact ⟨h.coherent, h.advances⟩
  | resolveFieldAccess options current method site =>
      have h := ClassGraph.resolveFieldAccess_ensures hg hop current method site
      exact ⟨h.coherent, h.advances⟩

end Operation

namespace ClassGraph

def Step (allowed : LinkOptions → Prop) (g g' : ClassGraph) : Prop :=
  ∃ op : Operation, op.Uses allowed ∧ op.run g = g'

def Reaches (allowed : LinkOptions → Prop) : ClassGraph → ClassGraph → Prop :=
  Relation.ReflTransGen (Step allowed)

def Reachable (allowed : LinkOptions → Prop) (g : ClassGraph) : Prop :=
  Reaches allowed empty g ∨ Reaches allowed minimal g

variable {g g' : ClassGraph}

theorem Reaches.keeps (h : Reaches allowed g g') (hg : g.Coherent allowed) :
    g'.Coherent allowed ∧ g.Advances g' := by
  induction h with
  | refl => exact ⟨hg, .refl g⟩
  | tail _ hstep ih =>
      obtain ⟨op, hop, rfl⟩ := hstep
      obtain ⟨hcoherent, hadvances⟩ := op.run_keeps hop ih.1
      exact ⟨hcoherent, ih.2.trans hadvances⟩

theorem Reachable.coherent (h : Reachable allowed g) : g.Coherent allowed := by
  rcases h with h | h
  · exact (h.keeps coherent_empty).1
  · exact (h.keeps coherent_empty.add).1

def after (g : ClassGraph) (ops : List Operation) : ClassGraph :=
  ops.foldl (fun g op => op.run g) g

theorem reaches_after {ops : List Operation} (h : ∀ op ∈ ops, op.Uses allowed) :
    Reaches allowed g (g.after ops) := by
  induction ops generalizing g with
  | nil => exact .refl
  | cons op rest ih =>
      obtain ⟨hop, hrest⟩ := List.forall_mem_cons.mp h
      exact .head ⟨op, hop, rfl⟩ (ih hrest)

def program (records : List ClassRecord) (id : ClassId) : ClassGraph :=
  minimal.after (records.map (.add · .application) ++ [.link {} id])

theorem reachable_program_of (h : allowed {}) (records : List ClassRecord) (id : ClassId) :
    Reachable allowed (program records id) := by
  refine .inr (reaches_after fun op hop => ?_)
  rcases List.mem_append.mp hop with hadd | hlink
  · obtain ⟨record, -, rfl⟩ := List.mem_map.mp hadd
    trivial
  · rw [List.mem_singleton.mp hlink]
    exact h

theorem reachable_program (records : List ClassRecord) (id : ClassId) :
    Reachable (fun _ => True) (program records id) :=
  reachable_program_of trivial records id

theorem linked_of_isLinked {id : ClassId} (h : g.isLinked id = true) :
    ∃ info, g.status id = .linked info := by
  unfold isLinked at h
  cases hstatus : g.status id with
  | linked info => exact ⟨info, rfl⟩
  | unlinked => simp [hstatus, Status.isLinked] at h
  | linking => simp [hstatus, Status.isLinked] at h
  | drafted info => simp [hstatus, Status.isLinked] at h

theorem linkedClass_of {id : ClassId} (hlinked : g.isLinked id = true)
    (hclass : g.isInterface id = false) :
    ∃ info, g.status id = .linked info ∧ info.isInterface = false := by
  obtain ⟨info, hinfo⟩ := linked_of_isLinked hlinked
  exact ⟨info, hinfo, (isInterface_eq (known_of_linked hinfo)).symm.trans hclass⟩

end ClassGraph
end Linkage
