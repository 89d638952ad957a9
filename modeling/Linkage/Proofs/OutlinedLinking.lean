import Linkage.Proofs.InsertionOrder
import Linkage.Proofs.OutlinedCalls

namespace Linkage

open Outcome Linking

variable {α β : Type} {options : LinkOptions}

namespace ClassGraph

variable {g h : ClassGraph} {id : ClassId} {slot : Slot} {supers : Supertypes} {name : String}

theorem resolveName_outline (g : ClassGraph) (record : ClassRecord) :
    g.outline.resolveName record.outline = g.resolveName record := by
  funext name
  simp only [resolveName, lookup_outline]
  rfl

theorem resolveSupertypes_outline (g : ClassGraph) (record : ClassRecord) :
    g.outline.resolveSupertypes options record.outline = g.resolveSupertypes options record := by
  simp only [resolveSupertypes, resolveName_outline]
  rfl

theorem checkSuperClass_outline (g : ClassGraph) (record : ClassRecord) :
    g.outline.checkSuperClass options id record.outline = g.checkSuperClass options id record := by
  funext superClass
  simp only [checkSuperClass, name_outline, canAccessClass_outline, isInterface_outline]
  rfl

theorem checkInterface_outline (g : ClassGraph) (record : ClassRecord) :
    g.outline.checkInterface id record.outline = g.checkInterface id record := by
  funext interface
  simp only [checkInterface, name_outline, canAccessClass_outline, isInterface_outline]
  rfl

theorem draft_outline (g : ClassGraph) (slot : Slot) (supers : Supertypes) :
    g.outline.draft options id slot.outline supers =
      (g.draft options id slot supers).map (·.outline) := by
  have hrecord : slot.outline.record = slot.record.outline := rfl
  have hinherited : supers.superClass.bind g.outline.info? =
      (supers.superClass.bind g.info?).map (·.outline) := by
    cases supers.superClass with
    | none => rfl
    | some sup => exact g.info?_outline
  simp only [draft, hrecord, checkSuperClass_outline, checkInterface_outline, resolveFields_outline,
    resolveMethods_outline, hinherited]
  cases supers.superClass.forM (g.checkSuperClass options id slot.record) with
  | error e => rfl
  | ok _ =>
      cases supers.interfaces.forM (g.checkInterface id slot.record) with
      | error e => rfl
      | ok _ =>
          cases resolveFields slot.record with
          | error e => rfl
          | ok fields =>
              cases resolveMethods slot.record with
              | error e => rfl
              | ok methods =>
                  have hstatics :=
                    Layout.place_outline id fields (·.access.isStatic) fun _ => rfl
                  have hinstances :=
                    Layout.place_outline id fields (!·.access.isStatic) fun _ => rfl
                  simp only [bind, Except.bind, pure, Except.pure, Except.map]
                  cases supers.superClass.bind g.info? <;>
                    simp [ClassInfo.outline, ClassRecord.outline, Slot.outline, Layout.statics,
                      Layout.instances, hstatics, hinstances]

theorem setStatus_outline (g : ClassGraph) (id : ClassId) (s : Status) :
    (g.setStatus id s).outline = g.outline.setStatus id s.outline := by
  refine congrArg ClassGraph.mk (Array.ext_getElem? fun n => ?_)
  simp only [setStatus, outline, Array.getElem?_map, Array.getElem?_modify]
  split
  · cases g.slots[n]? <;> rfl
  · rfl

theorem complete_outline (g : ClassGraph) (info : ClassInfo) :
    g.outline.complete options info.outline = (g.complete options info).map (·.outline) := by
  have hdrafted : g.outline.setStatus info.id (.drafted info.outline) =
      (g.setStatus info.id (.drafted info)).outline :=
    (g.setStatus_outline info.id (.drafted info)).symm
  simp only [complete, ClassInfo.isInterface_outline, ClassInfo.id_outline, hdrafted,
    buildVtable_outline]
  split
  · rfl
  · cases (g.setStatus info.id (.drafted info)).buildVtable info options.verifyVtables with
    | error e => rfl
    | ok vtable =>
        simp only [bind, Except.bind, Except.map, pure, Except.pure, buildInterfaceTable_outline]
        rfl

theorem finish_outline (g : ClassGraph) (slot : Slot) (supers : Supertypes) :
    g.outline.finish options id slot.outline supers =
      (g.finish options id slot supers).map (·.outline) := by
  simp only [finish, draft_outline]
  cases g.draft options id slot supers with
  | error e => rfl
  | ok draft => exact g.complete_outline draft

def Outlines (g h : ClassGraph) : Prop := h = g.outline

theorem outlines_outline (g : ClassGraph) : g.Outlines g.outline := rfl

theorem leave_outline {a b : Except LinkError Unit × ClassGraph} (hab : Agree Outlines a b) :
    Agree Outlines (leave options id slot supers a) (leave options id slot.outline supers b) := by
  obtain ⟨out, g⟩ := a
  obtain ⟨out', h⟩ := b
  obtain ⟨rfl, rfl⟩ : out = out' ∧ h = g.outline := ⟨hab.result, hab.related⟩
  cases out with
  | error e => exact ⟨rfl, (g.setStatus_outline id .unlinked).symm⟩
  | ok _ =>
      simp only [leave, finish_outline]
      cases g.finish options id slot supers with
      | error e => exact ⟨rfl, (g.setStatus_outline id .unlinked).symm⟩
      | ok info => exact ⟨rfl, (g.setStatus_outline id (.linked info)).symm⟩

theorem linkWithin_outline (depth : Nat) (id : ClassId) (g h : ClassGraph) (hgh : g.Outlines h) :
    Agree Outlines (linkWithin options depth id g) (linkWithin options depth id h) := by
  induction depth generalizing id g h with
  | zero =>
      subst hgh
      exact ⟨by simp only [linkWithin, name_outline], rfl⟩
  | succ depth ih =>
      subst hgh
      have hslot' : g.outline.slot? id = (g.slot? id).map (·.outline) := g.slot?_outline
      cases hslot : g.slot? id with
      | none =>
          rw [hslot, Option.map_none] at hslot'
          simp only [linkWithin, hslot, hslot', name_outline]
          exact ⟨rfl, rfl⟩
      | some slot =>
          rw [hslot, Option.map_some] at hslot'
          have hstatus := status_of_slot hslot
          cases hs : slot.status with
          | linked info =>
              simp only [linkWithin, hslot, hslot', Slot.outline, hs, Status.outline]
              exact ⟨rfl, rfl⟩
          | linking =>
              simp only [linkWithin, hslot, hslot', Slot.outline, hs, Status.outline, name_outline]
              exact ⟨rfl, rfl⟩
          | drafted info =>
              simp only [linkWithin, hslot, hslot', Slot.outline, hs, Status.outline, name_outline]
              exact ⟨rfl, rfl⟩
          | unlinked =>
              have hresolve : g.outline.resolveSupertypes options slot.outline.record =
                  g.resolveSupertypes options slot.record := g.resolveSupertypes_outline slot.record
              cases hsupers : g.resolveSupertypes options slot.record with
              | error e =>
                  rw [hsupers] at hresolve
                  have hs' : slot.outline.status = .unlinked := by rw [Slot.outline, hs]; rfl
                  simp only [linkWithin, hslot, hslot', hs, hs', hsupers, hresolve]
                  exact ⟨rfl, rfl⟩
              | ok supers =>
                  rw [hsupers] at hresolve
                  rw [linkWithin_enter hslot (hstatus.trans hs) hsupers,
                    linkWithin_enter hslot' (by rw [status_outline, hstatus, hs]; rfl) hresolve]
                  have hentered : (g.setStatus id .linking).Outlines
                      (g.outline.setStatus id .linking) := (g.setStatus_outline id .linking).symm
                  have hdependencies := linkEach_agree (f := fun c => c) ih
                    (supers.superClass.toList ++ supers.interfaces) hentered
                  rw [List.map_id'] at hdependencies
                  exact leave_outline hdependencies

theorem link_outline (g : ClassGraph) (id : ClassId) :
    Agree Outlines ((link options id).result g) ((link options id).result g.outline) := by
  have hlink : (link options id).result g.outline =
      linkWithin options (g.size + 1) id g.outline := by
    rw [← g.size_outline]
    rfl
  rw [hlink]
  exact linkWithin_outline (g.size + 1) id g g.outline rfl

theorem agree_bind_outline {x : Linking α} {k : α → Linking β}
    (hx : Agree Outlines (x.result g) (x.result g.outline))
    (hk : ∀ a g', Agree Outlines ((k a).result g') ((k a).result g'.outline)) :
    Agree Outlines ((x >>= k).result g) ((x >>= k).result g.outline) := by
  refine agree_bind hx fun a _ hnext => ?_
  rw [show (x.result g.outline).2 = (x.result g).2.outline from hnext]
  exact hk a _

theorem linkName_outline (g : ClassGraph) (name : String) :
    Agree Outlines ((linkName options name).result g)
      ((linkName options name).result g.outline) := by
  refine agree_read ?_
  rw [lookup_outline]
  cases g.lookup name with
  | none => exact agree_throw (outlines_outline _) _
  | some id =>
      exact agree_bind_outline (g.link_outline id) fun _ g' => agree_pure (outlines_outline g') id

theorem linkAll_outline (g : ClassGraph) (origin : Origin) :
    Agree Outlines ((linkAll options origin).result g)
      ((linkAll options origin).result g.outline) := by
  refine agree_read (agree_read ?_)
  rw [classes_outline, linkedCount_outline]
  have hlink : ∀ id g h, g.Outlines h →
      Agree Outlines ((link options id).result g) ((link options id).result h) := by
    rintro id g h rfl
    exact g.link_outline id
  have hforM := agree_forM (f := fun c => c) hlink (g.classes origin) (outlines_outline g)
  rw [List.map_id'] at hforM
  refine agree_bind_outline hforM fun _ g' => agree_read ?_
  rw [linkedCount_outline]
  exact agree_pure (outlines_outline _) _

theorem resolveClass_outline (g : ClassGraph) (current : ClassId) (name : String) :
    Agree Outlines ((resolveClass options current name).result g)
      ((resolveClass options current name).result g.outline) := by
  refine agree_read (agree_read ?_)
  rw [name_outline, lookup_outline]
  cases g.lookup name with
  | none => exact agree_throw (outlines_outline _) _
  | some id =>
      refine agree_bind_outline (g.link_outline id) fun _ g' => agree_read ?_
      rw [canAccessClass_outline]
      split
      · exact agree_pure (outlines_outline _) id
      · exact agree_throw (outlines_outline _) _

theorem resolveCall_outline (g : ClassGraph) (current : ClassId) (site : CallSite) :
    Agree Outlines ((resolveCall options current site).result g)
      ((resolveCall options current site).result g.outline) := by
  refine agree_bind_outline (g.link_outline current) fun _ g' => ?_
  split
  · cases arrayTarget site with
    | ok target => exact agree_pure (outlines_outline _) target
    | error fault =>
        refine agree_read ?_
        rw [name_outline]
        exact agree_throw (outlines_outline _) _
  · refine agree_bind_outline (g'.resolveClass_outline current site.owner) fun _ g'' =>
      agree_read ?_
    exact agree_ofExcept (outlines_outline _) g''.selectCall_outline.symm

theorem resolveFieldAccess_outline (g : ClassGraph) (current : ClassId) (method : MethodRef)
    (site : FieldSite) : Agree Outlines ((resolveFieldAccess options current method site).result g)
      ((resolveFieldAccess options current method site).result g.outline) := by
  refine agree_bind_outline (g.link_outline current) fun _ g' => ?_
  refine agree_bind_outline (g'.resolveClass_outline current site.owner) fun _ g'' =>
    agree_read ?_
  exact agree_ofExcept (outlines_outline _) (g''.selectField_outline method site).symm

theorem add_outline (g : ClassGraph) (record : ClassRecord) (origin : Origin) :
    g.outline.add record.outline origin =
      ((g.add record origin).1, (g.add record origin).2.outline) := by
  have hname : record.outline.name = record.name := rfl
  simp only [add, hname, find?_outline]
  cases g.find? origin record.name with
  | some id => rfl
  | none =>
      have hslot : Slot.mk record.outline origin .unlinked =
          Slot.outline ⟨record, origin, .unlinked⟩ := rfl
      rw [size_outline, hslot]
      simp only [outline, Array.map_push]

end ClassGraph

inductive Reply where
  | added (id : ClassId)
  | linked (out : Except LinkError Unit)
  | named (out : Except LinkError ClassId)
  | counted (out : Except LinkError Nat)
  | called (out : Except LinkError CallTarget)
  | accessed (out : Except LinkError FieldTarget)

namespace Operation

def reply : Operation → ClassGraph → Reply
  | add record origin, g => .added (g.add record origin).1
  | link options id, g => .linked ((ClassGraph.link options id).result g).1
  | linkName options name, g => .named ((ClassGraph.linkName options name).result g).1
  | linkAll options origin, g => .counted ((ClassGraph.linkAll options origin).result g).1
  | resolveCall options current site, g =>
      .called ((ClassGraph.resolveCall options current site).result g).1
  | resolveFieldAccess options current method site, g =>
      .accessed ((ClassGraph.resolveFieldAccess options current method site).result g).1

def outline : Operation → Operation
  | add record origin => add record.outline origin
  | op => op

theorem step_of_agree {g : ClassGraph} {x : Linking α} (answer : Except LinkError α → Reply)
    (h : Agree ClassGraph.Outlines (x.result g) (x.result g.outline)) :
    answer (x.result g.outline).1 = answer (x.result g).1 ∧
      (x.result g.outline).2 = (x.result g).2.outline :=
  ⟨congrArg answer h.result.symm, h.related⟩

theorem step_outline (op : Operation) (g : ClassGraph) :
    op.outline.reply g.outline = op.reply g ∧ op.outline.run g.outline = (op.run g).outline := by
  cases op with
  | add record origin => simp only [outline, reply, run, ClassGraph.add_outline, and_self]
  | link _ id => exact step_of_agree .linked (g.link_outline id)
  | linkName _ name => exact step_of_agree .named (g.linkName_outline name)
  | linkAll _ origin => exact step_of_agree .counted (g.linkAll_outline origin)
  | resolveCall _ current site => exact step_of_agree .called (g.resolveCall_outline current site)
  | resolveFieldAccess _ current method site =>
      exact step_of_agree .accessed (g.resolveFieldAccess_outline current method site)

end Operation

namespace ClassGraph

def replies (g : ClassGraph) : List Operation → List Reply
  | [] => []
  | op :: rest => op.reply g :: (op.run g).replies rest

theorem replies_outline (g : ClassGraph) (ops : List Operation) :
    g.outline.replies (ops.map (·.outline)) = g.replies ops := by
  induction ops generalizing g with
  | nil => rfl
  | cons op rest ih =>
      obtain ⟨hreply, hrun⟩ := op.step_outline g
      simp only [List.map_cons, replies, hreply, hrun, ih]

theorem after_outline (g : ClassGraph) (ops : List Operation) :
    g.outline.after (ops.map (·.outline)) = (g.after ops).outline := by
  induction ops generalizing g with
  | nil => rfl
  | cons op rest ih =>
      have hstep : ∀ (g : ClassGraph) (op : Operation) (rest : List Operation),
          g.after (op :: rest) = (op.run g).after rest := fun _ _ _ => rfl
      rw [List.map_cons, hstep, hstep, (op.step_outline g).2, ih]

end ClassGraph

-- From every graph, two programs answer alike and leave classes that are the same up to what
-- outlines leave out.
structure Indistinguishable (ops ops' : List Operation) : Prop where
  replies : ∀ g : ClassGraph, g.replies ops = g.replies ops'
  status : ∀ (g : ClassGraph) (id : ClassId),
    ((g.after ops).status id).outline = ((g.after ops').status id).outline

theorem Indistinguishable.of_outlines {ops ops' : List Operation}
    (h : ops.map (·.outline) = ops'.map (·.outline)) : Indistinguishable ops ops' where
  replies g := by
    rw [← g.replies_outline ops, ← g.replies_outline ops', h]
  status g id := by
    rw [← ClassGraph.status_outline, ← ClassGraph.status_outline, ← g.after_outline ops,
      ← g.after_outline ops', h]

namespace ClassRecord

def outlines (classes : List (ClassRecord × Origin)) : List (ClassRecord × Origin) :=
  classes.map fun c => (c.1.outline, c.2)

def ofFiles (files : List (ClassFile × Origin)) : List (ClassRecord × Origin) :=
  files.map fun f => (ofFile f.1 f.2, f.2)

def withBodies (files : List (ClassFile × Origin)) : List (ClassRecord × Origin) :=
  files.map fun f => (ofFile f.1 .application, f.2)

theorem ofFile_outline (file : ClassFile) (origin : Origin) :
    (ofFile file origin).outline = (ofFile file .application).outline := by
  cases origin with
  | application => rfl
  | runtime => simp [ofFile, outline, MethodDecl.outline]

theorem outlines_ofFiles (files : List (ClassFile × Origin)) :
    outlines (ofFiles files) = outlines (withBodies files) := by
  simp only [outlines, ofFiles, withBodies, List.map_map, Function.comp_def,
    fun f : ClassFile × Origin => ofFile_outline f.1 f.2]

end ClassRecord

open ClassRecord

namespace Operation

def adds (classes : List (ClassRecord × Origin)) : List Operation :=
  classes.map fun c => add c.1 c.2

theorem adds_outline (classes : List (ClassRecord × Origin)) :
    (adds classes).map (·.outline) = adds (outlines classes) := by
  simp only [adds, outlines, List.map_map]
  rfl

end Operation

open Operation

theorem Indistinguishable.of_classes {classes classes' : List (ClassRecord × Origin)}
    (h : outlines classes = outlines classes') (ops : List Operation) :
    Indistinguishable (adds classes ++ ops) (adds classes' ++ ops) :=
  .of_outlines (by rw [List.map_append, List.map_append, adds_outline, adds_outline, h])

theorem linking_ignores_bodies :
    (∀ classes classes', outlines classes = outlines classes' →
      ∀ ops, Indistinguishable (adds classes ++ ops) (adds classes' ++ ops)) ∧
    ∀ files ops, Indistinguishable (adds (ofFiles files) ++ ops) (adds (withBodies files) ++ ops) :=
  ⟨fun _ _ h ops => .of_classes h ops, fun files ops => .of_classes (outlines_ofFiles files) ops⟩

def bareCounter : List (ClassRecord × Origin) := [
  (.minimalRoot, .runtime),
  ({ name := "Counter",
     fields := [⟨⟨Access.staticBit⟩, "limit", "I", none, none⟩],
     methods := [minimalRoot.method Access.publicBit "next" "()I"] }, .application)]

def fullCounter : List (ClassRecord × Origin) := [
  (.minimalRoot, .runtime),
  ({ name := "Counter",
     fields := [⟨⟨Access.staticBit⟩, "limit", "I", some "I", some (.int 10)⟩],
     methods := [⟨⟨Access.publicBit⟩, "next", "()I", some "()I", some ⟨1, 1, [0x03, 0xac]⟩⟩],
     signature := some "Ljava/lang/Object;" }, .application)]

theorem counters_indistinguishable :
    bareCounter ≠ fullCounter ∧
    Indistinguishable (adds bareCounter ++ [.linkName {} "Counter"])
      (adds fullCounter ++ [.linkName {} "Counter"]) ∧
    (ClassGraph.empty.after (adds fullCounter ++ [.linkName {} "Counter"])).isLinked ⟨1⟩ = true :=
  ⟨by decide +kernel, linking_ignores_bodies.1 _ _ (by decide +kernel) _, by decide +kernel⟩

end Linkage
