import Linkage.Graph.Linker
import Linkage.Proofs.Outcome

namespace Linkage

variable {α β : Type} {P : LinkFault → Prop}

def Raises (P : LinkFault → Prop) (x : Except LinkError α) : Prop :=
  ∀ e, x = .error e → P e.fault

theorem Raises.ok (a : α) : Raises P (.ok a) :=
  fun _ h => by cases h

theorem Raises.error {e : LinkError} (h : P e.fault) : Raises P (.error e : Except LinkError α) :=
  fun _ he => Except.error.inj he ▸ h

theorem Raises.mono {P' : LinkFault → Prop} {x : Except LinkError α} (h : Raises P x)
    (hP : ∀ f, P f → P' f) : Raises P' x :=
  fun e he => hP _ (h e he)

theorem Raises.bind {x : Except LinkError α} {k : α → Except LinkError β} (hx : Raises P x)
    (hk : ∀ a, x = .ok a → Raises P (k a)) : Raises P (x >>= k) := by
  intro e he
  cases x with
  | error e' => exact hx e (by simpa [Bind.bind, Except.bind] using he)
  | ok a => exact hk a rfl e he

theorem Raises.map {x : Except LinkError α} {f : α → β} (hx : Raises P x) : Raises P (f <$> x) := by
  intro e he
  cases x with
  | error e' => exact hx e (by simpa [Functor.map, Except.map] using he)
  | ok a => simp [Functor.map, Except.map] at he

theorem Raises.foldlM {step : β → α → Except LinkError β} {l : List α}
    (hstep : ∀ acc x, Raises P (step acc x)) (start : β) : Raises P (l.foldlM step start) := by
  induction l generalizing start with
  | nil => exact .ok start
  | cons x rest ih =>
      rw [List.foldlM_cons]
      exact (hstep start x).bind fun acc _ => ih acc

theorem Raises.forM {check : α → Except LinkError PUnit} {l : List α}
    (hcheck : ∀ x, Raises P (check x)) : Raises P (l.forM check) := by
  induction l with
  | nil => exact .ok _
  | cons x rest ih => exact (hcheck x).bind fun _ _ => ih

theorem Raises.mapM {f : α → Except LinkError β} {l : List α} (hf : ∀ x, Raises P (f x)) :
    Raises P (l.mapM f) := by
  induction l with
  | nil => exact .ok _
  | cons x rest ih =>
      rw [List.mapM_cons]
      exact (hf x).bind fun _ _ => ih.bind fun _ _ => .ok _

def LinkFault.Plain (f : LinkFault) : Prop :=
  f.kind ≠ .circularInheritance ∧ f.kind ≠ .inconsistentVtable

namespace ClassGraph

variable {g : ClassGraph} {options : LinkOptions} {id : ClassId} {slot : Slot} {record : ClassRecord}
  {supers : Supertypes} {info : ClassInfo}

theorem raises_resolveName (name : String) : Raises LinkFault.Plain (g.resolveName record name) := by
  unfold resolveName
  split
  · exact .ok _
  · exact .error ⟨nofun, nofun⟩

theorem raises_resolveSupertypes :
    Raises LinkFault.Plain (g.resolveSupertypes options record) := by
  unfold resolveSupertypes
  split
  · exact .error ⟨nofun, nofun⟩
  · exact .error ⟨nofun, nofun⟩
  · refine Raises.bind ?_ fun superClass _ => ?_
    · cases record.superName with
      | none => exact .ok _
      | some superName => exact (raises_resolveName superName).map
    · exact (Raises.mapM raises_resolveName).bind fun _ _ => .ok _

theorem raises_checkSuperClass (sup : ClassId) :
    Raises LinkFault.Plain (g.checkSuperClass options id record sup) := by
  unfold checkSuperClass
  dsimp only
  split
  · exact .error ⟨nofun, nofun⟩
  · split
    · exact .error ⟨nofun, nofun⟩
    · split
      · exact .error ⟨nofun, nofun⟩
      · exact .ok _

theorem raises_checkInterface (i : ClassId) :
    Raises LinkFault.Plain (g.checkInterface id record i) := by
  unfold checkInterface
  dsimp only
  split
  · exact .error ⟨nofun, nofun⟩
  · split
    · exact .error ⟨nofun, nofun⟩
    · exact .ok _

theorem raises_resolveFields : Raises LinkFault.Plain (resolveFields record) := by
  refine Raises.foldlM (fun done decl => ?_) []
  dsimp only
  split
  · exact .error ⟨nofun, nofun⟩
  · cases FieldInfo.ofDecl decl with
    | ok field => exact .ok _
    | error e => exact .error ⟨nofun, nofun⟩

theorem raises_resolveMethods : Raises LinkFault.Plain (resolveMethods record) := by
  refine Raises.foldlM (fun done decl => ?_) []
  dsimp only
  split
  · exact .error ⟨nofun, nofun⟩
  · cases MethodInfo.ofDecl record.version decl with
    | ok m => exact .ok _
    | error e => exact .error ⟨nofun, nofun⟩

theorem raises_draft : Raises LinkFault.Plain (g.draft options id slot supers) := by
  unfold draft
  refine Raises.bind ?_ fun _ _ => ?_
  · cases supers.superClass with
    | none => exact .ok _
    | some sup => exact raises_checkSuperClass sup
  · refine (Raises.forM raises_checkInterface).bind fun _ _ => ?_
    refine raises_resolveFields.bind fun fields _ => ?_
    exact raises_resolveMethods.bind fun methods _ => .ok _

variable {vtable : List MethodRef}

theorem raises_placeDeclared (vtable : List MethodRef) (child : MethodRef) :
    Raises LinkFault.Plain (g.placeDeclared id vtable child) := by
  unfold placeDeclared
  split
  · exact .ok _
  · dsimp only
    split
    · exact .ok _
    · exact .error ⟨nofun, nofun⟩

theorem raises_chooseDefault (name descriptor : String) :
    Raises LinkFault.Plain (g.chooseDefault id name descriptor) := by
  unfold chooseDefault
  split
  · exact .ok _
  · exact .ok _
  · exact .error ⟨nofun, nofun⟩

theorem raises_placeInterfaceMethod (vtable : List MethodRef) (m : MethodRef × MethodInfo) :
    Raises LinkFault.Plain (g.placeInterfaceMethod id vtable m) := by
  unfold placeInterfaceMethod
  dsimp only
  split
  · refine (raises_chooseDefault _ _).bind fun choice _ => ?_
    cases choice with
    | none => exact .ok _
    | some chosen => exact .ok _
  · split
    · refine (raises_chooseDefault _ _).bind fun choice _ => ?_
      cases choice with
      | none => exact .ok _
      | some chosen => exact .ok _
    · exact .ok _

theorem raises_checkConcrete : Raises LinkFault.Plain (g.checkConcrete info vtable) := by
  unfold checkConcrete
  split
  · exact .ok _
  · split
    · exact .error ⟨nofun, nofun⟩
    · exact .ok _

theorem buildVtable_verified (g : ClassGraph) (info : ClassInfo) :
    g.buildVtable info true = (do
      let vtable ← g.buildVtable info false
      g.checkDistinct info vtable
      g.checkInherited info vtable (g.inheritedVtable info)
      return vtable) := by
  simp only [buildVtable, bind_assoc, Bool.false_eq_true, if_true, if_false, pure_bind]

theorem raises_buildVtable : Raises LinkFault.Plain (g.buildVtable info false) := by
  unfold buildVtable
  refine (Raises.foldlM raises_placeDeclared _).bind fun mid _ => ?_
  refine (Raises.foldlM raises_placeInterfaceMethod _).bind fun out _ => ?_
  exact raises_checkConcrete.bind fun _ _ => .ok _

theorem raises_checkDistinct :
    Raises (·.kind = .inconsistentVtable) (g.checkDistinct info vtable) := by
  unfold checkDistinct
  split
  · exact .error rfl
  · exact .ok _

theorem raises_checkInherited {inherited : List MethodRef} :
    Raises (·.kind = .inconsistentVtable) (g.checkInherited info vtable inherited) := by
  unfold checkInherited
  split
  · exact .error rfl
  · exact .ok _

theorem raises_finish_of_buildVtable (hplain : ∀ f, LinkFault.Plain f → P f)
    (hbuild : ∀ (g : ClassGraph) info, Raises P (g.buildVtable info options.verifyVtables)) :
    Raises P (g.finish options id slot supers) := by
  unfold finish complete
  refine (raises_draft.mono hplain).bind fun info _ => ?_
  split
  · exact .ok _
  · exact (hbuild _ info).bind fun vtable _ => .ok _

theorem raises_finish :
    Raises (·.kind ≠ .circularInheritance) (g.finish options id slot supers) := by
  have hinconsistent : ∀ f : LinkFault, f.kind = .inconsistentVtable → f.kind ≠ .circularInheritance :=
    fun f h => by simp [h]
  refine raises_finish_of_buildVtable (fun _ => And.left) fun g info => ?_
  cases options.verifyVtables with
  | false => exact raises_buildVtable.mono fun _ => And.left
  | true =>
      rw [buildVtable_verified]
      refine (raises_buildVtable.mono fun _ => And.left).bind fun vtable _ => ?_
      refine (raises_checkDistinct.mono hinconsistent).bind fun _ _ => ?_
      exact (raises_checkInherited.mono hinconsistent).bind fun _ _ => .ok _

theorem raises_unverified_finish (hlax : options.verifyVtables = false) :
    Raises (·.kind ≠ .inconsistentVtable) (g.finish options id slot supers) :=
  raises_finish_of_buildVtable (fun _ => And.right) fun _ _ =>
    hlax ▸ raises_buildVtable.mono fun _ => And.right

theorem raises_linkEach {step : ClassId → ClassGraph → Except LinkError Unit × ClassGraph}
    (hstep : ∀ id g, Raises P (step id g).1) (ids : List ClassId) (g : ClassGraph) :
    Raises P (linkEach step ids g).1 := by
  induction ids generalizing g with
  | nil => exact .ok _
  | cons id rest ih =>
      have hid := hstep id g
      unfold linkEach
      split
      next g' hrun => exact ih g'
      next e g' hrun =>
        rw [hrun] at hid
        exact hid

theorem raises_linkWithin (hplain : ∀ f, LinkFault.Plain f → P f) (hcircular : P .circularInheritance)
    (hfinish : ∀ (g : ClassGraph) id slot supers, Raises P (g.finish options id slot supers))
    (depth : Nat) (id : ClassId) (g : ClassGraph) : Raises P (linkWithin options depth id g).1 := by
  induction depth generalizing id g with
  | zero => exact .error hcircular
  | succ depth ih =>
      unfold linkWithin
      split
      next => exact .error (hplain _ ⟨nofun, nofun⟩)
      next slot _ =>
        split
        next => exact .ok _
        next => exact .error hcircular
        next => exact .error hcircular
        next =>
          split
          next e he => exact .error (hplain _ (raises_resolveSupertypes e he))
          next supers _ =>
            have hdeps := raises_linkEach ih (supers.superClass.toList ++ supers.interfaces)
              (g.setStatus id .linking)
            dsimp only
            split
            next e _ hrun =>
              rw [hrun] at hdeps
              exact hdeps
            next after _ =>
              split
              next e he => exact .error (hfinish after id slot supers e he)
              next => exact .ok _

end ClassGraph

end Linkage
