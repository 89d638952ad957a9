import Linkage.Proofs.Replay

namespace Linkage

structure Frame where
  id : ClassId
  slot : Slot
  supers : Supertypes
  next : Nat

def Frame.dependency? (f : Frame) : Option ClassId :=
  match f.supers.superClass, f.next with
  | some superClass, 0 => some superClass
  | some _, n + 1 => f.supers.interfaces[n]?
  | none, n => f.supers.interfaces[n]?

def Supertypes.toList (supers : Supertypes) : List ClassId :=
  supers.superClass.toList ++ supers.interfaces

theorem Frame.dependency?_eq (f : Frame) : f.dependency? = f.supers.toList[f.next]? := by
  obtain ⟨id, slot, ⟨superClass, interfaces⟩, next⟩ := f
  cases superClass with
  | none => rfl
  | some superClass => cases next <;> rfl

inductive Progress where
  | running (stack : List Frame) (g : ClassGraph)
  | halted (out : Except LinkError Unit × ClassGraph)

namespace ClassGraph

open Outcome

variable {g g' : ClassGraph} {id : ClassId} {slot : Slot} {options : LinkOptions}
  {supers : Supertypes} {stack : List Frame} {f : Frame} {ids : List ClassId}
  {s s' s'' : Progress} {allowed : LinkOptions → Prop}

def unwind (stack : List Frame) (e : LinkError) (g : ClassGraph) : Progress :=
  .halted (.error e, stack.foldl (fun g f => g.setStatus f.id .unlinked) g)

def meet (options : LinkOptions) (id : ClassId) (stack : List Frame) (g : ClassGraph) : Progress :=
  match g.slot? id with
  | none => unwind stack ⟨g.name id, .notLinked⟩ g
  | some slot =>
      match slot.status with
      | .linked _ => .running stack g
      | .linking => unwind stack ⟨g.name id, .circularInheritance⟩ g
      | .drafted _ => unwind stack ⟨g.name id, .circularInheritance⟩ g
      | .unlinked =>
          match g.resolveSupertypes options slot.record with
          | .error e => unwind stack e g
          | .ok supers => .running (⟨id, slot, supers, 0⟩ :: stack) (g.setStatus id .linking)

def turn (options : LinkOptions) : Progress → Progress
  | .halted out => .halted out
  | .running [] g => .halted (.ok (), g)
  | .running (top :: rest) g =>
      match top.dependency? with
      | some dependency => meet options dependency ({ top with next := top.next + 1 } :: rest) g
      | none =>
          match g.finish options top.id top.slot top.supers with
          | .error e => unwind (top :: rest) e g
          | .ok info => .running rest (g.setStatus top.id (.linked info))

def LeadsTo (options : LinkOptions) (s s' : Progress) : Prop :=
  ∃ n, (turn options)^[n] s = s'

theorem LeadsTo.refl (s : Progress) : LeadsTo options s s :=
  ⟨0, rfl⟩

theorem LeadsTo.head (h : LeadsTo options (turn options s) s') : LeadsTo options s s' := by
  obtain ⟨n, hn⟩ := h
  exact ⟨n + 1, hn⟩

theorem LeadsTo.trans (h : LeadsTo options s s') (h' : LeadsTo options s' s'') :
    LeadsTo options s s'' := by
  obtain ⟨n, rfl⟩ := h
  obtain ⟨m, rfl⟩ := h'
  exact ⟨m + n, Function.iterate_add_apply _ m n s⟩

def resume (stack : List Frame) : Except LinkError Unit × ClassGraph → Progress
  | (.error e, g) => unwind stack e g
  | (.ok (), g) => .running stack g

theorem turn_of_dependency {dependency : ClassId} (h : f.supers.toList[f.next]? = some dependency) :
    turn options (.running (f :: stack) g) =
      meet options dependency ({ f with next := f.next + 1 } :: stack) g := by
  simp only [turn, f.dependency?_eq, h]

theorem turn_of_done (h : f.supers.toList.length ≤ f.next) :
    turn options (.running (f :: stack) g) =
      resume stack (leave options f.id f.slot f.supers (.ok (), g)) := by
  have hnone : f.dependency? = none := by
    rw [f.dependency?_eq, List.getElem?_eq_none h]
  simp only [turn, hnone, leave]
  cases g.finish options f.id f.slot f.supers with
  | error e => rfl
  | ok info => rfl

def Meets (allowed : LinkOptions → Prop) (options : LinkOptions) (depth : Nat) : Prop :=
  ∀ id stack (g : ClassGraph), g.Coherent allowed → g.unlinkedIds.card < depth →
    LeadsTo options (meet options id stack g) (resume stack (linkWithin options depth id g))

-- By induction on the dependencies that are left of the class on top.
theorem Meets.dependencies {depth : Nat} (hmeets : Meets allowed options depth)
    (hallowed : allowed options) (hg : g.Coherent allowed) (hfuel : g.unlinkedIds.card < depth)
    (hids : f.supers.toList.drop f.next = ids) :
    LeadsTo options (.running (f :: stack) g) (resume stack (leave options f.id f.slot f.supers
      (linkEach (linkWithin options depth) ids g))) := by
  induction ids generalizing f g with
  | nil => exact .head (turn_of_done (List.drop_eq_nil_iff.mp hids) ▸ .refl _)
  | cons dep rest ih =>
      have hdep : f.supers.toList[f.next]? = some dep := by
        rw [← List.head?_drop, hids, List.head?_cons]
      have hrest : f.supers.toList.drop (f.next + 1) = rest := by
        rw [← List.tail_drop, hids, List.tail_cons]
      have hlinks := linkWithin_links hallowed depth dep g hg
      have hsize := size_congr (linkWithin_spreads options depth dep g).declared
      refine .head (turn_of_dependency hdep ▸ .trans (hmeets dep _ g hg hfuel) ?_)
      rw [linkEach]
      generalize linkWithin options depth dep g = out at hlinks hsize
      obtain ⟨result, after⟩ := out
      cases result with
      | error e => exact .refl _
      | ok _ =>
          exact ih (f := { f with next := f.next + 1 }) hlinks.coherent
            ((hlinks.advances.card_unlinkedIds_le hsize).trans_lt hfuel) hrest

-- By induction on the bound: a class that waits is no longer one of those left to link.
theorem meets (hallowed : allowed options) (depth : Nat) : Meets allowed options depth := by
  induction depth with
  | zero => exact fun _ _ _ _ hfuel => absurd hfuel (Nat.not_lt_zero _)
  | succ depth ih =>
      intro id stack g hg hfuel
      cases hslot : g.slot? id with
      | none =>
          simp only [meet, linkWithin, hslot]
          exact .refl _
      | some slot =>
          cases hstatus : slot.status with
          | linked info =>
              simp only [meet, linkWithin, hslot, hstatus]
              exact .refl _
          | linking =>
              simp only [meet, linkWithin, hslot, hstatus]
              exact .refl _
          | drafted info =>
              simp only [meet, linkWithin, hslot, hstatus]
              exact .refl _
          | unlinked =>
              have hunlinked := (status_of_slot hslot).trans hstatus
              cases hsupers : g.resolveSupertypes options slot.record with
              | error e =>
                  simp only [meet, linkWithin, hslot, hstatus, hsupers]
                  exact .refl _
              | ok supers =>
                  have hnew : ¬g.Known id := not_known_of_status (by rw [hunlinked]; rfl)
                  have hless := card_unlinkedIds_enter hslot hunlinked
                  simp only [meet, hslot, hstatus, hsupers]
                  rw [linkWithin_enter hslot hunlinked hsupers]
                  exact ih.dependencies (f := ⟨id, slot, supers, 0⟩) hallowed
                    (hg.setStatus hslot hnew rfl) (by omega) rfl

theorem Coherent.link_halts (hg : g.Coherent allowed) (hallowed : allowed options) (id : ClassId) :
    LeadsTo options (meet options id [] g) (.halted ((link options id).result g)) := by
  have hfuel : g.unlinkedIds.card < g.size + 1 := Nat.lt_succ_of_le (card_unlinkedIds_le g)
  refine .trans (meets hallowed (g.size + 1) id [] g hg hfuel) ?_
  change LeadsTo options (resume [] (linkWithin options (g.size + 1) id g)) (.halted (linkWithin ..))
  generalize linkWithin options (g.size + 1) id g = out
  obtain ⟨result, after⟩ := out
  cases result with
  | error e => exact .refl _
  | ok _ => exact .head (.refl _)

end ClassGraph

end Linkage
