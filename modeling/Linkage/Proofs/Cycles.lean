import Linkage.Proofs.Atomicity
import Linkage.Proofs.Faults
import Linkage.Proofs.LinkStack

namespace Linkage.ClassGraph

open Outcome Relation

variable {g g' start : ClassGraph} {id root c dep : ClassId} {slot : Slot} {options : LinkOptions}
  {supers : Supertypes} {stack : List Frame} {f : Frame} {s : Progress} {info : ClassInfo}

def OnCycle (g : ClassGraph) (id : ClassId) (name : String) : Prop :=
  ∃ c, g.lookup name = some c ∧ ReflTransGen g.Names id c ∧ TransGen g.Names c c

structure Stacked (start : ClassGraph) (root : ClassId) (stack : List Frame) (g : ClassGraph) :
    Prop where
  declared : g.declared = start.declared
  undrafted : ∀ {c info}, g.status c ≠ .drafted info
  linking : ∀ {c}, g.status c = .linking → ∃ f ∈ stack, f.id = c
  names : ∀ f ∈ stack, ∀ dep ∈ f.supers.toList, start.Names f.id dep
  below : stack.Pairwise fun f lower => TransGen start.Names lower.id f.id
  reached : ∀ f ∈ stack, ReflTransGen start.Names root f.id

-- What holds of the stack while it runs, and of the error that it may end with.
def Sane (start : ClassGraph) (root : ClassId) : Progress → Prop
  | .running stack g => start.Stacked root stack g
  | .halted out => ∀ e, out.1 = .error e → e.kind = .circularInheritance →
      start.OnCycle root e.className

def Due (start : ClassGraph) (root : ClassId) (stack : List Frame) (dep : ClassId) : Prop :=
  stack = [] ∧ dep = root ∨ ∃ top rest, stack = top :: rest ∧ start.Names top.id dep

theorem Names.lookup_name (h : g.Names id c) : g.lookup (g.name c) = some c := by
  obtain ⟨record, -, name, -, hlookup⟩ := h
  obtain ⟨slot, hslot, hname⟩ := lookup_slot hlookup
  have hname : g.name c = name := by simp [ClassGraph.name, hslot, hname]
  rw [hname, hlookup]

theorem Stacked.reaches (h : start.Stacked root stack g) (hdue : start.Due root stack dep) :
    ReflTransGen start.Names root dep ∧ ∀ f ∈ stack, TransGen start.Names f.id dep := by
  rcases hdue with ⟨rfl, rfl⟩ | ⟨top, rest, rfl, hnames⟩
  · exact ⟨.refl, by simp⟩
  · obtain ⟨hbelow, -⟩ := List.pairwise_cons.mp h.below
    refine ⟨(h.reached top (by simp)).tail hnames, List.forall_mem_cons.mpr ⟨.single hnames, ?_⟩⟩
    exact fun f hf => (hbelow f hf).tail hnames

theorem Stacked.cycle (h : start.Stacked root stack g) (hdue : start.Due root stack dep)
    (hlinking : g.status dep = .linking) : start.OnCycle root (g.name dep) := by
  obtain ⟨f, hf, rfl⟩ := h.linking hlinking
  obtain ⟨hroot, habove⟩ := h.reaches hdue
  rcases hdue with ⟨rfl, -⟩ | ⟨top, rest, -, hnames⟩
  · simp at hf
  · refine ⟨f.id, ?_, hroot, habove f hf⟩
    rw [name_congr h.declared]
    exact hnames.lookup_name

theorem status_of_setStatus {s t : Status} (h : (g.setStatus id s).status c = t)
    (ht : t ≠ .unlinked) : c = id ∧ s = t ∨ c ≠ id ∧ g.status c = t := by
  by_cases hc : c = id
  · subst hc
    cases hslot : g.slot? c with
    | none => simp [status, slot?_setStatus, hslot, ht.symm] at h
    | some slot => exact .inl ⟨rfl, (status_setStatus_self hslot).symm.trans h⟩
  · exact .inr ⟨hc, (status_setStatus_of_ne hc).symm.trans h⟩

theorem Stacked.push (h : start.Stacked root stack g) (hdue : start.Due root stack id)
    (hslot : g.slot? id = some slot)
    (hsupers : g.resolveSupertypes options slot.record = .ok supers) :
    start.Stacked root (⟨id, slot, supers, 0⟩ :: stack) (g.setStatus id .linking) where
  declared := declared_setStatus.trans h.declared
  undrafted := by
    intro c info hc
    rcases status_of_setStatus hc nofun with ⟨-, hs⟩ | ⟨-, hold⟩
    · cases hs
    · exact h.undrafted hold
  linking := by
    intro c hc
    rcases status_of_setStatus hc nofun with ⟨rfl, -⟩ | ⟨-, hold⟩
    · exact ⟨_, List.mem_cons_self, rfl⟩
    · obtain ⟨f, hf, hid⟩ := h.linking hold
      exact ⟨f, List.mem_cons_of_mem _ hf, hid⟩
  names := by
    have hrecord : g.record? id = some slot.record := by rw [record?, hslot, Option.map_some]
    refine List.forall_mem_cons.mpr ⟨fun dep hdep => ?_, h.names⟩
    exact names_congr h.declared ▸ names_of_resolved hrecord hsupers dep hdep
  below := List.pairwise_cons.mpr ⟨(h.reaches hdue).2, h.below⟩
  reached := List.forall_mem_cons.mpr ⟨(h.reaches hdue).1, h.reached⟩

theorem Stacked.pop (h : start.Stacked root (f :: stack) g) :
    start.Stacked root stack (g.setStatus f.id (.linked info)) where
  declared := declared_setStatus.trans h.declared
  undrafted := by
    intro c draft hc
    rcases status_of_setStatus hc nofun with ⟨-, hs⟩ | ⟨-, hold⟩
    · cases hs
    · exact h.undrafted hold
  linking := by
    intro c hc
    rcases status_of_setStatus hc nofun with ⟨-, hs⟩ | ⟨hne, hold⟩
    · cases hs
    · obtain ⟨f', hf', rfl⟩ := h.linking hold
      rcases List.mem_cons.mp hf' with rfl | hf'
      · exact absurd rfl hne
      · exact ⟨f', hf', rfl⟩
  names := (List.forall_mem_cons.mp h.names).2
  below := (List.pairwise_cons.mp h.below).2
  reached := (List.forall_mem_cons.mp h.reached).2

theorem Stacked.advance (h : start.Stacked root (f :: stack) g) (n : Nat) :
    start.Stacked root ({ f with next := n } :: stack) g where
  declared := h.declared
  undrafted := h.undrafted
  linking := by
    intro c hc
    obtain ⟨f', hf', rfl⟩ := h.linking hc
    rcases List.mem_cons.mp hf' with rfl | hf'
    · exact ⟨_, List.mem_cons_self, rfl⟩
    · exact ⟨f', List.mem_cons_of_mem _ hf', rfl⟩
  names := List.forall_mem_cons.mpr (List.forall_mem_cons.mp h.names)
  below := List.pairwise_cons.mpr (List.pairwise_cons.mp h.below)
  reached := List.forall_mem_cons.mpr (List.forall_mem_cons.mp h.reached)

theorem sane_unwind {e : LinkError}
    (h : e.kind = .circularInheritance → start.OnCycle root e.className) :
    start.Sane root (unwind stack e g) :=
  fun e' he hkind => by
    obtain rfl : e = e' := Except.error.inj he
    exact h hkind

theorem Stacked.meet (h : start.Stacked root stack g) (hdue : start.Due root stack dep) :
    start.Sane root (meet options dep stack g) := by
  unfold ClassGraph.meet
  split
  next => exact sane_unwind fun hkind => by cases hkind
  next slot hslot =>
    have hstatus := status_of_slot hslot
    split
    next => exact h
    next hlinking => exact sane_unwind fun _ => h.cycle hdue (hstatus.trans hlinking)
    next draft hdrafted => exact absurd (hstatus.trans hdrafted) h.undrafted
    next =>
      split
      next e he => exact sane_unwind fun hkind => absurd hkind (raises_resolveSupertypes e he).1
      next supers hsupers => exact h.push hdue hslot hsupers

theorem Sane.turn (h : start.Sane root s) : start.Sane root (turn options s) := by
  unfold ClassGraph.turn
  split
  next => exact h
  next => exact fun _ he => by cases he
  next top rest g =>
    have hstacked : start.Stacked root (top :: rest) g := h
    split
    next dep hdep =>
      rw [top.dependency?_eq] at hdep
      have hnames := hstacked.names top (by simp) dep (List.mem_of_getElem? hdep)
      exact (hstacked.advance _).meet (.inr ⟨_, _, rfl, hnames⟩)
    next =>
      split
      next e he => exact sane_unwind fun hkind => absurd hkind (raises_finish e he)
      next => exact hstacked.pop

theorem Sane.turns (h : start.Sane root s) (options : LinkOptions) (n : Nat) :
    start.Sane root ((ClassGraph.turn options)^[n] s) := by
  induction n generalizing s with
  | zero => exact h
  | succ n ih => exact ih h.turn

theorem Settled.stacked (hg : g.Settled) (root : ClassId) : g.Stacked root [] g := by
  have hstatus : ∀ {c}, g.status c ≠ .linking ∧ ∀ info, g.status c ≠ .drafted info := by
    intro c
    rcases hg c with hunlinked | ⟨info, hlinked⟩
    · simp [hunlinked]
    · simp [hlinked]
  exact {
    declared := rfl
    undrafted := hstatus.2 _
    linking := fun hc => absurd hc hstatus.1
    names := by simp
    below := .nil
    reached := by simp }

def Records (start g : ClassGraph) : Prop :=
  g.declared = start.declared ∧ ∀ {c info}, g.info? c = some info →
    start.Known c ∨ ∀ dep, start.Names c dep → dep ∈ info.directSupertypes

theorem Records.setStatus {s : Status} (h : start.Records g)
    (hs : ∀ {info}, s.info? = some info → ∀ dep, start.Names id dep → dep ∈ info.directSupertypes) :
    start.Records (g.setStatus id s) := by
  refine ⟨declared_setStatus.trans h.1, fun {c info} hinfo => ?_⟩
  by_cases hc : c = id
  · subst hc
    obtain ⟨slot, hslot⟩ := slot_of_known (known_of_info hinfo)
    rw [slot?_setStatus, if_pos rfl, Option.map_eq_some_iff] at hslot
    obtain ⟨old, hold, -⟩ := hslot
    rw [info?_setStatus_self hold] at hinfo
    exact .inr (hs hinfo)
  · rw [info?_setStatus_of_ne hc] at hinfo
    exact h.2 hinfo

theorem linkWithin_records (options : LinkOptions) (depth : Nat) (id : ClassId) (g : ClassGraph) :
    g.Records (linkWithin options depth id g).2 := by
  refine linkWithin_keeps g.Records (fun hs h => ?_) (fun {_ id old supers info} h hrecord hsupers
    hfinish => ?_) depth id g ⟨rfl, fun hinfo => .inl (known_of_info hinfo)⟩
  · exact h.setStatus fun hinfo => by simp [hs] at hinfo
  · refine h.setStatus fun hinfo dep hnames => ?_
    obtain rfl := Option.some.inj hinfo
    rw [(draft_ok (finish_ok hfinish).1).directSupertypes]
    rw [← names_congr h.1] at hnames
    obtain ⟨record, hrecord', name, hname, hlookup⟩ := hnames
    obtain rfl := Option.some.inj (hrecord.symm.trans hrecord')
    have hmem := List.mem_map.mpr ⟨name, hname, hlookup⟩
    rw [resolveSupertypes_lookup hsupers] at hmem
    simpa using hmem

theorem Hierarchical.not_transGen_self (hg : g.Hierarchical) (c : ClassId) :
    ¬TransGen g.Direct c c := by
  obtain ⟨rank, hrank, -⟩ := hg.bounded
  exact fun hpath => Nat.lt_irrefl _ (rank_lt_of_transGen hrank hpath)

theorem Settled.acyclic_of_ok {depth : Nat} (hg : g.Settled) (hg' : g'.Hierarchical)
    (hrun : linkWithin options depth id g = (.ok (), g')) (hpath : ReflTransGen g.Pending id c) :
    ¬TransGen g.Pending c c := by
  have hspreads := linkWithin_spreads options depth id g
  have hrecords := linkWithin_records options depth id g
  rw [hrun] at hspreads hrecords
  have hdirect : ∀ {a b}, ReflTransGen g.Pending id a → g.Pending a b → g'.Direct a b := by
    intro a b ha hab
    have hlinked : g'.isLinked a = true :=
      hspreads.linked_iff.mpr (.inr ⟨id, by simp, ha⟩)
    obtain ⟨info, hinfo⟩ := linked_of_isLinked hlinked
    have hnew : ¬g.Known a :=
      not_known_of_status (by rw [hg.isLinked_eq_false.mp hab.1]; rfl)
    rcases hrecords.2 (known_of_linked hinfo) with hold | hnames
    · exact absurd hold hnew
    · rw [Direct, directSupertypes_eq (known_of_linked hinfo)]
      exact hnames b hab.2
  intro hcycle
  have hup : ∀ {d}, TransGen g.Pending c d → TransGen g'.Direct c d := by
    intro d hd
    induction hd with
    | single hstep => exact .single (hdirect hpath hstep)
    | tail hprev hstep ih => exact ih.tail (hdirect (hpath.trans hprev.to_reflTransGen) hstep)
  exact hg'.not_transGen_self c (hup hcycle)

theorem link_detects_cycles (hg : Reachable (fun _ => True) g) (options : LinkOptions)
    (id : ClassId) :
    (∃ n, (turn options)^[n] (meet options id [] g) = .halted ((link options id).result g)) ∧
      (∀ e, ((link options id).result g).1 = .error e → e.kind = .circularInheritance →
        ∃ c, g.lookup e.className = some c ∧ ReflTransGen g.Names id c ∧ TransGen g.Names c c) ∧
      (∀ c, ReflTransGen g.Pending id c → TransGen g.Pending c c →
        ∃ e, ((link options id).result g).1 = .error e) ∧
      ∀ c, ¬TransGen g.Direct c c := by
  have hhalts : ∃ n, (turn options)^[n] (meet options id [] g) =
      .halted ((link options id).result g) :=
    hg.coherent.link_halts trivial id
  refine ⟨hhalts, ?_, fun c hpath hcycle => ?_, hg.coherent.not_transGen_self⟩
  · obtain ⟨n, hn⟩ := hhalts
    have hsane : g.Sane id (meet options id [] g) :=
      (hg.settled.stacked id).meet (.inl ⟨rfl, rfl⟩)
    have hend := hsane.turns options n
    rw [hn] at hend
    exact hend
  · have hafter := (hg.coherent.run_links options (g.size + 1) id).coherent.toHierarchical
    change ∃ e, (linkWithin options (g.size + 1) id g).1 = .error e
    cases hrun : linkWithin options (g.size + 1) id g with
    | mk out g' =>
        rw [hrun] at hafter
        cases out with
        | error e => exact ⟨e, rfl⟩
        | ok _ => exact absurd hcycle (hg.settled.acyclic_of_ok hafter hrun hpath)

def knot : ClassGraph :=
  program [
    { name := "Nest", superName := some "Chicken" },
    { name := "Chicken", superName := some "Egg" },
    { name := "Egg", superName := some "Chicken" }] ⟨1⟩

theorem knot_is_detected : Reachable (fun _ => True) knot ∧
    ((link {} ⟨1⟩).result knot).1 = .error ⟨"Chicken", .circularInheritance⟩ ∧
    (∃ c, knot.lookup "Chicken" = some c ∧ ReflTransGen knot.Names ⟨1⟩ c ∧
      TransGen knot.Names c c) ∧
    ∃ e, ((link {} ⟨1⟩).result knot).1 = .error e := by
  have hreach : Reachable (fun _ => True) knot := reachable_program _ _
  obtain ⟨herror, hnest, hchicken, hegg, hnames⟩ :
      Outcome.error? ((link {} ⟨1⟩).result knot).1 = some ⟨"Chicken", .circularInheritance⟩ ∧
      (knot.isLinked ⟨1⟩ = false ∧ knot.isLinked ⟨2⟩ = false ∧ knot.isLinked ⟨3⟩ = false) ∧
      knot.lookup "Chicken" = some ⟨2⟩ ∧ knot.lookup "Egg" = some ⟨3⟩ ∧
      (knot.record? ⟨1⟩).map (·.supertypeNames) = some ["Chicken"] ∧
      (knot.record? ⟨2⟩).map (·.supertypeNames) = some ["Egg"] ∧
      (knot.record? ⟨3⟩).map (·.supertypeNames) = some ["Chicken"] := by
    decide +kernel
  have hpending : ∀ {a b : ClassId} {name : String}, knot.isLinked a = false →
      (knot.record? a).map (·.supertypeNames) = some [name] → knot.lookup name = some b →
      knot.Pending a b := by
    intro a b name ha hsupers hb
    obtain ⟨record, hrecord, hsupers⟩ := Option.map_eq_some_iff.mp hsupers
    exact ⟨ha, record, hrecord, name, by simp [hsupers], hb⟩
  have hfirst := hpending hnest.1 hnames.1 hchicken
  have hup := hpending hnest.2.1 hnames.2.1 hegg
  have hdown := hpending hnest.2.2 hnames.2.2 hchicken
  obtain ⟨-, hsound, hcomplete, -⟩ := link_detects_cycles hreach {} ⟨1⟩
  have herror := error?_eq_some herror
  exact ⟨hreach, herror, hsound _ herror rfl,
    hcomplete ⟨2⟩ (.single hfirst) (.tail (.single hup) hdown)⟩

end Linkage.ClassGraph
