import Linkage.Proofs.Coherence

namespace Linkage.ClassGraph

open Outcome

variable {g g' g'' : ClassGraph} {id c : ClassId} {slot : Slot} {info : ClassInfo}
  {s : Status} {options : LinkOptions} {supers : Supertypes} {record : ClassRecord}
  {name : String} {allowed : LinkOptions → Prop}

theorem find_slot {origin : Origin} (h : g.find? origin name = some id) :
    ∃ slot, g.slot? id = some slot ∧ slot.origin = origin ∧ slot.record.name = name := by
  obtain ⟨n, hn, rfl⟩ := Option.map_eq_some_iff.mp h
  obtain ⟨hlt, hslot, -⟩ := Array.findIdx?_eq_some_iff_getElem.mp hn
  simp only [Bool.and_eq_true, decide_eq_true_eq] at hslot
  exact ⟨g.slots[n], Array.getElem?_eq_getElem hlt, hslot⟩

theorem lookup_slot (h : g.lookup name = some id) :
    ∃ slot, g.slot? id = some slot ∧ slot.record.name = name := by
  rcases Option.or_eq_some_iff.mp h with h | ⟨-, h⟩
  · obtain ⟨slot, hslot, -, hname⟩ := find_slot h
    exact ⟨slot, hslot, hname⟩
  · obtain ⟨slot, hslot, -, hname⟩ := find_slot h
    exact ⟨slot, hslot, hname⟩

theorem resolveName_slot (h : g.resolveName record name = .ok id) :
    ∃ slot, g.slot? id = some slot ∧ slot.record.name = name := by
  unfold resolveName at h
  split at h
  next found hfound =>
    obtain rfl := Except.ok.inj h
    exact lookup_slot hfound
  next => simp at h

theorem resolveName_name (h : g.resolveName record name = .ok id) : g.name id = name := by
  obtain ⟨slot, hslot, hname⟩ := resolveName_slot h
  simp [ClassGraph.name, hslot, hname]

theorem resolveSupertypes_ok (h : g.resolveSupertypes options record = .ok supers) :
    g.Resolved options record supers ∧
      ∀ sup ∈ supers.superClass.toList ++ supers.interfaces, ∃ slot, g.slot? sup = some slot := by
  unfold resolveSupertypes at h
  split at h
  next => simp [throw_bind] at h
  next => simp [throw_bind] at h
  next hwrong hmissing =>
    obtain ⟨superClass, hsuper, h⟩ := bind_ok_iff.mp h
    obtain ⟨interfaces, hinterfaces, h⟩ := bind_ok_iff.mp h
    obtain rfl := pure_ok_iff.mp h
    have hnames : superClass.map g.name = record.superName ∧
        ∀ sup ∈ superClass, ∃ slot, g.slot? sup = some slot := by
      cases hname : record.superName with
      | none =>
          rw [hname] at hsuper
          obtain rfl := pure_ok_iff.mp hsuper
          simp
      | some superName =>
          rw [hname, Option.mapM_some] at hsuper
          obtain ⟨id, hid, rfl⟩ := map_ok_iff.mp hsuper
          obtain ⟨slot, hslot, -⟩ := resolveName_slot hid
          exact ⟨by rw [Option.map_some, resolveName_name hid], by simp [hslot]⟩
    refine ⟨⟨hnames.1, mapM_ok_map resolveName_name hinterfaces, ?_⟩, fun sup hsup => ?_⟩
    · constructor
      · intro hnone
        by_contra hne
        exact hmissing hnone (by simpa using hne)
      · intro hroot
        cases hname : record.superName with
        | none => rfl
        | some superName => exact absurd (by simpa using hroot) (hwrong superName hname)
    · rcases List.mem_append.mp hsup with hsup | hsup
      · exact hnames.2 sup (Option.mem_toList.mp hsup)
      · obtain ⟨name, -, hname⟩ := of_mem_mapM hinterfaces sup hsup
        obtain ⟨slot, hslot, -⟩ := resolveName_slot hname
        exact ⟨slot, hslot⟩

structure Advances (g g' : ClassGraph) : Prop extends Retains g g' where
  status : ∀ id, g'.status id = g.status id ∨
    g.status id = .unlinked ∧ ∃ info, g'.status id = .linked info

theorem Advances.refl (g : ClassGraph) : g.Advances g where
  toRetains := .refl g
  status := fun _ => .inl rfl

theorem Advances.trans (h : g.Advances g') (h' : g'.Advances g'') : g.Advances g'' where
  toRetains := h.toRetains.trans h'.toRetains
  status := by
    intro id
    rcases h.status id with hsame | ⟨hunlinked, info, hlinked⟩
    · rw [← hsame]
      exact h'.status id
    · refine .inr ⟨hunlinked, info, ?_⟩
      rcases h'.status id with hsame' | ⟨hunlinked', -⟩
      · rw [hsame', hlinked]
      · rw [hlinked] at hunlinked'
        cases hunlinked'

theorem not_known_of_status (h : (g.status id).info? = none) : ¬g.Known id := by
  rintro ⟨info, hinfo⟩
  rw [info?, h] at hinfo
  cases hinfo

theorem known_of_linked (h : g.status id = .linked info) : g.info? id = some info := by
  rw [info?, h, Status.info?]

theorem Advances.linking (h : g.Advances g') (hid : g.status id = .linking) :
    g'.status id = .linking := by
  rcases h.status id with hsame | ⟨hunlinked, -⟩
  · rw [hsame, hid]
  · rw [hid] at hunlinked
    cases hunlinked

theorem Advances.around (hid : g.status id = .unlinked) (hslot : g.slot? id = some slot)
    (h : (g.setStatus id .linking).Advances g') (hs : s = .unlinked ∨ ∃ info, s = .linked info) :
    g.Advances (g'.setStatus id s) := by
  have hlinking := h.linking (status_setStatus_self hslot)
  have hnew : ¬g.Known id := not_known_of_status (by rw [hid]; rfl)
  have hnew' : ¬g'.Known id := not_known_of_status (by rw [hlinking]; rfl)
  refine { toRetains := ?_, status := fun c => ?_ }
  · exact (retains_setStatus (.inl hnew)).trans (h.toRetains.trans (retains_setStatus (.inl hnew')))
  · by_cases hc : c = id
    · subst hc
      obtain ⟨status, hslot'⟩ := h.slot (slot?_setStatus_self hslot)
      rw [status_setStatus_self hslot', hid]
      rcases hs with rfl | ⟨info, rfl⟩
      · exact .inl rfl
      · exact .inr ⟨rfl, info, rfl⟩
    · have hstatus := h.status c
      rw [status_setStatus_of_ne hc] at hstatus
      rw [status_setStatus_of_ne hc]
      exact hstatus

structure Links (allowed : LinkOptions → Prop) (g : ClassGraph) (ids : List ClassId)
    (out : Except LinkError Unit × ClassGraph) : Prop where
  coherent : out.2.Coherent allowed
  advances : g.Advances out.2
  known : out.1 = .ok () → ∀ id ∈ ids, out.2.Known id

theorem linkEach_links {step : ClassId → ClassGraph → Except LinkError Unit × ClassGraph}
    (hstep : ∀ id g, g.Coherent allowed → Links allowed g [id] (step id g)) {ids : List ClassId}
    (hg : g.Coherent allowed) : Links allowed g ids (linkEach step ids g) := by
  induction ids generalizing g with
  | nil => exact ⟨hg, .refl g, fun _ => by simp⟩
  | cons id rest ih =>
      have hid := hstep id g hg
      unfold linkEach
      split
      next g' hrun =>
        rw [hrun] at hid
        have hrest := ih hid.coherent
        refine ⟨hrest.coherent, hid.advances.trans hrest.advances, fun hok => ?_⟩
        have hknown := hid.known rfl id (by simp)
        exact List.forall_mem_cons.mpr
          ⟨hrest.advances.extends.known hknown, hrest.known hok⟩
      next e g' hrun =>
        rw [hrun] at hid
        exact ⟨hid.coherent, hid.advances, fun hok => by cases hok⟩

theorem Coherent.setStatus (hg : g.Coherent allowed) (hslot : g.slot? id = some slot)
    (hnew : ¬g.Known id) (hs : s.info? = none) : (g.setStatus id s).Coherent allowed := by
  refine hg.congr (retains_setStatus (.inl hnew)) (fun c => ?_) fun {c info} h => ?_
  · by_cases hc : c = id
    · subst hc
      rw [info?_setStatus_self hslot, hs]
      cases hinfo : g.info? c with
      | none => rfl
      | some info => exact absurd (known_of_info hinfo) hnew
    · exact info?_setStatus_of_ne hc
  · by_cases hc : c = id
    · subst hc
      rw [status_setStatus_self hslot] at h
      simp [h, Status.info?] at hs
    · rw [status_setStatus_of_ne hc] at h
      exact hg.undrafted h

theorem Coherent.link_unlinked (hg : g.Coherent allowed) (hallowed : allowed options)
    (hslot : g.slot? id = some slot) (hunlinked : slot.status = .unlinked)
    (hsupers : g.resolveSupertypes options slot.record = .ok supers)
    {step : ClassId → ClassGraph → Except LinkError Unit × ClassGraph}
    (hstep : ∀ id g, g.Coherent allowed → Links allowed g [id] (step id g)) :
    Links allowed g [id]
      (match linkEach step (supers.superClass.toList ++ supers.interfaces)
          (g.setStatus id .linking) with
      | (.error e, g) => (.error e, g.setStatus id .unlinked)
      | (.ok (), g) =>
          match g.finish options id slot supers with
          | .error e => (.error e, g.setStatus id .unlinked)
          | .ok info => (.ok (), g.setStatus id (.linked info))) := by
  have hstatus : g.status id = .unlinked := (status_of_slot hslot).trans hunlinked
  have hnew : ¬g.Known id := not_known_of_status (by rw [hstatus]; rfl)
  have hstart := hg.setStatus hslot hnew (s := .linking) rfl
  have hlinks : Links allowed (g.setStatus id .linking)
      (supers.superClass.toList ++ supers.interfaces)
      (linkEach step (supers.superClass.toList ++ supers.interfaces) (g.setStatus id .linking)) :=
    linkEach_links hstep hstart
  have hlinking := hlinks.advances.linking (status_setStatus_self hslot)
  obtain ⟨status, hslot'⟩ := hlinks.advances.slot (slot?_setStatus_self hslot)
  have hnew' := not_known_of_status (by rw [hlinking]; rfl)
  have hback := hlinks.coherent.setStatus hslot' hnew' (s := .unlinked) rfl
  have hundo := Advances.around hstatus hslot hlinks.advances (.inl rfl)
  split
  next e g' hrun =>
    rw [hrun] at hback hundo
    exact ⟨hback, hundo, fun hok => by cases hok⟩
  next g' hrun =>
    rw [hrun] at hlinks hslot' hback hundo hnew'
    split
    next e _ => exact ⟨hback, hundo, fun hok => by cases hok⟩
    next info hfinish =>
      obtain ⟨hresolved, hslots⟩ := resolveSupertypes_ok hsupers
      have hr := (retains_setStatus (.inl hnew) (s := .linking)).trans hlinks.advances.toRetains
      refine ⟨hlinks.coherent.linked hallowed hslot' hnew' (hresolved.retain hr hslots)
        (hlinks.known rfl) hfinish, .around hstatus hslot hlinks.advances (.inr ⟨info, rfl⟩),
        fun _ => ?_⟩
      have hknown := known_of_info (info?_setStatus_self (s := .linked info) hslot')
      simpa using hknown

theorem linkWithin_links (hallowed : allowed options) (depth : Nat) (id : ClassId)
    (g : ClassGraph) (hg : g.Coherent allowed) :
    Links allowed g [id] (linkWithin options depth id g) := by
  have hfail : ∀ e, Links allowed g [id] (.error e, g) := fun e =>
    ⟨hg, .refl g, fun hok => by cases hok⟩
  induction depth generalizing id g with
  | zero => exact hfail _
  | succ depth ih =>
      unfold linkWithin
      split
      next => exact hfail _
      next slot hslot =>
        have hstatus := status_of_slot hslot
        split
        next info hlinked =>
          refine ⟨hg, .refl g, fun _ => ?_⟩
          have hknown : g.Known id := known_of_info (known_of_linked (hstatus.trans hlinked))
          simpa using hknown
        next => exact hfail _
        next => exact hfail _
        next hunlinked =>
          split
          next => exact hfail _
          next supers hsupers =>
            refine hg.link_unlinked hallowed hslot hunlinked hsupers fun c h hh => ?_
            exact ih c h hh fun e => ⟨hh, .refl h, fun hok => by cases hok⟩

end Linkage.ClassGraph
