import Linkage.Proofs.MethodTable

namespace Linkage.ClassGraph

open Outcome

variable {g : ClassGraph} {id : ClassId} {t t' t'' : List MethodRef} {m m' o : MethodRef}
  {p : MethodRef × MethodInfo} {name descriptor : String}

def Picked (g : ClassGraph) (id : ClassId) (m : MethodRef) : Prop :=
  ∃ p ∈ g.interfaceMethods id, m ∈ g.interfaceCandidates id p.2.name p.2.descriptor ∧
    (g.concreteDefaults id p.2.name p.2.descriptor = [m] ∨
      g.concreteDefaults id p.2.name p.2.descriptor = [] ∧ g.methodHas m (·.isAbstract) = true)

def OnlyDefault (g : ClassGraph) (id : ClassId) (m m' : MethodRef) : Prop :=
  ∃ p ∈ g.interfaceMethods id, g.key? m = g.key? p.1 ∧
    g.concreteDefaults id p.2.name p.2.descriptor = [m']

structure Fills (g : ClassGraph) (id : ClassId) (t t' : List MethodRef) : Prop where
  length_le : t.length ≤ t'.length
  ofClass : ∀ {i : Nat} {m : MethodRef}, t[i]? = some m → g.isInterface m.owner = false →
    t'[i]? = some m
  ofInterface : ∀ {i : Nat} {m : MethodRef}, t[i]? = some m → g.isInterface m.owner = true →
    ∃ m', t'[i]? = some m' ∧ (m' = m ∨ g.OnlyDefault id m m')
  appended : ∀ {i : Nat} {m : MethodRef}, t.length ≤ i → t'[i]? = some m →
    g.Picked id m ∧ ∀ o ∈ t, g.key? o ≠ g.key? m
  single : ∀ {i j : Nat} {a b : MethodRef}, t.length ≤ i → t.length ≤ j → t'[i]? = some a →
    t'[j]? = some b → g.key? a = g.key? b → i = j

theorem mem_candidates_of_concreteDefaults (h : g.concreteDefaults id name descriptor = [m]) :
    m ∈ g.interfaceCandidates id name descriptor := by
  have hm : m ∈ g.concreteDefaults id name descriptor := h ▸ List.mem_singleton_self m
  exact mem_candidates_of_maximallySpecific (mem_concreteDefaults_iff.mp hm).1

theorem WellFormed.of_candidate (hg : g.WellFormed)
    (h : m ∈ g.interfaceCandidates id name descriptor) :
    g.isInterface m.owner = true ∧ g.key? m = some (name, descriptor) := by
  obtain ⟨howner, hkey, -⟩ := hg.mem_interfaceCandidates_iff.mp h
  exact ⟨(mem_superinterfaces_iff.mp howner).2, hkey⟩

theorem WellFormed.of_picked (hg : g.WellFormed) (h : g.Picked id m) :
    m.owner ∈ g.superinterfaces id ∧ g.isInterface m.owner = true ∧
      g.methodHas m (·.isInheritable) = true ∧ ∃ p ∈ g.interfaceMethods id, g.key? m = g.key? p.1 := by
  obtain ⟨p, hp, hm, -⟩ := h
  obtain ⟨howner, hkey, hinherit⟩ := hg.mem_interfaceCandidates_iff.mp hm
  exact ⟨howner, (mem_superinterfaces_iff.mp howner).2, hinherit, p, hp,
    hkey.trans (hg.of_interfaceMethod hp).2.1.symm⟩

theorem OnlyDefault.picked (h : g.OnlyDefault id m m') : g.Picked id m' := by
  obtain ⟨p, hp, -, hdefault⟩ := h
  exact ⟨p, hp, mem_candidates_of_concreteDefaults hdefault, .inl hdefault⟩

theorem OnlyDefault.key (hg : g.WellFormed) (h : g.OnlyDefault id m m') : g.key? m' = g.key? m := by
  obtain ⟨p, hp, hkey, hdefault⟩ := h
  rw [hkey, (hg.of_candidate (mem_candidates_of_concreteDefaults hdefault)).2,
    (hg.of_interfaceMethod hp).2.1]

theorem OnlyDefault.congr (hkey : g.key? m = g.key? o) (h : g.OnlyDefault id m m') :
    g.OnlyDefault id o m' := by
  obtain ⟨p, hp, hm, hdefault⟩ := h
  exact ⟨p, hp, hkey ▸ hm, hdefault⟩

theorem Fills.refl (g : ClassGraph) (id : ClassId) (t : List MethodRef) : g.Fills id t t where
  length_le := Nat.le_refl _
  ofClass := fun h _ => h
  ofInterface := fun h _ => ⟨_, h, .inl rfl⟩
  appended := fun hle h => absurd (List.getElem?_eq_some_iff.mp h).1 (Nat.not_lt.mpr hle)
  single := fun hle _ h _ _ => absurd (List.getElem?_eq_some_iff.mp h).1 (Nat.not_lt.mpr hle)

theorem Fills.grow (h : g.Fills id t t') (hg : g.WellFormed) {n : Nat} (hm : t[n]? = some m) :
    ∃ m', t'[n]? = some m' ∧ g.key? m' = g.key? m ∧ g.isInterface m'.owner = g.isInterface m.owner ∧
      (m' = m ∨ g.OnlyDefault id m m') := by
  cases hkind : g.isInterface m.owner with
  | false => exact ⟨m, h.ofClass hm hkind, rfl, hkind, .inl rfl⟩
  | true =>
      obtain ⟨m', hm', hcase⟩ := h.ofInterface hm hkind
      refine ⟨m', hm', ?_, ?_, hcase⟩
      · rcases hcase with rfl | honly
        · rfl
        · exact honly.key hg
      · rcases hcase with rfl | honly
        · exact hkind
        · exact (hg.of_picked honly.picked).2.1

theorem Fills.slot (h : g.Fills id t t') (hg : g.WellFormed) {n : Nat} (hm : t'[n]? = some m) :
    (∃ o, t[n]? = some o ∧ g.key? m = g.key? o ∧
        g.isInterface m.owner = g.isInterface o.owner ∧ (m = o ∨ g.OnlyDefault id o m)) ∨
      t.length ≤ n := by
  cases ho : t[n]? with
  | none => exact .inr (List.getElem?_eq_none_iff.mp ho)
  | some o =>
      obtain ⟨m', hm', hkey, hkind, hcase⟩ := h.grow hg ho
      obtain rfl := Option.some.inj (hm.symm.trans hm')
      exact .inl ⟨o, rfl, hkey, hkind, hcase⟩

theorem Fills.back (h : g.Fills id t t') (hg : g.WellFormed) {n : Nat} (hm : t'[n]? = some m) :
    g.Picked id m ∨ t[n]? = some m := by
  rcases h.slot hg hm with ⟨o, ho, -, -, rfl | honly⟩ | hn
  · exact .inr ho
  · exact .inl honly.picked
  · exact .inl (h.appended hn hm).1

theorem Fills.trans (hg : g.WellFormed) (h : g.Fills id t t') (h' : g.Fills id t' t'') :
    g.Fills id t t'' where
  length_le := h.length_le.trans h'.length_le
  ofClass := fun hm hkind => h'.ofClass (h.ofClass hm hkind) hkind
  ofInterface := by
    intro n m hm hkind
    obtain ⟨m', hm', hkey, hkind', hcase⟩ := h.grow hg hm
    obtain ⟨m'', hm'', hcase'⟩ := h'.ofInterface hm' (hkind'.trans hkind)
    refine ⟨m'', hm'', ?_⟩
    rcases hcase' with rfl | honly
    · exact hcase
    · exact .inr (honly.congr hkey)
  appended := by
    intro n m hn hm
    rcases h'.slot hg hm with ⟨o, ho, hkey, -, hcase⟩ | hn'
    · obtain ⟨hpicked, hfresh⟩ := h.appended hn ho
      refine ⟨?_, fun u hu => hkey ▸ hfresh u hu⟩
      rcases hcase with rfl | honly
      · exact hpicked
      · exact honly.picked
    · obtain ⟨hpicked, hfresh⟩ := h'.appended hn' hm
      refine ⟨hpicked, fun o ho => ?_⟩
      obtain ⟨k, hk⟩ := List.mem_iff_getElem?.mp ho
      obtain ⟨o', ho', hkey, -⟩ := h.grow hg hk
      exact hkey ▸ hfresh o' (List.mem_of_getElem? ho')
  single := by
    intro n k a b hn hk ha hb hkey
    rcases h'.slot hg ha with ⟨a', ha', hkeya, -⟩ | hn'
    · rcases h'.slot hg hb with ⟨b', hb', hkeyb, -⟩ | hk'
      · exact h.single hn hk ha' hb' (hkeya.symm.trans (hkey.trans hkeyb))
      · have hfresh := (h'.appended hk' hb).2 a' (List.mem_of_getElem? ha')
        exact absurd (hkeya.symm.trans hkey) hfresh
    · rcases h'.slot hg hb with ⟨b', hb', hkeyb, -⟩ | hk'
      · have hfresh := (h'.appended hn' ha).2 b' (List.mem_of_getElem? hb')
        exact absurd (hkeyb.symm.trans hkey.symm) hfresh
      · exact h'.single hn' hk' ha hb hkey

theorem chooseDefault_ok {choice : Option MethodRef}
    (h : g.chooseDefault id name descriptor = .ok choice) :
    (g.concreteDefaults id name descriptor = [] ∧ choice = none) ∨
      ∃ m, g.concreteDefaults id name descriptor = [m] ∧ choice = some m := by
  unfold chooseDefault at h
  split at h
  next hnil => exact .inl ⟨hnil, by simpa using h.symm⟩
  next m hone => exact .inr ⟨m, hone, by simpa using h.symm⟩
  next => simp at h

theorem placeInterfaceMethod_ok (h : g.placeInterfaceMethod id t p = .ok t')
    (hkey : g.key? p.1 = some (p.2.name, p.2.descriptor)) :
    ((∀ m ∈ t, g.key? m ≠ g.key? p.1) ∧ ∃ m, t' = t ++ [m] ∧
        (g.concreteDefaults id p.2.name p.2.descriptor = [m] ∨
          g.concreteDefaults id p.2.name p.2.descriptor = [] ∧
            m = ((g.maximallySpecific id p.2.name p.2.descriptor).head?).getD p.1)) ∨
      ∃ slot o, t[slot]? = some o ∧ g.key? o = g.key? p.1 ∧
        (g.isInterface o.owner = false ∧ t' = t ∨ g.isInterface o.owner = true ∧
          (g.concreteDefaults id p.2.name p.2.descriptor = [] ∧ t' = t ∨
            ∃ m, g.concreteDefaults id p.2.name p.2.descriptor = [m] ∧ t' = t.set slot m)) := by
  unfold placeInterfaceMethod at h
  dsimp only at h
  split at h
  next hnone =>
    refine .inl ⟨fun m hm => ?_, ?_⟩
    · intro hsame
      have := List.findIdx?_eq_none_iff.mp hnone m hm
      rw [methodHas_isNamed_iff.mpr (hsame.trans hkey)] at this
      simp at this
    · obtain ⟨choice, hchoice, h⟩ := bind_ok_iff.mp h
      rcases chooseDefault_ok hchoice with ⟨hnil, rfl⟩ | ⟨m, hone, rfl⟩
      · exact ⟨_, (pure_ok_iff.mp h).symm, .inr ⟨hnil, rfl⟩⟩
      · exact ⟨m, (pure_ok_iff.mp h).symm, .inl hone⟩
  next slot hslot =>
    obtain ⟨hlt, hnamed, -⟩ := List.findIdx?_eq_some_iff_getElem.mp hslot
    refine .inr ⟨slot, t[slot], List.getElem?_eq_getElem hlt,
      (methodHas_isNamed_iff.mp hnamed).trans hkey.symm, ?_⟩
    rw [List.getElem?_eq_getElem hlt, Option.any_some] at h
    split at h
    next hkind =>
      obtain ⟨choice, hchoice, h⟩ := bind_ok_iff.mp h
      rcases chooseDefault_ok hchoice with ⟨hnil, rfl⟩ | ⟨m, hone, rfl⟩
      · exact .inr ⟨hkind, .inl ⟨hnil, (pure_ok_iff.mp h).symm⟩⟩
      · exact .inr ⟨hkind, .inr ⟨m, hone, (pure_ok_iff.mp h).symm⟩⟩
    next hkind => exact .inl ⟨by simpa using hkind, (pure_ok_iff.mp h).symm⟩

theorem fills_append (hpicked : g.Picked id m) (hfresh : ∀ o ∈ t, g.key? o ≠ g.key? m) :
    g.Fills id t (t ++ [m]) := by
  have hgrow : ∀ {n : Nat} {o}, t[n]? = some o → (t ++ [m])[n]? = some o := by
    intro n o hn
    rw [List.getElem?_append_left (List.getElem?_eq_some_iff.mp hn).1]
    exact hn
  have hlast : ∀ {n : Nat} {o}, t.length ≤ n → (t ++ [m])[n]? = some o → n = t.length ∧ o = m := by
    intro n o hle hn
    rw [List.getElem?_append_right hle, List.getElem?_singleton] at hn
    split at hn
    next heq => exact ⟨by omega, by simpa using hn.symm⟩
    next => simp at hn
  exact {
    length_le := by simp
    ofClass := fun h _ => hgrow h
    ofInterface := fun h _ => ⟨_, hgrow h, .inl rfl⟩
    appended := fun hle h => by
      obtain ⟨-, rfl⟩ := hlast hle h
      exact ⟨hpicked, hfresh⟩
    single := fun hi hj ha hb _ => (hlast hi ha).1.trans (hlast hj hb).1.symm }

theorem fills_set {slot : Nat} (hslot : t[slot]? = some o) (hkind : g.isInterface o.owner = true)
    (honly : g.OnlyDefault id o m) : g.Fills id t (t.set slot m) where
  length_le := by simp
  ofClass := by
    intro n a ha hclass
    rw [List.getElem?_set_ne, ha]
    rintro rfl
    rw [hslot, Option.some.injEq] at ha
    simp [← ha, hkind] at hclass
  ofInterface := by
    intro n a ha _
    by_cases hn : slot = n
    · subst hn
      rw [hslot, Option.some.injEq] at ha
      subst ha
      exact ⟨m, List.getElem?_set_self (List.getElem?_eq_some_iff.mp hslot).1, .inr honly⟩
    · exact ⟨a, by rw [List.getElem?_set_ne hn, ha], .inl rfl⟩
  appended := by
    intro n a hle ha
    have := (List.getElem?_eq_some_iff.mp ha).1
    simp at this
    omega
  single := by
    intro n k a b hle _ ha
    have := (List.getElem?_eq_some_iff.mp ha).1
    simp at this
    omega

theorem WellFormed.interfaceMethod_mem_candidates (hg : g.WellFormed)
    (hp : p ∈ g.interfaceMethods id) :
    p.1 ∈ g.interfaceCandidates id p.2.name p.2.descriptor := by
  rw [hg.mem_interfaceCandidates_iff]
  exact hg.of_interfaceMethod hp

theorem WellFormed.picked_of_choice (hg : g.WellFormed) (hp : p ∈ g.interfaceMethods id)
    (hchoice : g.concreteDefaults id p.2.name p.2.descriptor = [m] ∨
      g.concreteDefaults id p.2.name p.2.descriptor = [] ∧
        m = ((g.maximallySpecific id p.2.name p.2.descriptor).head?).getD p.1) :
    g.Picked id m ∧ g.key? m = g.key? p.1 := by
  rw [(hg.of_interfaceMethod hp).2.1]
  rcases hchoice with hone | ⟨hnil, rfl⟩
  · have hm := mem_candidates_of_concreteDefaults hone
    exact ⟨⟨p, hp, hm, .inl hone⟩, (hg.of_candidate hm).2⟩
  · obtain ⟨top, rest, htop⟩ := List.exists_cons_of_ne_nil
      (hg.maximallySpecific_ne_nil (hg.interfaceMethod_mem_candidates hp))
    have hspecific : top ∈ g.maximallySpecific id p.2.name p.2.descriptor :=
      htop ▸ List.mem_cons_self
    have hcandidate := mem_candidates_of_maximallySpecific hspecific
    rw [htop, List.head?_cons, Option.getD_some]
    refine ⟨⟨p, hp, hcandidate, .inr ⟨hnil, ?_⟩⟩, (hg.of_candidate hcandidate).2⟩
    obtain ⟨mi, hmi, -⟩ := methodHas_iff.mp (hg.mem_interfaceCandidates_iff.mp hcandidate).2.2
    by_contra habstract
    have hconcrete : top ∈ g.concreteDefaults id p.2.name p.2.descriptor := by
      rw [mem_concreteDefaults_iff, methodHas_iff]
      rw [methodHas_iff] at habstract
      exact ⟨hspecific, mi, hmi, by simpa using fun h => habstract ⟨mi, hmi, h⟩⟩
    simp [hnil] at hconcrete

theorem WellFormed.placeInterfaceMethod_fills (hg : g.WellFormed)
    (hp : p ∈ g.interfaceMethods id) (h : g.placeInterfaceMethod id t p = .ok t') :
    g.Fills id t t' := by
  have hkey := (hg.of_interfaceMethod hp).2.1
  rcases placeInterfaceMethod_ok h hkey with ⟨hfresh, m, rfl, hchoice⟩ | ⟨slot, o, hslot, hsame, hcase⟩
  · obtain ⟨hpicked, hkeym⟩ := hg.picked_of_choice hp hchoice
    exact fills_append hpicked fun o ho => hkeym ▸ hfresh o ho
  · rcases hcase with ⟨-, rfl⟩ | ⟨hkind, ⟨-, rfl⟩ | ⟨m, hone, rfl⟩⟩
    · exact .refl g id t'
    · exact .refl g id t'
    · exact fills_set hslot hkind ⟨p, hp, hsame, hone⟩

theorem WellFormed.placeInterfaceMethods_fill (hg : g.WellFormed)
    {l : List (MethodRef × MethodInfo)} (hl : ∀ p ∈ l, p ∈ g.interfaceMethods id)
    (h : l.foldlM (g.placeInterfaceMethod id) t = .ok t') : g.Fills id t t' := by
  refine foldlM_keeps (g.Fills id t) ?_ (.refl g id t) h
  intro acc p next hp hacc hstep
  exact hacc.trans hg (hg.placeInterfaceMethod_fills (hl p hp) hstep)

theorem WellFormed.placeInterfaceMethods_cover (hg : g.WellFormed)
    {l : List (MethodRef × MethodInfo)} (hl : ∀ p ∈ l, p ∈ g.interfaceMethods id) (hp : p ∈ l)
    (h : l.foldlM (g.placeInterfaceMethod id) t = .ok t') :
    ∃ m ∈ t', g.key? m = g.key? p.1 := by
  obtain ⟨pre, post, before, after, rfl, -, hstep, hpost⟩ := foldlM_through hp h
  have hfills := hg.placeInterfaceMethods_fill (fun q hq => hl q (by simp [hq])) hpost
  have hkey := (hg.of_interfaceMethod (hl p hp)).2.1
  have hafter : ∃ (n : Nat) (m : MethodRef), after[n]? = some m ∧ g.key? m = g.key? p.1 := by
    have hstepFills := hg.placeInterfaceMethod_fills (hl p hp) hstep
    rcases placeInterfaceMethod_ok hstep hkey with ⟨-, m, rfl, hchoice⟩ | ⟨slot, o, hslot, hsame, -⟩
    · exact ⟨before.length, m, by simp, (hg.picked_of_choice (hl p hp) hchoice).2⟩
    · obtain ⟨o', ho', hkey', -⟩ := hstepFills.grow hg hslot
      exact ⟨slot, o', ho', hkey'.trans hsame⟩
  obtain ⟨n, m, hm, hkeym⟩ := hafter
  obtain ⟨m', hm', hkey', -⟩ := hfills.grow hg hm
  exact ⟨m', List.mem_of_getElem? hm', hkey'.trans hkeym⟩

theorem WellFormed.placeInterfaceMethods_settle (hg : g.WellFormed)
    {l : List (MethodRef × MethodInfo)} (hl : ∀ p ∈ l, p ∈ g.interfaceMethods id) (hp : p ∈ l)
    (hfree : ∀ m ∈ t, g.key? m = g.key? p.1 → g.isInterface m.owner = true)
    (h : l.foldlM (g.placeInterfaceMethod id) t = .ok t') :
    g.concreteDefaults id p.2.name p.2.descriptor = [] ∨
      ∃ m ∈ t', g.concreteDefaults id p.2.name p.2.descriptor = [m] := by
  obtain ⟨pre, post, before, after, rfl, hpre, hstep, hpost⟩ := foldlM_through hp h
  have hfillsPre := hg.placeInterfaceMethods_fill (fun q hq => hl q (by simp [hq])) hpre
  have hfillsPost := hg.placeInterfaceMethods_fill (fun q hq => hl q (by simp [hq])) hpost
  have hkey := (hg.of_interfaceMethod (hl p hp)).2.1
  -- Methods placed later may fill the slot again, but only with the same default method.
  have hstay : ∀ {n : Nat} {m : MethodRef}, after[n]? = some m →
      g.concreteDefaults id p.2.name p.2.descriptor = [m] → m ∈ t' := by
    intro n m hm hone
    obtain ⟨m', hm', -, -, rfl | ⟨q, hq, hkeym, hone'⟩⟩ := hfillsPost.grow hg hm
    · exact List.mem_of_getElem? hm'
    · have hkeyp := (hg.of_candidate (mem_candidates_of_concreteDefaults hone)).2
      rw [hkeym, (hg.of_interfaceMethod hq).2.1, Option.some.injEq, Prod.mk.injEq] at hkeyp
      rw [hkeyp.1, hkeyp.2, hone, List.cons.injEq] at hone'
      exact hone'.1 ▸ List.mem_of_getElem? hm'
  rcases placeInterfaceMethod_ok hstep hkey with ⟨-, m, rfl, hchoice⟩ | ⟨slot, o, hslot, hsame, hcase⟩
  · rcases hchoice with hone | ⟨hnil, -⟩
    · exact .inr ⟨m, hstay (n := before.length) (by simp) hone, hone⟩
    · exact .inl hnil
  · rcases hcase with ⟨hclass, -⟩ | ⟨-, ⟨hnil, -⟩ | ⟨m, hone, rfl⟩⟩
    · rcases hfillsPre.back hg hslot with hpicked | ho
      · simp [(hg.of_picked hpicked).2.1] at hclass
      · simp [hfree o (List.mem_of_getElem? ho) hsame] at hclass
    · exact .inl hnil
    · have hlt := (List.getElem?_eq_some_iff.mp hslot).1
      exact .inr ⟨m, hstay (n := slot) (List.getElem?_set_self hlt) hone, hone⟩

end Linkage.ClassGraph
