import Linkage.Proofs.Defaults
import Linkage.Proofs.Outcome

namespace Linkage.ClassGraph

open Outcome

variable {g : ClassGraph} {id : ClassId} {info : ClassInfo} {t t' : List MethodRef}
  {x m : MethodRef} {own : List MethodRef}

theorem placeDeclared_ok (h : g.placeDeclared id t x = .ok t') :
    ((∀ m ∈ t, g.overrides x m = false) ∧ t' = t ++ [x]) ∨
      ∃ slot m, t[slot]? = some m ∧ g.overrides x m = true ∧ t' = t.set slot x ∧
        ∀ j o, t[j]? = some o → g.overrides x o = true → j = slot := by
  unfold placeDeclared at h
  split at h
  next hnone =>
    simp only [Except.ok.injEq] at h
    exact .inl ⟨List.findIdx?_eq_none_iff.mp hnone, h.symm⟩
  next slot hslot =>
    obtain ⟨hlt, hover, -⟩ := List.findIdx?_eq_some_iff_getElem.mp hslot
    dsimp only at h
    split at h
    next hothers =>
      simp only [Except.ok.injEq] at h
      refine .inr ⟨slot, t[slot], List.getElem?_eq_getElem hlt, hover, h.symm, ?_⟩
      intro j o hj ho
      by_contra hne
      have hmem : (j, o) ∈ g.overriddenSlots x (t.set slot x) := by
        simp only [overriddenSlots, List.mem_map, List.mem_filter, List.mem_zipIdx_iff_getElem?]
        refine ⟨(o, j), ⟨?_, ho⟩, rfl⟩
        rw [List.getElem?_set_ne (Ne.symm hne)]
        exact hj
      have := List.filter_eq_nil_iff.mp hothers (j, o) hmem
      simp [hne] at this
    next => simp at h

def overrider (g : ClassGraph) (own : List MethodRef) (m : MethodRef) : MethodRef :=
  (own.find? (g.overrides · m)).getD m

def DistinctKeys (g : ClassGraph) (own : List MethodRef) : Prop :=
  own.Pairwise fun a b => g.key? a ≠ g.key? b

theorem overrider_cons_of_overrides (h : g.overrides x m = true) :
    g.overrider (x :: own) m = x := by
  simp [overrider, h]

theorem overrider_cons_of_not (h : g.overrides x m = false) :
    g.overrider (x :: own) m = g.overrider own m := by
  simp [overrider, h]

theorem overrider_of_none (h : ∀ y ∈ own, g.overrides y m = false) : g.overrider own m = m := by
  rw [overrider, List.find?_eq_none.mpr fun y hy => by simp [h y hy]]
  rfl

def placed (g : ClassGraph) (own t : List MethodRef) : List MethodRef :=
  t.map (g.overrider own) ++ own.filter fun x => !t.any (g.overrides x)

def OverridesOnce (g : ClassGraph) (x : MethodRef) (t : List MethodRef) : Prop :=
  ∀ (i j : Nat) (a b : MethodRef), t[i]? = some a → t[j]? = some b → g.overrides x a = true →
    g.overrides x b = true → i = j

theorem placed_nil : g.placed [] t = t := by
  have hmap : t.map (g.overrider []) = t.map id := List.map_congr_left fun _ _ => rfl
  rw [placed, hmap, List.map_id, List.filter_nil, List.append_nil]

theorem placed_cons_of_free (hself : ∀ y ∈ own, g.overrides y x = false)
    (hfree : ∀ m ∈ t, g.overrides x m = false) :
    g.placed own (t ++ [x]) = g.placed (x :: own) t := by
  have hmap : t.map (g.overrider (x :: own)) = t.map (g.overrider own) :=
    List.map_congr_left fun m hm => overrider_cons_of_not (hfree m hm)
  have hfilter : (own.filter fun y => !(t ++ [x]).any (g.overrides y)) =
      own.filter fun y => !t.any (g.overrides y) :=
    List.filter_congr fun y hy => by simp [hself y hy]
  have hkeep : (!t.any (g.overrides x)) = true := by
    simpa using hfree
  rw [placed, placed, hmap, hfilter, List.map_append,
    List.filter_cons_of_pos (p := fun y => !t.any (g.overrides y)) hkeep, List.map_singleton,
    overrider_of_none hself, List.append_assoc, List.singleton_append]

theorem map_overrider_set {slot : Nat} (hself : ∀ y ∈ own, g.overrides y x = false)
    (hslot : t[slot]? = some m) (hover : g.overrides x m = true) (honce : g.OverridesOnce x t) :
    (t.set slot x).map (g.overrider own) = t.map (g.overrider (x :: own)) := by
  refine List.ext_getElem? fun i => ?_
  rw [List.getElem?_map, List.getElem?_map, List.getElem?_set]
  by_cases hi : slot = i
  · subst hi
    have hlt := (List.getElem?_eq_some_iff.mp hslot).1
    rw [if_pos rfl, if_pos hlt, hslot, Option.map_some, Option.map_some,
      overrider_of_none hself, overrider_cons_of_overrides hover]
  · rw [if_neg hi]
    cases hget : t[i]? with
    | none => rfl
    | some o =>
        have hnot : g.overrides x o = false := by
          by_contra ho
          rw [Bool.not_eq_false] at ho
          exact hi (honce slot i m o hslot hget hover ho)
        simp [overrider_cons_of_not hnot]

theorem any_overrides_set {slot : Nat} {y : MethodRef} (hself : g.overrides y x = false)
    (hslot : t[slot]? = some m) (hy : g.overrides y m = false) :
    (t.set slot x).any (g.overrides y) = t.any (g.overrides y) := by
  rw [Bool.eq_iff_iff, List.any_eq_true, List.any_eq_true]
  constructor
  · rintro ⟨o, ho, hyo⟩
    rcases List.mem_or_eq_of_mem_set ho with ho | rfl
    · exact ⟨o, ho, hyo⟩
    · simp [hself] at hyo
  · rintro ⟨o, ho, hyo⟩
    obtain ⟨i, hi⟩ := List.mem_iff_getElem?.mp ho
    refine ⟨o, List.mem_iff_getElem?.mpr ⟨i, ?_⟩, hyo⟩
    rw [List.getElem?_set_ne, hi]
    rintro rfl
    rw [hslot, Option.some.injEq] at hi
    simp [← hi, hy] at hyo

theorem placed_cons_of_overrides {slot : Nat} (hself : ∀ y ∈ own, g.overrides y x = false)
    (hslot : t[slot]? = some m) (hover : g.overrides x m = true) (honce : g.OverridesOnce x t)
    (hclash : ∀ y ∈ own, g.overrides y m = false) :
    g.placed own (t.set slot x) = g.placed (x :: own) t := by
  have hdrop : ¬(!t.any (g.overrides x)) = true := by
    simpa using ⟨m, List.mem_of_getElem? hslot, hover⟩
  rw [placed, placed, map_overrider_set hself hslot hover honce,
    List.filter_cons_of_neg (p := fun y => !t.any (g.overrides y)) hdrop]
  congr 1
  exact List.filter_congr fun y hy => by rw [any_overrides_set (hself y hy) hslot (hclash y hy)]

theorem OverridesOnce.of_append {y : MethodRef} (h : g.OverridesOnce y (t ++ [x])) :
    g.OverridesOnce y t := by
  intro i j a b hi hj
  have hgrow : ∀ {k : Nat} {o}, t[k]? = some o → (t ++ [x])[k]? = some o := by
    intro k o hk
    rw [List.getElem?_append_left (List.getElem?_eq_some_iff.mp hk).1]
    exact hk
  exact h i j a b (hgrow hi) (hgrow hj)

theorem OverridesOnce.of_set {y : MethodRef} {slot : Nat} (h : g.OverridesOnce y (t.set slot x))
    (hslot : t[slot]? = some m) (hy : g.overrides y m = false) : g.OverridesOnce y t := by
  intro i j a b hi hj hya hyb
  have hstay : ∀ {k : Nat} {o}, t[k]? = some o → g.overrides y o = true →
      (t.set slot x)[k]? = some o := by
    intro k o hk hyo
    rw [List.getElem?_set_ne, hk]
    rintro rfl
    rw [hslot, Option.some.injEq] at hk
    simp [← hk, hy] at hyo
  exact h i j a b (hstay hi hya) (hstay hj hyb) hya hyb

theorem Hierarchical.overrides_of_key_ne (hg : g.Hierarchical) (h : g.key? x ≠ g.key? m) :
    g.overrides x m = false := by
  by_contra hover
  rw [Bool.not_eq_false] at hover
  exact h (hg.key_of_overrides hover)

theorem Hierarchical.placeDeclared_foldlM (hg : g.Hierarchical) (hown : g.DistinctKeys own)
    (h : own.foldlM (g.placeDeclared id) t = .ok t') :
    t' = g.placed own t ∧ ∀ x ∈ own, g.OverridesOnce x t := by
  induction own generalizing t with
  | nil => exact ⟨(pure_ok_iff.mp h).symm.trans placed_nil.symm, by simp⟩
  | cons x rest ih =>
      rw [List.foldlM_cons, bind_ok_iff] at h
      obtain ⟨mid, hmid, hrest⟩ := h
      obtain ⟨hx, hdistinct⟩ := List.pairwise_cons.mp hown
      obtain ⟨rfl, honce⟩ := ih hdistinct hrest
      have hself : ∀ y ∈ rest, g.overrides y x = false := fun y hy =>
        hg.overrides_of_key_ne (Ne.symm (hx y hy))
      rcases placeDeclared_ok hmid with ⟨hfree, rfl⟩ | ⟨slot, m, hslot, hover, rfl, honly⟩
      · refine ⟨placed_cons_of_free hself hfree, List.forall_mem_cons.mpr ⟨?_, ?_⟩⟩
        · intro i j a b hi _ hxa _
          simp [hfree a (List.mem_of_getElem? hi)] at hxa
        · exact fun y hy => (honce y hy).of_append
      · have hclash : ∀ y ∈ rest, g.overrides y m = false := fun y hy =>
          hg.overrides_of_key_ne (hg.key_of_overrides hover ▸ Ne.symm (hx y hy))
        have honceX : g.OverridesOnce x t := fun i j a b hi hj hxa hxb =>
          (honly i a hi hxa).trans (honly j b hj hxb).symm
        refine ⟨placed_cons_of_overrides hself hslot hover honceX hclash,
          List.forall_mem_cons.mpr ⟨honceX, ?_⟩⟩
        exact fun y hy => (honce y hy).of_set hslot (hclash y hy)

end Linkage.ClassGraph
