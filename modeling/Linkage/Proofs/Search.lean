import Mathlib.Data.List.Find

namespace Linkage

theorem findIdx?_congr {α : Type} {p q : α → Bool} {l : List α} (h : ∀ a ∈ l, p a = q a) :
    l.findIdx? p = l.findIdx? q := by
  induction l with
  | nil => rfl
  | cons a rest ih =>
      rw [List.findIdx?_cons, List.findIdx?_cons, h a (by simp), ih fun b hb => h b (by simp [hb])]

theorem findSome?_congr {α β : Type} {p q : α → Option β} {l : List α} (h : ∀ a ∈ l, p a = q a) :
    l.findSome? p = l.findSome? q := by
  induction l with
  | nil => rfl
  | cons a rest ih =>
      rw [List.findSome?_cons, List.findSome?_cons, h a (by simp), ih fun b hb => h b (by simp [hb])]

theorem findSome?_eq_none_of_imp {α β : Type} {p q : α → Option β} {l : List α}
    (h : ∀ a ∈ l, ∀ b, p a = some b → q a = some b) (hnone : l.findSome? q = none) :
    l.findSome? p = none := by
  rw [List.findSome?_eq_none_iff] at hnone ⊢
  intro a ha
  cases hp : p a with
  | none => rfl
  | some b => exact (h a ha b hp).symm.trans (hnone a ha)

theorem findSome?_filter {α β : Type} {f : α → Option β} {p : β → Bool} {l : List α} {b : β}
    (h : l.findSome? f = some b) (hp : p b = true) :
    (l.findSome? fun a => (f a).filter p) = some b := by
  induction l with
  | nil => cases h
  | cons a rest ih =>
      rw [List.findSome?_cons] at h
      cases hf : f a with
      | none =>
          rw [hf] at h
          simpa [List.findSome?_cons, hf] using ih h
      | some c =>
          rw [hf] at h
          obtain rfl := Option.some.inj h
          simp [hf, hp]

theorem of_findSome?_range {α : Type} {n : Nat} {f : Nat → Option α} {a : α}
    (h : (List.range n).findSome? f = some a) :
    ∃ i < n, f i = some a ∧ ∀ j < i, f j = none := by
  induction n with
  | zero => cases h
  | succ n ih =>
      rw [List.range_succ, List.findSome?_append, Option.or_eq_some_iff] at h
      rcases h with h | ⟨hnone, h⟩
      · obtain ⟨i, hi, hrest⟩ := ih h
        exact ⟨i, Nat.lt_succ_of_lt hi, hrest⟩
      · rw [List.findSome?_eq_none_iff] at hnone
        rw [List.findSome?_singleton] at h
        exact ⟨n, Nat.lt_succ_self n, h, fun j hj => hnone j (List.mem_range.mpr hj)⟩

theorem of_findIdx? {α : Type} {l : List α} {q : α → Bool} {n : Nat}
    (h : l.findIdx? q = some n) : ∃ a, l[n]? = some a ∧ q a = true := by
  obtain ⟨hlt, hq, -⟩ := List.findIdx?_eq_some_iff_getElem.mp h
  exact ⟨l[n], List.getElem?_eq_getElem hlt, hq⟩

theorem findIdx?_of_unique {α : Type} {l : List α} {q : α → Bool} {a : α} {n : Nat}
    (ha : l[n]? = some a) (hq : q a = true)
    (hunique : ∀ {j b}, l[j]? = some b → q b = true → j = n) : l.findIdx? q = some n := by
  cases hfind : l.findIdx? q with
  | none =>
      have hno := List.findIdx?_eq_none_iff.mp hfind a (List.mem_of_getElem? ha)
      simp [hq] at hno
  | some j =>
      obtain ⟨hlt, hj, -⟩ := List.findIdx?_eq_some_iff_getElem.mp hfind
      rw [hunique (List.getElem?_eq_getElem hlt) hj]

theorem find?_of_findIdx? {α : Type} {l : List α} {q : α → Bool} {n : Nat}
    (h : l.findIdx? q = some n) : l.find? q = l[n]? := by
  rw [List.find?_eq_getElem?_findIdx, (List.findIdx?_eq_some_iff_findIdx_eq.mp h).2]

theorem findSome?_bind {α β γ : Type} {l : List α} {f : α → Option β} {h : β → Option γ}
    (hfound : ∀ b, l.findSome? f = some b → ∃ c, h b = some c) :
    (l.findSome? fun a => (f a).bind h) = (l.findSome? f).bind h := by
  induction l with
  | nil => rfl
  | cons a rest ih =>
      rw [List.findSome?_cons, List.findSome?_cons]
      rw [List.findSome?_cons] at hfound
      cases hf : f a with
      | none =>
          rw [hf] at hfound
          exact ih hfound
      | some b =>
          rw [hf] at hfound
          obtain ⟨c, hc⟩ := hfound b rfl
          simp [hc]

theorem find?_filterMap {α β : Type} [DecidableEq α] {l : List α} {f : α → Option β} {key : β → α}
    (hkey : ∀ {a b}, f a = some b → key b = a) (a : α) :
    (l.filterMap f).find? (key · = a) = if a ∈ l then f a else none := by
  induction l with
  | nil => rfl
  | cons b rest ih =>
      rw [List.filterMap_cons]
      by_cases hab : a = b
      · subst hab
        rw [if_pos List.mem_cons_self]
        cases hf : f a with
        | none =>
            rw [hf, ite_self] at ih
            exact ih
        | some e => simp [hkey hf]
      · have hmem : a ∈ b :: rest ↔ a ∈ rest := by simp [hab]
        simp only [hmem]
        cases hf : f b with
        | none => exact ih
        | some e =>
            have hne : key e ≠ a := hkey hf ▸ Ne.symm hab
            simpa [hne] using ih

theorem anyM_eq_some {α : Type} {l : List α} {f : α → Option Bool} {q : α → Bool}
    (h : ∀ a ∈ l, f a = some (q a)) : l.anyM f = some (l.any q) := by
  induction l with
  | nil => rfl
  | cons a l ih =>
      obtain ⟨ha, hl⟩ := List.forall_mem_cons.mp h
      rw [List.anyM_cons, ha, Option.bind_eq_bind, Option.bind_some, ih hl, List.any_cons]
      cases q a <;> rfl

end Linkage
