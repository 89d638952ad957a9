import Linkage.Graph.Info

namespace Linkage.InterfaceEntry

variable {slots : List InterfaceSlot} {methodIndex : Nat}

def Ordered (slots : List InterfaceSlot) : Prop :=
  slots.Pairwise fun a b => a.methodIndex < b.methodIndex

theorem Ordered.getElem_le (h : Ordered slots) {i j : Nat} (hij : i ≤ j) (hj : j < slots.length) :
    (slots[i]).methodIndex ≤ (slots[j]).methodIndex := by
  rcases Nat.lt_or_eq_of_le hij with hlt | rfl
  · exact Nat.le_of_lt (List.pairwise_iff_getElem.mp h i j (by omega) hj hlt)
  · exact Nat.le_refl _

theorem find?_split (slots : List InterfaceSlot) (n : Nat) : slots.find? (·.methodIndex = methodIndex) =
    ((slots.take n).find? (·.methodIndex = methodIndex)).or
      ((slots.drop n).find? (·.methodIndex = methodIndex)) := by
  rw [← List.find?_append, List.take_append_drop]

theorem find?_eq_none_of_ne {part : List InterfaceSlot}
    (h : ∀ s ∈ part, s.methodIndex ≠ methodIndex) :
    part.find? (·.methodIndex = methodIndex) = none :=
  List.find?_eq_none.mpr fun s hs => by simpa using h s hs

theorem Ordered.drop_ne (h : Ordered slots) {n : Nat} (hn : slots.length / 2 ≤ n)
    (hlen : slots.length / 2 < slots.length)
    (hlt : methodIndex < (slots[slots.length / 2]).methodIndex) :
    ∀ s ∈ slots.drop n, s.methodIndex ≠ methodIndex := by
  intro s hs
  obtain ⟨i, hi, rfl⟩ := List.mem_iff_getElem.mp hs
  rw [List.length_drop] at hi
  rw [List.getElem_drop]
  have hle := h.getElem_le (show slots.length / 2 ≤ n + i by omega) (by omega)
  omega

theorem Ordered.take_ne (h : Ordered slots) (hlen : slots.length / 2 < slots.length)
    (hge : ¬methodIndex < (slots[slots.length / 2]).methodIndex) :
    ∀ s ∈ slots.take (slots.length / 2), s.methodIndex ≠ methodIndex := by
  intro s hs
  obtain ⟨i, hi, rfl⟩ := List.mem_iff_getElem.mp hs
  rw [List.length_take] at hi
  rw [List.getElem_take]
  have hlt := List.pairwise_iff_getElem.mp h i (slots.length / 2) (by omega) hlen (by omega)
  omega

theorem search_eq_find? (h : Ordered slots) :
    search methodIndex slots = slots.find? (·.methodIndex = methodIndex) := by
  fun_induction search methodIndex slots with
  | case1 slots hlen hhalf hlt ih =>
      rw [ih (h.sublist (List.take_sublist _ _)), find?_split slots (slots.length - slots.length / 2),
        find?_eq_none_of_ne (h.drop_ne (by omega) hhalf hlt), Option.or_none]
  | case2 slots hlen hhalf hge ih =>
      rw [ih (h.sublist (List.drop_sublist _ _)), find?_split slots (slots.length / 2),
        find?_eq_none_of_ne (h.take_ne hhalf hge), Option.none_or]
  | case3 slots hlen =>
      match slots, hlen with
      | [], _ => rfl
      | [s], _ =>
          rw [List.head?_cons, Option.filter_some, List.find?_cons, List.find?_nil]
          cases decide (s.methodIndex = methodIndex) <;> rfl
      | _ :: _ :: _, hlen => simp at hlen

end Linkage.InterfaceEntry
