namespace Linkage.ClassName

def splitAtLast (sep : Char) : List Char → Option (List Char × List Char)
  | [] => none
  | c :: rest =>
      match splitAtLast sep rest with
      | some (before, after) => some (c :: before, after)
      | none => if c = sep then some ([], rest) else none

def package (name : String) : String :=
  match splitAtLast '/' name.toList with
  | some (before, _) => String.ofList before
  | none => ""

def simple (name : String) : String :=
  match splitAtLast '/' name.toList with
  | some (_, after) => String.ofList after
  | none => name

def samePackage (a b : String) : Bool :=
  package a == package b

variable {sep : Char} {s before after : List Char}

theorem splitAtLast_eq_none_iff : splitAtLast sep s = none ↔ sep ∉ s := by
  induction s with
  | nil => simp [splitAtLast]
  | cons c rest ih =>
      rw [splitAtLast, List.mem_cons, not_or, ← ih]
      cases splitAtLast sep rest with
      | none => simp [eq_comm]
      | some parts => simp

theorem splitAtLast_join (hafter : sep ∉ after) :
    splitAtLast sep (before ++ sep :: after) = some (before, after) := by
  induction before with
  | nil =>
      rw [List.nil_append, splitAtLast, splitAtLast_eq_none_iff.mpr hafter]
      exact if_pos rfl
  | cons c before ih => rw [List.cons_append, splitAtLast, ih]

theorem exists_last_of_mem (h : sep ∈ s) :
    ∃ before after, s = before ++ sep :: after ∧ sep ∉ after := by
  induction s with
  | nil => cases h
  | cons c rest ih =>
      by_cases hrest : sep ∈ rest
      · obtain ⟨before, after, rfl, hafter⟩ := ih hrest
        exact ⟨c :: before, after, rfl, hafter⟩
      · obtain rfl | hmem := List.mem_cons.mp h
        · exact ⟨[], rest, rfl, hrest⟩
        · exact absurd hmem hrest

theorem join_inj {before' after' : List Char} (h : sep ∉ after) (h' : sep ∉ after')
    (hjoined : before ++ sep :: after = before' ++ sep :: after') :
    before = before' ∧ after = after' := by
  have hsplit : splitAtLast sep (before ++ sep :: after) = some (before, after) :=
    splitAtLast_join h
  rw [hjoined, splitAtLast_join h'] at hsplit
  obtain ⟨hbefore, hafter⟩ := Prod.mk.inj (Option.some.inj hsplit)
  exact ⟨hbefore.symm, hafter.symm⟩

theorem package_and_simple (name : String) : '/' ∉ (simple name).toList ∧
    ('/' ∉ name.toList ∧ package name = "" ∧ simple name = name ∨
      name = package name ++ "/" ++ simple name) := by
  by_cases h : '/' ∈ name.toList
  · obtain ⟨before, after, hname, hafter⟩ := exists_last_of_mem h
    have hpackage : package name = String.ofList before := by
      rw [package, hname, splitAtLast_join hafter]
    have hsimple : simple name = String.ofList after := by
      rw [simple, hname, splitAtLast_join hafter]
    refine ⟨by rwa [hsimple, String.toList_ofList], .inr ?_⟩
    rw [hpackage, hsimple, ← String.toList_inj, hname]
    simp
  · have hpackage : package name = "" := by rw [package, splitAtLast_eq_none_iff.mpr h]
    have hsimple : simple name = name := by rw [simple, splitAtLast_eq_none_iff.mpr h]
    exact ⟨by rwa [hsimple], .inl ⟨h, hpackage, hsimple⟩⟩

end Linkage.ClassName
