import Linkage.Proofs.Identifiers

namespace Linkage.Mangle

open Text

theorem isWord_spell (c : Char) : IsWord (String.ofList (spell c)) := by
  intro d hd
  rw [String.toList_ofList] at hd
  unfold spell at hd
  split at hd
  next hplain =>
    obtain rfl := List.mem_singleton.mp hd
    exact .inl (isPlain_eq d ▸ hplain)
  next =>
    split at hd
    next => exact .inr (List.mem_singleton.mp hd)
    next =>
      -- A code point is a letter and hexadecimal digits, four or eight of them.
      split at hd
      all_goals
        rcases List.mem_cons.mp hd with rfl | hd
        · exact .inl (by decide)
        · exact .inl (isAlphanum_of_mem_hex hd)

theorem isWord_identifier (name : String) : IsWord (identifier name) :=
  isWord_flatMap isWord_spell name.toList

theorem isDigit_of_mem_decimal {n : Nat} {c : Char} (h : c ∈ Nat.toDigits 10 n) :
    c.isDigit = true :=
  Nat.isDigit_of_mem_toDigits (by decide) (by decide) h

theorem takeWhile_decimal (n : Nat) {tag : Char} (htag : tag.isDigit = false) (rest : List Char) :
    (Nat.toDigits 10 n ++ tag :: rest).takeWhile Char.isDigit = Nat.toDigits 10 n := by
  rw [List.takeWhile_append_of_pos fun c hc => isDigit_of_mem_decimal hc,
    List.takeWhile_cons_of_neg (by simp [htag]), List.append_nil]

theorem toList_tagged (tag ident : String) :
    (tagged tag ident).toList =
      Nat.toDigits 10 ident.length ++ (tag.toList ++ ident.toList) := by
  rw [tagged, String.toList_append, String.toList_append, Nat.toString_eq_repr, Nat.toList_repr,
    List.append_assoc]

theorem isWord_tagged {tag ident : String} (htag : IsWord tag) (hident : IsWord ident) :
    IsWord (tagged tag ident) := by
  intro c hc
  rw [toList_tagged, List.mem_append, List.mem_append] at hc
  rcases hc with hc | hc | hc
  · left
    rw [Char.isAlphanum, isDigit_of_mem_decimal hc, Bool.or_true]
  · exact htag c hc
  · exact hident c hc

theorem tagged_append_inj {s t : Char} {a b x y : String} (hs : s.isDigit = false)
    (ht : t.isDigit = false)
    (h : tagged (String.singleton s) a ++ x = tagged (String.singleton t) b ++ y) :
    s = t ∧ a = b ∧ x = y := by
  have hchars : Nat.toDigits 10 a.length ++ s :: (a.toList ++ x.toList) =
      Nat.toDigits 10 b.length ++ t :: (b.toList ++ y.toList) := by
    simpa [toList_tagged] using congrArg String.toList h
  have hdigits := congrArg (List.takeWhile Char.isDigit) hchars
  rw [takeWhile_decimal _ hs, takeWhile_decimal _ ht] at hdigits
  have hlength : a.length = b.length := by
    rw [← Nat.ofDigitChars_ten_toDigits (n := a.length), hdigits, Nat.ofDigitChars_ten_toDigits]
  rw [hdigits, List.append_cancel_left_eq] at hchars
  obtain ⟨htag, hrest⟩ := List.cons.inj hchars
  obtain ⟨hident, hbehind⟩ := List.append_inj hrest hlength
  exact ⟨htag, String.toList_inj.mp hident, String.toList_inj.mp hbehind⟩

theorem className_append_inj {c d x y : String} (h : className c ++ x = className d ++ y) :
    identifier (ClassName.package c) = identifier (ClassName.package d) ∧
      identifier (ClassName.simple c) = identifier (ClassName.simple d) ∧ x = y := by
  rw [className, className, String.append_assoc, String.append_assoc] at h
  obtain ⟨-, hpackage, h⟩ := tagged_append_inj (s := 'P') (t := 'P') rfl rfl h
  obtain ⟨-, hsimple, h⟩ := tagged_append_inj (s := 'C') (t := 'C') rfl rfl h
  exact ⟨hpackage, hsimple, h⟩

theorem isWord_className (name : String) : IsWord (className name) := by
  rw [className, isWord_append]
  constructor
  · exact isWord_tagged (by decide) (isWord_identifier _)
  · exact isWord_tagged (by decide) (isWord_identifier _)

inductive Designation where
  | field (ident : String)
  | constructor
  | classInitializer
  | method (ident : String)
  deriving DecidableEq, Repr

namespace Designation

def ofMethod (name : String) : Designation :=
  if name = "<init>" then constructor
  else if name = "<clinit>" then classInitializer
  else method (identifier name)

def tag : Designation → Char
  | field _ => 'F'
  | constructor => 'I'
  | classInitializer => 'I'
  | method _ => 'M'

def ident : Designation → String
  | field ident => ident
  | constructor => "INIT"
  | classInitializer => "CLINIT"
  | method ident => ident

def piece (d : Designation) : String :=
  tagged (String.singleton d.tag) d.ident

theorem isDigit_tag (d : Designation) : d.tag.isDigit = false := by
  cases d <;> rfl

theorem piece_inj {d e : Designation} : d.piece = e.piece ↔ d = e := by
  constructor
  · intro h
    have hpadded : d.piece ++ "" = e.piece ++ "" := congrArg (· ++ "") h
    obtain ⟨htag, hident, -⟩ := tagged_append_inj d.isDigit_tag e.isDigit_tag hpadded
    cases d <;> cases e <;> simp_all [tag, ident]
  · rintro rfl
    rfl

theorem isWord_tag (d : Designation) : IsWord (String.singleton d.tag) := by
  cases d with
  | field ident => exact (by decide : IsWord (String.singleton 'F'))
  | constructor => exact (by decide : IsWord (String.singleton 'I'))
  | classInitializer => exact (by decide : IsWord (String.singleton 'I'))
  | method ident => exact (by decide : IsWord (String.singleton 'M'))

theorem isWord_piece {d : Designation} (h : IsWord d.ident) : IsWord d.piece :=
  isWord_tagged d.isWord_tag h

theorem methodName_eq (name : String) : methodName name = (ofMethod name).piece := by
  unfold methodName ofMethod
  split
  · rfl
  · split <;> rfl

theorem isWord_ofMethod (name : String) : IsWord (ofMethod name).ident := by
  unfold ofMethod
  split
  · exact (by decide : IsWord "INIT")
  · split
    · exact (by decide : IsWord "CLINIT")
    · exact isWord_identifier name

end Designation

inductive Member where
  | field (name : String)
  | method (name : String)
  deriving DecidableEq, Repr

namespace Member

def mangled : Member → String
  | field name => fieldName name
  | method name => methodName name

def designation : Member → Designation
  | field name => .field (identifier name)
  | method name => .ofMethod name

theorem mangled_eq (m : Member) : m.mangled = m.designation.piece := by
  cases m with
  | field name => rfl
  | method name => exact Designation.methodName_eq name

theorem isWord_mangled (m : Member) : IsWord m.mangled := by
  rw [mangled_eq]
  apply Designation.isWord_piece
  cases m with
  | field name => exact isWord_identifier name
  | method name => exact Designation.isWord_ofMethod name

theorem mangled_inj {m n : Member} : m.mangled = n.mangled ↔ m.designation = n.designation := by
  rw [mangled_eq, mangled_eq, Designation.piece_inj]

end Member

theorem mangled_names_delimit_themselves (c d : String) (m n : Member) :
    (className c ++ m.mangled = className d ++ n.mangled ↔
      identifier (ClassName.package c) = identifier (ClassName.package d) ∧
      identifier (ClassName.simple c) = identifier (ClassName.simple d) ∧
      m.designation = n.designation) ∧
    IsWord (className c) ∧ IsWord m.mangled ∧
    ∀ name, IsWord (identifier name) ∧
      (identifier name).utf8ByteSize = (identifier name).length := by
  refine ⟨⟨fun h => ?_, ?_⟩, isWord_className c, m.isWord_mangled,
    fun name => ⟨isWord_identifier name, (isWord_identifier name).utf8ByteSize⟩⟩
  · obtain ⟨hpackage, hsimple, hmembers⟩ := className_append_inj h
    exact ⟨hpackage, hsimple, Member.mangled_inj.mp hmembers⟩
  · rintro ⟨hpackage, hsimple, hmembers⟩
    rw [className, className, hpackage, hsimple, Member.mangled_inj.mpr hmembers]

example : className "1P/2C" ++ fieldName "3F" = "2P1P2C2C2F3F" := by
  decide +kernel

end Linkage.Mangle
