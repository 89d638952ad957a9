import Linkage.ClassFile.Error

namespace Linkage

inductive BaseType where
  | byte
  | char
  | double
  | float
  | int
  | long
  | short
  | boolean
  deriving DecidableEq, Repr

namespace BaseType

def tag : BaseType → Char
  | byte => 'B'
  | char => 'C'
  | double => 'D'
  | float => 'F'
  | int => 'I'
  | long => 'J'
  | short => 'S'
  | boolean => 'Z'

def ofTag? : Char → Option BaseType
  | 'B' => some byte
  | 'C' => some char
  | 'D' => some double
  | 'F' => some float
  | 'I' => some int
  | 'J' => some long
  | 'S' => some short
  | 'Z' => some boolean
  | _ => none

theorem ofTag?_tag (b : BaseType) : ofTag? b.tag = some b := by
  cases b <;> rfl

end BaseType

inductive FieldType where
  | base (type : BaseType)
  | object (name : String)
  | array (component : FieldType)
  deriving DecidableEq, Repr

namespace FieldType

def isReference : FieldType → Bool
  | base _ => false
  | object _ => true
  | array _ => true

def peel : FieldType → Nat × FieldType
  | array component =>
      let (dims, element) := component.peel
      (dims + 1, element)
  | t => (0, t)

def descriptorChars : FieldType → List Char
  | base type => [type.tag]
  | object name => 'L' :: name.toList ++ [';']
  | array component => '[' :: component.descriptorChars

def descriptor (t : FieldType) : String :=
  String.ofList t.descriptorChars

def read? : List Char → Option (FieldType × List Char)
  | [] => none
  | 'L' :: rest =>
      match rest.takeWhile (· != ';'), rest.dropWhile (· != ';') with
      | c :: name, _ :: rest => some (object (String.ofList (c :: name)), rest)
      | _, _ => none
  | '[' :: rest =>
      match read? rest with
      | some (component, rest) => some (array component, rest)
      | none => none
  | c :: rest =>
      match BaseType.ofTag? c with
      | some type => some (base type, rest)
      | none => none

theorem length_lt_of_read? {s rest : List Char} {t : FieldType} (h : read? s = some (t, rest)) :
    rest.length < s.length := by
  fun_induction read? s generalizing t rest with
  | case1 => simp at h
  | case2 s c name d tail htail hname =>
      simp only [Option.some.injEq, Prod.mk.injEq] at h
      obtain ⟨-, rfl⟩ := h
      have hle : (s.dropWhile (· != ';')).length ≤ s.length :=
        (List.dropWhile_suffix _).length_le
      rw [htail, List.length_cons] at hle
      rw [List.length_cons]
      omega
  | case3 => simp at h
  | case4 s component tail hread ih =>
      simp only [Option.some.injEq, Prod.mk.injEq] at h
      obtain ⟨-, rfl⟩ := h
      have := ih hread
      rw [List.length_cons]
      omega
  | case5 => simp at h
  | case6 =>
      simp only [Option.some.injEq, Prod.mk.injEq] at h
      obtain ⟨-, rfl⟩ := h
      simp
  | case7 => simp at h

def ofDescriptor (text : String) : Except FormatError FieldType :=
  match read? text.toList with
  | some (t, []) => .ok t
  | _ => .error (.invalidDescriptor text)

end FieldType

inductive ReturnType where
  | void
  | value (type : FieldType)
  deriving DecidableEq, Repr

namespace ReturnType

def descriptorChars : ReturnType → List Char
  | void => ['V']
  | value type => type.descriptorChars

def read? : List Char → Option ReturnType
  | ['V'] => some void
  | s =>
      match FieldType.read? s with
      | some (t, []) => some (value t)
      | _ => none

end ReturnType

structure MethodType where
  params : List FieldType
  result : ReturnType
  deriving DecidableEq, Repr

namespace MethodType

def descriptorChars (m : MethodType) : List Char :=
  '(' :: m.params.flatMap FieldType.descriptorChars ++ ')' :: m.result.descriptorChars

def descriptor (m : MethodType) : String :=
  String.ofList m.descriptorChars

def readParams? (s : List Char) : Option (List FieldType × List Char) :=
  match s with
  | ')' :: rest => some ([], rest)
  | s =>
      match _h : FieldType.read? s with
      | some (t, rest) =>
          match readParams? rest with
          | some (params, rest) => some (t :: params, rest)
          | none => none
      | none => none
termination_by s.length
decreasing_by exact FieldType.length_lt_of_read? (by assumption)

def read? : List Char → Option MethodType
  | '(' :: rest =>
      match readParams? rest with
      | some (params, rest) => (ReturnType.read? rest).map fun result => ⟨params, result⟩
      | none => none
  | _ => none

def ofDescriptor (text : String) : Except FormatError MethodType :=
  match read? text.toList with
  | some m => .ok m
  | none => .error (.invalidDescriptor text)

end MethodType

end Linkage
