import Linkage.ClassFile.Error

namespace Linkage

inductive MemberRole where
  | field
  | method
  | interfaceMethod
  deriving DecidableEq, Repr

inductive DynamicForm where
  | constant
  | call
  deriving DecidableEq, Repr

inductive Constant where
  | utf8 (text : String)
  | integer (value : Int32)
  | float (bits : UInt32)
  | long (value : Int64)
  | double (bits : UInt64)
  | classRef (name : UInt16)
  | string (text : UInt16)
  | memberRef (role : MemberRole) (owner member : UInt16)
  | nameAndType (name descriptor : UInt16)
  | methodHandle (mode : UInt8) (member : UInt16)
  | methodType (descriptor : UInt16)
  | dynamic (form : DynamicForm) (bootstrap member : UInt16)
  | moduleRef (name : UInt16)
  | packageRef (name : UInt16)
  deriving DecidableEq, Repr

namespace Constant

def kind : Constant → ConstantKind
  | utf8 _ => .utf8
  | integer _ => .integer
  | float _ => .float
  | long _ => .long
  | double _ => .double
  | classRef _ => .classRef
  | string _ => .string
  | memberRef _ _ _ => .memberRef
  | nameAndType _ _ => .nameAndType
  | methodHandle _ _ => .methodHandle
  | methodType _ => .methodType
  | dynamic _ _ _ => .dynamic
  | moduleRef _ => .moduleRef
  | packageRef _ => .packageRef

def isWide : Constant → Bool
  | long _ => true
  | double _ => true
  | _ => false

def slots (c : Constant) : List (Option Constant) :=
  if c.isWide then [some c, none] else [some c]

end Constant

structure ConstantPool where
  slots : Array (Option Constant)
  deriving DecidableEq, Repr

namespace ConstantPool

def empty : ConstantPool := ⟨#[]⟩

def nextIndex (pool : ConstantPool) : Nat :=
  pool.slots.size + 1

def push (pool : ConstantPool) (c : Constant) : ConstantPool :=
  ⟨pool.slots ++ c.slots⟩

def constants (pool : ConstantPool) : List Constant :=
  pool.slots.toList.filterMap id

def get? (pool : ConstantPool) (index : UInt16) : Option Constant :=
  if index = 0 then none else (pool.slots[index.toNat - 1]?).join

def get (pool : ConstantPool) (index : UInt16) : Except FormatError Constant :=
  match pool.get? index with
  | some c => .ok c
  | none => .error (.invalidIndex index)

def getText (pool : ConstantPool) (index : UInt16) : Except FormatError String := do
  match ← pool.get index with
  | .utf8 text => return text
  | c => throw (.kindMismatch index .utf8 c.kind)

def getClassName (pool : ConstantPool) (index : UInt16) : Except FormatError String := do
  match ← pool.get index with
  | .classRef name => pool.getText name
  | c => throw (.kindMismatch index .classRef c.kind)

def indexOf? (pool : ConstantPool) (c : Constant) : Option UInt16 :=
  (pool.slots.toList.idxOf? (some c)).map fun slot => (slot + 1).toUInt16

end ConstantPool

end Linkage
