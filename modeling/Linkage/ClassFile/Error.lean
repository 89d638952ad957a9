import Linkage.Text.Hex

namespace Linkage

inductive ConstantKind where
  | utf8
  | integer
  | float
  | long
  | double
  | classRef
  | string
  | memberRef
  | nameAndType
  | methodHandle
  | methodType
  | dynamic
  | moduleRef
  | packageRef
  deriving DecidableEq, Repr

namespace ConstantKind

def label : ConstantKind → String
  | utf8 => "Utf8"
  | integer => "Integer"
  | float => "Float"
  | long => "Long"
  | double => "Double"
  | classRef => "Class"
  | string => "String"
  | memberRef => "MemberRef"
  | nameAndType => "NameAndType"
  | methodHandle => "MethodHandle"
  | methodType => "MethodType"
  | dynamic => "Dynamic"
  | moduleRef => "Module"
  | packageRef => "Package"

end ConstantKind

inductive FormatError where
  | unexpectedEnd
  | invalidMagic (found : UInt32)
  | invalidIndex (index : UInt16)
  | invalidTag (tag : UInt8)
  | kindMismatch (index : UInt16) (expected found : ConstantKind)
  | invalidText
  | invalidDescriptor (text : String)
  | malformedAttribute (name : String)
  | trailingBytes (count : Nat)
  deriving DecidableEq, Repr

namespace FormatError

def message : FormatError → String
  | unexpectedEnd => "unexpected end of input"
  | invalidMagic found =>
      "invalid classfile magic: 0x" ++ String.ofList (Text.hex 8 found.toNat)
  | invalidIndex index => "invalid constant pool index: " ++ toString index.toNat
  | invalidTag tag => "invalid constant pool tag: " ++ toString tag.toNat
  | kindMismatch index expected found =>
      "constant pool type mismatch at index " ++ toString index.toNat ++
        ": expected " ++ expected.label ++ ", found " ++ found.label
  | invalidText => "invalid modified UTF-8 constant"
  | invalidDescriptor text => "invalid descriptor: " ++ text
  | malformedAttribute name => "malformed " ++ name ++ " attribute"
  | trailingBytes count => toString count ++ " trailing byte(s) after classfile"

end FormatError

end Linkage
