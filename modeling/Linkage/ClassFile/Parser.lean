import Linkage.ClassFile.Attributes
import Linkage.Text.ModifiedUtf8

namespace Linkage

namespace Constant

open Decoder

def decodeText : Decoder String := do
  let length ← word
  let bytes ← take length.toNat
  match Text.ModifiedUtf8.decode bytes with
  | some text => return text
  | none => throw .invalidText

def decode : Decoder Constant := do
  let tag ← byte
  match tag.toNat with
  | 1 => return .utf8 (← decodeText)
  | 3 => return .integer (← doubleWord).toInt32
  | 4 => return .float (← doubleWord)
  | 5 => return .long (← quadWord).toInt64
  | 6 => return .double (← quadWord)
  | 7 => return .classRef (← word)
  | 8 => return .string (← word)
  | 9 => return .memberRef .field (← word) (← word)
  | 10 => return .memberRef .method (← word) (← word)
  | 11 => return .memberRef .interfaceMethod (← word) (← word)
  | 12 => return .nameAndType (← word) (← word)
  | 15 => return .methodHandle (← byte) (← word)
  | 16 => return .methodType (← word)
  | 17 => return .dynamic .constant (← word) (← word)
  | 18 => return .dynamic .call (← word) (← word)
  | 19 => return .moduleRef (← word)
  | 20 => return .packageRef (← word)
  | _ => throw (.invalidTag tag)

end Constant

namespace ConstantPool

open Decoder

-- Reads constants until their slots fill the pool to `count - 1` slots. Of a wide constant in the
-- last slot only the first half fits, which makes `count` an index that cannot be.
def decodeSlots (count : UInt16) : (free : Nat) → ConstantPool → Decoder ConstantPool
  | 0, pool, input => .ok (pool, input)
  | 1, pool, input => do
      let (c, rest) ← Constant.decode input
      if c.isWide then .error (.invalidIndex count) else .ok (pool.push c, rest)
  | free + 2, pool, input => do
      let (c, rest) ← Constant.decode input
      if c.isWide then
        decodeSlots count free (pool.push c) rest
      else
        decodeSlots count (free + 1) (pool.push c) rest

def decode : Decoder ConstantPool := do
  let count ← word
  decodeSlots count (count.toNat - 1) empty

end ConstantPool

namespace ClassFile

open Decoder

def magic : UInt32 := 0xCAFEBABE

def decodeField (pool : ConstantPool) : Decoder FieldDecl := do
  let access ← word
  let name ← pool.getText (← word)
  let descriptor ← pool.getText (← word)
  let attributes ← Attributes.decode pool .ofField
  return ⟨⟨access⟩, name, descriptor, attributes.signature, attributes.initial⟩

def decodeMethod (pool : ConstantPool) : Decoder MethodDecl := do
  let access ← word
  let name ← pool.getText (← word)
  let descriptor ← pool.getText (← word)
  let attributes ← Attributes.decode pool .ofMethod
  return ⟨⟨access⟩, name, descriptor, attributes.signature, attributes.body⟩

def decodeBody (version : ClassVersion) (pool : ConstantPool) : Decoder ClassFile := do
  let access ← word
  let name ← pool.getClassName (← word)
  let superName ← Attributes.optionalClassName pool (← word)
  let interfaces ← table do pool.getClassName (← word)
  let fields ← table (decodeField pool)
  let methods ← table (decodeMethod pool)
  let attributes ← Attributes.decode pool .ofClass
  finished
  return {
    version, access := ⟨access⟩, name, superName, interfaces, fields, methods,
    signature := attributes.signature, innerClasses := attributes.innerClasses }

def decode : Decoder ClassFile := do
  let found ← doubleWord
  if found != magic then
    throw (.invalidMagic found)
  let minor ← word
  let major ← word
  let pool ← ConstantPool.decode
  decodeBody ⟨major, minor⟩ pool

def parse (bytes : Bytes) : Except FormatError ClassFile :=
  within decode bytes

end ClassFile

end Linkage
