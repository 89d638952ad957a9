import Linkage.ClassFile.Basic
import Linkage.ClassFile.ConstantPool
import Linkage.ClassFile.Decoder

namespace Linkage

inductive AttributeOwner where
  | ofClass
  | ofField
  | ofMethod
  deriving DecidableEq, Repr

structure Attributes where
  signature : Option String := none
  initial : Option Literal := none
  body : Option MethodBody := none
  innerClasses : List InnerClass := []
  deriving DecidableEq, Repr

namespace Attributes

open Decoder

def decodeSignature (pool : ConstantPool) : Decoder String := do
  let text ← pool.getText (← word)
  finished
  return text

def literalOf (pool : ConstantPool) : Constant → Except FormatError Literal
  | .integer value => .ok (.int value)
  | .long value => .ok (.long value)
  | .float bits => .ok (.float bits)
  | .double bits => .ok (.double bits)
  | .string text => (pool.getText text).map .string
  | _ => .error (.malformedAttribute "ConstantValue")

def decodeInitial (pool : ConstantPool) : Decoder Literal := do
  let value ← literalOf pool (← pool.get (← word))
  finished
  return value

def skipNested : Decoder Unit := do
  let _name ← word
  let length ← doubleWord
  let _content ← take length.toNat

def decodeBody : Decoder MethodBody := do
  let maxStack ← word
  let maxLocals ← word
  let instructions ← take (← doubleWord).toNat
  let handlers ← word
  let _handlers ← take (handlers.toNat * 8)
  let nested ← word
  fold (fun _ => skipNested) nested.toNat ()
  if (← get).isEmpty then
    return ⟨maxStack, maxLocals, instructions⟩
  else
    throw (.malformedAttribute "Code")

def optionalClassName (pool : ConstantPool) (index : UInt16) :
    Except FormatError (Option String) :=
  if index = 0 then .ok none else (pool.getClassName index).map some

def optionalText (pool : ConstantPool) (index : UInt16) : Except FormatError (Option String) :=
  if index = 0 then .ok none else (pool.getText index).map some

def decodeInnerClass (pool : ConstantPool) : Decoder InnerClass := do
  let inner ← pool.getClassName (← word)
  let outer ← optionalClassName pool (← word)
  let simpleName ← optionalText pool (← word)
  let access ← word
  return ⟨inner, outer, simpleName, ⟨access⟩⟩

def decodeInnerClasses (pool : ConstantPool) : Decoder (List InnerClass) := do
  let entries ← table (decodeInnerClass pool)
  finished
  return entries

-- Adds one attribute. A later signature, initial value or body replaces an earlier one, and tables
-- of member classes are joined.
def absorb (pool : ConstantPool) (owner : AttributeOwner) (found : Attributes) (name : String)
    (content : Bytes) : Except FormatError Attributes :=
  match name, owner with
  | "Signature", _ => do
      let text ← within (decodeSignature pool) content
      return { found with signature := some text }
  | "ConstantValue", .ofField => do
      let value ← within (decodeInitial pool) content
      return { found with initial := some value }
  | "Code", .ofMethod => do
      let body ← within decodeBody content
      return { found with body := some body }
  | "InnerClasses", .ofClass => do
      let entries ← within (decodeInnerClasses pool) content
      return { found with innerClasses := found.innerClasses ++ entries }
  | _, _ => .ok found

def decodeOne (pool : ConstantPool) (owner : AttributeOwner) (found : Attributes) :
    Decoder Attributes := do
  let nameIndex ← word
  let length ← doubleWord
  let content ← take length.toNat
  let name ← pool.getText nameIndex
  absorb pool owner found name content

def decode (pool : ConstantPool) (owner : AttributeOwner) : Decoder Attributes := do
  let count ← word
  fold (decodeOne pool owner) count.toNat {}

end Attributes

end Linkage
