import Linkage.ClassFile.Attributes
import Linkage.ClassFile.Parser
import Linkage.Text.ModifiedUtf8

namespace Linkage

namespace Constant

def encode : Constant → Bytes
  | utf8 text =>
      let bytes := Text.ModifiedUtf8.encode text
      1 :: Bytes.ofUInt16 bytes.length.toUInt16 ++ bytes
  | integer value => 3 :: Bytes.ofUInt32 value.toUInt32
  | float bits => 4 :: Bytes.ofUInt32 bits
  | long value => 5 :: Bytes.ofUInt64 value.toUInt64
  | double bits => 6 :: Bytes.ofUInt64 bits
  | classRef name => 7 :: Bytes.ofUInt16 name
  | string text => 8 :: Bytes.ofUInt16 text
  | memberRef .field owner member => 9 :: Bytes.ofUInt16 owner ++ Bytes.ofUInt16 member
  | memberRef .method owner member => 10 :: Bytes.ofUInt16 owner ++ Bytes.ofUInt16 member
  | memberRef .interfaceMethod owner member =>
      11 :: Bytes.ofUInt16 owner ++ Bytes.ofUInt16 member
  | nameAndType name descriptor => 12 :: Bytes.ofUInt16 name ++ Bytes.ofUInt16 descriptor
  | methodHandle mode member => 15 :: mode :: Bytes.ofUInt16 member
  | methodType descriptor => 16 :: Bytes.ofUInt16 descriptor
  | dynamic .constant bootstrap member =>
      17 :: Bytes.ofUInt16 bootstrap ++ Bytes.ofUInt16 member
  | dynamic .call bootstrap member => 18 :: Bytes.ofUInt16 bootstrap ++ Bytes.ofUInt16 member
  | moduleRef name => 19 :: Bytes.ofUInt16 name
  | packageRef name => 20 :: Bytes.ofUInt16 name

end Constant

namespace ConstantPool

def encode (pool : ConstantPool) : Bytes :=
  Bytes.ofUInt16 pool.nextIndex.toUInt16 ++ pool.constants.flatMap Constant.encode

end ConstantPool

abbrev Assembler (α : Type) := StateM ConstantPool α

namespace Assembler

def enter (c : Constant) : Assembler UInt16 := fun pool =>
  (pool.nextIndex.toUInt16, pool.push c)

def share (c : Constant) : Assembler UInt16 := fun pool =>
  match pool.indexOf? c with
  | some index => (index, pool)
  | none => enter c pool

def text (s : String) : Assembler UInt16 :=
  share (.utf8 s)

def classRef (name : String) : Assembler UInt16 := do
  share (.classRef (← text name))

def optionalClassRef : Option String → Assembler UInt16
  | some name => classRef name
  | none => return 0

def optionalText : Option String → Assembler UInt16
  | some s => text s
  | none => return 0

def literal : Literal → Assembler UInt16
  | .int value => enter (.integer value)
  | .long value => enter (.long value)
  | .float bits => enter (.float bits)
  | .double bits => enter (.double bits)
  | .string s => do enter (.string (← text s))

def namedAttribute (name : String) (content : Assembler Bytes) : Assembler Bytes := do
  let content ← content
  let index ← text name
  return Bytes.ofUInt16 index ++ Bytes.ofUInt32 content.length.toUInt32 ++ content

def word (index : Assembler UInt16) : Assembler Bytes := do
  return Bytes.ofUInt16 (← index)

def table (items : List (Assembler Bytes)) : Assembler Bytes := do
  let parts ← items.mapM id
  return Bytes.ofUInt16 items.length.toUInt16 ++ parts.flatten

def signature (s : Option String) : List (Assembler Bytes) :=
  s.toList.map fun s => namedAttribute "Signature" (word (text s))

def body (code : MethodBody) : Assembler Bytes :=
  return Bytes.ofUInt16 code.maxStack ++ Bytes.ofUInt16 code.maxLocals
    ++ Bytes.ofUInt32 code.instructions.length.toUInt32 ++ code.instructions
    ++ Bytes.ofUInt16 0 ++ Bytes.ofUInt16 0

def member (access : Access) (name descriptor : String) (attributes : List (Assembler Bytes)) :
    Assembler Bytes := do
  let name ← text name
  let descriptor ← text descriptor
  let attributes ← table attributes
  return Bytes.ofUInt16 access.bits ++ Bytes.ofUInt16 name ++ Bytes.ofUInt16 descriptor
    ++ attributes

def field (f : FieldDecl) : Assembler Bytes :=
  member f.access f.name f.descriptor
    (signature f.signature
      ++ f.initial.toList.map fun value => namedAttribute "ConstantValue" (word (literal value)))

def method (m : MethodDecl) : Assembler Bytes :=
  member m.access m.name m.descriptor
    (signature m.signature ++ m.body.toList.map fun code => namedAttribute "Code" (body code))

def innerClass (entry : InnerClass) : Assembler Bytes := do
  let inner ← classRef entry.inner
  let outer ← optionalClassRef entry.outer
  let simpleName ← optionalText entry.simpleName
  return Bytes.ofUInt16 inner ++ Bytes.ofUInt16 outer ++ Bytes.ofUInt16 simpleName
    ++ Bytes.ofUInt16 entry.access.bits

def innerClasses (entries : List InnerClass) : List (Assembler Bytes) :=
  if entries.isEmpty then [] else [namedAttribute "InnerClasses" (table (entries.map innerClass))]

def foreign (extra : Option (String × Bytes)) : List (Assembler Bytes) :=
  extra.toList.map fun (name, content) => namedAttribute name (return content)

def classBody (file : ClassFile) (extra : Option (String × Bytes)) : Assembler Bytes := do
  let name ← classRef file.name
  let superName ← optionalClassRef file.superName
  let interfaces ← table (file.interfaces.map fun name => word (classRef name))
  let fields ← table (file.fields.map field)
  let methods ← table (file.methods.map method)
  let attributes ← table
    (signature file.signature ++ innerClasses file.innerClasses ++ foreign extra)
  return Bytes.ofUInt16 file.access.bits ++ Bytes.ofUInt16 name ++ Bytes.ofUInt16 superName
    ++ interfaces ++ fields ++ methods ++ attributes

end Assembler

namespace ClassFile

def assemble (file : ClassFile) (extra : Option (String × Bytes)) : Bytes :=
  let (body, pool) := (Assembler.classBody file extra).run ConstantPool.empty
  Bytes.ofUInt32 magic ++ Bytes.ofUInt16 file.version.minor ++ Bytes.ofUInt16 file.version.major
    ++ pool.encode ++ body

end ClassFile

end Linkage
