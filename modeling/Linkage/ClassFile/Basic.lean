import Linkage.Bytes
import Linkage.ClassFile.Access

namespace Linkage

structure ClassVersion where
  major : UInt16
  minor : UInt16
  deriving DecidableEq, Repr

namespace ClassVersion

def before (a b : ClassVersion) : Bool :=
  a.major < b.major || (a.major == b.major && a.minor < b.minor)

def strictInitializers : ClassVersion := ⟨51, 0⟩

def standard : ClassVersion := ⟨52, 0⟩

end ClassVersion

inductive Literal where
  | int (value : Int32)
  | long (value : Int64)
  | float (bits : UInt32)
  | double (bits : UInt64)
  | string (text : String)
  deriving DecidableEq, Repr

structure MethodBody where
  maxStack : UInt16
  maxLocals : UInt16
  instructions : Bytes
  deriving DecidableEq, Repr

structure FieldDecl where
  access : Access
  name : String
  descriptor : String
  signature : Option String
  initial : Option Literal
  deriving DecidableEq, Repr

structure MethodDecl where
  access : Access
  name : String
  descriptor : String
  signature : Option String
  body : Option MethodBody
  deriving DecidableEq, Repr

structure InnerClass where
  inner : String
  outer : Option String
  simpleName : Option String
  access : Access
  deriving DecidableEq, Repr

structure ClassFile where
  version : ClassVersion
  access : Access
  name : String
  superName : Option String
  interfaces : List String
  fields : List FieldDecl
  methods : List MethodDecl
  signature : Option String
  innerClasses : List InnerClass
  deriving DecidableEq, Repr

namespace ClassFile

def memberAccess (file : ClassFile) : Option Access :=
  (file.innerClasses.find? (·.inner = file.name)).map (·.access)

end ClassFile

end Linkage
