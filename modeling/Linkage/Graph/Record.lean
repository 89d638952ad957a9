import Linkage.ClassFile.Basic

namespace Linkage

inductive Origin where
  | runtime
  | application
  deriving DecidableEq, Repr

def rootName : String := "java/lang/Object"

structure ClassRecord where
  name : String
  version : ClassVersion := .standard
  access : Access := .publicClass
  superName : Option String := if name = rootName then none else some rootName
  interfaces : List String := []
  fields : List FieldDecl := []
  methods : List MethodDecl := []
  signature : Option String := none
  innerAccess : Option Access := none
  deriving DecidableEq, Repr

namespace ClassRecord

def ofFile (file : ClassFile) (origin : Origin) : ClassRecord where
  name := file.name
  version := file.version
  access := file.access
  superName := file.superName
  interfaces := file.interfaces
  fields := file.fields
  methods :=
    match origin with
    | .runtime => file.methods.map fun m => { m with body := none }
    | .application => file.methods
  signature := file.signature
  innerAccess := file.memberAccess

def minimalRoot : ClassRecord where
  name := rootName
  methods := [
    method Access.publicBit "<init>" "()V",
    method Access.publicBit "equals" "(Ljava/lang/Object;)Z",
    method (Access.publicBit ||| Access.nativeBit) "hashCode" "()I",
    method Access.publicBit "toString" "()Ljava/lang/String;",
    method (Access.publicBit ||| Access.finalBit ||| Access.nativeBit) "getClass"
      "()Ljava/lang/Class;",
    method (Access.protectedBit ||| Access.nativeBit) "clone" "()Ljava/lang/Object;",
    method Access.protectedBit "finalize" "()V"]
where
  method (bits : UInt16) (name descriptor : String) : MethodDecl :=
    ⟨⟨bits⟩, name, descriptor, none, none⟩

end ClassRecord

end Linkage
