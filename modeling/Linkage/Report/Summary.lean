import Linkage.Graph.Linker

namespace Linkage

structure ClassSummary where
  name : String
  mangledName : String
  isInterface : Bool
  superClass : Option String
  staticFields : Nat
  instanceFields : Nat
  referenceSlots : Nat
  vtableLength : Nat
  interfaces : List String
  deriving DecidableEq, Repr

namespace ClassSummary

def ofInfo (g : ClassGraph) (info : ClassInfo) : ClassSummary where
  name := info.name
  mangledName := info.mangledName
  isInterface := info.isInterface
  superClass := info.superClass.map g.name
  staticFields := info.staticFields.length
  instanceFields := info.instanceFields.length
  referenceSlots := info.referenceSlots.length
  vtableLength := info.vtable.length
  interfaces := info.interfaceTable.map fun entry => g.name entry.interface

def kind (s : ClassSummary) : String :=
  if s.isInterface then "interface" else "class"

def lines (s : ClassSummary) : List String :=
  [s.kind ++ " " ++ s.name ++ " (" ++ s.mangledName ++ ")"]
    ++ s.superClass.toList.map ("  extends: " ++ ·)
    ++ ["  fields: " ++ toString s.staticFields ++ " static, " ++ toString s.instanceFields
          ++ " instance (" ++ toString s.referenceSlots ++ " references)",
        "  vtable: " ++ toString s.vtableLength ++ " slots"]
    ++ if s.interfaces.isEmpty then []
       else ["  ivtable: " ++ String.intercalate ", " s.interfaces]

def text (s : ClassSummary) : String :=
  String.intercalate "\n" s.lines

end ClassSummary

namespace ClassGraph

def linkApplication (options : LinkOptions) : Linking (List ClassSummary) := do
  let _ ← linkAll options .application
  let g ← get
  return ((g.classes .application).filterMap g.info?).map (ClassSummary.ofInfo g)

end ClassGraph

end Linkage
