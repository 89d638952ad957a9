import Linkage.Graph.InterfaceTable
import Linkage.Graph.Layout

namespace Linkage

structure LinkOptions where
  rootClass : String := rootName
  verifyVtables : Bool := true
  deriving DecidableEq, Repr

structure Supertypes where
  superClass : Option ClassId
  interfaces : List ClassId
  deriving DecidableEq, Repr

abbrev Linking (α : Type) := ExceptT LinkError (StateM ClassGraph) α

namespace ClassGraph

def resolveName (g : ClassGraph) (record : ClassRecord) (name : String) :
    Except LinkError ClassId :=
  match g.lookup name with
  | some id => .ok id
  | none => .error ⟨record.name, .unresolvedDependency name⟩

def resolveSupertypes (g : ClassGraph) (options : LinkOptions) (record : ClassRecord) :
    Except LinkError Supertypes := do
  match record.superName, decide (record.name = options.rootClass) with
  | some superName, true => throw ⟨record.name, .rootWithSuper superName⟩
  | none, false => throw ⟨record.name, .missingSuper⟩
  | _, _ => pure ()
  let superClass ← record.superName.mapM (g.resolveName record)
  let interfaces ← record.interfaces.mapM (g.resolveName record)
  return ⟨superClass, interfaces⟩

def checkSuperClass (g : ClassGraph) (options : LinkOptions) (id : ClassId)
    (record : ClassRecord) (superClass : ClassId) : Except LinkError Unit := do
  let name := g.name superClass
  if record.access.isInterface && name ≠ options.rootClass then
    throw ⟨record.name, .interfaceWithSuper options.rootClass name⟩
  if !g.canAccessClass id superClass then
    throw ⟨record.name, .illegalAccess (.ofClass name)⟩
  if g.isInterface superClass then
    throw ⟨record.name, .superIsInterface name⟩

def checkInterface (g : ClassGraph) (id : ClassId) (record : ClassRecord)
    (interface : ClassId) : Except LinkError Unit := do
  let name := g.name interface
  if !g.canAccessClass id interface then
    throw ⟨record.name, .illegalAccess (.ofInterface name)⟩
  if !g.isInterface interface then
    throw ⟨record.name, .interfaceIsClass name⟩

def resolveFields (record : ClassRecord) : Except LinkError (List FieldInfo) :=
  record.fields.foldlM (fun done decl => do
    if done.any (·.isNamed decl.name decl.descriptor) then
      throw ⟨record.name, .duplicateMember .field (decl.name ++ ":" ++ decl.descriptor)⟩
    match FieldInfo.ofDecl decl with
    | .ok info => return done ++ [info]
    | .error e => throw ⟨record.name, .classFormat e⟩) []

def resolveMethods (record : ClassRecord) : Except LinkError (List MethodInfo) :=
  record.methods.foldlM (fun done decl => do
    if done.any (·.isNamed decl.name decl.descriptor) then
      throw ⟨record.name, .duplicateMember .method (decl.name ++ decl.descriptor)⟩
    match MethodInfo.ofDecl record.version decl with
    | .ok info => return done ++ [info]
    | .error e => throw ⟨record.name, .classFormat e⟩) []

def draft (g : ClassGraph) (options : LinkOptions) (id : ClassId) (slot : Slot)
    (supers : Supertypes) : Except LinkError ClassInfo := do
  let record := slot.record
  supers.superClass.forM (g.checkSuperClass options id record)
  supers.interfaces.forM (g.checkInterface id record)
  let fields ← resolveFields record
  let methods ← resolveMethods record
  let inherited := match supers.superClass.bind g.info? with
    | some parent => parent.instanceFields
    | none => []
  return {
    id, name := record.name, version := record.version, signature := record.signature,
    origin := slot.origin, access := record.access,
    modifiers := (record.innerAccess.getD record.access).without Access.superBit,
    superClass := supers.superClass, interfaces := supers.interfaces, fields, methods,
    staticFields := Layout.statics id fields,
    instanceFields := Layout.instances inherited id fields,
    vtable := [], interfaceTable := [] }

def complete (g : ClassGraph) (options : LinkOptions) (info : ClassInfo) :
    Except LinkError ClassInfo := do
  if info.isInterface then
    return info
  else
    let g := g.setStatus info.id (.drafted info)
    let vtable ← g.buildVtable info options.verifyVtables
    return { info with vtable, interfaceTable := g.buildInterfaceTable info vtable }

def finish (g : ClassGraph) (options : LinkOptions) (id : ClassId) (slot : Slot)
    (supers : Supertypes) : Except LinkError ClassInfo := do
  let info ← g.draft options id slot supers
  g.complete options info

def linkEach (step : ClassId → ClassGraph → Except LinkError Unit × ClassGraph) :
    List ClassId → ClassGraph → Except LinkError Unit × ClassGraph
  | [], g => (.ok (), g)
  | id :: rest, g =>
      match step id g with
      | (.ok (), g) => linkEach step rest g
      | (.error e, g) => (.error e, g)

-- Links a class and first those that it depends on. A class that is met again while it is being
-- linked is its own supertype. Every class on the way is being linked and no class is met twice, so
-- the number of classes bounds the depth.
def linkWithin (options : LinkOptions) :
    (depth : Nat) → ClassId → ClassGraph → Except LinkError Unit × ClassGraph
  | 0, id, g => (.error ⟨g.name id, .circularInheritance⟩, g)
  | depth + 1, id, g =>
      match g.slot? id with
      | none => (.error ⟨g.name id, .notLinked⟩, g)
      | some slot =>
          match slot.status with
          | .linked _ => (.ok (), g)
          | .linking => (.error ⟨g.name id, .circularInheritance⟩, g)
          | .drafted _ => (.error ⟨g.name id, .circularInheritance⟩, g)
          | .unlinked =>
              match g.resolveSupertypes options slot.record with
              | .error e => (.error e, g)
              | .ok supers =>
                  let dependencies := supers.superClass.toList ++ supers.interfaces
                  match linkEach (linkWithin options depth) dependencies
                      (g.setStatus id .linking) with
                  | (.error e, g) => (.error e, g.setStatus id .unlinked)
                  | (.ok (), g) =>
                      match g.finish options id slot supers with
                      | .error e => (.error e, g.setStatus id .unlinked)
                      | .ok info => (.ok (), g.setStatus id (.linked info))

def link (options : LinkOptions) (id : ClassId) : Linking Unit := fun g =>
  linkWithin options (g.size + 1) id g

def linkName (options : LinkOptions) (name : String) : Linking ClassId := do
  match (← get).lookup name with
  | some id =>
      link options id
      return id
  | none => throw ⟨name, .unresolvedDependency name⟩

def linkAll (options : LinkOptions) (origin : Origin) : Linking Nat := do
  let before := (← get).linkedCount
  ((← get).classes origin).forM (link options)
  return (← get).linkedCount - before

end ClassGraph

end Linkage
