import Linkage.Graph.Linker

namespace Linkage

inductive CallKind where
  | virtual
  | special
  | static
  | interface
  deriving DecidableEq, Repr

structure CallSite where
  kind : CallKind
  owner : String
  name : String
  descriptor : String
  ownerIsInterface : Bool
  deriving DecidableEq, Repr

def CallSite.signature (site : CallSite) : String :=
  site.owner ++ "." ++ site.name ++ site.descriptor

inductive CallTarget where
  | static (method : MethodRef)
  | special (method : MethodRef)
  | virtual (owner : ClassId) (vtableIndex : Nat) (method : MethodRef)
  | interface (interface : ClassId) (methodIndex : Nat) (method : MethodRef)
  | arrayClone
  deriving DecidableEq, Repr

namespace ClassGraph

def declaredInstance? (g : ClassGraph) (id : ClassId) (name descriptor : String) :
    Option MethodRef :=
  (g.declaredMethod? id name descriptor).filter (g.methodHas · (!·.isStatic))

def specialStart (g : ClassGraph) (current owner : ClassId) (resolved : MethodInfo) : ClassId :=
  match g.superClass? current with
  | some superClass =>
      if !resolved.isConstructor && !g.isInterface owner && g.isSuperclass owner current then
        superClass
      else
        owner
  | none => owner

def specialDeclared? (g : ClassGraph) (start : ClassId) (name descriptor : String) :
    Option MethodRef :=
  (g.declaredInstance? start name descriptor).or <|
    if g.isInterface start then do
      let root ← g.superClass? start
      let m ← g.declaredInstance? root name descriptor
      if g.methodHas m (·.isPublic) then some m else none
    else
      (g.superclasses start).findSome? fun c => g.declaredInstance? c name descriptor

def specialTarget (g : ClassGraph) (current owner : ClassId) (resolved : MethodInfo) :
    Except LinkError MethodRef :=
  let name := resolved.name
  let descriptor := resolved.descriptor
  let start := g.specialStart current owner resolved
  match g.specialDeclared? start name descriptor with
  | some m =>
      if g.methodHas m (·.isAbstract) then
        .error (g.violation current (.abstractSpecial (g.methodSignature m)))
      else
        .ok m
  | none =>
      match g.concreteDefaults start name descriptor with
      | [only] => .ok only
      | [] => .error (g.violation current (.missingSpecial (g.name start) name descriptor))
      | many => .error (g.violation current (.ambiguousSpecial (g.name start) name descriptor
          (many.map g.methodSignature)))

def virtualTarget? (g : ClassGraph) (id : ClassId) (resolved : MethodRef) : Option CallTarget := do
  let info ← g.info? id
  let slot ← info.vtable.findIdx? fun m => m = resolved || g.overrides m resolved
  let m ← info.vtable[slot]?
  return .virtual id slot m

def resolvedMethod? (g : ClassGraph) (owner : ClassId) (site : CallSite) : Option MethodRef :=
  let found := g.methodLookup owner site.name site.descriptor
  if g.isInterface owner then
    found.or (g.superinterfaceMethod owner site.name site.descriptor)
  else
    found

def targetOf (g : ClassGraph) (current owner : ClassId) (site : CallSite)
    (resolved : MethodRef) (m : MethodInfo) : Except LinkError CallTarget :=
  let text := g.methodSignature resolved
  match site.kind with
  | .static =>
      if m.isStatic then
        .ok (.static resolved)
      else
        .error (g.violation current (.notStaticMethod text))
  | .special =>
      if m.isConstructor && resolved.owner ≠ owner then
        .error (g.violation current (.noSuchMethod site.signature))
      else if m.isStatic then
        .error (g.violation current (.notInstanceMethod text))
      else
        (g.specialTarget current owner m).map .special
  | .virtual =>
      if m.isStatic then
        .error (g.violation current (.notInstanceMethod text))
      else if m.isPrivate then
        .ok (.special resolved)
      else
        match g.virtualTarget? owner resolved with
        | some target => .ok target
        | none => .error (g.violation current (.missingFromVtable text site.owner))
  | .interface =>
      if m.isStatic || m.isPrivate then
        .error (g.violation current (.notInterfaceCallable text))
      else if g.isInterface resolved.owner then
        .ok (.interface resolved.owner resolved.index resolved)
      else if (g.superClass? resolved.owner).isNone then
        match g.virtualTarget? resolved.owner resolved with
        | some target => .ok target
        | none => .error (g.violation current (.missingFromRootVtable text))
      else
        .error (g.violation current (.notInterfaceMethod text))

def selectCall (g : ClassGraph) (current owner : ClassId) (site : CallSite) :
    Except LinkError CallTarget := do
  if g.isInterface owner ≠ site.ownerIsInterface then
    throw (g.violation current (.ownerKindMismatch site.owner))
  match g.resolvedMethod? owner site with
  | none => throw (g.violation current (.noSuchMethod site.signature))
  | some resolved =>
      match g.method? resolved with
      | none => throw (g.violation current (.noSuchMethod site.signature))
      | some m =>
          if !g.canAccessMember current resolved.owner m.access then
            throw (g.violation current (.illegalAccess (.ofMethod (g.methodSignature resolved))))
          g.targetOf current owner site resolved m

def arrayTarget (site : CallSite) : Except LinkFault CallTarget :=
  if site.kind ≠ .virtual then
    .error (.arrayCallNotVirtual site.owner site.name site.descriptor)
  else if site.name = "clone" && site.descriptor = "()Ljava/lang/Object;" then
    .ok .arrayClone
  else
    .error (.arrayCallNotClone site.owner)

def resolveClass (options : LinkOptions) (current : ClassId) (name : String) :
    Linking ClassId := do
  let className := (← get).name current
  match (← get).lookup name with
  | none => throw ⟨className, .unresolvedDependency name⟩
  | some id =>
      link options id
      if (← get).canAccessClass current id then
        return id
      else
        throw ⟨className, .illegalAccess (.ofClass name)⟩

def resolveCall (options : LinkOptions) (current : ClassId) (site : CallSite) :
    Linking CallTarget := do
  link options current
  if site.owner.startsWith "[" then
    match arrayTarget site with
    | .ok target => return target
    | .error fault => throw ⟨(← get).name current, fault⟩
  else
    let owner ← resolveClass options current site.owner
    (← get).selectCall current owner site

end ClassGraph

end Linkage
