import Linkage.Graph.Access

namespace Linkage.ClassGraph

def intermediates (g : ClassGraph) (child parent : ClassId) (name descriptor : String) :
    List MethodRef :=
  let between := (g.superclasses child).filter fun c => c ≠ parent && g.isSubtype c parent
  (between.filterMap fun c => g.declaredMethod? c name descriptor).filter
    (g.methodHas · (·.isVirtual))

-- Each step through an intermediate class leaves fewer classes between the two methods.
def overridesWithin (g : ClassGraph) : (depth : Nat) → (child parent : MethodRef) → Bool
  | 0, _, _ => false
  | depth + 1, child, parent =>
      match g.method? child, g.method? parent with
      | some c, some p =>
          if c.isStatic || p.isStatic then
            false
          else if child = parent then
            true
          else if !c.isNamed p.name p.descriptor || c.isPrivate
              || !g.isSubtype child.owner parent.owner then
            false
          else if p.isPublic || p.isProtected then
            true
          else if p.isPrivate then
            false
          else
            g.samePackage child.owner parent.owner ||
              (g.intermediates child.owner parent.owner p.name p.descriptor).any fun m =>
                g.overridesWithin depth child m && g.overridesWithin depth m parent
      | _, _ => false

def overrides (g : ClassGraph) (child parent : MethodRef) : Bool :=
  g.overridesWithin (g.size + 1) child parent

end Linkage.ClassGraph
