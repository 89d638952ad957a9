import Linkage.Graph.Hierarchy

namespace Linkage.ClassGraph

def samePackage (g : ClassGraph) (a b : ClassId) : Bool :=
  ClassName.samePackage (g.name a) (g.name b)

def canAccessClass (g : ClassGraph) (requester target : ClassId) : Bool :=
  (g.record? target).any (·.access.isPublic) || g.samePackage requester target

def canAccessMember (g : ClassGraph) (requester declaring : ClassId) (access : Access) : Bool :=
  if access.isPublic then
    true
  else if access.isPrivate then
    requester = declaring
  else
    (access.isProtected && g.isSubtype requester declaring) || g.samePackage requester declaring

def canAccessField (g : ClassGraph) (requester : ClassId) (field : FieldRef) : Bool :=
  (g.field? field).any fun f => g.canAccessMember requester field.owner f.access

def canAccessMethod (g : ClassGraph) (requester : ClassId) (method : MethodRef) : Bool :=
  (g.method? method).any fun m => g.canAccessMember requester method.owner m.access

end Linkage.ClassGraph
