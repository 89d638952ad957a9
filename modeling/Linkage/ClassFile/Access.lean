namespace Linkage

structure Access where
  bits : UInt16
  deriving DecidableEq, Repr, Inhabited

namespace Access

def publicBit : UInt16 := 0x0001
def privateBit : UInt16 := 0x0002
def protectedBit : UInt16 := 0x0004
def staticBit : UInt16 := 0x0008
def finalBit : UInt16 := 0x0010
def superBit : UInt16 := 0x0020
def volatileBit : UInt16 := 0x0040
def nativeBit : UInt16 := 0x0100
def interfaceBit : UInt16 := 0x0200
def abstractBit : UInt16 := 0x0400
def enumBit : UInt16 := 0x4000

def has (access : Access) (bit : UInt16) : Bool :=
  access.bits &&& bit != 0

def without (access : Access) (bit : UInt16) : Access :=
  ⟨access.bits &&& ~~~bit⟩

def isPublic (access : Access) : Bool := access.has publicBit
def isPrivate (access : Access) : Bool := access.has privateBit
def isProtected (access : Access) : Bool := access.has protectedBit
def isStatic (access : Access) : Bool := access.has staticBit
def isFinal (access : Access) : Bool := access.has finalBit
def isVolatile (access : Access) : Bool := access.has volatileBit
def isNative (access : Access) : Bool := access.has nativeBit
def isInterface (access : Access) : Bool := access.has interfaceBit
def isAbstract (access : Access) : Bool := access.has abstractBit
def isEnum (access : Access) : Bool := access.has enumBit

def publicClass : Access := ⟨publicBit ||| superBit⟩

def publicInterface : Access := ⟨publicBit ||| interfaceBit ||| abstractBit⟩

end Access

end Linkage
