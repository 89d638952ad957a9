import Linkage.ClassName
import Linkage.Text.Hex
import Linkage.Text.Utf16

namespace Linkage.Mangle

open Text

def isPlain (c : Char) : Bool :=
  ('A' ≤ c && c ≤ 'Z') || ('a' ≤ c && c ≤ 'z') || ('0' ≤ c && c ≤ '9')

def spell (c : Char) : List Char :=
  if isPlain c then
    [c]
  else if ['/', ' ', '$', '-', '_'].contains c then
    ['_']
  else if c.toNat ≤ 0xFFFF then
    'u' :: hex 4 c.toNat
  else
    'U' :: hex 8 c.toNat

def identifier (name : String) : String :=
  String.ofList (name.toList.flatMap spell)

def tagged (tag : String) (ident : String) : String :=
  toString ident.length ++ tag ++ ident

def className (name : String) : String :=
  tagged "P" (identifier (ClassName.package name)) ++ tagged "C" (identifier (ClassName.simple name))

def fieldName (name : String) : String :=
  tagged "F" (identifier name)

-- Constructors and class initializers have fixed names. Methods of one name share a mangled name,
-- since descriptors are not part of it.
def methodName (name : String) : String :=
  if name = "<init>" then
    tagged "I" "INIT"
  else if name = "<clinit>" then
    tagged "I" "CLINIT"
  else
    tagged "M" (identifier name)

def spellNative (c : Char) : List Char :=
  if isPlain c then
    [c]
  else if c = '/' then
    ['_']
  else if c = '_' then
    ['_', '1']
  else if c = ';' then
    ['_', '2']
  else if c = '[' then
    ['_', '3']
  else
    (Utf16.ofChar c).flatMap fun unit => '_' :: '0' :: hex 4 unit.toNat

def nativeIdentifier (name : String) : String :=
  String.ofList (name.toList.flatMap spellNative)

def nativeShort (cls method : String) : String :=
  "Java_" ++ nativeIdentifier cls ++ "_" ++ nativeIdentifier method

def argumentText (descriptor : String) : String :=
  match descriptor.toList with
  | '(' :: rest =>
      match ClassName.splitAtLast ')' rest with
      | some (args, _) => String.ofList args
      | none => ""
  | _ => ""

def nativeLong (cls method descriptor : String) : String :=
  nativeShort cls method ++ "__" ++ nativeIdentifier (argumentText descriptor)

end Linkage.Mangle
