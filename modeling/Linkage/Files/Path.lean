namespace Linkage.Path

def segments (path : String) : List String :=
  go path.toList []
where
  go : List Char → List Char → List String
    | [], current => [String.ofList current.reverse]
    | c :: rest, current =>
        if c = '/' then String.ofList current.reverse :: go rest [] else go rest (c :: current)

def isAbsolute (path : String) : Bool :=
  path.toList.head? = some '/'

def names (path : String) : List String :=
  (segments path).filter fun s => s ≠ "" && s ≠ "."

def fileName? (path : String) : Option String :=
  (names path).getLast?.filter (· ≠ "..")

def extension? (path : String) : Option String := do
  let name ← fileName? path
  let (ext, stem) := name.toList.reverse.span (· ≠ '.')
  match stem with
  | '.' :: _ :: _ => some (String.ofList ext.reverse)
  | _ => none

def lengthLimit : Nat := 4096

def isTooLong (path : String) : Bool :=
  lengthLimit ≤ path.utf8ByteSize

def join (base path : String) : String :=
  if isAbsolute path || base = "" then
    path
  else if base.toList.getLast? = some '/' then
    base ++ path
  else
    base ++ "/" ++ path

def trimEnd : List Char → List Char
  | '/' :: rest => if rest.isEmpty then ['/'] else trimEnd rest
  | ['.', '/'] => ['/']
  | '.' :: '/' :: rest => trimEnd rest
  | cs => cs

def parent? (path : String) : Option String :=
  match trimEnd path.toList.reverse with
  | [] => none
  | ['/'] => none
  | cs =>
      match cs.dropWhile (· ≠ '/') with
      | [] => some ""
      | rest => some (String.ofList (trimEnd rest).reverse)

end Linkage.Path
