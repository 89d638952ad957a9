namespace Linkage.Toml

inductive TomlError where
  | malformed
  | tooDeep
  | outOfRange
  | duplicateKey (key : String)
  | notATable (key : String)
  | unknownKey (key : String)
  | wrongType (expected : String)
  deriving DecidableEq, Repr

namespace TomlError

def message : TomlError → String
  | malformed => "malformed document"
  | tooDeep => "nesting is too deep"
  | outOfRange => "value is out of range"
  | duplicateKey key => "duplicate key " ++ key
  | notATable key => key ++ " is not a table"
  | unknownKey key => "unknown key " ++ key
  | wrongType expected => "expected " ++ expected

end TomlError

abbrev Scanner (α : Type) := StateT (List Char) (Except TomlError) α

namespace Scanner

def malformed {α : Type} : Scanner α :=
  throw .malformed

def peek : Scanner (Option Char) :=
  return (← get).head?

def next : Scanner Char := do
  match ← get with
  | c :: rest =>
      set rest
      return c
  | [] => malformed

def takeWhile (p : Char → Bool) : Scanner (List Char) := do
  let (front, rest) := (← get).span p
  set rest
  return front

def take : (n : Nat) → Scanner (List Char)
  | 0 => return []
  | n + 1 => do
      let c ← next
      return c :: (← take n)

def accept (text : List Char) : Scanner Bool := do
  let input ← get
  if text.isPrefixOf input then
    set (input.drop text.length)
    return true
  else
    return false

def expect (text : List Char) : Scanner Unit := do
  if !(← accept text) then
    malformed

def attempt {α : Type} (scanner : Scanner α) : Scanner (Option α) := fun input =>
  match scanner input with
  | .ok (a, rest) => .ok (some a, rest)
  | .error _ => .ok (none, input)

def iterate {α β : Type} (step : α → Scanner (α ⊕ β)) : (fuel : Nat) → α → Scanner β
  | 0, _ => malformed
  | fuel + 1, a => do
      match ← step a with
      | .inl a => iterate step fuel a
      | .inr b => return b

def loop {α β : Type} (step : α → Scanner (α ⊕ β)) (start : α) : Scanner β := fun input =>
  iterate step (input.length + 1) start input

def newline : Scanner Bool := do
  if ← accept ['\n'] then return true else accept ['\r', '\n']

def isBlank (c : Char) : Bool := c = ' ' || c = '\t'

def blanks : Scanner Unit := do
  let _ ← takeWhile isBlank

def isCommentChar (c : Char) : Bool :=
  c = '\t' || (' ' ≤ c && c ≠ '\x7f')

def comment : Scanner Unit := do
  if ← accept ['#'] then
    let _ ← takeWhile isCommentChar

def lineEnd : Scanner Unit := do
  blanks
  comment
  if !(← newline) && !(← get).isEmpty then
    malformed

def filler : Scanner Unit :=
  loop (fun () => do
    match ← peek with
    | some '#' =>
        comment
        return .inl ()
    | some c =>
        if isBlank c then
          blanks
          return .inl ()
        else if ← newline then
          return .inl ()
        else
          return .inr ()
    | none => return .inr ()) ()

end Scanner

end Linkage.Toml
