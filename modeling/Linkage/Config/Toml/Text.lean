import Linkage.Config.Toml.Scanner

namespace Linkage.Toml

open Scanner

def hexValue? (c : Char) : Option Nat :=
  if '0' ≤ c && c ≤ '9' then some (c.toNat - '0'.toNat)
  else if 'a' ≤ c && c ≤ 'f' then some (c.toNat - 'a'.toNat + 10)
  else if 'A' ≤ c && c ≤ 'F' then some (c.toNat - 'A'.toNat + 10)
  else none

def scalar (n : Nat) : Scanner Char := do
  let digits ← take n
  match digits.mapM hexValue? with
  | none => malformed
  | some values =>
      let code := values.foldl (fun code digit => code * 16 + digit) 0
      if code.isValidChar then return Char.ofNat code else throw .outOfRange

def escaped : Scanner Char := do
  match ← next with
  | 'b' => return '\x08'
  | 't' => return '\t'
  | 'n' => return '\n'
  | 'f' => return '\x0c'
  | 'r' => return '\r'
  | '"' => return '"'
  | '\\' => return '\\'
  | 'u' => scalar 4
  | 'U' => scalar 8
  | _ => malformed

def isTextChar (c : Char) : Bool :=
  isCommentChar c

def basicLine : Scanner String :=
  loop (fun (done : List Char) => do
    match ← next with
    | '"' => return .inr (String.ofList done.reverse)
    | '\\' => return .inl ((← escaped) :: done)
    | c => if isTextChar c then return .inl (c :: done) else malformed) []

def literalLine : Scanner String :=
  loop (fun (done : List Char) => do
    match ← next with
    | '\'' => return .inr (String.ofList done.reverse)
    | c => if isTextChar c then return .inl (c :: done) else malformed) []

-- Takes a row of quotes inside a triple-quoted string. Fewer than three belong to the text; of
-- three to five, the last three end the string and the others belong to the text.
def quotes (quote : Char) : Scanner (Nat × Bool) := do
  let input ← get
  let count := (input.takeWhile (· = quote)).length
  let taken := min count 5
  set (input.drop taken)
  return if taken < 3 then (taken, false) else (taken - 3, true)

def lineContinuation : Scanner Bool := do
  let input ← get
  blanks
  if ← newline then
    loop (fun () => do
      if (← newline) || !(← takeWhile isBlank).isEmpty then return .inl () else return .inr ()) ()
    return true
  else
    set input
    return false

def lines (quote : Char) (escapes : Bool) : Scanner String := do
  let _ ← newline
  loop (fun (done : List Char) => do
    match ← peek with
    | none => malformed
    | some c =>
        if c = quote then
          let (count, isEnd) ← quotes quote
          let done := List.replicate count quote ++ done
          return if isEnd then .inr (String.ofList done.reverse) else .inl done
        else if ← newline then
          return .inl ('\n' :: done)
        else
          let c ← next
          if c = '\\' && escapes then
            if ← lineContinuation then return .inl done else return .inl ((← escaped) :: done)
          else if isTextChar c then
            return .inl (c :: done)
          else
            malformed) []

def string : Scanner String := do
  if ← accept ['"', '"', '"'] then
    lines '"' true
  else if ← accept ['\'', '\'', '\''] then
    lines '\'' false
  else
    match ← next with
    | '"' => basicLine
    | '\'' => literalLine
    | _ => malformed

def isKeyChar (c : Char) : Bool :=
  ('A' ≤ c && c ≤ 'Z') || ('a' ≤ c && c ≤ 'z') || ('0' ≤ c && c ≤ '9') || c = '-' || c = '_'

def simpleKey : Scanner String := do
  match ← peek with
  | some '"' => next *> basicLine
  | some '\'' => next *> literalLine
  | _ =>
      let bare ← takeWhile isKeyChar
      if bare.isEmpty then malformed else return String.ofList bare

def depthLimit : Nat := 80

def key : Scanner (List String) := do
  let parts ← loop (fun (done : List String) => do
    blanks
    let part ← simpleKey
    blanks
    let done := part :: done
    if ← accept ['.'] then return .inl done else return .inr done.reverse) []
  if parts.length < depthLimit then return parts else throw .tooDeep

end Linkage.Toml
