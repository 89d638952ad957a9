import Linkage.Text.Alphanumeric
import Linkage.Text.WhiteSpace

namespace Linkage

inductive LogLevel where
  | off
  | error
  | warn
  | info
  | debug
  | trace
  deriving DecidableEq, Repr

namespace LogLevel

def label : LogLevel → String
  | off => "off"
  | error => "error"
  | warn => "warn"
  | info => "info"
  | debug => "debug"
  | trace => "trace"

def all : List LogLevel := [off, error, warn, info, debug, trace]

def number? (cs : List Char) : Option Nat :=
  let digits := if cs.head? = some '+' then cs.tail else cs
  if digits.isEmpty || !digits.all Char.isDigit then
    none
  else
    some (digits.foldl (fun n c => n * 10 + (c.toNat - '0'.toNat)) 0)

def ofText? (text : String) : Option LogLevel :=
  ((number? text.toList).bind fun n => all[n]?).or
    (all.find? fun level => level.label = text.toLower)

end LogLevel

structure LogDirective where
  target : Option String
  level : LogLevel
  deriving DecidableEq, Repr

namespace LogDirective

def text (d : LogDirective) : String :=
  match d.target with
  | some target => target ++ "=" ++ d.level.label
  | none => d.level.label

def hasStart (cs : List Char) : Bool :=
  (cs.dropWhile Text.isWhiteSpace).head?.any fun c =>
    Text.isAlphanumeric c || ['-', ':', '_'].contains c

def isTarget (cs : List Char) : Bool :=
  !cs.contains '['

def ofText? (text : String) : Option LogDirective :=
  if !hasStart text.toList then
    none
  else
    match text.toList.span (· ≠ '=') with
    | (name, []) =>
        match LogLevel.ofText? text with
        | some level => some ⟨none, level⟩
        | none => if isTarget name then some ⟨some text, .trace⟩ else none
    | (name, _ :: level) =>
        if !isTarget name || name.head?.any Text.isWhiteSpace then
          none
        else if level.isEmpty then
          some ⟨some (String.ofList name), .trace⟩
        else
          (LogLevel.ofText? (String.ofList level)).map fun level =>
            ⟨some (String.ofList name), level⟩

-- Whether `a` is listed before `b`: longer targets are, and of equal length later ones.
def precedes (a b : LogDirective) : Bool :=
  match a.target, b.target with
  | none, _ => false
  | some _, none => true
  | some s, some t =>
      t.utf8ByteSize < s.utf8ByteSize || (s.utf8ByteSize = t.utf8ByteSize && t < s)

end LogDirective

structure LogFilter where
  directives : List LogDirective
  deriving DecidableEq, Repr

namespace LogFilter

def empty : LogFilter := ⟨[]⟩

def insert (d : LogDirective) : List LogDirective → List LogDirective
  | [] => [d]
  | e :: rest =>
      if e.target = d.target then
        d :: rest
      else if d.precedes e then
        d :: e :: rest
      else
        e :: insert d rest

def add (filter : LogFilter) (d : LogDirective) : LogFilter :=
  ⟨insert d filter.directives⟩

def ofDirectives (directives : List LogDirective) : LogFilter :=
  directives.foldl add empty

def ofText? (text : String) : Option LogFilter :=
  let parts := (text.splitOn ",").filter (· ≠ "")
  (parts.mapM LogDirective.ofText?).map ofDirectives

def text (filter : LogFilter) : String :=
  String.intercalate "," (filter.directives.map (·.text))

def defaultLevel : String := "warn"

def normalize (level : String) : String :=
  let level := Text.trim level
  let lower := level.toLower
  if level.isEmpty || lower = "warning" then
    defaultLevel
  else if ["trace", "debug", "info", "warn", "error"].contains lower then
    lower
  else
    level

def ofLevel (level : String) : LogFilter :=
  (ofText? (normalize level)).getD (empty.add ⟨none, .warn⟩)

def effective (level : String) (environment : Option String) : LogFilter :=
  let extra := Text.trim (environment.getD "")
  if extra.isEmpty then
    ofLevel level
  else
    ((ofText? (normalize level ++ "," ++ extra)).or (ofText? extra)).getD (ofLevel level)

end LogFilter

end Linkage
