import Linkage.Config.Toml.Number

namespace Linkage.Toml

inductive TableForm where
  | header
  | implied
  | dotted
  | inline
  deriving DecidableEq, Repr

inductive Value where
  | string (text : String)
  | boolean (value : Bool)
  | integer (value : Int)
  | float
  | datetime
  | array (items : List Value)
  | table (form : TableForm) (entries : List (String × Value))
  | tables (items : List Value)
  deriving Repr

abbrev Entries := List (String × Value)

namespace Entries

def set (key : String) (value : Value) : Entries → Entries
  | [] => [(key, value)]
  | (k, v) :: rest => if k = key then (k, value) :: rest else (k, v) :: set key value rest

-- Follows a path of keys and changes the table at its end. Missing tables are created; with dotted
-- keys they are dotted, and tables with headers are not entered.
def descend (dotted : Bool) (change : TableForm → Entries → Except TomlError Entries) :
    (path : List String) → TableForm → Entries → Except TomlError Entries
  | [], form, entries => change form entries
  | key :: rest, _, entries => do
      match entries.lookup key with
      | none =>
          let form := if dotted then .dotted else .implied
          let child ← descend dotted change rest form []
          return entries ++ [(key, .table form child)]
      | some (.table form child) =>
          if form = .inline then
            throw (.notATable key)
          if dotted && form = .header then
            throw (.duplicateKey key)
          let child ← descend dotted change rest form child
          return set key (.table form child) entries
      | some (.tables items) =>
          match items.getLast? with
          | some (.table form child) =>
              let child ← descend dotted change rest form child
              return set key (.tables (items.dropLast ++ [.table form child])) entries
          | _ => throw (.notATable key)
      | some _ => throw (.notATable key)

def insert (path : List String) (value : Value) (form : TableForm) (entries : Entries) :
    Except TomlError Entries :=
  match path.getLast? with
  | none => .error .malformed
  | some key =>
      let parents := path.dropLast
      descend true (fun form entries =>
        if (form = .dotted) = parents.isEmpty || (entries.lookup key).isSome then
          .error (.duplicateKey key)
        else
          .ok (entries ++ [(key, value)])) parents form entries

def openTable (key : String) (_ : TableForm) (entries : Entries) : Except TomlError Entries :=
  match entries.lookup key with
  | none => .ok (entries ++ [(key, .table .header [])])
  | some (.table .implied child) => .ok (set key (.table .header child) entries)
  | some _ => .error (.duplicateKey key)

def appendTable (key : String) (_ : TableForm) (entries : Entries) : Except TomlError Entries :=
  match entries.lookup key with
  | none => .ok (entries ++ [(key, .tables [.table .header []])])
  | some (.tables items) => .ok (set key (.tables (items ++ [.table .header []])) entries)
  | some _ => .error (.duplicateKey key)

end Entries

open Scanner

def arrayItems (item : Scanner Value) : Scanner (List Value) :=
  loop (fun (done : List Value) => do
    filler
    if ← accept [']'] then
      return .inr done.reverse
    let value ← item
    filler
    let done := value :: done
    if ← accept [','] then
      return .inl done
    expect [']']
    return .inr done.reverse) []

def keyValue (item : Scanner Value) : Scanner (List String × Value) := do
  let path ← key
  expect ['=']
  blanks
  return (path, ← item)

def inlineEntries (item : Scanner Value) : Scanner Entries := do
  blanks
  if ← accept ['}'] then
    return []
  loop (fun (done : Entries) => do
    let (path, value) ← keyValue item
    blanks
    let done ← Entries.insert path value .inline done
    if ← accept [','] then
      return .inl done
    expect ['}']
    return .inr done) []

def numeric : Scanner Value := do
  if (← attempt datetime).isSome then
    return .datetime
  else if (← attempt float).isSome then
    return .float
  else
    return .integer (← integer)

def valueOf (item : Option (Scanner Value)) : Scanner Value := do
  match ← peek with
  | some '"' => return .string (← string)
  | some '\'' => return .string (← string)
  | some '[' =>
      match item with
      | some item => next *> (.array <$> arrayItems item)
      | none => throw .tooDeep
  | some '\x7b' =>
      match item with
      | some item => next *> (.table .inline <$> inlineEntries item)
      | none => throw .tooDeep
  | some 't' => expect "true".toList *> return .boolean true
  | some 'f' => expect "false".toList *> return .boolean false
  | some 'i' => specialFloat *> return .float
  | some 'n' => specialFloat *> return .float
  | some c => if c = '+' || c = '-' || isDigit c then numeric else malformed
  | none => malformed

def valueWithin : (depth : Nat) → Scanner Value
  | 0 => valueOf none
  | depth + 1 => valueOf (some (valueWithin depth))

def value : Scanner Value :=
  valueWithin (depthLimit - 1)

structure Draft where
  entries : Entries
  path : List String

namespace Draft

def start (open_ : String → TableForm → Entries → Except TomlError Entries)
    (path : List String) (d : Draft) : Except TomlError Draft := do
  match path.getLast? with
  | none => throw .malformed
  | some key => return ⟨← Entries.descend false (open_ key) path.dropLast .header d.entries, path⟩

def add (path : List String) (value : Value) (d : Draft) : Except TomlError Draft := do
  return { d with
    entries := ← Entries.descend false (Entries.insert path value) d.path .header d.entries }

end Draft

def header (d : Draft) : Scanner Draft := do
  let isArray ← accept ['[', '[']
  if !isArray then
    expect ['[']
  let path ← key
  expect (if isArray then [']', ']'] else [']'])
  lineEnd
  Draft.start (if isArray then Entries.appendTable else Entries.openTable) path d

def line (d : Draft) : Scanner (Draft ⊕ Draft) := do
  blanks
  match ← peek with
  | none => return .inr d
  | some '[' => .inl <$> header d
  | some c =>
      if c = '#' || c = '\n' || c = '\r' then
        lineEnd
        return .inl d
      else
        let (path, v) ← keyValue value
        lineEnd
        .inl <$> d.add path v

def document : Scanner Entries := do
  let _ ← accept ['\uFEFF']
  return (← loop line ⟨[], []⟩).entries

def parse (text : String) : Except TomlError Entries :=
  (document text.toList).map Prod.fst

end Linkage.Toml
