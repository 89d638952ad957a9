import Linkage.Report.Summary
import Linkage.Text.Hex

namespace Linkage.Report

def escape (c : Char) : List Char :=
  match c with
  | '"' => ['\\', '"']
  | '\\' => ['\\', '\\']
  | '\n' => ['\\', 'n']
  | '\r' => ['\\', 'r']
  | '\t' => ['\\', 't']
  | '\x08' => ['\\', 'b']
  | '\x0c' => ['\\', 'f']
  | c => if c < ' ' then '\\' :: 'u' :: Text.hex 4 c.toNat else [c]

def quote (s : String) : String :=
  "\"" ++ String.ofList (s.toList.flatMap escape) ++ "\""

def indent (level : Nat) : String :=
  String.ofList (List.replicate (2 * level) ' ')

def block (opening closing : String) (level : Nat) (items : List String) : String :=
  if items.isEmpty then
    opening ++ closing
  else
    opening ++ "\n" ++ String.intercalate ",\n" (items.map (indent (level + 1) ++ ·)) ++ "\n"
      ++ indent level ++ closing

def summaryJson (level : Nat) (s : ClassSummary) : String :=
  let entry := fun (key value : String) => quote key ++ ": " ++ value
  block "\x7b" "\x7d" level [
    entry "name" (quote s.name),
    entry "mangled_name" (quote s.mangledName),
    entry "kind" (quote s.kind),
    entry "super_class" (match s.superClass with
      | some name => quote name
      | none => "null"),
    entry "static_fields" (toString s.staticFields),
    entry "instance_fields" (toString s.instanceFields),
    entry "reference_slots" (toString s.referenceSlots),
    entry "vtable_len" (toString s.vtableLength),
    entry "ivtable" (block "[" "]" (level + 1) (s.interfaces.map quote))]

def json (summaries : List ClassSummary) : String :=
  block "[" "]" 0 (summaries.map (summaryJson 1))

end Linkage.Report
