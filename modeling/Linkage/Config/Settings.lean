import Linkage.Classpath.Disk
import Linkage.Config.LogFilter
import Linkage.Config.Toml.Document
import Linkage.Files.Path
import Linkage.Graph.Linker

namespace Linkage

structure ClasspathSettings where
  runtime : List String := []
  application : List String := []
  deriving DecidableEq, Repr

structure LogSettings where
  level : String := LogFilter.defaultLevel
  json : Bool := false
  stderr : Bool := true
  deriving DecidableEq, Repr

structure Settings where
  classpath : ClasspathSettings := {}
  link : LinkOptions := {}
  logging : LogSettings := {}
  deriving DecidableEq, Repr

inductive ConfigError where
  | unreadable (path : String)
  | malformed (error : Toml.TomlError)
  deriving DecidableEq, Repr

namespace ConfigError

def message : ConfigError → String
  | unreadable path => "failed to read config file " ++ path
  | malformed error => "failed to parse toml config: " ++ error.message

end ConfigError

namespace Settings

open Toml

def stringOf : Value → Except TomlError String
  | .string text => .ok text
  | _ => .error (.wrongType "a string")

def booleanOf : Value → Except TomlError Bool
  | .boolean b => .ok b
  | _ => .error (.wrongType "a boolean")

def stringsOf : Value → Except TomlError (List String)
  | .array items => items.mapM stringOf
  | _ => .error (.wrongType "an array of strings")

-- The values of the fields `names`. A table gives them by key, an array by position; a closed set
-- of fields admits no other keys. Dates count as tables whose only key is unknown.
def fieldsOf (names : List String) (closed : Bool) : Value → Except TomlError Entries
  | .table _ entries =>
      match entries.find? fun (key, _) => closed && !names.contains key with
      | some (key, _) => .error (.unknownKey key)
      | none => .ok entries
  | .array items => .ok (names.zip items)
  | .tables items => .ok (names.zip items)
  | .datetime => if closed then .error (.unknownKey "datetime") else .ok []
  | _ => .error (.wrongType "a table")

def fieldOr {α : Type} (read : Value → Except TomlError α) (default : α) (fields : Entries)
    (name : String) : Except TomlError α :=
  match fields.lookup name with
  | some value => read value
  | none => .ok default

def classpathOf (value : Value) : Except TomlError ClasspathSettings := do
  let fields ← fieldsOf ["runtime", "application"] true value
  return {
    runtime := ← fieldOr stringsOf [] fields "runtime"
    application := ← fieldOr stringsOf [] fields "application" }

def linkOf (value : Value) : Except TomlError LinkOptions := do
  let fields ← fieldsOf ["root_class", "verify_vtables"] false value
  let defaults : LinkOptions := {}
  return {
    rootClass := ← fieldOr stringOf defaults.rootClass fields "root_class"
    verifyVtables := ← fieldOr booleanOf defaults.verifyVtables fields "verify_vtables" }

def loggingOf (value : Value) : Except TomlError LogSettings := do
  let fields ← fieldsOf ["level", "json", "stderr"] true value
  let defaults : LogSettings := {}
  return {
    level := ← fieldOr stringOf defaults.level fields "level"
    json := ← fieldOr booleanOf defaults.json fields "json"
    stderr := ← fieldOr booleanOf defaults.stderr fields "stderr" }

def ofEntries (entries : Entries) : Except TomlError Settings := do
  let fields ← fieldsOf ["classpath", "link", "logging"] true (.table .header entries)
  return {
    classpath := ← fieldOr classpathOf {} fields "classpath"
    link := ← fieldOr linkOf {} fields "link"
    logging := ← fieldOr loggingOf {} fields "logging" }

def ofText (text : String) : Except ConfigError Settings :=
  match Toml.parse text >>= ofEntries with
  | .ok settings => .ok settings
  | .error e => .error (.malformed e)

def relativeTo (base : String) (settings : Settings) : Settings :=
  { settings with
    classpath := {
      runtime := settings.classpath.runtime.map (Path.join base)
      application := settings.classpath.application.map (Path.join base) } }

def ofFile (disk : Disk) (path : String) : Except ConfigError Settings :=
  match disk path with
  | .file content =>
      match String.fromUTF8? (ByteArray.mk content.toArray) with
      | none => .error (.unreadable path)
      | some text => do
          let settings ← ofText text
          return match Path.parent? path with
            | some base => settings.relativeTo base
            | none => settings
  | _ => .error (.unreadable path)

end Settings

end Linkage
