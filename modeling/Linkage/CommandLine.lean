import Linkage.Classpath.Load
import Linkage.Config.Settings
import Linkage.Report.Json

namespace Linkage

structure Arguments where
  config : Option String := none
  runtimeClasspath : List String := []
  classpath : List String := []
  json : Bool := false
  deriving DecidableEq, Repr

inductive Request where
  | run (arguments : Arguments)
  | help
  | version
  | usage
  deriving DecidableEq, Repr

structure Outcome where
  exit : Nat
  stdout : String
  stderr : String
  deriving DecidableEq, Repr

namespace CommandLine

inductive ValueOption where
  | config
  | runtimeClasspath
  | classpath
  deriving DecidableEq, Repr

def valueOption? (name : String) : Option ValueOption :=
  [("--config", .config), ("--runtime-classpath", .runtimeClasspath),
    ("--classpath", .classpath)].lookup name

def give (arguments : Arguments) (option : ValueOption) (value : String) : Option Arguments :=
  if value = "" then
    none
  else
    match option with
    | .config => if arguments.config.isSome then none else some { arguments with config := value }
    | .runtimeClasspath =>
        some { arguments with runtimeClasspath := arguments.runtimeClasspath ++ [value] }
    | .classpath => some { arguments with classpath := arguments.classpath ++ [value] }

def isOptionLike (argument : String) : Bool :=
  argument.startsWith "-" && argument ≠ "-"

def parseFrom (arguments : Arguments) : List String → Request
  | [] => .run arguments
  | argument :: rest =>
      let (name, attached) := argument.toList.span (· ≠ '=')
      match valueOption? (String.ofList name), attached with
      | some option, _ :: value =>
          match give arguments option (String.ofList value) with
          | some arguments => parseFrom arguments rest
          | none => .usage
      | some option, [] =>
          match rest with
          | value :: rest =>
              if isOptionLike value then
                .usage
              else
                match give arguments option value with
                | some arguments => parseFrom arguments rest
                | none => .usage
          | [] => .usage
      | none, _ =>
          if argument = "--json" then
            if arguments.json then .usage else parseFrom { arguments with json := true } rest
          else if argument = "--help" || argument.startsWith "-h" then
            .help
          else if argument = "--version" || argument.startsWith "-V" then
            .version
          else if argument = "--" && rest.isEmpty then
            .run arguments
          else
            .usage

def parse (arguments : List String) : Request :=
  parseFrom {} arguments

def programName : String := "foxvm-translator"

def versionText : String := programName ++ " 0.1.0\n"

def helpText : String :=
  String.intercalate "\n" [
    "Pre-resolve JVM classes ahead of translation",
    "",
    "Usage: " ++ programName ++ " [OPTIONS]",
    "",
    "Options:",
    "      --config <CONFIG>           TOML configuration file",
    "      --runtime-classpath <PATH>  Runtime library class directory or jar "
      ++ "(repeatable, appended to the configured ones)",
    "      --classpath <PATH>          Application class directory or jar "
      ++ "(repeatable, appended to the configured ones)",
    "      --json                      Emit JSON instead of text",
    "  -h, --help                      Print help",
    "  -V, --version                   Print version",
    ""]

def usageText : String :=
  "error: invalid arguments\n\nUsage: " ++ programName ++ " [OPTIONS]\n\n"
    ++ "For more information, try '--help'.\n"

def settings (disk : Disk) (arguments : Arguments) : Except ConfigError Settings := do
  let base ← match arguments.config with
    | some path => Settings.ofFile disk path
    | none => .ok {}
  return { base with
    classpath := {
      runtime := base.classpath.runtime ++ arguments.runtimeClasspath
      application := base.classpath.application ++ arguments.classpath } }

def loadGraph (disk : Disk) (classpath : ClasspathSettings) : Except LoadError ClassGraph := do
  let start := if classpath.runtime.isEmpty then ClassGraph.minimal else ClassGraph.empty
  let entries := fun paths => paths.map ClasspathEntry.ofPath
  let (count, g) := start.load disk .application (entries classpath.application)
  let _ ← count
  let (count, g) := g.load disk .runtime (entries classpath.runtime)
  let _ ← count
  return g

def render (json : Bool) (summaries : List ClassSummary) : String :=
  if json then
    Report.json summaries ++ "\n"
  else
    String.join (summaries.map fun s => s.text ++ "\n")

def failed (message : String) : Outcome := ⟨2, "", message ++ "\n"⟩

def execute (disk : Disk) (arguments : Arguments) : Outcome :=
  match settings disk arguments with
  | .error e => failed e.message
  | .ok settings =>
      match loadGraph disk settings.classpath with
      | .error e => failed ("failed to load classpath: " ++ e.report)
      | .ok g =>
          match (g.linkApplication settings.link).1 with
          | .error e => ⟨1, "", "linkage error: " ++ e.message ++ "\n"⟩
          | .ok summaries => ⟨0, render arguments.json summaries, ""⟩

def paths (disk : Disk) (arguments : List String) : List String :=
  match parse arguments with
  | .run arguments =>
      match settings disk arguments with
      | .ok settings =>
          arguments.config.toList ++ settings.classpath.application ++ settings.classpath.runtime
      | .error _ => arguments.config.toList
  | _ => []

def run (disk : Disk) (arguments : List String) : Outcome :=
  match parse arguments with
  | .run arguments => execute disk arguments
  | .help => ⟨0, helpText, ""⟩
  | .version => ⟨0, versionText, ""⟩
  | .usage => ⟨2, "", usageText⟩

end CommandLine

end Linkage
