import SmellCheck.ConfigFile

/-!
The command line: `rules` lists the rules in force, `describe` shows one of them. Both take
`--config FILE`; the list is written as JSON with `--json`.
-/

set_option autoImplicit false

namespace SmellCheck.CommandLine

inductive Command where
  | rules (config? : Option String) (json : Bool)
  | describe (id : String) (config? : Option String)
deriving DecidableEq

structure Arguments where
  positional : List String
  configs : List String
  flags : List String

namespace Arguments

def addPositional (arguments : Arguments) (text : String) : Arguments :=
  { arguments with positional := text :: arguments.positional }

def addConfig (arguments : Arguments) (file : String) : Arguments :=
  { arguments with configs := file :: arguments.configs }

def addFlag (arguments : Arguments) (flag : String) : Arguments :=
  { arguments with flags := flag :: arguments.flags }

-- A single dash is no option.
def isOption (text : String) : Bool := "-".isPrefixOf text && text != "-"

def configEquals? (text : String) : Option String :=
  if "--config=".isPrefixOf text then some (.ofList (text.toList.drop 9)) else none

-- After two dashes everything is positional. The file of a configuration has a name, which is no
-- option.
def ofList? : List String → Option Arguments
  | [] => some ⟨[], [], []⟩
  | "--" :: rest => some ⟨rest, [], []⟩
  | "--config" :: file :: rest =>
      if isOption file || file.isEmpty then none
      else (ofList? rest).map (·.addConfig file)
  | text :: rest =>
      match configEquals? text with
      | some file => if file.isEmpty then none else (ofList? rest).map (·.addConfig file)
      | none =>
          if isOption text then
            if text == "--config" then none else (ofList? rest).map (·.addFlag text)
          else (ofList? rest).map (·.addPositional text)

def config? (arguments : Arguments) : Option (Option String) :=
  match arguments.configs with
  | [] => some none
  | [file] => some (some file)
  | _ => none

end Arguments

def Command.ofArguments? (name : String) (arguments : Arguments) : Option Command := do
  let config? ← arguments.config?
  match name, arguments.positional, arguments.flags with
  | "rules", [], [] => return .rules config? false
  | "rules", [], ["--json"] => return .rules config? true
  | "describe", [id], [] => return .describe id config?
  | _, _, _ => none

def Command.parse? : List String → Option Command
  | [] => none
  | name :: rest => (Arguments.ofList? rest).bind (Command.ofArguments? name)

def Command.config? : Command → Option String
  | .rules config? _ => config?
  | .describe _ config? => config?

def padTo (width : Nat) (text : String) : String :=
  text ++ .ofList (List.replicate (width - text.length) ' ')

def ruleLine (descriptor : Descriptor) : String :=
  padTo 8 descriptor.severity.name ++ " " ++ padTo 44 descriptor.rule.id ++ " " ++
    descriptor.title ++ (if descriptor.fixable then " (fixable)" else "") ++ "\n"

def listing (catalog : Catalog) : String :=
  String.join (catalog.all.map ruleLine) ++ "\n" ++ toString catalog.size ++ " rule(s) enabled.\n"

def boolText (value : Bool) : String := if value then "true" else "false"

def description (descriptor : Descriptor) : String :=
  String.join ([
    ("id:       ", descriptor.rule.id),
    ("title:    ", descriptor.title),
    ("category: ", descriptor.category),
    ("severity: ", descriptor.severity.name),
    ("fixable:  ", boolText descriptor.fixable),
    ("semantic: ", boolText descriptor.semantic),
    ("message:  ", descriptor.message)].map fun (label, text) => label ++ text ++ "\n")

def jsonChar (ch : Char) : String :=
  if ch = '"' then "\\\"" else if ch = '\\' then "\\\\" else ch.toString

def jsonString (text : String) : String :=
  "\"" ++ String.join (text.toList.map jsonChar) ++ "\""

def jsonRule (descriptor : Descriptor) : String :=
  let fields := [
    ("id", jsonString descriptor.rule.id),
    ("category", jsonString descriptor.category),
    ("severity", jsonString descriptor.severity.name),
    ("title", jsonString descriptor.title),
    ("message", jsonString descriptor.message),
    ("fixable", boolText descriptor.fixable),
    ("semantic", boolText descriptor.semantic)]
  "  \x7b\n" ++
    ",\n".intercalate
      (fields.map fun (name, value) => "    " ++ jsonString name ++ ": " ++ value) ++
    "\n  \x7d"

def jsonListing (catalog : Catalog) : String :=
  match catalog.all with
  | [] => "[]\n"
  | rules => "[\n" ++ ",\n".intercalate (rules.map jsonRule) ++ "\n]\n"

structure Outcome where
  code : UInt8
  stdout : String
  stderr : String
deriving DecidableEq

inductive Source where
  | absent
  | unreadable
  | text (content : String)

def Source.catalog? : Source → Except String Catalog
  | .absent => .ok .builtin
  | .unreadable => .error "failed to read config"
  | .text content =>
      match Catalog.ofConfigText content with
      | .ok catalog => .ok catalog
      | .error .malformed => .error "failed to parse config"
      | .error (.unknownRule error) => .error error.message

def usage : Outcome :=
  ⟨2, "", "Usage: rules [--config FILE] [--json] | describe RULE_ID [--config FILE]\n"⟩

def Command.outcome (command : Command) (source : Source) : Outcome :=
  match source.catalog? with
  | .error message => ⟨1, "", message ++ "\n"⟩
  | .ok catalog =>
      match command with
      | .rules _ json => ⟨0, if json then jsonListing catalog else listing catalog, ""⟩
      | .describe id _ =>
          match catalog.describe id with
          | .ok descriptor => ⟨0, description descriptor, ""⟩
          | .error _ => ⟨1, "", "Unknown or disabled rule `" ++ id ++ "`.\n"⟩

end SmellCheck.CommandLine
