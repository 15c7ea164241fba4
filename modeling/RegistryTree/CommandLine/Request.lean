import RegistryTree.CommandLine.Arguments
import RegistryTree.Text.Blank
import RegistryTree.Text.Quoted

/-!
# Requests

What a command line asks for. General options come first, then the name of a command, then what the
command takes. The environment may give values for options that the command line leaves out; an
empty value gives none.

The level of the journal is looked at as soon as there is a command, before the words of the command
are.
-/

namespace RegistryTree.CommandLine

open RegistryTree.Text

/-- What is asked of a command. -/
inductive Request where
  /-- How to use the program, or one of its commands. -/
  | help
  /-- The version of the program. -/
  | version
  /-- To write a package from a file of metadata into a registry. -/
  | build (metadata package registry : String) (keep : Bool)
  /-- To check the manifest in a directory. -/
  | check (path : String)
  deriving DecidableEq, Repr

/-- Why a command line asks for nothing that can be done. -/
inductive Refusal where
  | usage (error : UsageError)
  /-- The level of the journal is not known. -/
  | unknownLevel (name : String)
  deriving DecidableEq, Repr

/-- The levels of the journal: the name of each, and the least number of a note that is shown. -/
def levels : List (String × Nat) :=
  [("CRITICAL", 50), ("FATAL", 50), ("ERROR", 40), ("WARN", 30), ("WARNING", 30), ("INFO", 20),
    ("DEBUG", 10), ("NOTSET", 0)]

/-- The capital of a letter, as far as capitals are A to Z. -/
def capital (c : Char) : Char :=
  if c = 'ı' then 'I' else if c = 'ſ' then 'S' else c.toUpper

/-- The number of a level that is given by name, in letters of either case. -/
def threshold? (name : String) : Option Nat :=
  levels.lookup (String.ofList ((trimChars name.toList).map capital))

/-- The option that asks for help. -/
def helpForm : OptionForm := ⟨"--help", false⟩

/-- The general options. -/
def generalForms : List OptionForm := [⟨"--log-level", true⟩, helpForm]

/-- The options of `build`. -/
def buildForms : List OptionForm :=
  [⟨"--package", true⟩, ⟨"--out-dir", true⟩, ⟨"--keep-on-error", false⟩, helpForm]

/-- The options of `check`. -/
def checkForms : List OptionForm := [⟨"--path", true⟩, helpForm]

/-- The commands. -/
inductive Command where
  | version
  | build
  | check
  deriving DecidableEq, Repr

/-- The command of a name. -/
def Command.ofName? (name : String) : Option Command :=
  if name = "version" then some .version
  else if name = "build" then some .build
  else if name = "check" then some .check
  else none

/-- The values that the environment gives for options. -/
abbrev Environment := List (String × String)

/-- The value of a variable, unless it is empty. -/
def variableValue (environment : Environment) (name : String) : Option String :=
  (environment.lookup name).filter (· ≠ "")

/-- The value of an option that a variable can give too, and that has a value without either. -/
def valueOf (environment : Environment) (a : Arguments) (name source fallback : String) : String :=
  ((a.get? name).or (variableValue environment source)).getD fallback

/-- The value of an option that must be given. -/
def required (a : Arguments) (name : String) : Except UsageError String :=
  match a.get? name with
  | some value => .ok value
  | none => .error (.missingOption name)

/-- Fails when there is an argument. -/
def noArguments : List String → Except UsageError Unit
  | [] => .ok ()
  | word :: _ => .error (.unexpectedArgument word)

/-- What the words behind the name of a command ask for. -/
def Command.request (environment : Environment) : Command → List String → Except UsageError Request
  | .version, words => do
    let a ← Arguments.parse [helpForm] true words
    if a.has "--help" then return .help
    noArguments a.arguments
    return .version
  | .build, words => do
    let a ← Arguments.parse buildForms true words
    if a.has "--help" then return .help
    let package ← required a "--package"
    let registry := valueOf environment a "--out-dir" "OPMANIFEST_OUT_DIR" "."
    match a.arguments with
    | [] => .error (.missingArgument "METADATA_PATH")
    | [metadata] => return .build metadata package registry (a.has "--keep-on-error")
    | _ :: word :: _ => .error (.unexpectedArgument word)
  | .check, words => do
    let a ← Arguments.parse checkForms true words
    if a.has "--help" then return .help
    let path ← required a "--path"
    noArguments a.arguments
    return .check path

/-- What a command line asks for, and the least number of a note that is shown. -/
def request (environment : Environment) (words : List String) : Except Refusal (Nat × Request) := do
  let a ← (Arguments.parse generalForms false words).mapError .usage
  if a.has "--help" then return (0, .help)
  match a.arguments with
  | [] => .error (.usage .missingCommand)
  | name :: rest =>
    match Command.ofName? name with
    | none => .error (.usage (.unknownCommand name))
    | some command =>
      let level := valueOf environment a "--log-level" "OPMANIFEST_LOG_LEVEL" "WARNING"
      -- the general options are looked at before the words behind the command
      match threshold? level with
      | none => .error (.unknownLevel level)
      | some threshold => return (threshold, ← (command.request environment rest).mapError .usage)

end RegistryTree.CommandLine
