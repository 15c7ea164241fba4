/-!
# Options and arguments

The words of a command line are options and arguments. An option begins with a dash; its value
stands behind an equals sign in the same word or is the next word, whatever that looks like. A word
of two dashes ends the options. Where options and arguments may not be mixed, the first argument
ends the options too.

> `parse_value`: an option with its value in the next word.
-/

namespace RegistryTree.CommandLine

/-- An option: how it is written, and whether it has a value. -/
structure OptionForm where
  name : String
  hasValue : Bool
  deriving DecidableEq, Repr

/-- What is wrong with the words of a command line. -/
inductive UsageError where
  | unknownOption (name : String)
  | missingValue (name : String)
  | unwantedValue (name : String)
  | missingOption (name : String)
  | missingArgument (name : String)
  | unexpectedArgument (word : String)
  | missingCommand
  | unknownCommand (name : String)
  deriving DecidableEq, Repr

/-- The words a wrong command line is reported with. -/
def UsageError.message : UsageError → String
  | unknownOption name => "There is no option " ++ name ++ "."
  | missingValue name => "The option " ++ name ++ " needs a value."
  | unwantedValue name => "The option " ++ name ++ " has no value."
  | missingOption name => "The option " ++ name ++ " is missing."
  | missingArgument name => "The argument " ++ name ++ " is missing."
  | unexpectedArgument word => "There is nothing to do with the argument " ++ word ++ "."
  | missingCommand => "There is no command."
  | unknownCommand name => "There is no command " ++ name ++ "."

/-- The options of a command line with their values, in order, and the arguments. -/
structure Arguments where
  options : List (String × String)
  arguments : List String
  deriving DecidableEq, Repr

namespace Arguments

/-- The value of an option: that of its last occurrence. -/
def get? (a : Arguments) (name : String) : Option String := a.options.reverse.lookup name

/-- Whether an option occurs. -/
def has (a : Arguments) (name : String) : Bool := a.options.any (·.1 = name)

/-- Adds an option in front. -/
def addOption (name value : String) (a : Arguments) : Arguments :=
  { a with options := (name, value) :: a.options }

/-- Adds an argument in front. -/
def addArgument (word : String) (a : Arguments) : Arguments :=
  { a with arguments := word :: a.arguments }

/-- Whether a word is an option. -/
def isOption (word : String) : Bool := word.toList.head? = some '-' && word ≠ "-"

/-- The name of an option, and the value behind the first equals sign of the word. -/
def splitWord (word : String) : String × Option String :=
  let name := word.toList.takeWhile (· ≠ '=')
  match word.toList.dropWhile (· ≠ '=') with
  | [] => (word, none)
  | _ :: value => (String.ofList name, some (String.ofList value))

/-- Takes the words of a command line apart. Where `mixed` does not hold, the first argument ends
the options. -/
def parse (forms : List OptionForm) (mixed : Bool) : List String → Except UsageError Arguments
  | [] => .ok ⟨[], []⟩
  | word :: rest =>
    if word = "--" then .ok ⟨[], rest⟩
    else if isOption word then
      let (name, value?) := splitWord word
      match forms.find? (·.name = name), value? with
      | none, _ => .error (.unknownOption name)
      | some ⟨_, false⟩, none => (parse forms mixed rest).map (addOption name "")
      | some ⟨_, false⟩, some _ => .error (.unwantedValue name)
      | some ⟨_, true⟩, some value => (parse forms mixed rest).map (addOption name value)
      | some ⟨_, true⟩, none =>
        match rest with
        | [] => .error (.missingValue name)
        | value :: rest => (parse forms mixed rest).map (addOption name value)
    else if mixed then (parse forms mixed rest).map (addArgument word)
    else .ok ⟨[], word :: rest⟩

theorem dropWhile_of_not_mem {s : List Char} {c : Char} (h : c ∉ s) :
    s.dropWhile (· ≠ c) = [] := by
  induction s with
  | nil => rfl
  | cons d rest ih =>
    rw [List.mem_cons, not_or] at h
    rw [List.dropWhile_cons, if_pos (by simpa using Ne.symm h.1), ih h.2]

theorem parse_value {forms : List OptionForm} {mixed : Bool} {word value : String}
    {rest : List String} (hw : isOption word = true) (hne : word ≠ "--") (he : '=' ∉ word.toList)
    (hf : forms.find? (·.name = word) = some ⟨word, true⟩) :
    parse forms mixed (word :: value :: rest) =
      (parse forms mixed rest).map (addOption word value) := by
  have hs : splitWord word = (word, none) := by
    rw [splitWord, dropWhile_of_not_mem he]
  rw [parse, if_neg hne, if_pos hw]
  simp only [hs, hf]

end Arguments

end RegistryTree.CommandLine
