import Std.Data.ExtTreeMap
/-!
# The form of command lines

A command line consists of options and, on its top level, the name of a command, after which the
command's own options follow.  An option that is not given may take its value from a variable of the
environment.

Values are looked at as late as possible: the values of an option are checked when the next option
comes, or at the end of its level, and the level of the command is finished before the level above.
Which of several mistakes is reported follows from this order.
-/

namespace EpochSplit.CommandLine

/-- Why a command line is not carried out. -/
inductive UsageFault where
  | helpWanted
  | versionWanted
  | nothingGiven
  | commandMissing
  | unknownCommand
  | unknownOption
  /-- A value is missing, or it is none of those that are allowed. -/
  | badValue
  /-- A value cannot be read. -/
  | unreadableValue
  | valueOfFlag
  | wrongNumberOfValues
  /-- Options that exclude each other, or one that may not be repeated. -/
  | conflict
  | optionMissing
deriving DecidableEq

/-- An option. -/
structure OptionRule where
  /-- The name, which follows two hyphens. -/
  name : String
  /-- The letter that may stand for the name after a single hyphen. -/
  letter : Option Char := none
  /-- The number of values; an option without values is a flag. -/
  arity : Nat := 1
  /-- Whether the option may be repeated, which adds to its values. -/
  repeatable : Bool := false
  /-- The variable of the environment that gives a value where the option is not given. -/
  environment : Option String := none
  /-- Checks a single value. -/
  check : String → Except UsageFault Unit := fun _ => .ok ()

/-- The values of an option. -/
structure Given where
  values : List String
  /-- Whether they were given as arguments and not by the environment. -/
  explicit : Bool
deriving DecidableEq

/-- The options given on one level, by name. -/
abbrev Level := Std.ExtTreeMap String Given

/-- The variables of the environment. -/
abbrev Environment := List (String × String)

/-- The value of an option's variable. -/
def OptionRule.fallback? (rule : OptionRule) (env : Environment) : Option String :=
  rule.environment.bind (List.lookup · env)

/-- A level that is being read. -/
structure Reading where
  given : Level := ∅
  /-- The last option with its values so far. -/
  pending : Option (OptionRule × List String) := none

namespace Reading

/-- Whether the last option needs more values. -/
def awaiting (r : Reading) : Bool :=
  r.pending.any fun (rule, values) => values.length < rule.arity

/-- Takes the values of an option. -/
def accept (r : Reading) (rule : OptionRule) (values : List String) :
    Except UsageFault Reading := do
  if values.length ≠ rule.arity then
    throw (if values.isEmpty then .badValue else .wrongNumberOfValues)
  let before := r.given[rule.name]?.map (·.values)
  if before.isSome ∧ !rule.repeatable then throw .conflict
  values.forM rule.check
  return { r with given := r.given.insert rule.name ⟨before.getD [] ++ values, true⟩ }

/-- Takes the values of the last option. -/
def settle (r : Reading) : Except UsageFault Reading :=
  match r.pending with
  | none => .ok r
  | some (rule, values) => { r with pending := none }.accept rule values

/-- Begins an option.  A value may be attached to it. -/
def begin (r : Reading) (rule : OptionRule) (attached : Option String) :
    Except UsageFault Reading := do
  let r ← r.settle
  match attached with
  | some value => r.accept rule [value]
  | none =>
      if rule.arity = 0 then r.accept rule [] else return { r with pending := some (rule, []) }

/-- Adds a value to those of the last option. -/
def push (r : Reading) (value : String) : Reading :=
  { r with pending := r.pending.map fun (rule, values) => (rule, values ++ [value]) }

/-- Gives an option that is not given the value of its variable. -/
def addVariable (env : Environment) (r : Reading) (rule : OptionRule) :
    Except UsageFault Reading := do
  match rule.fallback? env with
  | some value =>
      if r.given.contains rule.name then return r
      rule.check value
      return { r with given := r.given.insert rule.name ⟨[value], false⟩ }
  | none => return r

/-- Gives the options that are not given the values of their variables. -/
def addEnvironment (rules : List OptionRule) (env : Environment) (r : Reading) :
    Except UsageFault Reading :=
  rules.foldlM (addVariable env) r

end Reading

/-- The value that is attached to a name by an equals sign. -/
def valueAfter (body : List Char) : Option String :=
  match body.dropWhile (· != '=') with
  | [] => none
  | _ :: value => some (String.ofList value)

/-- The value that is attached to a letter, with or without an equals sign. -/
def valueAfterLetter : List Char → Option String
  | [] => none
  | '=' :: value => some (String.ofList value)
  | value => some (String.ofList value)

/-- What can be written on a level. -/
structure Grammar where
  rules : List OptionRule
  /-- The commands; only the top level has any. -/
  commands : List String := []

namespace Grammar

/-- Whether this is the top level. -/
def isTop (g : Grammar) : Bool := !g.commands.isEmpty

/-- Reads an argument that starts with two hyphens, without them. -/
def readName (g : Grammar) (body : List Char) (r : Reading) : Except UsageFault Reading := do
  let name := String.ofList (body.takeWhile (· != '='))
  let attached := valueAfter body
  if name = "help" ∨ (name = "version" ∧ g.isTop) then
    if attached.isSome then throw .valueOfFlag
    let _ ← r.settle
    throw (if name = "help" then .helpWanted else .versionWanted)
  match g.rules.find? (·.name == name) with
  | none => throw .unknownOption
  | some rule =>
      if rule.arity = 0 ∧ attached.isSome then throw .valueOfFlag
      r.begin rule attached

/-- Reads an argument that starts with a single hyphen, without it.  All options with letters that
are read here have values, so the first letter settles the meaning. -/
def readLetters (g : Grammar) (body : List Char) (r : Reading) : Except UsageFault Reading := do
  match body with
  | [] => throw .unknownOption
  | letter :: value =>
      if letter = 'h' ∨ (letter = 'V' ∧ g.isTop) then
        let _ ← r.settle
        throw (if letter = 'h' then .helpWanted else .versionWanted)
      match g.rules.find? (·.letter == some letter) with
      | none => throw .unknownOption
      | some rule =>
          r.begin rule (valueAfterLetter value)

/-- The complaint about a word that is neither an option nor a value. -/
def stray (g : Grammar) (trailing : Bool) (word : String) : UsageFault :=
  if !g.isTop ∨ (trailing ∧ g.commands.contains word) then .unknownOption else .unknownCommand

/-- Reads the arguments of a level, up to the name of a command, which is returned with the
arguments after it. -/
def read (g : Grammar) :
    List String → Reading → Except UsageFault (Reading × Option (String × List String))
  | [], r => .ok (r, none)
  | arg :: rest, r =>
      match arg.toList with
      | ['-', '-'] =>
          match rest with
          | [] => .ok (r, none)
          | word :: _ => .error (g.stray true word)
      | chars =>
          if !r.awaiting ∧ g.commands.contains arg then .ok (r, some (arg, rest))
          else
            match chars with
            | '-' :: '-' :: body => do g.read rest (← g.readName body r)
            | '-' :: letter :: body => do g.read rest (← g.readLetters (letter :: body) r)
            | _ => if r.awaiting then g.read rest (r.push arg) else .error (g.stray false arg)

/-- Finishes a level: the last option is settled, then the environment is asked. -/
def finish (g : Grammar) (env : Environment) (r : Reading) : Except UsageFault Level := do
  let r ← r.settle
  return (← r.addEnvironment g.rules env).given

end Grammar

end EpochSplit.CommandLine
