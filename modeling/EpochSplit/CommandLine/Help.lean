import EpochSplit.CommandLine.Invocation
/-!
# Help

What is said about the command line: how it is written, and what is wrong with one that is not
carried out.
-/

namespace EpochSplit.CommandLine

/-- An option as it is written. -/
def OptionRule.synopsis (r : OptionRule) : String :=
  let values := String.join (List.replicate r.arity " VALUE")
  s!"[--{r.name}{values}]"

/-- A way to write a command line. -/
def synopsis (command : String) (rules : List OptionRule) : String :=
  String.intercalate " " (command :: rules.map OptionRule.synopsis)

/-- The text of the help. -/
def help : List String :=
  [synopsis "epochsplit" commonRules ++ " COMMAND",
    "  " ++ synopsis "metadata" metadataRules,
    "  " ++ synopsis "migrate" migrateRules,
    "  " ++ synopsis "copy-namespaces" copyRules]

/-- What is wrong. -/
def UsageFault.message : UsageFault → String
  | helpWanted => "help is wanted"
  | versionWanted => "the version is wanted"
  | nothingGiven => "nothing is given"
  | commandMissing => "no command is given"
  | unknownCommand => "there is no such command"
  | unknownOption => "there is no such option"
  | badValue => "a value is missing or not one of those allowed"
  | unreadableValue => "a value cannot be read"
  | valueOfFlag => "a flag takes no value"
  | wrongNumberOfValues => "an option has too few or too many values"
  | conflict => "options exclude each other, or one is repeated"
  | optionMissing => "an option that has to be given is missing"

end EpochSplit.CommandLine
