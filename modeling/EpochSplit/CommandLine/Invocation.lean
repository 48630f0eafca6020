import EpochSplit.CommandLine.Grammar
import EpochSplit.Selection
import EpochSplit.Settings
/-!
# Invocations

What a command line asks for: one of three commands, settings that take precedence over those of a
settings file, and the form of the log.
-/

namespace EpochSplit.CommandLine

/-! ### Values -/

/-- A path is not empty. -/
def readPath (value : String) : Except UsageFault String :=
  if value.isEmpty then .error .badValue else .ok value

/-- The number that decimal digits stand for. -/
def natural? (digits : List Char) : Option Nat :=
  if digits.isEmpty || !digits.all Char.isDigit then none
  else some (digits.foldl (fun n c => 10 * n + (c.toNat - 48)) 0)

/-- A 32-bit number, with or without a sign. -/
def readWord (value : String) : Except UsageFault UInt32 :=
  let n? := match value.toList with
    | '+' :: digits => natural? digits
    | '-' :: digits => (natural? digits).filter (· = 0)
    | digits => natural? digits
  match n? with
  | some n => if n < UInt32.size then .ok (UInt32.ofNat n) else .error .unreadableValue
  | none => .error .unreadableValue

/-- A number of 64 bits, which may have a plus sign. -/
def readCount (value : String) : Except UsageFault UInt64 :=
  let n? := match value.toList with
    | '+' :: digits => natural? digits
    | digits => natural? digits
  match n? with
  | some n => if n < UInt64.size then .ok (UInt64.ofNat n) else .error .unreadableValue
  | none => .error .unreadableValue

/-- A truth value. -/
def readTruth (value : String) : Except UsageFault Bool :=
  if value = "true" then .ok true else if value = "false" then .ok false else .error .badValue

/-- A namespace, in any of the ways in which it can be written. -/
def readNamespace (value : String) : Except UsageFault Namespace :=
  match Namespace.parse? value with
  | some ns => .ok ns
  | none => .error .unreadableValue

/-- The form of the log. -/
inductive LogFormat where
  | pretty
  | json
deriving DecidableEq

/-- The form of the log, by name. -/
def readLogFormat (value : String) : Except UsageFault LogFormat :=
  if value = "pretty" then .ok .pretty
  else if value = "json" then .ok .json
  else .error .badValue

/-- A check that a value can be read. -/
def checking {α : Type} (read : String → Except UsageFault α) (value : String) :
    Except UsageFault Unit :=
  (read value).map fun _ => ()

/-! ### Options -/

/-- The option that names the settings file. -/
def configOption : OptionRule where
  name := "config"
  letter := some 'c'
  environment := some "ARCHMIG_CONFIG"
  check := checking readPath

/-- The option that names the directory of the archive. -/
def sourceOption : OptionRule where
  name := "source"
  environment := some "ARCHMIG_SOURCE"
  check := checking readPath

/-- The option that names the directory of the stores. -/
def targetOption : OptionRule where
  name := "target"
  environment := some "ARCHMIG_TARGET"
  check := checking readPath

/-- The option that gives the number of records before each commit. -/
def batchSizeOption : OptionRule where
  name := "batch-size"
  environment := some "ARCHMIG_BATCH_SIZE"
  check := checking readCount

/-- The flag that has the stores compacted. -/
def compactOption : OptionRule where
  name := "compact"
  arity := 0
  environment := some "ARCHMIG_COMPACT"
  check := checking readTruth

/-- The option that gives the last epoch without vote signatures. -/
def thresholdOption : OptionRule where
  name := "signature-epoch-threshold"
  environment := some "ARCHMIG_SIGNATURE_EPOCH_THRESHOLD"
  check := checking readWord

/-- The option that gives the greatest size of a store. -/
def mapSizeOption : OptionRule where
  name := "map-size-mb"
  environment := some "ARCHMIG_MAP_SIZE_MB"
  check := checking readCount

/-- The option that gives the form of the log. -/
def logFormatOption : OptionRule where
  name := "log-format"
  environment := some "ARCHMIG_LOG_FORMAT"
  check := checking readLogFormat

/-- The options that can be given on both levels. -/
def commonRules : List OptionRule :=
  [configOption, sourceOption, targetOption, batchSizeOption, compactOption, thresholdOption,
    mapSizeOption, logFormatOption]

/-- The options of the command that shows the metadata. -/
def metadataRules : List OptionRule := [{ name := "json", arity := 0 }]

/-- The option that names a single epoch to move. -/
def epochOption : OptionRule where
  name := "epoch"
  check := checking readWord

/-- The option that gives the first and the last epoch to move. -/
def rangeOption : OptionRule where
  name := "range"
  arity := 2
  repeatable := true
  check := checking readWord

/-- The flag that has all epochs moved. -/
def allOption : OptionRule where
  name := "all"
  arity := 0

/-- The options of the command that moves epochs. -/
def migrateRules : List OptionRule :=
  [epochOption, rangeOption, allOption, { name := "json", arity := 0 }]

/-- The options of the command that copies namespaces. -/
def copyRules : List OptionRule :=
  [{ name := "destination", check := checking readPath },
    { name := "namespace", repeatable := true, check := checking readNamespace }]

/-- The options of which exactly one says what is to be moved. -/
def selectionOptions : List OptionRule := [epochOption, rangeOption, allOption]

/-- The top level. -/
def topGrammar : Grammar where
  rules := commonRules
  commands := ["metadata", "migrate", "copy-namespaces", "help"]

/-! ### What is asked for -/

/-- How the epochs to move are given. -/
structure MigrateArguments where
  epoch : Option UInt32 := none
  /-- The numbers given as ranges, those of a repeated option one after the other. -/
  range : Option (List UInt32) := none
  all : Bool := false
  /-- Whether the report is printed in JSON. -/
  json : Bool := false
deriving DecidableEq

/-- The epochs that the arguments ask for. -/
def MigrateArguments.selection (a : MigrateArguments) : EpochSelection :=
  match a.epoch, a.range with
  | some epoch, _ => .epoch epoch
  | none, some [start, stop] => .range start stop
  | _, _ => .all

/-- What is to be done. -/
inductive Command where
  /-- Show the metadata of the archive. -/
  | metadata (json : Bool)
  /-- Move epochs into their stores. -/
  | migrate (arguments : MigrateArguments)
  /-- Copy namespaces into one store. -/
  | copyNamespaces (destination : String) (namespaces : List Namespace)
deriving DecidableEq

/-- What a command line asks for. -/
structure Invocation where
  /-- The settings file. -/
  config : Option String
  overrides : Overrides
  logFormat : LogFormat
  command : Command
deriving DecidableEq

/-! ### Reading a command line -/

/-- The value of an option that was checked when it was taken. -/
def valueOf {α : Type} (read : String → Except UsageFault α) (given : Option Given) : Option α :=
  (given.bind (·.values.head?)).bind fun value => (read value).toOption

/-- Whether a flag is set. -/
def flagOf (given : Option Given) : Bool :=
  match given with
  | none => false
  | some g => g.explicit || g.values == ["true"]

/-- What a common option says, given on the level of the command, on the top level, or by the
environment. -/
def commonOf (top sub : Level) (option : OptionRule) : Option Given :=
  match sub[option.name]?, top[option.name]? with
  | some s, some t => if t.explicit ∧ !s.explicit then some t else some s
  | some s, none => some s
  | none, t => t

/-- Refuses options that exclude each other, then the lack of an option that has to be given. -/
def checkMigrate (level : Level) : Except UsageFault Unit :=
  match (selectionOptions.filter (level.contains ·.name)).length with
  | 0 => .error .optionMissing
  | 1 => .ok ()
  | _ => .error .conflict

/-- How the epochs to move are given by the options of a command. -/
def MigrateArguments.ofLevel (level : Level) : MigrateArguments where
  epoch := valueOf readWord level[epochOption.name]?
  range := level[rangeOption.name]?.map fun g =>
    g.values.filterMap fun v => (readWord v).toOption
  all := flagOf level[allOption.name]?
  json := flagOf level["json"]?

/-- What the options of both levels ask for. -/
def Invocation.ofLevels (top sub : Level) (command : Command) : Invocation :=
  let common := commonOf top sub
  { config := valueOf readPath (common configOption)
    overrides :=
      { sourcePath := valueOf readPath (common sourceOption)
        targetPath := valueOf readPath (common targetOption)
        batchSize := valueOf readCount (common batchSizeOption)
        compactAfterMigrate := if flagOf (common compactOption) then some true else none
        signatureEpochThreshold := valueOf readWord (common thresholdOption)
        mapSizeMb := valueOf readCount (common mapSizeOption) }
    logFormat := (valueOf readLogFormat (common logFormatOption)).getD .pretty
    command }

/-- The level of a command with options of its own. -/
def commandGrammar (rules : List OptionRule) : Grammar where
  rules := rules ++ commonRules

/-- Reads the level of a command. -/
def readLevel (rules : List OptionRule) (args : List String) (env : Environment) :
    Except UsageFault Level := do
  let (r, _) ← (commandGrammar rules).read args {}
  (commandGrammar rules).finish env r

/-- Reads the options of a command. -/
def readCommand (name : String) (args : List String) (env : Environment) :
    Except UsageFault (Level × Command) := do
  match name with
  | "metadata" =>
      let l ← readLevel metadataRules args env
      return (l, .metadata (flagOf l["json"]?))
  | "migrate" =>
      let l ← readLevel migrateRules args env
      checkMigrate l
      return (l, .migrate (.ofLevel l))
  | "copy-namespaces" =>
      let l ← readLevel copyRules args env
      match valueOf readPath l["destination"]? with
      | none => throw .optionMissing
      | some destination =>
          let namespaces := ((l["namespace"]?.map (·.values)).getD []).filterMap fun v =>
            (readNamespace v).toOption
          return (l, .copyNamespaces destination
            (if namespaces.isEmpty then Namespace.global else namespaces))
  | _ => throw .unknownCommand

/-- Reads what help is asked for; it can be asked for a command. -/
def readHelp : List String → UsageFault
  | [] => .helpWanted
  | [name] => if topGrammar.commands.contains name then .helpWanted else .unknownCommand
  | _ => .unknownCommand

/-- Reads a command line. -/
def parse (args : List String) (env : Environment) : Except UsageFault Invocation := do
  match ← topGrammar.read args {} with
  | (r, none) =>
      let top ← topGrammar.finish env r
      throw (if top.isEmpty then .nothingGiven else .commandMissing)
  | (_, some ("help", rest)) => throw (readHelp rest)
  | (r, some (name, rest)) =>
      let (sub, command) ← readCommand name rest env
      let top ← topGrammar.finish env r
      return .ofLevels top sub command

end EpochSplit.CommandLine
