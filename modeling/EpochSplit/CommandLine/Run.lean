import EpochSplit.CommandLine.Invocation
import EpochSplit.Disk.Store
import EpochSplit.Metadata.Json
import EpochSplit.Report.Text
import EpochSplit.Settings.Toml
/-!
# Carrying out an invocation

Each command opens the archive for reading only, does its work on the disk, and prints lines.
-/

namespace EpochSplit.CommandLine

/-- The settings of an invocation: the defaults, then the settings file, then the command line and
the environment.  Settings that make no sense are refused. -/
def Invocation.settings (i : Invocation) (d : Disk) : Except ConfigFault Settings := do
  let base ← match i.config with
    | none => pure {}
    | some path =>
        match d.readText path with
        | .error reason => throw (.unreadable path reason)
        | .ok text =>
            match Overrides.ofToml? text with
            | some o => pure (Settings.override {} o)
            | none => throw (.malformed path "not a settings file")
  let settings := base.override i.overrides
  settings.validate
  return settings

/-- How a command ended. -/
structure Outcome where
  result : Except Error Unit
  /-- The lines printed. -/
  printed : List String := []
  disk : Disk

namespace Outcome

/-- A command that broke off without printing anything. -/
def failed (e : Error) (disk : Disk) : Outcome := { result := .error e, disk }

end Outcome

/-- Opens the archive and goes on. -/
def withArchive (s : Settings) (d : Disk) (next : Place → Disk → Outcome) : Outcome :=
  match d.openReadOnly s.sourcePath s.mapSizeBytes with
  | (.error fault, d) => .failed (.context "opening source store" (.store fault)) d
  | (.ok archive, d) => next archive d

/-- Opens the archive, makes a migrator that knows its metadata, and goes on. -/
def withMigrator (s : Settings) (d : Disk) (next : Site Disk → Migrator → Disk → Outcome) :
    Outcome :=
  withArchive s d fun archive d =>
    let site := Disk.site archive s.targetPath s.mapSizeBytes
    match (Migrator.start site s d).loadMetadata site d with
    | (.error e, _) => .failed e d
    | (.ok _, m) => next site m d

/-- Shows the metadata of the archive. -/
def showMetadata (json : Bool) (s : Settings) (d : Disk) : Outcome :=
  withArchive s d fun archive d =>
    match Error.inContext "loading store metadata" (Disk.source archive d).metadata with
    | .error e => .failed e d
    | .ok metadata =>
        { result := .ok ()
          printed := [if json then metadata.toJson.pretty else metadata.render]
          disk := d }

/-- Moves epochs.  What was completed is reported even where the run broke off. -/
def migrate (f : TimeFormat) (a : MigrateArguments) (s : Settings) (d : Disk) : Outcome :=
  match a.selection.validate with
  | .error fault => .failed (.config fault) d
  | .ok () =>
      withMigrator s d fun site m d =>
        let (result, m, disk) := m.run site a.selection d
        { result
          printed := if a.json then [(m.report.toJson f).pretty] else m.report.lines f
          disk }

/-- Copies namespaces into one store. -/
def copy (destination : String) (namespaces : List Namespace) (s : Settings) (d : Disk) : Outcome :=
  withMigrator s d fun site m d =>
    match d.create destination s.mapSizeBytes with
    | (.error fault, d) => .failed (.context "opening destination store" (.store fault)) d
    | (.ok p, d) =>
        let target := Disk.target p
        match m.copyNamespaces site target namespaces d with
        | (.error e, _, d) => .failed e d
        | (.ok copied, _, d) =>
            match target.close d with
            | (.error fault, d) => .failed (.context "closing destination store" (.store fault)) d
            | (.ok (), disk) =>
                { result := .ok ()
                  printed := copied.toList.map fun (ns, n) => s!"{ns.name}: {n}"
                  disk }

/-- Carries out an invocation. -/
def Invocation.run (f : TimeFormat) (i : Invocation) (d : Disk) : Outcome :=
  match i.settings d with
  | .error fault => .failed (.config fault) d
  | .ok s =>
      match i.command with
      | .metadata json => showMetadata json s d
      | .migrate a => migrate f a s d
      | .copyNamespaces destination namespaces => copy destination namespaces s d

end EpochSplit.CommandLine
