import EpochSplit.CommandLine.Help
import EpochSplit.CommandLine.Run
import EpochSplit.Disk.Image
import Std.Time.DateTime.Timestamp
/-!
# The program

Reads the files that an invocation concerns, carries it out, and writes back what has changed.
-/

namespace EpochSplit

open CommandLine

/-- Reads those of the given places at which a directory or a file stands. -/
def readNodes (places : List Place) : IO (List (Place × Option Bytes)) :=
  (places.filter (!Place.isGiven ·)).eraseDups.filterMapM fun p => do
    let .ok found ← (IO.FS.realPath (Path.ofComponents p)).toBaseIO | return none
    if ← found.isDir then return some (p, none)
    let .ok bytes ← (IO.FS.readBinFile found).toBaseIO | return none
    return some (p, some bytes.toList)

/-- Writes the files of a disk that differ from those of an earlier one, and removes those that are
gone. -/
def writeBack (before after : Disk) : IO Unit := do
  let old := before.files
  let new := after.files
  for p in after.directories do
    IO.FS.createDirAll (Path.ofComponents p)
  for (p, bytes) in new do
    if old.lookup p ≠ some bytes then
      IO.FS.writeBinFile (Path.ofComponents p) ⟨bytes.toArray⟩
  for (p, _) in old do
    if (new.lookup p).isNone then IO.FS.removeFile (Path.ofComponents p)

/-- The paths that an invocation concerns, as far as they are known from the files that were read
already. -/
def concerned (i : Invocation) (d : Disk) : List String :=
  let config := i.config.toList
  match i.settings d with
  | .error _ => config
  | .ok s =>
      let epochs := match d.openReadOnly s.sourcePath s.mapSizeBytes with
        | (.error _, _) => []
        | (.ok p, d) => (Disk.source p d).metadata.toOption.elim [] StoreMetadata.epochNumbers
      let stores := match i.command with
        | .metadata _ => []
        | .migrate _ => epochs.map fun e => Path.join s.targetPath (toString e)
        | .copyNamespaces destination _ => [destination]
      config ++ s.sourcePath :: stores

/-- Reads the files that an invocation concerns: first the settings file, which says where the
archive is, then the archive, which says what epochs there are, then their stores. -/
def load (i : Invocation) : IO Disk := do
  let mut d : Disk := {}
  for _ in [0, 1, 2] do
    d := Disk.ofNodes (← readNodes ((concerned i d).flatMap Disk.concerned))
  return d

/-- Carries out an invocation on the file system. -/
def perform (i : Invocation) : IO UInt32 := do
  let d ← load i
  let now ← Std.Time.Timestamp.now
  let o := i.run {} { d with clock := now.toMillisecondsSinceUnixEpoch.val.toNat }
  o.printed.forM fun line => IO.println line
  writeBack d o.disk
  match o.result with
  | .ok () => return 0
  | .error e =>
      IO.eprintln e.message
      return 1

end EpochSplit

open EpochSplit CommandLine in
/-- Reads the command line and the environment, and carries out what they ask for. -/
def main (args : List String) : IO UInt32 := do
  let env ← (commonRules.filterMap (·.environment)).filterMapM fun name => do
    return (← IO.getEnv name).map (name, ·)
  match parse args env with
  | .ok i => perform i
  | .error .helpWanted =>
      help.forM fun line => IO.println line
      return 0
  | .error .versionWanted =>
      IO.println "0.2.0"
      return 0
  | .error fault =>
      IO.eprintln fault.message
      help.forM fun line => IO.eprintln line
      return 2
