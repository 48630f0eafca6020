import EpochSplit.Error
import EpochSplit.Settings.Path
/-!
# Settings

The settings of a run, their defaults, and what makes them valid.  A settings file, the environment
and the command line each give some of the fields: such an `Overrides` is laid over the settings
that it is given on top of.
-/

namespace EpochSplit

/-- The number of records that are staged before each commit unless the settings say otherwise. -/
def defaultBatchSize : UInt64 := 10000

/-- The settings of a run. -/
structure Settings where
  /-- The directory of the archive. -/
  sourcePath : String := "storage/old"
  /-- The directory that holds one store for each epoch. -/
  targetPath : String := "storage/new"
  /-- The number of records that are staged before each commit. -/
  batchSize : UInt64 := defaultBatchSize
  /-- Whether the store of an epoch is compacted once the epoch is complete. -/
  compactAfterMigrate : Bool := false
  /-- Epochs above this one carry a vote signature. -/
  signatureEpochThreshold : UInt32 := 158
  /-- The greatest size of a store, in megabytes. -/
  mapSizeMb : UInt64 := 65536
deriving DecidableEq

/-- Some of the settings, each given or not. -/
structure Overrides where
  sourcePath : Option String := none
  targetPath : Option String := none
  batchSize : Option UInt64 := none
  compactAfterMigrate : Option Bool := none
  signatureEpochThreshold : Option UInt32 := none
  mapSizeMb : Option UInt64 := none
deriving DecidableEq

namespace Settings

/-- The settings with the given fields replaced. -/
def override (s : Settings) (o : Overrides) : Settings where
  sourcePath := o.sourcePath.getD s.sourcePath
  targetPath := o.targetPath.getD s.targetPath
  batchSize := o.batchSize.getD s.batchSize
  compactAfterMigrate := o.compactAfterMigrate.getD s.compactAfterMigrate
  signatureEpochThreshold := o.signatureEpochThreshold.getD s.signatureEpochThreshold
  mapSizeMb := o.mapSizeMb.getD s.mapSizeMb

/-- Refuses settings that make no sense; the first fault found is reported. -/
def validate (s : Settings) : Except ConfigFault Unit :=
  if s.sourcePath = "" then .error (.missingRequired "source_path")
  else if s.targetPath = "" then .error (.missingRequired "target_path")
  else if s.batchSize = 0 then .error (.invalidValue "batch_size" "0" "must be > 0")
  else if s.mapSizeMb = 0 then .error (.invalidValue "map_size_mb" "0" "must be > 0")
  else if Path.same s.sourcePath s.targetPath then
    .error (.invalidValue "target_path" s.targetPath "must differ from source_path")
  else .ok ()

/-- The greatest size of a store in bytes, as far as it fits 64 bits. -/
def mapSizeBytes (s : Settings) : Nat :=
  min (s.mapSizeMb.toNat * 1048576) (UInt64.size - 1)

end Settings

end EpochSplit
