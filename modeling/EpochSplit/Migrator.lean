import EpochSplit.Epoch.Job
import EpochSplit.Selection
import EpochSplit.Settings
/-!
# The migrator

A migrator loads the metadata of an archive once and then moves epochs, one at a time, each into a
store of its own:

    idle → metadata loaded → migrating an epoch → done → migrating another epoch → …

Any failure on the way is final.  Since records are overwritten by key, an epoch that failed can be
moved again by another migrator.
-/

namespace EpochSplit

/-- How the stores, the clock and the wish to stop are reached from the world `σ`. -/
structure Site (σ : Type) where
  /-- The archive. -/
  source : σ → Source
  /-- Opens the store of an epoch. -/
  openEpoch : UInt32 → σ → Except StoreFault (Target σ) × σ
  /-- Whether the run is to stop. -/
  cancelled : σ → Bool
  /-- The time in milliseconds. -/
  now : σ → Nat

/-- What a migrator is up to. -/
inductive MigratorState where
  | idle
  | metadataLoaded
  | migrating (epoch : UInt32)
  | done
  | failed (epoch : Option UInt32) (reason : String)
deriving DecidableEq

namespace MigratorState

/-- The state as it appears in messages. -/
def text : MigratorState → String
  | idle => "idle"
  | metadataLoaded => "metadata loaded"
  | migrating epoch => s!"migrating epoch {epoch}"
  | done => "done"
  | failed (some epoch) _ => s!"failed at epoch {epoch}"
  | failed none _ => "failed"

/-- Whether an epoch can be moved in this state. -/
def canMigrate : MigratorState → Bool
  | metadataLoaded | done => true
  | _ => false

/-- Whether namespaces can be copied in this state. -/
def canCopy : MigratorState → Bool
  | migrating _ | failed _ _ => false
  | _ => true

end MigratorState

/-- A migrator between two calls. -/
structure Migrator where
  settings : Settings
  metadata : StoreMetadata := ∅
  state : MigratorState := .idle
  report : MigrationReport

namespace Migrator

variable {σ : Type}

/-- A migrator that has not done anything. -/
def start (site : Site σ) (settings : Settings) (world : σ) : Migrator where
  settings := settings
  report := { startedAt := site.now world }

/-- The complaint about an operation that the state does not allow. -/
def invalidState (m : Migrator) (operation : String) : Error :=
  .run (.invalidState operation m.state.text)

/-- Notes a failure. -/
def fail (m : Migrator) (epoch : Option UInt32) (e : Error) : Migrator :=
  { m with state := .failed epoch e.message }

/-- Where the records of a stream go; every commit has to reach the disk. -/
def channel (m : Migrator) (site : Site σ) (target : Target σ) (label : String) : Channel σ where
  target := target
  cancelled := site.cancelled
  limit := m.settings.batchSize.toNat
  label := label

/-- Loads the metadata of the archive. -/
def loadMetadata (site : Site σ) (world : σ) (m : Migrator) :
    Except Error StoreMetadata × Migrator :=
  if m.state ≠ .idle then (.error (m.invalidState "load metadata"), m)
  else
    match Error.inContext "loading store metadata" (site.source world).metadata with
    | .ok metadata => (.ok metadata, { m with metadata, state := .metadataLoaded })
    | .error e => (.error e, m.fail none e)

/-! ### Epochs -/

/-- The job of writing an epoch into its store. -/
def epochJob (m : Migrator) (s : Source) (site : Site σ) (metadata : EpochMetadata)
    (target : Target σ) : EpochJob σ where
  source := s
  channel := m.channel site target ""
  metadata := metadata
  threshold := m.settings.signatureEpochThreshold

/-- Fills the store of an epoch and compacts it if the settings say so. -/
def fillEpoch (m : Migrator) (site : Site σ) (metadata : EpochMetadata) (target : Target σ)
    (report : EpochReport) (world : σ) : Except Error EpochReport × σ :=
  match (m.epochJob (site.source world) site metadata target).run report world with
  | (.error e, world) => (.error e, world)
  | (.ok report, world) =>
      if m.settings.compactAfterMigrate then
        match target.compact world with
        | (.ok (), world) => (.ok { report with compacted := true }, world)
        | (.error fault, world) =>
            (.error (.context "compacting target store" (.store fault)), world)
      else (.ok report, world)

/-- Opens, fills and closes the store of an epoch.  The store is closed whether it could be filled
or not; of two failures the first counts. -/
def runEpoch (m : Migrator) (site : Site σ) (epoch : UInt32) (world : σ) :
    Except Error EpochReport × σ :=
  match m.metadata.get? epoch with
  | none => (.error (.consistency (.epochMetadataMissing epoch)), world)
  | some metadata =>
      match site.openEpoch epoch world with
      | (.error fault, world) => (.error (.context "opening target store" (.store fault)), world)
      | (.ok target, world) =>
          let report := { epoch, startedAt := site.now world }
          let (filled, world) := m.fillEpoch site metadata target report world
          let (closed, world) := target.close world
          match filled, closed with
          | .error e, _ => (.error e, world)
          | .ok _, .error fault =>
              (.error (.context "closing target store" (.store fault)), world)
          | .ok report, .ok () => (.ok report, world)

/-- Moves one epoch into its store. -/
def migrateEpoch (site : Site σ) (epoch : UInt32) (world : σ) (m : Migrator) :
    Except Error Unit × Migrator × σ :=
  if !m.state.canMigrate then (.error (m.invalidState "migrate epoch"), m, world)
  else if site.cancelled world then
    let e := Error.run (.cancelled m.report.total)
    (.error e, m.fail epoch e, world)
  else
    let m := { m with state := .migrating epoch }
    match m.runEpoch site epoch world with
    | (.ok report, world) =>
        let now := site.now world
        let report := (m.report.touch now).push (report.finish now)
        (.ok (), { m with report, state := .done }, world)
    | (.error e, world) =>
        let e := Error.context s!"migrating epoch {epoch}" e
        let m := { m with report := m.report.touch (site.now world) }
        (.error e, m.fail epoch e, world)

/-- Moves epochs one after the other, up to the first that fails. -/
def migrateEpochs (site : Site σ) : List UInt32 → σ → Migrator → Except Error Unit × Migrator × σ
  | [], world, m => (.ok (), m, world)
  | epoch :: epochs, world, m =>
      match m.migrateEpoch site epoch world with
      | (.ok (), m, world) => migrateEpochs site epochs world m
      | failed => failed

/-- Moves `count` epochs from a given one on, up to the first that fails. -/
def migrateFrom (site : Site σ) (epoch : Nat) :
    Nat → σ → Migrator → Except Error Unit × Migrator × σ
  | 0, world, m => (.ok (), m, world)
  | count + 1, world, m =>
      match m.migrateEpoch site (UInt32.ofNat epoch) world with
      | (.ok (), m, world) => migrateFrom site (epoch + 1) count world m
      | failed => failed

/-- Moves the epochs from one to another in ascending order.  An epoch among them that the archive
does not know is a failure. -/
def migrateRange (site : Site σ) (start stop : UInt32) (world : σ) (m : Migrator) :
    Except Error Unit × Migrator × σ :=
  match (EpochSelection.range start stop).validate with
  | .error fault => (.error (.config fault), m, world)
  | .ok () => m.migrateFrom site start.toNat (stop.toNat + 1 - start.toNat) world

/-- Moves all epochs that the archive knows, in ascending order. -/
def migrateAll (site : Site σ) (world : σ) (m : Migrator) : Except Error Unit × Migrator × σ :=
  m.migrateEpochs site m.metadata.epochNumbers world

/-- Moves the epochs of a selection. -/
def run (site : Site σ) (selection : EpochSelection) (world : σ) (m : Migrator) :
    Except Error Unit × Migrator × σ :=
  match selection.validate with
  | .error fault => (.error (.config fault), m, world)
  | .ok () =>
      match selection with
      | .all => m.migrateAll site world
      | .epoch epoch => m.migrateEpoch site epoch world
      | .range start stop => m.migrateRange site start stop world

/-! ### Copying -/

/-- Copies the namespaces of a list one after the other, up to the first failure. -/
def copyEach (site : Site σ) (target : Target σ) :
    List Namespace → Std.ExtTreeMap Namespace Nat → σ → Migrator →
      Except Error (Std.ExtTreeMap Namespace Nat) × Migrator × σ
  | [], copied, world, m =>
      (.ok copied, { m with report := m.report.touch (site.now world) }, world)
  | ns :: rest, copied, world, m =>
      let items := (site.source world).items (KeyRange.ofNamespace ns)
      match (m.channel site target ns.name).transcode items world with
      | (.error e, p) =>
          let e := Error.context s!"copying namespace {ns.name}" e
          (.error e, m.fail none e, p.batch.world)
      | (.ok stats, p) =>
          let report := { m.report with copied := m.report.copied.add ns stats.written }
          copyEach site target rest (copied.insert ns stats.written) p.batch.world { m with report }

/-- Copies whole namespaces of the archive into a store and says how many records of each it copied.
A namespace that is named twice is copied twice. -/
def copyNamespaces (site : Site σ) (target : Target σ) (namespaces : List Namespace) (world : σ)
    (m : Migrator) : Except Error (Std.ExtTreeMap Namespace Nat) × Migrator × σ :=
  if m.state.canCopy then m.copyEach site target namespaces ∅ world
  else (.error (m.invalidState "copy namespaces"), m, world)

end Migrator

end EpochSplit
