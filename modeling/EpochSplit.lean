import EpochSplit.Main
import EpochSplit.SampleArchive
import EpochSplit.Store.Rehearsal
import EpochSplit.Proofs.Store.Overlay
import EpochSplit.Proofs.Migrator.BatchSize
import EpochSplit.Proofs.Migrator.Split
import EpochSplit.Proofs.Migrator.Retry
import EpochSplit.Proofs.Migrator.LastVotes
import EpochSplit.Proofs.Migrator.Canonical
import EpochSplit.Proofs.Migrator.References
import EpochSplit.Proofs.Migrator.Completeness
import EpochSplit.Proofs.Migrator.Refusal
import EpochSplit.Proofs.Migrator.Isolation
import EpochSplit.Proofs.Migrator.FirstFailure
import EpochSplit.Proofs.Migrator.Cancellation
import EpochSplit.Proofs.Migrator.Attribution
import EpochSplit.Proofs.Migrator.Accounting
import EpochSplit.Proofs.Migrator.Intervals
import EpochSplit.Proofs.Migrator.Samples
import EpochSplit.Proofs.Record.Conversion
import EpochSplit.Proofs.Disk.Durability
import EpochSplit.Proofs.Disk.Refinement
import EpochSplit.Proofs.Key.Ticks
import EpochSplit.Proofs.Migrator.Arrangement
import EpochSplit.Proofs.Batch.Transcoding
import EpochSplit.Proofs.Fold.Order
import EpochSplit.Proofs.Metadata.Join
import EpochSplit.Proofs.Migrator.CopyCounts
import EpochSplit.Proofs.Fold.Passes
import EpochSplit.Proofs.CommandLine.Layers
import EpochSplit.Proofs.CommandLine.Selection
import EpochSplit.Proofs.Settings.File
import EpochSplit.Proofs.Store.Scanning
import EpochSplit.Proofs.Metadata.Json
