import EpochSplit.Proofs.Epoch.Arrangement
import EpochSplit.Proofs.Migrator.Phases
import EpochSplit.Proofs.Record.Conversion
import EpochSplit.Proofs.Store.Rehearsal
/-!
# Moves from rearranged archives

What a move does is determined by the plan of its epoch and by what there is to count in it.
Archives that differ only in how votes are arranged have the same plans and the same counts, so the
move of an epoch ends in the same way with either of them, and leaves the same stores behind
(`migrateEpoch_rearranged`).
-/

namespace EpochSplit

/-- The site with another archive. -/
def Site.withSource {σ : Type} (site : Site σ) (source : σ → Source) : Site σ :=
  { site with source }

namespace Migrator

variable {σ : Type} {site : Site σ} {source : σ → Source}

section Moves

variable (h : ∀ world, (site.source world).Rearranged (source world))
include h

lemma loadMetadata_withSource (world : σ) (m : Migrator) :
    m.loadMetadata site world = m.loadMetadata (site.withSource source) world := by
  rw [loadMetadata, loadMetadata, (h world).metadata_eq]
  rfl

lemma fillEpoch_withSource (m : Migrator) (metadata : EpochMetadata) (target : Target σ)
    (report : EpochReport) (world : σ) :
    m.fillEpoch site metadata target report world =
      m.fillEpoch (site.withSource source) metadata target report world := by
  have hwrite : m.writeEpoch (site.withSource source) metadata target world =
      m.writeEpoch site metadata target world := by
    rw [writeEpoch, writeEpoch, epochSteps, epochSteps, (h world).epochPlan_eq]
    rfl
  rcases hwritten : m.writeEpoch site metadata target world with ⟨e | ⟨⟩, world'⟩
  · rw [fillEpoch_of_error hwritten, fillEpoch_of_error (hwrite.trans hwritten)]
  · rw [fillEpoch_of_ok hwritten, fillEpoch_of_ok (hwrite.trans hwritten), counted, counted,
      (h world).counts_eq]
    rfl

lemma runEpoch_withSource (m : Migrator) (epoch : UInt32) (world : σ) :
    m.runEpoch site epoch world = m.runEpoch (site.withSource source) epoch world := by
  have hfill : m.fillEpoch site = m.fillEpoch (site.withSource source) := by
    funext metadata target report world
    exact fillEpoch_withSource h m metadata target report world
  rw [runEpoch, runEpoch, hfill]
  rfl

lemma migrateEpoch_withSource (m : Migrator) (epoch : UInt32) (world : σ) :
    m.migrateEpoch site epoch world = m.migrateEpoch (site.withSource source) epoch world := by
  simp only [migrateEpoch, runEpoch_withSource h]
  rfl

end Moves

/-- Votes are read from their pieces in whatever order they come, and become the same pair of an
epoch store as from the value that is written for them.  Contents that differ in nothing but such
orders make archives that answer alike but for the arrangement of votes.  With either of two such
archives a migrator loads the same metadata, and moves an epoch with the same outcome and into the
same world, in which all stores lie. -/
theorem migrateEpoch_rearranged :
    (∀ (q : Legacy.QuorumTickData) (value : Bytes), q.LaidOut value → value.length < 2 ^ 64 →
      Wire.decode Legacy.QuorumTickData .quorumData value = .ok q ∧
        ∀ key, EpochEntry.quorumData (key, value) = EpochEntry.quorumData (key, Wire.encode q)) ∧
    (∀ c c' : Contents, c.Rearranged c' → (Source.ofContents c).Rearranged (.ofContents c')) ∧
    ∀ {σ : Type} (site : Site σ) (source : σ → Source),
      (∀ world, (site.source world).Rearranged (source world)) →
      ∀ (m : Migrator) (world : σ),
        m.loadMetadata site world = m.loadMetadata (site.withSource source) world ∧
          ∀ epoch, m.migrateEpoch site epoch world =
            m.migrateEpoch (site.withSource source) epoch world := by
  refine ⟨fun q value h hlength => ⟨h.decode_eq hlength .quorumData, fun key => ?_⟩,
    fun c c' h => h.ofContents, fun site source h m world => ⟨?_, fun epoch => ?_⟩⟩
  · have hsame : Legacy.SameVotes value (Wire.encode q) := ⟨q, h, q.laidOut_encode, hlength⟩
    exact hsame.quorumData_eq key
  · exact loadMetadata_withSource h world m
  · exact migrateEpoch_withSource h m epoch world

/-- The votes of two computors with their pieces in the opposite order. -/
def backwardVotes : Bytes := Legacy.twoVotes.pieces.reverse.flatMap Wire.Piece.bytes

/-- An archive with an epoch of three ticks and a given value for the votes on the last tick. -/
def votesArchive (votes : Bytes) : Contents :=
  (Rehearsal.threeTicks 10 "c").source.insert (Key.word .quorumData 12) votes

lemma laidOut_backwardVotes : Legacy.twoVotes.LaidOut backwardVotes :=
  ⟨_, List.reverse_perm _, rfl⟩

lemma rearranged_votesArchive :
    (votesArchive (Wire.encode Legacy.twoVotes)).Rearranged (votesArchive backwardVotes) := by
  intro key
  by_cases hkey : Key.word .quorumData 12 = key
  · subst hkey
    have hlength : (Wire.encode Legacy.twoVotes).length < 2 ^ 64 := by decide +kernel
    exact .inr ⟨rfl, _, _, Std.ExtTreeMap.getElem?_insert_self, Std.ExtTreeMap.getElem?_insert_self,
      Legacy.twoVotes, Legacy.twoVotes.laidOut_encode, laidOut_backwardVotes, hlength⟩
  · left
    simp [votesArchive, Std.ExtTreeMap.getElem?_insert, hkey]

/-- A rehearsal that reads this archive. -/
def votesSite (votes : Bytes) : Site Rehearsal :=
  Rehearsal.reading (.ofContents (votesArchive votes))

/-- A migrator of the archive whose votes are as they are written here. -/
def votesMigrator : Migrator := .fresh (votesSite (Wire.encode Legacy.twoVotes)) {} {}

/-- The votes are read from the opposite order too, and the epoch is moved in the same way. -/
theorem migrateEpoch_rearranged_backward :
    backwardVotes ≠ Wire.encode Legacy.twoVotes ∧
      Wire.decode Legacy.QuorumTickData .quorumData backwardVotes = .ok Legacy.twoVotes ∧
      ∃ m' world',
        votesMigrator.migrateEpoch (votesSite (Wire.encode Legacy.twoVotes)) 5 {} =
          (.ok (), m', world') ∧
        votesMigrator.migrateEpoch (votesSite backwardVotes) 5 {} = (.ok (), m', world') := by
  obtain ⟨hvotes, hcontents, hmoves⟩ := migrateEpoch_rearranged
  have hdiffer : backwardVotes ≠ Wire.encode Legacy.twoVotes := by decide +kernel
  have hlength : backwardVotes.length < 2 ^ 64 := by decide +kernel
  have hdecode := (hvotes Legacy.twoVotes backwardVotes laidOut_backwardVotes hlength).1
  have hrun : (votesMigrator.migrateEpoch (votesSite (Wire.encode Legacy.twoVotes)) 5 {}).1 =
      .ok () := by decide +kernel
  have hmove := (hmoves (votesSite (Wire.encode Legacy.twoVotes))
    (fun _ => .ofContents (votesArchive backwardVotes))
    (fun _ => hcontents _ _ rearranged_votesArchive) votesMigrator {}).2 5
  rcases hmoved : votesMigrator.migrateEpoch (votesSite (Wire.encode Legacy.twoVotes)) 5 {} with
    ⟨r, m', world'⟩
  rw [hmoved] at hrun hmove
  obtain rfl : r = .ok () := hrun
  exact ⟨hdiffer, hdecode, m', world', rfl, hmove.symm⟩

end Migrator

end EpochSplit
