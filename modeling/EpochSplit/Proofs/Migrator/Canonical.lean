import EpochSplit.Proofs.Migrator.Retry
import EpochSplit.Proofs.Record.RoundTrip
import EpochSplit.Proofs.Epoch.Writes
/-!
# Epoch stores are canonical

Whatever becomes of a move, each pair that it leaves in an empty store has a key that can be read
and a value that is the canonical form of the record in it.  This holds of each kind of pair that a
plan may write, from whatever values the archive holds, and so of all that is committed.

A value whose length is no 64-bit number could not be written together with its length; no such
value fits into memory.
-/

namespace EpochSplit

/-! ### One pair -/

/-- The key of a pair can be read as an id of a namespace, and the value is the canonical form of a
record of that namespace. -/
structure IsCanonical (ns : Namespace) (entry : Entry) : Prop where
  key : ∃ id, Key.decode ns entry.1 = .ok id
  value : entry.2.length < 2 ^ 64 → EpochEntry.canonical ns entry.2 = .ok entry.2

namespace EpochEntry

lemma canonicalAs_encode {M : Type} [Wire.Record M] [Wire.Record.Lawful M] (ns : Namespace) {m : M}
    (h : (Wire.encode m).length < 2 ^ 64) :
    canonicalAs M ns (Wire.encode m) = .ok (Wire.encode m) := by
  rw [canonicalAs, Wire.decode_encode ns h]
  rfl

lemma canonical_encodeWord (ns : Namespace) (n : UInt32) :
    (Wire.decodeWord ns (Wire.encodeWord n)).map Wire.encodeWord = .ok (Wire.encodeWord n) := by
  rw [Wire.decodeWord_encodeWord]
  rfl

end EpochEntry

/-- Each kind of pair that a plan may write is canonical. -/
lemma Written.isCanonical {s : Source} {m : EpochMetadata} {threshold : UInt32} {ns : Namespace}
    {entry : Entry} (h : Written s m threshold ns entry) : IsCanonical ns entry := by
  cases h with
  | computors found =>
      exact ⟨⟨_, Key.decode_encode rfl⟩, EpochEntry.canonicalAs_encode .computorList⟩
  | processedTickIntervals found nonempty =>
      exact ⟨⟨_, Key.decode_encode rfl⟩, EpochEntry.canonicalAs_encode .processedTickIntervals⟩
  | lastProcessedTick =>
      exact ⟨⟨_, Key.decode_encode rfl⟩, EpochEntry.canonicalAs_encode .lastProcessedTick⟩
  | voteSignature signed found =>
      exact ⟨⟨_, Key.decode_encode rfl⟩, fun _ =>
        EpochEntry.canonical_encodeWord .targetTickVoteSignature _⟩
  | tickData range scanned moved =>
      obtain ⟨tick, t, hkey, -, -, rfl⟩ := EpochEntry.exists_of_tickData moved
      refine ⟨⟨.ofWord tick, ?_⟩, EpochEntry.canonicalAs_encode .tickData⟩
      rw [hkey]
      exact Key.decode_encode rfl
  | transaction found =>
      exact ⟨⟨_, Key.decode_encode rfl⟩, EpochEntry.canonicalAs_encode .transaction⟩
  | transactionStatus found =>
      exact ⟨⟨_, Key.decode_encode rfl⟩, EpochEntry.canonicalAs_encode .transactionStatus⟩
  | tickTransactionsStatus range named all =>
      exact ⟨⟨_, Key.decode_encode rfl⟩, EpochEntry.canonicalAs_encode .tickTransactionsStatus⟩
  | quorumData range scanned moved attributed =>
      obtain ⟨tick, hkey, -, -, rfl⟩ := EpochEntry.exists_of_quorumData moved
      refine ⟨⟨.ofWord tick, ?_⟩, EpochEntry.canonicalAs_encode .quorumData⟩
      rw [hkey]
      exact Key.decode_encode rfl
  | lastTickQuorumData group kept =>
      obtain ⟨record, rfl, -⟩ := EpochEntry.lastTickQuorumData_eq_ok kept
      exact ⟨⟨_, Key.decode_encode rfl⟩,
        EpochEntry.canonicalAs_encode .lastTickQuorumDataPerEpochInterval⟩

/-! ### The whole store -/

namespace Rehearsal

variable {m : Migrator} {s : Source} {e : UInt32} {w : Rehearsal}

/-- What an empty store holds after a move, whatever its outcome, is of the kinds of pairs that the
plan of the epoch may write. -/
lemma written_of_getElem?_held (hempty : w.held e = ∅) {key value : Bytes}
    (h : ((m.migrateEpoch (reading s) e w).2.2.held e)[key]? = some value) :
    ∃ metadata ns, m.metadata.get? e = some metadata ∧
      Written s metadata m.settings.signatureEpochThreshold ns (key, value) := by
  obtain ⟨-, hview⟩ | ⟨metadata, target, opened, done, rest, hmd, -, hsteps, -, hview⟩ :=
    Migrator.view_migrateEpoch (tracks_held (s := s) (e := e)) (Prod.eta _).symm
  · have hheld : (m.migrateEpoch (reading s) e w).2.2.held e = ∅ := hview.trans hempty
    rw [hheld] at h
    cases (Std.ExtTreeMap.getElem?_empty (a := key)).symm.trans h
  · have hheld : (m.migrateEpoch (reading s) e w).2.2.held e =
        Contents.overlay ∅ (done.flatMap Step.entries) := by rw [← hempty]; exact hview
    rw [hheld] at h
    have hentry : (key, value) ∈ (m.epochSteps s metadata).flatMap Step.entries := by
      have hsteps' : m.epochSteps s metadata = done ++ rest := hsteps
      rw [hsteps', List.flatMap_append]
      exact List.mem_append_left _ (Contents.mem_of_getElem?_overlay_empty h)
    obtain ⟨ns, hwritten⟩ :=
      EpochPlan.written_of_mem (EpochStream.mem_entries_of_mem_steps hentry)
    exact ⟨metadata, ns, hmd, hwritten⟩

/-- Whatever becomes of a move into an empty store, and whatever the archive answers: each key in
the store is a key of a namespace, told by its first byte, and the value under it is what is written
for the record of that namespace which it holds. -/
theorem migrateEpoch_canonical (hempty : w.held e = ∅) {key value : Bytes}
    (h : ((m.migrateEpoch (reading s) e w).2.2.held e)[key]? = some value)
    (hlength : value.length < 2 ^ 64) :
    ∃ ns id, key.head?.bind Namespace.ofTag? = some ns ∧ Key.decode ns key = .ok id ∧
      EpochEntry.canonical ns value = .ok value := by
  obtain ⟨metadata, ns, -, hwritten⟩ := written_of_getElem?_held hempty h
  obtain ⟨⟨id, hkey⟩, hvalue⟩ := hwritten.isCanonical
  have htag : key.head? = some ns.tag := hwritten.head?
  refine ⟨ns, id, ?_, hkey, hvalue hlength⟩
  rw [htag]
  exact Namespace.ofTag?_tag ns

/-- The pairs that an interrupted move of the small rehearsal leaves are canonical. -/
theorem migrateEpoch_canonical_sample :
    (sampleMove {} 1 (sampleRefusing 3)).1 ≠ .ok () ∧
      ∃ value, ((sampleMove {} 1 (sampleRefusing 3)).2.2.held 5)[Key.word .computorList 5]? =
          some value ∧
        ∃ ns id, (Key.word .computorList 5).head?.bind Namespace.ofTag? = some ns ∧
          Key.decode ns (Key.word .computorList 5) = .ok id ∧
          EpochEntry.canonical ns value = .ok value := by
  have hstopped : (sampleMove {} 1 (sampleRefusing 3)).1 ≠ .ok () := by decide +kernel
  have hshort : (((sampleMove {} 1 (sampleRefusing 3)).2.2.held 5)[Key.word .computorList 5]?.any
      fun value => value.length < 2 ^ 64) = true := by decide +kernel
  obtain ⟨value, hvalue, hlength⟩ := (Option.any_eq_true _ _).1 hshort
  refine ⟨hstopped, value, hvalue, ?_⟩
  rw [sampleMove] at hvalue
  exact migrateEpoch_canonical rfl hvalue (of_decide_eq_true hlength)

end Rehearsal

end EpochSplit
