import EpochSplit.Proofs.Epoch.Job
import EpochSplit.Proofs.Key.Extent
import EpochSplit.Proofs.Record.Arrangement
/-!
# Archives that arrange votes in other ways

Two archives may differ in how the votes in them are arranged and in nothing else
(`Source.Rearranged`).  Votes are read only in scans of ranges of ticks, and there each value is
read as the votes that are laid out in it.  What is known about the epochs (`metadata_eq`) and the
plan of each epoch (`epochPlan_eq`) are therefore the same for both archives, and so is what there
is to count (`counts_eq`).
-/

namespace EpochSplit

/-- A key that begins as the keys of votes do. -/
def Key.IsOfVotes (key : Bytes) : Prop := key.head? = some Namespace.quorumData.tag

/-- Pairs that are the same, or hold the same votes in two arrangements. -/
structure Entry.Rearranged (e e' : Entry) : Prop where
  key : e.1 = e'.1
  value : e.2 = e'.2 ∨ Key.IsOfVotes e.1 ∧ Legacy.SameVotes e.2 e'.2

/-- Contents that are the same but for the arrangement of votes. -/
def Contents.Rearranged (c c' : Contents) : Prop :=
  ∀ key, c.get? key = c'.get? key ∨
    Key.IsOfVotes key ∧ ∃ value value', c.get? key = some value ∧ c'.get? key = some value' ∧
      Legacy.SameVotes value value'

/-- Archives that answer alike but for the arrangement of votes, faults included. -/
structure Source.Rearranged (s s' : Source) : Prop where
  /-- The same is found under keys of anything else. -/
  get : ∀ {key}, ¬Key.IsOfVotes key → s.get key = s'.get key
  /-- Ranges without keys of votes are scanned with the same outcome. -/
  scan : ∀ {keys : KeyRange}, (∀ key, keys.contains key = true → ¬Key.IsOfVotes key) →
    s.scan keys = s'.scan keys
  /-- All ranges are scanned with the same fault, or pair by pair. -/
  entries : ∀ keys : KeyRange,
    (∃ fault, s.scan keys = .error fault ∧ s'.scan keys = .error fault) ∨
      ∃ es es', s.scan keys = .ok es ∧ s'.scan keys = .ok es' ∧
        List.Forall₂ Entry.Rearranged es es'

/-! ### Contents -/

namespace Contents

lemma scan_map (c : Contents) (f : Bytes → Bytes → Bytes) (keys : KeyRange) :
    scan (c.map f) keys = (c.scan keys).map fun e => (e.1, f e.1 e.2) := by
  rw [scan_eq_filter, scan_eq_filter, Std.ExtTreeMap.toList_map, List.filter_map]
  rfl

variable {c c' : Contents}

/-- The second contents hold other values under the keys of the first. -/
lemma Rearranged.scan_eq (h : c.Rearranged c') (keys : KeyRange) :
    c'.scan keys = (c.scan keys).map fun e => (e.1, (c'.get? e.1).getD e.2) := by
  have hmap : c' = c.map fun key value => (c'.get? key).getD value := by
    refine Std.ExtTreeMap.ext_getElem? fun key => ?_
    rw [Std.ExtTreeMap.getElem?_map, ← Std.ExtTreeMap.get?_eq_getElem?,
      ← Std.ExtTreeMap.get?_eq_getElem?]
    obtain hsame | ⟨-, value, value', hvalue, hvalue', -⟩ := h key
    · rw [hsame]
      cases c'.get? key <;> rfl
    · rw [hvalue, hvalue']
      rfl
  conv_lhs => rw [hmap]
  exact scan_map c _ keys

lemma Rearranged.of_mem_scan (h : c.Rearranged c') {keys : KeyRange} {e : Entry}
    (hmem : e ∈ c.scan keys) : e.Rearranged (e.1, (c'.get? e.1).getD e.2) := by
  obtain ⟨hheld, -⟩ := mem_scan.1 hmem
  refine ⟨rfl, ?_⟩
  obtain hsame | ⟨hvotes, value, value', hvalue, hvalue', hvotes'⟩ := h e.1
  · rw [← hsame, hheld]
    exact .inl rfl
  · obtain rfl : e.2 = value := Option.some.inj (hheld.symm.trans hvalue)
    rw [hvalue']
    exact .inr ⟨hvotes, hvotes'⟩

/-- Contents that are the same but for the arrangement of votes make such archives. -/
lemma Rearranged.ofContents (h : c.Rearranged c') :
    (Source.ofContents c).Rearranged (.ofContents c') where
  get {key} hkey := by
    obtain hsame | ⟨hvotes, -⟩ := h key
    · exact congrArg Except.ok hsame
    · exact absurd hvotes hkey
  scan {keys} hkeys := by
    have hscan : (c.scan keys).map (fun e => (e.1, (c'.get? e.1).getD e.2)) = c.scan keys := by
      refine (List.map_congr_left fun e hmem => ?_).trans (List.map_id _)
      obtain hsame | ⟨hvotes, -⟩ := (h.of_mem_scan hmem).value
      · exact Prod.ext rfl hsame.symm
      · exact absurd hvotes (hkeys _ (mem_scan.1 hmem).2)
    exact congrArg Except.ok (hscan.symm.trans (h.scan_eq keys).symm)
  entries keys := by
    refine .inr ⟨c.scan keys, c'.scan keys, rfl, rfl, ?_⟩
    rw [h.scan_eq, List.forall₂_map_right_iff, List.forall₂_same]
    exact fun e hmem => h.of_mem_scan hmem

end Contents

/-! ### What is read -/

lemma Entry.Rearranged.quorumData_eq {e e' : Entry} (h : e.Rearranged e') :
    EpochEntry.quorumData e = EpochEntry.quorumData e' := by
  obtain ⟨key, value⟩ := e
  obtain ⟨key', value'⟩ := e'
  obtain ⟨hkey, hsame | ⟨-, hvotes⟩⟩ := h
  · rw [Prod.ext hkey hsame]
  · obtain rfl : key = key' := hkey
    exact hvotes.quorumData_eq key

lemma Key.not_isOfVotes {ns : Namespace} (hns : ns ≠ .quorumData) {key : Bytes}
    (h : key.head? = some ns.tag) : ¬IsOfVotes key := by
  intro hvotes
  rw [IsOfVotes, h] at hvotes
  exact hns (Namespace.tag_injective (Option.some.inj hvotes))

namespace Source.Rearranged

variable {s s' : Source} (h : s.Rearranged s')
include h

lemma get_encode {ns : Namespace} (hns : ns ≠ .quorumData) (id : RecordId) :
    s.get (Key.encode ns id) = s'.get (Key.encode ns id) :=
  h.get (Key.not_isOfVotes hns rfl)

lemma record?_encode {M : Type} [Wire.Record M] {ns : Namespace} (hns : ns ≠ .quorumData)
    (id : RecordId) : s.record? M ns (Key.encode ns id) = s'.record? M ns (Key.encode ns id) := by
  rw [record?, record?, h.get_encode hns]

lemma items_eq {ns : Namespace} (hns : ns ≠ .quorumData) {keys : KeyRange}
    (hkeys : ∀ key, keys.contains key = true → key.head? = some ns.tag) :
    s.items keys = s'.items keys := by
  rw [items, items, h.scan fun key hkey => Key.not_isOfVotes hns (hkeys key hkey)]

lemma readAll_eq {α : Type} {ns : Namespace} (hns : ns ≠ .quorumData)
    (read : Entry → Except CodecFault α) : s.readAll ns read = s'.readAll ns read := by
  rw [readAll, readAll, h.items_eq hns fun key => KeyRange.head?_of_contains_ofNamespace]

/-- The same is known about the epochs. -/
theorem metadata_eq : s.metadata = s'.metadata := by
  rw [Source.metadata, Source.metadata, lastTicks, lastTicks, intervals, intervals,
    h.readAll_eq (by decide), h.readAll_eq (by decide)]

/-! ### The plan of an epoch -/

lemma planMetadata_eq (m : EpochMetadata) (threshold : UInt32) :
    EpochPlan.metadata s m threshold = EpochPlan.metadata s' m threshold := by
  have hcomputors : s.computors? m.epoch = s'.computors? m.epoch := h.record?_encode (by decide) _
  have hintervals : s.intervals? m.epoch = s'.intervals? m.epoch := h.record?_encode (by decide) _
  have hsignature : s.voteSignature? m.epoch = s'.voteSignature? m.epoch := by
    have hget : s.get (Key.word .targetTickVoteSignature m.epoch) =
        s'.get (Key.word .targetTickVoteSignature m.epoch) := h.get_encode (by decide) _
    rw [voteSignature?, voteSignature?, hget]
  simp only [EpochPlan.metadata, EpochPlan.computors, EpochPlan.processedTickIntervals,
    EpochPlan.voteSignature, hcomputors, hintervals, hsignature]

lemma tickData_eq (r : TickRange) : EpochPlan.tickData s r = EpochPlan.tickData s' r := by
  have hns : Namespace.tickData ≠ .quorumData := by decide
  rw [EpochPlan.tickData, EpochPlan.tickData,
    h.items_eq hns fun key => KeyRange.head?_of_contains rfl rfl]

lemma transaction_eq : EpochPlan.transaction s = EpochPlan.transaction s' := by
  funext txId
  have hfound : s.transaction? txId = s'.transaction? txId := h.record?_encode (by decide) _
  rw [EpochPlan.transaction, EpochPlan.transaction, hfound]

lemma tickRange_eq (r : TickRange) : EpochPlan.tickRange s r = EpochPlan.tickRange s' r := by
  have hstatus : EpochPlan.transactionStatus s = EpochPlan.transactionStatus s' := by
    funext txId
    have hfound : s.status? txId = s'.status? txId := h.record?_encode (by decide) _
    rw [EpochPlan.transactionStatus, EpochPlan.transactionStatus, hfound]
  have hstatuses : EpochPlan.tickStatuses s = EpochPlan.tickStatuses s' := by
    funext tick txIds
    rw [EpochPlan.tickStatuses, EpochPlan.tickStatuses, hstatus]
  rw [EpochPlan.tickRange, EpochPlan.tickRange, h.tickData_eq, h.transaction_eq, hstatuses]

/-- The votes of a range become the same pairs, one by one. -/
lemma quorumData_eq (r : TickRange) : EpochPlan.quorumData s r = EpochPlan.quorumData s' r := by
  rw [EpochPlan.quorumData, EpochPlan.quorumData, items, items]
  obtain ⟨fault, hfault, hfault'⟩ | ⟨es, es', hes, hes', hentries⟩ :=
    h.entries (.ofTicks .quorumData r)
  · rw [hfault, hfault']
  · rw [hes, hes']
    dsimp only
    rw [List.map_map, List.map_map, ← List.forall₂_eq_eq_eq, List.forall₂_map_left_iff,
      List.forall₂_map_right_iff]
    exact hentries.imp fun e e' he => congrArg (Except.mapError Error.codec) he.quorumData_eq

lemma quorum_eq (m : EpochMetadata) : EpochPlan.quorum s m = EpochPlan.quorum s' m := by
  have hvotes : EpochPlan.quorumData s = EpochPlan.quorumData s' := funext h.quorumData_eq
  rw [EpochPlan.quorum, EpochPlan.quorum, hvotes]

/-- The same is to be written into the store of an epoch. -/
theorem epochPlan_eq (m : EpochMetadata) (threshold : UInt32) :
    epochPlan s m threshold = epochPlan s' m threshold := by
  have hticks : EpochPlan.tickRange s = EpochPlan.tickRange s' := funext h.tickRange_eq
  rw [epochPlan, epochPlan, h.planMetadata_eq, hticks, h.quorum_eq]

/-- The same is counted. -/
lemma counts_eq (m : EpochMetadata) (threshold : UInt32) :
    EpochPlan.counts s m threshold = EpochPlan.counts s' m threshold := by
  have hranges : EpochPlan.rangeCounts s = EpochPlan.rangeCounts s' := by
    funext r
    simp only [EpochPlan.rangeCounts, EpochPlan.tickItems, EpochPlan.transactionItems,
      EpochPlan.namedIds, h.tickData_eq, h.transaction_eq]
  have hvotes : EpochPlan.quorumData s = EpochPlan.quorumData s' := funext h.quorumData_eq
  have hquorum : EpochPlan.quorumCounts s m = EpochPlan.quorumCounts s' m := by
    have hitems : EpochPlan.voteItems s m = EpochPlan.voteItems s' m := by
      funext r
      rw [EpochPlan.voteItems, EpochPlan.voteItems, hvotes]
    simp only [EpochPlan.quorumCounts, hitems, EpochPlan.lastItems, EpochPlan.keptVotes,
      EpochPlan.votes, hvotes]
  rw [EpochPlan.counts, EpochPlan.counts, hranges, hquorum]

end Source.Rearranged

end EpochSplit
