import EpochSplit.Proofs.Epoch.Tally
import EpochSplit.Proofs.Store.Rehearsal
import Mathlib.Data.List.Perm.Lattice
/-!
# What a report accounts for

The report on an epoch adds up what the passes say that they committed, and what is counted beside
them.  It agrees with the batches that the store took (`countsBatches_migrateEpoch`): for each
namespace it counts the pairs in all of them.  The store itself may hold fewer keys, since a key
that is written twice is held once.
-/

namespace EpochSplit

/-! ### Batches -/

/-- The batch that a call commits, if it does. -/
def Call.batch? : Call → Option (List Entry)
  | commit batch (.ok ()) => some batch
  | _ => none

/-- The batches that calls commit, in order. -/
def acceptedBatches (calls : List Call) : List (List Entry) := calls.filterMap Call.batch?

lemma flatten_acceptedBatches (calls : List Call) :
    (acceptedBatches calls).flatten = committed calls := by
  induction calls with
  | nil => rfl
  | cons call calls ih =>
      have hcall : call.accepted = (call.batch?).getD [] := by
        cases call with
        | commit batch result => cases result <;> rfl
        | opened | compact | close => rfl
      rw [committed, List.flatMap_cons, hcall, ← committed, ← ih, acceptedBatches,
        List.filterMap_cons]
      cases call.batch? with
      | none => rfl
      | some batch => rfl

/-- A report on an epoch counts the pairs of some batches, by namespace and in total. -/
structure CountsBatches (entry : EpochReport) (batches : List (List Entry)) : Prop where
  count : ∀ ns, entry.records.count ns = (batches.map (countTagged ns)).sum
  total : entry.total = (batches.map List.length).sum

/-- Batches are counted pair by pair. -/
lemma countsBatches_of_flatten {entry : EpochReport} {batches : List (List Entry)}
    (hcount : ∀ ns, entry.records.count ns = countTagged ns batches.flatten)
    (htotal : entry.total = batches.flatten.length) : CountsBatches entry batches where
  count ns := by
    rw [hcount, countTagged, List.countP_flatten]
    rfl
  total := by rw [htotal, List.length_flatten]

namespace Migrator

variable {σ : Type} {site : Site σ} {m m' : Migrator} {epoch : UInt32} {world world' : σ}

/-- The report on an epoch that was moved with success counts the batches that its store took. -/
theorem countsBatches_migrateEpoch
    (h : m.migrateEpoch site epoch world = (.ok (), m', world')) :
    ∃ entry : EpochReport, m'.report.epochs = m.report.epochs ++ [entry] ∧ entry.epoch = epoch ∧
      CountsBatches entry (acceptedBatches (m.epochCalls site epoch world)) := by
  have hok : (m.migrateEpoch site epoch world).1 = .ok () := by rw [h]
  obtain ⟨metadata, target, opened, hmd, hopen, hsound, hcommitted⟩ :=
    committed_epochCalls_of_ok hok
  obtain ⟨metadata', target', opened', written, report, settled, hmd', hopen', -, hsettle, -, -, -,
    rfl⟩ := migrateEpoch_eq_ok h
  obtain rfl : metadata' = metadata := Option.some.inj (hmd'.symm.trans hmd)
  obtain ⟨rfl, rfl⟩ : target' = target ∧ opened' = opened := by
    rw [hopen] at hopen'
    cases hopen'
    exact ⟨rfl, rfl⟩
  obtain ⟨compacted, rfl⟩ := eq_of_settle hsettle
  refine ⟨_, rfl, rfl, countsBatches_of_flatten ?_ ?_⟩
  · intro ns
    rw [flatten_acceptedBatches, hcommitted]
    exact EpochPlan.count_addAll_counts hsound ns
  · rw [flatten_acceptedBatches, hcommitted]
    exact EpochPlan.total_addAll_counts hsound

end Migrator

/-! ### Keys -/

namespace Contents

/-- Contents that were empty hold the keys that were written, each once. -/
lemma perm_keys_overlay (entries : List Entry) :
    (overlay ∅ entries).keys.Perm (entries.map Prod.fst).dedup := by
  have hkeys : (overlay ∅ entries).keys.Nodup := by
    refine Std.ExtTreeMap.distinct_keys.imp fun {k k'} hne heq => hne ?_
    rw [heq]
    exact Std.ReflCmp.compare_self
  rw [List.perm_ext_iff_of_nodup hkeys (List.nodup_dedup _)]
  intro key
  rw [Std.ExtTreeMap.mem_keys, mem_overlay, List.mem_dedup]
  exact or_iff_left Std.ExtTreeMap.not_mem_empty

/-- There are at most as many keys as there are pairs, and just as many if no two pairs share a
key. -/
lemma countP_keys_overlay (p : Bytes → Bool) (entries : List Entry) :
    (overlay ∅ entries).keys.countP p ≤ (entries.map Prod.fst).countP p ∧
      ((overlay ∅ entries).keys.countP p = (entries.map Prod.fst).countP p ↔
        ((entries.map Prod.fst).filter p).Nodup) := by
  have hsublist : ((entries.map Prod.fst).dedup.filter p).Sublist
      ((entries.map Prod.fst).filter p) := (List.dedup_sublist _).filter p
  rw [(perm_keys_overlay entries).countP_eq, List.countP_eq_length_filter,
    List.countP_eq_length_filter]
  refine ⟨hsublist.length_le, ?_⟩
  constructor
  · intro hlength
    rw [← hsublist.eq_of_length hlength]
    exact (List.nodup_dedup _).filter p
  · intro hnodup
    have hleft : ((entries.map Prod.fst).dedup.filter p).Nodup := (List.nodup_dedup _).filter p
    refine ((List.perm_ext_iff_of_nodup hleft hnodup).2 fun key => ?_).length_eq
    rw [List.mem_filter, List.mem_filter, List.mem_dedup]

end Contents

namespace Rehearsal

variable {s : Source} {m m' : Migrator} {e : UInt32} {w w' : Rehearsal}

/-- The report on an epoch that was moved with success accounts for each pair in each batch that its
store took: for each namespace it counts the pairs whose keys carry the tag, and in total it counts
all.  If the store was empty, it holds at most so many keys of the namespace, and just so many if
and only if no two of these pairs share a key. -/
theorem migrateEpoch_accounted (h : m.migrateEpoch (reading s) e w = (.ok (), m', w')) :
    ∃ entry : EpochReport, m'.report.epochs = m.report.epochs ++ [entry] ∧ entry.epoch = e ∧
      CountsBatches entry (acceptedBatches (m.epochCalls (reading s) e w)) ∧
      (w.held e = ∅ → ∀ ns : Namespace,
        (w'.held e).keys.countP ns.tags ≤ entry.records.count ns ∧
        ((w'.held e).keys.countP ns.tags = entry.records.count ns ↔
          (((acceptedBatches (m.epochCalls (reading s) e w)).flatten.map Prod.fst).filter
            ns.tags).Nodup)) := by
  obtain ⟨entry, hlisted, hepoch, hcounts⟩ := Migrator.countsBatches_migrateEpoch h
  refine ⟨entry, hlisted, hepoch, hcounts, ?_⟩
  intro hempty ns
  have hheld := held_migrateEpoch m s e w
  rw [h, hempty, ← flatten_acceptedBatches] at hheld
  have hcount : entry.records.count ns =
      ((acceptedBatches (m.epochCalls (reading s) e w)).flatten.map Prod.fst).countP ns.tags := by
    rw [hcounts.count, List.countP_map, List.countP_flatten]
    rfl
  rw [hheld, hcount]
  exact Contents.countP_keys_overlay ns.tags _

/-! ### An id that is named twice -/

/-- An archive with an epoch of two ticks whose tick data name the same transaction. -/
def namedTwice : Contents :=
  SampleArchive.ofItems <|
    [.epoch { epoch := 5, ranges := [⟨10, 11⟩], transactionsPerTick := 0 },
      tickItem 10 10 "a", tickItem 11 11 "a"] ++ transactionItems "a" "a"

/-- A migrator of this epoch, which writes batches of three pairs. -/
def namedTwiceMigrator : Migrator :=
  .fresh (reading (.ofContents namedTwice)) { batchSize := 3 } {}

/-- The move of this epoch. -/
def namedTwiceMove : Except Error Unit × Migrator × Rehearsal :=
  namedTwiceMigrator.migrateEpoch (reading (.ofContents namedTwice)) 5 {}

/-- The batches that it commits. -/
def namedTwiceBatches : List (List Entry) :=
  acceptedBatches (namedTwiceMigrator.epochCalls (reading (.ofContents namedTwice)) 5 {})

/-- The transaction is written twice and counted twice, but its key is there once.  Of tick data
there are as many keys as are counted. -/
theorem migrateEpoch_accounted_namedTwice :
    namedTwiceMove.1 = .ok () ∧ ∃ entry, namedTwiceMove.2.1.report.epochs = [entry] ∧
      CountsBatches entry namedTwiceBatches ∧ entry.records.count .transaction = 2 ∧
      (namedTwiceMove.2.2.held 5).keys.countP (Namespace.tags .transaction) = 1 ∧
      ¬((namedTwiceBatches.flatten.map Prod.fst).filter (Namespace.tags .transaction)).Nodup ∧
      ((namedTwiceBatches.flatten.map Prod.fst).filter (Namespace.tags .tickData)).Nodup := by
  have hok : namedTwiceMove.1 = .ok () := by decide +kernel
  have hcounted : (namedTwiceMove.2.1.report.epochs.all fun entry =>
      entry.records.count .transaction = 2 && entry.records.count .tickData = 2) = true := by
    decide +kernel
  have htransactions :
      (namedTwiceMove.2.2.held 5).keys.countP (Namespace.tags .transaction) = 1 := by
    decide +kernel
  have hticks : (namedTwiceMove.2.2.held 5).keys.countP (Namespace.tags .tickData) = 2 := by
    decide +kernel
  rw [namedTwiceMove] at hok hcounted htransactions hticks ⊢
  obtain ⟨entry, hlisted, -, hbatches, hkeys⟩ :=
    migrateEpoch_accounted (Migrator.migrateEpoch_of_outcome hok)
  have hreport : namedTwiceMigrator.report.epochs = [] := rfl
  rw [hreport, List.nil_append] at hlisted
  rw [hlisted, List.all_cons, List.all_nil, Bool.and_true, Bool.and_eq_true,
    decide_eq_true_iff, decide_eq_true_iff] at hcounted
  obtain ⟨-, htransaction⟩ := hkeys (held_default 5) .transaction
  obtain ⟨-, htick⟩ := hkeys (held_default 5) .tickData
  rw [htransactions, hcounted.1] at htransaction
  rw [hticks, hcounted.2] at htick
  refine ⟨hok, entry, hlisted, hbatches, hcounted.1, htransactions, ?_, htick.1 rfl⟩
  intro hnodup
  exact absurd (htransaction.2 hnodup) (by decide)

end Rehearsal

end EpochSplit
