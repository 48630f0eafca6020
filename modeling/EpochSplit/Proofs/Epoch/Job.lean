import EpochSplit.Proofs.Batch.Actions
import EpochSplit.Proofs.Epoch.Writes
import EpochSplit.Proofs.Fold.Passes
/-!
# The job carries out the plan

Writing an epoch takes the steps of its plan, and each phase of it counts the records of the streams
that it writes (`follows_run`).  The plan knows what there is to count since it knows the items; the
job reads its counts off the passes, off a counter that it keeps, and off the number of the ticks.
Here the one is proved of the other.
-/

namespace EpochSplit

/-- Counts more records of several namespaces. -/
def Tally.addAll (t : Tally) (counts : List (Namespace × Nat)) : Tally :=
  counts.foldl (fun t p => t.add p.1 p.2) t

namespace EpochReport

/-- Counts more records of several namespaces. -/
def addAll (r : EpochReport) (counts : List (Namespace × Nat)) : EpochReport :=
  { r with records := r.records.addAll counts }

lemma addAll_append (r : EpochReport) (counts more : List (Namespace × Nat)) :
    r.addAll (counts ++ more) = (r.addAll counts).addAll more := by
  simp only [addAll, Tally.addAll, List.foldl_append]

lemma foldl_add (r : EpochReport) (counts : List (Namespace × Nat)) :
    counts.foldl (fun r p => r.add p.1 p.2) r = r.addAll counts := by
  induction counts generalizing r with
  | nil => rfl
  | cons p counts ih => exact ih (r.add p.1 p.2)

end EpochReport

namespace EpochPlan

/-! ### What there is to count -/

/-- The metadata count one by one. -/
def metadataCounts (m : EpochMetadata) (threshold : UInt32) : List (Namespace × Nat) :=
  [(.computorList, 1), (.processedTickIntervals, 1), (.lastProcessedTick, 1)] ++
    if threshold < m.epoch then [(.targetTickVoteSignature, 1)] else []

/-- Tick data and transactions count by the number of their items, and statuses by the number of the
ids and of the ticks that name them. -/
def rangeCounts (s : Source) (r : TickRange) : List (Namespace × Nat) :=
  [(.tickData, (tickItems s r).length), (.transaction, (transactionItems s r).length),
    (.transactionStatus, ((namedIds s r).toList.flatMap Prod.snd).length),
    (.tickTransactionsStatus, (namedIds s r).size)]

/-- Votes count when those of all ranges are written. -/
def quorumCounts (s : Source) (m : EpochMetadata) : List (Namespace × Nat) :=
  [(.quorumData, (m.ranges.flatMap (voteItems s m)).length),
    (.lastTickQuorumDataPerEpochInterval, (lastItems s m).length)]

/-- All that counts in an epoch. -/
def counts (s : Source) (m : EpochMetadata) (threshold : UInt32) : List (Namespace × Nat) :=
  metadataCounts m threshold ++ (m.ranges.flatMap (rangeCounts s) ++ quorumCounts s m)

end EpochPlan

namespace EpochJob

open EpochPlan

variable {σ : Type} (job : EpochJob σ)

lemma perform_stream (label : String) : (job.stream label).perform = job.channel.perform :=
  funext₂ fun steps world => job.channel.perform_label label steps world

/-! ### The metadata of the epoch -/

lemma follows_stageMetadata (c : Channel σ) :
    (job.stageMetadata c).Follows c.stageEach
      (EpochPlan.metadata job.source job.metadata job.threshold).items
      fun namespaces => namespaces.map (·, 1) = metadataCounts job.metadata job.threshold := by
  have hc := c.inOrder_stageEach
  refine (c.follows_stageFound _).bind_cons hc fun _ _ => ?_
  refine (c.follows_stageFound _).bind_cons hc fun _ _ => ?_
  refine (c.follows_stage _).bind_cons hc fun _ _ => ?_
  rw [metadataCounts]
  by_cases hsigned : job.threshold < job.metadata.epoch
  · rw [if_pos hsigned, if_pos hsigned, if_pos hsigned]
    exact (c.follows_stageFound _).map hc fun _ _ => rfl
  · rw [if_neg hsigned, if_neg hsigned, if_neg hsigned]
    exact .pure hc rfl

/-- The metadata are counted one by one. -/
theorem follows_writeMetadata (report : EpochReport) :
    (job.writeMetadata report).Follows job.channel.perform
      (schedule job.channel.limit "epoch metadata" [] [] 0
        (EpochPlan.metadata job.source job.metadata job.threshold).items)
      (· = report.addAll (metadataCounts job.metadata job.threshold)) := by
  rw [← job.perform_stream "epoch metadata"]
  refine (Channel.follows_write (job.follows_stageMetadata _)).map (Channel.inOrder_perform _) ?_
  rintro ⟨namespaces, stats⟩ ⟨hnamespaces, -⟩
  rw [← hnamespaces, ← EpochReport.foldl_add, List.foldl_map]

/-! ### The ticks of a range -/

/-- What is written of a pair of tick data. -/
def tickItem (e : Entry) : Except Error (Current.TickData × Entry) :=
  (EpochEntry.tickData e).mapError .codec

lemma noteTransactions_alike :
    noteTransactions.Alike Eq (fun _ _ => True)
      (.stateless fun e => (tickItem e).map Prod.snd) := by
  rintro e ids - -
  simp only [noteTransactions, Transform.stateless, tickItem]
  rcases EpochEntry.tickData e with fault | ⟨t, entry⟩
  · exact ⟨.error rfl, trivial⟩
  · exact ⟨.ok entry, trivial⟩

lemma transformed_tickItem (s : Source) (r : TickRange) :
    s.transformed (.ofTicks .tickData r) (fun e => (tickItem e).map Prod.snd) = tickItems s r := by
  rw [Source.transformed, tickItems, tickData, List.map_map]
  refine List.map_congr_left fun item _ => ?_
  cases item with
  | error e => rfl
  | ok e => rfl

/-- The ids that are noted of pairs are those in their tick data. -/
lemma eq_foldl_of_makes {pairs made : List Entry} {ids ids' : TickTransactions}
    (h : noteTransactions.Makes pairs ids made ids') :
    ids' = (Fold.records (pairs.map tickItem)).foldl (fun ids t =>
      ids.insert t.tickNumber (ids[t.tickNumber]?.getD [] ++ t.transactionIds)) ids := by
  induction h with
  | nil => rfl
  | @cons e entry pairs made ids ids₁ ids' first _ ih =>
      simp only [noteTransactions] at first
      rcases hdata : EpochEntry.tickData e with fault | ⟨t, entry'⟩
      · rw [hdata] at first
        cases first
      · rw [hdata] at first
        cases first
        have hrecords : Fold.records ((e :: pairs).map tickItem) =
            t :: Fold.records (pairs.map tickItem) := by
          rw [List.map_cons, tickItem, hdata]
          rfl
        rw [hrecords, List.foldl_cons, ih]

/-- The tick data count by what the pass committed, which is all of them, and the ids that the pass
has noted are those in all of them. -/
theorem follows_writeTickData (r : TickRange) (report : EpochReport) :
    (job.writeTickData r report).Follows job.channel.perform
      (schedule job.channel.limit "tick data" [] [] 0 (tickItems job.source r))
      (· = (namedIds job.source r,
        report.addAll [(.tickData, (tickItems job.source r).length)])) := by
  rw [← job.perform_stream "tick data"]
  have hpass := job.source.follows_transcode noteTransactions_alike (.ofTicks .tickData r)
    (job.stream "tick data") ∅
  rw [transformed_tickItem] at hpass
  refine hpass.map (Channel.inOrder_perform _) ?_
  rintro ⟨stats, ids⟩ ⟨hwritten, hitems, made, hmade⟩
  simp only at hwritten hmade
  have hids : ids = namedIds job.source r := by
    rw [namedIds, tickTransactions, tickData, hitems, List.map_map]
    exact eq_foldl_of_makes hmade
  rw [hids, hwritten]
  rfl

/-- So do the transactions. -/
theorem follows_writeTransactions (r : TickRange) (report : EpochReport) :
    (job.writeTransactions (namedIds job.source r) report).Follows job.channel.perform
      (schedule job.channel.limit "transactions" [] [] 0 (transactionItems job.source r))
      (· = report.addAll [(.transaction, (transactionItems job.source r).length)]) := by
  rw [← job.perform_stream "transactions"]
  have hfill := Action.Follows.forM (job.stream "transactions").inOrder_stageEach
    (fun txId => (job.stream "transactions").follows_stageFound (transaction job.source txId))
    ((namedIds job.source r).toList.flatMap Prod.snd)
  rw [← List.map_eq_flatMap] at hfill
  refine (Channel.follows_write hfill).map (Channel.inOrder_perform _) ?_
  rintro ⟨_, stats⟩ ⟨-, hwritten⟩
  simp only at hwritten
  rw [hwritten]
  rfl

/-! ### Statuses -/

section Statuses

variable {job} {c : Channel σ}

/-- The statuses of some transactions were found, kept and counted, on top of a count. -/
def KeepsStatuses (s : Source) (count : Nat) (txIds : List String)
    (kept : List Current.TransactionStatus × Nat) : Prop :=
  ∃ statuses : List Legacy.TransactionStatus, txIds.map (transactionStatus s) = statuses.map .ok ∧
    kept = (statuses.map (·.toCurrent), count + txIds.length)

lemma follows_stageStatus {count : Nat} {txIds : List String} {txId : String}
    {kept : List Current.TransactionStatus × Nat}
    (h : KeepsStatuses job.source count txIds kept) :
    (job.stageStatus c kept txId).Follows c.stageEach
      [(transactionStatus job.source txId).map EpochEntry.transactionStatus]
      (KeepsStatuses job.source count (txIds ++ [txId])) := by
  rw [stageStatus]
  obtain ⟨statuses, hstatuses, rfl⟩ := h
  cases hstatus : transactionStatus job.source txId with
  | error e => exact c.follows_missing _ e _
  | ok status =>
      refine (c.follows_stage _).map c.inOrder_stageEach fun _ _ => ⟨statuses ++ [status], ?_, ?_⟩
      · rw [List.map_append, List.map_append, hstatuses, List.map_singleton, hstatus]
        rfl
      · simp only [List.map_append, List.map_singleton, List.length_append, List.length_singleton,
          Nat.add_assoc]

/-- The statuses of a tick are counted, and their list is not. -/
lemma follows_stageStatuses (count : Nat) (tick : UInt32 × List String) :
    (job.stageStatuses c count tick).Follows c.stageEach (tickStatuses job.source tick.1 tick.2)
      (· = count + tick.2.length) := by
  have hc := c.inOrder_stageEach
  have hloop : (tick.2.foldlM (job.stageStatus c) ([], count)).Follows c.stageEach
      (tick.2.flatMap fun txId =>
        [(transactionStatus job.source txId).map EpochEntry.transactionStatus])
      (KeepsStatuses job.source count tick.2) :=
    .foldlM hc _ follows_stageStatus tick.2 ⟨[], rfl, rfl⟩
  rw [← List.map_eq_flatMap] at hloop
  rw [stageStatuses, tickStatuses, List.map_map]
  refine hloop.bind hc ?_
  rintro ⟨kept, count'⟩ ⟨statuses, hstatuses, hkept⟩
  obtain ⟨rfl, rfl⟩ := Prod.mk.inj hkept
  -- every status was found, so the last item of the tick is their list
  rw [hstatuses, mapM_id_map_ok]
  exact (c.follows_stage _).map hc fun _ _ => rfl

/-- The statuses of all ticks. -/
lemma follows_stageEachStatus (ticks : List (UInt32 × List String)) :
    (ticks.foldlM (job.stageStatuses c) 0).Follows c.stageEach
      (ticks.flatMap fun tick => tickStatuses job.source tick.1 tick.2)
      (· = (ticks.flatMap Prod.snd).length) := by
  refine Action.Follows.foldlM c.inOrder_stageEach
    (fun done count => count = (done.flatMap Prod.snd).length) ?_ ticks ?_
  · rintro done tick count rfl
    refine (follows_stageStatuses _ _).mono fun count' hcount' => ?_
    rw [hcount', List.flatMap_append, List.flatMap_singleton, List.length_append]
  · rfl

end Statuses

/-- Statuses count by a counter, and their lists by the number of the ticks. -/
theorem follows_writeStatuses (r : TickRange) (report : EpochReport) :
    (job.writeStatuses (namedIds job.source r) report).Follows job.channel.perform
      (schedule job.channel.limit "transaction statuses" [] [] 0 (statusItems job.source r))
      (· = report.addAll
        [(.transactionStatus, ((namedIds job.source r).toList.flatMap Prod.snd).length),
          (.tickTransactionsStatus, (namedIds job.source r).size)]) := by
  rw [← job.perform_stream "transaction statuses"]
  refine (Channel.follows_write (follows_stageEachStatus _)).map (Channel.inOrder_perform _) ?_
  rintro ⟨count, stats⟩ ⟨hcount, -⟩
  simp only at hcount
  rw [hcount]
  rfl

/-- The steps of the streams of a range, each with what is said of its failures. -/
lemma steps_tickRange (s : Source) (r : TickRange) (limit : Nat) :
    (tickRange s r).flatMap (EpochStream.steps limit) =
      ((schedule limit "tick data" [] [] 0 (tickItems s r)).map
          (Step.within "migrating tick data") ++
        ((schedule limit "transactions" [] [] 0 (transactionItems s r)).map
            (Step.within "migrating transactions") ++
          (schedule limit "transaction statuses" [] [] 0 (statusItems s r)).map
            (Step.within "migrating transaction statuses"))).map
        (Step.within s!"migrating ticks {r.text}") := by
  simp only [List.map_append, map_within_schedule, tickRange, List.flatMap_cons,
    List.flatMap_nil, List.append_nil]
  rfl

/-- What is written of a range takes the steps of its streams. -/
theorem follows_writeTicks (r : TickRange) (report : EpochReport) :
    (job.writeTicks report r).Follows job.channel.perform
      ((tickRange job.source r).flatMap (EpochStream.steps job.channel.limit))
      (· = report.addAll (rangeCounts job.source r)) := by
  have hc := job.channel.inOrder_perform
  rw [steps_tickRange]
  refine Action.Follows.within (((job.follows_writeTickData r report).within _).bind hc ?_) _
  rintro ⟨ids, report₁⟩ heq
  obtain ⟨rfl, rfl⟩ := Prod.mk.inj heq
  refine ((job.follows_writeTransactions r _).within _).bind hc ?_
  rintro report₂ rfl
  refine ((job.follows_writeStatuses r _).within _).mono ?_
  rintro report₃ rfl
  rw [← EpochReport.addAll_append, ← EpochReport.addAll_append]
  rfl

/-! ### The votes -/

/-- A fold has observed the votes on the ticks of some ranges and has counted them. -/
structure HasFolded (s : Source) (m : EpochMetadata) (ranges : List TickRange)
    (f : Fold Legacy.QuorumTickData) : Prop where
  observed : f =
    { (fold m).observeAll (Fold.records (ranges.flatMap (quorumData s))) with stats := f.stats }
  counted : f.stats.written = (ranges.flatMap (voteItems s m)).length

/-- The votes of one range more. -/
lemma HasFolded.concat {s : Source} {m : EpochMetadata} {ranges : List TickRange} {r : TickRange}
    {f g : Fold Legacy.QuorumTickData} {stats : PassStats} (h : HasFolded s m ranges f)
    (hobserved : g = { f.observeAll (Fold.records (quorumData s r)) with stats := g.stats })
    (hstats : g.stats = f.stats + stats) (hwritten : stats.written = (voteItems s m r).length) :
    HasFolded s m (ranges ++ [r]) g where
  observed := by
    have hrecords : Fold.records ((ranges ++ [r]).flatMap (quorumData s)) =
        Fold.records (ranges.flatMap (quorumData s)) ++ Fold.records (quorumData s r) := by
      rw [List.flatMap_append, List.flatMap_singleton, Fold.records, List.filterMap_append]
      rfl
    rw [h.observed, Fold.observeAll_withStats] at hobserved
    rw [hrecords, Fold.observeAll, List.foldl_append]
    exact hobserved
  counted := by
    have hsum : g.stats.written = f.stats.written + stats.written := by
      rw [hstats]
      rfl
    rw [hsum, h.counted, hwritten, List.flatMap_append, List.flatMap_singleton,
      List.length_append]

lemma follows_foldVotes {ranges : List TickRange} {r : TickRange} {f : Fold Legacy.QuorumTickData}
    (h : HasFolded job.source job.metadata ranges f) :
    (job.foldVotes f r).Follows job.channel.perform
      ((schedule job.channel.limit "quorum data" [] [] 0
        (voteItems job.source job.metadata r)).map (Step.within s!"folding quorum data {r.text}"))
      (HasFolded job.source job.metadata (ranges ++ [r])) := by
  refine Action.Follows.within ?_ _
  rw [← job.perform_stream "quorum data"]
  have hindex : f.index = (fold job.metadata).index := by
    rw [h.observed]
    exact (Fold.rules_observeAll _ _).1
  have hpass := f.follows_transcodeRange job.source (.ofTicks .quorumData r)
    (job.stream "quorum data") (fun e => (EpochEntry.quorumData e).mapError .codec)
    (quorumData job.source r) rfl
  -- votes are attributed by the index alone, whatever the fold has observed before
  have hitems : f.attributed (quorumData job.source r) = voteItems job.source job.metadata r :=
    Fold.attributed_congr hindex _
  rw [hitems] at hpass
  refine hpass.map (Channel.inOrder_perform _) ?_
  rintro ⟨stats, g, _⟩ ⟨hwritten, hobserved, hstats⟩
  exact h.concat hobserved hstats hwritten

/-- The record of the last ticks counts by what the fold committed in the end. -/
lemma follows_writeLastTicks {f : Fold Legacy.QuorumTickData} (report : EpochReport)
    (h : HasFolded job.source job.metadata job.metadata.ranges f) :
    (job.writeLastTicks f report).Follows job.channel.perform
      (schedule job.channel.limit "last tick quorum data" [] [] 0
        (lastItems job.source job.metadata))
      (· = report.addAll [(.lastTickQuorumDataPerEpochInterval,
        (lastItems job.source job.metadata).length)]) := by
  rw [← job.perform_stream "last tick quorum data"]
  have hkept : f.kept EpochEntry.lastTickQuorumData = lastItems job.source job.metadata := by
    rw [h.observed]
    rfl
  rw [← hkept]
  refine (f.follows_persist (job.stream "last tick quorum data")
    EpochEntry.lastTickQuorumData).map (Channel.inOrder_perform _) ?_
  rintro ⟨stats, _⟩ hwritten
  simp only at hwritten
  rw [hwritten]
  rfl

/-- The steps of writing the votes of all ranges and the record of the last ticks. -/
def voteSteps (s : Source) (m : EpochMetadata) (limit : Nat) : List Step :=
  m.ranges.flatMap (fun r => (schedule limit "quorum data" [] [] 0 (voteItems s m r)).map
    (Step.within s!"folding quorum data {r.text}")) ++
  schedule limit "last tick quorum data" [] [] 0 (lastItems s m)

/-- Votes are counted when those of all ranges are written. -/
theorem follows_writeVotes (report : EpochReport) :
    (job.writeVotes report).Follows job.channel.perform
      (voteSteps job.source job.metadata job.channel.limit)
      (· = report.addAll (quorumCounts job.source job.metadata)) := by
  have hc := job.channel.inOrder_perform
  have hstart : HasFolded job.source job.metadata [] (fold job.metadata) := ⟨rfl, rfl⟩
  refine (Action.Follows.foldlM hc _ job.follows_foldVotes job.metadata.ranges hstart).bind hc
    fun f hf => ?_
  refine (job.follows_writeLastTicks _ hf).mono ?_
  rintro report' rfl
  rw [hf.counted]
  rfl

/-! ### The epoch -/

/-- The ranges one after the other. -/
lemma follows_ranges (report : EpochReport) :
    (job.metadata.ranges.foldlM job.writeTicks report).Follows job.channel.perform
      (job.metadata.ranges.flatMap fun r =>
        (tickRange job.source r).flatMap (EpochStream.steps job.channel.limit))
      (· = report.addAll (job.metadata.ranges.flatMap (rangeCounts job.source))) := by
  refine Action.Follows.foldlM job.channel.inOrder_perform
    (fun done report' => report' = report.addAll (done.flatMap (rangeCounts job.source))) ?_ _ rfl
  rintro done r report₁ rfl
  refine (job.follows_writeTicks r _).mono ?_
  rintro report₂ rfl
  rw [← EpochReport.addAll_append, List.flatMap_append, List.flatMap_singleton]

/-- The steps of a plan, phase by phase. -/
lemma steps_epochPlan (s : Source) (m : EpochMetadata) (threshold : UInt32) (limit : Nat) :
    (epochPlan s m threshold).flatMap (EpochStream.steps limit) =
      (schedule limit "epoch metadata" [] [] 0 (EpochPlan.metadata s m threshold).items).map
          (Step.within "migrating epoch metadata") ++
        (m.ranges.flatMap (fun r => (tickRange s r).flatMap (EpochStream.steps limit)) ++
          (voteSteps s m limit).map (Step.within "migrating quorum data")) := by
  simp only [epochPlan, quorum, voteSteps, List.flatMap_cons, List.flatMap_append,
    List.flatMap_assoc, List.flatMap_nil, List.append_nil, List.flatMap_map, List.map_append,
    List.map_flatMap, map_within_schedule]
  rfl

/-- Writing an epoch takes the steps of its plan, and adds to the report all that there is to
count. -/
theorem follows_run (report : EpochReport) :
    (job.run report).Follows job.channel.perform
      ((epochPlan job.source job.metadata job.threshold).flatMap
        (EpochStream.steps job.channel.limit))
      (· = report.addAll (counts job.source job.metadata job.threshold)) := by
  have hc := job.channel.inOrder_perform
  rw [steps_epochPlan]
  refine ((job.follows_writeMetadata report).within _).bind hc ?_
  rintro report₁ rfl
  refine (job.follows_ranges _).bind hc ?_
  rintro report₂ rfl
  refine ((job.follows_writeVotes _).within _).mono ?_
  rintro report₃ rfl
  rw [counts, EpochReport.addAll_append, EpochReport.addAll_append]

end EpochJob

end EpochSplit
