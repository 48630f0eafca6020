import EpochSplit.Proofs.Migrator.Journal
import EpochSplit.SampleArchive
import EpochSplit.Store.Rehearsal
/-!
# Rehearsed moves

What the stores of a rehearsal do, seen from the store of one epoch: what it holds, how often it was
closed, and whether something stands in the way of a move.  A rehearsal can be given any archive to
read from, in particular one whose reads fail (`reading`).
-/

namespace EpochSplit.Rehearsal

variable {s : Source} {e : UInt32} {w w' : Rehearsal}

/-- A rehearsal that reads a given archive, whatever the world holds. -/
def reading (s : Source) : Site Rehearsal := { site with source := fun _ => s }

/-- What the store of an epoch holds. -/
def held (w : Rehearsal) (e : UInt32) : Contents := (w.epoch e).contents

/-- Nothing refuses commits to the store of an epoch, and nothing cancels the run. -/
structure Calm (w : Rehearsal) (e : UInt32) : Prop where
  accepts : (w.epoch e).refusal = none
  live : w.cancelled = false
  unending : w.cancelAfter = none

/-- The store of an epoch can be opened, compacted and closed. -/
structure Faultless (w : Rehearsal) (e : UInt32) : Prop where
  opens : w.faults.onOpen.contains e = false
  compacts : w.faults.onCompact.contains e = false
  closes : w.faults.onClose.contains e = false

/-! ### Stores of epochs -/

@[simp] lemma epoch_setEpoch (w : Rehearsal) (e : UInt32) (store : MemoryStore) :
    (w.setEpoch e store).epoch e = store := by
  simp [epoch, setEpoch]

@[simp] lemma epoch_countCommit (w : Rehearsal) (e : UInt32) :
    w.countCommit.epoch e = w.epoch e := rfl

/-- At first no store holds anything. -/
@[simp] lemma held_default (e : UInt32) : ({} : Rehearsal).held e = ∅ := by
  simp [held, epoch]

lemma commit_of_accepts (h : (w.epoch e).refuses = false) (durable : Bool) (batch : List Entry) :
    (epochTarget e).commit durable batch w =
      (.ok (), (w.setEpoch e ((w.epoch e).commit durable batch).2).countCommit) := by
  simp only [epochTarget, MemoryStore.commit, h, Bool.false_eq_true, if_false]

lemma commit_of_refuses (h : (w.epoch e).refuses = true) (durable : Bool) (batch : List Entry) :
    (epochTarget e).commit durable batch w =
      (.error (.commit batch.length "commit limit reached"), w) := by
  simp only [epochTarget, MemoryStore.commit, h, if_true]

/-- An accepted batch is laid over the contents, and counted. -/
lemma commit_eq_ok {durable : Bool} {batch : List Entry}
    (h : (epochTarget e).commit durable batch w = (.ok (), w')) :
    (w.epoch e).refuses = false ∧
      w' = (w.setEpoch e ((w.epoch e).commit durable batch).2).countCommit := by
  cases hr : (w.epoch e).refuses <;> simp [epochTarget, MemoryStore.commit, hr] at h ⊢
  exact h.symm

/-- A refused batch leaves no trace. -/
lemma commit_eq_error {durable : Bool} {batch : List Entry} {fault : StoreFault}
    (h : (epochTarget e).commit durable batch w = (.error fault, w')) :
    (w.epoch e).refuses = true ∧ fault = .commit batch.length "commit limit reached" ∧ w' = w := by
  cases hr : (w.epoch e).refuses <;> simp [epochTarget, MemoryStore.commit, hr] at h ⊢
  exact ⟨h.1.symm, h.2.symm⟩

lemma openEpoch_eq_ok {target : Target Rehearsal} (h : openEpoch e w = (.ok target, w')) :
    target = epochTarget e ∧ w' = w.setEpoch e (w.epoch e) := by
  unfold openEpoch at h
  split at h <;> cases h
  exact ⟨rfl, rfl⟩

lemma openEpoch_of_faultless (h : w.Faultless e) :
    openEpoch e w = (.ok (epochTarget e), w.setEpoch e (w.epoch e)) := by
  rw [openEpoch, h.opens, if_neg Bool.false_ne_true]

lemma compact_of_faultless (h : w.Faultless e) :
    (epochTarget e).compact w = (.ok (), w.setEpoch e (w.epoch e).compact) := by
  simp only [epochTarget, h.compacts, Bool.false_eq_true, if_false]

lemma close_of_faultless (h : w.Faultless e) :
    (epochTarget e).close w = (.ok (), w.setEpoch e (w.epoch e).close) := by
  simp only [epochTarget, h.closes, Bool.false_eq_true, if_false]

/-- What a move can still do with a store of which nothing fails but commits. -/
lemma settle_of_faultless (m : Migrator) (h : w.Faultless e) (report : EpochReport) :
    ∃ settledReport settled, m.settle (epochTarget e) report w = (.ok settledReport, settled) ∧
      settled.Faultless e := by
  unfold Migrator.settle
  split
  · rw [compact_of_faultless h]
    exact ⟨_, _, rfl, h.opens, h.compacts, h.closes⟩
  · exact ⟨_, _, rfl, h⟩

/-! ### Calm worlds -/

lemma refuses_of_calm (h : w.Calm e) : (w.epoch e).refuses = false := by
  rw [MemoryStore.refuses, h.accepts]
  rfl

lemma calm_setEpoch {store : MemoryStore} (h : store.refusal = (w.epoch e).refusal) :
    (w.setEpoch e store).Calm e ↔ w.Calm e := by
  constructor
  · rintro ⟨haccepts, hlive, hunending⟩
    exact ⟨by rw [← h, ← haccepts, epoch_setEpoch], hlive, hunending⟩
  · rintro ⟨haccepts, hlive, hunending⟩
    exact ⟨by rw [epoch_setEpoch, h, haccepts], hlive, hunending⟩

/-- Counting a commit cancels nothing unless a cancellation is planned. -/
lemma calm_countCommit : w.countCommit.Calm e ↔ w.Calm e := by
  constructor
  · rintro ⟨haccepts, hlive, hunending⟩
    refine ⟨haccepts, ?_, hunending⟩
    simp only [countCommit, Bool.or_eq_false_iff] at hlive
    exact hlive.1
  · rintro ⟨haccepts, hlive, hunending⟩
    refine ⟨haccepts, ?_, hunending⟩
    simp only [countCommit, hlive, hunending]
    rfl

lemma live_countCommit (w : Rehearsal) :
    (w.countCommit.cancelled = false ∧ w.countCommit.cancelAfter = none) ↔
      (w.cancelled = false ∧ w.cancelAfter = none) := by
  refine and_congr_left fun hunending => ?_
  have hunending : w.cancelAfter = none := hunending
  simp only [countCommit, hunending, Option.any_none, Bool.or_false]

lemma refusal_commit (durable : Bool) (batch : List Entry) (store : MemoryStore) :
    (store.commit durable batch).2.refusal = store.refusal := by
  unfold MemoryStore.commit
  split <;> rfl

/-- In a calm world batches are accepted, and the world stays calm. -/
lemma commit_of_calm (h : w.Calm e) (durable : Bool) (batch : List Entry) :
    ∃ w', (epochTarget e).commit durable batch w = (.ok (), w') ∧ w'.Calm e ∧
      w'.faults = w.faults := by
  exact ⟨_, commit_of_accepts (refuses_of_calm h) durable batch,
    calm_countCommit.2 ((calm_setEpoch (refusal_commit durable batch _)).2 h), rfl⟩

/-! ### Views of the store of an epoch -/

/-- A view of the world is tracked by a rehearsal if it follows what becomes of the store. -/
lemma tracks {α : Type} {view : Rehearsal → α} {act : α → List Entry → α} {shut : α → α}
    (act_nil : ∀ a, act a [] = a)
    (act_append : ∀ a batch more, act a (batch ++ more) = act (act a batch) more)
    (hopen : ∀ w : Rehearsal, view (w.setEpoch e (w.epoch e)) = view w)
    (hcommit : ∀ (w : Rehearsal) durable batch, (w.epoch e).refuses = false →
      view (w.setEpoch e ((w.epoch e).commit durable batch).2).countCommit = act (view w) batch)
    (hcompact : ∀ w : Rehearsal, view (w.setEpoch e (w.epoch e).compact) = view w)
    (hclose : ∀ w : Rehearsal, view (w.setEpoch e (w.epoch e).close) = shut (view w)) :
    (reading s).Tracks e view act shut where
  openEpoch {world r world'} h := by
    simp only [reading, site, openEpoch] at h
    split at h <;> cases h
    · rfl
    · exact hopen _
  target {world target world'} h := by
    obtain ⟨rfl, -⟩ := openEpoch_eq_ok h
    refine ⟨act_nil, act_append, fun hc => ?_, fun hc => ?_⟩
    · obtain ⟨hr, rfl⟩ := commit_eq_ok hc
      exact hcommit _ _ _ hr
    · obtain ⟨-, -, rfl⟩ := commit_eq_error hc
      rfl
  compact {world target world'} h reached := by
    obtain ⟨rfl, -⟩ := openEpoch_eq_ok h
    simp only [epochTarget]
    split
    · rfl
    · exact hcompact _
  close {world target world'} h reached := by
    obtain ⟨rfl, -⟩ := openEpoch_eq_ok h
    exact hclose _

/-- The store that is opened does not depend on the world. -/
lemma target_tracks {α : Type} {view : Rehearsal → α} {act : α → List Entry → α} {shut : α → α}
    (h : (reading s).Tracks e view act shut) : (epochTarget e).Tracks view act := by
  have hfaultless : Faultless {} e := ⟨rfl, rfl, rfl⟩
  exact h.target (show (reading s).openEpoch e {} = _ from openEpoch_of_faultless hfaultless)

/-- Accepted batches are laid over what the store of an epoch holds. -/
theorem tracks_held : (reading s).Tracks e (·.held e) Contents.overlay id := by
  refine tracks (fun _ => rfl) Contents.overlay_append ?_ ?_ ?_ ?_
  · intro w
    rw [held, epoch_setEpoch, held]
  · intro w durable batch hr
    rw [held, epoch_countCommit, epoch_setEpoch, MemoryStore.contents_commit, hr]
    rfl
  · intro w
    rw [held, epoch_setEpoch]
    rfl
  · intro w
    rw [held, epoch_setEpoch]
    rfl

/-- The store of an epoch counts how often it is closed. -/
theorem tracks_closes :
    (reading s).Tracks e (fun w => (w.epoch e).closes) (fun n _ => n) (· + 1) := by
  refine tracks (fun _ => rfl) (fun _ _ _ => rfl) ?_ ?_ ?_ ?_
  · intro w
    rw [epoch_setEpoch]
  · intro w durable batch hr
    rw [epoch_countCommit, epoch_setEpoch, MemoryStore.commit, hr]
    rfl
  · intro w
    rw [epoch_setEpoch]
    rfl
  · intro w
    rw [epoch_setEpoch]
    rfl

/-- A move does not change which operations fail. -/
theorem tracks_faults : (reading s).Tracks e (·.faults) (fun f _ => f) id :=
  tracks (fun _ => rfl) (fun _ _ _ => rfl) (fun _ => rfl) (fun _ _ _ _ => rfl) (fun _ => rfl)
    (fun _ => rfl)

/-- A move leaves a calm world calm, and does not calm one that is not. -/
theorem tracks_calm : (reading s).Tracks e (·.Calm e) (fun p _ => p) id :=
  tracks (fun _ => rfl) (fun _ _ _ => rfl) (fun _ => propext (calm_setEpoch rfl))
    (fun _ durable batch _ =>
      propext (calm_countCommit.trans (calm_setEpoch (refusal_commit durable batch _))))
    (fun _ => propext (calm_setEpoch rfl)) (fun _ => propext (calm_setEpoch rfl))

/-- A move does not change the archive. -/
theorem tracks_source : (reading s).Tracks e (·.source) (fun c _ => c) id :=
  tracks (fun _ => rfl) (fun _ _ _ => rfl) (fun _ => rfl) (fun _ _ _ _ => rfl) (fun _ => rfl)
    (fun _ => rfl)

/-- A move changes neither whether commits are refused nor when. -/
theorem tracks_refusal : (reading s).Tracks e (fun w => (w.epoch e).refusal) (fun r _ => r) id := by
  refine tracks (fun _ => rfl) (fun _ _ _ => rfl) ?_ ?_ ?_ ?_
  · intro w
    rw [epoch_setEpoch]
  · intro w durable batch _
    rw [epoch_countCommit, epoch_setEpoch, refusal_commit]
  · intro w
    rw [epoch_setEpoch]
    rfl
  · intro w
    rw [epoch_setEpoch]
    rfl

/-- A move is not cancelled unless it was or a cancellation is planned. -/
theorem tracks_live :
    (reading s).Tracks e (fun w => w.cancelled = false ∧ w.cancelAfter = none) (fun p _ => p)
      id :=
  tracks (fun _ => rfl) (fun _ _ _ => rfl) (fun _ => rfl)
    (fun _ _ _ _ => propext (live_countCommit _)) (fun _ => rfl) (fun _ => rfl)

/-- After a move, whatever its outcome, a store holds what it held before, overlaid with the pairs
that were committed. -/
theorem held_migrateEpoch (m : Migrator) (s : Source) (e : UInt32) (w : Rehearsal) :
    (m.migrateEpoch (reading s) e w).2.2.held e =
      (w.held e).overlay (committed (m.epochCalls (reading s) e w)) := by
  rw [← m.migrateEpoch_journaled (reading s) e ⟨w, []⟩]
  unfold Migrator.epochCalls
  rcases hrun : m.migrateEpoch (reading s).journaled e ⟨w, []⟩ with ⟨r, m', j⟩
  obtain ⟨-, hview⟩ | ⟨metadata, target, opened, done, rest, -, -, -, -, hview⟩ :=
    Migrator.view_migrateEpoch tracks_held.journaled hrun
  · have hheld : j.world.held e = w.held e := congrArg Prod.fst hview
    have hcommitted : committed j.calls = [] := congrArg Prod.snd hview
    simp only [hheld, hcommitted, Contents.overlay_nil]
  · have hheld : j.world.held e = (w.held e).overlay (done.flatMap Step.entries) :=
      congrArg Prod.fst hview
    have hcommitted : committed j.calls = done.flatMap Step.entries := congrArg Prod.snd hview
    simp only [hheld, hcommitted]

/-! ### Related rehearsals -/

/-- The store takes and holds the same pairs as the other. -/
structure SameRecords (t' t : MemoryStore) : Prop where
  contents : t'.contents = t.contents
  commits : t'.commits = t.commits
  refusal : t'.refusal = t.refusal

/-- Opening, compacting and closing the store of an epoch keep rehearsals related if putting stores
with the same records in place does.  Their outcome depends on the planned faults only. -/
lemma matches_of {related : Rehearsal → Rehearsal → Prop}
    (hcancelled : ∀ {w' w}, related w' w → w'.cancelled = w.cancelled)
    (hfaults : ∀ {w' w}, related w' w → w'.faults = w.faults)
    (hset : ∀ {w' w t' t}, related w' w → SameRecords t' (w'.epoch e) → SameRecords t (w.epoch e) →
      related (w'.setEpoch e t') (w.setEpoch e t)) :
    (reading s).Matches e related (fun t' t => t' = epochTarget e ∧ t = epochTarget e)
      (reading s) where
  source _ := rfl
  cancelled h := hcancelled h
  now _ := rfl
  openEpoch {w' w} h := by
    cases hopens : w.faults.onOpen.contains e with
    | true =>
        refine .inl ⟨.openFailed (toString e) injected, w', w, ?_, ?_, h⟩
        · simp only [reading, site, openEpoch, hfaults h, hopens, if_true]
        · simp only [reading, site, openEpoch, hopens, if_true]
    | false =>
        refine .inr ⟨epochTarget e, epochTarget e, w'.setEpoch e (w'.epoch e),
          w.setEpoch e (w.epoch e), ?_, ?_, ⟨rfl, rfl⟩, hset h ⟨rfl, rfl, rfl⟩ ⟨rfl, rfl, rfl⟩⟩
        · simp only [reading, site, openEpoch, hfaults h, hopens, Bool.false_eq_true, if_false]
        · simp only [reading, site, openEpoch, hopens, Bool.false_eq_true, if_false]
  compact := by
    rintro t' t w' w ⟨rfl, rfl⟩ h
    simp only [epochTarget, hfaults h]
    split
    · exact ⟨rfl, h⟩
    · exact ⟨rfl, hset h ⟨rfl, rfl, rfl⟩ ⟨rfl, rfl, rfl⟩⟩
  close := by
    rintro t' t w' w ⟨rfl, rfl⟩ h
    simp only [epochTarget, hfaults h]
    exact ⟨rfl, hset h ⟨rfl, rfl, rfl⟩ ⟨rfl, rfl, rfl⟩⟩

/-! ### The archive of a rehearsal -/

/-- Carrying out a plan in a calm world meets no obstacle but the faults of the plan. -/
lemma calm_channel (m : Migrator) (s : Source) (e : UInt32) (faults : PlannedFaults) :
    (m.channel (reading s) (epochTarget e) "").Calm fun w => w.Calm e ∧ w.faults = faults where
  commit batch w hw := by
    obtain ⟨w', hcommit, hcalm, hfaults⟩ := commit_of_calm hw.1 true batch
    exact ⟨w', hcommit, hcalm, hfaults.trans hw.2⟩
  cancelled hw := hw.1.live

/-- The stores of a rehearsal, opened in worlds with a given archive. -/
private def Same (c : Contents) (w' w : Rehearsal) : Prop := w' = w ∧ w.source = c

private lemma same_of_eq {ρ : Type} {c : Contents} {x y : ρ × Rehearsal} (h : x = y)
    (hs : y.2.source = c) : Alike (Same c) x y :=
  ⟨congrArg Prod.fst h, congrArg Prod.snd h, hs⟩

private lemma matches_reading (c : Contents) (e : UInt32) :
    site.Matches e (Same c) (fun t' t => t' = t ∧ t = epochTarget e) (reading (.ofContents c)) where
  source := by
    rintro w' w ⟨rfl, hs⟩
    exact congrArg Source.ofContents hs
  cancelled h := congrArg cancelled h.1
  now _ := rfl
  openEpoch := by
    rintro w' w ⟨rfl, hs⟩
    rcases hopen : openEpoch e w' with ⟨fault | target, u⟩
    · exact .inl ⟨fault, u, u, hopen, hopen, rfl,
        (tracks_source (s := .ofContents c)).openEpoch hopen |>.trans hs⟩
    · refine .inr ⟨target, target, u, u, hopen, hopen, ⟨rfl, (openEpoch_eq_ok hopen).1⟩, rfl,
        (tracks_source (s := .ofContents c)).openEpoch hopen |>.trans hs⟩
  compact := by
    rintro t' t w' w ⟨rfl, rfl⟩ ⟨rfl, hs⟩
    refine same_of_eq rfl ?_
    simp only [epochTarget]
    split <;> exact hs
  close := by
    rintro t' t w' w ⟨rfl, rfl⟩ ⟨rfl, hs⟩
    exact same_of_eq rfl hs

/-- A rehearsal reads the archive that its world holds. -/
theorem migrateEpoch_site (m : Migrator) (e : UInt32) (w : Rehearsal) :
    m.migrateEpoch site e w = m.migrateEpoch (reading (.ofContents w.source)) e w := by
  have hwrite : Migrator.WritesAlike (Same w.source) (fun t' t => t' = t ∧ t = epochTarget e) site
      (reading (.ofContents w.source)) m m := by
    rintro metadata t' t u' u ⟨rfl, rfl⟩ ⟨rfl, hs⟩
    have heq : m.writeEpoch site metadata (epochTarget e) u' =
        m.writeEpoch (reading (.ofContents w.source)) metadata (epochTarget e) u' := by
      rw [Migrator.writeEpoch, Migrator.writeEpoch]
      simp only [reading, site, ← hs]
      rfl
    refine same_of_eq heq ?_
    obtain ⟨-, -, hview⟩ := Channel.view_perform
      (c := m.channel (reading (.ofContents w.source)) (epochTarget e) "")
      (target_tracks (tracks_source (s := .ofContents w.source))) (Prod.eta _).symm
    exact hview.trans hs
  obtain ⟨hout, hstate, hreport, hworld, -⟩ := Migrator.migrateEpoch_alike
    (matches_reading w.source e) ⟨rfl, rfl, rfl⟩ rfl rfl hwrite ⟨rfl, rfl⟩
  refine Prod.ext hout (Prod.ext ?_ hworld)
  rw [Migrator.migrateEpoch_keeps, hstate, hreport, ← Migrator.migrateEpoch_keeps]

/-! ### A small rehearsal -/

/-- An archive with a single epoch of two ticks. -/
def sampleArchive : Contents :=
  SampleArchive.ofItems [.epoch { epoch := 5, ranges := [⟨10, 11⟩], transactionsPerTick := 0 }]

/-- A world with this archive and without stores. -/
def sample : Rehearsal := { source := sampleArchive }

/-- A migrator of this archive. -/
def sampleMigrator : Migrator := .fresh site { batchSize := 2 } sample

/-! ### A rehearsal with transactions -/

/-- Tick data with a single id, stored under a tick and naming a tick. -/
def tickItem (tick named : UInt32) (txId : String) : SampleArchive.Item :=
  let data : Legacy.TickData := { epoch := 5, tickNumber := named, transactionIds := [txId] }
  .put (Key.word .tickData tick, Wire.encode data)

/-- A transaction and its status, stored under an id and naming an id. -/
def transactionItems (txId named : String) : List SampleArchive.Item :=
  let t : Legacy.Transaction := { txId := named }
  let status : Legacy.TransactionStatus := { txId := named }
  [.put (Key.text .transaction txId, Wire.encode t),
    .put (Key.text .transactionStatus txId, Wire.encode status)]

/-- An archive with an epoch of three ticks.  The first tick data name a given tick, and what is
stored under the last id names a given id. -/
def threeTicks (named : UInt32) (txId : String) : Rehearsal where
  source := SampleArchive.ofItems <|
    [.epoch { epoch := 5, ranges := [⟨10, 12⟩], transactionsPerTick := 0 },
      tickItem 10 named "a", tickItem 11 11 "b", tickItem 12 12 "c"] ++
    transactionItems "a" "a" ++ transactionItems "b" "b" ++ transactionItems "c" txId

end EpochSplit.Rehearsal
