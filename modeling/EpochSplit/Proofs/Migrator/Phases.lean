import EpochSplit.Migrator
import EpochSplit.Proofs.Epoch.Job
import EpochSplit.Proofs.Metadata.Intervals
/-!
# The phases of moving an epoch

An epoch is moved in phases: its store is opened, the steps of its plan are taken, the store is
compacted if the settings say so, and it is closed.  The lemmas here say what each phase makes of
the outcome of the one before; nothing else has to look into `migrateEpoch`.
-/

namespace EpochSplit

/-! ### Metadata -/

lemma Source.keyed_metadata {s : Source} {metadata : StoreMetadata}
    (h : s.metadata = .ok metadata) : metadata.Keyed := by
  unfold Source.metadata at h
  simp only [bind, Except.bind] at h
  split at h
  · cases h
  · split at h
    · cases h
    · cases h
      exact StoreMetadata.keyed_ofList _

namespace Migrator

variable {σ : Type} {site : Site σ} {m : Migrator} {epoch : UInt32}

/-- The steps of carrying out the plan of an epoch. -/
def epochSteps (m : Migrator) (s : Source) (metadata : EpochMetadata) : List Step :=
  (epochPlan s metadata m.settings.signatureEpochThreshold).flatMap
    (EpochStream.steps m.settings.batchSize.toNat)

/-- All that is written for an epoch, in order. -/
def epochEntries (m : Migrator) (s : Source) (metadata : EpochMetadata) : List Entry :=
  (epochPlan s metadata m.settings.signatureEpochThreshold).flatMap EpochStream.entries

/-- The first fault that the archive has for an epoch. -/
def epochFault? (m : Migrator) (s : Source) (metadata : EpochMetadata) : Option Error :=
  (epochPlan s metadata m.settings.signatureEpochThreshold).findSome? EpochStream.fault?

/-- Takes the steps of the plan of an epoch. -/
def writeEpoch (m : Migrator) (site : Site σ) (metadata : EpochMetadata) (target : Target σ)
    (world : σ) : Except Error Unit × σ :=
  (m.channel site target "").perform (m.epochSteps (site.source world) metadata) world

/-- Compacts a store that was filled, if the settings say so. -/
def settle (m : Migrator) (target : Target σ) (report : EpochReport) (world : σ) :
    Except Error EpochReport × σ :=
  if m.settings.compactAfterMigrate then
    match target.compact world with
    | (.ok (), world) => (.ok { report with compacted := true }, world)
    | (.error fault, world) => (.error (.context "compacting target store" (.store fault)), world)
  else (.ok report, world)

/-- Of two failures the first counts. -/
def afterClose (filled : Except Error EpochReport) (closed : Except StoreFault Unit) :
    Except Error EpochReport :=
  match filled, closed with
  | .error e, _ => .error e
  | .ok _, .error fault => .error (.context "closing target store" (.store fault))
  | .ok report, .ok () => .ok report

/-! ### Steps, records and faults -/

lemma fault?_epochSteps (m : Migrator) (s : Source) (metadata : EpochMetadata) :
    (m.epochSteps s metadata).findSome? Step.fault? = m.epochFault? s metadata :=
  EpochStream.fault?_flatMap_steps _ _

lemma entries_epochSteps {s : Source} {metadata : EpochMetadata}
    (hsound : m.epochFault? s metadata = none) :
    (m.epochSteps s metadata).flatMap Step.entries = m.epochEntries s metadata :=
  EpochStream.entries_flatMap_steps _ hsound

/-- An epoch is written to its end only if the archive has no fault for it. -/
lemma epochFault?_of_write_ok {metadata : EpochMetadata} {target : Target σ} {world world' : σ}
    (h : m.writeEpoch site metadata target world = (.ok (), world')) :
    m.epochFault? (site.source world) metadata = none := by
  rw [← fault?_epochSteps]
  exact Channel.fault?_of_perform_ok h

/-! ### Filling a store -/

/-- What is reported once an epoch is written. -/
def counted (m : Migrator) (s : Source) (metadata : EpochMetadata) (report : EpochReport) :
    EpochReport :=
  report.addAll (EpochPlan.counts s metadata m.settings.signatureEpochThreshold)

/-- The job of an epoch takes the steps of its plan and reports what there is to count. -/
lemma follows_run_epochJob (m : Migrator) (s : Source) (site : Site σ) (metadata : EpochMetadata)
    (target : Target σ) (report : EpochReport) :
    ((m.epochJob s site metadata target).run report).Follows
      (m.channel site target "").perform (m.epochSteps s metadata)
      (· = m.counted s metadata report) :=
  (m.epochJob s site metadata target).follows_run report

lemma fillEpoch_of_error {metadata : EpochMetadata} {target : Target σ} {report : EpochReport}
    {world world' : σ} {e : Error}
    (h : m.writeEpoch site metadata target world = (.error e, world')) :
    m.fillEpoch site metadata target report world = (.error e, world') := by
  have hgoes := (m.follows_run_epochJob (site.source world) site metadata target report).goes world
  rw [writeEpoch] at h
  rw [h] at hgoes
  rw [fillEpoch]
  rcases hrun : (m.epochJob (site.source world) site metadata target).run report world with
    ⟨e' | report', world₁⟩
  · rw [hrun] at hgoes
    cases hgoes
    rfl
  · rw [hrun] at hgoes
    cases hgoes

lemma fillEpoch_of_ok {metadata : EpochMetadata} {target : Target σ} {report : EpochReport}
    {world world' : σ} (h : m.writeEpoch site metadata target world = (.ok (), world')) :
    m.fillEpoch site metadata target report world =
      m.settle target (m.counted (site.source world) metadata report) world' := by
  have hfollows := m.follows_run_epochJob (site.source world) site metadata target report
  have hgoes := hfollows.goes world
  rw [writeEpoch] at h
  rw [h] at hgoes
  rw [fillEpoch]
  rcases hrun : (m.epochJob (site.source world) site metadata target).run report world with
    ⟨e | report', world₁⟩
  · rw [hrun] at hgoes
    cases hgoes
  · rw [hrun] at hgoes
    cases hgoes
    rw [← hfollows.gives hrun]
    rfl

/-! ### Opening and closing it -/

lemma runEpoch_of_unknown {world : σ} (hmd : m.metadata.get? epoch = none) :
    m.runEpoch site epoch world = (.error (.consistency (.epochMetadataMissing epoch)), world) := by
  simp only [runEpoch, hmd]

lemma runEpoch_of_unopened {metadata : EpochMetadata} {fault : StoreFault} {world world' : σ}
    (hmd : m.metadata.get? epoch = some metadata)
    (hopen : site.openEpoch epoch world = (.error fault, world')) :
    m.runEpoch site epoch world =
      (.error (.context "opening target store" (.store fault)), world') := by
  simp only [runEpoch, hmd, hopen]

lemma runEpoch_of_opened {metadata : EpochMetadata} {target : Target σ}
    {world opened reached world' : σ} {filled : Except Error EpochReport}
    {closed : Except StoreFault Unit}
    (hmd : m.metadata.get? epoch = some metadata)
    (hopen : site.openEpoch epoch world = (.ok target, opened))
    (hfill : m.fillEpoch site metadata target { epoch, startedAt := site.now opened } opened =
      (filled, reached))
    (hclose : target.close reached = (closed, world')) :
    m.runEpoch site epoch world = (afterClose filled closed, world') := by
  simp only [runEpoch, hmd, hopen, hfill, hclose]
  rcases filled with _ | _ <;> rcases closed with _ | _ <;> rfl

/-- A store that was moved with success was opened, filled, settled and closed with success. -/
lemma runEpoch_eq_ok {world world' : σ} {report : EpochReport}
    (h : m.runEpoch site epoch world = (.ok report, world')) :
    ∃ metadata target opened written settled,
      m.metadata.get? epoch = some metadata ∧
      site.openEpoch epoch world = (.ok target, opened) ∧
      m.writeEpoch site metadata target opened = (.ok (), written) ∧
      m.settle target
        (m.counted (site.source opened) metadata { epoch, startedAt := site.now opened }) written =
          (.ok report, settled) ∧
      target.close settled = (.ok (), world') := by
  cases hmd : m.metadata.get? epoch with
  | none =>
      rw [runEpoch_of_unknown hmd] at h
      cases h
  | some metadata =>
      rcases hopen : site.openEpoch epoch world with ⟨fault | target, opened⟩
      · rw [runEpoch_of_unopened hmd hopen] at h
        cases h
      · rcases hwrite : m.writeEpoch site metadata target opened with ⟨e | ⟨⟩, written⟩
        · rcases hclose : target.close written with ⟨closed, closed'⟩
          rw [runEpoch_of_opened hmd hopen (fillEpoch_of_error hwrite) hclose] at h
          cases h
        · rcases hsettle : m.settle target
            (m.counted (site.source opened) metadata { epoch, startedAt := site.now opened })
              written with ⟨e | settledReport, settled⟩
          all_goals
            rcases hclose : target.close settled with ⟨_ | ⟨⟩, closed'⟩
            all_goals
              rw [runEpoch_of_opened hmd hopen ((fillEpoch_of_ok hwrite).trans hsettle) hclose] at h
              cases h
          exact ⟨metadata, target, opened, written, settled, rfl, rfl, hwrite, hsettle, hclose⟩

lemma settle_course (m : Migrator) (target : Target σ) (report : EpochReport) (world : σ) :
    (m.settle target report world).2 = world ∨
      (m.settle target report world).2 = (target.compact world).2 := by
  unfold settle
  split
  · rcases target.compact world with ⟨_ | ⟨⟩, world'⟩ <;> exact .inr rfl
  · exact .inl rfl

lemma eq_of_settle {target : Target σ} {report report' : EpochReport} {world world' : σ}
    (h : m.settle target report world = (.ok report', world')) :
    ∃ compacted, report' = { report with compacted } := by
  unfold settle at h
  split at h
  · split at h
    · cases h
      exact ⟨true, rfl⟩
    · cases h
  · cases h
    exact ⟨report.compacted, rfl⟩

/-- How the moving of an epoch goes in the world, and whether it succeeds: no store is opened, or
one is opened, written, perhaps compacted, and closed whatever happened. -/
inductive Course (m : Migrator) (site : Site σ) (epoch : UInt32) (world : σ) : Bool → σ → Prop
  | idle : Course m site epoch world false world
  | unopened {fault : StoreFault} {world' : σ}
      (opening : site.openEpoch epoch world = (.error fault, world')) :
      Course m site epoch world false world'
  | moved {metadata : EpochMetadata} {target : Target σ} {opened written reached : σ}
      {outcome : Except Error Unit} {succeeded : Bool}
      (known : m.metadata.get? epoch = some metadata)
      (opening : site.openEpoch epoch world = (.ok target, opened))
      (writing : m.writeEpoch site metadata target opened = (outcome, written))
      (complete : succeeded = true → outcome = .ok ())
      (settling : reached = written ∨ reached = (target.compact written).2) :
      Course m site epoch world succeeded (target.close reached).2

lemma runEpoch_course (m : Migrator) (site : Site σ) (epoch : UInt32) (world : σ) :
    m.Course site epoch world (m.runEpoch site epoch world).1.isOk
      (m.runEpoch site epoch world).2 := by
  cases hmd : m.metadata.get? epoch with
  | none =>
      rw [runEpoch_of_unknown hmd]
      exact .idle
  | some metadata =>
      rcases hopen : site.openEpoch epoch world with ⟨fault | target, opened⟩
      · rw [runEpoch_of_unopened hmd hopen]
        exact .unopened hopen
      · rcases hwrite : m.writeEpoch site metadata target opened with ⟨e | ⟨⟩, written⟩
        · rw [runEpoch_of_opened hmd hopen (fillEpoch_of_error hwrite) rfl]
          exact .moved hmd hopen hwrite (fun hok => absurd hok Bool.false_ne_true) (.inl rfl)
        · rw [runEpoch_of_opened hmd hopen (fillEpoch_of_ok hwrite) rfl]
          exact .moved hmd hopen hwrite (fun _ => rfl) (settle_course m target _ written)

/-! ### The state of the migrator -/

/-- A migrator that has loaded the metadata of the archive and has not done anything else. -/
def fresh (site : Site σ) (settings : Settings) (world : σ) : Migrator :=
  ((start site settings world).loadMetadata site world).2

lemma migrateEpoch_of_run_ok {world world' : σ} {report : EpochReport}
    (hready : m.state.canMigrate = true) (hlive : site.cancelled world = false)
    (hrun : m.runEpoch site epoch world = (.ok report, world')) :
    m.migrateEpoch site epoch world =
      (.ok (),
        { m with
          state := .done
          report := (m.report.touch (site.now world')).push (report.finish (site.now world')) },
        world') := by
  have hrun' : { m with state := .migrating epoch }.runEpoch site epoch world =
    (.ok report, world') := hrun
  simp only [migrateEpoch, hready, hlive, hrun', Bool.not_true, Bool.false_eq_true, if_false]

lemma migrateEpoch_of_run_error {world world' : σ} {e : Error}
    (hready : m.state.canMigrate = true) (hlive : site.cancelled world = false)
    (hrun : m.runEpoch site epoch world = (.error e, world')) :
    m.migrateEpoch site epoch world =
      (.error (.context s!"migrating epoch {epoch}" e),
        { m with report := m.report.touch (site.now world') }.fail epoch
          (.context s!"migrating epoch {epoch}" e),
        world') := by
  have hrun' : { m with state := .migrating epoch }.runEpoch site epoch world =
    (.error e, world') := hrun
  simp only [migrateEpoch, hready, hlive, hrun', Bool.not_true, Bool.false_eq_true, if_false]
  rfl

lemma migrateEpoch_of_unready {world : σ} (hready : m.state.canMigrate = false) :
    m.migrateEpoch site epoch world = (.error (m.invalidState "migrate epoch"), m, world) := by
  simp only [migrateEpoch, hready, Bool.not_false, if_true]

lemma migrateEpoch_of_cancelled {world : σ} (hready : m.state.canMigrate = true)
    (hcancelled : site.cancelled world = true) :
    m.migrateEpoch site epoch world =
      (.error (.run (.cancelled m.report.total)),
        m.fail epoch (.run (.cancelled m.report.total)), world) := by
  simp only [migrateEpoch, hready, hcancelled, Bool.not_true, Bool.false_eq_true, if_false, if_true]

/-- A move changes the state and the report of the migrator only. -/
theorem migrateEpoch_keeps (m : Migrator) (site : Site σ) (epoch : UInt32) (world : σ) :
    (m.migrateEpoch site epoch world).2.1 =
      { m with
        state := (m.migrateEpoch site epoch world).2.1.state
        report := (m.migrateEpoch site epoch world).2.1.report } := by
  cases hready : m.state.canMigrate with
  | false => rw [migrateEpoch_of_unready hready]
  | true =>
      cases hlive : site.cancelled world with
      | true =>
          rw [migrateEpoch_of_cancelled hready hlive]
          rfl
      | false =>
          rcases hrun : m.runEpoch site epoch world with ⟨e | report, world'⟩
          · rw [migrateEpoch_of_run_error hready hlive hrun]
            rfl
          · rw [migrateEpoch_of_run_ok hready hlive hrun]

/-- What is loaded about an epoch is about that epoch. -/
theorem keyed_fresh (site : Site σ) (settings : Settings) (world : σ) :
    (fresh site settings world).metadata.Keyed := by
  have hstart : (start site settings world).metadata.Keyed := StoreMetadata.keyed_empty
  unfold fresh loadMetadata
  split
  · exact hstart
  · rcases hmetadata : (site.source world).metadata with e | metadata
    · exact hstart
    · exact Source.keyed_metadata hmetadata

/-- Once it is ready, it knows what the archive knows. -/
lemma metadata_fresh {settings : Settings} {world : σ}
    (h : (fresh site settings world).state.canMigrate = true) :
    (site.source world).metadata = .ok (fresh site settings world).metadata := by
  unfold fresh loadMetadata at h ⊢
  have hidle : ¬(start site settings world).state ≠ .idle := fun hne => hne rfl
  rw [if_neg hidle] at h ⊢
  rcases hmetadata : (site.source world).metadata with e | metadata
  · rw [hmetadata] at h
    cases h
  · rfl

/-! ### Moves that succeed and moves that fail -/

lemma migrateEpoch_of_outcome {world : σ} {r : Except Error Unit}
    (h : (m.migrateEpoch site epoch world).1 = r) :
    m.migrateEpoch site epoch world =
      (r, (m.migrateEpoch site epoch world).2.1, (m.migrateEpoch site epoch world).2.2) := by
  rw [← h]

lemma canMigrate_of_ok {world : σ} (h : (m.migrateEpoch site epoch world).1 = .ok ()) :
    m.state.canMigrate = true := by
  cases hready : m.state.canMigrate with
  | true => rfl
  | false =>
      rw [migrateEpoch_of_unready hready] at h
      cases h

/-- A move whose writing fails closes the store all the same. -/
lemma migrateEpoch_of_write_error {metadata : EpochMetadata} {target : Target σ}
    {world opened reached world' : σ} {e : Error} {closed : Except StoreFault Unit}
    (hready : m.state.canMigrate = true) (hlive : site.cancelled world = false)
    (hmd : m.metadata.get? epoch = some metadata)
    (hopen : site.openEpoch epoch world = (.ok target, opened))
    (hwrite : m.writeEpoch site metadata target opened = (.error e, reached))
    (hclose : target.close reached = (closed, world')) :
    m.migrateEpoch site epoch world =
      (.error (.context s!"migrating epoch {epoch}" e),
        { m with report := m.report.touch (site.now world') }.fail epoch
          (.context s!"migrating epoch {epoch}" e),
        world') :=
  migrateEpoch_of_run_error hready hlive
    (runEpoch_of_opened hmd hopen (fillEpoch_of_error hwrite) hclose)

/-- A move succeeds if each phase does. -/
lemma migrateEpoch_of_phases {metadata : EpochMetadata} {target : Target σ}
    {report : EpochReport} {world opened written settled world' : σ}
    (hready : m.state.canMigrate = true) (hlive : site.cancelled world = false)
    (hmd : m.metadata.get? epoch = some metadata)
    (hopen : site.openEpoch epoch world = (.ok target, opened))
    (hwrite : m.writeEpoch site metadata target opened = (.ok (), written))
    (hsettle : m.settle target
      (m.counted (site.source opened) metadata { epoch, startedAt := site.now opened }) written =
        (.ok report, settled))
    (hclose : target.close settled = (.ok (), world')) :
    (m.migrateEpoch site epoch world).1 = .ok () := by
  rw [migrateEpoch_of_run_ok hready hlive
    (runEpoch_of_opened hmd hopen ((fillEpoch_of_ok hwrite).trans hsettle) hclose)]

/-- In a move that succeeds, each phase succeeds. -/
theorem migrateEpoch_eq_ok {m' : Migrator} {world world' : σ}
    (h : m.migrateEpoch site epoch world = (.ok (), m', world')) :
    ∃ metadata target opened written report settled,
      m.metadata.get? epoch = some metadata ∧
      site.openEpoch epoch world = (.ok target, opened) ∧
      m.writeEpoch site metadata target opened = (.ok (), written) ∧
      m.settle target
        (m.counted (site.source opened) metadata { epoch, startedAt := site.now opened }) written =
          (.ok report, settled) ∧
      target.close settled = (.ok (), world') ∧
      m.state.canMigrate = true ∧ site.cancelled world = false ∧
      m' = { m with
        state := .done
        report := (m.report.touch (site.now world')).push (report.finish (site.now world')) } := by
  cases hready : m.state.canMigrate with
  | false =>
      rw [migrateEpoch_of_unready hready] at h
      cases h
  | true =>
      cases hlive : site.cancelled world with
      | true =>
          rw [migrateEpoch_of_cancelled hready hlive] at h
          cases h
      | false =>
          rcases hrun : m.runEpoch site epoch world with ⟨e | report, world₁⟩
          · rw [migrateEpoch_of_run_error hready hlive hrun] at h
            cases h
          · rw [migrateEpoch_of_run_ok hready hlive hrun] at h
            cases h
            obtain ⟨metadata, target, opened, written, settled, hmd, hopen, hwrite, hsettle,
              hclose⟩ := runEpoch_eq_ok hrun
            exact ⟨metadata, target, opened, written, report, settled, hmd, hopen, hwrite, hsettle,
              hclose, rfl, rfl, rfl⟩

theorem migrateEpoch_course (m : Migrator) (site : Site σ) (epoch : UInt32) (world : σ) :
    m.Course site epoch world (m.migrateEpoch site epoch world).1.isOk
      (m.migrateEpoch site epoch world).2.2 := by
  cases hready : m.state.canMigrate with
  | false =>
      rw [migrateEpoch_of_unready hready]
      exact .idle
  | true =>
      cases hlive : site.cancelled world with
      | true =>
          rw [migrateEpoch_of_cancelled hready hlive]
          exact .idle
      | false =>
          have hrun := runEpoch_course m site epoch world
          rcases houtcome : m.runEpoch site epoch world with ⟨e | report, closed⟩
          · rw [migrateEpoch_of_run_error hready hlive houtcome]
            rwa [houtcome] at hrun
          · rw [migrateEpoch_of_run_ok hready hlive houtcome]
            rwa [houtcome] at hrun

end Migrator

end EpochSplit
