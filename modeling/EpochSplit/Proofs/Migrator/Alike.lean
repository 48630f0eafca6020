import EpochSplit.Proofs.Migrator.Phases
/-!
# Runs that are alike

Two migrators that move the same epoch reach stores in different ways, or cut the streams into
batches of different sizes.  If the worlds that they act on are related and each operation keeps
them related with the same outcome, then so does the whole move (`migrateEpoch_alike`).  What is
said about commits is said once, about the writing of all streams together, since batches need not
correspond to each other one by one.

Where they do, a site may keep notes on the side: a move goes as it goes without the notes
(`migrateEpoch_erased`).
-/

namespace EpochSplit

/-- The same outcome in related worlds. -/
structure Alike {τ σ ρ : Type} (related : τ → σ → Prop) (x : ρ × τ) (y : ρ × σ) : Prop where
  outcome : x.1 = y.1
  worlds : related x.2 y.2

/-- Migrators that write the same records of an epoch, perhaps in batches of different sizes. -/
structure Migrator.SameTask (m' m : Migrator) : Prop where
  metadata : m'.metadata = m.metadata
  threshold : m'.settings.signatureEpochThreshold = m.settings.signatureEpochThreshold
  compaction : m'.settings.compactAfterMigrate = m.settings.compactAfterMigrate

/-- The migrator with another size of batches. -/
def Migrator.withBatchSize (m : Migrator) (batchSize : UInt64) : Migrator :=
  { m with settings.batchSize := batchSize }

/-- Sites whose operations on the store of an epoch keep worlds related, commits aside.  The stores
themselves are paired when they are opened. -/
structure Site.Matches {τ σ : Type} (epoch : UInt32) (related : τ → σ → Prop)
    (paired : Target τ → Target σ → Prop) (site' : Site τ) (site : Site σ) : Prop where
  source : ∀ {w' w}, related w' w → site'.source w' = site.source w
  cancelled : ∀ {w' w}, related w' w → site'.cancelled w' = site.cancelled w
  now : ∀ {w' w}, related w' w → site'.now w' = site.now w
  openEpoch : ∀ {w' w}, related w' w →
    (∃ fault u' u, site'.openEpoch epoch w' = (.error fault, u') ∧
      site.openEpoch epoch w = (.error fault, u) ∧ related u' u) ∨
    (∃ t' t u' u, site'.openEpoch epoch w' = (.ok t', u') ∧
      site.openEpoch epoch w = (.ok t, u) ∧ paired t' t ∧ related u' u)
  compact : ∀ {t' t w' w}, paired t' t → related w' w →
    Alike related (t'.compact w') (t.compact w)
  close : ∀ {t' t w' w}, paired t' t → related w' w → Alike related (t'.close w') (t.close w)

namespace Migrator

variable {τ σ : Type} {epoch : UInt32} {related : τ → σ → Prop}
  {paired : Target τ → Target σ → Prop} {site' : Site τ} {site : Site σ} {m' m : Migrator}

/-- Carrying out the plan of an epoch keeps worlds related with the same outcome. -/
def WritesAlike (related : τ → σ → Prop) (paired : Target τ → Target σ → Prop) (site' : Site τ)
    (site : Site σ) (m' m : Migrator) : Prop :=
  ∀ metadata {t' t w' w}, paired t' t → related w' w →
    Alike related (m'.writeEpoch site' metadata t' w') (m.writeEpoch site metadata t w)

lemma settle_alike (hs : site'.Matches epoch related paired site) (hm : m'.SameTask m)
    (report : EpochReport) {t' : Target τ} {t : Target σ} {w' : τ} {w : σ} (ht : paired t' t)
    (hw : related w' w) : Alike related (m'.settle t' report w') (m.settle t report w) := by
  unfold settle
  rw [hm.compaction]
  split
  · obtain ⟨hout, hrel⟩ := hs.compact ht hw
    rcases hc' : t'.compact w' with ⟨r', u'⟩
    rcases hc : t.compact w with ⟨r, u⟩
    rw [hc', hc] at hout hrel
    cases hout
    cases r' with
    | error fault => exact ⟨rfl, hrel⟩
    | ok _ => exact ⟨rfl, hrel⟩
  · exact ⟨rfl, hw⟩

lemma fillEpoch_alike (hs : site'.Matches epoch related paired site) (hm : m'.SameTask m)
    (hwrite : WritesAlike related paired site' site m' m) (metadata : EpochMetadata)
    (report : EpochReport) {t' : Target τ} {t : Target σ} {w' : τ} {w : σ} (ht : paired t' t)
    (hw : related w' w) :
    Alike related (m'.fillEpoch site' metadata t' report w')
      (m.fillEpoch site metadata t report w) := by
  obtain ⟨hout, hrel⟩ := hwrite metadata ht hw
  rcases hp' : m'.writeEpoch site' metadata t' w' with ⟨r', u'⟩
  rcases hp : m.writeEpoch site metadata t w with ⟨r, u⟩
  rw [hp', hp] at hout hrel
  cases hout
  cases r' with
  | error e =>
      rw [fillEpoch_of_error hp', fillEpoch_of_error hp]
      exact ⟨rfl, hrel⟩
  | ok _ =>
      have hcounted : m'.counted (site'.source w') metadata report =
          m.counted (site.source w) metadata report := by
        simp only [counted, hs.source hw, hm.threshold]
      rw [fillEpoch_of_ok hp', fillEpoch_of_ok hp, hcounted]
      exact settle_alike hs hm _ ht hrel

lemma runEpoch_alike (hs : site'.Matches epoch related paired site) (hm : m'.SameTask m)
    (hwrite : WritesAlike related paired site' site m' m) {w' : τ} {w : σ} (hw : related w' w) :
    Alike related (m'.runEpoch site' epoch w') (m.runEpoch site epoch w) := by
  cases hmd : m.metadata.get? epoch with
  | none =>
      rw [runEpoch_of_unknown hmd, runEpoch_of_unknown (hm.metadata ▸ hmd)]
      exact ⟨rfl, hw⟩
  | some metadata =>
      have hmd' : m'.metadata.get? epoch = some metadata := hm.metadata ▸ hmd
      obtain ⟨fault, u', u, ho', ho, hu⟩ | ⟨t', t, u', u, ho', ho, ht, hu⟩ := hs.openEpoch hw
      · rw [runEpoch_of_unopened hmd' ho', runEpoch_of_unopened hmd ho]
        exact ⟨rfl, hu⟩
      · -- both reports start from the time at which the store was opened
        obtain ⟨hfout, hfrel⟩ := fillEpoch_alike hs hm hwrite metadata
          { epoch, startedAt := site'.now u' } ht hu
        rw [hs.now hu] at hfout hfrel
        rcases hf' : m'.fillEpoch site' metadata t' { epoch, startedAt := site.now u } u' with
          ⟨filled', v'⟩
        rcases hf : m.fillEpoch site metadata t { epoch, startedAt := site.now u } u with
          ⟨filled, v⟩
        rw [hf', hf] at hfout hfrel
        obtain ⟨hcout, hcrel⟩ := hs.close ht hfrel
        rcases hc' : t'.close v' with ⟨closed', x'⟩
        rcases hc : t.close v with ⟨closed, x⟩
        rw [hc', hc] at hcout hcrel
        rw [← hs.now hu] at hf'
        rw [runEpoch_of_opened hmd' ho' hf' hc', runEpoch_of_opened hmd ho hf hc]
        exact ⟨congrArg₂ afterClose hfout hcout, hcrel⟩

/-- Moves that are alike have the same outcome, leave the migrators in the same state with the same
report, and leave the worlds related. -/
theorem migrateEpoch_alike (hs : site'.Matches epoch related paired site) (hm : m'.SameTask m)
    (hstate : m'.state = m.state) (hreport : m'.report = m.report)
    (hwrite : WritesAlike related paired site' site m' m) {w' : τ} {w : σ} (hw : related w' w) :
    (m'.migrateEpoch site' epoch w').1 = (m.migrateEpoch site epoch w).1 ∧
      (m'.migrateEpoch site' epoch w').2.1.state = (m.migrateEpoch site epoch w).2.1.state ∧
      (m'.migrateEpoch site' epoch w').2.1.report = (m.migrateEpoch site epoch w).2.1.report ∧
      related (m'.migrateEpoch site' epoch w').2.2 (m.migrateEpoch site epoch w).2.2 := by
  cases hready : m.state.canMigrate with
  | false =>
      rw [migrateEpoch_of_unready hready, migrateEpoch_of_unready (hstate ▸ hready)]
      exact ⟨by rw [invalidState, invalidState, hstate], hstate, hreport, hw⟩
  | true =>
      have hready' : m'.state.canMigrate = true := hstate ▸ hready
      cases hlive : site.cancelled w with
      | true =>
          rw [migrateEpoch_of_cancelled hready hlive,
            migrateEpoch_of_cancelled hready' ((hs.cancelled hw).trans hlive), hreport]
          exact ⟨rfl, rfl, hreport, hw⟩
      | false =>
          have hlive' : site'.cancelled w' = false := (hs.cancelled hw).trans hlive
          obtain ⟨hout, hrel⟩ := runEpoch_alike hs hm hwrite hw
          rcases hr' : m'.runEpoch site' epoch w' with ⟨r', u'⟩
          rcases hr : m.runEpoch site epoch w with ⟨r, u⟩
          rw [hr', hr] at hout hrel
          cases hout
          cases r' with
          | error e =>
              rw [migrateEpoch_of_run_error hready hlive hr,
                migrateEpoch_of_run_error hready' hlive' hr', hs.now hrel, hreport]
              exact ⟨rfl, rfl, rfl, hrel⟩
          | ok report =>
              rw [migrateEpoch_of_run_ok hready hlive hr,
                migrateEpoch_of_run_ok hready' hlive' hr', hs.now hrel, hreport]
              exact ⟨rfl, rfl, rfl, hrel⟩

/-- Of moves that are alike, what the migrators moved before makes no difference. -/
theorem outcome_alike (hs : site'.Matches epoch related paired site) (hm : m'.SameTask m)
    (hready' : m'.state.canMigrate = true) (hready : m.state.canMigrate = true)
    (hwrite : WritesAlike related paired site' site m' m) {w' : τ} {w : σ} (hw : related w' w)
    (hlive : site.cancelled w = false) :
    Alike related
      ((m'.migrateEpoch site' epoch w').1, (m'.migrateEpoch site' epoch w').2.2)
      ((m.migrateEpoch site epoch w).1, (m.migrateEpoch site epoch w).2.2) := by
  have hlive' : site'.cancelled w' = false := (hs.cancelled hw).trans hlive
  obtain ⟨hout, hrel⟩ := runEpoch_alike hs hm hwrite hw
  rcases hr' : m'.runEpoch site' epoch w' with ⟨r', u'⟩
  rcases hr : m.runEpoch site epoch w with ⟨r, u⟩
  rw [hr', hr] at hout hrel
  cases hout
  cases r' with
  | error e =>
      rw [migrateEpoch_of_run_error hready hlive hr, migrateEpoch_of_run_error hready' hlive' hr']
      exact ⟨rfl, hrel⟩
  | ok report =>
      rw [migrateEpoch_of_run_ok hready hlive hr, migrateEpoch_of_run_ok hready' hlive' hr']
      exact ⟨rfl, hrel⟩

end Migrator

/-! ### The same batches -/

namespace Channel

variable {τ σ : Type} {related : τ → σ → Prop} {c' : Channel τ} {c : Channel σ}

lemma takeStep_alike
    (hcommit : ∀ batch {w' w}, related w' w →
      Alike related (c'.target.commit c'.durable batch w') (c.target.commit c.durable batch w))
    (hcancelled : ∀ {w' w}, related w' w → c'.cancelled w' = c.cancelled w) (s : Step) {w' : τ}
    {w : σ} (hw : related w' w) : Alike related (c'.takeStep s w') (c.takeStep s w) := by
  cases s with
  | commit doing batch =>
      obtain ⟨hout, hworld⟩ := hcommit batch hw
      simp only [takeStep]
      rcases hc' : c'.target.commit c'.durable batch w' with ⟨r', u'⟩
      rcases hc : c.target.commit c.durable batch w with ⟨r, u⟩
      rw [hc', hc] at hout hworld
      cases hout
      cases r' <;> exact ⟨rfl, hworld⟩
  | pause doing written =>
      simp only [takeStep, hcancelled hw]
      split <;> exact ⟨rfl, hw⟩
  | stop e => exact ⟨rfl, hw⟩

/-- Steps keep worlds related with the same outcome if commits do and the same cancellations are
noticed. -/
lemma perform_alike
    (hcommit : ∀ batch {w' w}, related w' w →
      Alike related (c'.target.commit c'.durable batch w') (c.target.commit c.durable batch w))
    (hcancelled : ∀ {w' w}, related w' w → c'.cancelled w' = c.cancelled w) (steps : List Step)
    {w' : τ} {w : σ} (hw : related w' w) :
    Alike related (c'.perform steps w') (c.perform steps w) := by
  induction steps generalizing w' w with
  | nil => exact ⟨rfl, hw⟩
  | cons s steps ih =>
      obtain ⟨hout, hworld⟩ := takeStep_alike hcommit hcancelled s hw
      rcases hs' : c'.takeStep s w' with ⟨r', u'⟩
      rcases hs : c.takeStep s w with ⟨r, u⟩
      rw [hs', hs] at hout hworld
      cases hout
      cases r' with
      | error e =>
          rw [perform_cons_error hs', perform_cons_error hs]
          exact ⟨rfl, hworld⟩
      | ok _ =>
          rw [perform_cons_ok hs', perform_cons_ok hs]
          exact ih hworld

end Channel

namespace Migrator

variable {τ σ : Type} {epoch : UInt32} {related : τ → σ → Prop}
  {paired : Target τ → Target σ → Prop} {site' : Site τ} {site : Site σ} {m' m : Migrator}

/-- With the same settings the same batches are written, so it is enough to look at a single one. -/
lemma writesAlike_of_commits (hs : site'.Matches epoch related paired site)
    (hsettings : m'.settings = m.settings)
    (hcommit : ∀ {t' t}, paired t' t → ∀ durable batch {w' w}, related w' w →
      Alike related (t'.commit durable batch w') (t.commit durable batch w)) :
    WritesAlike related paired site' site m' m := by
  intro metadata t' t w' w ht hw
  have hsteps : m'.epochSteps (site'.source w') metadata =
      m.epochSteps (site.source w) metadata := by
    rw [epochSteps, epochSteps, hsettings, hs.source hw]
  rw [writeEpoch, writeEpoch, hsteps]
  exact Channel.perform_alike (fun batch _ _ h => hcommit ht true batch h) hs.cancelled _ hw

/-! ### Notes on the side -/

variable {erase : τ → σ}

/-- Stores that are paired take the same batches with the same outcome. -/
def CommitsAlike (erase : τ → σ) (paired : Target τ → Target σ → Prop) : Prop :=
  ∀ {t' t}, paired t' t → ∀ durable batch w',
    Alike (erase · = ·) (t'.commit durable batch w') (t.commit durable batch (erase w'))

/-- A move of which notes are kept on the side goes as it goes without. -/
theorem migrateEpoch_erased (hs : site'.Matches epoch (erase · = ·) paired site)
    (hcommit : CommitsAlike erase paired) (m : Migrator) (w' : τ) :
    ((m.migrateEpoch site' epoch w').1, (m.migrateEpoch site' epoch w').2.1,
        erase (m.migrateEpoch site' epoch w').2.2) = m.migrateEpoch site epoch (erase w') := by
  have hwrite : WritesAlike (erase · = ·) paired site' site m m := by
    refine writesAlike_of_commits hs rfl ?_
    rintro t' t ht durable batch w' _ rfl
    exact hcommit ht durable batch w'
  obtain ⟨hout, hstate, hreport, hworld⟩ :=
    migrateEpoch_alike hs ⟨rfl, rfl, rfl⟩ rfl rfl hwrite (rfl : erase w' = erase w')
  refine Prod.ext hout (Prod.ext ?_ hworld)
  simp only
  rw [migrateEpoch_keeps, hstate, hreport, ← migrateEpoch_keeps]

end Migrator

end EpochSplit
