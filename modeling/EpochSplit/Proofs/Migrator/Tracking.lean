import EpochSplit.Proofs.Migrator.Phases
/-!
# What a move writes

A view of the world that changes only when a batch is accepted and when the store is closed tells
what a move wrote: whatever its outcome, that is what some first steps of the plan write, and all of
them if it succeeds (`view_migrateEpoch`).
-/

namespace EpochSplit

variable {σ α : Type}

/-- A view of the world that the store of an epoch changes only by accepting batches, as `act` says,
and by being closed, as `shut` says. -/
structure Site.Tracks (site : Site σ) (epoch : UInt32) (view : σ → α)
    (act : α → List Entry → α) (shut : α → α) : Prop where
  openEpoch : ∀ {world r world'}, site.openEpoch epoch world = (r, world') →
    view world' = view world
  target : ∀ {world target world'}, site.openEpoch epoch world = (.ok target, world') →
    target.Tracks view act
  compact : ∀ {world target world'}, site.openEpoch epoch world = (.ok target, world') →
    ∀ reached, view (target.compact reached).2 = view reached
  close : ∀ {world target world'}, site.openEpoch epoch world = (.ok target, world') →
    ∀ reached, view (target.close reached).2 = shut (view reached)

namespace Migrator

variable {site : Site σ} {m m' : Migrator} {epoch : UInt32} {view : σ → α}
  {act : α → List Entry → α} {shut : α → α}

/-- What a move does to a view, seen from the world that the store was written in. -/
lemma view_of_settled (ht : site.Tracks epoch view act shut) {target : Target σ}
    {world opened written reached : σ} (hopen : site.openEpoch epoch world = (.ok target, opened))
    (hsettled : reached = written ∨ reached = (target.compact written).2) :
    view (target.close reached).2 = shut (view written) := by
  rw [ht.close hopen]
  obtain rfl | rfl := hsettled
  · rfl
  · rw [ht.compact hopen]

/-- Whatever its outcome, a move writes what some first steps of the plan write, and all of them if
it succeeds. -/
theorem view_migrateEpoch (ht : site.Tracks epoch view act shut) {world world' : σ}
    {r : Except Error Unit} (h : m.migrateEpoch site epoch world = (r, m', world')) :
    (r.isOk = false ∧ view world' = view world) ∨
      ∃ metadata target opened done rest,
        m.metadata.get? epoch = some metadata ∧
        site.openEpoch epoch world = (.ok target, opened) ∧
        m.epochSteps (site.source opened) metadata = done ++ rest ∧ (r.isOk → rest = []) ∧
        view world' = shut (act (view world) (done.flatMap Step.entries)) := by
  have hcourse := m.migrateEpoch_course site epoch world
  rw [h] at hcourse
  generalize hsucceeded : r.isOk = succeeded at hcourse
  cases hcourse with
  | idle => exact .inl ⟨rfl, rfl⟩
  | unopened opening => exact .inl ⟨rfl, ht.openEpoch opening⟩
  | @moved metadata target opened written reached outcome _ known opening writing complete
      settling =>
      refine .inr ?_
      rw [view_of_settled ht opening settling, ← ht.openEpoch opening]
      cases outcome with
      | error e =>
          obtain ⟨done, ⟨rest, heq⟩, hview⟩ := Channel.view_perform (ht.target opening) writing
          exact ⟨metadata, target, opened, done, rest, known, opening, heq.symm,
            fun hok => (nomatch complete hok), congrArg shut hview⟩
      | ok _ =>
          exact ⟨metadata, target, opened, _, [], known, opening, (List.append_nil _).symm,
            fun _ => rfl, congrArg shut (Channel.view_perform_ok (ht.target opening) writing)⟩

/-- What neither batches nor closing change is as it was after a move. -/
lemma view_migrateEpoch_of_const (ht : site.Tracks epoch view (fun a _ => a) id) (m : Migrator)
    (world : σ) : view (m.migrateEpoch site epoch world).2.2 = view world := by
  rcases h : m.migrateEpoch site epoch world with ⟨r, m', world'⟩
  obtain ⟨-, hview⟩ | ⟨metadata, target, opened, done, rest, -, -, -, -, hview⟩ :=
    view_migrateEpoch ht h
  · exact hview
  · exact hview

/-- A move that succeeds writes all that there is to write for the epoch, in order. -/
theorem view_migrateEpoch_ok (ht : site.Tracks epoch view act shut) {world world' : σ}
    (h : m.migrateEpoch site epoch world = (.ok (), m', world')) :
    ∃ metadata target opened,
      m.metadata.get? epoch = some metadata ∧
      site.openEpoch epoch world = (.ok target, opened) ∧
      m.epochFault? (site.source opened) metadata = none ∧
      view world' = shut (act (view world) (m.epochEntries (site.source opened) metadata)) := by
  have hcourse := m.migrateEpoch_course site epoch world
  rw [h] at hcourse
  generalize hsucceeded : (Except.ok () : Except Error Unit).isOk = succeeded at hcourse
  cases hcourse with
  | idle => cases hsucceeded
  | unopened opening => cases hsucceeded
  | @moved metadata target opened written reached outcome _ known opening writing complete
      settling =>
      obtain rfl := complete hsucceeded.symm
      have hsound := epochFault?_of_write_ok writing
      refine ⟨metadata, target, opened, known, opening, hsound, ?_⟩
      rw [view_of_settled ht opening settling, Channel.view_perform_ok (ht.target opening) writing,
        ht.openEpoch opening, entries_epochSteps hsound]

end Migrator

end EpochSplit
