import EpochSplit.Proofs.Migrator.Alike
import EpochSplit.Proofs.Migrator.Tracking
/-!
# Journals

A journal notes each call to the stores of epochs together with its outcome.  Keeping one changes
nothing about a move (`migrateEpoch_journaled`), so that it can be asked what a move did: the pairs
that it committed are those in the batches that its journal says were accepted.
-/

namespace EpochSplit

variable {σ α : Type}

/-- A call to the store of an epoch, with its outcome. -/
inductive Call where
  | opened (epoch : UInt32) (result : Except StoreFault Unit)
  | commit (batch : List Entry) (result : Except StoreFault Unit)
  | compact (result : Except StoreFault Unit)
  | close (result : Except StoreFault Unit)

/-- The pairs that a call commits. -/
def Call.accepted : Call → List Entry
  | commit batch (.ok ()) => batch
  | _ => []

/-- The pairs that calls commit, in order. -/
def committed (calls : List Call) : List Entry := calls.flatMap Call.accepted

lemma committed_concat (calls : List Call) (call : Call) :
    committed (calls ++ [call]) = committed calls ++ call.accepted := by
  simp [committed]

/-- A world, and the calls that were made in it. -/
structure Journal (σ : Type) where
  world : σ
  calls : List Call := []

/-- Notes a call. -/
def Journal.note (j : Journal σ) (call : Except StoreFault Unit → Call)
    (answer : Except StoreFault Unit × σ) : Except StoreFault Unit × Journal σ :=
  (answer.1, ⟨answer.2, j.calls ++ [call answer.1]⟩)

/-- The store, noting the calls. -/
def Target.journaled (t : Target σ) : Target (Journal σ) where
  commit durable batch j := j.note (.commit batch) (t.commit durable batch j.world)
  compact j := j.note .compact (t.compact j.world)
  close j := j.note .close (t.close j.world)

/-- The site, noting the calls to the stores of epochs. -/
def Site.journaled (site : Site σ) : Site (Journal σ) where
  source j := site.source j.world
  openEpoch epoch j :=
    match site.openEpoch epoch j.world with
    | (.ok target, world) =>
        (.ok target.journaled, ⟨world, j.calls ++ [.opened epoch (.ok ())]⟩)
    | (.error fault, world) => (.error fault, ⟨world, j.calls ++ [.opened epoch (.error fault)]⟩)
  cancelled j := site.cancelled j.world
  now j := site.now j.world

/-- The calls that moving an epoch makes. -/
def Migrator.epochCalls (m : Migrator) (site : Site σ) (epoch : UInt32) (world : σ) : List Call :=
  (m.migrateEpoch site.journaled epoch { world }).2.2.calls

/-! ### A journal changes nothing -/

section Erasure

variable {site : Site σ} {m : Migrator} {epoch : UInt32}

lemma openEpoch_journaled_ok {j : Journal σ} {target : Target σ} {world : σ}
    (h : site.openEpoch epoch j.world = (.ok target, world)) :
    site.journaled.openEpoch epoch j =
      (.ok target.journaled, ⟨world, j.calls ++ [.opened epoch (.ok ())]⟩) := by
  simp only [Site.journaled, h]

lemma openEpoch_journaled_error {j : Journal σ} {fault : StoreFault} {world : σ}
    (h : site.openEpoch epoch j.world = (.error fault, world)) :
    site.journaled.openEpoch epoch j =
      (.error fault, ⟨world, j.calls ++ [.opened epoch (.error fault)]⟩) := by
  simp only [Site.journaled, h]

lemma openEpoch_journaled_eq_ok {j j' : Journal σ} {target' : Target (Journal σ)}
    (h : site.journaled.openEpoch epoch j = (.ok target', j')) :
    ∃ target, site.openEpoch epoch j.world = (.ok target, j'.world) ∧
      target' = target.journaled := by
  rcases hopen : site.openEpoch epoch j.world with ⟨fault | target, world⟩
  · rw [openEpoch_journaled_error hopen] at h
    cases h
  · rw [openEpoch_journaled_ok hopen] at h
    cases h
    exact ⟨target, rfl, rfl⟩

lemma matches_journaled (site : Site σ) (epoch : UInt32) :
    site.journaled.Matches epoch (·.world = ·)
      (fun target' target => target' = target.journaled) site where
  source := by
    rintro j _ rfl
    rfl
  cancelled := by
    rintro j _ rfl
    rfl
  now := by
    rintro j _ rfl
    rfl
  openEpoch := by
    rintro j _ rfl
    rcases hopen : site.openEpoch epoch j.world with ⟨fault | target, world⟩
    · exact .inl ⟨fault, _, world, openEpoch_journaled_error hopen, rfl, rfl⟩
    · exact .inr ⟨target.journaled, target, _, world, openEpoch_journaled_ok hopen, rfl, rfl, rfl⟩
  compact := by
    rintro _ target j _ rfl rfl
    exact ⟨rfl, rfl⟩
  close := by
    rintro _ target j _ rfl rfl
    exact ⟨rfl, rfl⟩

/-- A move of which a journal is kept goes as it goes without. -/
theorem Migrator.migrateEpoch_journaled (m : Migrator) (site : Site σ) (epoch : UInt32)
    (j : Journal σ) :
    ((m.migrateEpoch site.journaled epoch j).1, (m.migrateEpoch site.journaled epoch j).2.1,
        (m.migrateEpoch site.journaled epoch j).2.2.world) =
      m.migrateEpoch site epoch j.world := by
  refine migrateEpoch_erased (matches_journaled site epoch) ?_ m j
  rintro _ target rfl durable batch j
  exact ⟨rfl, rfl⟩

end Erasure

/-! ### What a journal says -/

/-- A view of the world together with what was committed. -/
def Journal.observe (view : σ → α) (j : Journal σ) : α × List Entry :=
  (view j.world, committed j.calls)

/-- What is committed can be told together with any view of the world. -/
theorem Site.Tracks.journaled {site : Site σ} {epoch : UInt32} {view : σ → α}
    {act : α → List Entry → α} {shut : α → α} (ht : site.Tracks epoch view act shut) :
    site.journaled.Tracks epoch (Journal.observe view)
      (fun p batch => (act p.1 batch, p.2 ++ batch)) (Prod.map shut id) where
  openEpoch {j r j'} h := by
    rcases hopen : site.openEpoch epoch j.world with ⟨fault | target, world⟩
    · rw [openEpoch_journaled_error hopen] at h
      cases h
      exact Prod.ext (ht.openEpoch hopen) ((committed_concat _ _).trans (List.append_nil _))
    · rw [openEpoch_journaled_ok hopen] at h
      cases h
      exact Prod.ext (ht.openEpoch hopen) ((committed_concat _ _).trans (List.append_nil _))
  target {j target' j'} h := by
    obtain ⟨target, hopen, rfl⟩ := openEpoch_journaled_eq_ok h
    have htarget := ht.target hopen
    refine ⟨?_, ?_, ?_, ?_⟩
    · rintro ⟨a, entries⟩
      exact Prod.ext (htarget.act_nil a) (List.append_nil entries)
    · rintro ⟨a, entries⟩ batch more
      exact Prod.ext (htarget.act_append a batch more) (List.append_assoc _ _ _).symm
    · intro durable batch j j' hc
      rcases hcommit : target.commit durable batch j.world with ⟨r, world'⟩
      simp only [Target.journaled, Journal.note, hcommit] at hc
      cases hc
      exact Prod.ext (htarget.commit_ok hcommit) (committed_concat _ _)
    · intro durable batch j j' fault hc
      rcases hcommit : target.commit durable batch j.world with ⟨r, world'⟩
      simp only [Target.journaled, Journal.note, hcommit] at hc
      cases hc
      exact Prod.ext (htarget.commit_error hcommit)
        ((committed_concat _ _).trans (List.append_nil _))
  compact {j target' j'} h reached := by
    obtain ⟨target, hopen, rfl⟩ := openEpoch_journaled_eq_ok h
    exact Prod.ext (ht.compact hopen reached.world)
      ((committed_concat _ _).trans (List.append_nil _))
  close {j target' j'} h reached := by
    obtain ⟨target, hopen, rfl⟩ := openEpoch_journaled_eq_ok h
    exact Prod.ext (ht.close hopen reached.world) ((committed_concat _ _).trans (List.append_nil _))

namespace Migrator

variable {site : Site σ} {m : Migrator} {epoch : UInt32} {world : σ}

/-- A view that sees nothing lets a journal speak for itself. -/
lemma tracks_committed (site : Site σ) (epoch : UInt32) :
    site.journaled.Tracks epoch (Journal.observe fun _ => ())
      (fun p batch => ((), p.2 ++ batch)) (Prod.map id id) := by
  have hblind : site.Tracks epoch (fun _ => ()) (fun _ _ => ()) id :=
    ⟨fun _ => rfl, fun _ => ⟨fun _ => rfl, fun _ _ _ => rfl, fun _ => rfl, fun _ => rfl⟩,
      fun _ _ => rfl, fun _ _ => rfl⟩
  exact hblind.journaled

/-- What a move commits is what some first steps of the plan write. -/
theorem committed_epochCalls (m : Migrator) (site : Site σ) (epoch : UInt32) (world : σ) :
    committed (m.epochCalls site epoch world) = [] ∨
      ∃ metadata target opened done rest,
        m.metadata.get? epoch = some metadata ∧
        site.openEpoch epoch world = (.ok target, opened) ∧
        m.epochSteps (site.source opened) metadata = done ++ rest ∧
        committed (m.epochCalls site epoch world) = done.flatMap Step.entries := by
  unfold epochCalls
  rcases hrun : m.migrateEpoch site.journaled epoch { world } with ⟨r, m', j⟩
  obtain ⟨-, hview⟩ | ⟨metadata, target', opened, done, rest, hmd, hopen, hsteps, -, hview⟩ :=
    view_migrateEpoch (tracks_committed site epoch) hrun
  · exact .inl (congrArg Prod.snd hview)
  · obtain ⟨target, hopen, -⟩ := openEpoch_journaled_eq_ok hopen
    exact .inr ⟨metadata, target, opened.world, done, rest, hmd, hopen, hsteps,
      congrArg Prod.snd hview⟩

/-- A move that succeeds commits all that there is to write for the epoch, in order. -/
theorem committed_epochCalls_of_ok (h : (m.migrateEpoch site epoch world).1 = .ok ()) :
    ∃ metadata target opened,
      m.metadata.get? epoch = some metadata ∧
      site.openEpoch epoch world = (.ok target, opened) ∧
      m.epochFault? (site.source opened) metadata = none ∧
      committed (m.epochCalls site epoch world) = m.epochEntries (site.source opened) metadata := by
  rw [← migrateEpoch_journaled m site epoch { world }] at h
  unfold epochCalls
  rcases hrun : m.migrateEpoch site.journaled epoch { world } with ⟨r, m', j⟩
  rw [hrun] at h
  cases h
  obtain ⟨metadata, target', opened, hmd, hopen, hsound, hview⟩ :=
    view_migrateEpoch_ok (tracks_committed site epoch) hrun
  obtain ⟨target, hopen, -⟩ := openEpoch_journaled_eq_ok hopen
  exact ⟨metadata, target, opened.world, hmd, hopen, hsound, congrArg Prod.snd hview⟩

end Migrator

end EpochSplit
