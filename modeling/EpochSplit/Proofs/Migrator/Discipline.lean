import EpochSplit.Proofs.Migrator.Cancellation
import EpochSplit.Proofs.Store.Rehearsal
/-!
# The calls to the store of an epoch

A store that was opened for an epoch is called in a fixed order, whatever fails and wherever: the
batches of the plan are committed one after the other, up to the first step that fails (`Taken`);
the store is compacted if the settings say so and nothing has failed so far; and it is closed once.
The error that is reported comes from the first of these that failed.
-/

namespace EpochSplit

variable {σ : Type}

/-! ### Steps that are taken -/

/-- The call that a step makes where it succeeds. -/
def Step.accepted? : Step → Option Call
  | commit _ batch => some (.commit batch (.ok ()))
  | _ => none

/-- How a step can fail: the calls that it has made then, and its error. -/
inductive Step.Fails (cancelled : σ → Bool) : Step → List Call → Error → Prop
  | refused {doing : List String} {batch : List Entry} {fault : StoreFault} :
      Fails cancelled (.commit doing batch) [.commit batch (.error fault)]
        (.within doing (.store fault))
  | noticed {doing : List String} {written : Nat} {world : σ} (h : cancelled world = true) :
      Fails cancelled (.pause doing written) [] (.within doing (.run (.cancelled written)))
  | stopped {e : Error} : Fails cancelled (.stop e) [] e

/-- The calls and the outcome of taking steps one after the other, up to the first that fails. -/
inductive Taken (cancelled : σ → Bool) (steps : List Step) : List Call → Except Error Unit → Prop
  | all (sound : steps.findSome? Step.fault? = none) :
      Taken cancelled steps (steps.filterMap Step.accepted?) (.ok ())
  | upTo {done : List Step} {s : Step} {rest : List Step} {calls : List Call} {e : Error}
      (split : steps = done ++ s :: rest) (sound : done.findSome? Step.fault? = none)
      (fails : s.Fails cancelled calls e) :
      Taken cancelled steps (done.filterMap Step.accepted? ++ calls) (.error e)

namespace Taken

variable {cancelled : σ → Bool} {steps : List Step} {s : Step} {calls : List Call}
  {outcome : Except Error Unit}

/-- One more step with success, in front. -/
lemma cons (hs : s.fault? = none) (h : Taken cancelled steps calls outcome) :
    Taken cancelled (s :: steps) (s.accepted?.toList ++ calls) outcome := by
  have hcalls : ∀ more : List Step, (s :: more).filterMap Step.accepted? =
      s.accepted?.toList ++ more.filterMap Step.accepted? := fun more => by
    rw [List.filterMap_cons]
    cases s.accepted? <;> rfl
  have hsound : ∀ more : List Step, more.findSome? Step.fault? = none →
      (s :: more).findSome? Step.fault? = none := fun more hmore => by
    rw [List.findSome?_cons, hs]
    exact hmore
  cases h with
  | all sound =>
      rw [← hcalls]
      exact .all (hsound _ sound)
  | upTo split sound fails =>
      subst split
      rw [← List.append_assoc, ← hcalls]
      exact .upTo rfl (hsound _ sound) fails

/-- The first step fails. -/
lemma head {e : Error} (h : s.Fails cancelled calls e) :
    Taken cancelled (s :: steps) calls (.error e) := by
  have hsplit : s :: steps = [] ++ s :: steps := rfl
  exact .upTo hsplit rfl h

lemma isCommit_of_accepted? {call : Call} (h : s.accepted? = some call) :
    call.isCommit = true ∧ ∀ batch fault, call ≠ .commit batch (.error fault) := by
  cases s with
  | commit doing batch =>
      cases h
      exact ⟨rfl, fun _ _ h => nomatch h⟩
  | pause | stop => cases h

/-- Steps make no calls but commits. -/
theorem isCommit (h : Taken cancelled steps calls outcome) :
    ∀ call ∈ calls, call.isCommit = true := by
  have haccepted : ∀ steps : List Step, ∀ call ∈ steps.filterMap Step.accepted?,
      call.isCommit = true := by
    intro steps call hcall
    obtain ⟨s, -, hs⟩ := List.mem_filterMap.1 hcall
    exact (isCommit_of_accepted? hs).1
  cases h with
  | all => exact haccepted _
  | upTo split sound fails =>
      intro call hcall
      obtain hcall | hcall := List.mem_append.1 hcall
      · exact haccepted _ _ hcall
      · cases fails with
        | refused =>
            rw [List.mem_singleton.1 hcall]
            rfl
        | noticed | stopped => cases hcall

/-- A commit that fails is the last, and its fault is what the writing fails with. -/
theorem refused_last (h : Taken cancelled steps calls outcome) {before after : List Call}
    {batch : List Entry} {fault : StoreFault}
    (hcalls : calls = before ++ .commit batch (.error fault) :: after) :
    after = [] ∧ ∃ e, outcome = .error e ∧ e.root = .store fault := by
  have haccepted : ∀ steps : List Step,
      .commit batch (.error fault) ∉ steps.filterMap Step.accepted? := by
    intro steps hcall
    obtain ⟨s, -, hs⟩ := List.mem_filterMap.1 hcall
    exact (isCommit_of_accepted? hs).2 _ _ rfl
  cases h with
  | all =>
      refine absurd ?_ (haccepted steps)
      rw [hcalls]
      exact List.mem_append_right _ (List.mem_cons_self ..)
  | @upTo done s rest calls e split sound fails =>
      obtain ⟨more, hdone, -⟩ | ⟨more, -, hmore⟩ := split_append hcalls
      · refine absurd ?_ (haccepted done)
        rw [hdone]
        exact List.mem_append_right _ (List.mem_cons_self ..)
      · cases fails with
        | refused =>
            obtain ⟨rfl, hcall⟩ | ⟨more, rfl, hrest⟩ := List.cons_eq_append_iff.1 hmore
            · cases hcall
              exact ⟨rfl, _, rfl, Error.root_within _ _⟩
            · cases (List.append_eq_nil_iff.1 hrest.symm).2
        | noticed | stopped => cases (List.append_eq_nil_iff.1 hmore.symm).2

end Taken

/-- The calls that a channel makes to a store, and its outcome, are those of taking the steps. -/
lemma taken_perform {c : Channel (Journal σ)} {t : Target σ} {cancelled : σ → Bool}
    (ht : c.target = t.journaled) (hcancelled : ∀ j, c.cancelled j = cancelled j.world)
    (steps : List Step) (j : Journal σ) :
    ∃ calls, (c.perform steps j).2.calls = j.calls ++ calls ∧
      Taken cancelled steps calls (c.perform steps j).1 := by
  induction steps generalizing j with
  | nil => exact ⟨[], (List.append_nil _).symm, .all rfl⟩
  | cons s steps ih =>
      -- where the step succeeds, the others are taken from the journal with its call
      have hnext : ∀ {j'}, c.takeStep s j = (.ok (), j') → s.fault? = none →
          j'.calls = j.calls ++ s.accepted?.toList →
          ∃ calls, (c.perform (s :: steps) j).2.calls = j.calls ++ calls ∧
            Taken cancelled (s :: steps) calls (c.perform (s :: steps) j).1 := by
        intro j' hs hfault hcalls
        obtain ⟨calls, hrest, htaken⟩ := ih j'
        rw [Channel.perform_cons_ok hs]
        refine ⟨s.accepted?.toList ++ calls, ?_, htaken.cons hfault⟩
        rw [hrest, hcalls, List.append_assoc]
      cases s with
      | commit doing batch =>
          rcases hcommit : t.commit c.durable batch j.world with ⟨fault | ⟨⟩, world⟩
          · rw [Channel.perform_cons_error (takeStep_of_refused ht hcommit)]
            exact ⟨_, rfl, .head .refused⟩
          · exact hnext (takeStep_of_accepted ht hcommit) rfl rfl
      | pause doing written =>
          cases hstop : c.cancelled j with
          | true =>
              rw [Channel.perform_cons_error (by rw [Channel.takeStep, hstop, if_pos rfl])]
              exact ⟨[], (List.append_nil _).symm,
                .head (.noticed ((hcancelled j).symm.trans hstop))⟩
          | false =>
              refine @hnext j ?_ rfl (List.append_nil _).symm
              rw [Channel.takeStep, hstop, if_neg Bool.false_ne_true]
      | stop e =>
          rw [Channel.perform_cons_error rfl]
          exact ⟨[], (List.append_nil _).symm, .head .stopped⟩

/-! ### The phases of a move -/

/-- What came of the phases of moving an epoch into a store that was opened. -/
structure EpochPhases where
  /-- The commits. -/
  commits : List Call
  /-- The outcome of writing the plan. -/
  written : Except Error Unit
  /-- The outcome of the compaction, if there was one. -/
  compacted : Option (Except StoreFault Unit)
  closed : Except StoreFault Unit

/-- The cause of a failure. -/
def Error.rootOf : Except Error Unit → Option Error
  | .ok () => none
  | .error e => some e.root

/-- The fault that a store reported, as the cause of a failure. -/
def StoreFault.rootOf : Except StoreFault Unit → Option Error
  | .ok () => none
  | .error fault => some (.store fault)

namespace EpochPhases

/-- The calls to the store. -/
def calls (p : EpochPhases) : List Call :=
  p.commits ++ (p.compacted.map Call.compact).toList ++ [.close p.closed]

/-- The cause of the first failure. -/
def firstFailure? (p : EpochPhases) : Option Error :=
  (Error.rootOf p.written).or ((p.compacted.bind StoreFault.rootOf).or (StoreFault.rootOf p.closed))

/-- The phases follow from one another as they should: batches are committed up to the first step
that fails, and a compaction follows just where it is asked for and nothing has failed. -/
structure Disciplined (p : EpochPhases) (cancelled : σ → Bool) (compacts : Bool)
    (steps : List Step) : Prop where
  taken : Taken cancelled steps p.commits p.written
  isCommit : ∀ call ∈ p.commits, call.isCommit = true
  refused_last : ∀ {before after : List Call} {batch : List Entry} {fault : StoreFault},
    p.commits = before ++ .commit batch (.error fault) :: after →
      after = [] ∧ ∃ e, p.written = .error e ∧ e.root = .store fault
  compacted : p.compacted.isSome = true ↔ compacts = true ∧ p.written = .ok ()

lemma Disciplined.of_taken {p : EpochPhases} {cancelled : σ → Bool} {compacts : Bool}
    {steps : List Step} (taken : Taken cancelled steps p.commits p.written)
    (compacted : p.compacted.isSome = true ↔ compacts = true ∧ p.written = .ok ()) :
    p.Disciplined cancelled compacts steps :=
  ⟨taken, taken.isCommit, taken.refused_last, compacted⟩

end EpochPhases

namespace Migrator

variable {site : Site σ} {m : Migrator} {epoch : UInt32} {world : σ}

lemma rootOf_migrateEpoch (hready : m.state.canMigrate = true)
    (hlive : site.cancelled world = false) :
    Error.rootOf (m.migrateEpoch site epoch world).1 =
      Error.rootOf ((m.runEpoch site epoch world).1.map fun _ => ()) := by
  rcases hrun : m.runEpoch site epoch world with ⟨e | report, world'⟩
  · rw [migrateEpoch_of_run_error hready hlive hrun]
    rfl
  · rw [migrateEpoch_of_run_ok hready hlive hrun]
    rfl

/-- The commits that writing an epoch makes, and its outcome, are those of taking its steps. -/
lemma writeEpoch_taken (m : Migrator) (site : Site σ) (metadata : EpochMetadata)
    (target : Target σ) (j : Journal σ) :
    ∃ calls,
      (m.writeEpoch site.journaled metadata target.journaled j).2.calls = j.calls ++ calls ∧
      Taken site.cancelled (m.epochSteps (site.source j.world) metadata) calls
        (m.writeEpoch site.journaled metadata target.journaled j).1 :=
  taken_perform (c := m.channel site.journaled target.journaled "") rfl (fun _ => rfl) _ j

/-- A store that was written is compacted if the settings say so; the fault of that is what the
settling fails with. -/
lemma settle_journaled (m : Migrator) (target : Target σ) (report : EpochReport) (j : Journal σ) :
    ∃ compacted : Option (Except StoreFault Unit),
      (compacted.isSome = true ↔ m.settings.compactAfterMigrate = true) ∧
      (m.settle target.journaled report j).2.calls =
        j.calls ++ (compacted.map Call.compact).toList ∧
      Error.rootOf ((m.settle target.journaled report j).1.map fun _ => ()) =
        compacted.bind StoreFault.rootOf := by
  unfold settle
  split
  · next hcompacts =>
      rcases hcompact : target.compact j.world with ⟨fault | ⟨⟩, world⟩
      · refine ⟨some (.error fault), by simp [hcompacts], ?_, ?_⟩
        · simp [Target.journaled, Journal.note, hcompact]
        · simp only [Target.journaled, Journal.note, hcompact]
          rfl
      · refine ⟨some (.ok ()), by simp [hcompacts], ?_, ?_⟩
        · simp [Target.journaled, Journal.note, hcompact]
        · simp only [Target.journaled, Journal.note, hcompact]
          rfl
  · next hcompacts =>
      exact ⟨none, by simp [hcompacts], (List.append_nil _).symm, rfl⟩

lemma rootOf_afterClose (filled : Except Error EpochReport) (closed : Except StoreFault Unit) :
    Error.rootOf ((afterClose filled closed).map fun _ => ()) =
      (Error.rootOf (filled.map fun _ => ())).or (StoreFault.rootOf closed) := by
  rcases filled with e | report <;> rcases closed with fault | ⟨⟩ <;> rfl

/-- A store that was opened is called in order. -/
lemma runEpoch_disciplined {metadata : EpochMetadata} {target : Target σ} {j opened : Journal σ}
    (hmd : m.metadata.get? epoch = some metadata)
    (hopen : site.journaled.openEpoch epoch j = (.ok target.journaled, opened)) :
    ∃ p : EpochPhases,
      p.Disciplined site.cancelled m.settings.compactAfterMigrate
        (m.epochSteps (site.source opened.world) metadata) ∧
      (m.runEpoch site.journaled epoch j).2.calls = opened.calls ++ p.calls ∧
      Error.rootOf ((m.runEpoch site.journaled epoch j).1.map fun _ => ()) = p.firstFailure? := by
  obtain ⟨commits, hcommits, htaken⟩ := writeEpoch_taken m site metadata target opened
  rcases hwrite : m.writeEpoch site.journaled metadata target.journaled opened with
    ⟨e | ⟨⟩, written⟩
  · rw [hwrite] at hcommits htaken
    rw [runEpoch_of_opened hmd hopen (fillEpoch_of_error hwrite) (Prod.eta _).symm,
      rootOf_afterClose]
    refine ⟨⟨commits, .error e, none, (target.close written.world).1⟩,
      .of_taken htaken (by simp), ?_, rfl⟩
    have hwritten : written.calls = opened.calls ++ commits := hcommits
    simp [EpochPhases.calls, Target.journaled, Journal.note, hwritten]
  · rw [hwrite] at hcommits htaken
    obtain ⟨compacted, hcompacts, hcalls, hroot⟩ := settle_journaled m target
      (m.counted (site.source opened.world) metadata
        { epoch, startedAt := site.now opened.world }) written
    rcases hsettle : m.settle target.journaled (m.counted (site.source opened.world) metadata
      { epoch, startedAt := site.now opened.world }) written with ⟨filled, settled⟩
    rw [hsettle] at hcalls hroot
    rw [runEpoch_of_opened hmd hopen ((fillEpoch_of_ok hwrite).trans hsettle) (Prod.eta _).symm,
      rootOf_afterClose, hroot]
    refine ⟨⟨commits, .ok (), compacted, (target.close settled.world).1⟩,
      .of_taken htaken (by simp [hcompacts]), ?_, rfl⟩
    have hwritten : written.calls = opened.calls ++ commits := hcommits
    have hsettled : settled.calls = written.calls ++ (compacted.map Call.compact).toList := hcalls
    simp [EpochPhases.calls, Target.journaled, Journal.note, hsettled, hwritten]

/-- No store is opened by a migrator that is not ready, nor once the run is cancelled, nor for an
epoch that is not known.  A store that is opened is called in order: its batches are committed up to
the first step that fails, it is compacted if that is asked for and nothing has failed, and it is
closed.  A move fails with the cause of the first failure, if there is one. -/
theorem migrateEpoch_discipline (m : Migrator) (site : Site σ) (epoch : UInt32) (world : σ) :
    (m.state.canMigrate = false ∨ site.cancelled world = true ∨ m.metadata.get? epoch = none →
      m.epochCalls site epoch world = [] ∧ (m.migrateEpoch site epoch world).1.isOk = false ∧
        (m.migrateEpoch site epoch world).2.2 = world) ∧
    ∀ metadata, m.state.canMigrate = true → site.cancelled world = false →
      m.metadata.get? epoch = some metadata →
      (∃ fault world', site.openEpoch epoch world = (.error fault, world') ∧
        m.epochCalls site epoch world = [.opened epoch (.error fault)] ∧
        Error.rootOf (m.migrateEpoch site epoch world).1 = some (.store fault)) ∨
      ∃ target opened p, site.openEpoch epoch world = (.ok target, opened) ∧
        EpochPhases.Disciplined p site.cancelled m.settings.compactAfterMigrate
          (m.epochSteps (site.source opened) metadata) ∧
        m.epochCalls site epoch world = .opened epoch (.ok ()) :: p.calls ∧
        Error.rootOf (m.migrateEpoch site epoch world).1 = p.firstFailure? := by
  have herased := m.migrateEpoch_journaled site epoch { world }
  have hlive' : site.journaled.cancelled { world } = site.cancelled world := rfl
  unfold epochCalls
  rw [← herased]
  refine ⟨?_, ?_⟩
  · intro hidle
    cases hready : m.state.canMigrate with
    | false =>
        rw [migrateEpoch_of_unready hready]
        exact ⟨rfl, rfl, rfl⟩
    | true =>
        cases hlive : site.cancelled world with
        | true =>
            rw [migrateEpoch_of_cancelled hready (hlive'.trans hlive)]
            exact ⟨rfl, rfl, rfl⟩
        | false =>
            have hmd : m.metadata.get? epoch = none := by
              simpa [hready, hlive] using hidle
            rw [migrateEpoch_of_run_error hready (hlive'.trans hlive) (runEpoch_of_unknown hmd)]
            exact ⟨rfl, rfl, rfl⟩
  · intro metadata hready hlive hmd
    rw [rootOf_migrateEpoch hready (hlive'.trans hlive),
      world_migrateEpoch hready (hlive'.trans hlive)]
    rcases hopen : site.openEpoch epoch world with ⟨fault | target, opened⟩
    · left
      have hopen' := openEpoch_journaled_error (j := { world }) hopen
      rw [runEpoch_of_unopened hmd hopen']
      exact ⟨fault, opened, rfl, rfl, rfl⟩
    · right
      have hopen' := openEpoch_journaled_ok (j := { world }) hopen
      obtain ⟨p, hp, hcalls, hroot⟩ := runEpoch_disciplined hmd hopen'
      exact ⟨target, opened, p, rfl, hp, hcalls, hroot⟩

end Migrator

namespace Rehearsal

/-- A migrator of the small rehearsal that compacts stores. -/
def compactingMigrator : Migrator :=
  .fresh site { batchSize := 2, compactAfterMigrate := true } sample

/-- The small rehearsal, in which neither the compaction nor the closing of the store succeeds. -/
def failingEnd : Rehearsal := { sample with faults := { onCompact := [5], onClose := [5] } }

/-- The store is closed all the same, and the compaction is what the move fails with. -/
theorem migrateEpoch_discipline_failingEnd :
    (∃ target opened p, site.openEpoch 5 failingEnd = (.ok target, opened) ∧
      EpochPhases.Disciplined p site.cancelled true
        (compactingMigrator.epochSteps (site.source opened) ⟨5, [⟨10, 11⟩], 11⟩) ∧
      compactingMigrator.epochCalls site 5 failingEnd = .opened 5 (.ok ()) :: p.calls ∧
      Error.rootOf (compactingMigrator.migrateEpoch site 5 failingEnd).1 = p.firstFailure?) ∧
    Error.rootOf (compactingMigrator.migrateEpoch site 5 failingEnd).1 =
      some (.store (.compaction injected)) := by
  have hready : compactingMigrator.state.canMigrate = true := by decide +kernel
  have hmd : compactingMigrator.metadata.get? 5 = some ⟨5, [⟨10, 11⟩], 11⟩ := by decide +kernel
  obtain ⟨fault, world', hopen, -⟩ | hmoved :=
    (Migrator.migrateEpoch_discipline compactingMigrator site 5 failingEnd).2 _ hready rfl hmd
  · cases hopen
  · exact ⟨hmoved, by decide +kernel⟩

end Rehearsal

end EpochSplit
