import EpochSplit.Proofs.Disk.Abreast
import EpochSplit.Proofs.Disk.Hosting
import EpochSplit.Proofs.Migrator.Isolation
import EpochSplit.Proofs.Migrator.Retry
/-!
# Stores on disk and stores in memory

Moving epochs into stores on disk comes to the same as moving them into stores in memory: a move of
an epoch has the same outcome, the same counts and the same effect on either
(`Mirrors.migrateEpoch`), and so have any moves one after the other (`refines_memory`).  The root of
the stores may be there from the beginning or be made with the first of them (`Prepared`).
-/

namespace EpochSplit

/-! ### Moves but for their times -/

/-- The report without its times. -/
def MigrationReport.untimed (r : MigrationReport) : MigrationReport :=
  { r with
    startedAt := 0
    finishedAt := r.finishedAt.map fun _ => 0
    epochs := r.epochs.map EpochReport.untimed }

namespace MigrationReport

lemma untimed_touch {r' r : MigrationReport} (h : r'.untimed = r.untimed) (now' now : Nat) :
    (r'.touch now').untimed = (r.touch now).untimed :=
  congrArg (fun r : MigrationReport => { r with finishedAt := some 0 }) h

lemma untimed_push {r' r : MigrationReport} (h : r'.untimed = r.untimed) {e' e : EpochReport}
    (he : e'.untimed = e.untimed) : (r'.push e').untimed = (r.push e).untimed := by
  have hpush : ∀ (r : MigrationReport) e, (r.push e).untimed =
      { r.untimed with epochs := r.untimed.epochs ++ [e.untimed] } := fun r e => by
    simp [push, untimed]
  rw [hpush, hpush, h, he]

end MigrationReport

lemma EpochReport.untimed_finish {e' e : EpochReport} (h : e'.untimed = e.untimed)
    (now' now : Nat) : (e'.finish now').untimed = (e.finish now).untimed :=
  congrArg (fun e : EpochReport => { e with finishedAt := some 0 }) h

/-- Migrators that differ in the times of their reports only. -/
structure Migrator.SameButTimes (m' m : Migrator) : Prop where
  settings : m'.settings = m.settings
  metadata : m'.metadata = m.metadata
  state : m'.state = m.state
  report : m'.report.untimed = m.report.untimed

namespace Migrator

variable {σ : Type} {site : Site σ} {m : Migrator} {epoch : UInt32}

/-- A move begins with opening the store, so that it does not matter what opening it makes no
difference to. -/
lemma migrateEpoch_congr {world world₁ : σ} {metadata : EpochMetadata}
    (hready : m.state.canMigrate = true) (hmd : m.metadata.get? epoch = some metadata)
    (hlive : site.cancelled world = false) (hlive₁ : site.cancelled world₁ = false)
    (hopen : site.openEpoch epoch world = site.openEpoch epoch world₁) :
    m.migrateEpoch site epoch world = m.migrateEpoch site epoch world₁ := by
  have hrun : m.runEpoch site epoch world = m.runEpoch site epoch world₁ := by
    simp only [runEpoch, hmd, hopen]
  rcases h : m.runEpoch site epoch world₁ with ⟨fault | report, world'⟩
  · rw [migrateEpoch_of_run_error hready hlive (hrun.trans h),
      migrateEpoch_of_run_error hready hlive₁ h]
  · rw [migrateEpoch_of_run_ok hready hlive (hrun.trans h), migrateEpoch_of_run_ok hready hlive₁ h]

lemma epochCalls_congr {world world₁ : σ} {metadata : EpochMetadata}
    (hready : m.state.canMigrate = true) (hmd : m.metadata.get? epoch = some metadata)
    (hlive : site.cancelled world = false) (hlive₁ : site.cancelled world₁ = false)
    (hopen : site.openEpoch epoch world = site.openEpoch epoch world₁) :
    m.epochCalls site epoch world = m.epochCalls site epoch world₁ := by
  have hopened : site.journaled.openEpoch epoch { world } =
      site.journaled.openEpoch epoch { world := world₁ } := by
    simp only [Site.journaled, hopen]
  have hmoved : m.migrateEpoch site.journaled epoch { world } =
      m.migrateEpoch site.journaled epoch { world := world₁ } :=
    migrateEpoch_congr hready hmd hlive hlive₁ hopened
  rw [epochCalls, epochCalls, hmoved]

/-- No store is opened by a migrator that is not ready, or for an epoch that is not known. -/
lemma migrateEpoch_of_idle (hidle : m.state.canMigrate = false ∨ m.metadata.get? epoch = none)
    (world world₁ : σ) (hcancelled : site.cancelled world = site.cancelled world₁)
    (hnow : site.now world = site.now world₁) :
    m.migrateEpoch site epoch world =
      ((m.migrateEpoch site epoch world₁).1, (m.migrateEpoch site epoch world₁).2.1, world) := by
  cases hready : m.state.canMigrate with
  | false => rw [migrateEpoch_of_unready hready, migrateEpoch_of_unready hready]
  | true =>
      have hmd : m.metadata.get? epoch = none := by simpa [hready] using hidle
      cases hlive : site.cancelled world₁ with
      | true =>
          rw [migrateEpoch_of_cancelled hready (hcancelled.trans hlive),
            migrateEpoch_of_cancelled hready hlive]
      | false =>
          rw [migrateEpoch_of_run_error hready (hcancelled.trans hlive) (runEpoch_of_unknown hmd),
            migrateEpoch_of_run_error hready hlive (runEpoch_of_unknown hmd), hnow]

lemma world_migrateEpoch_of_idle
    (hidle : m.state.canMigrate = false ∨ m.metadata.get? epoch = none) (world : σ) :
    (m.migrateEpoch site epoch world).2.2 = world := by
  rw [migrateEpoch_of_idle hidle world world rfl rfl]

end Migrator

/-! ### Moving an epoch -/

namespace Disk

open Rehearsal (epochTarget)

variable {s : Source} {root : String} {r : Place} {mapSize : Nat} {epochs : List UInt32}
  {e : UInt32} {m' m : Migrator}

/-- A disk that is ready for the stores of epochs, each of which holds what its store in memory
does.  Nothing stands in the way of the latter. -/
structure Mirrors (root : String) (r : Place) (epochs : List UInt32) (d : Disk) (w : Rehearsal) :
    Prop where
  hosts : d.Hosts root r epochs
  undisturbed : ∀ e ∈ epochs, w.Undisturbed e
  held : ∀ e ∈ epochs, d.stored (home r e) = w.held e

lemma openEpoch_reading {result : Except StoreFault Place} {d d' : Disk}
    (h : d.create (homePath root e) mapSize = (result, d')) :
    (reading s root mapSize).openEpoch e d = (result.map target, d') := by
  have hpath : Path.join root (toString e) = homePath root e := rfl
  simp only [reading, site, hpath, h]

/-- The stores of an epoch are opened abreast, unless the size of the one on disk cannot be
addressed. -/
lemma Mirrors.openEpoch {d : Disk} {w : Rehearsal} (h : Mirrors root r epochs d w)
    (he : e ∈ epochs) (haligned : mapSize % pageSize = 0) :
    (∃ o d' w', o.path = homePath root e ∧
      (reading s root mapSize).openEpoch e d = (.ok (target (home r e)), d') ∧
      (Rehearsal.reading s).openEpoch e w = (.ok (epochTarget e), w') ∧
      Abreast (d.made (homePath root e)) w (home r e) o e false d' w') ∨
    ∃ d', (reading s root mapSize).openEpoch e d =
      (.error (.openFailed (homePath root e) FileFault.outOfMemory.message), d') := by
  have hquiet := h.undisturbed e he
  obtain ⟨o, d', hcreate, hpath, hlive, hbeside⟩ | hrefused := h.hosts.create he haligned
  · left
    have hcalm : (w.setEpoch e (w.epoch e)).Calm e ↔ w.Calm e := Rehearsal.calm_setEpoch rfl
    have hheld : (w.setEpoch e (w.epoch e)).held e = d.stored (home r e) := by
      rw [Rehearsal.held, Rehearsal.epoch_setEpoch, ← Rehearsal.held, h.held e he]
    refine ⟨o, d', _, hpath, openEpoch_reading hcreate,
      Rehearsal.openEpoch_of_faultless hquiet.toFaultless, ?_, hbeside, hcalm.2 hquiet.toCalm, rfl⟩
    rw [hheld]
    exact hlive
  · right
    rcases hcreate : d.create (homePath root e) mapSize with ⟨result, d'⟩
    rw [hcreate] at hrefused
    cases hrefused
    exact ⟨d', openEpoch_reading hcreate⟩

/-- A run over an epoch goes the same way on either side.  It leaves the stores as they are, or
visits that of the epoch. -/
lemma Mirrors.runEpoch {j' : Journal Disk} {j : Journal Rehearsal}
    (h : Mirrors root r epochs j'.world j.world) (he : e ∈ epochs)
    (haligned : mapSize % pageSize = 0) (hsettings : m'.settings = m.settings)
    (hmetadata : m'.metadata = m.metadata)
    (hroom : ∀ call ∈ (m'.runEpoch (reading s root mapSize).journaled e j').2.calls,
      call.hasRoom = true)
    (hkeys : ∀ entry ∈ committed (m.runEpoch (Rehearsal.reading s).journaled e j).2.calls,
      Database.isKey entry.1 = true) :
    (m'.runEpoch (reading s root mapSize).journaled e j').1.map EpochReport.untimed =
        (m.runEpoch (Rehearsal.reading s).journaled e j).1.map EpochReport.untimed ∧
      ((m'.runEpoch (reading s root mapSize).journaled e j').2.world = j'.world ∧
          (m.runEpoch (Rehearsal.reading s).journaled e j).2.world = j.world ∨
        Visited (homePath root e) (home r e)
          ((m.runEpoch (Rehearsal.reading s).journaled e j).2.world.held e) j'.world
          (m'.runEpoch (reading s root mapSize).journaled e j').2.world) := by
  cases hmd : m.metadata.get? e with
  | none =>
      rw [Migrator.runEpoch_of_unknown (hmetadata ▸ hmd), Migrator.runEpoch_of_unknown hmd]
      exact ⟨rfl, .inl ⟨rfl, rfl⟩⟩
  | some metadata =>
      have hmd' : m'.metadata.get? e = some metadata := hmetadata ▸ hmd
      obtain ⟨o, d', w', hpath, hdisk, hmemory, habreast⟩ | ⟨d', hdisk⟩ :=
        h.openEpoch (s := s) he haligned
      · have hmade : (j'.world.made (homePath root e)).cancelled = false := by
          rw [cancelled_made, h.hosts.live]
        have hcopy := h.hosts.short e he
        have hdata := h.hosts.short_data he
        rw [← hpath] at hcopy hdata
        have hfree := h.hosts.uncopied he (.refl (home r e) (j'.world.made (homePath root e)))
        obtain ⟨hout, hrests, hbeside⟩ := runEpoch_of_abreast hsettings hmd' hmd
          (openEpoch_journaled_ok hdisk) (openEpoch_journaled_ok hmemory) habreast hmade
          (h.undisturbed e he).toFaultless hcopy hdata hfree hroom hkeys
        rw [hpath] at hrests
        exact ⟨hout, .inr ⟨hrests, hbeside, h.hosts.uncopied he hbeside⟩⟩
      · -- a size that cannot be addressed would be in the journal
        rw [Migrator.runEpoch_of_unopened hmd' (openEpoch_journaled_error hdisk)] at hroom
        have hspoiled := hroom _ (List.mem_append_right _ (List.mem_singleton_self _))
        simp [Call.hasRoom] at hspoiled

lemma Mirrors.migrateEpoch_journaled {j' : Journal Disk} {j : Journal Rehearsal}
    (h : Mirrors root r epochs j'.world j.world) (he : e ∈ epochs)
    (haligned : mapSize % pageSize = 0) (hm : m'.SameButTimes m)
    (hroom : ∀ call ∈ (m'.migrateEpoch (reading s root mapSize).journaled e j').2.2.calls,
      call.hasRoom = true)
    (hkeys : ∀ entry ∈ committed (m.migrateEpoch (Rehearsal.reading s).journaled e j).2.2.calls,
      Database.isKey entry.1 = true) :
    (m'.migrateEpoch (reading s root mapSize).journaled e j').1 =
        (m.migrateEpoch (Rehearsal.reading s).journaled e j).1 ∧
      (m'.migrateEpoch (reading s root mapSize).journaled e j').2.1.SameButTimes
        (m.migrateEpoch (Rehearsal.reading s).journaled e j).2.1 ∧
      ((m'.migrateEpoch (reading s root mapSize).journaled e j').2.2.world = j'.world ∧
          (m.migrateEpoch (Rehearsal.reading s).journaled e j).2.2.world = j.world ∨
        Visited (homePath root e) (home r e)
          ((m.migrateEpoch (Rehearsal.reading s).journaled e j).2.2.world.held e) j'.world
          (m'.migrateEpoch (reading s root mapSize).journaled e j').2.2.world) := by
  cases hready : m.state.canMigrate with
  | false =>
      rw [Migrator.migrateEpoch_of_unready hready,
        Migrator.migrateEpoch_of_unready (hm.state ▸ hready)]
      refine ⟨?_, hm, .inl ⟨rfl, rfl⟩⟩
      rw [Migrator.invalidState, Migrator.invalidState, hm.state]
  | true =>
      have hready' : m'.state.canMigrate = true := hm.state ▸ hready
      have hlive' : (reading s root mapSize).journaled.cancelled j' = false := h.hosts.live
      have hlive : (Rehearsal.reading s).journaled.cancelled j = false :=
        (h.undisturbed e he).live
      rw [Migrator.world_migrateEpoch hready' hlive'] at hroom
      rw [Migrator.world_migrateEpoch hready hlive] at hkeys
      obtain ⟨hout, hworlds⟩ := h.runEpoch he haligned hm.settings hm.metadata hroom hkeys
      rcases hrun' : m'.runEpoch (reading s root mapSize).journaled e j' with ⟨fault' | report', k'⟩
      all_goals
        rcases hrun : m.runEpoch (Rehearsal.reading s).journaled e j with ⟨fault | report, k⟩
        all_goals
          rw [hrun', hrun] at hout hworlds
      · cases hout
        rw [Migrator.migrateEpoch_of_run_error hready' hlive' hrun',
          Migrator.migrateEpoch_of_run_error hready hlive hrun]
        exact ⟨rfl, ⟨hm.settings, hm.metadata, rfl, MigrationReport.untimed_touch hm.report _ _⟩,
          hworlds⟩
      · cases hout
      · cases hout
      · have hreports : report'.untimed = report.untimed := Except.ok.inj hout
        rw [Migrator.migrateEpoch_of_run_ok hready' hlive' hrun',
          Migrator.migrateEpoch_of_run_ok hready hlive hrun]
        exact ⟨rfl, ⟨hm.settings, hm.metadata, rfl,
          MigrationReport.untimed_push (MigrationReport.untimed_touch hm.report _ _)
            (EpochReport.untimed_finish hreports _ _)⟩, hworlds⟩

/-- Nothing about the other epochs stands in the way of a move. -/
lemma undisturbed_migrateEpoch_of_any {w : Rehearsal} {e' : UInt32} (m : Migrator) (s : Source)
    (e : UInt32) (hw : w.Undisturbed e') :
    (m.migrateEpoch (Rehearsal.reading s) e w).2.2.Undisturbed e' := by
  have hfaults := Migrator.view_migrateEpoch_of_const
    (Rehearsal.tracks_faults (s := s) (e := e)) m w
  exact { toCalm := Rehearsal.calm_migrateEpoch m s e hw.toCalm
          toFaultless := ⟨hfaults ▸ hw.opens, hfaults ▸ hw.compacts, hfaults ▸ hw.closes⟩ }

/-- A move of an epoch has the same outcome on either side, and leaves the stores on the disk
mirroring those in memory. -/
theorem Mirrors.migrateEpoch {d : Disk} {w : Rehearsal} (h : Mirrors root r epochs d w)
    (he : e ∈ epochs) (haligned : mapSize % pageSize = 0) (hm : m'.SameButTimes m)
    (hroom : ∀ call ∈ m'.epochCalls (reading s root mapSize) e d, call.hasRoom = true)
    (hkeys : ∀ entry ∈ committed (m.epochCalls (Rehearsal.reading s) e w),
      Database.isKey entry.1 = true) :
    (m'.migrateEpoch (reading s root mapSize) e d).1 =
        (m.migrateEpoch (Rehearsal.reading s) e w).1 ∧
      (m'.migrateEpoch (reading s root mapSize) e d).2.1.SameButTimes
        (m.migrateEpoch (Rehearsal.reading s) e w).2.1 ∧
      Mirrors root r epochs (m'.migrateEpoch (reading s root mapSize) e d).2.2
        (m.migrateEpoch (Rehearsal.reading s) e w).2.2 := by
  have hundisturbed : ∀ e' ∈ epochs,
      (m.migrateEpoch (Rehearsal.reading s) e w).2.2.Undisturbed e' := fun e' he' =>
    undisturbed_migrateEpoch_of_any m s e (h.undisturbed e' he')
  have hothers : ∀ e', e' ≠ e →
      (m.migrateEpoch (Rehearsal.reading s) e w).2.2.held e' = w.held e' := fun e' hne => by
    rw [Rehearsal.held, Rehearsal.epoch, (Rehearsal.epochs_migrateEpoch_of_ne m s hne w).1]
    rfl
  have herased' := m'.migrateEpoch_journaled (reading s root mapSize) e { world := d }
  have herased := m.migrateEpoch_journaled (Rehearsal.reading s) e { world := w }
  have hmirrors : Mirrors root r epochs (⟨d, []⟩ : Journal Disk).world
    (⟨w, []⟩ : Journal Rehearsal).world := h
  obtain ⟨hout, hmigrators, hworlds⟩ :=
    hmirrors.migrateEpoch_journaled he haligned hm hroom hkeys
  rw [← herased] at hundisturbed hothers ⊢
  rw [← herased']
  refine ⟨hout, hmigrators, ?_⟩
  obtain ⟨hdisk, hmemory⟩ | hvisit := hworlds
  · rw [hdisk, hmemory]
    exact h
  · refine ⟨h.hosts.visited he hvisit, hundisturbed, fun e' he' => ?_⟩
    by_cases hepoch : e' = e
    · subst hepoch
      exact hvisit.rests.stored
    · rw [h.hosts.stored_visited hvisit hepoch, h.held e' he', hothers e' hepoch]

/-- A disk on which the root is still to be made: nothing is there, and once it is made the stores
mirror those in memory. -/
structure Rootless (root : String) (r : Place) (epochs : List UInt32) (d : Disk) (w : Rehearsal) :
    Prop where
  nested : d.tree.Nested
  missing : d.tree.follow root = .error .missing
  vacant : d.tree.node? r = none
  made : ∃ tree, d.tree.makeFirst (Path.lineage root) = (.ok (), tree) ∧
    Mirrors root r epochs { d with tree } w

/-- A disk with a root for the stores of epochs, which is there or can be made. -/
def Prepared (root : String) (r : Place) (epochs : List UInt32) (d : Disk) (w : Rehearsal) : Prop :=
  Mirrors root r epochs d w ∨ Rootless root r epochs d w

/-- The root is made together with the first store. -/
lemma Rootless.migrateEpoch {d : Disk} {w : Rehearsal} (h : Rootless root r epochs d w)
    (he : e ∈ epochs) (haligned : mapSize % pageSize = 0) (hm : m'.SameButTimes m)
    (hroom : ∀ call ∈ m'.epochCalls (reading s root mapSize) e d, call.hasRoom = true)
    (hkeys : ∀ entry ∈ committed (m.epochCalls (Rehearsal.reading s) e w),
      Database.isKey entry.1 = true) :
    (m'.migrateEpoch (reading s root mapSize) e d).1 =
        (m.migrateEpoch (Rehearsal.reading s) e w).1 ∧
      (m'.migrateEpoch (reading s root mapSize) e d).2.1.SameButTimes
        (m.migrateEpoch (Rehearsal.reading s) e w).2.1 ∧
      Prepared root r epochs (m'.migrateEpoch (reading s root mapSize) e d).2.2
        (m.migrateEpoch (Rehearsal.reading s) e w).2.2 := by
  obtain ⟨tree, hmade, hmirrors⟩ := h.made
  have hrooted := hmirrors.migrateEpoch (s := s) he haligned hm
  by_cases hidle : m'.state.canMigrate = false ∨ m'.metadata.get? e = none
  · have hcalls : m'.epochCalls (reading s root mapSize) e { d with tree } = [] :=
      congrArg Journal.calls (Migrator.world_migrateEpoch_of_idle hidle _)
    have hdisk : m'.migrateEpoch (reading s root mapSize) e d =
        ((m'.migrateEpoch (reading s root mapSize) e { d with tree }).1,
          (m'.migrateEpoch (reading s root mapSize) e { d with tree }).2.1, d) :=
      Migrator.migrateEpoch_of_idle hidle d { d with tree } rfl rfl
    have hmemory : (m.migrateEpoch (Rehearsal.reading s) e w).2.2 = w :=
      Migrator.world_migrateEpoch_of_idle (hm.metadata ▸ hm.state ▸ hidle) w
    rw [hcalls] at hrooted
    obtain ⟨hout, hmigrators, -⟩ := hrooted (fun _ hcall => nomatch hcall) hkeys
    rw [hdisk, hmemory]
    exact ⟨hout, hmigrators, .inr h⟩
  · obtain ⟨hready, hknown⟩ := not_or.1 hidle
    have hready : m'.state.canMigrate = true := by simpa using hready
    obtain ⟨metadata, hmd⟩ := Option.ne_none_iff_exists'.1 hknown
    have hopen : (reading s root mapSize).openEpoch e d =
        (reading s root mapSize).openEpoch e { d with tree } := by
      have hcreate : d.create (homePath root e) mapSize =
          ({ d with tree } : Disk).create (homePath root e) mapSize :=
        create_of_missing h.missing hmade hmirrors.hosts.leads (isName_toString e)
          (hmirrors.hosts.short_home he) mapSize
      rw [openEpoch_reading (Prod.eta _).symm, openEpoch_reading (Prod.eta _).symm, hcreate]
    have hlive : (reading s root mapSize).cancelled d = false := hmirrors.hosts.live
    have hmove : m'.migrateEpoch (reading s root mapSize) e d =
        m'.migrateEpoch (reading s root mapSize) e { d with tree } :=
      Migrator.migrateEpoch_congr hready hmd hlive hlive hopen
    have hcalls : m'.epochCalls (reading s root mapSize) e d =
        m'.epochCalls (reading s root mapSize) e { d with tree } :=
      Migrator.epochCalls_congr hready hmd hlive hlive hopen
    rw [hcalls] at hroom
    obtain ⟨hout, hmigrators, hnext⟩ := hrooted hroom hkeys
    rw [hmove]
    exact ⟨hout, hmigrators, .inl hnext⟩

/-- A move of an epoch comes to the same on either side. -/
theorem Prepared.migrateEpoch {d : Disk} {w : Rehearsal} (h : Prepared root r epochs d w)
    (he : e ∈ epochs) (haligned : mapSize % pageSize = 0) (hm : m'.SameButTimes m)
    (hroom : ∀ call ∈ m'.epochCalls (reading s root mapSize) e d, call.hasRoom = true)
    (hkeys : ∀ entry ∈ committed (m.epochCalls (Rehearsal.reading s) e w),
      Database.isKey entry.1 = true) :
    (m'.migrateEpoch (reading s root mapSize) e d).1 =
        (m.migrateEpoch (Rehearsal.reading s) e w).1 ∧
      (m'.migrateEpoch (reading s root mapSize) e d).2.1.SameButTimes
        (m.migrateEpoch (Rehearsal.reading s) e w).2.1 ∧
      Prepared root r epochs (m'.migrateEpoch (reading s root mapSize) e d).2.2
        (m.migrateEpoch (Rehearsal.reading s) e w).2.2 := by
  obtain hmirrors | hrootless := h
  · obtain ⟨hout, hmigrators, hnext⟩ := hmirrors.migrateEpoch he haligned hm hroom hkeys
    exact ⟨hout, hmigrators, .inl hnext⟩
  · exact hrootless.migrateEpoch he haligned hm hroom hkeys

end Disk

/-! ### Sequences of epochs -/

namespace Session

variable {σ : Type}

/-- What comes of moving epochs one after the other, whatever fails: the outcome of each move and
the session after it. -/
def attempts (site : Site σ) : List UInt32 → Session σ → List (Except Error Unit × Session σ)
  | [], _ => []
  | e :: es, s => s.move site e :: attempts site es (s.move site e).2

/-- The calls to stores that these moves make. -/
def attemptCalls (site : Site σ) : List UInt32 → Session σ → List Call
  | [], _ => []
  | e :: es, s => s.migrator.epochCalls site e s.world ++ attemptCalls site es (s.move site e).2

end Session

namespace Disk

variable {s : Source} {root : String} {r : Place} {mapSize : Nat} {epochs : List UInt32}
  {e : UInt32} {d : Disk} {w : Rehearsal}

/-- What a store that is closed shows: `held` is what its directory holds, and what is read when it
is opened again. -/
structure Shows (d : Disk) (path : String) (p : Place) (held : Contents) : Prop where
  stored : d.stored p = held
  there : held ≠ ∅ → ∃ n, d.tree.node? (p ++ [dataFile]) = some (.database n)
  readBack : ∀ {n readSize}, d.tree.node? (p ++ [dataFile]) = some (.database n) →
    readSize % pageSize = 0 → (d.databaseAt p).sizeFor readSize < addressLimit →
    ∃ shown, d.openReadOnly path readSize = (.ok p, shown) ∧ shown.held p = held

lemma database_of_stored {p : Place} (h : d.stored p ≠ ∅) :
    ∃ n, d.tree.node? (p ++ [dataFile]) = some (.database n) := by
  by_contra hnone
  exact h (stored_of_none fun n hn => hnone ⟨n, hn⟩)

lemma Mirrors.shows (h : Mirrors root r epochs d w) (he : e ∈ epochs) :
    d.Shows (homePath root e) (home r e) (w.held e) where
  stored := h.held e he
  there hheld := database_of_stored (h.held e he ▸ hheld)
  readBack {n readSize} hn haligned haddressed := by
    have hdir : d.tree.node? (home r e) = some .directory :=
      h.hosts.sound.nested _ _ (FileTree.has_of_node? hn)
    have hfollow : d.tree.follow (homePath root e) = .ok (home r e) :=
      (FileTree.follow_join_eq_ok h.hosts.leads (isName_toString e)).2
        ⟨FileTree.has_of_node? hdir, rfl⟩
    have hrests : Rests d (home r e) (homePath root e) (w.held e) :=
      ⟨h.hosts.sound, (h.hosts.receptive e he).closed, ⟨hfollow, hdir⟩, h.hosts.placed e he,
        ⟨n, hn⟩, (h.hosts.receptive e he).unlocked, h.held e he⟩
    exact hrests.openReadOnly haligned haddressed

/-- Below a root that is not there, nothing is. -/
lemma Rootless.node?_none (h : Rootless root r epochs d w) (e : UInt32) (name : String) :
    d.tree.node? (home r e ++ [name]) = none := by
  by_contra hfile
  have hstore : d.tree.node? (home r e) = some .directory :=
    h.nested _ _ (by simpa [FileTree.has, Option.isSome_iff_ne_none] using hfile)
  have hroot : d.tree.node? r = some .directory := h.nested _ _ (FileTree.has_of_node? hstore)
  rw [h.vacant] at hroot
  cases hroot

lemma Rootless.shows (h : Rootless root r epochs d w) (he : e ∈ epochs) :
    d.Shows (homePath root e) (home r e) (w.held e) := by
  obtain ⟨tree, hmade, hmirrors⟩ := h.made
  obtain ⟨hgrows, -⟩ : d.tree.Grows (d.tree.makeFirst (Path.lineage root)).2 ∧ _ :=
    FileTree.makeFirst_grows h.nested
  rw [hmade] at hgrows
  have hstored : d.stored (home r e) = w.held e := by
    rw [← stored_of_grows hgrows, hmirrors.held e he]
  refine ⟨hstored, fun hheld => database_of_stored (hstored ▸ hheld), fun {n _} hn => ?_⟩
  rw [h.node?_none] at hn
  cases hn

/-- The stores on the disk show what those in memory hold. -/
lemma Prepared.shows (h : Prepared root r epochs d w) (he : e ∈ epochs) :
    d.Shows (homePath root e) (home r e) (w.held e) :=
  h.elim (·.shows he) (·.shows he)

/-- A move with stores on disk came to the same as one with stores in memory. -/
structure SameResult (root : String) (r : Place) (epochs : List UInt32)
    (x' : Except Error Unit × Session Disk) (x : Except Error Unit × Session Rehearsal) : Prop where
  outcome : x'.1 = x.1
  state : x'.2.migrator.state = x.2.migrator.state
  report : x'.2.migrator.report.untimed = x.2.migrator.report.untimed
  shows : ∀ e ∈ epochs, x'.2.world.Shows (homePath root e) (home r e) (x.2.world.held e)

/-- One move after the other comes to the same on either side. -/
lemma Prepared.attempts {m' m : Migrator} (h : Prepared root r epochs d w)
    (haligned : mapSize % pageSize = 0) {es : List UInt32} (hes : ∀ e ∈ es, e ∈ epochs)
    (hm : m'.SameButTimes m)
    (hroom : ∀ call ∈ Session.attemptCalls (reading s root mapSize) es ⟨m', d⟩,
      call.hasRoom = true)
    (hkeys : ∀ entry ∈ committed (Session.attemptCalls (Rehearsal.reading s) es ⟨m, w⟩),
      Database.isKey entry.1 = true) :
    List.Forall₂ (SameResult root r epochs)
      (Session.attempts (reading s root mapSize) es ⟨m', d⟩)
      (Session.attempts (Rehearsal.reading s) es ⟨m, w⟩) := by
  induction es generalizing m' m d w with
  | nil => exact .nil
  | cons e es ih =>
      obtain ⟨he, hes⟩ := List.forall_mem_cons.1 hes
      rw [Session.attemptCalls, List.forall_mem_append] at hroom
      rw [Session.attemptCalls, committed, List.flatMap_append, List.forall_mem_append] at hkeys
      obtain ⟨hout, hmigrators, hnext⟩ := h.migrateEpoch he haligned hm hroom.1 hkeys.1
      rw [Session.move_eq] at hroom hkeys
      rw [Session.attempts, Session.attempts, Session.move_eq, Session.move_eq]
      exact .cons ⟨hout, hmigrators.state, hmigrators.report, fun e' he' => hnext.shows he'⟩
        (ih hnext hes hmigrators hroom.2 hkeys.2)

/-- The metadata are loaded alike. -/
lemma sameButTimes_fresh (s : Source) (root : String) (mapSize : Nat) (settings : Settings)
    (d : Disk) (w : Rehearsal) :
    (Migrator.fresh (reading s root mapSize) settings d).SameButTimes
      (Migrator.fresh (Rehearsal.reading s) settings w) := by
  unfold Migrator.fresh Migrator.loadMetadata
  simp only [reading, Rehearsal.reading, Migrator.start, ne_eq, not_true_eq_false, if_false]
  cases Error.inContext "loading store metadata" s.metadata with
  | error fault => exact ⟨rfl, rfl, rfl, rfl⟩
  | ok metadata => exact ⟨rfl, rfl, rfl, rfl⟩

/-- Whatever archive is read, with whatever settings and in whatever order, moving epochs into
stores on disk comes to the same as moving them into stores in memory that hold the same at first:
the same outcomes, states and counts, and the same contents once the stores are closed.  The disk
has to be one that can hold them: nothing stands in the way of the directories, the size that is
asked for is one that a database can have, and the data do not outgrow it.  Each key that is written
has to be one that a database can hold; a batch with another key is refused as a whole. -/
theorem refines_memory (s : Source) (settings : Settings) (es : List UInt32)
    (h : Prepared root r epochs d w) (hes : ∀ e ∈ es, e ∈ epochs)
    (haligned : mapSize % pageSize = 0)
    (hroom : ∀ call ∈ Session.attemptCalls (reading s root mapSize) es
      ⟨.fresh (reading s root mapSize) settings d, d⟩, call.hasRoom = true)
    (hkeys : ∀ entry ∈ committed (Session.attemptCalls (Rehearsal.reading s) es
      ⟨.fresh (Rehearsal.reading s) settings w, w⟩), Database.isKey entry.1 = true) :
    List.Forall₂ (SameResult root r epochs)
      (Session.attempts (reading s root mapSize) es
        ⟨.fresh (reading s root mapSize) settings d, d⟩)
      (Session.attempts (Rehearsal.reading s) es
        ⟨.fresh (Rehearsal.reading s) settings w, w⟩) ∧
    ∀ (d' : Disk) (p : Place) (batch : List Entry), (∃ e ∈ batch, Database.isKey e.1 = false) →
      ∃ reason, d'.commit p batch = (.error (.commit batch.length reason), d') :=
  ⟨h.attempts haligned hes (sameButTimes_fresh s root mapSize settings d w) hroom hkeys,
    fun d' p _ hbad => commit_of_badKey hbad p d'⟩

/-! ### Moves to a new root -/

/-- Making a new root on an empty disk. -/
def rootMade : Except FileFault Unit × FileTree := ({} : FileTree).makeFirst (Path.lineage "new")

/-- An empty disk on which the root was made. -/
def rooted : Disk := { tree := rootMade.2 }

/-- What holds of both epochs of the sample. -/
private lemma forall_sampled {P : UInt32 → Prop} (h : P 5 ∧ P 6) :
    ∀ e ∈ ([5, 6] : List UInt32), P e :=
  List.forall_mem_cons.2 ⟨h.1, List.forall_mem_singleton.2 h.2⟩

lemma hosts_rooted : rooted.Hosts "new" ["new"] [5, 6] where
  sound := sound_empty.grown (FileTree.makeFirst_grows FileTree.nested_empty)
  leads := ⟨by decide +kernel, by decide +kernel⟩
  live := rfl
  short := forall_sampled (by decide +kernel)
  placed := forall_sampled (by decide +kernel)
  receptive := by
    have hfree : ∀ e ∈ ([5, 6] : List UInt32), rooted.tree.node? (home ["new"] e) = none ∧
        ∀ name ∈ [dataFile, lockFile, compactedFile],
          rooted.tree.node? (home ["new"] e ++ [name]) = none :=
      forall_sampled (by decide +kernel)
    intro e he
    obtain ⟨hhome, hfiles⟩ := hfree e he
    simp only [List.forall_mem_cons] at hfiles
    obtain ⟨hdata, hlock, hcopy, -⟩ := hfiles
    exact ⟨rfl, .inl hhome, .inl hdata, by simp [hlock], by simp [hcopy]⟩

lemma rootless_empty : Rootless "new" ["new"] [5, 6] {} {} where
  nested := FileTree.nested_empty
  missing := by decide +kernel
  vacant := by decide +kernel
  made := by
    have hmade : rootMade = (.ok (), rootMade.2) := Prod.fst_eq_iff.1 (by decide +kernel)
    refine ⟨rootMade.2, hmade, hosts_rooted, fun e _ => Rehearsal.undisturbed_default e,
      fun e _ => ?_⟩
    rw [Rehearsal.held_default, stored_of_grows (FileTree.makeFirst_grows FileTree.nested_empty).1]
    exact stored_of_none fun n hn => Std.ExtTreeMap.not_mem_empty (sound_empty.listed hn)

/-- A migrator that compacts its stores moves the epoch of the sample, moves it again, and then
tries to move an epoch that it does not know. -/
def sampleAttempts {σ : Type} (site : Site σ) (world : σ) :
    List (Except Error Unit × Session σ) :=
  Session.attempts site [5, 5, 6] ⟨.fresh site { compactAfterMigrate := true } world, world⟩

/-- The stores on an empty disk come to hold what stores in memory do. -/
theorem refines_memory_sample :
    (sampleAttempts (Rehearsal.reading (.ofContents Rehearsal.sampleArchive)) {}).map (·.1.isOk) =
        [true, true, false] ∧
      List.Forall₂ (SameResult "new" ["new"] [5, 6])
        (sampleAttempts (reading (.ofContents Rehearsal.sampleArchive) "new" 0x100000) {})
        (sampleAttempts (Rehearsal.reading (.ofContents Rehearsal.sampleArchive)) {}) := by
  refine ⟨by decide +kernel, ?_⟩
  obtain ⟨hresults, -⟩ := refines_memory (.ofContents Rehearsal.sampleArchive)
    { compactAfterMigrate := true } [5, 5, 6] (.inr rootless_empty) (by simp)
    (rfl : 0x100000 % pageSize = 0) (List.all_eq_true.1 (by decide +kernel))
    (List.all_eq_true.1 (by decide +kernel))
  exact hresults

end Disk

end EpochSplit
