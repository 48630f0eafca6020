import EpochSplit.Proofs.Disk.Store
import EpochSplit.Proofs.Migrator.Discipline
import Mathlib.Data.List.TakeWhile
/-!
# A store on disk abreast of one in memory

In the midst of a move a store on disk holds what a store in memory does, as long as there is room
for the data and all keys have a length that a database can hold (`Abreast`).  Each step takes the
two on together (`Abreast.perform`), and so they are written, settled and closed alike
(`runEpoch_of_abreast`).
-/

namespace EpochSplit

/-! ### Keys and room -/

namespace Database

variable {batch : List Entry}

/-- A batch with a key that is empty or too long is refused. -/
lemma write_of_badKey (h : ∃ e ∈ batch, isKey e.1 = false) (size : Nat) (db : Database) :
    ∃ reason, db.write size batch = .error reason := by
  obtain ⟨e, he, hbad⟩ := h
  have hleading := List.takeWhile_prefix (l := batch) fun e => isKey e.1
  have hshorter : (batch.takeWhile fun e => isKey e.1).length < batch.length := by
    refine Nat.lt_of_le_of_ne hleading.length_le fun hsame => ?_
    have hall := List.takeWhile_eq_self_iff.1 (hleading.eq_of_length hsame)
    rw [hall e he] at hbad
    cases hbad
  simp only [write, hshorter, if_true]
  cases db.layout.write? (size / pageSize) (lengths (batch.takeWhile fun e => isKey e.1)) with
  | none => exact ⟨_, rfl⟩
  | some layout => exact ⟨_, rfl⟩

/-- A batch is refused for its keys or for want of room only. -/
lemma write_of_keys (h : ∀ e ∈ batch, isKey e.1 = true) (size : Nat) (db : Database) :
    db.write size batch = .error noRoom ∨ ∃ db', db.write size batch = .ok db' := by
  have hall : batch.takeWhile (fun e => isKey e.1) = batch := List.takeWhile_eq_self_iff.2 h
  simp only [write, hall, Nat.lt_irrefl, if_false]
  cases db.layout.write? (size / pageSize) (lengths batch) with
  | none => exact .inl rfl
  | some layout => exact .inr ⟨_, rfl⟩

end Database

/-- Whether a call was not refused for want of room, on the disk or among the addresses. -/
def Call.hasRoom : Call → Bool
  | opened _ (.error (.openFailed _ reason)) => reason != FileFault.outOfMemory.message
  | commit _ (.error (.commit _ reason)) => reason != Database.noRoom
  | _ => true

/-- Writing only adds to a journal. -/
lemma calls_perform {σ : Type} {c : Channel (Journal σ)} {t : Target σ} {cancelled : σ → Bool}
    (ht : c.target = t.journaled) (hcancelled : ∀ j, c.cancelled j = cancelled j.world)
    (steps : List Step) (j : Journal σ) :
    ∃ calls, (c.perform steps j).2.calls = j.calls ++ calls := by
  obtain ⟨calls, hcalls, -⟩ := taken_perform ht hcancelled steps j
  exact ⟨calls, hcalls⟩

namespace Disk

open Rehearsal (epochTarget)

/-- A batch with a key that is empty or too long is refused by any store, and none of its pairs is
written. -/
theorem commit_of_badKey {batch : List Entry} (h : ∃ e ∈ batch, Database.isKey e.1 = false)
    (p : Place) (d : Disk) :
    ∃ reason, d.commit p batch = (.error (.commit batch.length reason), d) := by
  unfold commit
  simp only
  split
  · exact ⟨_, rfl⟩
  · next o ho =>
      split
      · exact ⟨_, rfl⟩
      · obtain ⟨reason, hwrite⟩ := Database.write_of_badKey h o.size (d.database o.number)
        rw [hwrite]
        exact ⟨reason, rfl⟩

/-! ### Abreast -/

/-- In the midst of a move of an epoch, its store on the disk holds what its store in memory does,
and so does the compacted copy if there is one. -/
structure Abreast (d₀ : Disk) (w₀ : Rehearsal) (p : Place) (o : OpenStore) (e : UInt32)
    (copied : Bool) (d : Disk) (w : Rehearsal) : Prop where
  live : Live d p o (w.held e) (if copied then some (w.held e) else none)
  beside : d₀.Beside p d
  calm : w.Calm e
  faults : w.faults = w₀.faults

namespace Abreast

variable {d₀ d : Disk} {w₀ w : Rehearsal} {p : Place} {o : OpenStore} {e : UInt32}
  {copied : Bool}

/-- A batch is written to both stores, or there is no room for it on the disk. -/
lemma commit (h : Abreast d₀ w₀ p o e false d w) (durable : Bool) {batch : List Entry}
    (hkeys : ∀ entry ∈ batch, Database.isKey entry.1 = true) :
    ∃ w', (epochTarget e).commit durable batch w = (.ok (), w') ∧
      (d.commit p batch = (.error (.commit batch.length Database.noRoom), d) ∨
        ∃ d', d.commit p batch = (.ok (), d') ∧ Abreast d₀ w₀ p o e false d' w') := by
  have hmemory := Rehearsal.commit_of_accepts (Rehearsal.refuses_of_calm h.calm) durable batch
  refine ⟨_, hmemory, ?_⟩
  obtain hfull | ⟨db, hwrite⟩ :=
    Database.write_of_keys hkeys o.size (d.database o.number)
  · left
    rw [h.live.commit_eq, hfull]
  · right
    have hcommit : d.commit p batch =
        (.ok (), { d with databases := d.databases.insert o.number db }) := by
      rw [h.live.commit_eq, hwrite]
    obtain ⟨hlive, hbeside⟩ := h.live.commit hcommit
    refine ⟨_, hcommit, ?_, h.beside.trans hbeside, ?_, h.faults⟩
    · have hheld : ((w.setEpoch e ((w.epoch e).commit durable batch).2).countCommit).held e =
          (w.held e).overlay batch := by
        rw [Rehearsal.held, Rehearsal.epoch_countCommit, Rehearsal.epoch_setEpoch,
          MemoryStore.contents_commit, Rehearsal.refuses_of_calm h.calm]
        rfl
      rw [hheld]
      exact hlive
    · exact Rehearsal.calm_countCommit.2
        ((Rehearsal.calm_setEpoch (Rehearsal.refusal_commit durable batch _)).2 h.calm)

/-- Steps are taken with the same outcome, if there is room and the keys can be held. -/
theorem perform {c' : Channel (Journal Disk)} {c : Channel (Journal Rehearsal)}
    (ht' : c'.target = (target p).journaled) (ht : c.target = (epochTarget e).journaled)
    (hc' : ∀ j, c'.cancelled j = j.world.cancelled) (hc : ∀ j, c.cancelled j = j.world.cancelled)
    (hlive : d₀.cancelled = false) (steps : List Step) {j' : Journal Disk} {j : Journal Rehearsal}
    (h : Abreast d₀ w₀ p o e false j'.world j.world)
    (hroom : ∀ call ∈ (c'.perform steps j').2.calls, call.hasRoom = true)
    (hkeys : ∀ entry ∈ committed (c.perform steps j).2.calls, Database.isKey entry.1 = true) :
    (c'.perform steps j').1 = (c.perform steps j).1 ∧
      Abreast d₀ w₀ p o e false (c'.perform steps j').2.world (c.perform steps j).2.world := by
  induction steps generalizing j' j with
  | nil => exact ⟨rfl, h⟩
  | cons s steps ih =>
      cases s with
      | commit doing batch =>
          have hbatch : ∀ w', (epochTarget e).commit c.durable batch j.world = (.ok (), w') →
              ∀ entry ∈ batch, Database.isKey entry.1 = true := by
            intro w' hmemory entry hentry
            rw [Channel.perform_cons_ok (takeStep_of_accepted ht hmemory)] at hkeys
            obtain ⟨calls, hcalls⟩ := calls_perform ht hc steps
              ⟨w', j.calls ++ [.commit batch (.ok ())]⟩
            refine hkeys entry ?_
            rw [hcalls]
            simp [committed, Call.accepted, hentry]
          have haccepts := Rehearsal.commit_of_accepts (Rehearsal.refuses_of_calm h.calm) c.durable
            batch
          obtain ⟨w', hmemory, hfull | ⟨d', hdisk, hnext⟩⟩ := h.commit c.durable (hbatch _ haccepts)
          · -- the journal of the disk would say so
            have hdisk : (target p).commit c'.durable batch j'.world = _ := hfull
            rw [Channel.perform_cons_error (takeStep_of_refused ht' hdisk)] at hroom
            have hspoiled := hroom _ (List.mem_append_right _ (List.mem_singleton_self _))
            simp [Call.hasRoom] at hspoiled
          · have hdisk : (target p).commit c'.durable batch j'.world = (.ok (), d') := hdisk
            rw [Channel.perform_cons_ok (takeStep_of_accepted ht hmemory)] at hkeys ⊢
            rw [Channel.perform_cons_ok (takeStep_of_accepted ht' hdisk)] at hroom ⊢
            exact ih hnext hroom hkeys
      | pause doing written =>
          have hgoes' : c'.takeStep (.pause doing written) j' = (.ok (), j') := by
            rw [Channel.takeStep, hc', h.beside.cancelled, hlive, if_neg Bool.false_ne_true]
          have hgoes : c.takeStep (.pause doing written) j = (.ok (), j) := by
            rw [Channel.takeStep, hc, h.calm.live, if_neg Bool.false_ne_true]
          rw [Channel.perform_cons_ok hgoes] at hkeys ⊢
          rw [Channel.perform_cons_ok hgoes'] at hroom ⊢
          exact ih h hroom hkeys
      | stop fault =>
          rw [Channel.perform_cons_error rfl, Channel.perform_cons_error rfl]
          exact ⟨rfl, h⟩

lemma faultless (h : Abreast d₀ w₀ p o e copied d w) (hw : w₀.Faultless e) : w.Faultless e :=
  ⟨h.faults ▸ hw.opens, h.faults ▸ hw.compacts, h.faults ▸ hw.closes⟩

section Ending

variable (hw : w₀.Faultless e)
  (hcopy : (Path.join o.path compactedFile).utf8ByteSize < FileTree.pathLimit)
include hw hcopy

/-- Both stores are compacted. -/
lemma compact (h : Abreast d₀ w₀ p o e false d w)
    (hfree : d.tree.node? (p ++ [compactedFile]) ≠ some .directory) :
    ∃ d' w', d.compact p = (.ok (), d') ∧ (epochTarget e).compact w = (.ok (), w') ∧
      Abreast d₀ w₀ p o e true d' w' := by
  have hcompact := h.live.compact_eq_ok.2 ⟨hcopy, hfree, rfl⟩
  obtain ⟨hlive, hbeside⟩ := h.live.compact hcompact
  have hcalm : (w.setEpoch e (w.epoch e).compact).Calm e ↔ w.Calm e :=
    Rehearsal.calm_setEpoch rfl
  refine ⟨_, _, hcompact, Rehearsal.compact_of_faultless (h.faultless hw), ?_,
    h.beside.trans hbeside, hcalm.2 h.calm, h.faults⟩
  have hheld : (w.setEpoch e (w.epoch e).compact).held e = w.held e := by
    rw [Rehearsal.held, Rehearsal.epoch_setEpoch]
    rfl
  rw [hheld]
  exact hlive

/-- Both stores are closed, and the one on the disk rests with what the one in memory holds. -/
lemma close (h : Abreast d₀ w₀ p o e copied d w)
    (hdata : (Path.join o.path dataFile).utf8ByteSize < FileTree.pathLimit)
    (hfree : d.tree.node? (p ++ [compactedFile]) ≠ some .directory) :
    ∃ d' w', d.close p = (.ok (), d') ∧ (epochTarget e).close w = (.ok (), w') ∧
      Rests d' p o.path (w'.held e) ∧ d₀.Beside p d' := by
  obtain ⟨d', hclose⟩ := h.live.exists_close hcopy hdata hfree
  obtain ⟨hrests, hbeside⟩ := h.live.close hclose
  refine ⟨d', _, hclose, Rehearsal.close_of_faultless (h.faultless hw), ?_,
    h.beside.trans hbeside⟩
  have hheld : (w.setEpoch e (w.epoch e).close).held e = w.held e := by
    rw [Rehearsal.held, Rehearsal.epoch_setEpoch]
    rfl
  have hkept : (if copied then some (w.held e) else none).getD (w.held e) = w.held e := by
    cases copied <;> rfl
  rw [hheld, ← hkept]
  exact hrests

end Ending

end Abreast

/-! ### Moving an epoch -/

/-- How a migrator reaches the stores below a root on a disk, with a given archive to read from. -/
def reading (s : Source) (root : String) (mapSize : Nat) : Site Disk :=
  { site [] root mapSize with source := fun _ => s }

end Disk

/-- The report on an epoch without its times. -/
def EpochReport.untimed (r : EpochReport) : EpochReport :=
  { r with startedAt := 0, finishedAt := r.finishedAt.map fun _ => 0 }

namespace Migrator

variable {σ : Type} {site : Site σ} {m : Migrator} {epoch : UInt32}

/-- What is called while an epoch is written stays in the journal. -/
lemma calls_runEpoch {metadata : EpochMetadata} {target : Target σ} {j opened : Journal σ}
    (hmd : m.metadata.get? epoch = some metadata)
    (hopen : site.journaled.openEpoch epoch j = (.ok target.journaled, opened)) :
    ∃ calls, (m.runEpoch site.journaled epoch j).2.calls =
      (m.writeEpoch site.journaled metadata target.journaled opened).2.calls ++ calls := by
  rcases hwrite : m.writeEpoch site.journaled metadata target.journaled opened with
    ⟨e | ⟨⟩, written⟩
  · rw [runEpoch_of_opened hmd hopen (fillEpoch_of_error hwrite) rfl]
    exact ⟨_, rfl⟩
  · obtain ⟨compacted, -, hcalls, -⟩ := settle_journaled m target
      (m.counted (site.source opened.world) metadata
        { epoch, startedAt := site.now opened.world }) written
    rcases hsettle : m.settle target.journaled (m.counted (site.source opened.world) metadata
      { epoch, startedAt := site.now opened.world }) written with ⟨filled, settled⟩
    rw [hsettle] at hcalls
    have hcalls : settled.calls = written.calls ++ (compacted.map Call.compact).toList := hcalls
    rw [runEpoch_of_opened hmd hopen ((fillEpoch_of_ok hwrite).trans hsettle) rfl]
    refine ⟨(compacted.map Call.compact).toList ++ [.close (target.close settled.world).1], ?_⟩
    rw [← List.append_assoc, ← hcalls]

end Migrator

namespace Disk

open Rehearsal (epochTarget)

variable {s : Source} {root : String} {mapSize : Nat} {e : UInt32} {m' m : Migrator}
  {j' : Journal Disk} {j : Journal Rehearsal}

/-- Both stores are settled alike, and stay abreast. -/
lemma Abreast.settle {d₀ : Disk} {w₀ : Rehearsal} {p : Place} {o : OpenStore}
    (h : Abreast d₀ w₀ p o e false j'.world j.world) (hw : w₀.Faultless e)
    (hcopy : (Path.join o.path compactedFile).utf8ByteSize < FileTree.pathLimit)
    (hfree : j'.world.tree.node? (p ++ [compactedFile]) ≠ some .directory)
    (hsettings : m'.settings = m.settings) {report' report : EpochReport}
    (hreports : report'.untimed = report.untimed) :
    ∃ entry' entry settled' settled copied,
      m'.settle (target p).journaled report' j' = (.ok entry', settled') ∧
      m.settle (epochTarget e).journaled report j = (.ok entry, settled) ∧
      entry'.untimed = entry.untimed ∧ Abreast d₀ w₀ p o e copied settled'.world settled.world := by
  unfold Migrator.settle
  rw [hsettings]
  split
  · obtain ⟨d', w', hdisk, hmemory, hnext⟩ := h.compact hw hcopy hfree
    refine ⟨{ report' with compacted := true }, { report with compacted := true },
      ⟨d', j'.calls ++ [.compact (.ok ())]⟩, ⟨w', j.calls ++ [.compact (.ok ())]⟩, true, ?_, ?_,
      ?_, hnext⟩
    · have hdisk : (target p).compact j'.world = (.ok (), d') := hdisk
      simp only [Target.journaled, Journal.note, hdisk]
    · simp only [Target.journaled, Journal.note, hmemory]
    · exact congrArg (fun entry : EpochReport => { entry with compacted := true }) hreports
  · exact ⟨report', report, j', j, false, rfl, rfl, hreports, h⟩

/-- Both stores are written alike, and stay abreast. -/
lemma Abreast.writeEpoch {d₀ : Disk} {w₀ : Rehearsal} {p : Place} {o : OpenStore}
    (h : Abreast d₀ w₀ p o e false j'.world j.world) (hlive : d₀.cancelled = false)
    (hsettings : m'.settings = m.settings) (metadata : EpochMetadata)
    (hroom : ∀ call ∈ (m'.writeEpoch (reading s root mapSize).journaled metadata
      (target p).journaled j').2.calls, call.hasRoom = true)
    (hkeys : ∀ entry ∈ committed (m.writeEpoch (Rehearsal.reading s).journaled metadata
      (epochTarget e).journaled j).2.calls, Database.isKey entry.1 = true) :
    (m'.writeEpoch (reading s root mapSize).journaled metadata (target p).journaled j').1 =
        (m.writeEpoch (Rehearsal.reading s).journaled metadata (epochTarget e).journaled j).1 ∧
      Abreast d₀ w₀ p o e false
        (m'.writeEpoch (reading s root mapSize).journaled metadata (target p).journaled j').2.world
        (m.writeEpoch (Rehearsal.reading s).journaled metadata
          (epochTarget e).journaled j).2.world := by
  have hsteps : m'.epochSteps s metadata = m.epochSteps s metadata := by
    rw [Migrator.epochSteps, hsettings, ← Migrator.epochSteps]
  have hwrite : m'.writeEpoch (reading s root mapSize).journaled metadata (target p).journaled j' =
      (m'.channel (reading s root mapSize).journaled (target p).journaled "").perform
        (m.epochSteps s metadata) j' := by
    rw [← hsteps]
    rfl
  rw [hwrite] at hroom ⊢
  exact h.perform rfl rfl (fun _ => rfl) (fun _ => rfl) hlive _ hroom hkeys

lemma close_journaled {σ : Type} {t : Target σ} {j : Journal σ} {result : Except StoreFault Unit}
    {world : σ} (h : t.close j.world = (result, world)) :
    t.journaled.close j = (result, ⟨world, j.calls ++ [.close result]⟩) := by
  simp only [Target.journaled, Journal.note, h]

/-- Once the stores are open, the epoch is written, settled and closed on either side. -/
lemma runEpoch_of_abreast {d₀ : Disk} {w₀ : Rehearsal} {p : Place} {o : OpenStore}
    {opened' : Journal Disk} {opened : Journal Rehearsal} {metadata : EpochMetadata}
    (hsettings : m'.settings = m.settings) (hmd' : m'.metadata.get? e = some metadata)
    (hmd : m.metadata.get? e = some metadata)
    (hopen' : (reading s root mapSize).journaled.openEpoch e j' =
      (.ok (target p).journaled, opened'))
    (hopen : (Rehearsal.reading s).journaled.openEpoch e j =
      (.ok (epochTarget e).journaled, opened))
    (h : Abreast d₀ w₀ p o e false opened'.world opened.world) (hlive : d₀.cancelled = false)
    (hw : w₀.Faultless e)
    (hcopy : (Path.join o.path compactedFile).utf8ByteSize < FileTree.pathLimit)
    (hdata : (Path.join o.path dataFile).utf8ByteSize < FileTree.pathLimit)
    (hfree : d₀.tree.node? (p ++ [compactedFile]) ≠ some .directory)
    (hroom : ∀ call ∈ (m'.runEpoch (reading s root mapSize).journaled e j').2.calls,
      call.hasRoom = true)
    (hkeys : ∀ entry ∈ committed (m.runEpoch (Rehearsal.reading s).journaled e j).2.calls,
      Database.isKey entry.1 = true) :
    (m'.runEpoch (reading s root mapSize).journaled e j').1.map EpochReport.untimed =
        (m.runEpoch (Rehearsal.reading s).journaled e j).1.map EpochReport.untimed ∧
      Rests (m'.runEpoch (reading s root mapSize).journaled e j').2.world p o.path
        ((m.runEpoch (Rehearsal.reading s).journaled e j).2.world.held e) ∧
      d₀.Beside p (m'.runEpoch (reading s root mapSize).journaled e j').2.world := by
  have hfree : ∀ {d}, d₀.Beside p d → d.tree.node? (p ++ [compactedFile]) ≠ some .directory :=
    fun hbeside hdir => hfree ((hbeside.directories _).1 hdir)
  obtain ⟨more', hmore'⟩ := Migrator.calls_runEpoch hmd' hopen'
  obtain ⟨more, hmore⟩ := Migrator.calls_runEpoch hmd hopen
  rw [hmore'] at hroom
  rw [hmore, committed, List.flatMap_append] at hkeys
  obtain ⟨hout, hwritten⟩ := h.writeEpoch hlive hsettings metadata
    (fun call hcall => hroom call (List.mem_append_left _ hcall))
    (fun entry hentry => hkeys entry (List.mem_append_left _ hentry))
  rcases hwrite' : m'.writeEpoch (reading s root mapSize).journaled metadata (target p).journaled
    opened' with ⟨outcome, written'⟩
  rcases hwrite : m.writeEpoch (Rehearsal.reading s).journaled metadata (epochTarget e).journaled
    opened with ⟨outcome', written⟩
  rw [hwrite', hwrite] at hout hwritten
  cases hout
  cases outcome with
  | error fault =>
      obtain ⟨d', w', hdisk, hmemory, hrests, hbeside⟩ :=
        hwritten.close hw hcopy hdata (hfree hwritten.beside)
      rw [Migrator.runEpoch_of_opened hmd' hopen' (Migrator.fillEpoch_of_error hwrite')
          (close_journaled hdisk),
        Migrator.runEpoch_of_opened hmd hopen (Migrator.fillEpoch_of_error hwrite)
          (close_journaled hmemory)]
      exact ⟨rfl, hrests, hbeside⟩
  | ok _ =>
      -- the reports differ in the times at which the stores were opened
      have hreports : (m'.counted s metadata
            { epoch := e, startedAt := (reading s root mapSize).now opened'.world }).untimed =
          (m.counted s metadata
            { epoch := e, startedAt := (Rehearsal.reading s).now opened.world }).untimed := by
        rw [Migrator.counted, hsettings]
        rfl
      obtain ⟨entry', entry, settled', settled, copied, hsettle', hsettle, hentries, hsettled⟩ :=
        hwritten.settle hw hcopy (hfree hwritten.beside) hsettings hreports
      obtain ⟨d', w', hdisk, hmemory, hrests, hbeside⟩ :=
        hsettled.close hw hcopy hdata (hfree hsettled.beside)
      rw [Migrator.runEpoch_of_opened hmd' hopen'
          ((Migrator.fillEpoch_of_ok hwrite').trans hsettle') (close_journaled hdisk),
        Migrator.runEpoch_of_opened hmd hopen ((Migrator.fillEpoch_of_ok hwrite).trans hsettle)
          (close_journaled hmemory)]
      exact ⟨congrArg Except.ok hentries, hrests, hbeside⟩

end Disk

end EpochSplit
