import EpochSplit.Proofs.Migrator.BatchSize
import EpochSplit.Proofs.Migrator.Refusal
import EpochSplit.Proofs.Store.Overlay
/-!
# Epochs in any order

A move reaches no store but that of its own epoch, and what it does there is decided by the archive,
the settings and that store: which epochs were moved before makes no difference.  So epochs can be
moved in any order (`isolated`).  The latter is read off from what a whole run leaves in each store,
which only depends on whether its epoch is among those moved (`effect_migrateEpochs`).
-/

namespace EpochSplit

/-! ### Stores with a limit -/

namespace MemoryStore

/-- The number of batches that the store still takes, if there is a limit. -/
def room (t : MemoryStore) : Option Nat := t.refusal.map (· - (t.commits + 1))

lemma refuses_iff_room (t : MemoryStore) : t.refuses = true ↔ t.room = some 0 := by
  cases h : t.refusal with
  | none => simp [refuses, room, h]
  | some limit => simp [refuses, room, h, Nat.sub_eq_zero_iff_le]

lemma room_commit {t : MemoryStore} (h : t.refuses = false) (durable : Bool) (batch : List Entry) :
    (t.commit durable batch).2.room = t.room.map (· - 1) := by
  simp only [commit, h, Bool.false_eq_true, if_false, room, Option.map_map]
  rfl

end MemoryStore

namespace Rehearsal

variable {s : Source} {e e' : UInt32} {w' w : Rehearsal}

/-! ### Other stores -/

lemma getElem?_setEpoch_of_ne (h : e' ≠ e) (w : Rehearsal) (t : MemoryStore) :
    (w.setEpoch e t).epochs[e']? = w.epochs[e']? := by
  rw [setEpoch, Std.ExtTreeMap.getElem?_insert, if_neg]
  simpa using h.symm

/-- A move of an epoch tells nothing about the stores of others, nor about stores at a path. -/
theorem tracks_others (h : e' ≠ e) :
    (reading s).Tracks e (fun w => (w.epochs[e']?, w.places)) (fun a _ => a) id :=
  tracks (fun _ => rfl) (fun _ _ _ => rfl)
    (fun w => Prod.ext (getElem?_setEpoch_of_ne h w _) rfl)
    (fun w _ _ _ => Prod.ext (getElem?_setEpoch_of_ne h w _) rfl)
    (fun w => Prod.ext (getElem?_setEpoch_of_ne h w _) rfl)
    (fun w => Prod.ext (getElem?_setEpoch_of_ne h w _) rfl)

/-- A move changes no store but that of its epoch. -/
theorem epochs_migrateEpoch_of_ne (m : Migrator) (s : Source) (h : e' ≠ e) (w : Rehearsal) :
    (m.migrateEpoch (reading s) e w).2.2.epochs[e']? = w.epochs[e']? ∧
      (m.migrateEpoch (reading s) e w).2.2.places = w.places :=
  Prod.ext_iff.1 (Migrator.view_migrateEpoch_of_const (tracks_others h) m w)

/-! ### The store of the epoch -/

/-- Two worlds that a move of an epoch cannot tell apart: neither run is cancelled, and the stores
of the epoch hold the same and take as many batches. -/
structure Agree (e : UInt32) (w' w : Rehearsal) : Prop where
  held : w'.held e = w.held e
  room : (w'.epoch e).room = (w.epoch e).room
  left : w'.cancelled = false ∧ w'.cancelAfter = none
  right : w.cancelled = false ∧ w.cancelAfter = none
  faults : w'.faults = w.faults

lemma Agree.setEpoch {t' t : MemoryStore} (h : Agree e w' w) (ht' : SameRecords t' (w'.epoch e))
    (ht : SameRecords t (w.epoch e)) : Agree e (w'.setEpoch e t') (w.setEpoch e t) where
  held := by
    rw [Rehearsal.held, Rehearsal.held, epoch_setEpoch, epoch_setEpoch, ht'.contents, ht.contents]
    exact h.held
  room := by
    have hroom := h.room
    rw [epoch_setEpoch, epoch_setEpoch]
    simp only [MemoryStore.room, ht'.commits, ht'.refusal, ht.commits, ht.refusal] at hroom ⊢
    exact hroom
  left := h.left
  right := h.right
  faults := h.faults

/-- Stores that agree take the same batches, and agree afterwards. -/
lemma Agree.commit (h : Agree e w' w) (durable : Bool) (batch : List Entry) :
    Alike (Agree e) ((epochTarget e).commit durable batch w')
      ((epochTarget e).commit durable batch w) := by
  have hrefuses : (w'.epoch e).refuses = (w.epoch e).refuses := by
    rw [Bool.eq_iff_iff, MemoryStore.refuses_iff_room, MemoryStore.refuses_iff_room, h.room]
  cases hr : (w.epoch e).refuses with
  | true =>
      rw [commit_of_refuses hr, commit_of_refuses (hrefuses.trans hr)]
      exact ⟨rfl, h⟩
  | false =>
      have hr' := hrefuses.trans hr
      rw [commit_of_accepts hr, commit_of_accepts hr']
      refine ⟨rfl, ?_, ?_, (live_countCommit _).2 h.left, (live_countCommit _).2 h.right, h.faults⟩
      · rw [Rehearsal.held, Rehearsal.held, epoch_countCommit, epoch_countCommit, epoch_setEpoch,
          epoch_setEpoch, MemoryStore.contents_commit, MemoryStore.contents_commit, hr', hr]
        exact congrArg (Contents.overlay · batch) h.held
      · rw [epoch_countCommit, epoch_countCommit, epoch_setEpoch, epoch_setEpoch,
          MemoryStore.room_commit hr', MemoryStore.room_commit hr, h.room]

lemma matches_agree (s : Source) (e : UInt32) :
    (reading s).Matches e (Agree e) (fun t' t => t' = epochTarget e ∧ t = epochTarget e)
      (reading s) :=
  matches_of (fun h => h.left.1.trans h.right.1.symm) Agree.faults Agree.setEpoch

end Rehearsal

/-! ### The migrator -/

/-- The migrator has given settings, and knows an archive once it may move its epochs. -/
structure Migrator.Serves (m : Migrator) (s : Source) (settings : Settings) : Prop where
  settings : m.settings = settings
  loaded : m.state.canMigrate = true → s.metadata = .ok m.metadata

namespace Rehearsal

variable {s : Source} {e e' : UInt32} {w' w : Rehearsal} {m' m : Migrator}

/-- Whatever was asked of it before, a migrator serves its archive. -/
theorem serves_afterAll (token : Token (reading s)) (settings : Settings) (w : Rehearsal)
    (requests : List (Request (reading s))) :
    ((Session.start (reading s) settings w).afterAll token requests).migrator.Serves s
      settings := by
  refine Session.keeps_afterAll (q := fun a => a.migrator.Serves s settings) (fun r a h => ?_)
    requests ⟨rfl, nofun⟩
  refine Session.keeps_migrator (q := fun _ m => m.Serves s settings) r id ?_ ?_ ?_ h
  · rintro - m world o m' h hloads
    cases hloads with
    | refused begun => exact h
    | failed idle e => exact ⟨h.settings, nofun⟩
    | done idle assembled => exact ⟨h.settings, fun _ => assembled⟩
  · rintro epoch m o m' h hmoves
    cases hmoves with
    | refused unready => exact h
    | failed ready e listed => exact ⟨h.settings, nofun⟩
    | done ready about listed => exact ⟨h.settings, fun _ => h.loaded ready⟩
  · rintro m o m' h hcopies
    cases hcopies with
    | refused closed => exact h
    | failed ready e listed => exact ⟨h.settings, nofun⟩
    | done ready listed => exact ⟨h.settings, h.loaded⟩

/-- What a move comes to is decided by the archive, the settings and the store of the epoch. -/
theorem migrateEpoch_of_agree {settings : Settings} (hm' : m'.Serves s settings)
    (hm : m.Serves s settings) (hready' : m'.state.canMigrate = true)
    (hready : m.state.canMigrate = true) (hw : Agree e w' w) :
    (m'.migrateEpoch (reading s) e w').1 = (m.migrateEpoch (reading s) e w).1 ∧
      (m'.migrateEpoch (reading s) e w').2.2.held e =
        (m.migrateEpoch (reading s) e w).2.2.held e := by
  have hsettings : m'.settings = m.settings := hm'.settings.trans hm.settings.symm
  have hmetadata : m'.metadata = m.metadata :=
    Except.ok.inj ((hm'.loaded hready').symm.trans (hm.loaded hready))
  have hwrite : Migrator.WritesAlike (Agree e) (fun t' t => t' = epochTarget e ∧ t = epochTarget e)
      (reading s) (reading s) m' m := by
    refine Migrator.writesAlike_of_commits (matches_agree s e) hsettings ?_
    rintro t' t ⟨rfl, rfl⟩ durable batch w' w h
    exact h.commit durable batch
  obtain ⟨hout, hworlds⟩ := Migrator.outcome_alike (matches_agree s e)
    ⟨hmetadata, by rw [hsettings], by rw [hsettings]⟩ hready' hready hwrite hw hw.right.1
  exact ⟨hout, hworlds.held⟩

/-! ### A move among others -/

/-- What the store of an epoch holds, if there is one. -/
def stored (w : Rehearsal) (e : UInt32) : Option Contents := (w.epochs[e]?).map (·.contents)

lemma held_eq_stored (w : Rehearsal) (e : UInt32) : w.held e = (w.stored e).getD ∅ := by
  rw [held, epoch, stored]
  cases w.epochs[e]? <;> rfl

end Rehearsal

namespace Migrator

/-- What there is to write for an epoch, in order. -/
def entriesOf (m : Migrator) (s : Source) (e : UInt32) : List Entry :=
  (m.metadata.get? e).elim [] (m.epochEntries s)

/-- The numbers of records that there are to write for an epoch. -/
def tallyOf (m : Migrator) (s : Source) (e : UInt32) : Tally :=
  (m.metadata.get? e).elim ∅ fun metadata =>
    (m.counted s metadata { epoch := e, startedAt := 0 }).records

end Migrator

/-- What the report says about epochs, in the order in which they ran. -/
def MigrationReport.tallies (r : MigrationReport) : List (UInt32 × Tally) :=
  r.epochs.map fun entry => (entry.epoch, entry.records)

lemma MigrationReport.records_epoch? (r : MigrationReport) (e : UInt32) :
    (r.epoch? e).map (·.records) = (r.tallies.reverse.find? (·.1 == e)).map (·.2) := by
  simp only [epoch?, tallies, ← List.map_reverse, List.find?_map, Option.map_map]
  rfl

/-- The last report on an epoch among those on epochs that ran. -/
lemma find?_reverse_map (es : List UInt32) (tally : UInt32 → Tally) (e : UInt32) :
    (es.map fun e => (e, tally e)).reverse.find? (·.1 == e) =
      if e ∈ es then some (e, tally e) else none := by
  induction es using List.reverseRecOn with
  | nil => rfl
  | append_singleton es last ih =>
      rw [List.map_append, List.reverse_append, List.map_singleton, List.reverse_singleton,
        List.singleton_append, List.find?_cons, ih]
      by_cases h : last = e
      · simp [h]
      · simp [beq_false_of_ne h, Ne.symm h]

namespace Rehearsal

variable {s : Source} {e e' : UInt32} {w w₁ w₂ : Rehearsal} {m m₁ m₂ : Migrator}

/-- What a move that succeeds leaves in the store and in the report. -/
lemma move_eq_ok (h : m.migrateEpoch (reading s) e w = (.ok (), m₁, w₁)) :
    m₁.state.canMigrate = true ∧
      w₁.stored e = some ((w.held e).overlay (m.entriesOf s e)) ∧
      m₁.report.tallies = m.report.tallies ++ [(e, m.tallyOf s e)] := by
  obtain ⟨metadata, _, opened, hmd, -, -, hheld⟩ := Migrator.view_migrateEpoch_ok tracks_held h
  obtain ⟨metadata', target, opened', written, report, settled, hmd', hopen, -, hsettle, hclose, -,
    -, rfl⟩ := Migrator.migrateEpoch_eq_ok h
  obtain rfl : metadata' = metadata := Option.some.inj (hmd'.symm.trans hmd)
  obtain ⟨rfl, -⟩ := openEpoch_eq_ok hopen
  obtain ⟨compacted, rfl⟩ := Migrator.eq_of_settle hsettle
  refine ⟨rfl, ?_, ?_⟩
  · -- the store was closed, so it is there
    have hthere : w₁.epochs[e]? = some (w₁.epoch e) := by
      obtain rfl : w₁ = settled.setEpoch e (settled.epoch e).close :=
        (congrArg Prod.snd hclose).symm
      simp [setEpoch, epoch]
    rw [stored, hthere, Migrator.entriesOf, hmd]
    exact congrArg some hheld
  · rw [Migrator.tallyOf, hmd]
    simp only [MigrationReport.tallies, MigrationReport.push, MigrationReport.touch,
      List.map_append, List.map_cons, List.map_nil]
    rfl

lemma calm_migrateEpoch (m : Migrator) (s : Source) (e : UInt32) (hw : w.Calm e') :
    (m.migrateEpoch (reading s) e w).2.2.Calm e' := by
  obtain ⟨hlive, hunending⟩ := (Migrator.view_migrateEpoch_of_const (tracks_live (s := s)) m w).mpr
    ⟨hw.live, hw.unending⟩
  refine ⟨?_, hlive, hunending⟩
  by_cases h : e' = e
  · subst h
    exact (Migrator.view_migrateEpoch_of_const tracks_refusal m w).trans hw.accepts
  · rw [epoch, (epochs_migrateEpoch_of_ne m s h w).1]
    exact hw.accepts

/-- A run over epochs that are all calm at first, in the midst of moving them. -/
structure Underway (m : Migrator) (w : Rehearsal) (es : List UInt32) (m₁ : Migrator)
    (w₁ : Rehearsal) : Prop where
  ready : m₁.state.canMigrate = true
  settings : m₁.settings = m.settings
  metadata : m₁.metadata = m.metadata
  calm : ∀ e ∈ es, BothCalm e w₁ w

namespace Underway

variable {es : List UInt32}

lemma refl (hready : m.state.canMigrate = true) (hw : ∀ e ∈ es, w.Calm e) :
    Underway m w es m w :=
  ⟨hready, rfl, rfl, fun e he => ⟨hw e he, hw e he, rfl⟩⟩

/-- Whether the next move succeeds can be told from the start. -/
lemma outcome (h : Underway m w es m₁ w₁) (hready : m.state.canMigrate = true) (he : e ∈ es) :
    (m₁.migrateEpoch (reading s) e w₁).1 = (m.migrateEpoch (reading s) e w).1 := by
  have hm : m₁.SameTask m := ⟨h.metadata, by rw [h.settings], by rw [h.settings]⟩
  exact (Migrator.outcome_alike (matches_bothCalm s e) hm h.ready hready
    (writesAlike_of_calm s hm) (h.calm e he) (h.calm e he).right.live).outcome

lemma next (h : Underway m w es m₁ w₁)
    (hmove : m₁.migrateEpoch (reading s) e w₁ = (.ok (), m₂, w₂)) : Underway m w es m₂ w₂ := by
  have hkeeps := m₁.migrateEpoch_keeps (reading s) e w₁
  have hfaults := Migrator.view_migrateEpoch_of_const (tracks_faults (s := s) (e := e)) m₁ w₁
  rw [hmove] at hkeeps hfaults
  refine ⟨(move_eq_ok hmove).1, (congrArg Migrator.settings hkeeps).trans h.settings,
    (congrArg Migrator.metadata hkeeps).trans h.metadata,
    fun e' he' => ⟨?_, (h.calm e' he').right, ?_⟩⟩
  · have hcalm := calm_migrateEpoch m₁ s e (h.calm e' he').left
    rwa [hmove] at hcalm
  · exact hfaults.trans (h.calm e' he').faults

end Underway

/-! ### Whole runs -/

namespace Underway

variable {es all : List UInt32}

/-- The rest of a run succeeds if and only if each of its moves would succeed at first. -/
lemma succeeds_iff (h : Underway m w all m₁ w₁) (hready : m.state.canMigrate = true)
    (hes : es ⊆ all) :
    (m₁.migrateEpochs (reading s) es w₁).1 = .ok () ↔
      ∀ e ∈ es, (m.migrateEpoch (reading s) e w).1 = .ok () := by
  induction es generalizing m₁ w₁ with
  | nil => exact ⟨fun _ _ he => (nomatch he), fun _ => rfl⟩
  | cons e es ih =>
      obtain ⟨he, hes⟩ := List.cons_subset.1 hes
      have hout := h.outcome (s := s) hready he
      rw [List.forall_mem_cons, ← hout]
      rcases hmove : m₁.migrateEpoch (reading s) e w₁ with ⟨err | ⟨⟩, m₂, w₂⟩
      · rw [Migrator.migrateEpochs_cons_error hmove]
        exact ⟨nofun, fun hok => nomatch hok.1⟩
      · rw [Migrator.migrateEpochs_cons_ok hmove, ih (h.next hmove) hes]
        exact ⟨fun hok => ⟨rfl, hok⟩, And.right⟩

end Underway

/-- A move makes no difference to what there is to write and to count. -/
lemma entriesOf_migrateEpoch (m : Migrator) (s : Source) (e e' : UInt32) (w : Rehearsal) :
    (m.migrateEpoch (reading s) e w).2.1.entriesOf s e' = m.entriesOf s e' ∧
      (m.migrateEpoch (reading s) e w).2.1.tallyOf s e' = m.tallyOf s e' := by
  rw [Migrator.migrateEpoch_keeps]
  exact ⟨rfl, rfl⟩

/-- What a run that succeeds leaves in the stores and in the report. -/
theorem effect_migrateEpochs {es : List UInt32}
    (hok : (m.migrateEpochs (reading s) es w).1 = .ok ()) :
    (∀ e, (m.migrateEpochs (reading s) es w).2.2.stored e =
        if e ∈ es then some ((w.held e).overlay (m.entriesOf s e)) else w.stored e) ∧
      (m.migrateEpochs (reading s) es w).2.1.report.tallies =
        m.report.tallies ++ es.map fun e => (e, m.tallyOf s e) := by
  induction es generalizing m w with
  | nil => exact ⟨fun _ => rfl, (List.append_nil _).symm⟩
  | cons e es ih =>
      rcases hmove : m.migrateEpoch (reading s) e w with ⟨err | ⟨⟩, m₁, w₁⟩
      · rw [Migrator.migrateEpochs_cons_error hmove] at hok
        cases hok
      · rw [Migrator.migrateEpochs_cons_ok hmove] at hok ⊢
        obtain ⟨hstored, htallies⟩ := ih hok
        obtain ⟨-, hthis, htally⟩ := move_eq_ok hmove
        have hkeeps : ∀ e', m₁.entriesOf s e' = m.entriesOf s e' ∧
            m₁.tallyOf s e' = m.tallyOf s e' := by
          intro e'
          have hkeeps := entriesOf_migrateEpoch m s e e' w
          rwa [hmove] at hkeeps
        refine ⟨fun e' => ?_, ?_⟩
        · rw [hstored, (hkeeps e').1]
          by_cases heq : e' = e
          · -- moving the epoch once more absorbs what this move wrote
            subst heq
            rw [held_eq_stored w₁, hthis, Option.getD_some,
              Contents.overlay_overlay_of_prefix List.prefix_rfl, if_pos List.mem_cons_self]
            exact ite_self _
          · have hother : w₁.stored e' = w.stored e' := by
              have hframe := (epochs_migrateEpoch_of_ne m s heq w).1
              rw [hmove] at hframe
              exact congrArg (Option.map _) hframe
            rw [held_eq_stored w₁, held_eq_stored w, hother]
            simp only [List.mem_cons, heq, false_or]
        · rw [htallies, htally, List.append_assoc]
          simp only [hkeeps]
          rfl

/-! ### Any order -/

/-- Runs that both succeed, and leave the same in each store and the same counts in the report. -/
structure SameEffect (x y : Except Error Unit × Migrator × Rehearsal) : Prop where
  left : x.1 = .ok ()
  right : y.1 = .ok ()
  stored : ∀ e, x.2.2.stored e = y.2.2.stored e
  tallies : x.2.1.report.tallies.Perm y.2.1.report.tallies
  /-- The last reports on an epoch count the same. -/
  counts : ∀ e, (x.2.1.report.epoch? e).map (·.records) = (y.2.1.report.epoch? e).map (·.records)

/-- What is true of moving the epochs of an archive. -/
structure Isolated (s : Source) : Prop where
  /-- A move changes no store but that of its epoch. -/
  apart : ∀ (m : Migrator) (w : Rehearsal) {e e' : UInt32}, e' ≠ e →
    (m.migrateEpoch (reading s) e w).2.2.epochs[e']? = w.epochs[e']? ∧
      (m.migrateEpoch (reading s) e w).2.2.places = w.places
  /-- Whatever was asked of it before, a migrator serves its archive. -/
  serves : ∀ (token : Token (reading s)) (settings : Settings) (w : Rehearsal)
    (requests : List (Request (reading s))),
    ((Session.start (reading s) settings w).afterAll token requests).migrator.Serves s settings
  /-- What a move comes to is decided by the settings, by what the store of its epoch holds and by
  how many batches it takes, whatever else the migrators did and the worlds hold. -/
  decided : ∀ {settings : Settings} {m' m : Migrator} {w' w : Rehearsal} {e : UInt32},
    m'.Serves s settings → m.Serves s settings → m'.state.canMigrate = true →
    m.state.canMigrate = true → Agree e w' w →
      (m'.migrateEpoch (reading s) e w').1 = (m.migrateEpoch (reading s) e w).1 ∧
        (m'.migrateEpoch (reading s) e w').2.2.held e =
          (m.migrateEpoch (reading s) e w).2.2.held e
  /-- Without limits, a run succeeds if and only if each of its moves succeeds at first. -/
  succeeds : ∀ {m : Migrator} {w : Rehearsal} {es : List UInt32}, m.state.canMigrate = true →
    (∀ e ∈ es, w.Calm e) →
      ((m.migrateEpochs (reading s) es w).1 = .ok () ↔
        ∀ e ∈ es, (m.migrateEpoch (reading s) e w).1 = .ok ())
  /-- Without limits, epochs that can be moved can be moved in any order, with the same effect. -/
  ordered : ∀ {m : Migrator} {w : Rehearsal} {es es' : List UInt32}, m.state.canMigrate = true →
    (∀ e ∈ es, w.Calm e) → (∀ e ∈ es, (m.migrateEpoch (reading s) e w).1 = .ok ()) →
    es.Perm es' →
      SameEffect (m.migrateEpochs (reading s) es w) (m.migrateEpochs (reading s) es' w)

/-- Epochs that can be moved can be moved in any order, since what a run leaves only depends on
which epochs are in its list. -/
lemma migrateEpochs_perm {es es' : List UInt32} (hready : m.state.canMigrate = true)
    (hw : ∀ e ∈ es, w.Calm e) (hok : ∀ e ∈ es, (m.migrateEpoch (reading s) e w).1 = .ok ())
    (hperm : es.Perm es') :
    SameEffect (m.migrateEpochs (reading s) es w) (m.migrateEpochs (reading s) es' w) := by
  have hunderway : Underway m w es m w := .refl hready hw
  have hrun := (hunderway.succeeds_iff hready (List.Subset.refl es)).2 hok
  have hrun' := (hunderway.succeeds_iff hready hperm.symm.subset).2
    fun e he => hok e (hperm.mem_iff.2 he)
  obtain ⟨hstored, htallies⟩ := effect_migrateEpochs hrun
  obtain ⟨hstored', htallies'⟩ := effect_migrateEpochs hrun'
  refine ⟨hrun, hrun', fun e => ?_, ?_, fun e => ?_⟩
  · simp only [hstored, hstored', hperm.mem_iff]
  · rw [htallies, htallies']
    exact (hperm.map _).append_left _
  · simp only [MigrationReport.records_epoch?, htallies, htallies', List.reverse_append,
      List.find?_append, find?_reverse_map, hperm.mem_iff]

/-- Epochs are moved apart from each other. -/
theorem isolated (s : Source) : Isolated s where
  apart m w _ _ h := epochs_migrateEpoch_of_ne m s h w
  serves := serves_afterAll
  decided := migrateEpoch_of_agree
  succeeds hready hw := (Underway.refl hready hw).succeeds_iff hready (List.Subset.refl _)
  ordered := migrateEpochs_perm

/-! ### Two epochs -/

/-- An archive with two epochs. -/
def twoEpochs : Source :=
  .ofContents <| SampleArchive.ofItems
    [.epoch { epoch := 5, ranges := [⟨10, 11⟩], transactionsPerTick := 0 },
      .epoch { epoch := 6, ranges := [⟨12, 12⟩], transactionsPerTick := 0 }]

/-- A migrator of this archive. -/
def twoEpochsMigrator : Migrator := .fresh (reading twoEpochs) {} {}

/-- The two epochs can be moved in either order. -/
theorem isolated_twoEpochs :
    SameEffect (twoEpochsMigrator.migrateEpochs (reading twoEpochs) [5, 6] {})
      (twoEpochsMigrator.migrateEpochs (reading twoEpochs) [6, 5] {}) := by
  have hready : twoEpochsMigrator.state.canMigrate = true := by decide +kernel
  have hcalm : ∀ e ∈ [5, 6], Calm {} e := by
    intro e _
    exact ⟨by simp [epoch], rfl, rfl⟩
  have hfirst : (twoEpochsMigrator.migrateEpoch (reading twoEpochs) 5 {}).1 = .ok () := by
    decide +kernel
  have hsecond : (twoEpochsMigrator.migrateEpoch (reading twoEpochs) 6 {}).1 = .ok () := by
    decide +kernel
  have hok : ∀ e ∈ [5, 6],
      (twoEpochsMigrator.migrateEpoch (reading twoEpochs) e {}).1 = .ok () :=
    List.forall_mem_cons.2 ⟨hfirst, List.forall_mem_singleton.2 hsecond⟩
  exact (isolated twoEpochs).ordered hready hcalm hok (.swap 6 5 [])

end Rehearsal

end EpochSplit
