import EpochSplit.Proofs.Migrator.Isolation
import Mathlib.Data.List.Sort
/-!
# The first failure

A range of epochs and the epochs of a whole archive are moved in the same way: in ascending order,
one after the other, up to the first that fails (`migrateRange_firstFailure`).  The epochs before it
are completed, those after it are not begun, and no store of theirs is opened.
-/

namespace EpochSplit

/-! ### Epochs in order -/

namespace StoreMetadata

variable {s : StoreMetadata} {epoch : UInt32}

lemma mem_epochNumbers : epoch ∈ s.epochNumbers ↔ ∃ metadata, s.get? epoch = some metadata := by
  rw [epochNumbers, Std.ExtTreeMap.mem_keys, mem_iff_exists_getElem?]
  rfl

end StoreMetadata

namespace EpochSelection

lemma mem_epochs_range {start stop epoch : UInt32} (metadata : StoreMetadata) :
    epoch ∈ (range start stop).epochs metadata ↔ start ≤ epoch ∧ epoch ≤ stop := by
  have hstop : stop.toNat < UInt32.size := stop.toNat_lt
  simp only [epochs, List.mem_map, List.mem_range'_1, UInt32.le_iff_toNat_le]
  -- a number up to `stop` is that of a word
  constructor
  · rintro ⟨n, hn, rfl⟩
    rw [UInt32.toNat_ofNat_of_lt' (by omega)]
    omega
  · rintro ⟨hstart, hle⟩
    exact ⟨epoch.toNat, by omega, UInt32.ofNat_toNat⟩

lemma pairwise_epochs (selection : EpochSelection) (metadata : StoreMetadata) :
    (selection.epochs metadata).Pairwise (· < ·) := by
  cases selection with
  | all => exact metadata.pairwise_epochNumbers
  | epoch e => exact List.pairwise_singleton _ e
  | range start stop =>
      have hstop : stop.toNat < UInt32.size := stop.toNat_lt
      refine List.pairwise_map.2 ((List.pairwise_lt_range' 1).imp_of_mem ?_)
      intro a b ha hb hlt
      rw [List.mem_range'_1] at ha hb
      rw [UInt32.lt_iff_toNat_lt, UInt32.toNat_ofNat_of_lt' (by omega),
        UInt32.toNat_ofNat_of_lt' (by omega)]
      exact hlt

end EpochSelection

/-! ### Stores that are opened -/

/-- The epoch whose store a call opens, whether it succeeds or not. -/
def Call.opens? : Call → Option UInt32
  | opened epoch _ => some epoch
  | _ => none

/-- The epochs whose stores calls open, in order. -/
def openedEpochs (calls : List Call) : List UInt32 := calls.filterMap Call.opens?

lemma openedEpochs_concat (calls : List Call) (call : Call) :
    openedEpochs (calls ++ [call]) = openedEpochs calls ++ call.opens?.toList := by
  cases call <;> simp [openedEpochs, Call.opens?]

lemma openedEpochs_concat_of_none (calls : List Call) {call : Call} (h : call.opens? = none) :
    openedEpochs (calls ++ [call]) = openedEpochs calls := by
  rw [openedEpochs_concat, h]
  exact List.append_nil _

namespace Migrator

variable {σ : Type} {site : Site σ} {m m' m₁ : Migrator} {epoch : UInt32} {epochs : List UInt32}

/-- The calls that moving epochs one after the other makes. -/
def runCalls (m : Migrator) (site : Site σ) (epochs : List UInt32) (world : σ) : List Call :=
  (m.migrateEpochs site.journaled epochs { world }).2.2.calls

/-- Writing an epoch opens no store. -/
lemma openedEpochs_writeEpoch (site : Site σ) (m : Migrator) (metadata : EpochMetadata)
    (target : Target σ) (j : Journal σ) :
    openedEpochs (m.writeEpoch site.journaled metadata target.journaled j).2.calls =
      openedEpochs j.calls := by
  refine Channel.keeps_perform
    (p := fun j' : Journal σ => openedEpochs j'.calls = openedEpochs j.calls)
    (fun batch {j'} h => ?_) _ rfl
  exact (openedEpochs_concat_of_none _ rfl).trans h

/-- An epoch that is not known is not moved. -/
lemma migrateEpoch_of_unknown {world : σ} (hmd : m.metadata.get? epoch = none) :
    (m.migrateEpoch site epoch world).1.isOk = false ∧
      (m.migrateEpoch site epoch world).2.2 = world := by
  cases hready : m.state.canMigrate with
  | false =>
      rw [migrateEpoch_of_unready hready]
      exact ⟨rfl, rfl⟩
  | true =>
      cases hlive : site.cancelled world with
      | true =>
          rw [migrateEpoch_of_cancelled hready hlive]
          exact ⟨rfl, rfl⟩
      | false =>
          rw [migrateEpoch_of_run_error hready hlive (runEpoch_of_unknown hmd)]
          exact ⟨rfl, rfl⟩

/-- A move fails at once, or it opens the store of its epoch, which is known, and no other. -/
lemma openedEpochs_migrateEpoch (m : Migrator) (site : Site σ) (epoch : UInt32) (j : Journal σ) :
    ((m.migrateEpoch site.journaled epoch j).1.isOk = false ∧
        (m.migrateEpoch site.journaled epoch j).2.2 = j) ∨
      (∃ metadata, m.metadata.get? epoch = some metadata) ∧
        openedEpochs (m.migrateEpoch site.journaled epoch j).2.2.calls =
          openedEpochs j.calls ++ [epoch] := by
  cases hmd : m.metadata.get? epoch with
  | none => exact .inl (migrateEpoch_of_unknown hmd)
  | some metadata =>
      -- the outcome does not matter any more, only what was called on the way
      have hcourse := m.migrateEpoch_course site.journaled epoch j
      generalize (m.migrateEpoch site.journaled epoch j).1.isOk = succeeded at hcourse
      generalize (m.migrateEpoch site.journaled epoch j).2.2 = j' at hcourse
      cases hcourse with
      | idle => exact .inl ⟨rfl, rfl⟩
      | unopened opening =>
          rcases hopen : site.openEpoch epoch j.world with ⟨fault | target, world⟩
          · rw [openEpoch_journaled_error hopen] at opening
            cases opening
            exact .inr ⟨⟨_, rfl⟩, openedEpochs_concat _ _⟩
          · rw [openEpoch_journaled_ok hopen] at opening
            cases opening
      | @moved metadata target' opened written reached outcome _ known opening writing complete
          settling =>
          rcases hopen : site.openEpoch epoch j.world with ⟨fault | target, world⟩
          · rw [openEpoch_journaled_error hopen] at opening
            cases opening
          · rw [openEpoch_journaled_ok hopen] at opening
            cases opening
            have hwritten := openedEpochs_writeEpoch site m metadata target
              ⟨world, j.calls ++ [.opened epoch (.ok ())]⟩
            rw [writing, openedEpochs_concat] at hwritten
            refine .inr ⟨⟨_, rfl⟩, ?_⟩
            -- neither compacting nor closing opens a store
            obtain rfl | rfl := settling
            · exact (openedEpochs_concat_of_none _ rfl).trans hwritten
            · refine (openedEpochs_concat_of_none _ rfl).trans ?_
              exact (openedEpochs_concat_of_none _ rfl).trans hwritten

/-! ### One move after the other -/

/-- Epochs are moved one after the other, each with success. -/
inductive MovesEach (site : Site σ) : List UInt32 → Migrator → σ → Migrator → σ → Prop
  | nil {m : Migrator} {world : σ} : MovesEach site [] m world m world
  | cons {epoch : UInt32} {epochs : List UInt32} {m m₁ m' : Migrator} {world world₁ world' : σ}
      (first : m.migrateEpoch site epoch world = (.ok (), m₁, world₁))
      (rest : MovesEach site epochs m₁ world₁ m' world') :
      MovesEach site (epoch :: epochs) m world m' world'

/-- What is left after moves that succeed goes on from where they lead. -/
lemma MovesEach.migrateEpochs_append {world world' : σ}
    (h : MovesEach site epochs m world m' world') (more : List UInt32) :
    m.migrateEpochs site (epochs ++ more) world = m'.migrateEpochs site more world' := by
  induction h with
  | nil => rfl
  | cons first rest ih => rw [List.cons_append, migrateEpochs_cons_ok first, ih]

/-- A run succeeds if and only if each of its moves does, one after the other. -/
lemma migrateEpochs_eq_ok_iff {world world' : σ} :
    m.migrateEpochs site epochs world = (.ok (), m', world') ↔
      MovesEach site epochs m world m' world' := by
  constructor
  · intro h
    induction epochs generalizing m world with
    | nil =>
        cases h
        exact .nil
    | cons epoch epochs ih =>
        rcases hmove : m.migrateEpoch site epoch world with ⟨e | ⟨⟩, m₁, world₁⟩
        · rw [migrateEpochs_cons_error hmove] at h
          cases h
        · rw [migrateEpochs_cons_ok hmove] at h
          exact .cons hmove (ih h)
  · intro h
    have hrun := h.migrateEpochs_append []
    rwa [List.append_nil] at hrun

/-- A run that fails moves some epochs and fails at the next one. -/
lemma migrateEpochs_eq_error {world world' : σ} {e : Error}
    (h : m.migrateEpochs site epochs world = (.error e, m', world')) :
    ∃ done f rest m₁ world₁, epochs = done ++ f :: rest ∧
      MovesEach site done m world m₁ world₁ ∧
      m₁.migrateEpoch site f world₁ = (.error e, m', world') := by
  induction epochs generalizing m world with
  | nil => cases h
  | cons epoch epochs ih =>
      rcases hmove : m.migrateEpoch site epoch world with ⟨e | ⟨⟩, m₁, world₁⟩
      · rw [migrateEpochs_cons_error hmove] at h
        cases h
        exact ⟨[], epoch, epochs, m, world, rfl, .nil, hmove⟩
      · rw [migrateEpochs_cons_ok hmove] at h
        obtain ⟨done, f, rest, m₂, world₂, rfl, hdone, hf⟩ := ih h
        exact ⟨epoch :: done, f, rest, m₂, world₂, rfl, .cons hmove hdone, hf⟩

namespace MovesEach

variable {world world' : σ}

lemma canMigrate (h : MovesEach site epochs m world m' world') (hm : m.state.canMigrate = true) :
    m'.state.canMigrate = true := by
  induction h with
  | nil => exact hm
  | @cons epoch _ m _ _ world _ _ first rest ih =>
      have hmoves := m.moves site epoch world
      rw [first] at hmoves
      cases hmoves
      exact ih rfl

lemma metadata_eq (h : MovesEach site epochs m world m' world') : m'.metadata = m.metadata := by
  induction h with
  | nil => rfl
  | @cons epoch _ m _ _ world _ _ first rest ih =>
      have hmoves := m.moves site epoch world
      rw [first] at hmoves
      exact ih.trans hmoves.metadata_eq

/-- The epochs that are moved are listed in the report, in order. -/
lemma listed (h : MovesEach site epochs m world m' world') :
    ∃ entries, m'.report.epochs = m.report.epochs ++ entries ∧
      entries.map (·.epoch) = epochs := by
  induction h with
  | nil => exact ⟨[], (List.append_nil _).symm, rfl⟩
  | @cons epoch _ m _ _ world _ _ first rest ih =>
      have hmoves := m.moves site epoch world
      rw [first] at hmoves
      cases hmoves with
      | @done ready report entry about listed =>
          obtain ⟨entries, happend, hmap⟩ := ih
          refine ⟨entry :: entries, ?_, by rw [List.map_cons, about, hmap]⟩
          exact happend.trans (by rw [listed, List.append_assoc, List.singleton_append])

/-- What no move changes, all of them leave as it is. -/
lemma view_eq {α : Type} {view : σ → α}
    (ht : ∀ epoch ∈ epochs, site.Tracks epoch view (fun a _ => a) id)
    (h : MovesEach site epochs m world m' world') : view world' = view world := by
  induction h with
  | nil => rfl
  | @cons epoch _ m _ _ world _ _ first rest ih =>
      obtain ⟨hfirst, hrest⟩ := List.forall_mem_cons.1 ht
      have hview := view_migrateEpoch_of_const hfirst m world
      rw [first] at hview
      exact (ih hrest).trans hview

/-- The moves open the store of each epoch once, in order. -/
lemma journaled (h : MovesEach site epochs m world m' world') (calls : List Call) :
    ∃ calls', MovesEach site.journaled epochs m ⟨world, calls⟩ m' ⟨world', calls'⟩ ∧
      openedEpochs calls' = openedEpochs calls ++ epochs := by
  induction h generalizing calls with
  | nil => exact ⟨calls, .nil, (List.append_nil _).symm⟩
  | @cons epoch _ m _ _ world _ _ first rest ih =>
      have herased := m.migrateEpoch_journaled site epoch ⟨world, calls⟩
      have hopened := openedEpochs_migrateEpoch m site epoch ⟨world, calls⟩
      rcases hmove : m.migrateEpoch site.journaled epoch ⟨world, calls⟩ with ⟨r, m₁, world₁, calls₁⟩
      rw [hmove] at herased hopened
      cases herased.trans first
      obtain ⟨hfailed, -⟩ | ⟨-, hopened⟩ := hopened
      · cases hfailed
      · obtain ⟨calls', hrest, hcalls⟩ := ih calls₁
        refine ⟨calls', .cons hmove hrest, hcalls.trans ?_⟩
        rw [hopened, List.append_assoc, List.singleton_append]

end MovesEach

/-! ### The epoch that fails -/

/-- The epochs in front of one of them, if they are in order. -/
lemma filter_lt_of_pairwise {done rest : List UInt32} {f : UInt32}
    (h : (done ++ f :: rest).Pairwise (· < ·)) : (done ++ f :: rest).filter (· < f) = done := by
  obtain ⟨-, hrest, hdone⟩ := List.pairwise_append.1 h
  rw [List.filter_append, List.filter_eq_self.2, List.filter_eq_nil_iff.2, List.append_nil]
  · intro epoch hepoch
    obtain rfl | hlater := List.mem_cons.1 hepoch
    · simp
    · simpa using UInt32.le_of_lt (List.rel_of_pairwise_cons hrest hlater)
  · exact fun epoch hepoch => decide_eq_true (hdone epoch hepoch f List.mem_cons_self)

/-- A run over `epochs` ends at `f`, the first that fails, with the error of `f`. -/
structure StopsAt (m : Migrator) (site : Site σ) (epochs : List UInt32) (world : σ) (f : UInt32)
    (e : Error) (m' : Migrator) (world' : σ) : Prop where
  asked : f ∈ epochs
  /-- The epochs below it are moved, and then it fails. -/
  fails : ∃ m₁ world₁, MovesEach site (epochs.filter (· < f)) m world m₁ world₁ ∧
    m₁.migrateEpoch site f world₁ = (.error e, m', world')
  state : m'.state = .failed (some f) e.message
  /-- The report says so of the epochs below it, and of no others. -/
  listed : ∃ entries, m'.report.epochs = m.report.epochs ++ entries ∧
    entries.map (·.epoch) = epochs.filter (· < f)
  /-- No store is opened but those of the epochs below it, and its own if it is known. -/
  opened : openedEpochs (m.runCalls site epochs world) = epochs.filter (· < f) ∨
    (∃ metadata, m.metadata.get? f = some metadata) ∧
      openedEpochs (m.runCalls site epochs world) = epochs.filter (· < f) ++ [f]
  /-- What the stores that are opened do not change is as it was. -/
  untouched : ∀ {α : Type} {view : σ → α},
    (∀ epoch ∈ openedEpochs (m.runCalls site epochs world),
      site.Tracks epoch view (fun a _ => a) id) → view world' = view world

/-- A move that fails is noted in the state, and in the report it adds nothing to the list. -/
lemma Moves.of_error {e : Error} (h : m.Moves epoch (.error e) m')
    (hm : m.state.canMigrate = true) :
    m'.state = .failed (some epoch) e.message ∧ m'.report.epochs = m.report.epochs := by
  cases h with
  | refused unready =>
      rw [hm] at unready
      cases unready
  | failed ready e listed => exact ⟨rfl, listed⟩

/-- Which stores a run opens that fails at `f`: if not that of `f`, nothing happens at `f`. -/
lemma openedEpochs_runCalls {done : List UInt32} {f : UInt32} {world world₁ world' : σ} {e : Error}
    (hdone : MovesEach site done m world m₁ world₁)
    (hf : m₁.migrateEpoch site f world₁ = (.error e, m', world')) (rest : List UInt32) :
    (openedEpochs (m.runCalls site (done ++ f :: rest) world) = done ∧ world' = world₁) ∨
      (∃ metadata, m.metadata.get? f = some metadata) ∧
        openedEpochs (m.runCalls site (done ++ f :: rest) world) = done ++ [f] := by
  -- the same run with a journal
  obtain ⟨calls, hdone', hcalls⟩ := hdone.journaled []
  have herased := m₁.migrateEpoch_journaled site f ⟨world₁, calls⟩
  have hopened := openedEpochs_migrateEpoch m₁ site f ⟨world₁, calls⟩
  rcases hf' : m₁.migrateEpoch site.journaled f ⟨world₁, calls⟩ with ⟨r, m₂, world₂, calls₂⟩
  rw [hf'] at herased hopened
  cases herased.trans hf
  have hrun : m.runCalls site (done ++ f :: rest) world = calls₂ := by
    rw [runCalls, hdone'.migrateEpochs_append, migrateEpochs_cons_error hf']
  rw [hrun]
  obtain ⟨-, hidle⟩ | ⟨hknown, hopened⟩ := hopened
  · cases hidle
    exact .inl ⟨hcalls, rfl⟩
  · rw [hdone.metadata_eq] at hknown
    exact .inr ⟨hknown, hopened.trans (congrArg (· ++ [f]) hcalls)⟩

/-- A run over epochs in ascending order that fails stops at one of them. -/
lemma exists_stopsAt {world world' : σ} {e : Error} (hm : m.state.canMigrate = true)
    (hepochs : epochs.Pairwise (· < ·))
    (h : m.migrateEpochs site epochs world = (.error e, m', world')) :
    ∃ f, StopsAt m site epochs world f e m' world' := by
  obtain ⟨done, f, rest, m₁, world₁, rfl, hdone, hf⟩ := migrateEpochs_eq_error h
  have hbelow := filter_lt_of_pairwise hepochs
  have hopened := openedEpochs_runCalls hdone hf rest
  have hmoves := m₁.moves site f world₁
  rw [hf] at hmoves
  obtain ⟨hstate, hlisted⟩ := hmoves.of_error (hdone.canMigrate hm)
  refine ⟨f, List.mem_append_right _ List.mem_cons_self, ⟨m₁, world₁, by rwa [hbelow], hf⟩, hstate,
    ?_, ?_, ?_⟩
  · obtain ⟨entries, happend, hmap⟩ := hdone.listed
    exact ⟨entries, hlisted.trans happend, hmap.trans hbelow.symm⟩
  · rw [hbelow]
    exact hopened.imp_left And.left
  · intro α view ht
    obtain ⟨hopened, rfl⟩ | ⟨-, hopened⟩ := hopened
    · rw [hopened] at ht
      exact hdone.view_eq ht
    · rw [hopened] at ht
      obtain ⟨hbefore, hlast⟩ := List.forall_mem_append.1 ht
      have hview := view_migrateEpoch_of_const (hlast f List.mem_cons_self) m₁ world₁
      rw [hf] at hview
      exact hview.trans (hdone.view_eq hbefore)

/-- A call moves epochs in ascending order, one after the other, up to the first that fails. -/
structure Sequential (m : Migrator) (site : Site σ) (epochs : List UInt32) (world : σ)
    (answer : Except Error Unit × Migrator × σ) : Prop where
  ascending : epochs.Pairwise (· < ·)
  succeeds_iff : ∀ {m' : Migrator} {world' : σ},
    answer = (.ok (), m', world') ↔ MovesEach site epochs m world m' world'
  stops : ∀ {e : Error} {m' : Migrator} {world' : σ}, answer = (.error e, m', world') →
    ∃ f, StopsAt m site epochs world f e m' world'

lemma sequential_migrateEpochs (site : Site σ) (world : σ) (hm : m.state.canMigrate = true)
    (hepochs : epochs.Pairwise (· < ·)) :
    Sequential m site epochs world (m.migrateEpochs site epochs world) :=
  ⟨hepochs, migrateEpochs_eq_ok_iff, exists_stopsAt hm hepochs⟩

lemma migrateRange_eq {start stop : UInt32} (hle : start ≤ stop) (world : σ) :
    m.migrateRange site start stop world =
      m.migrateEpochs site ((EpochSelection.range start stop).epochs m.metadata) world := by
  have hvalid : (EpochSelection.range start stop).validate = .ok () := by
    simp [EpochSelection.validate, UInt32.not_lt.2 hle]
  simp only [migrateRange, hvalid, migrateFrom_eq]
  rfl

/-- A range of epochs is moved one after the other, up to the first that fails, and so are all
epochs that are known; which is the same if those of the range are the known ones. -/
theorem migrateRange_firstFailure (site : Site σ) {m : Migrator} {start stop : UInt32} (world : σ)
    (hm : m.state.canMigrate = true) (hle : start ≤ stop) :
    (∀ epoch, epoch ∈ (EpochSelection.range start stop).epochs m.metadata ↔
        start ≤ epoch ∧ epoch ≤ stop) ∧
      Sequential m site ((EpochSelection.range start stop).epochs m.metadata) world
        (m.migrateRange site start stop world) ∧
      Sequential m site m.metadata.epochNumbers world (m.migrateAll site world) ∧
      ((∀ epoch, (∃ metadata, m.metadata.get? epoch = some metadata) ↔
          start ≤ epoch ∧ epoch ≤ stop) →
        m.migrateAll site world = m.migrateRange site start stop world) := by
  have hrange := EpochSelection.pairwise_epochs (.range start stop) m.metadata
  have hall := m.metadata.pairwise_epochNumbers
  refine ⟨fun epoch => EpochSelection.mem_epochs_range m.metadata, ?_,
    sequential_migrateEpochs site world hm hall, fun hknown => ?_⟩
  · rw [migrateRange_eq hle]
    exact sequential_migrateEpochs site world hm hrange
  · -- two ascending lists of the same epochs are the same list
    have hsame : m.metadata.epochNumbers = (EpochSelection.range start stop).epochs m.metadata :=
      hall.eq_of_mem_iff hrange fun epoch => by
        rw [StoreMetadata.mem_epochNumbers, hknown, EpochSelection.mem_epochs_range]
    rw [migrateRange_eq hle, ← hsame]
    rfl

end Migrator

namespace Rehearsal

/-- Where the epoch after the last is asked for as well, the run stops there. -/
theorem migrateRange_firstFailure_twoEpochs :
    twoEpochsMigrator.state.canMigrate = true ∧ (5 : UInt32) ≤ 7 ∧
      ∃ e m' world',
        twoEpochsMigrator.migrateRange (reading twoEpochs) 5 7 {} = (.error e, m', world') ∧
        twoEpochsMigrator.StopsAt (reading twoEpochs) [5, 6, 7] {} 7 e m' world' := by
  have hready : twoEpochsMigrator.state.canMigrate = true := by decide +kernel
  have hle : (5 : UInt32) ≤ 7 := by decide
  refine ⟨hready, hle, ?_⟩
  obtain ⟨-, hsequential, -⟩ :=
    Migrator.migrateRange_firstFailure (reading twoEpochs) {} hready hle
  have hrun : (twoEpochsMigrator.migrateRange (reading twoEpochs) 5 7 {}).1.isOk = false ∧
      (twoEpochsMigrator.migrateRange (reading twoEpochs) 5 7 {}).2.1.report.epochs.map (·.epoch) =
        [5, 6] := by
    decide +kernel
  obtain ⟨hfailed, hlisted⟩ := hrun
  -- the report lists the first two, so it is the third that failed
  rcases hrun : twoEpochsMigrator.migrateRange (reading twoEpochs) 5 7 {} with ⟨e | ⟨⟩, m', world'⟩
  · rw [hrun] at hlisted
    obtain ⟨f, hstops⟩ := hsequential.stops hrun
    have hseven : f = 7 := by
      obtain ⟨entries, happend, hmap⟩ := hstops.listed
      have hbelow : [5, 6, 7].filter (· < f) = [5, 6] := by
        rw [← hlisted, happend]
        exact hmap.symm
      have hasked : f ∈ ([5, 6, 7] : List UInt32) := hstops.asked
      simp only [List.mem_cons, List.not_mem_nil, or_false] at hasked
      rcases hasked with rfl | rfl | rfl
      · exact absurd hbelow (by decide)
      · exact absurd hbelow (by decide)
      · rfl
    subst hseven
    exact ⟨e, m', world', rfl, hstops⟩
  · rw [hrun] at hfailed
    cases hfailed

end Rehearsal

end EpochSplit
