import EpochSplit.Proofs.Migrator.Journal
/-!
# Sessions

A session is a migrator together with the world that it acts on.  It is led on by requests, one
after the other: calls of the migrator, and cancellations between them.  Each call that moves epochs
moves those of a selection one by one, up to the first that fails (`Migrator.run_eq`), so that
loading, a single move and copying are all that has to be looked into.  What each of them may do to
the migrator is said once (`Loads`, `Moves`, `Copies`); what they all keep, any session keeps
(`Session.keeps_afterAll`).
-/

namespace EpochSplit

variable {σ : Type}

/-! ### Selections -/

/-- The epochs of a selection, in the order in which they are moved. -/
def EpochSelection.epochs (metadata : StoreMetadata) : EpochSelection → List UInt32
  | .all => metadata.epochNumbers
  | .epoch e => [e]
  | .range start stop => (List.range' start.toNat (stop.toNat + 1 - start.toNat)).map UInt32.ofNat

namespace Migrator

variable {site : Site σ}

lemma migrateEpochs_cons_ok {m m' : Migrator} {epoch : UInt32} {world world' : σ}
    (h : m.migrateEpoch site epoch world = (.ok (), m', world')) (epochs : List UInt32) :
    m.migrateEpochs site (epoch :: epochs) world = m'.migrateEpochs site epochs world' := by
  simp only [migrateEpochs, h]

lemma migrateEpochs_cons_error {m m' : Migrator} {epoch : UInt32} {world world' : σ} {e : Error}
    (h : m.migrateEpoch site epoch world = (.error e, m', world')) (epochs : List UInt32) :
    m.migrateEpochs site (epoch :: epochs) world = (.error e, m', world') := by
  simp only [migrateEpochs, h]

lemma migrateEpochs_singleton (m : Migrator) (epoch : UInt32) (world : σ) :
    m.migrateEpochs site [epoch] world = m.migrateEpoch site epoch world := by
  rcases h : m.migrateEpoch site epoch world with ⟨_ | ⟨⟩, m', world'⟩
  · rw [migrateEpochs_cons_error h]
  · rw [migrateEpochs_cons_ok h]
    rfl

lemma migrateFrom_eq (m : Migrator) (first count : Nat) (world : σ) :
    m.migrateFrom site first count world =
      m.migrateEpochs site ((List.range' first count).map UInt32.ofNat) world := by
  induction count generalizing first m world with
  | zero => rfl
  | succ count ih =>
      rw [List.range'_succ, List.map_cons, migrateFrom, migrateEpochs]
      rcases m.migrateEpoch site (UInt32.ofNat first) world with ⟨_ | ⟨⟩, m', world'⟩
      · rfl
      · exact ih m' (first + 1) world'

/-- Whatever is selected, its epochs are moved one by one, unless the selection is refused. -/
theorem run_eq (m : Migrator) (selection : EpochSelection) (world : σ) :
    m.run site selection world =
      match selection.validate with
      | .error fault => (.error (.config fault), m, world)
      | .ok () => m.migrateEpochs site (selection.epochs m.metadata) world := by
  unfold run
  cases hvalid : selection.validate with
  | error fault => rfl
  | ok _ =>
      cases selection with
      | all => rfl
      | epoch epoch => exact (migrateEpochs_singleton m epoch world).symm
      | range start stop =>
          simp only [migrateRange, hvalid, migrateFrom_eq]
          rfl

end Migrator

/-! ### What calls do to a migrator -/

namespace Migrator

variable {site : Site σ} {m : Migrator}

/-- What loading the metadata of an archive does to a migrator. -/
inductive Loads (m : Migrator) (s : Source) : Except Error Unit → Migrator → Prop
  | refused (begun : m.state ≠ .idle) : Loads m s (.error (m.invalidState "load metadata")) m
  | failed (idle : m.state = .idle) (e : Error) : Loads m s (.error e) (m.fail none e)
  | done (idle : m.state = .idle) {metadata : StoreMetadata}
      (assembled : s.metadata = .ok metadata) :
      Loads m s (.ok ()) { m with metadata, state := .metadataLoaded }

lemma loads (m : Migrator) (site : Site σ) (world : σ) :
    m.Loads (site.source world) ((m.loadMetadata site world).1.map fun _ => ())
      (m.loadMetadata site world).2 := by
  unfold loadMetadata
  split
  · next hbegun => exact .refused hbegun
  · next hidle =>
      have hidle : m.state = .idle := not_not.1 hidle
      cases hmetadata : (site.source world).metadata with
      | error e => exact .failed hidle _
      | ok metadata => exact .done hidle hmetadata

/-- What moving an epoch does to a migrator.  A move that was begun leaves the list of the completed
epochs as it was, or adds to it. -/
inductive Moves (m : Migrator) (epoch : UInt32) : Except Error Unit → Migrator → Prop
  | refused (unready : m.state.canMigrate = false) :
      Moves m epoch (.error (m.invalidState "migrate epoch")) m
  | failed (ready : m.state.canMigrate = true) (e : Error) {report : MigrationReport}
      (listed : report.epochs = m.report.epochs) :
      Moves m epoch (.error e) ({ m with report }.fail epoch e)
  | done (ready : m.state.canMigrate = true) {report : MigrationReport} {entry : EpochReport}
      (about : entry.epoch = epoch) (listed : report.epochs = m.report.epochs ++ [entry]) :
      Moves m epoch (.ok ()) { m with report, state := .done }

lemma moves (m : Migrator) (site : Site σ) (epoch : UInt32) (world : σ) :
    m.Moves epoch (m.migrateEpoch site epoch world).1 (m.migrateEpoch site epoch world).2.1 := by
  cases hready : m.state.canMigrate with
  | false =>
      rw [migrateEpoch_of_unready hready]
      exact .refused hready
  | true =>
      cases hlive : site.cancelled world with
      | true =>
          rw [migrateEpoch_of_cancelled hready hlive]
          exact .failed hready _ rfl
      | false =>
          rcases hrun : m.runEpoch site epoch world with ⟨e | entry, world'⟩
          · rw [migrateEpoch_of_run_error hready hlive hrun]
            exact .failed hready _ rfl
          · obtain ⟨metadata, target, opened, written, settled, -, -, -, hsettle, -⟩ :=
              runEpoch_eq_ok hrun
            obtain ⟨compacted, rfl⟩ := eq_of_settle hsettle
            rw [migrateEpoch_of_run_ok hready hlive hrun]
            exact .done hready rfl rfl

/-- What copying namespaces does to a migrator. -/
inductive Copies (m : Migrator) : Except Error Unit → Migrator → Prop
  | refused (closed : m.state.canCopy = false) :
      Copies m (.error (m.invalidState "copy namespaces")) m
  | failed (ready : m.state.canCopy = true) (e : Error) {report : MigrationReport}
      (listed : report.epochs = m.report.epochs) :
      Copies m (.error e) ({ m with report }.fail none e)
  | done (ready : m.state.canCopy = true) {report : MigrationReport}
      (listed : report.epochs = m.report.epochs) : Copies m (.ok ()) { m with report }

lemma copies_copyEach (site : Site σ) (target : Target σ) (namespaces : List Namespace)
    (copied : Std.ExtTreeMap Namespace Nat) (world : σ) {m : Migrator}
    (hready : m.state.canCopy = true) :
    m.Copies ((m.copyEach site target namespaces copied world).1.map fun _ => ())
      (m.copyEach site target namespaces copied world).2.1 := by
  suffices h : ∀ {r : MigrationReport}, r.epochs = m.report.epochs →
      m.Copies
        ((copyEach site target namespaces copied world { m with report := r }).1.map fun _ => ())
        (copyEach site target namespaces copied world { m with report := r }).2.1 from h rfl
  induction namespaces generalizing copied world with
  | nil => exact fun hlisted => .done hready hlisted
  | cons ns namespaces ih =>
      intro r hlisted
      simp only [copyEach]
      split
      · exact .failed hready _ hlisted
      · exact ih _ _ hlisted

lemma copies (m : Migrator) (site : Site σ) (target : Target σ) (namespaces : List Namespace)
    (world : σ) :
    m.Copies ((m.copyNamespaces site target namespaces world).1.map fun _ => ())
      (m.copyNamespaces site target namespaces world).2.1 := by
  unfold copyNamespaces
  split
  · next hready => exact copies_copyEach site target namespaces ∅ world hready
  · next hclosed => exact .refused (Bool.eq_false_iff.2 hclosed)

end Migrator

/-! ### Requests -/

/-- How a run at a site is cancelled from outside. -/
structure Token (site : Site σ) where
  cancel : σ → σ
  cancelled_cancel : ∀ world, site.cancelled (cancel world) = true

/-- Writing to a store does not take back a cancellation. -/
def Site.Latched (site : Site σ) (target : Target σ) : Prop :=
  ∀ {durable batch world}, site.cancelled world = true →
    site.cancelled (target.commit durable batch world).2 = true

/-- A call of a migrator, or a cancellation of its run. -/
inductive Request (site : Site σ) where
  | load
  | run (selection : EpochSelection)
  | migrateEpoch (epoch : UInt32)
  | migrateRange (start stop : UInt32)
  | migrateAll
  | copy (target : Target σ) (latched : site.Latched target) (namespaces : List Namespace)
  | cancel

/-- The epochs that a request asks to move. -/
def Request.selection? {site : Site σ} : Request site → Option EpochSelection
  | run selection => some selection
  | migrateEpoch epoch => some (.epoch epoch)
  | migrateRange start stop => some (.range start stop)
  | migrateAll => some .all
  | load | copy .. | cancel => none

/-- A migrator and the world that it acts on. -/
structure Session (σ : Type) where
  migrator : Migrator
  world : σ

namespace Session

/-- The session of a migrator that has not done anything. -/
def start (site : Site σ) (settings : Settings) (world : σ) : Session σ :=
  ⟨.start site settings world, world⟩

/-- The outcome of a call, without its result, and the session that it leads to. -/
def after {α : Type} (answer : Except Error α × Migrator × σ) : Except Error Unit × Session σ :=
  (answer.1.map fun _ => (), ⟨answer.2.1, answer.2.2⟩)

/-- Moves an epoch. -/
def move (site : Site σ) (epoch : UInt32) (s : Session σ) : Except Error Unit × Session σ :=
  after (s.migrator.migrateEpoch site epoch s.world)

/-- Moves epochs one after the other, up to the first that fails. -/
def moveEach (site : Site σ) : List UInt32 → Session σ → Except Error Unit × Session σ
  | [], s => (.ok (), s)
  | epoch :: epochs, s =>
      match s.move site epoch with
      | (.ok (), s) => moveEach site epochs s
      | failed => failed

end Session

/-- Meets a request. -/
def Request.perform {site : Site σ} (token : Token site) :
    Request site → Session σ → Except Error Unit × Session σ
  | load, s =>
      let (r, m) := s.migrator.loadMetadata site s.world
      (r.map fun _ => (), { s with migrator := m })
  | run selection, s => Session.after (s.migrator.run site selection s.world)
  | migrateEpoch epoch, s => Session.after (s.migrator.migrateEpoch site epoch s.world)
  | migrateRange start stop, s => Session.after (s.migrator.migrateRange site start stop s.world)
  | migrateAll, s => Session.after (s.migrator.migrateAll site s.world)
  | copy target _ namespaces, s =>
      Session.after (s.migrator.copyNamespaces site target namespaces s.world)
  | cancel, s => (.ok (), { s with world := token.cancel s.world })

namespace Session

variable {site : Site σ} {token : Token site}

/-- The session after requests that are met one after the other. -/
def afterAll (token : Token site) (requests : List (Request site)) (s : Session σ) : Session σ :=
  requests.foldl (fun s r => (r.perform token s).2) s

@[simp] lemma afterAll_nil (s : Session σ) : s.afterAll token [] = s := rfl

@[simp] lemma afterAll_append (requests more : List (Request site)) (s : Session σ) :
    s.afterAll token (requests ++ more) = (s.afterAll token requests).afterAll token more := by
  simp [afterAll]

@[simp] lemma afterAll_cons (r : Request site) (requests : List (Request site)) (s : Session σ) :
    s.afterAll token (r :: requests) = (r.perform token s).2.afterAll token requests := rfl

lemma move_eq (s : Session σ) (epoch : UInt32) :
    s.move site epoch =
      ((s.migrator.migrateEpoch site epoch s.world).1,
        ⟨(s.migrator.migrateEpoch site epoch s.world).2.1,
          (s.migrator.migrateEpoch site epoch s.world).2.2⟩) := by
  unfold move after
  rcases s.migrator.migrateEpoch site epoch s.world with ⟨_ | ⟨⟩, m, world⟩ <;> rfl

lemma moveEach_cons_ok {epoch : UInt32} {epochs : List UInt32} {s s' : Session σ}
    (h : s.move site epoch = (.ok (), s')) :
    s.moveEach site (epoch :: epochs) = s'.moveEach site epochs := by
  simp only [moveEach, h]

lemma moveEach_cons_error {epoch : UInt32} {epochs : List UInt32} {s s' : Session σ} {e : Error}
    (h : s.move site epoch = (.error e, s')) :
    s.moveEach site (epoch :: epochs) = (.error e, s') := by
  simp only [moveEach, h]

lemma after_migrateEpochs (epochs : List UInt32) (s : Session σ) :
    after (s.migrator.migrateEpochs site epochs s.world) = s.moveEach site epochs := by
  induction epochs generalizing s with
  | nil => rfl
  | cons epoch epochs ih =>
      rcases h : s.migrator.migrateEpoch site epoch s.world with ⟨e | ⟨⟩, m, world⟩
      · have hmove : s.move site epoch = (.error e, ⟨m, world⟩) := by rw [move, h]; rfl
        rw [moveEach_cons_error hmove, Migrator.migrateEpochs_cons_error h]
        rfl
      · have hmove : s.move site epoch = (.ok (), ⟨m, world⟩) := by rw [move, h]; rfl
        rw [moveEach_cons_ok hmove, ← ih, Migrator.migrateEpochs_cons_ok h]

/-- Every call that moves epochs moves those of its selection one by one. -/
lemma perform_of_selection {r : Request site} {selection : EpochSelection}
    (h : r.selection? = some selection) (s : Session σ) :
    r.perform token s =
      match selection.validate with
      | .error fault => (.error (.config fault), s)
      | .ok () => s.moveEach site (selection.epochs s.migrator.metadata) := by
  have hrun : r.perform token s = after (s.migrator.run site selection s.world) := by
    cases r with
    | run | migrateEpoch | migrateAll =>
        cases h
        rfl
    | migrateRange start stop =>
        cases h
        simp only [Request.perform, Migrator.run, Migrator.migrateRange]
        cases (EpochSelection.range start stop).validate <;> rfl
    | load | copy | cancel => cases h
  rw [hrun, Migrator.run_eq]
  cases selection.validate with
  | error fault => rfl
  | ok _ => exact after_migrateEpochs _ s

/-! ### What every session keeps -/

variable {p : Except Error Unit × Session σ → Prop}

lemma keeps_moveEach (hmove : ∀ epoch s, p (.ok (), s) → p (s.move site epoch))
    (epochs : List UInt32) {s : Session σ} (hs : p (.ok (), s)) : p (s.moveEach site epochs) := by
  induction epochs generalizing s with
  | nil => exact hs
  | cons epoch epochs ih =>
      have hnext := hmove epoch s hs
      rcases h : s.move site epoch with ⟨e | ⟨⟩, s'⟩
      · rw [h] at hnext
        rwa [moveEach_cons_error h]
      · rw [h] at hnext
        rw [moveEach_cons_ok h]
        exact ih hnext

/-- What refusals, loading, a move and copying keep, every request keeps, whatever it is. -/
theorem keeps_perform (r : Request site)
    (hrefused : ∀ e s, p (.ok (), s) → p (.error e, s))
    (hload : r = .load → ∀ s, p (.ok (), s) → p (Request.load.perform token s))
    (hmove : ∀ epoch s, p (.ok (), s) → p (s.move site epoch))
    (hcopy : ∀ target latched namespaces s, p (.ok (), s) →
      p ((Request.copy target latched namespaces).perform token s))
    (hcancel : r = .cancel → ∀ s, p (.ok (), s) → p (Request.cancel.perform token s))
    {s : Session σ} (hs : p (.ok (), s)) : p (r.perform token s) := by
  cases hselection : r.selection? with
  | some selection =>
      rw [perform_of_selection hselection]
      cases selection.validate with
      | error fault => exact hrefused _ s hs
      | ok _ => exact keeps_moveEach hmove _ hs
  | none =>
      cases r with
      | load => exact hload rfl s hs
      | copy target latched namespaces => exact hcopy target latched namespaces s hs
      | cancel => exact hcancel rfl s hs
      | run | migrateEpoch | migrateRange | migrateAll => cases hselection

/-- What refusals, loading, a move and copying keep about a migrator, every request keeps. -/
theorem keeps_migrator {q : Except Error Unit → Migrator → Prop} (r : Request site)
    (hrefused : ∀ {e m}, q (.ok ()) m → q (.error e) m)
    (hload : r = .load → ∀ {m world o m'}, q (.ok ()) m → m.Loads (site.source world) o m' → q o m')
    (hmove : ∀ {epoch m o m'}, q (.ok ()) m → m.Moves epoch o m' → q o m')
    (hcopy : ∀ {m o m'}, q (.ok ()) m → m.Copies o m' → q o m')
    {s : Session σ} (hs : q (.ok ()) s.migrator) :
    q (r.perform token s).1 (r.perform token s).2.migrator := by
  refine keeps_perform (p := fun x => q x.1 x.2.migrator) r (fun e s h => hrefused h) ?_ ?_ ?_
    (fun _ _ h => h) hs
  · exact fun hr s h => hload hr h (s.migrator.loads site s.world)
  · intro epoch s h
    rw [move_eq]
    exact hmove h (s.migrator.moves site epoch s.world)
  · exact fun target _ namespaces s h =>
      hcopy h (s.migrator.copies site target namespaces s.world)

/-- What every request keeps, every session keeps. -/
theorem keeps_afterAll {q : Session σ → Prop}
    (hperform : ∀ (r : Request site) s, q s → q (r.perform token s).2)
    (requests : List (Request site)) {s : Session σ} (hs : q s) : q (s.afterAll token requests) :=
  List.foldlRecOn (motive := q) requests _ hs fun _ hs r _ => hperform r _ hs

end Session

end EpochSplit
