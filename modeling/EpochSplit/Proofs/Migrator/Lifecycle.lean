import EpochSplit.Proofs.Migrator.Session
import EpochSplit.Proofs.Store.Rehearsal
/-!
# The life of a migrator

What is true of a migrator whenever no call is under way, whatever was asked of it before, whatever
the archive holds and whatever the stores do (`lifecycle`): it is never in the middle of an epoch, a
failure is final, the metadata are those of the archive, the report lists the epochs that were
moved, and no store is opened once the run is cancelled.
-/

namespace EpochSplit

variable {σ : Type} {site : Site σ}

/-! ### Migrators at rest -/

namespace Migrator

/-- The migrator has failed. -/
def Failed (m : Migrator) : Prop := ∃ epoch reason, m.state = .failed epoch reason

/-- What the state of a migrator says about it between two calls. -/
structure Resting (m : Migrator) : Prop where
  settled : ∀ epoch, m.state ≠ .migrating epoch
  unloaded : m.state = .idle → m.metadata = ∅
  unmoved : m.state = .idle ∨ m.state = .metadataLoaded → m.report.epochs = []
  moved : m.state = .done → m.report.epochs ≠ []

variable {m m' : Migrator}

lemma resting_start (site : Site σ) (settings : Settings) (world : σ) :
    (start site settings world).Resting :=
  ⟨fun _ h => (nomatch h), fun _ => rfl, fun _ => rfl, fun h => (nomatch h)⟩

/-- A failure says nothing but that it is one. -/
lemma resting_fail (m : Migrator) (epoch : Option UInt32) (e : Error) : (m.fail epoch e).Resting :=
  ⟨fun _ h => (nomatch h), fun h => (nomatch h), fun h => (nomatch h), fun h => (nomatch h)⟩

/-- A call that fails to load metadata leaves them as they were. -/
lemma Loads.metadata_of_error {s : Source} {e : Error} (h : m.Loads s (.error e) m') :
    m'.metadata = m.metadata := by
  cases h <;> rfl

/-- A call that loads metadata takes those of the archive. -/
lemma Loads.metadata_of_ok {s : Source} (h : m.Loads s (.ok ()) m') :
    s.metadata = .ok m'.metadata ∧ m'.state ≠ .idle := by
  cases h with
  | done idle assembled => exact ⟨assembled, nofun⟩

lemma Loads.epochs_report {s : Source} {r : Except Error Unit} (h : m.Loads s r m') :
    m'.report.epochs = m.report.epochs := by
  cases h <;> rfl

lemma Copies.epochs_report {r : Except Error Unit} (h : m.Copies r m') :
    m'.report.epochs = m.report.epochs := by
  cases h with
  | refused closed => rfl
  | failed ready e listed => exact listed
  | done ready listed => exact listed

lemma Resting.loads {s : Source} {r : Except Error Unit} (hm : m.Resting)
    (h : m.Loads s r m') : m'.Resting := by
  cases h with
  | refused begun => exact hm
  | failed idle e => exact resting_fail m none e
  | done idle assembled =>
      exact ⟨fun _ h => (nomatch h), fun h => (nomatch h), fun _ => hm.unmoved (.inl idle),
        fun h => (nomatch h)⟩

lemma Resting.moves {epoch : UInt32} {r : Except Error Unit} (hm : m.Resting)
    (h : m.Moves epoch r m') : m'.Resting := by
  cases h with
  | refused unready => exact hm
  | failed ready e listed => exact resting_fail _ epoch e
  | done ready about listed =>
      refine ⟨fun _ h => (nomatch h), fun h => (nomatch h), fun h => (nomatch h), fun _ => ?_⟩
      rw [listed]
      exact List.append_ne_nil_of_right_ne_nil _ (List.cons_ne_nil _ _)

lemma Resting.copies {r : Except Error Unit} (hm : m.Resting)
    (h : m.Copies r m') : m'.Resting := by
  cases h with
  | refused closed => exact hm
  | failed ready e listed => exact resting_fail _ none e
  | done ready listed =>
      refine ⟨hm.settled, hm.unloaded, fun h => ?_, fun h => ?_⟩
      · exact listed.trans (hm.unmoved h)
      · exact listed ▸ hm.moved h

/-! ### Failures that are reported -/

/-- If the migrator has failed, the outcome is the error that it remembers. -/
def Reported (o : Except Error Unit) (m : Migrator) : Prop :=
  m.Failed → ∃ e epoch, o = .error e ∧ m.state = .failed epoch e.message

variable {o : Except Error Unit}

lemma Reported.of_sound (h : ¬ m.Failed) : Reported o m := fun hfailed => absurd hfailed h

lemma Reported.sound (h : Reported (.ok ()) m) : ¬ m.Failed := by
  intro hfailed
  obtain ⟨e, epoch, h, -⟩ := h hfailed
  cases h

lemma reported_fail (m : Migrator) (epoch : Option UInt32) (e : Error) :
    Reported (.error e) (m.fail epoch e) :=
  fun _ => ⟨e, epoch, rfl, rfl⟩

lemma Reported.loads {s : Source} (hm : Reported (.ok ()) m) (h : m.Loads s o m') :
    Reported o m' := by
  cases h with
  | refused begun => exact .of_sound hm.sound
  | failed idle e => exact reported_fail m none e
  | done idle assembled => exact .of_sound fun ⟨_, _, h⟩ => nomatch h

lemma Reported.moves {epoch : UInt32} (hm : Reported (.ok ()) m) (h : m.Moves epoch o m') :
    Reported o m' := by
  cases h with
  | refused unready => exact .of_sound hm.sound
  | failed ready e listed => exact reported_fail _ epoch e
  | done ready about listed => exact .of_sound fun ⟨_, _, h⟩ => nomatch h

lemma Reported.copies (hm : Reported (.ok ()) m) (h : m.Copies o m') : Reported o m' := by
  cases h with
  | refused closed => exact .of_sound hm.sound
  | failed ready e listed => exact reported_fail _ none e
  | done ready listed => exact .of_sound hm.sound

/-! ### Metadata that are kept -/

lemma Moves.metadata_eq {epoch : UInt32} (h : m.Moves epoch o m') : m'.metadata = m.metadata := by
  cases h <;> rfl

lemma Copies.metadata_eq (h : m.Copies o m') : m'.metadata = m.metadata := by
  cases h <;> rfl

/-- A migrator loads nothing once it was begun. -/
lemma Loads.eq_of_begun {s : Source} (h : m.Loads s o m') (hm : m.state ≠ .idle) : m' = m := by
  cases h with
  | refused begun => rfl
  | failed idle e => exact absurd idle hm
  | done idle assembled => exact absurd idle hm

lemma Moves.begun {epoch : UInt32} (h : m.Moves epoch o m') (hm : m.state ≠ .idle) :
    m'.state ≠ .idle := by
  cases h with
  | refused unready => exact hm
  | failed ready e listed => exact nofun
  | done ready about listed => exact nofun

lemma Copies.begun (h : m.Copies o m') (hm : m.state ≠ .idle) : m'.state ≠ .idle := by
  cases h with
  | refused closed => exact hm
  | failed ready e listed => exact nofun
  | done ready listed => exact hm

/-! ### Cancelled runs -/

lemma world_migrateEpoch_of_cancelled {epoch : UInt32} {world : σ}
    (h : site.cancelled world = true) : (m.migrateEpoch site epoch world).2.2 = world := by
  cases hready : m.state.canMigrate with
  | false => rw [migrateEpoch_of_unready hready]
  | true => rw [migrateEpoch_of_cancelled hready h]

lemma cancelled_transcode {target : Target σ} (latched : site.Latched target) (m : Migrator)
    (label : String) (items : List (Except Error Entry)) {world : σ}
    (h : site.cancelled world = true) :
    site.cancelled ((m.channel site target label).transcode items world).2.batch.world = true := by
  have hkept := Channel.keeps_perform (c := m.channel site target label)
    (p := fun world => site.cancelled world = true) (fun _ _ hw => latched hw)
    (schedule (m.channel site target label).limit (m.channel site target label).label [] [] 0 items)
    h
  rwa [← Channel.transcode_eq_perform] at hkept

lemma cancelled_copyEach {target : Target σ} (latched : site.Latched target)
    (namespaces : List Namespace) (copied : Std.ExtTreeMap Namespace Nat) {world : σ}
    (m : Migrator) (h : site.cancelled world = true) :
    site.cancelled (m.copyEach site target namespaces copied world).2.2 = true := by
  induction namespaces generalizing copied world m with
  | nil => exact h
  | cons ns namespaces ih =>
      have hnext := cancelled_transcode latched m ns.name
        ((site.source world).items (KeyRange.ofNamespace ns)) h
      simp only [copyEach]
      split
      · next heq =>
          rw [heq] at hnext
          exact hnext
      · next heq =>
          rw [heq] at hnext
          exact ih _ _ hnext

lemma cancelled_copyNamespaces {target : Target σ} (latched : site.Latched target)
    (namespaces : List Namespace) {world : σ} (m : Migrator) (h : site.cancelled world = true) :
    site.cancelled (m.copyNamespaces site target namespaces world).2.2 = true := by
  unfold copyNamespaces
  split
  · exact cancelled_copyEach latched namespaces ∅ m h
  · exact h

end Migrator

namespace Session

variable {token : Token site}

lemma resting_perform (r : Request site) {s : Session σ} (hs : s.migrator.Resting) :
    (r.perform token s).2.migrator.Resting :=
  keeps_migrator (q := fun _ m => m.Resting) r id (fun _ {_ _ _ _} h => h.loads)
    (fun {_ _ _ _} h => h.moves) (fun {_ _ _} h => h.copies) hs

lemma resting_afterAll (token : Token site) (settings : Settings) (world : σ)
    (requests : List (Request site)) :
    ((start site settings world).afterAll token requests).migrator.Resting :=
  keeps_afterAll (q := fun s => s.migrator.Resting) (fun r _ h => resting_perform r h) requests
    (Migrator.resting_start site settings world)

/-! ### Failures -/

/-- The call that makes a migrator fail reports the error that the migrator remembers. -/
lemma reported_perform (r : Request site) {s : Session σ} (hs : ¬ s.migrator.Failed) :
    Migrator.Reported (r.perform token s).1 (r.perform token s).2.migrator :=
  keeps_migrator (q := Migrator.Reported) r (fun {_ _} h => .of_sound h.sound)
    (fun _ {_ _ _ _} h => h.loads) (fun {_ _ _ _} h => h.moves) (fun {_ _ _} h => h.copies)
    (.of_sound hs)

/-- A migrator that has failed does nothing any more. -/
lemma perform_of_failed {r : Request site} (hr : r ≠ .cancel) {s : Session σ}
    (hs : s.migrator.Failed) : (r.perform token s).2 = s := by
  refine keeps_perform (p := fun x => x.2 = s) r (fun _ _ h => h) ?_ ?_ ?_ (fun h => absurd h hr)
    rfl
  all_goals
    obtain ⟨epoch, reason, hstate⟩ := hs
  · rintro - s' rfl
    have hstate : s'.migrator.state = .failed epoch reason := hstate
    simp only [Request.perform, Migrator.loadMetadata, hstate, ne_eq, reduceCtorEq,
      not_false_eq_true, if_true]
  · rintro epoch s' rfl
    have hstate : s'.migrator.state = .failed _ reason := hstate
    rw [move_eq, Migrator.migrateEpoch_of_unready (by rw [hstate]; rfl)]
  · rintro target - namespaces s' rfl
    have hstate : s'.migrator.state = .failed epoch reason := hstate
    simp only [Request.perform, Migrator.copyNamespaces, hstate, MigratorState.canCopy,
      Bool.false_eq_true, if_false]
    rfl

lemma migrator_afterAll_of_failed (token : Token site) (more : List (Request site)) {s : Session σ}
    (hs : s.migrator.Failed) : (s.afterAll token more).migrator = s.migrator := by
  refine keeps_afterAll (q := fun s' => s'.migrator = s.migrator) (fun r s' h => ?_) more rfl
  by_cases hr : r = .cancel
  · rw [hr]
    exact h
  · rwa [perform_of_failed hr (h.symm ▸ hs)]

/-- A migrator that has failed did so in one of its calls. -/
lemma exists_failing_call {s₀ : Session σ} (hs₀ : ¬ s₀.migrator.Failed)
    (requests : List (Request site)) (h : (s₀.afterAll token requests).migrator.Failed) :
    ∃ before r later e epoch, requests = before ++ r :: later ∧
      ¬ (s₀.afterAll token before).migrator.Failed ∧
      (r.perform token (s₀.afterAll token before)).1 = .error e ∧
      (r.perform token (s₀.afterAll token before)).2.migrator.state = .failed epoch e.message := by
  induction requests using List.reverseRecOn with
  | nil => exact absurd h hs₀
  | append_singleton requests r ih =>
      by_cases hbefore : (s₀.afterAll token requests).migrator.Failed
      · obtain ⟨before, r', later, e, epoch, rfl, hcall⟩ := ih hbefore
        exact ⟨before, r', later ++ [r], e, epoch, List.append_assoc _ _ _, hcall⟩
      · rw [afterAll_append, afterAll_cons, afterAll_nil] at h
        obtain ⟨e, epoch, hcall⟩ := reported_perform r hbefore h
        exact ⟨requests, r, [], e, epoch, rfl, hbefore, hcall⟩

/-! ### Metadata -/

/-- Only a call that loads metadata changes them. -/
lemma metadata_perform {r : Request site} (hr : r ≠ .load) (s : Session σ) :
    (r.perform token s).2.migrator.metadata = s.migrator.metadata :=
  keeps_migrator (q := fun _ m => m.metadata = s.migrator.metadata) r id (fun h => absurd h hr)
    (fun {_ _ _ _} h hmoves => hmoves.metadata_eq.trans h)
    (fun {_ _ _} h hcopies => hcopies.metadata_eq.trans h) rfl

lemma loads_perform (token : Token site) (s : Session σ) :
    s.migrator.Loads (site.source s.world) (Request.load.perform token s).1
      (Request.load.perform token s).2.migrator :=
  s.migrator.loads site s.world

lemma metadata_load_of_error {s : Session σ} {e : Error}
    (h : (Request.load.perform token s).1 = .error e) :
    (Request.load.perform token s).2.migrator.metadata = s.migrator.metadata := by
  have hloads : s.migrator.Loads (site.source s.world) (Request.load.perform token s).1 _ :=
    loads_perform token s
  rw [h] at hloads
  exact hloads.metadata_of_error

/-- Metadata are loaded only once. -/
lemma metadata_afterAll (more : List (Request site)) {s : Session σ}
    (hs : s.migrator.state ≠ .idle) :
    (s.afterAll token more).migrator.metadata = s.migrator.metadata := by
  suffices h : (s.afterAll token more).migrator.state ≠ .idle ∧
      (s.afterAll token more).migrator.metadata = s.migrator.metadata from h.2
  refine keeps_afterAll
    (q := fun s' => s'.migrator.state ≠ .idle ∧ s'.migrator.metadata = s.migrator.metadata)
    (fun r s' h => ?_) more ⟨hs, rfl⟩
  refine keeps_migrator
    (q := fun _ m => m.state ≠ .idle ∧ m.metadata = s.migrator.metadata) r id ?_ ?_ ?_ h
  · rintro - m world o m' ⟨hbegun, h⟩ hloads
    rw [hloads.eq_of_begun hbegun]
    exact ⟨hbegun, h⟩
  · rintro epoch m o m' ⟨hbegun, h⟩ hmoves
    exact ⟨hmoves.begun hbegun, hmoves.metadata_eq.trans h⟩
  · rintro m o m' ⟨hbegun, h⟩ hcopies
    exact ⟨hcopies.begun hbegun, hcopies.metadata_eq.trans h⟩

/-- As long as no call has loaded metadata there are none. -/
lemma metadata_of_unloaded {s₀ : Session σ} (requests : List (Request site))
    (hunloaded : ∀ before later, requests = before ++ .load :: later →
      (Request.load.perform token (s₀.afterAll token before)).1 ≠ .ok ()) :
    (s₀.afterAll token requests).migrator.metadata = s₀.migrator.metadata := by
  induction requests using List.reverseRecOn with
  | nil => rfl
  | append_singleton requests r ih =>
      have hbefore := ih fun before later heq =>
        hunloaded before (later ++ [r]) (by rw [heq, List.append_assoc, List.cons_append])
      rw [afterAll_append, afterAll_cons, afterAll_nil, ← hbefore]
      by_cases hr : r = .load
      · subst hr
        cases hload : (Request.load.perform token (s₀.afterAll token requests)).1 with
        | error e => exact metadata_load_of_error hload
        | ok _ => exact absurd hload (hunloaded requests [] rfl)
      · exact metadata_perform hr _

end Session

/-! ### Moves -/

/-- A move of an epoch that a session came to. -/
structure Move (σ : Type) where
  epoch : UInt32
  start : Session σ

namespace Move

/-- Whether the move succeeds. -/
def succeeds (site : Site σ) (a : Move σ) : Bool :=
  (a.start.migrator.migrateEpoch site a.epoch a.start.world).1.isOk

/-- The calls to the store of the epoch that the move makes. -/
def calls (site : Site σ) (a : Move σ) : List Call :=
  a.start.migrator.epochCalls site a.epoch a.start.world

end Move

/-- The moves that are begun when epochs are to be moved one after the other. -/
def Session.moves (site : Site σ) : List UInt32 → Session σ → List (Move σ)
  | [], _ => []
  | epoch :: epochs, s =>
      ⟨epoch, s⟩ ::
        match s.move site epoch with
        | (.ok (), s) => moves site epochs s
        | _ => []

/-- The moves that are begun when a request is met. -/
def Request.moves (r : Request site) (s : Session σ) : List (Move σ) :=
  match r.selection? with
  | none => []
  | some selection =>
      match selection.validate with
      | .error _ => []
      | .ok () => s.moves site (selection.epochs s.migrator.metadata)

/-- The moves that are begun when requests are met one after the other. -/
def Session.movesAll (token : Token site) : List (Request site) → Session σ → List (Move σ)
  | [], _ => []
  | r :: requests, s => r.moves s ++ (r.perform token s).2.movesAll token requests

namespace Session

variable {token : Token site}

lemma moves_cons_ok {epoch : UInt32} {epochs : List UInt32} {s s' : Session σ}
    (h : s.move site epoch = (.ok (), s')) :
    s.moves site (epoch :: epochs) = ⟨epoch, s⟩ :: s'.moves site epochs := by
  simp only [moves, h]

lemma moves_cons_error {epoch : UInt32} {epochs : List UInt32} {s s' : Session σ} {e : Error}
    (h : s.move site epoch = (.error e, s')) :
    s.moves site (epoch :: epochs) = [⟨epoch, s⟩] := by
  simp only [moves, h]

lemma moves_of_selection {r : Request site} {selection : EpochSelection}
    (h : r.selection? = some selection) (s : Session σ) :
    r.moves s =
      match selection.validate with
      | .error _ => []
      | .ok () => s.moves site (selection.epochs s.migrator.metadata) := by
  rw [Request.moves, h]

/-! ### The completed epochs -/

/-- The epochs that the report of the migrator lists. -/
def completed (s : Session σ) : List UInt32 := s.migrator.report.epochs.map (·.epoch)

/-- The epochs of the moves that succeed. -/
def succeeded (site : Site σ) (attempts : List (Move σ)) : List UInt32 :=
  (attempts.filter (·.succeeds site)).map (·.epoch)

lemma succeeded_append (attempts more : List (Move σ)) :
    succeeded site (attempts ++ more) = succeeded site attempts ++ succeeded site more := by
  simp [succeeded]

/-- A move lists its epoch if it succeeds. -/
lemma completed_move (site : Site σ) (epoch : UInt32) (s : Session σ) :
    (s.move site epoch).2.completed = s.completed ++ succeeded site [⟨epoch, s⟩] := by
  have hmoves := s.migrator.moves site epoch s.world
  rw [move_eq]
  simp only [completed, succeeded, Move.succeeds, List.filter_cons, List.filter_nil]
  generalize s.migrator.migrateEpoch site epoch s.world = answer at hmoves ⊢
  obtain ⟨r, m', world'⟩ := answer
  cases hmoves with
  | refused unready => exact (List.append_nil _).symm
  | failed ready e listed => exact (congrArg _ listed).trans (List.append_nil _).symm
  | done ready about listed =>
      simp only [listed, List.map_append, List.map_cons, about]
      rfl

lemma completed_moveEach (epochs : List UInt32) (s : Session σ) :
    (s.moveEach site epochs).2.completed = s.completed ++ succeeded site (s.moves site epochs) := by
  induction epochs generalizing s with
  | nil => exact (List.append_nil _).symm
  | cons epoch epochs ih =>
      have hmove := completed_move site epoch s
      rcases h : s.move site epoch with ⟨e | ⟨⟩, s'⟩
      · rw [h] at hmove
        rw [moveEach_cons_error h, moves_cons_error h, hmove]
      · rw [h] at hmove
        rw [moveEach_cons_ok h, moves_cons_ok h, ih, hmove, List.append_assoc, ← succeeded_append]
        rfl

lemma completed_perform (r : Request site) (s : Session σ) :
    (r.perform token s).2.completed = s.completed ++ succeeded site (r.moves s) := by
  cases hselection : r.selection? with
  | some selection =>
      rw [perform_of_selection hselection, moves_of_selection hselection]
      cases selection.validate with
      | error fault => exact (List.append_nil _).symm
      | ok _ => exact completed_moveEach _ s
  | none =>
      have hlisted : (r.perform token s).2.migrator.report.epochs = s.migrator.report.epochs := by
        cases r with
        | load => exact (loads_perform token s).epochs_report
        | copy target latched namespaces =>
            exact (s.migrator.copies site target namespaces s.world).epochs_report
        | cancel => rfl
        | run | migrateEpoch | migrateRange | migrateAll => cases hselection
      rw [Request.moves, hselection, completed, completed, hlisted]
      exact (List.append_nil _).symm

/-- The report lists the epochs of the moves that succeeded, in order. -/
lemma completed_afterAll (requests : List (Request site)) (s : Session σ) :
    (s.afterAll token requests).completed =
      s.completed ++ succeeded site (s.movesAll token requests) := by
  induction requests generalizing s with
  | nil => exact (List.append_nil _).symm
  | cons r requests ih =>
      rw [afterAll_cons, ih, completed_perform, movesAll, succeeded_append, List.append_assoc]

/-! ### Cancellations -/

lemma calls_of_cancelled {a : Move σ} (h : site.cancelled a.start.world = true) :
    a.calls site = [] :=
  have hjournaled : site.journaled.cancelled { world := a.start.world } = true := h
  congrArg Journal.calls (Migrator.world_migrateEpoch_of_cancelled hjournaled)

lemma cancelled_move (epoch : UInt32) {s : Session σ} (h : site.cancelled s.world = true) :
    site.cancelled (s.move site epoch).2.world = true := by
  rw [move_eq, Migrator.world_migrateEpoch_of_cancelled h]
  exact h

/-- A cancellation is not taken back. -/
lemma cancelled_perform (r : Request site) {s : Session σ} (h : site.cancelled s.world = true) :
    site.cancelled (r.perform token s).2.world = true :=
  keeps_perform (p := fun x => site.cancelled x.2.world = true) r (fun _ _ h => h) (fun _ _ h => h)
    (fun epoch _ h => cancelled_move epoch h)
    (fun _ latched namespaces _ h => Migrator.cancelled_copyNamespaces latched namespaces _ h)
    (fun _ _ _ => token.cancelled_cancel _) h

lemma cancelled_of_mem_moves {epochs : List UInt32} {s : Session σ}
    (h : site.cancelled s.world = true) {a : Move σ} (ha : a ∈ s.moves site epochs) :
    site.cancelled a.start.world = true := by
  induction epochs generalizing s with
  | nil => cases ha
  | cons epoch epochs ih =>
      have hnext := cancelled_move epoch h
      rcases hmove : s.move site epoch with ⟨e | ⟨⟩, s'⟩
      · rw [moves_cons_error hmove, List.mem_singleton] at ha
        rwa [ha]
      · rw [hmove] at hnext
        rw [moves_cons_ok hmove, List.mem_cons] at ha
        obtain rfl | ha := ha
        · exact h
        · exact ih hnext ha

lemma cancelled_of_mem_movesAll {requests : List (Request site)} {s : Session σ}
    (h : site.cancelled s.world = true) {a : Move σ} (ha : a ∈ s.movesAll token requests) :
    site.cancelled a.start.world = true := by
  induction requests generalizing s with
  | nil => cases ha
  | cons r requests ih =>
      rw [movesAll, List.mem_append] at ha
      obtain ha | ha := ha
      · unfold Request.moves at ha
        split at ha
        · cases ha
        · split at ha
          · cases ha
          · exact cancelled_of_mem_moves h ha
      · exact ih (cancelled_perform r h) ha

end Session

/-! ### The life of a migrator -/

/-- What is true of a session after requests. -/
structure Lifecycle (token : Token site) (s₀ : Session σ) (requests : List (Request site)) :
    Prop where
  /-- The migrator is never found in the middle of an epoch. -/
  settled : ∀ epoch, (s₀.afterAll token requests).migrator.state ≠ .migrating epoch
  /-- A migrator that has failed did so in some call, which returned the error that the state
  shows, and it is as that call left it. -/
  failed : (s₀.afterAll token requests).migrator.Failed →
    ∃ before r later e epoch, requests = before ++ r :: later ∧
      ¬ (s₀.afterAll token before).migrator.Failed ∧
      (r.perform token (s₀.afterAll token before)).1 = .error e ∧
      (s₀.afterAll token requests).migrator.state = .failed epoch e.message ∧
      (s₀.afterAll token requests).migrator =
        (r.perform token (s₀.afterAll token before)).2.migrator
  /-- A failure is final: nothing changes the migrator any more, nor does a call change a store. -/
  final : (s₀.afterAll token requests).migrator.Failed → ∀ more : List (Request site),
    (s₀.afterAll token (requests ++ more)).migrator = (s₀.afterAll token requests).migrator ∧
      ∀ r, r ≠ .cancel →
        s₀.afterAll token (requests ++ more ++ [r]) = s₀.afterAll token (requests ++ more)
  /-- Before they are loaded there are no metadata. -/
  unloaded : (∀ before later, requests = before ++ .load :: later →
      (Request.load.perform token (s₀.afterAll token before)).1 ≠ .ok ()) →
    (s₀.afterAll token requests).migrator.metadata = ∅
  /-- Once loaded, the metadata are those that the archive had. -/
  loaded : ∀ before later, requests = before ++ .load :: later →
    (Request.load.perform token (s₀.afterAll token before)).1 = .ok () →
    (site.source (s₀.afterAll token before).world).metadata =
      .ok (s₀.afterAll token requests).migrator.metadata
  /-- The report lists the epochs whose moves succeeded, in order. -/
  listed : (s₀.afterAll token requests).migrator.report.epochs.map (·.epoch) =
    ((s₀.movesAll token requests).filter (·.succeeds site)).map (·.epoch)
  unmoved : (s₀.afterAll token requests).migrator.state = .idle ∨
      (s₀.afterAll token requests).migrator.state = .metadataLoaded →
    (s₀.afterAll token requests).migrator.report.epochs = []
  moved : (s₀.afterAll token requests).migrator.state = .done →
    (s₀.afterAll token requests).migrator.report.epochs ≠ []
  /-- Once the run is cancelled, no move opens a store or calls one. -/
  cancelled : site.cancelled (s₀.afterAll token requests).world = true →
    ∀ more : List (Request site), ∀ a ∈ (s₀.afterAll token requests).movesAll token more,
      a.calls site = []

/-- Whatever is asked of a new migrator, whatever the archive holds and whatever the stores do. -/
theorem lifecycle (token : Token site) (settings : Settings) (world : σ)
    (requests : List (Request site)) :
    Lifecycle token (.start site settings world) requests where
  settled := (Session.resting_afterAll token settings world requests).settled
  failed hfailed := by
    have hstart : ¬ (Session.start site settings world).migrator.Failed :=
      fun ⟨_, _, h⟩ => nomatch h
    obtain ⟨before, r, later, e, epoch, rfl, hbefore, herror, hstate⟩ :=
      Session.exists_failing_call hstart requests hfailed
    have hkept := Session.migrator_afterAll_of_failed token later ⟨_, _, hstate⟩
    rw [Session.afterAll_append, Session.afterAll_cons, hkept]
    exact ⟨before, r, later, e, epoch, rfl, hbefore, herror, hstate, rfl⟩
  final hfailed more := by
    have hkept := Session.migrator_afterAll_of_failed token more hfailed
    rw [Session.afterAll_append]
    refine ⟨hkept, fun r hr => ?_⟩
    rw [Session.afterAll_append, Session.afterAll_append]
    exact Session.perform_of_failed hr (hkept.symm ▸ hfailed)
  unloaded hunloaded := Session.metadata_of_unloaded requests hunloaded
  loaded before later heq hload := by
    subst heq
    have hloads := Session.loads_perform token
      ((Session.start site settings world).afterAll token before)
    rw [hload] at hloads
    obtain ⟨hassembled, hbegun⟩ := hloads.metadata_of_ok
    -- from then on the migrator is not idle any more, so that nothing is loaded again
    rw [Session.afterAll_append, Session.afterAll_cons, Session.metadata_afterAll later hbegun,
      hassembled]
  listed := Session.completed_afterAll requests _
  unmoved := (Session.resting_afterAll token settings world requests).unmoved
  moved := (Session.resting_afterAll token settings world requests).moved
  cancelled hcancelled more a ha :=
    Session.calls_of_cancelled (Session.cancelled_of_mem_movesAll hcancelled ha)

/-! ### A rehearsed session -/

namespace Rehearsal

/-- Cancels a rehearsal. -/
def token : Token Rehearsal.site where
  cancel w := { w with cancelled := true }
  cancelled_cancel _ := rfl

/-- A store at a path can be the target of a copy. -/
lemma latched_placeTarget (path : String) : Rehearsal.site.Latched (placeTarget path) := by
  intro durable batch w hcancelled
  have hcancelled : w.cancelled = true := hcancelled
  simp only [placeTarget]
  split
  · simp only [site, countCommit, setPlace, hcancelled, Bool.true_or]
  · exact hcancelled

/-- A new migrator and the small rehearsal. -/
def sampleSession : Session Rehearsal := .start Rehearsal.site {} sample

example :
    (sampleSession.afterAll token [.load, .migrateAll,
        .copy (placeTarget "copies") (latched_placeTarget "copies") [.tickData], .cancel,
        .migrateEpoch 5]).migrator.state =
      .failed (some 5) "Run error: Migration cancelled after 12 committed records" := by
  decide +kernel

end Rehearsal

end EpochSplit
