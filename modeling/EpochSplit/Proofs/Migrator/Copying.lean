import EpochSplit.Proofs.Batch.Staging
import EpochSplit.Proofs.Key.Order
import EpochSplit.Proofs.Migrator.References
/-!
# Copying namespaces

A copy that succeeds lays the pairs of the namespaces over what the store held, and a copy that
fails has copied the namespaces in front of the one at which it failed, and of that one some first
pairs, in whole batches (`copyNamespaces_exact`).  Either way a store that holds the pairs of the
namespaces is left as it is.
-/

namespace EpochSplit

variable {σ : Type}

/-- Writing to a store does not change the archive. -/
def Site.Spares (site : Site σ) (target : Target σ) : Prop :=
  ∀ {durable batch world}, site.source (target.commit durable batch world).2 = site.source world

namespace Contents

/-- The pairs of a namespace, in ascending order. -/
def within (c : Contents) (ns : Namespace) : List Entry := c.scan (.ofNamespace ns)

lemma mem_within {archive : Contents} {ns : Namespace} {e : Entry} :
    e ∈ archive.within ns ↔
      archive[e.1]? = some e.2 ∧ (KeyRange.ofNamespace ns).contains e.1 = true :=
  mem_scan

/-- Laying pairs of an archive over contents takes over their keys. -/
lemma getElem?_overlay_of_archive {archive : Contents} {entries : List Entry}
    (h : ∀ e ∈ entries, archive[e.1]? = some e.2) (base : Contents) (key : Bytes) :
    (base.overlay entries)[key]? =
      if key ∈ entries.map Prod.fst then archive[key]? else base[key]? := by
  rw [getElem?_overlay]
  cases hlast : lastValue? entries key with
  | none => rw [if_neg (lastValue?_eq_none_iff.1 hlast), Option.none_or]
  | some value =>
      have hmem := mem_of_lastValue? hlast
      rw [if_pos (List.mem_map_of_mem hmem), h _ hmem, Option.some_or]

/-- Writing what is there already changes nothing. -/
lemma overlay_of_present {held : Contents} {entries : List Entry}
    (h : ∀ e ∈ entries, held[e.1]? = some e.2) : held.overlay entries = held := by
  refine Std.ExtTreeMap.ext_getElem? fun key => ?_
  rw [getElem?_overlay]
  cases hlast : lastValue? entries key with
  | none => rfl
  | some value => exact (h _ (mem_of_lastValue? hlast)).symm

end Contents

/-- A scan is read as a whole, or it fails and is a single error. -/
lemma Source.Reads.items_eq {s : Source} {archive : Contents} (h : s.Reads archive) (r : KeyRange) :
    s.items r = (archive.scan r).map .ok ∨ ∃ fault, s.items r = [.error (.store fault)] := by
  unfold Source.items
  cases hscan : s.scan r with
  | error fault => exact .inr ⟨fault, rfl⟩
  | ok pairs => exact .inl (congrArg (List.map Except.ok) (h.scan hscan))

namespace Migrator

variable {site : Site σ} {target : Target σ} {view : σ → Contents} {archive : Contents}
  {m m' : Migrator} {label : String} {r : KeyRange} {world world' : σ} {p : Pass σ}

/-! ### One namespace -/

lemma source_transcode (hspares : site.Spares target) (m : Migrator) (label : String)
    (items : List (Except Error Entry)) (world : σ) :
    site.source ((m.channel site target label).transcode items world).2.batch.world =
      site.source world := by
  have hkept := Channel.keeps_perform (c := m.channel site target label)
    (p := fun w => site.source w = site.source world) (fun _ _ hw => hspares.trans hw)
    (schedule (m.channel site target label).limit (m.channel site target label).label [] [] 0 items)
    rfl
  rwa [← Channel.transcode_eq_perform] at hkept

/-- What is copied with success is copied as a whole. -/
lemma copy_ok (ht : target.Tracks view Contents.overlay) (hspares : site.Spares target)
    (hreads : (site.source world).Reads archive) {stats : PassStats}
    (h : (m.channel site target label).transcode ((site.source world).items r) world =
      (.ok stats, p)) :
    view p.batch.world = (view world).overlay (archive.scan r) ∧
      stats.written = (archive.scan r).length ∧ (site.source p.batch.world).Reads archive := by
  have hperform := Channel.transcode_eq_perform (m.channel site target label) []
    ((site.source world).items r) world
  have hwritten := Channel.written_transcode h
  have hsource := source_transcode hspares m label ((site.source world).items r) world
  rw [h] at hperform hsource
  have hsound := Channel.fault?_of_perform_ok hperform.symm
  have hview := Channel.view_perform_ok ht hperform.symm
  rw [fault?_schedule] at hsound
  -- had the scan failed, the pass would have as well
  obtain hitems | ⟨fault, hitems⟩ := hreads.items_eq r
  · rw [hitems] at hview hwritten
    rw [entries_schedule _ _ _ _ _ (firstError?_map_ok _), leading_map_ok] at hview
    exact ⟨hview, hwritten.trans (List.length_map _), hsource ▸ hreads⟩
  · rw [hitems] at hsound
    cases hsound

/-- Where copying fails, whole batches have been copied. -/
lemma copy_error (ht : target.Tracks view Contents.overlay)
    (hreads : (site.source world).Reads archive) {e : Error}
    (h : (m.channel site target label).transcode ((site.source world).items r) world =
      (.error e, p)) :
    ∃ first, WholeBatches (max m.settings.batchSize.toNat 1) first (archive.scan r) ∧
      view p.batch.world = (view world).overlay first := by
  have hperform := Channel.transcode_eq_perform (m.channel site target label) []
    ((site.source world).items r) world
  rw [h] at hperform
  obtain ⟨done, s, rest, reached, hsteps, hdone, hs⟩ := Channel.perform_eq_error hperform.symm
  -- the step that failed wrote nothing
  have hview := (Channel.view_takeStep_error ht hs).trans (Channel.view_perform_ok ht hdone)
  have hwhole := wholeBatches_schedule (Nat.le_max_right _ 1) hsteps
  obtain hitems | ⟨fault, hitems⟩ := hreads.items_eq r
  · rw [hitems, leading_map_ok] at hwhole
    exact ⟨_, hwhole, hview⟩
  · obtain ⟨k, -, hfirst⟩ := hwhole
    rw [hitems] at hfirst
    refine ⟨[], .nil _ _, hview.trans ?_⟩
    rw [hfirst]
    simp [leading]

/-! ### One namespace after the other -/

/-- The namespaces `done` were copied as a whole and counted, and after them the pairs `first` were
written. -/
structure Copied (view : σ → Contents) (archive : Contents) (done : List Namespace)
    (first : List Entry) (m : Migrator) (world : σ) (m' : Migrator) (world' : σ) : Prop where
  written : view world' = (view world).overlay (done.flatMap archive.within ++ first)
  counted : ∀ ns, m'.report.copied.count ns =
    m.report.copied.count ns + done.count ns * (archive.within ns).length

/-- A migrator that has copied one more namespace. -/
def countCopied (m : Migrator) (ns : Namespace) (n : Nat) : Migrator :=
  { m with report := { m.report with copied := m.report.copied.add ns n } }

lemma Copied.cons {ns : Namespace} {done : List Namespace} {first : List Entry} {world₁ : σ}
    (hfirst : view world₁ = (view world).overlay (archive.within ns))
    (h : Copied view archive done first (m.countCopied ns (archive.within ns).length) world₁ m'
      world') :
    Copied view archive (ns :: done) first m world m' world' where
  written := by
    simp only [h.written, hfirst, List.flatMap_cons, Contents.overlay_append]
  counted ns' := by
    rw [h.counted, countCopied, Tally.count_add, List.count_cons]
    by_cases heq : ns = ns'
    · subst heq
      simp only [if_true, beq_self_eq_true, Nat.add_mul]
      omega
    · simp [heq]

/-- After whole namespaces a key that is in one of them is found with the value of the archive. -/
lemma Copied.getElem? {done : List Namespace} (h : Copied view archive done [] m world m' world')
    (key : Bytes) :
    (view world')[key]? =
      if key ∈ (done.flatMap archive.within).map Prod.fst then archive[key]?
      else (view world)[key]? := by
  have hwritten := h.written
  rw [List.append_nil] at hwritten
  rw [hwritten]
  refine Contents.getElem?_overlay_of_archive (fun e he => ?_) _ _
  obtain ⟨ns, -, he⟩ := List.mem_flatMap.1 he
  exact (Contents.mem_within.1 he).1

lemma copyEach_cons_ok {ns : Namespace} {rest : List Namespace}
    {copied : Std.ExtTreeMap Namespace Nat} {stats : PassStats}
    (h : (m.channel site target ns.name).transcode
      ((site.source world).items (KeyRange.ofNamespace ns)) world = (.ok stats, p)) :
    m.copyEach site target (ns :: rest) copied world =
      (m.countCopied ns stats.written).copyEach site target rest (copied.insert ns stats.written)
        p.batch.world := by
  simp only [copyEach, h]
  rfl

lemma copyEach_cons_error {ns : Namespace} {rest : List Namespace}
    {copied : Std.ExtTreeMap Namespace Nat} {e : Error}
    (h : (m.channel site target ns.name).transcode
      ((site.source world).items (KeyRange.ofNamespace ns)) world = (.error e, p)) :
    m.copyEach site target (ns :: rest) copied world =
      (.error (.context s!"copying namespace {ns.name}" e),
        m.fail none (.context s!"copying namespace {ns.name}" e), p.batch.world) := by
  simp only [copyEach, h]

section Loop

variable (ht : target.Tracks view Contents.overlay) (hspares : site.Spares target)
include ht hspares

/-- Copying that succeeds copies all namespaces. -/
lemma copyEach_eq_ok {namespaces : List Namespace} {copied copied' : Std.ExtTreeMap Namespace Nat}
    (hreads : (site.source world).Reads archive)
    (h : m.copyEach site target namespaces copied world = (.ok copied', m', world')) :
    Copied view archive namespaces [] m world m' world' := by
  induction namespaces generalizing copied m world with
  | nil =>
      cases h
      exact ⟨rfl, fun ns => by simp [MigrationReport.touch]⟩
  | cons ns namespaces ih =>
      rcases hcopy : (m.channel site target ns.name).transcode
        ((site.source world).items (KeyRange.ofNamespace ns)) world with ⟨e | stats, p⟩
      · rw [copyEach_cons_error hcopy] at h
        cases h
      · rw [copyEach_cons_ok hcopy] at h
        obtain ⟨hview, hwritten, hreads⟩ := copy_ok ht hspares hreads hcopy
        rw [hwritten] at h
        exact .cons hview (ih hreads h)

/-- Copying that fails has copied some namespaces, and whole batches of the next one. -/
lemma copyEach_eq_error {namespaces : List Namespace} {copied : Std.ExtTreeMap Namespace Nat}
    {e : Error} (hreads : (site.source world).Reads archive)
    (h : m.copyEach site target namespaces copied world = (.error e, m', world')) :
    ∃ done ns rest first, namespaces = done ++ ns :: rest ∧
      WholeBatches (max m.settings.batchSize.toNat 1) first (archive.within ns) ∧
      Copied view archive done first m world m' world' ∧ m'.state = .failed none e.message := by
  induction namespaces generalizing copied m world with
  | nil => cases h
  | cons ns namespaces ih =>
      rcases hcopy : (m.channel site target ns.name).transcode
        ((site.source world).items (KeyRange.ofNamespace ns)) world with ⟨e | stats, p⟩
      · rw [copyEach_cons_error hcopy] at h
        cases h
        obtain ⟨first, hwhole, hview⟩ := copy_error ht hreads hcopy
        exact ⟨[], ns, namespaces, first, rfl, hwhole, ⟨hview, fun ns => by simp [fail]⟩, rfl⟩
      · rw [copyEach_cons_ok hcopy] at h
        obtain ⟨hview, hwritten, hreads⟩ := copy_ok ht hspares hreads hcopy
        rw [hwritten] at h
        obtain ⟨done, ns', rest, first, rfl, hwhole, hcopied, hstate⟩ := ih hreads h
        exact ⟨ns :: done, ns', rest, first, rfl, hwhole, .cons hview hcopied, hstate⟩

end Loop

/-! ### Whole copies -/

/-- A copy that succeeds takes over the pairs of the namespaces and nothing else, and when they are
copied again, by whichever migrator and with whichever outcome, nothing changes any more. -/
structure CopiesAll (site : Site σ) (target : Target σ) (view : σ → Contents) (archive : Contents)
    (namespaces : List Namespace) (m : Migrator) (world : σ) (m' : Migrator) (world' : σ) :
    Prop where
  taken : ∀ ns ∈ namespaces, ∀ {key value}, (KeyRange.ofNamespace ns).contains key = true →
    archive[key]? = some value → (view world')[key]? = some value
  kept : ∀ {key}, (∀ ns ∈ namespaces, (KeyRange.ofNamespace ns).contains key = true →
    key ∉ archive) → (view world')[key]? = (view world)[key]?
  counted : ∀ ns, m'.report.copied.count ns =
    m.report.copied.count ns + namespaces.count ns * (archive.within ns).length
  again : ∀ (m₂ : Migrator) {world₂}, view world₂ = view world' →
    (site.source world₂).Reads archive →
      view (m₂.copyNamespaces site target namespaces world₂).2.2 = view world₂

/-- A copy that fails has copied some of the namespaces as a whole, and only these are counted; of
the next one it has copied some first pairs, in whole batches; and nothing of the others. -/
structure CopiesUpTo (view : σ → Contents) (archive : Contents) (namespaces : List Namespace)
    (m : Migrator) (world : σ) (e : Error) (m' : Migrator) (world' : σ) : Prop where
  stopped : ∃ done ns rest first, namespaces = done ++ ns :: rest ∧
    WholeBatches (max m.settings.batchSize.toNat 1) first (archive.within ns) ∧
    Copied view archive done first m world m' world'
  state : m'.state = .failed none e.message

section Whole

variable (ht : target.Tracks view Contents.overlay) (hspares : site.Spares target)
include ht hspares

/-- Whatever the outcome, only pairs of the namespaces are written. -/
lemma view_copyNamespaces (m : Migrator) (namespaces : List Namespace)
    (hreads : (site.source world).Reads archive) :
    ∃ entries, (∀ e ∈ entries, ∃ ns ∈ namespaces, e ∈ archive.within ns) ∧
      view (m.copyNamespaces site target namespaces world).2.2 = (view world).overlay entries := by
  unfold copyNamespaces
  split
  · rcases h : m.copyEach site target namespaces ∅ world with ⟨e | copied, m', world'⟩
    · obtain ⟨done, ns, rest, first, rfl, ⟨k, -, rfl⟩, hcopied, -⟩ :=
        copyEach_eq_error ht hspares hreads h
      refine ⟨_, fun e he => ?_, hcopied.written⟩
      obtain hdone | hfirst := List.mem_append.1 he
      · obtain ⟨ns', hns', he⟩ := List.mem_flatMap.1 hdone
        exact ⟨ns', List.mem_append_left _ hns', he⟩
      · exact ⟨ns, List.mem_append_right _ List.mem_cons_self, List.mem_of_mem_take hfirst⟩
    · have hcopied := copyEach_eq_ok ht hspares hreads h
      refine ⟨_, fun e he => ?_, hcopied.written⟩
      rw [List.append_nil] at he
      exact List.mem_flatMap.1 he
  · exact ⟨[], fun e he => (nomatch he), rfl⟩

/-- Namespaces that were copied as a whole leave nothing to be copied. -/
lemma Copied.copiesAll {namespaces : List Namespace}
    (h : Copied view archive namespaces [] m world m' world') :
    CopiesAll site target view archive namespaces m world m' world' := by
  have hfound := h.getElem?
  have htaken : ∀ ns ∈ namespaces, ∀ e ∈ archive.within ns, (view world')[e.1]? = some e.2 := by
    intro ns hns e he
    rw [hfound, if_pos (List.mem_map_of_mem (List.mem_flatMap.2 ⟨ns, hns, he⟩))]
    exact (Contents.mem_within.1 he).1
  refine ⟨fun ns hns key value hin hvalue => ?_, fun {key} hout => ?_, h.counted,
    fun m₂ world₂ hview hreads => ?_⟩
  · exact htaken ns hns (key, value) (Contents.mem_within.2 ⟨hvalue, hin⟩)
  · rw [hfound, if_neg]
    intro hmem
    obtain ⟨e, he, rfl⟩ := List.mem_map.1 hmem
    obtain ⟨ns, hns, he⟩ := List.mem_flatMap.1 he
    obtain ⟨hvalue, hin⟩ := Contents.mem_within.1 he
    exact hout ns hns hin (mem_iff_exists_getElem?.2 ⟨_, hvalue⟩)
  · -- whatever is written once more is there already
    obtain ⟨entries, hentries, hoverlay⟩ := view_copyNamespaces ht hspares m₂ namespaces hreads
    rw [hoverlay]
    refine Contents.overlay_of_present fun e he => ?_
    obtain ⟨ns, hns, he⟩ := hentries e he
    rw [hview]
    exact htaken ns hns e he

/-- A copy that succeeds is exact, and one that fails stops between two batches. -/
theorem copyNamespaces_exact (hreads : (site.source world).Reads archive)
    (hready : m.state.canCopy = true) (namespaces : List Namespace) :
    (∀ {copied m' world'},
        m.copyNamespaces site target namespaces world = (.ok copied, m', world') →
          CopiesAll site target view archive namespaces m world m' world') ∧
      ∀ {e m' world'}, m.copyNamespaces site target namespaces world = (.error e, m', world') →
        CopiesUpTo view archive namespaces m world e m' world' := by
  rw [copyNamespaces, if_pos hready]
  refine ⟨fun {copied m' world'} h => ?_, fun {e m' world'} h => ?_⟩
  · exact (copyEach_eq_ok ht hspares hreads h).copiesAll ht hspares
  · obtain ⟨done, ns, rest, first, hsplit, hwhole, hcopied, hstate⟩ :=
      copyEach_eq_error ht hspares hreads h
    exact ⟨⟨done, ns, rest, first, hsplit, hwhole, hcopied⟩, hstate⟩

/-- A copy that succeeds takes over every record of the namespaces whose id comes before the
sentinel at which the range of its namespace ends. -/
theorem copyNamespaces_complete {namespaces : List Namespace}
    {copied : Std.ExtTreeMap Namespace Nat} (hreads : (site.source world).Reads archive)
    (h : m.copyNamespaces site target namespaces world = (.ok copied, m', world'))
    {ns : Namespace} (hns : ns ∈ namespaces) {key value : Bytes} {id : RecordId}
    (hkey : Key.decode ns key = .ok id) (hbelow : id.Below ns.shape)
    (hvalue : archive[key]? = some value) : (view world')[key]? = some value := by
  have hin : (KeyRange.ofNamespace ns).contains key = true := by
    rw [← Key.encode_of_decode hkey]
    exact (KeyRange.contains_encode_iff (Key.fits_of_decode hkey)).2 hbelow
  unfold copyNamespaces at h
  split at h
  · exact ((copyEach_eq_ok ht hspares hreads h).copiesAll ht hspares).taken ns hns hin hvalue
  · cases h

end Whole

end Migrator

/-! ### A rehearsed copy -/

namespace Rehearsal

/-- What the store at a path holds. -/
def placed (path : String) (w : Rehearsal) : Contents := (w.place path).contents

lemma place_setPlace (w : Rehearsal) (path : String) (store : MemoryStore) :
    (w.setPlace path store).countCommit.place path = store := by
  simp [place, setPlace, countCommit]

/-- Accepted batches are laid over what the store at a path holds. -/
lemma tracks_placed (path : String) :
    (placeTarget path).Tracks (placed path) Contents.overlay := by
  refine ⟨fun _ => rfl, Contents.overlay_append, fun {durable batch w w'} h => ?_,
    fun {durable batch w w' fault} h => ?_⟩
  · cases hr : (w.place path).refuses with
    | true => simp [placeTarget, MemoryStore.commit, hr] at h
    | false =>
        simp only [placeTarget, MemoryStore.commit, hr, Bool.false_eq_true, if_false] at h
        obtain ⟨-, rfl⟩ := Prod.mk.inj h
        rw [placed, place_setPlace]
        rfl
  · cases hr : (w.place path).refuses with
    | true =>
        simp only [placeTarget, MemoryStore.commit, hr, if_true] at h
        obtain ⟨-, rfl⟩ := Prod.mk.inj h
        rfl
    | false => simp [placeTarget, MemoryStore.commit, hr] at h

lemma spares_placeTarget (path : String) : Rehearsal.site.Spares (placeTarget path) := by
  intro durable batch w
  simp only [placeTarget]
  split <;> rfl

/-- Namespaces of the sample to copy, one of them twice. -/
def sampleNamespaces : List Namespace := [.lastProcessedTickPerEpoch, .tickData, .tickData]

/-- The sample, cancelled after two commits. -/
def sampleCut : Rehearsal := { sample with cancelAfter := some 2 }

/-- A copy of the sample is exact, and where it is cut off it stops between two batches. -/
theorem copyNamespaces_exact_sample :
    (∃ copied m' w',
        sampleMigrator.copyNamespaces site (placeTarget "out") sampleNamespaces sample =
          (.ok copied, m', w') ∧
        Migrator.CopiesAll site (placeTarget "out") (placed "out") sampleArchive sampleNamespaces
          sampleMigrator sample m' w') ∧
      ∃ e m' w',
        sampleMigrator.copyNamespaces site (placeTarget "out") sampleNamespaces sampleCut =
          (.error e, m', w') ∧
        Migrator.CopiesUpTo (placed "out") sampleArchive sampleNamespaces sampleMigrator sampleCut e
          m' w' := by
  have ht := tracks_placed "out"
  have hspares : site.Spares (placeTarget "out") := spares_placeTarget "out"
  have hreads : (site.source sample).Reads sampleArchive := Source.reads_ofContents _
  have hreads' : (site.source sampleCut).Reads sampleArchive := Source.reads_ofContents _
  have hready : sampleMigrator.state.canCopy = true := by decide +kernel
  constructor
  · have hok : (sampleMigrator.copyNamespaces site (placeTarget "out") sampleNamespaces
        sample).1.isOk = true := by
      decide +kernel
    obtain ⟨hall, -⟩ := Migrator.copyNamespaces_exact ht hspares hreads hready sampleNamespaces
    rcases h : sampleMigrator.copyNamespaces site (placeTarget "out") sampleNamespaces sample with
      ⟨e | copied, m', w'⟩
    · rw [h] at hok
      cases hok
    · exact ⟨copied, m', w', rfl, hall h⟩
  · have hfails : (sampleMigrator.copyNamespaces site (placeTarget "out") sampleNamespaces
        sampleCut).1.isOk = false := by
      decide +kernel
    obtain ⟨-, hcut⟩ := Migrator.copyNamespaces_exact ht hspares hreads' hready sampleNamespaces
    rcases h : sampleMigrator.copyNamespaces site (placeTarget "out") sampleNamespaces
      sampleCut with ⟨e | copied, m', w'⟩
    · exact ⟨e, m', w', rfl, hcut h⟩
    · rw [h] at hfails
      cases hfails

/-- Tick data of the sample are there after a copy. -/
theorem copyNamespaces_complete_sample :
    ∃ copied m' w' value,
      sampleMigrator.copyNamespaces site (placeTarget "out") [.tickData] sample =
        (.ok copied, m', w') ∧
      sampleArchive[Key.word .tickData 10]? = some value ∧
      (placed "out" w')[Key.word .tickData 10]? = some value := by
  have hspares : site.Spares (placeTarget "out") := spares_placeTarget "out"
  have hreads : (site.source sample).Reads sampleArchive := Source.reads_ofContents _
  have hok : (sampleMigrator.copyNamespaces site (placeTarget "out") [.tickData]
      sample).1.isOk = true := by
    decide +kernel
  have hthere : sampleArchive[Key.word .tickData 10]?.isSome = true := by decide +kernel
  have hkey : Key.decode .tickData (Key.word .tickData 10) = .ok (.numeric 10) := by
    decide +kernel
  have hbelow : (RecordId.numeric 10).Below Namespace.tickData.shape := by
    show (10 : UInt64) < 0xFFFFFFFFFFFFFFFF
    decide
  obtain ⟨value, hvalue⟩ := Option.isSome_iff_exists.1 hthere
  rcases h : sampleMigrator.copyNamespaces site (placeTarget "out") [.tickData] sample with
    ⟨e | copied, m', w'⟩
  · rw [h] at hok
    cases hok
  · exact ⟨copied, m', w', value, rfl, hvalue,
      Migrator.copyNamespaces_complete (tracks_placed "out") hspares hreads h
        (List.mem_singleton.2 rfl) hkey hbelow hvalue⟩

/-- The key of the sentinel of the numeric namespace of digests. -/
def sentinelKey : Bytes := Key.numeric .chainDigest 0xFFFFFFFFFFFFFFFF

/-- An archive with a single record, under the sentinel. -/
def sentinelArchive : Contents := SampleArchive.ofItems [.put (sentinelKey, [1])]

/-- A migrator of this archive. -/
def sentinelMigrator : Migrator := .fresh site {} { source := sentinelArchive }

/-- A record under the sentinel of its namespace is not copied, and the copy succeeds. -/
theorem copyNamespaces_sentinel :
    Key.decode .chainDigest sentinelKey = .ok (.numeric 0xFFFFFFFFFFFFFFFF) ∧
      sentinelArchive[sentinelKey]? = some [1] ∧
      (sentinelMigrator.copyNamespaces site (placeTarget "out") [.chainDigest]
        { source := sentinelArchive }).1.isOk = true ∧
      (placed "out" (sentinelMigrator.copyNamespaces site (placeTarget "out") [.chainDigest]
        { source := sentinelArchive }).2.2)[sentinelKey]? = none := by
  decide +kernel

end Rehearsal

end EpochSplit
